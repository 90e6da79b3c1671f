import Htx.Hxestorage.SegTable
import Htx.Hxestorage.ValidationLoop

/-!
# A whole validation test

`execute_validation_test` with the exits of its loops.  Every region of the loops locks
its block range, calls through `operations[]` until a call fails, and unlocks.
-/

namespace Htx.Hxestorage

open List LoopContext

structure TestEnv where
  ctx : LoopContext
  /-- `num_oper`; `none` is `-1`, which runs until a flag is seen. -/
  numOper : Access -> Option Nat
  /-- `blkno[0]` and the last block of the `k`-th locked range. -/
  blkRange : Nat -> Nat × Nat
  /-- The `k`-th call through `operations[]` returns 0. -/
  succeeds : Nat -> Bool
  /-- At the top of the `n`-th iteration a signal flag is seen, or
  `allocate_buffers` fails. -/
  leaves : Nat -> Bool

structure TestState where
  calls : List (Oper × Bool)
  locks : Nat
  inUse : List (Nat × Nat)
  deriving DecidableEq

inductive StopCause where
  | cleanup
  | waitsForItself
  | nullCall
  deriving DecidableEq

structure Stop where
  cause : StopCause
  state : TestState
  deriving DecidableEq

def ownEntry (range : Nat × Nat) : SegmentTableData Unit where
  flba := range.1
  llba := range.2
  segFlba := range.1
  segLlba := range.2
  tid := ()
  threadTime := 0
  hangCount := 0
  inUse := true

namespace TestState

def start : TestState :=
  ⟨[], 0, []⟩

variable (env : TestEnv)

def segLock (st : TestState) : Except Stop TestState :=
  let range := env.blkRange st.locks
  if exists held, held ∈ st.inUse ∧ (ownEntry held).Overlaps range.1 range.2 then
    .error ⟨.waitsForItself, st⟩
  else
    .ok { st with locks := st.locks + 1, inUse := range :: st.inUse }

def segUnlock (st : TestState) : TestState :=
  { st with inUse := st.inUse.tail }

def invoke (oper : Oper) (st : TestState) : Except Stop (Bool × TestState) :=
  if oper = .null then .error ⟨.nullCall, st⟩
  else
    let ok := env.succeeds st.calls.length
    .ok (ok, { st with calls := (oper, ok) :: st.calls })

def invokeAll : List Oper -> TestState -> Except Stop (Bool × TestState)
  | [], st => .ok (true, st)
  | oper :: rest, st => do
      let result <- st.invoke env oper
      if result.1 then invokeAll rest result.2 else .ok result

def finishBody (result : Bool × TestState) : Except Stop TestState :=
  if result.1 then .ok result.2.segUnlock
  else .error ⟨.cleanup, result.2.segUnlock⟩

def guardedBody (ops : List Oper) (st : TestState) : Except Stop TestState := do
  let locked <- st.segLock env
  let result <- locked.invokeAll env ops
  finishBody result

def guardedLoop (ops : List Oper) : Nat -> TestState -> Except Stop TestState
  | 0, st => .ok st
  | n + 1, st => st.guardedBody env ops >>= guardedLoop ops n

def writesLeftLoop (oper : Oper) : Nat -> TestState -> Except Stop TestState
  | 0, st => .ok st
  | n + 1, st => do
      let locked <- st.segLock env
      let result <- locked.invoke env oper
      if result.1 then writesLeftLoop oper n result.2.segUnlock
      else .ok result.2

def hotRound (a : Access) (st : TestState) : Except Stop TestState := do
  let rounds <- st.guardedLoop env env.ctx.operations env.ctx.opertn
  let written <- rounds.writesLeftLoop env (env.ctx.leftWrite a) env.ctx.nwritesLeft
  written.guardedLoop env (env.ctx.operations.drop 1) env.ctx.nreadsLeft

def hotnessLoop (a : Access) : Nat -> TestState -> Except Stop TestState
  | 0, st => .ok st
  | n + 1, st => st.hotRound env a >>= hotnessLoop a n

def iteration (a : Access) (st : TestState) : Except Stop TestState :=
  match a with
  | .seq =>
    if env.ctx.bwrc then st.guardedBody env env.ctx.operations
    else st.hotnessLoop env .seq env.ctx.hotness
  | .random => st.hotnessLoop env .random env.ctx.hotness

end TestState

def TestEnv.section? (env : TestEnv) (n : Nat) : Option Access :=
  match env.numOper .seq with
  | none => some .seq
  | some k =>
    if n < k then some .seq
    else
      match env.numOper .random with
      | none => some .random
      | some j => if n < k + j then some .random else none

inductive TestEnd where
  | running (st : TestState)
  | returned (st : TestState)
  | hung (st : TestState)
  | crashed (st : TestState)
  deriving DecidableEq

def Stop.testEnd (stop : Stop) : TestEnd :=
  match stop.cause with
  | .cleanup => .returned stop.state
  | .waitsForItself => .hung stop.state
  | .nullCall => .crashed stop.state

def executeFrom (env : TestEnv) : Nat -> Nat -> TestState -> TestEnd
  | 0, _, st => .running st
  | fuel + 1, n, st =>
    match env.section? n with
    | none => .returned st
    | some a =>
      if env.leaves n then .returned st
      else
        match st.iteration env a with
        | .error stop => stop.testEnd
        | .ok st' => executeFrom env fuel (n + 1) st'

def executeValidationTest (env : TestEnv) (fuel : Nat) : TestEnd :=
  executeFrom env fuel 0 .start

/-!
# The calls in order
-/

def Instr.calls : Instr -> List (Region × Oper)
  | .body region ops => ops.map fun oper => (region, oper)
  | .setRemaining _ => []
  | .decRemaining => []

def LoopContext.schedule (c : LoopContext) (a : Access) : List (Region × Oper) :=
  (c.iteration a).flatMap Instr.calls

inductive Verdict where
  | passes
  | fails
  | spoils
  deriving DecidableEq

def verdict (succeeds : Nat -> Bool) : Nat -> List (Region × Oper) -> Verdict
  | _, [] => .passes
  | k, (region, oper) :: rest =>
    if oper = .null then .spoils
    else if succeeds k then verdict succeeds (k + 1) rest
    else if region = .writesLeft then .spoils else .fails

theorem verdict_append (succeeds : Nat -> Bool) (k : Nat) (front rest : List (Region × Oper)) :
    verdict succeeds k (front ++ rest) =
      match verdict succeeds k front with
      | .passes => verdict succeeds (k + front.length) rest
      | .fails => .fails
      | .spoils => .spoils := by
  induction front generalizing k with
  | nil => rfl
  | cons call front ih =>
    have hlen : k + (call :: front).length = k + 1 + front.length := by
      rw [length_cons]
      omega
    rw [hlen, cons_append]
    simp only [verdict]
    split_ifs
    · rfl
    · exact ih (k + 1)
    · rfl
    · rfl

variable {calls : List (Region × Oper)}

theorem verdict_of_succeeds {succeeds : Nat -> Bool} (hall : forall k, succeeds k = true)
    (k : Nat) :
    verdict succeeds k calls = .passes <-> forall call, call ∈ calls -> call.2 ≠ .null := by
  induction calls generalizing k with
  | nil => simp [verdict]
  | cons call rest ih =>
    rw [forall_mem_cons, ← ih (k + 1)]
    by_cases hnull : call.2 = .null
    · simp [verdict, hnull]
    · simp [verdict, hnull, hall k]

/-!
# What a piece of the test does
-/

namespace TestState

variable {env : TestEnv} {st st' : TestState} {ops : List Oper} {region : Region}

def Clean (st : TestState) : Prop :=
  st.inUse = [] ∧ forall call, call ∈ st.calls -> call.2 = true

def Settled (st : TestState) : Prop :=
  st.inUse = [] ∧ forall call, call ∈ st.calls.tail -> call.2 = true

def Leaked (st : TestState) : Prop :=
  st.inUse ≠ [] ∧ exists call, call ∈ st.calls ∧ call.2 = false

def record (st : TestState) (calls : List (Oper × Bool)) : TestState :=
  { st with calls := calls ++ st.calls }

theorem Clean.settled (h : st.Clean) : st.Settled :=
  ⟨h.1, fun call hcall => h.2 call (mem_of_mem_tail hcall)⟩

theorem record_record (front calls : List (Oper × Bool)) :
    (st.record calls).record front = st.record (front ++ calls) := by
  simp [record]

def locked (env : TestEnv) (st : TestState) : TestState :=
  { st with locks := st.locks + 1, inUse := env.blkRange st.locks :: st.inUse }

theorem segLock_of_clean (h : st.inUse = []) : st.segLock env = .ok (st.locked env) := by
  unfold segLock
  simp [h, locked]

theorem segLock_cases (env : TestEnv) (st : TestState) :
    st.segLock env = .error ⟨.waitsForItself, st⟩ ∨ st.segLock env = .ok (st.locked env) := by
  by_cases h : exists held, held ∈ st.inUse ∧
      (ownEntry held).Overlaps (env.blkRange st.locks).1 (env.blkRange st.locks).2
  · exact .inl (if_pos h)
  · exact .inr (if_neg h)

theorem invoke_null : st.invoke env .null = .error ⟨.nullCall, st⟩ :=
  if_pos rfl

theorem invoke_of_ne {oper : Oper} (h : oper ≠ .null) : st.invoke env oper =
      .ok (env.succeeds st.calls.length, st.record [(oper, env.succeeds st.calls.length)]) :=
  if_neg h

theorem invokeAll_passes (st : TestState)
    (h : verdict env.succeeds st.calls.length (ops.map fun oper => (region, oper)) = .passes) :
    st.invokeAll env ops = .ok (true, st.record (ops.map fun oper => (oper, true)).reverse) := by
  induction ops generalizing st with
  | nil => rfl
  | cons oper rest ih =>
    simp only [map_cons, verdict] at h
    split_ifs at h with hnull hok
    have hrest := ih (st.record [(oper, true)]) h
    unfold invokeAll
    rw [invoke_of_ne hnull, hok]
    change (st.record [(oper, true)]).invokeAll env rest = _
    rw [hrest, record_record, map_cons, reverse_cons]

theorem invokeAll_fails (st : TestState)
    (h : verdict env.succeeds st.calls.length (ops.map fun oper => (region, oper)) = .fails) :
    exists oper front, st.invokeAll env ops = .ok (false, st.record ((oper, false) :: front)) ∧
      forall call, call ∈ front -> call.2 = true := by
  induction ops generalizing st with
  | nil => cases h
  | cons oper rest ih =>
    simp only [map_cons, verdict] at h
    unfold invokeAll
    split_ifs at h with hnull hok hregion
    · rcases ih (st.record [(oper, true)]) h with ⟨last, front, hrest, hfront⟩
      refine ⟨last, front ++ [(oper, true)], ?_, ?_⟩
      · rw [invoke_of_ne hnull, hok]
        change (st.record [(oper, true)]).invokeAll env rest = _
        rw [hrest, record_record]
        rfl
      · intro call hcall
        rcases mem_append.mp hcall with hcall | hcall
        · exact hfront call hcall
        · rw [mem_singleton.mp hcall]
    · refine ⟨oper, [], ?_, fun call hcall => nomatch hcall⟩
      rw [invoke_of_ne hnull, Bool.eq_false_of_not_eq_true hok]
      rfl

theorem invokeAll_spoils (hregion : region ≠ .writesLeft) (st : TestState)
    (h : verdict env.succeeds st.calls.length (ops.map fun oper => (region, oper)) = .spoils) :
    exists st', st.invokeAll env ops = .error ⟨.nullCall, st'⟩ := by
  induction ops generalizing st with
  | nil => cases h
  | cons oper rest ih =>
    simp only [map_cons, verdict] at h
    unfold invokeAll
    split_ifs at h with hnull hok
    · rw [hnull, invoke_null]
      exact ⟨st, rfl⟩
    · rcases ih (st.record [(oper, true)]) h with ⟨st', hrest⟩
      rw [invoke_of_ne hnull, hok]
      exact ⟨st', hrest⟩

theorem invokeAll_cases (env : TestEnv) (ops : List Oper) (st : TestState) :
    (exists st', st.invokeAll env ops = .error ⟨.nullCall, st'⟩) ∨
      exists ok calls, st.invokeAll env ops = .ok (ok, st.record calls) ∧
        (ok = true -> calls.length = ops.length) := by
  induction ops generalizing st with
  | nil => exact .inr ⟨true, [], rfl, fun _ => rfl⟩
  | cons oper rest ih =>
    unfold invokeAll
    by_cases hnull : oper = .null
    · rw [hnull, invoke_null]
      exact .inl ⟨st, rfl⟩
    · rw [invoke_of_ne hnull]
      cases env.succeeds st.calls.length with
      | false => exact .inr ⟨false, [(oper, false)], rfl, fun h => nomatch h⟩
      | true =>
        rcases ih (st.record [(oper, true)]) with ⟨st', hrest⟩ | ⟨ok, calls, hrest, hlen⟩
        · exact .inl ⟨st', hrest⟩
        · refine .inr ⟨ok, calls ++ [(oper, true)], ?_, fun hok => ?_⟩
          · change (st.record [(oper, true)]).invokeAll env rest = _
            rw [hrest, record_record]
          · rw [length_append, hlen hok]
            rfl

def Spoiled : Except Stop TestState -> Prop
  | .ok st => st.Leaked
  | .error stop => stop.cause = .cleanup -> stop.state.Leaked

structure Follows (env : TestEnv) (piece : TestState -> Except Stop TestState)
    (calls : List (Region × Oper)) : Prop where
  passes : forall st, st.Clean -> verdict env.succeeds st.calls.length calls = .passes ->
    exists st', piece st = .ok st' ∧ st'.inUse = [] ∧
      st'.calls = (calls.map fun call => (call.2, true)).reverse ++ st.calls
  fails : forall st, st.Clean -> verdict env.succeeds st.calls.length calls = .fails ->
    exists st', piece st = .error ⟨.cleanup, st'⟩ ∧ st'.Settled
  spoils : forall st, st.Clean -> verdict env.succeeds st.calls.length calls = .spoils ->
    Spoiled (piece st)
  leaks : forall st st', st.Clean ->
    verdict env.succeeds st.calls.length calls = .spoils -> piece st = .ok st' ->
      exists oper, oper ≠ .null ∧ (.writesLeft, oper) ∈ calls
  keeps : forall st, st.Leaked -> Spoiled (piece st)
  grows : forall st st', piece st = .ok st' -> exists front, st'.calls = front ++ st.calls ∧
    (calls ≠ [] -> front ≠ [])

theorem Clean.passed (h : st.Clean) (huse : st'.inUse = [])
    (hcalls : st'.calls = (calls.map fun call => (call.2, true)).reverse ++ st.calls) :
    st'.Clean ∧ st'.calls.length = st.calls.length + calls.length := by
  constructor
  · refine ⟨huse, fun call hcall => ?_⟩
    rw [hcalls] at hcall
    rcases mem_append.mp hcall with hcall | hcall
    · rcases mem_map.mp (mem_reverse.mp hcall) with ⟨_, _, rfl⟩
      rfl
    · exact h.2 call hcall
  · rw [hcalls, length_append, length_reverse, length_map]
    exact add_comm _ _

theorem Follows.nothing (env : TestEnv) : Follows env .ok [] where
  passes := fun st h _ => ⟨st, rfl, h.1, rfl⟩
  fails := fun _ _ h => nomatch h
  spoils := fun _ _ h => nomatch h
  leaks := fun _ _ _ h => nomatch h
  keeps := fun _ h => h
  grows := fun st st' h => by
    cases h
    exact ⟨[], rfl, fun h => absurd rfl h⟩

theorem Follows.spoiled {g : TestState -> Except Stop TestState}
    (hg : Follows env g calls) {r : Except Stop TestState} (h : Spoiled r) : Spoiled (r >>= g) := by
  cases r with
  | error stop => exact h
  | ok st => exact hg.keeps st h

variable {front rest : List (Region × Oper)}

/-- The verdict on two pieces is that on the second, after the first has passed, or that on the
first. -/
theorem Follows.split {f : TestState -> Except Stop TestState}
    (hf : Follows env f front) (hclean : st.Clean) {v : Verdict}
    (h : verdict env.succeeds st.calls.length (front ++ rest) = v) :
    (exists st', f st = .ok st' ∧ st'.Clean ∧
      st'.calls = (front.map fun call => (call.2, true)).reverse ++ st.calls ∧
        verdict env.succeeds st'.calls.length rest = v) ∨
      v ≠ .passes ∧ verdict env.succeeds st.calls.length front = v := by
  rw [verdict_append] at h
  cases hv : verdict env.succeeds st.calls.length front with
  | passes =>
    rw [hv] at h
    rcases hf.passes st hclean hv with ⟨st', hst', huse, hcalls⟩
    rcases hclean.passed huse hcalls with ⟨hclean', hlen⟩
    rw [← hlen] at h
    exact .inl ⟨st', hst', hclean', hcalls, h⟩
  | fails | spoils =>
    rw [hv] at h
    exact .inr ⟨h ▸ Verdict.noConfusion, h⟩

theorem Follows.andThen {f g : TestState -> Except Stop TestState}
    (hf : Follows env f front)
    (hg : Follows env g rest) : Follows env (fun st => f st >>= g) (front ++ rest) := by
  constructor
  case passes =>
    intro st hclean h
    rcases hf.split hclean h with ⟨st', hst', hclean', hcalls, hv⟩ | ⟨hne, _⟩
    · rcases hg.passes st' hclean' hv with ⟨st'', hst'', huse, hcalls'⟩
      refine ⟨st'', ?_, huse, ?_⟩
      · rw [hst']
        exact hst''
      · rw [hcalls', hcalls, map_append, reverse_append, append_assoc]
    · exact absurd rfl hne
  case fails =>
    intro st hclean h
    rcases hf.split hclean h with ⟨st', hst', hclean', _, hv⟩ | ⟨_, hv⟩
    · rw [hst']
      exact hg.fails st' hclean' hv
    · rcases hf.fails st hclean hv with ⟨st', hst', hsettled⟩
      rw [hst']
      exact ⟨st', rfl, hsettled⟩
  case spoils =>
    intro st hclean h
    rcases hf.split hclean h with ⟨st', hst', hclean', _, hv⟩ | ⟨_, hv⟩
    · rw [hst']
      exact hg.spoils st' hclean' hv
    · exact hg.spoiled (hf.spoils st hclean hv)
  case leaks =>
    intro st st'' hclean h hpiece
    rcases hf.split hclean h with ⟨st', hst', hclean', _, hv⟩ | ⟨_, hv⟩
    · rw [hst'] at hpiece
      rcases hg.leaks st' st'' hclean' hv hpiece with ⟨oper, hne, hmem⟩
      exact ⟨oper, hne, mem_append_right _ hmem⟩
    · cases hst' : f st with
      | error stop =>
        rw [hst'] at hpiece
        cases hpiece
      | ok st' =>
        rcases hf.leaks st st' hclean hv hst' with ⟨oper, hne, hmem⟩
        exact ⟨oper, hne, mem_append_left _ hmem⟩
  case keeps =>
    intro st hleaked
    exact hg.spoiled (hf.keeps st hleaked)
  case grows =>
    intro st st'' h
    cases hst' : f st with
    | error stop =>
      rw [hst'] at h
      cases h
    | ok st' =>
      rw [hst'] at h
      rcases hf.grows st st' hst' with ⟨calls, hcalls, hne⟩
      rcases hg.grows st' st'' h with ⟨calls', hcalls', hne'⟩
      refine ⟨calls' ++ calls, ?_, fun happend hnil => ?_⟩
      · rw [hcalls', hcalls, append_assoc]
      · rcases append_eq_nil_iff.mp hnil with ⟨hnil', hnil⟩
        apply happend
        rw [append_eq_nil_iff]
        exact ⟨not_not.mp fun h => hne h hnil, not_not.mp fun h => hne' h hnil'⟩

theorem Leaked.record (h : st.Leaked) (calls : List (Oper × Bool)) (locks : Nat)
    (inUse : List (Nat × Nat)) (huse : inUse ≠ []) :
    Leaked ⟨calls ++ st.calls, locks, inUse⟩ := by
  rcases h with ⟨_, call, hcall, hfailed⟩
  exact ⟨huse, call, mem_append_right _ hcall, hfailed⟩

theorem guardedBody_of_clean (h : st.inUse = []) :
    guardedBody env ops st = (st.locked env).invokeAll env ops >>= finishBody := by
  unfold guardedBody
  rw [segLock_of_clean h]
  rfl

open StopCause

theorem guardedBody_cases (env : TestEnv) (ops : List Oper) (st : TestState) :
    (exists stop, guardedBody env ops st = .error stop ∧ stop.cause ≠ .cleanup) ∨
      exists ok calls, guardedBody env ops st = finishBody (ok, (st.locked env).record calls) ∧
        (ok = true -> calls.length = ops.length) := by
  unfold guardedBody
  rcases segLock_cases env st with hlock | hlock
  · rw [hlock]
    exact .inl ⟨_, rfl, noConfusion⟩
  · rw [hlock]
    change (exists stop, ((st.locked env).invokeAll env ops >>= finishBody) = _ ∧ _) ∨
      exists ok calls, ((st.locked env).invokeAll env ops >>= finishBody) = _ ∧ _
    rcases invokeAll_cases env ops (st.locked env) with ⟨st', hall⟩ | ⟨ok, calls, hall, hlen⟩
    · rw [hall]
      exact .inl ⟨_, rfl, noConfusion⟩
    · rw [hall]
      exact .inr ⟨ok, calls, rfl, hlen⟩

theorem guardedBody_follows (hregion : region ≠ .writesLeft) :
    Follows env (guardedBody env ops) (ops.map fun oper => (region, oper)) := by
  constructor
  case passes =>
    intro st hclean h
    rw [guardedBody_of_clean hclean.1, invokeAll_passes (st.locked env) h]
    refine ⟨_, rfl, hclean.1, ?_⟩
    rw [map_map]
    rfl
  case fails =>
    intro st hclean h
    rcases invokeAll_fails (st.locked env) h with ⟨oper, front, hall, hfront⟩
    rw [guardedBody_of_clean hclean.1, hall]
    refine ⟨_, rfl, hclean.1, ?_⟩
    intro call hcall
    rcases mem_append.mp hcall with hcall | hcall
    · exact hfront call hcall
    · exact hclean.2 call hcall
  case spoils =>
    intro st hclean h
    rcases invokeAll_spoils hregion (st.locked env) h with ⟨st', hall⟩
    rw [guardedBody_of_clean hclean.1, hall]
    exact fun hcause => nomatch hcause
  case leaks =>
    intro st st' hclean h hpiece
    rcases invokeAll_spoils hregion (st.locked env) h with ⟨stop, hall⟩
    rw [guardedBody_of_clean hclean.1, hall] at hpiece
    cases hpiece
  case keeps =>
    intro st hleaked
    rcases guardedBody_cases env ops st with ⟨stop, hbody, hcause⟩ | ⟨ok, calls, hbody, _⟩
    · rw [hbody]
      exact fun h => absurd h hcause
    · rw [hbody]
      cases ok with
      | true => exact hleaked.record calls _ _ hleaked.1
      | false => exact fun _ => hleaked.record calls _ _ hleaked.1
  case grows =>
    intro st st' h
    rcases guardedBody_cases env ops st with ⟨stop, hbody, _⟩ | ⟨ok, calls, hbody, hlen⟩
    · rw [hbody] at h
      cases h
    · rw [hbody] at h
      cases ok with
      | true =>
        cases h
        refine ⟨calls, rfl, fun hne hnil => hne ?_⟩
        have hzero := hlen rfl
        rw [hnil] at hzero
        rw [eq_nil_of_length_eq_zero hzero.symm]
        rfl
      | false => cases h

/-- One more call: what stops before it leaves no lock behind, and where it fails the loop ends
by the `break` between the lock and the unlock. -/
theorem writesLeftLoop_cases (env : TestEnv) (oper : Oper) (n : Nat) (st : TestState) :
    (exists stop, writesLeftLoop env oper (n + 1) st = .error stop ∧ stop.cause ≠ .cleanup ∧
      (st.inUse = [] -> oper = .null)) ∨
    oper ≠ .null ∧ writesLeftLoop env oper (n + 1) st =
      if env.succeeds st.calls.length = true then
        writesLeftLoop env oper n ⟨(oper, true) :: st.calls, st.locks + 1, st.inUse⟩
      else .ok ⟨(oper, false) :: st.calls, st.locks + 1, (st.locked env).inUse⟩ := by
  have hself : st.inUse = [] -> st.segLock env ≠ .error ⟨.waitsForItself, st⟩ := by
    intro h
    rw [segLock_of_clean h]
    exact nofun
  rw [writesLeftLoop]
  rcases segLock_cases env st with hlock | hlock
  · rw [hlock]
    exact .inl ⟨_, rfl, noConfusion, fun h => absurd hlock (hself h)⟩
  · rw [hlock]
    by_cases hnull : oper = .null
    · rw [hnull]
      exact .inl ⟨⟨.nullCall, st.locked env⟩, rfl, noConfusion, fun _ => rfl⟩
    · refine .inr ⟨hnull, ?_⟩
      change ((st.locked env).invoke env oper >>= _) = _
      rw [invoke_of_ne hnull]
      simp only [locked, record]
      cases env.succeeds st.calls.length <;> rfl

theorem writesLeftLoop_of_clean {oper : Oper} (hnull : oper ≠ .null) (hclean : st.Clean) (n : Nat) :
    writesLeftLoop env oper (n + 1) st = if env.succeeds st.calls.length = true then
        writesLeftLoop env oper n ⟨(oper, true) :: st.calls, st.locks + 1, st.inUse⟩
      else .ok ⟨(oper, false) :: st.calls, st.locks + 1, (st.locked env).inUse⟩ := by
  rcases writesLeftLoop_cases env oper n st with ⟨_, _, _, hself⟩ | ⟨_, hloop⟩
  · exact absurd (hself hclean.1) hnull
  · exact hloop

theorem Clean.call (h : st.Clean) (oper : Oper) :
    Clean ⟨(oper, true) :: st.calls, st.locks + 1, st.inUse⟩ :=
  ⟨h.1, forall_mem_cons.mpr ⟨rfl, h.2⟩⟩

theorem writesLeftLoop_follows (env : TestEnv) (oper : Oper) (n : Nat) :
    Follows env (writesLeftLoop env oper n) (replicate n (.writesLeft, oper)) := by
  induction n with
  | zero => exact Follows.nothing env
  | succ n ih =>
    rw [replicate_succ]
    constructor
    case passes =>
      intro st hclean h
      simp only [verdict] at h
      split_ifs at h with hnull hok
      rw [writesLeftLoop_of_clean hnull hclean, if_pos hok]
      rcases ih.passes _ (hclean.call oper) h with ⟨st', hst', huse, hcalls⟩
      refine ⟨st', hst', huse, ?_⟩
      rw [hcalls, map_cons, reverse_cons, append_assoc]
      rfl
    case fails =>
      intro st hclean h
      simp only [verdict] at h
      split_ifs at h with hnull hok
      rw [writesLeftLoop_of_clean hnull hclean, if_pos hok]
      exact ih.fails _ (hclean.call oper) h
    case spoils =>
      intro st hclean h
      simp only [verdict] at h
      rcases writesLeftLoop_cases env oper n st with ⟨stop, hloop, hcause, _⟩ | ⟨hnull, hloop⟩
      · rw [hloop]
        exact fun h => absurd h hcause
      · rw [if_neg hnull] at h
        rw [hloop]
        split_ifs at h ⊢
        · exact ih.spoils _ (hclean.call oper) h
        · exact ⟨cons_ne_nil _ _, (oper, false), mem_cons_self, rfl⟩
    case leaks =>
      intro st st' _ _ hpiece
      rcases writesLeftLoop_cases env oper n st with ⟨stop, hloop, _⟩ | ⟨hnull, _⟩
      · rw [hloop] at hpiece
        cases hpiece
      · exact ⟨oper, hnull, mem_cons_self⟩
    case keeps =>
      intro st hleaked
      rcases writesLeftLoop_cases env oper n st with ⟨stop, hloop, hcause, _⟩ | ⟨_, hloop⟩
      · rw [hloop]
        exact fun h => absurd h hcause
      · rw [hloop]
        split_ifs
        · exact ih.keeps _ (hleaked.record [(oper, true)] _ _ hleaked.1)
        · exact hleaked.record [(oper, false)] _ _ (cons_ne_nil _ _)
    case grows =>
      intro st st' h
      rcases writesLeftLoop_cases env oper n st with ⟨stop, hloop, _⟩ | ⟨_, hloop⟩
      · rw [hloop] at h
        cases h
      · rw [hloop] at h
        split_ifs at h
        · rcases ih.grows _ _ h with ⟨front, hfront, _⟩
          refine ⟨front ++ [(oper, true)], ?_, fun _ => by simp⟩
          rw [hfront, append_assoc]
          rfl
        · cases h
          exact ⟨[(oper, false)], rfl, fun _ => cons_ne_nil _ _⟩

theorem guardedLoop_follows (hregion : region ≠ .writesLeft) (n : Nat) :
    Follows env (guardedLoop env ops n)
      (replicate n (ops.map fun oper => (region, oper))).flatten := by
  induction n with
  | zero => exact Follows.nothing env
  | succ n ih =>
    rw [replicate_succ, flatten_cons]
    exact (guardedBody_follows hregion).andThen ih

end TestState

/-!
# One iteration
-/

namespace LoopContext

variable (c : LoopContext) (a : Access) (n : Nat)

theorem calls_opertnInstrs : (c.opertnInstrs n).flatMap Instr.calls =
      (replicate n (c.operations.map fun oper => (.opertn, oper))).flatten := by
  induction n with
  | zero => rfl
  | succ n ih =>
    rw [opertnInstrs, flatMap_cons, flatMap_cons, ih, replicate_succ, flatten_cons]
    rfl

theorem calls_writesLeftInstrs : (c.writesLeftInstrs a n).flatMap Instr.calls =
      replicate n (.writesLeft, c.leftWrite a) := by
  induction n with
  | zero => rfl
  | succ n ih =>
    rw [writesLeftInstrs, flatMap_cons, flatMap_cons, ih, replicate_succ]
    rfl

theorem calls_readsLeftInstrs : (c.readsLeftInstrs n).flatMap Instr.calls =
      (replicate n ((c.operations.drop 1).map fun oper => (.readsLeft, oper))).flatten := by
  induction n with
  | zero => rfl
  | succ n ih =>
    rw [readsLeftInstrs, flatMap_cons, ih, replicate_succ, flatten_cons]
    rfl

theorem calls_hotInstrs : (c.hotInstrs a).flatMap Instr.calls =
      (replicate c.opertn (c.operations.map fun oper => (.opertn, oper))).flatten ++
        (replicate c.nwritesLeft (.writesLeft, c.leftWrite a) ++ (replicate c.nreadsLeft
            ((c.operations.drop 1).map fun oper => (.readsLeft, oper))).flatten) := by
  rw [hotInstrs, flatMap_cons, flatMap_append, flatMap_append,
    calls_opertnInstrs, calls_writesLeftInstrs, calls_readsLeftInstrs]
  rfl

end LoopContext

namespace TestState

variable (env : TestEnv) (a : Access)

theorem hotRound_follows :
    Follows env (hotRound env a) ((env.ctx.hotInstrs a).flatMap Instr.calls) := by
  rw [calls_hotInstrs]
  have hrounds := @guardedLoop_follows env env.ctx.operations .opertn (by decide) env.ctx.opertn
  have hwrites := writesLeftLoop_follows env (env.ctx.leftWrite a) env.ctx.nwritesLeft
  have hreads := @guardedLoop_follows env (env.ctx.operations.drop 1) .readsLeft
    (by decide) env.ctx.nreadsLeft
  exact hrounds.andThen (hwrites.andThen hreads)

theorem hotnessLoop_follows (n : Nat) :
    Follows env (hotnessLoop env a n) ((env.ctx.hotnessInstrs a n).flatMap Instr.calls) := by
  induction n with
  | zero => exact Follows.nothing env
  | succ n ih =>
    rw [hotnessInstrs, flatMap_append]
    exact (hotRound_follows env a).andThen ih

theorem iteration_follows : Follows env (iteration env a) (env.ctx.schedule a) := by
  cases a with
  | seq =>
    cases hbwrc : env.ctx.bwrc with
    | true =>
      have hbody := @guardedBody_follows env env.ctx.operations .background (by decide)
      have hpiece : iteration env .seq = guardedBody env env.ctx.operations := by
        funext st
        exact if_pos hbwrc
      rw [hpiece]
      simpa [LoopContext.schedule, LoopContext.iteration, hbwrc, Instr.calls] using hbody
    | false =>
      have hpiece : iteration env .seq = hotnessLoop env .seq env.ctx.hotness := by
        funext st
        exact if_neg (by simp [hbwrc])
      rw [hpiece]
      have hloop := hotnessLoop_follows env .seq env.ctx.hotness
      simpa [LoopContext.schedule, LoopContext.iteration, hbwrc] using hloop
  | random => exact hotnessLoop_follows env .random env.ctx.hotness

end TestState

end Htx.Hxestorage
