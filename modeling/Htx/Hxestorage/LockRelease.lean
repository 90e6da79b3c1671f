import Htx.Hxestorage.ValidationRun

/-!
# Releasing every segment lock

A validation test should return with none of its table entries in use, and should not go
on after a failed call.
-/

namespace Htx.Hxestorage

open List Nat TestState

def TestEnv.scheduleFrom (env : TestEnv) : Nat -> Nat -> List (Region × Oper)
  | 0, _ => []
  | fuel + 1, n =>
    match env.section? n with
    | none => []
    | some a =>
      if env.leaves n then []
      else env.ctx.schedule a ++ env.scheduleFrom fuel (n + 1)

def TestEnd.state : TestEnd -> TestState
  | .running st => st
  | .returned st => st
  | .hung st => st
  | .crashed st => st

structure ReleasesLocks (env : TestEnv) : Prop where
  goesOn : forall fuel, (exists st, executeValidationTest env fuel = .running st) ∨
    exists st, executeValidationTest env fuel = .returned st
  returns : (exists n, env.section? n = none ∨ env.leaves n = true) ->
    exists fuel st, executeValidationTest env fuel = .returned st
  released : forall fuel st, executeValidationTest env fuel = .returned st -> st.inUse = []
  stops : forall fuel call, call ∈ (executeValidationTest env fuel).state.calls.tail ->
    call.2 = true

def TestEnv.FailuresHandled (env : TestEnv) : Prop :=
  forall fuel k region oper, (env.scheduleFrom fuel 0)[k]? = some (region, oper) ->
    (forall j, j < k -> env.succeeds j = true) ->
      oper ≠ .null ∧ (region = .writesLeft -> env.succeeds k = true)

theorem verdict_ne_spoils_iff {succeeds : Nat -> Bool} (k : Nat) (calls : List (Region × Oper)) :
    verdict succeeds k calls ≠ .spoils <-> forall i region oper, calls[i]? = some (region, oper) ->
        (forall j, j < i -> succeeds (k + j) = true) ->
          oper ≠ .null ∧ (region = .writesLeft -> succeeds (k + i) = true) := by
  induction calls generalizing k with
  | nil => simp [verdict]
  | cons call rest ih =>
    rcases call with ⟨region, oper⟩
    constructor
    · intro h i region' oper' hi hbefore
      simp only [verdict] at h
      cases i with
      | zero =>
        cases hi
        split_ifs at h with hnull hok hregion
        · exact absurd rfl h
        · exact ⟨hnull, fun _ => hok⟩
        · exact absurd rfl h
        · exact ⟨hnull, fun hleft => absurd hleft hregion⟩
      | succ i =>
        have hok : succeeds k = true := hbefore 0 (succ_pos i)
        split_ifs at h with hnull
        · exact absurd rfl h
        · have hrest := (ih (k + 1)).mp h i region' oper' hi fun j hj => by
            have hnext := hbefore (j + 1) (succ_lt_succ hj)
            rwa [← add_assoc, add_right_comm] at hnext
          rwa [add_right_comm] at hrest
    · intro h hspoils
      have hfirst := h 0 region oper rfl fun j hj => absurd hj (not_lt_zero j)
      simp only [verdict] at hspoils
      rw [if_neg hfirst.1] at hspoils
      by_cases hok : succeeds k = true
      · rw [if_pos hok] at hspoils
        refine (ih (k + 1)).mpr ?_ hspoils
        intro i region' oper' hi hbefore
        have hnext := h (i + 1) region' oper' hi fun j hj => by
          cases j with
          | zero => exact hok
          | succ j =>
            have hj := hbefore j (lt_of_succ_lt_succ hj)
            rwa [add_right_comm] at hj
        rwa [← add_assoc, add_right_comm] at hnext
      · rw [if_neg hok] at hspoils
        split_ifs at hspoils with hregion
        exact hok (hfirst.2 hregion)

theorem failuresHandled_iff (env : TestEnv) : env.FailuresHandled <->
      forall fuel, verdict env.succeeds 0 (env.scheduleFrom fuel 0) ≠ .spoils := by
  unfold TestEnv.FailuresHandled
  simp only [verdict_ne_spoils_iff, zero_add]

/-!
# Tests whose failures are handled
-/

variable {fuel n : Nat}

section

variable {env : TestEnv}

theorem executeFrom_handled {st : TestState} (hclean : st.Clean)
    (h : verdict env.succeeds st.calls.length (env.scheduleFrom fuel n) ≠ .spoils) :
    (exists st', executeFrom env fuel n st = .running st' ∧ st'.Settled) ∨
      exists st', executeFrom env fuel n st = .returned st' ∧ st'.Settled := by
  induction fuel generalizing n st with
  | zero => exact .inl ⟨st, rfl, hclean.settled⟩
  | succ fuel ih =>
    simp only [TestEnv.scheduleFrom] at h
    simp only [executeFrom]
    cases hsection : env.section? n with
    | none => exact .inr ⟨st, rfl, hclean.settled⟩
    | some a =>
      rw [hsection] at h
      by_cases hleaves : env.leaves n = true
      · simp only [if_pos hleaves]
        exact .inr ⟨st, rfl, hclean.settled⟩
      · simp only [if_neg hleaves] at h ⊢
        have hfollows := iteration_follows env a
        rw [verdict_append] at h
        cases hv : verdict env.succeeds st.calls.length (env.ctx.schedule a) with
        | passes =>
          rcases hfollows.passes st hclean hv with ⟨st', hst', huse, hcalls⟩
          rcases hclean.passed huse hcalls with ⟨hclean', hlen⟩
          rw [hv, ← hlen] at h
          rw [hst']
          exact ih hclean' h
        | fails =>
          rcases hfollows.fails st hclean hv with ⟨st', hst', hsettled⟩
          rw [hst']
          exact .inr ⟨st', rfl, hsettled⟩
        | spoils =>
          rw [hv] at h
          exact absurd rfl h

theorem section?_of_running {st st' : TestState} (h : executeFrom env fuel n st = .running st') :
    forall i, i < fuel -> env.section? (n + i) ≠ none ∧ env.leaves (n + i) = false := by
  induction fuel generalizing n st with
  | zero =>
    intro i hi
    exact absurd hi (not_lt_zero i)
  | succ fuel ih =>
    simp only [executeFrom] at h
    cases hsection : env.section? n with
    | none =>
      rw [hsection] at h
      cases h
    | some a =>
      rw [hsection] at h
      cases hleaves : env.leaves n with
      | true =>
        rw [hleaves] at h
        cases h
      | false =>
        simp only [hleaves, Bool.false_eq_true, if_false] at h
        intro i hi
        cases i with
        | zero =>
          rw [add_zero, hsection]
          exact ⟨(fun hnone => nomatch hnone), hleaves⟩
        | succ i =>
          cases hst : st.iteration env a with
          | error stop =>
            rw [hst] at h
            rcases stop with ⟨cause, state⟩
            cases cause <;> cases h
          | ok next =>
            rw [hst] at h
            have hrest := ih h i (lt_of_succ_lt_succ hi)
            rwa [add_right_comm] at hrest

theorem releasesLocks_of_handled
    (h : forall fuel, verdict env.succeeds 0 (env.scheduleFrom fuel 0) ≠ .spoils) :
    ReleasesLocks env := by
  have hclean : start.Clean := ⟨rfl, fun call hcall => nomatch hcall⟩
  have hend := fun fuel => executeFrom_handled (n := 0) hclean (h fuel)
  constructor
  case goesOn =>
    intro fuel
    rcases hend fuel with ⟨st, hst, _⟩ | ⟨st, hst, _⟩
    · exact .inl ⟨st, hst⟩
    · exact .inr ⟨st, hst⟩
  case returns =>
    rintro ⟨n, hn⟩
    rcases hend (n + 1) with ⟨st, hst, _⟩ | ⟨st, hst, _⟩
    · have hon := section?_of_running hst n (lt_succ_self n)
      rw [zero_add] at hon
      rcases hn with hn | hn
      · exact absurd hn hon.1
      · rw [hon.2] at hn
        cases hn
    · exact ⟨n + 1, st, hst⟩
  case released =>
    intro fuel st hst
    rcases hend fuel with ⟨st', hst', _⟩ | ⟨st', hst', hsettled⟩
    · cases hst.symm.trans hst'
    · cases hst.symm.trans hst'
      exact hsettled.1
  case stops =>
    intro fuel call hcall
    rcases hend fuel with ⟨st', hst', hsettled⟩ | ⟨st', hst', hsettled⟩
    · rw [executeValidationTest, hst'] at hcall
      exact hsettled.2 call hcall
    · rw [executeValidationTest, hst'] at hcall
      exact hsettled.2 call hcall

end

/-!
# Tests that run into a failure they do not handle
-/

namespace LoopContext

variable {c : LoopContext} {a : Access} {oper : Oper}

theorem mem_calls_hotnessInstrs {call : Region × Oper} {n : Nat}
    (h : call ∈ (c.hotnessInstrs a n).flatMap Instr.calls) :
    0 < n ∧ call ∈ (c.hotInstrs a).flatMap Instr.calls := by
  induction n with
  | zero => cases h
  | succ n ih =>
    rw [hotnessInstrs, flatMap_append] at h
    rcases mem_append.mp h with h | h
    · exact ⟨succ_pos n, h⟩
    · exact ⟨succ_pos n, (ih h).2⟩

theorem mem_calls_hotInstrs_writesLeft
    (h : (.writesLeft, oper) ∈ (c.hotInstrs a).flatMap Instr.calls) :
    0 < c.nwritesLeft ∧ oper = c.leftWrite a := by
  rw [calls_hotInstrs] at h
  simp only [mem_append, mem_flatten, mem_replicate] at h
  rcases h with ⟨body, ⟨_, rfl⟩, hmem⟩ | ⟨hpos, hcall⟩ | ⟨body, ⟨_, rfl⟩, hmem⟩
  · rcases mem_map.mp hmem with ⟨_, _, hcall⟩
    cases hcall
  · cases hcall
    exact ⟨pos_of_ne_zero hpos, rfl⟩
  · rcases mem_map.mp hmem with ⟨_, _, hcall⟩
    cases hcall

theorem opertn_pos_of_nwritesLeft (h : 0 < c.nwritesLeft) : 0 < c.opertn := by
  unfold nwritesLeft at h
  cases hmixed : c.mixed with
  | false =>
    rw [hmixed] at h
    cases h
  | true =>
    unfold mixed at hmixed
    simp only [Bool.and_eq_true, decide_eq_true_eq, ne_eq] at hmixed
    rcases hmixed with ⟨⟨hdiscards, hreads⟩, hwrites⟩
    unfold opertn
    rw [if_neg (not_not.mpr hdiscards), if_neg hreads, if_neg hwrites]
    split_ifs <;> omega

theorem schedule_ne_nil_of_writesLeft (hne : oper ≠ .null)
    (h : (.writesLeft, oper) ∈ c.schedule a) (b : Access) : c.schedule b ≠ [] := by
  have hhot : 0 < c.hotness ∧ (.writesLeft, oper) ∈ (c.hotInstrs a).flatMap Instr.calls := by
    unfold schedule iteration at h
    cases a with
    | seq =>
      cases hbwrc : c.bwrc with
      | true => simp [hbwrc, Instr.calls] at h
      | false =>
        simp only [hbwrc, Bool.false_eq_true, if_false] at h
        exact mem_calls_hotnessInstrs h
    | random => exact mem_calls_hotnessInstrs h
  rcases mem_calls_hotInstrs_writesLeft hhot.2 with ⟨hleft, hoper⟩
  have hops : c.operations ≠ [] := by
    intro hnil
    apply hne
    rw [hoper]
    cases a <;> simp [leftWrite, hnil]
  have hround : forall b, (c.hotInstrs b).flatMap Instr.calls ≠ [] := by
    intro b hnil
    rw [calls_hotInstrs] at hnil
    rcases append_eq_nil_iff.mp hnil with ⟨hrounds, _⟩
    rcases exists_eq_succ_of_ne_zero (ne_of_gt (opertn_pos_of_nwritesLeft hleft))
      with ⟨k, hk⟩
    rw [hk, replicate_succ, flatten_cons] at hrounds
    exact hops (map_eq_nil_iff.mp (append_eq_nil_iff.mp hrounds).1)
  have hloop : forall b, (c.hotnessInstrs b c.hotness).flatMap Instr.calls ≠ [] := by
    intro b hnil
    rcases exists_eq_succ_of_ne_zero (ne_of_gt hhot.1) with ⟨k, hk⟩
    rw [hk, hotnessInstrs, flatMap_append] at hnil
    exact hround b (append_eq_nil_iff.mp hnil).1
  cases b with
  | seq =>
    cases hbwrc : c.bwrc with
    | true => simpa [schedule, iteration, hbwrc, Instr.calls] using hops
    | false => simpa [schedule, iteration, hbwrc] using hloop .seq
  | random => exact hloop .random

end LoopContext

section

variable {env : TestEnv}

def Violates (e : TestEnd) : Prop :=
  (exists st, e = .hung st) ∨ (exists st, e = .crashed st) ∨
    (exists st, e = .returned st ∧ st.inUse ≠ []) ∨
      exists call, call ∈ e.state.calls.tail ∧ call.2 = false

theorem violates_of_spoiled {stop : Stop} (h : Spoiled (.error stop)) : Violates stop.testEnd := by
  rcases stop with ⟨cause, state⟩
  cases cause with
  | cleanup => exact .inr (.inr (.inl ⟨state, rfl, (h rfl).1⟩))
  | waitsForItself => exact .inl ⟨state, rfl⟩
  | nullCall => exact .inr (.inl ⟨state, rfl⟩)

variable {st : TestState}

theorem executeFrom_leaked {n : Nat} (hleaked : st.Leaked)
    (hne : forall a, env.ctx.schedule a ≠ []) : Violates (executeFrom env 1 n st) := by
  simp only [executeFrom]
  cases env.section? n with
  | none => exact .inr (.inr (.inl ⟨st, rfl, hleaked.1⟩))
  | some a =>
    by_cases hleaves : env.leaves n = true
    · simp only [if_pos hleaves]
      exact .inr (.inr (.inl ⟨st, rfl, hleaked.1⟩))
    · simp only [if_neg hleaves]
      have hfollows := iteration_follows env a
      have hspoiled := hfollows.keeps st hleaked
      cases hst : st.iteration env a with
      | error stop =>
        rw [hst] at hspoiled
        exact violates_of_spoiled hspoiled
      | ok next =>
        rcases hfollows.grows st next hst with ⟨front, hcalls, hfront⟩
        rcases hleaked.2 with ⟨call, hcall, hfailed⟩
        refine .inr (.inr (.inr ⟨call, ?_, hfailed⟩))
        change call ∈ next.calls.tail
        rw [hcalls, tail_append_of_ne_nil (hfront (hne a))]
        exact mem_append_right _ hcall

theorem executeFrom_error {a : Access} {stop : Stop}
    (hsection : env.section? n = some a) (hleaves : ¬ env.leaves n = true)
    (h : st.iteration env a = .error stop) :
    executeFrom env (fuel + 1) n st = stop.testEnd := by
  simp only [executeFrom, hsection, if_neg hleaves, h]

theorem executeFrom_ok {st' : TestState} {a : Access}
    (hsection : env.section? n = some a) (hleaves : ¬ env.leaves n = true)
    (h : st.iteration env a = .ok st') :
    executeFrom env (fuel + 1) n st = executeFrom env fuel (n + 1) st' := by
  simp only [executeFrom, hsection, if_neg hleaves, h]

theorem executeFrom_spoiled (hclean : st.Clean)
    (h : verdict env.succeeds st.calls.length (env.scheduleFrom fuel n) = .spoils) :
    exists fuel', Violates (executeFrom env fuel' n st) := by
  induction fuel generalizing n st with
  | zero => cases h
  | succ fuel ih =>
    simp only [TestEnv.scheduleFrom] at h
    cases hsection : env.section? n with
    | none =>
      rw [hsection] at h
      cases h
    | some a =>
      rw [hsection] at h
      by_cases hleaves : env.leaves n = true
      · simp only [if_pos hleaves] at h
        cases h
      · simp only [if_neg hleaves] at h
        have hfollows := iteration_follows env a
        rw [verdict_append] at h
        cases hv : verdict env.succeeds st.calls.length (env.ctx.schedule a) with
        | passes =>
          rcases hfollows.passes st hclean hv with ⟨st', hst', huse, hcalls⟩
          rcases hclean.passed huse hcalls with ⟨hclean', hlen⟩
          rw [hv, ← hlen] at h
          rcases ih hclean' h with ⟨fuel', hviolates⟩
          refine ⟨fuel' + 1, ?_⟩
          rw [executeFrom_ok hsection hleaves hst']
          exact hviolates
        | fails =>
          rw [hv] at h
          cases h
        | spoils =>
          have hspoiled := hfollows.spoils st hclean hv
          refine ⟨2, ?_⟩
          cases hst : st.iteration env a with
          | error stop =>
            rw [hst] at hspoiled
            rw [executeFrom_error hsection hleaves hst]
            exact violates_of_spoiled hspoiled
          | ok next =>
            rw [hst] at hspoiled
            rw [executeFrom_ok hsection hleaves hst]
            rcases hfollows.leaks st next hclean hv hst with ⟨oper, hne, hmem⟩
            exact executeFrom_leaked hspoiled (LoopContext.schedule_ne_nil_of_writesLeft hne hmem)

theorem ReleasesLocks.not_violates (h : ReleasesLocks env) (fuel : Nat) :
    ¬ Violates (executeValidationTest env fuel) := by
  rintro (⟨st, hst⟩ | ⟨st, hst⟩ | ⟨st, hst, huse⟩ | ⟨call, hcall, hfailed⟩)
  · rcases h.goesOn fuel with ⟨st', hst'⟩ | ⟨st', hst'⟩ <;> cases hst.symm.trans hst'
  · rcases h.goesOn fuel with ⟨st', hst'⟩ | ⟨st', hst'⟩ <;> cases hst.symm.trans hst'
  · exact huse (h.released fuel st hst)
  · rw [h.stops fuel call hcall] at hfailed
    cases hfailed

end

/-- A test releases its locks and stops at its first failure exactly when no null
pointer comes up and its first failure is not that of a left-over write. -/
theorem releasesLocks_iff_failuresHandled (env : TestEnv) :
    ReleasesLocks env <-> env.FailuresHandled := by
  rw [failuresHandled_iff]
  constructor
  · intro h fuel hspoils
    have hclean : start.Clean := ⟨rfl, fun call hcall => nomatch hcall⟩
    rcases executeFrom_spoiled hclean hspoils with ⟨fuel', hviolates⟩
    exact h.not_violates fuel' hviolates
  · exact releasesLocks_of_handled

def leftWriteFails : TestEnv where
  ctx := { populateOperations "w[2]r[1]" with bwrc := false, hotness := 1 }
  numOper := fun a => if a = .seq then some 2 else some 0
  blkRange := fun k => (10 * k, 10 * k + 7)
  succeeds := fun k => k ≠ 2
  leaves := fun _ => false

/-- The range of the failed left-over write stays in use, and the second iteration
is still made. -/
theorem leftWrite_leaks_lock :
    exists st, executeValidationTest leftWriteFails 3 = .returned st ∧
      st.inUse = [(10, 17)] ∧ st.calls.length = 6 ∧
      (Oper.write, false) ∈ st.calls.tail ∧ ¬ ReleasesLocks leftWriteFails := by
  have hend : executeValidationTest leftWriteFails 3 =
      .returned ⟨[(.write, true), (.read, true), (.write, true), (.write, false),
        (.read, true), (.write, true)], 4, [(10, 17)]⟩ := by
    decide
  refine ⟨_, hend, rfl, rfl, by decide, fun h => ?_⟩
  exact absurd (h.released 3 _ hend) (by decide)

end Htx.Hxestorage
