import Htx.Library.EventSystem
import Mathlib.Logic.Function.Basic

/-!
# Starting background threads

`main` goes through the stanzas of the rule file again and again.  For every background
context of a stanza it looks at the status in `lba_fencepost` and starts a worker when the
status is `F`.
-/

namespace Htx.Hxestorage

open Option Function Library

inductive FenceStatus where
  | finished
  | running
  deriving DecidableEq

structure StanzaPlan where
  contexts : List Nat
  others : Nat
  isOnlyBwrcStanza : Bool
  startsThreads : Bool
  repeatPos : Nat
  repeatNeg : Nat
  deriving DecidableEq

def StanzaPlan.skipped (plan : StanzaPlan) (pass : Nat) : Bool :=
  if 0 < plan.repeatPos then
    pass == 1 || pass % plan.repeatPos != 0 || (plan.repeatPos == 1 && pass % 2 == 0)
  else if 0 < plan.repeatNeg then
    (pass != 1 && pass % plan.repeatNeg != 0) ||
      (plan.repeatNeg == 1 && pass % 2 == 0 && pass != 1)
  else false

def StanzaPlan.tasks (plan : StanzaPlan) : List (Option Nat) :=
  plan.contexts.map some ++ List.replicate plan.others none

inductive MainPc where
  | between (rule : Nat)
  | starting (rule : Nat) (tasks : List (Option Nat))
  | awaitCreated (rule : Nat) (ctx : Option Nat) (tasks : List (Option Nat))
      (signalled : Bool)
  | awaitFinished (rule : Nat) (signalled : Bool)
  deriving DecidableEq

inductive WorkerPc where
  | created
  | awaitDoOper
  | woken
  | setUp
  | running
  | finished
  deriving DecidableEq

structure Worker where
  ctx : Option Nat
  pc : WorkerPc
  deriving DecidableEq

structure RunnerState where
  main : MainPc
  pass : Nat
  worker : Nat -> Option Worker
  next : Nat
  status : Nat -> FenceStatus
  others : Int

inductive RunnerEvent where
  | nextStanza
  | startTask
  | broadcast
  | wake
  | wakeSpuriously
  | begin (t : Nat)
  | resumeSpuriously (t : Nat)
  | resume (t : Nat)
  | setRunning (t : Nat)
  | setFinished (t : Nat)
  | leave (t : Nat)
  deriving DecidableEq

namespace RunnerState

variable (s : RunnerState)

def locked : Bool :=
  match s.main with
  | .starting _ _ => true
  | _ => false

def spawn (ctx : Option Nat) : RunnerState :=
  { s with
    worker := update s.worker s.next (some ⟨ctx, .created⟩)
    next := s.next + 1 }

def move (t : Nat) (w : Worker) (pc : WorkerPc) : RunnerState :=
  { s with worker := update s.worker t (some { w with pc := pc }) }

def setStatus (w : Worker) (status : FenceStatus) : RunnerState :=
  match w.ctx with
  | some k => { s with status := update s.status k status }
  | none => s

def signalCreated : RunnerState :=
  match s.main with
  | .awaitCreated rule ctx tasks _ => { s with main := .awaitCreated rule ctx tasks true }
  | _ => s

def countDown (w : Worker) : RunnerState :=
  match w.ctx with
  | some _ => s
  | none =>
    let s := { s with others := s.others - 1 }
    match s.main with
    | .awaitFinished rule signalled =>
      { s with main := .awaitFinished rule (signalled || s.others == 0) }
    | _ => s

def wakeWorker (w : Worker) : Worker :=
  if w.pc = .awaitDoOper then { w with pc := .woken } else w

def stepMain (rules : List StanzaPlan) (s : RunnerState) : RunnerEvent -> Option RunnerState
  | .nextStanza =>
    match s.main with
    | .between rule =>
      match rules[rule]? with
      | none => some { s with main := .between 0, pass := s.pass + 1 }
      | some plan =>
        if plan.skipped s.pass || !plan.startsThreads then
          some { s with main := .between (rule + 1) }
        else some { s with main := .starting rule plan.tasks }
    | _ => none
  | .startTask =>
    match s.main with
    | .starting rule (some k :: tasks) =>
      if s.status k = .finished then
        some { s.spawn (some k) with main := .awaitCreated rule (some k) tasks false }
      else some { s with main := .starting rule tasks }
    | .starting rule (none :: tasks) =>
      some { s.spawn none with main := .awaitCreated rule none tasks false }
    | _ => none
  | .broadcast =>
    match s.main with
    | .starting rule [] =>
      let only := (rules[rule]?.map StanzaPlan.isOnlyBwrcStanza).getD false
      some { s with
        worker := fun t => (s.worker t).map wakeWorker
        main := if only then .between (rule + 1) else .awaitFinished rule false }
    | _ => none
  | .wake =>
    match s.main with
    | .awaitCreated rule ctx tasks true =>
      some { s with
        main := .starting rule tasks
        others := if ctx = none then s.others + 1 else s.others }
    | .awaitFinished rule true => some { s with main := .between (rule + 1) }
    | _ => none
  | .wakeSpuriously =>
    match s.main with
    | .awaitCreated rule ctx tasks _ =>
      some { s with main := .awaitCreated rule ctx tasks true }
    | .awaitFinished rule _ => some { s with main := .awaitFinished rule true }
    | _ => none
  | _ => none

def stepWorker (s : RunnerState) (w : Worker) : RunnerEvent -> Option RunnerState
  | .begin t =>
    if w.pc = .created ∧ s.locked = false then
      some (s.move t w .awaitDoOper).signalCreated
    else none
  | .resumeSpuriously t =>
    if w.pc = .awaitDoOper then some (s.move t w .woken) else none
  | .resume t =>
    if w.pc = .woken ∧ s.locked = false then some (s.move t w .setUp) else none
  | .setRunning t =>
    if w.pc = .setUp ∧ w.ctx ≠ none then
      some ((s.move t w .running).setStatus w .running)
    else none
  | .setFinished t =>
    if w.pc = .setUp ∨ w.pc = .running then
      some ((s.move t w .finished).setStatus w .finished)
    else none
  | .leave t =>
    if w.pc = .finished ∧ s.locked = false then
      some ({ s with worker := update s.worker t none }.countDown w)
    else none
  | _ => none

def step (rules : List StanzaPlan) (s : RunnerState) (e : RunnerEvent) : Option RunnerState :=
  match e with
  | .nextStanza | .startTask | .broadcast | .wake | .wakeSpuriously => s.stepMain rules e
  | .begin t | .resumeSpuriously t | .resume t | .setRunning t | .setFinished t | .leave t =>
    match s.worker t with
    | none => none
    | some w => s.stepWorker w e

def initial : RunnerState where
  main := .between 0
  pass := 1
  worker := fun _ => none
  next := 0
  status := fun _ => .finished
  others := 0

end RunnerState

open RunnerState

def runnerSystem (rules : List StanzaPlan) : EventSystem RunnerState RunnerEvent where
  Initial := fun s => s = initial
  step := step rules

/-!
# What a step does to the workers
-/

inductive RunnerMove (s s' : RunnerState) : RunnerEvent -> Prop
  | quiet {e : RunnerEvent} : s'.worker = s.worker -> s'.status = s.status ->
      s'.next = s.next -> RunnerMove s s' e
  | spawn {rule : Nat} {ctx : Option Nat} {tasks : List (Option Nat)} :
      s.main = .starting rule (ctx :: tasks) ->
      (forall k, ctx = some k -> s.status k = .finished) ->
      s'.worker = update s.worker s.next (some ⟨ctx, .created⟩) ->
      s'.status = s.status -> s'.next = s.next + 1 -> RunnerMove s s' .startTask
  | wakeAll {e : RunnerEvent} :
      s'.worker = (fun t => (s.worker t).map wakeWorker) ->
      s'.status = s.status -> s'.next = s.next -> RunnerMove s s' e
  | advance {e : RunnerEvent} {t : Nat} {w : Worker} {pc : WorkerPc} :
      s.worker t = some w -> pc ≠ .running ->
      s'.worker = update s.worker t (some { w with pc := pc }) ->
      s'.status = s.status -> s'.next = s.next -> RunnerMove s s' e
  | setRunning {e : RunnerEvent} {t k : Nat} {w : Worker} : s.worker t = some w ->
      w.ctx = some k ->
      s'.worker = update s.worker t (some { w with pc := .running }) ->
      s'.status = update s.status k .running -> s'.next = s.next ->
      RunnerMove s s' e
  | setFinished {e : RunnerEvent} {t k : Nat} {w : Worker} : s.worker t = some w ->
      w.ctx = some k ->
      s'.worker = update s.worker t (some { w with pc := .finished }) ->
      s'.status = update s.status k .finished -> s'.next = s.next ->
      RunnerMove s s' e
  | leave {e : RunnerEvent} {t : Nat} :
      s'.worker = update s.worker t none -> s'.status = s.status ->
      s'.next = s.next -> RunnerMove s s' e

section

variable {rules : List StanzaPlan} {s s' : RunnerState} {e : RunnerEvent}

theorem RunnerState.signalCreated_workers (s : RunnerState) :
    s.signalCreated.worker = s.worker ∧ s.signalCreated.status = s.status ∧
      s.signalCreated.next = s.next := by
  unfold signalCreated
  split <;> exact ⟨rfl, rfl, rfl⟩

theorem RunnerState.countDown_workers (s : RunnerState) (w : Worker) :
    (s.countDown w).worker = s.worker ∧ (s.countDown w).status = s.status ∧
      (s.countDown w).next = s.next := by
  unfold countDown
  split
  · exact ⟨rfl, rfl, rfl⟩
  · dsimp only
    split <;> exact ⟨rfl, rfl, rfl⟩

theorem stepMain_move (h : s.stepMain rules e = some s') : RunnerMove s s' e := by
  cases e with
  | nextStanza =>
    simp only [stepMain] at h
    split at h
    · split at h
      · cases h
        exact .quiet rfl rfl rfl
      · split at h
        · cases h
          exact .quiet rfl rfl rfl
        · cases h
          exact .quiet rfl rfl rfl
    · cases h
  | startTask =>
    simp only [stepMain] at h
    split at h
    · rename_i rule k tasks hmain
      split at h
      · rename_i hstatus
        cases h
        refine .spawn hmain ?_ rfl rfl rfl
        intro k' hk'
        cases hk'
        exact hstatus
      · cases h
        exact .quiet rfl rfl rfl
    · rename_i rule tasks hmain
      cases h
      exact .spawn hmain (fun k hk => nomatch hk) rfl rfl rfl
    · cases h
  | broadcast =>
    simp only [stepMain] at h
    split at h
    · cases h
      exact .wakeAll rfl rfl rfl
    · cases h
  | wake | wakeSpuriously =>
    simp only [stepMain] at h
    split at h
    · cases h
      exact .quiet rfl rfl rfl
    · cases h
      exact .quiet rfl rfl rfl
    · cases h
  | _ => cases h

theorem stepWorker_move {t : Nat} {w : Worker} (hw : s.worker t = some w)
    (he : e = .begin t ∨ e = .resumeSpuriously t ∨ e = .resume t ∨ e = .setRunning t ∨
      e = .setFinished t ∨ e = .leave t)
    (h : s.stepWorker w e = some s') : RunnerMove s s' e := by
  rcases he with rfl | rfl | rfl | rfl | rfl | rfl
  all_goals
    simp only [stepWorker, ite_none_right_eq_some] at h
    rcases h with ⟨hguard, h⟩
    cases h
  · have hsame := (s.move t w .awaitDoOper).signalCreated_workers
    exact .advance hw (by decide) hsame.1 hsame.2.1 hsame.2.2
  · exact @.advance s _ _ t w .woken hw (by decide) rfl rfl rfl
  · exact @.advance s _ _ t w .setUp hw (by decide) rfl rfl rfl
  · cases hk : w.ctx with
    | none => exact absurd hk hguard.2
    | some k =>
      unfold setStatus
      rw [hk]
      exact .setRunning hw hk rfl rfl rfl
  · unfold setStatus
    cases hk : w.ctx with
    | none => exact @.advance s _ _ t w .finished hw (by decide) rfl rfl rfl
    | some k => exact .setFinished hw hk rfl rfl rfl
  · have hsame := countDown_workers
      { s with worker := update s.worker t none } w
    exact .leave hsame.1 hsame.2.1 hsame.2.2

theorem step_move (h : s.step rules e = some s') : RunnerMove s s' e := by
  have hworker : forall t, (match s.worker t with
      | none => none
      | some w => s.stepWorker w e) = some s' ->
      (e = .begin t ∨ e = .resumeSpuriously t ∨ e = .resume t ∨ e = .setRunning t ∨
        e = .setFinished t ∨ e = .leave t) -> RunnerMove s s' e := by
    intro t hstep he
    cases hw : s.worker t with
    | none =>
      rw [hw] at hstep
      cases hstep
    | some w =>
      rw [hw] at hstep
      exact stepWorker_move hw he hstep
  cases e with
  | nextStanza | startTask | broadcast | wake | wakeSpuriously =>
    exact @stepMain_move rules s s' _ h
  | begin t | resumeSpuriously t | resume t | setRunning t | setFinished t | leave t =>
    exact hworker t h (by simp)

end

/-!
# At most one worker
-/

def RunnerState.UsedBy (s : RunnerState) (k t : Nat) (w : Worker) : Prop :=
  s.worker t = some w ∧ w.ctx = some k

/-- The status of a context says whether it is in use when `main` looks at it: no
worker is on its way to set it to `R`, or on its way out after setting it to `F`. -/
def RunnerState.UpToDate (s : RunnerState) : MainPc -> Prop
  | .starting _ (some k :: _) =>
    forall t, t < s.next -> forall w, w ∈ s.worker t -> w.ctx = some k -> w.pc = .running
  | _ => True

def RunnerGuard (s : RunnerState) (e : RunnerEvent) : Prop :=
  e = .startTask -> s.UpToDate s.main

instance (s : RunnerState) : (pc : MainPc) -> Decidable (s.UpToDate pc)
  | .starting _ (some _ :: _) => inferInstanceAs (Decidable (forall t, t < s.next -> _))
  | .starting _ (none :: _) | .starting _ [] | .between _ | .awaitCreated _ _ _ _
  | .awaitFinished _ _ => isTrue trivial

instance (s : RunnerState) (e : RunnerEvent) : Decidable (RunnerGuard s e) :=
  inferInstanceAs (Decidable (_ -> _))

namespace RunnerState

structure Inv (s : RunnerState) : Prop where
  fresh : forall t, s.next ≤ t -> s.worker t = none
  single : forall k t t' w w', s.UsedBy k t w -> s.UsedBy k t' w' -> t = t'
  status : forall k t w, s.UsedBy k t w -> w.pc = .running -> s.status k = .running

variable {rules : List StanzaPlan} {s s' : RunnerState} {e : RunnerEvent}

theorem inv_initial : initial.Inv :=
  ⟨fun _ _ => rfl, fun _ _ _ _ _ h => (nomatch h.1), fun _ _ _ h => (nomatch h.1)⟩

theorem Inv.of_shrink (h : s.Inv) (hnext : s'.next = s.next) (hstatus : s'.status = s.status)
    (hworker : forall t w', s'.worker t = some w' ->
      exists w, s.worker t = some w ∧ w'.ctx = w.ctx ∧
        (w'.pc = .running -> w.pc = .running)) : s'.Inv := by
  have hback : forall k t w', s'.UsedBy k t w' ->
      exists w, s.UsedBy k t w ∧ (w'.pc = .running -> w.pc = .running) := by
    intro k t w' hused
    rcases hworker t w' hused.1 with ⟨w, hw, hctx, hpc⟩
    exact ⟨w, ⟨hw, hctx.symm.trans hused.2⟩, hpc⟩
  constructor
  · intro t ht
    cases hw : s'.worker t with
    | none => rfl
    | some w' =>
      rcases hworker t w' hw with ⟨w, hold, _, _⟩
      rw [h.fresh t (hnext ▸ ht)] at hold
      cases hold
  · intro k t t' w1 w2 h1 h2
    rcases hback k t w1 h1 with ⟨u1, hu1, _⟩
    rcases hback k t' w2 h2 with ⟨u2, hu2, _⟩
    exact h.single k t t' u1 u2 hu1 hu2
  · intro k t w' hused hpc
    rcases hback k t w' hused with ⟨w, hw, himp⟩
    rw [hstatus]
    exact h.status k t w hw (himp hpc)

theorem Inv.of_status {t k : Nat} {w : Worker} {pc : WorkerPc} {status : FenceStatus}
    (h : s.Inv) (hw : s.worker t = some w) (hctx : w.ctx = some k)
    (hpc : pc = .running -> status = .running)
    (hworker : s'.worker = update s.worker t (some { w with pc := pc }))
    (hstatus : s'.status = update s.status k status) (hnext : s'.next = s.next) :
    s'.Inv := by
  have hused : s.UsedBy k t w := ⟨hw, hctx⟩
  have hback : forall k' t' w', s'.UsedBy k' t' w' ->
      (t' = t ∧ k' = k ∧ w'.pc = pc) ∨ (t' ≠ t ∧ s.UsedBy k' t' w') := by
    intro k' t' w' hused'
    unfold UsedBy at hused'
    rw [hworker] at hused'
    by_cases ht : t' = t
    · subst ht
      rw [update_self] at hused'
      rcases hused' with ⟨heq, hctx'⟩
      cases heq
      exact .inl ⟨rfl, Option.some.inj (hctx'.symm.trans hctx), rfl⟩
    · rw [update_of_ne ht] at hused'
      exact .inr ⟨ht, hused'⟩
  constructor
  · intro t' ht'
    rw [hnext] at ht'
    rw [hworker, update_of_ne]
    · exact h.fresh t' ht'
    · rintro rfl
      rw [h.fresh t' ht'] at hw
      cases hw
  · intro k' t1 t2 w1 w2 h1 h2
    rcases hback k' t1 w1 h1 with ⟨rfl, rfl, _⟩ | ⟨_, hold1⟩
    · rcases hback k' t2 w2 h2 with ⟨rfl, _, _⟩ | ⟨_, hold2⟩
      · rfl
      · exact h.single k' t1 t2 w w2 hused hold2
    · rcases hback k' t2 w2 h2 with ⟨rfl, rfl, _⟩ | ⟨_, hold2⟩
      · exact h.single k' t1 t2 w1 w hold1 hused
      · exact h.single k' t1 t2 w1 w2 hold1 hold2
  · intro k' t' w' hused' hrunning
    rcases hback k' t' w' hused' with ⟨_, rfl, hpc'⟩ | ⟨hne, hold⟩
    · rw [hstatus, update_self]
      exact hpc (hpc'.symm.trans hrunning)
    · rw [hstatus, update_of_ne]
      · exact h.status k' t' w' hold hrunning
      · rintro rfl
        exact hne (h.single k' t' t w' w hold hused)

theorem Inv.of_spawn {ctx : Option Nat} (h : s.Inv)
    (hfree : forall k t w, ctx = some k -> ¬ s.UsedBy k t w)
    (hworker : s'.worker = update s.worker s.next (some ⟨ctx, .created⟩))
    (hstatus : s'.status = s.status) (hnext : s'.next = s.next + 1) : s'.Inv := by
  have hback : forall k t w, s'.UsedBy k t w ->
      (t = s.next ∧ ctx = some k ∧ w.pc = .created) ∨ s.UsedBy k t w := by
    intro k t w hused
    unfold UsedBy at hused
    rw [hworker] at hused
    by_cases ht : t = s.next
    · rw [ht, update_self] at hused
      rcases hused with ⟨heq, hctx⟩
      cases heq
      exact .inl ⟨ht, hctx, rfl⟩
    · rw [update_of_ne ht] at hused
      exact .inr hused
  constructor
  · intro t ht
    rw [hnext] at ht
    rw [hworker, update_of_ne (ne_of_gt ht)]
    exact h.fresh t (le_of_lt ht)
  · intro k t1 t2 w1 w2 h1 h2
    rcases hback k t1 w1 h1 with ⟨rfl, hctx, _⟩ | hold1
    · rcases hback k t2 w2 h2 with ⟨rfl, _, _⟩ | hold2
      · rfl
      · exact absurd hold2 (hfree k t2 w2 hctx)
    · rcases hback k t2 w2 h2 with ⟨rfl, hctx, _⟩ | hold2
      · exact absurd hold1 (hfree k t1 w1 hctx)
      · exact h.single k t1 t2 w1 w2 hold1 hold2
  · intro k t w hused hrunning
    rcases hback k t w hused with ⟨_, _, hpc⟩ | hold
    · rw [hpc] at hrunning
      cases hrunning
    · rw [hstatus]
      exact h.status k t w hold hrunning

theorem Inv.step (h : s.Inv) (hguard : RunnerGuard s e) (hstep : s.step rules e = some s') :
    s'.Inv := by
  cases step_move hstep with
  | quiet hworker hstatus hnext =>
    refine h.of_shrink hnext hstatus fun t w' hw' => ?_
    rw [hworker] at hw'
    exact ⟨w', hw', rfl, id⟩
  | spawn hmain hfinished hworker hstatus hnext =>
    refine h.of_spawn ?_ hworker hstatus hnext
    rintro k t w rfl hused
    -- a worker on the context would be running, and its status not `F`
    have hguard := hguard rfl
    rw [hmain] at hguard
    have hlt : t < s.next := by
      by_contra hge
      have hnone := h.fresh t (not_lt.mp hge)
      rw [hused.1] at hnone
      cases hnone
    have hrunning := h.status k t w hused (hguard t hlt w hused.1 hused.2)
    rw [hfinished k rfl] at hrunning
    cases hrunning
  | wakeAll hworker hstatus hnext =>
    refine h.of_shrink hnext hstatus fun t w' hw' => ?_
    rw [hworker, map_eq_some_iff] at hw'
    rcases hw' with ⟨w, hw, rfl⟩
    refine ⟨w, hw, ?_, ?_⟩
    · unfold wakeWorker
      split <;> rfl
    · unfold wakeWorker
      split
      · exact fun hpc => nomatch hpc
      · exact id
  | @advance _ t w pc hw hpc hworker hstatus hnext =>
    refine h.of_shrink hnext hstatus fun t' w' hw' => ?_
    rw [hworker] at hw'
    by_cases ht : t' = t
    · rw [ht, update_self] at hw'
      cases hw'
      exact ⟨w, ht ▸ hw, rfl, fun hrunning => absurd hrunning hpc⟩
    · rw [update_of_ne ht] at hw'
      exact ⟨w', hw', rfl, id⟩
  | setRunning hw hctx hworker hstatus hnext =>
    exact h.of_status hw hctx (fun _ => rfl) hworker hstatus hnext
  | setFinished hw hctx hworker hstatus hnext =>
    refine h.of_status hw hctx ?_ hworker hstatus hnext
    intro hpc
    cases hpc
  | @leave _ t hworker hstatus hnext =>
    refine h.of_shrink hnext hstatus fun t' w' hw' => ?_
    rw [hworker] at hw'
    by_cases ht : t' = t
    · rw [ht, update_self] at hw'
      cases hw'
    · rw [update_of_ne ht] at hw'
      exact ⟨w', hw', rfl, id⟩

end RunnerState

/-- In every run in which `main` looks at a status only while it is up to date, a
background context has at most one live worker. -/
theorem runner_single {rules : List StanzaPlan} {s : RunnerState}
    (hreach : (runnerSystem rules).ReachableUnder RunnerGuard s) :
    forall k t t' w w', s.UsedBy k t w -> s.UsedBy k t' w' -> t = t' := by
  have hinv : s.Inv := by
    refine EventSystem.ReachableUnder.invariant (fun s hs => ?_) ?_ hreach
    · have hs : s = initial := hs
      rw [hs]
      exact inv_initial
    · intro s e s' h hguard hst
      exact h.step hguard hst
  exact hinv.single

def backgroundPlan : List StanzaPlan :=
  [⟨[0], 0, true, true, 0, 0⟩]

def firstPass : List RunnerEvent :=
  [.nextStanza, .startTask, .begin 0, .wake, .broadcast, .nextStanza]

theorem runner_single_second_pass :
    exists s, (runnerSystem backgroundPlan).ReachableUnder RunnerGuard s ∧ s.pass = 2 ∧
      s.UsedBy 0 0 ⟨some 0, .running⟩ ∧ forall t w, s.UsedBy 0 t w -> t = 0 := by
  have hreach : (runnerSystem backgroundPlan).ReachableUnder RunnerGuard _ :=
    EventSystem.ReachableUnder.schedule rfl
      (firstPass ++ [.resume 0, .setRunning 0, .nextStanza, .startTask]) rfl (by decide)
  refine ⟨_, hreach, rfl, ⟨rfl, rfl⟩, ?_⟩
  intro t w hused
  exact runner_single hreach 0 t 0 w ⟨some 0, .running⟩ hused ⟨rfl, rfl⟩

/-- In the second pass the worker has not reached its background section, and a
second one is started on the same context. -/
theorem runner_started_twice :
    exists s, (runnerSystem backgroundPlan).Reachable s ∧
      s.UsedBy 0 0 ⟨some 0, .woken⟩ ∧ s.UsedBy 0 1 ⟨some 0, .created⟩ := by
  have hreach := EventSystem.Reachable.schedule (S := runnerSystem backgroundPlan)
    rfl (firstPass ++ [.nextStanza, .startTask]) rfl
  exact ⟨_, hreach, ⟨rfl, rfl⟩, ⟨rfl, rfl⟩⟩

end Htx.Hxestorage
