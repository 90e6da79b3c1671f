import Mathlib
import Htx.Library.EventSystem

/-!
# Thread synchronisation

`synchronize_threads` is called three times in each pass of `write_read_and_compare`.  All
its state is one counter, taken modulo the number of cache threads of the rule: the call
that brings it to zero wakes all the others.
-/

namespace Htx.Hxecache

open Library Finset

inductive Phase where
  | outside
  | entered
  | inside
  | waiting
  | awake
  | leaving
  | removed
  deriving DecidableEq

structure CacheThread where
  phase : Phase
  entered : Nat
  left : Nat
  deriving DecidableEq

def CacheThread.start : CacheThread :=
  ⟨.outside, 0, 0⟩

def callsPerPass : Nat :=
  3

structure SyncState where
  numCacheThreads : Nat
  numOper : Nat
  count : Nat
  mutex : Option Nat
  thread : Nat -> CacheThread

/-- `wake` is a wakeup that no broadcast caused; `remove` is the end of a thread whose
CPU was hot removed; `nextRule` starts the threads of the next rule. -/
inductive SyncEvent where
  | call (t : Nat)
  | lock (t : Nat)
  | advance (t : Nat)
  | wake (t : Nat)
  | relock (t : Nat)
  | unlock (t : Nat)
  | remove (t : Nat)
  | nextRule (numCacheThreads numOper : Nat)
  deriving DecidableEq

namespace SyncState

section

variable (s : SyncState)

def phase (t : Nat) : Phase :=
  (s.thread t).phase

def setThread (t : Nat) (th : CacheThread) : SyncState :=
  { s with thread := Function.update s.thread t th }

def setPhase (t : Nat) (phase : Phase) : SyncState :=
  s.setThread t { s.thread t with phase := phase }

def broadcast : SyncState :=
  { s with thread := fun t =>
      if s.phase t = .waiting then { s.thread t with phase := .awake } else s.thread t }

def MorePasses (t : Nat) : Prop :=
  s.numOper = 0 ∨ (s.thread t).entered < callsPerPass * s.numOper

instance (t : Nat) : Decidable (s.MorePasses t) :=
  inferInstanceAs (Decidable (_ ∨ _))

def Finished (t : Nat) : Prop :=
  s.phase t = .removed ∨ (s.phase t = .outside ∧ ¬ s.MorePasses t)

instance (t : Nat) : Decidable (s.Finished t) :=
  inferInstanceAs (Decidable (_ ∨ _))

def advanceCount (t : Nat) : SyncState :=
  if (s.count + 1) % s.numCacheThreads = 0 then
    ({ s with count := 0 }.broadcast).setPhase t .leaving
  else
    { s with count := (s.count + 1) % s.numCacheThreads, mutex := none }.setPhase t .waiting

def step : SyncEvent -> Option SyncState
  | .call t =>
    if t < s.numCacheThreads ∧ s.phase t = .outside ∧ s.MorePasses t then
      some (s.setThread t ⟨.entered, (s.thread t).entered + 1, (s.thread t).left⟩)
    else none
  | .lock t =>
    if t < s.numCacheThreads ∧ s.phase t = .entered ∧ s.mutex = none then
      some ({ s with mutex := some t }.setPhase t .inside)
    else none
  | .advance t =>
    if t < s.numCacheThreads ∧ s.phase t = .inside then some (s.advanceCount t) else none
  | .wake t =>
    if t < s.numCacheThreads ∧ s.phase t = .waiting then some (s.setPhase t .awake)
    else none
  | .relock t =>
    if t < s.numCacheThreads ∧ s.phase t = .awake ∧ s.mutex = none then
      some ({ s with mutex := some t }.setPhase t .leaving)
    else none
  | .unlock t =>
    if t < s.numCacheThreads ∧ s.phase t = .leaving then
      some ({ s with mutex := none }.setThread t
        ⟨.outside, (s.thread t).entered, (s.thread t).left + 1⟩)
    else none
  | .remove t =>
    if t < s.numCacheThreads ∧ s.phase t = .outside ∧ (s.thread t).entered = 0 then
      some (s.setPhase t .removed)
    else none
  | .nextRule numCacheThreads numOper =>
    if 0 < numCacheThreads ∧ forall t, t < s.numCacheThreads -> s.Finished t then
      some ⟨numCacheThreads, numOper, s.count, s.mutex, fun _ => .start⟩
    else none

def Initial : Prop :=
  0 < s.numCacheThreads ∧ s.count = 0 ∧ s.mutex = none ∧ forall t, s.thread t = .start

end

def system : EventSystem SyncState SyncEvent :=
  ⟨Initial, step⟩

/-!
# The invariant of a round
-/

def InRound (r : Nat) (th : CacheThread) : Prop :=
  match th.phase with
  | .outside => th.entered = r ∧ th.left = r
  | .entered => th.entered = r + 1 ∧ th.left = r
  | .inside => th.entered = r + 1 ∧ th.left = r
  | .waiting => th.entered = r + 1 ∧ th.left = r
  | .awake => th.entered = r ∧ th.left + 1 = r
  | .leaving => th.entered = r ∧ th.left + 1 = r
  | .removed => th.entered = 0 ∧ th.left = 0 ∧ r = 0

def Holding (phase : Phase) : Prop :=
  phase = .inside ∨ phase = .leaving

def waiters (s : SyncState) : Finset Nat :=
  (range s.numCacheThreads).filter fun t => s.phase t = .waiting

def SomeRemoved (s : SyncState) : Prop :=
  exists t, t < s.numCacheThreads ∧ s.phase t = .removed

structure RoundInv (s : SyncState) (r : Nat) : Prop where
  count_eq : s.count = s.waiters.card
  count_lt : s.count < s.numCacheThreads
  threads : forall t, t < s.numCacheThreads -> InRound r (s.thread t)
  holder_lt : forall t, s.mutex = some t -> t < s.numCacheThreads
  holder : forall t, t < s.numCacheThreads -> (s.mutex = some t <-> Holding (s.phase t))
  removed : s.SomeRemoved -> forall t, t < s.numCacheThreads -> (s.thread t).entered = 0

variable {u : Nat}

section

variable {s : SyncState} {t : Nat} {th : CacheThread} {r : Nat}

@[simp]
theorem numCacheThreads_setThread : (s.setThread t th).numCacheThreads = s.numCacheThreads :=
  rfl

@[simp]
theorem phase_setThread_self : (s.setThread t th).phase t = th.phase := by
  simp [phase, setThread]

theorem phase_setThread_of_ne (h : u ≠ t) : (s.setThread t th).phase u = s.phase u := by
  simp [phase, setThread, h]

theorem thread_setThread_of_ne (h : u ≠ t) : (s.setThread t th).thread u = s.thread u := by
  simp [setThread, h]

@[simp]
theorem thread_setThread_self : (s.setThread t th).thread t = th := by
  simp [setThread]

theorem mem_waiters : u ∈ s.waiters <-> u < s.numCacheThreads ∧ s.phase u = .waiting := by
  simp [waiters]

theorem waiters_setThread (hold : s.phase t ≠ .waiting) (hnew : th.phase ≠ .waiting) :
    (s.setThread t th).waiters = s.waiters := by
  ext u
  rw [mem_waiters, mem_waiters]
  by_cases hu : u = t
  · subst hu
    simp [hold, hnew]
  · rw [phase_setThread_of_ne hu]
    rfl

theorem threads_setThread (h : forall u, u < s.numCacheThreads -> InRound r (s.thread u))
    (hth : InRound r th) (u : Nat) (hu : u < s.numCacheThreads) :
    InRound r ((s.setThread t th).thread u) := by
  by_cases hut : u = t
  · subst hut
    rwa [thread_setThread_self]
  · rw [thread_setThread_of_ne hut]
    exact h u hu

theorem RoundInv.not_someRemoved (h : RoundInv s r) (ht : t < s.numCacheThreads)
    (hout : s.phase t ≠ .outside) (hthere : s.phase t ≠ .removed) : ¬ s.SomeRemoved := by
  intro hremoved
  have hzero := h.removed hremoved t ht
  have hround := h.threads t ht
  unfold InRound at hround
  split at hround <;> first | contradiction | omega

theorem RoundInv.setThread (h : RoundInv s r) (ht : t < s.numCacheThreads)
    (m : Option Nat) (hold : s.phase t ≠ .waiting) (hnew : th.phase ≠ .waiting)
    (hth : InRound r th) (hself : m = some t <-> Holding th.phase)
    (hother : forall u, u ≠ t -> (m = some u <-> s.mutex = some u))
    (hremoved : th.phase = .removed ∨ s.SomeRemoved ->
      th.entered = 0 ∧ forall u, u < s.numCacheThreads -> (s.thread u).entered = 0) :
    RoundInv ({ s with mutex := m }.setThread t th) r := by
  have hwaiters : ({ s with mutex := m }.setThread t th).waiters = s.waiters :=
    waiters_setThread hold hnew
  constructor
  · rw [hwaiters]
    exact h.count_eq
  · exact h.count_lt
  · exact threads_setThread h.threads hth
  · intro u hu
    by_cases hut : u = t
    · rwa [hut]
    · exact h.holder_lt u ((hother u hut).mp hu)
  · intro u hu
    change m = some u <-> _
    by_cases hut : u = t
    · subst hut
      rw [phase_setThread_self, hself]
    · rw [phase_setThread_of_ne hut, hother u hut]
      exact h.holder u hu
  · rintro ⟨u, hu, hphase⟩
    have hzero : th.entered = 0 ∧ forall u, u < s.numCacheThreads -> (s.thread u).entered = 0 := by
      by_cases hut : u = t
      · subst hut
        rw [phase_setThread_self] at hphase
        exact hremoved (.inl hphase)
      · rw [phase_setThread_of_ne hut] at hphase
        exact hremoved (.inr ⟨u, hu, hphase⟩)
    intro u hu
    by_cases hut : u = t
    · subst hut
      rw [thread_setThread_self]
      exact hzero.1
    · rw [thread_setThread_of_ne hut]
      exact hzero.2 u hu

end

/-!
# Steps
-/

section

variable {s : SyncState} {t r : Nat}

section

variable (h : RoundInv s r)

include h

section

variable (ht : t < s.numCacheThreads)

include ht

theorem RoundInv.inRound {phase : Phase} (hphase : s.phase t = phase) :
    InRound r ⟨phase, (s.thread t).entered, (s.thread t).left⟩ := by
  rw [← hphase]
  exact h.threads t ht

theorem RoundInv.mutex_ne (hphase : ¬ Holding (s.phase t)) : s.mutex ≠ some t :=
  fun hmutex => hphase ((h.holder t ht).mp hmutex)

theorem RoundInv.call (hphase : s.phase t = .outside) (hnone : ¬ s.SomeRemoved) :
    RoundInv (s.setThread t ⟨.entered, (s.thread t).entered + 1, (s.thread t).left⟩) r := by
  obtain ⟨hentered, hleft⟩ := h.inRound ht hphase
  have hmutex : s.mutex ≠ some t := h.mutex_ne ht (by simp [hphase, Holding])
  apply h.setThread ht s.mutex
  · simp [hphase]
  · simp
  · simpa [InRound] using ⟨hentered, hleft⟩
  · simp [Holding, hmutex]
  · simp
  · intro hremoved
    exact absurd (hremoved.resolve_left (by simp)) hnone

theorem RoundInv.take {phase : Phase} (hmutex : s.mutex = none)
    (hphase : (s.phase t = .entered ∧ phase = .inside) ∨ (s.phase t = .awake ∧ phase = .leaving)) :
    RoundInv ({ s with mutex := some t }.setPhase t phase) r := by
  have hactive : s.phase t ≠ .waiting ∧ s.phase t ≠ .outside ∧ s.phase t ≠ .removed := by
    rcases hphase with ⟨hold, _⟩ | ⟨hold, _⟩ <;> simp [hold]
  apply h.setThread ht (some t)
  · exact hactive.1
  · rcases hphase with ⟨_, rfl⟩ | ⟨_, rfl⟩ <;> simp
  · rcases hphase with ⟨hold, rfl⟩ | ⟨hold, rfl⟩
    · have hround := h.inRound ht hold
      exact hround
    · have hround := h.inRound ht hold
      exact hround
  · rcases hphase with ⟨_, rfl⟩ | ⟨_, rfl⟩ <;> simp [Holding]
  · intro u hu
    simp [hmutex, Ne.symm hu]
  · intro hremoved
    exact absurd (hremoved.resolve_left (by
      rcases hphase with ⟨_, rfl⟩ | ⟨_, rfl⟩ <;> simp))
      (h.not_someRemoved ht hactive.2.1 hactive.2.2)

theorem RoundInv.unlock (hphase : s.phase t = .leaving) :
    RoundInv ({ s with mutex := none }.setThread t
      ⟨.outside, (s.thread t).entered, (s.thread t).left + 1⟩) r := by
  have hmutex : s.mutex = some t := (h.holder t ht).mpr (.inr hphase)
  apply h.setThread ht none
  · simp [hphase]
  · simp
  · exact h.inRound ht hphase
  · simp [Holding]
  · intro u hu
    simp [hmutex, Ne.symm hu]
  · intro hremoved
    exact absurd (hremoved.resolve_left (by simp))
      (h.not_someRemoved ht (by simp [hphase]) (by simp [hphase]))

theorem RoundInv.remove (hphase : s.phase t = .outside)
    (hnone : forall u, u < s.numCacheThreads -> (s.thread u).entered = 0) :
    RoundInv (s.setPhase t .removed) r := by
  obtain ⟨hentered, hleft⟩ := h.inRound ht hphase
  have hzero := hnone t ht
  have hmutex : s.mutex ≠ some t := h.mutex_ne ht (by simp [hphase, Holding])
  dsimp only at hentered hleft
  apply h.setThread ht s.mutex
  · simp [hphase]
  · simp
  · exact ⟨hzero, by dsimp only; omega, by omega⟩
  · simp [Holding, hmutex]
  · simp
  · intro _
    exact ⟨hzero, hnone⟩

theorem RoundInv.wait (hphase : s.phase t = .inside) (hcount : s.count + 1 < s.numCacheThreads) :
    RoundInv ({ s with count := s.count + 1, mutex := none }.setPhase t .waiting) r := by
  have hmutex : s.mutex = some t := (h.holder t ht).mpr (.inl hphase)
  have hwaiters : ({ s with count := s.count + 1, mutex := none }.setPhase t
      .waiting).waiters = insert t s.waiters := by
    ext u
    rw [mem_insert, mem_waiters, mem_waiters]
    by_cases hut : u = t
    · subst hut
      simpa [setPhase] using ht
    · rw [setPhase, phase_setThread_of_ne hut]
      simp [hut, phase]
  have hnot : t ∉ s.waiters := by
    simp [mem_waiters, hphase]
  constructor
  · rw [hwaiters, card_insert_of_notMem hnot, ← h.count_eq]
    rfl
  · exact hcount
  · have hround := h.inRound ht hphase
    exact threads_setThread h.threads hround
  · intro u hu
    cases hu
  · intro u hu
    change none = some u <-> _
    by_cases hut : u = t
    · subst hut
      simp [setPhase, Holding]
    · rw [setPhase, phase_setThread_of_ne hut]
      have hfree := (h.holder u hu).not.mp (by simp [hmutex, Ne.symm hut])
      constructor
      · intro hnone
        cases hnone
      · intro hholding
        exact absurd hholding hfree
  · rintro ⟨u, hu, hremoved⟩
    have hsome : s.SomeRemoved := by
      by_cases hut : u = t
      · subst hut
        simp [setPhase] at hremoved
      · rw [setPhase, phase_setThread_of_ne hut] at hremoved
        exact ⟨u, hu, hremoved⟩
    exact absurd hsome (h.not_someRemoved ht (by simp [hphase]) (by simp [hphase]))

theorem RoundInv.all_waiting
    (hphase : s.phase t ≠ .waiting) (hcount : s.count + 1 = s.numCacheThreads)
    (hu : u < s.numCacheThreads) (hut : u ≠ t) : s.phase u = .waiting := by
  have hsub : s.waiters ⊆ (range s.numCacheThreads).erase t := by
    intro v hv
    obtain ⟨hlt, hwait⟩ := mem_waiters.mp hv
    rw [mem_erase, mem_range]
    refine ⟨?_, hlt⟩
    rintro rfl
    exact hphase hwait
  have hcard : ((range s.numCacheThreads).erase t).card ≤ s.waiters.card := by
    rw [card_erase_of_mem (mem_range.mpr ht), card_range,
      ← h.count_eq, ← hcount]
    simp
  have heq := eq_of_subset_of_card_le hsub hcard
  have hmem : u ∈ s.waiters := by
    rw [heq, mem_erase, mem_range]
    exact ⟨hut, hu⟩
  exact (mem_waiters.mp hmem).2

end

end

theorem thread_broadcast_of_waiting (h : s.phase u = .waiting) :
    s.broadcast.thread u = { s.thread u with phase := .awake } := by
  simp [broadcast, h]

theorem RoundInv.release (h : RoundInv s r) (ht : t < s.numCacheThreads)
    (hphase : s.phase t = .inside) (hcount : s.count + 1 = s.numCacheThreads) :
    RoundInv (({ s with count := 0 }.broadcast).setPhase t .leaving) (r + 1) := by
  have hmutex : s.mutex = some t := (h.holder t ht).mpr (Or.inl hphase)
  have hself : ({ s with count := 0 }.broadcast).thread t = s.thread t := by
    have hne : (s.thread t).phase ≠ .waiting := by
      change s.phase t ≠ .waiting
      simp [hphase]
    simp [broadcast, phase, hne]
  have hother {u : Nat} (hu : u < s.numCacheThreads) (hut : u ≠ t) :
      (({ s with count := 0 }.broadcast).setPhase t .leaving).thread u =
        { s.thread u with phase := .awake } := by
    rw [setPhase, thread_setThread_of_ne hut]
    exact thread_broadcast_of_waiting (h.all_waiting ht (by simp [hphase]) hcount hu hut)
  have hnew : (({ s with count := 0 }.broadcast).setPhase t .leaving).thread t =
      { s.thread t with phase := .leaving } := by
    rw [setPhase, thread_setThread_self, hself]
  have hphases {u : Nat} (hu : u < s.numCacheThreads) :
      (({ s with count := 0 }.broadcast).setPhase t .leaving).phase u =
        if u = t then .leaving else .awake := by
    unfold phase
    split
    case isTrue hut =>
      rw [hut, hnew]
    case isFalse hut =>
      rw [hother hu hut]
  constructor
  · refine Eq.symm (card_eq_zero.mpr (eq_empty_iff_forall_notMem.mpr ?_))
    intro u hu
    obtain ⟨hlt, hwait⟩ := mem_waiters.mp hu
    rw [hphases hlt] at hwait
    split at hwait <;> cases hwait
  · exact Nat.lt_of_le_of_lt (Nat.zero_le _) ht
  · intro u hu
    by_cases hut : u = t
    · subst hut
      rw [hnew]
      obtain ⟨hentered, hleft⟩ := h.inRound hu hphase
      exact ⟨hentered, congrArg Nat.succ hleft⟩
    · rw [hother hu hut]
      obtain ⟨hentered, hleft⟩ := h.inRound hu (h.all_waiting ht (by simp [hphase]) hcount hu hut)
      exact ⟨hentered, congrArg Nat.succ hleft⟩
  · exact h.holder_lt
  · intro u hu
    rw [hphases hu]
    change s.mutex = some u <-> _
    rw [hmutex]
    by_cases hut : u = t
    · simp [hut, Holding]
    · simp [hut, Ne.symm hut, Holding]
  · rintro ⟨u, hu, hremoved⟩
    rw [hphases hu] at hremoved
    split at hremoved <;> cases hremoved

theorem RoundInv.nextRule (h : RoundInv s r)
    (hfinished : forall u, u < s.numCacheThreads -> s.Finished u) {n numOper : Nat}
    (hn : 0 < n) :
    RoundInv ⟨n, numOper, s.count, s.mutex, fun _ => .start⟩ 0 := by
  have hquiet (u : Nat) (hu : u < s.numCacheThreads) :
      s.phase u = .removed ∨ s.phase u = .outside := by
    rcases hfinished u hu with hphase | ⟨hphase, _⟩
    · exact .inl hphase
    · exact .inr hphase
  have hcount : s.count = 0 := by
    rw [h.count_eq, card_eq_zero, eq_empty_iff_forall_notMem]
    intro u hu
    obtain ⟨hlt, hwait⟩ := mem_waiters.mp hu
    rcases hquiet u hlt with hphase | hphase <;> rw [hphase] at hwait <;> cases hwait
  have hmutex : s.mutex = none := by
    cases hholder : s.mutex with
    | none => rfl
    | some u =>
      have hlt := h.holder_lt u hholder
      have hholding := (h.holder u hlt).mp hholder
      rcases hquiet u hlt with hphase | hphase <;> simp [hphase, Holding] at hholding
  constructor
  · simp [hcount, waiters, phase, CacheThread.start]
  · simpa [hcount] using hn
  · intro u _
    exact ⟨rfl, rfl⟩
  · intro u hu
    rw [hmutex] at hu
    cases hu
  · intro u _
    simp [hmutex, phase, CacheThread.start, Holding]
  · intro _ u _
    rfl

/-- Steps that the synchronisation can cope with: no thread wakes without a
broadcast, and no call is made by the remaining threads when some were removed. -/
def Undisturbed (s : SyncState) : SyncEvent -> Prop
  | .wake _ => False
  | .call _ => ¬ s.SomeRemoved
  | .remove _ => forall u, u < s.numCacheThreads -> (s.thread u).entered = 0
  | _ => True

theorem RoundInv.advanceCount (h : RoundInv s r) (ht : t < s.numCacheThreads)
    (hphase : s.phase t = .inside) : exists r', RoundInv (s.advanceCount t) r' := by
  have hlt := h.count_lt
  unfold SyncState.advanceCount
  split
  case isTrue hzero =>
    have hlast : s.count + 1 = s.numCacheThreads := by
      by_contra hne
      rw [Nat.mod_eq_of_lt (by omega)] at hzero
      omega
    exact ⟨r + 1, h.release ht hphase hlast⟩
  case isFalse hzero =>
    have hmore : s.count + 1 < s.numCacheThreads := by
      by_contra hge
      have hlast : s.count + 1 = s.numCacheThreads := by omega
      exact hzero (by rw [hlast, Nat.mod_self])
    rw [Nat.mod_eq_of_lt hmore]
    exact ⟨r, h.wait ht hphase hmore⟩

theorem RoundInv.step (h : RoundInv s r) {e : SyncEvent} {s' : SyncState}
    (hguard : s.Undisturbed e) (hstep : s.step e = some s') :
    exists r', RoundInv s' r' := by
  cases e <;> simp only [SyncState.step, Option.ite_none_right_eq_some, Option.some.injEq] at hstep
  case call t =>
    obtain ⟨⟨ht, hphase, _⟩, rfl⟩ := hstep
    exact ⟨r, h.call ht hphase hguard⟩
  case lock t =>
    obtain ⟨⟨ht, hphase, hmutex⟩, rfl⟩ := hstep
    exact ⟨r, h.take ht hmutex (.inl ⟨hphase, rfl⟩)⟩
  case advance t =>
    obtain ⟨⟨ht, hphase⟩, rfl⟩ := hstep
    exact h.advanceCount ht hphase
  case wake t =>
    cases hguard
  case relock t =>
    obtain ⟨⟨ht, hphase, hmutex⟩, rfl⟩ := hstep
    exact ⟨r, h.take ht hmutex (.inr ⟨hphase, rfl⟩)⟩
  case unlock t =>
    obtain ⟨⟨ht, hphase⟩, rfl⟩ := hstep
    exact ⟨r, h.unlock ht hphase⟩
  case remove t =>
    obtain ⟨⟨ht, hphase, _⟩, rfl⟩ := hstep
    exact ⟨r, h.remove ht hphase hguard⟩
  case nextRule n numOper =>
    obtain ⟨⟨hn, hfinished⟩, rfl⟩ := hstep
    exact ⟨0, h.nextRule hfinished hn⟩

theorem roundInv_initial (h : s.Initial) : RoundInv s 0 := by
  obtain ⟨hpos, hcount, hmutex, hstart⟩ := h
  have hphase (u : Nat) : s.phase u = .outside := by
    rw [phase, hstart]
    rfl
  constructor
  · simp [hcount, waiters, hphase]
  · rwa [hcount]
  · intro u _
    rw [hstart]
    exact ⟨rfl, rfl⟩
  · intro u hu
    rw [hmutex] at hu
    cases hu
  · intro u _
    simp [hmutex, hphase, Holding]
  · intro _ u _
    rw [hstart]
    rfl

theorem roundInv_of_reachable (h : system.ReachableUnder Undisturbed s) :
    exists r, RoundInv s r := by
  induction h with
  | init hs => exact ⟨0, roundInv_initial hs⟩
  | step _ hguard hstep ih =>
    obtain ⟨r, hr⟩ := ih
    exact hr.step hguard hstep

theorem RoundInv.left_le_entered (h : RoundInv s r) (ht : t < s.numCacheThreads)
    (hu : u < s.numCacheThreads) : (s.thread t).left ≤ (s.thread u).entered := by
  have htround := h.threads t ht
  have huround := h.threads u hu
  unfold InRound at htround huround
  split at htround <;> split at huround <;> omega

end

/-!
# Progress
-/

def Internal : SyncEvent -> Prop
  | .lock _ => True
  | .advance _ => True
  | .relock _ => True
  | .unlock _ => True
  | _ => False

def weight : Phase -> Nat
  | .entered => 5
  | .inside => 4
  | .waiting => 3
  | .awake => 2
  | .leaving => 1
  | .outside => 0
  | .removed => 0

def totalWeight (s : SyncState) : Nat :=
  ∑ t ∈ range s.numCacheThreads, weight (s.phase t)

section

variable {s s' : SyncState} {t r : Nat}

structure Closer (s s' : SyncState) : Prop where
  threads : s'.numCacheThreads = s.numCacheThreads
  entered : forall u, (s'.thread u).entered = (s.thread u).entered
  removed : forall u, s'.phase u = .removed <-> s.phase u = .removed
  weight : s'.totalWeight < s.totalWeight

theorem closer_of_thread (ht : t < s.numCacheThreads)
    (hthreads : s'.numCacheThreads = s.numCacheThreads)
    (hentered : forall u, (s'.thread u).entered = (s.thread u).entered)
    (hremoved : forall u, s'.phase u = .removed <-> s.phase u = .removed)
    (hself : weight (s'.phase t) < weight (s.phase t))
    (hother : forall u, u ≠ t -> weight (s'.phase u) ≤ weight (s.phase u)) :
    Closer s s' := by
  refine ⟨hthreads, hentered, hremoved, ?_⟩
  unfold totalWeight
  rw [hthreads]
  apply sum_lt_sum
  · intro u _
    by_cases hut : u = t
    · rw [hut]
      exact hself.le
    · exact hother u hut
  · exact ⟨t, mem_range.mpr ht, hself⟩

theorem closer_setThread (ht : t < s.numCacheThreads) {th : CacheThread} (m : Option Nat)
    (c : Nat) (hentered : th.entered = (s.thread t).entered) (hnew : th.phase ≠ .removed)
    (hweight : weight th.phase < weight (s.phase t)) :
    Closer s ({ s with count := c, mutex := m }.setThread t th) := by
  have hold : s.phase t ≠ .removed := by
    intro hremoved
    rw [hremoved] at hweight
    exact Nat.not_lt_zero _ hweight
  apply closer_of_thread ht
  · rfl
  · intro u
    by_cases hut : u = t
    · rw [hut, thread_setThread_self, hentered]
    · rw [thread_setThread_of_ne hut]
  · intro u
    by_cases hut : u = t
    · rw [hut, phase_setThread_self]
      simp [hold, hnew]
    · rw [phase_setThread_of_ne hut]
      rfl
  · rwa [phase_setThread_self]
  · intro u hut
    rw [phase_setThread_of_ne hut]
    exact Nat.le_refl _

theorem entered_broadcast (u : Nat) : (s.broadcast.thread u).entered = (s.thread u).entered := by
  unfold broadcast
  dsimp only
  split <;> rfl

theorem phase_broadcast (u : Nat) :
    s.broadcast.phase u = if s.phase u = .waiting then .awake else s.phase u := by
  unfold broadcast phase
  dsimp only
  split <;> rfl

theorem closer_advanceCount (ht : t < s.numCacheThreads) (hphase : s.phase t = .inside) :
    Closer s (s.advanceCount t) := by
  unfold advanceCount
  split
  case isFalse =>
    exact closer_setThread ht none _ rfl (by simp) (by simp [hphase, weight])
  case isTrue =>
    apply closer_of_thread ht
    · rfl
    · intro u
      by_cases hut : u = t
      · rw [hut, setPhase, thread_setThread_self]
        exact entered_broadcast t
      · rw [setPhase, thread_setThread_of_ne hut]
        exact entered_broadcast u
    · intro u
      by_cases hut : u = t
      · rw [hut, setPhase, phase_setThread_self]
        simp [hphase]
      · rw [setPhase, phase_setThread_of_ne hut, phase_broadcast]
        change (if s.phase u = .waiting then Phase.awake else s.phase u) = .removed <-> _
        split
        case isTrue hwait => simp [hwait]
        case isFalse => rfl
    · rw [setPhase, phase_setThread_self, hphase]
      simp [weight]
    · intro u hut
      rw [setPhase, phase_setThread_of_ne hut, phase_broadcast]
      change weight (if s.phase u = .waiting then Phase.awake else s.phase u) ≤ _
      split
      case isTrue hwait => simp [hwait, weight]
      case isFalse => exact le_refl _

def Settled (s : SyncState) : Prop :=
  forall t, t < s.numCacheThreads ->
    s.phase t = .outside ∨ s.phase t = .waiting ∨ s.phase t = .removed

theorem RoundInv.exists_internal (h : RoundInv s r) (hbusy : ¬ s.Settled) :
    exists e s', Internal e ∧ s.step e = some s' ∧ Closer s s' := by
  cases hmutex : s.mutex with
  | some t =>
    have ht := h.holder_lt t hmutex
    rcases (h.holder t ht).mp hmutex with hphase | hphase
    · refine ⟨.advance t, s.advanceCount t, trivial, ?_, closer_advanceCount ht hphase⟩
      exact if_pos ⟨ht, hphase⟩
    · refine ⟨.unlock t, _, trivial, if_pos ⟨ht, hphase⟩, ?_⟩
      exact closer_setThread ht none s.count rfl (by simp) (by simp [hphase, weight])
  | none =>
    unfold Settled at hbusy
    push Not at hbusy
    obtain ⟨t, ht, hout, hwait, hthere⟩ := hbusy
    have hfree : ¬ Holding (s.phase t) := by
      rw [← h.holder t ht, hmutex]
      simp
    have hphase : s.phase t = .entered ∨ s.phase t = .awake := by
      unfold Holding at hfree
      cases hcase : s.phase t <;> simp_all
    rcases hphase with hphase | hphase
    · refine ⟨.lock t, _, trivial, if_pos ⟨ht, hphase, hmutex⟩, ?_⟩
      exact closer_setThread ht (some t) s.count rfl (by simp) (by simp [hphase, weight])
    · refine ⟨.relock t, _, trivial, if_pos ⟨ht, hphase, hmutex⟩, ?_⟩
      exact closer_setThread ht (some t) s.count rfl (by simp) (by simp [hphase, weight])

theorem undisturbed_of_internal {e : SyncEvent} (h : Internal e) : s.Undisturbed e := by
  cases e <;> trivial

theorem RoundInv.exists_settled (h : RoundInv s r) :
    exists events s' r', (forall e, e ∈ events -> Internal e) ∧
      system.run s events = some s' ∧ RoundInv s' r' ∧ s'.Settled ∧
      s'.numCacheThreads = s.numCacheThreads ∧
      (forall u, (s'.thread u).entered = (s.thread u).entered) ∧
      forall u, s'.phase u = .removed <-> s.phase u = .removed := by
  induction hn : s.totalWeight using Nat.strong_induction_on generalizing s r with
  | _ n ih =>
    by_cases hsettled : s.Settled
    · refine ⟨[], s, r, ?_, rfl, h, hsettled, rfl, fun _ => rfl, fun _ => Iff.rfl⟩
      intro e he
      cases he
    · obtain ⟨e, s1, hinternal, hstep, hcloser⟩ := h.exists_internal hsettled
      obtain ⟨r1, h1⟩ := h.step (undisturbed_of_internal hinternal) hstep
      obtain ⟨events, s2, r2, hall, hrun, h2, hrest, hthreads, hentered, hremoved⟩ :=
        ih s1.totalWeight (hn ▸ hcloser.weight) h1 rfl
      refine ⟨e :: events, s2, r2, ?_, ?_, h2, hrest, ?_, ?_, ?_⟩
      · intro e' he'
        rcases List.mem_cons.mp he' with rfl | he'
        · exact hinternal
        · exact hall e' he'
      · simp only [EventSystem.run]
        rw [show system.step s e = some s1 from hstep]
        exact hrun
      · rw [hthreads, hcloser.threads]
      · intro u
        rw [hentered, hcloser.entered]
      · intro u
        rw [hremoved, hcloser.removed]

theorem RoundInv.left_of_settled (h : RoundInv s r) (hsettled : s.Settled) {k : Nat}
    (hentered : forall u, u < s.numCacheThreads -> s.phase u ≠ .removed -> k ≤ (s.thread u).entered)
    (ht : t < s.numCacheThreads) (hthere : s.phase t ≠ .removed) :
    k ≤ (s.thread t).left := by
  rcases hsettled t ht with hphase | hphase | hphase
  · have hk := hentered t ht hthere
    obtain ⟨hin, hleft⟩ := h.inRound ht hphase
    dsimp only at hin hleft
    omega
  · -- not everybody waits, and who is outside has entered all rounds up to `r`
    obtain ⟨u, hu, hnot⟩ : exists u, u < s.numCacheThreads ∧ s.phase u ≠ .waiting := by
      by_contra hall
      push Not at hall
      have hfull : s.waiters = range s.numCacheThreads := by
        apply filter_true_of_mem
        intro u hu
        exact hall u (mem_range.mp hu)
      have hlt := h.count_lt
      rw [h.count_eq, hfull, card_range] at hlt
      exact lt_irrefl _ hlt
    have hnone := h.not_someRemoved ht (by simp [hphase]) hthere
    have hout : s.phase u = .outside := by
      rcases hsettled u hu with hcase | hcase | hcase
      · exact hcase
      · exact absurd hcase hnot
      · exact absurd ⟨u, hu, hcase⟩ hnone
    have hk := hentered u hu (by simp [hout])
    obtain ⟨huin, _⟩ := h.inRound hu hout
    obtain ⟨_, hleft⟩ := h.inRound ht hphase
    dsimp only at huin hleft
    omega
  · exact absurd hphase hthere

/-- Without unexpected wakeups and calls after others were removed, the calls are a barrier:
nobody leaves a round that somebody has not entered, and from every state the threads can
leave all rounds that everybody has entered. -/
theorem barrier_of_undisturbed (h : system.ReachableUnder Undisturbed s) :
    (forall t u, t < s.numCacheThreads -> u < s.numCacheThreads ->
      (s.thread t).left ≤ (s.thread u).entered) ∧
    forall k, (forall u, u < s.numCacheThreads -> s.phase u ≠ .removed ->
        k ≤ (s.thread u).entered) ->
      exists events s', (forall e, e ∈ events -> Internal e) ∧ system.run s events = some s' ∧
        forall t, t < s.numCacheThreads -> s.phase t ≠ .removed -> k ≤ (s'.thread t).left := by
  obtain ⟨r, hr⟩ := roundInv_of_reachable h
  constructor
  · intro t u ht hu
    exact hr.left_le_entered ht hu
  · intro k hentered
    obtain ⟨events, s', r', hall, hrun, h', hsettled, hthreads, hsame, hremoved⟩ :=
      hr.exists_settled
    refine ⟨events, s', hall, hrun, ?_⟩
    intro t ht hthere
    apply h'.left_of_settled hsettled
    · intro u hu hu'
      rw [hsame]
      exact hentered u (hthreads ▸ hu) fun hgone => hu' ((hremoved u).mpr hgone)
    · rwa [hthreads]
    · exact fun hgone => hthere ((hremoved t).mp hgone)

end

instance (s : SyncState) : Decidable s.SomeRemoved :=
  decidable_of_iff (exists t, t ∈ range s.numCacheThreads ∧ s.phase t = .removed)
    (by simp [SomeRemoved])

instance (s : SyncState) (e : SyncEvent) : Decidable (s.Undisturbed e) :=
  match e with
  | .wake _ => isFalse id
  | .call _ => inferInstanceAs (Decidable (¬ s.SomeRemoved))
  | .remove _ => inferInstanceAs
      (Decidable (forall u, u < s.numCacheThreads -> (s.thread u).entered = 0))
  | .lock _ | .advance _ | .relock _ | .unlock _ | .nextRule _ _ => isTrue trivial

def twoThreads : SyncState :=
  ⟨2, 1, 0, none, fun _ => .start⟩

theorem initial_twoThreads : twoThreads.Initial :=
  ⟨by decide, rfl, rfl, fun _ => rfl⟩

def oneWaits : List SyncEvent :=
  [.call 0, .lock 0, .advance 0, .call 1]

theorem barrier_one_waits :
    exists events s', (forall e, e ∈ events -> Internal e) ∧
      system.run ((system.run twoThreads oneWaits).get (by decide)) events = some s' ∧
      forall t, t < 2 -> 1 ≤ (s'.thread t).left := by
  obtain ⟨_, hprogress⟩ := barrier_of_undisturbed
    (EventSystem.ReachableUnder.schedule initial_twoThreads oneWaits (by decide) (by decide))
  obtain ⟨events, s', hall, hrun, hleft⟩ := hprogress 1 (by decide)
  exact ⟨events, s', hall, hrun, fun t ht => hleft t ht (by revert t; decide)⟩

theorem step_none_of_removed {s : SyncState} (hn : s.numCacheThreads = 2)
    (hwait : s.phase 0 = .waiting) (hgone : s.phase 1 = .removed) {e : SyncEvent}
    (he : e ≠ .wake 0) : s.step e = none := by
  have hphase {t : Nat} {phase : Phase} (ht : t < s.numCacheThreads)
      (hcase : s.phase t = phase) : (t = 0 ∧ phase = .waiting) ∨ phase = .removed := by
    rw [hn] at ht
    interval_cases t
    · exact .inl ⟨rfl, hcase.symm.trans hwait⟩
    · exact .inr (hcase.symm.trans hgone)
  cases e <;> refine if_neg ?_
  case wake t =>
    rintro ⟨ht, hcase⟩
    rcases hphase ht hcase with ⟨rfl, _⟩ | hremoved
    · exact he rfl
    · cases hremoved
  case nextRule n numOper =>
    rintro ⟨_, hfinished⟩
    rcases hfinished 0 (by omega) with hcase | ⟨hcase, _⟩ <;> rw [hwait] at hcase <;>
      cases hcase
  case call t =>
    rintro ⟨ht, hcase, _⟩
    rcases hphase ht hcase with ⟨_, hother⟩ | hother <;> cases hother
  case lock t =>
    rintro ⟨ht, hcase, _⟩
    rcases hphase ht hcase with ⟨_, hother⟩ | hother <;> cases hother
  case advance t =>
    rintro ⟨ht, hcase⟩
    rcases hphase ht hcase with ⟨_, hother⟩ | hother <;> cases hother
  case relock t =>
    rintro ⟨ht, hcase, _⟩
    rcases hphase ht hcase with ⟨_, hother⟩ | hother <;> cases hother
  case unlock t =>
    rintro ⟨ht, hcase⟩
    rcases hphase ht hcase with ⟨_, hother⟩ | hother <;> cases hother
  case remove t =>
    rintro ⟨ht, hcase, _⟩
    rcases hphase ht hcase with ⟨_, hother⟩ | hother <;> cases hother

/-- A thread that wakes without a broadcast leaves its first call alone; and when the
other thread was removed, a thread in its first call can do nothing but wait. -/
theorem barrier_broken :
    (exists s, system.Reachable s ∧ s.numCacheThreads = 2 ∧ (s.thread 0).left = 1 ∧
      (s.thread 1).entered = 0) ∧
    exists s, system.Reachable s ∧ s.numCacheThreads = 2 ∧ s.phase 1 = .removed ∧
      (s.thread 0).entered = 1 ∧ (s.thread 0).left = 0 ∧
      forall e, e ≠ .wake 0 -> system.step s e = none := by
  constructor
  · exact ⟨_, EventSystem.Reachable.schedule initial_twoThreads
      [.call 0, .lock 0, .advance 0, .wake 0, .relock 0, .unlock 0] (by decide),
      by decide, by decide, by decide⟩
  · refine ⟨_, EventSystem.Reachable.schedule initial_twoThreads
      [.remove 1, .call 0, .lock 0, .advance 0] (by decide), by decide, by decide,
      by decide, by decide, ?_⟩
    intro e he
    exact step_none_of_removed (by decide) (by decide) (by decide) he

end SyncState

end Htx.Hxecache
