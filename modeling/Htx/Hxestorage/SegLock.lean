import Htx.Hxestorage.SegInv

/-!
# Segment locking is exclusive and free of deadlock

The segment tables implement one range lock: a thread that has returned from `seg_lock`
holds its whole range, and the system of tables simulates the abstract lock.
-/

namespace Htx.Hxestorage

namespace SegState

open Option Function Library RangeLock

variable {tid : Type} {L : SegmentLimits} {s s' : SegState tid} {t : tid} {i k : Nat}

theorem Initial.inv (h : Initial s) : Inv L s := by
  rcases h with ⟨htable, hpc, _⟩
  have hnone : forall i j e, ¬ s.InUse i j e := by
    intro i j e he
    have := he.1
    rw [htable i] at this
    cases this
  refine ⟨?_, ?_, ?_, ?_, ?_⟩
  · intro i j j' e e' he
    exact absurd he (hnone i j e)
  · intro i j e he
    exact absurd he (hnone i j e)
  · intro i j e he
    exact absurd he (hnone i j e)
  · intro t
    unfold ThreadInv
    rw [hpc t]
    trivial
  · intro t i k hw
    rw [hpc t] at hw
    cases hw

theorem Inv.setFault (h : Inv L s) (f : SegFault) : Inv L { s with fault := some f } :=
  ⟨h.disjoint, h.ordered, h.recorded, h.threads, h.blocked⟩

/-!
# The lock never loses an entry
-/

theorem Inv.slot_lt (h : Inv L s) (hfew : (L.touched (s.thread t).flba (s.thread t).llba).card ≤ 3)
    (hpc : (s.thread t).pc = .scanning i k) (hi : i < L.numOfSegTables)
    (hv : L.Visits (s.thread t).flba i) : k < 3 := by
  refine ((h.locking hpc).fill_slots none hi hv).lt_three hfew ?_
  rw [SegContext.fill_num_self]
  exact some_ne_none i

theorem Inv.unlock_slot_lt (h : Inv L s)
    (hfew : (L.touched (s.thread t).flba (s.thread t).llba).card ≤ 3)
    (hpc : (s.thread t).pc = .unlocking k) : k < segSlots := by
  have hun := h.unlocking hpc
  cases k with
  | zero => decide
  | succ k =>
    have hlt := hun.slots.lt_three hfew (hun.released k (Nat.lt_succ_self k))
    change k + 1 < 4
    omega

theorem Inv.unlock_finds (h : Inv L s) (hpc : (s.thread t).pc = .unlocking k)
    (hnum : (s.thread t).segTableNum k = some i) :
    exists index e, (s.thread t).segTableIndex k = some index ∧ s.OwnEntry t i index e := by
  have hne : (s.thread t).segTableNum k ≠ none := by
    rw [hnum]
    exact some_ne_none i
  rcases (h.unlocking hpc).claimed k (le_refl k) hne with ⟨i', index, hnum', hidx, e, he⟩
  have hi : i' = i := some.inj (hnum'.symm.trans hnum)
  subst i'
  exact ⟨index, e, hidx, he⟩

variable [DecidableEq tid]

theorem Move.inv (hmove : Move L s s') (h : Inv L s) : Inv L s' := by
  cases hmove with
  | enter t flba llba hpc hreq => exact h.enter hpc ⟨hreq.1, hreq.2.1⟩
  | finish t i k hpc hi => exact h.finish hpc hi
  | pass t i k hpc hi hv => exact h.pass hpc hi hv
  | wait t i k j e unused hpc hi hv he hover => exact h.wait hpc hi hv he hover
  | claim t i k index now hpc hi hv hfree hnone => exact h.claim hpc hi hv hfree hnone
  | wake t i k hpc => exact h.wake hpc
  | leave t hpc => exact h.leave hpc
  | release t k i index e hpc hnum hidx he => exact h.released hpc hnum hidx he
  | done t k hpc hnum => exact h.done hpc hnum
  | full => exact h.setFault _
  | lockFault t i k f hpc hi hv hk | unlockFault t k f hpc hbad => exact h.setFault f

theorem reachable_inv (h : (segSystem L tid).Reachable s) : Inv L s := by
  refine EventSystem.Reachable.invariant (fun s hs => ?_) ?_ h
  · exact Initial.inv (s := s) hs
  · intro s e t hs hst
    exact (step_move hst).2.inv hs

def Requested (L : SegmentLimits) (s : SegState tid) : Prop :=
  forall t, (s.thread t).pc ≠ .idle -> L.Request (s.thread t).flba (s.thread t).llba

theorem Requested.setThread {c : SegThread} (h : Requested L s)
    (hc : c.pc ≠ .idle -> L.Request c.flba c.llba) : Requested L (s.setThread t c) := by
  intro u hu
  by_cases hut : u = t
  · subst u
    rw [setThread_self] at hu ⊢
    exact hc hu
  · rw [setThread_of_ne hut] at hu ⊢
    exact h u hu

omit [DecidableEq tid] in
theorem Requested.broadcast (h : Requested L s) : Requested L (s.broadcast i) := by
  intro u hu
  rw [broadcast_ctx u]
  apply h u
  intro hidle
  have hawake := broadcast_awake (s := s) (i := i) u
  rw [hidle] at hawake
  apply hu
  cases hpc : ((s.broadcast i).thread u).pc <;> simp [hpc, SegPc.awake] at hawake ⊢

theorem Move.requested (hmove : Move L s s') (h : Requested L s) : Requested L s' := by
  cases hmove with
  | enter t flba llba hpc hreq => exact h.setThread fun _ => hreq
  | finish t i k hpc hi | pass t i k hpc hi hv | wait t i k j e unused hpc hi hv he hover
  | wake t i k hpc | leave t hpc => exact h.setThread fun _ => h t (by simp [hpc])
  | claim t i k index now hpc hi hv hfree hnone =>
    have htable : Requested L (s.setTable i
        (putEntry (s.segTable i) index (claimEntry L (s.thread t) t i now))) := h
    exact htable.setThread fun _ => h t (by simp [hpc])
  | release t k i index e hpc hnum hidx he =>
    have htable : Requested L (s.setTable i
        ((s.segTable i).set index { e with inUse := false })) := h
    refine Requested.broadcast (htable.setThread fun _ => ?_)
    exact h t (by simp [hpc])
  | done t k hpc hnum => exact h.setThread fun hne => absurd rfl hne
  | full | lockFault t i k f hpc hi hv hk | unlockFault t k f hpc hbad => exact h

theorem reachable_requested (h : (segSystem L tid).Reachable s) : Requested L s := by
  refine EventSystem.Reachable.invariant (fun s hs => ?_) ?_ h
  · intro t hpc
    exact absurd (hs.2.1 t) hpc
  · intro s e t hs hst
    exact (step_move hst).2.requested hs

theorem Move.fault (hmove : Move L s s') (h : Inv L s) (hreq : Requested L s)
    (hf : s.fault = none) :
    s'.fault = none ∨ s'.fault = some .allEntriesUsed := by
  cases hmove with
  | full => exact .inr rfl
  | lockFault t i k f hpc hi hv hk =>
    have hlt := h.slot_lt (hreq t (by simp [hpc])).2.2 hpc hi hv
    unfold segSlots at hk
    omega
  | unlockFault t k f hpc hbad =>
    have hk := h.unlock_slot_lt (hreq t (by simp [hpc])).2.2 hpc
    rcases hbad with hge | ⟨i, hnum, hbad⟩
    · omega
    · rcases h.unlock_finds hpc hnum with ⟨index, e, hidx, he⟩
      exact absurd he (hbad index e hidx)
  | _ => exact .inl hf

theorem reachable_fault (h : (segSystem L tid).Reachable s) :
    s.fault = none ∨ s.fault = some .allEntriesUsed := by
  cases h with
  | init hs => exact .inl hs.2.2
  | step hr _ hst =>
    rcases step_move hst with ⟨hf, hmove⟩
    exact hmove.fault (reachable_inv hr) (reachable_requested hr) hf

/-!
# Simulation of the range lock
-/

def held (s : SegState tid) (t : tid) : Set Nat :=
  { b | (s.thread t).pc = .holding ∧ (s.thread t).flba ≤ b ∧
    b ≤ (s.thread t).llba }

omit [DecidableEq tid] in
theorem held_of_ne (hpc : (s.thread t).pc ≠ .holding) : s.held t = ∅ := by
  apply Set.eq_empty_of_forall_notMem
  intro b hb
  exact hpc hb.1

omit [DecidableEq tid] in
theorem Inv.held_disjoint {u : tid} (h : Inv L s) (hne : t ≠ u) :
    Disjoint (s.held t) (s.held u) := by
  rw [Set.disjoint_left]
  intro b hbt hbu
  rcases hbt with ⟨ht, hft, hlt⟩
  rcases hbu with ⟨hu, hfu, hlu⟩
  have hholdt := h.holding ht
  have hholdu := h.holding hu
  rcases L.exists_segment (hlt.trans hholdt.slots.onDisk.2) with ⟨i, hi, hlow, hup⟩
  rcases hholdt.covers i hi ⟨hlow.trans hlt, hft.trans hup⟩ with ⟨m, hm⟩
  rcases hholdu.covers i hi ⟨hlow.trans hlu, hfu.trans hup⟩ with ⟨n, hn⟩
  rcases hholdt.claimed m (by rw [hm]; exact some_ne_none i) with
    ⟨i1, j1, hm', _, e1, he1, hf1, hl1, ht1⟩
  rcases hholdu.claimed n (by rw [hn]; exact some_ne_none i) with
    ⟨i2, j2, hn', _, e2, he2, hf2, hl2, ht2⟩
  cases some.inj (hm'.symm.trans hm)
  cases some.inj (hn'.symm.trans hn)
  have hj : j1 ≠ j2 := by
    intro hj
    subst j2
    have heq := some.inj (he1.1.symm.trans he2.1)
    rw [heq, ht2] at ht1
    exact hne ht1.symm
  have hdis := h.disjoint i j1 j2 e1 e2 he1 he2 hj
  rw [Set.disjoint_left] at hdis
  have hmem1 : b ∈ e1.range := by
    constructor
    · rw [hf1]
      exact hft
    · rw [hl1]
      exact hlt
  have hmem2 : b ∈ e2.range := by
    constructor
    · rw [hf2]
      exact hfu
    · rw [hl2]
      exact hlu
  exact hdis hmem1 hmem2

theorem held_setThread {c : SegThread} : (s.setThread t c).held =
      Function.update s.held t
        { b | c.pc = .holding ∧ c.flba ≤ b ∧ b ≤ c.llba } := by
  funext u
  by_cases hu : u = t
  · subst u
    rw [update_self]
    unfold held
    rw [setThread_self]
  · rw [update_of_ne hu]
    unfold held
    rw [setThread_of_ne hu]

theorem held_setThread_same {c : SegThread} (hpc : (s.thread t).pc ≠ .holding)
    (hc : c.pc ≠ .holding) :
    (s.setThread t c).held = s.held := by
  rw [held_setThread]
  have hempty : { b | c.pc = .holding ∧ c.flba ≤ b ∧ b ≤ c.llba } = s.held t := by
    rw [held_of_ne hpc]
    apply Set.eq_empty_of_forall_notMem
    intro b hb
    exact hc hb.1
  rw [hempty, update_eq_self]

omit [DecidableEq tid] in
theorem held_broadcast : (s.broadcast i).held = s.held := by
  funext u
  unfold held
  rw [broadcast_ctx u]
  have hpc : ((s.broadcast i).thread u).pc = .holding <-> (s.thread u).pc = .holding := by
    have hawake := broadcast_awake (s := s) (i := i) u
    constructor
    · intro h
      rw [h] at hawake
      cases hu : (s.thread u).pc <;> simp [hu, SegPc.awake] at hawake ⊢
    · intro h
      rw [h] at hawake
      cases hu : ((s.broadcast i).thread u).pc <;>
        simp [hu, SegPc.awake] at hawake ⊢
  simp only [hpc]

theorem simulates_stutter (h : s'.held = s.held) : Step s.held s'.held := by
  rw [h]
  exact .stutter

theorem Inv.simulates_acquire (h : Inv L s') (hpc : (s.thread t).pc ≠ .holding) {r : Set Nat}
    (hheld : s'.held = Function.update s.held t r) :
    Step s.held s'.held := by
  rw [hheld]
  apply Step.acquire t r (held_of_ne hpc)
  intro u hu
  have hdis := h.held_disjoint hu
  rw [hheld, update_self, update_of_ne hu] at hdis
  exact hdis

theorem held_leave :
    (s.setThread t { s.thread t with pc := .unlocking k }).held = Function.update s.held t ∅ := by
  rw [held_setThread]
  congr 1
  apply Set.eq_empty_of_forall_notMem
  intro b hb
  cases hb.1

theorem Move.simulates (hmove : Move L s s') (h : Inv L s) : Step s.held s'.held := by
  have h' := hmove.inv h
  cases hmove with
  | enter t flba llba hpc hreq | pass t i k hpc hi hv
  | wait t i k j e unused hpc hi hv he hover | wake t i k hpc | done t k hpc hnum =>
    exact simulates_stutter (held_setThread_same (by simp [hpc]) (by simp))
  | finish t i k hpc hi => exact h'.simulates_acquire (by simp [hpc]) held_setThread
  | claim t i k index now hpc hi hv hfree hnone =>
    by_cases hlast : (s.thread t).llba ≤ L.lbaUpperLimit i
    · exact h'.simulates_acquire (by simp [hpc]) held_setThread
    · refine simulates_stutter ?_
      apply held_setThread_same
      · change (s.thread t).pc ≠ .holding
        simp [hpc]
      · simp [hlast]
  | leave t hpc =>
    rw [held_leave]
    exact .release t
  | release t k i index e hpc hnum hidx he =>
    refine simulates_stutter (held_broadcast.trans ?_)
    apply held_setThread_same
    · change (s.thread t).pc ≠ .holding
      simp [hpc]
    · simp
  | full | lockFault t i k f hpc hi hv hk | unlockFault t k f hpc hbad =>
    exact .stutter

omit [DecidableEq tid] in
theorem Initial.held (h : Initial s) : s.held = fun _ => ∅ := by
  funext t
  apply held_of_ne
  rw [h.2.1 t]
  simp

theorem reachable_exclusive (h : (segSystem L tid).Reachable s) : Exclusive s.held := by
  induction h with
  | init hs =>
    rw [Initial.held hs]
    exact exclusive_empty
  | step hr _ hst ih => exact ((step_move hst).2.simulates (reachable_inv hr)).exclusive ih

/-!
# Waiting
-/

def WaitsFor (s : SegState tid) (t u : tid) : Prop :=
  exists i k j e, (s.thread t).pc = .waiting i k ∧ s.InUse i j e ∧
    e.Overlaps (s.thread t).flba (s.thread t).llba ∧ e.tid = u

def waitRank (s : SegState tid) (t : tid) : Nat :=
  match (s.thread t).pc with
  | .waiting i _ => i
  | _ => 0

omit [DecidableEq tid] in
theorem Inv.waiting_below {j i' k' : Nat} {e : SegmentTableData tid} (h : Inv L s)
    (he : s.InUse i j e) (hpc : (s.thread e.tid).pc = .waiting i' k') : i < i' := by
  rcases h.recorded i j e he with ⟨m, hact, hnum, _⟩
  have ht := h.threads e.tid
  unfold ThreadInv at ht
  rw [hpc] at hact ht
  exact ht.below m i hact hnum

omit [DecidableEq tid] in
theorem Inv.no_waiting_group (h : Inv L s) (group : Set tid)
    (hgroup : forall t, t ∈ group -> exists u, u ∈ group ∧ s.WaitsFor t u) :
    ¬ group.Nonempty := by
  refine no_closed_waiting_group s.waitRank L.numOfSegTables group ?_ ?_
  · intro t ht
    rcases hgroup t ht with ⟨u, _, i, k, _, _, hpc, _⟩
    unfold waitRank
    rw [hpc]
    exact (h.blocked t i k hpc).1
  · intro t ht
    rcases hgroup t ht with ⟨u, hu, i, k, j, e, hpc, he, _, rfl⟩
    refine ⟨e.tid, hu, ?_⟩
    rcases hgroup e.tid hu with ⟨_, _, i', k', _, _, hpc', _⟩
    unfold waitRank
    rw [hpc, hpc']
    exact h.waiting_below he hpc'

theorem step_unlockTable (hf : s.fault = none) (hpc : (s.thread t).pc = .unlocking k) :
    s.step L (.unlockTable t) = some (s.unlockTable t k) := by
  unfold step
  simp only [hf, hpc, isSome_none, Bool.false_eq_true, if_false]

theorem unlockTable_own {index : Nat} {e : SegmentTableData tid} (hk : k < segSlots)
    (hnum : (s.thread t).segTableNum k = some i) (hidx : (s.thread t).segTableIndex k = some index)
    (he : s.OwnEntry t i index e) :
    s.unlockTable t k = s.released t k i index e := by
  unfold unlockTable
  rw [if_neg (not_le.mpr hk)]
  simp only [hnum, hidx, he.1.1]
  rw [if_pos ⟨he.1.2, he.2⟩]
  rfl

theorem Inv.release_wakes {u : tid} {k' : Nat} (h : Inv L s)
    (hfew : (L.touched (s.thread u).flba (s.thread u).llba).card ≤ 3)
    (hpc : (s.thread u).pc = .unlocking k) (hnum : (s.thread u).segTableNum k = some i)
    (hst : s.step L (.unlockTable u) = some s') (hw : (s.thread t).pc = .waiting i k') :
    (s'.thread t).pc = .scanning i k' := by
  have hk := h.unlock_slot_lt hfew hpc
  rcases h.unlock_finds hpc hnum with ⟨index, e, hidx, he⟩
  have hs' : s' = s.released u k i index e := by
    rw [step_unlockTable (step_move hst).1 hpc, unlockTable_own hk hnum hidx he] at hst
    exact (some.inj hst).symm
  have htu : t ≠ u := by
    intro htu
    rw [htu, hpc] at hw
    cases hw
  rw [hs']
  apply broadcast_wakes
  rw [setThread_of_ne htu]
  exact hw

end SegState

def twoSegments : SegmentLimits where
  maxblk := 19
  numOfSegTables := 2
  lbaLowerLimit := fun i => 10 * i
  lbaUpperLimit := fun i => 10 * i + 9
  numOfSegTables_pos := by decide
  lower_zero := rfl
  lower_le_upper := fun i _ => Nat.le_add_right (10 * i) 9
  lower_succ := fun _ _ => rfl
  upper_last := rfl

open SegState

theorem segLock_exclusive (L : SegmentLimits) (tid : Type) [DecidableEq tid]
    (s : SegState tid) (hreach : (segSystem L tid).Reachable s)
    (t u : tid) (hne : t ≠ u)
    (ht : (s.thread t).pc = .holding) (hu : (s.thread u).pc = .holding) :
    ¬ exists b, ((s.thread t).flba ≤ b ∧ b ≤ (s.thread t).llba) ∧
      ((s.thread u).flba ≤ b ∧ b ≤ (s.thread u).llba) := by
  intro hb
  rcases hb with ⟨b, hbt, hbu⟩
  have hdis : Disjoint (s.held t) (s.held u) :=
    reachable_exclusive hreach hne
  rw [Set.disjoint_left] at hdis
  exact hdis ⟨ht, hbt⟩ ⟨hu, hbu⟩

open Library.EventSystem.Reachable

theorem segLock_exclusive_crossing :
    exists s : SegState Bool, (segSystem twoSegments Bool).Reachable s ∧
      (s.thread false).pc = .holding ∧ (s.thread true).pc = .holding ∧
      ¬ exists b, ((s.thread false).flba ≤ b ∧ b ≤ (s.thread false).llba) ∧
        ((s.thread true).flba ≤ b ∧ b ≤ (s.thread true).llba) := by
  have hreach := schedule
    (S := segSystem twoSegments Bool) (initial_start Bool)
    [.segLock false 3 12, .lockTable false 0, .segLock true 13 15,
      .lockTable true 0, .lockTable true 0, .lockTable false 0] rfl
  exact ⟨_, hreach, rfl, rfl, segLock_exclusive _ _ _ hreach false true (by decide) rfl rfl⟩

/-- No group of threads waits for itself, and every waiter is woken by the
release of the entry that blocks it. -/
theorem segLock_deadlockFree (L : SegmentLimits) (tid : Type) [DecidableEq tid]
    (s : SegState tid) (hreach : (segSystem L tid).Reachable s) :
    (¬ exists group : Set tid, group.Nonempty ∧
      forall t, t ∈ group -> exists u, u ∈ group ∧ u ≠ t ∧ s.WaitsFor t u) ∧
    (forall t i k, (s.thread t).pc = .waiting i k ->
      exists j e, s.InUse i j e ∧ e.Overlaps (s.thread t).flba (s.thread t).llba ∧ e.tid ≠ t) ∧
    (forall t u i k k' s', (s.thread t).pc = .waiting i k -> (s.thread u).pc = .unlocking k' ->
      (s.thread u).segTableNum k' = some i ->
      s.step L (.unlockTable u) = some s' ->
      (s'.thread t).pc = .scanning i k) := by
  have hinv := reachable_inv hreach
  refine ⟨?_, ?_, ?_⟩
  · intro hgroup
    rcases hgroup with ⟨group, hne, hwaits⟩
    refine hinv.no_waiting_group group ?_ hne
    intro t ht
    rcases hwaits t ht with ⟨u, hu, _, hw⟩
    exact ⟨u, hu, hw⟩
  · intro t i k hw
    exact (hinv.blocked t i k hw).2
  · intro t u i k k' s' hw hpc hnum hst
    have hreq := reachable_requested hreach u (by simp [hpc])
    exact hinv.release_wakes hreq.2.2 hpc hnum hst hw

theorem segLock_deadlockFree_waiting :
    exists s : SegState Bool, (segSystem twoSegments Bool).Reachable s ∧
      (s.thread true).pc = .waiting 0 0 ∧
      (¬ exists group : Set Bool, group.Nonempty ∧
        forall t, t ∈ group -> exists u, u ∈ group ∧ u ≠ t ∧ s.WaitsFor t u) := by
  have hreach := schedule
    (S := segSystem twoSegments Bool) (initial_start Bool)
    [.segLock false 3 12, .lockTable false 0, .lockTable false 0,
      .segLock true 5 6, .lockTable true 0] rfl
  exact ⟨_, hreach, rfl, (segLock_deadlockFree _ _ _ hreach).1⟩

/-- No range is held at the start, every step of a run is a step of the range lock, and a full
table is the only failure. -/
theorem segLock_refines (L : SegmentLimits) (tid : Type) [DecidableEq tid]
    (events : List (SegEvent tid)) :
    (start tid).held = (fun _ => ∅) ∧
      (segSystem L tid).Along (fun s =>
        (forall e s', (segSystem L tid).step s e = some s' ->
          Library.RangeLock.Step s.held s'.held) ∧
        (s.fault = none ∨ s.fault = some .allEntriesUsed)) (start tid) events := by
  have hstart := initial_start tid
  refine ⟨hstart.held, along (fun s hs => ⟨?_, reachable_fault hs⟩) (.init hstart) events⟩
  intro e s' hst
  exact (SegState.step_move hst).2.simulates (reachable_inv hs)

end Htx.Hxestorage
