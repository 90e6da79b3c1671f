import Htx.Hxestorage.SegLock

/-!
# Unlocking a range of any length

`seg_lock` itself does not ask how many tables a range crosses.
-/

namespace Htx.Hxestorage

open SegState Option Finset Function Library

namespace SegState

variable {tid : Type} [DecidableEq tid] {L : SegmentLimits}

def stepAny (L : SegmentLimits) (s : SegState tid) : SegEvent tid -> Option (SegState tid)
  | .segLock t flba llba =>
    if s.fault.isSome then none
    else if (s.thread t).pc = .idle ∧ L.OnDisk flba llba then
      some (s.setThread t
        { pc := .scanning 0 0, flba := flba, llba := llba,
          segTableNum := fun _ => none, segTableIndex := fun _ => none })
    else none
  | e => s.step L e

theorem Inv.stepAny {s s' : SegState tid} {e : SegEvent tid} (h : Inv L s)
    (hst : s.stepAny L e = some s') : Inv L s' := by
  cases e with
  | segLock t flba llba =>
    simp only [SegState.stepAny] at hst
    split at hst
    · cases hst
    · split at hst
      · next hcall =>
          cases hst
          exact h.enter hcall.1 hcall.2
      · cases hst
  | lockTable t | wakeup t | segUnlock t | unlockTable t =>
    simp only [SegState.stepAny] at hst
    exact (step_move hst).2.inv h

end SegState

def anyRangeSystem (L : SegmentLimits) (tid : Type) [DecidableEq tid] :
    EventSystem (SegState tid) (SegEvent tid) where
  Initial := Initial
  step := stepAny L

theorem anyRange_inv {L : SegmentLimits} {tid : Type} [DecidableEq tid] {s : SegState tid}
    (h : (anyRangeSystem L tid).Reachable s) : s.Inv L := by
  refine EventSystem.Reachable.invariant (fun s hs => ?_) ?_ h
  · exact Initial.inv (s := s) hs
  · intro s e s' hs hst
    exact hs.stepAny hst

/-!
# What the arrays record
-/

def SegPc.Released (k : Nat) : SegPc -> Prop
  | .holding => k = 0
  | .unlocking k' => k' = k
  | _ => False

theorem Slots.card_touched {L : SegmentLimits} {c : SegContext} (h : Slots L c)
    (hcovers : forall i, i < L.numOfSegTables -> L.Touches c.flba c.llba i ->
      exists m, c.segTableNum m = some i)
    {n : Nat} (hn : forall m, c.segTableNum m = none <-> n ≤ m) :
    (L.touched c.flba c.llba).card = n := by
  have hfilled : forall m, m < n -> exists i, c.segTableNum m = some i := by
    intro m hm
    apply ne_none_iff_exists'.mp
    rw [Ne, hn m]
    omega
  have himage : L.touched c.flba c.llba =
      (range n).image fun m => (c.segTableNum m).getD 0 := by
    ext i
    rw [L.mem_touched, mem_image]
    constructor
    · intro hi
      rcases hcovers i hi.1 hi.2 with ⟨m, hm⟩
      refine ⟨m, ?_, by rw [hm, getD_some]⟩
      rw [mem_range]
      by_contra hge
      rw [(hn m).mpr (Nat.le_of_not_lt hge)] at hm
      cases hm
    · intro hi
      rcases hi with ⟨m, hm, hnum⟩
      rcases hfilled m (mem_range.mp hm) with ⟨i', hi'⟩
      rw [hi', getD_some] at hnum
      rw [← hnum]
      exact h.touched m i' hi'
  rw [himage, card_image_of_injOn, card_range]
  intro m hm m' hm' heq
  rw [coe_range, Set.mem_Iio] at hm hm'
  rcases hfilled m hm with ⟨i, hi⟩
  rcases hfilled m' hm' with ⟨i', hi'⟩
  simp only [hi, hi', getD_some] at heq
  rcases lt_trichotomy m m' with hlt | hmm | hgt
  · have := h.ascending m m' i i' hlt hi hi'
    omega
  · exact hmm
  · have := h.ascending m' m i' i hgt hi' hi
    omega

namespace SegState

variable {tid : Type} {L : SegmentLimits}

/-- What the arrays of thread `t` record when the first `k` slots are released: all the touched
tables, a terminator behind them, and in the slots from `k` on the locked entries that
name the thread, of which there are no others. -/
structure Records (L : SegmentLimits) (s : SegState tid) (t : tid) (k : Nat) : Prop where
  terminated : (L.touched (s.thread t).flba (s.thread t).llba).card < segSlots ∧
    forall m, (s.thread t).segTableNum m = none <->
      (L.touched (s.thread t).flba (s.thread t).llba).card ≤ m
  tables : forall i, (exists m, (s.thread t).segTableNum m = some i) <->
    i ∈ L.touched (s.thread t).flba (s.thread t).llba
  entries : forall i j, (exists e, s.InUse i j e ∧ e.tid = t) <->
    exists m, k ≤ m ∧ (s.thread t).segTableNum m = some i ∧ (s.thread t).segTableIndex m = some j

variable {s : SegState tid} {t : tid}

theorem Inv.releasing {k : Nat} (h : Inv L s) (hpc : (s.thread t).pc.Released k) :
    Unlocking L (s.thread t).toSegContext (s.Own t) k := by
  unfold SegPc.Released at hpc
  split at hpc
  · next hhold =>
      subst hpc
      exact (h.holding hhold).leave
  · next k' hunlock =>
      subst hpc
      exact h.unlocking hunlock
  · exact hpc.elim

theorem Inv.records {k : Nat} (h : Inv L s)
    (hfew : (L.touched (s.thread t).flba (s.thread t).llba).card ≤ 3)
    (hpc : (s.thread t).pc.Released k) : Records L s t k := by
  have hun := h.releasing hpc
  have hexists : exists m, (s.thread t).segTableNum m = none := by
    refine ⟨3, ?_⟩
    by_contra hne
    exact absurd (hun.slots.lt_three hfew hne) (lt_irrefl 3)
  -- the slots are filled from the first one on
  have hfind : forall m, (s.thread t).segTableNum m = none <-> Nat.find hexists ≤ m := by
    intro m
    constructor
    · exact Nat.find_min' hexists
    · intro hle
      by_contra hne
      rcases lt_or_eq_of_le hle with hlt | heq
      · exact hun.slots.contiguous _ m hlt hne (Nat.find_spec hexists)
      · rw [← heq] at hne
        exact hne (Nat.find_spec hexists)
  have hcard := hun.slots.card_touched hun.covers hfind
  refine ⟨⟨Nat.lt_succ_of_le hfew, ?_⟩, ?_, ?_⟩
  · intro m
    rw [hfind m]
    exact Iff.of_eq (congrArg (fun n => n ≤ m) hcard.symm)
  · intro i
    rw [L.mem_touched]
    constructor
    · intro hm
      rcases hm with ⟨m, hm⟩
      exact hun.slots.touched m i hm
    · intro hi
      exact hun.covers i hi.1 hi.2
  · intro i j
    constructor
    · intro he
      rcases he with ⟨e, he, ht⟩
      rcases h.recorded i j e he with ⟨m, hact, hnum, hidx⟩
      rw [ht] at hact hnum hidx
      refine ⟨m, ?_, hnum, hidx⟩
      unfold SegPc.Released at hpc
      split at hpc
      · omega
      · next k' hunlock =>
          rw [hunlock] at hact
          rw [← hpc]
          exact hact
      · exact hpc.elim
    · intro hm
      rcases hm with ⟨m, hk, hnum, hidx⟩
      rcases hun.claimed m hk (by rw [hnum]; exact some_ne_none i) with
        ⟨i', j', hnum', hidx', e, he, _, _, ht⟩
      have hi : i' = i := some.inj (hnum'.symm.trans hnum)
      have hj : j' = j := some.inj (hidx'.symm.trans hidx)
      subst hi
      subst hj
      exact ⟨e, he, ht⟩

/-!
# One iteration and the whole call of `seg_unlock`
-/

/-- What one iteration of `seg_unlock` does to slot `k`: it clears `in_use` of the entry that
the slot records, which is an entry of the thread, and nothing else; at the terminator it
returns. -/
def Releases (s s' : SegState tid) (t : tid) (k : Nat) : Prop :=
  s'.fault = none ∧
    match (s.thread t).segTableNum k with
    | none => s'.segTable = s.segTable ∧ (s'.thread t).pc = .idle
    | some i =>
      exists index e, (s.thread t).segTableIndex k = some index ∧ s.OwnEntry t i index e ∧
        s'.segTable = update s.segTable i
          ((s.segTable i).set index { e with inUse := false }) ∧
        (s'.thread t).pc = .unlocking (k + 1)

def cleared (t : tid) [DecidableEq tid] (e : SegmentTableData tid) : SegmentTableData tid :=
  if e.inUse = true ∧ e.tid = t then { e with inUse := false } else e

variable [DecidableEq tid]

theorem released_pc {k i index : Nat} {e : SegmentTableData tid} :
    ((s.released t k i index e).thread t).pc = .unlocking (k + 1) := by
  have hawake : ((s.released t k i index e).thread t).pc.awake = .unlocking (k + 1) :=
    released_awake_self
  cases hpc : ((s.released t k i index e).thread t).pc <;> simp_all [SegPc.awake]

theorem Inv.unlockTable_releases {k : Nat} (h : Inv L s)
    (hf : s.fault = none) (hfew : (L.touched (s.thread t).flba (s.thread t).llba).card ≤ 3)
    (hpc : (s.thread t).pc = .unlocking k) : Releases s (s.unlockTable t k) t k := by
  have hk := h.unlock_slot_lt hfew hpc
  unfold Releases
  cases hnum : (s.thread t).segTableNum k with
  | none =>
    have hdone : s.unlockTable t k = s.setThread t { s.thread t with pc := .idle } := by
      unfold unlockTable
      rw [if_neg (not_le.mpr hk)]
      simp only [hnum]
    rw [hdone, setThread_self]
    exact ⟨hf, rfl, rfl⟩
  | some i =>
    rcases h.unlock_finds hpc hnum with ⟨index, e, hidx, he⟩
    rw [unlockTable_own hk hnum hidx he]
    exact ⟨hf, index, e, hidx, he, rfl, released_pc⟩

theorem cleared_set {i index a b : Nat} {e : SegmentTableData tid} (he : s.OwnEntry t i index e) :
    ((update s.segTable i
      ((s.segTable i).set index { e with inUse := false })) a)[b]?.map (cleared t) =
      (s.segTable a)[b]?.map (cleared t) := by
  by_cases ha : a = i
  · subst a
    rw [update_self, List.getElem?_set]
    by_cases hb : index = b
    · subst b
      rcases List.getElem?_eq_some_iff.mp he.1.1 with ⟨hlen, _⟩
      rw [if_pos rfl, if_pos hlen, he.1.1, map_some, map_some]
      simp [cleared, he.1.2, he.2.2.2]
    · rw [if_neg hb]
  · rw [update_of_ne ha]

theorem run_unlockTable {k : Nat} (hf : s.fault = none)
    (hpc : (s.thread t).pc = .unlocking k) (rest : List (SegEvent tid)) :
    (anyRangeSystem L tid).run s (.unlockTable t :: rest) =
      (anyRangeSystem L tid).run (s.unlockTable t k) rest := by
  have hstep : (anyRangeSystem L tid).step s (.unlockTable t) = some (s.unlockTable t k) :=
    step_unlockTable (L := L) hf hpc
  rw [EventSystem.run, hstep]

theorem Inv.unlock_run {k d : Nat} (h : Inv L s)
    (hf : s.fault = none) (hfew : (L.touched (s.thread t).flba (s.thread t).llba).card ≤ 3)
    (hpc : (s.thread t).pc = .unlocking k)
    (hd : (L.touched (s.thread t).flba (s.thread t).llba).card = k + d) :
    exists s', (anyRangeSystem L tid).run s (List.replicate (d + 1) (.unlockTable t)) = some s' ∧
      s'.fault = none ∧ (s'.thread t).pc = .idle ∧
      forall i j : Nat, (s'.segTable i)[j]? = (s.segTable i)[j]?.map (cleared t) := by
  induction d generalizing s k with
  | zero =>
    have hrecords := h.records hfew (show (s.thread t).pc.Released k by rw [hpc]; rfl)
    have hreleases := h.unlockTable_releases hf hfew hpc
    rw [Releases, (hrecords.terminated.2 k).mpr (le_of_eq hd)] at hreleases
    refine ⟨s.unlockTable t k, run_unlockTable hf hpc [], hreleases.1, hreleases.2.2, ?_⟩
    intro i j
    rw [hreleases.2.1]
    -- no entry of the thread is left
    cases he : (s.segTable i)[j]? with
    | none => rfl
    | some e =>
      rw [map_some, cleared, if_neg]
      intro hown
      rcases (hrecords.entries i j).mp ⟨e, ⟨he, hown.1⟩, hown.2⟩ with ⟨m, hkm, hnum, _⟩
      rw [(hrecords.terminated.2 m).mpr (by omega)] at hnum
      cases hnum
  | succ d ih =>
    have hrecords := h.records hfew (show (s.thread t).pc.Released k by rw [hpc]; rfl)
    have hsome : (s.thread t).segTableNum k ≠ none := by
      rw [Ne, hrecords.terminated.2 k]
      omega
    rcases ne_none_iff_exists'.mp hsome with ⟨i, hnum⟩
    rcases h.unlock_finds hpc hnum with ⟨index, e, hidx, he⟩
    have hctx := @released_ctx _ s t i k index e _ t
    rcases ih (h.released hpc hnum hidx he) hf (by rw [hctx]; exact hfew) released_pc
      (by rw [hctx, hd]; omega) with ⟨s', hrun, hfault, hidle, hentries⟩
    refine ⟨s', ?_, hfault, hidle, ?_⟩
    · rw [List.replicate_succ, run_unlockTable hf hpc,
        unlockTable_own (h.unlock_slot_lt hfew hpc) hnum hidx he]
      exact hrun
    · intro a b
      rw [hentries a b]
      exact cleared_set he

/-!
# The steps of `seg_lock`
-/

theorem step_lockTable {s' : SegState tid} {now : Nat}
    (hst : s.step L (.lockTable t now) = some s') :
    s.fault = none ∧ exists i k, (s.thread t).pc = .scanning i k ∧
      s' = s.lockTable L t i k now := by
  have hf := (step_move hst).1
  refine ⟨hf, ?_⟩
  unfold step at hst
  simp only [hf, isSome_none, Bool.false_eq_true, if_false] at hst
  cases hpc : (s.thread t).pc with
  | scanning i k =>
    simp only [hpc] at hst
    exact ⟨i, k, rfl, (some.inj hst).symm⟩
  | _ => simp [hpc] at hst

theorem lockTable_inBounds {i k now : Nat} (hf : s.fault = none)
    (hk : i < L.numOfSegTables -> L.Visits (s.thread t).flba i -> k < segSlots) :
    (s.lockTable L t i k now).fault ≠ some .outOfBounds := by
  have hkeep : s.fault ≠ some .outOfBounds := by simp [hf]
  unfold lockTable
  by_cases hn : L.numOfSegTables ≤ i
  · simp only [hn, if_true]
    exact hkeep
  by_cases hv : L.Visits (s.thread t).flba i
  · have hlt := not_le.mpr (hk (Nat.lt_of_not_le hn) hv)
    simp only [hn, hv, hlt, not_true_eq_false, if_false]
    split
    · exact hkeep
    · split
      · exact hkeep
      · split
        · exact hkeep
        · simp
  · simp only [hn, hv, not_false_eq_true, if_false, if_true]
    exact hkeep

theorem lockTable_empty {i k now : Nat}
    (hi : i < L.numOfSegTables) (hv : L.Visits (s.thread t).flba i) (hk : k < segSlots)
    (hempty : s.segTable i = []) : s.lockTable L t i k now = s.claim L t i k 0 now := by
  unfold lockTable
  simp only [not_le.mpr hi, hv, not_le.mpr hk, not_true_eq_false, if_false, hempty]
  rfl

end SegState

/-!
# `seg_unlock` undoes `seg_lock`
-/

/-- In every state that any calls of any threads lead to, `seg_lock` stays within its arrays;
from its return on they record what was claimed; each iteration of `seg_unlock` releases one
entry; and the call ends with all entries of the thread released. -/
structure UnlockUndoesLock (L : SegmentLimits) (tid : Type) [DecidableEq tid]
    (flba llba : Nat) : Prop where
  inBounds : forall (s s' : SegState tid) (t : tid) (now : Nat),
    (anyRangeSystem L tid).Reachable s ->
    (s.thread t).flba = flba -> (s.thread t).llba = llba ->
    s.stepAny L (.lockTable t now) = some s' -> s'.fault ≠ some .outOfBounds
  records : forall (s : SegState tid) (t : tid) (k : Nat), (anyRangeSystem L tid).Reachable s ->
    (s.thread t).flba = flba -> (s.thread t).llba = llba ->
    (s.thread t).pc.Released k -> s.Records L t k
  releases : forall (s s' : SegState tid) (t : tid) (k : Nat), (anyRangeSystem L tid).Reachable s ->
    (s.thread t).flba = flba -> (s.thread t).llba = llba ->
    (s.thread t).pc = .unlocking k ->
    s.stepAny L (.unlockTable t) = some s' -> s.Releases s' t k
  unlocks : forall (s : SegState tid) (t : tid),
    (anyRangeSystem L tid).Reachable s -> s.fault = none ->
    (s.thread t).flba = flba -> (s.thread t).llba = llba -> (s.thread t).pc = .holding ->
    exists s', (anyRangeSystem L tid).run s
        (.segUnlock t :: List.replicate ((L.touched flba llba).card + 1) (.unlockTable t)) =
          some s' ∧
      s'.fault = none ∧ (s'.thread t).pc = .idle ∧
      forall i j : Nat, (s'.segTable i)[j]? = (s.segTable i)[j]?.map (cleared t)

namespace UnlockUndoesLock

variable {L : SegmentLimits} {tid : Type} [DecidableEq tid] {flba llba : Nat}

theorem of_few (hfew : (L.touched flba llba).card ≤ 3) : UnlockUndoesLock L tid flba llba where
  inBounds := by
    intro s s' t now hreach hflba hllba hst
    subst hflba hllba
    have hinv := anyRange_inv hreach
    rcases step_lockTable hst with ⟨hf, i, k, hpc, rfl⟩
    apply lockTable_inBounds hf
    intro hi hv
    exact Nat.lt_succ_of_lt (hinv.slot_lt hfew hpc hi hv)
  records := by
    intro s t k hreach hflba hllba hpc
    subst hflba hllba
    exact (anyRange_inv hreach).records hfew hpc
  releases := by
    intro s s' t k hreach hflba hllba hpc hst
    subst hflba hllba
    change s.step L (.unlockTable t) = some s' at hst
    have hf := (SegState.step_move hst).1
    rw [step_unlockTable hf hpc] at hst
    cases hst
    exact (anyRange_inv hreach).unlockTable_releases hf hfew hpc
  unlocks := by
    intro s t hreach hf hflba hllba hpc
    subst hflba hllba
    have hstep : (anyRangeSystem L tid).step s (.segUnlock t) =
        some (s.setThread t { s.thread t with pc := .unlocking 0 }) := by
      change s.step L (.segUnlock t) = _
      unfold step
      simp only [hf, hpc, isSome_none, Bool.false_eq_true, if_false]
    rw [EventSystem.run, hstep]
    apply ((anyRange_inv hreach).leave hpc).unlock_run hf
    · rw [setThread_self]
      exact hfew
    · rw [setThread_self]
    · rw [setThread_self, zero_add]

theorem reachable_lockTable {s : SegState tid} {t : tid} {i k : Nat}
    (hreach : (anyRangeSystem L tid).Reachable s) (hf : s.fault = none)
    (hpc : (s.thread t).pc = .scanning i k) :
    s.stepAny L (.lockTable t 0) = some (s.lockTable L t i k 0) ∧
      (anyRangeSystem L tid).Reachable (s.lockTable L t i k 0) := by
  have hst : s.stepAny L (.lockTable t 0) = some (s.lockTable L t i k 0) := by
    change s.step L (.lockTable t 0) = _
    unfold step
    simp only [hf, hpc, isSome_none, Bool.false_eq_true, if_false]
  exact ⟨hst, EventSystem.ReachableUnder.step (e := .lockTable t 0) hreach trivial hst⟩

theorem exists_holding (h : UnlockUndoesLock L tid flba llba) {s : SegState tid} {t : tid}
    {i k : Nat} (hreach : (anyRangeSystem L tid).Reachable s) (hf : s.fault = none)
    (hflba : (s.thread t).flba = flba) (hllba : (s.thread t).llba = llba)
    (hpc : (s.thread t).pc = .scanning i k) (hempty : forall a, i ≤ a -> s.segTable a = []) :
    exists s', (anyRangeSystem L tid).Reachable s' ∧ (s'.thread t).flba = flba ∧
      (s'.thread t).llba = llba ∧ (s'.thread t).pc = .holding := by
  -- the induction is on the number of tables that are left
  induction hd : L.numOfSegTables - i generalizing s i k with
  | zero =>
    rcases reachable_lockTable hreach hf hpc with ⟨_, hnext⟩
    have hdone : s.lockTable L t i k 0 = s.setThread t { s.thread t with pc := .holding } := by
      unfold lockTable
      rw [if_pos (by omega)]
    rw [hdone] at hnext
    refine ⟨_, hnext, ?_⟩
    rw [setThread_self]
    exact ⟨hflba, hllba, rfl⟩
  | succ d ih =>
    have hi : i < L.numOfSegTables := by omega
    rcases reachable_lockTable hreach hf hpc with ⟨hst, hnext⟩
    by_cases hv : L.Visits (s.thread t).flba i
    · by_cases hk : k < segSlots
      · rw [lockTable_empty hi hv hk (hempty i (le_refl i))] at hnext
        by_cases hlast : (s.thread t).llba ≤ L.lbaUpperLimit i
        · refine ⟨_, hnext, ?_⟩
          rw [claim_thread, if_pos hlast]
          exact ⟨hflba, hllba, rfl⟩
        · have hthread := @claim_thread tid L s t i k 0 0 _
          rw [if_neg hlast] at hthread
          apply ih hnext hf
          · rw [hthread]
            exact hflba
          · rw [hthread]
            exact hllba
          · rw [hthread]
          · intro a ha
            exact (update_of_ne (by omega) _ _).trans (hempty a (by omega))
          · omega
      · refine absurd ?_ (h.inBounds s _ t 0 hreach hflba hllba hst)
        unfold lockTable
        simp only [not_le.mpr hi, hv, Nat.le_of_not_lt hk, not_true_eq_false, if_false, if_true]
    · have hpass : s.lockTable L t i k 0 =
          s.setThread t { s.thread t with pc := .scanning (i + 1) k } := by
        unfold lockTable
        simp only [not_le.mpr hi, hv, not_false_eq_true, if_false, if_true]
      rw [hpass] at hnext
      apply ih hnext hf
      · rw [setThread_self]
        exact hflba
      · rw [setThread_self]
        exact hllba
      · rw [setThread_self]
      · exact fun a ha => hempty a (by omega)
      · omega

theorem few [Nonempty tid] (hdisk : L.OnDisk flba llba)
    (h : UnlockUndoesLock L tid flba llba) : (L.touched flba llba).card ≤ 3 := by
  rcases ‹Nonempty tid› with ⟨t⟩
  have hcall : (start tid).stepAny L (.segLock t flba llba) =
      some ((start tid).setThread t
        { pc := .scanning 0 0, flba := flba, llba := llba,
          segTableNum := fun _ => none, segTableIndex := fun _ => none }) := by
    simp [stepAny, start, hdisk]
  have hstart : (anyRangeSystem L tid).Reachable (start tid) :=
    .init (initial_start tid)
  have hreach : (anyRangeSystem L tid).Reachable _ :=
    .step (e := .segLock t flba llba) hstart trivial hcall
  rcases h.exists_holding (i := 0) (k := 0) hreach rfl (by rw [setThread_self])
    (by rw [setThread_self]) (by rw [setThread_self]) (fun _ _ => rfl) with
    ⟨s, hs, hflba, hllba, hpc⟩
  have hrecords := h.records s t 0 hs hflba hllba (by rw [hpc]; rfl)
  have hlt := hrecords.terminated.1
  rw [hflba, hllba] at hlt
  exact Nat.le_of_lt_succ hlt

end UnlockUndoesLock

theorem unlockUndoesLock_iff (L : SegmentLimits) (tid : Type) [DecidableEq tid] [Nonempty tid]
    {flba llba : Nat} (hdisk : L.OnDisk flba llba) :
    UnlockUndoesLock L tid flba llba <-> (L.touched flba llba).card ≤ 3 := by
  constructor
  · intro h
    exact h.few hdisk
  · intro hfew
    exact UnlockUndoesLock.of_few hfew

theorem unlockUndoesLock_crossing : UnlockUndoesLock twoSegments Bool 3 12 :=
  (unlockUndoesLock_iff twoSegments Bool (by decide)).mpr (by decide)

def fiveSegments : SegmentLimits where
  maxblk := 49
  numOfSegTables := 5
  lbaLowerLimit := fun i => 10 * i
  lbaUpperLimit := fun i => 10 * i + 9
  numOfSegTables_pos := Nat.le_of_ble_eq_true rfl
  lower_zero := twoSegments.lower_zero
  lower_le_upper := fun i _ => Nat.le_add_right (10 * i) 9
  lower_succ := fun _ _ => rfl
  upper_last := rfl

/-- With four tables there is no terminator, and `seg_unlock` reads behind the array; with five
tables `seg_lock` writes behind it. -/
theorem arrays_overrun : (((anyRangeSystem fiveSegments Unit).run (start Unit)
      ([.segLock () 0 39] ++ List.replicate 4 (.lockTable () 0))).map
        fun s => ((s.thread ()).pc, s.fault)) = some (.holding, none) ∧
    (((anyRangeSystem fiveSegments Unit).run (start Unit)
      ([.segLock () 0 39] ++ List.replicate 4 (.lockTable () 0) ++ [.segUnlock ()] ++
        List.replicate 5 (.unlockTable ()))).map
          fun s => s.fault) = some (some .outOfBounds) ∧
    (((anyRangeSystem fiveSegments Unit).run (start Unit)
      ([.segLock () 0 49] ++ List.replicate 5 (.lockTable () 0))).map
        fun s => s.fault) = some (some .outOfBounds) :=
  ⟨rfl, rfl, rfl⟩

/-- Whatever ranges are locked, no two threads hold one block, and every entry in use is that
of a thread between its call of `seg_lock` and the end of `seg_unlock`. -/
theorem anyRange_nothing_left (L : SegmentLimits) (tid : Type) [DecidableEq tid]
    (events : List (SegEvent tid)) :
    (anyRangeSystem L tid).Along (fun s => Library.RangeLock.Exclusive s.held ∧
      forall i j e, s.InUse i j e -> (s.thread e.tid).pc ≠ .idle) (start tid) events := by
  refine Library.EventSystem.Reachable.along (fun s hs => ?_) (.init (initial_start tid)) events
  have hinv := anyRange_inv hs
  refine ⟨fun t u hne => hinv.held_disjoint hne, ?_⟩
  intro i j e he hpc
  rcases hinv.recorded i j e he with ⟨m, hactive, _⟩
  rw [hpc] at hactive
  exact hactive

end Htx.Hxestorage
