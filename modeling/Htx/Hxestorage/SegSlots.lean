import Htx.Hxestorage.SegMoves

/-!
# Slots of one locking thread

A range that crosses several tables is claimed one table at a time.  This module
follows a single thread through `seg_lock` and `seg_unlock` and says what its two
arrays record in every partially locked position.
-/

namespace Htx.Hxestorage

open Option Function SegContext Finset Nat

/-!
# Positions inside the lock
-/

structure Slots (L : SegmentLimits) (c : SegContext) : Prop where
  onDisk : L.OnDisk c.flba c.llba
  contiguous : forall m m', m < m' -> c.segTableNum m' ≠ none -> c.segTableNum m ≠ none
  ascending : forall m m' i i', m < m' -> c.segTableNum m = some i ->
    c.segTableNum m' = some i' -> i < i'
  touched : forall m i, c.segTableNum m = some i -> i < L.numOfSegTables ∧ L.Touches c.flba c.llba i

def ClaimedSlot (c : SegContext) (own : Nat -> Nat -> Prop) (m : Nat) : Prop :=
  exists i j, c.segTableNum m = some i ∧ c.segTableIndex m = some j ∧ own i j

structure Locking (L : SegmentLimits) (c : SegContext) (own : Nat -> Nat -> Prop)
    (i k : Nat) : Prop where
  slots : Slots L c
  claimed : forall m, m < k -> ClaimedSlot c own m
  below : forall m i', m < k -> c.segTableNum m = some i' -> i' < i
  rest : forall m, k < m -> c.segTableNum m = none
  current : forall i', c.segTableNum k = some i' ->
    i' = i ∧ i < L.numOfSegTables ∧ L.Visits c.flba i
  covers : forall i', i' < i -> i' < L.numOfSegTables ->
    L.Touches c.flba c.llba i' -> exists m, m < k ∧ c.segTableNum m = some i'
  next : 0 < k -> 0 < i ∧ L.lbaUpperLimit (i - 1) < c.llba

structure Holding (L : SegmentLimits) (c : SegContext)
    (own : Nat -> Nat -> Prop) : Prop where
  slots : Slots L c
  claimed : forall m, c.segTableNum m ≠ none -> ClaimedSlot c own m
  covers : forall i, i < L.numOfSegTables -> L.Touches c.flba c.llba i ->
    exists m, c.segTableNum m = some i

structure Unlocking (L : SegmentLimits) (c : SegContext)
    (own : Nat -> Nat -> Prop) (k : Nat) : Prop where
  slots : Slots L c
  claimed : forall m, k ≤ m -> c.segTableNum m ≠ none -> ClaimedSlot c own m
  released : forall m, m < k -> c.segTableNum m ≠ none
  covers : forall i, i < L.numOfSegTables -> L.Touches c.flba c.llba i ->
    exists m, c.segTableNum m = some i

section

variable {L : SegmentLimits} {c : SegContext} {own own' : Nat -> Nat -> Prop}

variable {m i k : Nat} {c : SegContext} {index : Option Nat}

theorem Slots.lt_three (h : Slots L c) (hfew : (L.touched c.flba c.llba).card ≤ 3)
    (hm : c.segTableNum m ≠ none) : m < 3 := by
  by_contra hge
  have hsome : forall m', m' ≤ 3 -> exists i, c.segTableNum m' = some i := by
    intro m' hm'
    apply ne_none_iff_exists'.mp
    by_cases heq : m' = m
    · rw [heq]
      exact hm
    · exact h.contiguous m' m (by omega) hm
  rcases hsome 0 (by omega) with ⟨i0, h0⟩
  rcases hsome 1 (by omega) with ⟨i1, h1⟩
  rcases hsome 2 (by omega) with ⟨i2, h2⟩
  rcases hsome 3 (by omega) with ⟨i3, h3⟩
  have h01 := h.ascending 0 1 i0 i1 (by omega) h0 h1
  have h12 := h.ascending 1 2 i1 i2 (by omega) h1 h2
  have h23 := h.ascending 2 3 i2 i3 (by omega) h2 h3
  have hsub : ({i0, i1, i2, i3} : Finset Nat) ⊆ L.touched c.flba c.llba := by
    intro i hi
    simp only [mem_insert, mem_singleton] at hi
    rw [L.mem_touched]
    rcases hi with rfl | rfl | rfl | rfl
    · exact h.touched 0 _ h0
    · exact h.touched 1 _ h1
    · exact h.touched 2 _ h2
    · exact h.touched 3 _ h3
  have hfour : ({i0, i1, i2, i3} : Finset Nat).card = 4 := by
    rw [card_insert_of_notMem, card_insert_of_notMem,
      card_insert_of_notMem, card_singleton]
    · simp only [mem_singleton]
      omega
    · simp only [mem_insert, mem_singleton]
      omega
    · simp only [mem_insert, mem_singleton]
      omega
  have hcard := card_le_card hsub
  omega

theorem ClaimedSlot.mono (h : ClaimedSlot c own m) (hown : forall i j, own i j -> own' i j) :
    ClaimedSlot c own' m := by
  rcases h with ⟨i, j, hnum, hidx, ho⟩
  exact ⟨i, j, hnum, hidx, hown i j ho⟩

theorem ClaimedSlot.ne_none (h : ClaimedSlot c own m) : c.segTableNum m ≠ none := by
  rcases h with ⟨i, j, hnum, _⟩
  rw [hnum]
  exact some_ne_none i

theorem Locking.mono (h : Locking L c own i k) (hown : forall i j, own i j -> own' i j) :
    Locking L c own' i k :=
  { h with claimed := fun m hm => (h.claimed m hm).mono hown }

theorem Holding.mono (h : Holding L c own)
    (hown : forall i j, own i j -> own' i j) : Holding L c own' :=
  { h with claimed := fun m hm => (h.claimed m hm).mono hown }

theorem Unlocking.mono (h : Unlocking L c own k) (hown : forall i j, own i j -> own' i j) :
    Unlocking L c own' k :=
  { h with claimed := fun m hk hm => (h.claimed m hk hm).mono hown }

/-!
# What each move does to the slots of the moving thread
-/

theorem Locking.start {flba llba : Nat} (h : L.OnDisk flba llba) :
    Locking L ⟨flba, llba, fun _ => none, fun _ => none⟩ own 0 0 where
  slots :=
    { onDisk := h
      contiguous := fun _ _ _ hm => absurd rfl hm
      ascending := fun _ _ _ _ _ hm => nomatch hm
      touched := fun _ _ hm => nomatch hm }
  claimed := fun m hm => absurd hm (not_lt_zero m)
  below := fun m _ hm => absurd hm (not_lt_zero m)
  rest := fun _ _ => rfl
  current := fun _ hm => nomatch hm
  covers := fun i' hi' => absurd hi' (not_lt_zero i')
  next := fun h0 => absurd h0 (lt_irrefl 0)

section

variable (h : Locking L c own i k) (hi : i < L.numOfSegTables)

include h hi

theorem Locking.not_above (hk : 0 < k) : ¬ L.lbaLowerLimit i ≤ c.flba := by
  rcases h.claimed 0 hk with ⟨i0, _, hnum, _⟩
  have hlt := L.upper_lt_lower (h.below 0 i0 hk hnum) hi
  have htouch := (h.slots.touched 0 i0 hnum).2.2
  omega

theorem Locking.pass (hv : ¬ L.Visits c.flba i) : Locking L c own (i + 1) k := by
  have habove : L.lbaLowerLimit i ≤ c.flba ∧ L.lbaUpperLimit i < c.flba := by
    unfold SegmentLimits.Visits at hv
    omega
  have hk : k = 0 := by
    by_contra hk
    exact h.not_above hi (by omega) habove.1
  refine { h with below := ?_, current := ?_, covers := ?_, next := ?_ }
  · intro m i' hm
    omega
  · intro i' hnum
    exact absurd (h.current i' hnum).2.2 hv
  · intro i' hi' hn htouch
    rcases Nat.lt_succ_iff_lt_or_eq.mp hi' with hlt | rfl
    · exact h.covers i' hlt hn htouch
    · exact absurd htouch.2 (by omega)
  · intro hpos
    omega

theorem Locking.touches (hv : L.Visits c.flba i) : L.Touches c.flba c.llba i := by
  rcases h.slots.onDisk with ⟨hfl, hlm⟩
  have hle := L.lower_le_upper i hi
  rcases hv with ⟨hlow, hup⟩ | hbefore
  · exact ⟨by omega, hup⟩
  · refine ⟨?_, by omega⟩
    rcases L.exists_segment (hfl.trans hlm) with ⟨i0, hi0, hlow0, hup0⟩
    have hlt : i0 < i := by
      by_contra hge
      rcases Nat.lt_or_eq_of_le (Nat.le_of_not_lt hge) with hlt | rfl
      · have := L.upper_lt_lower hlt hi0
        omega
      · omega
    rcases h.covers i0 hlt hi0 ⟨by omega, hup0⟩ with ⟨m, hm, _⟩
    rcases h.next (by omega) with ⟨hpos, hnext⟩
    have hsucc := L.lower_succ (i - 1) (by omega)
    rw [Nat.sub_add_cancel hpos] at hsucc
    omega

end

def SegContext.fill (c : SegContext) (k i : Nat) (index : Option Nat) : SegContext :=
  { c with
    segTableNum := Function.update c.segTableNum k (some i)
    segTableIndex := Function.update c.segTableIndex k index }

theorem SegContext.fill_num_of_ne (hm : m ≠ k) :
    (c.fill k i index).segTableNum m = c.segTableNum m :=
  update_of_ne hm _ _

theorem SegContext.fill_index_of_ne (hm : m ≠ k) :
    (c.fill k i index).segTableIndex m = c.segTableIndex m :=
  update_of_ne hm _ _

@[simp] theorem SegContext.fill_num_self : (c.fill k i index).segTableNum k = some i :=
  update_self _ _ _

@[simp] theorem SegContext.fill_index_self : (c.fill k i index).segTableIndex k = index :=
  update_self _ _ _

section

variable (h : Locking L c own i k)

include h

theorem Locking.fill_num {i' : Nat}
    (hm : (c.fill k i index).segTableNum m = some i') :
    (m = k ∧ i' = i) ∨ (m < k ∧ c.segTableNum m = some i') := by
  by_cases hmk : m = k
  · subst m
    rw [fill_num_self] at hm
    cases hm
    exact .inl ⟨rfl, rfl⟩
  · rw [fill_num_of_ne hmk] at hm
    refine .inr ⟨?_, hm⟩
    by_contra hge
    rw [h.rest m (by omega)] at hm
    cases hm

theorem Locking.fill_slots (index : Option Nat)
    (hi : i < L.numOfSegTables) (hv : L.Visits c.flba i) :
    Slots L (c.fill k i index) where
  onDisk := h.slots.onDisk
  contiguous := by
    intro m m' hlt hm'
    rcases ne_none_iff_exists'.mp hm' with ⟨i', hnum'⟩
    have hm : m < k := by
      rcases h.fill_num hnum' with ⟨rfl, _⟩ | ⟨hm', _⟩
      · exact hlt
      · omega
    rw [fill_num_of_ne (by omega)]
    exact (h.claimed m hm).ne_none
  ascending := by
    intro m m' a a' hlt hm hm'
    rcases h.fill_num hm with ⟨rfl, rfl⟩ | ⟨hmk, hnum⟩
    · rcases h.fill_num hm' with ⟨rfl, _⟩ | ⟨hmk', _⟩
      · omega
      · omega
    · rcases h.fill_num hm' with ⟨rfl, rfl⟩ | ⟨hmk', hnum'⟩
      · exact h.below m a hmk hnum
      · exact h.slots.ascending m m' a a' hlt hnum hnum'
  touched := by
    intro m a hm
    rcases h.fill_num hm with ⟨rfl, rfl⟩ | ⟨_, hnum⟩
    · exact ⟨hi, h.touches hi hv⟩
    · exact h.slots.touched m a hnum

theorem Locking.fill_claimed (hown : forall i j, own i j -> own' i j)
    (hm : m < k) : ClaimedSlot (c.fill k i index) own' m := by
  rcases h.claimed m hm with ⟨a, j, hnum, hidx, ho⟩
  refine ⟨a, j, ?_, ?_, hown a j ho⟩
  · rw [fill_num_of_ne (by omega)]
    exact hnum
  · rw [fill_index_of_ne (by omega)]
    exact hidx

theorem Locking.wait {unused : Option Nat} (hi : i < L.numOfSegTables)
    (hv : L.Visits c.flba i) :
    Locking L (c.fill k i unused) own i k where
  slots := h.fill_slots _ hi hv
  claimed := fun m hm => h.fill_claimed (fun _ _ ho => ho) hm
  below := by
    intro m a hm hnum
    rw [fill_num_of_ne (by omega)] at hnum
    exact h.below m a hm hnum
  rest := by
    intro m hm
    rw [fill_num_of_ne (by omega)]
    exact h.rest m hm
  current := by
    intro a hnum
    rw [fill_num_self] at hnum
    cases hnum
    exact ⟨rfl, hi, hv⟩
  covers := by
    intro a ha hn htouch
    rcases h.covers a ha hn htouch with ⟨m, hm, hnum⟩
    refine ⟨m, hm, ?_⟩
    rw [fill_num_of_ne (by omega)]
    exact hnum
  next := h.next

theorem Locking.claim_covers {a : Nat} (ha : a ≤ i)
    (hn : a < L.numOfSegTables) (htouch : L.Touches c.flba c.llba a) :
    exists m, m < k + 1 ∧ (c.fill k i index).segTableNum m = some a := by
  rcases lt_or_eq_of_le ha with hlt | rfl
  · rcases h.covers a hlt hn htouch with ⟨m, hm, hnum⟩
    refine ⟨m, by omega, ?_⟩
    rw [fill_num_of_ne (by omega)]
    exact hnum
  · exact ⟨k, by omega, fill_num_self⟩

theorem Locking.claim_next {index : Nat} (hi : i < L.numOfSegTables)
    (hv : L.Visits c.flba i) (hown : forall i j, own i j -> own' i j) (hnew : own' i index)
    (hmore : ¬ c.llba ≤ L.lbaUpperLimit i) :
    Locking L (c.fill k i (some index)) own' (i + 1) (k + 1) where
  slots := h.fill_slots _ hi hv
  claimed := by
    intro m hm
    rcases Nat.lt_succ_iff_lt_or_eq.mp hm with hlt | rfl
    · exact h.fill_claimed hown hlt
    · exact ⟨i, index, fill_num_self, fill_index_self, hnew⟩
  below := by
    intro m a hm hnum
    rcases h.fill_num hnum with ⟨_, rfl⟩ | ⟨hmk, hnum'⟩
    · omega
    · have := h.below m a hmk hnum'
      omega
  rest := by
    intro m hm
    rw [fill_num_of_ne (by omega)]
    exact h.rest m (by omega)
  current := by
    intro a hnum
    rcases h.fill_num hnum with ⟨hk, _⟩ | ⟨hk, _⟩
    · omega
    · omega
  covers := fun a ha hn htouch => h.claim_covers (by omega) hn htouch
  next := by
    intro _
    exact ⟨by omega, Nat.lt_of_not_le hmore⟩

theorem Locking.claim_hold {index : Nat} (hi : i < L.numOfSegTables)
    (hv : L.Visits c.flba i) (hown : forall i j, own i j -> own' i j) (hnew : own' i index)
    (hlast : c.llba ≤ L.lbaUpperLimit i) :
    Holding L (c.fill k i (some index)) own' where
  slots := h.fill_slots _ hi hv
  claimed := by
    intro m hm
    rcases ne_none_iff_exists'.mp hm with ⟨a, hnum⟩
    rcases h.fill_num hnum with ⟨rfl, rfl⟩ | ⟨hmk, _⟩
    · exact ⟨a, index, fill_num_self, fill_index_self, hnew⟩
    · exact h.fill_claimed hown hmk
  covers := by
    intro a hn htouch
    have ha : a ≤ i := by
      by_contra hgt
      have hlt := L.upper_lt_lower (Nat.lt_of_not_le hgt) hn
      have hlow := htouch.1
      change L.lbaLowerLimit a ≤ c.llba at hlow
      omega
    rcases h.claim_covers ha hn htouch with ⟨m, _, hnum⟩
    exact ⟨m, hnum⟩

theorem Locking.finish (hi : L.numOfSegTables ≤ i) : Holding L c own where
  slots := h.slots
  claimed := by
    intro m hm
    rcases ne_none_iff_exists'.mp hm with ⟨a, hnum⟩
    apply h.claimed m
    by_contra hge
    rcases lt_or_eq_of_le (Nat.le_of_not_lt hge) with hlt | rfl
    · exact hm (h.rest m hlt)
    · have := (h.current a hnum).2.1
      omega
  covers := by
    intro a hn htouch
    rcases h.covers a (by omega) hn htouch with ⟨m, _, hnum⟩
    exact ⟨m, hnum⟩

end

theorem Holding.leave (h : Holding L c own) : Unlocking L c own 0 where
  slots := h.slots
  claimed := fun m _ hm => h.claimed m hm
  released := fun m hm => absurd hm (not_lt_zero m)
  covers := h.covers

theorem Unlocking.release (h : Unlocking L c own k) (hnum : c.segTableNum k = some i)
    (hown : forall a j, a ≠ i -> own a j -> own' a j) :
    Unlocking L c own' (k + 1) where
  slots := h.slots
  claimed := by
    intro m hk hm
    rcases h.claimed m (by omega) hm with ⟨a, j, hnum', hidx, ho⟩
    have hlt := h.slots.ascending k m i a (by omega) hnum hnum'
    exact ⟨a, j, hnum', hidx, hown a j (by omega) ho⟩
  released := by
    intro m hm
    rcases Nat.lt_succ_iff_lt_or_eq.mp hm with hlt | rfl
    · exact h.released m hlt
    · rw [hnum]
      exact some_ne_none i
  covers := h.covers

end

end Htx.Hxestorage
