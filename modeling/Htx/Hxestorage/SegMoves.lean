import Htx.Hxestorage.SegTable

/-!
# Moves of the segment lock

What one step of `seg_lock` or `seg_unlock` can do, stated once.  Every step is one of a
small number of moves, and each move lists the guards under which the source takes it.
All later arguments are case analyses over the moves.
-/

namespace Htx.Hxestorage

open List

namespace SegmentLimits

/-!
# The segments partition the disk
-/

theorem upper_lt_lower (L : SegmentLimits) {i j : Nat} (hij : i < j)
    (hj : j < L.numOfSegTables) : L.lbaUpperLimit i < L.lbaLowerLimit j := by
  induction j with
  | zero => omega
  | succ j ih =>
    rw [L.lower_succ j hj]
    by_cases hi : i = j
    · subst i
      omega
    · have hlt := ih (by omega) (by omega)
      have hle := L.lower_le_upper j (by omega)
      omega

theorem exists_segment (L : SegmentLimits) {b : Nat} (hb : b ≤ L.maxblk) :
    exists i, i < L.numOfSegTables ∧ L.lbaLowerLimit i ≤ b ∧ b ≤ L.lbaUpperLimit i := by
  have hall : forall n, n < L.numOfSegTables -> b ≤ L.lbaUpperLimit n ->
      exists i, i < L.numOfSegTables ∧ L.lbaLowerLimit i ≤ b ∧ b ≤ L.lbaUpperLimit i := by
    intro n
    induction n with
    | zero =>
      intro hn hbn
      exact ⟨0, hn, by simp [L.lower_zero], hbn⟩
    | succ n ih =>
      intro hn hbn
      by_cases hlow : L.lbaLowerLimit (n + 1) ≤ b
      · exact ⟨n + 1, hn, hlow, hbn⟩
      · rw [L.lower_succ n hn] at hlow
        exact ih (by omega) (by omega)
  have hpos := L.numOfSegTables_pos
  refine hall (L.numOfSegTables - 1) (by omega) ?_
  rw [L.upper_last]
  exact hb

theorem mem_touched (L : SegmentLimits) {flba llba i : Nat} :
    i ∈ L.touched flba llba <-> i < L.numOfSegTables ∧ L.Touches flba llba i := by
  simp [touched]

end SegmentLimits

/-!
# The scan of one table
-/

section

variable {tid : Type} {flba llba : Nat}

variable {entries : List (SegmentTableData tid)} {unused : Option Nat}

theorem scanFrom_matchFound {j : Nat} (h :
    (scanFrom flba llba entries j unused).matchFound = true) :
    exists e, e ∈ entries ∧ e.inUse = true ∧ e.Overlaps flba llba := by
  fun_induction scanFrom flba llba entries j unused with
  | case1 => simp at h
  | case2 e rest j unused huse hover => exact ⟨e, mem_cons_self, huse, hover⟩
  | case3 e rest j unused huse hover ih | case4 e rest j huse ih | case5 e rest j huse u ih =>
    rcases ih h with ⟨e', hmem, hrest⟩
    exact ⟨e', mem_cons_of_mem _ hmem, hrest⟩

theorem scanFrom_noMatch {j : Nat} (h : (scanFrom flba llba entries j unused).matchFound = false) :
    (scanFrom flba llba entries j unused).j = j + entries.length ∧
      forall e, e ∈ entries -> e.inUse = true -> ¬ e.Overlaps flba llba := by
  fun_induction scanFrom flba llba entries j unused with
  | case1 => simp
  | case2 e rest j unused huse hover => simp at h
  | case3 e rest j unused huse hover ih =>
    rcases ih h with ⟨hj, hall⟩
    refine ⟨by simp [hj]; omega, ?_⟩
    intro e' hmem huse'
    rcases mem_cons.mp hmem with rfl | hmem
    · exact hover
    · exact hall e' hmem huse'
  | case4 e rest j huse ih | case5 e rest j huse u ih =>
    rcases ih h with ⟨hj, hall⟩
    refine ⟨by simp [hj]; omega, ?_⟩
    intro e' hmem huse'
    rcases mem_cons.mp hmem with rfl | hmem
    · exact absurd huse' huse
    · exact hall e' hmem huse'

theorem scanFrom_unused {j : Nat} {x : Nat}
    (h : (scanFrom flba llba entries j unused).unused = some x) :
    unused = some x ∨
      exists m e, x = j + m ∧ entries[m]? = some e ∧ e.inUse = false := by
  fun_induction scanFrom flba llba entries j unused with
  | case1 | case2 e rest j unused huse hover => exact .inl h
  | case3 e rest j unused huse hover ih | case5 e rest j huse u ih =>
    rcases ih h with hsome | ⟨m, e', hx, he', huse'⟩
    · exact .inl hsome
    · exact .inr ⟨m + 1, e', by omega, by simpa using he', huse'⟩
  | case4 e rest j huse ih =>
    rcases ih h with hsome | ⟨m, e', hx, he', huse'⟩
    · cases hsome
      exact .inr ⟨0, e, by omega, by simp, by simpa using huse⟩
    · exact .inr ⟨m + 1, e', by omega, by simpa using he', huse'⟩

end

/-!
# Storing an entry
-/

def FreeIndex {tid : Type} (entries : List (SegmentTableData tid)) (index : Nat) : Prop :=
  index ≤ entries.length ∧ forall e, entries[index]? = some e -> e.inUse = false

theorem getElem?_putEntry {tid : Type} {entries : List (SegmentTableData tid)}
    {index : Nat} {e : SegmentTableData tid} (hindex : index ≤ entries.length)
    (m : Nat) :
    (putEntry entries index e)[m]? =
      if m = index then some e else entries[m]? := by
  unfold putEntry
  by_cases hlt : index < entries.length
  · rw [if_pos hlt, getElem?_set]
    by_cases hm : m = index
    · subst m
      simp [hlt]
    · simp [hm, Ne.symm hm]
  · have hlen : index = entries.length := by omega
    subst index
    rw [if_neg hlt]
    by_cases hm : m = entries.length
    · subst m
      simp
    · rw [if_neg hm]
      rcases lt_or_gt_of_ne hm with hml | hml
      · exact getElem?_append_left hml
      · rw [getElem?_eq_none (by simp; omega), getElem?_eq_none (by omega)]

theorem scan_freeIndex_unused {tid : Type} {flba llba : Nat}
    {entries : List (SegmentTableData tid)} {x : Nat}
    (h : (scan flba llba entries).unused = some x) : FreeIndex entries x := by
  rcases scanFrom_unused h with hnone | ⟨m, e, hx, he, huse⟩
  · cases hnone
  · rw [zero_add] at hx
    subst x
    rcases List.getElem?_eq_some_iff.mp he with ⟨hlt, _⟩
    refine ⟨by omega, ?_⟩
    intro e' he'
    rw [he] at he'
    cases he'
    exact huse

theorem scan_freeIndex_length {tid : Type} {flba llba : Nat} {entries : List (SegmentTableData tid)}
    (h : (scan flba llba entries).matchFound = false) :
    FreeIndex entries (scan flba llba entries).j := by
  have hj : (scan flba llba entries).j = entries.length := by
    have := (scanFrom_noMatch h).1
    unfold scan
    omega
  rw [hj]
  refine ⟨le_refl _, ?_⟩
  intro e he
  simp at he

/-!
# The moves
-/

namespace SegState

variable {tid : Type}

def InUse (s : SegState tid) (i j : Nat) (e : SegmentTableData tid) : Prop :=
  (s.segTable i)[j]? = some e ∧ e.inUse = true

def OwnEntry (s : SegState tid) (t : tid) (i j : Nat) (e : SegmentTableData tid) : Prop :=
  s.InUse i j e ∧ e.flba = (s.thread t).flba ∧ e.llba = (s.thread t).llba ∧ e.tid = t

variable [DecidableEq tid]

inductive Move (L : SegmentLimits) (s : SegState tid) : SegState tid -> Prop
  | enter (t : tid) (flba llba : Nat) :
      (s.thread t).pc = .idle -> L.Request flba llba ->
      Move L s (s.setThread t
        { pc := .scanning 0 0, flba := flba, llba := llba,
          segTableNum := fun _ => none, segTableIndex := fun _ => none })
  | finish (t : tid) (i k : Nat) :
      (s.thread t).pc = .scanning i k -> L.numOfSegTables ≤ i ->
      Move L s (s.setThread t { s.thread t with pc := .holding })
  | pass (t : tid) (i k : Nat) :
      (s.thread t).pc = .scanning i k -> i < L.numOfSegTables ->
      ¬ L.Visits (s.thread t).flba i ->
      Move L s (s.setThread t { s.thread t with pc := .scanning (i + 1) k })
  | wait (t : tid) (i k j : Nat) (e : SegmentTableData tid) (unused : Option Nat) :
      (s.thread t).pc = .scanning i k -> i < L.numOfSegTables ->
      L.Visits (s.thread t).flba i -> s.InUse i j e ->
      e.Overlaps (s.thread t).flba (s.thread t).llba ->
      Move L s (s.setThread t
        { s.thread t with
          pc := .waiting i k
          segTableNum := Function.update (s.thread t).segTableNum k (some i)
          segTableIndex := Function.update (s.thread t).segTableIndex k unused })
  | claim (t : tid) (i k index now : Nat) :
      (s.thread t).pc = .scanning i k -> i < L.numOfSegTables ->
      L.Visits (s.thread t).flba i -> FreeIndex (s.segTable i) index ->
      (forall j e, s.InUse i j e -> ¬ e.Overlaps (s.thread t).flba (s.thread t).llba) ->
      Move L s (s.claim L t i k index now)
  | wake (t : tid) (i k : Nat) :
      (s.thread t).pc = .waiting i k ->
      Move L s (s.setThread t { s.thread t with pc := .scanning i k })
  | leave (t : tid) :
      (s.thread t).pc = .holding ->
      Move L s (s.setThread t { s.thread t with pc := .unlocking 0 })
  | release (t : tid) (k i index : Nat) (e : SegmentTableData tid) :
      (s.thread t).pc = .unlocking k ->
      (s.thread t).segTableNum k = some i ->
      (s.thread t).segTableIndex k = some index ->
      s.OwnEntry t i index e ->
      Move L s (((s.setTable i
        ((s.segTable i).set index { e with inUse := false })).setThread t
          { s.thread t with pc := .unlocking (k + 1) }).broadcast i)
  | done (t : tid) (k : Nat) :
      (s.thread t).pc = .unlocking k -> (s.thread t).segTableNum k = none ->
      Move L s (s.setThread t { s.thread t with pc := .idle })
  | full :
      Move L s { s with fault := some .allEntriesUsed }
  | lockFault (t : tid) (i k : Nat) (f : SegFault) :
      (s.thread t).pc = .scanning i k -> i < L.numOfSegTables ->
      L.Visits (s.thread t).flba i -> segSlots ≤ k ->
      Move L s { s with fault := some f }
  | unlockFault (t : tid) (k : Nat) (f : SegFault) :
      (s.thread t).pc = .unlocking k ->
      (segSlots ≤ k ∨ exists i, (s.thread t).segTableNum k = some i ∧
        forall index e, (s.thread t).segTableIndex k = some index -> ¬ s.OwnEntry t i index e) ->
      Move L s { s with fault := some f }

theorem lockTable_move (L : SegmentLimits) (s : SegState tid) (t : tid)
    (i k now : Nat) (hpc : (s.thread t).pc = .scanning i k) :
    Move L s (s.lockTable L t i k now) := by
  unfold lockTable
  by_cases hn : L.numOfSegTables ≤ i
  · simp only [hn, if_true]
    exact .finish t i k hpc hn
  have hi : i < L.numOfSegTables := by omega
  by_cases hv : L.Visits (s.thread t).flba i
  · by_cases hk : segSlots ≤ k
    · simp only [hn, hv, hk, not_true_eq_false, if_false, if_true]
      exact .lockFault t i k _ hpc hi hv hk
    simp only [hn, hv, hk, not_true_eq_false, if_false]
    cases hm : (scan (s.thread t).flba (s.thread t).llba (s.segTable i)).matchFound with
    | true =>
      simp only [if_true]
      rcases scanFrom_matchFound hm with ⟨e, hmem, huse, hover⟩
      rcases getElem?_of_mem hmem with ⟨j, hj⟩
      exact .wait t i k j e _ hpc hi hv ⟨hj, huse⟩ hover
    | false =>
      have hfree : forall j e, s.InUse i j e ->
          ¬ e.Overlaps (s.thread t).flba (s.thread t).llba := by
        intro j e he
        exact (scanFrom_noMatch hm).2 e (mem_of_getElem? he.1) he.2
      simp only [Bool.false_eq_true, if_false]
      split
      · rename_i index hindex
        exact .claim t i k index now hpc hi hv (scan_freeIndex_unused hindex) hfree
      · split
        · exact .claim t i k _ now hpc hi hv (scan_freeIndex_length hm) hfree
        · exact .full
  · simp only [hn, hv, not_false_eq_true, if_false, if_true]
    exact .pass t i k hpc hi hv

theorem unlockTable_move (L : SegmentLimits) (s : SegState tid) (t : tid) (k : Nat)
    (hpc : (s.thread t).pc = .unlocking k) :
    Move L s (s.unlockTable t k) := by
  unfold unlockTable
  by_cases hk : segSlots ≤ k
  · simp only [hk, if_true]
    exact .unlockFault t k _ hpc (.inl hk)
  simp only [hk, if_false]
  cases hnum : (s.thread t).segTableNum k with
  | none => exact .done t k hpc hnum
  | some i =>
    cases hidx : (s.thread t).segTableIndex k with
    | none =>
      refine .unlockFault t k _ hpc (.inr ⟨i, hnum, ?_⟩)
      intro index e h
      rw [hidx] at h
      cases h
    | some index =>
      simp only
      cases he : (s.segTable i)[index]? with
      | none =>
        refine .unlockFault t k _ hpc (.inr ⟨i, hnum, ?_⟩)
        intro index' e h hown
        rw [hidx] at h
        cases h
        rw [hown.1.1] at he
        cases he
      | some e =>
        simp only
        split
        · rename_i hown
          rcases hown with ⟨huse, hf, hl, ht⟩
          exact .release t k i index e hpc hnum hidx ⟨⟨he, huse⟩, hf, hl, ht⟩
        · rename_i hown
          refine .unlockFault t k _ hpc (.inr ⟨i, hnum, ?_⟩)
          intro index' e' h hown'
          rw [hidx] at h
          cases h
          rcases hown' with ⟨⟨he', huse⟩, hf, hl, ht⟩
          rw [he] at he'
          cases he'
          exact hown ⟨huse, hf, hl, ht⟩

theorem step_move {L : SegmentLimits} {s s' : SegState tid} {e : SegEvent tid}
    (h : s.step L e = some s') : s.fault = none ∧ Move L s s' := by
  unfold step at h
  cases hf : s.fault with
  | some f => simp [hf] at h
  | none =>
    refine ⟨rfl, ?_⟩
    simp only [hf, Option.isSome_none, Bool.false_eq_true, if_false] at h
    cases e with
    | segLock t flba llba =>
      simp only at h
      split at h
      · rename_i hg
        cases h
        exact .enter t flba llba hg.1 hg.2
      · cases h
    | lockTable t now =>
      cases hpc : (s.thread t).pc with
      | scanning i k =>
        simp only [hpc] at h
        cases h
        exact lockTable_move L s t i k now hpc
      | _ => simp [hpc] at h
    | wakeup t =>
      cases hpc : (s.thread t).pc with
      | waiting i k =>
        simp only [hpc] at h
        cases h
        exact .wake t i k hpc
      | _ => simp [hpc] at h
    | segUnlock t =>
      cases hpc : (s.thread t).pc with
      | holding =>
        simp only [hpc] at h
        cases h
        exact .leave t hpc
      | _ => simp [hpc] at h
    | unlockTable t =>
      cases hpc : (s.thread t).pc with
      | unlocking k =>
        simp only [hpc] at h
        cases h
        exact unlockTable_move L s t k hpc
      | _ => simp [hpc] at h

end SegState

end Htx.Hxestorage
