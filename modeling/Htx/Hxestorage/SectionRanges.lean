import Htx.Library.Consecutive
import Htx.Hxestorage.ThreadSetup

/-!
# Sections of a range

With `SECTION = YES` the range of a rule is divided among its threads.  `update_blkno` takes
the length of the range for the quotient and the remainder, but numbers the blocks from 0.
-/

namespace Htx.Hxestorage

open Library Nat

namespace ThreadMem

structure Sections (m : ThreadMem) (base n low high : Nat) : Prop where
  ascending : forall i j, i < j -> j < n ->
    (m.ctx (base + i)).maxBlkno < (m.ctx (base + j)).minBlkno
  contiguous : forall i, i + 1 < n ->
    (m.ctx (base + (i + 1))).minBlkno = (m.ctx (base + i)).maxBlkno + 1
  union : forall b,
    (exists i, i < n ∧ (m.ctx (base + i)).minBlkno ≤ b ∧ b ≤ (m.ctx (base + i)).maxBlkno) <->
      low ≤ b ∧ b ≤ high

theorem Sections.of_consecutive {m : ThreadMem} {base n low high : Nat}
    (h : Consecutive n (fun i => (m.ctx (base + i)).minBlkno)
      (fun i => (m.ctx (base + i)).maxBlkno) low high) : m.Sections base n low high :=
  ⟨fun _ _ hij hj => h.upper_lt_lower hij hj, h.lower_succ, h.mem_iff⟩

section

variable {dev : Device} {rule : RuleInfo} {low high : Nat} {m : ThreadMem} {base : Nat}

theorem updateBlkno_ctx (dev : Device) (m : ThreadMem) (base : Nat) {i : Nat}
    (hi : i < rule.numThreads) :
    ((m.updateBlkno dev rule base).ctx (base + i)).minBlkno =
        u64 (i * blksPerThread dev rule : Nat) ∧
      ((m.updateBlkno dev rule base).ctx (base + i)).maxBlkno =
        u64 ((u64 (i * blksPerThread dev rule : Nat) : Nat) + blksPerThread dev rule - 1 +
          (if i + 1 = rule.numThreads then remainingBlks dev rule else 0 : Nat)) := by
  have hslot : base ≤ base + i ∧ base + i < base + rule.numThreads :=
    ⟨Nat.le_add_right base i, Nat.add_lt_add_left hi base⟩
  have hlast : (base + i + 1 = base + rule.numThreads) = (i + 1 = rule.numThreads) := by
    rw [add_assoc, add_right_inj]
  unfold updateBlkno
  dsimp only
  rw [if_pos hslot, Nat.add_sub_cancel_left]
  dsimp only
  simp only [hlast]
  exact ⟨trivial, trivial⟩

theorem blocks_eq (hlow : rule.minBlkno.head? = some low)
    (hhigh : rule.maxBlkno.head? = some high) :
    u64 ((rule.maxBlkno.headD dev.maxblk : Nat) - (rule.minBlkno.headD 0 : Nat) + 1) =
      u64 ((high : Int) - low + 1) := by
  rw [List.headD_eq_head?_getD, List.headD_eq_head?_getD, hlow, hhigh]
  rfl

theorem updateBlkno_consecutive (hlow : rule.minBlkno.head? = some 0)
    (hhigh : rule.maxBlkno.head? = some high) (hmax : high + 1 < 2 ^ 64)
    (hpos : 0 < rule.numThreads) (hfew : rule.numThreads ≤ high + 1) :
    Consecutive rule.numThreads (fun i => ((m.updateBlkno dev rule base).ctx (base + i)).minBlkno)
      (fun i => ((m.updateBlkno dev rule base).ctx (base + i)).maxBlkno) 0 high := by
  have hblocks : u64 ((rule.maxBlkno.headD dev.maxblk : Nat) - (rule.minBlkno.headD 0 : Nat) + 1) =
      high + 1 := by
    rw [blocks_eq hlow hhigh]
    exact u64_eq (by omega) hmax
  have hper : blksPerThread dev rule = (high + 1) / rule.numThreads := by
    unfold blksPerThread
    rw [hblocks]
  have hrest : remainingBlks dev rule = (high + 1) % rule.numThreads := by
    unfold remainingBlks
    rw [hblocks]
  have hone : 1 ≤ (high + 1) / rule.numThreads := div_pos hfew hpos
  have hsum := div_add_mod (high + 1) rule.numThreads
  -- the blocks of the threads before one do not exceed the range
  have hroom : forall i, i < rule.numThreads ->
      i * ((high + 1) / rule.numThreads) + (high + 1) / rule.numThreads ≤
        rule.numThreads * ((high + 1) / rule.numThreads) := by
    intro i hi
    rw [← succ_mul]
    exact mul_le_mul_right _ hi
  have hmin : forall i, i < rule.numThreads ->
      ((m.updateBlkno dev rule base).ctx (base + i)).minBlkno =
        i * ((high + 1) / rule.numThreads) := by
    intro i hi
    have hlt := hroom i hi
    rw [(updateBlkno_ctx dev m base hi).1, hper, u64_eq rfl (by omega)]
  have hmaxBlk : forall i, i < rule.numThreads ->
      ((m.updateBlkno dev rule base).ctx (base + i)).maxBlkno + 1 =
        i * ((high + 1) / rule.numThreads) + (high + 1) / rule.numThreads +
          if i + 1 = rule.numThreads then (high + 1) % rule.numThreads else 0 := by
    intro i hi
    have hlt := hroom i hi
    rw [(updateBlkno_ctx dev m base hi).2, hper, hrest, u64_eq rfl (by omega)]
    split
    · rw [u64_eq (n := i * ((high + 1) / rule.numThreads) + (high + 1) / rule.numThreads - 1 +
        (high + 1) % rule.numThreads) (by omega) (by omega)]
      omega
    · rw [u64_eq (n := i * ((high + 1) / rule.numThreads) + (high + 1) / rule.numThreads - 1)
        (by omega) (by omega)]
      omega
  refine ⟨hpos, ?_, ?_, ?_, ?_⟩
  · rw [hmin 0 hpos, zero_mul]
  · intro i hi
    have hup := hmaxBlk i hi
    rw [hmin i hi]
    omega
  · intro i hi
    have hup := hmaxBlk i (lt_of_succ_lt hi)
    rw [if_neg (Nat.ne_of_lt hi)] at hup
    rw [hmin (i + 1) hi, hup, succ_mul]
    rfl
  · have hlast : rule.numThreads - 1 + 1 = rule.numThreads := Nat.sub_add_cancel hpos
    have hup := hmaxBlk (rule.numThreads - 1) (sub_lt hpos one_pos)
    rw [if_pos hlast, ← succ_mul, succ_eq_add_one, hlast, hsum] at hup
    exact succ_injective hup

/-- The range of a rule is divided exactly if it begins with block 0, and does not have all
2^64 blocks or has one thread. -/
theorem updateBlkno_sections_iff (dev : Device) (m : ThreadMem) (base : Nat)
    (hlow : rule.minBlkno.head? = some low) (hhigh : rule.maxBlkno.head? = some high)
    (hle : low ≤ high) (hmax : high < 2 ^ 64) (hpos : 0 < rule.numThreads)
    (hfew : rule.numThreads ≤ high - low + 1) :
    (m.updateBlkno dev rule base).Sections base rule.numThreads low high <->
      low = 0 ∧ (high + 1 < 2 ^ 64 ∨ rule.numThreads = 1) := by
  -- with all blocks, their number wraps to 0
  have hwraps (hfirst : low = 0) (hall : high + 1 = 2 ^ 64) :
      blksPerThread dev rule = 0 ∧ remainingBlks dev rule = 0 := by
    have hblocks : u64 ((rule.maxBlkno.headD dev.maxblk : Nat) -
        (rule.minBlkno.headD 0 : Nat) + 1) = 0 := by
      rw [blocks_eq hlow hhigh]
      unfold u64
      omega
    unfold blksPerThread remainingBlks
    rw [hblocks, Nat.zero_div, zero_mod]
    exact ⟨rfl, rfl⟩
  constructor
  · intro h
    have hctx := updateBlkno_ctx dev m base hpos
    have hzero : u64 (0 * blksPerThread dev rule : Nat) = 0 := by
      rw [zero_mul]
      rfl
    -- the first context begins with block 0, so block 0 belongs to the range
    have hfirst : low = 0 := by
      have hmem := (h.union ((m.updateBlkno dev rule base).ctx (base + 0)).minBlkno).mp
        ⟨0, hpos, le_refl _, ?_⟩
      · rw [hctx.1, hzero] at hmem
        exact le_zero.mp hmem.1
      · rw [hctx.1, hctx.2, hzero]
        exact zero_le _
    refine ⟨hfirst, ?_⟩
    by_contra hnot
    rw [not_or] at hnot
    -- the first context reaches over everything
    have hper := (hwraps hfirst (by omega)).1
    have hmany : 1 < rule.numThreads := by
      have hne := hnot.2
      omega
    have hasc := h.ascending 0 1 one_pos hmany
    have hsecond := (updateBlkno_ctx dev m base hmany).1
    rw [hsecond, hper, mul_zero] at hasc
    exact absurd hasc (not_lt_zero _)
  · rintro ⟨rfl, hsize | hone⟩
    · exact Sections.of_consecutive (updateBlkno_consecutive hlow hhigh hsize hpos hfew)
    · by_cases hsize : high + 1 < 2 ^ 64
      · exact Sections.of_consecutive (updateBlkno_consecutive hlow hhigh hsize hpos hfew)
      · -- one thread with all blocks: 0 - 1 wraps back
        have hctx := updateBlkno_ctx dev m base hpos
        have hnone := hwraps rfl (by omega)
        rw [hnone.1, hnone.2, ite_self] at hctx
        have hhigh' : high = 2 ^ 64 - 1 := by omega
        refine Sections.of_consecutive ⟨hpos, ?_, ?_, ?_, ?_⟩
        · rw [hctx.1]
          rfl
        · intro i hi
          obtain rfl : i = 0 := by omega
          rw [hctx.1, hctx.2]
          decide
        · intro i hi
          omega
        · rw [hone, hctx.2, hhigh']
          decide

end

def sectionRule (low high numThreads : Nat) : RuleInfo :=
  { setRuleDefaults ⟨high, 512⟩ with
    numThreads := numThreads, minBlkno := [low], maxBlkno := [high], sectioned := true }

theorem updateBlkno_sections_iff_ten_blocks :
    (initial.updateBlkno ⟨9, 512⟩ (sectionRule 0 9 3) 0).Sections 0 3 0 9 :=
  (@updateBlkno_sections_iff (sectionRule 0 9 3) 0 9 ⟨9, 512⟩ initial 0 rfl rfl (by decide)
    (by decide) (by decide) (by decide)).mpr ⟨rfl, .inl (by decide)⟩

theorem sections_start_at_zero :
    ((initial.updateBlkno ⟨999, 512⟩ (sectionRule 100 199 2) 0).ctx 0).minBlkno = 0 ∧
    ((initial.updateBlkno ⟨999, 512⟩ (sectionRule 100 199 2) 0).ctx 1).maxBlkno = 99 ∧
    ¬ (initial.updateBlkno ⟨999, 512⟩ (sectionRule 100 199 2) 0).Sections 0 2 100 199 := by
  have hfirst : ((initial.updateBlkno ⟨999, 512⟩ (sectionRule 100 199 2) 0).ctx 0).minBlkno = 0 :=
    rfl
  refine ⟨hfirst, by decide, ?_⟩
  intro h
  have hmem := (h.union 0).mp ⟨0, by decide, le_of_eq hfirst, zero_le _⟩
  exact absurd hmem.1 (by decide)

end ThreadMem

end Htx.Hxestorage
