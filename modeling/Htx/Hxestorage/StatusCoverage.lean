import Htx.Hxestorage.ThreadSetup
import Htx.Hxestorage.StateTable

/-!
# The size of the write-status table

`initialize_state_table` allows four blocks for every byte and drops what is left over,
unless rounding up to whole blocks makes room for it.  The functions that read and write
the table cut the number of a byte to an `int`.
-/

namespace Htx.Hxestorage

def initializeTableSize (dev : Device) : Option Nat :=
  if dev.blksize = 0 then none else some (stateTableSize dev)

def TableCovers (dev : Device) : Prop :=
  exists size, initializeTableSize dev = some size ∧
    forall b, b ≤ dev.maxblk -> 0 ≤ byteNum b ∧ byteNum b < size

section

variable {dev : Device}

theorem stateTableSize_eq (hmax : dev.maxblk + 1 < 2 ^ 63) :
    stateTableSize dev = (dev.maxblk + 1) / 4 +
      if dev.blksize ∣ (dev.maxblk + 1) / 4 then 0
      else dev.blksize - (dev.maxblk + 1) / 4 % dev.blksize := by
  have hquot : u64 ((dev.maxblk + 1) * 2 : Nat) / 8 = (dev.maxblk + 1) / 4 := by
    rw [u64_eq rfl (by omega)]
    omega
  unfold stateTableSize
  dsimp only
  rw [hquot]
  by_cases hdvd : dev.blksize ∣ (dev.maxblk + 1) / 4
  · rw [if_neg (fun h => h (Nat.mod_eq_zero_of_dvd hdvd)), if_pos hdvd]
    rfl
  · rw [if_pos (fun h => hdvd (Nat.dvd_of_mod_eq_zero h)), if_neg hdvd]

theorem byteNum_maxStatusBlock : byteNum maxStatusBlock = - 2 ^ 31 := by
  decide

/-- The table covers the disk exactly if byte numbers fit in an `int` and the blocks that the
division leaves over get a byte by the rounding. -/
theorem tableCovers_iff (dev : Device) : TableCovers dev <-> 0 < dev.blksize ∧ dev.maxblk < 2 ^ 33 ∧
      (4 ∣ dev.maxblk + 1 ∨ ¬ dev.blksize ∣ (dev.maxblk + 1) / 4) := by
  constructor
  · rintro ⟨size, hsize, hcells⟩
    unfold initializeTableSize at hsize
    have hpos : 0 < dev.blksize := by
      refine pos_of_ne_zero fun hzero => ?_
      rw [if_pos hzero] at hsize
      cases hsize
    rw [if_neg (ne_of_gt hpos)] at hsize
    have hlt : dev.maxblk < 2 ^ 33 := by
      refine Nat.lt_of_not_le fun hge => ?_
      have hcell := (hcells maxStatusBlock hge).1
      rw [byteNum_maxStatusBlock] at hcell
      exact absurd hcell (by decide)
    refine ⟨hpos, hlt, ?_⟩
    by_contra hnot
    rw [not_or, not_not] at hnot
    -- nothing is left over to round up, and the last block is behind the table
    have hlast := (hcells dev.maxblk (le_refl _)).2
    rw [← Option.some.inj hsize, stateTableSize_eq (by omega), if_pos hnot.2,
      byteNum_eq (show dev.maxblk < maxStatusBlock from hlt)] at hlast
    have hrest := hnot.1
    omega
  · rintro ⟨hpos, hlt, hroom⟩
    refine ⟨stateTableSize dev, if_neg (ne_of_gt hpos), ?_⟩
    intro b hb
    have hblock : b < maxStatusBlock := lt_of_le_of_lt hb hlt
    rw [byteNum_eq hblock, stateTableSize_eq (by omega)]
    have hmod := Nat.mod_lt ((dev.maxblk + 1) / 4) hpos
    constructor
    · exact Int.natCast_nonneg _
    · rcases hroom with hwhole | hround
      · omega
      · rw [if_neg hround]
        omega

theorem last_block_behind_table : initializeTableSize ⟨2048, 512⟩ = some 512 ∧ byteNum 2048 = 512 ∧
      ¬ TableCovers ⟨2048, 512⟩ := by
  refine ⟨by decide, by decide, ?_⟩
  rintro ⟨size, hsize, hcells⟩
  have htable : initializeTableSize ⟨2048, 512⟩ = some 512 := by decide
  rw [htable] at hsize
  have hlast := (hcells 2048 (le_refl _)).2
  rw [← Option.some.inj hsize] at hlast
  exact absurd hlast (by decide)

end

end Htx.Hxestorage
