import Htx.Library.Strides
import Htx.Hxestorage.SequentialZone

/-!
# Strides of a sequential thread

A thread of fixed transfer length that goes UP or DOWN works through the blocks between
its first block and the end of its range in strides of `num_blks + blk_hop` blocks.
-/

namespace Htx.Hxestorage

open BlkContext Library Nat

namespace BlkContext

def startBlk (c : BlkContext) : Nat :=
  match c.startingBlock with
  | .bot => c.minBlkno
  | .mid => c.minBlkno + (c.maxBlkno - c.minBlkno + 1) / 2
  | .top => c.maxBlkno
  | .at n => c.minBlkno + n

def topEnd (c : BlkContext) : Nat :=
  min (c.startBlk + c.numBlks) (c.maxBlkno + 1)

def span (c : BlkContext) : Nat :=
  match c.direction with
  | .down => c.topEnd - c.minBlkno
  | _ => c.maxBlkno + 1 - c.startBlk

def seqStep (blksize : Nat) (c : BlkContext) : BlkContext :=
  (c.doBoundaryCheck blksize).setBlkno blksize

def transfer (blksize : Nat) (c : BlkContext) (i : Nat) : BlkContext :=
  (iterate (seqStep blksize) i c.initBlkno).doBoundaryCheck blksize

end BlkContext

structure BlockRange (c : BlkContext) : Prop where
  lbaAlign : c.lbaAlign = 0
  ordered : c.minBlkno < c.maxBlkno
  bound : c.maxBlkno < 2 ^ 63
  start : forall n, c.startingBlock = .at n -> c.minBlkno + n ≤ c.maxBlkno

namespace BlockRange

variable {c : BlkContext}

section

variable (hr : BlockRange c)

include hr

theorem min_le_startBlk : c.minBlkno ≤ c.startBlk := by
  have hordered := hr.ordered
  unfold startBlk
  split <;> omega

theorem startBlk_le_max : c.startBlk ≤ c.maxBlkno := by
  have hordered := hr.ordered
  unfold startBlk
  split
  · omega
  · omega
  · omega
  · next n hn =>
      exact hr.start n hn

theorem midBlk : c.midBlk = c.minBlkno + (c.maxBlkno - c.minBlkno + 1) / 2 := by
  have hordered := hr.ordered
  have hbound := hr.bound
  have hwidth : u64 ((c.maxBlkno : Int) - c.minBlkno + 1) = c.maxBlkno - c.minBlkno + 1 :=
    u64_eq (by omega) (by omega)
  unfold BlkContext.midBlk
  rw [hwidth]
  exact u64_eq (by omega) (by omega)

theorem requestedBlk : c.requestedBlk = c.startBlk := by
  have hbound := hr.bound
  unfold BlkContext.requestedBlk BlkContext.startBlk
  cases hstart : c.startingBlock with
  | bot => rfl
  | mid => exact hr.midBlk
  | top => rfl
  | _ =>
    rename_i n
    have hle := hr.start n hstart
    dsimp only
    exact u64_eq (by omega) (by omega)

theorem alignUp (blk : Nat) : c.alignUp blk = blk :=
  if_neg fun h => h.1 hr.lbaAlign

theorem alignDown (blk : Nat) : c.alignDown blk = blk :=
  if_neg fun h => h.1 hr.lbaAlign

theorem alignFirst (blk : Nat) : c.alignFirst blk = blk := by
  unfold BlkContext.alignFirst
  rw [hr.alignUp, hr.alignDown, ite_self]
  split <;> rfl

theorem setFirstBlk_up (hdir : c.direction = .up) : c.setFirstBlk = c.startBlk := by
  have hlow := hr.min_le_startBlk
  unfold setFirstBlk
  simp [hr.requestedBlk, hr.alignFirst, hdir, not_lt.mpr hlow]

theorem setFirstBlk_down (hdir : c.direction = .down) (hpos : 0 < c.numBlks)
    (hlt : c.numBlks < 2 ^ 32) :
    c.setFirstBlk = u64 ((c.topEnd : Int) - c.numBlks) := by
  have hlow := hr.min_le_startBlk
  have hhigh := hr.startBlk_le_max
  have hbound := hr.bound
  have hlast : u64 ((c.startBlk : Int) + c.numBlks - 1) = c.startBlk + c.numBlks - 1 :=
    u64_eq (by omega) (by omega)
  unfold setFirstBlk topEnd
  simp only [hr.requestedBlk, hdir, hr.alignFirst, not_lt.mpr hlow, false_and, if_false, hlast,
    true_and, reduceCtorEq]
  by_cases hover : c.maxBlkno < c.startBlk + c.numBlks - 1
  · have hexcess : u64 ((c.startBlk : Int) + c.numBlks - c.maxBlkno - 1) =
        c.startBlk + c.numBlks - c.maxBlkno - 1 :=
      u64_eq (by omega) (by omega)
    rw [if_pos hover, hexcess]
    congr 1
    omega
  · rw [if_neg hover]
    exact (u64_eq (by omega) (by omega)).symm

end

end BlockRange

structure FixedRun (blksize : Nat) (c : BlkContext) : Prop extends BlockRange c where
  upDown : c.direction = .up ∨ c.direction = .down
  increment : c.increment = 0
  hop_nonneg : 0 ≤ c.blkHop
  hop_lt : c.blkHop < 2 ^ 31
  numBlks_pos : 0 < c.numBlks
  numBlks_lt : c.numBlks < 2 ^ 32
  blksize_pos : 0 < blksize
  dlen : c.dlen = c.numBlks * blksize
  first : c.firstBlk = c.setFirstBlk
  fresh : c.doPartial = 0

namespace FixedRun

variable {blksize : Nat} {c0 : BlkContext}

theorem span_pos (hz : FixedRun blksize c0) : 0 < c0.span := by
  have hlow := hz.min_le_startBlk
  have hhigh := hz.startBlk_le_max
  have hpos := hz.numBlks_pos
  unfold span topEnd
  split <;> omega

def strides (hz : FixedRun blksize c0) : Strides where
  total := c0.span
  size := c0.numBlks
  step := c0.numBlks + c0.blkHop.toNat
  total_pos := hz.span_pos
  size_pos := hz.numBlks_pos
  size_le_step := le_add_right _ _

def chunkBlk (hz : FixedRun blksize c0) (k : Nat) : Nat :=
  match c0.direction with
  | .down => c0.topEnd - k * hz.strides.step - hz.strides.len k
  | _ => c0.startBlk + k * hz.strides.step

end FixedRun

structure OnChunk {blksize : Nat} {c0 : BlkContext} (hz : FixedRun blksize c0) (k : Nat)
    (c : BlkContext) : Prop where
  same : SameZone c0 c
  lt_count : k < hz.strides.count
  blkno0 : c.blkno0 = hz.chunkBlk k
  numBlks : c.numBlks = hz.strides.len k
  length : FullLength c0 c ∨
    Shortened c0 c ∧ c.numBlks < c0.numBlks ∧ c.dlen = u32 (c.numBlks * blksize)
  blkno2 : c.blkno2 = match c0.direction with
    | .down => c.blkno0
    | _ => c.blkno0 + c.numBlks

structure AtChunk {blksize : Nat} {c0 : BlkContext} (hz : FixedRun blksize c0) (k : Nat)
    (c : BlkContext) : Prop where
  same : SameZone c0 c
  length : FullLength c0 c
  le_count : k ≤ hz.strides.count
  room : 0 < k -> c0.numBlks ≤ c0.span
  up : c0.direction = .up -> c.blkno0 = c0.startBlk + k * hz.strides.step ∧
    c.blkno1 = c.blkno0 ∧ c.blkno2 = c.blkno0 + c0.numBlks
  down : c0.direction = .down ->
    c.blkno0 = u64 ((c0.topEnd : Int) - c0.numBlks - (k * hz.strides.step : Nat)) ∧
      c.blkno2 = c.blkno0

section

variable {blksize : Nat} {c0 c : BlkContext} {k : Nat} (hz : FixedRun blksize c0)

theorem FixedRun.restored (hz : FixedRun blksize c0) :
    u32 (c0.dlen / blksize : Nat) = c0.numBlks := by
  rw [hz.dlen, Nat.mul_div_cancel _ hz.blksize_pos]
  exact u32_eq rfl hz.numBlks_lt

theorem FixedRun.step_lt : hz.strides.step < 2 ^ 33 := by
  have hlt := hz.numBlks_lt
  have hhop := hz.hop_lt
  change c0.numBlks + c0.blkHop.toNat < 2 ^ 33
  omega

theorem FixedRun.initBlk (hz : FixedRun blksize c0) (h : SameZone c0 c) :
    (if c.doPartial ≠ 0 ∧ c.increment = -1 then c.setFirstBlk else c.firstBlk) =
      c0.setFirstBlk := by
  have hfirst := h.firstBlk
  have hinc := h.increment.trans hz.increment
  rw [if_neg (by rw [hinc]; omega), hfirst, hz.first]

theorem AtChunk.of_init (h : SameZone c0 c) (hnum : c.numBlks = c0.numBlks)
    (hdlen : c.dlen = c0.dlen) : AtChunk hz 0 { c.initBlkno with doPartial := 0 } := by
  have hblk := hz.initBlk h
  have hd := h.direction
  have hbound := hz.bound
  have hhigh := hz.startBlk_le_max
  have hlt := hz.numBlks_lt
  unfold initBlkno
  rw [hblk]
  rcases hz.upDown with hdir | hdir
  · rw [hz.setFirstBlk_up hdir]
    rw [hdir] at hd
    have hend : u64 ((c0.startBlk : Int) + c0.numBlks) = c0.startBlk + c0.numBlks :=
      u64_eq (by omega) (by omega)
    simp only [hd, hnum, hend]
    refine ⟨h, ⟨rfl, rfl, hdlen⟩, zero_le _, fun hpos => absurd hpos (lt_irrefl 0), ?_, ?_⟩
    · intro _
      exact ⟨by simp, rfl, rfl⟩
    · intro hdown
      rw [hdir] at hdown
      cases hdown
  · rw [hz.setFirstBlk_down hdir hz.numBlks_pos hlt]
    rw [hdir] at hd
    simp only [hd, hnum]
    refine ⟨h, ⟨rfl, rfl, hdlen⟩, zero_le _, fun hpos => absurd hpos (lt_irrefl 0), ?_, ?_⟩
    · intro hup
      rw [hdir] at hup
      cases hup
    · intro _
      exact ⟨by simp, rfl⟩

theorem FixedRun.mul_step_lt (h : k ≤ hz.strides.count) :
    k * hz.strides.step < c0.span + hz.strides.step := by
  cases k with
  | zero =>
    rw [zero_mul]
    exact hz.span_pos.trans_le (le_add_right _ _)
  | succ k =>
    have hlast := hz.strides.lt_count_iff.mp h
    rw [add_mul, one_mul]
    exact Nat.add_lt_add_right hlast _

theorem FixedRun.span_up (hz : FixedRun blksize c0) (hdir : c0.direction = .up) :
    c0.startBlk + c0.span = c0.maxBlkno + 1 := by
  have hhigh := hz.startBlk_le_max
  rw [span, hdir]
  dsimp only
  omega

theorem FixedRun.span_down (hz : FixedRun blksize c0) (hdir : c0.direction = .down) :
    c0.minBlkno + c0.span = c0.topEnd ∧ c0.topEnd ≤ c0.maxBlkno + 1 := by
  have hlow := hz.min_le_startBlk
  have hordered := hz.ordered
  rw [span, hdir]
  unfold topEnd
  dsimp only
  omega

section

variable (h : AtChunk hz k c)

include h

theorem AtChunk.wrap : c.wrap =
      if k * hz.strides.step < c0.span then
        if c0.numBlks ≤ c0.span - k * hz.strides.step then none else some 1
      else some 2 := by
  have hbound := hz.bound
  have hordered := hz.ordered
  have hpos := hz.numBlks_pos
  have hlt := hz.numBlks_lt
  have hstep := hz.step_lt
  have hend := hz.mul_step_lt h.le_count
  have hnum := h.length.2.1
  have hmax := h.same.maxBlkno
  have hmin := h.same.minBlkno
  have hinc : ¬ (1 < c.numWrites ∧ c.increment = -1) := by
    rw [h.same.increment.trans hz.increment]
    omega
  rcases hz.upDown with hdir | hdir
  · rcases h.up hdir with ⟨hblk0, hblk1, _⟩
    have hspan := hz.span_up hdir
    have hd := h.same.direction.trans hdir
    generalize k * hz.strides.step = offset at hblk0 hend ⊢
    generalize hz.strides.step = step at hstep hend
    rw [wrap_up_eq hd (by omega) (by omega)]
    simp only [hinc, false_or, hblk1, hblk0, hnum, hmax]
    by_cases hin : offset < c0.span
    · rw [if_pos hin]
      by_cases hfits : c0.numBlks ≤ c0.span - offset
      · rw [if_pos hfits, if_pos (by omega)]
      · rw [if_neg hfits, if_neg (by omega), if_neg (by omega)]
    · rw [if_neg hin, if_neg (by omega), if_pos (by omega)]
  · rcases h.down hdir with ⟨hblk0, hblk2⟩
    have hspan := hz.span_down hdir
    have hd := h.same.direction.trans hdir
    rw [hblk0] at hblk2
    generalize k * hz.strides.step = offset at hblk2 hend ⊢
    generalize hz.strides.step = step at hstep hend
    rw [wrap_down_eq hd hblk2 (by omega) (by omega) (by omega) (by omega)]
    simp only [hinc, false_or, hnum, hmin]
    by_cases hin : offset < c0.span
    · rw [if_pos hin]
      by_cases hfits : c0.numBlks ≤ c0.span - offset
      · rw [if_pos hfits, if_pos (by omega)]
      · rw [if_neg hfits, if_neg (by omega), if_neg (by omega)]
    · rw [if_neg hin, if_neg (by omega), if_pos (by omega)]

section

variable (hlt : k < hz.strides.count)

include hlt

theorem AtChunk.blkno0_of_fits
    (hfits : c0.numBlks ≤ c0.span - k * hz.strides.step) : c.blkno0 = hz.chunkBlk k := by
  have hin : k * hz.strides.step < c0.span := hz.strides.lt_count_iff.mp hlt
  have hlen : hz.strides.len k = c0.numBlks := min_eq_left hfits
  have hbound := hz.bound
  unfold FixedRun.chunkBlk
  rcases hz.upDown with hdir | hdir
  · rw [(h.up hdir).1, hdir]
  · have hspan := hz.span_down hdir
    rw [(h.down hdir).1, hdir, hlen]
    dsimp only
    generalize k * hz.strides.step = offset at hfits hin
    exact u64_eq (by omega) (by omega)

theorem AtChunk.onChunk (hfits : c0.numBlks ≤ c0.span - k * hz.strides.step) : OnChunk hz k c := by
  have hlen : hz.strides.len k = c0.numBlks := min_eq_left hfits
  refine ⟨h.same, hlt, h.blkno0_of_fits hz hlt hfits, ?_, .inl h.length, ?_⟩
  · rw [h.length.2.1, hlen]
  · rcases hz.upDown with hdir | hdir
    · rw [hdir, (h.up hdir).2.2, h.length.2.1]
    · rw [hdir, (h.down hdir).2]

theorem AtChunk.partialTransfer (hshort : ¬ c0.numBlks ≤ c0.span - k * hz.strides.step) :
    OnChunk hz k (BlkContext.partialTransfer blksize { c with doPartial := 1 }) := by
  have hin : k * hz.strides.step < c0.span := hz.strides.lt_count_iff.mp hlt
  have hlen : hz.strides.len k = c0.span - k * hz.strides.step :=
    min_eq_right (Nat.le_of_not_le hshort)
  have hbound := hz.bound
  have hnum := h.length.2.1
  have hnumlt := hz.numBlks_lt
  have hmax := h.same.maxBlkno
  have hmin := h.same.minBlkno
  have hcut : c0.span - k * hz.strides.step < c0.numBlks := Nat.lt_of_not_le hshort
  have hblk : forall {d}, c0.direction = d -> hz.chunkBlk k = match d with
      | .down => c0.topEnd - k * hz.strides.step - hz.strides.len k
      | _ => c0.startBlk + k * hz.strides.step := by
    intro d hd
    unfold FixedRun.chunkBlk
    rw [hd]
  rcases hz.upDown with hdir | hdir
  · rcases h.up hdir with ⟨hblk0, hblk1, _⟩
    have hspan := hz.span_up hdir
    have hd := h.same.direction.trans hdir
    have hchunk := hblk hdir
    dsimp only at hchunk
    generalize k * hz.strides.step = offset at *
    rw [partialTransfer_up (c := { c with doPartial := 1 }) hd hblk1 (by dsimp only; omega)
      (by dsimp only; omega) (by dsimp only; omega)]
    have hrest : c.maxBlkno + 1 - c.blkno0 = c0.span - offset := by omega
    refine ⟨h.same, hlt, hblk0.trans hchunk.symm, hrest.trans hlen.symm,
      .inr ⟨⟨rfl, h.length.2.2⟩, ?_, rfl⟩, ?_⟩
    · dsimp only
      omega
    · rw [hdir]
      dsimp only
      omega
  · rcases h.down hdir with ⟨hblk0, hblk2⟩
    have hspan := hz.span_down hdir
    have hd := h.same.direction.trans hdir
    have hchunk := hblk hdir
    dsimp only at hchunk
    generalize k * hz.strides.step = offset at *
    rw [partialTransfer_down (c := { c with doPartial := 1 }) hd (hblk2.trans hblk0)
      (by dsimp only; omega) (by dsimp only; omega) (by dsimp only; omega)]
    refine ⟨h.same, hlt, ?_, ?_, .inr ⟨⟨rfl, h.length.2.2⟩, ?_, rfl⟩, ?_⟩
    · dsimp only
      omega
    · dsimp only
      omega
    · dsimp only
      omega
    · rw [hdir]

end

theorem AtChunk.check :
    OnChunk hz (if k < hz.strides.count then k else 0) (c.doBoundaryCheck blksize) := by
  have hd : c.direction = .up ∨ c.direction = .down := by
    rw [h.same.direction]
    exact hz.upDown
  have hwrap := h.wrap
  have hiff : k < hz.strides.count <-> k * hz.strides.step < c0.span := hz.strides.lt_count_iff
  by_cases hlt : k < hz.strides.count
  · rw [if_pos (hiff.mp hlt)] at hwrap
    rw [if_pos hlt]
    by_cases hfits : c0.numBlks ≤ c0.span - k * hz.strides.step
    · rw [if_pos hfits] at hwrap
      rw [doBoundaryCheck_none hd hwrap]
      exact h.onChunk hz hlt hfits
    · rw [if_neg hfits] at hwrap
      rw [doBoundaryCheck_shorten hd hwrap]
      exact h.partialTransfer hz hlt hfits
  · rw [if_neg fun hin => hlt (hiff.mpr hin)] at hwrap
    rw [if_neg hlt, doBoundaryCheck_restart hd hwrap]
    -- the strides have come to their end with chunks of full length
    have hroom : c0.numBlks ≤ c0.span :=
      h.room (hz.strides.count_pos.trans_le (Nat.le_of_not_lt hlt))
    have hfirst := AtChunk.of_init hz (c := { c with doPartial := 2 }) h.same h.length.2.1
      h.length.2.2
    exact hfirst.onChunk hz hz.strides.count_pos (by rw [zero_mul]; exact hroom)

end

theorem OnChunk.next_full (h : OnChunk hz k c) (hfull : FullLength c0 c) :
    AtChunk hz (k + 1) (c.setBlkno blksize) := by
  have hin : k * hz.strides.step < c0.span := hz.strides.lt_count_iff.mp h.lt_count
  have hstep : hz.strides.step = c0.numBlks + c0.blkHop.toNat := rfl
  have hbound := hz.bound
  have hlt := hz.numBlks_lt
  have hnum := hfull.2.1
  have hlen : hz.strides.len k = c0.numBlks := h.numBlks.symm.trans hnum
  have hroom : c0.numBlks ≤ c0.span - k * hz.strides.step := by
    rw [← hlen]
    exact hz.strides.len_le k
  have hhop := h.same.blkHop
  have hhop0 := hz.hop_nonneg
  have hhoplt := hz.hop_lt
  have hrange := h.same.lbaAlign.trans hz.lbaAlign
  have hup : forall blk, c.alignUp blk = blk := fun blk => if_neg fun ha => ha.1 hrange
  have hdown : forall blk, c.alignDown blk = blk := fun blk => if_neg fun ha => ha.1 hrange
  have hsucc : (k + 1) * hz.strides.step = k * hz.strides.step + c0.numBlks + c0.blkHop.toNat := by
    rw [add_mul, one_mul, hstep, add_assoc]
  have hblk0 := h.blkno0
  have hblk2 := h.blkno2
  unfold FixedRun.chunkBlk at hblk0
  unfold setBlkno
  rw [if_neg (by rw [hfull.1]; decide)]
  rcases hz.upDown with hdir | hdir
  · have hspan := hz.span_up hdir
    have hd := h.same.direction.trans hdir
    rw [hdir] at hblk0 hblk2
    dsimp only at hblk0 hblk2
    have hnext : c.nextUp = c0.startBlk + (k + 1) * hz.strides.step := by
      unfold nextUp
      rw [hhop, hblk2, hblk0, hsucc, hnum]
      generalize k * hz.strides.step = offset at hin
      exact u64_eq (by omega) (by omega)
    have hend : u64 ((c0.startBlk + (k + 1) * hz.strides.step : Nat) + c.numBlks) =
        c0.startBlk + (k + 1) * hz.strides.step + c0.numBlks := by
      rw [hnum, hsucc]
      generalize k * hz.strides.step = offset at hin
      exact u64_eq (by omega) (by omega)
    simp only [hd, hup, hnext, hend]
    refine ⟨h.same, hfull, h.lt_count, fun _ => hroom.trans (sub_le _ _), ?_, ?_⟩
    · exact fun _ => ⟨rfl, rfl, rfl⟩
    · intro hdown
      rw [hdir] at hdown
      cases hdown
  · have hspan := hz.span_down hdir
    have hd := h.same.direction.trans hdir
    rw [hdir] at hblk0 hblk2
    dsimp only at hblk0 hblk2
    have hnext : c.nextDown =
        u64 ((c0.topEnd : Int) - c0.numBlks - ((k + 1) * hz.strides.step : Nat)) := by
      unfold nextDown
      rw [hhop, hblk2, hblk0, hsucc, hnum, hlen]
      generalize k * hz.strides.step = offset at hin hroom
      congr 1
      omega
    simp only [hd, hdown, hnext]
    refine ⟨h.same, hfull, h.lt_count, fun _ => hroom.trans (sub_le _ _), ?_, ?_⟩
    · intro hup
      rw [hdir] at hup
      cases hup
    · exact fun _ => ⟨rfl, rfl⟩

theorem OnChunk.next (h : OnChunk hz k c) : AtChunk hz (k + 1) (c.setBlkno blksize) ∨
      AtChunk hz 0 (c.setBlkno blksize) ∧ k + 1 = hz.strides.count := by
  rcases h.length with hfull | ⟨hshort, hcut, _⟩
  · exact .inl (h.next_full hz hfull)
  · refine .inr ⟨?_, ?_⟩
    · unfold setBlkno
      rw [if_pos hshort.1]
      refine AtChunk.of_init hz (c := c.restoreLength blksize) h.same ?_ hshort.2
      change u32 (c.savedDlen / blksize : Nat) = c0.numBlks
      rw [hshort.2, hz.restored]
    · rw [h.numBlks] at hcut
      exact hz.strides.count_eq_of_short h.lt_count hcut

theorem initBlkno_frame (c : BlkContext) : exists blk0 blk1 blk2,
    c.initBlkno = { c with blkno0 := blk0, blkno1 := blk1, blkno2 := blk2 } := by
  unfold initBlkno
  generalize (if c.doPartial ≠ 0 ∧ c.increment = -1 then c.setFirstBlk else c.firstBlk) = blk
  dsimp only
  split
  · exact ⟨_, _, _, rfl⟩
  · exact ⟨_, _, _, rfl⟩
  · split
    · exact ⟨_, _, _, rfl⟩
    · exact ⟨_, _, _, rfl⟩
  · exact ⟨_, _, _, rfl⟩

theorem FixedRun.atChunk (i : Nat) :
    exists k, AtChunk hz k (iterate (seqStep blksize) i c0.initBlkno) ∧
      (if k < hz.strides.count then k else 0) = i % hz.strides.count := by
  induction i with
  | zero =>
    refine ⟨0, ?_, ?_⟩
    · have hfirst := AtChunk.of_init hz (c := c0) rfl rfl rfl
      have hsame : { c0.initBlkno with doPartial := 0 } = c0.initBlkno := by
        rcases initBlkno_frame c0 with ⟨blk0, blk1, blk2, heq⟩
        rw [heq, ← hz.fresh]
      rwa [hsame] at hfirst
    · rw [if_pos hz.strides.count_pos, zero_mod]
  | succ i ih =>
    rcases ih with ⟨k, hat, hk⟩
    have hon := hat.check
    rw [hk] at hon
    rw [Function.iterate_succ_apply', seqStep, hz.strides.succ_mod_count]
    rcases hon.next hz with hnext | ⟨hfirst, hlast⟩
    · refine ⟨i % hz.strides.count + 1, hnext, ?_⟩
      have hle := hnext.le_count
      by_cases hlast : i % hz.strides.count + 1 = hz.strides.count
      · rw [if_pos hlast, if_neg (by omega)]
      · rw [if_neg hlast, if_pos (by omega)]
    · refine ⟨0, hfirst, ?_⟩
      rw [if_pos hz.strides.count_pos, if_pos hlast]

theorem FixedRun.onChunk (i : Nat) : OnChunk hz (i % hz.strides.count) (c0.transfer blksize i) := by
  rcases hz.atChunk i with ⟨k, hat, hk⟩
  rw [← hk]
  exact hat.check

theorem FixedRun.chunk_in_range (hlt : k < hz.strides.count) :
    c0.minBlkno ≤ hz.chunkBlk k ∧ hz.chunkBlk k + hz.strides.len k ≤ c0.maxBlkno + 1 := by
  have hin : k * hz.strides.step < c0.span := hz.strides.lt_count_iff.mp hlt
  have hlen : hz.strides.len k ≤ c0.span - k * hz.strides.step := hz.strides.len_le k
  have hlow := hz.min_le_startBlk
  unfold FixedRun.chunkBlk
  rcases hz.upDown with hdir | hdir
  · have hspan := hz.span_up hdir
    rw [hdir]
    dsimp only
    generalize k * hz.strides.step = offset at hin hlen ⊢
    omega
  · have hspan := hz.span_down hdir
    rw [hdir]
    dsimp only
    generalize k * hz.strides.step = offset at hin hlen ⊢
    omega

end

end Htx.Hxestorage
