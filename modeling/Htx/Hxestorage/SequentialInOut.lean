import Htx.Hxestorage.SequentialOrbit

/-!
# Directions IN and OUT

A thread that goes IN or OUT jumps between two positions that move by `num_blks + blk_hop`
blocks.
-/

namespace Htx.Hxestorage

open BlkContext Function Nat

structure InOutRun (c : BlkContext) : Prop where
  inOut : c.direction = .inward ∨ c.direction = .outward
  lbaAlign : c.lbaAlign = 0
  increment : c.increment = 0
  hop_nonneg : 0 ≤ c.blkHop
  hop_lt : c.blkHop < 2 ^ 31
  numBlks_pos : 0 < c.numBlks
  numBlks_lt : c.numBlks < 2 ^ 32
  maxBlkno_lt : c.maxBlkno < 2 ^ 64
  firstBlk_lt : c.firstBlk < 2 ^ 64
  fresh : c.doPartial = 0

def InRange (c0 c : BlkContext) : Prop :=
  c0.minBlkno ≤ c.blkno0 ∧ c.blkno0 + c.numBlks - 1 ≤ c0.maxBlkno

namespace BlkContext

def stride (c : BlkContext) : Nat :=
  c.numBlks + c.blkHop.toNat

def topBlk (c : BlkContext) : Nat :=
  min c.maxBlkno (2 ^ 63 - 1)

def rounds (c : BlkContext) : Nat :=
  min ((c.firstBlk - c.minBlkno) / c.stride) ((c.topBlk - c.firstBlk) / c.stride)

def highestBlk (c : BlkContext) : Nat :=
  match c.direction with
  | .outward => c.firstBlk + c.rounds * c.stride
  | _ => c.firstBlk

def Fits (c : BlkContext) : Prop :=
  c.minBlkno ≤ c.blkno0 ∧ 0 ≤ signed64 c.blkno0 ∧
    match c.direction with
    | .inward => u64 (c.blkno0 + c.numBlks - 1) ≤ c.maxBlkno
    | _ => c.blkno0 ≤ c.maxBlkno

theorem doBoundaryCheck_inOut {c : BlkContext} (blksize : Nat)
    (hdir : c.direction = .inward ∨ c.direction = .outward) :
    c.Fits ∧ c.doBoundaryCheck blksize = c ∨
      ¬ c.Fits ∧ c.doBoundaryCheck blksize = c.initBlkno := by
  unfold doBoundaryCheck Fits
  rcases hdir with hd | hd
  all_goals
    simp only [hd]
    split
    · next h =>
        exact .inr ⟨by omega, rfl⟩
    · next h =>
        exact .inl ⟨by omega, rfl⟩

end BlkContext

structure Moved (c0 c : BlkContext) : Prop where
  same : SameZone c0 c
  numBlks : c.numBlks = c0.numBlks
  doPartial : c.doPartial = 0
  blkno0_lt : c.blkno0 < 2 ^ 64

section

variable {blksize : Nat} {c0 c : BlkContext}

section

variable (hz : InOutRun c0)

include hz

theorem Moved.inOut (h : Moved c0 c) : c.direction = .inward ∨ c.direction = .outward := by
  rw [h.same.direction]
  exact hz.inOut

theorem InOutRun.init (hsame : SameZone c0 c) (hnum : c.numBlks = c0.numBlks)
    (hshort : c.doPartial = 0) :
    Moved c0 c.initBlkno ∧ c.initBlkno.blkno0 = c0.firstBlk := by
  have hfirst := hsame.firstBlk
  have hdir := hsame.direction
  have hblk : c.initBlkno.blkno0 = c0.firstBlk := by
    unfold initBlkno
    rw [if_neg (by rw [hshort]; omega), hfirst, hdir]
    rcases hz.inOut with hd | hd
    · simp only [hd]
      split <;> rfl
    · simp only [hd]
  refine ⟨?_, hblk⟩
  rcases initBlkno_frame c with ⟨blk0, blk1, blk2, heq⟩
  rw [heq] at hblk ⊢
  exact ⟨hsame, hnum, hshort, hblk.trans_lt hz.firstBlk_lt⟩

theorem Moved.init (h : Moved c0 c) : Moved c0 c.initBlkno ∧ c.initBlkno.blkno0 = c0.firstBlk :=
  hz.init h.same h.numBlks h.doPartial

theorem Moved.setBlkno_eq (h : Moved c0 c) : c.setBlkno blksize =
      if c.blkno0 = c.blkno1 then
        { c with blkno0 := u64 (c.blkno2 - c0.stride), blkno2 := u64 (c.blkno2 - c0.stride) }
      else
        { c with blkno0 := u64 (c.blkno1 + c0.stride), blkno1 := u64 (c.blkno1 + c0.stride) } := by
  have halign := h.same.lbaAlign.trans hz.lbaAlign
  have hhop := h.same.blkHop
  have hhop0 := hz.hop_nonneg
  have hdown : c.alignDown c.nextDown = u64 (c.blkno2 - c0.stride) := by
    unfold alignDown nextDown stride
    rw [if_neg fun ha => ha.1 halign, hhop, h.numBlks]
    congr 1
    omega
  have hup : c.alignUp (u64 (c.blkno1 + c.numBlks + c.blkHop)) = u64 (c.blkno1 + c0.stride) := by
    unfold alignUp stride
    rw [if_neg fun ha => ha.1 halign, hhop, h.numBlks]
    congr 1
    omega
  unfold setBlkno
  rw [if_neg (by rw [h.doPartial]; decide)]
  rcases h.inOut hz with hd | hd
  · simp only [hd, hdown, hup]
  · simp only [hd, hdown, hup]

end

theorem Moved.setBlkno (blksize : Nat) (hz : InOutRun c0) (h : Moved c0 c) :
    Moved c0 (c.setBlkno blksize) := by
  rw [h.setBlkno_eq hz]
  split
  · exact ⟨h.same, h.numBlks, h.doPartial, u64_lt (c.blkno2 - c0.stride)⟩
  · exact ⟨h.same, h.numBlks, h.doPartial, u64_lt (c.blkno1 + c0.stride)⟩

theorem Moved.check (hz : InOutRun c0) (h : Moved c0 c) : Moved c0 (c.doBoundaryCheck blksize) := by
  rcases doBoundaryCheck_inOut blksize (h.inOut hz) with ⟨_, heq⟩ | ⟨_, heq⟩
  · rw [heq]
    exact h
  · rw [heq]
    exact (h.init hz).1

theorem InOutRun.start (hz : InOutRun c0) :
    Moved c0 c0.initBlkno ∧ c0.initBlkno.blkno0 = c0.firstBlk :=
  hz.init rfl rfl hz.fresh

theorem InOutRun.moved (blksize : Nat) (hz : InOutRun c0) (i : Nat) :
    Moved c0 (iterate (seqStep blksize) i c0.initBlkno) := by
  induction i with
  | zero => exact hz.start.1
  | succ i ih =>
    rw [iterate_succ_apply']
    exact (ih.check hz).setBlkno blksize hz

theorem InOutRun.first_transfer (hz : InOutRun c0) : (c0.transfer blksize 0).blkno0 = c0.firstBlk ∧
      (c0.transfer blksize 0).numBlks = c0.numBlks := by
  have hstart := hz.start
  refine ⟨?_, (hstart.1.check hz).numBlks⟩
  change (c0.initBlkno.doBoundaryCheck blksize).blkno0 = _
  rcases doBoundaryCheck_inOut blksize (hstart.1.inOut hz) with ⟨_, heq⟩ | ⟨_, heq⟩
  · rw [heq]
    exact hstart.2
  · rw [heq]
    exact (hstart.1.init hz).2

theorem Moved.of_fits (h : Moved c0 c) (hfits : c.Fits) :
    c0.minBlkno ≤ c.blkno0 ∧ c.blkno0 < 2 ^ 63 := by
  have hmin := h.same.minBlkno
  have hlt := h.blkno0_lt
  have hsigned := hfits.2.1
  refine ⟨hmin ▸ hfits.1, ?_⟩
  unfold signed64 at hsigned
  rw [Int.bmod_def] at hsigned
  split at hsigned <;> omega

end

/-!
# The rounds of direction OUT
-/

structure OutRun (c : BlkContext) : Prop extends InOutRun c where
  outward : c.direction = .outward
  low : c.minBlkno ≤ c.firstBlk
  high : c.firstBlk ≤ c.topBlk

structure OutUp (c0 : BlkContext) (j : Nat) (c : BlkContext) : Prop extends Moved c0 c where
  low : j * c0.stride ≤ c0.firstBlk - c0.minBlkno
  high : c0.firstBlk + j * c0.stride ≤ c0.topBlk + c0.stride
  blkno0 : c.blkno0 = c0.firstBlk + j * c0.stride
  blkno1 : c.blkno1 = c.blkno0
  blkno2 : c.blkno2 = c0.firstBlk - j * c0.stride

structure OutDown (c0 : BlkContext) (j : Nat) (c : BlkContext) : Prop extends Moved c0 c where
  low : j * c0.stride ≤ c0.firstBlk - c0.minBlkno
  high : c0.firstBlk + j * c0.stride ≤ c0.topBlk
  blkno0 : c.blkno0 = u64 ((c0.firstBlk : Int) - (j * c0.stride : Nat) - c0.stride)
  blkno1 : c.blkno1 = c0.firstBlk + j * c0.stride
  blkno2 : c.blkno2 = c.blkno0

section

variable {blksize j : Nat} {c0 c : BlkContext}

theorem InOutRun.stride_pos (hz : InOutRun c0) : 0 < c0.stride :=
  hz.numBlks_pos.trans_le (le_add_right _ _)

theorem InOutRun.stride_lt (hz : InOutRun c0) : c0.stride < 2 ^ 33 := by
  have hlt := hz.numBlks_lt
  have hhop := hz.hop_lt
  unfold stride
  omega

theorem topBlk_lt (c0 : BlkContext) : c0.topBlk < 2 ^ 63 :=
  (min_le_right _ _).trans_lt (by decide)

theorem OutRun.fits_iff (hz : OutRun c0) (h : Moved c0 c) {pos : Int} (hblk : c.blkno0 = u64 pos)
    (hlow : - 2 ^ 62 ≤ pos) (hhigh : pos < 2 ^ 63 + 2 ^ 62) :
    c.Fits <-> (c0.minBlkno : Int) ≤ pos ∧ pos ≤ c0.topBlk := by
  have hmin := h.same.minBlkno
  have hmax := h.same.maxBlkno
  have hdir := h.same.direction.trans hz.outward
  unfold Fits topBlk
  simp only [hdir, hmin, hmax]
  constructor
  · intro hfits
    have hrange := h.of_fits (by unfold Fits; simpa only [hdir, hmin, hmax] using hfits)
    have hnat : (c.blkno0 : Int) = pos := by
      rw [hblk] at hrange ⊢
      unfold u64 at hrange ⊢
      omega
    omega
  · intro hpos
    have hnat : c.blkno0 = pos.toNat := by
      rw [hblk]
      exact u64_eq (by omega) (by omega)
    have hsigned : signed64 c.blkno0 = pos.toNat := by
      rw [hnat]
      exact signed64_eq (by omega)
    rw [hsigned, hnat]
    omega

theorem OutRun.init (hz : OutRun c0) (hsame : SameZone c0 c) (hnum : c.numBlks = c0.numBlks)
    (hshort : c.doPartial = 0) : OutUp c0 0 c.initBlkno := by
  have hinit := hz.toInOutRun.init hsame hnum hshort
  have hhigh := hz.high
  have hdir := hsame.direction.trans hz.outward
  have hcursors : c.initBlkno.blkno1 = c.initBlkno.blkno0 ∧
      c.initBlkno.blkno2 = c.initBlkno.blkno0 := by
    unfold initBlkno
    simp only [hdir, and_self]
  refine ⟨hinit.1, ?_, ?_, ?_, hcursors.1, ?_⟩
  · rw [zero_mul]
    exact zero_le _
  · rw [zero_mul]
    exact hhigh.trans (le_add_right _ _)
  · rw [hinit.2, zero_mul, add_zero]
  · rw [hcursors.2, hinit.2, Nat.zero_mul, Nat.sub_zero]

theorem OutUp.fits_iff (hz : OutRun c0) (h : OutUp c0 j c) :
    c.Fits <-> c0.firstBlk + j * c0.stride ≤ c0.topBlk := by
  have hlow := hz.low
  have hhigh := h.high
  have hstride := hz.stride_lt
  have htop := topBlk_lt c0
  have hblk : c.blkno0 = u64 (c0.firstBlk + j * c0.stride : Nat) := by
    rw [h.blkno0]
    exact (u64_eq rfl (by omega)).symm
  rw [hz.fits_iff h.toMoved hblk (by omega) (by omega)]
  omega

theorem OutDown.fits_iff (hz : OutRun c0) (h : OutDown c0 j c) :
    c.Fits <-> (j + 1) * c0.stride ≤ c0.firstBlk - c0.minBlkno := by
  have hlow := hz.low
  have hhigh := hz.high
  have hdown := h.low
  have hstride := hz.stride_lt
  have htop := topBlk_lt c0
  rw [hz.fits_iff h.toMoved h.blkno0 (by omega) (by omega), add_mul, one_mul]
  omega

theorem OutUp.next (blksize : Nat) (hz : OutRun c0) (h : OutUp c0 j c)
    (hfits : c0.firstBlk + j * c0.stride ≤ c0.topBlk) : OutDown c0 j (c.setBlkno blksize) := by
  have hmoved := h.toMoved.setBlkno blksize hz.toInOutRun
  have hlow := h.low
  have hcast : ((c0.firstBlk - j * c0.stride : Nat) : Int) - c0.stride =
      (c0.firstBlk : Int) - (j * c0.stride : Nat) - c0.stride := by
    omega
  rw [h.toMoved.setBlkno_eq hz.toInOutRun, if_pos h.blkno1.symm] at hmoved ⊢
  refine ⟨hmoved, hlow, hfits, ?_, ?_, rfl⟩
  · dsimp only
    rw [h.blkno2, hcast]
  · dsimp only
    rw [h.blkno1, h.blkno0]

theorem OutDown.next (hz : OutRun c0) (h : OutDown c0 j c)
    (hfits : (j + 1) * c0.stride ≤ c0.firstBlk - c0.minBlkno) :
    OutUp c0 (j + 1) (c.setBlkno blksize) := by
  have hmoved := h.toMoved.setBlkno blksize hz.toInOutRun
  have hhigh := h.high
  have hpos := hz.stride_pos
  have htop := topBlk_lt c0
  have hsucc : (j + 1) * c0.stride = j * c0.stride + c0.stride := by
    rw [add_mul, one_mul]
  have hblk0 : c.blkno0 = c0.firstBlk - (j + 1) * c0.stride := by
    rw [h.blkno0, hsucc]
    exact u64_eq (by omega) (by omega)
  have hup : u64 (c.blkno1 + c0.stride) = c0.firstBlk + (j + 1) * c0.stride := by
    rw [h.blkno1, hsucc]
    exact u64_eq (by omega) (by omega)
  have hne : c.blkno0 ≠ c.blkno1 := by
    rw [hblk0, h.blkno1]
    omega
  rw [h.toMoved.setBlkno_eq hz.toInOutRun, if_neg hne] at hmoved ⊢
  refine ⟨hmoved, hfits, by omega, hup, rfl, ?_⟩
  dsimp only
  rw [h.blkno2, hblk0]

def OnOut (c0 c : BlkContext) : Prop :=
  exists j, OutUp c0 j c ∧ c0.firstBlk + j * c0.stride ≤ c0.topBlk ∨
    OutDown c0 j c ∧ (j + 1) * c0.stride ≤ c0.firstBlk - c0.minBlkno

theorem OutRun.check (blksize : Nat) (hz : OutRun c0)
    (h : exists j, OutUp c0 j c ∨ OutDown c0 j c) :
    OnOut c0 (c.doBoundaryCheck blksize) := by
  rcases h with ⟨j, hat⟩
  have hmoved : Moved c0 c := by
    rcases hat with hup | hdown
    · exact hup.toMoved
    · exact hdown.toMoved
  rcases doBoundaryCheck_inOut blksize (hmoved.inOut hz.toInOutRun) with
    ⟨hfits, heq⟩ | ⟨_, heq⟩
  · rw [heq]
    rcases hat with hup | hdown
    · exact ⟨j, .inl ⟨hup, (hup.fits_iff hz).mp hfits⟩⟩
    · exact ⟨j, .inr ⟨hdown, (hdown.fits_iff hz).mp hfits⟩⟩
  · rw [heq]
    have hfirst := hz.init hmoved.same hmoved.numBlks hmoved.doPartial
    refine ⟨0, .inl ⟨hfirst, ?_⟩⟩
    rw [zero_mul]
    exact hz.high

theorem OutRun.atRound (hz : OutRun c0) (i : Nat) :
    exists j, OutUp c0 j (iterate (seqStep blksize) i c0.initBlkno) ∨
      OutDown c0 j (iterate (seqStep blksize) i c0.initBlkno) := by
  induction i with
  | zero => exact ⟨0, .inl (hz.init rfl rfl hz.fresh)⟩
  | succ i ih =>
    rw [iterate_succ_apply']
    rcases hz.check blksize ih with ⟨j, ⟨hup, hfits⟩ | ⟨hdown, hfits⟩⟩
    · exact ⟨j, .inr (hup.next blksize hz hfits)⟩
    · exact ⟨j + 1, .inl (hdown.next hz hfits)⟩

theorem OutRun.le_rounds_iff (hz : OutRun c0) :
    j ≤ c0.rounds <-> j * c0.stride ≤ c0.firstBlk - c0.minBlkno ∧
      c0.firstBlk + j * c0.stride ≤ c0.topBlk := by
  have hhigh := hz.high
  unfold rounds
  rw [Nat.le_min, Nat.le_div_iff_mul_le hz.stride_pos, Nat.le_div_iff_mul_le hz.stride_pos]
  omega

theorem OutRun.jump (blksize : Nat) (hz : OutRun c0) (hj : j ≤ c0.rounds) :
    OutUp c0 j (iterate (seqStep blksize) (2 * j) c0.initBlkno) := by
  induction j with
  | zero => exact hz.init rfl rfl hz.fresh
  | succ j ih =>
    have hup := ih (le_of_succ_le hj)
    have hfits := (hz.le_rounds_iff.mp (le_of_succ_le hj)).2
    have hdown := hup.next blksize hz hfits
    have hroom := (hz.le_rounds_iff.mp hj).1
    have hcheckUp := (doBoundaryCheck_inOut blksize
      (hup.toMoved.inOut hz.toInOutRun)).resolve_right fun h => h.1 ((hup.fits_iff hz).mpr hfits)
    have hcheckDown := (doBoundaryCheck_inOut blksize
      (hdown.toMoved.inOut hz.toInOutRun)).resolve_right
        fun h => h.1 ((hdown.fits_iff hz).mpr hroom)
    rw [mul_succ, iterate_succ_apply', iterate_succ_apply']
    unfold seqStep at hup hdown hcheckUp hcheckDown ⊢
    rw [hcheckUp.2, hcheckDown.2]
    exact hdown.next hz hroom

theorem OutRun.jump_transfer (hz : OutRun c0) (hj : j ≤ c0.rounds) :
    (c0.transfer blksize (2 * j)).blkno0 = c0.firstBlk + j * c0.stride ∧
      (c0.transfer blksize (2 * j)).numBlks = c0.numBlks := by
  have hup := hz.jump blksize hj
  have hfits := (hz.le_rounds_iff.mp hj).2
  have hcheck := (doBoundaryCheck_inOut blksize
    (hup.toMoved.inOut hz.toInOutRun)).resolve_right fun h => h.1 ((hup.fits_iff hz).mpr hfits)
  unfold transfer
  rw [hcheck.2]
  exact ⟨hup.blkno0, hup.numBlks⟩

theorem OnOut.inRange (hz : OutRun c0) (h : OnOut c0 c)
    (hroom : c0.firstBlk + c0.rounds * c0.stride + c0.numBlks - 1 ≤ c0.maxBlkno) :
    InRange c0 c := by
  have hlow := hz.low
  rcases h with ⟨j, ⟨hup, hfits⟩ | ⟨hdown, hfits⟩⟩
  · have hle : j * c0.stride ≤ c0.rounds * c0.stride :=
      mul_le_mul_right _ (hz.le_rounds_iff.mpr ⟨hup.low, hfits⟩)
    unfold InRange
    rw [hup.blkno0, hup.numBlks]
    omega
  · have hhigh := hz.high
    have htop := topBlk_lt c0
    have hblk : c.blkno0 = c0.firstBlk - (j + 1) * c0.stride := by
      rw [hdown.blkno0]
      rw [add_mul, one_mul] at hfits ⊢
      exact u64_eq (by omega) (by omega)
    unfold InRange
    rw [hblk, hdown.numBlks]
    omega

end

/-!
# The range
-/

section

variable {blksize : Nat} {c : BlkContext}

theorem InOutRun.inRange_of_checked (hz : InOutRun c)
    (hchecked : c.direction = .inward ∨ 2 ^ 63 ≤ c.firstBlk) (hlow : c.minBlkno ≤ c.firstBlk)
    (hroom : c.firstBlk + c.numBlks - 1 ≤ c.maxBlkno) (i : Nat) :
    InRange c (c.transfer blksize i) := by
  have hmoved := hz.moved blksize i
  have hpos := hz.numBlks_pos
  unfold transfer
  generalize iterate (seqStep blksize) i c.initBlkno = c' at hmoved ⊢
  rcases doBoundaryCheck_inOut blksize (hmoved.inOut hz) with ⟨hfits, heq⟩ | ⟨_, heq⟩
  · rw [heq]
    have hblk := hmoved.of_fits hfits
    refine ⟨hblk.1, ?_⟩
    have hnum := hmoved.numBlks
    rcases hchecked with hin | hhuge
    · have hlt := hz.numBlks_lt
      have hmax := hmoved.same.maxBlkno
      have hdir := hmoved.same.direction.trans hin
      have hlast : u64 (c'.blkno0 + c'.numBlks - 1) = c'.blkno0 + c'.numBlks - 1 :=
        u64_eq (by omega) (by omega)
      have hend := hfits.2.2
      rw [hdir] at hend
      dsimp only at hend
      rw [hlast, hmax] at hend
      exact hend
    · rw [hnum]
      omega
  · rw [heq]
    have hinit := hmoved.init hz
    unfold InRange
    rw [hinit.2, hinit.1.numBlks]
    exact ⟨hlow, hroom⟩

end

/-- Every transfer of a thread that goes IN or OUT lies in the range, exactly if its first
block is in it and its highest position leaves room for a transfer. -/
theorem inOut_inRange_iff {blksize : Nat} {c : BlkContext} (hz : InOutRun c) :
    (forall i, InRange c (c.transfer blksize i)) <->
      c.minBlkno ≤ c.firstBlk ∧ c.highestBlk + c.numBlks - 1 ≤ c.maxBlkno := by
  have hpos := hz.numBlks_pos
  constructor
  · intro hall
    have hfirst := hall 0
    unfold InRange at hfirst
    rw [hz.first_transfer.1, hz.first_transfer.2] at hfirst
    refine ⟨hfirst.1, ?_⟩
    unfold highestBlk
    split
    · next hout =>
        by_cases htop : c.firstBlk ≤ c.topBlk
        · have hrun : OutRun c := ⟨hz, hout, hfirst.1, htop⟩
          have hlast := (hall (2 * c.rounds)).2
          rw [(hrun.jump_transfer le_rfl).1, (hrun.jump_transfer le_rfl).2] at hlast
          exact hlast
        · have hnone : c.rounds = 0 := by
            unfold rounds
            rw [Nat.sub_eq_zero_of_le (Nat.le_of_not_le htop), Nat.zero_div, Nat.min_zero]
          rw [hnone, zero_mul, add_zero]
          exact hfirst.2
    · exact hfirst.2
  · rintro ⟨hlow, hroom⟩ i
    have hfirst : c.firstBlk ≤ c.highestBlk := by
      unfold highestBlk
      split
      · exact le_add_right _ _
      · exact le_rfl
    rcases hz.inOut with hin | hout
    · exact hz.inRange_of_checked (Or.inl hin) hlow (by omega) i
    · by_cases hhuge : 2 ^ 63 ≤ c.firstBlk
      · exact hz.inRange_of_checked (Or.inr hhuge) hlow (by omega) i
      · have hrun : OutRun c := ⟨hz, hout, hlow, by unfold topBlk; omega⟩
        refine (hrun.check blksize (hrun.atRound i)).inRange hrun ?_
        rw [highestBlk, hout] at hroom
        exact hroom

def tenBlocks (direction : Direction) (startingBlock : StartingBlock) (numBlks firstBlk : Nat) :
    BlkContext where
  direction := direction
  startingBlock := startingBlock
  minBlkno := 0
  maxBlkno := 9
  increment := 0
  blkHop := 0
  lbaAlign := 0
  numWrites := 1
  firstBlk := firstBlk
  numBlks := numBlks
  dlen := numBlks * 512
  savedDlen := 0
  blkno0 := 0
  blkno1 := 0
  blkno2 := 0
  doPartial := 0

theorem tenBlocks_inOutRun {direction : Direction} {startingBlock : StartingBlock}
    {numBlks firstBlk : Nat} (hdir : direction = .inward ∨ direction = .outward)
    (hpos : 0 < numBlks) (hnum : numBlks ≤ 10) (hfirst : firstBlk ≤ 10) :
    InOutRun (tenBlocks direction startingBlock numBlks firstBlk) where
  inOut := hdir
  lbaAlign := rfl
  increment := rfl
  hop_nonneg := le_rfl
  hop_lt := show (0 : Int) < 2 ^ 31 by decide
  numBlks_pos := hpos
  numBlks_lt := show numBlks < 2 ^ 32 by omega
  maxBlkno_lt := show 9 < 2 ^ 64 by decide
  firstBlk_lt := show firstBlk < 2 ^ 64 by omega
  fresh := rfl

theorem inOut_inRange_ten_blocks :
    (tenBlocks .outward .mid 5 5).firstBlk = (tenBlocks .outward .mid 5 5).setFirstBlk ∧
      forall i, InRange (tenBlocks .outward .mid 5 5)
        ((tenBlocks .outward .mid 5 5).transfer 512 i) :=
  ⟨by decide, (inOut_inRange_iff (tenBlocks_inOutRun (.inr rfl) (by decide) (by decide)
    (by decide))).mpr ⟨by decide, by decide +kernel⟩⟩

/-- IN from TOP the first transfer of two blocks leaves the range, OUT the third one of
four blocks. -/
theorem inOut_leaves_range : InOutRun (tenBlocks .inward .top 2 9) ∧
      (tenBlocks .inward .top 2 9).firstBlk = (tenBlocks .inward .top 2 9).setFirstBlk ∧
      ¬ InRange (tenBlocks .inward .top 2 9) ((tenBlocks .inward .top 2 9).transfer 512 0) ∧
      InOutRun (tenBlocks .outward .mid 4 5) ∧
      (tenBlocks .outward .mid 4 5).firstBlk = (tenBlocks .outward .mid 4 5).setFirstBlk ∧
      ¬ InRange (tenBlocks .outward .mid 4 5) ((tenBlocks .outward .mid 4 5).transfer 512 2) := by
  unfold InRange
  exact ⟨tenBlocks_inOutRun (.inl rfl) (by decide) (by decide) (by decide), by decide,
    by decide +kernel, tenBlocks_inOutRun (.inr rfl) (by decide) (by decide) (by decide),
    by decide, by decide +kernel⟩

end Htx.Hxestorage
