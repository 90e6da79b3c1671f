import Htx.Hxestorage.SequentialOrbit
import Htx.Hxestorage.ThreadSetup

/-!
# Range and coverage of a sequential thread

The transfers of a thread of fixed length stay in its range.  Their length in bytes is
kept with 32 bits when a transfer is cut off, so it is right unless 4 GiB or more are left
for the last one.
-/

namespace Htx.Hxestorage

open BlkContext Library

def BlkContext.lastBlks (c : BlkContext) : Nat :=
  (c.span - 1) % (c.numBlks + c.blkHop.toNat) + 1

structure SoundTransfer (blksize : Nat) (c0 c : BlkContext) : Prop where
  pos : 0 < c.numBlks
  low : c0.minBlkno ≤ c.blkno0
  high : c.blkno0 + c.numBlks - 1 ≤ c0.maxBlkno
  dlen : c.dlen = c.numBlks * blksize

theorem u32_natCast (n : Nat) : u32 n = n % 2 ^ 32 := by
  unfold u32
  omega

section

variable {blksize : Nat} {c : BlkContext} (hz : FixedRun blksize c)

theorem FixedRun.lastBlks_eq (hz : FixedRun blksize c) {k : Nat} (hk : k + 1 = hz.strides.count) :
    c.lastBlks = c.span - k * hz.strides.step := by
  have hquot : k = (c.span - 1) / hz.strides.step := Nat.succ.inj hk
  have hdiv := Nat.div_add_mod (c.span - 1) hz.strides.step
  have hpos := hz.span_pos
  rw [← hquot, mul_comm] at hdiv
  change (c.span - 1) % hz.strides.step + 1 = _
  generalize k * hz.strides.step = offset at hdiv ⊢
  generalize (c.span - 1) % hz.strides.step = left at hdiv ⊢
  omega

theorem OnChunk.dlen_of_short {k : Nat} {c' : BlkContext} (h : OnChunk hz k c')
    (hshort : c'.numBlks < c.numBlks) :
    c'.numBlks = c.lastBlks ∧ c'.dlen = c.lastBlks * blksize % 2 ^ 32 := by
  have hcut : hz.strides.len k < hz.strides.size := h.numBlks ▸ hshort
  have hlast := hz.strides.count_eq_of_short h.lt_count hcut
  have hnum : c'.numBlks = c.lastBlks := by
    rw [h.numBlks, hz.lastBlks_eq hlast]
    exact hz.strides.len_eq_of_short hcut
  refine ⟨hnum, ?_⟩
  rcases h.length with hfull | ⟨_, _, hdlen⟩
  · exact absurd hfull.2.1 (ne_of_lt hshort)
  · rw [hdlen, hnum, ← u32_natCast, Nat.cast_mul]

end

/-- Every transfer lies in the range and has its length, exactly if what is left for the
last one is at least a full transfer or less than 4 GiB. -/
theorem transfers_sound_iff {blksize : Nat} {c : BlkContext} (hz : FixedRun blksize c) :
    (forall i, SoundTransfer blksize c (c.transfer blksize i)) <->
      (c.lastBlks < c.numBlks -> c.lastBlks * blksize < 2 ^ 32) := by
  constructor
  · intro hall hshort
    have hlt : hz.strides.count - 1 < hz.strides.count :=
      Nat.sub_lt hz.strides.count_pos Nat.one_pos
    have hon := hz.onChunk (hz.strides.count - 1)
    rw [Nat.mod_eq_of_lt hlt] at hon
    have hlast := hz.lastBlks_eq (Nat.sub_add_cancel hz.strides.count_pos)
    have hnum : (c.transfer blksize (hz.strides.count - 1)).numBlks < c.numBlks := by
      rw [hon.numBlks]
      refine lt_of_le_of_lt (hz.strides.len_le _) ?_
      rw [hlast] at hshort
      exact hshort
    have hlength := hon.dlen_of_short hz hnum
    have hdlen := (hall (hz.strides.count - 1)).dlen
    rw [hlength.2, hlength.1] at hdlen
    rw [← hdlen]
    exact Nat.mod_lt _ (by decide)
  · intro hcond i
    have hon := hz.onChunk i
    have hrange := hz.chunk_in_range hon.lt_count
    have hpos := hz.strides.len_pos hon.lt_count
    rw [← hon.blkno0, ← hon.numBlks] at hrange
    rw [← hon.numBlks] at hpos
    refine ⟨hpos, hrange.1, by omega, ?_⟩
    rcases hon.length with hfull | ⟨_, hcut, _⟩
    · rw [hfull.2.2, hfull.2.1, hz.dlen]
    · have hlength := hon.dlen_of_short hz hcut
      rw [hlength.2, hlength.1]
      exact Nat.mod_eq_of_lt (hcond (hlength.1 ▸ hcut))

def fromBottom (maxBlkno numBlks : Nat) : BlkContext where
  direction := .up
  startingBlock := .bot
  minBlkno := 0
  maxBlkno := maxBlkno
  increment := 0
  blkHop := 0
  lbaAlign := 0
  numWrites := 1
  firstBlk := 0
  numBlks := numBlks
  dlen := numBlks * 512
  savedDlen := 0
  blkno0 := 0
  blkno1 := 0
  blkno2 := 0
  doPartial := 0

theorem fromBottom_run {maxBlkno numBlks : Nat} (hmax : 0 < maxBlkno) (hbound : maxBlkno < 2 ^ 63)
    (hpos : 0 < numBlks) (hlt : numBlks < 2 ^ 32) : FixedRun 512 (fromBottom maxBlkno numBlks) where
  lbaAlign := rfl
  ordered := hmax
  bound := hbound
  start := fun _ h => (by cases h)
  upDown := .inl rfl
  increment := rfl
  hop_nonneg := le_rfl
  hop_lt := show (0 : Int) < 2 ^ 31 by decide
  numBlks_pos := hpos
  numBlks_lt := hlt
  blksize_pos := by decide
  dlen := rfl
  first := rfl
  fresh := rfl

theorem transfers_sound_ten_blocks : FixedRun 512 (fromBottom 9 4) ∧
      forall i, SoundTransfer 512 (fromBottom 9 4) ((fromBottom 9 4).transfer 512 i) :=
  have hz : FixedRun 512 (fromBottom 9 4) :=
    fromBottom_run (by decide) (by decide) (by decide) (by decide)
  ⟨hz, (transfers_sound_iff hz).mpr (by decide)⟩

/-- A transfer of 8 GiB and a block that is cut off by one block: its length in bytes
becomes that of one block. -/
theorem cut_off_length_lost : FixedRun 512 (fromBottom (2 ^ 24) (2 ^ 24 + 2)) ∧
      ((fromBottom (2 ^ 24) (2 ^ 24 + 2)).transfer 512 0).numBlks = 2 ^ 24 + 1 ∧
      ((fromBottom (2 ^ 24) (2 ^ 24 + 2)).transfer 512 0).dlen = 512 :=
  ⟨fromBottom_run (by decide) (by decide) (by decide) (by decide), by decide +kernel,
    by decide +kernel⟩

/-!
# Covering the range
-/

def BlkContext.FromEdge (c : BlkContext) : Prop :=
  c.direction = .up ∧ c.startingBlock = .bot ∨ c.direction = .down ∧ c.startingBlock = .top

section

variable {blksize : Nat} {c : BlkContext} {k b : Nat} (hz : FixedRun blksize c)

theorem FixedRun.span_of_fromEdge (hz : FixedRun blksize c) (hedge : c.FromEdge) :
    c.span = c.maxBlkno - c.minBlkno + 1 := by
  have hordered := hz.ordered
  have hpos := hz.numBlks_pos
  unfold span topEnd startBlk
  rcases hedge with ⟨hdir, hstart⟩ | ⟨hdir, hstart⟩
  · rw [hdir, hstart]
    dsimp only
    omega
  · rw [hdir, hstart]
    dsimp only
    omega

def BlkContext.place (c : BlkContext) (b : Nat) : Nat :=
  match c.direction with
  | .down => c.maxBlkno - b
  | _ => b - c.minBlkno

theorem FixedRun.mem_chunk_iff (hz : FixedRun blksize c) (hedge : c.FromEdge)
    (hk : k < hz.strides.count) (hlow : c.minBlkno ≤ b) (hhigh : b ≤ c.maxBlkno) :
    (hz.chunkBlk k ≤ b ∧ b < hz.chunkBlk k + hz.strides.len k) <->
      (k * hz.strides.step ≤ c.place b ∧ c.place b < k * hz.strides.step + hz.strides.len k) := by
  have hpos := hz.numBlks_pos
  have hin : k * hz.strides.step < c.span := hz.strides.lt_count_iff.mp hk
  have hlen : hz.strides.len k ≤ c.span - k * hz.strides.step := hz.strides.len_le k
  have hspan := hz.span_of_fromEdge hedge
  unfold FixedRun.chunkBlk place topEnd startBlk
  generalize k * hz.strides.step = offset at hin hlen ⊢
  rcases hedge with ⟨hdir, hstart⟩ | ⟨hdir, hstart⟩
  · rw [hdir, hstart]
    dsimp only
    omega
  · rw [hdir, hstart]
    dsimp only
    omega

end

theorem updateNumOper_eq_count {blksize : Nat} {c : ThreadContext}
    (hz : FixedRun blksize c.toBlkContext) (hhop : c.blkHop = 0)
    (hplain : c.oper.toList.contains '[' = false) (hedge : c.FromEdge) :
    c.updateNumOper = some { c with numOperSeq := hz.strides.count } := by
  have hlow : (if c.direction = .outward ∨ c.startingBlock = .top then c.minBlkno
      else c.firstBlk) = c.minBlkno := by
    rcases hedge with ⟨hdir, hstart⟩ | ⟨_, hstart⟩
    · have hfirst : c.firstBlk = c.minBlkno := by
        rw [hz.first, hz.setFirstBlk_up hdir, startBlk, hstart]
      rw [hfirst, ite_self]
    · rw [if_pos (.inr hstart)]
  have hblocks : u64 ((c.maxBlkno : Int) - c.minBlkno + 1) = c.span := by
    have hspan := hz.span_of_fromEdge hedge
    have hbound := hz.bound
    have hordered := hz.ordered
    exact u64_eq (by omega) (by omega)
  have hstep : hz.strides.step = c.numBlks := by
    change c.numBlks + c.blkHop.toNat = c.numBlks
    rw [hhop]
    rfl
  have hstride : u64 ((u32 ((c.numBlks : Int) + c.blkHop) * 1 : Nat) : Int) = c.numBlks := by
    have hlt := hz.numBlks_lt
    rw [hhop, Int.add_zero, mul_one, u32_natCast, Nat.mod_eq_of_lt hlt]
    exact u64_eq rfl (by omega)
  unfold ThreadContext.updateNumOper
  simp only [hlow, hplain, Bool.false_eq_true, if_false, hblocks, hstride]
  rw [if_neg hz.numBlks_pos.ne', hz.strides.count_eq_ceil, hstep]
  rfl

/-- With `NUM_OPER = 0` a thread that starts at the edge of its range and skips nothing
transfers every block of the range exactly once. -/
theorem numOper_covers_once {blksize : Nat} {c : ThreadContext}
    (hz : FixedRun blksize c.toBlkContext) (hhop : c.blkHop = 0)
    (hplain : c.oper.toList.contains '[' = false) (hedge : c.FromEdge) :
    exists c', c.updateNumOper = some c' ∧ forall b, c.minBlkno ≤ b -> b ≤ c.maxBlkno ->
        ∃! i, i < c'.numOperSeq ∧ (c.transfer blksize i).blkno0 ≤ b ∧
          b < (c.transfer blksize i).blkno0 + (c.transfer blksize i).numBlks := by
  refine ⟨_, updateNumOper_eq_count hz hhop hplain hedge, ?_⟩
  intro b hlow hhigh
  have hgap : hz.strides.step = hz.strides.size := by
    change c.numBlks + c.blkHop.toNat = c.numBlks
    rw [hhop]
    rfl
  have hplace : c.place b < hz.strides.total := by
    change c.place b < c.span
    rw [hz.span_of_fromEdge hedge]
    unfold BlkContext.place
    split <;> omega
  -- the transfer that holds the block is the chunk of its place
  have hmem : forall i, i < hz.strides.count -> (((c.transfer blksize i).blkno0 ≤ b ∧
        b < (c.transfer blksize i).blkno0 + (c.transfer blksize i).numBlks) <->
          i = c.place b / hz.strides.step) := by
    intro i hi
    have hon := hz.onChunk i
    rw [Nat.mod_eq_of_lt hi] at hon
    rw [hon.blkno0, hon.numBlks, hz.mem_chunk_iff hedge hi hlow hhigh]
    exact hz.strides.mem_chunk_iff hgap hplace
  have hlt : c.place b / hz.strides.step < hz.strides.count := hz.strides.div_lt_count hplace
  refine ⟨c.place b / hz.strides.step, ⟨hlt, (hmem _ hlt).mpr rfl⟩, ?_⟩
  rintro i ⟨hi, hin⟩
  exact (hmem i hi).mp hin

def readFromBottom (maxBlkno numBlks : Nat) : ThreadContext :=
  { ThreadContext.initial with
    toBlkContext := fromBottom maxBlkno numBlks
    oper := "R"
    numReads := 1 }

theorem numOper_covers_ten_blocks : FixedRun 512 (readFromBottom 9 4).toBlkContext ∧
      exists c', (readFromBottom 9 4).updateNumOper = some c' ∧ forall b, 0 ≤ b -> b ≤ 9 ->
          ∃! i, i < c'.numOperSeq ∧ ((readFromBottom 9 4).transfer 512 i).blkno0 ≤ b ∧
            b < ((readFromBottom 9 4).transfer 512 i).blkno0 +
              ((readFromBottom 9 4).transfer 512 i).numBlks :=
  have hz : FixedRun 512 (readFromBottom 9 4).toBlkContext :=
    fromBottom_run (by decide) (by decide) (by decide) (by decide)
  ⟨hz, numOper_covers_once hz rfl (by decide) (.inl ⟨rfl, rfl⟩)⟩

def readFromTop : ThreadContext :=
  { readFromBottom (2 ^ 63 + 1) 1 with
    direction := .down
    startingBlock := .top
    firstBlk := 2 ^ 63 + 1 }

/-- The block numbers of `wrap` have a sign: at `2 ^ 63 + 1` the thread starts again after
its first transfer. -/
theorem huge_range_reads_top_twice : readFromTop.firstBlk = readFromTop.setFirstBlk ∧
      (exists c', readFromTop.updateNumOper = some c' ∧ 1 < c'.numOperSeq) ∧
      forall i, i < 2 -> (readFromTop.transfer 512 i).blkno0 = 2 ^ 63 + 1 ∧
        (readFromTop.transfer 512 i).numBlks = 1 :=
  ⟨by decide +kernel, ⟨_, rfl, by decide +kernel⟩, by decide +kernel⟩

end Htx.Hxestorage
