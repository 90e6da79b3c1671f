import Htx.Hxestorage.BlockPosition

/-!
# Working through a zone

A sequential thread whose first transfer lies at the edge of its range, that
skips no block and is not moved by alignment, goes through the range without
gaps: UP from `min_blkno`, DOWN from `max_blkno`, with a shortened transfer at
the far end and then from the start again.
-/

namespace Htx.Hxestorage

open BlkContext

structure EdgeZone (blksize : Nat) (c : BlkContext) : Prop where
  upDown : c.direction = .up ∨ c.direction = .down
  numWrites : c.numWrites ≤ 1
  blkHop : c.blkHop = 0
  ordered : c.minBlkno ≤ c.maxBlkno
  bound : c.maxBlkno < 2 ^ 62
  numBlks_pos : 0 < c.numBlks
  numBlks_lt : c.numBlks < 2 ^ 32
  numBlks_eq : u32 (c.dlen / blksize : Nat) = c.numBlks
  first : c.firstBlk = c.setFirstBlk
  edgeUp : c.direction = .up -> c.firstBlk = c.minBlkno
  edgeDown : c.direction = .down -> c.firstBlk = u64 (c.maxBlkno + 1 - c.numBlks)
  fresh : c.doPartial = 0

def SameZone (c0 c : BlkContext) : Prop :=
  c.toBlkParams = c0.toBlkParams

def FullLength (c0 c : BlkContext) : Prop :=
  c.doPartial = 0 ∧ c.numBlks = c0.numBlks ∧ c.dlen = c0.dlen

def Shortened (c0 c : BlkContext) : Prop :=
  c.doPartial = 1 ∧ c.savedDlen = c0.dlen

def Unrounded (c : BlkContext) : Prop :=
  c.lbaAlign = 0 ∨ (c.direction = .up ∧ c.nextUp % c.lbaAlign = 0) ∨
    (c.direction = .down ∧ c.nextDown % c.lbaAlign = 0)

structure InZone (c0 c : BlkContext) : Prop where
  same : SameZone c0 c
  length : FullLength c0 c ∨ Shortened c0 c
  numBlks_pos : 0 < c.numBlks
  low : c0.minBlkno ≤ c.blkno0
  high : c.blkno0 + c.numBlks ≤ c0.maxBlkno + 1

section

variable {blksize : Nat} {c0 c : BlkContext}

section

variable (h : SameZone c0 c)

include h

theorem SameZone.direction : c.direction = c0.direction := congrArg BlkParams.direction h

theorem SameZone.minBlkno : c.minBlkno = c0.minBlkno := congrArg BlkParams.minBlkno h

theorem SameZone.maxBlkno : c.maxBlkno = c0.maxBlkno := congrArg BlkParams.maxBlkno h

theorem SameZone.firstBlk : c.firstBlk = c0.firstBlk := congrArg BlkParams.firstBlk h

theorem SameZone.numWrites : c.numWrites = c0.numWrites := congrArg BlkParams.numWrites h

theorem SameZone.blkHop : c.blkHop = c0.blkHop := congrArg BlkParams.blkHop h

theorem SameZone.increment : c.increment = c0.increment := congrArg BlkParams.increment h

theorem SameZone.lbaAlign : c.lbaAlign = c0.lbaAlign := congrArg BlkParams.lbaAlign h

end

theorem SameZone.setFirstBlk (h : SameZone c0 c) (hnum : c.numBlks = c0.numBlks) :
    c.setFirstBlk = c0.setFirstBlk := by
  unfold BlkContext.setFirstBlk BlkContext.alignFirst BlkContext.alignUp
    alignDown requestedBlk midBlk
  rw [h, hnum]

theorem SameZone.initBlk (hz : EdgeZone blksize c0) (h : SameZone c0 c)
    (hnum : c.numBlks = c0.numBlks) :
    (if c.doPartial ≠ 0 ∧ c.increment = -1 then c.setFirstBlk else c.firstBlk) =
      c0.firstBlk := by
  have hfirst := h.firstBlk
  rw [h.setFirstBlk hnum, hfirst, hz.first]
  split <;> rfl

theorem Unrounded.alignUp (h : Unrounded c) (hdir : c.direction = .up) :
    c.alignUp c.nextUp = c.nextUp := by
  apply if_neg
  intro hround
  rcases h with hzero | ⟨_, hmod⟩ | ⟨hdown, _⟩
  · exact hround.1 hzero
  · exact hround.2 hmod
  · rw [hdir] at hdown
    cases hdown

theorem Unrounded.alignDown (h : Unrounded c) (hdir : c.direction = .down) :
    c.alignDown c.nextDown = c.nextDown := by
  apply if_neg
  intro hround
  rcases h with hzero | ⟨hup, _⟩ | ⟨_, hmod⟩
  · exact hround.1 hzero
  · rw [hdir] at hup
    cases hup
  · exact hround.2 hmod

theorem Shortened.restored (hz : EdgeZone blksize c0) (h : Shortened c0 c) :
    u32 (c.savedDlen / blksize : Nat) = c0.numBlks := by
  rw [h.2]
  exact hz.numBlks_eq

end

/-!
# Direction UP
-/

structure UpTop (c0 c : BlkContext) : Prop where
  same : SameZone c0 c
  length : FullLength c0 c
  blkno1 : c.blkno1 = c.blkno0
  blkno2 : c.blkno2 = c.blkno0 + c0.numBlks
  position : c.blkno0 = c0.minBlkno ∨ c0.minBlkno + c0.numBlks ≤ c.blkno0
  high : c.blkno0 ≤ c0.maxBlkno + 1

structure UpLocked (c0 c : BlkContext) : Prop extends InZone c0 c where
  blkno2 : c.blkno2 = c.blkno0 + c.numBlks

section

variable {blksize : Nat} {c0 c : BlkContext}

section

variable (hz : EdgeZone blksize c0)

include hz

theorem initBlkno_up (hdir : c0.direction = .up)
    (h : SameZone c0 c) (hnum : c.numBlks = c0.numBlks) :
    c.initBlkno =
      { c with blkno0 := c0.minBlkno, blkno1 := c0.minBlkno,
               blkno2 := c0.minBlkno + c0.numBlks } := by
  have hblk := h.initBlk hz hnum
  have hbound := hz.bound
  have hord := hz.ordered
  have hlt := hz.numBlks_lt
  have hd := h.direction.trans hdir
  have hend : u64 (c0.minBlkno + c0.numBlks) = c0.minBlkno + c0.numBlks :=
    u64_eq (by omega) (by omega)
  unfold initBlkno
  rw [hblk, hz.edgeUp hdir]
  simp only [hd, hnum, hend]

theorem UpTop.of_init (hdir : c0.direction = .up)
    (h : SameZone c0 c) (hnum : c.numBlks = c0.numBlks) (hdlen : c.dlen = c0.dlen) :
    UpTop c0 { c.initBlkno with doPartial := 0 } := by
  rw [initBlkno_up hz hdir h hnum]
  exact ⟨h, ⟨rfl, hnum, hdlen⟩, rfl, rfl, .inl rfl, Nat.le_succ_of_le hz.ordered⟩

theorem UpTop.wrap (hdir : c0.direction = .up) (h : UpTop c0 c) :
    c.wrap =
      if c.blkno0 + c0.numBlks ≤ c0.maxBlkno + 1 then none
      else some (if c0.maxBlkno < c.blkno0 then 2 else 1) := by
  have hbound := hz.bound
  have hpos := hz.numBlks_pos
  have hlt := hz.numBlks_lt
  have hwrites := hz.numWrites
  have hhigh := h.high
  have hnum := h.length.2.1
  have hblk := h.blkno1
  have honce : ¬ (1 < c0.numWrites ∧ c.increment = -1) := by omega
  rw [wrap_up_eq (h.same.direction.trans hdir) (by omega) (by omega), hblk, hnum,
    h.same.maxBlkno, h.same.numWrites]
  simp only [honce, false_or]

theorem UpTop.locked (h : UpTop c0 c)
    (hfits : c.blkno0 + c0.numBlks ≤ c0.maxBlkno + 1) : UpLocked c0 c := by
  have hnum := h.length.2.1
  have hpos := h.position
  refine ⟨⟨h.same, .inl h.length, ?_, ?_, ?_⟩, ?_⟩
  · rw [hnum]
    exact hz.numBlks_pos
  · omega
  · omega
  · rw [hnum]
    exact h.blkno2

theorem UpTop.check (hdir : c0.direction = .up) (h : UpTop c0 c) :
    UpLocked c0 (c.doBoundaryCheck blksize) ∧ ((c.doBoundaryCheck blksize).blkno0 = c.blkno0 ∨
        (c.doBoundaryCheck blksize).blkno0 = c0.minBlkno) := by
  have hd := h.same.direction.trans hdir
  have hmax := h.same.maxBlkno
  have hwrap := h.wrap hz hdir
  have hbound := hz.bound
  have hord := hz.ordered
  have hlt := hz.numBlks_lt
  have hpos := h.position
  have hhigh := h.high
  by_cases hfits : c.blkno0 + c0.numBlks ≤ c0.maxBlkno + 1
  · rw [if_pos hfits] at hwrap
    rw [doBoundaryCheck_none (.inl hd) hwrap]
    exact ⟨h.locked hz hfits, .inl rfl⟩
  · rw [if_neg hfits] at hwrap
    by_cases hpast : c0.maxBlkno < c.blkno0
    · rw [if_pos hpast] at hwrap
      rw [doBoundaryCheck_restart (.inl hd) hwrap]
      have hsame : SameZone c0 { c with doPartial := 2 } := h.same
      have htop := UpTop.of_init hz hdir hsame h.length.2.1 h.length.2.2
      have hfirst := initBlkno_up hz hdir hsame h.length.2.1
      rw [hfirst] at htop ⊢
      refine ⟨htop.locked hz ?_, .inr rfl⟩
      simp only
      omega
    · rw [if_neg hpast] at hwrap
      rw [doBoundaryCheck_shorten (.inl hd) hwrap]
      rw [partialTransfer_up (c := { c with doPartial := 1 }) hd h.blkno1 (by dsimp only; omega)
        (by dsimp only; omega) (by dsimp only; omega)]
      refine ⟨⟨⟨h.same, .inr ⟨rfl, h.length.2.2⟩, ?_, ?_, ?_⟩, ?_⟩, .inl rfl⟩
      all_goals
        dsimp only
        omega

theorem UpLocked.next (hdir : c0.direction = .up)
    (h : UpLocked c0 c) (hround : Unrounded c) :
    UpTop c0 (c.setBlkno blksize) ∧ ((c.setBlkno blksize).blkno0 = c.blkno0 + c.numBlks ∨
        (c.setBlkno blksize).blkno0 = c0.minBlkno) := by
  have hd := h.same.direction.trans hdir
  have hhop := h.same.blkHop.trans hz.blkHop
  have hbound := hz.bound
  have hlt := hz.numBlks_lt
  have hhigh := h.high
  have hlow := h.low
  unfold setBlkno
  rcases h.length with hfull | hshort
  · have hnext : c.nextUp = c.blkno0 + c.numBlks := by
      unfold nextUp
      rw [hhop, h.blkno2]
      exact u64_eq (by omega) (by omega)
    have hend : u64 ((c.blkno0 + c.numBlks : Nat) + c.numBlks) =
        c.blkno0 + c.numBlks + c0.numBlks := by
      rw [hfull.2.1]
      exact u64_eq (by omega) (by omega)
    rw [if_neg (by rw [hfull.1]; decide), hround.alignUp hd, hnext]
    simp only [hd, hend]
    refine ⟨⟨h.same, hfull, rfl, rfl, .inr ?_, ?_⟩, .inl trivial⟩
    · have hnum := hfull.2.1
      simp only
      omega
    · simp only
      omega
  · rw [if_pos hshort.1]
    have hlen := hshort.restored hz
    have hsame : SameZone c0 (c.restoreLength blksize) := h.same
    refine ⟨UpTop.of_init hz hdir hsame hlen hshort.2, .inr ?_⟩
    rw [initBlkno_up hz hdir hsame hlen]

end

end

/-!
# Direction DOWN
-/

def topPosition (c : BlkContext) : Int :=
  c.maxBlkno + 1 - c.numBlks

structure DownTop (c0 c : BlkContext) (pos : Int) : Prop where
  same : SameZone c0 c
  length : FullLength c0 c
  blkno0 : c.blkno0 = u64 pos
  blkno2 : c.blkno2 = u64 pos
  low : - 2 ^ 32 ≤ pos
  position : pos = topPosition c0 ∨
    ((c0.minBlkno : Int) ≤ pos + c0.numBlks ∧ pos + c0.numBlks ≤ topPosition c0)

structure DownLocked (c0 c : BlkContext) : Prop extends InZone c0 c where
  blkno2 : c.blkno2 = c.blkno0

section

variable {blksize : Nat} {c0 c : BlkContext} {pos : Int}

section

variable (hz : EdgeZone blksize c0) (hdir : c0.direction = .down) (h : SameZone c0 c)
  (hnum : c.numBlks = c0.numBlks)

include hz hdir h hnum

theorem initBlkno_down : c.initBlkno =
      { c with blkno0 := u64 (topPosition c0), blkno2 := u64 (topPosition c0),
               blkno1 := u64 (u64 (topPosition c0) + c0.numBlks) } := by
  have hblk := h.initBlk hz hnum
  have hd := h.direction.trans hdir
  unfold initBlkno
  rw [hblk, hz.edgeDown hdir]
  simp only [hd, hnum]
  rfl

theorem DownTop.of_init (hdlen : c.dlen = c0.dlen) :
    DownTop c0 { c.initBlkno with doPartial := 0 } (topPosition c0) := by
  rw [initBlkno_down hz hdir h hnum]
  have hlt := hz.numBlks_lt
  refine ⟨h, ⟨rfl, hnum, hdlen⟩, rfl, rfl, ?_, .inl rfl⟩
  unfold topPosition
  omega

end

theorem DownTop.high (h : DownTop c0 c pos) : pos + c0.numBlks ≤ (c0.maxBlkno : Int) + 1 := by
  have hpos := h.position
  unfold topPosition at hpos
  omega

section

variable (hz : EdgeZone blksize c0)

include hz

theorem DownTop.wrap (hdir : c0.direction = .down)
    (h : DownTop c0 c pos) :
    c.wrap =
      if (c0.minBlkno : Int) ≤ pos then none
      else some (if pos + c0.numBlks ≤ c0.minBlkno then 2 else 1) := by
  have hbound := hz.bound
  have hord := hz.ordered
  have hpos := hz.numBlks_pos
  have hwrites := hz.numWrites
  have hlow := h.low
  have hhigh := h.high
  have hnum := h.length.2.1
  have hmin := h.same.minBlkno
  have honce : ¬ (1 < c0.numWrites ∧ c.increment = -1) := by omega
  rw [wrap_down_eq (h.same.direction.trans hdir) h.blkno2 (by omega) (by omega) (by omega)
    (by omega), hnum, hmin, h.same.numWrites]
  simp only [honce, false_or]

theorem DownTop.locked (h : DownTop c0 c pos)
    (hfits : (c0.minBlkno : Int) ≤ pos) :
    DownLocked c0 c ∧ (c.blkno0 : Int) = pos := by
  have hbound := hz.bound
  have hhigh := h.high
  have hnum := h.length.2.1
  have hnat : u64 pos = pos.toNat := u64_eq (by omega) (by omega)
  have hblk := h.blkno0
  rw [hnat] at hblk
  refine ⟨⟨⟨h.same, .inl h.length, ?_, ?_, ?_⟩, ?_⟩, ?_⟩
  · rw [hnum]
    exact hz.numBlks_pos
  · omega
  · omega
  · rw [h.blkno2, h.blkno0]
  · omega

theorem DownTop.check (hdir : c0.direction = .down)
    (h : DownTop c0 c pos) :
    DownLocked c0 (c.doBoundaryCheck blksize) ∧
      (((c.doBoundaryCheck blksize).blkno0 + (c.doBoundaryCheck blksize).numBlks : Int) =
          pos + c0.numBlks ∨
        (c.doBoundaryCheck blksize).blkno0 + (c.doBoundaryCheck blksize).numBlks =
          c0.maxBlkno + 1) := by
  have hd := h.same.direction.trans hdir
  have hmin := h.same.minBlkno
  have hwrap := h.wrap hz hdir
  have hnum := h.length.2.1
  by_cases hfits : (c0.minBlkno : Int) ≤ pos
  · rw [if_pos hfits] at hwrap
    rw [doBoundaryCheck_none (.inr hd) hwrap]
    rcases h.locked hz hfits with ⟨hlocked, hblk⟩
    exact ⟨hlocked, .inl (by rw [hblk, hnum])⟩
  · rw [if_neg hfits] at hwrap
    by_cases hpast : pos + c0.numBlks ≤ c0.minBlkno
    · rw [if_pos hpast] at hwrap
      rw [doBoundaryCheck_restart (.inr hd) hwrap]
      have hsame : SameZone c0 { c with doPartial := 2 } := h.same
      have htop := DownTop.of_init hz hdir hsame hnum h.length.2.2
      have hposition := h.position
      have hord := hz.ordered
      have hlow : (c0.minBlkno : Int) ≤ topPosition c0 := by
        unfold topPosition at hposition ⊢
        omega
      rcases htop.locked hz hlow with ⟨hlocked, hblk⟩
      refine ⟨hlocked, .inr ?_⟩
      have hnum' := htop.length.2.1
      rw [hnum']
      unfold topPosition at hblk
      omega
    · rw [if_neg hpast] at hwrap
      rw [doBoundaryCheck_shorten (.inr hd) hwrap]
      have hbound := hz.bound
      have hord := hz.ordered
      have hlt := hz.numBlks_lt
      have hlow := h.low
      have hhigh := h.high
      rw [partialTransfer_down (c := { c with doPartial := 1 }) hd h.blkno2
        (by dsimp only; omega) (by dsimp only; omega) (by dsimp only; omega)]
      refine ⟨⟨⟨h.same, .inr ⟨rfl, h.length.2.2⟩, ?_, ?_, ?_⟩, rfl⟩, .inl ?_⟩
      all_goals
        dsimp only
        omega

theorem DownLocked.next (hdir : c0.direction = .down)
    (h : DownLocked c0 c) (hround : Unrounded c) :
    exists pos', DownTop c0 (c.setBlkno blksize) pos' ∧
      (pos' + c0.numBlks = c.blkno0 ∨ pos' = topPosition c0) := by
  have hd := h.same.direction.trans hdir
  have hhop := h.same.blkHop.trans hz.blkHop
  have hlt := hz.numBlks_lt
  have hhigh := h.high
  have hlow := h.low
  unfold setBlkno
  rcases h.length with hfull | hshort
  · have hnext : c.nextDown = u64 (c.blkno0 - c0.numBlks) := by
      unfold nextDown
      rw [hhop, h.blkno2, hfull.2.1, Int.sub_zero]
    rw [if_neg (by rw [hfull.1]; decide), hround.alignDown hd, hnext]
    simp only [hd]
    have hnum := hfull.2.1
    refine ⟨c.blkno0 - c0.numBlks, ⟨h.same, hfull, rfl, rfl, ?_, .inr ?_⟩, .inl ?_⟩
    · omega
    · unfold topPosition
      omega
    · omega
  · rw [if_pos hshort.1]
    have hlen := hshort.restored hz
    have hsame : SameZone c0 (c.restoreLength blksize) := h.same
    exact ⟨topPosition c0, DownTop.of_init hz hdir hsame hlen hshort.2, .inr rfl⟩

end

end

end Htx.Hxestorage
