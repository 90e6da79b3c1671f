import Htx.Hxestorage.SequentialInOut
import Htx.Hxestorage.SeedReplay

/-!
# Sequential threads of variable length

A thread that goes UP or DOWN with a length that `random_dlen` changes stays in its range
as long as it goes on or is cut off.
-/

namespace Htx.Hxestorage

open BlkContext SeedThread

structure VariableRun (blksize : Nat) (c : BlkContext) : Prop extends BlockRange c where
  upDown : c.direction = .up ∨ c.direction = .down
  increment : c.increment ≠ 0
  hop_nonneg : 0 ≤ c.blkHop
  hop_lt : c.blkHop < 2 ^ 31
  fits : c.numBlks ≤ c.maxBlkno - c.minBlkno + 1
  numBlks : c.numBlks = u32 (c.dlen / blksize : Nat)
  first : c.firstBlk = c.setFirstBlk
  fresh : c.doPartial = 0

def BlkContext.RoomAtStart (c : BlkContext) : Prop :=
  match c.direction with
  | .down =>
    if c.increment = -1 then c.numBlks ≤ c.maxBlkno - c.minBlkno + 1
    else c.firstBlk + c.numBlks ≤ c.maxBlkno + 1
  | _ => c.startBlk + c.numBlks ≤ c.maxBlkno + 1

structure BlkContext.RestartFits (c : BlkContext) : Prop where
  pos : 0 < c.numBlks
  restart : c.wrap = some 2 -> c.RoomAtStart

/-- In front of `set_blkno`: behind a transfer that was cut off, a thread with steps of a
fixed size finds room for the saved length at the first block. -/
def BlkContext.ResumeFits (blksize : Nat) (c : BlkContext) : Prop :=
  c.direction = .down -> c.doPartial = 1 -> c.increment ≠ -1 ->
    c.firstBlk + u32 (c.savedDlen / blksize : Nat) ≤ c.maxBlkno + 1

structure VarTop (blksize : Nat) (c0 c : BlkContext) : Prop where
  same : SameZone c0 c
  doPartial : c.doPartial = 0
  numBlks : c.numBlks = u32 (c.dlen / blksize : Nat)
  up : c0.direction = .up -> c0.startBlk ≤ c.blkno0 ∧
    c.blkno0 ≤ c0.maxBlkno + 1 + c0.blkHop.toNat ∧ c.blkno1 = c.blkno0 ∧
    c.blkno2 = c.blkno0 + c.numBlks
  down : c0.direction = .down -> exists pos : Int, c.blkno0 = u64 pos ∧ c.blkno2 = u64 pos ∧
    - 2 ^ 33 ≤ pos ∧ pos + c.numBlks ≤ c0.maxBlkno + 1

structure VarIo (blksize : Nat) (c0 c : BlkContext) : Prop where
  same : SameZone c0 c
  length : c.doPartial = 0 ∨ c.doPartial = 1 ∧ 0 < u32 (c.savedDlen / blksize : Nat)
  pos : 0 < c.numBlks
  low : c0.minBlkno ≤ c.blkno0
  high : c.blkno0 + c.numBlks ≤ c0.maxBlkno + 1
  up : c0.direction = .up -> c0.startBlk ≤ c.blkno0 ∧ c.blkno2 = c.blkno0 + c.numBlks
  down : c0.direction = .down -> c.blkno2 = c.blkno0

theorem u32_lt (x : Int) : u32 x < 2 ^ 32 := by
  unfold u32
  omega

section

variable {blksize : Nat} {c0 c : BlkContext}

theorem VarTop.direction (hz : VariableRun blksize c0) (h : VarTop blksize c0 c) :
    c.direction = .up ∨ c.direction = .down := by
  rw [h.same.direction]
  exact hz.upDown

theorem VarTop.numBlks_lt (h : VarTop blksize c0 c) : c.numBlks < 2 ^ 32 := by
  rw [h.numBlks]
  exact u32_lt _

theorem VariableRun.range (hz : VariableRun blksize c0) (h : SameZone c0 c) : BlockRange c := by
  have hrange := hz.toBlockRange
  refine ⟨?_, ?_, ?_, ?_⟩
  · rw [h]
    exact hrange.lbaAlign
  · rw [h]
    exact hrange.ordered
  · rw [h]
    exact hrange.bound
  · rw [h]
    exact hrange.start

theorem SameZone.startBlk (h : SameZone c0 c) : c.startBlk = c0.startBlk := by
  unfold BlkContext.startBlk
  rw [h]

theorem VariableRun.firstBlk_down (hz : VariableRun blksize c0) (hdir : c0.direction = .down)
    (hpos : 0 < c0.numBlks) :
    c0.firstBlk = c0.topEnd - c0.numBlks ∧ c0.minBlkno ≤ c0.firstBlk ∧
      c0.firstBlk ≤ c0.maxBlkno := by
  have hlow := hz.min_le_startBlk
  have hfits := hz.fits
  have hordered := hz.ordered
  have hbound := hz.bound
  have hlt : c0.numBlks < 2 ^ 32 := by
    rw [hz.numBlks]
    exact u32_lt _
  have htop : c0.numBlks ≤ c0.topEnd ∧ c0.topEnd ≤ c0.maxBlkno + 1 ∧
      c0.minBlkno + c0.numBlks ≤ c0.topEnd := by
    unfold topEnd
    omega
  rw [hz.first, hz.setFirstBlk_down hdir hpos hlt]
  have hfirst : u64 ((c0.topEnd : Int) - c0.numBlks) = c0.topEnd - c0.numBlks :=
    u64_eq (by omega) (by omega)
  rw [hfirst]
  omega

def BlkContext.initBlk (c : BlkContext) : Nat :=
  if c.doPartial ≠ 0 ∧ c.increment = -1 then c.setFirstBlk else c.firstBlk

theorem initBlkno_of_up (hdir : c.direction = .up) :
    c.initBlkno = { c with
      blkno0 := c.initBlk, blkno1 := c.initBlk, blkno2 := u64 (c.initBlk + c.numBlks) } := by
  unfold BlkContext.initBlkno BlkContext.initBlk
  simp only [hdir]

theorem initBlkno_of_down (hdir : c.direction = .down) :
    c.initBlkno = { c with
      blkno0 := c.initBlk, blkno2 := c.initBlk, blkno1 := u64 (c.initBlk + c.numBlks) } := by
  unfold BlkContext.initBlkno BlkContext.initBlk
  simp only [hdir]

section

variable (hz : VariableRun blksize c0)

include hz

theorem VariableRun.initBlk_up (hdir : c0.direction = .up)
    (h : SameZone c0 c) : c.initBlk = c0.startBlk := by
  have hd := h.direction.trans hdir
  have hfirst := h.firstBlk
  unfold initBlk
  rw [(hz.range h).setFirstBlk_up hd, h.startBlk, hfirst, hz.first, hz.setFirstBlk_up hdir,
    ite_self]

theorem VariableRun.initBlk_down (hdir : c0.direction = .down)
    (h : SameZone c0 c) (hpos : 0 < c.numBlks) (hlt : c.numBlks < 2 ^ 32)
    (hroom : c.doPartial = 0 ∨ c.increment ≠ -1 -> c.firstBlk + c.numBlks ≤ c0.maxBlkno + 1) :
    exists pos : Int, c.initBlk = u64 pos ∧ - 2 ^ 33 ≤ pos ∧ pos + c.numBlks ≤ c0.maxBlkno + 1 := by
  have hd := h.direction.trans hdir
  have hmax := h.maxBlkno
  have hbound := hz.bound
  unfold initBlk
  by_cases hnew : c.doPartial ≠ 0 ∧ c.increment = -1
  · refine ⟨(c.topEnd : Int) - c.numBlks, ?_, ?_, ?_⟩
    · rw [if_pos hnew, (hz.range h).setFirstBlk_down hd hpos hlt]
    · omega
    · have htop : c.topEnd ≤ c.maxBlkno + 1 := min_le_right _ _
      omega
  · have hfirst := h.firstBlk
    refine ⟨c.firstBlk, ?_, by omega, by omega⟩
    rw [if_neg hnew]
    exact (u64_eq rfl (by omega)).symm

theorem VarTop.of_init (h : SameZone c0 c)
    (hnum : c.numBlks = u32 (c.dlen / blksize : Nat)) (hpos : 0 < c.numBlks)
    (hroom : c0.direction = .down -> c.doPartial = 0 ∨ c.increment ≠ -1 ->
      c.firstBlk + c.numBlks ≤ c0.maxBlkno + 1) :
    VarTop blksize c0 { c.initBlkno with doPartial := 0 } := by
  have hlt : c.numBlks < 2 ^ 32 := by
    rw [hnum]
    exact u32_lt _
  have hbound := hz.bound
  have hhigh := hz.startBlk_le_max
  rcases hz.upDown with hdir | hdir
  · have hd := h.direction.trans hdir
    have hblk := hz.initBlk_up hdir h
    have hend : u64 ((c0.startBlk : Int) + c.numBlks) = c0.startBlk + c.numBlks :=
      u64_eq (by omega) (by omega)
    rw [initBlkno_of_up hd, hblk, hend]
    refine ⟨h, rfl, hnum, fun _ => ⟨le_rfl, by dsimp only; omega, rfl, rfl⟩, ?_⟩
    intro hdown
    rw [hdir] at hdown
    cases hdown
  · have hd := h.direction.trans hdir
    rcases hz.initBlk_down hdir h hpos hlt (hroom hdir) with ⟨pos, hblk, hlow, hfits⟩
    rw [initBlkno_of_down hd, hblk]
    refine ⟨h, rfl, hnum, ?_, fun _ => ⟨pos, rfl, rfl, hlow, hfits⟩⟩
    intro hup
    rw [hdir] at hup
    cases hup

end

/-!
# The boundary check
-/

section

variable (hz : VariableRun blksize c0)

include hz

theorem VarTop.wrap_up (hdir : c0.direction = .up)
    (h : VarTop blksize c0 c) (hpos : 0 < c.numBlks) :
    c.wrap =
      if c.blkno0 + c.numBlks ≤ c0.maxBlkno + 1 then none
      else some (if (1 < c.numWrites ∧ c.increment = -1) ∨ c0.maxBlkno < c.blkno0
        then 2 else 1) := by
  have hd := h.same.direction.trans hdir
  have hmax := h.same.maxBlkno
  have hlt := h.numBlks_lt
  have hbound := hz.bound
  have hhop := hz.hop_lt
  rcases h.up hdir with ⟨_, hhigh, hblk1, _⟩
  rw [wrap_up_eq hd hpos (by omega), hblk1, hmax]

theorem VarTop.check_up (hdir : c0.direction = .up)
    (h : VarTop blksize c0 c) (hr : c.RestartFits) :
    VarIo blksize c0 (c.doBoundaryCheck blksize) := by
  have hd := h.same.direction.trans hdir
  have hmax := h.same.maxBlkno
  have hlow := hz.min_le_startBlk
  have hlt := h.numBlks_lt
  have hbound := hz.bound
  have hpos := hr.pos
  have hwrap := h.wrap_up hz hdir hpos
  have hnot : c0.direction = .down -> False := fun hdown => by
    rw [hdir] at hdown
    cases hdown
  rcases h.up hdir with ⟨hstart, hhigh, hblk1, hblk2⟩
  by_cases hfits : c.blkno0 + c.numBlks ≤ c0.maxBlkno + 1
  · rw [if_pos hfits] at hwrap
    rw [doBoundaryCheck_none (.inl hd) hwrap]
    exact ⟨h.same, .inl h.doPartial, hpos, hlow.trans hstart, hfits, fun _ => ⟨hstart, hblk2⟩,
      fun hdown => (hnot hdown).elim⟩
  · rw [if_neg hfits] at hwrap
    by_cases hagain : (1 < c.numWrites ∧ c.increment = -1) ∨ c0.maxBlkno < c.blkno0
    · rw [if_pos hagain] at hwrap
      have hroom := hr.restart hwrap
      unfold RoomAtStart at hroom
      rw [hd] at hroom
      rw [h.same.startBlk, hmax] at hroom
      have hend : u64 ((c0.startBlk : Int) + c.numBlks) = c0.startBlk + c.numBlks :=
        u64_eq (by omega) (by omega)
      have hblk := @VariableRun.initBlk_up blksize c0 { c with doPartial := 2 } hz hdir h.same
      rw [doBoundaryCheck_restart (.inl hd) hwrap]
      rw [@initBlkno_of_up { c with doPartial := 2 } hd, hblk, hend]
      exact ⟨h.same, .inl rfl, hpos, hlow, hroom, fun _ => ⟨le_rfl, rfl⟩,
        fun hdown => (hnot hdown).elim⟩
    · rw [if_neg hagain] at hwrap
      rw [doBoundaryCheck_shorten (.inl hd) hwrap]
      have hin : c.blkno0 ≤ c0.maxBlkno := Nat.le_of_not_lt fun h => hagain (.inr h)
      rw [partialTransfer_up (c := { c with doPartial := 1 }) hd hblk1 (by dsimp only; omega)
        (by dsimp only; omega) (by dsimp only; omega)]
      refine ⟨h.same, .inr ⟨rfl, h.numBlks ▸ hpos⟩, ?_, hlow.trans hstart, ?_,
        fun _ => ⟨hstart, ?_⟩, fun hdown => (hnot hdown).elim⟩
      all_goals
        dsimp only
        omega

theorem VariableRun.restart_down (hdir : c0.direction = .down)
    (hpos0 : 0 < c0.numBlks) (h : SameZone c0 c) (hpos : 0 < c.numBlks) (hlt : c.numBlks < 2 ^ 32)
    (hshort : c.doPartial ≠ 0) (hroom : c.RoomAtStart) :
    c0.minBlkno ≤ c.initBlk ∧ c.initBlk + c.numBlks ≤ c0.maxBlkno + 1 := by
  have hd := h.direction.trans hdir
  have hmax := h.maxBlkno
  have hmin := h.minBlkno
  have hbound := hz.bound
  have hordered := hz.ordered
  unfold RoomAtStart at hroom
  rw [hd] at hroom
  unfold initBlk
  by_cases hrandom : c.increment = -1
  · rw [if_pos hrandom] at hroom
    rw [if_pos ⟨hshort, hrandom⟩, (hz.range h).setFirstBlk_down hd hpos hlt]
    have hlow := (hz.range h).min_le_startBlk
    have htop : c.numBlks ≤ c.topEnd ∧ c.topEnd ≤ c0.maxBlkno + 1 ∧
        c0.minBlkno + c.numBlks ≤ c.topEnd := by
      unfold topEnd
      omega
    have hblk : u64 ((c.topEnd : Int) - c.numBlks) = c.topEnd - c.numBlks :=
      u64_eq (by omega) (by omega)
    rw [hblk]
    omega
  · rw [if_neg hrandom] at hroom
    rw [if_neg fun hnew => hrandom hnew.2]
    have hfirst := h.firstBlk
    have hdown := hz.firstBlk_down hdir hpos0
    omega

theorem VarTop.wrap_down (h : VarTop blksize c0 c)
    (hdir : c0.direction = .down) {pos : Int} (hblk : c.blkno2 = u64 pos)
    (hlow : - 2 ^ 33 ≤ pos) (hhigh : pos + c.numBlks ≤ c0.maxBlkno + 1) (hpos : 0 < c.numBlks) :
    c.wrap =
      if (c0.minBlkno : Int) ≤ pos then none
      else some (if (1 < c.numWrites ∧ c.increment = -1) ∨ pos + c.numBlks ≤ c0.minBlkno
        then 2 else 1) := by
  have hd := h.same.direction.trans hdir
  have hmin := h.same.minBlkno
  have hbound := hz.bound
  have hordered := hz.ordered
  rw [wrap_down_eq hd hblk hpos (by omega) (by omega) (by omega), hmin]

theorem VarTop.check_down (hdir : c0.direction = .down)
    (hpos0 : 0 < c0.numBlks) (h : VarTop blksize c0 c) (hr : c.RestartFits) :
    VarIo blksize c0 (c.doBoundaryCheck blksize) := by
  have hd := h.same.direction.trans hdir
  have hmin := h.same.minBlkno
  have hlt := h.numBlks_lt
  have hbound := hz.bound
  have hpos := hr.pos
  have hnot : c0.direction = .up -> False := fun hup => by
    rw [hdir] at hup
    cases hup
  rcases h.down hdir with ⟨pos, hblk0, hblk2, hlow, hhigh⟩
  have hwrap := h.wrap_down hz hdir hblk2 hlow hhigh hpos
  by_cases hin : (c0.minBlkno : Int) ≤ pos
  · rw [if_pos hin] at hwrap
    rw [doBoundaryCheck_none (.inr hd) hwrap]
    have hnat : u64 pos = pos.toNat := u64_eq (by omega) (by omega)
    refine ⟨h.same, .inl h.doPartial, hpos, ?_, ?_, fun hup => (hnot hup).elim, fun _ => ?_⟩
    · rw [hblk0, hnat]
      omega
    · rw [hblk0, hnat]
      omega
    · rw [hblk0, hblk2]
  · rw [if_neg hin] at hwrap
    by_cases hagain : (1 < c.numWrites ∧ c.increment = -1) ∨ pos + c.numBlks ≤ c0.minBlkno
    · rw [if_pos hagain] at hwrap
      have hroom := @VariableRun.restart_down blksize c0 { c with doPartial := 2 } hz hdir hpos0
        h.same hpos hlt (show 2 ≠ 0 by decide) (hr.restart hwrap)
      rw [doBoundaryCheck_restart (.inr hd) hwrap]
      rw [@initBlkno_of_down { c with doPartial := 2 } hd]
      exact ⟨h.same, .inl rfl, hpos, hroom.1, hroom.2, fun hup => (hnot hup).elim, fun _ => rfl⟩
    · rw [if_neg hagain] at hwrap
      rw [doBoundaryCheck_shorten (.inr hd) hwrap]
      rw [partialTransfer_down (c := { c with doPartial := 1 }) hd hblk2 (by dsimp only; omega)
        (by dsimp only; omega) hlt]
      refine ⟨h.same, .inr ⟨rfl, h.numBlks ▸ hpos⟩, ?_, ?_, ?_, fun hup => (hnot hup).elim,
        fun _ => rfl⟩
      all_goals
        dsimp only
        omega

theorem VarTop.check (hpos0 : 0 < c0.numBlks)
    (h : VarTop blksize c0 c) (hr : c.RestartFits) :
    VarIo blksize c0 (c.doBoundaryCheck blksize) := by
  rcases hz.upDown with hdir | hdir
  · exact h.check_up hz hdir hr
  · exact h.check_down hz hdir hpos0 hr

theorem VarTop.restartFits_of_inRange (h : VarTop blksize c0 c)
    (hpos : 0 < c.numBlks) (hin : InRange c0 (c.doBoundaryCheck blksize)) : c.RestartFits := by
  refine ⟨hpos, fun hwrap => ?_⟩
  have hmax := h.same.maxBlkno
  have hmin := h.same.minBlkno
  unfold InRange at hin
  unfold RoomAtStart
  rw [doBoundaryCheck_restart (h.direction hz) hwrap] at hin
  rcases hz.upDown with hdir | hdir
  · have hd := h.same.direction.trans hdir
    have hblk := @VariableRun.initBlk_up blksize c0 { c with doPartial := 2 } hz hdir h.same
    rw [@initBlkno_of_up { c with doPartial := 2 } hd, hblk] at hin
    dsimp only at hin
    rw [hd, h.same.startBlk, hmax]
    omega
  · have hd := h.same.direction.trans hdir
    rw [@initBlkno_of_down { c with doPartial := 2 } hd] at hin
    unfold initBlk at hin
    dsimp only at hin
    rw [hd, hmax, hmin]
    dsimp only
    by_cases hrandom : c.increment = -1
    · rw [if_pos hrandom]
      omega
    · rw [if_neg fun hnew => hrandom hnew.2] at hin
      rw [if_neg hrandom]
      omega

end

/-!
# From transfer to transfer
-/

theorem VarIo.next (hz : VariableRun blksize c0)
    (h : VarIo blksize c0 c) (dlen : Nat) {c' : BlkContext}
    (hc' : c' = { c with dlen := dlen, numBlks := u32 (dlen / blksize : Nat) })
    (hr : c'.ResumeFits blksize) : VarTop blksize c0 (c'.setBlkno blksize) := by
  have hlt : c'.numBlks < 2 ^ 32 := by
    rw [hc']
    exact u32_lt (dlen / blksize : Nat)
  have hbound := hz.bound
  have hhop0 := hz.hop_nonneg
  have hhop := hz.hop_lt
  have hsame : SameZone c0 c' := by
    rw [hc']
    exact h.same
  have hshort : c'.doPartial = c.doPartial := by rw [hc']
  have hblkhop := hsame.blkHop
  have hhigh := h.high
  unfold BlkContext.setBlkno
  by_cases hcut : c'.doPartial = 1
  · rw [if_pos hcut]
    have hsaved : 0 < u32 (c'.savedDlen / blksize : Nat) := by
      rw [hc']
      rcases h.length with hfull | hshort
      · rw [hshort, hfull] at hcut
        cases hcut
      · exact hshort.2
    refine VarTop.of_init hz (c := c'.restoreLength blksize) hsame rfl hsaved ?_
    intro hdir hfixed
    have hd := hsame.direction.trans hdir
    have hmax := hsame.maxBlkno
    have hroom := hr hd hcut (hfixed.resolve_left fun hzero => by
      change c'.doPartial = 0 at hzero
      omega)
    rw [hmax] at hroom
    exact hroom
  · rw [if_neg hcut]
    have hfull : c'.doPartial = 0 := by
      rw [hshort] at hcut ⊢
      exact h.length.resolve_right fun hshort => hcut hshort.1
    have hnum : c'.numBlks = u32 (c'.dlen / blksize : Nat) := by rw [hc']
    rcases hz.upDown with hdir | hdir
    · have hd := hsame.direction.trans hdir
      rcases h.up hdir with ⟨hstart, hblk2⟩
      have hblk : c'.blkno2 = c.blkno0 + c.numBlks := by
        rw [hc']
        exact hblk2
      have hnext : c'.nextUp = c.blkno0 + c.numBlks + c0.blkHop.toNat := by
        unfold nextUp
        rw [hblk, hblkhop]
        exact u64_eq (by omega) (by omega)
      have hend : u64 ((c.blkno0 + c.numBlks + c0.blkHop.toNat : Nat) + c'.numBlks) =
          c.blkno0 + c.numBlks + c0.blkHop.toNat + c'.numBlks := u64_eq (by omega) (by omega)
      simp only [hd, (hz.range hsame).alignUp, hnext, hend]
      refine ⟨hsame, hfull, hnum, fun _ => ⟨?_, ?_, rfl, rfl⟩, ?_⟩
      · dsimp only
        omega
      · dsimp only
        omega
      · intro hdown
        rw [hdir] at hdown
        cases hdown
    · have hd := hsame.direction.trans hdir
      have hblk : c'.blkno2 = c.blkno0 := by
        rw [hc']
        exact h.down hdir
      simp only [hd, (hz.range hsame).alignDown]
      refine ⟨hsame, hfull, hnum, ?_, fun _ =>
        ⟨(c.blkno0 : Int) - c'.numBlks - c0.blkHop, ?_, ?_, ?_, ?_⟩⟩
      · intro hup
        rw [hdir] at hup
        cases hup
      · dsimp only
        rw [nextDown, hblk, hblkhop]
      · dsimp only
        rw [nextDown, hblk, hblkhop]
      · omega
      · dsimp only
        omega

theorem resumeFits_of_inRange (hz : VariableRun blksize c0) (hpos0 : 0 < c0.numBlks)
    (h : SameZone c0 c) (hin : InRange c0 ((c.setBlkno blksize).doBoundaryCheck blksize)) :
    c.ResumeFits blksize := by
  intro hd hcut hfixed
  have hdir := h.direction.symm.trans hd
  have hmax := h.maxBlkno
  have hmin := h.minBlkno
  have hfirst := h.firstBlk
  have hdown := hz.firstBlk_down hdir hpos0
  have hbound := hz.bound
  have hblk : (c.restoreLength blksize).initBlk = c0.firstBlk := by
    unfold initBlk
    rw [if_neg fun hnew => hfixed hnew.2]
    exact hfirst
  have hset : c.setBlkno blksize = { c.restoreLength blksize with
      blkno0 := c0.firstBlk, blkno2 := c0.firstBlk,
      blkno1 := u64 (c0.firstBlk + u32 (c.savedDlen / blksize : Nat)), doPartial := 0 } := by
    unfold BlkContext.setBlkno
    rw [if_pos hcut, @initBlkno_of_down (c.restoreLength blksize) hd, hblk]
    rfl
  -- the first block lies in the range, so the check does nothing
  have hwrap : (c.setBlkno blksize).wrap = none := by
    rw [hset]
    refine wrap_none_of_down hd ?_ ?_
    · change ¬ c0.firstBlk < c.minBlkno
      omega
    · change ¬ signed64 c0.firstBlk < 0
      rw [signed64_eq (by omega)]
      omega
  have hdir' : (c.setBlkno blksize).direction = .down := by
    rw [hset]
    exact hd
  rw [doBoundaryCheck_none (.inr hdir') hwrap, hset] at hin
  have hlast : c0.firstBlk + u32 (c.savedDlen / blksize : Nat) - 1 ≤ c0.maxBlkno := hin.2
  rw [hfirst, hmax]
  omega

end

/-!
# Runs
-/

section

variable {Seed : Type} (env : SeedEnv Seed)

def SeedThread.variableStep (th : SeedThread Seed) : Option (SeedThread Seed) :=
  (randomDlen env (boundaryCheck env th)).map (setBlkno env)

structure VariableTrace (th0 : SeedThread Seed) (tops : Nat -> SeedThread Seed) : Prop where
  run : VariableRun env.blksize th0.blk
  init : tops 0 = th0.initBlkno
  next : forall i, (tops i).variableStep env = some (tops (i + 1))

def TransferInRange (th0 th : SeedThread Seed) : Prop :=
  0 < th.blk.numBlks ∧ InRange th0.blk (boundaryCheck env th).blk

def StepFits (th : SeedThread Seed) : Prop :=
  th.blk.RestartFits ∧
    forall drawn, randomDlen env (boundaryCheck env th) = some drawn ->
      drawn.blk.ResumeFits env.blksize

variable {env} {th0 : SeedThread Seed} {tops : Nat -> SeedThread Seed}

theorem randomDlen_blk {th th' : SeedThread Seed} (h : randomDlen env th = some th') :
    exists dlen, th'.blk =
      { th.blk with dlen := dlen, numBlks := u32 (dlen / env.blksize : Nat) } := by
  unfold randomDlen at h
  split at h
  · rcases Option.map_eq_some_iff.mp h with ⟨⟨dlen, seed⟩, _, rfl⟩
    exact ⟨dlen, rfl⟩
  · cases h
    exact ⟨_, rfl⟩

section

variable (h : VariableTrace env th0 tops)

include h

theorem VariableTrace.varTop_zero (hpos0 : 0 < th0.blk.numBlks) :
    VarTop env.blksize th0.blk (tops 0).blk := by
  have hz := h.run
  have htop := VarTop.of_init hz (c := th0.blk) rfl hz.numBlks hpos0 fun hdir _ => by
    have hdown := hz.firstBlk_down hdir hpos0
    have hend : th0.blk.topEnd ≤ th0.blk.maxBlkno + 1 := min_le_right _ _
    have hfits := hz.fits
    omega
  have hsame : { th0.blk.initBlkno with doPartial := 0 } = th0.blk.initBlkno := by
    rcases initBlkno_frame th0.blk with ⟨blk0, blk1, blk2, heq⟩
    rw [heq, ← hz.fresh]
  rw [hsame] at htop
  rw [h.init]
  exact htop

theorem VariableTrace.drawn (i : Nat) :
    exists drawn, randomDlen env (boundaryCheck env (tops i)) = some drawn ∧
      (tops (i + 1)).blk = drawn.blk.setBlkno env.blksize := by
  rcases Option.map_eq_some_iff.mp (h.next i) with ⟨drawn, hdrawn, hset⟩
  refine ⟨drawn, hdrawn, ?_⟩
  rw [← hset]
  rfl

variable (hpos0 : 0 < th0.blk.numBlks)

section

variable {i : Nat} (htop : VarTop env.blksize th0.blk (tops i).blk)

include hpos0 htop

theorem VariableTrace.varTop_succ (hfits : StepFits env (tops i)) :
    VarTop env.blksize th0.blk (tops (i + 1)).blk := by
  have hio := htop.check h.run hpos0 hfits.1
  rcases h.drawn i with ⟨drawn, hdrawn, hset⟩
  rcases randomDlen_blk hdrawn with ⟨dlen, hblk⟩
  rw [hset]
  exact hio.next h.run dlen hblk (hfits.2 drawn hdrawn)

theorem VariableTrace.stepFits
    (hin : TransferInRange env th0 (tops i)) (hnext : TransferInRange env th0 (tops (i + 1))) :
    StepFits env (tops i) := by
  have hrestart := htop.restartFits_of_inRange h.run hin.1 hin.2
  have hio := htop.check h.run hpos0 hrestart
  rcases h.drawn i with ⟨drawn, hdrawn, hset⟩
  refine ⟨hrestart, fun drawn' hdrawn' => ?_⟩
  rw [hdrawn] at hdrawn'
  cases hdrawn'
  rcases randomDlen_blk hdrawn with ⟨dlen, hblk⟩
  have hsame : SameZone th0.blk drawn.blk := by
    rw [hblk]
    exact hio.same
  have hrange := hnext.2
  change InRange th0.blk ((tops (i + 1)).blk.doBoundaryCheck env.blksize) at hrange
  rw [hset] at hrange
  exact resumeFits_of_inRange h.run hpos0 hsame hrange

end

theorem VariableTrace.varTop (hpos0 : 0 < th0.blk.numBlks)
    (hfits : forall i, VarTop env.blksize th0.blk (tops i).blk -> StepFits env (tops i)) (i : Nat) :
    VarTop env.blksize th0.blk (tops i).blk := by
  induction i with
  | zero => exact h.varTop_zero hpos0
  | succ i ih => exact h.varTop_succ hpos0 ih (hfits i ih)

end

theorem VarIo.inRange {blksize : Nat} {c0 c : BlkContext} (h : VarIo blksize c0 c) :
    InRange c0 c := by
  have hhigh := h.high
  exact ⟨h.low, by omega⟩

end

/-- Along a run every transfer lies in the range, exactly if every iteration finds room
wherever it starts again. -/
theorem variable_inRange_iff {Seed : Type} {env : SeedEnv Seed} {th0 : SeedThread Seed}
    {tops : Nat -> SeedThread Seed} (h : VariableTrace env th0 tops) :
    (forall i, TransferInRange env th0 (tops i)) <-> forall i, StepFits env (tops i) := by
  have hzero : (tops 0).blk.numBlks = th0.blk.numBlks := by
    rw [h.init]
    change th0.blk.initBlkno.numBlks = _
    rcases initBlkno_frame th0.blk with ⟨blk0, blk1, blk2, heq⟩
    rw [heq]
  constructor
  · intro hall
    have hpos0 : 0 < th0.blk.numBlks := hzero ▸ (hall 0).1
    have hstep := fun i htop => h.stepFits hpos0 htop (hall i) (hall (i + 1))
    exact fun i => hstep i (h.varTop hpos0 hstep i)
  · intro hall
    have hpos0 : 0 < th0.blk.numBlks := hzero ▸ (hall 0).1.pos
    have htops := h.varTop hpos0 fun i _ => hall i
    exact fun i => ⟨(hall i).1.pos, ((htops i).check h.run hpos0 (hall i).1).inRange⟩

/-!
# Lengths of one and two blocks
-/

def oneTwo (direction : Direction) (startingBlock : StartingBlock) (maxBlkno firstBlk : Nat)
    (numBlks blkno : Nat) : SeedThread Unit where
  oper := "R"
  ops := populateOperations "R"
  option := .default
  minLen := 512
  maxLen := 1024
  bwrcZoneIndex := -1
  blk :=
    { direction := direction
      startingBlock := startingBlock
      minBlkno := 0
      maxBlkno := maxBlkno
      increment := 512
      blkHop := 0
      lbaAlign := 0
      numWrites := 0
      firstBlk := firstBlk
      numBlks := numBlks
      dlen := numBlks * 512
      savedDlen := 0
      blkno0 := blkno
      blkno1 := blkno
      blkno2 := blkno + numBlks
      doPartial := 0 }
  seed := ()
  dataSeed := ()
  clock := 0

theorem oneTwo_run {direction : Direction} {startingBlock : StartingBlock}
    {maxBlkno firstBlk : Nat} (hdir : direction = .up ∨ direction = .down)
    (hstart : forall n, startingBlock ≠ .at n) (hmax : 0 < maxBlkno) (hbound : maxBlkno < 2 ^ 63)
    (hfirst : firstBlk = (oneTwo direction startingBlock maxBlkno firstBlk 1 0).blk.setFirstBlk) :
    VariableRun 512 (oneTwo direction startingBlock maxBlkno firstBlk 1 0).blk where
  lbaAlign := rfl
  ordered := hmax
  bound := hbound
  start := fun n h => absurd h (hstart n)
  upDown := hdir
  increment := show (512 : Int) ≠ 0 by decide
  hop_nonneg := le_rfl
  hop_lt := show (0 : Int) < 2 ^ 31 by decide
  fits := Nat.succ_le_succ (Nat.zero_le _)
  numBlks := show 1 = u32 ((1 * 512 / 512 : Nat) : Int) by decide
  first := hfirst
  fresh := rfl

def noDraws : SeedEnv Unit where
  nrand48 := fun _ => (0, ())
  blksize := 512
  totalBwrcThreads := 0

def threeBlockTops : Nat -> SeedThread Unit
  | 0 => oneTwo .up .bot 2 0 1 0
  | i + 1 => if i % 2 = 0 then oneTwo .up .bot 2 0 2 1 else oneTwo .up .bot 2 0 1 3

theorem threeBlockTops_succ (i : Nat) : threeBlockTops (i + 1) =
    if i % 2 = 0 then oneTwo .up .bot 2 0 2 1 else oneTwo .up .bot 2 0 1 3 := rfl

theorem threeBlockTops_trace : VariableTrace noDraws (oneTwo .up .bot 2 0 1 0) threeBlockTops where
  run := oneTwo_run (.inl rfl) (fun _ h => by cases h) (by decide) (by decide) rfl
  init := rfl
  next := by
    intro i
    cases i with
    | zero => rfl
    | succ i =>
      rw [threeBlockTops_succ, threeBlockTops_succ]
      rcases Nat.mod_two_eq_zero_or_one i with heven | hodd
      · rw [if_pos heven, if_neg (by omega)]
        rfl
      · rw [if_neg (by omega), if_pos (by omega)]
        rfl

theorem variable_inRange_three_blocks :
    VariableTrace noDraws (oneTwo .up .bot 2 0 1 0) threeBlockTops ∧
      forall i, TransferInRange noDraws (oneTwo .up .bot 2 0 1 0) (threeBlockTops i) := by
  refine ⟨threeBlockTops_trace, (variable_inRange_iff threeBlockTops_trace).mpr fun i => ?_⟩
  cases i with
  | zero =>
    refine ⟨⟨by decide, fun _ => show 0 + 1 ≤ 2 + 1 by decide⟩, fun drawn hdrawn hdown => ?_⟩
    cases hdrawn
    cases hdown
  | succ i =>
    rw [threeBlockTops_succ]
    split
    · refine ⟨⟨by decide, fun _ => show 0 + 2 ≤ 2 + 1 by decide⟩, fun drawn hdrawn hdown => ?_⟩
      cases hdrawn
      cases hdown
    · refine ⟨⟨by decide, fun _ => show 0 + 1 ≤ 2 + 1 by decide⟩, fun drawn hdrawn hdown => ?_⟩
      cases hdrawn
      cases hdown

def SeedThread.variableSteps {Seed : Type} (env : SeedEnv Seed) :
    Nat -> SeedThread Seed -> Option (SeedThread Seed)
  | 0, th => some th
  | k + 1, th => (variableSteps env k th).bind (variableStep env)

/-- UP from TOP the second transfer leaves the range, DOWN from TOP the eighth one: the
thread starts again at the block for one block, with two blocks. -/
theorem variable_leaves_range : VariableRun 512 (oneTwo .up .top 9 9 1 0).blk ∧
    (exists th, variableSteps noDraws 1 (oneTwo .up .top 9 9 1 0).initBlkno = some th ∧
      (boundaryCheck noDraws th).blk.blkno0 = 9 ∧
      (boundaryCheck noDraws th).blk.numBlks = 2) ∧
    VariableRun 512 (oneTwo .down .top 9 9 1 0).blk ∧
    (exists th, variableSteps noDraws 7 (oneTwo .down .top 9 9 1 0).initBlkno = some th ∧
      (boundaryCheck noDraws th).blk.blkno0 = 9 ∧
      (boundaryCheck noDraws th).blk.numBlks = 2) :=
  ⟨oneTwo_run (.inl rfl) (fun _ h => by cases h) (by decide) (by decide) (by decide),
    ⟨_, rfl, by decide +kernel, by decide +kernel⟩,
    oneTwo_run (.inr rfl) (fun _ h => by cases h) (by decide) (by decide) (by decide),
    ⟨_, rfl, by decide +kernel, by decide +kernel⟩⟩

end Htx.Hxestorage
