import Mathlib.Algebra.Order.Ring.Int
import Mathlib.Data.Int.Init

/-!
# Block positions of sequential threads

A sequential thread keeps three block numbers: the block of the current operation and the
low and high ends of what it has covered.
-/

namespace Htx.Hxestorage

open Int

def u64 (x : Int) : Nat :=
  (x % 2 ^ 64).toNat

def u32 (x : Int) : Nat :=
  (x % 2 ^ 32).toNat

def signed64 (x : Nat) : Int :=
  bmod x (2 ^ 64)

def signed32 (x : Nat) : Int :=
  bmod x (2 ^ 32)

inductive Direction where
  | up
  | down
  | inward
  | outward
  deriving DecidableEq

inductive StartingBlock where
  | bot
  | mid
  | top
  | at (n : Nat)
  deriving DecidableEq

structure BlkParams where
  direction : Direction
  startingBlock : StartingBlock
  minBlkno : Nat
  maxBlkno : Nat
  increment : Int
  blkHop : Int
  lbaAlign : Nat
  numWrites : Nat
  firstBlk : Nat
  deriving DecidableEq

structure BlkContext extends BlkParams where
  numBlks : Nat
  dlen : Nat
  savedDlen : Nat
  blkno0 : Nat
  blkno1 : Nat
  blkno2 : Nat
  doPartial : Nat
  deriving DecidableEq

namespace BlkContext

variable (blksize : Nat) (c : BlkContext)

def midBlk : Nat :=
  u64 (c.minBlkno + u64 (c.maxBlkno - c.minBlkno + 1) / 2)

def requestedBlk : Nat :=
  match c.startingBlock with
  | .bot => c.minBlkno
  | .mid => c.midBlk
  | .top => c.maxBlkno
  | .at n => u64 (n + c.minBlkno)

def alignUp (blk : Nat) : Nat :=
  if c.lbaAlign ≠ 0 ∧ blk % c.lbaAlign ≠ 0 then
    u64 (blk + (c.lbaAlign - blk % c.lbaAlign))
  else blk

def alignDown (blk : Nat) : Nat :=
  if c.lbaAlign ≠ 0 ∧ blk % c.lbaAlign ≠ 0 then blk - blk % c.lbaAlign else blk

def alignFirst (blk : Nat) : Nat :=
  match c.startingBlock with
  | .bot => c.alignUp blk
  | .top => c.alignDown blk
  | _ => if c.direction = .down then c.alignDown blk else c.alignUp blk

def setFirstBlk : Nat :=
  let requested := c.requestedBlk
  if requested < c.minBlkno ∧ c.direction ≠ .up then u64 (-1)
  else
    let first := if requested < c.minBlkno then c.minBlkno else requested
    let first :=
      if c.direction = .down ∧ c.maxBlkno < u64 (first + c.numBlks - 1) then
        u64 (first - u64 (first + c.numBlks - c.maxBlkno - 1))
      else first
    let first :=
      if c.direction = .outward ∧ first ≠ c.midBlk then c.midBlk else first
    c.alignFirst first

def initBlkno : BlkContext :=
  let blk :=
    if c.doPartial ≠ 0 ∧ c.increment = -1 then c.setFirstBlk else c.firstBlk
  match c.direction with
  | .up =>
    { c with blkno0 := blk, blkno1 := blk, blkno2 := u64 (blk + c.numBlks) }
  | .down =>
    { c with blkno0 := blk, blkno2 := blk, blkno1 := u64 (blk + c.numBlks) }
  | .inward =>
    if u64 (c.minBlkno + u64 (c.maxBlkno - c.minBlkno) / 2) < blk then
      { c with blkno0 := blk, blkno2 := blk,
               blkno1 := u64 (c.minBlkno - c.numBlks - c.blkHop) }
    else { c with blkno0 := blk, blkno1 := blk, blkno2 := c.maxBlkno }
  | .outward => { c with blkno0 := blk, blkno1 := blk, blkno2 := blk }

def nextUp : Nat :=
  u64 (c.blkno2 + c.blkHop)

def nextDown : Nat :=
  u64 (c.blkno2 - c.numBlks - c.blkHop)

def restoreLength : BlkContext :=
  { c with
    dlen := c.savedDlen
    numBlks := u32 (c.savedDlen / blksize : Nat) }

def setBlkno : BlkContext :=
  if c.doPartial = 1 then
    { (c.restoreLength blksize).initBlkno with doPartial := 0 }
  else
    match c.direction with
    | .up =>
      let temp := c.alignUp c.nextUp
      { c with blkno0 := temp, blkno1 := temp, blkno2 := u64 (temp + c.numBlks) }
    | .down =>
      let temp := c.alignDown c.nextDown
      { c with blkno0 := temp, blkno2 := temp, blkno1 := u64 (temp + c.numBlks) }
    | _ =>
      if c.blkno0 = c.blkno1 then
        let temp := c.alignDown c.nextDown
        { c with blkno0 := temp, blkno2 := temp }
      else
        let temp := c.alignUp (u64 (c.blkno1 + c.numBlks + c.blkHop))
        { c with blkno0 := temp, blkno1 := temp }

def wrap : Option Nat :=
  match c.direction with
  | .up =>
    if c.maxBlkno < u64 (c.blkno1 + c.numBlks - 1) then
      some (if (1 < c.numWrites ∧ c.increment = -1) ∨ c.maxBlkno < c.blkno1
        then 2 else 1)
    else none
  | .down =>
    if c.blkno2 < c.minBlkno ∨ signed64 c.blkno2 < 0 then
      some (if (1 < c.numWrites ∧ c.increment = -1) ∨
        signed64 (u64 (signed64 c.blkno2 + c.numBlks - 1)) < signed64 c.minBlkno
        then 2 else 1)
    else none
  | .inward =>
    if c.midBlk < c.blkno1 ∨ c.blkno2 < c.midBlk then some c.doPartial else none
  | .outward =>
    if c.maxBlkno < u64 (c.blkno1 + c.numBlks - 1) ∨ c.blkno2 < c.minBlkno then
      some c.doPartial
    else none

def partialTransfer : BlkContext :=
  let c' :=
    match c.direction with
    | .up =>
      let numBlks := u32 (c.maxBlkno - c.blkno1 + 1)
      { c with numBlks := numBlks, blkno2 := u64 (c.blkno0 + numBlks) }
    | .down =>
      let numBlks := u32 (c.numBlks - signed32 (u64 (c.minBlkno - c.blkno2)))
      { c with numBlks := numBlks, blkno0 := c.minBlkno, blkno2 := c.minBlkno,
               blkno1 := u64 (c.minBlkno + numBlks) }
    | _ => c.initBlkno
  { c' with savedDlen := c.dlen, dlen := u32 (c'.numBlks * blksize) }

def doBoundaryCheck : BlkContext :=
  match c.direction with
  | .inward =>
    if c.blkno0 < c.minBlkno ∨ signed64 c.blkno0 < 0 ∨
        c.maxBlkno < u64 (c.blkno0 + c.numBlks - 1) then c.initBlkno
    else c
  | .outward =>
    if c.maxBlkno < c.blkno0 ∨ c.blkno0 < c.minBlkno ∨ signed64 c.blkno0 < 0 then
      c.initBlkno
    else c
  | _ =>
    match c.wrap with
    | none => c
    | some 1 => partialTransfer blksize { c with doPartial := 1 }
    | some p => { initBlkno { c with doPartial := p } with doPartial := 0 }

/-!
# The three outcomes of the boundary check
-/

section

variable {blksize c} (hdir : c.direction = .up ∨ c.direction = .down)

include hdir

theorem doBoundaryCheck_none (h : c.wrap = none) : c.doBoundaryCheck blksize = c := by
  unfold doBoundaryCheck
  rcases hdir with hd | hd
  · simp only [hd, h]
  · simp only [hd, h]

theorem doBoundaryCheck_shorten (h : c.wrap = some 1) :
    c.doBoundaryCheck blksize = partialTransfer blksize { c with doPartial := 1 } := by
  unfold doBoundaryCheck
  rcases hdir with hd | hd
  · simp only [hd, h]
  · simp only [hd, h]

theorem doBoundaryCheck_restart (h : c.wrap = some 2) :
    c.doBoundaryCheck blksize = { initBlkno { c with doPartial := 2 } with doPartial := 0 } := by
  unfold doBoundaryCheck
  rcases hdir with hd | hd
  · simp only [hd, h]
  · simp only [hd, h]

end

end BlkContext

/-!
# Arithmetic without wrap-around
-/

theorem u64_eq {x : Int} {n : Nat} (h : x = n) (hn : n < 2 ^ 64) : u64 x = n := by
  unfold u64
  omega

theorem u64_lt (x : Int) : u64 x < 2 ^ 64 := by
  unfold u64
  omega

theorem u32_eq {x : Int} {n : Nat} (h : x = n) (hn : n < 2 ^ 32) : u32 x = n := by
  unfold u32
  omega

theorem signed64_eq {n : Nat} (h : n < 2 ^ 63) : signed64 n = n := by
  unfold signed64
  rw [bmod_eq_of_le]
  · omega
  · omega

theorem signed64_u64 {x : Int} (hlow : - 2 ^ 63 ≤ x) (hhigh : x < 2 ^ 63) :
    signed64 (u64 x) = x := by
  have hmod := emod_bmod x (2 ^ 64)
  rw [Nat.cast_pow, Nat.cast_ofNat] at hmod
  unfold signed64 u64
  rw [toNat_of_nonneg (emod_nonneg x (by decide)), hmod, bmod_eq_of_le]
  · omega
  · omega

theorem u32_sub_signed32 {n d : Nat} (hd : d ≤ n) (hn : n < 2 ^ 32) :
    u32 (n - signed32 d) = n - d := by
  unfold u32 signed32
  simp only [bmod]
  split <;> omega

/-!
# Transfers that leave the range
-/

namespace BlkContext

variable {blksize : Nat} {c : BlkContext}

theorem wrap_up_eq (hdir : c.direction = .up) (hpos : 0 < c.numBlks)
    (hlt : c.blkno1 + c.numBlks ≤ 2 ^ 64) :
    c.wrap =
      if c.blkno1 + c.numBlks ≤ c.maxBlkno + 1 then none
      else some (if (1 < c.numWrites ∧ c.increment = -1) ∨ c.maxBlkno < c.blkno1
        then 2 else 1) := by
  have hlast : u64 ((c.blkno1 : Int) + c.numBlks - 1) = c.blkno1 + c.numBlks - 1 :=
    u64_eq (by omega) (by omega)
  unfold wrap
  simp only [hdir]
  rw [hlast]
  by_cases hfits : c.blkno1 + c.numBlks ≤ c.maxBlkno + 1
  · rw [if_pos hfits, if_neg (by omega)]
  · rw [if_neg hfits, if_pos (by omega)]

theorem wrap_none_of_down (hdir : c.direction = .down)
    (hlow : ¬ c.blkno2 < c.minBlkno) (hneg : ¬ signed64 c.blkno2 < 0) : c.wrap = none := by
  unfold wrap
  rw [hdir]
  exact if_neg (not_or.mpr ⟨hlow, hneg⟩)

theorem wrap_down_eq {pos : Int} (hdir : c.direction = .down)
    (hblk : c.blkno2 = u64 pos) (hpos : 0 < c.numBlks) (hlow : - 2 ^ 62 ≤ pos)
    (hhigh : pos + c.numBlks ≤ 2 ^ 63) (hmin : c.minBlkno < 2 ^ 63) :
    c.wrap =
      if (c.minBlkno : Int) ≤ pos then none
      else some (if (1 < c.numWrites ∧ c.increment = -1) ∨ pos + c.numBlks ≤ c.minBlkno
        then 2 else 1) := by
  have hsmin : signed64 c.minBlkno = c.minBlkno := signed64_eq hmin
  have hsigned : signed64 (u64 pos) = pos := signed64_u64 (by omega) (by omega)
  have hlast : signed64 (u64 (pos + c.numBlks - 1)) = pos + c.numBlks - 1 :=
    signed64_u64 (by omega) (by omega)
  have hbelow : (u64 pos < c.minBlkno ∨ pos < 0) <-> ¬ (c.minBlkno : Int) ≤ pos := by
    by_cases hneg : pos < 0
    · exact ⟨fun _ => by omega, fun _ => .inr hneg⟩
    · have hnat : u64 pos = pos.toNat := u64_eq (by omega) (by omega)
      rw [hnat]
      omega
  have hpast : pos + c.numBlks - 1 < c.minBlkno <-> pos + c.numBlks ≤ c.minBlkno := by
    omega
  unfold wrap
  simp only [hdir]
  rw [hblk, hsigned, hlast, hsmin]
  simp only [hbelow, hpast, ite_not]

theorem partialTransfer_up (hdir : c.direction = .up)
    (hblk : c.blkno1 = c.blkno0) (hlow : c.blkno0 ≤ c.maxBlkno) (hmax : c.maxBlkno < 2 ^ 63)
    (hshort : c.maxBlkno + 1 < c.blkno0 + 2 ^ 32) :
    c.partialTransfer blksize = { c with
      numBlks := c.maxBlkno + 1 - c.blkno0, blkno2 := c.maxBlkno + 1, savedDlen := c.dlen,
      dlen := u32 ((c.maxBlkno + 1 - c.blkno0 : Nat) * blksize) } := by
  have hnum : u32 ((c.maxBlkno : Int) - c.blkno1 + 1) = c.maxBlkno + 1 - c.blkno0 :=
    u32_eq (by omega) (by omega)
  have hend : u64 ((c.blkno0 : Int) + (c.maxBlkno + 1 - c.blkno0 : Nat)) = c.maxBlkno + 1 :=
    u64_eq (by omega) (by omega)
  unfold partialTransfer
  simp only [hdir, hnum, hend]

/-- The part below the range is cut off. -/
theorem partialTransfer_down {pos : Int}
    (hdir : c.direction = .down) (hblk : c.blkno2 = u64 pos) (hlow : pos < c.minBlkno)
    (hhigh : c.minBlkno ≤ pos + c.numBlks) (hlt : c.numBlks < 2 ^ 32) :
    c.partialTransfer blksize = { c with
      numBlks := (pos + c.numBlks - c.minBlkno).toNat, blkno0 := c.minBlkno,
      blkno2 := c.minBlkno, blkno1 := u64 (c.minBlkno + (pos + c.numBlks - c.minBlkno).toNat),
      savedDlen := c.dlen, dlen := u32 ((pos + c.numBlks - c.minBlkno).toNat * blksize) } := by
  have hgap : u64 ((c.minBlkno : Int) - c.blkno2) = ((c.minBlkno : Int) - pos).toNat := by
    rw [hblk]
    unfold u64
    omega
  have hnum : u32 ((c.numBlks : Int) - signed32 (u64 ((c.minBlkno : Int) - c.blkno2))) =
      (pos + c.numBlks - c.minBlkno).toNat := by
    rw [hgap, u32_sub_signed32 (by omega) hlt]
    omega
  unfold partialTransfer
  simp only [hdir, hnum]

end BlkContext

end Htx.Hxestorage
