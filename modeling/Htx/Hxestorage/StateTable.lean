import Mathlib.Data.Nat.Bitwise
import Mathlib.Logic.Function.Basic

/-!
# The write-status table

With the state table enabled, the exerciser keeps a two-bit write status for every block,
four blocks to a byte.  Status 0 means that the block has not been written; every write
advances the status through 1, 2, 3 and back to 1.
-/

namespace Htx.Hxestorage

def bitsPerBlock : Nat := 2

def blockPerByte : Nat := 4

def writeStatusMask : Nat := 3

abbrev StatusTable :=
  Int -> UInt8

def byteNum (block : Nat) : Int :=
  Int.bmod (block / blockPerByte : Nat) (2 ^ 32)

def statusShift (block : Nat) : Nat :=
  blockPerByte * bitsPerBlock - block % blockPerByte * bitsPerBlock - bitsPerBlock

def cellGet (byte shift : Nat) : Nat :=
  (byte >>> shift) &&& writeStatusMask

def cellSet (byte shift value : Nat) : Nat :=
  (byte &&& (0xFF ^^^ (writeStatusMask <<< shift))) ||| (value <<< shift)

def getWriteStatus (p : StatusTable) (block : Nat) : Nat :=
  cellGet (p (byteNum block)).toNat (statusShift block)

def setWriteStatus (p : StatusTable) (block value : Nat) : StatusTable :=
  Function.update p (byteNum block)
    (UInt8.ofNat (cellSet (p (byteNum block)).toNat (statusShift block) value))

def nextStatus (status : Nat) : Nat :=
  let next := (status + 1) % (1 <<< bitsPerBlock)
  if next = 0 then next + 1 else next

def updateStateTable (p : StatusTable) (block : Nat) : Nat -> StatusTable
  | 0 => p
  | n + 1 =>
    updateStateTable
      (setWriteStatus p block (nextStatus (getWriteStatus p block))) (block + 1) n

def bldHeaderStamp (p : StatusTable) (numWritesRemaining : Int) (lba : Nat) : Nat :=
  if 0 < numWritesRemaining then nextStatus (getWriteStatus p lba)
  else getWriteStatus p lba

/-!
# Cells of one byte
-/

theorem cellGet_cellSet : forall byte, byte < 256 -> forall value, value < 4 ->
    forall q, q < 4 -> forall q', q' < 4 -> cellSet byte (6 - q * 2) value < 256 ∧
        cellGet (cellSet byte (6 - q * 2) value) (6 - q' * 2) =
          if q' = q then value else cellGet byte (6 - q' * 2) := by
  decide +kernel

theorem statusShift_eq (block : Nat) : statusShift block = 6 - block % 4 * 2 := by
  unfold statusShift blockPerByte bitsPerBlock
  omega

theorem nextStatus_lt (status : Nat) : nextStatus status < 4 := by
  unfold nextStatus bitsPerBlock
  change (if (status + 1) % 4 = 0 then (status + 1) % 4 + 1 else (status + 1) % 4) < 4
  split <;> omega

/-!
# Blocks of the table
-/

def maxStatusBlock : Nat := 2 ^ 33

theorem byteNum_eq {block : Nat} (h : block < maxStatusBlock) :
    byteNum block = (block / 4 : Nat) := by
  unfold byteNum blockPerByte
  unfold maxStatusBlock at h
  rw [Int.bmod_eq_of_le]
  · omega
  · omega

theorem getWriteStatus_setWriteStatus {p : StatusTable} {block value : Nat}
    (hv : value < 4) (hblock : block < maxStatusBlock) {b : Nat}
    (hb : b < maxStatusBlock) :
    getWriteStatus (setWriteStatus p block value) b =
      if b = block then value else getWriteStatus p b := by
  unfold getWriteStatus setWriteStatus
  rw [byteNum_eq hblock, byteNum_eq hb, statusShift_eq, statusShift_eq]
  by_cases hbyte : b / 4 = block / 4
  · rw [hbyte, Function.update_self]
    have hcell := cellGet_cellSet (p (block / 4 : Nat)).toNat (UInt8.toNat_lt _)
      value hv (block % 4) (Nat.mod_lt _ (by decide)) (b % 4)
      (Nat.mod_lt _ (by decide))
    rw [UInt8.toNat_ofNat', Nat.mod_eq_of_lt hcell.1, hcell.2]
    have hiff : b % 4 = block % 4 <-> b = block := by
      omega
    simp only [hiff]
  · have hne : ((b / 4 : Nat) : Int) ≠ (block / 4 : Nat) := by
      omega
    have hblk : b ≠ block := by
      intro h
      exact hbyte (by rw [h])
    rw [Function.update_of_ne hne, if_neg hblk]

theorem getWriteStatus_updateStateTable {p : StatusTable} {flba n b : Nat}
    (hrange : flba + n ≤ maxStatusBlock) (hb : b < maxStatusBlock) :
    getWriteStatus (updateStateTable p flba n) b =
      if flba ≤ b ∧ b < flba + n then nextStatus (getWriteStatus p b)
      else getWriteStatus p b := by
  induction n generalizing p flba with
  | zero =>
    rw [if_neg (by omega)]
    rfl
  | succ n ih =>
    have hset := @getWriteStatus_setWriteStatus p flba _
      (nextStatus_lt (getWriteStatus p flba)) (by omega) b hb
    unfold updateStateTable
    rw [ih (by omega), hset]
    by_cases hfirst : b = flba
    · subst b
      rw [if_neg (by omega), if_pos rfl, if_pos (by omega)]
    · rw [if_neg hfirst]
      by_cases hin : flba + 1 ≤ b ∧ b < flba + 1 + n
      · rw [if_pos hin, if_pos (by omega)]
      · rw [if_neg hin, if_neg (by omega)]

end Htx.Hxestorage
