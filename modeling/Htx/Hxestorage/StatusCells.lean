import Htx.Hxestorage.BlockHeader
import Htx.Hxestorage.StateTable

/-!
# Status cells in characters

The table is an array of `char`, and the exerciser shifts and masks its characters as
`int`s.  Where `char` is signed, the shift to the right and the value that is put in extend
the sign; the masks take away all that this adds.
-/

namespace Htx.Hxestorage

open UInt8

def toChar (x : BitVec 32) : UInt8 :=
  ofBitVec (x.setWidth 8)

section

variable (signedChar : Bool)

def charCellGet (c : UInt8) (shift : Nat) : UInt8 :=
  toChar ((charValue signedChar c).sshiftRight shift &&& BitVec.ofNat 32 writeStatusMask)

def charCellSet (c : UInt8) (shift : Nat) (value : UInt8) : UInt8 :=
  let mask := ~~~ (BitVec.ofNat 32 writeStatusMask <<< shift) &&& 0xFF#32
  let value := toChar (charValue signedChar value <<< shift)
  toChar (charValue signedChar c &&& mask ||| charValue signedChar value)

def charNextStatus (c : UInt8) : UInt8 :=
  let next := toChar ((charValue signedChar c + 1).srem (1 <<< bitsPerBlock))
  if next = 0 then toChar (charValue signedChar next + 1) else next

def charGetWriteStatus (p : StatusTable) (block : Nat) : UInt8 :=
  charCellGet signedChar (p (byteNum block)) (statusShift block)

def charSetWriteStatus (p : StatusTable) (block : Nat) (value : UInt8) : StatusTable :=
  Function.update p (byteNum block)
    (charCellSet signedChar (p (byteNum block)) (statusShift block) value)

end

def charUpdateStateTable (signedChar : Bool) (p : StatusTable) (block : Nat) : Nat -> StatusTable
  | 0 => p
  | n + 1 =>
    charUpdateStateTable signedChar
      (charSetWriteStatus signedChar p block
        (charNextStatus signedChar (charGetWriteStatus signedChar p block))) (block + 1) n

/-!
# Signs do not matter
-/

theorem toNat_charCellGet : forall signedChar, forall byte, byte < 256 -> forall q, q < 4 ->
    (charCellGet signedChar (ofNat byte) (6 - q * 2)).toNat = cellGet byte (6 - q * 2) := by
  decide +kernel

theorem charCellSet_eq : forall signedChar, forall byte, byte < 256 -> forall q, q < 4 ->
    forall value, value < 4 ->
      charCellSet signedChar (ofNat byte) (6 - q * 2) (ofNat value) =
        ofNat (cellSet byte (6 - q * 2) value) := by
  decide +kernel

theorem charNextStatus_eq : forall signedChar, forall status, status < 4 ->
    charNextStatus signedChar (ofNat status) = ofNat (nextStatus status) := by
  decide +kernel

theorem charGetWriteStatus_eq (signedChar : Bool) (p : StatusTable) (block : Nat) :
    (charGetWriteStatus signedChar p block).toNat = getWriteStatus p block := by
  unfold charGetWriteStatus getWriteStatus
  have hcell := toNat_charCellGet signedChar (p (byteNum block)).toNat (UInt8.toNat_lt _)
    (block % 4) (Nat.mod_lt _ (by decide))
  rw [statusShift_eq, ← hcell, UInt8.ofNat_toNat]

theorem getWriteStatus_lt (p : StatusTable) (block : Nat) : getWriteStatus p block < 4 := by
  unfold getWriteStatus cellGet writeStatusMask
  exact Nat.lt_succ_of_le Nat.and_le_right

theorem charSetWriteStatus_eq (signedChar : Bool) (p : StatusTable) (block : Nat) {value : Nat}
    (hvalue : value < 4) :
    charSetWriteStatus signedChar p block (UInt8.ofNat value) = setWriteStatus p block value := by
  unfold charSetWriteStatus setWriteStatus
  have hcell := charCellSet_eq signedChar (p (byteNum block)).toNat (toNat_lt _)
    (block % 4) (Nat.mod_lt _ (by decide)) value hvalue
  rw [statusShift_eq, ← hcell, UInt8.ofNat_toNat]

theorem charUpdateStateTable_eq (signedChar : Bool) (p : StatusTable) (block n : Nat) :
    charUpdateStateTable signedChar p block n = updateStateTable p block n := by
  induction n generalizing p block with
  | zero => rfl
  | succ n ih =>
    have hget : charGetWriteStatus signedChar p block = ofNat (getWriteStatus p block) := by
      rw [← charGetWriteStatus_eq signedChar, UInt8.ofNat_toNat]
    unfold charUpdateStateTable updateStateTable
    rw [hget, charNextStatus_eq signedChar _ (getWriteStatus_lt p block),
      charSetWriteStatus_eq signedChar p block (nextStatus_lt _), ih]

/-!
# An exact update
-/

def statusCycle : Nat -> Nat
  | 0 => 1
  | 1 => 2
  | 2 => 3
  | _ => 1

theorem nextStatus_eq_cycle : forall status, status < 4 ->
    nextStatus status = statusCycle status := by
  decide

theorem statusCycle_ne_zero (status : Nat) : statusCycle status ≠ 0 := by
  unfold statusCycle
  split <;> decide

/-- `update_state_table` moves the status of the blocks it is given on by one, and leaves
every other block of the table as it is. -/
theorem charUpdateStateTable_exact (signedChar : Bool) (p : StatusTable) {size b n : Nat}
    (hsize : size < 2 ^ 31) (hrange : b + n ≤ size * blockPerByte) {x : Nat}
    (hx : x < size * blockPerByte) :
    (b ≤ x ∧ x < b + n ->
      (charGetWriteStatus signedChar (charUpdateStateTable signedChar p b n) x).toNat =
          statusCycle (charGetWriteStatus signedChar p x).toNat ∧
        charGetWriteStatus signedChar (charUpdateStateTable signedChar p b n) x ≠ 0) ∧
    (¬ (b ≤ x ∧ x < b + n) ->
      charGetWriteStatus signedChar (charUpdateStateTable signedChar p b n) x =
        charGetWriteStatus signedChar p x) := by
  have hmax : size * blockPerByte ≤ maxStatusBlock := by
    unfold blockPerByte maxStatusBlock
    omega
  have hupdate := @getWriteStatus_updateStateTable p b n x (hrange.trans hmax) (hx.trans_le hmax)
  rw [← charUpdateStateTable_eq signedChar, ← charGetWriteStatus_eq signedChar,
    ← charGetWriteStatus_eq signedChar p] at hupdate
  constructor
  · intro hin
    have hlt : (charGetWriteStatus signedChar p x).toNat < 4 := by
      rw [charGetWriteStatus_eq]
      exact getWriteStatus_lt p x
    rw [if_pos hin, nextStatus_eq_cycle _ hlt] at hupdate
    refine ⟨hupdate, fun hzero => statusCycle_ne_zero _ (hupdate.symm.trans ?_)⟩
    rw [hzero]
    rfl
  · intro hout
    rw [if_neg hout] at hupdate
    exact UInt8.toNat_inj.mp hupdate

theorem charUpdateStateTable_exact_two_bytes :
    (charGetWriteStatus true (charUpdateStateTable true (fun _ => 0xFF) 3 2) 4).toNat = 1 ∧
    charGetWriteStatus true (charUpdateStateTable true (fun _ => 0xFF) 3 2) 5 =
      charGetWriteStatus true (fun _ => 0xFF) 5 := by
  have hsize : 2 < 2 ^ 31 := by decide
  have hrange : 3 + 2 ≤ 2 * blockPerByte := by decide
  exact ⟨((charUpdateStateTable_exact true (fun _ => 0xFF) hsize hrange (x := 4)
      (by decide)).1 (by decide)).1,
    (charUpdateStateTable_exact true (fun _ => 0xFF) hsize hrange (x := 5)
      (by decide)).2 (by decide)⟩

end Htx.Hxestorage
