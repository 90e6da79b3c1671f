import Htx.Library.Memory

/-!
# Block headers

Every block, or sub-block, of test data starts with a header of 64 bytes: the
block number, a time stamp, the names of the device, the stanza and the host, a
write stamp, a signature, and a checksum that makes the sum of its 16-bit words
a multiple of `2 ^ 16`.
-/

namespace Htx.Hxestorage

open Library BitVec

def headerSize : Nat := 64

def lbaPos : Nat := 0

def timeStampPos : Nat := 8

def devNamePos : Nat := 12

def stanzaIdPos : Nat := 22

def hostnamePos : Nat := 34

def writeStampPos : Nat := 48

def reservedBytesPos : Nat := 50

def bufsigPos : Nat := 58

def checksumPos : Nat := 62

def lbaLen : Nat := 8

def timeStampLen : Nat := 4

def devNameLen : Nat := 10

def stanzaIdLen : Nat := 12

def hostnameLen : Nat := 14

def writeStampLen : Nat := 2

def bufsigLen : Nat := 4

def bufsig : List UInt8 :=
  [0x4d, 0x44, 0x48, 0x46]

def overhead : Nat := headerSize / 2

structure Machine where
  order : ByteOrder
  signedChar : Bool
  deriving DecidableEq

def wordSum (order : ByteOrder) (m : Memory) (a : Nat) : Nat -> Nat
  | 0 => 0
  | n + 1 => wordSum order m a n + m.load order (a + 2 * n) 2

theorem wordSum_congr {order : ByteOrder} {m m' : Memory} {a b n : Nat}
    (h : forall i, i < 2 * n -> m (a + i) = m' (b + i)) :
    wordSum order m a n = wordSum order m' b n := by
  induction n with
  | zero => rfl
  | succ n ih =>
    have hword : m.bytes (a + 2 * n) 2 = m'.bytes (b + 2 * n) 2 := by
      rw [Memory.bytes_eq_iff]
      intro i hi
      rw [add_assoc, add_assoc]
      exact h (2 * n + i) (by omega)
    unfold wordSum Memory.load
    rw [ih fun i hi => h i (by omega), hword]

/-!
# Time stamps
-/

def charValue (signedChar : Bool) (b : UInt8) : BitVec 32 :=
  if signedChar then b.toBitVec.signExtend 32 else b.toBitVec.setWidth 32

def joinChars (signedChar : Bool) (b3 b2 b1 b0 : UInt8) : BitVec 32 :=
  charValue signedChar b3 <<< 24 ||| charValue signedChar b2 <<< 16 |||
    charValue signedChar b1 <<< 8 ||| charValue signedChar b0

def timeBuffer (machine : Machine) (rbuf : Memory) (i : Nat) : Int :=
  match machine.order with
  | .little =>
    (joinChars machine.signedChar (rbuf (i + 11)) (rbuf (i + 10)) (rbuf (i + 9))
      (rbuf (i + 8))).toInt
  | .big =>
    (joinChars machine.signedChar (rbuf (i + 8)) (rbuf (i + 9)) (rbuf (i + 10))
      (rbuf (i + 11))).toInt

section

variable {b3 b2 b1 b0 : UInt8}

theorem toNat_charValue_shift {b : UInt8} {k : Nat} (hk : k ≤ 24) :
    (charValue false b <<< k).toNat = 2 ^ k * b.toNat := by
  have hb : b.toNat < 2 ^ 8 := b.toNat_lt
  have hpow : 2 ^ k * b.toNat < 2 ^ 32 := by
    calc 2 ^ k * b.toNat < 2 ^ k * 2 ^ 8 :=
          mul_lt_mul_of_pos_left hb (Nat.two_pow_pos k)
      _ = 2 ^ (k + 8) := by rw [pow_add]
      _ ≤ 2 ^ 32 := Nat.pow_le_pow_right (by decide) (by omega)
  have hwide : (charValue false b).toNat = b.toNat := by
    simp only [charValue, Bool.false_eq_true, if_false, toNat_setWidth, UInt8.toNat_toBitVec]
    omega
  rw [toNat_shiftLeft, hwide, Nat.shiftLeft_eq, mul_comm, Nat.mod_eq_of_lt hpow]

theorem toNat_joinChars : (joinChars false b3 b2 b1 b0).toNat =
      b0.toNat + 256 * (b1.toNat + 256 * (b2.toNat + 256 * b3.toNat)) := by
  have h0 : b0.toNat < 2 ^ 8 := b0.toNat_lt
  have h1 : b1.toNat < 2 ^ 8 := b1.toNat_lt
  have h2 : b2.toNat < 2 ^ 8 := b2.toNat_lt
  have hlow := @toNat_charValue_shift b0 0 (by decide)
  rw [shiftLeft_zero, pow_zero, one_mul] at hlow
  unfold joinChars
  rw [toNat_or, toNat_or, toNat_or, hlow,
    toNat_charValue_shift (by decide), toNat_charValue_shift (by decide),
    toNat_charValue_shift (by decide)]
  have htop : 2 ^ 24 * b3.toNat ||| 2 ^ 16 * b2.toNat = 2 ^ 16 * (2 ^ 8 * b3.toNat + b2.toNat) := by
    rw [← Nat.two_pow_add_eq_or_of_lt (by omega)]
    omega
  have hmid : 2 ^ 16 * (2 ^ 8 * b3.toNat + b2.toNat) ||| 2 ^ 8 * b1.toNat =
      2 ^ 8 * (2 ^ 8 * (2 ^ 8 * b3.toNat + b2.toNat) + b1.toNat) := by
    rw [← Nat.two_pow_add_eq_or_of_lt (by omega)]
    omega
  rw [htop, hmid, ← Nat.two_pow_add_eq_or_of_lt h0]
  omega

theorem joinChars_signed {signedChar : Bool} (h : 0 ≤ (joinChars signedChar b3 b2 b1 b0).toInt) :
    joinChars signedChar b3 b2 b1 b0 = joinChars false b3 b2 b1 b0 := by
  cases signedChar with
  | false => rfl
  | true =>
    have hmsb : (joinChars true b3 b2 b1 b0).msb = false := by
      rw [msb_eq_toInt, decide_eq_false_iff_not]
      exact Int.not_lt.mpr h
    have hchar : forall (b : UInt8) (k : Nat), k ≤ 24 ->
        (charValue true b <<< k).msb = b.toBitVec.msb := by
      intro b k hk
      rw [msb_shiftLeft, getMsbD_eq_getLsbD]
      simp only [charValue, if_true, getLsbD_signExtend]
      rw [decide_eq_true (by omega), decide_eq_true (by omega), Bool.true_and, Bool.true_and]
      split
      · have hlast : 32 - 1 - k = 8 - 1 := by omega
        rw [hlast, msb_eq_getLsbD_last]
      · rfl
    have hwide : forall b : UInt8, b.toBitVec.msb = false ->
        charValue true b = charValue false b := by
      intro b hb
      simp only [charValue, if_true, Bool.false_eq_true, if_false]
      exact signExtend_eq_setWidth_of_msb_false hb
    have h0 := hchar b0 0 (by decide)
    rw [shiftLeft_zero] at h0
    unfold joinChars at hmsb ⊢
    rw [msb_or, msb_or, msb_or, hchar b3 24 (by decide),
      hchar b2 16 (by decide), hchar b1 8 (by decide), h0] at hmsb
    simp only [Bool.or_eq_false_iff] at hmsb
    rw [hwide b3 hmsb.1.1.1, hwide b2 hmsb.1.1.2, hwide b1 hmsb.1.2, hwide b0 hmsb.2]

end

section

variable {machine : Machine} {rbuf : Memory} {i : Nat}

theorem load_time (order : ByteOrder) : rbuf.load order (i + timeStampPos) timeStampLen =
      match order with
      | .little => (joinChars false (rbuf (i + 11)) (rbuf (i + 10)) (rbuf (i + 9))
          (rbuf (i + 8))).toNat
      | .big => (joinChars false (rbuf (i + 8)) (rbuf (i + 9)) (rbuf (i + 10))
          (rbuf (i + 11))).toNat := by
  cases order with
  | little | big =>
    simp only [toNat_joinChars]
    rfl

theorem timeBuffer_of_nonneg (h : 0 ≤ timeBuffer machine rbuf i) : timeBuffer machine rbuf i =
      rbuf.load machine.order (i + timeStampPos) timeStampLen := by
  have hnat : forall x : BitVec 32, 0 ≤ x.toInt -> x.toInt = x.toNat := by
    intro x hx
    rw [toInt_eq_toNat_of_msb]
    rw [msb_eq_toInt, decide_eq_false_iff_not]
    exact Int.not_lt.mpr hx
  rw [load_time]
  unfold timeBuffer at h ⊢
  cases horder : machine.order with
  | little | big =>
    simp only [horder] at h ⊢
    rw [← joinChars_signed h, hnat _ h]

theorem timeBuffer_of_unsigned (hchar : machine.signedChar = false)
    (h : rbuf.load machine.order (i + timeStampPos) timeStampLen < 2 ^ 31) :
    timeBuffer machine rbuf i = rbuf.load machine.order (i + timeStampPos) timeStampLen := by
  have hnat : forall x : BitVec 32, x.toNat < 2 ^ 31 -> x.toInt = x.toNat := by
    intro x hx
    apply toInt_eq_toNat_of_lt
    omega
  rw [load_time] at h ⊢
  unfold timeBuffer
  cases horder : machine.order with
  | little | big =>
    simp only [horder, hchar] at h ⊢
    exact hnat _ h

end

end Htx.Hxestorage
