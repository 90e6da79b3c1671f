import Mathlib

/-!
# Memory

Byte-addressed memory, with fields that are copied in and out as bytes or stored
and loaded as unsigned numbers in the byte order of the machine.
-/

namespace Htx.Library

open List

abbrev Memory :=
  Nat -> UInt8

inductive ByteOrder where
  | little
  | big
  deriving DecidableEq

namespace ByteOrder

def littleBytes : Nat -> Nat -> List UInt8
  | 0, _ => []
  | n + 1, v => UInt8.ofNat v :: littleBytes n (v / 256)

def littleValue : List UInt8 -> Nat
  | [] => 0
  | b :: rest => b.toNat + 256 * littleValue rest

def encode (order : ByteOrder) (n v : Nat) : List UInt8 :=
  match order with
  | little => littleBytes n v
  | big => (littleBytes n v).reverse

def decode (order : ByteOrder) (bytes : List UInt8) : Nat :=
  match order with
  | little => littleValue bytes
  | big => littleValue bytes.reverse

theorem length_littleBytes (n v : Nat) : (littleBytes n v).length = n := by
  induction n generalizing v with
  | zero => rfl
  | succ n ih => simp [littleBytes, ih]

@[simp]
theorem length_encode (order : ByteOrder) (n v : Nat) : (order.encode n v).length = n := by
  cases order <;> simp [encode, length_littleBytes]

theorem littleValue_littleBytes (n v : Nat) : littleValue (littleBytes n v) = v % 256 ^ n := by
  induction n generalizing v with
  | zero => simp [littleBytes, littleValue, Nat.mod_one]
  | succ n ih =>
    have hbyte : (UInt8.ofNat v).toNat = v % 256 := by
      simp
    rw [littleBytes, littleValue, ih, hbyte, pow_succ, mul_comm (256 ^ n), Nat.mod_mul]

@[simp]
theorem decode_encode (order : ByteOrder) (n v : Nat) :
    order.decode (order.encode n v) = v % 256 ^ n := by
  cases order <;> simp [encode, decode, littleValue_littleBytes]

end ByteOrder

namespace Memory

def bytes (m : Memory) (a n : Nat) : List UInt8 :=
  (range n).map fun i => m (a + i)

def put (m : Memory) (a : Nat) (bs : List UInt8) : Memory :=
  fun i => if a ≤ i ∧ i < a + bs.length then bs.getD (i - a) 0 else m i

def load (order : ByteOrder) (m : Memory) (a n : Nat) : Nat :=
  order.decode (m.bytes a n)

def store (order : ByteOrder) (m : Memory) (a n v : Nat) : Memory :=
  m.put a (order.encode n v)

section

variable {m m' : Memory} {a b n k : Nat} {bs : List UInt8}

@[simp]
theorem length_bytes : (m.bytes a n).length = n := by
  simp [bytes]

theorem bytes_eq_iff :
    m.bytes a n = m'.bytes b n <-> forall i, i < n -> m (a + i) = m' (b + i) := by
  simp [bytes]

theorem put_of_outside {i : Nat} (h : i < a ∨ a + bs.length ≤ i) : m.put a bs i = m i := by
  unfold put
  rw [if_neg]
  omega

@[simp]
theorem bytes_put_self (h : bs.length = n) : (m.put a bs).bytes a n = bs := by
  subst h
  apply ext_getElem
  · simp
  · intro i h1 h2
    simp [bytes, put, h2]

theorem bytes_put_of_disjoint (h : b + k ≤ a ∨ a + bs.length ≤ b) :
    (m.put a bs).bytes b k = m.bytes b k := by
  rw [bytes_eq_iff]
  intro i hi
  exact put_of_outside (by omega)

end

section

variable {order : ByteOrder} {m : Memory} {a b n k v : Nat}

@[simp]
theorem load_store_self : (m.store order a n v).load order a n = v % 256 ^ n := by
  unfold load store
  rw [bytes_put_self (order.length_encode n v), ByteOrder.decode_encode]

theorem store_of_outside {i : Nat} (h : i < a ∨ a + n ≤ i) : m.store order a n v i = m i :=
  put_of_outside (by rwa [ByteOrder.length_encode])

theorem bytes_store_of_disjoint (h : b + k ≤ a ∨ a + n ≤ b) :
    (m.store order a n v).bytes b k = m.bytes b k :=
  bytes_put_of_disjoint (by rwa [ByteOrder.length_encode])

theorem load_put_of_disjoint {bs : List UInt8} (h : b + k ≤ a ∨ a + bs.length ≤ b) :
    (m.put a bs).load order b k = m.load order b k :=
  congrArg order.decode (bytes_put_of_disjoint h)

theorem load_store_of_disjoint (h : b + k ≤ a ∨ a + n ≤ b) :
    (m.store order a n v).load order b k = m.load order b k :=
  congrArg order.decode (bytes_store_of_disjoint h)

end

/-!
# Fields of a record
-/

section

variable {order : ByteOrder} {m : Memory} {bs : List UInt8} {a p q n k v : Nat}

theorem bytes_put_field (h : q + k ≤ p ∨ p + bs.length ≤ q) :
    (m.put (a + p) bs).bytes (a + q) k = m.bytes (a + q) k :=
  bytes_put_of_disjoint (by omega)

theorem bytes_store_field (h : q + k ≤ p ∨ p + n ≤ q) :
    (m.store order (a + p) n v).bytes (a + q) k = m.bytes (a + q) k :=
  bytes_store_of_disjoint (by omega)

theorem load_put_field (h : q + k ≤ p ∨ p + bs.length ≤ q) :
    (m.put (a + p) bs).load order (a + q) k = m.load order (a + q) k :=
  congrArg order.decode (bytes_put_field h)

theorem load_store_field (h : q + k ≤ p ∨ p + n ≤ q) :
    (m.store order (a + p) n v).load order (a + q) k = m.load order (a + q) k :=
  congrArg order.decode (bytes_store_field h)

theorem put_field_of_outside {size i : Nat} (hfit : p + bs.length ≤ size)
    (h : i < a ∨ a + size ≤ i) : m.put (a + p) bs i = m i :=
  put_of_outside (by omega)

theorem store_field_of_outside {size i : Nat} (hfit : p + n ≤ size)
    (h : i < a ∨ a + size ≤ i) : m.store order (a + p) n v i = m i :=
  store_of_outside (by omega)

end

end Memory

/-!
# Strings
-/

structure CString where
  chars : List UInt8
  nonzero : 0 ∉ chars
  deriving DecidableEq

namespace CString

def padded (n : Nat) (s : CString) : List UInt8 :=
  s.chars.take n ++ replicate (n - s.chars.length) 0

def ofField (field : List UInt8) : CString where
  chars := field.takeWhile fun c => c != 0
  nonzero := by
    intro h
    simpa using mem_takeWhile_imp h

@[simp]
theorem length_padded (n : Nat) (s : CString) : (s.padded n).length = n := by
  simp [padded]
  omega

theorem ofField_padded (n : Nat) (s : CString) : (ofField (s.padded n)).chars = s.chars.take n := by
  have htake : forall c, c ∈ s.chars.take n -> (c != 0) = true := by
    intro c hc
    rw [bne_iff_ne]
    rintro rfl
    exact s.nonzero (mem_of_mem_take hc)
  have hpad : (replicate (n - s.chars.length) (0 : UInt8)).takeWhile
      (fun c => c != 0) = [] := by
    cases n - s.chars.length <;> rfl
  change (s.padded n).takeWhile (fun c => c != 0) = s.chars.take n
  rw [padded, takeWhile_append_of_pos htake, hpad, append_nil]

end CString

end Htx.Library
