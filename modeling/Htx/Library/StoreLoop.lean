import Htx.Library.Memory

/-!
# Loops that store and compare generated values

A pointer walks over memory in steps of `w` bytes and stores at each step the value that a
generator produces; a second loop walks in the same way and stops at the first value that
is not found.
-/

namespace Htx.Library

namespace ByteOrder

open List

theorem littleValue_injective {bs cs : List UInt8} (hlen : bs.length = cs.length)
    (h : littleValue bs = littleValue cs) : bs = cs := by
  induction bs generalizing cs with
  | nil => exact (length_eq_zero_iff.mp hlen.symm).symm
  | cons b bs ih =>
    cases cs with
    | nil => simp at hlen
    | cons c cs =>
      simp only [littleValue] at h
      have hb := b.toNat_lt
      have hc := c.toNat_lt
      have hbyte : b = c := UInt8.toNat_inj.mp (by omega)
      have hrest : bs = cs := ih (by simpa using hlen) (by omega)
      rw [hbyte, hrest]

theorem littleValue_lt (bs : List UInt8) : littleValue bs < 256 ^ bs.length := by
  induction bs with
  | nil => simp [littleValue]
  | cons b bs ih =>
    have hb := b.toNat_lt
    rw [littleValue, length_cons, pow_succ]
    omega

theorem decode_lt (order : ByteOrder) (bs : List UInt8) : order.decode bs < 256 ^ bs.length := by
  cases order with
  | little => exact littleValue_lt bs
  | big => simpa [decode] using littleValue_lt bs.reverse

theorem decode_injective {order : ByteOrder} {bs cs : List UInt8}
    (hlen : bs.length = cs.length) (h : order.decode bs = order.decode cs) : bs = cs := by
  cases order with
  | little => exact littleValue_injective hlen h
  | big => exact reverse_injective (littleValue_injective (by simpa using hlen) h)

end ByteOrder

namespace Memory

section

variable {m : Memory} {a n k : Nat} {bs cs : List UInt8}

theorem bytes_add : m.bytes a (n + k) = m.bytes a n ++ m.bytes (a + n) k := by
  simp [bytes, List.range_add, add_assoc]

theorem put_append : m.put a (bs ++ cs) = (m.put a bs).put (a + bs.length) cs := by
  funext i
  unfold put
  rw [List.length_append]
  by_cases hfirst : i < a + bs.length
  · rw [if_neg (show ¬ (a + bs.length ≤ i ∧ i < a + bs.length + cs.length) by omega)]
    by_cases hlow : a ≤ i
    · rw [if_pos (by omega), if_pos ⟨hlow, hfirst⟩, List.getD_append _ _ _ _ (by omega)]
    · rw [if_neg (by omega), if_neg (by omega)]
  · rw [if_neg (show ¬ (a ≤ i ∧ i < a + bs.length) by omega)]
    by_cases hhigh : i < a + bs.length + cs.length
    · rw [if_pos (by omega), if_pos (by omega),
        List.getD_append_right _ _ _ _ (by omega), Nat.sub_sub]
    · rw [if_neg (by omega), if_neg (by omega)]

@[simp]
theorem put_nil : m.put a [] = m := by
  funext i
  exact put_of_outside (by simp; omega)

theorem put_singleton_self {b : UInt8} : m.put a [b] a = b := by
  simp [put]

theorem load_lt (order : ByteOrder) (m : Memory) (a n : Nat) : m.load order a n < 256 ^ n := by
  simpa [load] using order.decode_lt (m.bytes a n)

theorem load_eq_iff {order : ByteOrder} {v : Nat} (hv : v < 256 ^ n) :
    m.load order a n = v <-> m.bytes a n = order.encode n v := by
  have hdecode : order.decode (order.encode n v) = v := by
    rw [ByteOrder.decode_encode, Nat.mod_eq_of_lt hv]
  constructor
  · intro h
    apply ByteOrder.decode_injective (by simp)
    rw [hdecode]
    exact h
  · intro h
    rw [load, h, hdecode]

end

end Memory

section

variable {state : Type}

abbrev Generator (state : Type) :=
  state -> Nat × state

namespace Generator

def values (next : Generator state) : Nat -> state -> List Nat
  | 0, _ => []
  | n + 1, s => (next s).1 :: values next n (next s).2

def after (next : Generator state) : Nat -> state -> state
  | 0, s => s
  | n + 1, s => after next n (next s).2

def image (order : ByteOrder) (w : Nat) (next : Generator state) (n : Nat) (s : state) :
    List UInt8 :=
  (values next n s).flatMap (order.encode w)

variable {order : ByteOrder} {w : Nat} {next : Generator state}

@[simp]
theorem image_zero (s : state) : image order w next 0 s = [] :=
  rfl

theorem image_succ (n : Nat) (s : state) : image order w next (n + 1) s =
      order.encode w (next s).1 ++ image order w next n (next s).2 := by
  simp [image, values]

@[simp]
theorem length_image (n : Nat) (s : state) : (image order w next n s).length = n * w := by
  induction n generalizing s with
  | zero => simp
  | succ n ih =>
    rw [image_succ, List.length_append, ByteOrder.length_encode, ih, Nat.succ_mul, add_comm]

end Generator

variable (order : ByteOrder) (w : Nat) (next : Generator state)

def storeLoop : Nat -> Nat -> state -> Memory -> Memory × state
  | 0, _, s, m => (m, s)
  | n + 1, a, s, m => storeLoop n (a + w) (next s).2 (m.store order a w (next s).1)

def compareLoop : Nat -> Nat -> Nat -> state -> Memory -> Option Nat × state
  | 0, _, _, s, _ => (none, s)
  | n + 1, i, a, s, m =>
    if m.load order a w = (next s).1 then compareLoop n (i + 1) (a + w) (next s).2 m
    else (some i, (next s).2)

variable {order w next}

theorem storeLoop_eq (n a : Nat) (s : state) (m : Memory) : storeLoop order w next n a s m =
      (m.put a (next.image order w n s), next.after n s) := by
  induction n generalizing a s m with
  | zero => simp [storeLoop, Generator.after]
  | succ n ih =>
    rw [storeLoop, ih, Generator.image_succ, Memory.put_append, ByteOrder.length_encode]
    rfl

theorem append_eq_append_iff_of_length {bs bs' cs cs' : List UInt8}
    (hlen : bs.length = bs'.length) :
    bs ++ cs = bs' ++ cs' <-> bs = bs' ∧ cs = cs' := by
  constructor
  · intro h
    exact List.append_inj h hlen
  · rintro ⟨rfl, rfl⟩
    rfl

theorem compareLoop_eq_none_iff (hbound : forall s, (next s).1 < 256 ^ w) (n i a : Nat)
    (s : state) (m : Memory) :
    (compareLoop order w next n i a s m).1 = none <->
      m.bytes a (n * w) = next.image order w n s := by
  induction n generalizing i a s with
  | zero => simp [compareLoop, Memory.bytes]
  | succ n ih =>
    have hsplit : m.bytes a ((n + 1) * w) = m.bytes a w ++ m.bytes (a + w) (n * w) := by
      rw [Nat.succ_mul, add_comm, Memory.bytes_add]
    rw [hsplit, Generator.image_succ, append_eq_append_iff_of_length (by simp),
      ← Memory.load_eq_iff (hbound s), compareLoop]
    split
    case isTrue h =>
      rw [ih]
      simp [h]
    case isFalse h =>
      simp [h]

theorem compareLoop_state {n i a : Nat} {s : state} {m : Memory}
    (h : (compareLoop order w next n i a s m).1 = none) :
    (compareLoop order w next n i a s m).2 = next.after n s := by
  induction n generalizing i a s with
  | zero => rfl
  | succ n ih =>
    rw [compareLoop] at h ⊢
    split at h
    case isTrue hload =>
      rw [if_pos hload]
      exact ih h
    case isFalse hload =>
      simp at h

end

/-!
# Loops that start the generator again
-/

section

variable {state : Type} (order : ByteOrder) (w : Nat) (next : Generator state)

def storeBlocks (n : Nat) (s : state) : Nat -> Nat -> Memory -> Memory
  | 0, _, m => m
  | k + 1, a, m => storeBlocks n s k (a + n * w) (storeLoop order w next n a s m).1

def compareBlocks (n : Nat) (s : state) : Nat -> Nat -> Nat -> Memory -> Option Nat
  | 0, _, _, _ => none
  | k + 1, i, a, m =>
    match (compareLoop order w next n 0 a s m).1 with
    | none => compareBlocks n s k (i + 1) (a + n * w) m
    | some _ => some i

def blockImage (n : Nat) (s : state) (k : Nat) : List UInt8 :=
  (List.replicate k (next.image order w n s)).flatten

variable {order w next}

theorem blockImage_succ (n : Nat) (s : state) (k : Nat) : blockImage order w next n s (k + 1) =
      next.image order w n s ++ blockImage order w next n s k := by
  simp [blockImage, List.replicate_succ]

@[simp]
theorem length_blockImage (n : Nat) (s : state) (k : Nat) :
    (blockImage order w next n s k).length = k * (n * w) := by
  simp [blockImage]

theorem storeBlocks_eq (n : Nat) (s : state) (k a : Nat) (m : Memory) :
    storeBlocks order w next n s k a m = m.put a (blockImage order w next n s k) := by
  induction k generalizing a m with
  | zero => simp [storeBlocks, blockImage]
  | succ k ih =>
    rw [storeBlocks, ih, blockImage_succ, Memory.put_append, Generator.length_image, storeLoop_eq]

theorem compareBlocks_eq_none_iff (hbound : forall s, (next s).1 < 256 ^ w) (n : Nat)
    (s : state) (k i a : Nat) (m : Memory) :
    compareBlocks order w next n s k i a m = none <->
      m.bytes a (k * (n * w)) = blockImage order w next n s k := by
  induction k generalizing i a with
  | zero => simp [compareBlocks, Memory.bytes, blockImage]
  | succ k ih =>
    have hsplit : m.bytes a ((k + 1) * (n * w)) =
        m.bytes a (n * w) ++ m.bytes (a + n * w) (k * (n * w)) := by
      rw [Nat.succ_mul, add_comm, Memory.bytes_add]
    rw [hsplit, blockImage_succ, append_eq_append_iff_of_length (by simp),
      ← compareLoop_eq_none_iff hbound n 0 a s m, compareBlocks]
    cases hblock : (compareLoop order w next n 0 a s m).1 with
    | none => simp [ih]
    | some j => simp

end

/-!
# Detection
-/

section

variable {m : Memory} {a : Nat} {img : List UInt8} {ok : Memory -> Prop}

theorem check_detects_iff (m : Memory) (size : Nat)
    (hok : forall m', ok m' <-> m'.bytes a img.length = img) :
    (forall pos, pos < size -> forall b, b ≠ m.put a img (a + pos) ->
      ¬ ok ((m.put a img).put (a + pos) [b])) <-> size ≤ img.length := by
  constructor
  · intro hdetect
    by_contra hshort
    have hother : exists b : UInt8, b ≠ m.put a img (a + img.length) := by
      refine ⟨m.put a img (a + img.length) + 1, ?_⟩
      simp
    obtain ⟨b, hb⟩ := hother
    apply hdetect img.length (Nat.lt_of_not_le hshort) b hb
    rw [hok, Memory.bytes_put_of_disjoint (.inl (le_refl _))]
    exact Memory.bytes_put_self rfl
  · intro hfull pos hpos b hb hgood
    have hsame : ((m.put a img).put (a + pos) [b]).bytes a img.length =
        (m.put a img).bytes a img.length := by
      rw [(hok _).mp hgood, Memory.bytes_put_self rfl]
    have hbyte := Memory.bytes_eq_iff.mp hsame pos (lt_of_lt_of_le hpos hfull)
    rw [Memory.put_singleton_self] at hbyte
    exact hb hbyte

end

end Htx.Library
