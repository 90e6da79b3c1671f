import Htx.Library.HexText
import Htx.Library.Memory

/-!
# The pattern buffer

`hxfpat_tefficient` fills the buffer from a file, by copies of what it holds already, or with
the byte that the name of the pattern ends in.
-/

namespace Htx.Htx64

open Library List

structure PatternFile where
  content : List UInt8
  readable : Bool
  closes : Bool
  deriving DecidableEq

def hexPattern (filename : List Char) : Option Nat :=
  let tail := filename.drop (filename.length - 4)
  if tail.take 2 = ['0', 'x'] ∨ tail.take 2 = ['0', 'X'] then
    some (strtoull16 (tail.drop 2) % 2 ^ 32)
  else none

/-- Words with the byte `s[3]` in every place. -/
def hexFill (order : ByteOrder) (pattern numWords : Nat) : List UInt8 :=
  (replicate numWords (replicate 4 ((order.encode 4 pattern).getD 3 0))).flatten

/-- The loop of copies on the part of the buffer that is filled. -/
def copyLoop (numChars : Nat) : Nat -> List UInt8 -> Option (List UInt8)
  | 0, _ => none
  | fuel + 1, filled =>
    if filled.length < numChars then
      let left := numChars - filled.length
      copyLoop numChars fuel
        (filled ++ filled.take (if left < filled.length then left else filled.length))
    else some filled

/-- The return code and the buffer, which is left alone if the file cannot be opened. -/
def readPattern (file : Option PatternFile) (buf : List UInt8) (numChars fuel : Nat) :
    Option (Nat × List UInt8) :=
  match file with
  | none => some (1, buf)
  | some f =>
    if f.readable then
      (copyLoop numChars fuel (f.content.take numChars)).map (if f.closes then 0 else 3, ·)
    else some (if f.closes then 2 else 3, replicate numChars 0)

/-- The name is read from the fourth character before its end on. -/
def hxfpat (order : ByteOrder) (filename : List Char) (file : Option PatternFile)
    (buf : List UInt8) (numChars fuel : Nat) : Option (Nat × List UInt8) :=
  if filename.length < 4 then none
  else match hexPattern filename with
    | some pattern =>
      if numChars % 4 = 0 then some (0, hexFill order pattern (numChars / 4))
      else readPattern file buf numChars fuel
    | none => readPattern file buf numChars fuel

/-- Byte `i` is byte `i` modulo the length of the content. -/
def cycle (content : List UInt8) (numChars : Nat) : List UInt8 :=
  (range numChars).map fun i => content.getD (i % content.length) 0

section

variable (order : ByteOrder) (filename : List Char) (file : Option PatternFile) (buf : List UInt8)

def FillsFromFile (numChars : Nat) : Prop :=
  exists fuel code filled, hxfpat order filename file buf numChars fuel = some (code, filled) ∧
    (code = 0 -> forall f, file = some f -> f.content ≠ [] -> filled = cycle f.content numChars)

def FillsFromName (numChars value : Nat) : Prop :=
  exists fuel, hxfpat order filename file buf numChars fuel =
    some (0, replicate numChars (UInt8.ofNat value))

end

theorem length_cycle (content : List UInt8) (k : Nat) : (cycle content k).length = k := by
  simp [cycle]

variable {content : List UInt8}

theorem cycle_append {k m : Nat} (hk : content.length ∣ k) (hm : m ≤ k) :
    cycle content k ++ (cycle content k).take m = cycle content (k + m) := by
  obtain ⟨q, rfl⟩ := hk
  simp [cycle, range_add, ← map_take, take_range, min_eq_left hm, Function.comp_def]

theorem take_eq_cycle (content : List UInt8) (numChars : Nat) :
    content.take numChars = cycle content (min content.length numChars) := by
  refine ext_getElem (by simp [length_cycle, min_comm]) fun i hi _ => ?_
  have hlt : i < content.length := by
    rw [length_take] at hi
    omega
  simp [cycle, Nat.mod_eq_of_lt hlt, hlt]

theorem copyLoop_cycle {numChars fuel k : Nat} (hpos : 0 < k)
    (hle : k ≤ numChars) (hk : content.length ∣ k ∨ k = numChars) (hfuel : numChars < k + fuel) :
    copyLoop numChars fuel (cycle content k) = some (cycle content numChars) := by
  induction fuel generalizing k with
  | zero => omega
  | succ fuel ih =>
    rw [copyLoop, length_cycle]
    split_ifs with hmore
    · have hdvd := hk.resolve_right (by omega)
      dsimp only
      split_ifs with hleft
      · rw [cycle_append hdvd (by omega)]
        exact ih (by omega) (by omega) (.inr (by omega)) (by omega)
      · rw [cycle_append hdvd le_rfl]
        exact ih (by omega) (by omega) (.inl (dvd_add hdvd hdvd)) (by omega)
    · rw [show k = numChars by omega]

theorem copyLoop_nil {numChars : Nat} (h : numChars ≠ 0) (fuel : Nat) :
    copyLoop numChars fuel [] = none := by
  induction fuel with
  | zero => rfl
  | succ fuel ih => simp [copyLoop, Nat.pos_of_ne_zero h, ih]

theorem copyLoop_isSome {numChars fuel : Nat} {filled : List UInt8}
    (h : copyLoop numChars fuel (content.take numChars) = some filled) :
    content = [] -> numChars = 0 := by
  rintro rfl
  by_contra hpos
  rw [take_nil, copyLoop_nil hpos] at h
  cases h

theorem copyLoop_file {numChars : Nat} (h : content = [] -> numChars = 0) :
    copyLoop numChars (numChars + 1) (content.take numChars) = some (cycle content numChars) := by
  rcases Nat.eq_zero_or_pos numChars with rfl | hpos
  · simp [copyLoop, cycle]
  · have hne : 0 < content.length := length_pos_iff.mpr fun hnil => by
      have hzero := h hnil
      omega
    rw [take_eq_cycle]
    refine copyLoop_cycle (by omega) (min_le_right _ _) ?_ (by omega)
    rcases le_total content.length numChars with hle | hle
    · exact .inl (dvd_of_eq (min_eq_left hle).symm)
    · exact .inr (min_eq_right hle)

theorem readPattern_fills_iff (file : Option PatternFile) (buf : List UInt8) (numChars : Nat) :
    (exists fuel code filled, readPattern file buf numChars fuel = some (code, filled) ∧
      (code = 0 -> forall f, file = some f -> f.content ≠ [] ->
        filled = cycle f.content numChars)) <->
      forall f, file = some f -> f.readable = true -> f.content = [] -> numChars = 0 := by
  constructor
  · rintro ⟨fuel, code, filled, hread, -⟩ f rfl hreadable
    simp only [readPattern, hreadable, if_true, Option.map_eq_some_iff] at hread
    obtain ⟨filled, hloop, -⟩ := hread
    exact copyLoop_isSome hloop
  · intro h
    cases file with
    | none => exact ⟨0, 1, buf, rfl, nofun⟩
    | some f =>
      cases hreadable : f.readable with
      | false =>
        refine ⟨0, if f.closes then 2 else 3, replicate numChars 0, ?_, fun hzero => ?_⟩
        · simp [readPattern, hreadable]
        · split_ifs at hzero
      | true =>
        refine ⟨numChars + 1, if f.closes then 0 else 3, cycle f.content numChars, ?_, ?_⟩
        · simp [readPattern, hreadable, copyLoop_file (h f rfl hreadable)]
        · rintro - f' ⟨⟩ -
          rfl

theorem hexFill_eq (order : ByteOrder) {value : Nat} (h : value < 256) {numChars : Nat}
    (hmod : numChars % 4 = 0) : hexFill order value (numChars / 4) =
      replicate numChars (match order with | .little => 0 | .big => UInt8.ofNat value) := by
  have hchars : numChars / 4 * 4 = numChars := by omega
  have hzero : value / 256 = 0 := by omega
  rw [hexFill, flatten_replicate_replicate, hchars]
  cases order <;> simp [ByteOrder.encode, ByteOrder.littleBytes, hzero]

theorem fillsFromName_iff {filename : List Char} {value numChars : Nat}
    (hname : hexPattern filename = some value) (hsmall : value < 256) (hmod : numChars % 4 = 0)
    (order : ByteOrder) (file : Option PatternFile) (buf : List UInt8) :
    FillsFromName order filename file buf numChars value <->
      4 ≤ filename.length ∧ (order = .big ∨ value = 0 ∨ numChars = 0) := by
  have hbyte : 0 = UInt8.ofNat value <-> value = 0 := by
    simp [← UInt8.toNat_inj, Nat.mod_eq_of_lt hsmall, eq_comm]
  by_cases hlen : filename.length < 4
  · simp [FillsFromName, hxfpat, hlen]
  · simp only [FillsFromName, hxfpat, hlen, if_false, hname, hmod, if_true, Nat.not_lt.mp hlen,
      hexFill_eq order hsmall hmod, exists_const, Option.some.injEq, Prod.mk.injEq, true_and,
      replicate_inj]
    cases order <;> simp [hbyte, or_comm]

/-- A file fills the buffer if it is not empty, a name if its byte comes last in a word; both
have to have a name of four characters. -/
theorem hxfpat_fills_iff (order : ByteOrder) (filename : List Char) (file : Option PatternFile)
    (buf : List UInt8) (numChars : Nat) :
    (hexPattern filename = none ∨ numChars % 4 ≠ 0 ->
      (FillsFromFile order filename file buf numChars <-> 4 ≤ filename.length ∧
        forall f, file = some f -> f.readable = true -> f.content = [] -> numChars = 0)) ∧
    forall value, hexPattern filename = some value -> value < 256 -> numChars % 4 = 0 ->
      (FillsFromName order filename file buf numChars value <->
        4 ≤ filename.length ∧ (order = .big ∨ value = 0 ∨ numChars = 0)) := by
  refine ⟨fun hfile => ?_,
    fun value hname hsmall hmod => fillsFromName_iff hname hsmall hmod order file buf⟩
  rw [← readPattern_fills_iff file buf, FillsFromFile]
  by_cases hlen : filename.length < 4
  · simp [hxfpat, hlen]
  · have heq : forall fuel, hxfpat order filename file buf numChars fuel =
        readPattern file buf numChars fuel := by
      intro fuel
      rw [hxfpat, if_neg hlen]
      split
      · next pattern hpattern => exact if_neg (hfile.resolve_left (by simp [hpattern]))
      · rfl
    simp only [heq, Nat.not_lt.mp hlen, true_and]

/-- In the little order `0xff` fills the buffer with zeros, and the copies of an empty file do
not end. -/
theorem hxfpat_not_filled :
    hxfpat .little "0xff".toList none [] 4 0 = some (0, [0, 0, 0, 0]) ∧
      ¬ exists fuel result, hxfpat .big "abcd".toList (some ⟨[], true, true⟩) [] 1 fuel =
        some result := by
  refine ⟨by decide +kernel, ?_⟩
  rintro ⟨fuel, result, h⟩
  rw [show hxfpat .big "abcd".toList (some ⟨[], true, true⟩) [] 1 fuel =
    (copyLoop 1 fuel []).map (0, ·) from rfl, copyLoop_nil Nat.one_ne_zero] at h
  cases h

end Htx.Htx64
