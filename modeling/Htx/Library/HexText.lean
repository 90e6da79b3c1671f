import Mathlib

/-!
# Numbers in hexadecimal

`strtoull` with base 16, and texts that are cut into groups of four digits.
-/

namespace Htx.Library

open List

def hexDigit (c : Char) : Option Nat :=
  if '0' ≤ c ∧ c ≤ '9' then some (c.toNat - '0'.toNat)
  else if 'a' ≤ c ∧ c ≤ 'f' then some (c.toNat - 'a'.toNat + 10)
  else if 'A' ≤ c ∧ c ≤ 'F' then some (c.toNat - 'A'.toNat + 10)
  else none

def hexDigits : List Char -> List Nat
  | [] => []
  | c :: rest =>
    match hexDigit c with
    | some d => d :: hexDigits rest
    | none => []

def hexValue (digits : List Nat) : Nat :=
  Nat.ofDigits 16 digits.reverse

def skipMarker (text : List Char) : List Char :=
  match text with
  | z :: x :: c :: rest =>
    if z = '0' ∧ (x = 'x' ∨ x = 'X') ∧ (hexDigit c).isSome then c :: rest else text
  | _ => text

def strtoull16 (text : List Char) : Nat :=
  let signed := text.dropWhile fun c => c = ' ' ∨ ('\t' ≤ c ∧ c ≤ '\r')
  let negative := signed.head? = some '-'
  let unsigned :=
    if signed.head? = some '-' ∨ signed.head? = some '+' then signed.drop 1 else signed
  let value := hexValue (hexDigits (skipMarker unsigned))
  if 2 ^ 64 ≤ value then 2 ^ 64 - 1
  else if negative then (2 ^ 64 - value) % 2 ^ 64
  else value

def fourDigitGroups : List Nat -> List Nat
  | a :: b :: c :: d :: rest => hexValue [a, b, c, d] :: fourDigitGroups rest
  | _ => []

theorem fourDigitGroups_of_length_lt {digits : List Nat} (h : digits.length < 4) :
    fourDigitGroups digits = [] := by
  rcases digits with _ | ⟨_, _ | ⟨_, _ | ⟨_, _ | ⟨_, _⟩⟩⟩⟩
  · rfl
  · rfl
  · rfl
  · rfl
  · simp only [length_cons] at h
    omega

structure HexText where
  text : List Char
  digits : List Nat
  read : text.map hexDigit = digits.map some

theorem hexDigit_lt {c : Char} {d : Nat} (h : hexDigit c = some d) : d < 16 := by
  have hnat : forall {x y : Char}, x ≤ y -> x.toNat ≤ y.toNat := by
    intro x y hxy
    rw [Char.le_def, UInt32.le_iff_toNat_le] at hxy
    exact hxy
  unfold hexDigit at h
  split at h
  · next hc =>
      have := hnat hc.2
      have h9 : '9'.toNat = 57 := rfl
      have h0 : '0'.toNat = 48 := rfl
      cases h
      omega
  · split at h
    · next hc =>
        have := hnat hc.2
        have hf : 'f'.toNat = 102 := rfl
        have ha : 'a'.toNat = 97 := rfl
        cases h
        omega
    · split at h
      · next hc =>
          have := hnat hc.2
          have hf : 'F'.toNat = 70 := rfl
          have ha : 'A'.toNat = 65 := rfl
          cases h
          omega
      · cases h

theorem hexValue_four (a b c d : Nat) :
    hexValue [a, b, c, d] = a * 4096 + b * 256 + c * 16 + d := by
  simp only [hexValue, reverse_cons, reverse_nil, nil_append, cons_append,
    Nat.ofDigits_cons, Nat.ofDigits_nil]
  omega

theorem fourDigitGroups_shift_iff (digits : List Nat) (hlen : 4 ∣ digits.length) :
    fourDigitGroups ((0 :: 0 :: digits).take digits.length) = fourDigitGroups digits <->
      forall d, d ∈ digits -> d = 0 := by
  induction digits using fourDigitGroups.induct with
  | case1 d0 d1 d2 d3 rest ih =>
    have hrest : 4 ∣ rest.length := (Nat.dvd_add_left (dvd_refl 4)).mp hlen
    have htake : (0 :: 0 :: d0 :: d1 :: d2 :: d3 :: rest).take
          (d0 :: d1 :: d2 :: d3 :: rest).length =
        0 :: 0 :: d0 :: d1 :: (d2 :: d3 :: rest).take rest.length := rfl
    rw [htake]
    simp only [fourDigitGroups, hexValue_four, List.cons.injEq, mem_cons, forall_eq_or_imp]
    constructor
    · intro h
      obtain ⟨rfl, rfl⟩ : d2 = 0 ∧ d3 = 0 := by omega
      exact ⟨by omega, by omega, rfl, rfl, (ih hrest).mp h.2⟩
    · rintro ⟨rfl, rfl, rfl, rfl, h⟩
      exact ⟨rfl, (ih hrest).mpr h⟩
  | case2 digits hshort =>
    -- fewer than four digits, and a multiple of four of them
    have hnil : digits = [] := by
      rcases digits with _ | ⟨d0, _ | ⟨d1, _ | ⟨d2, _ | ⟨d3, rest⟩⟩⟩⟩
      · rfl
      · simp at hlen
      · simp at hlen
      · simp at hlen
      · exact absurd rfl (hshort d0 d1 d2 d3 rest)
    subst hnil
    simp

namespace HexText

variable (t : HexText)

theorem length_digits : t.digits.length = t.text.length := by
  have h := congrArg List.length t.read
  rw [length_map, length_map] at h
  exact h.symm

end HexText

theorem hexDigits_of_read {text : List Char} {digits : List Nat}
    (h : text.map hexDigit = digits.map some) : hexDigits text = digits := by
  induction text generalizing digits with
  | nil =>
    cases digits with
    | nil => rfl
    | cons d rest => cases h
  | cons c text ih =>
    cases digits with
    | nil => cases h
    | cons d rest =>
      obtain ⟨hd, hrest⟩ := List.cons.inj h
      rw [hexDigits, hd, ih hrest]

theorem hexDigit_ne {c d : Char} {v : Nat} (h : hexDigit c = some v) (hd : hexDigit d = none) :
    c ≠ d := by
  intro heq
  rw [heq, hd] at h
  cases h

theorem not_space_of_hexDigit {c : Char} {v : Nat} (h : hexDigit c = some v) :
    ¬ (c = ' ' ∨ ('\t' ≤ c ∧ c ≤ '\r')) := by
  rintro (hspace | ⟨_, hle⟩)
  · exact hexDigit_ne h (by decide) hspace
  · have hnone : hexDigit c = none := by
      unfold hexDigit
      have hlt : forall x : Char, '\r' < x -> ¬ x ≤ c :=
        fun x hx hxc => absurd (hxc.trans hle) (not_le_of_gt hx)
      rw [if_neg fun hc => hlt '0' (by decide) hc.1, if_neg fun hc => hlt 'a' (by decide) hc.1,
        if_neg fun hc => hlt 'A' (by decide) hc.1]
    rw [hnone] at h
    cases h

theorem strtoull16_of_digit {c : Char} {d : Nat} (h : hexDigit c = some d) {rest : List Char}
    {value : Nat} (hvalue : hexValue (hexDigits (skipMarker (c :: rest))) = value)
    (hsmall : value < 2 ^ 64) : strtoull16 (c :: rest) = value := by
  have hminus : c ≠ '-' := hexDigit_ne h (by decide)
  have hplus : c ≠ '+' := hexDigit_ne h (by decide)
  unfold strtoull16
  simp only [dropWhile_cons, decide_eq_false (not_space_of_hexDigit h), Bool.false_eq_true,
    if_false, head?_cons, Option.some.injEq, hminus, hplus, or_self, hvalue,
    not_le_of_gt hsmall]

section

variable {c0 c1 c2 c3 : Char} {d0 d1 d2 d3 : Nat}

theorem strtoull16_four (h0 : hexDigit c0 = some d0) (h1 : hexDigit c1 = some d1)
    (h2 : hexDigit c2 = some d2) (h3 : hexDigit c3 = some d3) :
    strtoull16 [c0, c1, c2, c3] = hexValue [d0, d1, d2, d3] := by
  have hx : c1 ≠ 'x' := hexDigit_ne h1 (by decide)
  have hX : c1 ≠ 'X' := hexDigit_ne h1 (by decide)
  have hskip : skipMarker [c0, c1, c2, c3] = [c0, c1, c2, c3] := by
    unfold skipMarker
    simp only [hx, hX, or_self, false_and, and_false, if_false]
  have hdigits : hexDigits [c0, c1, c2, c3] = [d0, d1, d2, d3] :=
    hexDigits_of_read (by simp [h0, h1, h2, h3])
  apply strtoull16_of_digit h0
  · rw [hskip, hdigits]
  · rw [hexValue_four]
    have := hexDigit_lt h0
    have := hexDigit_lt h1
    have := hexDigit_lt h2
    have := hexDigit_lt h3
    omega

theorem strtoull16_marker (h0 : hexDigit c0 = some d0) (h1 : hexDigit c1 = some d1) :
    strtoull16 ['0', 'x', c0, c1] = hexValue [0, 0, d0, d1] := by
  have hskip : skipMarker ['0', 'x', c0, c1] = [c0, c1] := by
    unfold skipMarker
    simp [h0]
  have hdigits : hexDigits [c0, c1] = [d0, d1] := hexDigits_of_read (by simp [h0, h1])
  have hzero : hexDigit '0' = some 0 := rfl
  apply strtoull16_of_digit hzero
  · rw [hskip, hdigits, hexValue_four]
    simp only [hexValue, reverse_cons, reverse_nil, nil_append, cons_append,
      Nat.ofDigits_cons, Nat.ofDigits_nil]
    omega
  · rw [hexValue_four]
    have := hexDigit_lt h0
    have := hexDigit_lt h1
    omega

end

end Htx.Library
