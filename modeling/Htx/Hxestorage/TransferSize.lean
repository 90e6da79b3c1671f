import Htx.Hxestorage.TransferLength
import Htx.Library.Fields

/-!
# The texts of a transfer size

The values of a `TRANSFER_SIZE` line are read by two pieces of code, one for rule stanzas
and one for templates.
-/

namespace Htx.Hxestorage

open List Option XferSize Nat Char Library

/-!
# Numbers
-/

def strtoll10 : List Char -> Int
  | '-' :: digits => max (-2 ^ 63) (-(ofDigitChars 10 digits 0 : Int))
  | digits => min (2 ^ 63 - 1) (ofDigitChars 10 digits 0)

def longMul (a b : Int) : Option Int :=
  if -2 ^ 63 ≤ a * b ∧ a * b < 2 ^ 63 then some (a * b) else none

def signOf (str : List Char) : List Char :=
  if str.head? = some '-' then ['-'] else []

section

variable (blksize : Nat)

def applySuffix (size : Int) (rest : List Char) : Option Int :=
  match rest with
  | [] => some size
  | c :: _ =>
    if c = 'K' ∨ c = 'k' then longMul size 1024
    else if c = 'M' ∨ c = 'm' then longMul size (1024 * 1024)
    else if c = 'G' ∨ c = 'g' then longMul size (1024 * 1024 * 1024)
    else if rest.map toUpper = ['B', 'L', 'K'] then longMul size blksize
    else some size

def getValue (str : List Char) : Option Int :=
  let sign := signOf str
  let body := str.drop sign.length
  let number := sign ++ body.takeWhile isDigit
  if 64 ≤ number.length then none
  else applySuffix blksize (strtoll10 number) (body.dropWhile isDigit)

/-!
# The two parsers
-/

def chrPtr (parts : List (List Char)) : Option (List (List Char)) :=
  if parts.length ≤ 3 ∧ forall part, part ∈ parts -> part.length < 32 then some parts else none

def isBracket (c : Char) : Bool :=
  c = '[' ∨ c = ',' ∨ c = ']'

def isMinus (c : Char) : Bool :=
  c = '-'

def toInt (v : Int) : Int :=
  signed32 (u64 v)

def fixedSize (str : List Char) : Option XferSize :=
  (getValue blksize str).map fun v => normalize blksize ⟨u64 v, u64 v, 0⟩

def ruleLimits (first : List Char) : Option (Int × Int) :=
  if '-' ∈ first then
    match fields isMinus first with
    | low :: high :: _ =>
      match getValue blksize low, getValue blksize high with
      | some low, some high => some (low, high)
      | _, _ => none
    | _ => none
  else (getValue blksize first).map fun v => (v, v)

def parseRuleSize (str : List Char) : Option XferSize :=
  if str.head? ≠ some '[' then fixedSize blksize str
  else if 64 ≤ str.length then none
  else
    match chrPtr (fields isBracket str) with
    | some (first :: others) =>
      let last := (first :: others).getLast (List.cons_ne_nil first others)
      let increment := if ',' ∈ str then getValue blksize last else some 0
      match increment, ruleLimits blksize first with
      | some increment, some limits =>
        some (normalize blksize ⟨u64 limits.1, u64 limits.2, toInt increment⟩)
      | _, _ => none
    | _ => none

def templateLimits (first : List Char) : Option (Int × Int) :=
  match chrPtr (fields isMinus first) with
  | some [low] => (getValue blksize low).map fun v => (v, v)
  | some (low :: high :: _) =>
    match getValue blksize low, getValue blksize high with
    | some low, some high => some (low, high)
    | _, _ => none
  | _ => none

def parseTemplateSize (str : List Char) : Option XferSize :=
  if 64 ≤ str.length then none
  else if str.head? ≠ some '[' then fixedSize blksize str
  else
    match chrPtr (fields isBracket str) with
    | some (first :: others) =>
      let last := (first :: others).getLast (List.cons_ne_nil first others)
      let increment := if others = [] then some 0 else getValue blksize last
      match increment, templateLimits blksize first with
      | some increment, some limits =>
        some (normalize blksize ⟨u64 limits.1, u64 limits.2, toInt increment⟩)
      | _, _ => none
    | _ => none

end

/-!
# The documented forms
-/

inductive NumberSuffix where
  | bytes
  | kilo (upper : Bool)
  | mega (upper : Bool)
  | giga (upper : Bool)
  | blk (upperB upperL upperK : Bool)
  deriving DecidableEq

def letter (upper : Bool) (c : Char) : Char :=
  if upper then c.toUpper else c

namespace NumberSuffix

def text : NumberSuffix -> List Char
  | .bytes => []
  | .kilo upper => [letter upper 'k']
  | .mega upper => [letter upper 'm']
  | .giga upper => [letter upper 'g']
  | .blk b l k => [letter b 'b', letter l 'l', letter k 'k']

def unit (blksize : Nat) : NumberSuffix -> Nat
  | .bytes => 1
  | .kilo _ => 1024
  | .mega _ => 1024 * 1024
  | .giga _ => 1024 * 1024 * 1024
  | .blk _ _ _ => blksize

end NumberSuffix

structure NumberText where
  digits : List Char
  suffix : NumberSuffix
  digits_ne : digits ≠ []
  isDigit : forall c, c ∈ digits -> c.isDigit = true

namespace NumberText

variable (blksize : Nat) (n : NumberText) (negative : Bool)

def text : List Char :=
  (if negative then ['-'] else []) ++ n.digits ++ n.suffix.text

def value : Int :=
  (if negative then max (-2 ^ 63) (-(ofDigitChars 10 n.digits 0 : Int))
    else min (2 ^ 63 - 1) (ofDigitChars 10 n.digits 0)) * n.suffix.unit blksize

def IsLong : Prop :=
  -2 ^ 63 ≤ n.value blksize negative ∧ n.value blksize negative < 2 ^ 63

instance : Decidable (n.IsLong blksize negative) :=
  inferInstanceAs (Decidable (_ ∧ _))

end NumberText

inductive SizeText where
  | fixed (n : NumberText)
  | single (n : NumberText)
  | range (n m : NumberText)
  | stepped (n m : NumberText) (negative : Bool) (i : NumberText)

namespace SizeText

def text : SizeText -> List Char
  | .fixed n => n.text false
  | .single n => '[' :: n.text false ++ [']']
  | .range n m => '[' :: n.text false ++ '-' :: m.text false ++ [']']
  | .stepped n m negative i =>
    '[' :: n.text false ++ '-' :: m.text false ++ ',' :: i.text negative ++ [']']

def values (blksize : Nat) : SizeText -> XferSize
  | .fixed n => ⟨u64 (n.value blksize false), u64 (n.value blksize false), 0⟩
  | .single n => ⟨u64 (n.value blksize false), u64 (n.value blksize false), 0⟩
  | .range n m => ⟨u64 (n.value blksize false), u64 (m.value blksize false), 0⟩
  | .stepped n m negative i =>
    ⟨u64 (n.value blksize false), u64 (m.value blksize false), toInt (i.value blksize negative)⟩

def Fits (blksize : Nat) (t : SizeText) : Prop :=
  t.text.length < 64 ∧
    match t with
    | .fixed n => n.IsLong blksize false
    | .single n => (n.text false).length < 32 ∧ n.IsLong blksize false
    | .range n m =>
      (n.text false ++ '-' :: m.text false).length < 32 ∧ n.IsLong blksize false ∧
        m.IsLong blksize false
    | .stepped n m negative i =>
      (n.text false ++ '-' :: m.text false).length < 32 ∧ (i.text negative).length < 32 ∧
        n.IsLong blksize false ∧ m.IsLong blksize false ∧ i.IsLong blksize negative

instance decidableFits (blksize : Nat) : (t : SizeText) -> Decidable (t.Fits blksize)
  | .fixed _ => inferInstanceAs (Decidable (_ ∧ _))
  | .single _ => inferInstanceAs (Decidable (_ ∧ _ ∧ _))
  | .range _ _ => inferInstanceAs (Decidable (_ ∧ _ ∧ _ ∧ _))
  | .stepped _ _ _ _ => inferInstanceAs (Decidable (_ ∧ _ ∧ _ ∧ _ ∧ _ ∧ _))

end SizeText

/-!
# Reading a number
-/

theorem NumberSuffix.text_plain (suffix : NumberSuffix) : forall c, c ∈ suffix.text ->
      c.isDigit = false ∧ isBracket c = false ∧ isMinus c = false := by
  have hall : suffix.text.all (fun c => !c.isDigit && (!isBracket c && !isMinus c)) = true := by
    cases suffix with
    | bytes => rfl
    | kilo upper | mega upper | giga upper => cases upper <;> rfl
    | blk b l k => cases b <;> cases l <;> cases k <;> rfl
  intro c hc
  simpa using all_eq_true.mp hall c hc

theorem NumberSuffix.span_text (suffix : NumberSuffix) :
    suffix.text.takeWhile isDigit = [] ∧
      suffix.text.dropWhile isDigit = suffix.text := by
  cases suffix with
  | bytes => exact ⟨rfl, rfl⟩
  | kilo upper | mega upper | giga upper => cases upper <;> exact ⟨rfl, rfl⟩
  | blk b l k => cases b <;> cases l <;> cases k <;> exact ⟨rfl, rfl⟩

theorem digit_plain {c : Char} (h : c.isDigit = true) :
    isBracket c = false ∧ isMinus c = false := by
  constructor
  · unfold isBracket
    rw [decide_eq_false_iff_not]
    rintro (rfl | rfl | rfl) <;> cases h
  · unfold isMinus
    rw [decide_eq_false_iff_not]
    rintro rfl
    cases h

theorem applySuffix_text {size : Int} (hlow : -2 ^ 63 ≤ size) (hhigh : size < 2 ^ 63)
    (blksize : Nat) (suffix : NumberSuffix) :
    applySuffix blksize size suffix.text = longMul size (suffix.unit blksize) := by
  cases suffix with
  | bytes =>
    rw [longMul, NumberSuffix.unit, cast_one, mul_one, if_pos ⟨hlow, hhigh⟩]
    rfl
  | kilo upper | mega upper | giga upper => cases upper <;> rfl
  | blk b l k => cases b <;> cases l <;> cases k <;> rfl

namespace NumberText

variable (n : NumberText) (blksize : Nat)

def sign (negative : Bool) : List Char :=
  if negative then ['-'] else []

theorem text_eq (negative : Bool) :
    n.text negative = sign negative ++ (n.digits ++ n.suffix.text) := by
  rw [text, sign, append_assoc]

theorem text_ne (negative : Bool) : n.text negative ≠ [] := by
  have hne := n.digits_ne
  rw [text_eq]
  simp [hne]

theorem text_not_bracket (negative : Bool) :
    forall c, c ∈ n.text negative -> isBracket c = false := by
  intro c hc
  rw [text_eq, mem_append, mem_append] at hc
  rcases hc with hsign | hdigit | hsuffix
  · cases negative with
    | false => cases hsign
    | true =>
      rw [mem_singleton.mp hsign]
      rfl
  · exact (digit_plain (n.isDigit c hdigit)).1
  · exact (n.suffix.text_plain c hsuffix).2.1

theorem text_not_minus : forall c, c ∈ n.text false -> isMinus c = false := by
  intro c hc
  rw [text_eq, mem_append, mem_append] at hc
  rcases hc with hsign | hdigit | hsuffix
  · cases hsign
  · exact (digit_plain (n.isDigit c hdigit)).2
  · exact (n.suffix.text_plain c hsuffix).2.2

theorem minus_notMem_text : '-' ∉ n.text false := by
  intro hmem
  cases n.text_not_minus '-' hmem

theorem digits_ne_minus (rest : List Char) : n.digits ≠ '-' :: rest := by
  intro hdigits
  have hdigit := n.isDigit '-' (by rw [hdigits]; exact mem_cons_self)
  cases hdigit

theorem signOf_text (negative : Bool) : signOf (n.text negative) = sign negative := by
  cases negative with
  | true => rfl
  | false =>
    cases hdigits : n.digits with
    | nil => exact absurd hdigits n.digits_ne
    | cons c digits =>
      have hminus : c ≠ '-' := by
        rintro rfl
        exact n.digits_ne_minus digits hdigits
      rw [text_eq, hdigits, signOf, if_neg]
      · rfl
      · simp [sign, hminus]

theorem strtoll10_sign (negative : Bool) : strtoll10 (sign negative ++ n.digits) =
      if negative then max (-2 ^ 63) (-(ofDigitChars 10 n.digits 0 : Int))
      else min (2 ^ 63 - 1) (ofDigitChars 10 n.digits 0) := by
  cases negative with
  | true => rfl
  | false =>
    rw [sign, if_neg Bool.false_ne_true, nil_append, strtoll10]
    · rfl
    · exact n.digits_ne_minus

def checked (negative : Bool) : Option Int :=
  longMul (if negative then max (-2 ^ 63) (-(ofDigitChars 10 n.digits 0 : Int))
    else min (2 ^ 63 - 1) (ofDigitChars 10 n.digits 0)) (n.suffix.unit blksize)

variable {negative : Bool}

theorem checked_of_isLong (h : n.IsLong blksize negative) :
    n.checked blksize negative = some (n.value blksize negative) :=
  if_pos h

theorem checked_of_not_isLong (h : ¬ n.IsLong blksize negative) :
    n.checked blksize negative = none :=
  if_neg h

theorem getValue_text (hlen : (n.text negative).length < 64) :
    getValue blksize (n.text negative) = n.checked blksize negative := by
  have htake : (n.digits ++ n.suffix.text).takeWhile Char.isDigit = n.digits := by
    rw [takeWhile_append_of_pos n.isDigit, n.suffix.span_text.1, append_nil]
  have hdrop : (n.digits ++ n.suffix.text).dropWhile Char.isDigit = n.suffix.text := by
    rw [dropWhile_append_of_pos n.isDigit, n.suffix.span_text.2]
  have hshort : ¬ 64 ≤ (sign negative ++ n.digits).length := by
    rw [text_eq, length_append, length_append] at hlen
    rw [length_append]
    omega
  unfold getValue
  dsimp only
  rw [signOf_text, text_eq, drop_left, htake, hdrop, if_neg hshort, strtoll10_sign, checked]
  apply applySuffix_text
  · split <;> omega
  · split <;> omega

end NumberText

/-!
# Cutting a text into its parts
-/

section

variable (n m : NumberText) (blksize : Nat)

theorem range_not_bracket :
    forall c, c ∈ n.text false ++ '-' :: m.text false -> isBracket c = false := by
  intro c hc
  rw [mem_append, mem_cons] at hc
  rcases hc with hn | rfl | hm
  · exact n.text_not_bracket false c hn
  · rfl
  · exact m.text_not_bracket false c hm

theorem fields_brackets {part : List Char} (hne : part ≠ [])
    (hpart : forall c, c ∈ part -> isBracket c = false) :
    fields isBracket ('[' :: part ++ [']']) = [part] := by
  rw [cons_append, fields_separator rfl, fields_append hne hpart rfl, fields_nil]

theorem fields_brackets_two {part other : List Char} (hne : part ≠ [])
    (hpart : forall c, c ∈ part -> isBracket c = false) (hother : other ≠ [])
    (hotherPart : forall c, c ∈ other -> isBracket c = false) :
    fields isBracket ('[' :: part ++ ',' :: other ++ [']']) = [part, other] := by
  rw [append_assoc, cons_append, fields_separator rfl, cons_append,
    fields_append hne hpart rfl, fields_append hother hotherPart rfl, fields_nil]

theorem fields_minus : fields isMinus (n.text false) = [n.text false] :=
  fields_last (n.text_ne false) n.text_not_minus

theorem fields_minus_two :
    fields isMinus (n.text false ++ '-' :: m.text false) = [n.text false, m.text false] := by
  rw [fields_append (n.text_ne false) n.text_not_minus rfl, fields_minus]

def checkedPair : Option (Int × Int) :=
  match n.checked blksize false, m.checked blksize false with
  | some low, some high => some (low, high)
  | _, _ => none

variable {n m}

theorem chrPtr_one (part : List Char) :
    chrPtr [part] = if part.length < 32 then some [part] else none := by
  simp [chrPtr]

theorem chrPtr_two (part other : List Char) : chrPtr [part, other] =
      if part.length < 32 ∧ other.length < 32 then some [part, other] else none := by
  simp [chrPtr]

theorem ruleLimits_one (hlen : (n.text false).length < 32) :
    ruleLimits blksize (n.text false) = (n.checked blksize false).map fun v => (v, v) := by
  rw [ruleLimits, if_neg n.minus_notMem_text, n.getValue_text blksize (by omega)]

theorem templateLimits_one (hlen : (n.text false).length < 32) :
    templateLimits blksize (n.text false) = (n.checked blksize false).map fun v => (v, v) := by
  rw [templateLimits, fields_minus, chrPtr_one, if_pos hlen]
  dsimp only
  rw [n.getValue_text blksize (by omega)]

section

variable (hlen : (n.text false ++ '-' :: m.text false).length < 32)

include hlen

theorem length_parts : (n.text false).length < 32 ∧ (m.text false).length < 32 := by
  rw [length_append, length_cons] at hlen
  omega

theorem ruleLimits_two :
    ruleLimits blksize (n.text false ++ '-' :: m.text false) = checkedPair n m blksize := by
  have hparts := length_parts hlen
  rw [ruleLimits, if_pos (by simp), fields_minus_two]
  dsimp only
  rw [n.getValue_text blksize (by omega), m.getValue_text blksize (by omega)]
  rfl

theorem templateLimits_two :
    templateLimits blksize (n.text false ++ '-' :: m.text false) = checkedPair n m blksize := by
  have hlens := length_parts hlen
  rw [templateLimits, fields_minus_two, chrPtr_two, if_pos hlens]
  dsimp only
  rw [n.getValue_text blksize (by omega), m.getValue_text blksize (by omega)]
  rfl

end

end

/-!
# The parsers on a text in brackets
-/

section

variable {blksize : Nat} {part other : List Char}

def sizeOfLimits (blksize : Nat) (limits : Option (Int × Int)) : Option XferSize :=
  limits.map fun l => normalize blksize ⟨u64 l.1, u64 l.2, 0⟩

def sizeOfStep (blksize : Nat) (increment : Option Int) (limits : Option (Int × Int)) :
    Option XferSize :=
  match increment, limits with
  | some increment, some l =>
    some (normalize blksize ⟨u64 l.1, u64 l.2, toInt increment⟩)
  | _, _ => none

theorem sizeOfStep_zero (limits : Option (Int × Int)) :
    sizeOfStep blksize (some 0) limits = sizeOfLimits blksize limits := by
  cases limits <;> rfl

variable {limits : Option (Int × Int)} (hne : part ≠ [])
  (hpart : forall c, c ∈ part -> isBracket c = false)
  (hrule : part.length < 32 -> ruleLimits blksize part = limits)
  (htemplate : part.length < 32 -> templateLimits blksize part = limits)

include hne hpart hrule htemplate

theorem parse_brackets (hlen : ('[' :: part ++ [']']).length < 64) :
    let size := if part.length < 32 then sizeOfLimits blksize limits else none
    parseRuleSize blksize ('[' :: part ++ [']']) = size ∧
      parseTemplateSize blksize ('[' :: part ++ [']']) = size := by
  have hcomma : ',' ∉ '[' :: part ++ [']'] := by
    intro hmem
    simp only [cons_append, mem_cons, mem_append, not_mem_nil, or_false] at hmem
    rcases hmem with heq | hmem | heq
    · cases heq
    · cases hpart ',' hmem
    · cases heq
  have hhead : ¬ ('[' :: part ++ [']']).head? ≠ some '[' := by simp
  dsimp only
  rw [parseRuleSize, if_neg hhead, if_neg (not_le.mpr hlen), parseTemplateSize,
    if_neg (not_le.mpr hlen), if_neg hhead, fields_brackets hne hpart, chrPtr_one]
  by_cases hshort : part.length < 32
  · rw [if_pos hshort, if_pos hshort]
    dsimp only
    rw [if_neg hcomma, if_pos rfl, hrule hshort, htemplate hshort, ← sizeOfStep_zero]
    exact ⟨rfl, rfl⟩
  · rw [if_neg hshort, if_neg hshort]
    exact ⟨rfl, rfl⟩

theorem parse_brackets_two {increment : Option Int} (hother : other ≠ [])
    (hotherPart : forall c, c ∈ other -> isBracket c = false)
    (hvalue : other.length < 32 -> getValue blksize other = increment)
    (hlen : ('[' :: part ++ ',' :: other ++ [']']).length < 64) :
    let size := if part.length < 32 ∧ other.length < 32 then
      sizeOfStep blksize increment limits else none
    parseRuleSize blksize ('[' :: part ++ ',' :: other ++ [']']) = size ∧
      parseTemplateSize blksize ('[' :: part ++ ',' :: other ++ [']']) = size := by
  have hhead : ¬ ('[' :: part ++ ',' :: other ++ [']']).head? ≠ some '[' := by simp
  dsimp only
  rw [parseRuleSize, if_neg hhead, if_neg (not_le.mpr hlen), parseTemplateSize,
    if_neg (not_le.mpr hlen), if_neg hhead,
    fields_brackets_two hne hpart hother hotherPart, chrPtr_two]
  by_cases hshort : part.length < 32 ∧ other.length < 32
  · rw [if_pos hshort, if_pos hshort]
    dsimp only
    rw [if_pos (by simp), if_neg (cons_ne_nil _ _), hrule hshort.1, htemplate hshort.1]
    rw [getLast_cons (cons_ne_nil _ _), getLast_singleton, hvalue hshort.2]
    exact ⟨rfl, rfl⟩
  · rw [if_neg hshort, if_neg hshort]
    exact ⟨rfl, rfl⟩
end

namespace SizeText

variable {blksize : Nat}

def parsed (blksize : Nat) : SizeText -> Option XferSize
  | .fixed n => sizeOfLimits blksize ((n.checked blksize false).map fun v => (v, v))
  | .single n =>
    if (n.text false).length < 32 then
      sizeOfLimits blksize ((n.checked blksize false).map fun v => (v, v))
    else none
  | .range n m =>
    if (n.text false ++ '-' :: m.text false).length < 32 then
      sizeOfLimits blksize (checkedPair n m blksize)
    else none
  | .stepped n m negative i =>
    if (n.text false ++ '-' :: m.text false).length < 32 ∧ (i.text negative).length < 32 then
      sizeOfStep blksize (i.checked blksize negative) (checkedPair n m blksize)
    else none

theorem head_fixed (n : NumberText) : (n.text false).head? ≠ some '[' := by
  intro hhead
  have hmem := mem_of_mem_head? hhead
  cases n.text_not_bracket false '[' hmem

theorem fixedSize_text (n : NumberText) (hlen : (n.text false).length < 64) :
    fixedSize blksize (n.text false) = parsed blksize (.fixed n) := by
  rw [fixedSize, n.getValue_text blksize hlen, parsed, sizeOfLimits, Option.map_map]
  rfl

theorem parse_text (t : SizeText) (hlen : t.text.length < 64) :
    parseRuleSize blksize t.text = t.parsed blksize ∧
      parseTemplateSize blksize t.text = t.parsed blksize := by
  cases t with
  | fixed n =>
    rw [text] at hlen ⊢
    constructor
    · rw [parseRuleSize, if_pos (head_fixed n), fixedSize_text n hlen]
    · rw [parseTemplateSize, if_neg (not_le.mpr hlen), if_pos (head_fixed n), fixedSize_text n hlen]
  | single n =>
    exact parse_brackets (n.text_ne false) (n.text_not_bracket false)
      (ruleLimits_one blksize) (templateLimits_one blksize) hlen
  | range n m =>
    have htext : text (.range n m) = '[' :: (n.text false ++ '-' :: m.text false) ++ [']'] := by
      simp [text]
    rw [htext] at hlen ⊢
    exact parse_brackets (by simp) (range_not_bracket n m)
      (ruleLimits_two blksize) (templateLimits_two blksize) hlen
  | stepped n m negative i =>
    have htext : text (.stepped n m negative i) =
        '[' :: (n.text false ++ '-' :: m.text false) ++ ',' :: i.text negative ++ [']'] := by
      simp [text]
    rw [htext] at hlen ⊢
    exact parse_brackets_two (by simp) (range_not_bracket n m)
      (ruleLimits_two blksize) (templateLimits_two blksize) (i.text_ne negative)
      (i.text_not_bracket negative) (fun h => i.getValue_text blksize (by omega)) hlen

theorem checkedPair_eq_some_iff {n m : NumberText} {l : Int × Int} :
    checkedPair n m blksize = some l <-> n.IsLong blksize false ∧ m.IsLong blksize false ∧
        l = (n.value blksize false, m.value blksize false) := by
  unfold checkedPair
  by_cases hn : n.IsLong blksize false
  · by_cases hm : m.IsLong blksize false
    · rw [n.checked_of_isLong blksize hn, m.checked_of_isLong blksize hm]
      simp [hn, hm, eq_comm]
    · rw [m.checked_of_not_isLong blksize hm]
      simp [hm]
  · rw [n.checked_of_not_isLong blksize hn]
    simp [hn]

theorem checked_eq_some_iff {n : NumberText} {negative : Bool} {v : Int} :
    n.checked blksize negative = some v <->
      n.IsLong blksize negative ∧ v = n.value blksize negative := by
  by_cases hn : n.IsLong blksize negative
  · rw [n.checked_of_isLong blksize hn]
    simp [hn, eq_comm]
  · rw [n.checked_of_not_isLong blksize hn]
    simp [hn]

theorem sizeOfLimits_eq_some_iff {limits : Option (Int × Int)} {y : XferSize} :
    sizeOfLimits blksize limits = some y <->
      exists l, limits = some l ∧ y = normalize blksize ⟨u64 l.1, u64 l.2, 0⟩ := by
  unfold sizeOfLimits
  rw [map_eq_some_iff]
  simp only [eq_comm]

theorem sizeOfStep_eq_some_iff {increment : Option Int} {limits : Option (Int × Int)}
    {y : XferSize} :
    sizeOfStep blksize increment limits = some y <->
      exists v l, increment = some v ∧ limits = some l ∧
        y = normalize blksize ⟨u64 l.1, u64 l.2, toInt v⟩ := by
  unfold sizeOfStep
  cases increment with
  | none => simp
  | some v =>
    cases limits with
    | none => simp
    | some l => simp [eq_comm]

theorem parsed_eq_some_iff (t : SizeText) (hlen : t.text.length < 64) {y : XferSize} :
    t.parsed blksize = some y <-> t.Fits blksize ∧ y = (t.values blksize).normalize blksize := by
  cases t with
  | fixed n =>
    simp only [parsed, Fits, values, hlen, true_and, sizeOfLimits_eq_some_iff,
      map_eq_some_iff, checked_eq_some_iff]
    constructor
    · intro h
      rcases h with ⟨_, ⟨v, ⟨hn, rfl⟩, rfl⟩, hy⟩
      exact ⟨hn, hy⟩
    · intro h
      exact ⟨_, ⟨_, ⟨h.1, rfl⟩, rfl⟩, h.2⟩
  | single n =>
    simp only [parsed, Fits, values, hlen, true_and, ite_none_right_eq_some,
      sizeOfLimits_eq_some_iff, map_eq_some_iff, checked_eq_some_iff]
    constructor
    · intro h
      rcases h with ⟨hshort, _, ⟨v, ⟨hn, rfl⟩, rfl⟩, hy⟩
      exact ⟨⟨hshort, hn⟩, hy⟩
    · intro h
      exact ⟨h.1.1, _, ⟨_, ⟨h.1.2, rfl⟩, rfl⟩, h.2⟩
  | range n m =>
    simp only [parsed, Fits, values, hlen, true_and, ite_none_right_eq_some,
      sizeOfLimits_eq_some_iff, checkedPair_eq_some_iff]
    constructor
    · intro h
      rcases h with ⟨hshort, _, ⟨hn, hm, rfl⟩, hy⟩
      exact ⟨⟨hshort, hn, hm⟩, hy⟩
    · intro h
      exact ⟨h.1.1, _, ⟨h.1.2.1, h.1.2.2, rfl⟩, h.2⟩
  | stepped n m negative i =>
    simp only [parsed, Fits, values, hlen, true_and, ite_none_right_eq_some,
      sizeOfStep_eq_some_iff, checkedPair_eq_some_iff, checked_eq_some_iff]
    constructor
    · intro h
      rcases h with ⟨hshort, _, _, ⟨hi, rfl⟩, ⟨hn, hm, rfl⟩, hy⟩
      exact ⟨⟨hshort.1, hshort.2, hn, hm, hi⟩, hy⟩
    · intro h
      rcases h with ⟨⟨hpart, hother, hn, hm, hi⟩, hy⟩
      exact ⟨⟨hpart, hother⟩, _, _, ⟨hi, rfl⟩, ⟨hn, hm, rfl⟩, hy⟩

end SizeText

end Htx.Hxestorage
