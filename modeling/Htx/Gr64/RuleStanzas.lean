import Htx.Gr64.GetRule

/-!
# The stanzas of a rule file

What a rule file says, read off its text without the parser: its lines, the stanzas
between blank lines, and the assignment `keyword = value` that a line makes.
-/

namespace Htx.Gr64

open List Char

/-! ## Lines, assignments and stanzas -/

def splitLines : List Char -> List (List Char)
  | [] => []
  | c :: text =>
    if c = '\n' then [c] :: splitLines text
    else
      match splitLines text with
      | [] => [[c]]
      | line :: lines => (c :: line) :: lines

def assignment (line : List Char) : List Char × List Char :=
  let text := line.dropWhile isSpace
  ((text.takeWhile (fun c => !isSpace c && c != '=')).map toUpper,
    (((text.dropWhile (· != '=')).drop 1).dropWhile isSpace).takeWhile (fun c => !isSpace c))

def stanzasFrom : List (List Char) -> List (List Char) -> List (List (List Char))
  | [], [] => []
  | stanza, [] => [stanza]
  | stanza, line :: lines =>
    if isBlank line then
      if stanza = [] then stanzasFrom [] lines else stanza :: stanzasFrom [] lines
    else if isComment line then stanzasFrom stanza lines
    else stanzasFrom (stanza ++ [line]) lines

def stanzas (content : List Char) : List (List (List Char)) :=
  stanzasFrom [] (splitLines content)

def lastAssignment (keyword : List Char) : List (List Char) -> Option (List Char)
  | [] => none
  | line :: lines =>
    (lastAssignment keyword lines).or
      (if (assignment line).1 = keyword then some (assignment line).2 else none)

def RuleDef.default? (entry : RuleDef) : Option Value :=
  entry.args.head?.bind (fun arg => entry.read (scanBound false arg).1)

def expected (entry : RuleDef) (stanza : List (List Char)) : Option Value :=
  match lastAssignment entry.keyword stanza with
  | some value => entry.read value
  | none => entry.default?

/-! ## Splitting into lines -/

variable {text line : List Char}

theorem splitLines_eq_nil (h : splitLines text = []) : text = [] := by
  cases text with
  | nil => rfl
  | cons c text =>
    rw [splitLines] at h
    split at h
    · exact nomatch h
    · split at h
      · exact nomatch h
      · exact nomatch h

theorem fgets_line :
    forall {n : Nat} {line : List Char} {lines : List (List Char)},
      splitLines text = line :: lines -> line.length ≤ n ->
      exists rest, fgets n text = (line, rest) ∧ splitLines rest = lines ∧
        rest.length < text.length := by
  induction text with
  | nil =>
    intro n line lines h _
    exact nomatch h
  | cons c text ih =>
    intro n line lines h hlen
    rw [splitLines] at h
    by_cases hc : c = '\n'
    · rw [if_pos hc] at h
      obtain ⟨rfl, rfl⟩ := List.cons.inj h
      obtain ⟨n, rfl⟩ : exists k, n = k + 1 := ⟨n - 1, by simp at hlen; omega⟩
      exact ⟨text, by rw [fgets, if_pos hc], rfl, Nat.lt_succ_self _⟩
    · rw [if_neg hc] at h
      cases hrest : splitLines text with
      | nil =>
        rw [hrest] at h
        obtain ⟨rfl, rfl⟩ := List.cons.inj h
        obtain ⟨n, rfl⟩ : exists k, n = k + 1 := ⟨n - 1, by simp at hlen; omega⟩
        have hnil : text = [] := splitLines_eq_nil hrest
        have hstop : fgets n [] = ([], []) := by
          cases n with
          | zero | succ n => rfl
        refine ⟨[], ?_, rfl, by rw [hnil]; exact Nat.lt_succ_self _⟩
        rw [fgets, if_neg hc, hnil, hstop]
      | cons first more =>
        rw [hrest] at h
        obtain ⟨rfl, rfl⟩ := List.cons.inj h
        obtain ⟨n, rfl⟩ : exists k, n = k + 1 := ⟨n - 1, by simp at hlen; omega⟩
        obtain ⟨rest, hget, hsplit, hshort⟩ := ih (n := n) hrest (by simpa using hlen)
        refine ⟨rest, ?_, hsplit, Nat.lt_succ_of_lt hshort⟩
        rw [fgets, if_neg hc, hget]

theorem fgetsLines_eq {content : List Char}
    (hshort : forall line, line ∈ splitLines content -> line.length ≤ buff - 1) :
    fgetsLines content = splitLines content := by
  have hloop : forall (fuel : Nat) (text : List Char), text.length ≤ fuel ->
      (forall line, line ∈ splitLines text -> line.length ≤ buff - 1) ->
      fgetsFrom fuel text = splitLines text := by
    intro fuel
    induction fuel with
    | zero =>
      intro text hlen _
      rw [length_eq_zero_iff.mp (Nat.le_zero.mp hlen)]
      rfl
    | succ fuel ih =>
      intro text hlen hshort
      cases hsplit : splitLines text with
      | nil =>
        rw [splitLines_eq_nil hsplit]
        rfl
      | cons line lines =>
        obtain ⟨rest, hget, hrest, hless⟩ := fgets_line hsplit
          (hshort line (by rw [hsplit]; exact mem_cons_self))
        cases text with
        | nil => exact nomatch hsplit
        | cons c text =>
          rw [fgetsFrom, hget, ih rest (by omega), hrest]
          intro other hother
          apply hshort other
          rw [hsplit]
          exact mem_cons_of_mem line (by rw [← hrest]; exact hother)
  exact hloop content.length content (le_refl _) hshort

/-! ## One line -/

theorem isSpace_toUpper (c : Char) : isSpace c.toUpper = isSpace c := by
  by_cases hlower : 'a'.val ≤ c.val ∧ c.val ≤ 'z'.val
  · have hletters : forall n : Fin 26,
        isSpace (ofNat (n.val + 97)).toUpper = isSpace (ofNat (n.val + 97)) := by
      decide
    have hlow : 97 ≤ c.toNat := UInt32.le_iff_toNat_le.mp hlower.1
    have hhigh : c.toNat ≤ 122 := UInt32.le_iff_toNat_le.mp hlower.2
    have hthis := hletters ⟨c.toNat - 97, by omega⟩
    rwa [show c.toNat - 97 + 97 = c.toNat by omega, ofNat_toNat] at hthis
  · rw [toUpper, dif_neg hlower]

theorem isAlpha_range {c : Char} (h : c.isAlpha = true) : 65 ≤ c.toNat := by
  simp only [isAlpha, isUpper, isLower, Bool.or_eq_true, Bool.and_eq_true,
    decide_eq_true_eq] at h
  rcases h with h | h
  · exact UInt32.le_iff_toNat_le.mp h.1
  · have hlow : 97 ≤ c.toNat := UInt32.le_iff_toNat_le.mp h.1
    omega

theorem inKeyword_of_isAlpha {c : Char} (h : c.isAlpha = true) :
    (!isSpace c && c != '=') = true := by
  have hlow := isAlpha_range h
  have hspace : isSpace c = false := by
    rw [isSpace, decide_eq_false_iff_not]
    rintro (rfl | ⟨-, hle⟩)
    · exact absurd hlow (by decide)
    · have hhigh : c.toNat ≤ 13 := UInt32.le_iff_toNat_le.mp hle
      omega
  have heq : c ≠ '=' := by
    rintro rfl
    exact absurd hlow (by decide)
  simp [hspace, heq]

structure LineParts (line : List Char) where
  lead : List Char
  word : List Char
  gap : List Char
  value : List Char
  line_eq : line.dropWhile isSpace = word ++ (gap ++ '=' :: value)
  lead_blank : forall c, c ∈ lead -> isSpace c = true
  word_ne : word ≠ []
  word_plain : forall c, c ∈ word -> (!isSpace c && c != '=') = true
  gap_blank : forall c, c ∈ gap -> isSpace c = true

def LineParts.buf {line : List Char} (parts : LineParts line) : List Char :=
  parts.lead ++ parts.word.map toUpper ++ parts.gap ++ ' ' :: parts.value

theorem formatLine_ok {buf : List Char} (h : formatLine line = .ok buf) :
    exists parts : LineParts line, buf = parts.buf := by
  rw [formatLine] at h
  split at h
  · exact nomatch h
  rename_i halpha
  split at h
  · exact nomatch h
  rename_i c value hgap
  split at h
  · rename_i hc
    split at h
    · exact nomatch h
    · have hword : (line.dropWhile isSpace).takeWhile (fun c => !isSpace c && c != '=') ≠ [] := by
        intro hnil
        apply halpha
        cases htext : line.dropWhile isSpace with
        | nil => rfl
        | cons d text =>
          cases hd : d.isAlpha with
          | false => exact hd
          | true =>
            have hfirst := takeWhile_cons_of_pos
              (p := fun c => !isSpace c && c != '=') (l := text) (inKeyword_of_isAlpha hd)
            rw [htext, hfirst] at hnil
            exact nomatch hnil
      have hsplit := takeWhile_append_dropWhile (p := fun c => !isSpace c && c != '=')
        (l := line.dropWhile isSpace)
      have hgapSplit := takeWhile_append_dropWhile (p := isSpace)
        (l := (line.dropWhile isSpace).dropWhile (fun c => !isSpace c && c != '='))
      rw [hgap, hc] at hgapSplit
      refine ⟨⟨line.takeWhile isSpace, _, _, value, ?_, ?_, hword, ?_, ?_⟩, (Except.ok.inj h).symm⟩
      · rw [hgapSplit, hsplit]
      · intro d hd
        exact mem_takeWhile_imp hd
      · intro d hd
        have hkept := mem_takeWhile_imp hd
        exact hkept
      · intro d hd
        exact mem_takeWhile_imp hd
  · exact nomatch h

theorem LineParts.assignment_eq (parts : LineParts line) :
    assignment line = (parts.word.map toUpper,
      (parts.value.dropWhile isSpace).takeWhile (fun c => !isSpace c)) := by
  have hstop : (parts.gap ++ '=' :: parts.value).takeWhile
      (fun c => !isSpace c && c != '=') = [] := by
    cases hgap : parts.gap with
    | nil => rfl
    | cons c gap =>
      have hc := parts.gap_blank c (by rw [hgap]; exact mem_cons_self)
      rw [cons_append, takeWhile_cons_of_neg]
      simp [hc]
  have hnoEq : forall c, c ∈ parts.word ++ parts.gap -> (c != '=') = true := by
    intro c hc
    rcases mem_append.mp hc with hc | hc
    · have hplain := parts.word_plain c hc
      rw [Bool.and_eq_true] at hplain
      exact hplain.2
    · have hblank := parts.gap_blank c hc
      rw [bne_iff_ne]
      rintro rfl
      exact absurd hblank (by decide)
  have hvalue : (parts.word ++ (parts.gap ++ '=' :: parts.value)).dropWhile (· != '=') =
      '=' :: parts.value := by
    rw [← append_assoc, dropWhile_append_of_pos hnoEq, dropWhile_cons_of_neg (by simp)]
  rw [assignment, parts.line_eq]
  simp only [takeWhile_append_of_pos parts.word_plain, hstop, hvalue, append_nil,
    drop_one, tail_cons]

theorem LineParts.buf_split (parts : LineParts line) :
    (parts.buf.dropWhile isSpace).takeWhile (fun c => !isSpace c) = parts.word.map toUpper ∧
      (parts.buf.dropWhile isSpace).dropWhile (fun c => !isSpace c) =
        parts.gap ++ ' ' :: parts.value := by
  have hword : forall c, c ∈ parts.word.map toUpper -> (!isSpace c) = true := by
    intro c hc
    obtain ⟨d, hd, rfl⟩ := mem_map.mp hc
    have hplain := parts.word_plain d hd
    rw [Bool.and_eq_true] at hplain
    rw [isSpace_toUpper]
    exact hplain.1
  have hdrop : parts.buf.dropWhile isSpace =
      parts.word.map toUpper ++ (parts.gap ++ ' ' :: parts.value) := by
    rw [LineParts.buf, append_assoc, append_assoc, dropWhile_append_of_pos parts.lead_blank]
    cases hne : parts.word with
    | nil => exact absurd hne parts.word_ne
    | cons c word =>
      have hc := hword c.toUpper (by rw [hne]; exact mem_cons_self)
      rw [map_cons, cons_append, dropWhile_cons_of_neg]
      simpa using hc
  have hfirst : exists c rest, parts.gap ++ ' ' :: parts.value = c :: rest ∧ isSpace c = true := by
    cases hgap : parts.gap with
    | nil => exact ⟨' ', parts.value, rfl, rfl⟩
    | cons c gap =>
      exact ⟨c, gap ++ ' ' :: parts.value, rfl,
        parts.gap_blank c (by rw [hgap]; exact mem_cons_self)⟩
  obtain ⟨c, rest, hcons, hc⟩ := hfirst
  rw [hdrop, takeWhile_append_of_pos hword, dropWhile_append_of_pos hword, hcons,
    takeWhile_cons_of_neg (by simp [hc]), dropWhile_cons_of_neg (by simp [hc])]
  exact ⟨append_nil _, rfl⟩

structure Accepts (table : List RuleDef) (line : List Char) (checked : Checked) : Prop where
  found : lookupRule table (assignment line).1 = some (checked.index, checked.entry)
  value : checked.value = (assignment line).2
  listed : checked.entry.args ≠ []
  read : exists value, checked.entry.read checked.value = some value

theorem validateValue_args {entry : RuleDef} {value : List Char} {lvalue : Int}
    (h : validateValue entry value lvalue = true) : entry.args ≠ [] := by
  intro hnil
  rw [validateValue, hnil] at h
  exact nomatch h

theorem checkValue_ok {index ruleidCount : Nat} {entry : RuleDef} {checked : Checked}
    (h : checkValue index entry ruleidCount text = .ok checked) :
    checked.index = index ∧ checked.entry = entry ∧
      checked.value = text.takeWhile (fun c => !isSpace c) ∧ entry.args ≠ [] ∧
      exists value, entry.read checked.value = some value := by
  rw [checkValue] at h
  split at h
  · exact nomatch h
  split at h
  · exact nomatch h
  split at h
  · exact nomatch h
  split at h
  · exact nomatch h
  split at h
  · exact nomatch h
  rename_i lvalue hnumber
  split at h
  · rename_i hvalid
    have hlisted := validateValue_args hvalid
    cases h
    refine ⟨rfl, rfl, rfl, hlisted, ?_⟩
    cases htype : entry.dataType with
    | string | long => exact ⟨_, by rw [RuleDef.read, htype]⟩
    | other code =>
      rw [checkNumber, htype] at hnumber
      exact nomatch hnumber
  · exact nomatch h

theorem checkKeywordValue_ok {table : List RuleDef} {ruleidCount : Nat} (parts : LineParts line)
    {checked : Checked} (h : checkKeywordValue table ruleidCount parts.buf = .ok checked) :
    Accepts table line checked := by
  obtain ⟨hkeyword, hbehind⟩ := parts.buf_split
  have hassignment := parts.assignment_eq
  rw [checkKeywordValue, hkeyword, hbehind] at h
  split at h
  · exact nomatch h
  split at h
  · exact nomatch h
  split at h
  · exact nomatch h
  rename_i index entry hfound
  obtain ⟨hindex, hentry, hvalue, hlisted, hread⟩ := checkValue_ok h
  have hblanks : (parts.gap ++ ' ' :: parts.value).dropWhile isSpace =
      parts.value.dropWhile isSpace := by
    rw [dropWhile_append_of_pos parts.gap_blank, dropWhile_cons_of_pos rfl]
  rw [hblanks] at hvalue
  constructor
  · rw [hassignment, hindex, hentry]
    exact hfound
  · rw [hassignment]
    exact hvalue
  · rw [hentry]
    exact hlisted
  · rw [hentry]
    exact hread

end Htx.Gr64
