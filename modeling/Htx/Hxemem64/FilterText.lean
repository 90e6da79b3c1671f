import Htx.Hxemem64.CpuFilter

/-!
# The documented form of a CPU filter

A filter is `N<tok>P<tok>C<tok>T<tok>`, where `<tok>` is `*`, a number, a list of numbers,
ranges and percentages in brackets, or a percentage.
-/

namespace Htx.Hxemem64

open List Gr64 Library

structure Numeral where
  text : List Char
  text_ne : text ≠ []
  digits : forall c, c ∈ text -> c.isDigit = true

def Numeral.value (n : Numeral) : Nat :=
  Gr64.decimal n.text

structure Percentage extends Numeral where
  le_hundred : toNumeral.value ≤ 100

structure NumeralRange where
  first : Numeral
  last : Numeral
  first_le_last : first.value ≤ last.value

inductive Entry where
  | single (n : Numeral)
  | range (r : NumeralRange)
  | percent (p : Percentage)

inductive Token where
  | all
  | number (n : Numeral)
  | list (first : Entry) (others : List Entry)
  | percent (p : Percentage)

structure CpuFilter where
  node : Token
  chip : Token
  core : Token
  thread : Token

/-! ## Texts -/

def Entry.text : Entry -> List Char
  | .single n => n.text
  | .range r => r.first.text ++ '-' :: r.last.text
  | .percent p => '%' :: p.text

def listText : Entry -> List Entry -> List Char
  | e, [] => e.text ++ [']']
  | e, e' :: es => e.text ++ ',' :: listText e' es

def Token.text : Token -> List Char
  | .all => ['*']
  | .number n => n.text
  | .list e es => '[' :: listText e es
  | .percent p => '%' :: p.text

def CpuFilter.token (f : CpuFilter) : Level -> Token
  | .node => f.node
  | .chip => f.chip
  | .core => f.core
  | .thread => f.thread

def CpuFilter.text (f : CpuFilter) : List Char :=
  'N' :: f.node.text ++ 'P' :: f.chip.text ++ 'C' :: f.core.text ++ 'T' :: f.thread.text

/-! ## Meaning -/

def Percentage.places (p : Percentage) (size : Nat) : Nat :=
  max 1 (size * p.value / 100)

def Entry.picks (size : Nat) : Entry -> Nat -> Bool
  | .single n, i => i = n.value
  | .range r, i => r.first.value ≤ i ∧ i ≤ r.last.value
  | .percent p, i => i < p.places size

def Token.matches (size : Nat) : Token -> Nat -> Bool
  | .all, i => i < size
  | .number n, i => i = n.value
  | .list e es, i => (e :: es).any fun e => e.picks size i
  | .percent p, i => i < p.places size

def Token.picks (size : Nat) (t : Token) (i : Nat) : Bool :=
  decide (i < size) && t.matches size i

/-! ## What the parser needs and counts -/

def Entry.Fits (size : Nat) : Entry -> Prop
  | .single n => n.value < size
  | .range r => r.last.value < size ∧ r.first.text.length + r.last.text.length < 7
  | .percent _ => True

def Token.Fits (size : Nat) : Token -> Prop
  | .all => True
  | .number n => n.value < size
  | .list e es => (e :: es).length < 16 ∧ forall e', e' ∈ e :: es -> e'.Fits size
  | .percent _ => True

def Entry.mark (level : Level) (size : Nat) (m : Marking) (e : Entry) : Marking where
  marked := fun i => m.marked i || e.picks size i
  count :=
    match e with
    | .single n => if level = .chip ∧ m.marked n.value = true then m.count else m.count + 1
    | .range r => m.count + (r.last.value + 1 - r.first.value)
    | .percent p => p.places size

open Entry

def Token.count (level : Level) (size : Nat) (marked : Nat -> Bool) : Token -> Nat
  | .all => size
  | .number _ => 1
  | .list e es => ((e :: es).foldl (mark level size) ⟨marked, 0⟩).count
  | .percent p => p.places size

/-! ## Reading numbers -/

variable {c : Char}

theorem isDigit_bounds (h : c.isDigit = true) : 48 ≤ c.toNat ∧ c.toNat ≤ 57 := by
  simp only [Char.isDigit, Bool.and_eq_true, decide_eq_true_eq, ge_iff_le,
    UInt32.le_iff_toNat_le] at h
  exact h

theorem ne_of_isDigit {c d : Char} (h : c.isDigit = true) (hd : d.isDigit = false) : c ≠ d := by
  intro heq
  rw [heq, hd] at h
  cases h

theorem not_isSpace_of_isDigit (h : c.isDigit = true) : isSpace c = false := by
  have hbounds := isDigit_bounds h
  have hle : ¬ c ≤ '\r' := by
    rw [Char.le_def, UInt32.le_iff_toNat_le]
    exact fun hc => absurd (hbounds.1.trans hc) (by decide)
  simp [isSpace, hle, ne_of_isDigit h (show ' '.isDigit = false by decide)]

theorem Numeral.strtol_append (n : Numeral) {rest : List Char}
    (hrest : forall c, rest.head? = some c -> c.isDigit = false) :
    strtol (n.text ++ rest) = (min longMax n.value, rest) := by
  have htake : rest.takeWhile Char.isDigit = [] := by
    cases rest with
    | nil => rfl
    | cons c rest => simp [hrest c rfl]
  have hdrop : rest.dropWhile Char.isDigit = rest := by
    cases rest with
    | nil => rfl
    | cons c rest => simp [hrest c rfl]
  have hdigits : (n.text ++ rest).takeWhile Char.isDigit = n.text := by
    rw [takeWhile_append_of_pos n.digits, htake, append_nil]
  have hend : (n.text ++ rest).dropWhile Char.isDigit = rest := by
    rw [dropWhile_append_of_pos n.digits, hdrop]
  have hne := n.text_ne
  have hvalue : n.value = decimal n.text := rfl
  rw [hvalue]
  -- the first digit is neither a space nor a sign
  cases htext : n.text with
  | nil => exact absurd htext hne
  | cons c cs =>
    have hc : c.isDigit = true := n.digits c (by rw [htext]; exact mem_cons_self)
    have hminus : c ≠ '-' := ne_of_isDigit hc (by decide)
    have hplus : c ≠ '+' := ne_of_isDigit hc (by decide)
    rw [htext, cons_append] at hdigits hend
    simp [strtol, not_isSpace_of_isDigit hc, hminus, hplus, hdigits, hend]

theorem percentOf_eq {size num : Nat} (hsize : size ≤ 24) (hnum : num ≤ 100) :
    percentOf size num = (size * num / 100 : Nat) := by
  have hall : forall s, s < 25 -> forall k, k < 101 ->
      percentOf s (k : Nat) = (s * k / 100 : Nat) := by
    decide +kernel
  exact hall size (by omega) num (by omega)

variable {size : Nat}

namespace Numeral

variable (n : Numeral)

theorem strtol_text : strtol n.text = (min longMax n.value, []) := by
  have h := @Numeral.strtol_append n [] (fun c hc => by cases hc)
  rwa [append_nil] at h

theorem not_mem_text {d : Char} (hd : d.isDigit = false) : d ∉ n.text :=
  fun hmem => ne_of_isDigit (n.digits d hmem) hd rfl

theorem le_min_longMax_iff (hsize : size ≤ 24) :
    (size : Int) ≤ min longMax n.value <-> size ≤ n.value := by
  rw [le_min_iff]
  have : (size : Int) ≤ longMax := by
    unfold longMax
    omega
  constructor
  · exact fun h => Int.ofNat_le.mp h.2
  · exact fun h => ⟨this, Int.ofNat_le.mpr h⟩

theorem min_longMax_eq (h : n.value ≤ 100) : min longMax (n.value : Int) = n.value := by
  apply min_eq_right
  unfold longMax
  omega

theorem readNumber_of_lt (hsize : size ≤ 24) (hlt : n.value < size) :
    readNumber size n.text = .ok n.value := by
  have hpos : ¬ (n.value : Int) < 0 := by omega
  have hle : ¬ (size : Int) ≤ n.value := by omega
  simp [readNumber, n.strtol_text, n.min_longMax_eq (by omega), hpos, hle, n.text_ne.symm]

theorem readNumber_of_le (hsize : size ≤ 24) (hle : size ≤ n.value) :
    readNumber size n.text = .error .failure := by
  simp only [readNumber, n.strtol_text, (n.le_min_longMax_iff hsize).mpr hle, true_or, or_true,
    if_true]

end Numeral

theorem Percentage.strtol_text (p : Percentage) : (strtol p.text).1 = p.value := by
  rw [p.toNumeral.strtol_text, p.min_longMax_eq p.le_hundred]

theorem Percentage.atoi_text (p : Percentage) : atoi p.text = p.value := by
  have hle := p.le_hundred
  rw [atoi, p.strtol_text]
  exact Int.bmod_eq_of_le (by omega) (by omega)

theorem markPercent_value (p : Percentage) (hsize : size ≤ 24) (marked : Nat -> Bool) :
    markPercent size p.value marked =
      .ok ⟨fun i => marked i || decide (i < p.places size), p.places size⟩ := by
  have hle : size * p.value / 100 ≤ size :=
    Nat.div_le_of_le_mul (by rw [Nat.mul_comm]; exact Nat.mul_le_mul_right size p.le_hundred)
  have hplaces : (if size * p.value / 100 = 0 then 1 else size * p.value / 100) =
      p.places size := by
    unfold Percentage.places
    split <;> omega
  have hin : ¬ (((size * p.value / 100 : Nat) : Int) < 0 ∨
      (size : Int) < ((size * p.value / 100 : Nat) : Int)) := by
    omega
  unfold markPercent
  rw [percentOf_eq hsize p.le_hundred, if_neg hin]
  simp only [Int.toNat_natCast, Nat.cast_eq_zero, hplaces]

/-! ## Entries of a list -/

theorem NumeralRange.fields_text (r : NumeralRange) :
    fields (fun c => decide (c = '-')) (r.first.text ++ '-' :: r.last.text) =
      [r.first.text, r.last.text] := by
  have hfield : forall n : Numeral, forall c, c ∈ n.text -> decide (c = '-') = false :=
    fun n c hc => decide_eq_false (ne_of_isDigit (n.digits c hc) (by decide))
  rw [fields_append r.first.text_ne (hfield r.first) (by decide),
    fields_last r.last.text_ne (hfield r.last)]

theorem NumeralRange.strtol_text (r : NumeralRange) :
    strtol (r.first.text ++ '-' :: r.last.text) = (min longMax r.first.value, '-' :: r.last.text) :=
  r.first.strtol_append fun c hc => by
    cases hc
    decide

theorem Level.limit_le (level : Level) : level.limit ≤ 24 := by
  cases level <;> decide

theorem NumeralRange.markRange_text (r : NumeralRange) (level : Level) (size : Nat) (m : Marking) :
    markRange level size m (range r).text =
      if 7 ≤ r.first.text.length + r.last.text.length ∨ level.limit ≤ r.last.value then
        .error .fault
      else if size ≤ r.last.value then .error .failure
      else .ok ((range r).mark level size m) := by
  have hlimit := level.limit_le
  have hpositive : ¬ min longMax (r.last.value : Int) < 0 := by
    rw [not_lt, le_min_iff]
    exact ⟨by decide, Int.natCast_nonneg _⟩
  have hlast := r.last.le_min_longMax_iff hlimit
  simp only [markRange, text, length_append, length_cons, r.fields_text,
    r.last.strtol_text, r.strtol_text, hpositive, false_or, hlast]
  by_cases hlength : 7 ≤ r.first.text.length + r.last.text.length
  · rw [if_pos (by omega), if_pos (.inl hlength)]
  · rw [if_neg (by omega)]
    by_cases hbound : level.limit ≤ r.last.value
    · rw [if_pos hbound, if_pos (.inr hbound)]
    · have hnone : ¬ (7 ≤ r.first.text.length + r.last.text.length ∨
          level.limit ≤ r.last.value) := by
        omega
      have hfirst := r.first_le_last
      have htext : ¬ '-' :: r.last.text = r.first.text ++ '-' :: r.last.text := by
        intro heq
        have hlengths := congrArg List.length heq
        have hne := length_pos_iff.mpr r.first.text_ne
        rw [length_append] at hlengths
        omega
      rw [if_neg hbound, if_neg hnone, r.last.min_longMax_eq (by omega),
        r.first.min_longMax_eq (by omega)]
      by_cases hplace : size ≤ r.last.value
      · rw [if_pos (Int.ofNat_le.mpr hplace), if_pos hplace]
      · rw [if_neg (by omega), if_neg hplace, if_neg (by omega), if_neg htext]
        simp only [Int.toNat_natCast, mark, picks]

theorem afterPercent_of_not_mem {text : List Char} (h : '%' ∉ text) : afterPercent text = none :=
  if_neg h

theorem afterPercent_cons (text : List Char) : afterPercent ('%' :: text) = some text := by
  simp [afterPercent]

theorem NumeralRange.not_mem_text (r : NumeralRange) {d : Char} (hd : d.isDigit = false)
    (hminus : d ≠ '-') : d ∉ (range r).text := by
  simp [text, r.first.not_mem_text hd, r.last.not_mem_text hd, hminus]

variable {level : Level}

namespace Entry

variable {e : Entry}

theorem markEntry_of_fits (hsize : size ≤ level.limit) (hfits : e.Fits size) (m : Marking) :
    markEntry level size m e.text = .ok (e.mark level size m) := by
  have hlimit := level.limit_le
  cases e with
  | single n =>
    rw [text, markEntry, afterPercent_of_not_mem (n.not_mem_text (by decide))]
    simp only [n.not_mem_text (show '-'.isDigit = false by decide), if_false,
      n.readNumber_of_lt (hsize.trans hlimit) hfits]
    rfl
  | range r =>
    rw [markEntry, afterPercent_of_not_mem (r.not_mem_text (by decide) (by decide))]
    have hmem : '-' ∈ (range r).text := by
      simp [text]
    have hlength : ¬ (7 ≤ r.first.text.length + r.last.text.length ∨
        level.limit ≤ r.last.value) := by
      have := hfits.1
      have := hfits.2
      omega
    rw [if_pos hmem, r.markRange_text level size m, if_neg hlength, if_neg (not_le.mpr hfits.1)]
  | percent p =>
    rw [text, markEntry, afterPercent_cons]
    dsimp only
    rw [p.atoi_text, markPercent_value p (hsize.trans hlimit)]
    rfl

theorem markEntry_of_not_fits (hsize : size ≤ level.limit) (hfits : ¬ e.Fits size) (m : Marking) :
    exists error, markEntry level size m e.text = .error error := by
  have hlimit := level.limit_le
  cases e with
  | single n =>
    rw [text, markEntry, afterPercent_of_not_mem (n.not_mem_text (by decide))]
    simp only [n.not_mem_text (show '-'.isDigit = false by decide), if_false,
      n.readNumber_of_le (hsize.trans hlimit) (not_lt.mp hfits)]
    exact ⟨_, rfl⟩
  | range r =>
    rw [markEntry, afterPercent_of_not_mem (r.not_mem_text (by decide) (by decide))]
    have hmem : '-' ∈ (range r).text := by
      simp [text]
    dsimp only
    rw [if_pos hmem, r.markRange_text level size m]
    split
    · exact ⟨_, rfl⟩
    · split
      · exact ⟨_, rfl⟩
      · next hlength hplace =>
          exact absurd ⟨not_le.mp hplace, by omega⟩ hfits
  | percent p => exact absurd trivial hfits

theorem mem_text (h : c ∈ e.text) : c.isDigit = true ∨ c = '-' ∨ c = '%' := by
  cases e with
  | single n => exact .inl (n.digits c h)
  | range r =>
    rcases mem_append.mp h with h | h
    · exact .inl (r.first.digits c h)
    · rcases mem_cons.mp h with h | h
      · exact .inr (.inl h)
      · exact .inl (r.last.digits c h)
  | percent p =>
    rcases mem_cons.mp h with h | h
    · exact .inr (.inr h)
    · exact .inl (p.digits c h)

theorem text_ne (e : Entry) : e.text ≠ [] := by
  cases e with
  | single n => exact n.text_ne
  | range r | percent p => simp [text]

theorem not_mem_text (hdigit : c.isDigit = false) (hminus : c ≠ '-')
    (hpercent : c ≠ '%') : c ∉ e.text := by
  intro hmem
  rcases mem_text hmem with h | h | h
  · rw [hdigit] at h
    cases h
  · exact hminus h
  · exact hpercent h

end Entry

variable {size : Nat} {es : List Entry}

theorem markEntries_of_fits (hsize : size ≤ level.limit)
    (hfits : forall e, e ∈ es -> e.Fits size) (m : Marking) :
    markEntries level size m (es.map text) = .ok (es.foldl (mark level size) m) := by
  induction es generalizing m with
  | nil => rfl
  | cons e es ih =>
    rw [map_cons, markEntries, markEntry_of_fits hsize (hfits e mem_cons_self)]
    exact ih (fun e' he => hfits e' (mem_cons_of_mem _ he)) _

theorem markEntries_of_not_fits (hsize : size ≤ level.limit)
    (hfits : ¬ forall e, e ∈ es -> e.Fits size) (m : Marking) :
    exists error, markEntries level size m (es.map text) = .error error := by
  induction es generalizing m with
  | nil => exact absurd (fun e he => absurd he not_mem_nil) hfits
  | cons e es ih =>
    rw [map_cons, markEntries]
    by_cases he : e.Fits size
    · rw [markEntry_of_fits hsize he]
      exact ih (fun hes => hfits (forall_mem_cons.mpr ⟨he, hes⟩)) _
    · rcases markEntry_of_not_fits hsize he m with ⟨error, herror⟩
      rw [herror]
      exact ⟨error, rfl⟩

/-! ## Tokens -/

theorem separator_of_mem_listText {e : Entry} (h : c ∈ listText e es) :
    (exists e', e' ∈ e :: es ∧ c ∈ e'.text) ∨ c = ',' ∨ c = ']' := by
  induction es generalizing e with
  | nil =>
    rcases mem_append.mp h with h | h
    · exact .inl ⟨e, mem_cons_self, h⟩
    · exact .inr (.inr (mem_singleton.mp h))
  | cons e' es ih =>
    rcases mem_append.mp h with h | h
    · exact .inl ⟨e, mem_cons_self, h⟩
    · rcases mem_cons.mp h with h | h
      · exact .inr (.inl h)
      · rcases ih h with ⟨e'', he, hc⟩ | h
        · exact .inl ⟨e'', mem_cons_of_mem _ he, hc⟩
        · exact .inr h

theorem fields_listText (e : Entry) (es : List Entry) :
    fields (fun c => decide (c ∈ [',', ']'])) (listText e es) = (e :: es).map text := by
  have hfield : forall e : Entry, forall c, c ∈ e.text -> decide (c ∈ [',', ']']) = false := by
    intro e c hc
    refine decide_eq_false fun hmem => ?_
    rcases mem_cons.mp hmem with rfl | hmem
    · exact not_mem_text (by decide) (by decide) (by decide) hc
    · rw [mem_singleton.mp hmem] at hc
      exact not_mem_text (by decide) (by decide) (by decide) hc
  induction es generalizing e with
  | nil =>
    rw [listText, fields_append e.text_ne (hfield e) (by decide), fields_nil]
    rfl
  | cons e' es ih =>
    rw [listText, fields_append e.text_ne (hfield e) (by decide), ih e']
    rfl

theorem listEntries_append {e : Entry} (hc : c ∈ ['[', ']', ',']) (rest : List Char) :
    listEntries ('[' :: (e.text ++ c :: rest)) =
      e.text :: fields (fun c => decide (c ∈ [',', ']'])) rest := by
  have hfield : forall c, c ∈ e.text -> decide (c ∉ ['[', ']', ',']) = true := by
    intro c hc
    refine decide_eq_true fun hmem => ?_
    simp only [mem_cons, not_mem_nil, or_false] at hmem
    rcases hmem with rfl | rfl | rfl <;>
      exact not_mem_text (by decide) (by decide) (by decide) hc
  have hstop : decide (c ∉ ['[', ']', ',']) = false := decide_eq_false (not_not.mpr hc)
  have hstart : ('[' :: (e.text ++ c :: rest)).dropWhile (fun c => decide (c ∈ ['[', ']', ','])) =
      e.text ++ c :: rest := by
    rw [dropWhile_cons_of_pos (by decide)]
    cases htext : e.text with
    | nil => exact absurd htext e.text_ne
    | cons d ds =>
      have hd := of_decide_eq_true (hfield d (htext ▸ mem_cons_self))
      exact dropWhile_cons_of_neg (by rw [decide_eq_true_eq]; exact hd)
  have htake :
      (e.text ++ c :: rest).takeWhile (fun c => decide (c ∉ ['[', ']', ','])) = e.text := by
    rw [takeWhile_append_of_pos hfield, takeWhile_cons_of_neg (by rw [hstop]; decide), append_nil]
  have hdrop : (e.text ++ c :: rest).dropWhile (fun c => decide (c ∉ ['[', ']', ','])) =
      c :: rest := by
    rw [dropWhile_append_of_pos hfield, dropWhile_cons_of_neg (by rw [hstop]; decide)]
  simp only [listEntries, hstart, htake, hdrop]
  split
  · next hnil =>
      exact absurd hnil e.text_ne
  · rfl

theorem listEntries_listText (e : Entry) (es : List Entry) :
    listEntries ('[' :: listText e es) = (e :: es).map text := by
  cases es with
  | nil =>
    rw [listText, listEntries_append (by decide), fields_nil]
    rfl
  | cons e' es =>
    rw [listText, listEntries_append (by decide), fields_listText]
    rfl

theorem foldl_mark_marked (level : Level) (size : Nat) (es : List Entry) (m : Marking) (i : Nat) :
    (es.foldl (mark level size) m).marked i =
      (m.marked i || es.any fun e => e.picks size i) := by
  induction es generalizing m with
  | nil => simp
  | cons e es ih =>
    rw [foldl_cons, ih, any_cons, ← Bool.or_assoc]
    rfl

theorem Percentage.places_le (p : Percentage) (hpos : 0 < size) : p.places size ≤ size := by
  refine max_le hpos (Nat.div_le_of_le_mul ?_)
  rw [Nat.mul_comm]
  exact Nat.mul_le_mul_right size p.le_hundred

theorem Entry.lt_of_picks {e : Entry} {i : Nat} (hpos : 0 < size) (hfits : e.Fits size)
    (h : e.picks size i = true) : i < size := by
  cases e with
  | single n =>
    rw [of_decide_eq_true h]
    exact hfits
  | range r => exact (of_decide_eq_true h).2.trans_lt hfits.1
  | percent p => exact (of_decide_eq_true h).trans_le (p.places_le hpos)

namespace Token

variable {t : Token} {level : Level} {size : Nat}

theorem lt_of_matches {i : Nat} (hpos : 0 < size) (hfits : t.Fits size)
    (h : t.matches size i = true) : i < size := by
  cases t with
  | all => exact of_decide_eq_true h
  | number n =>
    rw [of_decide_eq_true h]
    exact hfits
  | list e es =>
    rcases any_eq_true.mp h with ⟨e', he, hpicks⟩
    exact lt_of_picks hpos (hfits.2 e' he) hpicks
  | percent p => exact (of_decide_eq_true h).trans_le (p.places_le hpos)

theorem picks_eq_matches (hpos : 0 < size) (hfits : t.Fits size) :
    t.picks size = t.matches size := by
  funext i
  unfold picks
  cases h : t.matches size i with
  | false => exact Bool.and_false _
  | true => rw [decide_eq_true (lt_of_matches hpos hfits h), Bool.and_self]

theorem markToken_number (n : Numeral) (marked : Nat -> Bool) :
    markToken level (some n.text) size marked =
      match readNumber size n.text with
      | .error e => .error e
      | .ok k => .ok ⟨fun i => marked i || decide (i = k), 1⟩ := by
  have hstar : ¬ n.text.head? = some '*' := fun h => n.not_mem_text (by decide) (mem_of_mem_head? h)
  have hopen : ¬ '[' ∈ n.text := n.not_mem_text (by decide)
  have hpercent := afterPercent_of_not_mem (n.not_mem_text (d := '%') (by decide))
  cases hread : readNumber size n.text with
  | error e | ok k => simp only [markToken, if_neg hstar, if_neg hopen, hpercent, hread]

theorem markToken_percent (p : Percentage) (hsize : size ≤ level.limit) (marked : Nat -> Bool) :
    markToken level (some (Token.percent p).text) size marked =
      .ok ⟨fun i => marked i || decide (i < p.places size), p.places size⟩ := by
  have hbracket : '[' ∉ '%' :: p.text := by
    simp [p.not_mem_text (show '['.isDigit = false by decide)]
  have hvalue : (if level = .core then (strtol p.text).1 else atoi p.text) = p.value := by
    rw [p.strtol_text, p.atoi_text, ite_self]
  have hstar : ¬ ('%' :: p.text).head? = some '*' := by
    simp
  simp only [markToken, text, if_neg hstar, if_neg hbracket, afterPercent_cons, hvalue]
  exact markPercent_value p (hsize.trans level.limit_le) marked

theorem markToken_list (e : Entry) (es : List Entry) (marked : Nat -> Bool) :
    markToken level (some (Token.list e es).text) size marked =
      if 16 ≤ (e :: es).length then .error .fault
      else markEntries level size ⟨marked, 0⟩ ((e :: es).map Entry.text) := by
  have hstar : ¬ ('[' :: listText e es).head? = some '*' := by
    simp
  have hbracket : '[' ∈ '[' :: listText e es := mem_cons_self
  simp only [markToken, text, if_neg hstar, if_pos hbracket, listEntries_listText, map_cons,
    length_cons, length_map]

theorem markToken_of_fits (hpos : 0 < size) (hsize : size ≤ level.limit) (hfits : t.Fits size)
    (marked : Nat -> Bool) :
    markToken level (some t.text) size marked =
      .ok ⟨fun i => marked i || t.picks size i, t.count level size marked⟩ := by
  rw [picks_eq_matches hpos hfits]
  cases t with
  | all => rfl
  | number n =>
    rw [text, markToken_number, n.readNumber_of_lt (hsize.trans level.limit_le) hfits]
    rfl
  | list e es =>
    rw [markToken_list, if_neg (not_le.mpr hfits.1), markEntries_of_fits hsize hfits.2]
    congr 1
    refine congrArg (fun f => Marking.mk f _) ?_
    funext i
    exact foldl_mark_marked level size (e :: es) ⟨marked, 0⟩ i
  | percent p =>
    rw [markToken_percent p hsize]
    rfl

theorem markToken_of_not_fits (hsize : size ≤ level.limit) (hfits : ¬ t.Fits size)
    (marked : Nat -> Bool) :
    exists error, markToken level (some t.text) size marked = .error error := by
  cases t with
  | all => exact absurd trivial hfits
  | number n =>
    rw [text, markToken_number, n.readNumber_of_le (hsize.trans level.limit_le) (not_lt.mp hfits)]
    exact ⟨_, rfl⟩
  | list e es =>
    rw [markToken_list]
    by_cases hlength : 16 ≤ (e :: es).length
    · rw [if_pos hlength]
      exact ⟨_, rfl⟩
    · rw [if_neg hlength]
      exact markEntries_of_not_fits hsize (fun h => hfits ⟨not_le.mp hlength, h⟩) _
  | percent p => exact absurd trivial hfits

theorem not_mem_text (hc : c ∈ ['N', 'P', 'C', 'T']) : c ∉ t.text := by
  have hplain : c.isDigit = false ∧ c ≠ '-' ∧ c ≠ '%' ∧ c ≠ '*' ∧ c ≠ '[' ∧ c ≠ ',' ∧ c ≠ ']' := by
    simp only [mem_cons, not_mem_nil, or_false] at hc
    rcases hc with rfl | rfl | rfl | rfl <;> decide
  rcases hplain with ⟨hdigit, hminus, hpercent, hstar, hopen, hcomma, hclose⟩
  intro hmem
  cases t with
  | all => exact hstar (mem_singleton.mp hmem)
  | number n => exact n.not_mem_text hdigit hmem
  | list e es =>
    rcases mem_cons.mp hmem with h | h
    · exact hopen h
    · rcases separator_of_mem_listText h with ⟨e', he, h⟩ | h | h
      · exact not_mem_text hdigit hminus hpercent h
      · exact hcomma h
      · exact hclose h
  | percent p =>
    rcases mem_cons.mp hmem with h | h
    · exact hpercent h
    · exact p.not_mem_text hdigit h

theorem text_ne (t : Token) : t.text ≠ [] := by
  cases t with
  | all => simp [text]
  | number n => exact n.text_ne
  | list e es | percent p => simp [text]

end Token

/-! ## Filters -/

def allLevels : List Level :=
  [.node, .chip, .core, .thread]

def CpuFilter.tokens (f : CpuFilter) (levels : List Level) : List (Level × Option (List Char)) :=
  levels.map fun level => (level, some (f.token level).text)

theorem CpuFilter.fields_text (f : CpuFilter) :
    fields (fun c => decide (c ∈ ['N', 'P', 'C', 'T'])) f.text =
      [f.node.text, f.chip.text, f.core.text, f.thread.text] := by
  have hfield : forall t : Token, forall c, c ∈ t.text ->
      decide (c ∈ ['N', 'P', 'C', 'T']) = false :=
    fun t c hc => decide_eq_false fun hmem => Token.not_mem_text hmem hc
  simp only [CpuFilter.text, cons_append, append_assoc]
  rw [fields_separator (by decide), fields_append f.node.text_ne (hfield _) (by decide),
    fields_append f.chip.text_ne (hfield _) (by decide),
    fields_append f.core.text_ne (hfield _) (by decide),
    fields_last f.thread.text_ne (hfield _)]

theorem CpuFilter.parseFilter_text (f : CpuFilter) (size : PathTree Nat) (t : FilterTree) :
    parseFilter size t f.text = parseLevels (f.tokens allLevels) size t := by
  have hletters : ¬ ('N' ∉ f.text ∨ 'P' ∉ f.text ∨ 'C' ∉ f.text ∨ 'T' ∉ f.text) := by
    simp [CpuFilter.text]
  rw [parseFilter, if_neg hletters, f.fields_text]
  rfl

end Htx.Hxemem64
