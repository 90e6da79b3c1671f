import Htx.Hxestorage.BuildBuffer
import Htx.Hxestorage.CrossThread

/-!
# Explicit patterns

A pattern id such as `0x12345678` gives the bytes of the pattern.  `fill_pattern_details`
should read the groups of four digits behind the marker, and `bld_buf` repeats what it has
read.
-/

namespace Htx.Hxestorage.Fill

open List ExplicitPattern Nat Library

/-!
# Reading the groups
-/

def charGroups : List Char -> List Nat
  | a :: b :: c :: d :: rest => strtoull16 [a, b, c, d] % 2 ^ 16 :: charGroups rest
  | _ => []

theorem charGroups_of_length_lt {text : List Char} (h : text.length < 4) :
    charGroups text = [] := by
  rcases text with _ | ⟨_, _ | ⟨_, _ | ⟨_, _ | ⟨_, _⟩⟩⟩⟩
  · rfl
  · rfl
  · rfl
  · rfl
  · simp only [length_cons] at h
    omega

theorem charGroups_read {text : List Char} {digits : List Nat}
    (h : text.map hexDigit = digits.map some) : charGroups text = fourDigitGroups digits := by
  induction text using charGroups.induct generalizing digits with
  | case1 c0 c1 c2 c3 rest ih =>
    rcases digits with _ | ⟨d0, _ | ⟨d1, _ | ⟨d2, _ | ⟨d3, ds⟩⟩⟩⟩
    · simp at h
    · simp at h
    · simp at h
    · simp at h
    · simp only [map_cons, cons.injEq] at h
      obtain ⟨h0, h1, h2, h3, hrest⟩ := h
      have hsmall : hexValue [d0, d1, d2, d3] < 2 ^ 16 := by
        rw [hexValue_four]
        have := hexDigit_lt h0
        have := hexDigit_lt h1
        have := hexDigit_lt h2
        have := hexDigit_lt h3
        omega
      rw [charGroups, fourDigitGroups, strtoull16_four h0 h1 h2 h3, mod_eq_of_lt hsmall,
        ih hrest]
  | case2 text hshort =>
    have hlen := congrArg length h
    rw [length_map, length_map] at hlen
    have hlt : text.length < 4 := by
      rcases text with _ | ⟨c0, _ | ⟨c1, _ | ⟨c2, _ | ⟨c3, cs⟩⟩⟩⟩
      · decide
      · simp
      · simp
      · simp
      · exact absurd rfl (hshort c0 c1 c2 c3 cs)
    rw [charGroups_of_length_lt hlt, fourDigitGroups_of_length_lt (hlen ▸ hlt)]

theorem groupLoop_eq {patternId : List Char} {len : Nat} (hlen : len ≤ patternId.length)
    (hfour : 4 ∣ len) {n j : Nat} (hj : 4 ∣ j) (hn : len ≤ j + n) :
    groupLoop patternId len n j = charGroups ((patternId.take len).drop j) := by
  induction n generalizing j with
  | zero =>
    rw [drop_eq_nil_of_le (by rw [length_take]; omega)]
    rfl
  | succ n ih =>
    rw [groupLoop]
    split
    · next hlt =>
        have hle : j + 4 ≤ len := by omega
        obtain ⟨c0, c1, c2, c3, hgroup⟩ : exists c0 c1 c2 c3,
            groupAt patternId j = [c0, c1, c2, c3] := by
          have hfour : (groupAt patternId j).length = 4 := by
            rw [groupAt, length_take, length_drop]
            omega
          rcases hg : groupAt patternId j with _ | ⟨c0, _ | ⟨c1, _ | ⟨c2, _ | ⟨c3, _ | _⟩⟩⟩⟩
          all_goals
            rw [hg] at hfour
            simp at hfour
          exact ⟨c0, c1, c2, c3, rfl⟩
        have hsplit : (patternId.take len).drop j =
            groupAt patternId j ++ (patternId.take len).drop (j + 4) := by
          rw [← take_append_drop 4 ((patternId.take len).drop j), drop_drop,
            drop_take, take_take, groupAt, min_eq_left (by omega)]
        rw [hsplit, hgroup, ih (by omega) (by omega)]
        rfl
    · next hge =>
        rw [drop_eq_nil_of_le (by rw [length_take]; omega)]
        rfl

structure ExplicitText extends HexText where
  length_text : text.length = 4 ∨ text.length = 8 ∨ text.length = 16 ∨ text.length = 32

namespace ExplicitText

variable (t : ExplicitText)

def patternId : List Char :=
  '0' :: 'x' :: t.text

theorem four_dvd : 4 ∣ t.text.length := by
  rcases t.length_text with h | h | h | h <;> rw [h] <;> decide

def readDigits : List Nat :=
  (0 :: 0 :: t.digits).take t.text.length

theorem charGroups_patternId :
    charGroups (t.patternId.take t.text.length) = fourDigitGroups t.readDigits := by
  obtain ⟨c0, c1, rest, htext⟩ : exists c0 c1 rest, t.text = c0 :: c1 :: rest := by
    rcases htext : t.text with _ | ⟨c0, _ | ⟨c1, rest⟩⟩
    · have := t.length_text
      simp [htext] at this
    · have := t.length_text
      simp [htext] at this
    · exact ⟨c0, c1, rest, rfl⟩
  have hread := t.read
  rw [htext] at hread
  rcases hdigits : t.digits with _ | ⟨d0, _ | ⟨d1, ds⟩⟩
  · simp [hdigits] at hread
  · simp [hdigits] at hread
  · rw [hdigits] at hread
    simp only [map_cons, cons.injEq] at hread
    obtain ⟨h0, h1, hrest⟩ := hread
    have hlen := t.length_text
    obtain ⟨n, hn⟩ : exists n, t.text.length = n + 4 := ⟨t.text.length - 4, by omega⟩
    have htake : t.patternId.take t.text.length = '0' :: 'x' :: c0 :: c1 :: rest.take n := by
      rw [patternId, hn, htext]
      rfl
    have hdigitsTake : t.readDigits = 0 :: 0 :: d0 :: d1 :: ds.take n := by
      rw [readDigits, hn, hdigits]
      rfl
    have hsmall : hexValue [0, 0, d0, d1] < 2 ^ 16 := by
      rw [hexValue_four]
      have := hexDigit_lt h0
      have := hexDigit_lt h1
      omega
    have htail : charGroups (rest.take n) = fourDigitGroups (ds.take n) := by
      apply charGroups_read
      rw [map_take, map_take, hrest]
    rw [htake, hdigitsTake, charGroups, fourDigitGroups, strtoull16_marker h0 h1,
      mod_eq_of_lt hsmall, htail]

theorem fillExplicit_eq : fillExplicit t.patternId =
      .ok { patternSize := t.text.length / 2, words := fourDigitGroups t.readDigits } := by
  have hlen : t.patternId.length - 2 = t.text.length := rfl
  have hwords : groupLoop t.patternId t.text.length t.text.length 0 =
      fourDigitGroups t.readDigits := by
    rw [groupLoop_eq (by rw [patternId, length_cons, length_cons]; omega) t.four_dvd
      (dvd_zero 4) (by omega), drop_zero, t.charGroups_patternId]
  have hpower : t.text.length &&& (t.text.length - 1) = 0 := by
    rcases t.length_text with h | h | h | h <;> rw [h] <;> decide
  have hpos : t.text.length ≠ 0 := by
    have := t.length_text
    omega
  have hmax : ¬ maxPatternLength < t.text.length := by
    have := t.length_text
    unfold maxPatternLength
    omega
  unfold fillExplicit
  simp only [hlen, hpos, hmax, hpower, hwords, ne_eq, not_true_eq_false, if_false]

theorem length_digits_eq : t.digits.length = t.text.length :=
  t.toHexText.length_digits

theorem readDigits_iff : fourDigitGroups t.readDigits = fourDigitGroups t.digits <->
      forall d, d ∈ t.digits -> d = 0 := by
  rw [readDigits, ← t.length_digits_eq]
  apply fourDigitGroups_shift_iff
  rw [t.length_digits_eq]
  exact t.four_dvd

end ExplicitText

/-!
# Repeating the pattern
-/

namespace ExplicitPattern

variable {p : ExplicitPattern}

def round (p : ExplicitPattern) : List Nat :=
  p.words.take (p.patternSize / 2)

theorem repeatLoop_mul (hsize : p.patternSize ≠ 0) (times : Nat) {fuel : Nat}
    (hfuel : times < fuel) :
    repeatLoop p fuel (times * p.patternSize : Nat) =
      some (replicate times p.round).flatten := by
  induction times generalizing fuel with
  | zero =>
    obtain ⟨fuel, rfl⟩ := exists_eq_add_one.mpr hfuel
    rw [repeatLoop, if_pos (by omega)]
    rfl
  | succ times ih =>
    obtain ⟨fuel, rfl⟩ := exists_eq_add_one.mpr (zero_lt_of_lt hfuel)
    have hne : ¬ (((times + 1) * p.patternSize : Nat) : Int) = 0 := by
      have := mul_ne_zero (Nat.succ_ne_zero times) hsize
      exact_mod_cast this
    have hnext : (((times + 1) * p.patternSize : Nat) : Int) - p.patternSize =
        (times * p.patternSize : Nat) := by
      push_cast
      ring
    rw [repeatLoop, if_neg hne, hnext, ih (by omega)]
    rfl

theorem repeatLoop_of_not_dvd {j : Int} (h : ¬ (p.patternSize : Int) ∣ j) (fuel : Nat) :
    repeatLoop p fuel j = none := by
  induction fuel generalizing j with
  | zero => rfl
  | succ fuel ih =>
    have hne : j ≠ 0 := by
      rintro rfl
      exact h (dvd_zero _)
    rw [repeatLoop, if_neg hne, ih (mt dvd_sub_self_right.mp h)]
    rfl

def block (env : FillEnv) (p : ExplicitPattern) : List UInt8 :=
  wordBytes env.order (replicate (env.blksize / p.patternSize) p.round).flatten

theorem length_block {env : FillEnv} (hround : p.round.length = p.patternSize / 2)
    (heven : p.patternSize % 2 = 0) (hsize : p.patternSize ≠ 0)
    (hdvd : p.patternSize ∣ env.blksize) : (p.block env).length = env.blksize := by
  obtain ⟨q, hq⟩ := hdvd
  obtain ⟨half, hhalf⟩ := Nat.dvd_of_mod_eq_zero heven
  have hdiv : env.blksize / p.patternSize = q := by
    rw [hq]
    exact Nat.mul_div_cancel_left q (Nat.pos_of_ne_zero hsize)
  rw [block, length_wordBytes, length_flatten, map_replicate, sum_replicate, hdiv,
    hround, smul_eq_mul, hq, hhalf, Nat.mul_div_cancel_left half (by decide)]
  ring

theorem explicitLoop_eq {env : FillEnv} (hsize : p.patternSize ≠ 0)
    (hdvd : p.patternSize ∣ env.blksize) {fuel : Nat} (hfuel : env.blksize < fuel) (n : Nat) :
    explicitLoop env p fuel n = some (replicate n (p.block env)) := by
  have hloop : repeatLoop p fuel env.blksize =
      some (replicate (env.blksize / p.patternSize) p.round).flatten := by
    have h := repeatLoop_mul hsize (env.blksize / p.patternSize)
      ((div_le_self env.blksize p.patternSize).trans_lt hfuel)
    rwa [Nat.div_mul_cancel hdvd] at h
  induction n with
  | zero => rfl
  | succ n ih =>
    rw [explicitLoop, hloop]
    simp only [ih]
    rfl

theorem explicitLoop_of_not_dvd {env : FillEnv} (hdvd : ¬ p.patternSize ∣ env.blksize)
    (fuel n : Nat) : explicitLoop env p fuel (n + 1) = none := by
  rw [explicitLoop, repeatLoop_of_not_dvd (by exact_mod_cast hdvd)]

end ExplicitPattern

/-- The pattern is decoded and written as it should be: `pattern_buffer` has the groups of four
digits in order, and `bld_buf` ends and leaves blocks that repeat them. -/
def ExplicitText.Faithful (t : ExplicitText) (env : FillEnv) (ctx : FillContext)
    (headers : Headers) : Prop :=
  exists p, fillExplicit t.patternId = .ok p ∧ p.words = fourDigitGroups t.digits ∧
    exists fuel copies s, bldBuf env { ctx with kind := .explicit p } headers fuel =
        some (copies, s) ∧
      exists blocks : List (List UInt8), Copy.Fills copies blocks.flatten ∧
        blocks.length = ctx.numBlks ∧ forall b, b ∈ blocks -> b.length = env.blksize ∧
          exists times, b =
            wordBytes env.order (replicate times (fourDigitGroups t.digits)).flatten

namespace ExplicitText

variable (t : ExplicitText) (env : FillEnv) (ctx : FillContext) (headers : Headers)

def filled : ExplicitPattern where
  patternSize := t.text.length / 2
  words := fourDigitGroups t.readDigits

theorem length_fourDigitGroups {digits : List Nat} (h : 4 ∣ digits.length) :
    (fourDigitGroups digits).length = digits.length / 4 := by
  induction digits using fourDigitGroups.induct with
  | case1 d0 d1 d2 d3 rest ih =>
    have hrest : 4 ∣ rest.length := (Nat.dvd_add_left (dvd_refl 4)).mp h
    rw [fourDigitGroups, length_cons, ih hrest]
    simp only [length_cons]
    omega
  | case2 digits hshort =>
    rcases digits with _ | ⟨d0, _ | ⟨d1, _ | ⟨d2, _ | ⟨d3, rest⟩⟩⟩⟩
    · rfl
    · simp at h
    · simp at h
    · simp at h
    · exact absurd rfl (hshort d0 d1 d2 d3 rest)

theorem length_filled_words : t.filled.words.length = t.text.length / 4 := by
  have hread : t.readDigits.length = t.text.length := by
    rw [readDigits, length_take, length_cons, length_cons, t.length_digits_eq]
    omega
  show (fourDigitGroups t.readDigits).length = t.text.length / 4
  rw [length_fourDigitGroups (hread ▸ t.four_dvd), hread]

theorem filled_round : t.filled.round = fourDigitGroups t.readDigits := by
  apply take_of_length_le
  rw [t.length_filled_words]
  show t.text.length / 4 ≤ t.text.length / 2 / 2
  omega

theorem filled_ne_zero : t.filled.patternSize ≠ 0 := by
  have := t.length_text
  unfold filled
  simp only
  omega

theorem filled_block_length (hdvd : t.text.length / 2 ∣ env.blksize) :
    (t.filled.block env).length = env.blksize := by
  have hfour := t.four_dvd
  apply length_block
  · rw [t.filled_round]
    show t.filled.words.length = t.text.length / 2 / 2
    rw [t.length_filled_words]
    omega
  · show t.text.length / 2 % 2 = 0
    omega
  · exact t.filled_ne_zero
  · exact hdvd

/-- An explicit pattern is decoded and written faithfully exactly when all its digits are zero,
and its size divides the block size if there are blocks. -/
theorem faithful_iff : t.Faithful env ctx headers <->
      (forall d, d ∈ t.digits -> d = 0) ∧ (ctx.numBlks = 0 ∨ t.text.length / 2 ∣ env.blksize) := by
  have hfill : fillExplicit t.patternId = .ok t.filled := t.fillExplicit_eq
  constructor
  · rintro ⟨p, hp, hwords, fuel, copies, s, hbld, -⟩
    rw [hfill] at hp
    cases hp
    refine ⟨t.readDigits_iff.mp hwords, ?_⟩
    by_contra hnot
    rw [not_or] at hnot
    obtain ⟨n, hn⟩ := exists_eq_succ_of_ne_zero hnot.1
    have hnone : explicitLoop env t.filled fuel ctx.numBlks = none := by
      rw [hn]
      exact explicitLoop_of_not_dvd hnot.2 fuel n
    unfold bldBuf at hbld
    simp only [hnone, Option.map_none] at hbld
    cases hbld
  · rintro ⟨hzero, hdvd⟩
    have hwords := t.readDigits_iff.mpr hzero
    refine ⟨t.filled, hfill, hwords, ?_⟩
    rcases hdvd with hnone | hdvd
    · refine ⟨0, [], ctx.state, ?_, [], Copy.fills_consecutive [], hnone.symm, ?_⟩
      · unfold bldBuf
        simp only [hnone]
        rfl
      · intro b hb
        cases hb
    · refine ⟨env.blksize + 1, _, ctx.state, ?_, replicate ctx.numBlks (t.filled.block env),
        Copy.fills_consecutive _, length_replicate, ?_⟩
      · unfold bldBuf
        simp only [explicitLoop_eq t.filled_ne_zero hdvd (lt_succ_self _)]
        rfl
      · intro b hb
        rw [eq_of_mem_replicate hb]
        refine ⟨t.filled_block_length env hdvd, env.blksize / t.filled.patternSize, ?_⟩
        unfold block
        rw [t.filled_round, hwords]

end ExplicitText

def text1234 : ExplicitText where
  text := ['1', '2', '3', '4']
  digits := [1, 2, 3, 4]
  read := rfl
  length_text := Or.inl rfl

theorem text1234_misread :
    fillExplicit text1234.patternId = .ok { patternSize := 2, words := [0x0012] } ∧
      fourDigitGroups text1234.digits = [0x1234] := by
  decide +kernel

end Htx.Hxestorage.Fill
