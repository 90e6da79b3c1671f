import Htx.Cfgc.StanzaText

/-!
# Keyword lookup and the merge of defaults

`cfgcskwd` compares by `strncmp` and looks at the character behind, so that it finds the
first line of a keyword also among keywords that start alike.
-/

namespace Htx.Cfgc

open List Line Int Scan

/-! ## Looking a keyword up -/

def cleaned (value : List Char) : List Char :=
  (value.dropWhile (fun c => c = ' ' ∨ c = '=')).takeWhile (fun c => ' ' < c)

variable {text name : List Char} {lines own : List Line}

theorem afterNewline_line (rest : List Char) (hline : '\n' ∉ text) :
    afterNewline (text ++ '\n' :: rest) = some rest := by
  induction text with
  | nil => rfl
  | cons c text ih =>
    have hc : c ≠ '\n' := fun h => hline (by simp [h])
    rw [cons_append, afterNewline, if_neg hc, ih (fun h => hline (mem_cons_of_mem c h))]

theorem dropWhile_line (rest : List Char) :
    (text ++ '\n' :: rest).dropWhile (fun c => decide (c = ' ' ∨ c = '=')) =
      text.dropWhile (fun c => decide (c = ' ' ∨ c = '=')) ++ '\n' :: rest := by
  induction text with
  | nil => rfl
  | cons c text ih =>
    rw [cons_append, dropWhile_cons, dropWhile_cons]
    split
    · exact ih
    · rfl

theorem takeWhile_line (rest : List Char) :
    (text ++ '\n' :: rest).takeWhile (fun c => decide (' ' < c)) =
      text.takeWhile (fun c => decide (' ' < c)) := by
  induction text with
  | nil => rfl
  | cons c text ih => rw [cons_append, takeWhile_cons, takeWhile_cons, ih]

theorem dropWhile_blanks (n : Nat) (text : List Char) :
    (List.replicate n ' ' ++ text).dropWhile (fun c => decide (c = ' ' ∨ c = '=')) =
      text.dropWhile (fun c => decide (c = ' ' ∨ c = '=')) := by
  induction n with
  | zero => rfl
  | succ n ih =>
    rw [replicate_succ, cons_append, dropWhile_cons_of_pos (by simp), ih]

theorem cleaned_length_le (value : List Char) : (cleaned value).length ≤ value.length :=
  ((takeWhile_sublist _).trans (dropWhile_sublist _)).length_le

def Attribute.behind (entry : Attribute) : List Char :=
  List.replicate entry.before ' ' ++ '=' :: (List.replicate entry.after ' ' ++ entry.value)

theorem Attribute.text_eq (entry : Attribute) : entry.text = entry.keyword ++ entry.behind := by
  simp [Attribute.text, Attribute.behind]

theorem Attribute.behind_cons (entry : Attribute) :
    exists d rest, entry.behind = d :: rest ∧ (d = '=' ∨ d = ' ') := by
  cases hbefore : entry.before with
  | zero => exact ⟨'=', _, by rw [Attribute.behind, hbefore]; rfl, .inl rfl⟩
  | succ n => exact ⟨' ', _, by rw [Attribute.behind, hbefore]; rfl, .inr rfl⟩

theorem valueText_behind (entry : Attribute) (rest : List Char) :
    valueText (entry.behind ++ '\n' :: rest) = cleaned entry.value := by
  have hshort := entry.value_short
  have hclean := cleaned_length_le entry.value
  have hdrop : (entry.behind ++ '\n' :: rest).dropWhile (fun c => decide (c = ' ' ∨ c = '=')) =
        (entry.value ++ '\n' :: rest).dropWhile (fun c => decide (c = ' ' ∨ c = '=')) := by
    rw [Attribute.behind, append_assoc, dropWhile_blanks, cons_append,
      dropWhile_cons_of_pos (by simp), append_assoc, dropWhile_blanks]
  rw [valueText, hdrop, dropWhile_line, takeWhile_line]
  exact take_of_length_le (by rw [cleaned] at hclean; omega)

theorem prefix_of_prefix_append_cons {pre rest : List Char} {d : Char}
    (hpre : pre <+: text ++ d :: rest) (hd : d ∉ pre) : pre <+: text := by
  rcases prefix_or_prefix_of_prefix hpre (prefix_append text (d :: rest)) with h | h
  · exact h
  · obtain ⟨tail, rfl⟩ := h
    rw [prefix_append_right_inj] at hpre
    cases tail with
    | nil => simp
    | cons c tail =>
      have hcd := (cons_prefix_cons.mp hpre).1
      exact absurd (by simp [hcd]) hd

theorem scanLines_keyword (hname : IsKeyword name) (entry : Attribute) (fuel : Nat)
    (rest : List Char) :
    scanLines name (fuel + 1) (entry.text ++ '\n' :: rest) =
      if entry.keyword = name then value (cleaned entry.value)
      else scanLines name fuel rest := by
  obtain ⟨c, tail, htext, hc, hstar⟩ := entry.text_cons
  obtain ⟨d, after, hbehind, hd⟩ := entry.behind_cons
  have hnl : c ≠ '\n' := fun h => absurd hc (by rw [h]; decide)
  have hdrop : (entry.text ++ '\n' :: rest).dropWhile
      (fun c => decide (c ≤ ' ' ∧ c ≠ '\n')) = c :: (tail ++ '\n' :: rest) := by
    rw [htext, cons_append, dropWhile_cons_of_neg]
    simp [Char.not_le.mpr hc]
  have hline : c :: (tail ++ '\n' :: rest) = entry.keyword ++ (entry.behind ++ '\n' :: rest) := by
    rw [← cons_append, ← htext, entry.text_eq, append_assoc]
  have hnext := afterNewline_line rest entry.notMem_newline
  rw [htext, cons_append] at hnext
  simp only [scanLines]
  rw [hdrop]
  simp only [hstar, hnl, or_self, if_false, hnext]
  by_cases heq : entry.keyword = name
  · have hpre : name.isPrefixOf (c :: (tail ++ '\n' :: rest)) = true := by
      rw [ isPrefixOf_iff_prefix, hline, heq]
      exact prefix_append _ _
    have hrest : (c :: (tail ++ '\n' :: rest)).drop name.length = entry.behind ++ '\n' :: rest := by
      rw [hline, heq, drop_left]
    rw [if_pos hpre, if_pos heq, hrest, hbehind]
    simp only [cons_append, hd, if_true]
    rw [← cons_append, ← hbehind, valueText_behind]
  · rw [if_neg heq]
    by_cases hpre : name.isPrefixOf (c :: (tail ++ '\n' :: rest)) = true
    · -- the keyword looked for is a proper beginning of the line's keyword
      have hshort : name <+: entry.keyword := by
        rw [ isPrefixOf_iff_prefix, hline, hbehind, cons_append] at hpre
        apply prefix_of_prefix_append_cons hpre
        intro hmem
        rcases hd with rfl | rfl
        · exact (hname.plain _ hmem).2 rfl
        · exact absurd (hname.plain _ hmem).1 (by decide)
      obtain ⟨missing, hmissing⟩ := hshort
      cases missing with
      | nil => exact absurd (by simpa using hmissing.symm) heq
      | cons e missing =>
        have hrest : (c :: (tail ++ '\n' :: rest)).drop name.length =
            (e :: missing ++ entry.behind) ++ '\n' :: rest := by
          rw [hline, ← hmissing, append_assoc, drop_left, append_assoc]
        have he : e ∈ entry.keyword := by simp [← hmissing]
        have hplain := entry.keyword_ok.plain e he
        have hline' : '\n' ∉ e :: missing ++ entry.behind := by
          intro hmem
          apply entry.notMem_newline
          rw [entry.text_eq, ← hmissing, append_assoc]
          exact mem_append_right _ hmem
        have hblank : e ≠ ' ' := fun h => absurd hplain.1 (by rw [h]; decide)
        have hnext' := afterNewline_line rest hline'
        rw [if_pos hpre, hrest]
        simp only [cons_append] at hnext' ⊢
        simp only [hplain.2, hblank, or_self, if_false, hnext']
    · rw [if_neg hpre]

theorem scanLines_comment (fuel : Nat) (rest : List Char) (hline : '\n' ∉ '*' :: text) :
    scanLines name (fuel + 1) ('*' :: text ++ '\n' :: rest) = scanLines name fuel rest := by
  have hnext := afterNewline_line rest hline
  rw [cons_append] at hnext ⊢
  simp only [scanLines]
  rw [dropWhile_cons_of_neg (by decide)]
  simp [hnext]

theorem scanLines_lines (hname : IsKeyword name) {tail : List Char}
    (htail : tail = [] ∨ tail = ['\n']) :
    forall fuel, lines.length + 1 < fuel -> scanLines name fuel (linesText lines ++ tail) =
        ofOption ((lookup name lines).map cleaned) := by
  induction lines with
  | nil =>
    intro fuel hfuel
    obtain ⟨fuel, rfl⟩ : exists k, fuel = k + 2 := ⟨fuel - 2, by simp at hfuel; omega⟩
    rcases htail with rfl | rfl
    · rfl
    · rfl
  | cons line lines ih =>
    intro fuel hfuel
    obtain ⟨fuel, rfl⟩ : exists k, fuel = k + 1 := ⟨fuel - 1, by omega⟩
    have hrest := ih fuel (by simpa using hfuel)
    rw [linesText_cons, append_assoc, cons_append]
    cases line with
    | keyword entry =>
      rw [text, scanLines_keyword hname, hrest]
      by_cases heq : entry.keyword = name
      · simp [lookup, value?, heq, ofOption]
      · simp [lookup, value?, heq]
    | comment text ok =>
      rw [Line.text, scanLines_comment fuel _ (Line.comment text ok).notMem_newline, hrest]
      rfl

theorem length_le_linesText (lines : List Line) : lines.length ≤ (linesText lines).length := by
  induction lines with
  | nil => exact le_refl _
  | cons line lines ih =>
    simp only [linesText_cons, length_append, length_cons]
    omega

theorem cfgcskwd_lines (hname : IsKeyword name) (stanza : Stanza) {tail : List Char}
    (htail : tail = [] ∨ tail = ['\n']) :
    cfgcskwd name (stanza.name ++ ':' :: '\n' :: (linesText lines ++ tail)) =
      ofOption ((lookup name lines).map cleaned) := by
  have hnext := afterNewline_line (linesText lines ++ tail) stanza.notMem_newline
  rw [append_assoc, singleton_append] at hnext
  have hlen := length_le_linesText lines
  rw [cfgcskwd, hnext]
  apply scanLines_lines hname htail
  simp only [length_append, length_cons]
  omega

theorem Stanza.buffer_eq (stanza : Stanza) (ending : Ending) (more : List Stanza) :
    exists tail : List Char, (tail = [] ∨ tail = ['\n']) ∧
      stanza.buffer ending more = stanza.name ++ ':' :: '\n' ::
        (linesText stanza.lines ++ tail) := by
  rw [Stanza.buffer]
  split
  · exact ⟨[], .inl rfl, by simp [Stanza.body]⟩
  · exact ⟨['\n'], .inr rfl, by simp [Stanza.text, Stanza.body]⟩

theorem cfgcskwd_buffer (hname : IsKeyword name) (stanza : Stanza) (ending : Ending)
    (more : List Stanza) :
    cfgcskwd name (stanza.buffer ending more) =
      ofOption ((lookup name stanza.lines).map cleaned) := by
  obtain ⟨tail, htail, hbuffer⟩ := stanza.buffer_eq ending more
  rw [hbuffer, cfgcskwd_lines hname stanza htail]

/-! ## The default stanza -/

def marks : Nat -> List Line -> List Nat
  | i, [] => [i, i + 1]
  | i, line :: lines =>
    if line.isComment then marks (i + line.text.length + 1) lines
    else i :: marks (i + line.text.length + 1) lines

theorem lineStarts_line (rest : List Char) : forall i, '\n' ∉ text ->
      lineStarts i (text ++ '\n' :: rest) =
        if rest.head? = some '*' then lineStarts (i + text.length + 1) rest
        else (i + text.length + 1) :: lineStarts (i + text.length + 1) rest := by
  induction text with
  | nil =>
    intro i _
    by_cases hstar : rest.head? = some '*'
    · simp [lineStarts, hstar]
    · simp [lineStarts, hstar]
  | cons c text ih =>
    intro i hline
    have hc : c ≠ '\n' := fun h => hline (by simp [h])
    rw [cons_append, lineStarts, if_neg (fun h => hc h.1),
      ih (i + 1) (fun h => hline (mem_cons_of_mem c h)), length_cons,
      show i + 1 + text.length + 1 = i + (text.length + 1) + 1 by omega]

theorem lineStarts_lines : forall i,
      (if (linesText lines ++ ['\n']).head? = some '*'
        then lineStarts i (linesText lines ++ ['\n'])
        else i :: lineStarts i (linesText lines ++ ['\n'])) = marks i lines := by
  induction lines with
  | nil =>
    intro i
    rfl
  | cons line lines ih =>
    intro i
    obtain ⟨c, rest, htext, -, hstar⟩ := line.text_cons
    have hhead : (linesText (line :: lines) ++ ['\n']).head? = some c := by
      rw [linesText_cons, htext]
      rfl
    have hstep : lineStarts i (linesText (line :: lines) ++ ['\n']) =
        marks (i + line.text.length + 1) lines := by
      rw [linesText_cons, append_assoc, cons_append, lineStarts_line _ _ line.notMem_newline]
      exact ih (i + line.text.length + 1)
    rw [hhead, hstep, marks]
    by_cases hcomment : line.isComment = true
    · rw [if_pos (by rw [hstar.mpr hcomment]), if_pos hcomment]
    · rw [if_neg (fun h => hcomment (hstar.mp (Option.some.inj h))), if_neg hcomment]

theorem lineStarts_text (stanza : Stanza) :
    lineStarts 0 stanza.text = marks (stanza.name.length + 2) stanza.lines := by
  have htext : stanza.text =
      (stanza.name ++ [':']) ++ '\n' :: (linesText stanza.lines ++ ['\n']) := by
    simp [Stanza.text, Stanza.body]
  rw [htext, lineStarts_line _ _ stanza.notMem_newline, length_append, length_singleton,
    show 0 + (stanza.name.length + 1) + 1 = stanza.name.length + 2 by omega]
  exact lineStarts_lines (stanza.name.length + 2)

theorem mem_marks :
    forall {i x : Nat}, x ∈ marks i lines -> x ≤ i + (linesText lines).length + 1 := by
  induction lines with
  | nil =>
    intro i x hx
    simp only [marks, mem_cons, not_mem_nil, or_false] at hx
    omega
  | cons line lines ih =>
    intro i x hx
    simp only [linesText_cons, length_append, length_cons]
    rw [marks] at hx
    split at hx
    · have hle := ih hx
      omega
    · rcases mem_cons.mp hx with rfl | hx
      · omega
      · have hle := ih hx
        omega

theorem toShort_eq {i : Nat} (h : i < 2 ^ 15) : toShort i = i := by
  have hmod : (i : Int) % (65536 : Nat) = i := by omega
  unfold toShort
  rw [bmod_def, hmod, if_pos (by omega)]

theorem cfgcsvdflt_text (sf : StanzaFile) (stanza : Stanza) (hshort : stanza.text.length < 2 ^ 15) :
    cfgcsvdflt sf stanza.text =
      { sf with
        defbuf := stanza.text
        defmap := (marks (stanza.name.length + 2) stanza.lines).map ofNat } := by
  have hlen : stanza.text.length = stanza.name.length + 2 +
      (linesText stanza.lines).length + 1 := by
    rw [stanza.text_length, stanza.body_length]
  have hmap : (marks (stanza.name.length + 2) stanza.lines).map toShort =
      (marks (stanza.name.length + 2) stanza.lines).map ofNat := by
    apply map_congr_left
    intro x hx
    have hle := mem_marks hx
    rw [toShort_eq (by omega)]
    rfl
  rw [cfgcsvdflt, lineStarts_text, hmap]

def addedLines (own : List Line) : List Line -> List Line
  | [] => []
  | comment _ _ :: lines => addedLines own lines
  | keyword entry :: lines =>
    if lookup entry.keyword own = none then
      keyword entry :: (lines.takeWhile isComment ++ addedLines own lines)
    else addedLines own lines

theorem cfgckwd_attribute (entry : Attribute) (rest : List Char) :
    cfgckwd (entry.text ++ rest) = entry.keyword := by
  obtain ⟨c, tail, htext, hc, -⟩ := entry.text_cons
  obtain ⟨d, after, hbehind, hd⟩ := entry.behind_cons
  have hdrop : (entry.text ++ rest).dropWhile (fun c => decide (c ≤ ' ')) = entry.text ++ rest := by
    rw [htext, cons_append, dropWhile_cons_of_neg]
    simp [Char.not_le.mpr hc]
  have hkeyword : forall x, x ∈ entry.keyword -> decide (' ' < x ∧ x ≠ '=') = true := by
    intro x hx
    exact decide_eq_true (entry.keyword_ok.plain x hx)
  have hstop : (entry.behind ++ rest).takeWhile (fun x => decide (' ' < x ∧ x ≠ '=')) = [] := by
    rw [hbehind, cons_append, takeWhile_cons_of_neg]
    rcases hd with rfl | rfl
    · decide
    · decide
  rw [cfgckwd, hdrop, entry.text_eq, append_assoc,
    takeWhile_append_of_pos hkeyword, hstop, append_nil]

theorem headD_marks (lines : List Line) : forall i, ((marks i lines).map ofNat).headD 0 =
      (i : Int) + ((linesText (lines.takeWhile isComment)).length : Nat) := by
  induction lines with
  | nil =>
    intro i
    simp [marks]
  | cons line lines ih =>
    intro i
    by_cases hcomment : line.isComment = true
    · rw [marks, if_pos hcomment, ih, takeWhile_cons_of_pos hcomment, linesText_cons]
      simp only [length_append, length_cons]
      omega
    · rw [marks, if_neg hcomment, takeWhile_cons_of_neg hcomment]
      simp

theorem take_linesText (line : Line) (lines : List Line) (rest : List Char) :
    (linesText (line :: lines) ++ rest).take (line.text.length + 1 +
        (linesText (lines.takeWhile isComment)).length) =
      linesText (line :: lines.takeWhile isComment) := by
  have hsplit : linesText (line :: lines) ++ rest =
      linesText (line :: lines.takeWhile isComment) ++
        (linesText (lines.dropWhile isComment) ++ rest) := by
    rw [← append_assoc, ← linesText_append, cons_append, takeWhile_append_dropWhile]
  rw [hsplit]
  apply take_left'
  simp only [linesText_cons, length_append, length_cons]
  omega

theorem drop_linesText (line : Line) (lines : List Line) (rest : List Char) :
    (linesText (line :: lines) ++ rest).drop (line.text.length + 1) = linesText lines ++ rest := by
  rw [show linesText (line :: lines) ++ rest =
    (line.text ++ ['\n']) ++ (linesText lines ++ rest) by simp]
  apply drop_left'
  simp

theorem length_linesText_split (lines : List Line) :
    (linesText lines).length = (linesText (lines.takeWhile isComment)).length +
      (linesText (lines.dropWhile isComment)).length := by
  rw [← length_append, ← linesText_append, takeWhile_append_dropWhile]

theorem mergeLines_marks {orgbuf defbuf : List Char} (nbyte : Nat) (lines : List Line)
    (horg : forall name, IsKeyword name ->
      cfgcskwd name orgbuf = ofOption ((lookup name own).map cleaned)) :
    forall (i : Nat) (buf : List Char), 0 < i -> defbuf.drop i = linesText lines ++ ['\n'] ->
      buf.length + (linesText (lines.dropWhile isComment)).length + 1 < nbyte ->
      mergeLines orgbuf defbuf nbyte ((marks i lines).map ofNat) buf =
        some (Rc.succ, buf ++ linesText (addedLines own lines) ++ ['\n']) := by
  induction lines with
  | nil =>
    intro i buf hi hdrop hlen
    have hlength := congrArg List.length hdrop
    simp only [length_drop, linesText_nil, nil_append, length_singleton] at hlength
    have hname : cfgckwd (defbuf.drop i) = [] := by
      rw [hdrop]
      rfl
    simp only [marks, map_cons, mergeLines]
    rw [if_neg (by simp; omega), if_neg (by simp; omega)]
    simp [hname, addedLines]
  | cons line lines ih =>
    intro i buf hi hdrop hlen
    have hlength := congrArg List.length hdrop
    simp only [length_drop, linesText_cons, length_append, length_cons, length_nil] at hlength
    have hdrop' : defbuf.drop (i + line.text.length + 1) = linesText lines ++ ['\n'] := by
      rw [add_assoc, ← drop_drop, hdrop, drop_linesText]
    cases line with
    | comment text ok =>
      rw [addedLines]
      exact ih _ buf (by omega) hdrop' hlen
    | keyword entry =>
      have hname : cfgckwd (defbuf.drop i) = entry.keyword := by
        rw [hdrop, linesText_cons, append_assoc]
        exact cfgckwd_attribute entry _
      have hfound := horg entry.keyword entry.keyword_ok
      have hsplit := length_linesText_split lines
      rw [dropWhile_cons_of_neg (by simp [isComment]), linesText_cons,
        length_append, length_cons] at hlen
      rw [marks, if_neg (by simp [isComment]), map_cons, mergeLines,
        if_neg (by simp; omega), if_neg (by simp; omega)]
      simp only [ofNat_eq_natCast, toNat_natCast, hname,
        entry.keyword_ok.nonempty, if_false, hfound]
      cases hown : lookup entry.keyword own with
      | some value =>
        simp only [Option.map_some, ofOption, addedLines, hown, reduceCtorEq, if_false]
        exact ih _ buf (by omega) hdrop' (by omega)
      | none =>
        have hhead := headD_marks lines (i + (keyword entry).text.length + 1)
        have hnext := ih (i + (keyword entry).text.length + 1)
          (buf ++ linesText (keyword entry :: lines.takeWhile isComment))
          (by omega) hdrop' (by
            simp only [linesText_cons, length_append, length_cons]
            omega)
        have hchunk := take_linesText (keyword entry) lines ['\n']
        simp only [Option.map_none, ofOption, addedLines, hown, if_true]
        have hlinlen : ((i + (keyword entry).text.length + 1 : Nat) : Int) +
            ((linesText (lines.takeWhile isComment)).length : Nat) - (i : Int) =
              (((keyword entry).text.length + 1 +
                (linesText (lines.takeWhile isComment)).length : Nat) : Int) := by
          omega
        rw [hhead, hlinlen, if_pos (by omega), if_neg (by omega), toNat_natCast,
          hdrop, hchunk, hnext]
        simp [append_assoc]

theorem lookup_append (name : List Char) (first second : List Line) :
    lookup name (first ++ second) = (lookup name first).or (lookup name second) := by
  simp [lookup, findSome?_append]

theorem lookup_comments (name : List Char) (lines : List Line) :
    lookup name (lines.takeWhile isComment) = none := by
  induction lines with
  | nil => rfl
  | cons line lines ih =>
    cases line with
    | keyword entry => rfl
    | comment text ok => exact ih

theorem lookup_addedLines (hown : lookup name own = none) (lines : List Line) :
    lookup name (addedLines own lines) = lookup name lines := by
  induction lines with
  | nil => rfl
  | cons line lines ih =>
    cases line with
    | comment text ok => exact ih
    | keyword entry =>
      rw [addedLines]
      by_cases heq : entry.keyword = name
      · rw [heq, if_pos hown]
        simp [lookup, value?, heq]
      · have hskip : forall rest, lookup name (keyword entry :: rest) = lookup name rest := by
          intro rest
          simp [lookup, value?, heq]
        split
        · rw [hskip, hskip, lookup_append, lookup_comments, Option.none_or, ih]
        · rw [hskip, ih]

def Covers (default : Option Stanza) (stanza : Stanza) : Prop :=
  forall entry, keyword entry ∈ defaultLines default ->
    lookup entry.keyword stanza.lines ≠ none

theorem addedLines_eq_nil
    (h : forall entry, keyword entry ∈ lines -> lookup entry.keyword own ≠ none) :
    addedLines own lines = [] := by
  induction lines with
  | nil => rfl
  | cons line lines ih =>
    have hrest := ih (fun entry hmem => h entry (mem_cons_of_mem line hmem))
    cases line with
    | comment text ok => exact hrest
    | keyword entry => rw [addedLines, if_neg (h entry mem_cons_self), hrest]

end Htx.Cfgc
