import Htx.Cfgc.AttributeFile

/-!
# The text of a stanza and its reader

The reader takes a file apart character by character; the files here are put together from
lines and stanzas.
-/

namespace Htx.Cfgc

open List Bool Stanza

/-! ## Lines -/

theorem IsKeyword.notMem_newline {text : List Char} (h : IsKeyword text) : '\n' ∉ text := by
  intro hmem
  exact absurd (h.plain _ hmem).1 (by decide)

theorem Attribute.notMem_newline (entry : Attribute) : '\n' ∉ entry.text := by
  intro hmem
  simp only [Attribute.text, mem_append, mem_cons, mem_replicate] at hmem
  rcases hmem with (hmem | ⟨-, hblank⟩) | heq | ⟨-, hblank⟩ | hmem
  · exact entry.keyword_ok.notMem_newline hmem
  · exact absurd hblank (by decide)
  · exact absurd heq (by decide)
  · exact absurd hblank (by decide)
  · exact (entry.value_ok _ hmem).1 rfl

theorem Line.notMem_newline (line : Line) : '\n' ∉ line.text := by
  cases line with
  | keyword entry => exact entry.notMem_newline
  | comment text ok =>
    intro hmem
    rcases mem_cons.mp hmem with heq | hmem
    · exact absurd heq (by decide)
    · exact (ok _ hmem).1 rfl

theorem Stanza.notMem_newline (stanza : Stanza) : '\n' ∉ stanza.name ++ [':'] := by
  intro hmem
  rcases mem_append.mp hmem with hmem | hmem
  · exact absurd (stanza.name_plain _ hmem).1 (by decide)
  · exact absurd hmem (by decide)

theorem Attribute.text_cons (entry : Attribute) :
    exists c rest, entry.text = c :: rest ∧ ' ' < c ∧ c ≠ '*' := by
  have hok := entry.keyword_ok
  cases hkw : entry.keyword with
  | nil => exact absurd hkw hok.nonempty
  | cons c tail =>
    rw [hkw] at hok
    refine ⟨c, _, by rw [Attribute.text, hkw]; rfl, (hok.plain c (by simp)).1, ?_⟩
    intro heq
    exact hok.noComment (by rw [heq]; rfl)

theorem Line.text_cons (line : Line) :
    exists c rest, line.text = c :: rest ∧ ' ' < c ∧ (c = '*' <-> line.isComment = true) := by
  cases line with
  | keyword entry =>
    obtain ⟨c, rest, htext, hc, hstar⟩ := entry.text_cons
    exact ⟨c, rest, htext, hc, iff_of_false hstar (by simp [Line.isComment])⟩
  | comment text ok => exact ⟨'*', text, rfl, by decide, iff_of_true rfl rfl⟩

@[simp]
theorem linesText_nil : linesText [] = [] := rfl

@[simp]
theorem linesText_cons (line : Line) (lines : List Line) :
    linesText (line :: lines) = line.text ++ '\n' :: linesText lines := by
  simp [linesText]

@[simp]
theorem linesText_append (first second : List Line) :
    linesText (first ++ second) = linesText first ++ linesText second := by
  simp [linesText]

theorem linesText_concat {lines : List Line} (hlines : lines ≠ []) :
    exists (first : List Line) (last : Line),
      linesText lines = (linesText first ++ last.text) ++ ['\n'] := by
  refine ⟨lines.dropLast, lines.getLast hlines, ?_⟩
  have hsplit := congrArg linesText (dropLast_append_getLast hlines)
  rw [← hsplit]
  simp

/-! ## Reading a stanza -/

theorem scanName_name {name : List Char} (rest : List Char) : forall namebuf : List Char,
      (forall c, c ∈ name -> ' ' < c ∧ c ≠ ':') ->
      (namebuf = [] -> name.head? ≠ some '*') ->
      namebuf.length + name.length < maxVal - 2 ->
      scanName false namebuf false (name ++ ':' :: '\n' :: rest) =
        some (namebuf ++ name ++ [':'], '\n' :: rest) := by
  induction name with
  | nil =>
    intro namebuf _ _ hlen
    have hroom : namebuf.length < maxVal - 2 := by simpa using hlen
    simp [scanName, hroom]
  | cons c name ih =>
    intro namebuf hplain hstar hlen
    obtain ⟨hc, hcolon⟩ := hplain c mem_cons_self
    have hlen' : namebuf.length + (name.length + 1) < maxVal - 2 := hlen
    have hblank : ¬ (c = ' ' ∨ c = '\n') := by
      rintro (rfl | rfl)
      · exact absurd hc (by decide)
      · exact absurd hc (by decide)
    have hcomment : ¬ (c = '*' ∧ namebuf = []) := by
      rintro ⟨rfl, hnil⟩
      exact hstar hnil rfl
    have hnext := ih (namebuf ++ [c]) (fun d hd => hplain d (mem_cons_of_mem c hd))
      (fun h => absurd h (by simp)) (by simp; omega)
    have hroom : namebuf.length < maxVal - 2 := by omega
    rw [cons_append, scanName, if_neg hblank, if_neg hcomment, if_pos hroom]
    simp only [Bool.false_or, beq_eq_false_iff_ne.mpr hcolon, hnext]
    simp

theorem readStanza_text (nbyte : Nat) {text : List Char} (rest : List Char) :
    forall buf : List Char, '\n' ∉ text -> buf.length + text.length ≤ nbyte ->
      readStanza nbyte buf false (text ++ rest) = readStanza nbyte (buf ++ text) false rest := by
  induction text with
  | nil =>
    intro buf _ _
    simp
  | cons c text ih =>
    intro buf hline hlen
    have hlen' : buf.length + (text.length + 1) ≤ nbyte := hlen
    have hc : c ≠ '\n' := fun h => hline (by simp [h])
    have hnext := ih (buf ++ [c]) (fun h => hline (mem_cons_of_mem c h)) (by simp; omega)
    rw [cons_append, readStanza, if_pos (by omega), if_neg hc, Bool.false_and, hnext]
    simp

theorem readStanza_line (nbyte : Nat) (line : Line) (buf rest : List Char)
    (hlen : buf.length + line.text.length ≤ nbyte) :
    readStanza nbyte buf true (line.text ++ rest) =
      readStanza nbyte (buf ++ line.text) false rest := by
  obtain ⟨c, text, htext, hc, -⟩ := line.text_cons
  have hline := line.notMem_newline
  rw [htext] at hlen hline ⊢
  have hlen' : buf.length + (text.length + 1) ≤ nbyte := hlen
  have hnl : c ≠ '\n' := fun h => hline (by simp [h])
  have hnext := readStanza_text nbyte rest (buf ++ [c])
    (fun h => hline (mem_cons_of_mem c h)) (by simp; omega)
  rw [cons_append, readStanza, if_pos (by omega), if_neg hnl, Bool.true_and,
    decide_eq_false (Char.not_le.mpr hc), hnext]
  simp

theorem readStanza_lines (nbyte : Nat) (lines : List Line) (rest : List Char) :
    forall buf : List Char, buf.length + (linesText lines).length ≤ nbyte ->
      readStanza nbyte buf true (linesText lines ++ rest) =
        readStanza nbyte (buf ++ linesText lines) true rest := by
  induction lines with
  | nil =>
    intro buf _
    simp
  | cons line lines ih =>
    intro buf hlen
    simp only [linesText_cons, length_append, length_cons] at hlen
    have hnext := ih (buf ++ line.text ++ ['\n']) (by simp; omega)
    rw [linesText_cons, append_assoc, readStanza_line nbyte line buf _ (by omega),
      cons_append, readStanza,
      if_pos (by simp; omega), if_pos rfl, if_neg Bool.false_ne_true, hnext]
    simp

theorem readStanza_end {nbyte : Nat} (buf : List Char) (oneNl : Bool) (hlen : buf.length < nbyte) :
    readStanza nbyte buf oneNl [] = (buf ++ ['\n'], []) := by
  rw [readStanza, if_pos hlen]

def Stanza.buffer (stanza : Stanza) (ending : Ending) (more : List Stanza) : List Char :=
  if ending = Ending.bare ∧ more = [] ∧ stanza.lines ≠ [] then stanza.body
  else stanza.text

theorem Stanza.body_length (stanza : Stanza) :
    stanza.body.length = stanza.name.length + 2 + (linesText stanza.lines).length := by
  simp only [body, length_append, length_cons]
  omega

theorem Stanza.text_length (stanza : Stanza) : stanza.text.length = stanza.body.length + 1 := by
  simp [text]

theorem readStanza_name (nbyte : Nat) (stanza : Stanza) (rest : List Char)
    (hlen : stanza.name.length + 1 < nbyte) :
    readStanza nbyte (stanza.name ++ [':']) false ('\n' :: rest) =
      readStanza nbyte (stanza.name ++ [':'] ++ ['\n']) true rest := by
  rw [readStanza, if_pos (by simpa using hlen), if_pos rfl, if_neg Bool.false_ne_true]

theorem readStanza_lastText {nbyte : Nat} {stanza : Stanza} (ending : Ending)
    (hlen : stanza.text.length < nbyte) :
    exists rest, stanza.lastText ending = stanza.name ++ ':' :: '\n' :: rest ∧
      readStanza nbyte (stanza.name ++ [':']) false ('\n' :: rest) =
        (stanza.buffer ending [], []) := by
  rw [stanza.text_length, stanza.body_length] at hlen
  have hname := fun rest => readStanza_name nbyte stanza rest (by omega)
  have hlines := fun rest => readStanza_lines nbyte stanza.lines rest
    (stanza.name ++ [':'] ++ ['\n']) (by simp; omega)
  cases ending with
  | emptyLine =>
    refine ⟨linesText stanza.lines ++ ['\n'], by simp [lastText, text, body], ?_⟩
    rw [hname, hlines, readStanza, if_pos (by simp; omega), if_pos rfl, if_pos rfl]
    simp [buffer, text, body]
  | newline =>
    refine ⟨linesText stanza.lines, rfl, ?_⟩
    have hend := hlines []
    rw [append_nil] at hend
    rw [hname, hend, readStanza_end _ _ (by simp; omega)]
    simp [buffer, text, body]
  | bare =>
    by_cases hnil : stanza.lines = []
    · refine ⟨[], by simp [lastText, body, hnil], ?_⟩
      rw [hname, readStanza_end _ _ (by simp; omega)]
      simp [buffer, text, body, hnil]
    · obtain ⟨first, last, htext⟩ := linesText_concat hnil
      rw [htext, length_append, length_append, length_singleton] at hlen
      refine ⟨linesText first ++ last.text, ?_, ?_⟩
      · rw [lastText, if_neg hnil, body, htext]
        rw [show stanza.name ++ ':' :: '\n' :: (linesText first ++ last.text ++ ['\n']) =
          (stanza.name ++ ':' :: '\n' :: (linesText first ++ last.text)) ++ ['\n'] by simp,
          dropLast_concat]
      · have hlast := readStanza_line nbyte last
          (stanza.name ++ [':'] ++ ['\n'] ++ linesText first) [] (by simp; omega)
        rw [append_nil] at hlast
        rw [hname, readStanza_lines _ _ _ _ (by simp; omega), hlast,
          readStanza_end _ _ (by simp; omega)]
        simp [buffer, body, hnil, htext]

theorem cfgcread_stanza {nbyte : Nat} {stanza : Stanza} (ending : Ending)
    (more : List Stanza) (buf : List Char) (hname : stanza.name.length < maxVal - 2)
    (hlen : stanza.text.length < nbyte) :
    cfgcread nbyte buf (fileText ending (stanza :: more)) =
      (Rc.succ, stanza.buffer ending more, fileText ending more) := by
  have hbody := stanza.body_length
  have htext := stanza.text_length
  have hread : exists rest, fileText ending (stanza :: more) = stanza.name ++ ':' :: '\n' :: rest ∧
      readStanza nbyte (stanza.name ++ [':']) false ('\n' :: rest) =
        (stanza.buffer ending more, fileText ending more) := by
    cases more with
    | nil => exact readStanza_lastText ending hlen
    | cons next more =>
      refine ⟨linesText stanza.lines ++ '\n' :: fileText ending (next :: more), ?_, ?_⟩
      · simp [fileText, text, body]
      · rw [readStanza_name _ _ _ (by omega), readStanza_lines _ _ _ _ (by simp; omega),
          readStanza, if_pos (by simp; omega), if_pos rfl, if_pos rfl]
        simp [buffer, text, body]
  obtain ⟨rest, hfile, hread⟩ := hread
  have hscan := scanName_name rest [] stanza.name_plain (fun _ => stanza.name_head)
    (by simpa using hname)
  have hbuffer : (stanza.buffer ending more).length < nbyte := by
    rw [buffer]
    split
    · omega
    · exact hlen
  rw [cfgcread, hfile, hscan]
  simp only [nil_append, hread]
  rw [if_pos (by simp; omega), if_neg (by omega)]

end Htx.Cfgc
