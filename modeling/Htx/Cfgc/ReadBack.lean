import Htx.Cfgc.Lookup

/-!
# What is read back from an attribute file

Successive reads return the stanzas of a file in order, each merged with the default
stanza before it.
-/

namespace Htx.Cfgc

open List Stanza Option Scan

theorem Scan.ofOption_injective {a b : Option (List Char)}
    (h : ofOption a = ofOption b) : a = b := by
  cases a with
  | none =>
    cases b with
    | none => rfl
    | some y => exact nomatch h
  | some x =>
    cases b with
    | none => exact nomatch h
    | some y => exact congrArg some (value.inj h)

def Holds (sf : StanzaFile) : Option Stanza -> Prop
  | none => sf.defbuf = []
  | some default => sf.defbuf = default.text ∧
      sf.defmap = (marks (default.name.length + 2) default.lines).map Int.ofNat

def EndsClean (ending : Ending) : Option Stanza -> List Stanza -> Prop
  | _, [] => True
  | default, [last] =>
    ending = .bare -> last.isDefault = false -> Covers default last
  | default, stanza :: next :: more =>
    EndsClean ending (if stanza.isDefault then some stanza else default) (next :: more)

theorem Stanza.body_concat (stanza : Stanza) : exists front, stanza.body = front ++ ['\n'] := by
  by_cases hnil : stanza.lines = []
  · exact ⟨stanza.name ++ [':'], by simp [body, hnil]⟩
  · obtain ⟨first, last, htext⟩ := linesText_concat hnil
    exact ⟨stanza.name ++ ':' :: '\n' :: (linesText first ++ last.text),
      by simp [body, htext]⟩

theorem Stanza.buffer_dropLast (stanza : Stanza) (ending : Ending) (more : List Stanza) :
    (stanza.buffer ending more).dropLast ++ ['\n'] = stanza.buffer ending more := by
  rw [buffer]
  split
  · obtain ⟨front, hfront⟩ := stanza.body_concat
    rw [hfront, dropLast_concat]
  · rw [text, dropLast_concat]

theorem Stanza.buffer_length_le (stanza : Stanza) (ending : Ending) (more : List Stanza) :
    (stanza.buffer ending more).length ≤ stanza.text.length := by
  have htext := stanza.text_length
  rw [buffer]
  split
  · omega
  · exact le_refl _

variable {nbyte : Nat} {stanza : Stanza} {ending : Ending} {more : List Stanza}
  {default : Option Stanza}

theorem cfgcmrgdflt_buffer {default : Stanza} {sf : StanzaFile} (ending : Ending)
    (more : List Stanza) (hsf : Holds sf (some default))
    (hfits : stanza.text.length + default.text.length < nbyte) :
    cfgcmrgdflt (stanza.buffer ending more) sf nbyte =
      some (.succ, (stanza.buffer ending more).dropLast ++
        linesText (addedLines stanza.lines default.lines) ++ ['\n']) := by
  obtain ⟨hdefbuf, hdefmap⟩ := hsf
  have hbuffer := stanza.buffer_length_le ending more
  have htext := default.text_length
  have hbody := default.body_length
  have hcomments := length_linesText_split default.lines
  have hdrop : sf.defbuf.drop (default.name.length + 2) = linesText default.lines ++ ['\n'] := by
    rw [hdefbuf, show default.text = (default.name ++ [':', '\n']) ++
      (linesText default.lines ++ ['\n']) by simp [text, body]]
    apply drop_left'
    simp
  rw [cfgcmrgdflt, hdefmap]
  apply mergeLines_marks nbyte default.lines
    (fun name hname => cfgcskwd_buffer hname stanza ending more) _ _ (by omega) hdrop
  rw [length_dropLast]
  omega

theorem cfgcskwd_merged {default : Stanza} {keyword : List Char} (ending : Ending)
    (more : List Stanza) (hkeyword : IsKeyword keyword)
    (hclean : stanza.buffer ending more = stanza.text ∨ Covers (some default) stanza) :
    cfgcskwd keyword ((stanza.buffer ending more).dropLast ++
        linesText (addedLines stanza.lines default.lines) ++ ['\n']) =
      ofOption ((expected keyword (stanza, some default)).map cleaned) := by
  have hlookup : lookup keyword (stanza.lines ++ addedLines stanza.lines default.lines) =
      expected keyword (stanza, some default) := by
    rw [lookup_append, expected]
    cases hown : lookup keyword stanza.lines with
    | some value => rfl
    | none =>
      rw [lookup_addedLines hown]
      rfl
  rw [← hlookup]
  rcases hclean with hbuffer | hcovers
  · have hmerged : (stanza.buffer ending more).dropLast ++
        linesText (addedLines stanza.lines default.lines) ++ ['\n'] = stanza.name ++ ':' :: '\n' ::
            (linesText (stanza.lines ++ addedLines stanza.lines default.lines) ++ ['\n']) := by
      rw [hbuffer, text, dropLast_concat]
      simp [body]
    rw [hmerged, cfgcskwd_lines hkeyword stanza (.inr rfl)]
  · have hnone : addedLines stanza.lines default.lines = [] := addedLines_eq_nil hcovers
    rw [hnone, linesText_nil, append_nil, append_nil, buffer_dropLast, cfgcskwd_buffer hkeyword]

theorem merged_buffer {sf : StanzaFile} (hsf : Holds sf default)
    (hfits : stanza.text.length + ((default.map text).getD []).length < nbyte)
    (hclean : stanza.buffer ending more = stanza.text ∨ Covers default stanza) :
    exists buf, (if sf.defbuf ≠ [] then
          (cfgcmrgdflt (stanza.buffer ending more) sf nbyte).map
            (fun merged => (merged.1, merged.2, sf))
        else some (.succ, stanza.buffer ending more, sf)) = some (.succ, buf, sf) ∧
      forall keyword, IsKeyword keyword -> cfgcskwd keyword buf =
        ofOption ((expected keyword (stanza, default)).map cleaned) := by
  cases default with
  | none =>
    refine ⟨stanza.buffer ending more, if_neg (fun h => h hsf), ?_⟩
    intro keyword hkeyword
    rw [cfgcskwd_buffer hkeyword]
    simp [expected, defaultLines, lookup]
  | some default =>
    have hne : sf.defbuf ≠ [] := by
      rw [hsf.1]
      simp [text]
    refine ⟨_, ?_, fun keyword hkeyword => cfgcskwd_merged ending more hkeyword hclean⟩
    rw [if_pos hne, cfgcmrgdflt_buffer ending more hsf hfits]
    rfl

theorem isPrefixOf_buffer (stanza : Stanza) (ending : Ending) (more : List Stanza) :
    defaultName.isPrefixOf (stanza.buffer ending more) = stanza.isDefault := by
  obtain ⟨tail, -, hbuffer⟩ := stanza.buffer_eq ending more
  rw [hbuffer, Bool.eq_iff_iff, isPrefixOf_iff_prefix, isDefault, beq_iff_eq]
  constructor
  · rintro ⟨rest, hrest⟩
    have hname : forall c, c ∈ stanza.name -> decide (c ≠ ':') = true := by
      intro c hc
      exact decide_eq_true (stanza.name_plain c hc).2
    have hcut := congrArg (List.takeWhile (fun c => decide (c ≠ ':'))) hrest
    rw [takeWhile_append_of_pos hname, takeWhile_cons_of_neg (by simp), append_nil] at hcut
    rw [← hcut]
    rfl
  · intro heq
    rw [← heq]
    exact ⟨'\n' :: (linesText stanza.lines ++ tail), by simp⟩

structure Readable (nbyte : Nat) (ending : Ending) (default : Option Stanza)
    (stanzas : List Stanza) : Prop where
  names : forall stanza, stanza ∈ stanzas -> stanza.name.length < maxVal - 2
  defaults : forall stanza, stanza ∈ stanzas -> stanza.isDefault = true ->
    stanza.text.length < 2 ^ 15
  fits : forall stanza, stanza ∈ stanzas -> stanza.text.length < nbyte
  merged : forall read, read ∈ stanzaReads default stanzas ->
    read.1.text.length + ((read.2.map Stanza.text).getD []).length < nbyte
  ends : EndsClean ending default stanzas

theorem EndsClean.tail (h : EndsClean ending default (stanza :: more)) :
    EndsClean ending (if stanza.isDefault then some stanza else default) more := by
  cases more with
  | nil => trivial
  | cons next more => exact h

theorem stanzaReads_tail {read : Stanza × Option Stanza}
    (h : read ∈ stanzaReads (if stanza.isDefault then some stanza else default) more) :
    read ∈ stanzaReads default (stanza :: more) := by
  rw [stanzaReads]
  split
  · rename_i hdefault
    simpa [hdefault] using h
  · rename_i hdefault
    simp only [hdefault] at h
    exact mem_cons_of_mem _ h

theorem Readable.tail (h : Readable nbyte ending default (stanza :: more)) :
    Readable nbyte ending (if stanza.isDefault then some stanza else default) more where
  names := fun s hs => h.names s (mem_cons_of_mem stanza hs)
  defaults := fun s hs => h.defaults s (mem_cons_of_mem stanza hs)
  fits := fun s hs => h.fits s (mem_cons_of_mem stanza hs)
  merged := fun read hread => h.merged read (stanzaReads_tail hread)
  ends := h.ends.tail

theorem EndsClean.buffer (h : EndsClean ending default (stanza :: more))
    (hdefault : stanza.isDefault = false) :
    stanza.buffer ending more = stanza.text ∨ Covers default stanza := by
  rw [Stanza.buffer]
  split
  · rename_i hbare
    obtain ⟨hbare, hmore, -⟩ := hbare
    rw [hmore] at h
    exact .inr (h hbare hdefault)
  · exact .inl rfl

inductive NextRead (nbyte : Nat) (ending : Ending) (content : List Char) :
    List (Stanza × Option Stanza) -> Option (Rc × List Char × StanzaFile) -> Prop where
  | eof (buf : List Char) (sf : StanzaFile) :
      NextRead nbyte ending content [] (some (.eof, buf, sf))
  | stanza (read : Stanza × Option Stanza) (after : List Stanza) (buf : List Char)
      (sf : StanzaFile) (hbuf : forall keyword, IsKeyword keyword ->
        cfgcskwd keyword buf = ofOption ((expected keyword read).map cleaned))
      (hcontent : sf.content = content) (hrest : sf.rest = fileText ending after)
      (hholds : Holds sf read.2) (hafter : after.length ≤ content.length)
      (hreadable : Readable nbyte ending read.2 after) :
      NextRead nbyte ending content (read :: stanzaReads read.2 after) (some (.succ, buf, sf))

theorem rdszLoop_next (startloc : Nat) {stanzas : List Stanza} :
    forall (default : Option Stanza) (sf : StanzaFile) (buf : List Char) (fuel : Nat),
      stanzas.length < fuel -> stanzas.length ≤ sf.content.length ->
      sf.rest = fileText ending stanzas -> (stanzas ≠ [] -> Holds sf default) ->
      Readable nbyte ending default stanzas ->
      NextRead nbyte ending sf.content (stanzaReads default stanzas)
        (rdszLoop nbyte startloc none fuel false buf sf) := by
  induction stanzas with
  | nil =>
    intro default sf buf fuel hfuel _ hrest _ _
    obtain ⟨fuel, rfl⟩ : exists k, fuel = k + 1 := ⟨fuel - 1, by simp at hfuel; omega⟩
    have hread : cfgcread nbyte buf sf.rest = (.eof, buf, []) := by
      rw [hrest]
      rfl
    rw [rdszLoop, hread]
    exact .eof _ _
  | cons stanza more ih =>
    intro default sf buf fuel hfuel hcontent hrest hholds hreadable
    obtain ⟨fuel, rfl⟩ : exists k, fuel = k + 1 := ⟨fuel - 1, by simp at hfuel; omega⟩
    simp only [length_cons] at hfuel hcontent
    have hmem : stanza ∈ stanza :: more := mem_cons_self
    have hread := cfgcread_stanza ending more buf
      (hreadable.names stanza hmem) (hreadable.fits stanza hmem)
    rw [← hrest] at hread
    have htail := hreadable.tail
    rw [rdszLoop, hread]
    simp only [isPrefixOf_buffer]
    by_cases hdefault : stanza.isDefault = true
    · rw [stanzaReads, if_pos hdefault, if_pos hdefault]
      rw [if_pos hdefault] at htail
      have hnext := ih (some stanza)
        (cfgcsvdflt { sf with rest := fileText ending more } (stanza.buffer ending more))
        (stanza.buffer ending more) fuel (by omega) (by
          show more.length ≤ sf.content.length
          omega) rfl ?_ htail
      · exact hnext
      · intro hmore
        have hbuffer : stanza.buffer ending more = stanza.text := by
          rw [buffer, if_neg (fun h => hmore h.2.1)]
        rw [hbuffer, cfgcsvdflt_text _ stanza (hreadable.defaults stanza hmem hdefault)]
        exact ⟨rfl, rfl⟩
    · rw [if_neg hdefault] at htail
      have hother : stanzaReads default (stanza :: more) =
          (stanza, default) :: stanzaReads default more := by
        rw [stanzaReads, if_neg hdefault]
      have hfits := hreadable.merged (stanza, default) (by rw [hother]; simp)
      have hkeeps : Holds { sf with rest := fileText ending more } default := by
        have hsf := hholds (by simp)
        cases default with
        | none | some d => exact hsf
      obtain ⟨merged, hmerged, hbuf⟩ := merged_buffer hkeeps hfits
        (hreadable.ends.buffer (by simpa using hdefault))
      rw [if_neg hdefault, hother]
      simp only [true_or, if_true]
      rw [hmerged]
      exact .stanza (stanza, default) more merged _ hbuf rfl rfl hkeeps (by omega) htail

theorem readsAs_iff {reads : List (Stanza × Option Stanza)} :
    forall (default : Option Stanza) (stanzas : List Stanza) (sf : StanzaFile),
      stanzaReads default stanzas = reads -> stanzas.length ≤ sf.content.length ->
      sf.rest = fileText ending stanzas -> (stanzas ≠ [] -> Holds sf default) ->
      Readable nbyte ending default stanzas ->
      (ReadsAs nbyte sf reads <-> forall read, read ∈ reads -> forall keyword, IsKeyword keyword ->
          (expected keyword read).map cleaned = expected keyword read) := by
  induction reads with
  | nil =>
    intro default stanzas sf hreads hcontent hrest hholds hreadable
    have hnext := rdszLoop_next sf.ftell default sf []
      (2 * sf.content.length + 3) (by omega) hcontent hrest hholds hreadable
    rw [hreads] at hnext
    apply iff_of_true
    · rw [ReadsAs, cfgcrdsz]
      generalize rdszLoop nbyte _ none _ false [] sf = result at hnext ⊢
      cases hnext with
      | eof buf sf' => exact ⟨buf, sf', rfl⟩
    · simp
  | cons read reads ih =>
    intro default stanzas sf hreads hcontent hrest hholds hreadable
    have hnext := rdszLoop_next sf.ftell default sf []
      (2 * sf.content.length + 3) (by omega) hcontent hrest hholds hreadable
    rw [hreads] at hnext
    rw [ReadsAs, cfgcrdsz]
    generalize rdszLoop nbyte _ none _ false [] sf = result at hnext ⊢
    cases hnext with
    | stanza _ after buf sf' hbuf hsame hafterText hkeeps hafter htail =>
      have hmore := ih read.2 after sf' rfl (by rw [hsame]; exact hafter) hafterText
        (fun _ => hkeeps) htail
      constructor
      · rintro ⟨buf', sf'', heq, hvalues, hrun⟩
        obtain ⟨rfl, rfl⟩ := Prod.mk.inj (Prod.mk.inj (some.inj heq)).2
        intro other hother keyword hkeyword
        rcases mem_cons.mp hother with rfl | hother
        · exact ofOption_injective
            ((hbuf keyword hkeyword).symm.trans (hvalues keyword hkeyword))
        · exact hmore.mp hrun other hother keyword hkeyword
      · intro hall
        refine ⟨buf, sf', rfl, ?_, ?_⟩
        · intro keyword hkeyword
          rw [hbuf keyword hkeyword, hall read mem_cons_self keyword hkeyword]
        · exact hmore.mpr (fun other hother => hall other (mem_cons_of_mem read hother))

def PlainValue (value : List Char) : Prop :=
  (forall c, c ∈ value -> ' ' < c) ∧ value.head? ≠ some '='

theorem cleaned_eq_self_iff (value : List Char) : cleaned value = value <-> PlainValue value := by
  constructor
  · intro heq
    have hall : forall c, c ∈ value -> ' ' < c := by
      intro c hc
      rw [← heq, cleaned] at hc
      have hkept := mem_takeWhile_imp hc
      exact of_decide_eq_true hkept
    refine ⟨hall, ?_⟩
    intro hhead
    obtain ⟨rest, rfl⟩ := head?_eq_some_iff.mp hhead
    have hlen := cleaned_length_le rest
    have hdrop : cleaned ('=' :: rest) = cleaned rest := by
      rw [cleaned, dropWhile_cons_of_pos (by simp)]
      rfl
    rw [← hdrop, heq, length_cons] at hlen
    omega
  · rintro ⟨hall, hhead⟩
    have hdrop : value.dropWhile (fun c => decide (c = ' ' ∨ c = '=')) = value := by
      cases value with
      | nil => rfl
      | cons c rest =>
        rw [dropWhile_cons_of_neg]
        have hblank : c ≠ ' ' := fun h => absurd (hall c mem_cons_self) (by simp [h])
        have heq : c ≠ '=' := fun h => hhead (by rw [h]; rfl)
        simp [hblank, heq]
    rw [cleaned, hdrop, takeWhile_eq_self_iff]
    intro c hc
    exact decide_eq_true (hall c hc)

theorem mem_of_lookup {name value : List Char} {lines : List Line}
    (h : lookup name lines = some value) :
    exists entry, .keyword entry ∈ lines ∧ entry.keyword = name ∧ entry.value = value := by
  obtain ⟨line, hmem, hline⟩ := exists_of_findSome?_eq_some h
  cases line with
  | comment text ok => cases hline
  | keyword entry =>
    by_cases heq : entry.keyword = name
    · rw [Line.value?, if_pos heq] at hline
      exact ⟨entry, hmem, heq, some.inj hline⟩
    · rw [Line.value?, if_neg heq] at hline
      cases hline

theorem mem_of_expected {name value : List Char} {read : Stanza × Option Stanza}
    (h : expected name read = some value) :
    exists entry, .keyword entry ∈ read.1.lines ++ defaultLines read.2 ∧
      entry.keyword = name ∧ entry.value = value := by
  rw [expected, ← lookup_append] at h
  exact mem_of_lookup h

theorem length_le_fileText (ending : Ending) (stanzas : List Stanza) :
    stanzas.length ≤ (fileText ending stanzas).length := by
  induction stanzas with
  | nil => exact le_refl _
  | cons stanza more ih =>
    cases more with
    | nil =>
      have hbody := stanza.body_length
      have htext := stanza.text_length
      simp only [fileText, length_singleton]
      cases ending with
      | emptyLine | newline =>
        simp only [lastText]
        omega
      | bare =>
        simp only [lastText]
        split
        · omega
        · rw [length_dropLast]
          omega
    | cons next more =>
      have htext := stanza.text_length
      simp only [fileText, length_append, length_cons] at ih ⊢
      omega

/--
Names, default stanzas and the end of the file being in order, the reads return the
stanzas that are no defaults in the order of the file, and the keywords have the values
they should have exactly when those values are free of blanks and of a leading `=`.
-/
theorem attribute_file_read (nbyte : Nat) (ending : Ending) (stanzas : List Stanza)
    (hfits : Fits nbyte stanzas)
    (hnames : forall stanza, stanza ∈ stanzas -> stanza.name.length < maxVal - 2)
    (hdefaults : forall stanza, stanza ∈ stanzas -> stanza.isDefault = true ->
      stanza.text.length < 2 ^ 15)
    (hend : EndsClean ending none stanzas) :
    ReadsAs nbyte (cfgcopsf (fileText ending stanzas)) (stanzaReads none stanzas) <->
      forall read, read ∈ stanzaReads none stanzas -> forall keyword value,
        expected keyword read = some value -> PlainValue value := by
  have hreadable : Readable nbyte ending none stanzas :=
    { names := hnames, defaults := hdefaults, fits := hfits.1, merged := hfits.2,
      ends := hend }
  have hiff := readsAs_iff none stanzas (cfgcopsf (fileText ending stanzas)) rfl
    (length_le_fileText ending stanzas) rfl (fun _ => rfl) hreadable
  rw [hiff]
  constructor
  · intro hclean read hread keyword value hvalue
    obtain ⟨entry, -, hkeyword, -⟩ := mem_of_expected hvalue
    have hsame := hclean read hread keyword (by rw [← hkeyword]; exact entry.keyword_ok)
    rw [hvalue] at hsame
    exact (cleaned_eq_self_iff value).mp (some.inj hsame)
  · intro hplain read hread keyword _
    cases hvalue : expected keyword read with
    | none => rfl
    | some value =>
      exact congrArg some ((cleaned_eq_self_iff value).mpr (hplain read hread keyword value hvalue))

theorem forall_mem_of_all {text : List Char} {p : Char -> Prop} [DecidablePred p]
    (h : text.all (fun c => decide (p c)) = true) : forall c, c ∈ text -> p c :=
  fun c hc => of_decide_eq_true (all_eq_true.mp h c hc)

def letterLine (keyword value : Char) (hkeyword : ' ' < keyword ∧ keyword ≠ '=' ∧ keyword ≠ '*')
    (hvalue : ' ' < value ∧ value ≠ '\n' ∧ value ≠ '\x00') : Line :=
  .keyword
    { keyword := [keyword]
      before := 1
      after := 1
      value := [value]
      keyword_ok :=
        { nonempty := List.cons_ne_nil _ _
          plain := by
            intro c hc
            rw [List.mem_singleton.mp hc]
            exact ⟨hkeyword.1, hkeyword.2.1⟩
          noComment := fun h => hkeyword.2.2 (some.inj h) }
      keyword_short := by simp [maxKwd]
      value_ok := by
        intro c hc
        rw [List.mem_singleton.mp hc]
        exact hvalue.2
      value_head := by
        intro h
        rw [some.inj h] at hvalue
        exact absurd hvalue.1 (by decide)
      value_short := by simp [maxVal] }

def defaultStanza : Stanza :=
  { name := ['d', 'e', 'f', 'a', 'u', 'l', 't']
    lines := [letterLine 'a' '1' (by decide) (by decide)]
    name_plain := forall_mem_of_all (by decide)
    name_head := by decide }

def plainStanza : Stanza :=
  { name := ['x']
    lines := [letterLine 'b' '2' (by decide) (by decide)]
    name_plain := forall_mem_of_all (by decide)
    name_head := by decide }

theorem sample_fits : Fits 100 [defaultStanza, plainStanza] := by
  constructor
  · intro stanza hstanza
    rcases mem_pair.mp hstanza with rfl | rfl
    · decide
    · decide
  · intro read hread
    rw [mem_singleton.mp hread]
    decide

theorem attribute_file_read_default :
    ReadsAs 100 (cfgcopsf (fileText .newline [defaultStanza, plainStanza]))
      (stanzaReads none [defaultStanza, plainStanza]) := by
  refine (attribute_file_read 100 .newline [defaultStanza, plainStanza] sample_fits
    (by decide) (by decide) (by rintro ⟨⟩)).mpr ?_
  intro read hread keyword value hvalue
  obtain ⟨entry, hentry, -, hsame⟩ := mem_of_expected hvalue
  rw [List.mem_singleton.mp hread] at hentry
  rw [← hsame]
  rcases List.mem_pair.mp hentry with heq | heq
  · rw [Line.keyword.inj heq]
    exact ⟨forall_mem_of_all (by decide), by decide⟩
  · rw [Line.keyword.inj heq]
    exact ⟨forall_mem_of_all (by decide), by decide⟩

/-- Without a newline at the end of the file the default line is glued to the last value:
the value of `b` reads as `2a`, and `a` is not found. -/
theorem attribute_file_misread : Fits 100 [defaultStanza, plainStanza] ∧
      ¬ ReadsAs 100 (cfgcopsf (fileText Ending.bare [defaultStanza, plainStanza]))
        (stanzaReads none [defaultStanza, plainStanza]) := by
  refine ⟨sample_fits, ?_⟩
  rintro ⟨buf, sf, hread, hvalues, -⟩
  have hbuf : some (Rc.succ, ['x', ':', '\n', 'b', ' ', '=', ' ', '2', 'a', ' ', '=', ' ', '1',
      '\n', '\n']) = some (Rc.succ, buf) :=
    congrArg (Option.map (fun result : Rc × List Char × StanzaFile =>
      (result.1, result.2.1))) hread
  have hkeyword : IsKeyword ['b'] :=
    ⟨by decide, forall_mem_of_all (by decide), by decide⟩
  have hvalue := hvalues ['b'] hkeyword
  rw [← (Prod.mk.inj (Option.some.inj hbuf)).2] at hvalue
  exact absurd hvalue (by decide)

end Htx.Cfgc
