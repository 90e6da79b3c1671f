import Htx.Gr64.RuleDefaults
import Htx.Gr64.TwoPasses

/-!
# What the read pass returns

A file that the check pass has gone through is read stanza by stanza.
-/

namespace Htx.Gr64

open List Option Prod RuleDef RuleFile

/-- Successive reads return 0 for the stanzas in turn and then the end of the file, and after
each of them every variable has the value of its entry. -/
def ReadsAs (table : List RuleDef) : Option RuleFile -> Vars -> List (List (List Char)) -> Prop
  | state, vars, [] =>
    exists state' vars', ruleFile (.rread table) state vars = (some (-1), state', vars')
  | state, vars, stanza :: more =>
    exists state' vars', ruleFile (.rread table) state vars = (some 0, state', vars') ∧
        (forall i entry, table[i]? = some entry -> expected entry stanza = some (vars' i)) ∧
        ReadsAs table state' vars' more

def RuleDef.Exact (entry : RuleDef) : Prop :=
  forall value, entry.default? = some value -> value.stored = value

structure Sound (table : List RuleDef) (stanzas : List (List (List Char))) : Prop where
  listed : forall entry, entry ∈ table -> entry.args ≠ []
  lengths : forall entry, entry ∈ table -> entry.dataType = .string -> 0 ≤ entry.len
  exact : forall stanza, stanza ∈ stanzas -> forall entry, entry ∈ table ->
    lastAssignment entry.keyword stanza = none -> entry.Exact

/-- No line of the stanza assigns a keyword that is in the table twice. -/
def AssignedOnce (table : List RuleDef) (stanza : List (List Char)) : Prop :=
  forall line, line ∈ stanza -> forall i, i < table.length -> forall j, j < table.length ->
    (table[i]?.map keyword) = some (assignment line).1 ->
      (table[j]?.map keyword) = some (assignment line).1 -> i = j

instance (table : List RuleDef) (stanza : List (List Char)) :
    Decidable (AssignedOnce table stanza) :=
  inferInstanceAs (Decidable (forall line, line ∈ stanza -> _))

theorem AssignedOnce.index_eq {table : List RuleDef} {stanza : List (List Char)}
    (honce : AssignedOnce table stanza) {line : List Char} (hline : line ∈ stanza) {i j : Nat}
    {entry other : RuleDef} (hi : table[i]? = some entry) (hj : table[j]? = some other)
    (hentry : (assignment line).1 = entry.keyword) (hother : other.keyword = (assignment line).1) :
    i = j := by
  apply honce line hline i (List.getElem?_eq_some_iff.mp hi).1 j
    (List.getElem?_eq_some_iff.mp hj).1
  · rw [hi, Option.map_some, hentry]
  · rw [hj, Option.map_some, hother]

/-! ## What the check pass tells about the read pass -/

inductive Passes (table : List RuleDef) : RuleFp -> Prop where
  | eof (fp : RuleFp) (hstanza : (takeStanza true fp.lines).1 = [])
      (hread : forall vars, (getrule table true fp vars).1 = some (-1)) : Passes table fp
  | stanza (fp fp' : RuleFp) (hne : (takeStanza true fp.lines).1 ≠ [])
      (hlegal : forall line, line ∈ (takeStanza true fp.lines).1 -> Legal table line)
      (hrest : (takeStanza true fp.lines).2 = fp'.lines)
      (hread : forall vars, getrule table true fp vars =
        (some 0, fp', assignLines table (takeStanza true fp.lines).1 vars))
      (hmore : Passes table fp') : Passes table fp

variable {table : List RuleDef} {vars vars' : Vars}

theorem getrule_agree {fp fp' : RuleFp} {rc : Rc}
    (h : getrule table false fp vars = (rc, fp', vars')) (other : Vars) :
    exists after, getrule table true fp other = (rc, fp', after) := by
  have hagree := @getruleLoop_agree table (fp.lines.length + 1) true 0 fp other vars
  have hcheck : getruleLoop table false (fp.lines.length + 1) true 0 fp vars = (rc, fp', vars') := h
  rw [hcheck] at hagree
  exact ⟨(getrule table true fp other).2.2, Prod.ext hagree.1 (Prod.ext hagree.2 rfl)⟩

theorem getrule_stanza {fp fp' : RuleFp} (h : getrule table true fp vars = (some 0, fp', vars')) :
    (takeStanza true fp.lines).2 = fp'.lines ∧
      vars' = assignLines table (takeStanza true fp.lines).1 vars ∧
      (forall line, line ∈ (takeStanza true fp.lines).1 -> Legal table line) ∧
      (takeStanza true fp.lines).1 ≠ [] := by
  obtain ⟨hrest, hvars, hlegal, hne⟩ :=
    getruleLoop_stanza (fp.lines.length + 1) true 0 fp fp' vars vars' h
  exact ⟨hrest, hvars, hlegal, hne rfl⟩

theorem passes_of_checkPass (fuel : Nat) :
    forall {fp : RuleFp} {rc : Int}, checkPass table fuel fp = some rc -> ¬ 0 < rc ->
      Passes table fp := by
  induction fuel with
  | zero =>
    intro fp rc h _
    exact nomatch h
  | succ fuel ih =>
    intro fp rc h hrc
    rw [checkPass] at h
    generalize hrun : getrule table false fp (fun _ => Value.number 0) = result at h
    obtain ⟨code, fp', vars'⟩ := result
    by_cases hzero : code = some 0
    · rw [hzero] at hrun h
      obtain ⟨after, hread⟩ := getrule_agree hrun (fun _ => Value.number 0)
      obtain ⟨hrest, -, hlegal, hne⟩ := getrule_stanza hread
      apply Passes.stanza fp fp' hne hlegal hrest
      · intro vars
        obtain ⟨after', hread'⟩ := getrule_agree hrun vars
        rw [hread', (getrule_stanza hread').2.1]
      · exact ih h hrc
    · have hcode : code = some rc := by
        split at h
        · rename_i heq
          exact absurd (mk.inj heq).1 hzero
        · rename_i heq
          rw [(mk.inj heq).1]
          exact h
      rw [hcode] at hrun hzero
      have hloop : (getruleLoop table false (fp.lines.length + 1) true 0 fp
          (fun _ => Value.number 0)).1 = some rc := congrArg fst hrun
      rcases getruleLoop_code false _ true 0 fp _ rc hloop with h0 | h1 | ⟨hend, -, hstanza⟩
      · exact absurd (by rw [h0]) hzero
      · exact absurd (by rw [h1]; decide) hrc
      · apply Passes.eof fp hstanza
        intro vars
        obtain ⟨after, hread⟩ := getrule_agree hrun vars
        rw [hread, hend]

/-! ## The values after a read -/

variable {stanza : List (List Char)}

theorem assignLines_value (honce : AssignedOnce table stanza) {i : Nat} {entry : RuleDef}
    (hentry : table[i]? = some entry) :
    forall vars : Vars, (forall line, line ∈ stanza -> Legal table line) ->
      (forall word, lastAssignment entry.keyword stanza = some word ->
        entry.read word = some (assignLines table stanza vars i)) ∧
      (lastAssignment entry.keyword stanza = none -> assignLines table stanza vars i = vars i) := by
  induction stanza with
  | nil =>
    intro vars _
    refine ⟨?_, fun _ => rfl⟩
    intro word hword
    cases hword
  | cons line lines ih =>
    intro vars hlegal
    obtain ⟨index, found, value, hfound, -, hread⟩ := hlegal line mem_cons_self
    obtain ⟨hindex, hkeyword⟩ := lookupRule_some hfound
    have hstep : assignLines table (line :: lines) vars =
        assignLines table lines (setVar vars index value) := by
      rw [assignLines, hfound]
      simp only [hread]
    obtain ⟨hlast, hbefore⟩ := ih (fun other hmem => honce other (mem_cons_of_mem line hmem))
      (setVar vars index value) (fun other hmem => hlegal other (mem_cons_of_mem line hmem))
    rw [hstep, lastAssignment]
    cases hmore : lastAssignment entry.keyword lines with
    | some word =>
      constructor
      · intro word' hword
        exact hlast word' (hmore.trans hword)
      · intro hnone
        cases hnone
    | none =>
      rw [none_or, hbefore hmore]
      by_cases hsame : (assignment line).1 = entry.keyword
      · have hi : i = index := honce.index_eq mem_cons_self hentry hindex hsame hkeyword
        have heq : entry = found := by
          rw [← hi, hentry] at hindex
          exact some.inj hindex
        rw [if_pos hsame, hi, setVar_same]
        constructor
        · intro word hword
          rw [← some.inj hword, heq]
          exact hread
        · intro hnone
          cases hnone
      · have hi : i ≠ index := by
          intro hi
          rw [← hi, hentry] at hindex
          apply hsame
          rw [← hkeyword, some.inj hindex]
        rw [if_neg hsame, setVar_other hi]
        refine ⟨?_, fun _ => rfl⟩
        intro word hword
        cases hword

section

variable {table : List RuleDef} (haccepted : Accepted table)
  (hlisted : forall entry, entry ∈ table -> entry.args ≠ [])

include haccepted hlisted

theorem ruleFileRead_eq {vars defaults : Vars} (file : RuleFile)
    (hdefaults : setDefaultVar table 0 vars = some defaults) :
    ruleFileRead table file vars = ((getrule table true file.fp defaults).1,
        some { file with fp := (getrule table true file.fp defaults).2.1 },
        (getrule table true file.fp defaults).2.2) := by
  rw [ruleFileRead, if_pos (bindPtrs_of_accepted haccepted hlisted), hdefaults]

theorem expected_iff (honce : AssignedOnce table stanza) {vars defaults : Vars}
    (hdefaults : setDefaultVar table 0 vars = some defaults)
    (hlegal : forall line, line ∈ stanza -> Legal table line) :
    (forall i entry, table[i]? = some entry ->
        expected entry stanza = some (assignLines table stanza defaults i)) <->
      forall entry, entry ∈ table -> lastAssignment entry.keyword stanza = none -> entry.Exact := by
  have hstored := (setDefaultVar_some haccepted hlisted hdefaults).2
  constructor
  · intro hall entry hmem hnone value hvalue
    obtain ⟨i, hi⟩ := getElem?_of_mem hmem
    obtain ⟨default, hdefault, hvar⟩ := hstored i entry hi
    have hexpected := hall i entry hi
    rw [expected, hnone, (assignLines_value honce hi defaults hlegal).2 hnone] at hexpected
    rw [zero_add] at hvar
    rw [hdefault, hvar] at hexpected
    rw [hdefault] at hvalue
    rw [← some.inj hvalue]
    exact (some.inj hexpected).symm
  · intro hexact i entry hi
    obtain ⟨hlast, hbefore⟩ := assignLines_value honce hi defaults hlegal
    rw [expected]
    cases hassigned : lastAssignment entry.keyword stanza with
    | some word => exact hlast word hassigned
    | none =>
      obtain ⟨default, hdefault, hvar⟩ := hstored i entry hi
      rw [zero_add] at hvar
      have hsame := hexact entry (mem_of_getElem? hi) hassigned default hdefault
      rw [hbefore hassigned, hvar, hsame, hdefault]

theorem readsAs_iff_exact (hlengths : forall entry, entry ∈ table -> entry.dataType = .string ->
      0 ≤ entry.len) {fp : RuleFp} (hpasses : Passes table fp) :
    (forall stanza, stanza ∈ stanzasFrom [] fp.lines -> AssignedOnce table stanza) ->
    forall (content : List Char) (vars : Vars),
      ReadsAs table (some ⟨content, fp⟩) vars (stanzasFrom [] fp.lines) <->
        forall stanza, stanza ∈ stanzasFrom [] fp.lines -> forall entry, entry ∈ table ->
          lastAssignment entry.keyword stanza = none -> entry.Exact := by
  induction hpasses with
  | eof fp hstanza hread =>
    intro _ content vars
    obtain ⟨defaults, hdefaults⟩ := setDefaultVar_total haccepted hlisted hlengths 0 vars
    rw [stanzasFrom_nil, if_pos hstanza]
    apply iff_of_true
    · have hresult := ruleFileRead_eq haccepted hlisted ⟨content, fp⟩ hdefaults
      rw [hread] at hresult
      exact ⟨_, _, hresult⟩
    · intro stanza hmem
      exact nomatch hmem
  | stanza fp fp' hne hlegal hrest hread hmore ih =>
    intro honce content vars
    rw [stanzasFrom_nil, if_neg hne, hrest] at honce
    obtain ⟨defaults, hdefaults⟩ := setDefaultVar_total haccepted hlisted hlengths 0 vars
    have hresult := ruleFileRead_eq haccepted hlisted ⟨content, fp⟩ hdefaults
    rw [hread] at hresult
    have hvalues := expected_iff haccepted hlisted (honce _ mem_cons_self) hdefaults hlegal
    have hih := ih fun stanza hmem => honce stanza (mem_cons_of_mem _ hmem)
    rw [stanzasFrom_nil, if_neg hne, hrest, ReadsAs, forall_mem_cons]
    constructor
    · rintro ⟨state', vars', hrun, hright, hreads⟩
      have hrun' := hresult.symm.trans hrun
      obtain ⟨-, hpair⟩ := mk.inj hrun'
      obtain ⟨rfl, rfl⟩ := mk.inj hpair
      exact ⟨hvalues.mp hright, (hih content _).mp hreads⟩
    · rintro ⟨hfirst, hothers⟩
      exact ⟨_, _, hresult, hvalues.mpr hfirst, (hih content _).mpr hothers⟩

end

/-! ## Opening and reading -/

theorem mem_of_lastAssignment {keyword word : List Char}
    (h : lastAssignment keyword stanza = some word) :
    exists line, line ∈ stanza ∧ (assignment line).1 = keyword := by
  induction stanza with
  | nil => exact nomatch h
  | cons line lines ih =>
    rw [lastAssignment] at h
    rcases or_eq_some_iff.mp h with hmore | ⟨-, hline⟩
    · obtain ⟨other, hmem, hkeyword⟩ := ih hmore
      exact ⟨other, mem_cons_of_mem line hmem, hkeyword⟩
    · split at hline
      · rename_i hkeyword
        exact ⟨line, mem_cons_self, hkeyword⟩
      · exact nomatch hline

variable {table : List RuleDef}

theorem listed_of_expected (honce : AssignedOnce table stanza)
    (hlegal : forall line, line ∈ stanza -> Legal table line) {i : Nat}
    {entry : RuleDef} (hi : table[i]? = some entry) {value : Value}
    (h : expected entry stanza = some value) :
    entry.args ≠ [] := by
  intro hnil
  rw [expected] at h
  split at h
  · rename_i word hword
    obtain ⟨line, hline, hkeyword⟩ := mem_of_lastAssignment hword
    obtain ⟨index, found, -, hfound, hlisted, -⟩ := hlegal line hline
    obtain ⟨hindex, hsame⟩ := lookupRule_some hfound
    have heq : i = index := honce.index_eq hline hi hindex hkeyword hsame
    rw [← heq, hi] at hindex
    rw [← some.inj hindex] at hlisted
    exact hlisted hnil
  · rw [default?, hnil] at h
    cases h

theorem sound_of_readsAs (haccepted : Accepted table)
    {fp : RuleFp} (hpasses : Passes table fp)
    (honce : forall stanza, stanza ∈ stanzasFrom [] fp.lines -> AssignedOnce table stanza)
    {content : List Char} {vars : Vars} (hne : stanzasFrom [] fp.lines ≠ [])
    (h : ReadsAs table (some ⟨content, fp⟩) vars (stanzasFrom [] fp.lines)) :
    Sound table (stanzasFrom [] fp.lines) := by
  have hall := h
  cases hpasses with
  | eof fp hstanza hread =>
    rw [stanzasFrom_nil, if_pos hstanza] at hne
    exact absurd rfl hne
  | stanza fp fp' hstanza hlegal hrest hread hmore =>
    rw [stanzasFrom_nil, if_neg hstanza] at h
    obtain ⟨state', vars', hrun, hright, -⟩ := h
    have hfirst : AssignedOnce table (takeStanza true fp.lines).1 := by
      apply honce
      rw [stanzasFrom_nil, if_neg hstanza]
      exact mem_cons_self
    have hlisted : forall entry, entry ∈ table -> entry.args ≠ [] := by
      intro entry hmem
      obtain ⟨i, hi⟩ := getElem?_of_mem hmem
      exact listed_of_expected hfirst hlegal hi (hright i entry hi)
    have hlengths : forall entry, entry ∈ table -> entry.dataType = .string ->
        0 ≤ entry.len := by
      cases hdefaults : setDefaultVar table 0 vars with
      | some defaults => exact (setDefaultVar_some haccepted hlisted hdefaults).1
      | none =>
        have hfault : ruleFile (.rread table) (some ⟨content, fp⟩) vars =
            (none, some ⟨content, fp⟩, vars) := by
          rw [ruleFile, ruleFileRead, if_pos (bindPtrs_of_accepted haccepted hlisted), hdefaults]
        rw [hfault] at hrun
        exact nomatch (mk.inj hrun).1
    exact ⟨hlisted, hlengths, (readsAs_iff_exact haccepted hlisted hlengths
      (.stanza fp fp' hstanza hlegal hrest hread hmore) honce content vars).mp hall⟩

theorem ruleFile_open {content : List Char} {state : Option RuleFile}
    (h : ruleFile (.ropen table (some content)) none vars = (some 0, state, vars')) :
    Accepted table ∧ state = some (start content) ∧
      Passes table (start content).fp := by
  have hrc : (ruleFileOpen table (some content)).1 = some 0 := (mk.inj h).1
  have hstate : (ruleFileOpen table (some content)).2 = state := (mk.inj (mk.inj h).2).1
  cases hsyntax : chkRdtSyntax table with
  | error error =>
    rw [ruleFileOpen, hsyntax] at hrc
    cases error with
    | fault | _ => exact nomatch hrc
  | ok accepted =>
    rw [ruleFileOpen, hsyntax] at hrc hstate
    simp only at hrc hstate
    cases hpass : checkPass table ((start content).fp.lines.length + 1)
        (start content).fp with
    | none =>
      rw [hpass] at hrc
      exact nomatch hrc
    | some rc =>
      rw [hpass] at hrc hstate
      simp only at hrc hstate
      by_cases hpos : 0 < rc
      · rw [if_pos hpos] at hrc
        cases some.inj hrc
        exact absurd hpos (by decide)
      · rw [if_neg hpos] at hstate
        exact ⟨chkRdtSyntax_ok hsyntax, hstate.symm, passes_of_checkPass _ hpass hpos⟩

/--
After an open that returned 0, with lines that fit the buffer and assign no keyword that is
in the table twice: the reads return what the file says if the table is sound for the file,
and, if there is a stanza at all, only then.
-/
theorem rule_file_reads (table : List RuleDef) (content : List Char)
    (state : Option RuleFile) (before after : Vars)
    (hopen : ruleFile (.ropen table (some content)) none before = (some 0, state, after))
    (hshort : forall line, line ∈ splitLines content -> line.length ≤ buff - 1)
    (honce : forall stanza, stanza ∈ stanzas content -> AssignedOnce table stanza) :
    (Sound table (stanzas content) -> forall vars, ReadsAs table state vars (stanzas content)) ∧
      (stanzas content ≠ [] -> forall vars, ReadsAs table state vars (stanzas content) ->
        Sound table (stanzas content)) := by
  obtain ⟨haccepted, rfl, hpasses⟩ := ruleFile_open hopen
  have hlines : stanzas content = stanzasFrom [] (start content).fp.lines := by
    rw [stanzas, start, fgetsLines_eq hshort]
  rw [hlines] at honce ⊢
  constructor
  · intro hsound vars
    exact (readsAs_iff_exact haccepted hsound.listed hsound.lengths hpasses honce
      content vars).mpr hsound.exact
  · intro hne vars hreads
    exact sound_of_readsAs haccepted hpasses honce hne hreads

def ruleIdEntry : RuleDef :=
  { keyword := ruleIdKeyword
    dataType := .string
    len := 8
    valueList := "A-ZZZZZZZZ".toList
    keyword_ne := by decide }

def countEntry : RuleDef :=
  { keyword := "COUNT".toList
    dataType := .long
    len := 0
    valueList := "1-10, 20".toList
    keyword_ne := by decide }

def emptyEntry : RuleDef :=
  { keyword := "EMPTY".toList
    dataType := .long
    len := 0
    valueList := []
    keyword_ne := by decide }

def twoStanzas : List Char :=
  "rule_id = FIRST\n* a comment\ncount = 5\n\nrule_id = SECOND\n".toList

theorem rule_file_reads_two_stanzas :
    ReadsAs [ruleIdEntry, countEntry] (some (start twoStanzas))
      (fun _ => .number 0) (stanzas twoStanzas) := by
  have hsound : Sound [ruleIdEntry, countEntry] (stanzas twoStanzas) := by
    constructor
    · decide
    · decide
    · intro stanza _ entry hentry _ value hvalue
      rcases List.mem_pair.mp hentry with rfl | rfl
      · cases hvalue
        rfl
      · cases hvalue
        rfl
  exact (rule_file_reads [ruleIdEntry, countEntry] twoStanzas _ (fun _ => .number 0) _ rfl
    (by decide) (by decide)).1 hsound _

/-- With a keyword that allows no value the defaults behind it are not set: the second
stanza does not assign `COUNT`, whose default is 1, and finds the 5 of the first stanza. -/
theorem rule_file_carries_over :
    exists state1 state2 vars1 vars2,
      ruleFile (.ropen [ruleIdEntry, emptyEntry, countEntry] (some twoStanzas)) none
          (fun _ => .number 0) =
        (some 0, some (start twoStanzas), fun _ => .number 0) ∧
      ruleFile (.rread [ruleIdEntry, emptyEntry, countEntry])
          (some (start twoStanzas)) (fun _ => .number 0) =
        (some 0, state1, vars1) ∧
      ruleFile (.rread [ruleIdEntry, emptyEntry, countEntry]) state1 vars1 =
        (some 0, state2, vars2) ∧
      (stanzas twoStanzas)[1]?.bind (expected countEntry) = some (.number 1) ∧
      vars2 2 = .number 5 :=
  ⟨_, _, _, _, rfl, rfl, rfl, rfl, rfl⟩

end Htx.Gr64
