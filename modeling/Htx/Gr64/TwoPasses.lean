import Htx.Gr64.RuleStanzas

/-!
# The check pass and the read pass

The two passes run the same parser, once without and once with bound variables, so they
agree on every stanza.
-/

namespace Htx.Gr64

open Nat

/-! ## One stanza -/

def takeStanza : Bool -> List (List Char) -> List (List Char) × List (List Char)
  | _, [] => ([], [])
  | newRule, line :: lines =>
    if isBlank line then
      if newRule then takeStanza newRule lines else ([], lines)
    else if isComment line then takeStanza newRule lines
    else (line :: (takeStanza false lines).1, (takeStanza false lines).2)

theorem stanzasFrom_cons (lines : List (List Char)) {stanza : List (List Char)} :
    stanza ≠ [] -> stanzasFrom stanza lines =
      (stanza ++ (takeStanza false lines).1) :: stanzasFrom [] (takeStanza false lines).2 := by
  induction lines generalizing stanza with
  | nil =>
    intro hne
    cases stanza with
    | nil => exact absurd rfl hne
    | cons line more => simp [stanzasFrom, takeStanza]
  | cons line lines ih =>
    intro hne
    rw [takeStanza]
    by_cases hblank : isBlank line = true
    · simp [stanzasFrom, hblank, hne]
    · by_cases hcomment : isComment line = true
      · rw [stanzasFrom, if_neg hblank, if_pos hcomment, if_neg hblank, if_pos hcomment]
        exact ih hne
      · rw [stanzasFrom, if_neg hblank, if_neg hcomment, if_neg hblank, if_neg hcomment,
          ih (by simp)]
        simp

theorem stanzasFrom_nil (lines : List (List Char)) : stanzasFrom [] lines =
      if (takeStanza true lines).1 = [] then []
      else (takeStanza true lines).1 :: stanzasFrom [] (takeStanza true lines).2 := by
  induction lines with
  | nil => rfl
  | cons line lines ih =>
    rw [takeStanza, stanzasFrom]
    by_cases hblank : isBlank line = true
    · simp only [hblank, if_true]
      exact ih
    · by_cases hcomment : isComment line = true
      · simp only [hblank, hcomment, if_true]
        exact ih
      · have hcons := stanzasFrom_cons lines (List.cons_ne_nil line [])
        simp [hblank, hcomment, hcons]

def assignLines (table : List RuleDef) : List (List Char) -> Vars -> Vars
  | [], vars => vars
  | line :: lines, vars =>
    match lookupRule table (assignment line).1 with
    | none => assignLines table lines vars
    | some (index, entry) =>
      match entry.read (assignment line).2 with
      | none => assignLines table lines vars
      | some value => assignLines table lines (setVar vars index value)

theorem assignLines_cons (table : List RuleDef) (line : List Char)
    (lines : List (List Char)) (vars : Vars) :
    assignLines table (line :: lines) vars =
      assignLines table lines (assignLines table [line] vars) := by
  rw [assignLines, assignLines]
  cases lookupRule table (assignment line).1 with
  | none => rfl
  | some found =>
    simp only
    cases found.2.read (assignment line).2 with
    | none | some value => rfl

def Legal (table : List RuleDef) (line : List Char) : Prop :=
  exists index entry value, lookupRule table (assignment line).1 = some (index, entry) ∧
    entry.args ≠ [] ∧ entry.read (assignment line).2 = some value

section

variable {table : List RuleDef} {line : List Char} {checked : Checked}
  (h : Accepts table line checked)

include h

theorem Accepts.legal : Legal table line := by
  obtain ⟨value, hread⟩ := h.read
  rw [h.value] at hread
  exact ⟨checked.index, checked.entry, value, h.found, h.listed, hread⟩

theorem Accepts.assignValue (vars : Vars) :
    assignValue checked vars = some (assignLines table [line] vars) := by
  obtain ⟨value, hread⟩ := h.read
  have hvalue := hread
  rw [h.value] at hvalue
  rw [Gr64.assignValue, hread]
  simp only [assignLines, h.found, hvalue, Option.map_some]

end

inductive FmtRound (table : List RuleDef) (newRule : Bool) (ruleidCount : Nat)
    (lines : List (List Char)) (lineno : Nat) : Prop where
  | done (fp : RuleFp) (hline : getFmtLine newRule lines lineno = .done fp)
      (hstanza : (takeStanza newRule lines).1 = [])
      (hrest : (takeStanza newRule lines).2 = fp.lines)
  | refused (error : LineError) (fp : RuleFp)
      (hline : getFmtLine newRule lines lineno = .refused error fp)
  | line (buf : List Char) (fp : RuleFp) (line : List Char)
      (hline : getFmtLine newRule lines lineno = .line buf fp)
      (hstanza : (takeStanza newRule lines).1 = line :: (takeStanza false fp.lines).1)
      (hrest : (takeStanza newRule lines).2 = (takeStanza false fp.lines).2)
      (hless : fp.lines.length < lines.length)
      (haccepts : forall checked,
        checkKeywordValue table ruleidCount buf = .ok checked -> Accepts table line checked)

theorem fmtRound (table : List RuleDef) (newRule : Bool) (ruleidCount : Nat)
    (lines : List (List Char)) :
    forall lineno, FmtRound table newRule ruleidCount lines lineno := by
  induction lines with
  | nil =>
    intro lineno
    exact FmtRound.done ⟨[], lineno⟩ rfl rfl rfl
  | cons line lines ih =>
    intro lineno
    -- a line that is skipped changes nothing for the lines behind it
    have hskip : getFmtLine newRule (line :: lines) lineno =
        getFmtLine newRule lines (lineno + 1) ->
        takeStanza newRule (line :: lines) = takeStanza newRule lines ->
        FmtRound table newRule ruleidCount (line :: lines) lineno := by
      intro hfmt htake
      cases ih (lineno + 1) with
      | done fp hline hstanza hrest =>
        exact FmtRound.done fp (hfmt.trans hline) (by rw [htake]; exact hstanza)
          (by rw [htake]; exact hrest)
      | refused error fp hline => exact FmtRound.refused error fp (hfmt.trans hline)
      | line buf fp other hline hstanza hrest hless haccepts =>
        exact FmtRound.line buf fp other (hfmt.trans hline) (by rw [htake]; exact hstanza)
          (by rw [htake]; exact hrest) (lt_succ_of_lt hless) haccepts
    by_cases hblank : isBlank line = true
    · cases newRule with
      | true =>
        apply hskip
        · rw [getFmtLine, if_pos hblank, if_pos rfl]
        · rw [takeStanza, if_pos hblank, if_pos rfl]
      | false =>
        apply FmtRound.done ⟨lines, lineno + 1⟩
        · rw [getFmtLine, if_pos hblank, if_neg Bool.false_ne_true]
        · rw [takeStanza, if_pos hblank, if_neg Bool.false_ne_true]
        · rw [takeStanza, if_pos hblank, if_neg Bool.false_ne_true]
    · by_cases hcomment : isComment line = true
      · apply hskip
        · rw [getFmtLine, if_neg hblank, if_pos hcomment]
        · rw [takeStanza, if_neg hblank, if_pos hcomment]
      · have htake : takeStanza newRule (line :: lines) =
            (line :: (takeStanza false lines).1, (takeStanza false lines).2) := by
          rw [takeStanza, if_neg hblank, if_neg hcomment]
        cases hformat : formatLine line with
        | error error =>
          apply FmtRound.refused error ⟨lines, lineno + 1⟩
          rw [getFmtLine, if_neg hblank, if_neg hcomment, hformat]
        | ok buf =>
          obtain ⟨parts, rfl⟩ := formatLine_ok hformat
          apply FmtRound.line parts.buf ⟨lines, lineno + 1⟩ line
          · rw [getFmtLine, if_neg hblank, if_neg hcomment, hformat]
          · rw [htake]
          · rw [htake]
          · exact lt_succ_self _
          · intro checked hchecked
            exact checkKeywordValue_ok parts hchecked

inductive Round (table : List RuleDef) (fuel : Nat) (newRule : Bool) (ruleidCount : Nat)
    (fp : RuleFp) : Prop where
  | done (fp' : RuleFp) (hstanza : (takeStanza newRule fp.lines).1 = [])
      (hrest : (takeStanza newRule fp.lines).2 = fp'.lines)
      (hloop : forall bound vars, getruleLoop table bound (fuel + 1) newRule ruleidCount fp vars =
        (if newRule then some (-1) else some 0, fp', vars))
  | failed (rc : Rc) (fp' : RuleFp) (hrc : rc = none ∨ rc = some 1)
      (hloop : forall bound vars, getruleLoop table bound (fuel + 1) newRule ruleidCount fp vars =
        (rc, fp', vars))
  | line (line : List Char) (fp' : RuleFp) (hlegal : Legal table line)
      (hstanza : (takeStanza newRule fp.lines).1 = line :: (takeStanza false fp'.lines).1)
      (hrest : (takeStanza newRule fp.lines).2 = (takeStanza false fp'.lines).2)
      (hread : forall vars, getruleLoop table true (fuel + 1) newRule ruleidCount fp vars =
        getruleLoop table true fuel false 1 fp' (assignLines table [line] vars))
      (hcheck : forall vars, getruleLoop table false (fuel + 1) newRule ruleidCount fp vars =
        getruleLoop table false fuel false 1 fp' vars)

theorem LineError.rc_cases (error : LineError) : error.rc = none ∨ error.rc = some 1 := by
  cases error with
  | report code skip => exact .inr rfl
  | fault => exact .inl rfl

theorem round (table : List RuleDef) (fuel : Nat) (newRule : Bool) (ruleidCount : Nat)
    (fp : RuleFp) : Round table fuel newRule ruleidCount fp := by
  cases fmtRound table newRule ruleidCount fp.lines fp.lineno with
  | done fp' hline hstanza hrest =>
    apply Round.done fp' hstanza hrest
    intro bound vars
    rw [getruleLoop, hline]
  | refused error fp' hline =>
    apply Round.failed error.rc (error.skipped fp') error.rc_cases
    intro bound vars
    rw [getruleLoop, hline]
  | line buf fp' line hline hstanza hrest _ haccepts =>
    cases hcheck : checkKeywordValue table ruleidCount buf with
    | error error =>
      apply Round.failed error.rc (error.skipped fp') error.rc_cases
      intro bound vars
      rw [getruleLoop, hline]
      simp only [hcheck]
    | ok checked =>
      have hline' := haccepts checked hcheck
      by_cases hid : checked.ruleidCount = 1
      · apply Round.line line fp' hline'.legal hstanza hrest
        · intro vars
          rw [getruleLoop, hline]
          simp [hcheck, hid, hline'.assignValue vars]
        · intro vars
          rw [getruleLoop, hline]
          simp [hcheck, hid]
      · apply Round.failed (some 1) _ (.inr rfl)
        intro bound vars
        rw [getruleLoop, hline]
        simp only [hcheck, hid, ne_eq, not_false_eq_true, if_true]
        rfl

section

variable {table : List RuleDef}

theorem getruleLoop_agree (fuel : Nat) :
    forall (newRule : Bool) (ruleidCount : Nat) (fp : RuleFp) (vars vars' : Vars),
      (getruleLoop table true fuel newRule ruleidCount fp vars).1 =
          (getruleLoop table false fuel newRule ruleidCount fp vars').1 ∧
        (getruleLoop table true fuel newRule ruleidCount fp vars).2.1 =
          (getruleLoop table false fuel newRule ruleidCount fp vars').2.1 := by
  induction fuel with
  | zero =>
    intro newRule ruleidCount fp vars vars'
    exact ⟨rfl, rfl⟩
  | succ fuel ih =>
    intro newRule ruleidCount fp vars vars'
    cases round table fuel newRule ruleidCount fp with
    | done fp' _ _ hloop | failed rc fp' _ hloop =>
      rw [hloop, hloop]
      exact ⟨rfl, rfl⟩
    | line line fp' _ _ _ hread hcheck =>
      rw [hread, hcheck]
      exact ih false 1 fp' _ vars'

theorem getruleLoop_code (bound : Bool) (fuel : Nat) :
    forall (newRule : Bool) (ruleidCount : Nat) (fp : RuleFp) (vars : Vars) (rc : Int),
      (getruleLoop table bound fuel newRule ruleidCount fp vars).1 = some rc ->
      rc = 0 ∨ rc = 1 ∨ (rc = -1 ∧ newRule = true ∧ (takeStanza newRule fp.lines).1 = []) := by
  induction fuel with
  | zero =>
    intro newRule ruleidCount fp vars rc h
    exact nomatch h
  | succ fuel ih =>
    intro newRule ruleidCount fp vars rc h
    cases round table fuel newRule ruleidCount fp with
    | done fp' hstanza _ hloop =>
      rw [hloop] at h
      cases newRule with
      | true => exact .inr (.inr ⟨(Option.some.inj h).symm, rfl, hstanza⟩)
      | false => exact .inl (Option.some.inj h).symm
    | failed rc' fp' hrc hloop =>
      rw [hloop] at h
      rcases hrc with rfl | rfl
      · exact nomatch h
      · exact .inr (.inl (Option.some.inj h).symm)
    | line line fp' _ _ _ hread hcheck =>
      have hnext : (getruleLoop table bound fuel false 1 fp'
          (if bound then assignLines table [line] vars else vars)).1 = some rc := by
        cases bound with
        | true => rw [← h, hread]; rfl
        | false => rw [← h, hcheck]; rfl
      rcases ih false 1 fp' _ rc hnext with h0 | h1 | ⟨-, hnew, -⟩
      · exact .inl h0
      · exact .inr (.inl h1)
      · exact nomatch hnew

theorem getruleLoop_stanza (fuel : Nat) :
    forall (newRule : Bool) (ruleidCount : Nat) (fp fp' : RuleFp) (vars vars' : Vars),
      getruleLoop table true fuel newRule ruleidCount fp vars = (some 0, fp', vars') ->
      (takeStanza newRule fp.lines).2 = fp'.lines ∧
        vars' = assignLines table (takeStanza newRule fp.lines).1 vars ∧
        (forall line, line ∈ (takeStanza newRule fp.lines).1 -> Legal table line) ∧
        (newRule = true -> (takeStanza newRule fp.lines).1 ≠ []) := by
  induction fuel with
  | zero =>
    intro newRule ruleidCount fp fp' vars vars' h
    exact nomatch h
  | succ fuel ih =>
    intro newRule ruleidCount fp fp' vars vars' h
    cases round table fuel newRule ruleidCount fp with
    | done fp'' hstanza hrest hloop =>
      rw [hloop] at h
      obtain ⟨hrc, hpair⟩ := Prod.mk.inj h
      obtain ⟨rfl, rfl⟩ := Prod.mk.inj hpair
      cases newRule with
      | true => exact nomatch hrc
      | false =>
        rw [hstanza]
        exact ⟨hrest, rfl, (fun _ hmem => nomatch hmem), (fun hnew => nomatch hnew)⟩
    | failed rc fp'' hrc hloop =>
      rw [hloop] at h
      obtain ⟨hzero, -⟩ := Prod.mk.inj h
      rcases hrc with rfl | rfl
      · exact nomatch hzero
      · exact nomatch hzero
    | line line fp'' hlegal hstanza hrest hread hcheck =>
      rw [hread] at h
      obtain ⟨hrest', hvars, hlines, -⟩ := ih false 1 fp'' fp' _ vars' h
      rw [hstanza, hrest]
      refine ⟨hrest', ?_, ?_, fun _ => List.cons_ne_nil _ _⟩
      · exact hvars.trans (assignLines_cons table line _ vars).symm
      · intro other hother
        rcases List.mem_cons.mp hother with rfl | hother
        · exact hlegal
        · exact hlines other hother

end

end Htx.Gr64
