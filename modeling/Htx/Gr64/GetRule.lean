import Htx.Gr64.RuleTable

/-!
# Reading a rule file

`rule_file` is the driver behind `open_rf` and `read_rf`: opening a rule file parses all
its stanzas without storing anything, a read sets every bound variable to its default and
parses the next stanza into the variables.
-/

namespace Htx.Gr64

def buff : Nat := 1023

/-! ## Lines -/

def fgets : Nat -> List Char -> List Char × List Char
  | 0, text => ([], text)
  | _ + 1, [] => ([], [])
  | n + 1, c :: text =>
    if c = '\n' then ([c], text)
    else
      let line := fgets n text
      (c :: line.1, line.2)

def fgetsFrom : Nat -> List Char -> List (List Char)
  | 0, _ => []
  | _ + 1, [] => []
  | fuel + 1, c :: text =>
    let line := fgets (buff - 1) (c :: text)
    line.1 :: fgetsFrom fuel line.2

def fgetsLines (content : List Char) : List (List Char) :=
  fgetsFrom content.length content

def isBlank (line : List Char) : Bool :=
  line.dropWhile isSpace == []

def isComment (line : List Char) : Bool :=
  (line.dropWhile isSpace).head? == some '*'

structure RuleFp where
  lines : List (List Char)
  lineno : Nat
deriving DecidableEq

def skipToEnd : List (List Char) -> Nat -> RuleFp
  | [], lineno => ⟨[], lineno⟩
  | line :: lines, lineno =>
    if isBlank line then ⟨lines, lineno + 1⟩ else skipToEnd lines (lineno + 1)

/-! ## One line -/

inductive RuleCode where
  | syn
  | noBlank
  | badKw
  | badVal
  | type
deriving DecidableEq

inductive LineError where
  | report (code : RuleCode) (skip : Bool)
  | fault
deriving DecidableEq

def formatLine (line : List Char) : Except LineError (List Char) :=
  let lead := line.takeWhile isSpace
  let text := line.dropWhile isSpace
  let word := text.takeWhile (fun c => !isSpace c && c != '=')
  let gap := text.dropWhile (fun c => !isSpace c && c != '=')
  if (text.head?.map Char.isAlpha).getD false = false then
    .error (.report .syn true)
  else
    match gap.dropWhile isSpace with
    | [] => .error (.report .syn true)
    | c :: value =>
      if c = '=' then
        if value.dropWhile isSpace = [] then .error (.report .syn true)
        else .ok (lead ++ word.map Char.toUpper ++ gap.takeWhile isSpace ++ ' ' :: value)
      else .error (.report .syn true)

inductive FmtLine where
  | done (fp : RuleFp)
  | refused (error : LineError) (fp : RuleFp)
  | line (buf : List Char) (fp : RuleFp)

def getFmtLine (newRule : Bool) : List (List Char) -> Nat -> FmtLine
  | [], lineno => .done ⟨[], lineno⟩
  | line :: lines, lineno =>
    if isBlank line then
      if newRule then getFmtLine newRule lines (lineno + 1)
      else .done ⟨lines, lineno + 1⟩
    else if isComment line then getFmtLine newRule lines (lineno + 1)
    else
      match formatLine line with
      | .error error => .refused error ⟨lines, lineno + 1⟩
      | .ok buf => .line buf ⟨lines, lineno + 1⟩

def lookupRule : List RuleDef -> List Char -> Option (Nat × RuleDef)
  | [], _ => none
  | entry :: table, keyword =>
    if entry.keyword = keyword then some (0, entry)
    else (lookupRule table keyword).map (fun found => (found.1 + 1, found.2))

def ruleIdKeyword : List Char := ['R', 'U', 'L', 'E', '_', 'I', 'D']

structure Checked where
  index : Nat
  entry : RuleDef
  value : List Char
  ruleidCount : Nat

def checkNumber (entry : RuleDef) (value : List Char) : Except LineError Int :=
  match entry.dataType with
  | .string => .ok 0
  | .long =>
    match checkLong value with
    | none => .error (.report .badVal true)
    | some n => .ok n
  | .other _ => .error (.report .type true)

def checkValue (index : Nat) (entry : RuleDef) (ruleidCount : Nat) (text : List Char) :
    Except LineError Checked :=
  let value := text.takeWhile (fun c => !isSpace c)
  if text = [] then .error (.report .syn true)
  -- the scan for a blank does not stop at the end of the line
  else if text.dropWhile (fun c => !isSpace c) = [] then .error .fault
  else if maxKeyvalLen < value.length then
    .error (.report .badVal true)
  else if entry.dataType = .string ∧ entry.len < value.length then
    .error (.report .badVal true)
  else
    match checkNumber entry value with
    | .error error => .error error
    | .ok lvalue =>
      if validateValue entry value lvalue then .ok ⟨index, entry, value, ruleidCount⟩
      else .error (.report .badVal false)

def checkKeywordValue (table : List RuleDef) (ruleidCount : Nat) (buf : List Char) :
    Except LineError Checked :=
  let text := buf.dropWhile isSpace
  let keyword := text.takeWhile (fun c => !isSpace c)
  let behind := text.dropWhile (fun c => !isSpace c)
  if behind = [] then .error .fault
  else if maxKeywordLen < keyword.length then
    .error (.report .badKw true)
  else
    match lookupRule table keyword with
    | none => .error (.report .badKw true)
    | some (index, entry) =>
      let ruleidCount :=
        if entry.keyword = ruleIdKeyword then ruleidCount + 1 else ruleidCount
      checkValue index entry ruleidCount (behind.dropWhile isSpace)

/-! ## The bound variables -/

inductive Value where
  | text (chars : List Char)
  | number (n : Int)
deriving DecidableEq

abbrev Vars := Nat -> Value

def setVar (vars : Vars) (index : Nat) (value : Value) : Vars :=
  fun i => if i = index then value else vars i

def RuleDef.read (entry : RuleDef) (value : List Char) : Option Value :=
  match entry.dataType with
  | .string => some (.text value)
  | .long => some (.number (strtol value).1)
  | .other _ => none

def assignValue (checked : Checked) (vars : Vars) : Option Vars :=
  (checked.entry.read checked.value).map (setVar vars checked.index)

def bindPtrs (table : List RuleDef) : Bool :=
  table.all (fun entry => entry.dataType = .string ∨ entry.dataType = .long)

def setDefaultVar : List RuleDef -> Nat -> Vars -> Option Vars
  | [], _, vars => some vars
  | entry :: table, index, vars =>
    match entry.args with
    | [] => some vars
    | arg :: _ =>
      match chkArg entry arg with
      | .error _ => some vars
      | .ok bounds =>
        match entry.dataType with
        | .string =>
          if entry.len < 0 then none
          else setDefaultVar table (index + 1)
            (setVar vars index (.text (bounds.value1.take entry.len.toNat)))
        | .long =>
          setDefaultVar table (index + 1) (setVar vars index (.number bounds.long1))
        | .other _ => some vars

/-! ## Stanzas -/

abbrev Rc := Option Int

def LineError.skipped (error : LineError) (fp : RuleFp) : RuleFp :=
  match error with
  | report _ true => skipToEnd fp.lines fp.lineno
  | _ => fp

def LineError.rc : LineError -> Rc
  | report _ _ => some 1
  | fault => none

/--
The loop of `getrule`, one line a round.  `newRule` says that no keyword of the stanza has
been read yet; without `bound` nothing is assigned.
-/
def getruleLoop (table : List RuleDef) (bound : Bool) :
    Nat -> Bool -> Nat -> RuleFp -> Vars -> Rc × RuleFp × Vars
  | 0, _, _, fp, vars => (none, fp, vars)
  | fuel + 1, newRule, ruleidCount, fp, vars =>
    match getFmtLine newRule fp.lines fp.lineno with
    | .done fp => (if newRule then some (-1) else some 0, fp, vars)
    | .refused error fp => (error.rc, error.skipped fp, vars)
    | .line buf fp =>
      match checkKeywordValue table ruleidCount buf with
      | .error error => (error.rc, error.skipped fp, vars)
      | .ok checked =>
        if checked.ruleidCount ≠ 1 then
          (some 1, (LineError.report RuleCode.noBlank true).skipped fp, vars)
        else if bound then
          match assignValue checked vars with
          | none => (some 1, skipToEnd fp.lines fp.lineno, vars)
          | some vars => getruleLoop table bound fuel false checked.ruleidCount fp vars
        else getruleLoop table bound fuel false checked.ruleidCount fp vars

def getrule (table : List RuleDef) (bound : Bool) (fp : RuleFp) (vars : Vars) :
    Rc × RuleFp × Vars :=
  getruleLoop table bound (fp.lines.length + 1) true 0 fp vars

def checkPass (table : List RuleDef) : Nat -> RuleFp -> Rc
  | 0, _ => none
  | fuel + 1, fp =>
    match getrule table false fp (fun _ => .number 0) with
    | (some 0, fp, _) => checkPass table fuel fp
    | (rc, _, _) => rc

/-! ## The driver -/

structure RuleFile where
  content : List Char
  fp : RuleFp
deriving DecidableEq

inductive Operation where
  | ropen (table : List RuleDef) (file : Option (List Char))
  | rclose
  | rrewind
  | rread (table : List RuleDef)

def ropenErr : Int := -98

def RuleFile.start (content : List Char) : RuleFile :=
  ⟨content, ⟨fgetsLines content, 0⟩⟩

def ruleFileOpen (table : List RuleDef) (file : Option (List Char)) : Rc × Option RuleFile :=
  match file with
  | none => (some 1, none)
  | some content =>
    match chkRdtSyntax table with
    | .error .fault => (none, none)
    -- the file stays open
    | .error _ => (some 1, some (RuleFile.start content))
    | .ok _ =>
      let start := RuleFile.start content
      match checkPass table (start.fp.lines.length + 1) start.fp with
      | none => (none, none)
      | some rc => if 0 < rc then (some rc, none) else (some 0, some start)

def ruleFileRead (table : List RuleDef) (file : RuleFile) (vars : Vars) :
    Rc × Option RuleFile × Vars :=
  if bindPtrs table then
    match setDefaultVar table 0 vars with
    | none => (none, some file, vars)
    | some vars =>
      match getrule table true file.fp vars with
      | (rc, fp, vars) => (rc, some { file with fp := fp }, vars)
  else (some 1, some file, vars)

def ruleFile (operation : Operation) (state : Option RuleFile) (vars : Vars) :
    Rc × Option RuleFile × Vars :=
  match operation, state with
  | .ropen table file, none =>
    ((ruleFileOpen table file).1, (ruleFileOpen table file).2, vars)
  | .ropen _ _, some file => (some ropenErr, some file, vars)
  | _, none => (some 1, none, vars)
  | .rclose, some _ => (some 0, none, vars)
  | .rrewind, some file => (some 0, some (RuleFile.start file.content), vars)
  | .rread table, some file => ruleFileRead table file vars

end Htx.Gr64
