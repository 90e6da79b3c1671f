import Htx.Hxestorage.BlockPosition
import Htx.Hxestorage.SegTable

/-!
# Rule files

`read_rf` reads template stanzas and rule stanzas.
-/

namespace Htx.Hxestorage

def defaultBwrcThreads : Nat := 4

def maxNumCacheThreads : Nat := 32

structure Device where
  maxblk : Nat
  blksize : Nat
  deriving DecidableEq

inductive Associativity where
  | seq
  | random
  | rrobin
  deriving DecidableEq

inductive Testcase where
  | sync
  | async
  | passthrough
  | cache
  deriving DecidableEq

inductive Mode where
  | performance
  | validation
  deriving DecidableEq

structure XferSize where
  minLen : Nat
  maxLen : Nat
  increment : Int
  deriving DecidableEq

structure Template where
  templateId : String
  dataLen : Option XferSize
  seekBreakupPrcnt : Option Nat
  oper : String
  deriving DecidableEq

def sameWord (s t : String) : Bool :=
  s.toList.map Char.toUpper == t.toList.map Char.toUpper

def isBwrc (oper : String) : Bool :=
  sameWord oper "BWRC"

/-- The `RROBIN_INDEX` and `SEQ_INDEX` entries of a keyword's values.  Without
values the index is a division by zero or lies far outside the array. -/
def rrobinIndex {α : Type} (values : List α) (thNum : Nat) : Option α :=
  values[thNum % values.length]?

def seqIndex {α : Type} (values : List α) (thNum : Nat) : Option α :=
  values[if thNum < values.length then thNum else values.length - 1]?

structure RuleInfo where
  ruleId : String
  patternId : List String
  oper : List String
  numThreads : Nat
  numBwrcThreads : Nat
  bwrcThMemIndex : Option Nat
  isOnlyBwrcStanza : Bool
  tmpltThreads : Nat -> Nat
  tmplts : List Template
  associativity : Associativity
  testcase : Testcase
  mode : Mode
  numOper : List Nat
  seekBreakupPrcnt : List (Option Nat)
  dataLen : List (Option XferSize)
  startingBlock : List StartingBlock
  direction : List Direction
  maxBlkno : List Nat
  minBlkno : List Nat
  blkHop : List Int
  align : List Nat
  lbaAlign : List Nat
  numMallocs : List Nat
  hotness : List Nat
  loopOnOffset : List Nat
  sectioned : Bool

def setRuleDefaults (dev : Device) : RuleInfo where
  ruleId := " "
  patternId := []
  oper := []
  numThreads := 0
  numBwrcThreads := 0
  bwrcThMemIndex := none
  isOnlyBwrcStanza := true
  tmpltThreads := fun _ => 0
  tmplts := []
  associativity := .rrobin
  testcase := .sync
  mode := .validation
  numOper := [0]
  seekBreakupPrcnt := [none]
  dataLen := [none]
  startingBlock := [.bot]
  direction := [.up]
  maxBlkno := [dev.maxblk]
  minBlkno := [0]
  blkHop := [0]
  align := [dev.blksize]
  lbaAlign := [0]
  numMallocs := [2]
  hotness := [1]
  loopOnOffset := [0]
  sectioned := false

inductive RuleParam where
  | patternId (values : List String)
  | numThreads (n : Nat)
  | numThreadsOf (uses : List (Nat × String))
  | associativity (a : Associativity)
  | testcase (t : Testcase)
  | oper (values : List String)
  | numOper (values : List Nat)
  | seekBreakupPrcnt (values : List Nat)
  | transferSize (values : List XferSize)
  | startingBlock (values : List StartingBlock)
  | direction (values : List Direction)
  | maxBlkno (values : List Nat)
  | minBlkno (values : List Nat)
  | blkHop (values : List Int)
  | align (values : List Nat)
  | lbaAlign (values : List Nat)
  | numMallocs (values : List Nat)
  | mode (m : Mode)
  | hotness (values : List Nat)
  | section (yes : Bool)

def operWords : List String :=
  ["R", "S", "RC", "WRC", "RWRC", "BWRC", "W", "WR", "RW", "RS", "WS", "CARR", "CARW",
    "CAWW", "CAWR", "XCMD", "D", "DRC"]

def operAccepted (oper : String) : Bool :=
  operWords.any (sameWord oper) || oper.toList.contains '['

def XferSize.normalize (blksize : Nat) (x : XferSize) : XferSize :=
  let minLen := if x.minLen < blksize then blksize else x.minLen / blksize * blksize
  let max := if x.increment = 0 then x.minLen else x.maxLen
  let maxLen := if max < minLen then minLen else max / blksize * blksize
  let increment := if max < minLen then 0 else x.increment
  let increment :=
    if increment ≠ -1 ∧ u32 increment % blksize ≠ 0 then
      signed32 (u64 increment / blksize * blksize)
    else increment
  ⟨minLen, maxLen, increment⟩

def lookupTemplates (tmplts : List Template) (uses : List (Nat × String)) :
    Option (List (Nat × Template)) :=
  uses.mapM fun use =>
    (tmplts.find? fun t => t.templateId == use.2).map fun t => (use.1, t)

def bwrcUses (uses : List (Nat × Template)) : Nat :=
  ((uses.filter fun use => isBwrc use.2.oper).map Prod.fst).sum

inductive RuleFault where
  | rejected
  | divisionByZero
  deriving DecidableEq

structure RuleState where
  rule : RuleInfo
  total : Nat

namespace RuleState

def setNumThreads (st : RuleState) (n : Nat) : Option RuleState :=
  if maxThreads < n then none
  else some { st with rule := { st.rule with numThreads := n } }

def setTemplates (st : RuleState) (uses : List (Nat × Template)) : Option RuleState :=
  let numThreads := u32 (uses.map Prod.fst).sum
  let bwrcThreads := u32 (bwrcUses uses)
  let only := st.rule.isOnlyBwrcStanza && uses.all fun use => isBwrc use.2.oper
  if maxThreads < numThreads then none
  else
    some {
      rule := { st.rule with
        numThreads := numThreads
        tmpltThreads := fun i => (uses.map Prod.fst).getD i (st.rule.tmpltThreads i)
        tmplts := st.rule.tmplts ++ uses.map Prod.snd
        isOnlyBwrcStanza := only
        numBwrcThreads := if only then st.rule.numBwrcThreads else bwrcThreads }
      total := if only then st.total else st.total + bwrcThreads }

def setOper (st : RuleState) (values : List String) : Option RuleState :=
  let bwrcThreads := values.countP isBwrc
  let only := st.rule.isOnlyBwrcStanza && values.all isBwrc
  if values.all operAccepted then
    some {
      rule := { st.rule with
        oper := values
        isOnlyBwrcStanza := only
        numBwrcThreads :=
          if only = false ∧ bwrcThreads ≠ 0 then bwrcThreads
          else st.rule.numBwrcThreads }
      total :=
        if only = false ∧ bwrcThreads ≠ 0 then st.total + bwrcThreads else st.total }
  else none

def setValues (st : RuleState) (ok : Bool) (rule : RuleInfo) : Option RuleState :=
  if ok then some { st with rule := rule } else none

end RuleState

def parseRuleParameter (dev : Device) (tmplts : List Template) (st : RuleState) :
    RuleParam -> Option RuleState
  | .patternId values => st.setValues true { st.rule with patternId := values }
  | .numThreads n => st.setNumThreads n
  | .numThreadsOf uses =>
    match lookupTemplates tmplts uses with
    | none => none
    | some uses => st.setTemplates uses
  | .associativity a => st.setValues true { st.rule with associativity := a }
  | .testcase t => st.setValues true { st.rule with testcase := t }
  | .oper values => st.setOper values
  | .numOper values => st.setValues true { st.rule with numOper := values }
  | .seekBreakupPrcnt values =>
    st.setValues (values.all fun v => v ≤ 100) { st.rule with seekBreakupPrcnt := values.map some }
  | .transferSize values =>
    st.setValues true
      { st.rule with dataLen := values.map fun x => some (x.normalize dev.blksize) }
  | .startingBlock values => st.setValues true { st.rule with startingBlock := values }
  | .direction values => st.setValues true { st.rule with direction := values }
  | .maxBlkno values =>
    st.setValues true
      { st.rule with maxBlkno := values.map fun v => min v dev.maxblk }
  | .minBlkno values => st.setValues true { st.rule with minBlkno := values }
  | .blkHop values => st.setValues true { st.rule with blkHop := values }
  | .align values =>
    st.setValues (values.all fun v => dev.blksize ≤ v && v % dev.blksize == 0)
      { st.rule with align := values }
  | .lbaAlign values => st.setValues true { st.rule with lbaAlign := values }
  | .numMallocs values =>
    st.setValues (values.all fun v => v ≤ 100) { st.rule with numMallocs := values }
  | .mode m => st.setValues true { st.rule with mode := m }
  | .hotness values =>
    st.setValues (values.all fun v => 1 ≤ v && v ≤ 32768) { st.rule with hotness := values }
  | .section yes => st.setValues true { st.rule with sectioned := yes }

/-!
# Checks at the end of a stanza
-/

namespace RuleInfo

def performanceOk (rule : RuleInfo) : Bool :=
  let opers := if rule.tmplts = [] then rule.oper else rule.tmplts.map (·.oper)
  (rule.seekBreakupPrcnt.all fun v => v = some 0 || v = some 100) &&
    opers.all fun oper => !oper.toList.contains 'C'

def RoundRobin (rule : RuleInfo) : Prop :=
  rule.oper.length < rule.numThreads ∧ rule.numBwrcThreads ≠ 0 ∧
    rule.isOnlyBwrcStanza = false ∧ rule.associativity = .rrobin

instance (rule : RuleInfo) : Decidable rule.RoundRobin :=
  inferInstanceAs (Decidable (_ ∧ _))

def roundRobinCount (rule : RuleInfo) : Nat :=
  rule.numBwrcThreads * (rule.numThreads / rule.oper.length) +
    (rule.oper.take (rule.numThreads % rule.oper.length)).countP isBwrc

end RuleInfo

namespace RuleState

section

variable (st : RuleState)

def defaultOper : Except RuleFault RuleState :=
  if st.rule.tmplts = [] then
    if st.rule.oper = [] then
      .ok { st with rule := { st.rule with oper := ["R"], isOnlyBwrcStanza := false } }
    else .ok st
  else if st.rule.oper = [] then .ok st
  else .error .rejected

def checkPerformance : Except RuleFault RuleState :=
  if st.rule.mode = .performance ∧ st.rule.performanceOk = false then .error .rejected
  else .ok st

def asyncMode : RuleState :=
  if st.rule.testcase = .async then { st with rule := { st.rule with mode := .performance } }
  else st

def checkCache : Except RuleFault RuleState :=
  if st.rule.testcase = .cache then
    if maxNumCacheThreads < st.rule.numThreads then .error .rejected
    else
      .ok { st with rule := { st.rule with
        seekBreakupPrcnt := st.rule.seekBreakupPrcnt.map fun _ => some 0 } }
  else .ok st

def countRoundRobin : Except RuleFault RuleState :=
  if st.rule.RoundRobin then
    if st.rule.oper = [] then .error .divisionByZero
    else
      .ok {
        rule := { st.rule with numBwrcThreads := st.rule.roundRobinCount }
        total := st.total + st.rule.roundRobinCount - st.rule.numBwrcThreads }
  else .ok st

def settleBwrc : RuleState :=
  let rule := st.rule
  if rule.isOnlyBwrcStanza then
    let n := if rule.numThreads = 0 then defaultBwrcThreads else rule.numThreads
    { rule := { rule with
        numThreads := n, numBwrcThreads := n, seekBreakupPrcnt := [some 0],
        numOper := [0], sectioned := true }
      total := st.total + n }
  else if rule.numThreads = 0 then { st with rule := { rule with numThreads := 1 } }
  else st

end

end RuleState

def checkNUpdateRuleParams (st : RuleState) : Except RuleFault RuleState :=
  match st.defaultOper with
  | .error e => .error e
  | .ok st =>
    match st.checkPerformance with
    | .error e => .error e
    | .ok st =>
      match st.asyncMode.checkCache with
      | .error e => .error e
      | .ok st =>
        match st.countRoundRobin with
        | .error e => .error e
        | .ok st => .ok st.settleBwrc

/-!
# Reading the file
-/

inductive Stanza where
  | template (t : Template)
  | rule (id : String) (params : List RuleParam)

structure RuleList where
  tmplts : List Template
  rules : List RuleInfo
  total : Nat

namespace RuleList

def empty : RuleList :=
  ⟨[], [], 0⟩

def parseRule (dev : Device) (l : RuleList) (id : String) (params : List RuleParam) :
    Option RuleState :=
  if id.length < 1 ∨ 16 < id.length then none
  else
    params.foldlM (parseRuleParameter dev l.tmplts)
      { rule := { setRuleDefaults dev with ruleId := id }, total := l.total }

def readStanza (dev : Device) (l : RuleList) : Stanza -> Except RuleFault RuleList
  | .template t => .ok { l with tmplts := l.tmplts ++ [t] }
  | .rule id params =>
    match l.parseRule dev id params with
    | none => .error .rejected
    | some st =>
      match checkNUpdateRuleParams st with
      | .error e => .error e
      | .ok st => .ok { l with rules := l.rules ++ [st.rule], total := st.total }

end RuleList

def readRf (dev : Device) (file : List Stanza) : Except RuleFault RuleList :=
  file.foldlM (RuleList.readStanza dev) RuleList.empty

end Htx.Hxestorage
