import Htx.Hxestorage.RuleFile
import Htx.Hxestorage.ValidationLoop

/-!
# Thread contexts

How `main` builds the contexts of its threads: `initialize_state_table` raises the lowest
block of every rule, `populate_BWRC_thread_context` fills the memory of the background
threads once, and `populate_thread_context` fills the contexts of the other threads of a
stanza.
-/

namespace Htx.Hxestorage

open Option

structure ThreadContext extends BlkContext where
  oper : String
  patternId : String
  transferSz : Option XferSize
  seekBreakupPrcnt : Option Nat
  numReads : Nat
  compareEnabled : Bool
  fencepostIndex : Option Nat
  bwrcZoneIndex : Option Nat
  align : Nat
  numOperSeq : Nat
  numOperRandom : Nat
  hotness : Nat
  offset : Nat
  numMallocs : Nat
  deriving DecidableEq

def ThreadContext.initial : ThreadContext where
  direction := .up
  startingBlock := .at 0
  minBlkno := 0
  maxBlkno := 0
  increment := 0
  blkHop := 0
  lbaAlign := 0
  numWrites := 0
  firstBlk := 0
  numBlks := 0
  dlen := 0
  savedDlen := 0
  blkno0 := 0
  blkno1 := 0
  blkno2 := 0
  doPartial := 0
  oper := ""
  patternId := ""
  transferSz := none
  seekBreakupPrcnt := some 0
  numReads := 0
  compareEnabled := false
  fencepostIndex := none
  bwrcZoneIndex := none
  align := 0
  numOperSeq := 0
  numOperRandom := 0
  hotness := 0
  offset := 0
  numMallocs := 0

/-!
# Settings of one context
-/

def operationCounts (oper : String) : Nat × Nat × Bool :=
  if (oper.toList.take 2).map Char.toUpper = ['C', 'A'] then
    if sameWord oper "CARW" || sameWord oper "CARR" then (1, 1, true) else (1, 0, false)
  else
    let p := populateOperations oper
    (p.numWrites, p.numReads, p.compareEnabled)

def pick {α : Type} (a : Associativity) (values : List α) (thNum : Nat) : Option α :=
  match a with
  | .rrobin => rrobinIndex values thNum
  | _ => seqIndex values thNum

namespace ThreadContext

def applyTemplateSettings (t : Template) (c : ThreadContext) : ThreadContext :=
  { c with
    oper := t.oper
    seekBreakupPrcnt := t.seekBreakupPrcnt
    transferSz := t.dataLen }

def countOperations (c : ThreadContext) : ThreadContext :=
  { c with
    numWrites := (operationCounts c.oper).1
    numReads := (operationCounts c.oper).2.1
    compareEnabled := (operationCounts c.oper).2.2 }

def applyTransfer (dev : Device) (rule : RuleInfo) (thNum : Nat) (c : ThreadContext) :
    Option ThreadContext := do
  let pattern <- pick rule.associativity rule.patternId thNum
  let size <- pick rule.associativity rule.dataLen thNum
  let size := (size.orElse fun _ => c.transferSz).getD ⟨dev.blksize, dev.blksize, 0⟩
  return { c with
    patternId := pattern
    transferSz := some size
    increment := size.increment
    dlen := size.minLen
    numBlks := u32 (size.minLen / dev.blksize : Nat) }

section

variable (rule : RuleInfo) (thNum : Nat) (c : ThreadContext)

def applyRange : Option ThreadContext :=
  if rule.sectioned then some c
  else do
    let minBlkno <- pick rule.associativity rule.minBlkno thNum
    let maxBlkno <- pick rule.associativity rule.maxBlkno thNum
    return { c with minBlkno := minBlkno, maxBlkno := maxBlkno }

def applyDirection : Option ThreadContext := do
  let startingBlock <- pick rule.associativity rule.startingBlock thNum
  let direction <- pick rule.associativity rule.direction thNum
  let blkHop <- pick rule.associativity rule.blkHop thNum
  return { c with
    startingBlock := startingBlock, direction := direction, blkHop := blkHop }

def applySeek : Option ThreadContext := do
  let numOper <- pick rule.associativity rule.numOper thNum
  if numOper = 0 then
    return { c with seekBreakupPrcnt := some 0 }
  else
    let seek <- pick rule.associativity rule.seekBreakupPrcnt thNum
    return { c with
      seekBreakupPrcnt := some ((seek.orElse fun _ => c.seekBreakupPrcnt).getD 0) }

end

def NeedsZone (total : Nat) (c : ThreadContext) : Prop :=
  isBwrc c.oper = false ∧ total ≠ 0 ∧ c.seekBreakupPrcnt ≠ some 100 ∧
    c.numWrites = 0 ∧ c.compareEnabled = true

instance (total : Nat) (c : ThreadContext) : Decidable (c.NeedsZone total) :=
  inferInstanceAs (Decidable (_ ∧ _))

def zoneOf (total : Nat) (zones : Nat -> ThreadContext) (blk : Nat) : Option Nat :=
  (List.range total).find? fun i =>
    (zones i).minBlkno ≤ blk && blk ≤ (zones i).maxBlkno

section

variable (total : Nat) (zones : Nat -> ThreadContext) (c : ThreadContext)

def zoneAbove : Option Nat :=
  (List.range' 1 (total - 1)).find? fun i =>
    (zones (i - 1)).maxBlkno < c.minBlkno && c.minBlkno < (zones i).minBlkno &&
      (zones i).minBlkno ≤ c.maxBlkno

def zoneBelow : Option Nat :=
  (List.range (total - 1)).find? fun i =>
    c.maxBlkno < (zones (i + 1)).minBlkno && (zones i).maxBlkno < c.maxBlkno &&
      c.minBlkno ≤ (zones i).maxBlkno

def updateBwrcZone : Option ThreadContext :=
  match c.direction with
  | .up =>
    match zoneOf total zones c.minBlkno with
    | some i =>
      some { c with
        bwrcZoneIndex := some i, maxBlkno := min c.maxBlkno (zones i).maxBlkno }
    | none =>
      match zoneAbove total zones c with
      | some i =>
        some { c with bwrcZoneIndex := some i, minBlkno := (zones i).minBlkno }
      | none => some c
  | .down =>
    match zoneOf total zones c.maxBlkno with
    | some i =>
      some { c with
        bwrcZoneIndex := some i, minBlkno := max c.minBlkno (zones i).minBlkno }
    | none =>
      match zoneBelow total zones c with
      | some i =>
        some { c with bwrcZoneIndex := some i, maxBlkno := (zones i).maxBlkno }
      | none => some c
  | _ => none

def applyZone : Option ThreadContext :=
  if c.NeedsZone total then c.updateBwrcZone total zones else some c

end

def checkAlignment (c : ThreadContext) : ThreadContext :=
  if 0 < c.lbaAlign ∧ c.numBlks % c.lbaAlign ≠ 0 then
    if c.lbaAlign < c.numBlks then { c with lbaAlign := c.numBlks }
    else { c with lbaAlign := c.lbaAlign - c.numBlks % c.lbaAlign }
  else c

def applyAlignment (rule : RuleInfo) (thNum : Nat) (c : ThreadContext) : Option ThreadContext := do
  let align <- pick rule.associativity rule.align thNum
  let lbaAlign <- pick rule.associativity rule.lbaAlign thNum
  let c := checkAlignment { c with align := align, lbaAlign := lbaAlign }
  if c.seekBreakupPrcnt ≠ some 100 then
    return { c with firstBlk := c.setFirstBlk }
  else
    return c

def updateNumOper (c : ThreadContext) : Option ThreadContext :=
  let low :=
    if c.direction = .outward ∨ c.startingBlock = .top then c.minBlkno else c.firstBlk
  let blocks := u64 (c.maxBlkno - low + 1)
  let oper :=
    if c.oper.toList.contains '[' then
      if c.compareEnabled then c.numWrites else c.numReads
    else 1
  let stride := u64 (u32 (c.numBlks + c.blkHop) * oper : Nat)
  if stride = 0 then none
  else
    some { c with
      numOperSeq := blocks / stride + if blocks % stride ≠ 0 then 1 else 0 }

/-- The numbers of sequential and of random operations.  Both kinds of
associativity test the round-robin value against 0, and with `SEQ` the sequential
share is taken from what `num_oper[SEQ]` was before. -/
def applyNumOper (rule : RuleInfo) (thNum : Nat) (c : ThreadContext) : Option ThreadContext := do
  let tested <- rrobinIndex rule.numOper thNum
  if tested = 0 then
    c.updateNumOper
  else
    let numOper <- pick rule.associativity rule.numOper thNum
    let seek := c.seekBreakupPrcnt.getD 0
    if seek = 0 then
      return { c with numOperSeq := numOper }
    else if seek = 100 then
      return { c with numOperRandom := numOper }
    else
      let random := u64 (numOper * seek : Nat) / 100
      let share := if rule.associativity = .rrobin then random else c.numOperSeq
      return { c with numOperRandom := random, numOperSeq := u64 (numOper - share) }

def applyRest (rule : RuleInfo) (thNum : Nat) (c : ThreadContext) : Option ThreadContext := do
  let hotness <- pick rule.associativity rule.hotness thNum
  let offset <- pick rule.associativity rule.loopOnOffset thNum
  let numMallocs <- pick rule.associativity rule.numMallocs thNum
  return { c with hotness := hotness, offset := offset, numMallocs := numMallocs }

def beforeZone (dev : Device) (rule : RuleInfo) (thNum : Nat) (c : ThreadContext) :
    Option ThreadContext := do
  let c <- c.applyTransfer dev rule thNum
  let c <- c.applyDirection rule thNum
  let c <- c.applyRange rule thNum
  c.applySeek rule thNum

def afterZone (rule : RuleInfo) (thNum : Nat) (c : ThreadContext) : Option ThreadContext := do
  let c <- c.applyAlignment rule thNum
  let c <- c.applyNumOper rule thNum
  c.applyRest rule thNum

def applyRuleSettings (dev : Device) (total : Nat) (zones : Nat -> ThreadContext)
    (rule : RuleInfo) (thNum : Nat) (c : ThreadContext) : Option ThreadContext :=
  if rule.associativity = .random then some c.countOperations
  else do
    let c <- c.countOperations.beforeZone dev rule thNum
    let c <- c.applyZone total zones
    c.afterZone rule thNum

section

variable {rule : RuleInfo} {thNum : Nat} {c c' : ThreadContext}

/-- What only the transfer and the range of a rule set. -/
def kept (c : ThreadContext) : String × Nat × Option XferSize × Int × Nat × Nat :=
  (c.oper, c.minBlkno, c.transferSz, c.increment, c.dlen, c.numBlks)

theorem kept_applyDirection (h : c.applyDirection rule thNum = some c') : c'.kept = c.kept := by
  simp only [applyDirection, bind_eq_bind, bind_eq_some_iff, pure_def, some.injEq] at h
  rcases h with ⟨_, _, _, _, _, _, rfl⟩
  rfl

theorem kept_applySeek (h : c.applySeek rule thNum = some c') : c'.kept = c.kept := by
  simp only [applySeek, bind_eq_bind, bind_eq_some_iff, pure_def] at h
  rcases h with ⟨numOper, _, h⟩
  split at h
  · cases h
    rfl
  · simp only [bind_eq_some_iff, some.injEq] at h
    rcases h with ⟨_, _, rfl⟩
    rfl

theorem kept_checkAlignment : c.checkAlignment.kept = c.kept := by
  unfold checkAlignment
  split
  · split <;> rfl
  · rfl

theorem kept_applyAlignment (h : c.applyAlignment rule thNum = some c') : c'.kept = c.kept := by
  simp only [applyAlignment, bind_eq_bind, bind_eq_some_iff, pure_def] at h
  rcases h with ⟨_, _, _, _, h⟩
  split at h <;> cases h <;> exact kept_checkAlignment

theorem kept_applyNumOper (h : c.applyNumOper rule thNum = some c') : c'.kept = c.kept := by
  simp only [applyNumOper, bind_eq_bind, bind_eq_some_iff, pure_def] at h
  rcases h with ⟨_, _, h⟩
  split at h
  · unfold updateNumOper at h
    simp only [ite_none_left_eq_some, some.injEq] at h
    rcases h with ⟨_, rfl⟩
    rfl
  · simp only [bind_eq_some_iff] at h
    rcases h with ⟨_, _, h⟩
    split at h
    · cases h
      rfl
    · split at h <;> cases h <;> rfl

theorem kept_applyRest (h : c.applyRest rule thNum = some c') : c'.kept = c.kept := by
  simp only [applyRest, bind_eq_bind, bind_eq_some_iff, pure_def, some.injEq] at h
  rcases h with ⟨_, _, _, _, _, _, rfl⟩
  rfl

theorem kept_afterZone (h : c.afterZone rule thNum = some c') : c'.kept = c.kept := by
  simp only [afterZone, bind_eq_bind, bind_eq_some_iff] at h
  rcases h with ⟨c1, h1, c2, h2, h3⟩
  rw [kept_applyRest h3, kept_applyNumOper h2, kept_applyAlignment h1]

end

end ThreadContext

/-!
# The threads of a stanza
-/

structure Visit where
  thNum : Nat
  ruleOper : String
  tmplt : Option Template
  deriving DecidableEq

def Visit.oper (v : Visit) : String :=
  match v.tmplt with
  | some t => t.oper
  | none => v.ruleOper

structure TemplateBlock where
  thNum : Nat
  count : Nat
  tmplt : Template
  deriving DecidableEq

def TemplateBlock.visits (b : TemplateBlock) : List Visit :=
  (List.range b.count).map fun i => ⟨b.thNum + i, "", some b.tmplt⟩

def templateBlocks (numThreads : Nat) : Nat -> List (Nat × Template) -> Option (List TemplateBlock)
  | thNum, [] => if thNum < numThreads then none else some []
  | thNum, (count, t) :: rest =>
    if thNum < numThreads then
      (templateBlocks numThreads (thNum + count) rest).map fun blocks =>
        ⟨thNum, count, t⟩ :: blocks
    else some []

namespace RuleInfo

def uses (rule : RuleInfo) : List (Nat × Template) :=
  rule.tmplts.mapIdx fun i t => (rule.tmpltThreads i, t)

def operIndex (bwrc : Bool) (rule : RuleInfo) (thNum : Nat) : Option String :=
  match rule.associativity, bwrc with
  | .seq, _ => seqIndex rule.oper thNum
  | .rrobin, _ => rrobinIndex rule.oper thNum
  | .random, true => rrobinIndex rule.oper thNum
  | .random, false => seqIndex rule.oper thNum

def visits (bwrc : Bool) (rule : RuleInfo) : Option (List Visit × Bool) :=
  if rule.tmplts = [] then
    ((List.range rule.numThreads).mapM fun thNum =>
      (rule.operIndex bwrc thNum).map fun oper => Visit.mk thNum oper none).map fun vs =>
        (vs.filter fun v => isBwrc v.oper == bwrc, vs.any fun v => isBwrc v.oper)
  else
    (templateBlocks rule.numThreads 0 rule.uses).map fun blocks =>
      ((blocks.flatMap TemplateBlock.visits).filter fun v => isBwrc v.oper == bwrc,
        blocks.any fun b => isBwrc b.tmplt.oper)

end RuleInfo

structure ThreadMem where
  ctx : Nat -> ThreadContext
  slots : List Nat

namespace ThreadMem

def initial : ThreadMem :=
  ⟨fun _ => ThreadContext.initial, []⟩

def blksPerThread (dev : Device) (rule : RuleInfo) : Nat :=
  u64 (rule.maxBlkno.headD dev.maxblk - rule.minBlkno.headD 0 + 1) / rule.numThreads

def remainingBlks (dev : Device) (rule : RuleInfo) : Nat :=
  u64 (rule.maxBlkno.headD dev.maxblk - rule.minBlkno.headD 0 + 1) % rule.numThreads

def updateBlkno (dev : Device) (rule : RuleInfo) (base : Nat) (m : ThreadMem) : ThreadMem where
  ctx := fun slot =>
    if base ≤ slot ∧ slot < base + rule.numThreads then
      let low := u64 ((slot - base) * blksPerThread dev rule : Nat)
      let rest := if slot + 1 = base + rule.numThreads then remainingBlks dev rule else 0
      { m.ctx slot with
        minBlkno := low
        maxBlkno := u64 (low + blksPerThread dev rule - 1 + rest) }
    else m.ctx slot
  slots := m.slots ++ List.range' base rule.numThreads

def prepare (fencepost : Option Nat) (v : Visit) (c : ThreadContext) : ThreadContext :=
  let c := { c with fencepostIndex := fencepost }
  match v.tmplt with
  | some t => c.applyTemplateSettings t
  | none => { c with oper := v.ruleOper }

def fill (dev : Device) (total : Nat) (zones : Nat -> ThreadContext) (rule : RuleInfo)
    (fencepost : Option Nat) (v : Visit) (c : ThreadContext) : Option ThreadContext :=
  (prepare fencepost v c).applyRuleSettings dev total zones rule v.thNum

def fillAll (f : Nat -> Visit -> ThreadContext -> Option ThreadContext) :
    Nat -> List Visit -> ThreadMem -> Option ThreadMem
  | _, [], m => some m
  | slot, v :: rest, m =>
    match f slot v (m.ctx slot) with
    | none => none
    | some c =>
      fillAll f (slot + 1) rest ⟨Function.update m.ctx slot c, m.slots ++ [slot]⟩

end ThreadMem

structure BwrcMem where
  mem : ThreadMem
  free : Nat

open ThreadMem

variable (dev : Device) (total : Nat) (zones : Nat -> ThreadContext) (rule : RuleInfo)

def populateBwrcThreadContext (b : BwrcMem) : Option (RuleInfo × BwrcMem) :=
  match rule.visits true with
  | none => none
  | some (vs, found) =>
    let mem :=
      if found ∧ rule.sectioned then b.mem.updateBlkno dev rule b.free else b.mem
    let settings := fun slot =>
      fill dev total (fun _ => ThreadContext.initial) rule (some slot)
    (fillAll settings b.free vs mem).map fun mem =>
      ({ rule with bwrcThMemIndex := if found then some b.free else none },
        ⟨mem, b.free + vs.length⟩)

def populateThreadContext : Option (ThreadMem × Nat) :=
  if rule.isOnlyBwrcStanza ∧ rule.bwrcThMemIndex ≠ none then
    some (initial, 0)
  else
    match rule.visits false with
    | none => none
    | some (vs, _) =>
      let mem :=
        if rule.sectioned then
          initial.updateBlkno dev rule (rule.bwrcThMemIndex.getD 0)
        else initial
      (fillAll (fun _ => fill dev total zones rule none) 0 vs
        mem).map fun mem => (mem, vs.length)

/-!
# Main
-/

def stateTableSize : Nat :=
  let size := u64 ((dev.maxblk + 1) * 2 : Nat) / 8
  if size % dev.blksize ≠ 0 then size + (dev.blksize - size % dev.blksize) else size

def metadataEnd : Nat :=
  stateTableSize dev / dev.blksize + 1

def updateMinBlkno : RuleInfo :=
  { rule with minBlkno := rule.minBlkno.map fun v => max v (metadataEnd dev) }

def populateAllBwrc : List RuleInfo -> BwrcMem -> Option (List RuleInfo × BwrcMem)
  | [], b => some ([], b)
  | rule :: rest, b =>
    if rule.numBwrcThreads = 0 then
      (populateAllBwrc rest b).map fun r => (rule :: r.1, r.2)
    else
      match populateBwrcThreadContext dev total rule b with
      | none => none
      | some (rule, b) =>
        (populateAllBwrc rest b).map fun r => (rule :: r.1, r.2)

def startsThreads : Bool :=
  match rule.oper with
  | [] => true
  | oper :: _ =>
    !(oper.toList.head? = some 'S' || oper.toList.head? = some 's' ||
      sameWord oper "XCMD")

def stanzaThreads : Option (ThreadMem × Nat) :=
  if startsThreads rule = false ∨ rule.numThreads = rule.numBwrcThreads then
    some (initial, 0)
  else if rule.numThreads < rule.numBwrcThreads then none
  else populateThreadContext dev total zones rule

structure Contexts where
  total : Nat
  rules : List RuleInfo
  bwrc : BwrcMem
  threads : List (ThreadMem × Nat)

def buildContexts (l : RuleList) : Option Contexts := do
  let r <-
    populateAllBwrc dev l.total (l.rules.map (updateMinBlkno dev)) ⟨initial, 0⟩
  let threads <- r.1.mapM (stanzaThreads dev l.total r.2.mem.ctx)
  return ⟨l.total, r.1, r.2, threads⟩

def contextsOf (file : List Stanza) : Option Contexts :=
  match readRf dev file with
  | .error _ => none
  | .ok l => buildContexts dev l

end Htx.Hxestorage
