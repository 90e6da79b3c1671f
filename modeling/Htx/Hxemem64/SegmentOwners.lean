import Mathlib

/-!
# Dealing segments to threads

`fill_thread_context` gives every thread of a stanza its memory segments.  For each chip
with CPUs it chooses a memory chip and deals that chip's segments in use to the threads of
the chip, page size by page size.
-/

namespace Htx.Hxemem64

open Function

def maxPageSizes : Nat :=
  5

inductive Pool where
  | chip (n : Nat)
  | system
  deriving DecidableEq

structure SegId where
  pool : Pool
  page : Nat
  index : Nat
  deriving DecidableEq

structure SegInfo where
  owningThread : Int
  inUse : Bool
  deriving DecidableEq

def toOwningThread (threadNum : Nat) : Int :=
  Int.bmod threadNum 4096

structure ThreadInfo where
  numSegs : Nat
  segDetails : Nat -> Option SegId

structure Owners where
  seg : SegId -> SegInfo
  thread : Nat -> ThreadInfo

namespace Owners

def take (w : Owners) (th j : Nat) (id : SegId) : Owners where
  seg := update w.seg id ⟨toOwningThread th, true⟩
  thread := update w.thread th
    { w.thread th with segDetails := update (w.thread th).segDetails j (some id) }

def give (w : Owners) (th j : Nat) (id : SegId) : Owners :=
  if (w.seg id).owningThread ≠ -1 then w else w.take th j id

def setNumSegs (w : Owners) (th numSegs : Nat) : Owners :=
  { w with thread := update w.thread th { w.thread th with numSegs := numSegs } }

end Owners

/-!
## The threads of one chip
-/

section

variable (pool : Pool) (inUse : Nat -> Nat) (numThreads : Nat)

def avgSegsPerThread (page : Nat) : Nat :=
  if inUse page ≥ numThreads then inUse page / numThreads else 0

def numSegsPerThread (remSegs : Nat -> Int) (page : Nat) : Nat :=
  if inUse page > 0 then
    avgSegsPerThread inUse numThreads page + if remSegs page > 0 then 1 else 0
  else 0

def decrementRemSegs (remSegs : Nat -> Int) (page : Nat) : Int :=
  if inUse page > 0 then remSegs page - 1 else remSegs page

def totalSegs (counts : Nat -> Nat) : Nat :=
  ((List.range maxPageSizes).map counts).sum

def countSegs : Nat -> (Nat -> Int) -> List (Nat -> Nat)
  | 0, _ => []
  | left + 1, remSegs =>
    numSegsPerThread inUse numThreads remSegs :: countSegs left (decrementRemSegs inUse remSegs)

def dealSegs (th page track numSegs : Nat) : Nat -> Nat -> Nat -> Owners -> Nat × Owners
  | 0, _, j, w => (j, w)
  | left + 1, seg, j, w =>
    if j < numSegs then
      dealSegs th page track numSegs left (seg + 1) (j + 1) (w.give th j ⟨pool, page, seg + track⟩)
    else (j, w)

def dealPages (th : Nat) (counts : Nat -> Nat) :
    List Nat -> Nat -> (Nat -> Nat) -> Owners -> (Nat -> Nat) × Owners
  | [], _, track, w => (track, w)
  | page :: rest, j, track, w =>
    if inUse page > 0 ∧ track page < inUse page then
      let (j, w) := dealSegs pool th page (track page) (totalSegs counts) (counts page) 0 j w
      dealPages th counts rest j
        (update track page (track page + counts page)) w
    else dealPages th counts rest j track w

def dealThreads : Nat -> List (Nat -> Nat) -> (Nat -> Nat) -> Owners -> Owners
  | _, [], _, w => w
  | th, counts :: rest, track, w =>
    if totalSegs counts = 0 then dealThreads (th + 1) rest track w
    else
      let (track, w) := dealPages pool inUse th counts (List.range maxPageSizes) 0 track w
      dealThreads (th + 1) rest track w

def setCounts : Nat -> List (Nat -> Nat) -> Owners -> Owners
  | _, [], w => w
  | th, counts :: rest, w => setCounts (th + 1) rest (w.setNumSegs th (totalSegs counts))

def fillThreads (startThreadIndex : Nat) (w : Owners) : Owners :=
  let counts := countSegs inUse numThreads numThreads
    fun page => ((inUse page % numThreads : Nat) : Int)
  dealThreads pool inUse startThreadIndex counts (fun _ => 0) (setCounts startThreadIndex counts w)

end

/-!
## Stanzas
-/

inductive Affinity where
  | floating
  | local
  | remoteChip
  | intraNode
  | interNode
  deriving DecidableEq

structure NestMachine where
  maxChips : Nat
  numChipMemPools : Nat
  hasCpuAndMem : Nat -> Bool
  numOfSegments : Pool -> Nat -> Nat
  allocated : forall n page, numOfSegments (.chip n) page ≠ 0 ->
    n < numChipMemPools ∧ hasCpuAndMem n = true

structure Selection (m : NestMachine) where
  disableFilters : Bool
  affinity : Affinity
  numThreads : Nat
  inUseNumCpus : Nat -> Nat
  memInUse : Nat -> Bool
  inUseNumOfSegments : Pool -> Nat -> Nat
  exist : forall pool page, inUseNumOfSegments pool page ≤ m.numOfSegments pool page
  selected : forall n page, memInUse n = false -> inUseNumOfSegments (.chip n) page = 0

structure ChipLoop where
  affinity : Affinity
  memChipUsed : Nat -> Bool
  startThreadIndex : Nat
  owners : Owners
  assigned : List (Nat × Nat)

section

variable {m : NestMachine} (s : Selection m)

/-- The search of `REMOTE_CHIP` from `memChip` on.  It comes back to `chip` or finds a
chip within one round; `none` is a search that goes on for ever, or no pool at all. -/
def findRemote (chip : Nat) (used : Nat -> Bool) : Nat -> Nat -> Option Nat
  | 0, _ => none
  | fuel + 1, memChip =>
    if m.numChipMemPools = 0 then none
    else
      let memChip := (memChip + 1) % m.numChipMemPools
      if memChip = chip then some memChip
      else if used memChip then findRemote chip used fuel memChip
      else if s.memInUse memChip then some memChip
      else findRemote chip used fuel memChip

def fillAffinityBasedThreadStructure (cpuChip memChip : Nat) (l : ChipLoop) : ChipLoop :=
  { l with
    owners := fillThreads (.chip memChip) (s.inUseNumOfSegments (.chip memChip))
      (s.inUseNumCpus cpuChip) l.startThreadIndex l.owners
    startThreadIndex := l.startThreadIndex + s.inUseNumCpus cpuChip
    assigned := l.assigned ++ [(cpuChip, memChip)] }

/-- One pass of the loop over the chips; `none` if the function fails or does not
return.  `INTER_NODE` and `INTRA_NODE` are refused outside the fabric bus test. -/
def fillChip (chip : Nat) (l : ChipLoop) : Option ChipLoop :=
  if s.inUseNumCpus chip = 0 then some l
  else
    match l.affinity with
    | .local =>
      if s.memInUse chip then some (fillAffinityBasedThreadStructure s chip chip l)
      else none
    | .floating => some (fillAffinityBasedThreadStructure s chip chip l)
    | .remoteChip =>
      match findRemote s chip l.memChipUsed (m.numChipMemPools + 1) chip with
      | none => none
      | some memChip =>
        some (fillAffinityBasedThreadStructure s chip memChip
          { l with
            affinity := if memChip = chip then .local else .remoteChip
            memChipUsed := update l.memChipUsed memChip true })
    | .intraNode | .interNode => none

def fillChips : List Nat -> ChipLoop -> Option ChipLoop
  | [], l => some l
  | chip :: rest, l => (fillChip s chip l).bind (fillChips rest)

def newThreads (w : Owners) : Owners :=
  { w with thread := fun _ => ⟨0, fun _ => none⟩ }

structure Filled where
  owners : Owners
  numThreads : Nat
  assigned : List Pool

def fillThreadContextWithFiltersDisabled (w : Owners) : Option Filled :=
  if s.numThreads = 0 then none
  else
    some ⟨fillThreads .system (s.inUseNumOfSegments .system) s.numThreads 0 w,
      s.numThreads, [.system]⟩

def fillThreadContext (w : Owners) : Option Filled :=
  let w := newThreads w
  if s.disableFilters then fillThreadContextWithFiltersDisabled s w
  else
    (fillChips s (List.range m.maxChips) ⟨s.affinity, fun _ => false, 0, w, []⟩).map
      fun l => ⟨l.owners, l.startThreadIndex, l.assigned.map fun p => .chip p.2⟩

end

def NestMachine.Resets (m : NestMachine) (disableFilters : Bool) : Pool -> Prop
  | .chip n => disableFilters = false ∧ n < m.numChipMemPools ∧ m.hasCpuAndMem n = true
  | .system => disableFilters = true

instance (m : NestMachine) (disableFilters : Bool) (pool : Pool) :
    Decidable (m.Resets disableFilters pool) :=
  match pool with
  | .chip _ => inferInstanceAs (Decidable (_ ∧ _ ∧ _))
  | .system => inferInstanceAs (Decidable (_ = _))

def resetSegmentOwners (m : NestMachine) (disableFilters : Bool) (w : Owners) : Owners :=
  { w with seg := fun id =>
      if m.Resets disableFilters id.pool ∧ id.page < maxPageSizes ∧
          id.index < m.numOfSegments id.pool id.page ∧ (w.seg id).inUse then
        ⟨-1, false⟩
      else w.seg id }

end Htx.Hxemem64
