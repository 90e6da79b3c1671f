import Htx.Library.EventSystem
import Htx.Library.RangeLock

/-!
# Segment tables

The disk `[0, maxblk]` is cut into consecutive segments.  Each segment has a table of LBA
ranges on which a thread currently performs I/O, guarded by the mutex and condition
variable of that table.
-/

namespace Htx.Hxestorage

open Function

def maxThreads : Nat := 4096

def maxBwrcThreads : Nat := 1024

def segTableCapacity : Nat := maxThreads + maxBwrcThreads

def segSlots : Nat := 4

/-!
# Segments
-/

structure SegmentLimits where
  maxblk : Nat
  numOfSegTables : Nat
  lbaLowerLimit : Nat -> Nat
  lbaUpperLimit : Nat -> Nat
  numOfSegTables_pos : 0 < numOfSegTables
  lower_zero : lbaLowerLimit 0 = 0
  lower_le_upper : forall i, i < numOfSegTables -> lbaLowerLimit i ≤ lbaUpperLimit i
  lower_succ : forall i, i + 1 < numOfSegTables -> lbaLowerLimit (i + 1) = lbaUpperLimit i + 1
  upper_last : lbaUpperLimit (numOfSegTables - 1) = maxblk

namespace SegmentLimits

variable (L : SegmentLimits)

def Touches (flba llba i : Nat) : Prop :=
  L.lbaLowerLimit i ≤ llba ∧ flba ≤ L.lbaUpperLimit i

instance (flba llba i : Nat) : Decidable (L.Touches flba llba i) :=
  inferInstanceAs (Decidable (_ ∧ _))

def touched (flba llba : Nat) : Finset Nat :=
  (Finset.range L.numOfSegTables).filter (L.Touches flba llba)

def OnDisk (flba llba : Nat) : Prop :=
  flba ≤ llba ∧ llba ≤ L.maxblk

instance (flba llba : Nat) : Decidable (L.OnDisk flba llba) :=
  inferInstanceAs (Decidable (_ ∧ _))

def Request (flba llba : Nat) : Prop :=
  flba ≤ llba ∧ llba ≤ L.maxblk ∧ (L.touched flba llba).card ≤ 3

instance (flba llba : Nat) : Decidable (L.Request flba llba) :=
  inferInstanceAs (Decidable (_ ∧ _ ∧ _))

def Visits (flba i : Nat) : Prop :=
  (L.lbaLowerLimit i ≤ flba ∧ flba ≤ L.lbaUpperLimit i) ∨ flba < L.lbaLowerLimit i

instance (flba i : Nat) : Decidable (L.Visits flba i) :=
  inferInstanceAs (Decidable (_ ∨ _))

end SegmentLimits

/-!
# Table entries
-/

structure SegmentTableData (tid : Type) where
  flba : Nat
  llba : Nat
  segFlba : Nat
  segLlba : Nat
  tid : tid
  threadTime : Nat
  hangCount : Nat
  inUse : Bool
  deriving DecidableEq

variable {tid : Type}

namespace SegmentTableData

variable (e : SegmentTableData tid) (flba llba : Nat)

def Overlaps : Prop :=
  (e.flba < flba ∧ flba ≤ e.llba) ∨ (flba < e.flba ∧ e.flba ≤ llba) ∨ e.flba = flba

instance : Decidable (e.Overlaps flba llba) :=
  inferInstanceAs (Decidable (_ ∨ _ ∨ _))

def range : Set Nat :=
  Set.Icc e.flba e.llba

variable {e flba llba} in
theorem overlaps_iff (he : e.flba ≤ e.llba) (hr : flba ≤ llba) :
    e.Overlaps flba llba <-> (e.range ∩ Set.Icc flba llba).Nonempty :=
  Library.conflict_iff_inter_nonempty he hr

end SegmentTableData

structure Scan where
  matchFound : Bool
  unused : Option Nat
  j : Nat
  deriving DecidableEq

def scanFrom (flba llba : Nat) : List (SegmentTableData tid) -> Nat -> Option Nat -> Scan
  | [], j, unused => ⟨false, unused, j⟩
  | e :: rest, j, unused =>
    if e.inUse then
      if e.Overlaps flba llba then ⟨true, unused, j⟩
      else scanFrom flba llba rest (j + 1) unused
    else
      match unused with
      | none => scanFrom flba llba rest (j + 1) (some j)
      | some u => scanFrom flba llba rest (j + 1) (some u)

def scan (flba llba : Nat) (entries : List (SegmentTableData tid)) : Scan :=
  scanFrom flba llba entries 0 none

def putEntry (entries : List (SegmentTableData tid)) (index : Nat)
    (e : SegmentTableData tid) : List (SegmentTableData tid) :=
  if index < entries.length then entries.set index e else entries ++ [e]

/-!
# Threads and the whole system
-/

inductive SegPc where
  | idle
  | scanning (i k : Nat)
  | waiting (i k : Nat)
  | holding
  | unlocking (k : Nat)
  deriving DecidableEq

structure SegContext where
  flba : Nat
  llba : Nat
  segTableNum : Nat -> Option Nat
  segTableIndex : Nat -> Option Nat

structure SegThread extends SegContext where
  pc : SegPc

inductive SegFault where
  | allEntriesUsed
  | cantFindSegment
  | outOfBounds
  deriving DecidableEq

structure SegState (tid : Type) where
  segTable : Nat -> List (SegmentTableData tid)
  thread : tid -> SegThread
  fault : Option SegFault

inductive SegEvent (tid : Type) where
  | segLock (t : tid) (flba llba : Nat)
  | lockTable (t : tid) (now : Nat)
  | wakeup (t : tid)
  | segUnlock (t : tid)
  | unlockTable (t : tid)
  deriving DecidableEq

namespace SegState

def claimEntry (L : SegmentLimits) (c : SegThread) (t : tid) (i now : Nat) :
    SegmentTableData tid where
  flba := c.flba
  llba := c.llba
  segFlba := if L.lbaLowerLimit i ≤ c.flba then c.flba else L.lbaLowerLimit i
  segLlba := if L.lbaUpperLimit i < c.llba then L.lbaUpperLimit i else c.llba
  tid := t
  threadTime := now
  hangCount := 0
  inUse := true

variable [DecidableEq tid] (L : SegmentLimits) (s : SegState tid) (t : tid)

def setThread (c : SegThread) : SegState tid :=
  { s with thread := update s.thread t c }

def setTable (i : Nat) (entries : List (SegmentTableData tid)) : SegState tid :=
  { s with segTable := update s.segTable i entries }

def broadcast (i : Nat) : SegState tid :=
  { s with thread := fun t =>
      match (s.thread t).pc with
      | .waiting i' k =>
        if i' = i then { s.thread t with pc := .scanning i' k } else s.thread t
      | _ => s.thread t }

def claim (i k index now : Nat) : SegState tid :=
  let c := s.thread t
  (s.setTable i (putEntry (s.segTable i) index (claimEntry L c t i now))).setThread t
    { c with
      pc := if c.llba ≤ L.lbaUpperLimit i then .holding else .scanning (i + 1) (k + 1)
      segTableNum := update c.segTableNum k (some i)
      segTableIndex := update c.segTableIndex k (some index) }

def lockTable (i k now : Nat) : SegState tid :=
  let c := s.thread t
  if L.numOfSegTables ≤ i then
    s.setThread t { c with pc := .holding }
  else if ¬ L.Visits c.flba i then
    s.setThread t { c with pc := .scanning (i + 1) k }
  else if segSlots ≤ k then
    { s with fault := some .outOfBounds }
  else
    let found := scan c.flba c.llba (s.segTable i)
    if found.matchFound then
      s.setThread t
        { c with
          pc := .waiting i k
          segTableNum := update c.segTableNum k (some i)
          segTableIndex := update c.segTableIndex k found.unused }
    else
      match found.unused with
      | some index => s.claim L t i k index now
      | none =>
        if found.j < segTableCapacity then s.claim L t i k found.j now
        else { s with fault := some .allEntriesUsed }

def unlockTable (k : Nat) : SegState tid :=
  let c := s.thread t
  if segSlots ≤ k then
    { s with fault := some .outOfBounds }
  else
    match c.segTableNum k with
    | none => s.setThread t { c with pc := .idle }
    | some i =>
      match c.segTableIndex k with
      | none => { s with fault := some .outOfBounds }
      | some index =>
        match (s.segTable i)[index]? with
        | none => { s with fault := some .outOfBounds }
        | some e =>
          if e.inUse = true ∧ e.flba = c.flba ∧ e.llba = c.llba ∧ e.tid = t then
            ((s.setTable i ((s.segTable i).set index { e with inUse := false })).setThread
              t { c with pc := .unlocking (k + 1) }).broadcast i
          else { s with fault := some .cantFindSegment }

def step (e : SegEvent tid) : Option (SegState tid) :=
  if s.fault.isSome then none
  else
    match e with
    | .segLock t flba llba =>
      if (s.thread t).pc = .idle ∧ L.Request flba llba then
        some (s.setThread t
          { pc := .scanning 0 0, flba := flba, llba := llba,
            segTableNum := fun _ => none, segTableIndex := fun _ => none })
      else none
    | .lockTable t now =>
      match (s.thread t).pc with
      | .scanning i k => some (s.lockTable L t i k now)
      | _ => none
    | .wakeup t =>
      match (s.thread t).pc with
      | .waiting i k =>
        some (s.setThread t { s.thread t with pc := .scanning i k })
      | _ => none
    | .segUnlock t =>
      match (s.thread t).pc with
      | .holding => some (s.setThread t { s.thread t with pc := .unlocking 0 })
      | _ => none
    | .unlockTable t =>
      match (s.thread t).pc with
      | .unlocking k => some (s.unlockTable t k)
      | _ => none

def Initial : Prop :=
  (forall i, s.segTable i = []) ∧ (forall t, (s.thread t).pc = .idle) ∧ s.fault = none

end SegState

def SegState.start (tid : Type) : SegState tid where
  segTable := fun _ => []
  thread := fun _ =>
    { pc := .idle, flba := 0, llba := 0,
      segTableNum := fun _ => none, segTableIndex := fun _ => none }
  fault := none

theorem SegState.initial_start (tid : Type) : (SegState.start tid).Initial :=
  ⟨fun _ => rfl, fun _ => rfl, rfl⟩

def segSystem (L : SegmentLimits) (tid : Type) [DecidableEq tid] :
    Library.EventSystem (SegState tid) (SegEvent tid) where
  Initial := SegState.Initial
  step := SegState.step L

end Htx.Hxestorage
