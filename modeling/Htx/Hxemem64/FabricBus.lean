import Mathlib

/-!
# Memory across the fabric bus

`memory_segments_calculation` gives every CPU a segment of memory behind another chip: of
the same node for the device `fabc`, of another node for `fabn`.
-/

namespace Htx.Hxemem64

open List

structure FabChip where
  cpulist : List Nat
  totalMemAvail : Nat
  numCores : Nat

structure FabSystem where
  nodes : List (List FabChip)
  l3CacheSize : Nat
  divFactor : Nat
  cpus_nodup : (nodes.flatten.flatMap FabChip.cpulist).Nodup

inductive FabOper where
  | intraNode
  | interNode

inductive FabStop where
  | undefined
  | fuel

/-- `fab_g`: the chip and the number of the segment for a CPU, the number of segments of a
chip, and the size of the L3 caches of a chip.  What is still -1 is `none`. -/
structure Fab where
  destChip : Nat -> Option (Nat × Nat)
  segsPerChip : Nat -> Nat
  chipL3Sz : Nat -> Option Nat

namespace Fab

def start : Fab :=
  ⟨fun _ => none, fun _ => 0, fun _ => none⟩

def assign (fab : Fab) (hostCpu : Nat) : Option Nat -> Fab
  | none => fab
  | some k =>
    { fab with
      destChip := Function.update fab.destChip hostCpu (some (k, fab.segsPerChip k))
      segsPerChip := Function.update fab.segsPerChip k (fab.segsPerChip k + 1) }

def setL3 (fab : Fab) (chip size : Nat) : Fab :=
  { fab with chipL3Sz := Function.update fab.chipL3Sz chip (some size) }

end Fab

namespace FabSystem

variable (m : FabSystem)

def chips : List FabChip :=
  m.nodes.flatten

def numChips (n : Nat) : Nat :=
  (m.nodes[n]?.getD []).length

/-- Nothing is stored behind the last node. -/
def startChip (n : Nat) : Nat :=
  if n < m.nodes.length then ((range n).map m.numChips).sum else 0

def nodeEnd (n : Nat) : Nat :=
  m.numChips n + m.startChip n

def memAvail (k : Nat) : Nat :=
  (m.chips[k]?.map FabChip.totalMemAvail).getD 0

def cpus (k : Nat) : List Nat :=
  (m.chips[k]?.map FabChip.cpulist).getD []

def l3Size (n c : Nat) : Nat :=
  (m.nodes[n]?.bind fun node => node[c]?).elim 0 fun chip =>
    chip.numCores / m.divFactor * m.l3CacheSize

/-!
# Loops
-/

/-- The `break` once a round has brought `count` to the number of chips, and the end at a chip
with memory. -/
def halted (n count k : Nat) : Option (Nat × Bool) :=
  if 0 < count ∧ count = m.numChips n then some (k, false)
  else if 0 < m.memAvail k then some (k, true)
  else none

/-- The search for a chip with memory, and whether it ended at one.  Inside a node the own
chip counts twice. -/
def search (own : Option Nat) (n : Nat) : Nat -> Nat -> Nat -> Except FabStop (Nat × Bool)
  | 0, count, k => (m.halted n count k).elim (.error .fuel) .ok
  | fuel + 1, count, k =>
    match m.halted n count k with
    | some found => .ok found
    | none =>
      if m.nodeEnd n = 0 then .error .undefined
      else
        let k' := (k + 1) % m.nodeEnd n
        search own n fuel (count + if own = some k' then 2 else 1) k'

section Loops

variable {σ : Type}

/-- `target` gives the chip for a CPU, if any, and the place where the search for the next one
starts. -/
def forCpus (target : σ -> Except FabStop (Option Nat × σ)) :
    List Nat -> σ -> Fab -> Except FabStop Fab
  | [], _, fab => .ok fab
  | hostCpu :: cpus, place, fab =>
    (target place).bind fun (pick, place) =>
      forCpus target cpus place (fab.assign hostCpu pick)

/-- The chips by the node and the number in it.  `absolute_chip` counts these: a node that is
left out does not advance it. -/
def visited (atLeast : Nat) : List (Nat × Nat) :=
  ((range m.nodes.length).filter fun n => atLeast ≤ m.numChips n).flatMap fun n =>
    (range (m.numChips n)).map (n, ·)

variable (start : Nat -> Nat -> Nat -> Except FabStop σ)
  (target : Nat -> Nat -> Nat -> σ -> Except FabStop (Option Nat × σ))

def forChips : List (Nat × Nat) -> Nat -> Fab -> Except FabStop Fab
  | [], _, fab => .ok fab
  | (n, c) :: rest, absoluteChip, fab =>
    (start n c absoluteChip).bind fun place =>
      (forCpus (target n c absoluteChip) (m.cpus absoluteChip) place fab).bind fun fab =>
        forChips rest (absoluteChip + 1) (fab.setL3 absoluteChip (m.l3Size n c))

end Loops

/-!
# Inside a node
-/

def intraStart (_n _c absoluteChip : Nat) : Except FabStop Nat :=
  .ok (absoluteChip + 1)

def intraNext (n absoluteChip k : Nat) : Nat :=
  let k := if k = absoluteChip then k + 1 else k
  if m.startChip n + m.numChips n ≤ k then
    if m.startChip n = absoluteChip then m.startChip n + 1 else m.startChip n
  else k

def intraPick (absoluteChip : Nat) (found : Nat × Bool) : Except FabStop (Option Nat × Nat) :=
  let k := found.1
  .ok (if 0 < m.memAvail k ∧ k ≠ absoluteChip then some k else none, k + 1)

def intraTarget (fuel n _c absoluteChip k : Nat) : Except FabStop (Option Nat × Nat) :=
  (m.search (some absoluteChip) n fuel 0 (m.intraNext n absoluteChip k)).bind
    (m.intraPick absoluteChip)

/-- `none` is the return of `FAILURE`. -/
def intraNode (fuel : Nat) : Except FabStop (Option Fab) :=
  (m.forChips intraStart (m.intraTarget fuel) (m.visited 2) 0 .start).map fun fab =>
    if forall n, n < m.nodes.length -> m.numChips n ≤ 1 then none else some fab

/-!
# Between nodes
-/

def sameOffset (base remoteChip node : Nat) : Except FabStop Nat :=
  if m.numChips node = 0 then .error .undefined
  else .ok (base + remoteChip % m.numChips node)

def interStart (n remoteChip _absoluteChip : Nat) : Except FabStop (Nat × Nat) :=
  let remoteNode := (n + 1) % m.nodes.length
  (m.sameOffset (m.startChip remoteNode) remoteChip remoteNode).map (·, remoteNode)

def leaveNode (n remoteChip k remoteNode : Nat) : Except FabStop (Nat × Nat) :=
  if remoteNode = n then
    let remoteNode := (remoteNode + 1) % m.nodes.length
    (m.sameOffset (m.nodeEnd n) remoteChip remoteNode).map (·, remoteNode)
  else .ok (k, remoteNode)

def wrapNode (n remoteChip k remoteNode : Nat) : Except FabStop (Nat × Nat) :=
  if m.nodes.length ≤ remoteNode then
    if 0 = n then (m.sameOffset (m.nodeEnd n) remoteChip 0).map (·, 1 % m.nodes.length)
    else (m.sameOffset (m.startChip 0) remoteChip 0).map (·, 0)
  else .ok (k, remoteNode)

/-- What follows the search in node `r`. -/
def interPick (n remoteChip r : Nat) (found : Nat × Bool) :
    Except FabStop (Option Nat × Nat × Nat) :=
  (m.leaveNode n remoteChip found.1 (if found.2 then r else r + 1)).bind fun (k, remoteNode) =>
    (m.wrapNode n remoteChip k remoteNode).map fun (k, remoteNode) =>
      let k := k % m.chips.length
      (if 0 < m.memAvail k then some k else none, k + m.numChips remoteNode, remoteNode + 1)

def interTarget (fuel n remoteChip _absoluteChip : Nat) (place : Nat × Nat) :
    Except FabStop (Option Nat × Nat × Nat) :=
  (m.search none place.2 fuel 0 place.1).bind (m.interPick n remoteChip place.2)

def interNode (fuel : Nat) : Except FabStop (Option Fab) :=
  if m.nodes.length ≤ 1 then .ok none
  else (m.forChips m.interStart (m.interTarget fuel) (m.visited 0) 0 .start).map some

end FabSystem

end Htx.Hxemem64
