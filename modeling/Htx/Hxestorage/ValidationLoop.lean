import Mathlib

/-!
# Operations and validation loops

`populate_operations` turns an operation string such as `WRC` or `W[2]R[3]C` into the list
of functions that a loop body calls, together with the number of writes and reads of one
loop iteration.
-/

namespace Htx.Hxestorage

inductive Oper where
  | write
  | read
  | compare
  | discard
  | null
  deriving DecidableEq

structure Operations where
  operations : List Oper
  numWrites : Nat
  numReads : Nat
  numDiscards : Nat
  compareEnabled : Bool
  deriving DecidableEq

namespace Operations

def empty : Operations :=
  ⟨[], 0, 0, 0, false⟩

def push (p : Operations) (oper : Oper) : Operations :=
  { p with operations := p.operations ++ [oper] }

end Operations

/-!
# Parsing an operation string
-/

def leadingNat : List Char -> Nat -> Nat
  | [], n => n
  | c :: rest, n =>
    if c.isDigit then leadingNat rest (10 * n + (c.toNat - 48)) else n

def atoiUnsigned (s : List Char) : Nat :=
  match s.dropWhile Char.isWhitespace with
  | '-' :: rest => (2 ^ 32 - leadingNat rest 0 % 2 ^ 32) % 2 ^ 32
  | '+' :: rest => leadingNat rest 0 % 2 ^ 32
  | rest => leadingNat rest 0 % 2 ^ 32

def bracket (rest : List Char) : List Char × List Char :=
  let text := rest.takeWhile (fun c => c ≠ ']')
  match rest.dropWhile (fun c => c ≠ ']') with
  | [] => (text, rest)
  | _ :: after => (text, after)

def populateLoop : Nat -> List Char -> Bool -> Bool -> Operations -> Operations
  | 0, _, _, _, p => p
  | _, [], _, _, p => p
  | fuel + 1, c :: rest, wFound, rFound, p =>
    if c = 'W' ∨ c = 'w' then
      populateLoop fuel rest true rFound { p.push .write with numWrites := 1 }
    else if c = 'R' ∨ c = 'r' then
      populateLoop fuel rest wFound true { p.push .read with numReads := 1 }
    else if c = 'C' ∨ c = 'c' ∨ c = 'V' then
      populateLoop fuel rest wFound rFound
        { p.push .compare with compareEnabled := true }
    else if c = 'D' ∨ c = 'd' then
      populateLoop fuel rest wFound rFound
        { p.push .discard with numDiscards := 1 }
    else if c = '[' then
      let num := atoiUnsigned (bracket rest).1
      if wFound then
        populateLoop fuel (bracket rest).2 false rFound { p with numWrites := num }
      else if rFound then
        populateLoop fuel (bracket rest).2 wFound false { p with numReads := num }
      else
        populateLoop fuel (bracket rest).2 wFound rFound p
    else
      populateLoop fuel rest wFound rFound p

def populateOperations (oper : String) : Operations :=
  populateLoop oper.toList.length oper.toList false false Operations.empty

example : populateOperations "BWRC" = ⟨[.write, .read, .compare], 1, 1, 0, true⟩ := by
  decide

example : populateOperations "W[2]R[13]C" = ⟨[.write, .read, .compare], 2, 13, 0, true⟩ := by
  decide

/-!
# The loops of one thread
-/

structure LoopContext extends Operations where
  bwrc : Bool
  hotness : Nat
  deriving DecidableEq

inductive Access where
  | seq
  | random
  deriving DecidableEq

inductive Region where
  | background
  | opertn
  | writesLeft
  | readsLeft
  deriving DecidableEq

inductive Instr where
  | setRemaining (n : Int)
  | body (region : Region) (ops : List Oper)
  | decRemaining
  deriving DecidableEq

namespace LoopContext

def opertn (c : LoopContext) : Nat :=
  if c.numDiscards ≠ 0 then c.numDiscards
  else if c.numReads = 0 then c.numWrites
  else if c.numWrites = 0 then c.numReads
  else if c.numReads ≤ c.numWrites then c.numReads else c.numWrites

def mixed (c : LoopContext) : Bool :=
  c.numDiscards = 0 && c.numReads ≠ 0 && c.numWrites ≠ 0

def nwritesLeft (c : LoopContext) : Nat :=
  if c.mixed then c.numWrites - c.opertn else 0

def nreadsLeft (c : LoopContext) : Nat :=
  if c.mixed then c.numReads - c.opertn else 0

def leftWrite (c : LoopContext) : Access -> Oper
  | .seq => c.operations.getD 0 .null
  | .random => c.operations.getD c.operations.length .null

def opertnInstrs (c : LoopContext) : Nat -> List Instr
  | 0 => []
  | n + 1 => .body .opertn c.operations :: .decRemaining :: c.opertnInstrs n

def writesLeftInstrs (c : LoopContext) (a : Access) : Nat -> List Instr
  | 0 => []
  | n + 1 =>
    .body .writesLeft [c.leftWrite a] :: .decRemaining :: c.writesLeftInstrs a n

def readsLeftInstrs (c : LoopContext) : Nat -> List Instr
  | 0 => []
  | n + 1 => .body .readsLeft (c.operations.drop 1) :: c.readsLeftInstrs n

def hotInstrs (c : LoopContext) (a : Access) : List Instr :=
  .setRemaining c.numWrites :: (c.opertnInstrs c.opertn ++ (c.writesLeftInstrs a c.nwritesLeft ++
      c.readsLeftInstrs c.nreadsLeft))

def hotnessInstrs (c : LoopContext) (a : Access) : Nat -> List Instr
  | 0 => []
  | n + 1 => c.hotInstrs a ++ c.hotnessInstrs a n

def iteration (c : LoopContext) : Access -> List Instr
  | .seq =>
    if c.bwrc then [.body .background c.operations]
    else c.hotnessInstrs .seq c.hotness
  | .random => c.hotnessInstrs .random c.hotness

end LoopContext

end Htx.Hxestorage
