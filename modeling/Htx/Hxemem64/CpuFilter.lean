import Htx.Library.Fields
import Htx.Library.PathTree
import Htx.Gr64.RuleTable

/-!
# CPU filters

`parse_cpu_filter` folds the filters of a stanza into the tree `r.filter.cf`: nodes, their
chips, the cores of a chip and the threads of a core.
-/

namespace Htx.Hxemem64

open Library List

inductive Level where
  | node
  | chip
  | core
  | thread
  deriving DecidableEq

def Level.limit : Level -> Nat
  | .node => 8
  | .chip => 8
  | .core => 24
  | .thread => 8

inductive FilterError where
  | failure
  | fault
  deriving DecidableEq

/-! ## Percentages -/

def nearest (a b : Nat) : Nat :=
  if 2 * (a % b) < b ∨ 2 * (a % b) = b ∧ a / b % 2 = 0 then a / b else a / b + 1

def toFloat (n : Nat) : Nat :=
  let step := 2 ^ (n.log2 + 1 - 24)
  nearest n step * step

def hundredths (num : Nat) : Nat :=
  let step := 2 ^ ((num * 2 ^ 60 / 100).log2 + 1 - 53)
  nearest (num * 2 ^ 60) (100 * step) * step

def percentOf (size : Nat) (num : Int) : Int :=
  num.sign * (toFloat (size * toFloat (hundredths num.natAbs)) / 2 ^ 60 : Nat)

/-! ## The token of a level -/

structure Marking where
  marked : Nat -> Bool
  count : Nat

def afterPercent (text : List Char) : Option (List Char) :=
  if '%' ∈ text then some ((text.dropWhile fun c => c ≠ '%').drop 1) else none

def atoi (text : List Char) : Int :=
  (Gr64.strtol text).1.bmod (2 ^ 32)

def readNumber (size : Nat) (text : List Char) : Except FilterError Nat :=
  let read := Gr64.strtol text
  if read.1 < 0 ∨ size ≤ read.1 ∨ read.2 = text then .error .failure
  else .ok read.1.toNat

def markPercent (size : Nat) (num : Int) (marked : Nat -> Bool) : Except FilterError Marking :=
  let places := percentOf size num
  if places < 0 ∨ size < places then .error .failure
  else
    let count := if places = 0 then 1 else places.toNat
    .ok ⟨fun i => marked i || decide (i < count), count⟩

def markRange (level : Level) (size : Nat) (m : Marking) (text : List Char) :
    Except FilterError Marking :=
  if 8 ≤ text.length then .error .fault
  else
    match fields (fun c => c = '-') text with
    | _ :: second :: _ =>
      let last := (Gr64.strtol second).1
      if last < 0 ∨ level.limit ≤ last then .error .fault
      else if size ≤ last then .error .failure
      else
        let read := Gr64.strtol text
        -- a negative number is a large one in the comparison with `last`
        if read.1 < 0 ∨ last < read.1 then
          .ok ⟨fun i => m.marked i || decide (i = last.toNat), m.count⟩
        else if read.2 = text then .error .failure
        else
          .ok ⟨fun i => m.marked i || decide (read.1.toNat ≤ i ∧ i ≤ last.toNat),
            m.count + (last.toNat + 1 - read.1.toNat)⟩
    | _ => .error .failure

def markEntry (level : Level) (size : Nat) (m : Marking) (text : List Char) :
    Except FilterError Marking :=
  match afterPercent text with
  | some num => markPercent size (atoi num) m.marked
  | none =>
    if '-' ∈ text then markRange level size m text
    else
      match readNumber size text with
      | .error e => .error e
      | .ok n =>
        .ok ⟨fun i => m.marked i || decide (i = n),
          if level = .chip ∧ m.marked n = true then m.count else m.count + 1⟩

def markEntries (level : Level) (size : Nat) : Marking -> List (List Char) ->
    Except FilterError Marking
  | m, [] => .ok m
  | m, entry :: entries =>
    match markEntry level size m entry with
    | .error e => .error e
    | .ok m => markEntries level size m entries

def listEntries (text : List Char) : List (List Char) :=
  let start := text.dropWhile fun c => c ∈ ['[', ']', ',']
  match start.takeWhile fun c => c ∉ ['[', ']', ','] with
  | [] => []
  | first => first :: fields (fun c => c ∈ [',', ']'])
      ((start.dropWhile fun c => c ∉ ['[', ']', ',']).drop 1)

/-- What one level does with its token at a place of the machine: the four parts of
`parse_cpu_filter` between the loops.  There is no token if the filter has too few. -/
def markToken (level : Level) (token : Option (List Char)) (size : Nat)
    (marked : Nat -> Bool) : Except FilterError Marking :=
  match token with
  | none => .error .fault
  | some text =>
    if text.head? = some '*' then .ok ⟨fun i => marked i || decide (i < size), size⟩
    else if '[' ∈ text then
      match listEntries text with
      | [] => .error .failure
      | entries =>
        -- `ptr[16]` has room for the end as well
        if 16 ≤ entries.length then .error .fault
        else markEntries level size ⟨marked, 0⟩ entries
    else
      match afterPercent text with
      | some num =>
        -- the cores' percentage is not cut to an `int`
        markPercent size (if level = .core then (Gr64.strtol num).1 else atoi num) marked
      | none =>
        match readNumber size text with
        | .error e => .error e
        | .ok n => .ok ⟨fun i => marked i || decide (i = n), 1⟩

/-! ## The tree -/

structure PlaceInfo where
  marked : Bool
  count : Nat
  deriving DecidableEq

abbrev FilterTree : Type :=
  PathTree PlaceInfo

namespace FilterTree

def blank : FilterTree :=
  fun _ => ⟨false, 0⟩

def kids (t : FilterTree) : Nat -> Bool :=
  fun i => (t [i]).marked

def setKids (t : FilterTree) (m : Marking) : FilterTree
  | [] => ⟨(t []).marked, m.count⟩
  | [i] => ⟨m.marked i, (t [i]).count⟩
  | path => t path

def marks : FilterTree -> List Nat -> Bool
  | _, [] => true
  | t, i :: path => (t [i]).marked && marks (t.sub i) path

end FilterTree

/-- One filter at a place and below: the token of the level, then the loop over the marked
places of that level whose own count is not complete.  There is nothing below a thread. -/
def parseLevels : List (Level × Option (List Char)) -> PathTree Nat -> FilterTree ->
    Except FilterError FilterTree
  | [], _, t => .ok t
  | (level, token) :: rest, size, t =>
    match markToken level token (size []) t.kids with
    | .error e => .error e
    | .ok m =>
      (t.setKids m).eachM (fun i below =>
        if (below []).marked = false ∨ (below []).count = size [i] then .ok below
        else parseLevels rest (size.sub i) below) (range level.limit)

def parseFilter (size : PathTree Nat) (t : FilterTree) (filter : List Char) :
    Except FilterError FilterTree :=
  if 'N' ∉ filter ∨ 'P' ∉ filter ∨ 'C' ∉ filter ∨ 'T' ∉ filter then .error .failure
  else
    match fields (fun c => c ∈ ['N', 'P', 'C', 'T']) filter with
    | [] => .error .failure
    | tokens =>
      -- `chr_ptr[filt_idx][8]` has room for the end as well
      if 8 ≤ tokens.length then .error .fault
      else
        parseLevels [(.node, tokens[0]?), (.chip, tokens[1]?), (.core, tokens[2]?),
          (.thread, tokens[3]?)] size t

def parseCpuFilter (size : PathTree Nat) : FilterTree -> List (List Char) ->
    Except FilterError FilterTree
  | t, [] => .ok t
  | t, filter :: filters =>
    match parseFilter size t filter with
    | .error e => .error e
    | .ok t => parseCpuFilter size t filters

end Htx.Hxemem64
