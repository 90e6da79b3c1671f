import Htx.Hxestorage.DataBuffer
import Htx.Hxestorage.BlockPosition
import Htx.Library.Copies
import Htx.Library.HexText

/-!
# All patterns

`fill_pattern_details` prepares the pattern of a thread once, and `bld_buf` fills the
write buffer with it for every operation.
-/

namespace Htx.Hxestorage.Fill

open Library

/-!
# Pattern details
-/

def maxPatternLength : Nat := 32

inductive PatternError where
  | zeroLength
  | tooLong
  | notPowerOfTwo
  deriving DecidableEq

def PatternError.msg : PatternError -> String
  | zeroLength => "pattern can not be of zero length."
  | tooLong => "max. pattern size allowed is 16 bytes.\n"
  | notPowerOfTwo => "pattern's size should be power of 2 bytes\n"

structure ExplicitPattern where
  patternSize : Nat
  words : List Nat
  deriving DecidableEq

def groupAt (patternId : List Char) (j : Nat) : List Char :=
  (patternId.drop j).take 4

def groupLoop (patternId : List Char) (len : Nat) : Nat -> Nat -> List Nat
  | 0, _ => []
  | n + 1, j =>
    if j < len then
      strtoull16 (groupAt patternId j) % 2 ^ 16 :: groupLoop patternId len n (j + 4)
    else []

def fillExplicit (patternId : List Char) : Except PatternError ExplicitPattern :=
  let len := patternId.length - 2
  if len = 0 then .error .zeroLength
  else if maxPatternLength < len then .error .tooLong
  else if len &&& (len - 1) ≠ 0 then .error .notPowerOfTwo
  else .ok { patternSize := len / 2, words := groupLoop patternId len len 0 }

inductive Algorithm where
  | p3
  | p4
  | p5
  | p7
  | p8
  | p9
  | pA
  | other (c : Char)
  deriving DecidableEq

def Algorithm.char : Algorithm -> Char
  | p3 => '3'
  | p4 => '4'
  | p5 => '5'
  | p7 => '7'
  | p8 => '8'
  | p9 => '9'
  | pA => 'A'
  | other c => c

structure PatternState where
  andMask : BitVec 64
  orMask : BitVec 64
  randIndex : Nat
  beginDword : Nat
  trailingDword : Int
  deriving DecidableEq

def lineLength (align : Int) : Nat :=
  if 0 < align then align.toNat else 16

def PatternState.initial (lineLength : Nat) : PatternState where
  andMask := 1
  orMask := 0x8000000000000000
  randIndex := 0
  beginDword := 0
  trailingDword := (lineLength / 8 : Nat) - 1

structure PatternBuffer (maxLen blksize : Nat) where
  bytes : List UInt8
  length_eq : bytes.length = maxLen + blksize + 128

/-!
# Pattern generators
-/

def bufsize (blksize : Nat) : Int :=
  signed32 (u32 ((blksize : Int) - headerSize))

def pairLoop (second : Nat -> Nat) : Nat -> Int -> Nat -> Option (List Nat)
  | 0, _, _ => none
  | fuel + 1, j, i =>
    if j = 0 then some []
    else (pairLoop second fuel (j - 2) (i + 1)).map fun rest => i :: second i :: rest

def generatePattern3 (fuel : Nat) (bufsize : Int) (lbaLow16 : Nat) : Option (List Nat) :=
  pairLoop (fun i => lbaLow16 + (i - 1)) fuel (bufsize.tdiv 2) 1

def constantLoop : Nat -> Int -> Option (List Nat)
  | 0, _ => none
  | fuel + 1, i =>
    if i = 0 then some [] else (constantLoop fuel (i - 1)).map fun rest => 0xa5a5 :: rest

def generatePattern4 (fuel : Nat) (bufsize : Int) : Option (List Nat) :=
  constantLoop fuel (bufsize.tdiv 2)

def generatePattern5 (fuel : Nat) (bufsize : Int) : Option (List Nat) :=
  pairLoop (fun _ => 0xa5a5) fuel (bufsize.tdiv 2) 1

def line7 (b : UInt8) : Nat -> Int -> List UInt8 × Int
  | 0, n => ([], n)
  | k + 1, n =>
    if n = 0 then ([], 0)
    else (b :: (line7 b k (n - 1)).1, (line7 b k (n - 1)).2)

def generatePattern7 (lineLength : Nat) : Nat -> Int -> Option (List UInt8)
  | 0, _ => none
  | fuel + 1, n =>
    if n = 0 then some []
    else
      let ones := line7 0xff lineLength n
      let zeros := line7 0x00 lineLength ones.2
      (generatePattern7 lineLength fuel zeros.2).map fun rest => ones.1 ++ zeros.1 ++ rest

namespace PatternState

def moveOne (dwords : Nat) (s : PatternState) : PatternState :=
  if s.orMask >>> 1 = 0 then
    { s with orMask := 0x8000000000000000, beginDword := (s.beginDword + 1) % dwords }
  else { s with orMask := s.orMask >>> 1 }

def moveZero (dwords : Nat) (s : PatternState) : PatternState :=
  if s.andMask <<< 1 = 0 then
    { s with
      andMask := 1
      trailingDword :=
        if 0 < s.trailingDword then s.trailingDword - 1 else (dwords : Int) - 1 }
  else { s with andMask := s.andMask <<< 1 }

end PatternState

def line8 (dwords line : Nat) (s : PatternState) : Option (List (BitVec 64) × PatternState) :=
  if line % 2 = 0 then
    if s.beginDword < dwords then
      some ((List.replicate dwords 0).set s.beginDword s.orMask, s.moveOne dwords)
    else none
  else if 0 ≤ s.trailingDword ∧ s.trailingDword < dwords then
    some ((List.replicate dwords (BitVec.allOnes 64)).set s.trailingDword.toNat (~~~ s.andMask),
      s.moveZero dwords)
  else none

def lines8 (dwords : Nat) : Nat -> Nat -> PatternState -> Option (List (BitVec 64) × PatternState)
  | 0, _, s => some ([], s)
  | n + 1, line, s =>
    match line8 dwords line s with
    | none => none
    | some (first, s) =>
      (lines8 dwords n (line + 1) s).map fun r => (first ++ r.1, r.2)

def left8 (dwords : Nat) (s : PatternState) : Option (List (BitVec 64) × PatternState) :=
  if dwords = 0 then none
  else
    some ((List.replicate dwords 0).set (s.beginDword % dwords) s.orMask, s.moveOne dwords)

def dwordBytes (order : ByteOrder) (dwords : List (BitVec 64)) : List UInt8 :=
  dwords.flatMap fun d => order.encode 8 d.toNat

def generatePattern8 (order : ByteOrder) (lineLength : Nat) (bufsize : Int) (s : PatternState) :
    Option (List UInt8 × PatternState) :=
  if lineLength = 0 then none
  else if lineLength % 8 ≠ 0 then some ([], s)
  else
    match lines8 (lineLength / 8) (u32 bufsize / lineLength) 0 s with
    | none => none
    | some (dwords, s) =>
      if u32 bufsize % lineLength = 0 then some (dwordBytes order dwords, s)
      else
        (left8 (u32 bufsize % lineLength / 8) s).map fun r =>
          (dwordBytes order (dwords ++ r.1), r.2)

/-- `generate_pattern9` and `generate_patternA`.  For a whole line `nrand48_r` stores its result
through a null pointer and faults; without one, random numbers fill the rest. -/
def generateRandom (patternBuffer : List UInt8) (patternSize lineLength : Nat) (bufsize : Int)
    (s : PatternState) : Option (List UInt8 × PatternState) :=
  if lineLength = 0 then none
  else if lineLength % 8 ≠ 0 then some ([], s)
  else if u32 bufsize / lineLength ≠ 0 then none
  else if u32 bufsize % lineLength = 0 then some ([], s)
  else
    let size := 8 * (u32 bufsize % lineLength / 8)
    if s.randIndex + size < patternSize then
      some ((patternBuffer.drop s.randIndex).take size, { s with randIndex := s.randIndex + size })
    else some (patternBuffer.take size, { s with randIndex := 0 })

def generatePattern9 := generateRandom

def generatePatternA := generateRandom

/-!
# The write buffer
-/

structure FillEnv where
  order : ByteOrder
  blksize : Nat
  numSubBlksPsect : Int
  diskname : Vector UInt8 8

def numSubBlksPsect (uniquePattern : Bool) (blksize : Nat) : Int :=
  if uniquePattern then (blksize / 128 : Nat) - 1 else 0

inductive PatternKind where
  | builtin (algorithm : Algorithm)
  | explicit (p : ExplicitPattern)
  | library
  deriving DecidableEq

structure FillContext where
  kind : PatternKind
  blkno : Nat
  numBlks : Nat
  dlen : Nat
  lineLength : Nat
  patternBuffer : List UInt8
  patternSize : Nat
  state : PatternState

abbrev Headers := Nat -> Nat -> Vector UInt8 headerSize

section

variable (env : FillEnv) (ctx : FillContext) (headers : Headers)

def pattern (algorithm : Algorithm) (fuel lba : Nat) (s : PatternState) :
    Option (List UInt8 × PatternState) :=
  let size := bufsize env.blksize
  match algorithm with
  | .p3 => (generatePattern3 fuel size (lba % 2 ^ 16)).map fun ws => (wordBytes env.order ws, s)
  | .p4 => (generatePattern4 fuel size).map fun ws => (wordBytes env.order ws, s)
  | .p5 => (generatePattern5 fuel size).map fun ws => (wordBytes env.order ws, s)
  | .p7 => (generatePattern7 ctx.lineLength fuel size).map fun bs => (bs, s)
  | .p8 => generatePattern8 env.order ctx.lineLength size s
  | .p9 => generatePattern9 ctx.patternBuffer ctx.patternSize ctx.lineLength size s
  | .pA => generatePatternA ctx.patternBuffer ctx.patternSize ctx.lineLength size s
  | .other _ => some (List.replicate ctx.dlen 0x3f, s)

def advance (blksize : Nat) : Int :=
  2 * (bufsize blksize / 2)

def uniqueBytes (algorithm : Algorithm) (i lba : Nat) : List UInt8 :=
  env.order.encode 2 (u32 ((algorithm.char.toNat : Int) - '0'.toNat)) ++
    env.order.encode 2 i ++ env.order.encode 4 (lba + i) ++ env.diskname.toList

def uniqueCopies (algorithm : Algorithm) (a : Int) (lba : Nat) : Nat -> Nat -> List Copy
  | 0, _ => []
  | j + 1, i => ⟨a, uniqueBytes env algorithm i lba⟩ :: uniqueCopies algorithm a lba j (i + 1)

def uniqueCount : Nat :=
  u32 ((env.blksize / (env.numSubBlksPsect + 1).toNat : Nat) - headerSize) / 16

/-- `for (i = 1, j = 0; j <= num_sub_blks_psect; i++, j++)`: the copies, where `wbuf` is behind
them, and the state of the pattern.  The inner loop of a unique pattern counts the same `j`
down to 0. -/
def sectorLoop (algorithm : Algorithm) (k lba : Nat) :
    Nat -> Nat -> Int -> Int -> PatternState -> Option (List Copy × Int × PatternState)
  | 0, _, _, _, _ => none
  | fuel + 1, i, j, a, s =>
    if j ≤ env.numSubBlksPsect then
      let header : Copy := ⟨a, (headers k lba).toList⟩
      let a := a + headerSize
      if env.numSubBlksPsect ≠ 0 then
        let count := uniqueCount env
        (sectorLoop algorithm k lba fuel (i + count + 1) (0 + 1) a s).map fun r =>
          (header :: uniqueCopies env algorithm a lba count i ++ r.1, r.2)
      else
        match pattern env ctx algorithm fuel lba s with
        | none => none
        | some (bytes, s) =>
          (sectorLoop algorithm k lba fuel (i + 1) (j + 1) (a + advance env.blksize) s).map
            fun r => (header :: ⟨a, bytes⟩ :: r.1, r.2)
    else some ([], a, s)

def builtinLoop (algorithm : Algorithm) (fuel : Nat) :
    Nat -> Nat -> Nat -> Int -> PatternState -> Option (List Copy × PatternState)
  | 0, _, _, _, s => some ([], s)
  | n + 1, k, lba, a, s =>
    match sectorLoop env ctx headers algorithm k lba fuel 1 0 a s with
    | none => none
    | some (copies, a, s) =>
      (builtinLoop algorithm fuel n (k + 1) (lba + 1) a s).map fun r =>
        (copies ++ r.1, r.2)

def repeatLoop (p : ExplicitPattern) : Nat -> Int -> Option (List Nat)
  | 0, _ => none
  | fuel + 1, j =>
    if j = 0 then some []
    else
      (repeatLoop p fuel (j - p.patternSize)).map fun rest =>
        p.words.take (p.patternSize / 2) ++ rest

def explicitLoop (p : ExplicitPattern) (fuel : Nat) : Nat -> Option (List (List UInt8))
  | 0 => some []
  | n + 1 =>
    match repeatLoop p fuel env.blksize with
    | none => none
    | some words =>
      (explicitLoop p fuel n).map fun rest => wordBytes env.order words :: rest

def bldBuf (fuel : Nat) : Option (List Copy × PatternState) :=
  match ctx.kind with
  | .builtin algorithm =>
    builtinLoop env ctx headers algorithm fuel ctx.numBlks 0 ctx.blkno 0 ctx.state
  | .explicit p =>
    (explicitLoop env p fuel ctx.numBlks).map fun blocks =>
      (Copy.consecutive 0 blocks, ctx.state)
  | .library =>
    if ctx.dlen ≤ ctx.patternBuffer.length then
      some ([⟨0, ctx.patternBuffer.take ctx.dlen⟩], ctx.state)
    else none

end

end Htx.Hxestorage.Fill
