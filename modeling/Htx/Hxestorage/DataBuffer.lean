import Htx.Hxestorage.BlockHeader
import Htx.Hxestorage.StateTable

/-!
# Building buffers

`bld_buf` fills a buffer with blocks of test data: a header, and a pattern that
depends on the block number and on the alignment of the thread.
`update_header` refreshes the headers of a buffer that is written again.
-/

namespace Htx.Hxestorage

open Library

inductive Pattern where
  | p3
  | p4
  | p5
  | p7
  deriving DecidableEq

structure BufferEnv where
  order : ByteOrder
  blksize : Nat
  numSubBlks : Nat
  devName : Vector UInt8 devNameLen
  hostname : Vector UInt8 hostnameLen
  enableStateTable : Bool
  tblDevName : Vector UInt8 devNameLen
  tblHostname : Vector UInt8 hostnameLen
  tbl : StatusTable

structure BufferContext where
  id : Vector UInt8 stanzaIdLen
  pattern : Pattern
  align : Nat
  numWritesRemaining : Int
  blkno : Nat
  numBlks : Nat

def getBufAlignment (tctx : BufferContext) : BufferContext :=
  if 0 < tctx.align then tctx
  else
    match tctx.pattern with
    | .p7 => { tctx with align := 16 }
    | _ => tctx

/-!
# Patterns
-/

def wordPairs (second : Nat -> Nat) : Nat -> Nat -> List Nat
  | 0, _ => []
  | n + 1, i => i :: second i :: wordPairs second n (i + 1)

def pairLoop (second : Nat -> Nat) (bufsize : Nat) : Option (List Nat) :=
  if bufsize / 2 % 2 = 0 then some (wordPairs second (bufsize / 4) 1) else none

def generatePattern3 (bufsize lbaLow16 : Nat) : Option (List Nat) :=
  pairLoop (fun i => lbaLow16 + (i - 1)) bufsize

def generatePattern4 (bufsize : Nat) : List Nat :=
  List.replicate (bufsize / 2) 0xa5a5

def generatePattern5 (bufsize : Nat) : Option (List Nat) :=
  pairLoop (fun _ => 0xa5a5) bufsize

def lines (lineLength : Nat) : Nat -> Nat -> Bool -> List UInt8
  | 0, _, _ => []
  | n + 1, i, ones =>
    (if ones then 0xff else 0x00) ::
      if i + 1 < lineLength then lines lineLength n (i + 1) ones
      else lines lineLength n 0 (!ones)

def generatePattern7 (bufsize lineLength : Nat) : Option (List UInt8) :=
  if lineLength = 0 ∧ bufsize ≠ 0 then none else some (lines lineLength bufsize 0 true)

def wordBytes (order : ByteOrder) (words : List Nat) : List UInt8 :=
  words.flatMap (order.encode 2)

def patternBytes (env : BufferEnv) (tctx : BufferContext) (lba : Nat) : Option (List UInt8) :=
  let bufsize := env.blksize - headerSize
  match tctx.pattern with
  | .p3 => (generatePattern3 bufsize (lba % 2 ^ 16)).map (wordBytes env.order)
  | .p4 => some (wordBytes env.order (generatePattern4 bufsize))
  | .p5 => (generatePattern5 bufsize).map (wordBytes env.order)
  | .p7 => generatePattern7 bufsize tctx.align

/-!
# Headers
-/

def reservedBytes : List UInt8 :=
  [0x52, 0x45, 0x53, 0x45, 0x52, 0x56, 0x45, 0x44]

def updateChecksum (order : ByteOrder) (m : Memory) (a : Nat) : Memory :=
  let cksum := wordSum order m a (overhead - 1)
  m.store order (a + checksumPos) 2 ((-(cksum % 2 ^ 16 : Nat) : Int) % 2 ^ 16).toNat

def bldHeader (env : BufferEnv) (tctx : BufferContext) (writeStamp : UInt16) (lba : Nat)
    (curTime : UInt32) (m : Memory) (a : Nat) : Memory :=
  let order := env.order
  let devName := if env.enableStateTable then env.tblDevName else env.devName
  let hostname := if env.enableStateTable then env.tblHostname else env.hostname
  let stamp :=
    if env.enableStateTable then bldHeaderStamp env.tbl tctx.numWritesRemaining lba
    else writeStamp.toNat
  let m := m.store order (a + lbaPos) lbaLen lba
  let m := m.store order (a + timeStampPos) timeStampLen curTime.toNat
  let m := m.put (a + devNamePos) devName.toList
  let m := m.put (a + stanzaIdPos) tctx.id.toList
  let m := m.put (a + hostnamePos) hostname.toList
  let m := m.store order (a + writeStampPos) writeStampLen stamp
  let m := m.put (a + reservedBytesPos) reservedBytes
  let m := m.put (a + bufsigPos) bufsig
  updateChecksum order m a

def refreshHeader (order : ByteOrder) (writeStamp : UInt16) (curTime : UInt32) (m : Memory)
    (a : Nat) : Memory :=
  let m := m.store order (a + timeStampPos) timeStampLen curTime.toNat
  let m := m.store order (a + writeStampPos) writeStampLen writeStamp.toNat
  updateChecksum order m a

/-!
# Buffers
-/

def bldBlocks (env : BufferEnv) (tctx : BufferContext) (writeStamp : UInt16)
    (clock : Nat -> UInt32) (lba : Nat) : Nat -> Nat -> Memory -> Option Memory
  | 0, _, m => some m
  | n + 1, a, m =>
    match patternBytes env tctx lba with
    | none => none
    | some bytes =>
      let m := bldHeader env tctx writeStamp lba (clock 0) m a
      bldBlocks env tctx writeStamp (fun k => clock (k + 1)) (lba + 1) n
        (a + headerSize + (env.blksize - headerSize) / 2 * 2)
        (m.put (a + headerSize) bytes)

def bldBuf (env : BufferEnv) (tctx : BufferContext) (writeStamp : UInt16)
    (clock : Nat -> UInt32) (m : Memory) : Option Memory :=
  if env.numSubBlks = 0 ∨ tctx.numBlks = 0 then
    bldBlocks env tctx writeStamp clock tctx.blkno tctx.numBlks 0 m
  else none

def refreshHeaders (env : BufferEnv) (writeStamp : UInt16) (curTime : UInt32) :
    Nat -> Nat -> Memory -> Memory
  | 0, _, m => m
  | n + 1, a, m =>
    refreshHeaders env writeStamp curTime n (a + env.blksize / (env.numSubBlks + 1))
      (refreshHeader env.order writeStamp curTime m a)

def updateHeader (env : BufferEnv) (tctx : BufferContext) (writeStamp : UInt16)
    (curTime : UInt32) (m : Memory) : Memory :=
  if env.enableStateTable then m
  else
    refreshHeaders env writeStamp curTime (tctx.numBlks * (env.numSubBlks + 1)) 0 m

end Htx.Hxestorage
