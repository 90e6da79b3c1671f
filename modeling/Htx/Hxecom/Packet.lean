import Htx.Htxd.CommandFrame
import Htx.Library.Writes

/-!
# Test packets

`comwrite` and `comread` each keep a buffer in which they build every packet: the writer
to send it, the reader to compare what it receives.
-/

namespace Htx.Hxecom

open Library
open Htxd (atoi)

/-!
# Rules
-/

structure Stanza where
  numOper : Nat
  bufmin : Nat
  bufmax : Nat
  bufinc : Int
  debugPattern : Bool
  noCompare : Bool
  writeAhead : Nat
  shutdown : UInt16
  numOper_pos : 1 ≤ numOper
  numOper_lt : numOper < 2 ^ 16
  bufmin_pos : 1 ≤ bufmin
  bufmin_le : bufmin ≤ bufmax
  bufmax_lt : bufmax < 2 ^ 16
  bufinc_ge : -1 ≤ bufinc
  bufinc_lt : bufinc < 2 ^ 15
  bufinc_ne : bufmin < bufmax -> bufinc ≠ 0

def randomBufinc : Int := -1

def patternMax (rules : List Stanza) : Nat :=
  (rules.map Stanza.bufmax).foldl max 0

/-!
# Header and trailer
-/

def tpSeqLen : Nat := 8
def tpTimePos : Nat := tpSeqLen
def tpCksumPos : Nat := tpSeqLen + 1
def tpHdrLen : Nat := tpSeqLen + 2
def tpMaxSeqnos : Int := 0x7fffffffffffffff

def nextPak (pak : Int) : Int :=
  ((pak + 1).bmod (2 ^ 32)).tmod tpMaxSeqnos

def pakLen (bsize : Nat) : Nat :=
  bsize + 2 * tpHdrLen

def seqBytes (order : ByteOrder) (pak : Int) : List UInt8 :=
  order.encode tpSeqLen (pak % 2 ^ 64).toNat

def headerSum (m : Memory) : UInt8 :=
  m 0 + m 1 + m 2 + m 3 + m 4 + m 5 + m 6 + m 7 + m 8

def frameWrites (order : ByteOrder) (pattern : Memory) (bsize : Nat) (pak : Int)
    (timestamp : UInt8) : List Memory.Write :=
  let trailer := bsize + tpHdrLen
  [(tpHdrLen, pattern.bytes 0 bsize), (0, seqBytes order pak), (trailer, seqBytes order pak),
    (tpTimePos, [timestamp]), (trailer + tpTimePos, [timestamp])]

def cksumWrites (bsize : Nat) (m : Memory) : List Memory.Write :=
  [(tpCksumPos, [headerSum m]), (bsize + tpHdrLen + tpCksumPos, [headerSum m])]

def frame (order : ByteOrder) (pattern : Memory) (bsize : Nat) (pak : Int)
    (timestamp : UInt8) (m : Memory) : Memory :=
  let m := m.puts (frameWrites order pattern bsize pak timestamp)
  m.puts (cksumWrites bsize m)

/-!
# Debug blocks
-/

def Debugged (r : Stanza) (bsize : Nat) : Prop :=
  r.debugPattern = true ∧ 512 ≤ pakLen bsize

instance (r : Stanza) (bsize : Nat) : Decidable (Debugged r bsize) :=
  inferInstanceAs (Decidable (_ ∧ _))

def debugBlocks (bsize : Nat) : List Nat :=
  ((List.range (pakLen bsize / 128)).map fun k => 128 * (k + 1)).filter
    fun o => o + 128 < pakLen bsize

def digit (n : Int) : UInt8 :=
  UInt8.ofInt (n + 48)

def blkText (o : Int) : List UInt8 :=
  [digit (o.tdiv 10000), digit ((o.tdiv 1000).tmod 10), digit ((o.tdiv 100).tmod 10),
    digit ((o.tdiv 10).tmod 10), digit (o.tmod 10), 0]

def pidText (pid : Int) : List UInt8 :=
  [digit (pid.tdiv 100000000), digit ((pid.tdiv 10000000).tmod 10),
    digit ((pid.tdiv 1000000).tmod 10), digit ((pid.tdiv 100000).tmod 10),
    digit ((pid.tdiv 10000).tmod 10), digit ((pid.tdiv 1000).tmod 10),
    digit ((pid.tdiv 100).tmod 10), digit ((pid.tdiv 10).tmod 10), digit (pid.tmod 10), 0]

def seqWrites (order : ByteOrder) (pak : Int) (o : Nat) : List Memory.Write :=
  [(o, seqBytes order pak), (o + tpSeqLen, blkText o)]

def identWrites (dev : CString) (pid : Int) (o : Nat) : List Memory.Write :=
  let n := dev.chars.length
  [(o + 16, [1]), (o + 17, [0]), (o + 18, dev.chars ++ [0]), (o + 18 + n, [0, 0, 0, 0]),
    (o + 22 + n, pidText pid)]

/-!
# The two buffers
-/

structure WriterId where
  dev : CString
  pid : Nat
  dev_lt : dev.chars.length < 40
  pid_pos : 0 < pid
  pid_lt : pid < 10 ^ 9

def writerPacket (order : ByteOrder) (pattern : Memory) (id : WriterId) (r : Stanza)
    (bsize : Nat) (pak : Int) (timestamp : UInt8) (wbuf : Memory) : Memory :=
  let m := frame order pattern bsize pak timestamp wbuf
  if Debugged r bsize then
    m.puts ((debugBlocks bsize).flatMap fun o =>
      seqWrites order pak o ++ identWrites id.dev id.pid o)
  else m

def readerPattern (order : ByteOrder) (PATTERN : Memory) (r : Stanza) (bsize : Nat)
    (pak : Int) (timestamp : UInt8) (pattern : Memory) : Memory :=
  let m := frame order PATTERN bsize pak timestamp pattern
  if Debugged r bsize then m.puts ((debugBlocks bsize).flatMap (seqWrites order pak)) else m

structure Peer where
  pid : Int
  dev : CString
  deriving DecidableEq

def Peer.learn (bufLen : Nat) (rbuf : Memory) (peer : Peer) : Peer :=
  if peer.pid = 0 then
    let dev := CString.ofField (rbuf.bytes 146 (bufLen - 146))
    let a := 128 + 16 + 2 + dev.chars.length + 4
    ⟨atoi (rbuf.bytes a (bufLen - a)), dev⟩
  else peer

def firstDifference (rbuf pattern : Memory) (n : Nat) : Int :=
  match (List.range n).find? fun a => rbuf a != pattern a with
  | none => -1
  | some a => a

structure Compared where
  index : Int
  peer : Peer
  pattern : Memory

def doCompare (r : Stanza) (bufLen bsize : Nat) (peer : Peer) (rbuf pattern : Memory) :
    Compared :=
  if r.noCompare then ⟨-1, peer, pattern⟩
  else if Debugged r bsize then
    let peer := peer.learn bufLen rbuf
    let pattern := pattern.puts ((debugBlocks bsize).flatMap (identWrites peer.dev peer.pid))
    ⟨firstDifference rbuf pattern (pakLen bsize), peer, pattern⟩
  else ⟨firstDifference rbuf pattern (pakLen bsize), peer, pattern⟩

end Htx.Hxecom
