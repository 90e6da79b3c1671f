import Htx.Hxecom.Packet
import Htx.Library.EventSystem

/-!
# Writer, reader and the connection between them

Both loops go through the same stanzas for ever: `num_oper` packets of each size of a
stanza.
-/

namespace Htx.Hxecom

open Library

/-!
# Sizes
-/

def bcntMax (r : Stanza) : Nat :=
  let n :=
    if r.bufinc = 0 then 0
    else if 0 < r.bufinc then (r.bufmax - r.bufmin) / r.bufinc.toNat
    else 0
  if n = 0 then 1 else n

def pktBufmin (r : Stanza) : Nat :=
  if r.bufmax = r.bufmin then 10 else r.bufmin

/-- One of the sizes that `GetPktSizes` makes up for both sides from a value of `random`.
When the range is empty the remainder is by zero, and there is no answer. -/
def randomSize (r : Stanza) (value : Nat) : Option Nat :=
  let range : Int := r.bufmax - pktBufmin r
  if range = 0 then none else some ((pktBufmin r + (value : Int).tmod range) % 2 ^ 16).toNat

/-!
# The loops
-/

structure Cursor where
  pass : Nat
  stanza : Nat
  bcnt : Nat
  i : Nat
  deriving DecidableEq

def Cursor.start : Cursor :=
  ⟨0, 0, 0, 0⟩

def Cursor.next (rules : List Stanza) (c : Cursor) : Cursor :=
  match rules[c.stanza]? with
  | none => c
  | some r =>
    if c.i + 1 < r.numOper then { c with i := c.i + 1 }
    else if c.bcnt + 1 < bcntMax r then { c with bcnt := c.bcnt + 1, i := 0 }
    else if c.stanza + 1 < rules.length then ⟨c.pass, c.stanza + 1, 0, 0⟩
    else ⟨c.pass + 1, 0, 0, 0⟩

/-- What a run is given.  `PATTERN` holds as many bytes as the largest `bufmax`, and
these are the same on both sides; `random` gives the values from which the sizes of a
pass over a stanza come. -/
structure Setup where
  rules : List Stanza
  nonempty : rules ≠ []
  writerOrder : ByteOrder
  readerOrder : ByteOrder
  writerPATTERN : Memory
  readerPATTERN : Memory
  samePattern : forall i, i < patternMax rules -> writerPATTERN i = readerPATTERN i
  id : WriterId
  random : Nat -> Nat -> Nat -> Nat

def Setup.bsize (setup : Setup) (r : Stanza) (c : Cursor) : Option Nat :=
  if r.bufinc = randomBufinc then randomSize r (setup.random c.pass c.stanza c.i)
  else some (((r.bufmin : Int) + c.bcnt * r.bufinc) % 2 ^ 16).toNat

def Setup.bufLen (setup : Setup) : Nat :=
  patternMax setup.rules + 2 * tpHdrLen

/-!
# States
-/

structure Packet where
  cursor : Cursor
  bsize : Nat
  pak : Int
  deriving DecidableEq

structure Writer where
  cursor : Cursor
  pak : Int
  wbuf : Memory
  /-- What `send` has still to take of the packet. -/
  unsent : List UInt8
  written : List Packet

structure SRead where
  packet : Packet
  nbytes : Nat
  ptr : Nat
  nleft : Nat
  deriving DecidableEq

structure ReadResult where
  packet : Packet
  rc : Nat
  index : Int
  deriving DecidableEq

structure Reader where
  cursor : Cursor
  pak : Int
  pattern : Memory
  rbuf : Memory
  peer : Peer
  sread : Option SRead
  results : List ReadResult

structure LinkState where
  writer : Writer
  channel : List UInt8
  reader : Reader

/-!
# Events
-/

inductive LinkEvent where
  | build
  | send (n : Nat)
  | startRead
  | recv (n : Nat)
  | interrupt
  | compare
  deriving DecidableEq

def Writer.build (setup : Setup) (w : Writer) : Option Writer :=
  match setup.rules[w.cursor.stanza]? with
  | none => none
  | some r =>
    match setup.bsize r w.cursor with
    | none => none
    | some bsize =>
      let pak := nextPak w.pak
      let wbuf := writerPacket setup.writerOrder setup.writerPATTERN setup.id r bsize pak 0
        w.wbuf
      some
        { cursor := w.cursor.next setup.rules
          pak := pak
          wbuf := wbuf
          unsent := wbuf.bytes 0 (pakLen bsize)
          written := w.written ++ [⟨w.cursor, bsize, pak⟩] }

def Reader.startRead (setup : Setup) (rd : Reader) : Option Reader :=
  match setup.rules[rd.cursor.stanza]? with
  | none => none
  | some r =>
    match setup.bsize r rd.cursor with
    | none => none
    | some bsize =>
      let pak := nextPak rd.pak
      some
        { rd with
          cursor := rd.cursor.next setup.rules
          pak := pak
          pattern := readerPattern setup.readerOrder setup.readerPATTERN r bsize pak 0
            rd.pattern
          rbuf := rd.rbuf.put 0 (List.replicate (pakLen bsize) 75)
          sread := some ⟨⟨rd.cursor, bsize, pak⟩, pakLen bsize, 0, pakLen bsize⟩ }

def Reader.finish (setup : Setup) (rd : Reader) (sr : SRead) : Option Reader :=
  match setup.rules[sr.packet.cursor.stanza]? with
  | none => none
  | some r =>
    let rc := sr.nbytes - sr.nleft
    let c := doCompare r setup.bufLen sr.packet.bsize rd.peer rd.rbuf rd.pattern
    some
      { rd with
        pattern := c.pattern
        peer := c.peer
        sread := none
        results := rd.results ++ [⟨sr.packet, rc, c.index⟩] }

def LinkState.step (setup : Setup) (s : LinkState) : LinkEvent -> Option LinkState
  | .build =>
    if s.writer.unsent = [] then
      (s.writer.build setup).map fun w => { s with writer := w }
    else none
  | .send n =>
    if 0 < n ∧ n ≤ s.writer.unsent.length then
      some
        { s with
          writer := { s.writer with unsent := s.writer.unsent.drop n }
          channel := s.channel ++ s.writer.unsent.take n }
    else none
  | .startRead =>
    match s.reader.sread with
    | none => (s.reader.startRead setup).map fun rd => { s with reader := rd }
    | some _ => none
  | .recv n =>
    match s.reader.sread with
    | none => none
    | some sr =>
      if 0 < n ∧ n ≤ sr.nleft ∧ n ≤ s.channel.length then
        some
          { s with
            channel := s.channel.drop n
            reader :=
              { s.reader with
                rbuf := s.reader.rbuf.put sr.ptr (s.channel.take n)
                sread := some { sr with ptr := sr.ptr + n, nleft := sr.nleft - n } } }
      else none
  | .interrupt =>
    match s.reader.sread with
    | none => none
    | some sr =>
      if 0 < sr.nleft then
        some
          { s with
            reader :=
              { s.reader with
                sread := some
                  { sr with ptr := sr.ptr + sr.nleft - sr.nbytes, nleft := sr.nbytes } } }
      else none
  | .compare =>
    match s.reader.sread with
    | none => none
    | some sr =>
      if sr.nleft = 0 then
        (s.reader.finish setup sr).map fun rd => { s with reader := rd }
      else none

def LinkState.Initial (s : LinkState) : Prop :=
  s.writer.cursor = Cursor.start ∧ s.writer.pak = -1 ∧ s.writer.unsent = [] ∧
    s.writer.written = [] ∧ s.channel = [] ∧ s.reader.cursor = Cursor.start ∧
    s.reader.pak = -1 ∧ s.reader.peer.pid = 0 ∧ s.reader.sread = none ∧ s.reader.results = []

def link (setup : Setup) : EventSystem LinkState LinkEvent where
  Initial := LinkState.Initial
  step := LinkState.step setup

end Htx.Hxecom
