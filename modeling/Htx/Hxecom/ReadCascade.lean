import Htx.Hxecom.Link
import Htx.Library.Trace

/-!
# What the reader makes of a read

One round of the inner loop of `comread` over TCP, from the read on, while no termination
signal has come.  A round records messages and what it counts; it ends in the state for
the next round, or the process exits.
-/

namespace Htx.Hxecom

open Library
open Htxd (atoi)

/-!
# Counting
-/

/-- One call of `good_bytes_read`, of `bad_bytes_read` that counts a bad read, of
`good_other`, or of `bad_other` (or a `bad_bytes_read` that does the same). -/
inductive Tally where
  | good (bytes : Int)
  | badRead (bytes : Int)
  | goodOther
  | badOther
  deriving DecidableEq

inductive Errno where
  | eintr
  | econnreset
  | epipe
  | other (code : Nat)
  deriving DecidableEq

inductive Message where
  | socketClosed
  | notResponding (errno : Errno)
  | alarmExceeded (errno : Errno)
  | unknownInterrupt (errno : Errno)
  | writerQuit (errno : Errno)
  | readFailed (errno : Errno)
  | downMessage (errno : Errno) (rc : Int) (pakLen : Nat)
  | shortRead (rPak rc pak : Int) (pakLen : Nat) (errno : Errno)
  | headerError
  | headerMiscompare
  | resettingWriter (timestamp : UInt8) (pak : Int)
  | timestamp (read : UInt8) (rPak : Int) (expected : UInt8) (pak : Int)
  | outOfOrder (rPak pak : Int)
  | dropped (rPak pak : Int)
  | unknownPacket (rPak pak : Int) (timestamp : UInt8)
  | stanzaIncremented (rPak pak : Int)
  | miscompare (rPak : Int) (bsize pakLen : Nat)
  | sizesDiffer (rwSize : Nat) (bytes : Int)
  | shuttingDown (flag : UInt16)
  | exiting
  deriving DecidableEq

inductive ReadEvent where
  | rwMsg (m : Message)
  | hxfmsg (m : Message)
  | tally (t : Tally)
  deriving DecidableEq

def badBytesRead (bytes : Int) (badCnt : Int) : ReadEvent :=
  .tally (if badCnt = 1 then .badRead bytes else .badOther)

/-!
# States
-/

structure ReaderState where
  cursor : Cursor
  pak : Int
  timestamp : UInt8
  consecErrCnt : Nat
  peer : Peer
  pattern : Memory
  rbuf : Memory

/-- `data` are the bytes of a read that returned more than 0, with the `errno` it left;
`closed` is a read of 0 bytes; `alarm` is `rwParms->SigAlarmFlag`. -/
inductive ReadOutcome where
  | data (bytes : List UInt8) (errno : Errno)
  | closed
  | failed (errno : Errno) (alarm : Bool)
  deriving DecidableEq

abbrev Round :=
  Trace ReadEvent ReaderState

def Round.record (events : List ReadEvent) (t : Round) : Round :=
  ⟨events ++ t.output, t.result⟩

def Round.exit (events : List ReadEvent) : Round :=
  ⟨events, none⟩

def ReaderState.next (setup : Setup) (st : ReaderState) : Round :=
  .done { st with cursor := st.cursor.next setup.rules }

def ReaderState.again (st : ReaderState) : Round :=
  .done { st with pak := st.pak - 1 }

def shMiscompare : UInt16 := 0x0001
def shEintr : UInt16 := 0x0004
def shTimestamp : UInt16 := 0x0008
def shPaklen : UInt16 := 0x0010
def shDroppak : UInt16 := 0x0020
def shDuppak : UInt16 := 0x0040
def shBadhdr : UInt16 := 0x0100
def shForce : UInt16 := 0x0800

def Stanza.StopsOn (r : Stanza) (flag : UInt16) : Prop :=
  r.shutdown &&& flag ≠ 0 ∨ flag &&& shForce ≠ 0

instance (r : Stanza) (flag : UInt16) : Decidable (r.StopsOn flag) :=
  inferInstanceAs (Decidable (_ ∨ _))

def shutdownTest (r : Stanza) (flag : UInt16) (t : Round) : Round :=
  if r.StopsOn flag then .exit [.rwMsg (.shuttingDown flag), .hxfmsg .exiting] else t

def goodBytesRead (rwSize : Nat) (bytes : Int) (t : Round) : Round :=
  if bytes ≠ rwSize then .exit [.hxfmsg (.sizesDiffer rwSize bytes)]
  else .record [.tally (.good bytes)] t

/-!
# The cascade
-/

def readFailed (r : Stanza) (st : ReaderState) (errno : Errno) (alarm : Bool) : Round :=
  let st := { st with consecErrCnt := st.consecErrCnt + 1 }
  if st.consecErrCnt = 3 then
    .exit [.rwMsg (.notResponding errno), .tally .badOther, .hxfmsg .exiting]
  else if alarm then
    .record [.rwMsg (.alarmExceeded errno), .tally .badOther] (shutdownTest r shForce .stop)
  else if errno = .eintr then
    .record [.rwMsg (.unknownInterrupt errno), .tally .badOther] (shutdownTest r shEintr st.again)
  else if errno = .econnreset ∨ errno = .epipe then .exit [.hxfmsg (.writerQuit errno)]
  else .exit [.rwMsg (.readFailed errno), .tally .badOther, .hxfmsg .exiting]

def headerChar (b : UInt8) : Bool :=
  b = 45 ∨ b = 32 ∨ (48 ≤ b ∧ b ≤ 57)

def headerCkFail (rbuf : Memory) : Bool :=
  (List.range tpSeqLen).any (fun i => !headerChar (rbuf i)) || rbuf tpSeqLen != 0 ||
    headerSum rbuf != rbuf tpCksumPos

def badHeader (r : Stanza) (st : ReaderState) (rc : Int) : Round :=
  .record [.rwMsg .headerError, badBytesRead rc 2, .rwMsg .headerMiscompare]
    (shutdownTest r shBadhdr
      (.record [.rwMsg (.resettingWriter (st.timestamp + 1) st.pak), .tally .badOther]
        { st with timestamp := st.timestamp + 1 }.again))

def Duplicate (r : Stanza) (pak rPak : Int) : Prop :=
  pak + tpMaxSeqnos * (if pak < rPak then 1 else 0) - rPak ≤ r.writeAhead

instance (r : Stanza) (pak rPak : Int) : Decidable (Duplicate r pak rPak) :=
  inferInstanceAs (Decidable (_ ≤ _))

def Dropped (r : Stanza) (pak rPak : Int) : Prop :=
  rPak + tpMaxSeqnos * (if pak > rPak then 1 else 0) - pak ≤ r.writeAhead

instance (r : Stanza) (pak rPak : Int) : Decidable (Dropped r pak rPak) :=
  inferInstanceAs (Decidable (_ ≤ _))

section

variable (setup : Setup) (r : Stanza) (st : ReaderState) (bsize : Nat)

def droppedPackets (rc rPak : Int) : Round :=
  let delta := ((rPak + tpMaxSeqnos - st.pak).tmod tpMaxSeqnos).toNat
  let missing := (List.range delta).map fun k => badBytesRead rc (if k = 0 then 2 else 1)
  .record (.rwMsg (.dropped rPak st.pak) :: []) (shutdownTest r shDroppak
      (.record missing
        (if (r.numOper : Int) - st.cursor.i > delta then
          goodBytesRead (pakLen bsize) rc
            (ReaderState.next setup
              { st with
                cursor := { st.cursor with i := (st.cursor.i + delta) % r.numOper }
                pak := rPak })
        else
          .record [.rwMsg (.stanzaIncremented rPak st.pak)] (shutdownTest r shForce .stop))))

def wrongSequence (rc rPak : Int) : Round :=
  if Duplicate r st.pak rPak then
    .record [.rwMsg (.outOfOrder rPak st.pak), .tally .badOther] (shutdownTest r shDuppak st.again)
  else if Dropped r st.pak rPak then droppedPackets setup r st bsize rc rPak
  else
    .record
      [.rwMsg (.unknownPacket rPak st.pak (st.timestamp + 1)), .tally .badOther]
      { st with timestamp := st.timestamp + 1 }.again

/-- A read of some bytes, but not of a whole packet.  It is counted, and then goes on
through the tests for header, timestamp and sequence number. -/
def shortRead (rc : Int) (errno : Errno) : Round :=
  let rPak := atoi (st.rbuf.bytes 0 setup.bufLen)
  if errno = .econnreset ∨ errno = .epipe then
    .exit [.rwMsg (.downMessage errno rc (pakLen bsize))]
  else
    .record
      [.rwMsg (.shortRead rPak rc st.pak (pakLen bsize) errno), badBytesRead rc 1]
      (shutdownTest r shPaklen
        (if r.noCompare then st.next setup
        else
          let st := { st with consecErrCnt := 0 }
          if headerCkFail st.rbuf then badHeader r st rc
          else if st.timestamp ≠ st.rbuf tpTimePos then
            .record
              [.rwMsg (.timestamp (st.rbuf tpTimePos) rPak st.timestamp st.pak), badBytesRead rc 2]
              (shutdownTest r shTimestamp st.again)
          else if rPak ≠ st.pak then wrongSequence setup r st bsize rc rPak
          else st.next setup))

end

def hxfcbuf (wbuf rbuf : Memory) (len : Nat) : Int :=
  if firstDifference wbuf rbuf len = -1 then 0 else -1

section

variable (setup : Setup) (r : Stanza)

def miscompared (st : ReaderState) (bsize : Nat) : Round :=
  let rPak := atoi (st.rbuf.bytes 0 setup.bufLen)
  let rc := hxfcbuf st.pattern st.rbuf (pakLen bsize)
  .record [.rwMsg (.miscompare rPak bsize (pakLen bsize)), badBytesRead rc 1]
    (shutdownTest r shMiscompare ({ st with consecErrCnt := 0 }.next setup))

def readData (st : ReaderState) (bsize : Nat) (bytes : List UInt8) (errno : Errno) : Round :=
  let st := { st with rbuf := (st.rbuf.put 0 (List.replicate (pakLen bsize) 75)).put 0 bytes }
  if bytes.length = pakLen bsize then
    let c := doCompare r setup.bufLen bsize st.peer st.rbuf st.pattern
    let st := { st with peer := c.peer, pattern := c.pattern }
    if c.index < 0 then
      goodBytesRead (pakLen bsize) bytes.length ({ st with consecErrCnt := 0 }.next setup)
    else miscompared setup r st bsize
  else shortRead setup r st bsize bytes.length errno

def ReaderState.expecting (bsize : Nat) (st : ReaderState) : ReaderState :=
  { st with
    pak := nextPak st.pak
    pattern := readerPattern setup.readerOrder setup.readerPATTERN r bsize (nextPak st.pak)
      st.timestamp st.pattern }

def readRound (bsize : Nat) (st : ReaderState) (o : ReadOutcome) : Round :=
  let st := st.expecting setup r bsize
  match o with
  | .closed => .exit [.rwMsg .socketClosed, .tally .goodOther, .hxfmsg .exiting]
  | .failed errno alarm => readFailed r st errno alarm
  | .data bytes errno => readData setup r st bsize bytes errno

end

end Htx.Hxecom
