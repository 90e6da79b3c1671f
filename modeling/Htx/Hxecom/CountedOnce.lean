import Htx.Hxecom.InStep
import Htx.Hxecom.ReadCascade

/-!
# Every read is counted once

A round is lawful if it counts as the `Statistic rules` comment of `comread` says.
-/

namespace Htx.Hxecom

open List Round ReaderState Library Memory
open Htxd (atoi)

/-!
# The rules
-/

def tallies (events : List ReadEvent) : List Tally :=
  events.filterMap fun e =>
    match e with
    | .tally t => some t
    | .rwMsg _ => none
    | .hxfmsg _ => none

def HasMessage (events : List ReadEvent) : Prop :=
  exists m, .rwMsg m ∈ events ∨ .hxfmsg m ∈ events

def ReadOutcome.rc : ReadOutcome -> Int
  | .data bytes _ => bytes.length
  | .closed => 0
  | .failed _ _ => -1

def expectedPacket (setup : Setup) (r : Stanza) (bsize : Nat) (st : ReaderState) : List UInt8 :=
  (writerPacket setup.writerOrder setup.writerPATTERN setup.id r bsize (nextPak st.pak)
    st.timestamp fun _ => 0).bytes 0 (pakLen bsize)

def ReadOutcome.Brought (packet : List UInt8) : ReadOutcome -> Prop
  | .data bytes _ => bytes = packet
  | .closed => False
  | .failed _ _ => False

/-- A read that did not bring the packet is not counted as good; if the reader goes on, it has
been reported, and counted as one bad read or other-error with the bytes that were read. -/
structure CountedBad (rc : Int) (t : Round) : Prop where
  notGood : forall b, .good b ∉ tallies t.output
  once : t.result.isSome -> HasMessage t.output ∧
    (tallies t.output = [.badRead rc] ∨ tallies t.output = [.badOther])
  bytes : forall b, .badRead b ∈ tallies t.output -> b = rc

def Lawful (setup : Setup) (r : Stanza) (bsize : Nat) (st : ReaderState) (o : ReadOutcome) :
    Prop :=
  (o.Brought (expectedPacket setup r bsize st) ->
    tallies (readRound setup r bsize st o).output = [.good o.rc]) ∧
  (¬ o.Brought (expectedPacket setup r bsize st) -> CountedBad o.rc (readRound setup r bsize st o))

/-!
# Which rounds keep to them
-/

def received (bsize : Nat) (st : ReaderState) (bytes : List UInt8) : Memory :=
  (st.rbuf.put 0 (List.replicate (pakLen bsize) 75)).put 0 bytes

/-- A short read is counted once if the reader stops because of it, or if it passes for
the start of the expected packet.  Packets that seem to be missing always make it stop. -/
def ShortCounted (setup : Setup) (r : Stanza) (bsize : Nat) (st : ReaderState)
    (bytes : List UInt8) (errno : Errno) : Prop :=
  let rbuf := received bsize st bytes
  let rPak := atoi (rbuf.bytes 0 setup.bufLen)
  let pak := nextPak st.pak
  errno = .econnreset ∨ errno = .epipe ∨ r.StopsOn shPaklen ∨
    if headerCkFail rbuf then r.StopsOn shBadhdr
    else if st.timestamp ≠ rbuf tpTimePos then r.StopsOn shTimestamp
    else if rPak = pak then True
    else if Duplicate r pak rPak then r.StopsOn shDuppak
    else Dropped r pak rPak

instance (setup : Setup) (r : Stanza) (bsize : Nat) (st : ReaderState) (bytes : List UInt8)
    (errno : Errno) : Decidable (ShortCounted setup r bsize st bytes errno) := by
  unfold ShortCounted
  infer_instance

def Clean (setup : Setup) (r : Stanza) (bsize : Nat) (st : ReaderState) : ReadOutcome -> Prop
  | .data bytes errno =>
    if bytes.length = pakLen bsize then bytes = expectedPacket setup r bsize st
    else ShortCounted setup r bsize st bytes errno
  | .closed => True
  | .failed _ _ => True

instance (setup : Setup) (r : Stanza) (bsize : Nat) (st : ReaderState) (o : ReadOutcome) :
    Decidable (Clean setup r bsize st o) :=
  match o with
  | .data bytes errno =>
    inferInstanceAs (Decidable (if bytes.length = pakLen bsize then
      bytes = expectedPacket setup r bsize st else ShortCounted setup r bsize st bytes errno))
  | .closed | .failed _ _ => isTrue trivial

section

variable {setup : Setup} {r : Stanza} {bsize : Nat} {st : ReaderState} {rc : Int}

@[simp]
theorem tallies_nil : tallies [] = [] :=
  rfl

@[simp]
theorem tallies_rwMsg (m : Message) (events : List ReadEvent) :
    tallies (.rwMsg m :: events) = tallies events :=
  rfl

@[simp]
theorem tallies_hxfmsg (m : Message) (events : List ReadEvent) :
    tallies (.hxfmsg m :: events) = tallies events :=
  rfl

@[simp]
theorem tallies_tally (t : Tally) (events : List ReadEvent) :
    tallies (.tally t :: events) = t :: tallies events :=
  rfl

@[simp]
theorem tallies_append (events events' : List ReadEvent) :
    tallies (events ++ events') = tallies events ++ tallies events' :=
  filterMap_append

theorem hasMessage_rwMsg (m : Message) (events : List ReadEvent) :
    HasMessage (.rwMsg m :: events) :=
  ⟨m, .inl mem_cons_self⟩

variable {t : Round} {events : List ReadEvent}

theorem countedBad_of_exit (hexit : t.result = none)
    (hall : forall x, x ∈ tallies t.output -> x = .badRead rc ∨ x = .badOther ∨ x = .goodOther) :
    CountedBad rc t := by
  refine ⟨?_, ?_, ?_⟩
  · intro b hb
    rcases hall _ hb with h | h | h <;> cases h
  · intro hsome
    rw [hexit] at hsome
    cases hsome
  · intro b hb
    rcases hall _ hb with h | h | h <;> cases h
    rfl

theorem not_countedBad (x y : Tally) (rest : List Tally) (hgoes : t.result.isSome)
    (htwice : tallies t.output = x :: y :: rest) :
    ¬ CountedBad rc t := by
  intro h
  rcases (h.once hgoes).2 with h | h <;> rw [htwice] at h <;> cases h

theorem readFailed_countedBad (errno : Errno) (alarm : Bool) :
    CountedBad (-1) (readFailed r st errno alarm) := by
  unfold readFailed
  dsimp only
  split_ifs with hthree halarm heintr hquit
  · exact countedBad_of_exit rfl (by simp [exit])
  · have hforce : r.StopsOn shForce := .inr (by decide)
    rw [shutdownTest, if_pos hforce]
    exact countedBad_of_exit rfl (by simp [record, exit])
  · rw [shutdownTest]
    split
    · exact countedBad_of_exit rfl (by simp [record, exit])
    · exact ⟨by simp [record, again, Trace.done],
        fun _ => ⟨hasMessage_rwMsg _ _, .inr rfl⟩,
        by simp [record, again, Trace.done]⟩
  · exact countedBad_of_exit rfl (by simp [exit])
  · exact countedBad_of_exit rfl (by simp [exit])

theorem record_record (events events' : List ReadEvent) (t : Round) :
    record events (.record events' t) = .record (events ++ events') t := by
  simp [record]

theorem shutdownTest_iff {flag : UInt16}
    (hevents : forall x, x ∈ tallies events -> x = .badRead rc ∨ x = .badOther ∨ x = .goodOther) :
    CountedBad rc (.record events (shutdownTest r flag t)) <->
      r.StopsOn flag ∨ CountedBad rc (.record events t) := by
  by_cases hstop : r.StopsOn flag
  · rw [shutdownTest, if_pos hstop]
    refine iff_of_true (countedBad_of_exit rfl ?_) (.inl hstop)
    simpa [record, exit] using hevents
  · rw [shutdownTest, if_neg hstop, or_iff_right hstop]

theorem droppedPackets_countedBad {rPak : Int}
    (hevents : forall x, x ∈ tallies events -> x = .badRead rc ∨ x = .badOther ∨ x = .goodOther)
    (hrc : rc ≠ pakLen bsize) :
    CountedBad rc (.record events (droppedPackets setup r st bsize rc rPak)) := by
  have hforce : r.StopsOn shForce := .inr (by decide)
  have hmissing : forall n x,
      x ∈ tallies ((List.range n).map fun k => badBytesRead rc (if k = 0 then 2 else 1)) ->
        x = .badRead rc ∨ x = .badOther ∨ x = .goodOther := by
    intro n x hx
    simp only [tallies, filterMap_map, mem_filterMap, Function.comp_apply,
      badBytesRead, Option.some_inj] at hx
    rcases hx with ⟨k, _, rfl⟩
    split <;> simp
  unfold droppedPackets
  dsimp only
  rw [shutdownTest]
  split
  · exact countedBad_of_exit rfl (by simpa [record, exit] using hevents)
  · rw [shutdownTest, if_pos hforce, goodBytesRead, if_pos hrc]
    split
    all_goals
      refine countedBad_of_exit rfl ?_
      simp only [record, exit, tallies_append, tallies_rwMsg, tallies_hxfmsg,
        tallies_nil, append_nil, nil_append, mem_append]
      rintro x (hx | hx)
      · exact hevents x hx
      · exact hmissing _ x hx

def firstCount (rc : Int) (m : Message) : List ReadEvent :=
  [.rwMsg m, badBytesRead rc 1]

theorem tallies_firstCount (m : Message) : tallies (firstCount rc m) = [.badRead rc] :=
  rfl

theorem countedBad_once (m : Message) (st' : ReaderState) :
    CountedBad rc (.record (firstCount rc m) (.done st')) := by
  refine ⟨?_, fun _ => ⟨hasMessage_rwMsg _ _, .inl rfl⟩, ?_⟩
  · simp [record, Trace.done, tallies_firstCount]
  · simp [record, Trace.done, tallies_firstCount]

theorem countedAgain_iff {flag : UInt16} {m : Message}
    (hevents : forall x, x ∈ tallies events -> x = .badOther) (hagain : tallies events ≠ [])
    (hgoes : t.result.isSome) :
    CountedBad rc (.record (firstCount rc m) (.record events (shutdownTest r flag t))) <->
      r.StopsOn flag := by
  rw [record_record, shutdownTest_iff]
  · apply or_iff_left
    rcases exists_cons_of_ne_nil hagain with ⟨x, rest, hrest⟩
    refine not_countedBad (.badRead rc) x (rest ++ tallies t.output) hgoes ?_
    rw [record, tallies_append, tallies_append, tallies_firstCount, hrest]
    rfl
  · intro x hx
    rw [tallies_append, tallies_firstCount, mem_append, mem_singleton] at hx
    rcases hx with rfl | hx
    · exact .inl rfl
    · exact .inr (.inl (hevents x hx))

theorem badHeader_iff (m : Message) :
    CountedBad rc (.record (firstCount rc m) (badHeader r st rc)) <-> r.StopsOn shBadhdr :=
  countedAgain_iff (by simp [badBytesRead]) (by simp [badBytesRead]) rfl

theorem wrongTimestamp_iff (m m' : Message) :
    CountedBad rc (.record (firstCount rc m) (.record [.rwMsg m', badBytesRead rc 2]
        (shutdownTest r shTimestamp st.again))) <-> r.StopsOn shTimestamp :=
  countedAgain_iff (by simp [badBytesRead]) (by simp [badBytesRead]) rfl

theorem wrongSequence_iff (m : Message) (rPak : Int) (hrc : rc ≠ pakLen bsize) :
    CountedBad rc (.record (firstCount rc m) (wrongSequence setup r st bsize rc rPak)) <->
      if Duplicate r st.pak rPak then r.StopsOn shDuppak else Dropped r st.pak rPak := by
  unfold wrongSequence
  split
  · exact countedAgain_iff (by simp) (by simp) rfl
  · split
    · rename_i hdropped
      exact iff_of_true (droppedPackets_countedBad (by simp [tallies_firstCount]) hrc) hdropped
    · rename_i hdropped
      refine iff_of_false ?_ hdropped
      rw [record_record]
      exact not_countedBad (.badRead rc) .badOther [] rfl rfl

theorem shortRead_countedBad_iff {errno : Errno} (hcompare : r.noCompare = false)
    (hrc : rc ≠ pakLen bsize) :
    CountedBad rc (shortRead setup r st bsize rc errno) <->
      errno = .econnreset ∨ errno = .epipe ∨ r.StopsOn shPaklen ∨
        if headerCkFail st.rbuf then r.StopsOn shBadhdr
        else if st.timestamp ≠ st.rbuf tpTimePos then r.StopsOn shTimestamp
        else if atoi (st.rbuf.bytes 0 setup.bufLen) = st.pak then True
        else if Duplicate r st.pak (atoi (st.rbuf.bytes 0 setup.bufLen)) then
          r.StopsOn shDuppak
        else Dropped r st.pak (atoi (st.rbuf.bytes 0 setup.bufLen)) := by
  unfold shortRead
  dsimp only
  by_cases hdown : errno = .econnreset ∨ errno = .epipe
  · rw [if_pos hdown, ← or_assoc]
    exact iff_of_true (countedBad_of_exit rfl (by simp [exit])) (.inl hdown)
  · rw [if_neg hdown, ← or_assoc, or_iff_right hdown, hcompare,
      shutdownTest_iff (by simp [badBytesRead])]
    refine or_congr Iff.rfl ?_
    rw [if_neg Bool.false_ne_true]
    split
    · exact badHeader_iff _
    · split
      · exact wrongTimestamp_iff _ _
      · by_cases hseq : atoi (st.rbuf.bytes 0 setup.bufLen) = st.pak
        · rw [if_neg (not_not.mpr hseq), if_pos hseq]
          exact iff_of_true (countedBad_once _ _) trivial
        · rw [if_pos hseq, if_neg hseq]
          exact wrongSequence_iff _ _ hrc

theorem firstDifference_comm_iff {m m' : Memory} {n : Nat} :
    firstDifference m m' n = -1 <-> firstDifference m' m n = -1 := by
  rw [firstDifference_eq_iff, firstDifference_eq_iff]
  exact forall₂_congr fun i _ => eq_comm

theorem miscompared_not_countedBad (hrc : 0 ≤ rc)
    (hdiffer : firstDifference st.rbuf st.pattern (pakLen bsize) ≠ -1) :
    ¬ CountedBad rc (miscompared setup r st bsize) := by
  have hbuf : hxfcbuf st.pattern st.rbuf (pakLen bsize) = -1 :=
    if_neg fun h => hdiffer (firstDifference_comm_iff.mp h)
  intro h
  have hbytes := h.bytes (-1) (by simp [miscompared, record, badBytesRead, hbuf])
  omega

theorem doCompare_index {bufLen : Nat} {peer : Peer} {rbuf pattern : Memory}
    (hcompare : r.noCompare = false) :
    (doCompare r bufLen bsize peer rbuf pattern).index =
      firstDifference rbuf (doCompare r bufLen bsize peer rbuf pattern).pattern
        (pakLen bsize) := by
  unfold doCompare
  rw [hcompare, if_neg Bool.false_ne_true]
  split <;> rfl

theorem firstDifference_neg_iff {m m' : Memory} {n : Nat} :
    firstDifference m m' n < 0 <-> firstDifference m m' n = -1 := by
  unfold firstDifference
  split <;> omega

theorem received_eq_iff {bytes : List UInt8} {m : Memory} (hlen : bytes.length = pakLen bsize) :
    bytes = m.bytes 0 (pakLen bsize) <->
      forall i, i < pakLen bsize -> received bsize st bytes i = m i := by
  have hbytes : (received bsize st bytes).bytes 0 (pakLen bsize) = bytes := bytes_put_self hlen
  conv_lhs => rw [← hbytes, bytes_eq_iff]
  simp only [zero_add]

end

section

variable {setup : Setup} {r : Stanza} {bsize : Nat} {st : ReaderState}

structure ReaderState.Ready (setup : Setup) (st : ReaderState) : Prop where
  cursor : st.cursor.Valid setup.rules
  peer : st.peer.pid = 0 ∨ st.peer = setup.id.peer

def compared (setup : Setup) (r : Stanza) (bsize : Nat) (st : ReaderState)
    (bytes : List UInt8) : Compared :=
  doCompare r setup.bufLen bsize st.peer (received bsize st bytes)
    (st.expecting setup r bsize).pattern

def ReaderState.afterCompare (setup : Setup) (r : Stanza) (bsize : Nat) (st : ReaderState)
    (bytes : List UInt8) : ReaderState :=
  { st.expecting setup r bsize with
    rbuf := received bsize st bytes
    peer := (compared setup r bsize st bytes).peer
    pattern := (compared setup r bsize st bytes).pattern }

variable {bytes : List UInt8}

theorem readRound_whole (errno : Errno) (hlen : bytes.length = pakLen bsize) :
    readRound setup r bsize st (.data bytes errno) =
      if (compared setup r bsize st bytes).index < 0 then
        .record [.tally (.good bytes.length)]
          ({ st.afterCompare setup r bsize bytes with consecErrCnt := 0 }.next setup)
      else miscompared setup r (st.afterCompare setup r bsize bytes) bsize := by
  unfold readRound readData
  dsimp only
  rw [if_pos hlen, goodBytesRead, if_neg (not_not.mpr (congrArg Nat.cast hlen))]
  rfl

theorem not_brought_of_short (errno : Errno) (hlen : bytes.length ≠ pakLen bsize) :
    ¬ (ReadOutcome.data bytes errno).Brought (expectedPacket setup r bsize st) := by
  intro h
  apply hlen
  rw [show bytes = _ from h, expectedPacket, length_bytes]

variable (horder : setup.writerOrder = setup.readerOrder)
variable (hsize : bsize ≤ patternMax setup.rules) (hready : st.Ready setup)

include horder hsize hready

theorem compared_brought (hlen : bytes.length = pakLen bsize)
    (hbrought : bytes = expectedPacket setup r bsize st) :
    (compared setup r bsize st bytes).index = -1 ∧ ((compared setup r bsize st bytes).peer.pid = 0 ∨
        (compared setup r bsize st bytes).peer = setup.id.peer) := by
  have hsame : forall i, i < bsize -> setup.writerPATTERN i = setup.readerPATTERN i :=
    fun i hi => setup.samePattern i (by omega)
  have hfit : pakLen bsize ≤ setup.bufLen := Nat.add_le_add_right hsize _
  have hrbuf : forall i, i < pakLen bsize -> received bsize st bytes i =
      writerPacket setup.writerOrder setup.writerPATTERN setup.id r bsize (nextPak st.pak)
        st.timestamp (fun _ => 0) i :=
    (received_eq_iff hlen).mp hbrought
  refine ⟨?_, doCompare_peer hfit hrbuf hready.peer⟩
  unfold compared expecting
  rw [← horder]
  exact doCompare_packet hfit hrbuf hready.peer hsame

theorem lawful_whole_iff (hcompare : r.noCompare = false)
    (errno : Errno) (hlen : bytes.length = pakLen bsize) :
    Lawful setup r bsize st (.data bytes errno) <-> bytes = expectedPacket setup r bsize st := by
  unfold Lawful
  rw [readRound_whole errno hlen]
  constructor
  · rintro ⟨_, hbad⟩
    by_contra hother
    have hbad := hbad hother
    split at hbad
    · exact hbad.notGood bytes.length (by simp [record])
    · rename_i hindex
      refine miscompared_not_countedBad (Int.natCast_nonneg _) ?_ hbad
      intro hequal
      apply hindex
      unfold compared
      rw [doCompare_index hcompare]
      exact firstDifference_neg_iff.mpr hequal
  · intro hbrought
    refine ⟨fun _ => ?_, fun hother => absurd hbrought hother⟩
    rw [(compared_brought horder hsize hready hlen hbrought).1, if_pos (by decide)]
    rfl

theorem lawful_iff_clean (hcompare : r.noCompare = false) (o : ReadOutcome) :
    Lawful setup r bsize st o <-> Clean setup r bsize st o := by
  cases o with
  | closed =>
    refine iff_of_true ⟨False.elim, fun _ => countedBad_of_exit rfl ?_⟩ trivial
    simp [readRound, exit]
  | failed errno alarm =>
    exact iff_of_true ⟨False.elim, fun _ => readFailed_countedBad errno alarm⟩ trivial
  | data bytes errno =>
    by_cases hlen : bytes.length = pakLen bsize
    · simp only [Clean, if_pos hlen]
      exact lawful_whole_iff horder hsize hready hcompare errno hlen
    · have hnot : ¬ (ReadOutcome.data bytes errno).Brought (expectedPacket setup r bsize st) :=
        not_brought_of_short errno hlen
      simp only [Clean, if_neg hlen]
      have hround : readRound setup r bsize st (.data bytes errno) = shortRead setup r
            { st.expecting setup r bsize with rbuf := received bsize st bytes } bsize
            bytes.length errno := by
        unfold readRound readData
        dsimp only
        rw [if_neg hlen]
        rfl
      unfold Lawful
      rw [hround]
      dsimp only [ReadOutcome.rc]
      constructor
      · rintro ⟨_, hbad⟩
        exact (shortRead_countedBad_iff hcompare (by exact_mod_cast hlen)).mp (hbad hnot)
      · intro hshort
        exact ⟨fun h => absurd h hnot, fun _ =>
          (shortRead_countedBad_iff hcompare (by exact_mod_cast hlen)).mpr hshort⟩

end

end Htx.Hxecom
