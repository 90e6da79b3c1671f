import Htx.Hxecom.CountedOnce

/-!
# Statistics of a run of reads

`LSTATS` has the counts of every stanza.  Byte counts are kept in two words, the second of
which holds less than 1000000000.
-/

namespace Htx.Hxecom

open List Tally Round UInt64 Library

/-!
# Two words
-/

structure TwoWords where
  rw1 : UInt64
  rw2 : UInt64
  deriving DecidableEq

namespace TwoWords

def addw (w : TwoWords) (num : Int) : TwoWords :=
  let lsw := w.rw2 + ofInt num
  if 999999999 < lsw then ⟨w.rw1 + 1, lsw - 1000000000⟩ else ⟨w.rw1, lsw⟩

def value (w : TwoWords) : Nat :=
  w.rw1.toNat * 1000000000 + w.rw2.toNat

def limit : Nat :=
  2 ^ 64 * 1000000000

theorem value_addw {w : TwoWords} {num : Int} (hlow : w.rw2.toNat < 1000000000)
    (hnum : 0 ≤ num) (hle : num ≤ 1000000000) (hlimit : (w.value : Int) + num < limit) :
    ((w.addw num).value : Int) = w.value + num ∧ (w.addw num).rw2.toNat < 1000000000 := by
  rcases Int.eq_ofNat_of_zero_le hnum with ⟨n, rfl⟩
  have hsum : (w.rw2 + ofInt n).toNat = w.rw2.toNat + n := by
    have hn : (ofInt n).toNat = n := by
      unfold ofInt
      rw [toNat_ofNat']
      omega
    rw [UInt64.toNat_add, hn]
    omega
  unfold value limit at hlimit
  unfold addw value
  dsimp only
  split
  · rename_i hover
    rw [lt_iff_toNat_lt, hsum] at hover
    have hover : 999999999 < w.rw2.toNat + n := hover
    have hhigh : (w.rw1 + 1).toNat = w.rw1.toNat + 1 := by
      rw [UInt64.toNat_add]
      have hone : (1 : UInt64).toNat = 1 := rfl
      omega
    have hsub : (w.rw2 + ofInt n - 1000000000).toNat = w.rw2.toNat + n - 1000000000 := by
      rw [UInt64.toNat_sub_of_le, hsum]
      · rfl
      · rw [le_iff_toNat_le, hsum]
        exact hover
    rw [hhigh, hsub]
    omega
  · rename_i hunder
    rw [lt_iff_toNat_lt, hsum] at hunder
    have hunder : ¬ 999999999 < w.rw2.toNat + n := hunder
    dsimp only
    rw [hsum]
    omega

theorem value_foldl_addw {nums : List Int} {w : TwoWords} (hlow : w.rw2.toNat < 1000000000)
    (hnums : forall n, n ∈ nums -> 0 ≤ n ∧ n ≤ 1000000000)
    (hlimit : (w.value : Int) + nums.sum < limit) :
    ((nums.foldl addw w).value : Int) = w.value + nums.sum := by
  induction nums generalizing w with
  | nil => simp
  | cons n nums ih =>
    rw [sum_cons] at hlimit ⊢
    have hn := hnums n mem_cons_self
    have hrest : 0 ≤ nums.sum := sum_nonneg fun m hm => (hnums m (mem_cons_of_mem n hm)).1
    have hadd := value_addw hlow hn.1 hn.2 (by omega)
    rw [foldl_cons, ih hadd.2 (fun m hm => hnums m (mem_cons_of_mem n hm)) (by omega)]
    omega

end TwoWords

/-!
# Statistics of a stanza
-/

structure StatRw where
  badOthers : UInt32
  badRw : UInt32
  badBytes : TwoWords
  goodBytes : TwoWords
  goodOthers : UInt32
  goodRw : UInt32
  deriving DecidableEq

structure CumRw where
  totals : StatRw
  current : StatRw
  deriving DecidableEq

def StatRw.zero : StatRw :=
  ⟨0, 0, ⟨0, 0⟩, ⟨0, 0⟩, 0, 0⟩

def StatRw.count (s : StatRw) : Tally -> StatRw
  | .good bytes => { s with goodRw := s.goodRw + 1, goodBytes := s.goodBytes.addw bytes }
  | .badRead bytes => { s with badRw := s.badRw + 1, badBytes := s.badBytes.addw bytes }
  | .goodOther => { s with goodOthers := s.goodOthers + 1 }
  | .badOther => { s with badOthers := s.badOthers + 1 }

def CumRw.after (s : CumRw) : ReadEvent -> CumRw
  | .rwMsg _ => { s with current := .zero }
  | .hxfmsg _ => s
  | .tally t => ⟨s.totals.count t, s.current.count t⟩

def lstats (events : List (Nat × ReadEvent)) (stanza : Nat) : CumRw :=
  events.foldl (fun s e => if e.1 = stanza then s.after e.2 else s) ⟨.zero, .zero⟩

def counted (kind : Tally -> Option Int) (events : List (Nat × ReadEvent)) (stanza : Nat) :
    List Int :=
  events.filterMap fun e =>
    match e.2 with
    | .tally t => if e.1 = stanza then kind t else none
    | .rwMsg _ => none
    | .hxfmsg _ => none

def Tally.goodCount : Tally -> Option Int
  | .good bytes => some bytes
  | .badRead _ | .goodOther | .badOther => none

def Tally.badCount : Tally -> Option Int
  | .badRead bytes => some bytes
  | .good _ | .goodOther | .badOther => none

open TwoWords

structure ExactTotals (events : List (Nat × ReadEvent)) (stanza : Nat) : Prop where
  good : (counted goodCount events stanza).sum < limit ->
    ((lstats events stanza).totals.goodBytes.value : Int) =
      (counted goodCount events stanza).sum
  bad : (counted badCount events stanza).sum < limit ->
    ((lstats events stanza).totals.badBytes.value : Int) =
      (counted badCount events stanza).sum

theorem lstats_bytes (events : List (Nat × ReadEvent)) (stanza : Nat) :
    (lstats events stanza).totals.goodBytes =
        (counted goodCount events stanza).foldl addw ⟨0, 0⟩ ∧
      (lstats events stanza).totals.badBytes =
        (counted badCount events stanza).foldl addw ⟨0, 0⟩ := by
  have hfold : forall (events : List (Nat × ReadEvent)) (s : CumRw),
      (events.foldl (fun s e => if e.1 = stanza then s.after e.2 else s) s).totals.goodBytes =
          (counted goodCount events stanza).foldl addw s.totals.goodBytes ∧
        (events.foldl (fun s e => if e.1 = stanza then s.after e.2 else s) s).totals.badBytes =
          (counted badCount events stanza).foldl addw s.totals.badBytes := by
    intro events
    induction events with
    | nil =>
      intro s
      exact ⟨rfl, rfl⟩
    | cons e events ih =>
      intro s
      rcases e with ⟨k, e⟩
      rw [foldl_cons, (ih _).1, (ih _).2]
      by_cases hk : k = stanza
      · rcases e with m | m | t
        · simp [counted, hk, CumRw.after]
        · simp [counted, hk, CumRw.after]
        · cases t <;>
            simp [counted, hk, CumRw.after, StatRw.count, goodCount, badCount]
      · rcases e with m | m | t <;> simp [counted, hk]
  exact hfold events _

theorem exactTotals_of_bounded {events : List (Nat × ReadEvent)} (stanza : Nat)
    (hgood : forall n, n ∈ counted goodCount events stanza -> 0 ≤ n ∧ n ≤ 1000000000)
    (hbad : forall n, n ∈ counted badCount events stanza -> 0 ≤ n ∧ n ≤ 1000000000) :
    ExactTotals events stanza := by
  have hbytes := lstats_bytes events stanza
  constructor
  · intro hlimit
    rw [hbytes.1, value_foldl_addw (by decide) hgood (by simpa [value])]
    simp [value]
  · intro hlimit
    rw [hbytes.2, value_foldl_addw (by decide) hbad (by simpa [value])]
    simp [value]

/-!
# Runs of reads
-/

def Setup.packetOf (setup : Setup) (st : ReaderState) : Option (Stanza × Nat) :=
  match setup.rules[st.cursor.stanza]? with
  | none => none
  | some r => (setup.bsize r st.cursor).map fun bsize => (r, bsize)

def Setup.output (setup : Setup) : ReaderState -> List ReadOutcome -> List (Nat × ReadEvent)
  | _, [] => []
  | st, o :: rest =>
    match setup.packetOf st with
    | none => []
    | some (r, bsize) =>
      let t := readRound setup r bsize st o
      t.output.map (fun e => (st.cursor.stanza, e)) ++
        match t.result with
        | none => []
        | some st' => setup.output st' rest

def Setup.EveryRead (setup : Setup) (P : Stanza -> Nat -> ReaderState -> ReadOutcome -> Prop) :
    ReaderState -> List ReadOutcome -> Prop
  | _, [] => True
  | st, o :: rest =>
    forall p, p ∈ setup.packetOf st -> P p.1 p.2 st o ∧
      forall st', st' ∈ (readRound setup p.1 p.2 st o).result -> setup.EveryRead P st' rest

instance decidableEveryRead (setup : Setup)
    (P : Stanza -> Nat -> ReaderState -> ReadOutcome -> Prop)
    [forall r bsize st o, Decidable (P r bsize st o)] :
    (st : ReaderState) -> (reads : List ReadOutcome) -> Decidable (setup.EveryRead P st reads)
  | _, [] => isTrue trivial
  | st, o :: rest =>
    have := fun st' => decidableEveryRead setup P st' rest
    inferInstanceAs (Decidable (forall p, p ∈ setup.packetOf st -> P p.1 p.2 st o ∧
      forall st', st' ∈ (readRound setup p.1 p.2 st o).result -> setup.EveryRead P st' rest))

variable {o : ReadOutcome}

theorem everyRead_cons {setup : Setup}
    {P : Stanza -> Nat -> ReaderState -> ReadOutcome -> Prop} {st : ReaderState}
    {rest : List ReadOutcome} {r : Stanza} {bsize : Nat}
    (hpacket : setup.packetOf st = some (r, bsize)) :
    setup.EveryRead P st (o :: rest) <-> P r bsize st o ∧
      forall st', (readRound setup r bsize st o).result = some st' ->
        setup.EveryRead P st' rest := by
  simp only [Setup.EveryRead, hpacket, Option.mem_def, Option.some_inj, forall_eq']

structure ReaderState.Initial (st : ReaderState) : Prop where
  cursor : st.cursor = Cursor.start
  pak : st.pak = -1
  timestamp : st.timestamp = 0
  consecErrCnt : st.consecErrCnt = 0
  peer : st.peer.pid = 0

def ReadOutcome.Possible (setup : Setup) : ReadOutcome -> Prop
  | .data bytes _ => 0 < bytes.length ∧ bytes.length ≤ setup.bufLen
  | .closed => True
  | .failed _ _ => True

section

variable {setup : Setup} {r : Stanza} {bsize : Nat} {st st' : ReaderState}

def Follows (setup : Setup) (st : ReaderState) (t : Round) : Prop :=
  forall st', t.result = some st' -> st'.peer = st.peer ∧
    (st'.cursor = st.cursor ∨ st'.cursor = st.cursor.next setup.rules)

theorem Follows.ready {t : Round} (h : Follows setup st t) (hready : st.Ready setup)
    (hst : t.result = some st') : st'.Ready setup := by
  rcases h st' hst with ⟨hpeer, hcursor⟩
  refine ⟨?_, hpeer ▸ hready.peer⟩
  rcases hcursor with hcursor | hcursor
  · exact hcursor ▸ hready.cursor
  · exact hcursor ▸ hready.cursor.next

theorem follows_exit (events : List ReadEvent) : Follows setup st (.exit events) := by
  intro st' h
  cases h

theorem follows_record {t : Round} (events : List ReadEvent) (h : Follows setup st t) :
    Follows setup st (.record events t) :=
  h

theorem follows_shutdownTest {flag : UInt16} {t : Round} (h : Follows setup st t) :
    Follows setup st (shutdownTest r flag t) := by
  unfold shutdownTest
  split
  · exact follows_exit _
  · exact h

variable {x : ReaderState}

theorem follows_again (hpeer : x.peer = st.peer) (hcursor : x.cursor = st.cursor) :
    Follows setup st x.again := by
  intro st' h
  cases h
  exact ⟨hpeer, .inl hcursor⟩

theorem follows_next (hpeer : x.peer = st.peer) (hcursor : x.cursor = st.cursor) :
    Follows setup st (x.next setup) := by
  intro st' h
  cases h
  exact ⟨hpeer, .inr (congrArg (Cursor.next setup.rules) hcursor)⟩

theorem follows_stopped {r : Stanza} : Follows setup st (shutdownTest r shForce .stop) :=
  follows_shutdownTest (follows_exit [])

theorem follows_readFailed (hpeer : x.peer = st.peer) (hcursor : x.cursor = st.cursor)
    (errno : Errno) (alarm : Bool) :
    Follows setup st (readFailed r x errno alarm) := by
  unfold readFailed
  dsimp only
  split_ifs
  · exact follows_exit _
  · exact follows_record _ follows_stopped
  · exact follows_record _ (follows_shutdownTest (follows_again hpeer hcursor))
  · exact follows_exit _
  · exact follows_exit _

theorem follows_wrongSequence {rc : Int} (rPak : Int) (hpeer : x.peer = st.peer)
    (hcursor : x.cursor = st.cursor) (hrc : rc ≠ pakLen bsize) :
    Follows setup st (wrongSequence setup r x bsize rc rPak) := by
  unfold wrongSequence
  split_ifs
  · exact follows_record _ (follows_shutdownTest (follows_again hpeer hcursor))
  · refine follows_record _ (follows_shutdownTest (follows_record _ ?_))
    rw [goodBytesRead, if_pos hrc]
    split
    · exact follows_exit _
    · exact follows_record _ follows_stopped
  · exact follows_record _ (follows_again hpeer hcursor)

theorem follows_shortRead {rc : Int} (errno : Errno) (hpeer : x.peer = st.peer)
    (hcursor : x.cursor = st.cursor) (hrc : rc ≠ pakLen bsize) :
    Follows setup st (shortRead setup r x bsize rc errno) := by
  unfold shortRead
  dsimp only
  split
  · exact follows_exit _
  · refine follows_record _ (follows_shutdownTest ?_)
    split_ifs
    · exact follows_next hpeer hcursor
    · exact follows_record _ (follows_shutdownTest (follows_record _ (follows_again hpeer hcursor)))
    · exact follows_record _ (follows_shutdownTest (follows_again hpeer hcursor))
    · exact follows_wrongSequence _ hpeer hcursor hrc
    · exact follows_next hpeer hcursor

theorem ready_of_clean (horder : setup.writerOrder = setup.readerOrder)
    (hsize : bsize ≤ patternMax setup.rules) (hready : st.Ready setup)
    (hclean : Clean setup r bsize st o)
    (hst : (readRound setup r bsize st o).result = some st') : st'.Ready setup := by
  cases o with
  | closed => cases hst
  | failed errno alarm =>
    have hfollows : Follows setup st (readRound setup r bsize st (.failed errno alarm)) := by
      exact follows_readFailed rfl rfl errno alarm
    exact hfollows.ready hready hst
  | data bytes errno =>
    by_cases hlen : bytes.length = pakLen bsize
    · have hbrought : bytes = expectedPacket setup r bsize st := by
        simpa only [Clean, if_pos hlen] using hclean
      have hcompared := compared_brought horder hsize hready hlen hbrought
      rw [readRound_whole errno hlen, hcompared.1, if_pos (by decide)] at hst
      cases hst
      exact ⟨hready.cursor.next, hcompared.2⟩
    · have hfollows : Follows setup st (readRound setup r bsize st (.data bytes errno)) := by
        have hrc : (bytes.length : Int) ≠ pakLen bsize := by exact_mod_cast hlen
        unfold readRound readData
        dsimp only
        rw [if_neg hlen]
        refine follows_shortRead errno ?_ ?_ hrc
        · rfl
        · rfl
      exact hfollows.ready hready hst

theorem packetOf_spec (hfits : setup.RandomFits) (hready : st.Ready setup) :
    exists r bsize, setup.packetOf st = some (r, bsize) ∧ r ∈ setup.rules ∧
      bsize ≤ patternMax setup.rules := by
  rcases hready.cursor with ⟨r, hr, _, hbcnt⟩
  have hmem := mem_of_getElem? hr
  rcases setup.bsize_le hfits hmem hbcnt with ⟨bsize, hbsize, hle⟩
  exact ⟨r, bsize, by simp [Setup.packetOf, hr, hbsize], hmem, hle⟩

theorem everyRead_lawful_iff (hfits : setup.RandomFits)
    (horder : setup.writerOrder = setup.readerOrder)
    (hcompare : forall r, r ∈ setup.rules -> r.noCompare = false) (reads : List ReadOutcome)
    (hready : st.Ready setup) :
    setup.EveryRead (Lawful setup) st reads <-> setup.EveryRead (Clean setup) st reads := by
  induction reads generalizing st with
  | nil => exact Iff.rfl
  | cons o rest ih =>
    rcases packetOf_spec hfits hready with ⟨r, bsize, hpacket, hmem, hsize⟩
    rw [everyRead_cons hpacket, everyRead_cons hpacket,
      lawful_iff_clean horder hsize hready (hcompare r hmem) o]
    refine and_congr_right fun hclean => forall₂_congr fun st' hst => ?_
    exact ih (ready_of_clean horder hsize hready hclean hst)

theorem tallies_readFailed {errno : Errno} {alarm : Bool} {t : Tally}
    (ht : t ∈ tallies (readFailed r st errno alarm).output) : t = .badOther := by
  have hforce : r.StopsOn shForce := .inr (by decide)
  unfold readFailed at ht
  dsimp only at ht
  rw [shutdownTest, if_pos hforce, shutdownTest] at ht
  split_ifs at ht
  · simpa [exit] using ht
  · simpa [exit, record] using ht
  · simpa [exit, record] using ht
  · simpa [record, ReaderState.again, Trace.done] using ht
  · simp [exit] at ht
  · simpa [exit] using ht

theorem lawful_bounded (hlaw : Lawful setup r bsize st o)
    (hpossible : o.Possible setup) {n : Int} {t : Tally}
    (ht : t ∈ tallies (readRound setup r bsize st o).output)
    (hn : t.goodCount = some n ∨ t.badCount = some n) : 0 ≤ n ∧ n ≤ setup.bufLen := by
  cases o with
  | closed =>
    have hother : t = .goodOther := by simpa [readRound, exit] using ht
    subst hother
    rcases hn with hn | hn <;> cases hn
  | failed errno alarm =>
    rw [tallies_readFailed ht] at hn
    rcases hn with hn | hn <;> cases hn
  | data bytes errno =>
    have hrc : n = (bytes.length : Int) := by
      by_cases hbrought : (ReadOutcome.data bytes errno).Brought (expectedPacket setup r bsize st)
      · rw [hlaw.1 hbrought, mem_singleton] at ht
        subst ht
        rcases hn with hn | hn <;> cases hn
        rfl
      · have hbad := hlaw.2 hbrought
        cases t with
        | good b => exact absurd ht (hbad.notGood b)
        | badRead b =>
          rcases hn with hn | hn <;> cases hn
          exact hbad.bytes n ht
        | goodOther | badOther => rcases hn with hn | hn <;> cases hn
    have hlen : bytes.length ≤ setup.bufLen := hpossible.2
    omega

theorem output_bounded {reads : List ReadOutcome} (hlaw : setup.EveryRead (Lawful setup) st reads)
    (hpossible : forall o, o ∈ reads -> o.Possible setup) {k : Nat} {t : Tally} {n : Int}
    (ht : (k, .tally t) ∈ setup.output st reads)
    (hn : t.goodCount = some n ∨ t.badCount = some n) : 0 ≤ n ∧ n ≤ setup.bufLen := by
  induction reads generalizing st with
  | nil => cases ht
  | cons o rest ih =>
    cases hpacket : setup.packetOf st with
    | none => simp [Setup.output, hpacket] at ht
    | some p =>
      rcases p with ⟨r, bsize⟩
      simp only [Setup.output, hpacket, mem_append, mem_map, Prod.mk.injEq] at ht
      rw [everyRead_cons hpacket] at hlaw
      rcases ht with ⟨e, he, _, rfl⟩ | ht
      · have htally : t ∈ tallies (readRound setup r bsize st o).output :=
          mem_filterMap.mpr ⟨_, he, rfl⟩
        exact lawful_bounded hlaw.1 (hpossible o mem_cons_self) htally hn
      · cases hst : (readRound setup r bsize st o).result with
        | none =>
          rw [hst] at ht
          cases ht
        | some st' =>
          rw [hst] at ht
          exact ih (hlaw.2 st' hst) (fun o' ho' => hpossible o' (mem_cons_of_mem o ho')) ht

theorem bufLen_le (setup : Setup) : setup.bufLen ≤ 1000000000 := by
  have hfold : forall (rules : List Stanza) (n : Nat), n < 2 ^ 16 ->
      (rules.map Stanza.bufmax).foldl max n < 2 ^ 16 := by
    intro rules
    induction rules with
    | nil =>
      intro n hn
      exact hn
    | cons r rules ih =>
      intro n hn
      exact ih _ (max_lt hn r.bufmax_lt)
  have hmax : patternMax setup.rules < 2 ^ 16 := hfold setup.rules 0 (by decide)
  simp only [Setup.bufLen, tpHdrLen, tpSeqLen]
  omega

theorem exactTotals_of_lawful {reads : List ReadOutcome}
    (hlaw : setup.EveryRead (Lawful setup) st reads)
    (hpossible : forall o, o ∈ reads -> o.Possible setup) {events : List (Nat × ReadEvent)}
    (hevents : events <+: setup.output st reads) (k : Nat) : ExactTotals events k := by
  have hbounded : forall kind : Tally -> Option Int,
      (forall t n, kind t = some n -> t.goodCount = some n ∨ t.badCount = some n) ->
      forall n, n ∈ counted kind events k -> 0 ≤ n ∧ n ≤ 1000000000 := by
    intro kind hkind n hn
    rcases mem_filterMap.mp hn with ⟨⟨k', e⟩, he, hcount⟩
    cases e with
    | rwMsg m | hxfmsg m => cases hcount
    | tally t =>
      have hcount : kind t = some n := by
        dsimp only at hcount
        split at hcount
        · exact hcount
        · cases hcount
      have hbytes := output_bounded hlaw hpossible (hevents.subset he) (hkind t n hcount)
      have hbuf := bufLen_le setup
      omega
  exact exactTotals_of_bounded k (hbounded _ fun t n => .inl) (hbounded _ fun t n => .inr)

end

/-- Every read of a run is counted by the rules exactly if every whole packet is the
writer's and no short read goes on to be counted again; and then the totals of every
stanza are exact at any time. -/
theorem counted_once_iff (setup : Setup) (hfits : setup.RandomFits)
    (horder : setup.writerOrder = setup.readerOrder)
    (hcompare : forall r, r ∈ setup.rules -> r.noCompare = false) (st : ReaderState)
    (hinit : st.Initial) (reads : List ReadOutcome)
    (hpossible : forall o, o ∈ reads -> o.Possible setup) :
    (setup.EveryRead (Lawful setup) st reads <-> setup.EveryRead (Clean setup) st reads) ∧
      (setup.EveryRead (Clean setup) st reads ->
        forall events, events <+: setup.output st reads -> forall k, ExactTotals events k) := by
  have hready : st.Ready setup := by
    refine ⟨?_, .inl hinit.peer⟩
    rw [hinit.cursor]
    exact valid_of_lt (length_pos_iff.mpr setup.nonempty)
  have hiff := everyRead_lawful_iff hfits horder hcompare reads hready
  refine ⟨hiff, ?_⟩
  intro hclean events hevents k
  exact exactTotals_of_lawful (hiff.mpr hclean) hpossible hevents k

/-!
# Reads of packets of one byte
-/

def readerStart : ReaderState where
  cursor := Cursor.start
  pak := -1
  timestamp := 0
  consecErrCnt := 0
  peer := ⟨0, emptyString⟩
  pattern := fun _ => 0
  rbuf := fun _ => 0

def firstPacket : List UInt8 :=
  replicate 10 0 ++ 7 :: replicate 10 0

theorem counted_once_after_interrupt : oneByteSetup.EveryRead (Lawful oneByteSetup) readerStart
        [.failed .eintr false, .data firstPacket (.other 0)] ∧
      tallies ((oneByteSetup.output readerStart
        [.failed .eintr false, .data firstPacket (.other 0)]).map Prod.snd) =
          [.badOther, .good 21] := by
  have hiff := (counted_once_iff oneByteSetup randomFits_oneByte rfl
    (by simp [oneByteSetup, oneByte]) readerStart ⟨rfl, rfl, rfl, rfl, rfl⟩
    [.failed .eintr false, .data firstPacket (.other 0)]
    (by
      intro o ho
      simp only [mem_cons, not_mem_nil, or_false] at ho
      rcases ho with rfl | rfl
      · trivial
      · exact ⟨by decide, by decide⟩)).1
  exact ⟨hiff.mpr (by decide +kernel), by decide +kernel⟩

def firstRound (bytes : List UInt8) : Round :=
  readRound oneByteSetup oneByte 1 readerStart (.data bytes (.other 0))

/-- A short read is counted three times, and a miscompare with -1 bytes, which leaves the
second word of the total far too large. -/
theorem reads_counted_wrong : (firstRound [0]).result.isSome = true ∧
      tallies (firstRound [0]).output = [.badRead 1, .badOther, .badOther] ∧
      (firstRound (replicate 21 9)).result.isSome = true ∧
      tallies (firstRound (replicate 21 9)).output = [.badRead (-1)] ∧
      (lstats (oneByteSetup.output readerStart [.data (replicate 21 9) (.other 0)])
        0).totals.badBytes = ⟨1, 18446744072709551615⟩ := by
  decide +kernel

end Htx.Hxecom
