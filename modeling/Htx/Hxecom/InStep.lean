import Htx.Hxecom.Link
import Htx.Hxecom.PacketImage

/-!
# Writer and reader stay in step

The packets of a run are numbered.
-/

namespace Htx.Hxecom

open List Option LinkState Setup Cursor Library Memory

/-!
# Sizes fit the pattern
-/

def Stanza.RandomFits (max : Nat) (r : Stanza) : Prop :=
  r.bufinc = randomBufinc -> r.bufmin = r.bufmax ->
    r.bufmax ≠ 10 ∧ (10 < r.bufmax ∨ 19 ≤ r.bufmax + max)

variable {rules : List Stanza} {r : Stanza}

theorem bufmax_le_patternMax (h : r ∈ rules) : r.bufmax ≤ patternMax rules := by
  have hle : forall (l : List Nat) (x a : Nat), a ≤ x ∨ a ∈ l -> a ≤ l.foldl max x := by
    intro l
    induction l with
    | nil =>
      intro x a ha
      simpa using ha
    | cons b l ih =>
      intro x a ha
      apply ih
      rcases ha with ha | ha
      · exact .inl (le_max_of_le_left ha)
      · rcases mem_cons.mp ha with rfl | ha
        · exact .inl (le_max_right x a)
        · exact .inr ha
  exact hle _ 0 _ (.inr (mem_map_of_mem h))

theorem bcntMax_pos (r : Stanza) : 0 < bcntMax r := by
  have hpos : forall n : Nat, 0 < if n = 0 then 1 else n := by
    intro n
    split <;> omega
  exact hpos _

theorem bcntMax_le {inc : Nat} (hinc : r.bufinc = inc) :
    bcntMax r ≤ max 1 ((r.bufmax - r.bufmin) / inc) := by
  unfold bcntMax
  rw [hinc, Int.toNat_natCast]
  dsimp only
  split_ifs <;> omega

theorem linear_size_le {bcnt : Nat} (hinc : r.bufinc ≠ randomBufinc) (hbcnt : bcnt < bcntMax r) :
    0 ≤ (r.bufmin : Int) + bcnt * r.bufinc ∧ (r.bufmin : Int) + bcnt * r.bufinc ≤ r.bufmax := by
  have hge := r.bufinc_ge
  have hle := r.bufmin_le
  have hnonneg : 0 ≤ r.bufinc := by
    rw [randomBufinc] at hinc
    omega
  rcases Int.eq_ofNat_of_zero_le hnonneg with ⟨inc, heq⟩
  have hmax := bcntMax_le heq
  have hdiv := Nat.div_mul_le_self (r.bufmax - r.bufmin) inc
  have hsteps : bcnt * inc ≤ r.bufmax - r.bufmin := by
    rcases Nat.eq_zero_or_pos bcnt with rfl | hpos
    · rw [Nat.zero_mul]
      exact Nat.zero_le _
    · exact (Nat.mul_le_mul_right inc (by omega)).trans hdiv
  have hcast : (bcnt : Int) * r.bufinc = ((bcnt * inc : Nat) : Int) := by
    rw [heq]
    push_cast
    rfl
  rw [hcast]
  omega

theorem tmod_bounds (value : Nat) {range : Int} (h : range ≠ 0) :
    0 ≤ (value : Int).tmod range ∧ (value : Int).tmod range < range.natAbs := by
  have hpos : forall n : Int, 0 < n -> 0 ≤ (value : Int).tmod n ∧ (value : Int).tmod n < n := by
    intro n hn
    rw [Int.tmod_eq_emod_of_nonneg (Int.natCast_nonneg value)]
    exact ⟨Int.emod_nonneg _ (by omega), Int.emod_lt_of_pos _ hn⟩
  rcases Int.natAbs_eq range with heq | heq
  · rw [heq]
    exact hpos _ (by omega)
  · rw [heq, Int.tmod_neg, Int.natAbs_neg, Int.natAbs_natCast]
    exact hpos _ (by omega)

theorem randomSize_le {max : Nat} (hinc : r.bufinc = randomBufinc) (hfits : r.RandomFits max)
    (hmax : r.bufmax ≤ max) (value : Nat) :
    exists b, randomSize r value = some b ∧ b ≤ max := by
  have hle := r.bufmin_le
  by_cases heq : r.bufmax = r.bufmin
  · have hfits := hfits hinc heq.symm
    have hmin : pktBufmin r = 10 := if_pos heq
    have hrange : (r.bufmax : Int) - pktBufmin r ≠ 0 := by omega
    have hbounds := tmod_bounds value hrange
    refine ⟨_, by rw [randomSize, if_neg hrange], ?_⟩
    rw [hmin] at hbounds ⊢
    omega
  · have hmin : pktBufmin r = r.bufmin := if_neg heq
    have hrange : (r.bufmax : Int) - pktBufmin r ≠ 0 := by omega
    have hbounds := tmod_bounds value hrange
    refine ⟨_, by rw [randomSize, if_neg hrange], ?_⟩
    rw [hmin] at hbounds ⊢
    omega

/-!
# The packets of a run
-/

def Cursor.Valid (rules : List Stanza) (c : Cursor) : Prop :=
  exists r, rules[c.stanza]? = some r ∧ c.i < r.numOper ∧ c.bcnt < bcntMax r

theorem valid_of_lt {pass stanza : Nat} (h : stanza < rules.length) :
    Valid rules ⟨pass, stanza, 0, 0⟩ :=
  ⟨rules[stanza], getElem?_eq_getElem h, lt_of_lt_of_le one_pos
    (rules[stanza]).numOper_pos, bcntMax_pos _⟩

theorem Cursor.Valid.next {c : Cursor} (h : c.Valid rules) : (c.next rules).Valid rules := by
  rcases h with ⟨r, hr, hi, hbcnt⟩
  have hlen := (List.getElem?_eq_some_iff.mp hr).1
  unfold Cursor.next
  rw [hr]
  dsimp only
  split_ifs with hnext hsize hstanza
  · exact ⟨r, hr, hnext, hbcnt⟩
  · exact ⟨r, hr, r.numOper_pos, hsize⟩
  · exact valid_of_lt hstanza
  · exact valid_of_lt (Nat.zero_lt_of_lt hlen)

namespace Setup

variable (setup : Setup) (n : Nat)

def RandomFits : Prop :=
  forall r, r ∈ setup.rules -> r.RandomFits (patternMax setup.rules)

def cursorAt : Cursor :=
  (next setup.rules)^[n] start

def pakBefore : Int :=
  nextPak^[n] (-1)

theorem cursorAt_succ : setup.cursorAt (n + 1) = (setup.cursorAt n).next setup.rules :=
  Function.iterate_succ_apply' _ _ _

theorem pakBefore_succ : pakBefore (n + 1) = nextPak (pakBefore n) :=
  Function.iterate_succ_apply' _ _ _

theorem valid_cursorAt : (setup.cursorAt n).Valid setup.rules := by
  induction n with
  | zero => exact valid_of_lt (length_pos_iff.mpr setup.nonempty)
  | succ n ih =>
    rw [cursorAt_succ]
    exact ih.next

theorem stanza_lt : (setup.cursorAt n).stanza < setup.rules.length := by
  rcases valid_cursorAt setup n with ⟨r, hr, _⟩
  exact (List.getElem?_eq_some_iff.mp hr).1

def ruleAt : Stanza :=
  setup.rules.get ⟨_, setup.stanza_lt n⟩

def bsizeAt : Nat :=
  (setup.bsize (setup.ruleAt n) (setup.cursorAt n)).getD 0

def packetAt : Packet :=
  ⟨setup.cursorAt n, setup.bsizeAt n, nextPak (pakBefore n)⟩

theorem rule_eq : setup.rules[(setup.cursorAt n).stanza]? = some (setup.ruleAt n) :=
  getElem?_eq_getElem (setup.stanza_lt n)

def image : List UInt8 :=
  (writerPacket setup.writerOrder setup.writerPATTERN setup.id (setup.ruleAt n)
    (setup.bsizeAt n) (nextPak (pakBefore n)) 0 fun _ => 0).bytes 0 (pakLen (setup.bsizeAt n))

def images (n' : Nat) : List UInt8 :=
  (range' n (n' - n)).flatMap setup.image

theorem length_image : (setup.image n).length = pakLen (setup.bsizeAt n) :=
  length_bytes

theorem bytes_writerPacket (old : Memory) :
    (writerPacket setup.writerOrder setup.writerPATTERN setup.id (setup.ruleAt n)
      (setup.bsizeAt n) (nextPak (pakBefore n)) 0 old).bytes 0 (pakLen (setup.bsizeAt n)) =
      setup.image n := by
  unfold image
  rw [bytes_eq_iff]
  intro i hi
  exact writerPacket_congr (fun _ _ => rfl) (by omega)

theorem images_self : setup.images n n = [] := by
  simp [images]

def resultAt : ReadResult :=
  ⟨setup.packetAt n, pakLen (setup.bsizeAt n), -1⟩

variable {setup}

theorem bsize_le (hfits : setup.RandomFits) {r : Stanza} {c : Cursor} (hmem : r ∈ setup.rules)
    (hbcnt : c.bcnt < bcntMax r) :
    exists b, setup.bsize r c = some b ∧ b ≤ patternMax setup.rules := by
  have hmax := bufmax_le_patternMax hmem
  unfold bsize
  split
  · rename_i hinc
    exact randomSize_le hinc (hfits r hmem) hmax _
  · rename_i hinc
    have hbounds := linear_size_le hinc hbcnt
    exact ⟨_, rfl, by omega⟩

theorem bsize_spec (hfits : setup.RandomFits) (n : Nat) :
    setup.bsize (setup.ruleAt n) (setup.cursorAt n) = some (setup.bsizeAt n) ∧
      setup.bsizeAt n ≤ patternMax setup.rules := by
  rcases valid_cursorAt setup n with ⟨r, hr, hi, hbcnt⟩
  rw [rule_eq, some_inj] at hr
  have hmem : r ∈ setup.rules := hr ▸ get_mem _ _
  rcases bsize_le hfits hmem hbcnt with ⟨b, hb, hle⟩
  unfold bsizeAt
  rw [hr, hb]
  exact ⟨rfl, hle⟩

theorem images_succ_right {n n' : Nat} (h : n ≤ n') :
    setup.images n (n' + 1) = setup.images n n' ++ setup.image n' := by
  unfold images
  rw [Nat.succ_sub h, range'_concat]
  simp [Nat.add_sub_cancel' h]

theorem images_succ_left {n n' : Nat} (h : n < n') :
    setup.images n n' = setup.image n ++ setup.images (n + 1) n' := by
  unfold images
  have hsplit : n' - n = n' - (n + 1) + 1 := by omega
  rw [hsplit, range'_succ, flatMap_cons]

end Setup

/-!
# The invariant
-/

structure BetweenReads (setup : Setup) (n n' : Nat) (s : LinkState) : Prop where
  cursor : s.reader.cursor = setup.cursorAt n
  pak : s.reader.pak = Setup.pakBefore n
  bytes : s.channel ++ s.writer.unsent = setup.images n n'

structure InSRead (setup : Setup) (n n' : Nat) (s : LinkState) (sr : SRead) : Prop where
  packet : sr.packet = setup.packetAt n
  nbytes : sr.nbytes = pakLen (setup.bsizeAt n)
  ptr : sr.ptr + sr.nleft = sr.nbytes
  cursor : s.reader.cursor = setup.cursorAt (n + 1)
  pak : s.reader.pak = Setup.pakBefore (n + 1)
  pattern : exists old, s.reader.pattern =
    readerPattern setup.readerOrder setup.readerPATTERN (setup.ruleAt n) (setup.bsizeAt n)
      (nextPak (Setup.pakBefore n)) 0 old
  bytes : s.reader.rbuf.bytes 0 sr.ptr ++ (s.channel ++ s.writer.unsent) = setup.images n n'

structure InStep (setup : Setup) (s : LinkState) (n n' : Nat) : Prop where
  written : s.writer.written = (range n').map setup.packetAt
  wcursor : s.writer.cursor = setup.cursorAt n'
  wpak : s.writer.pak = Setup.pakBefore n'
  results : s.reader.results = (range n).map setup.resultAt
  le : n ≤ n'
  peer : s.reader.peer.pid = 0 ∨ s.reader.peer = setup.id.peer
  reader : (s.reader.sread = none ∧ BetweenReads setup n n' s) ∨
    exists sr, s.reader.sread = some sr ∧ InSRead setup n n' s sr

def InterruptsBeforeData (s : LinkState) : LinkEvent -> Prop
  | .interrupt => forall sr, s.reader.sread = some sr -> sr.ptr = 0
  | _ => True

instance (s : LinkState) (e : LinkEvent) : Decidable (InterruptsBeforeData s e) :=
  match e with
  | .interrupt => inferInstanceAs (Decidable (forall sr, sr ∈ s.reader.sread -> sr.ptr = 0))
  | .build | .send _ | .startRead | .recv _ | .compare => isTrue trivial

section

variable {setup : Setup} {s t : LinkState} {n n' : Nat}

theorem InStep.build (hfits : setup.RandomFits) (h : InStep setup s n n')
    (hst : s.step setup .build = some t) : InStep setup t n (n' + 1) := by
  simp only [step, ite_none_right_eq_some, map_eq_some_iff] at hst
  rcases hst with ⟨hunsent, w, hw, rfl⟩
  unfold Writer.build at hw
  rw [h.wcursor, setup.rule_eq] at hw
  dsimp only at hw
  rw [(setup.bsize_spec hfits n').1, h.wpak] at hw
  rw [some_inj] at hw
  subst hw
  have hbytes : s.channel = s.channel ++ s.writer.unsent := by
    rw [hunsent, append_nil]
  refine ⟨?_, (setup.cursorAt_succ n').symm, (pakBefore_succ n').symm, h.results,
    Nat.le_succ_of_le h.le, h.peer, ?_⟩
  · rw [h.written, range_succ, map_append]
    rfl
  · rcases h.reader with ⟨hnone, hr⟩ | ⟨sr, hsr, hr⟩
    · refine .inl ⟨hnone, hr.cursor, hr.pak, ?_⟩
      rw [setup.bytes_writerPacket, images_succ_right h.le, ← hr.bytes, ← hbytes]
    · refine .inr ⟨sr, hsr, hr.packet, hr.nbytes, hr.ptr, hr.cursor, hr.pak, hr.pattern, ?_⟩
      dsimp only
      rw [setup.bytes_writerPacket, images_succ_right h.le, ← hr.bytes, ← hbytes, append_assoc]

theorem InStep.send {k : Nat} (h : InStep setup s n n')
    (hst : s.step setup (.send k) = some t) : InStep setup t n n' := by
  simp only [step, ite_none_right_eq_some, some_inj] at hst
  rcases hst with ⟨_, rfl⟩
  have hbytes : s.channel ++ s.writer.unsent.take k ++ s.writer.unsent.drop k =
      s.channel ++ s.writer.unsent := by
    rw [append_assoc, take_append_drop]
  refine ⟨h.written, h.wcursor, h.wpak, h.results, h.le, h.peer, ?_⟩
  rcases h.reader with ⟨hnone, hr⟩ | ⟨sr, hsr, hr⟩
  · exact .inl ⟨hnone, hr.cursor, hr.pak, hbytes.trans hr.bytes⟩
  · refine .inr ⟨sr, hsr, hr.packet, hr.nbytes, hr.ptr, hr.cursor, hr.pak, hr.pattern, ?_⟩
    rw [hbytes]
    exact hr.bytes

theorem InStep.startRead (hfits : setup.RandomFits) (h : InStep setup s n n')
    (hst : s.step setup .startRead = some t) : InStep setup t n n' := by
  rcases h.reader with ⟨hnone, hr⟩ | ⟨sr, hsr, _⟩
  · simp only [step, hnone, map_eq_some_iff] at hst
    rcases hst with ⟨rd, hrd, rfl⟩
    unfold Reader.startRead at hrd
    rw [hr.cursor, setup.rule_eq] at hrd
    dsimp only at hrd
    rw [(setup.bsize_spec hfits n).1, hr.pak] at hrd
    rw [some_inj] at hrd
    subst hrd
    refine ⟨h.written, h.wcursor, h.wpak, h.results, h.le, h.peer, .inr ⟨_, rfl, ?_⟩⟩
    exact ⟨rfl, rfl, zero_add _, (setup.cursorAt_succ n).symm,
      (pakBefore_succ n).symm, ⟨_, rfl⟩, hr.bytes⟩
  · simp only [step, hsr] at hst
    cases hst

theorem InStep.recv {k : Nat} (h : InStep setup s n n')
    (hst : s.step setup (.recv k) = some t) : InStep setup t n n' := by
  rcases h.reader with ⟨hnone, _⟩ | ⟨sr, hsr, hr⟩
  · simp only [step, hnone] at hst
    cases hst
  · simp only [step, hsr, ite_none_right_eq_some, some_inj] at hst
    rcases hst with ⟨⟨_, hnleft, hchannel⟩, rfl⟩
    have hlen : (s.channel.take k).length = k := length_take_of_le hchannel
    have hptr := hr.ptr
    have hread : (s.reader.rbuf.put sr.ptr (s.channel.take k)).bytes 0 (sr.ptr + k) =
        s.reader.rbuf.bytes 0 sr.ptr ++ s.channel.take k := by
      rw [bytes_add, bytes_put_of_disjoint (by omega), zero_add, bytes_put_self hlen]
    refine ⟨h.written, h.wcursor, h.wpak, h.results, h.le, h.peer, .inr ⟨_, rfl, ?_⟩⟩
    refine ⟨hr.packet, hr.nbytes, ?_, hr.cursor, hr.pak, hr.pattern, ?_⟩
    · dsimp only
      omega
    · dsimp only
      rw [hread, append_assoc, ← append_assoc (s.channel.take k), take_append_drop]
      exact hr.bytes

theorem InStep.interrupt (h : InStep setup s n n') (hguard : InterruptsBeforeData s .interrupt)
    (hst : s.step setup .interrupt = some t) : InStep setup t n n' := by
  rcases h.reader with ⟨hnone, _⟩ | ⟨sr, hsr, hr⟩
  · simp only [step, hnone] at hst
    cases hst
  · simp only [step, hsr, ite_none_right_eq_some, some_inj] at hst
    rcases hst with ⟨_, rfl⟩
    have hzero : sr.ptr = 0 := hguard sr hsr
    have hptr := hr.ptr
    have hback : sr.ptr + sr.nleft - sr.nbytes = sr.ptr := by omega
    refine ⟨h.written, h.wcursor, h.wpak, h.results, h.le, h.peer, .inr ⟨_, rfl, ?_⟩⟩
    refine ⟨hr.packet, hr.nbytes, ?_, hr.cursor, hr.pak, hr.pattern, ?_⟩
    · dsimp only
      omega
    · dsimp only
      rw [hback]
      exact hr.bytes

theorem InSRead.complete {sr : SRead} (hr : InSRead setup n n' s sr) (hleft : sr.nleft = 0)
    (hle : n ≤ n') :
    n < n' ∧ s.reader.rbuf.bytes 0 (pakLen (setup.bsizeAt n)) = setup.image n ∧
      s.channel ++ s.writer.unsent = setup.images (n + 1) n' := by
  have hptr : sr.ptr = pakLen (setup.bsizeAt n) := by
    have hptr := hr.ptr
    rw [hleft, hr.nbytes] at hptr
    exact hptr
  have hbytes := hr.bytes
  rw [hptr] at hbytes
  have hlt : n < n' := by
    rcases lt_or_eq_of_le hle with hlt | rfl
    · exact hlt
    · have hlen := congrArg length hbytes
      rw [setup.images_self, length_append, length_bytes, length_nil] at hlen
      simp only [pakLen, tpHdrLen, tpSeqLen] at hlen
      omega
  rw [images_succ_left hlt] at hbytes
  exact ⟨hlt, append_inj hbytes (by rw [length_bytes, setup.length_image])⟩

theorem InStep.compare (hfits : setup.RandomFits)
    (horder : setup.writerOrder = setup.readerOrder) (h : InStep setup s n n')
    (hst : s.step setup .compare = some t) : InStep setup t (n + 1) n' := by
  rcases h.reader with ⟨hnone, _⟩ | ⟨sr, hsr, hr⟩
  · simp only [step, hnone] at hst
    cases hst
  · simp only [step, hsr, ite_none_right_eq_some, map_eq_some_iff] at hst
    rcases hst with ⟨hleft, rd, hrd, rfl⟩
    rcases hr.complete hleft h.le with ⟨hlt, himage, hrest⟩
    rcases hr.pattern with ⟨old, hpattern⟩
    have hsize := (setup.bsize_spec hfits n).2
    have hsame : forall i, i < setup.bsizeAt n -> setup.writerPATTERN i = setup.readerPATTERN i :=
      fun i hi => setup.samePattern i (by omega)
    have hlen : pakLen (setup.bsizeAt n) ≤ setup.bufLen := Nat.add_le_add_right hsize _
    have hrbuf : forall i, i < pakLen (setup.bsizeAt n) -> s.reader.rbuf i =
        writerPacket setup.writerOrder setup.writerPATTERN setup.id (setup.ruleAt n)
          (setup.bsizeAt n) (nextPak (pakBefore n)) 0 (fun _ => 0) i := by
      intro i hi
      have hbyte := bytes_eq_iff.mp himage i hi
      rwa [Nat.zero_add] at hbyte
    unfold Reader.finish at hrd
    rw [hr.packet] at hrd
    dsimp only [packetAt] at hrd
    rw [setup.rule_eq] at hrd
    rw [some_inj] at hrd
    subst hrd
    have hindex : (doCompare (setup.ruleAt n) setup.bufLen (setup.bsizeAt n) s.reader.peer
        s.reader.rbuf s.reader.pattern).index = -1 := by
      rw [hpattern, ← horder]
      exact doCompare_packet hlen hrbuf h.peer hsame
    refine ⟨h.written, h.wcursor, h.wpak, ?_, hlt, doCompare_peer hlen hrbuf h.peer, Or.inl ?_⟩
    · dsimp only
      rw [h.results, hindex, hleft, hr.nbytes, range_succ, map_append]
      rfl
    · exact ⟨rfl, hr.cursor, hr.pak, hrest⟩

theorem InStep.step {e : LinkEvent} (hfits : setup.RandomFits)
    (horder : setup.writerOrder = setup.readerOrder) (h : InStep setup s n n')
    (hguard : InterruptsBeforeData s e) (hst : s.step setup e = some t) :
    exists m m', InStep setup t m m' := by
  cases e with
  | build => exact ⟨n, n' + 1, h.build hfits hst⟩
  | send k => exact ⟨n, n', h.send hst⟩
  | startRead => exact ⟨n, n', h.startRead hfits hst⟩
  | recv k => exact ⟨n, n', h.recv hst⟩
  | interrupt => exact ⟨n, n', h.interrupt hguard hst⟩
  | compare => exact ⟨n + 1, n', h.compare hfits horder hst⟩

theorem inStep_init (hs : s.Initial) : InStep setup s 0 0 := by
  rcases hs with ⟨hwc, hwp, hun, hwr, hch, hrc, hrp, hpeer, hsr, hres⟩
  refine ⟨hwr, hwc, hwp, hres, le_refl 0, .inl hpeer, .inl ⟨hsr, hrc, hrp, ?_⟩⟩
  rw [hch, hun, setup.images_self, append_nil]

theorem inStep_reachable (hfits : setup.RandomFits) (horder : setup.writerOrder = setup.readerOrder)
    (h : (link setup).ReachableUnder InterruptsBeforeData s) :
    exists n n', InStep setup s n n' := by
  refine @EventSystem.ReachableUnder.invariant _ _ (link setup) InterruptsBeforeData
    (fun s => exists n n', InStep setup s n n') s ?_ ?_ h
  · intro s hs
    exact ⟨0, 0, inStep_init hs⟩
  · rintro s e t ⟨n, n', hs⟩ hguard hst
    exact hs.step hfits horder hguard hst

end

/-!
# No false miscompare
-/

def LinkState.packetsRead (s : LinkState) : List Packet :=
  s.reader.results.map ReadResult.packet ++ s.reader.sread.toList.map SRead.packet

structure LinkState.NoMiscompare (s : LinkState) : Prop where
  same : s.packetsRead <+: s.writer.written ∨ s.writer.written <+: s.packetsRead
  complete : forall res, res ∈ s.reader.results -> res.rc = pakLen res.packet.bsize ∧ res.index = -1

def LinkState.ReadReturns (setup : Setup) (s : LinkState) : Prop :=
  exists events t, (link setup).run s events = some t ∧
    (link setup).Admits InterruptsBeforeData s events ∧
    t.reader.results.length = s.reader.results.length + 1

section

variable {setup : Setup} {s : LinkState} {n n' : Nat}

theorem InStep.noMiscompare (h : InStep setup s n n') : s.NoMiscompare := by
  have hresults : s.reader.results.map ReadResult.packet = (range n).map setup.packetAt := by
    rw [h.results, List.map_map]
    rfl
  have hshorter : forall {a b : Nat}, a ≤ b ->
      (range a).map setup.packetAt <+: (range b).map setup.packetAt := by
    intro a b hab
    rcases Nat.exists_eq_add_of_le hab with ⟨k, rfl⟩
    rw [range_add, map_append]
    exact prefix_append _ _
  constructor
  · unfold packetsRead
    rw [hresults, h.written]
    rcases h.reader with ⟨hnone, _⟩ | ⟨sr, hsr, hr⟩
    · left
      rw [hnone]
      simpa using hshorter h.le
    · have hreading : (range n).map setup.packetAt ++ (some sr).toList.map SRead.packet =
          (range (n + 1)).map setup.packetAt := by
        rw [range_succ, map_append]
        simp [hr.packet]
      rw [hsr, hreading]
      rcases lt_or_eq_of_le h.le with hlt | rfl
      · exact .inl (hshorter hlt)
      · exact .inr (hshorter (Nat.le_succ n))
  · intro res hres
    rw [h.results] at hres
    rcases mem_map.mp hres with ⟨k, _, rfl⟩
    exact ⟨rfl, rfl⟩

theorem LinkState.ReadReturns.cons {t : LinkState} {e : LinkEvent}
    (hst : s.step setup e = some t) (hguard : InterruptsBeforeData s e)
    (hresults : t.reader.results = s.reader.results) (h : t.ReadReturns setup) :
    s.ReadReturns setup := by
  rcases h with ⟨events, u, hrun, hadmits, hlen⟩
  have hst : (link setup).step s e = some t := hst
  refine ⟨e :: events, u, ?_, ?_, by rw [hlen, hresults]⟩
  · simpa only [EventSystem.run, hst] using hrun
  · simpa only [EventSystem.Admits, hst] using ⟨hguard, hadmits⟩

variable {sr : SRead}

theorem returns_of_complete (hsr : s.reader.sread = some sr) (hr : InSRead setup n n' s sr)
    (hleft : sr.nleft = 0) : s.ReadReturns setup := by
  have hfinish : exists rd, s.reader.finish setup sr = some rd ∧
      rd.results.length = s.reader.results.length + 1 := by
    unfold Reader.finish
    rw [hr.packet]
    dsimp only [packetAt]
    rw [setup.rule_eq]
    exact ⟨_, rfl, length_append⟩
  rcases hfinish with ⟨rd, hrd, hlen⟩
  have hst : (link setup).step s .compare = some { s with reader := rd } := by
    simp only [link, step, hsr, hleft, hrd, if_true, map_some]
  refine ⟨[.compare], { s with reader := rd }, ?_, ?_, hlen⟩
  · simp only [EventSystem.run, hst]
  · simp only [EventSystem.Admits, hst, InterruptsBeforeData, and_self]

section

variable (h : InStep setup s n n') (hsr : s.reader.sread = some sr) (hr : InSRead setup n n' s sr)

include h hsr hr

open LinkState.ReadReturns

theorem returns_of_channel (hlen : sr.nleft ≤ s.channel.length) : s.ReadReturns setup := by
  rcases eq_zero_or_pos sr.nleft with hleft | hleft
  · exact returns_of_complete hsr hr hleft
  · have hst : exists t, s.step setup (.recv sr.nleft) = some t ∧
        t.reader.results = s.reader.results ∧
        t.reader.sread = some { sr with ptr := sr.ptr + sr.nleft, nleft := 0 } := by
      simp only [step, hsr]
      rw [if_pos ⟨hleft, le_refl _, hlen⟩]
      exact ⟨_, rfl, rfl, by simp⟩
    rcases hst with ⟨t, hst, hresults, hread⟩
    refine cons hst trivial hresults ?_
    rcases (h.recv hst).reader with ⟨hnone, _⟩ | ⟨sr', hsr', hr'⟩
    · rw [hread] at hnone
      cases hnone
    · rw [hread, some_inj] at hsr'
      exact returns_of_complete (hread.trans (congrArg some hsr')) hr' (hsr' ▸ rfl)

theorem returns_of_built (hlt : n < n') : s.ReadReturns setup := by
  have hbytes := congrArg length hr.bytes
  have hptr := hr.ptr
  rw [images_succ_left hlt] at hbytes
  simp only [length_append, length_bytes, setup.length_image, ← hr.nbytes] at hbytes
  by_cases hunsent : s.writer.unsent = []
  · rw [hunsent, length_nil] at hbytes
    exact returns_of_channel h hsr hr (by omega)
  · have hst : exists t, s.step setup (.send s.writer.unsent.length) = some t ∧
        t.reader = s.reader ∧ t.channel = s.channel ++ s.writer.unsent := by
      simp only [step]
      rw [if_pos ⟨length_pos_iff.mpr hunsent, le_refl _⟩]
      exact ⟨_, rfl, rfl, by simp⟩
    rcases hst with ⟨t, hst, hreader, hchannel⟩
    refine cons hst trivial (by rw [hreader]) ?_
    rcases (h.send hst).reader with ⟨hnone, _⟩ | ⟨sr', hsr', hr'⟩
    · rw [hreader, hsr] at hnone
      cases hnone
    · have heq : sr' = sr := by
        rw [hreader, hsr, some_inj] at hsr'
        exact hsr'.symm
      rw [heq] at hsr' hr'
      refine returns_of_channel (h.send hst) hsr' hr' ?_
      rw [hchannel, length_append]
      omega

end

theorem returns_of_reading (hfits : setup.RandomFits) (h : InStep setup s n n')
    (hsr : s.reader.sread = some sr) (hr : InSRead setup n n' s sr) : s.ReadReturns setup := by
  rcases lt_or_eq_of_le h.le with hlt | rfl
  · exact returns_of_built h hsr hr hlt
  · -- the writer is not ahead, so nothing is on its way and the next packet can be built
    have hbytes := hr.bytes
    rw [setup.images_self, append_eq_nil_iff, append_eq_nil_iff] at hbytes
    have hbuild : exists w, s.writer.build setup = some w := by
      unfold Writer.build
      rw [h.wcursor, setup.rule_eq]
      dsimp only
      rw [(setup.bsize_spec hfits n).1]
      exact ⟨_, rfl⟩
    rcases hbuild with ⟨w, hw⟩
    have hst : s.step setup .build = some { s with writer := w } := by
      simp only [step, hbytes.2.2, hw, if_true, map_some]
    have hbuilt := h.build hfits hst
    refine LinkState.ReadReturns.cons hst trivial rfl ?_
    rcases hbuilt.reader with ⟨hnone, _⟩ | ⟨sr', hsr', hr'⟩
    · rw [hsr] at hnone
      cases hnone
    · exact returns_of_built hbuilt hsr' hr' (Nat.lt_succ_self n)

theorem InStep.readReturns (hfits : setup.RandomFits) (h : InStep setup s n n') :
    s.ReadReturns setup := by
  rcases h.reader with ⟨hnone, hr⟩ | ⟨sr, hsr, hr⟩
  · have hstart : exists rd, s.reader.startRead setup = some rd ∧
        rd.results = s.reader.results ∧ rd.sread ≠ none := by
      unfold Reader.startRead
      rw [hr.cursor, setup.rule_eq]
      dsimp only
      rw [(setup.bsize_spec hfits n).1]
      refine ⟨_, rfl, rfl, ?_⟩
      intro hnone
      cases hnone
    rcases hstart with ⟨rd, hrd, hresults, hread⟩
    have hst : s.step setup .startRead = some { s with reader := rd } := by
      simp only [LinkState.step, hnone, hrd, map_some]
    have hstarted := h.startRead hfits hst
    refine LinkState.ReadReturns.cons hst trivial hresults ?_
    rcases hstarted.reader with ⟨hnone', _⟩ | ⟨sr', hsr', hr'⟩
    · exact absurd hnone' hread
    · exact returns_of_reading hfits hstarted hsr' hr'
  · exact returns_of_reading hfits h hsr hr

end

/-- Between machines of one byte order, and with random sizes that fit, no packet
miscompares as long as no `recv` is interrupted after part of a packet. -/
theorem no_miscompare_of_uninterrupted (setup : Setup) (hfits : setup.RandomFits)
    (horder : setup.writerOrder = setup.readerOrder) (s : LinkState)
    (h : (link setup).ReachableUnder InterruptsBeforeData s) :
    s.NoMiscompare ∧ s.ReadReturns setup := by
  rcases inStep_reachable hfits horder h with ⟨n, n', hs⟩
  exact ⟨hs.noMiscompare, hs.readReturns hfits⟩

/-!
# Packets of one byte
-/

theorem oneByte_bounds : 1 ≤ 1 ∧ 1 < 2 ^ 16 ∧ (-1 : Int) ≤ 0 ∧ (0 : Int) < 2 ^ 15 := by
  decide

def oneByte : Stanza where
  numOper := 1
  bufmin := 1
  bufmax := 1
  bufinc := 0
  debugPattern := true
  noCompare := false
  writeAhead := 1
  shutdown := 0
  numOper_pos := oneByte_bounds.1
  numOper_lt := oneByte_bounds.2.1
  bufmin_pos := oneByte_bounds.1
  bufmin_le := oneByte_bounds.1
  bufmax_lt := oneByte_bounds.2.1
  bufinc_ge := oneByte_bounds.2.2.1
  bufinc_lt := oneByte_bounds.2.2.2
  bufinc_ne := fun h => absurd h (Nat.lt_irrefl 1)

theorem ent_bounds : 0 ∉ [101, 110, 116, (48 : UInt8)] ∧
    [101, 110, 116, (48 : UInt8)].length < 40 ∧ 0 < 4711 ∧ 4711 < 10 ^ 9 := by
  decide

def ent : WriterId where
  dev := ⟨[101, 110, 116, 48], ent_bounds.1⟩
  pid := 4711
  dev_lt := ent_bounds.2.1
  pid_pos := ent_bounds.2.2.1
  pid_lt := ent_bounds.2.2.2

def oneByteSetup : Setup where
  rules := [oneByte]
  nonempty := cons_ne_nil _ _
  writerOrder := .little
  readerOrder := .little
  writerPATTERN := fun _ => 7
  readerPATTERN := fun _ => 7
  samePattern := fun _ _ => rfl
  id := ent
  random := fun _ _ _ => 0

def emptyString : CString :=
  ⟨[], not_mem_nil⟩

def linkStart : LinkState where
  writer := ⟨start, -1, fun _ => 0, [], []⟩
  channel := []
  reader := ⟨start, -1, fun _ => 0, fun _ => 0, ⟨0, emptyString⟩, none, []⟩

theorem initial_linkStart : linkStart.Initial :=
  ⟨rfl, rfl, rfl, rfl, rfl, rfl, rfl, rfl, rfl, rfl⟩

theorem randomFits_oneByte : oneByteSetup.RandomFits := by
  intro r hr
  rw [mem_singleton.mp hr]
  intro hinc
  exact absurd hinc (by decide)

def twoPieces : List LinkEvent :=
  [.build, .send 10, .startRead, .interrupt, .recv 4, .send 11, .recv 17, .compare]

theorem no_miscompare_two_pieces :
    exists s, (link oneByteSetup).ReachableUnder InterruptsBeforeData s ∧
      s.reader.results = [⟨⟨start, 1, 0⟩, 21, -1⟩] ∧
      s.NoMiscompare ∧ s.ReadReturns oneByteSetup := by
  have hadmits : (link oneByteSetup).Admits InterruptsBeforeData linkStart twoPieces := by
    decide +kernel
  have hreach := EventSystem.ReachableUnder.schedule initial_linkStart twoPieces
    (by decide +kernel) hadmits
  exact ⟨_, hreach, by decide +kernel,
    no_miscompare_of_uninterrupted oneByteSetup randomFits_oneByte rfl _ hreach⟩

/-- A signal after five bytes of a packet: these are given up, the packet is completed
from the next one, and it miscompares. -/
theorem interrupted_packet_miscompares :
    oneByteSetup.RandomFits ∧ oneByteSetup.writerOrder = oneByteSetup.readerOrder ∧
      exists s, (link oneByteSetup).Reachable s ∧
        s.reader.results = [⟨⟨start, 1, 0⟩, 21, 5⟩] := by
  refine ⟨randomFits_oneByte, rfl, _, EventSystem.Reachable.schedule (S := link oneByteSetup)
    initial_linkStart [.build, .send 21, .build, .send 21, .startRead, .recv 5, .interrupt,
      .recv 21, .compare] (by decide +kernel), by decide +kernel⟩

end Htx.Hxecom
