import Htx.Hxecom.Packet

/-!
# Both sides build the same packet

Whatever a buffer held before, the bytes of a packet do not depend on it.  The reader
adds name and process id of the writer after the read, and then its pattern is the
writer's packet.
-/

namespace Htx.Hxecom

open List Library Memory
open Htxd (atoi decimal isDigit)

/-!
# Texts
-/

@[simp]
theorem length_seqBytes (order : ByteOrder) (pak : Int) : (seqBytes order pak).length = 8 :=
  order.length_encode 8 _

@[simp]
theorem length_blkText (o : Int) : (blkText o).length = 6 :=
  rfl

@[simp]
theorem length_pidText (pid : Int) : (pidText pid).length = 10 :=
  rfl

theorem toNat_digit {n : Nat} (h : n < 10) : (digit n).toNat = n + 48 := by
  unfold digit UInt8.ofInt
  rw [UInt8.toNat_ofNat']
  omega

theorem isDigit_digit {n : Nat} (h : n < 10) : isDigit (digit n) = true := by
  simp only [isDigit, decide_eq_true_eq, UInt8.le_iff_toNat_le, toNat_digit h]
  exact ⟨Nat.le_add_left 48 n, by simp; omega⟩

def pidDigits (pid : Nat) : List Nat :=
  [pid / 100000000, pid / 10000000 % 10, pid / 1000000 % 10, pid / 100000 % 10,
    pid / 10000 % 10, pid / 1000 % 10, pid / 100 % 10, pid / 10 % 10, pid % 10]

theorem pidDigits_lt {pid n : Nat} (h : pid < 10 ^ 9) (hn : n ∈ pidDigits pid) : n < 10 := by
  simp only [pidDigits, mem_cons, not_mem_nil, or_false] at hn
  omega

theorem pidText_eq (pid : Nat) :
    pidText pid = (pidDigits pid).map (fun n : Nat => digit n) ++ [0] := by
  rfl

theorem decimal_pidDigits {pid : Nat} (h : pid < 10 ^ 9) :
    decimal ((pidDigits pid).map fun n : Nat => digit n) = pid := by
  have hlt := fun n => pidDigits_lt (n := n) h
  simp only [pidDigits, mem_cons, not_mem_nil, or_false, forall_eq_or_imp, forall_eq] at hlt
  rcases hlt with ⟨h0, h1, h2, h3, h4, h5, h6, h7, h8⟩
  simp only [decimal, pidDigits, map_cons, map_nil, foldl_cons, foldl_nil,
    toNat_digit h0, toNat_digit h1, toNat_digit h2, toNat_digit h3, toNat_digit h4,
    toNat_digit h5, toNat_digit h6, toNat_digit h7, toNat_digit h8]
  omega

theorem atoi_pidText {pid : Nat} (h : pid < 10 ^ 9) (rest : List UInt8) :
    atoi (pidText pid ++ rest) = pid := by
  have hdigits :
      forall b, b ∈ (pidDigits pid).map (fun n : Nat => digit n) -> isDigit b = true := by
    intro b hb
    rcases mem_map.mp hb with ⟨n, hn, rfl⟩
    exact isDigit_digit (pidDigits_lt h hn)
  have hzero : 0 ∉ (pidDigits pid).map fun n : Nat => digit n :=
    fun hmem => absurd (hdigits 0 hmem) (by decide)
  have hstring : Htxd.cString (pidText pid ++ rest) =
      Htxd.cString ((pidDigits pid).map fun n : Nat => digit n) := by
    rw [pidText_eq, append_assoc]
    unfold Htxd.cString
    rw [takeWhile_append_of_pos]
    · rw [singleton_append, takeWhile_cons_of_neg (by simp), append_nil]
      exact (Htxd.cString_eq hzero).symm
    · intro b hb
      rw [decide_eq_true_eq]
      rintro rfl
      exact hzero hb
  have hvalue := decimal_pidDigits h
  have hatoi := Htxd.atoi_decimal (by simp [pidDigits]) hdigits (by omega)
  rw [hvalue] at hatoi
  exact (congrArg (fun s => (Htxd.strtol s).bmod (2 ^ 32)) hstring).trans hatoi

theorem ofField_string (s : CString) (rest : List UInt8) :
    CString.ofField (s.chars ++ 0 :: rest) = s := by
  rcases s with ⟨chars, hnonzero⟩
  have htake : (chars ++ 0 :: rest).takeWhile (fun c => c != 0) = chars := by
    rw [takeWhile_append_of_pos]
    · simp
    · intro b hb
      rw [bne_iff_ne]
      rintro rfl
      exact hnonzero hb
  simp only [CString.ofField, htake]

/-!
# The frame does not depend on the old buffer
-/

variable {i : Nat}

section

variable {order : ByteOrder} {pattern pattern' m m' : Memory} {bsize : Nat} {pak : Int}
  {timestamp : UInt8}

theorem frameWrites_cover (h : i < pakLen bsize) (hsum : i ≠ tpCksumPos)
    (hsum' : i ≠ bsize + tpHdrLen + tpCksumPos) :
    exists w, w ∈ frameWrites order pattern bsize pak timestamp ∧
      w.1 ≤ i ∧ i < w.1 + w.2.length := by
  simp only [frameWrites, mem_cons, not_mem_nil, or_false, exists_eq_or_imp,
    exists_eq_left, length_seqBytes, length_bytes, length_singleton]
  simp only [pakLen, tpHdrLen, tpCksumPos, tpTimePos, tpSeqLen] at *
  omega

theorem frame_congr (hpattern : forall i, i < bsize -> pattern i = pattern' i)
    (h : i < pakLen bsize) :
    frame order pattern bsize pak timestamp m i =
      frame order pattern' bsize pak timestamp m' i := by
  have hwrites : frameWrites order pattern' bsize pak timestamp =
      frameWrites order pattern bsize pak timestamp := by
    have hdata : pattern'.bytes 0 bsize = pattern.bytes 0 bsize := by
      rw [bytes_eq_iff]
      intro j hj
      rw [zero_add, hpattern j hj]
    rw [frameWrites, frameWrites, hdata]
  have hbase : forall j, j < pakLen bsize -> j ≠ tpCksumPos -> j ≠ bsize + tpHdrLen + tpCksumPos ->
      m.puts (frameWrites order pattern bsize pak timestamp) j =
        m'.puts (frameWrites order pattern bsize pak timestamp) j :=
    fun j hj hsum hsum' => puts_covered (frameWrites_cover hj hsum hsum')
  have hheader : headerSum (m.puts (frameWrites order pattern bsize pak timestamp)) =
      headerSum (m'.puts (frameWrites order pattern bsize pak timestamp)) := by
    have hlow : forall j, j < 9 -> m.puts (frameWrites order pattern bsize pak timestamp) j =
        m'.puts (frameWrites order pattern bsize pak timestamp) j := by
      intro j hj
      apply hbase j <;> simp only [pakLen, tpHdrLen, tpCksumPos, tpSeqLen] <;> omega
    simp only [headerSum, hlow 0, hlow 1, hlow 2, hlow 3, hlow 4, hlow 5, hlow 6, hlow 7,
      hlow 8, Nat.reduceLT]
  unfold frame
  rw [hwrites, cksumWrites, cksumWrites, hheader]
  by_cases hsum : i = tpCksumPos ∨ i = bsize + tpHdrLen + tpCksumPos
  · apply puts_covered
    simp only [mem_cons, not_mem_nil, or_false, exists_eq_or_imp, exists_eq_left, length_singleton]
    omega
  · exact puts_congr (hbase i h (fun h => hsum (.inl h)) fun h => hsum (.inr h))

end

/-!
# Debug blocks
-/

theorem mem_debugBlocks {bsize o : Nat} (h : o ∈ debugBlocks bsize) :
    128 ≤ o ∧ o + 128 < pakLen bsize := by
  simp only [debugBlocks, mem_filter, mem_map, decide_eq_true_eq] at h
  rcases h with ⟨⟨k, _, rfl⟩, hlt⟩
  omega

theorem pairwise_debugBlocks (bsize : Nat) :
    (debugBlocks bsize).Pairwise fun o o' => o + 128 ≤ o' := by
  apply List.Pairwise.filter
  rw [pairwise_map]
  exact pairwise_lt_range.imp fun {k k'} hlt => by omega

theorem debugBlocks_eq_cons {bsize : Nat} (h : 512 ≤ pakLen bsize) :
    exists rest, debugBlocks bsize = 128 :: rest ∧ forall o, o ∈ rest -> 256 ≤ o := by
  have hpos : exists n, pakLen bsize / 128 = n + 1 := ⟨pakLen bsize / 128 - 1, by omega⟩
  rcases hpos with ⟨n, hn⟩
  have hcons : exists rest, debugBlocks bsize = 128 :: rest := by
    unfold debugBlocks
    rw [hn, range_succ_eq_map, map_cons, filter_cons_of_pos]
    · exact ⟨_, rfl⟩
    · rw [decide_eq_true_eq]
      omega
  rcases hcons with ⟨rest, hrest⟩
  have hpairs := pairwise_debugBlocks bsize
  rw [hrest, pairwise_cons] at hpairs
  exact ⟨rest, hrest, hpairs.1⟩

theorem within_seqWrites (order : ByteOrder) (pak : Int) (o : Nat) :
    Within o (o + 128) (seqWrites order pak o) := by
  intro w hw
  simp only [seqWrites, mem_cons, not_mem_nil, or_false] at hw
  rcases hw with rfl | rfl <;> simp [tpSeqLen]

theorem within_identWrites {dev : CString} (h : dev.chars.length < 40) (pid : Int) (o : Nat) :
    Within o (o + 128) (identWrites dev pid o) := by
  intro w hw
  simp only [identWrites, mem_cons, not_mem_nil, or_false] at hw
  rcases hw with rfl | rfl | rfl | rfl | rfl <;> simp <;> omega

theorem bytes_identWrites {dev : CString} (pid : Int) (o : Nat) (m : Memory) :
    (m.puts (identWrites dev pid o)).bytes (o + 18) (dev.chars.length + 14) =
      dev.chars ++ ([0, 0, 0, 0] ++ pidText pid) := by
  have hsplit : dev.chars.length + 14 = dev.chars.length + (4 + 10) := rfl
  have hzeros : o + 18 + dev.chars.length + 4 = o + 22 + dev.chars.length := by omega
  rw [hsplit, bytes_add, bytes_add, hzeros]
  simp only [identWrites, puts_cons, puts_nil]
  congr 1
  · rw [bytes_put_of_disjoint (by omega), bytes_put_of_disjoint (by omega), put_append,
      bytes_put_of_disjoint (by simp), bytes_put_self rfl]
  · congr 1
    · rw [bytes_put_of_disjoint (by omega), bytes_put_self (n := 4) rfl]
    · rw [bytes_put_self (length_pidText pid)]

/-!
# The reader's pattern
-/

def WriterId.peer (id : WriterId) : Peer :=
  ⟨id.pid, id.dev⟩

section

variable {order : ByteOrder} {pattern pattern' rbuf : Memory} {id : WriterId} {r : Stanza}
  {bsize bufLen : Nat} {pak : Int} {timestamp : UInt8} {old old' : Memory} {peer : Peer}

theorem writerPacket_congr (hpattern : forall i, i < bsize -> pattern i = pattern' i)
    (h : i < pakLen bsize) :
    writerPacket order pattern id r bsize pak timestamp old i =
      writerPacket order pattern' id r bsize pak timestamp old' i := by
  unfold writerPacket
  split
  · exact puts_congr (frame_congr hpattern h)
  · exact frame_congr hpattern h

theorem readerPattern_fixed (hdebug : Debugged r bsize)
    (hpattern : forall i, i < bsize -> pattern i = pattern' i)
    (h : i < pakLen bsize) :
    (readerPattern order pattern' r bsize pak timestamp old').puts
        ((debugBlocks bsize).flatMap (identWrites id.dev id.pid)) i =
      writerPacket order pattern id r bsize pak timestamp old i := by
  have hapart : (debugBlocks bsize).Pairwise fun o o' => o + 128 ≤ o' ∨ o' + 128 ≤ o :=
    (pairwise_debugBlocks bsize).imp .inl
  simp only [readerPattern, writerPacket, if_pos hdebug]
  rw [puts_flatMap_append (within_seqWrites order pak) (within_identWrites id.dev_lt id.pid) hapart]
  exact puts_congr (puts_congr (frame_congr (fun j hj => (hpattern j hj).symm) h))

theorem readerPattern_plain (hdebug : ¬ Debugged r bsize)
    (hpattern : forall i, i < bsize -> pattern i = pattern' i)
    (h : i < pakLen bsize) :
    readerPattern order pattern' r bsize pak timestamp old' i =
      writerPacket order pattern id r bsize pak timestamp old i := by
  simp only [readerPattern, writerPacket, if_neg hdebug]
  exact frame_congr (fun j hj => (hpattern j hj).symm) h

theorem bytes_writerPacket_ident (hdebug : Debugged r bsize) :
    (writerPacket order pattern id r bsize pak timestamp old).bytes 146 (id.dev.chars.length + 14) =
      id.dev.chars ++ ([0, 0, 0, 0] ++ pidText id.pid) := by
  have hdev := id.dev_lt
  rcases debugBlocks_eq_cons hdebug.2 with ⟨rest, hblocks, hrest⟩
  have hlater : Within 256 (pakLen bsize)
      (rest.flatMap fun o => seqWrites order pak o ++ identWrites id.dev id.pid o) := by
    intro w hw
    rcases mem_flatMap.mp hw with ⟨o, ho, hw⟩
    have hlow := hrest o ho
    have hhigh := mem_debugBlocks (hblocks ▸ mem_cons_of_mem 128 ho)
    have hin := (within_seqWrites order pak o).append (within_identWrites hdev id.pid o) w hw
    omega
  simp only [writerPacket, if_pos hdebug]
  rw [hblocks, flatMap_cons, puts_append, bytes_puts_of_outside hlater (by omega), puts_append]
  exact bytes_identWrites id.pid 128 _

theorem learn_packet (hdebug : Debugged r bsize) (hlen : pakLen bsize ≤ bufLen)
    (hrbuf : forall i, i < pakLen bsize ->
      rbuf i = writerPacket order pattern id r bsize pak timestamp old i)
    (hpeer : peer.pid = 0 ∨ peer = id.peer) : peer.learn bufLen rbuf = id.peer := by
  have hdev := id.dev_lt
  have hlong := hdebug.2
  have hident : rbuf.bytes 146 (id.dev.chars.length + 14) =
      id.dev.chars ++ ([0, 0, 0, 0] ++ pidText id.pid) := by
    have hsame : rbuf.bytes 146 (id.dev.chars.length + 14) =
        (writerPacket order pattern id r bsize pak timestamp old).bytes 146
          (id.dev.chars.length + 14) := by
      rw [bytes_eq_iff]
      intro i hi
      exact hrbuf (146 + i) (by omega)
    exact hsame.trans (bytes_writerPacket_ident hdebug)
  rcases hpeer with hpid | rfl
  · have hname : CString.ofField (rbuf.bytes 146 (bufLen - 146)) = id.dev := by
      have hsplit : bufLen - 146 =
          id.dev.chars.length + 14 + (bufLen - (160 + id.dev.chars.length)) := by omega
      rw [hsplit, bytes_add, hident, append_assoc]
      exact ofField_string id.dev _
    have htext : rbuf.bytes (146 + id.dev.chars.length + 4) 10 = pidText id.pid := by
      have hsplit : id.dev.chars.length + 14 = id.dev.chars.length + 4 + 10 := rfl
      rw [hsplit, bytes_add, ← append_assoc] at hident
      exact (append_inj hident (by simp)).2
    have hrest : bufLen - (146 + id.dev.chars.length + 4) =
        10 + (bufLen - (160 + id.dev.chars.length)) := by omega
    unfold Peer.learn
    rw [if_pos hpid]
    dsimp only
    rw [hname, hrest, bytes_add, htext, atoi_pidText id.pid_lt]
    rfl
  · have hpid : id.peer.pid ≠ 0 := Int.natCast_ne_zero.mpr (ne_of_gt id.pid_pos)
    rw [Peer.learn, if_neg hpid]

/-!
# Comparing
-/

theorem firstDifference_eq_iff {m m' : Memory} {n : Nat} :
    firstDifference m m' n = -1 <-> forall i, i < n -> m i = m' i := by
  unfold firstDifference
  split
  · rename_i hnone
    simpa using hnone
  · rename_i a ha
    have hdiffer := find?_some ha
    have hmem := mem_of_find?_eq_some ha
    constructor
    · intro h
      omega
    · intro h
      rw [bne_iff_ne] at hdiffer
      exact absurd (h a (mem_range.mp hmem)) hdiffer

theorem doCompare_index_iff (hcompare : r.noCompare = false)
    (hpattern : forall i, i < bsize -> pattern i = pattern' i)
    (hpeer : Debugged r bsize -> peer.learn bufLen rbuf = id.peer) :
    (doCompare r bufLen bsize peer rbuf
        (readerPattern order pattern' r bsize pak timestamp old')).index = -1 <->
      forall i, i < pakLen bsize ->
        rbuf i = writerPacket order pattern id r bsize pak timestamp old i := by
  unfold doCompare
  rw [hcompare]
  split
  · contradiction
  · split
    · rename_i hdebug
      rw [hpeer hdebug, firstDifference_eq_iff]
      constructor
      · intro h i hi
        exact (h i hi).trans (readerPattern_fixed hdebug hpattern hi)
      · intro h i hi
        exact (h i hi).trans (readerPattern_fixed hdebug hpattern hi).symm
    · rename_i hdebug
      rw [firstDifference_eq_iff]
      constructor
      · intro h i hi
        exact (h i hi).trans (readerPattern_plain hdebug hpattern hi)
      · intro h i hi
        exact (h i hi).trans (readerPattern_plain hdebug hpattern hi).symm

variable (hlen : pakLen bsize ≤ bufLen) (hrbuf : forall i, i < pakLen bsize ->
  rbuf i = writerPacket order pattern id r bsize pak timestamp old i)
variable (hpeer : peer.pid = 0 ∨ peer = id.peer)

include hlen hrbuf hpeer

theorem doCompare_packet (hpattern : forall i, i < bsize -> pattern i = pattern' i) :
    (doCompare r bufLen bsize peer rbuf
        (readerPattern order pattern' r bsize pak timestamp old')).index = -1 := by
  cases hcompare : r.noCompare with
  | true =>
    rw [doCompare, hcompare]
    rfl
  | false =>
    have hlearn := fun hdebug => learn_packet hdebug hlen hrbuf hpeer
    exact (doCompare_index_iff hcompare hpattern hlearn).mpr hrbuf

theorem doCompare_peer :
    (doCompare r bufLen bsize peer rbuf pattern').peer.pid = 0 ∨
      (doCompare r bufLen bsize peer rbuf pattern').peer = id.peer := by
  unfold doCompare
  split
  · exact hpeer
  · split
    · rename_i hdebug
      exact .inr (learn_packet hdebug hlen hrbuf hpeer)
    · exact hpeer

end

end Htx.Hxecom
