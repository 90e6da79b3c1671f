import Mathlib

/-!
# Describing the prefetch streams

`do_prefetch` keeps the operand of `dcbtds` in one variable, and sets the id of every stream
by an OR on top of the ids before it.
-/

namespace Htx.Hxecache

open BitVec List

/-- The operands of one loop over the ids, and the value that it leaves behind. -/
def orIds (ea : BitVec 64) : List (BitVec 64) -> List (BitVec 64) × BitVec 64
  | [] => ([], ea)
  | id :: ids => ((ea ||| id) :: (orIds (ea ||| id) ids).1, (orIds (ea ||| id) ids).2)

structure Operands where
  dcbtds : List (BitVec 64)
  dcbtds0xA : List (BitVec 64)
  go : BitVec 64

def upperWord : BitVec 64 := 0xffffffff00000000

def depthMask (randomNo : BitVec 64) : BitVec 64 :=
  (randomNo &&& 7) <<< 25 ||| 0x20

section

variable (startingAddress memoryFetchSize randomNo : BitVec 64) (threadNo streams : BitVec 32)

/-- An id is an `int`, computed from `unsigned int` values. -/
def streamId (i : Nat) : BitVec 64 :=
  ((threadNo - 1) * streams + BitVec.ofNat 32 i).signExtend 64

def streamStart : BitVec 64 :=
  (if startingAddress &&& 0x40 ≠ 0 then startingAddress + memoryFetchSize
    else startingAddress) >>> 4 <<< 4

def doPrefetch : Operands :=
  let ids := (range streams.toNat).map (streamId threadNo streams)
  let first := orIds (streamStart startingAddress memoryFetchSize) ids
  let second := orIds (first.2 &&& upperWord ||| depthMask randomNo) ids
  ⟨first.1, second.1, (second.2 ||| 0x8000) >>> 4 <<< 4⟩

/-!
# What the operands are to be
-/

def streamNo (i : Nat) : Int :=
  (threadNo.toNat - 1) * streams.toNat + i

def idList : List (BitVec 64) :=
  (range streams.toNat).map fun i => BitVec.ofInt 64 (streamNo threadNo streams i)

def described : BitVec 64 :=
  streamStart startingAddress memoryFetchSize &&& upperWord ||| depthMask randomNo

structure Described : Prop where
  fits : forall i, i < streams.toNat ->
    0 ≤ streamNo threadNo streams i ∧ streamNo threadNo streams i < 16
  first : (doPrefetch startingAddress memoryFetchSize randomNo threadNo streams).dcbtds =
    (idList threadNo streams).map (streamStart startingAddress memoryFetchSize ||| ·)
  second : (doPrefetch startingAddress memoryFetchSize randomNo threadNo streams).dcbtds0xA =
    (idList threadNo streams).map (described startingAddress memoryFetchSize randomNo ||| ·)

/-- The streams are described, and the last operand starts them.  Bits are counted from the
left, as in the diagrams of the source: `GO` is bit 32. -/
structure WellFormed : Prop extends
    Described startingAddress memoryFetchSize randomNo threadNo streams where
  goBit :
    (doPrefetch startingAddress memoryFetchSize randomNo threadNo streams).go.getMsbD 32 = true
  goId : (doPrefetch startingAddress memoryFetchSize randomNo threadNo streams).go &&& 15 = 0

end

variable {startingAddress memoryFetchSize randomNo : BitVec 64} {threadNo streams : BitVec 32}

theorem streamId_eq {i : Nat} (h : 0 ≤ streamNo threadNo streams i ∧
    streamNo threadNo streams i < 16) :
    streamId threadNo streams i = BitVec.ofInt 64 (streamNo threadNo streams i) := by
  have hword : (threadNo - 1) * streams + BitVec.ofNat 32 i =
      BitVec.ofInt 32 (streamNo threadNo streams i) := by
    rw [streamNo, BitVec.ofInt_add, BitVec.ofInt_mul, Int.sub_eq_add_neg, BitVec.ofInt_add,
      BitVec.ofInt_neg, ofInt_natCast, ofInt_natCast, ofInt_natCast, ofNat_toNat, ofNat_toNat,
      setWidth_eq, setWidth_eq, BitVec.sub_eq_add_neg]
    rfl
  rw [streamId, hword]
  apply eq_of_toInt_eq
  rw [toInt_signExtend_of_le (by decide), toInt_ofInt, toInt_ofInt, Int.bmod_eq_of_le,
    Int.bmod_eq_of_le] <;> omega

theorem map_streamId (h : forall i, i < streams.toNat ->
    0 ≤ streamNo threadNo streams i ∧ streamNo threadNo streams i < 16) :
    (range streams.toNat).map (streamId threadNo streams) = idList threadNo streams :=
  map_congr_left fun i hi => streamId_eq (h i (mem_range.mp hi))

theorem idList_eq (hthread : 1 ≤ threadNo.toNat) : idList threadNo streams =
    (range streams.toNat).map fun i =>
      BitVec.ofNat 64 ((threadNo.toNat - 1) * streams.toNat + i) := by
  refine map_congr_left fun i _ => ?_
  rw [← ofInt_natCast]
  push_cast [hthread]
  rfl

/-!
# The last operand
-/

theorem orIds_snd_mem (ea : BitVec 64) {ids : List (BitVec 64)} (h : ids ≠ []) :
    (orIds ea ids).2 ∈ (orIds ea ids).1 := by
  induction ids generalizing ea with
  | nil => exact absurd rfl h
  | cons id ids ih =>
    cases ids with
    | nil => exact mem_cons_self
    | cons id' ids => exact mem_cons_of_mem _ (ih (ea ||| id) (cons_ne_nil id' ids))

theorem described_bit :
    (described startingAddress memoryFetchSize randomNo).getMsbD 32 = false := by
  simp [described, upperWord, depthMask, getMsbD_eq_getLsbD]

theorem id_bit {v : Int} (hlow : 0 ≤ v) (hhigh : v < 16) :
    (BitVec.ofInt 64 v).getMsbD 32 = false := by
  lift v to Nat using hlow
  rw [ofInt_natCast, getMsbD_eq_getLsbD, getLsbD_ofNat, Nat.testBit_lt_two_pow (by omega),
    Bool.and_false, Bool.and_false]

/-- The code sets bit 48 for `GO`, and a stream id of four bits does not set bit 32 either. -/
theorem go_never_set (startingAddress memoryFetchSize randomNo : BitVec 64)
    (threadNo streams : BitVec 32) :
    ¬ WellFormed startingAddress memoryFetchSize randomNo threadNo streams := by
  intro h
  have hids := map_streamId h.fits
  have hgo := h.goBit
  have hsecond := h.second
  simp only [doPrefetch, hids] at hgo hsecond
  by_cases hnil : idList threadNo streams = []
  · rw [hnil] at hgo
    simp [orIds, upperWord, depthMask] at hgo
  · have hmem := orIds_snd_mem ((orIds (streamStart startingAddress memoryFetchSize)
      (idList threadNo streams)).2 &&& upperWord ||| depthMask randomNo) hnil
    rw [hsecond] at hmem
    obtain ⟨id, hid, hlast⟩ := mem_map.mp hmem
    obtain ⟨i, hi, rfl⟩ := mem_map.mp hid
    obtain ⟨hlow, hhigh⟩ := h.fits i (mem_range.mp hi)
    rw [← hlast] at hgo
    simp [described_bit, id_bit hlow hhigh] at hgo

/-!
# The streams
-/

theorem id_bits : forall id, id < 16 -> BitVec.ofNat 64 id &&& upperWord = 0#64 ∧ (id % 2 = 0 ->
      BitVec.ofNat 64 id ||| BitVec.ofNat 64 (id + 1) = BitVec.ofNat 64 (id + 1)) := by
  decide

/-- With at most two ids, of which the first is even, the one before leaves no trace. -/
theorem orIds_few {base n : Nat} (hfew : n ≤ 2) (heven : n = 2 -> base % 2 = 0)
    (hlast : base + n ≤ 16) : exists last : BitVec 64, last &&& upperWord = 0#64 ∧ forall ea,
      orIds ea ((range n).map fun i => BitVec.ofNat 64 (base + i)) =
        (((range n).map fun i => BitVec.ofNat 64 (base + i)).map (ea ||| ·), ea ||| last) := by
  interval_cases n
  · exact ⟨0, rfl, fun ea => Prod.ext rfl (or_zero ..).symm⟩
  · exact ⟨_, (id_bits base (by omega)).1, fun ea => rfl⟩
  · have habsorbs := (id_bits base (by omega)).2 (heven rfl)
    refine ⟨_, (id_bits (base + 1) (by omega)).1, fun ea => ?_⟩
    have hboth : ea ||| BitVec.ofNat 64 base ||| BitVec.ofNat 64 (base + 1) =
        ea ||| BitVec.ofNat 64 (base + 1) := by
      rw [BitVec.or_assoc, habsorbs]
    exact congrArg (fun ea' => ([ea ||| BitVec.ofNat 64 base, ea'], ea')) hboth

theorem described_of_few (hthread : 1 ≤ threadNo.toNat) (hfew : streams.toNat ≤ 2)
    (hids : threadNo.toNat * streams.toNat ≤ 16) :
    Described startingAddress memoryFetchSize randomNo threadNo streams := by
  have hlast : (threadNo.toNat - 1) * streams.toNat + streams.toNat ≤ 16 := by
    rw [← Nat.succ_mul, Nat.succ_eq_add_one, Nat.sub_add_cancel hthread]
    exact hids
  have hfits : forall i, i < streams.toNat ->
      0 ≤ streamNo threadNo streams i ∧ streamNo threadNo streams i < 16 := by
    intro i hi
    have hno : streamNo threadNo streams i =
        ((threadNo.toNat - 1) * streams.toNat + i : Nat) := by
      push_cast [hthread]
      rfl
    omega
  obtain ⟨last, hupper, hor⟩ := orIds_few hfew (fun htwo => by rw [htwo]; omega) hlast
  rw [← idList_eq hthread] at hor
  refine ⟨hfits, ?_, ?_⟩
  · simp only [doPrefetch, map_streamId hfits, hor]
  · simp only [doPrefetch, map_streamId hfits, hor, and_or_distrib_right, hupper, or_zero]
    rfl

/-- Of three ids one after the other, the second or the third is even behind an odd one. -/
theorem few_of_first (hthread : 1 ≤ threadNo.toNat)
    (h : (orIds (streamStart startingAddress memoryFetchSize) (idList threadNo streams)).1 =
      (idList threadNo streams).map (streamStart startingAddress memoryFetchSize ||| ·)) :
    streams.toNat ≤ 2 := by
  by_contra hmany
  obtain ⟨n, hn⟩ := Nat.exists_eq_add_of_lt (Nat.lt_of_not_le hmany)
  rw [idList_eq hthread, hn, show 2 + n + 1 = n + 1 + 1 + 1 by omega, range_succ_eq_map,
    range_succ_eq_map, range_succ_eq_map] at h
  simp only [map_cons, orIds, cons.injEq] at h
  have hsecond := congrArg (·.getLsbD 0) h.2.1
  have hthird := congrArg (·.getLsbD 0) h.2.2.1
  simp only [streamStart, getLsbD_or, getLsbD_shiftLeft, getLsbD_ofNat, Nat.testBit_zero]
    at hsecond hthird
  simp at hsecond hthird
  omega

/-- The ids of a thread are described one by one exactly if there are at most two of them, in
the room of four bits. -/
theorem described_iff (startingAddress memoryFetchSize randomNo : BitVec 64)
    (threadNo streams : BitVec 32) :
    Described startingAddress memoryFetchSize randomNo threadNo streams <->
      streams.toNat = 0 ∨ 1 ≤ threadNo.toNat ∧ streams.toNat ≤ 2 ∧
        threadNo.toNat * streams.toNat ≤ 16 := by
  constructor
  · intro h
    rcases Nat.eq_zero_or_pos streams.toNat with hzero | hpos
    · exact .inl hzero
    · have hbase := (h.fits 0 hpos).1
      have hlast := (h.fits (streams.toNat - 1) (by omega)).2
      unfold streamNo at hbase hlast
      have hthread : 1 ≤ threadNo.toNat := by
        by_contra hnone
        rw [Nat.eq_zero_of_not_pos hnone] at hbase
        omega
      have hfirst := h.first
      simp only [doPrefetch, map_streamId h.fits] at hfirst
      refine .inr ⟨hthread, few_of_first hthread hfirst, ?_⟩
      push_cast [hpos] at hlast
      zify
      linarith
  · rintro (hzero | ⟨hthread, hfew, hids⟩)
    · have hnil : idList threadNo streams = [] := by
        rw [idList, hzero]
        rfl
      refine ⟨fun i hi => absurd hi (by omega), ?_, ?_⟩
      all_goals simp [doPrefetch, hnil, hzero, orIds]
    · exact described_of_few hthread hfew hids

/-- Thread 1 with two streams, which are described but not started; with four streams, of which
the third one gets the id of the fourth; and thread 0, whose ids are negative, so that all bits
of the address are set. -/
theorem streams_malformed : ¬ WellFormed 0x10000 256 5 1 2 ∧
    (doPrefetch 0x10000 256 5 1 2).go = 0xa008020 ∧
    (doPrefetch 0x10000 256 5 1 4).dcbtds = [0x10000, 0x10001, 0x10003, 0x10003] ∧
    (doPrefetch 0x10000 256 5 0 4).dcbtds.head? = some 0xfffffffffffffffc := by
  refine ⟨fun h => ?_, by decide, by decide, by decide⟩
  exact absurd h.goBit (by decide)

end Htx.Hxecache
