import Htx.Hxestorage.ThreadAccounting
import Htx.Library.Consecutive
import Htx.Library.Shares

/-!
# Limits of the segment tables

`segment_table_init` divides the blocks of the disk among as many tables as the threads of
the rule file need.  Block numbers have 64 bits, but sizes and running offsets are `int`s.
-/

namespace Htx.Hxestorage

open List Nat Library

def RuleParam.numThreadsOf? : RuleParam -> Option Nat
  | .numThreads n => some n
  | .numThreadsOf uses => some (u32 (uses.map Prod.fst).sum)
  | _ => none

def ruleLines (file : List Stanza) : List RuleParam :=
  file.flatMap fun stanza =>
    match stanza with
    | .template _ => []
    | .rule _ params => params

def maxThreadCnt (file : List Stanza) : Nat :=
  ((ruleLines file).filterMap RuleParam.numThreadsOf?).foldl max 0

def segTableLimit : Nat := 20

def segTableSizeLength : Nat := 52

def numOfSegTables (totalMaxThreadCnt : Nat) : Nat :=
  totalMaxThreadCnt / segTableLimit + if totalMaxThreadCnt % segTableLimit ≠ 0 then 1 else 0

def intAdd (a b : Int) : Option Int :=
  if -2 ^ 31 ≤ a + b ∧ a + b < 2 ^ 31 then some (a + b) else none

def averageOf (maxblk n : Nat) : Int :=
  signed32 (u64 (maxblk + 1 : Nat) / n)

def restOf (maxblk n : Nat) : Nat :=
  u64 (maxblk + 1 : Nat) % n

def averageSizes (maxblk n : Nat) : Option (List Int) :=
  if segTableSizeLength < n then none
  else some (replicate n (averageOf maxblk n))

def addRest : Nat -> List Int -> Option (List Int)
  | 0, sizes => some sizes
  | _ + 1, [] => none
  | r + 1, size :: rest =>
    match intAdd size 1 with
    | none => none
    | some size => (addRest r rest).map fun rest => size :: rest

def setLimits : Int -> List Int -> Option (List (Nat × Nat))
  | _, [] => some []
  | prev, size :: rest =>
    match intAdd prev size with
    | none => none
    | some next =>
      match intAdd next (-1) with
      | none => none
      | some upper =>
        (setLimits next rest).map fun rest => (u64 prev, u64 upper) :: rest

/-- `segment_table_init`: the limits of the tables.  A sum of the thread counts that is not an
`int` would need more tables than `seg_table_size` has places. -/
def segmentTableInit (maxThreadCnt totalBwrcThreads maxblk : Nat) : Option (List (Nat × Nat)) :=
  let n := numOfSegTables (maxThreadCnt + totalBwrcThreads)
  match averageSizes maxblk n with
  | none => none
  | some sizes =>
    if n = 0 then none
    else
      match addRest (restOf maxblk n) sizes with
      | none => none
      | some sizes => setLimits 0 sizes

def lowerOf (limits : List (Nat × Nat)) (i : Nat) : Nat :=
  (limits.getD i (0, 0)).1

def upperOf (limits : List (Nat × Nat)) (i : Nat) : Nat :=
  (limits.getD i (0, 0)).2

def Partitions (limits : List (Nat × Nat)) (maxblk : Nat) : Prop :=
  Consecutive limits.length (lowerOf limits) (upperOf limits) 0 maxblk

def Partitions.segmentLimits {limits : List (Nat × Nat)} {maxblk : Nat}
    (h : Partitions limits maxblk) : SegmentLimits where
  maxblk := maxblk
  numOfSegTables := limits.length
  lbaLowerLimit := lowerOf limits
  lbaUpperLimit := upperOf limits
  numOfSegTables_pos := h.pos
  lower_zero := h.lower_zero
  lower_le_upper := h.lower_le_upper
  lower_succ := h.lower_succ
  upper_last := h.upper_last

/-!
# What the loops leave
-/

def tableSize (average : Int) (r i : Nat) : Int :=
  average + if i < r then 1 else 0

def tableOffset (average : Int) (r i : Nat) : Int :=
  i * average + (min i r : Nat)

theorem tableOffset_zero (average : Int) (r : Nat) : tableOffset average r 0 = 0 := by
  simp [tableOffset]

theorem tableOffset_succ (average : Int) (r i : Nat) :
    tableOffset average r (i + 1) = tableOffset average r i + tableSize average r i := by
  unfold tableOffset tableSize
  have hmin : min (i + 1) r = min i r + if i < r then 1 else 0 := by
    split <;> omega
  rw [hmin]
  push_cast
  ring

def IsInt (x : Int) : Prop :=
  -2 ^ 31 ≤ x ∧ x < 2 ^ 31

theorem intAdd_eq_some_iff {a b c : Int} : intAdd a b = some c <-> IsInt c ∧ c = a + b := by
  unfold intAdd IsInt
  split
  · next h =>
      constructor
      · intro hc
        cases hc
        exact ⟨h, rfl⟩
      · rintro ⟨-, rfl⟩
        rfl
  · next h =>
      constructor
      · intro hc
        cases hc
      · rintro ⟨hc, rfl⟩
        exact absurd hc h

theorem addRest_eq_some {average : Int} {n r : Nat} {sizes : List Int}
    (h : addRest r (replicate n average) = some sizes) :
    sizes = (range n).map (tableSize average r) := by
  induction r generalizing n sizes with
  | zero =>
    cases h
    apply ext_getElem
    · simp
    · intro i _ _
      simp [tableSize]
  | succ r ih =>
    cases n with
    | zero => cases h
    | succ n =>
      rw [replicate_succ, addRest] at h
      split at h
      · cases h
      · next size hsize =>
          obtain ⟨rest, hrest, rfl⟩ := Option.map_eq_some_iff.mp h
          rw [(intAdd_eq_some_iff.mp hsize).2, ih hrest, range_succ_eq_map, map_cons, map_map]
          have htail : (tableSize average (r + 1)) ∘ succ = tableSize average r := by
            funext i
            simp [tableSize]
          rw [htail]
          simp [tableSize]

theorem addRest_exists {average : Int} {n r : Nat} (hr : r ≤ n)
    (hint : r = 0 ∨ IsInt (average + 1)) :
    exists sizes, addRest r (replicate n average) = some sizes := by
  induction r generalizing n with
  | zero => exact ⟨_, rfl⟩
  | succ r ih =>
    obtain ⟨n, rfl⟩ := exists_eq_add_one.mpr (zero_lt_of_lt hr)
    have hint := hint.resolve_left (succ_ne_zero r)
    obtain ⟨sizes, hsizes⟩ := ih (n := n) (by omega) (.inr hint)
    rw [replicate_succ, addRest, intAdd_eq_some_iff.mpr ⟨hint, rfl⟩]
    rw [hsizes]
    exact ⟨_, rfl⟩

theorem setLimits_eq_some_iff (average : Int) (r i m : Nat) (limits : List (Nat × Nat)) :
    setLimits (tableOffset average r i) ((range' i m).map (tableSize average r)) =
        some limits <->
      (forall j, i ≤ j -> j < i + m -> IsInt (tableOffset average r (j + 1)) ∧
        IsInt (tableOffset average r (j + 1) - 1)) ∧
      limits = (range' i m).map fun j =>
        (u64 (tableOffset average r j), u64 (tableOffset average r (j + 1) - 1)) := by
  induction m generalizing i limits with
  | zero =>
    constructor
    · intro h
      cases h
      exact ⟨fun j hle hlt => absurd hlt (by omega), rfl⟩
    · rintro ⟨-, rfl⟩
      rfl
  | succ m ih =>
    rw [range'_succ, map_cons, map_cons, setLimits]
    have ih := ih (i + 1)
    constructor
    · intro h
      split at h
      · cases h
      · next next hnext =>
          obtain ⟨hint, rfl⟩ := intAdd_eq_some_iff.mp hnext
          split at h
          · cases h
          · next upper hupper =>
              obtain ⟨hint', rfl⟩ := intAdd_eq_some_iff.mp hupper
              obtain ⟨rest, hrest, rfl⟩ := Option.map_eq_some_iff.mp h
              rw [← tableOffset_succ] at hint hint' hrest ⊢
              obtain ⟨hints, rfl⟩ := (ih rest).mp hrest
              refine ⟨fun j hle hlt => ?_, rfl⟩
              rcases eq_or_lt_of_le hle with rfl | hgt
              · exact ⟨hint, hint'⟩
              · exact hints j hgt (by omega)
    · rintro ⟨hints, rfl⟩
      have hfirst := hints i le_rfl (by omega)
      rw [intAdd_eq_some_iff.mpr ⟨hfirst.1, tableOffset_succ average r i⟩]
      dsimp only
      rw [intAdd_eq_some_iff.mpr ⟨hfirst.2, rfl⟩]
      rw [(ih _).mpr ⟨fun j hle hlt => hints j (by omega) (by omega), rfl⟩]
      rfl

section

variable {maxThreadCnt totalBwrcThreads maxblk : Nat} {limits : List (Nat × Nat)}

def limitsOf (maxblk n : Nat) : List (Nat × Nat) :=
  (range n).map fun i =>
    (u64 (tableOffset (averageOf maxblk n) (restOf maxblk n) i),
      u64 (tableOffset (averageOf maxblk n) (restOf maxblk n) (i + 1) - 1))

variable {n : Nat}

theorem lowerOf_limitsOf {i : Nat} (hi : i < n) : lowerOf (limitsOf maxblk n) i =
      u64 (tableOffset (averageOf maxblk n) (restOf maxblk n) i) := by
  unfold lowerOf limitsOf
  rw [getD_eq_getElem _ _ (by rwa [length_map, length_range]), getElem_map, getElem_range]

theorem upperOf_limitsOf {i : Nat} (hi : i < n) : upperOf (limitsOf maxblk n) i =
      u64 (tableOffset (averageOf maxblk n) (restOf maxblk n) (i + 1) - 1) := by
  unfold upperOf limitsOf
  rw [getD_eq_getElem _ _ (by rwa [length_map, length_range]), getElem_map, getElem_range]

theorem length_limitsOf (maxblk n : Nat) : (limitsOf maxblk n).length = n := by
  rw [limitsOf, length_map, length_range]

def IntLimits (maxblk n : Nat) : Prop :=
  forall i, i < n -> IsInt (tableOffset (averageOf maxblk n) (restOf maxblk n) (i + 1)) ∧
    IsInt (tableOffset (averageOf maxblk n) (restOf maxblk n) (i + 1) - 1)

theorem segmentTableInit_some
    (h : segmentTableInit maxThreadCnt totalBwrcThreads maxblk = some limits) :
    exists n, n = numOfSegTables (maxThreadCnt + totalBwrcThreads) ∧ 0 < n ∧
      n ≤ segTableSizeLength ∧ IntLimits maxblk n ∧ limits = limitsOf maxblk n := by
  unfold segmentTableInit at h
  dsimp only at h
  generalize numOfSegTables (maxThreadCnt + totalBwrcThreads) = n at h
  unfold averageSizes at h
  by_cases hmany : segTableSizeLength < n
  · rw [if_pos hmany] at h
    cases h
  · rw [if_neg hmany] at h
    dsimp only at h
    by_cases hzero : n = 0
    · rw [if_pos hzero] at h
      cases h
    · rw [if_neg hzero] at h
      split at h
      · cases h
      · next sizes hsizes =>
          rw [addRest_eq_some hsizes, range_eq_range',
            ← tableOffset_zero (averageOf maxblk n) (restOf maxblk n)] at h
          have hlimits := (setLimits_eq_some_iff _ _ 0 n limits).mp h
          refine ⟨n, rfl, Nat.pos_of_ne_zero hzero, Nat.le_of_not_lt hmany,
            fun i hi => hlimits.1 i (Nat.zero_le i) (by omega), ?_⟩
          rw [hlimits.2, limitsOf, range_eq_range']

theorem segmentTableInit_eq (hn : n = numOfSegTables (maxThreadCnt + totalBwrcThreads))
    (hpos : 0 < n) (hle : n ≤ segTableSizeLength)
    (hrest : restOf maxblk n = 0 ∨ IsInt (averageOf maxblk n + 1))
    (hints : IntLimits maxblk n) :
    segmentTableInit maxThreadCnt totalBwrcThreads maxblk = some (limitsOf maxblk n) := by
  have hlt : restOf maxblk n < n := Nat.mod_lt _ hpos
  obtain ⟨sizes, hsizes⟩ := addRest_exists hlt.le hrest
  have hlimits := (setLimits_eq_some_iff (averageOf maxblk n) (restOf maxblk n) 0 n
    (limitsOf maxblk n)).mpr
    ⟨fun i _ hi => hints i (by omega), by rw [limitsOf, range_eq_range']⟩
  unfold segmentTableInit
  dsimp only
  rw [← hn, averageSizes, if_neg (Nat.not_lt_of_le hle)]
  dsimp only
  rw [if_neg hpos.ne']
  rw [hsizes]
  rw [addRest_eq_some hsizes, range_eq_range', ← hlimits, tableOffset_zero]

/-!
# When the tables partition the disk
-/

theorem u64_of_nonneg {x : Int} (h : 0 ≤ x) (hlt : x < 2 ^ 64) : (u64 x : Int) = x := by
  unfold u64
  omega

theorem u64_of_neg {x : Int} (h : x < 0) (hge : -2 ^ 64 ≤ x) : (u64 x : Int) = x + 2 ^ 64 := by
  unfold u64
  omega

theorem numOfSegTables_bounds (threads : Nat) : (0 < numOfSegTables threads <-> 0 < threads) ∧
      (numOfSegTables threads ≤ segTableSizeLength <-> threads ≤ 1040) ∧
      (numOfSegTables threads ≤ 1 <-> threads ≤ 20) := by
  unfold numOfSegTables segTableLimit segTableSizeLength
  split <;> omega

/-- There are threads and not too many, and the disk has less than 2^31 blocks.  (With one table,
a size of almost 2^64 comes out right when it is converted back.) -/
def TablesFit (threads maxblk : Nat) : Prop :=
  0 < threads ∧ threads ≤ 1040 ∧ (maxblk + 1 < 2 ^ 31 ∨ (threads ≤ 20 ∧ 2 ^ 64 - 2 ^ 31 ≤ maxblk))

instance (threads maxblk : Nat) : Decidable (TablesFit threads maxblk) :=
  inferInstanceAs (Decidable (_ ∧ _))

theorem tableOffset_one (average : Int) (r : Nat) :
    tableOffset average r 1 = average + (min 1 r : Nat) := by
  simp [tableOffset]

theorem tableOffset_two (average : Int) (r : Nat) :
    tableOffset average r 2 = 2 * average + (min 2 r : Nat) := by
  simp [tableOffset]

theorem tableOffset_pos {average : Int} {r : Nat} (hn : 0 < n) (h : 0 < tableOffset average r 1) :
    0 < tableOffset average r n := by
  rw [tableOffset_one] at h
  unfold tableOffset
  rcases lt_or_ge 0 average with hpos | hle
  · have := mul_pos (Int.natCast_pos.mpr hn) hpos
    omega
  · have hzero : average = 0 := by omega
    rw [hzero, mul_zero]
    omega

theorem Partitions.first_pos (hn : 1 < n) (h : Partitions (limitsOf maxblk n) maxblk)
    (hints : IntLimits maxblk n) :
    0 < tableOffset (averageOf maxblk n) (restOf maxblk n) 1 := by
  have hlen := length_limitsOf maxblk n
  have hnext := h.lower_succ 0 (by omega)
  have hsecond := h.lower_le_upper 1 (by omega)
  rw [lowerOf_limitsOf hn, upperOf_limitsOf (by omega)] at hnext
  rw [lowerOf_limitsOf hn, upperOf_limitsOf hn] at hsecond
  have hone := (hints 0 (by omega)).1
  have htwo := (hints 1 hn).2
  rw [zero_add] at hnext hone
  have hstep : tableOffset (averageOf maxblk n) (restOf maxblk n) 2 ≤
      2 * tableOffset (averageOf maxblk n) (restOf maxblk n) 1 := by
    rw [tableOffset_one, tableOffset_two]
    omega
  generalize tableOffset (averageOf maxblk n) (restOf maxblk n) 1 = first at *
  generalize tableOffset (averageOf maxblk n) (restOf maxblk n) (1 + 1) = second at *
  unfold IsInt at hone htwo
  by_contra hnot
  rcases lt_or_eq_of_le (not_lt.mp hnot) with hneg | hzero
  · -- the second table would end before it begins
    have hlower := u64_of_neg hneg (by omega)
    have hupper := u64_of_neg (x := second - 1) (by omega) (by omega)
    omega
  · -- the first table would end at the last number there is
    have hlower := u64_of_nonneg (x := first) (by omega) (by omega)
    have hupper := u64_of_neg (x := first - 1) (by omega) (by omega)
    omega

theorem Partitions.blocks_fit (hn : 0 < n) (h : Partitions (limitsOf maxblk n) maxblk)
    (hints : IntLimits maxblk n) :
    maxblk + 1 < 2 ^ 31 ∨ (n ≤ 1 ∧ 2 ^ 64 - 2 ^ 31 ≤ maxblk) := by
  have hlen := length_limitsOf maxblk n
  have hlast := h.upper_last
  rw [hlen, upperOf_limitsOf (by omega), Nat.sub_add_cancel hn] at hlast
  obtain ⟨hlastInt, hlastInt'⟩ := hints (n - 1) (by omega)
  rw [Nat.sub_add_cancel hn] at hlastInt hlastInt'
  unfold IsInt at hlastInt hlastInt'
  by_cases hpos : 0 < tableOffset (averageOf maxblk n) (restOf maxblk n) n
  · left
    have hvalue := u64_of_nonneg
      (x := tableOffset (averageOf maxblk n) (restOf maxblk n) n - 1) (by omega) (by omega)
    omega
  · right
    have hvalue := u64_of_neg
      (x := tableOffset (averageOf maxblk n) (restOf maxblk n) n - 1) (by omega) (by omega)
    refine ⟨?_, by omega⟩
    by_contra hmany
    exact hpos (tableOffset_pos hn (h.first_pos (Nat.lt_of_not_le hmany) hints))

theorem tableOffset_eq_sharesBefore (hblk : maxblk + 1 < 2 ^ 31) (i : Nat) :
    tableOffset (averageOf maxblk n) (restOf maxblk n) i =
      (sharesBefore (maxblk + 1) n i : Nat) := by
  have hu64 : u64 (maxblk + 1 : Nat) = maxblk + 1 := by
    unfold u64
    omega
  have haverage : averageOf maxblk n = ((maxblk + 1) / n : Nat) := by
    have hle := div_le_self (maxblk + 1) n
    unfold averageOf signed32
    rw [hu64]
    generalize (maxblk + 1) / n = quotient at *
    exact Int.bmod_eq_of_le (by omega) (by omega)
  rw [tableOffset, haverage, restOf, hu64, sharesBefore]
  push_cast
  ring

theorem partitions_shares (hpos : 0 < n) (hblk : maxblk + 1 < 2 ^ 31) (hmaxblk : n ≤ maxblk) :
    IntLimits maxblk n ∧
    Partitions (limitsOf maxblk n) maxblk := by
  have hle : forall i, i ≤ n -> sharesBefore (maxblk + 1) n i ≤ maxblk + 1 := by
    intro i hi
    have hmono := sharesBefore_mono (maxblk + 1) n hi
    rwa [sharesBefore_self hpos] at hmono
  have hshare : forall i, 0 < share (maxblk + 1) n i := by
    intro i
    have := div_pos (show n ≤ maxblk + 1 by omega) hpos
    unfold share
    omega
  have hlower : forall i, i < n ->
      lowerOf (limitsOf maxblk n) i = sharesBefore (maxblk + 1) n i := by
    intro i hi
    have := hle i hi.le
    rw [lowerOf_limitsOf hi, tableOffset_eq_sharesBefore hblk]
    unfold u64
    omega
  have hupper : forall i, i < n ->
      upperOf (limitsOf maxblk n) i + 1 = sharesBefore (maxblk + 1) n (i + 1) := by
    intro i hi
    have := hle (i + 1) hi
    have := hshare i
    have := sharesBefore_succ (maxblk + 1) n i
    rw [upperOf_limitsOf hi, tableOffset_eq_sharesBefore hblk]
    unfold u64
    omega
  constructor
  · intro i hi
    have := hle (i + 1) hi
    rw [tableOffset_eq_sharesBefore hblk]
    unfold IsInt
    omega
  · unfold Partitions
    rw [length_limitsOf]
    refine ⟨hpos, ?_, fun i hi => ?_, fun i hi => ?_, ?_⟩
    · rw [hlower 0 hpos, sharesBefore_zero]
    · have := hlower i hi
      have := hupper i hi
      have := hshare i
      have := sharesBefore_succ (maxblk + 1) n i
      omega
    · rw [hlower (i + 1) hi, hupper i (by omega)]
    · have hlast := hupper (n - 1) (by omega)
      rw [Nat.sub_add_cancel hpos, sharesBefore_self hpos] at hlast
      omega

theorem partitions_one (h64 : maxblk < 2 ^ 64) (hmaxblk : 2 ^ 64 - 2 ^ 31 ≤ maxblk) :
    IsInt (tableOffset (averageOf maxblk 1) (restOf maxblk 1) 1) ∧
    IsInt (tableOffset (averageOf maxblk 1) (restOf maxblk 1) 1 - 1) ∧
    Partitions (limitsOf maxblk 1) maxblk := by
  have hoffset : tableOffset (averageOf maxblk 1) (restOf maxblk 1) 1 =
      (maxblk : Int) + 1 - 2 ^ 64 := by
    rw [tableOffset_one, restOf, Nat.mod_one, averageOf, Nat.div_one]
    unfold signed32 u64
    rw [Int.bmod_def]
    split <;> omega
  unfold Partitions IsInt
  rw [length_limitsOf, hoffset]
  refine ⟨by omega, by omega, one_pos, ?_, fun i hi => ?_, fun i hi => ?_, ?_⟩
  · rw [lowerOf_limitsOf one_pos, tableOffset_zero]
    rfl
  · have hzero : i = 0 := by omega
    subst hzero
    rw [lowerOf_limitsOf one_pos, tableOffset_zero]
    exact zero_le _
  · omega
  · rw [upperOf_limitsOf Nat.one_pos, Nat.zero_add, hoffset]
    unfold u64
    omega

theorem segmentTableInit_partitions_iff (h64 : maxblk < 2 ^ 64)
    (htables : numOfSegTables (maxThreadCnt + totalBwrcThreads) ≤ maxblk) :
    (exists limits, segmentTableInit maxThreadCnt totalBwrcThreads maxblk = some limits ∧
        Partitions limits maxblk) <->
      TablesFit (maxThreadCnt + totalBwrcThreads) maxblk := by
  have hbounds := numOfSegTables_bounds (maxThreadCnt + totalBwrcThreads)
  constructor
  · intro h
    rcases h with ⟨limits, hinit, hpartitions⟩
    rcases segmentTableInit_some hinit with ⟨n, rfl, hpos, hle, hints, rfl⟩
    have hfit := hpartitions.blocks_fit hpos hints
    rw [hbounds.2.2] at hfit
    exact ⟨hbounds.1.mp hpos, hbounds.2.1.mp hle, hfit⟩
  · intro h
    rcases h with ⟨hsome, hmany, hfit⟩
    have hpos := hbounds.1.mpr hsome
    have hle := hbounds.2.1.mpr hmany
    refine ⟨limitsOf maxblk (numOfSegTables (maxThreadCnt + totalBwrcThreads)), ?_⟩
    rcases hfit with hblk | hfew
    · rcases partitions_shares hpos hblk htables with ⟨hints, hpartitions⟩
      refine ⟨segmentTableInit_eq rfl hpos hle ?_ hints, hpartitions⟩
      -- with a rest the first table is one block larger than the average
      refine (eq_zero_or_pos _).imp_right fun hrest => ?_
      have hfirst := (hints 0 hpos).1
      rwa [zero_add, tableOffset_one, min_eq_left hrest] at hfirst
    · have hone : numOfSegTables (maxThreadCnt + totalBwrcThreads) = 1 := by
        omega
      rcases partitions_one h64 hfew.2 with ⟨hint, hint', hpartitions⟩
      rw [hone]
      refine ⟨segmentTableInit_eq hone.symm one_pos (by decide) (.inl (mod_one _)) ?_,
        hpartitions⟩
      intro i hi
      have hzero : i = 0 := by omega
      subst hzero
      exact ⟨hint, hint'⟩

end

/-!
# Rule files
-/

variable {dev : Device}

theorem parseRuleParameter_numThreads {tmplts : List Template} {st st' : RuleState} {p : RuleParam}
    {n : Nat} (hparse : parseRuleParameter dev tmplts st p = some st')
    (hn : p.numThreadsOf? = some n) :
    n ≤ maxThreads := by
  cases p with
  | numThreads m =>
    cases hn
    simp only [parseRuleParameter, RuleState.setNumThreads] at hparse
    split at hparse
    · cases hparse
    · next hle => exact Nat.le_of_not_lt hle
  | numThreadsOf named =>
    cases hn
    simp only [parseRuleParameter] at hparse
    cases huses : lookupTemplates tmplts named with
    | none =>
      rw [huses] at hparse
      cases hparse
    | some uses =>
      rw [huses] at hparse
      simp only [RuleState.setTemplates] at hparse
      split at hparse
      · cases hparse
      · next hle =>
          rw [← lookupTemplates_fst huses]
          exact Nat.le_of_not_lt hle
  | _ => cases hn

theorem parseRuleParameters_numThreads {tmplts : List Template} {params : List RuleParam}
    {st st' : RuleState} (hparse : params.foldlM (parseRuleParameter dev tmplts) st = some st')
    {p : RuleParam} {n : Nat} (hp : p ∈ params) (hn : p.numThreadsOf? = some n) :
    n ≤ maxThreads := by
  induction params generalizing st with
  | nil => cases hp
  | cons first rest ih =>
    rw [foldlM_cons] at hparse
    rcases Option.bind_eq_some_iff.mp hparse with ⟨st1, hfirst, hrest⟩
    rcases mem_cons.mp hp with rfl | hmem
    · exact parseRuleParameter_numThreads hfirst hn
    · exact ih hrest hmem

theorem readStanzas_numThreads {file : List Stanza} {l l' : RuleList}
    (hread : file.foldlM (RuleList.readStanza dev) l = .ok l') {p : RuleParam} {n : Nat}
    (hp : p ∈ ruleLines file) (hn : p.numThreadsOf? = some n) : n ≤ maxThreads := by
  induction file generalizing l with
  | nil => cases hp
  | cons stanza rest ih =>
    rw [foldlM_cons] at hread
    rw [ruleLines, flatMap_cons, mem_append] at hp
    cases hfirst : l.readStanza dev stanza with
    | error e =>
      rw [hfirst] at hread
      cases hread
    | ok l1 =>
      rw [hfirst] at hread
      rcases hp with hhere | hlater
      · cases stanza with
        | template t => cases hhere
        | rule id params =>
          rcases readStanza_rule hfirst with ⟨st, _, hparse, _, _⟩
          simp only [RuleList.parseRule] at hparse
          split at hparse
          · cases hparse
          · exact parseRuleParameters_numThreads hparse hhere hn
      · exact ih hread hlater

theorem foldl_max_le {values : List Nat} {start bound : Nat} (hstart : start ≤ bound)
    (hvalues : forall value, value ∈ values -> value ≤ bound) :
    values.foldl max start ≤ bound := by
  induction values generalizing start with
  | nil => exact hstart
  | cons value rest ih =>
    apply ih
    · exact Nat.max_le.mpr ⟨hstart, hvalues value mem_cons_self⟩
    · exact fun other hother => hvalues other (mem_cons_of_mem _ hother)

theorem maxThreadCnt_le {file : List Stanza} {l : RuleList} (hread : readRf dev file = .ok l) :
    maxThreadCnt file ≤ maxThreads := by
  apply foldl_max_le (zero_le _)
  intro n hn
  rcases mem_filterMap.mp hn with ⟨p, hp, hthreads⟩
  exact readStanzas_numThreads hread hp hthreads

/-- For every rule file that is read: the thread counts are within `MAX_THREADS`, and the
tables partition the disk exactly when the rule file and the disk fit. -/
theorem segment_tables_partition_iff {dev : Device} {file : List Stanza} {l : RuleList}
    (hread : readRf dev file = .ok l) (h64 : dev.maxblk < 2 ^ 64)
    (htables : numOfSegTables (maxThreadCnt file + l.total) ≤ dev.maxblk) :
    maxThreadCnt file ≤ maxThreads ∧
      ((exists limits, segmentTableInit (maxThreadCnt file) l.total dev.maxblk = some limits ∧
          Partitions limits dev.maxblk) <->
        TablesFit (maxThreadCnt file + l.total) dev.maxblk) :=
  ⟨maxThreadCnt_le hread, segmentTableInit_partitions_iff h64 htables⟩

def namedReaderFile : List Stanza :=
  [.rule "named" [.oper ["R"], .numThreads 1]]

def plainReaderFile : List Stanza :=
  [.rule "plain" [.oper ["R"]]]

def manyReadersFile : List Stanza :=
  [.rule "many" [.oper ["R"], .numThreads 1041]]

theorem namedReader_partitions :
    exists l, readRf smallDisk namedReaderFile = .ok l ∧ l.rules ≠ [] ∧
      exists limits, segmentTableInit (maxThreadCnt namedReaderFile) l.total 9999 = some limits ∧
        Partitions limits 9999 := by
  have hread : (readRf smallDisk namedReaderFile).toOption.map (fun l =>
      (l.rules.length, l.total)) = some (1, 0) := by
    decide
  cases hl : readRf smallDisk namedReaderFile with
  | error e =>
    rw [hl] at hread
    cases hread
  | ok l =>
    rw [hl] at hread
    rcases Prod.mk.inj (Option.some.inj hread) with ⟨hrules, htotal⟩
    have hthreads : maxThreadCnt namedReaderFile = 1 := by decide
    refine ⟨l, rfl, ?_, ?_⟩
    · intro hnil
      rw [hnil] at hrules
      cases hrules
    · apply (segment_tables_partition_iff hl (by decide) ?_).2.mpr
      · rw [hthreads, htotal]
        decide
      · rw [hthreads, htotal]
        decide

/-- Without a line `NUM_THREADS` the number of tables is 0, and the number of blocks is divided
by it; with 1041 threads the sizes are stored behind `seg_table_size`; and the limits of
a disk with 2^32 + 10 blocks end at block 9. -/
theorem tables_do_not_partition : ((readRf smallDisk plainReaderFile).toOption.map fun l =>
        (l.rules.length, segmentTableInit (maxThreadCnt plainReaderFile) l.total 9999)) =
      some (1, none) ∧
    ((readRf smallDisk manyReadersFile).toOption.map fun l =>
        (l.rules.length, segmentTableInit (maxThreadCnt manyReadersFile) l.total 9999)) =
      some (1, none) ∧
    ((readRf ⟨2 ^ 32 + 9, 512⟩ namedReaderFile).toOption.map fun l =>
        (l.rules.length, segmentTableInit (maxThreadCnt namedReaderFile) l.total (2 ^ 32 + 9))) =
      some (1, some [(0, 9)]) ∧
    ¬ Partitions [(0, 9)] (2 ^ 32 + 9) := by
  refine ⟨by decide, by decide, by decide, ?_⟩
  intro h
  have hlast : upperOf [(0, 9)] 0 = 2 ^ 32 + 9 := h.upper_last
  revert hlast
  decide

end Htx.Hxestorage
