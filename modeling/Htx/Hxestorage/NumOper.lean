import Htx.Hxestorage.OperRatio
import Htx.Hxestorage.SequentialInOut
import Htx.Hxestorage.ThreadSetup

/-!
# The number of operations with a ratio

With `NUM_OPER = 0` the number of iterations is computed from the range.
-/

namespace Htx.Hxestorage

open List RatioForm ThreadContext Nat LoopContext Library

/-!
# Positions of an iteration
-/

inductive SeqAct where
  | move
  | work (region : Region)
  deriving DecidableEq

namespace LoopContext

def moveIf (c : LoopContext) (wanted : Prop) [Decidable wanted] : List SeqAct :=
  if c.hotness = 1 ∧ wanted then [.move] else []

def opertnActs (c : LoopContext) : List SeqAct :=
  (List.range c.opertn).flatMap fun i => c.moveIf (0 < i) ++ [.work .opertn]

def writesLeftActs (c : LoopContext) : List SeqAct :=
  (List.range c.nwritesLeft).flatMap fun _ => c.moveIf True ++ [.work .writesLeft]

def readsLeftActs (c : LoopContext) : List SeqAct :=
  List.replicate c.nreadsLeft (.work .readsLeft)

def seqActs (c : LoopContext) : List SeqAct :=
  (List.replicate c.hotness (c.opertnActs ++ (c.writesLeftActs ++ c.readsLeftActs))).flatten

def positions (c : LoopContext) : Nat :=
  c.seqActs.count .move + 1

variable {c : LoopContext}

theorem moves_opertnActs (hhot : c.hotness = 1) : c.opertnActs.count .move = c.opertn - 1 := by
  unfold opertnActs
  induction c.opertn with
  | zero => rfl
  | succ k ih =>
    rw [range_succ, flatMap_append, count_append, ih]
    cases k with
    | zero => simp [moveIf]
    | succ k => simp [moveIf, hhot]

theorem moves_writesLeftActs (hhot : c.hotness = 1) :
    c.writesLeftActs.count .move = c.nwritesLeft := by
  unfold writesLeftActs
  induction c.nwritesLeft with
  | zero => rfl
  | succ k ih =>
    rw [range_succ, flatMap_append, count_append, ih]
    simp [moveIf, hhot]

theorem positions_eq :
    c.positions = if c.hotness = 1 then c.opertn - 1 + c.nwritesLeft + 1 else 1 := by
  unfold positions seqActs
  have hreads : c.readsLeftActs.count .move = 0 := by
    unfold readsLeftActs
    simp [count_replicate]
  by_cases hhot : c.hotness = 1
  · rw [if_pos hhot, hhot]
    simp [count_append, moves_opertnActs hhot, moves_writesLeftActs hhot, hreads]
  · have hstay : forall (wanted : Prop) [Decidable wanted], c.moveIf wanted = [] :=
      fun wanted _ => if_neg fun h => hhot h.1
    have hopertn : c.opertnActs.count .move = 0 := by
      simp [opertnActs, hstay, count_eq_zero]
    have hwrites : c.writesLeftActs.count .move = 0 := by
      simp [writesLeftActs, hstay, count_eq_zero]
    rw [if_neg hhot, add_eq_right, count_flatten]
    simp [count_append, hopertn, hwrites, hreads]

end LoopContext

/-!
# Operations with a ratio
-/

namespace RatioForm

def divisor (form : RatioForm) (m n : Nat) : Nat :=
  if form.compares then form.writes m else form.reads n

def stops (hotness m n : Nat) (form : RatioForm) : Nat :=
  if hotness = 1 then
    match form with
    | .rc => n
    | .r => n
    | _ => m
  else 1

variable {form : RatioForm} {m n : Nat}

theorem positions_eq_stops (hm : 1 ≤ m) (hn : 1 ≤ n) (hotness : Nat) :
    ({ form.context m n with hotness := hotness } : LoopContext).positions =
      form.stops hotness m n := by
  rw [positions_eq]
  congr 1
  have hmixed : form.writes m = m -> form.reads n = n ->
      (form.context m n).opertn - 1 + (form.context m n).nwritesLeft + 1 = m := by
    intro hw hr
    have hcounts := counts_context hm hn hw hr
    rw [hcounts.1, hcounts.2.1]
    omega
  -- without writes nothing is left over
  have hreads : form.writes m = 0 -> form.reads n = n ->
      (form.context m n).opertn - 1 + (form.context m n).nwritesLeft + 1 = n := by
    intro hw hr
    have hpos : n ≠ 0 := Nat.ne_of_gt hn
    simp [opertn, nwritesLeft, mixed, context, parsed, hw, hr,
      hpos, Nat.sub_add_cancel hn]
  cases form with
  | wrc => exact hmixed rfl rfl
  | w => exact Nat.sub_add_cancel hm
  | rc | r => exact hreads rfl rfl
  | rw | wr => exact hmixed rfl rfl

theorem stops_pos (hm : 1 ≤ m) (hn : 1 ≤ n) (hotness : Nat) : 0 < form.stops hotness m n := by
  unfold stops
  split
  · cases form
    all_goals assumption
  · exact one_pos

end RatioForm

/-!
# Chunks of the range
-/

namespace ThreadContext

def lowBlk (c : ThreadContext) : Nat :=
  if c.direction = .outward ∨ c.startingBlock = .top then c.minBlkno else c.firstBlk

def rangeBlks (c : ThreadContext) : Nat :=
  c.maxBlkno + 1 - c.lowBlk

def chunks (c : ThreadContext) : Nat :=
  (c.rangeBlks - 1) / c.stride + 1

end ThreadContext

def ThreadContext.withOper (c : ThreadContext) (oper : String) : ThreadContext :=
  ({ c with oper := oper }).countOperations

structure ChunkedRange (c : ThreadContext) : Prop where
  ordered : c.lowBlk ≤ c.maxBlkno
  maxBlkno_lt : c.maxBlkno < 2 ^ 64
  numBlks_pos : 0 < c.numBlks
  numBlks_lt : c.numBlks < 2 ^ 32
  hop_nonneg : 0 ≤ c.blkHop
  hop_lt : c.blkHop < 2 ^ 31

/-- `update_num_oper` does not divide by zero, and the iterations that it stores cover the
chunks of the range with less than one iteration too much. -/
def NumOperCovers (form : RatioForm) (upper : Bool) (m n hotness : Nat) (c : ThreadContext) :
    Prop :=
  exists p c', operationsOf (form.text upper m n) = some p ∧
    (c.withOper (form.text upper m n)).updateNumOper = some c' ∧
    c.chunks ≤
      c'.numOperSeq * ({ p with bwrc := false, hotness := hotness } : LoopContext).positions ∧
    c'.numOperSeq * ({ p with bwrc := false, hotness := hotness } : LoopContext).positions <
      c.chunks + ({ p with bwrc := false, hotness := hotness } : LoopContext).positions

structure DividesWell (form : RatioForm) (upper : Bool) (m n hotness : Nat) (c : ThreadContext) :
    Prop where
  fits : (form.text upper m n).length < operStrSz
  blocks : c.rangeBlks < 2 ^ 64
  divisor : form ≠ .w ∧ form ≠ .rc
  stride : c.stride % 2 ^ 32 ≠ 0
  quotient : (c.rangeBlks - 1) / (c.stride % 2 ^ 32 * form.divisor m n) =
    (c.rangeBlks - 1) / (c.stride * form.stops hotness m n)

section

variable {form : RatioForm} {upper : Bool} {m n : Nat} {c : ThreadContext}

theorem operationCounts_text (hfits : (form.text upper m n).length < operStrSz) :
    operationCounts (form.text upper m n) = (form.writes m, form.reads n, form.compares) := by
  rcases counts_lt_of_fits hfits with ⟨hw, hr⟩
  unfold operationCounts
  have hcache : ¬ ((form.text upper m n).toList.take 2).map Char.toUpper = ['C', 'A'] := by
    unfold text
    rw [String.toList_ofList]
    cases form <;> cases upper <;> simp [chars, counted, letter]
  rw [if_neg hcache, populateOperations_text form upper hw hr]
  rfl

theorem text_contains_bracket (form : RatioForm) (upper : Bool) (m n : Nat) :
    (form.text upper m n).toList.contains '[' = true := by
  unfold text
  rw [String.toList_ofList, contains_iff_mem]
  cases form <;> simp [chars, counted]

theorem RatioForm.divisor_eq_zero_iff (hm : 1 ≤ m) (hn : 1 ≤ n) :
    form.divisor m n = 0 <-> form = .w ∨ form = .rc := by
  cases form with
  | wrc => exact ⟨fun h => absurd h (ne_of_gt hm), fun h => by rcases h with h | h <;> cases h⟩
  | w => exact ⟨fun _ => .inl rfl, fun _ => rfl⟩
  | rc => exact ⟨fun _ => .inr rfl, fun _ => rfl⟩
  | r | rw | wr =>
    exact ⟨fun h => absurd h (ne_of_gt hn), fun h => by rcases h with h | h <;> cases h⟩

def ThreadContext.operDivisor (c : ThreadContext) : Nat :=
  if c.oper.toList.contains '[' then if c.compareEnabled then c.numWrites else c.numReads else 1

theorem numOperSeq_updateNumOper (hr : ChunkedRange c) (hoper : c.operDivisor < 2 ^ 32) :
    c.updateNumOper.map numOperSeq =
      if c.stride % 2 ^ 32 * c.operDivisor = 0 then none
      else some (c.rangeBlks % 2 ^ 64 / (c.stride % 2 ^ 32 * c.operDivisor) +
        if c.rangeBlks % 2 ^ 64 % (c.stride % 2 ^ 32 * c.operDivisor) ≠ 0 then 1 else 0) := by
  have hordered := hr.ordered
  have hhop := hr.hop_nonneg
  have hblocks : u64 ((c.maxBlkno : Int) - c.lowBlk + 1) = c.rangeBlks % 2 ^ 64 := by
    unfold u64 rangeBlks
    omega
  have hstride : u32 ((c.numBlks : Int) + c.blkHop) = c.stride % 2 ^ 32 := by
    unfold u32 BlkContext.stride
    omega
  have hproduct : u64 ((c.stride % 2 ^ 32 * c.operDivisor : Nat) : Int) =
      c.stride % 2 ^ 32 * c.operDivisor := by
    have hlt : c.stride % 2 ^ 32 * c.operDivisor < 2 ^ 32 * 2 ^ 32 :=
      Nat.mul_lt_mul'' (Nat.mod_lt c.stride (Nat.two_pow_pos 32)) hoper
    exact u64_eq rfl hlt
  rw [← hproduct, ← hstride, ← hblocks]
  by_cases h : u64 ((u32 ((c.numBlks : Int) + c.blkHop) * c.operDivisor : Nat) : Int) = 0
  · rw [if_pos h]
    exact congrArg (Option.map numOperSeq) (if_pos h)
  · rw [if_neg h]
    exact congrArg (Option.map numOperSeq) (if_neg h)

theorem ChunkedRange.withOper (hr : ChunkedRange c) (oper : String) :
    ChunkedRange (c.withOper oper) :=
  ⟨hr.ordered, hr.maxBlkno_lt, hr.numBlks_pos, hr.numBlks_lt, hr.hop_nonneg, hr.hop_lt⟩

theorem operDivisor_text (hfits : (form.text upper m n).length < operStrSz) :
    (c.withOper (form.text upper m n)).operDivisor = form.divisor m n := by
  unfold operDivisor withOper countOperations divisor
  rw [text_contains_bracket, if_pos rfl, operationCounts_text hfits]

theorem RatioForm.divisor_lt (hfits : (form.text upper m n).length < operStrSz) :
    form.divisor m n < 2 ^ 32 := by
  rcases counts_lt_of_fits hfits with ⟨hw, hn⟩
  unfold divisor
  split
  · exact hw
  · exact hn

theorem numOperSeq_text (hr : ChunkedRange c) (hfits : (form.text upper m n).length < operStrSz) :
    (c.withOper (form.text upper m n)).updateNumOper.map numOperSeq =
      if c.stride % 2 ^ 32 * form.divisor m n = 0 then none
      else some (c.rangeBlks % 2 ^ 64 / (c.stride % 2 ^ 32 * form.divisor m n) +
        if c.rangeBlks % 2 ^ 64 % (c.stride % 2 ^ 32 * form.divisor m n) ≠ 0 then 1 else 0) := by
  have hdivisor := @operDivisor_text form upper m n c hfits
  have hstored := numOperSeq_updateNumOper (hr.withOper (form.text upper m n))
    (hdivisor.trans_lt (divisor_lt hfits))
  rw [hdivisor] at hstored
  exact hstored

theorem covers_iff {blks stride stops divisor : Nat} (hblks : 0 < blks) (hstops : 0 < stops)
    (hdivisor : 0 < divisor) :
    ((blks - 1) / stride + 1 ≤ (blks / divisor + if blks % divisor ≠ 0 then 1 else 0) * stops ∧
      (blks / divisor + if blks % divisor ≠ 0 then 1 else 0) * stops <
        (blks - 1) / stride + 1 + stops) <->
      (blks - 1) / divisor = (blks - 1) / (stride * stops) := by
  have hceil := Strides.count_eq_ceil ⟨blks, divisor, divisor, hblks, hdivisor, le_rfl⟩
  change (blks - 1) / divisor + 1 = _ at hceil
  rw [← hceil, ← Nat.div_div_eq_div_mul, eq_comm, Nat.div_eq_iff hstops, Nat.add_mul, Nat.one_mul]
  omega

end

theorem numOperCovers_stored {form : RatioForm} {upper : Bool} {m n hotness : Nat}
    {c : ThreadContext} (hm : 1 ≤ m) (hn : 1 ≤ n) :
    NumOperCovers form upper m n hotness c <-> (form.text upper m n).length < operStrSz ∧
      exists num, (c.withOper (form.text upper m n)).updateNumOper.map numOperSeq = some num ∧
        c.chunks ≤ num * form.stops hotness m n ∧
        num * form.stops hotness m n < c.chunks + form.stops hotness m n := by
  have hpositions := @positions_eq_stops form m n hm hn hotness
  constructor
  · rintro ⟨p, c', hp, hset, hcovers⟩
    have hfits : (form.text upper m n).length < operStrSz := by
      unfold operationsOf at hp
      split_ifs at hp with hfits
      exact hfits
    rw [operationsOf_text hfits] at hp
    cases hp
    refine ⟨hfits, c'.numOperSeq, ?_, ?_⟩
    · rw [hset, Option.map_some]
    · rw [← hpositions]
      exact hcovers
  · rintro ⟨hfits, num, hset, hcovers⟩
    rcases Option.map_eq_some_iff.mp hset with ⟨c', hupdate, hnum⟩
    refine ⟨form.parsed m n, c', operationsOf_text hfits, hupdate, ?_⟩
    rw [← hpositions, ← hnum] at hcovers
    exact hcovers

/-- The iterations of an operation with a ratio cover the range, exactly if the divisor of
`update_num_oper` goes into it as often as what an iteration covers. -/
theorem numOperCovers_iff {form : RatioForm} {upper : Bool} {m n hotness : Nat}
    {c : ThreadContext} (hr : ChunkedRange c) (hm : 1 ≤ m) (hn : 1 ≤ n) :
    NumOperCovers form upper m n hotness c <-> DividesWell form upper m n hotness c := by
  have hstops : 0 < form.stops hotness m n := stops_pos hm hn hotness
  have hordered := hr.ordered
  have hmax := hr.maxBlkno_lt
  have hblks : 0 < c.rangeBlks ∧ c.rangeBlks ≤ 2 ^ 64 := by
    unfold rangeBlks
    omega
  have hzero := @divisor_eq_zero_iff form m n hm hn
  rw [numOperCovers_stored hm hn]
  constructor
  · rintro ⟨hfits, num, hset, hcovers⟩
    rw [numOperSeq_text hr hfits] at hset
    by_cases hdivisor : c.stride % 2 ^ 32 * form.divisor m n = 0
    · rw [if_pos hdivisor] at hset
      cases hset
    · rw [if_neg hdivisor] at hset
      cases hset
      rcases mul_ne_zero_iff.mp hdivisor with ⟨hstride, hform⟩
      have hsmall : c.rangeBlks < 2 ^ 64 := by
        -- the number of all blocks is 0 modulo 2 ^ 64
        by_contra hbig
        have hall : c.rangeBlks % 2 ^ 64 = 0 := by omega
        have hchunks := hcovers.1
        rw [hall, Nat.zero_div, Nat.zero_mod, if_neg (not_not.mpr rfl), Nat.zero_mul] at hchunks
        exact not_succ_le_zero _ hchunks
      rw [mod_eq_of_lt hsmall] at hcovers
      refine ⟨hfits, hsmall, ?_, hstride, ?_⟩
      · rw [Ne, hzero, not_or] at hform
        exact hform
      · exact (covers_iff hblks.1 hstops (pos_of_ne_zero hdivisor)).mp hcovers
  · intro h
    have hform : form.divisor m n ≠ 0 := by
      rw [Ne, hzero, not_or]
      exact h.divisor
    have hdivisor := mul_ne_zero h.stride hform
    refine ⟨h.fits, _, (numOperSeq_text hr h.fits).trans (if_neg hdivisor), ?_⟩
    rw [mod_eq_of_lt h.blocks]
    exact (covers_iff hblks.1 hstops (pos_of_ne_zero hdivisor)).mpr h.quotient

def twelveBlocks : ThreadContext :=
  { initial with
    maxBlkno := 11
    startingBlock := .bot
    numBlks := 1
    dlen := 512 }

theorem twelveBlocks_chunked : ChunkedRange twelveBlocks where
  ordered := by decide
  maxBlkno_lt := by decide
  numBlks_pos := by decide
  numBlks_lt := by decide
  hop_nonneg := by decide
  hop_lt := by decide

theorem numOperCovers_w2r5c :
    ChunkedRange twelveBlocks ∧ NumOperCovers .wrc false 2 5 1 twelveBlocks :=
  ⟨twelveBlocks_chunked, (numOperCovers_iff twelveBlocks_chunked (by decide) (by decide)).mpr
    ⟨by decide, by decide, by decide, by decide, by decide⟩⟩

theorem numOper_with_wrong_count : ChunkedRange twelveBlocks ∧
      (twelveBlocks.withOper (w.text false 2 1)).updateNumOper = none ∧
      (twelveBlocks.withOper (rc.text false 1 2)).updateNumOper = none ∧
      (twelveBlocks.withOper (rw.text false 3 1)).updateNumOper.map
        numOperSeq = some 12 ∧
      ({ populateOperations (rw.text false 3 1) with
        bwrc := false, hotness := 1 } : LoopContext).positions = 3 ∧
      twelveBlocks.chunks = 12 :=
  ⟨twelveBlocks_chunked, by decide +kernel, by decide +kernel, by decide +kernel,
    by decide +kernel, by decide +kernel⟩

end Htx.Hxestorage
