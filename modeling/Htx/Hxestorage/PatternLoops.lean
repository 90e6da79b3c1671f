import Htx.Hxestorage.BuildBuffer
import Htx.Hxestorage.CrossThread

/-!
# What the pattern generators write

For every generator: when it ends, and how many bytes it has written then.
-/

namespace Htx.Hxestorage.Fill

open List Option Algorithm Nat Int Library

/-!
# Loops that count down to zero
-/

variable {fuel : Nat}

theorem pairLoop_even (second : Nat -> Nat) (n : Nat) (hfuel : n < fuel) (i : Nat) :
    pairLoop second fuel (2 * n) i = some (wordPairs second n i) := by
  induction n generalizing fuel i with
  | zero =>
    obtain ⟨fuel, rfl⟩ := exists_eq_add_one.mpr hfuel
    rfl
  | succ n ih =>
    obtain ⟨fuel, rfl⟩ := exists_eq_add_one.mpr (zero_lt_of_lt hfuel)
    have hnext : 2 * ((n + 1 : Nat) : Int) - 2 = 2 * n := by omega
    rw [pairLoop, if_neg (by omega), hnext, ih (by omega)]
    rfl

theorem pairLoop_some {second : Nat -> Nat} {j : Int} {i : Nat} {ws : List Nat}
    (h : pairLoop second fuel j i = some ws) :
    exists n : Nat, j = 2 * n ∧ ws = wordPairs second n i := by
  induction fuel generalizing j i ws with
  | zero => cases h
  | succ fuel ih =>
    rw [pairLoop] at h
    split at h
    · next hzero =>
        cases h
        exact ⟨0, hzero, rfl⟩
    · obtain ⟨rest, hrest, rfl⟩ := map_eq_some_iff.mp h
      obtain ⟨n, hn, rfl⟩ := ih hrest
      exact ⟨n + 1, by omega, rfl⟩

theorem constantLoop_eq (n : Nat) (hfuel : n < fuel) :
    constantLoop fuel n = some (List.replicate n 0xa5a5) := by
  induction n generalizing fuel with
  | zero =>
    obtain ⟨fuel, rfl⟩ := exists_eq_add_one.mpr hfuel
    rfl
  | succ n ih =>
    obtain ⟨fuel, rfl⟩ := exists_eq_add_one.mpr (zero_lt_of_lt hfuel)
    have hnext : ((n + 1 : Nat) : Int) - 1 = n := by omega
    rw [constantLoop, if_neg (by omega), hnext, ih (by omega)]
    rfl

theorem constantLoop_some {i : Int} {ws : List Nat} (h : constantLoop fuel i = some ws) :
    exists n : Nat, i = n ∧ ws = List.replicate n 0xa5a5 := by
  induction fuel generalizing i ws with
  | zero => cases h
  | succ fuel ih =>
    rw [constantLoop] at h
    split at h
    · next hzero =>
        cases h
        exact ⟨0, hzero, rfl⟩
    · obtain ⟨rest, hrest, rfl⟩ := map_eq_some_iff.mp h
      obtain ⟨n, hn, rfl⟩ := ih hrest
      exact ⟨n + 1, by omega, rfl⟩

/-!
# Pattern 7
-/

theorem line7_sum (b : UInt8) (k : Nat) (n : Int) :
    ((line7 b k n).1.length : Int) + (line7 b k n).2 = n := by
  induction k generalizing n with
  | zero => simp [line7]
  | succ k ih =>
    rw [line7]
    split
    · next hzero => simp [hzero]
    · have hsum := ih (n - 1)
      rw [length_cons]
      omega

theorem line7_nonneg (b : UInt8) (k : Nat) {n : Int} (hn : 0 ≤ n) : 0 ≤ (line7 b k n).2 := by
  induction k generalizing n with
  | zero => exact hn
  | succ k ih =>
    rw [line7]
    split
    · exact le_rfl
    · exact ih (by omega)

theorem line7_lt (b : UInt8) {k : Nat} (hk : 0 < k) {n : Int} (hn : 0 < n) :
    (line7 b k n).2 < n := by
  obtain ⟨k, rfl⟩ := exists_eq_add_one.mpr hk
  have hsum := line7_sum b k (n - 1)
  rw [line7, if_neg (by omega)]
  omega

theorem generatePattern7_ends {lineLength : Nat} (hline : 0 < lineLength) (n : Nat) (n' : Int)
    (hn : n' = n) (fuel : Nat) (hfuel : n < fuel) :
    exists bytes, generatePattern7 lineLength fuel n' = some bytes := by
  induction n using Nat.strong_induction_on generalizing n' fuel with
  | h n ih =>
    obtain ⟨fuel, rfl⟩ := exists_eq_add_one.mpr (zero_lt_of_lt hfuel)
    rw [generatePattern7]
    split
    · exact ⟨[], rfl⟩
    · next hne =>
        have hones := line7_nonneg 0xff lineLength (n := n') (by omega)
        have hlt := line7_lt 0xff hline (n := n') (by omega)
        have hzeros := line7_nonneg 0x00 lineLength hones
        have hsum := line7_sum 0x00 lineLength (line7 0xff lineLength n').2
        obtain ⟨rest, hrest⟩ := ih
          (line7 0x00 lineLength (line7 0xff lineLength n').2).2.toNat (by omega)
          (line7 0x00 lineLength (line7 0xff lineLength n').2).2 (by omega) fuel (by omega)
        simp only [hrest, map_some]
        exact ⟨_, rfl⟩

theorem lines_eq_line7 {lineLength i : Nat} (hi : i < lineLength) (ones : Bool) {b : UInt8}
    (hb : (if ones then 0xff else 0x00) = b) (n : Nat) : lines lineLength n i ones =
      (line7 b (lineLength - i) n).1 ++
        lines lineLength (line7 b (lineLength - i) n).2.toNat 0 (!ones) := by
  induction n generalizing i with
  | zero =>
    rw [show lineLength - i = lineLength - (i + 1) + 1 by omega]
    rfl
  | succ n ih =>
    have hpred : ((n + 1 : Nat) : Int) - 1 = n := by omega
    rw [show lineLength - i = lineLength - (i + 1) + 1 by omega, line7, if_neg (by omega), hpred,
      lines, hb]
    split
    · rw [ih ‹_›]
      rfl
    · rw [show lineLength - (i + 1) = 0 by omega]
      rfl

theorem generatePattern7_some {lineLength : Nat} {n : Int} {bytes : List UInt8}
    (h : generatePattern7 lineLength fuel n = some bytes) :
    exists k : Nat, n = k ∧ bytes = lines lineLength k 0 true := by
  induction fuel generalizing n bytes with
  | zero => cases h
  | succ fuel ih =>
    rw [generatePattern7] at h
    split at h
    · next hzero =>
        cases h
        exact ⟨0, hzero, rfl⟩
    · obtain ⟨rest, hrest, rfl⟩ := map_eq_some_iff.mp h
      obtain ⟨k, hk, rfl⟩ := ih hrest
      have hones := line7_sum 0xff lineLength n
      have hzeros := line7_sum 0x00 lineLength (line7 0xff lineLength n).2
      obtain ⟨n, rfl⟩ : exists n' : Nat, n = n' := ⟨n.toNat, by omega⟩
      refine ⟨n, rfl, ?_⟩
      rcases Nat.eq_zero_or_pos lineLength with rfl | hline
      · obtain rfl : n = k := ofNat.inj hk
        rfl
      · have hfirst := lines_eq_line7 hline true rfl n
        obtain ⟨n', hn'⟩ : exists n' : Nat, (line7 0xff lineLength n).2 = n' :=
          ⟨_, (toNat_of_nonneg (by omega)).symm⟩
        have hsecond := lines_eq_line7 hline false rfl n'
        rw [hn'] at hk
        simp only [Nat.sub_zero, if_true, Bool.not_true, hn', toNat_natCast] at hfirst
        simp only [Nat.sub_zero, Bool.false_eq_true, if_false, Bool.not_false, hk,
          toNat_natCast] at hsecond
        rw [hfirst, hsecond, hn', append_assoc]

/-!
# Pattern 8
-/

structure PatternState.Valid (lineLength : Nat) (s : PatternState) : Prop where
  begin_lt : 8 ≤ lineLength -> s.beginDword < lineLength / 8
  trailing : 8 ≤ lineLength -> 0 ≤ s.trailingDword ∧ s.trailingDword < (lineLength / 8 : Nat)

section

variable {lineLength : Nat} {s : PatternState}

theorem PatternState.valid_initial : (PatternState.initial lineLength).Valid lineLength where
  begin_lt := fun h => by
    show 0 < lineLength / 8
    omega
  trailing := fun h => by
    show (0 : Int) ≤ (lineLength / 8 : Nat) - 1 ∧ ((lineLength / 8 : Nat) - 1 : Int) < _
    omega

section

variable (h : s.Valid lineLength)

include h

theorem PatternState.Valid.moveOne {dwords : Nat} (hpos : 0 < dwords)
    (hle : dwords ≤ lineLength / 8) : (s.moveOne dwords).Valid lineLength := by
  unfold PatternState.moveOne
  split
  · exact ⟨fun _ => (mod_lt _ hpos).trans_le hle, h.trailing⟩
  · exact ⟨h.begin_lt, h.trailing⟩

theorem PatternState.Valid.moveZero : (s.moveZero (lineLength / 8)).Valid lineLength := by
  unfold PatternState.moveZero
  split
  · refine ⟨h.begin_lt, fun hle => ?_⟩
    have htrailing := h.trailing hle
    show 0 ≤ (if 0 < s.trailingDword then s.trailingDword - 1 else _) ∧
      (if 0 < s.trailingDword then s.trailingDword - 1 else _) < _
    split <;> omega
  · exact ⟨h.begin_lt, h.trailing⟩

theorem line8_valid (hline : 8 ≤ lineLength) (line : Nat) :
    exists dwords s', line8 (lineLength / 8) line s = some (dwords, s') ∧
      dwords.length = lineLength / 8 ∧ s'.Valid lineLength := by
  unfold line8
  split
  · rw [if_pos (h.begin_lt hline)]
    exact ⟨_, _, rfl, by rw [length_set, length_replicate], h.moveOne (by omega) le_rfl⟩
  · rw [if_pos (h.trailing hline)]
    exact ⟨_, _, rfl, by rw [length_set, length_replicate], h.moveZero⟩

theorem lines8_valid (hline : 8 ≤ lineLength) (n line : Nat) :
    exists dwords s', lines8 (lineLength / 8) n line s = some (dwords, s') ∧
      dwords.length = n * (lineLength / 8) ∧ s'.Valid lineLength := by
  induction n generalizing line s with
  | zero => exact ⟨[], s, rfl, by simp, h⟩
  | succ n ih =>
    obtain ⟨first, s₁, hfirst, hlen, hvalid⟩ := line8_valid h hline line
    obtain ⟨rest, s₂, hrest, hlen', hvalid'⟩ := ih hvalid (line + 1)
    refine ⟨first ++ rest, s₂, ?_, ?_, hvalid'⟩
    · rw [lines8, hfirst]
      simp only [hrest, map_some]
    · rw [length_append, hlen, hlen']
      ring

end

theorem length_dwordBytes (order : ByteOrder) (dwords : List (BitVec 64)) :
    (dwordBytes order dwords).length = 8 * dwords.length := by
  induction dwords with
  | nil => rfl
  | cons d rest ih =>
    have hcons : dwordBytes order (d :: rest) =
        order.encode 8 d.toNat ++ dwordBytes order rest := flatMap_cons
    rw [hcons, length_append, ByteOrder.length_encode, ih, length_cons]
    ring

theorem left8_valid (h : s.Valid lineLength) (dwords : Nat) (hpos : 0 < dwords)
    (hle : dwords ≤ lineLength / 8) :
    exists left s', left8 dwords s = some (left, s') ∧ left.length = dwords ∧
      s'.Valid lineLength := by
  unfold left8
  rw [if_neg (by omega)]
  exact ⟨_, _, rfl, by rw [length_set, length_replicate], h.moveOne hpos hle⟩

end

/-!
# Sizes
-/

theorem bufsize_eq {blksize : Nat} (hlow : headerSize ≤ blksize)
    (hhigh : blksize < 2 ^ 31 + headerSize) : bufsize blksize = (blksize - headerSize : Nat) := by
  unfold bufsize signed32 u32 headerSize at *
  rw [bmod_def]
  split <;> omega

theorem bufsize_of_large {blksize : Nat} (hlow : 2 ^ 31 + headerSize ≤ blksize)
    (hhigh : blksize < 2 ^ 32) :
    bufsize blksize = (blksize - headerSize : Nat) - 2 ^ 32 := by
  unfold bufsize signed32 u32 headerSize at *
  rw [bmod_def]
  split <;> omega

theorem u32_bufsize {blksize : Nat} (hlow : headerSize ≤ blksize) (hhigh : blksize < 2 ^ 32) :
    u32 (bufsize blksize) = blksize - headerSize := by
  unfold bufsize signed32 u32 headerSize at *
  rw [bmod_def]
  split <;> omega

namespace Algorithm

def payloadLength (blksize lineLength dlen : Nat) : Algorithm -> Nat
  | p3 | p4 | p5 => 2 * ((blksize - headerSize) / 2)
  | p7 => blksize - headerSize
  | p8 | p9 | pA => if lineLength % 8 = 0 then 8 * ((blksize - headerSize) / 8) else 0
  | other _ => dlen

def Ends (blksize lineLength : Nat) : Algorithm -> Prop
  | p3 | p5 => blksize < 2 ^ 31 + headerSize ∧ (blksize - headerSize) / 2 % 2 = 0
  | p4 | p7 => blksize < 2 ^ 31 + headerSize
  | p8 =>
    lineLength % 8 = 0 -> (blksize - headerSize) % lineLength = 0 ∨
      8 ≤ (blksize - headerSize) % lineLength
  | p9 | pA => lineLength % 8 = 0 -> blksize - headerSize < lineLength
  | other _ => True

end Algorithm

section

variable {env : FillEnv} {ctx : FillContext} {lba : Nat} {s s' : PatternState}
  {payload : List UInt8}

section

variable (hlow : headerSize ≤ env.blksize)

include hlow

section

variable (hhigh : env.blksize < 2 ^ 32)

include hhigh

section

variable (hline : 0 < ctx.lineLength)

include hline

theorem generatePattern8_eq (hvalid : s.Valid ctx.lineLength)
    (hends : p8.Ends env.blksize ctx.lineLength) :
    exists payload s',
      generatePattern8 env.order ctx.lineLength (bufsize env.blksize) s = some (payload, s') ∧
      payload.length = p8.payloadLength env.blksize ctx.lineLength ctx.dlen ∧
      s'.Valid ctx.lineLength := by
  unfold generatePattern8 payloadLength
  rw [if_neg (by omega), u32_bufsize hlow hhigh]
  by_cases height : ctx.lineLength % 8 = 0
  · have hends := hends height
    have hdiv := div_add_mod (env.blksize - headerSize) ctx.lineLength
    obtain ⟨dwords, s₁, hlines, hlen, hvalid₁⟩ := lines8_valid hvalid (by omega)
      ((env.blksize - headerSize) / ctx.lineLength) 0
    have hwhole : 8 * ((env.blksize - headerSize) / ctx.lineLength * (ctx.lineLength / 8)) =
        ctx.lineLength * ((env.blksize - headerSize) / ctx.lineLength) := by
      obtain ⟨d, hd⟩ := dvd_of_mod_eq_zero height
      rw [hd, Nat.mul_div_cancel_left d (by decide)]
      ring
    rw [if_neg (by omega), if_pos height, hlines]
    dsimp only
    split
    · next hzero =>
        refine ⟨_, _, rfl, ?_, hvalid₁⟩
        rw [length_dwordBytes, hlen]
        omega
    · next hne =>
        have hlt := mod_lt (env.blksize - headerSize) hline
        obtain ⟨left, s₂, hleft, hlenLeft, hvalid₂⟩ := left8_valid hvalid₁
          ((env.blksize - headerSize) % ctx.lineLength / 8) (by omega) (by omega)
        rw [hleft]
        refine ⟨_, _, rfl, ?_, hvalid₂⟩
        rw [length_dwordBytes, length_append, hlen, hlenLeft]
        omega
  · rw [if_pos height, if_neg height]
    exact ⟨[], s, rfl, rfl, hvalid⟩

theorem generatePattern8_none (hends : ¬ p8.Ends env.blksize ctx.lineLength) :
    generatePattern8 env.order ctx.lineLength (bufsize env.blksize) s = none := by
  simp only [Algorithm.Ends, Classical.not_imp, not_or, not_le] at hends
  unfold generatePattern8
  rw [if_neg (by omega), u32_bufsize hlow hhigh, if_neg (by omega)]
  cases lines8 (ctx.lineLength / 8) ((env.blksize - headerSize) / ctx.lineLength) 0 s with
  | none => rfl
  | some r =>
    dsimp only
    rw [if_neg hends.2.1, left8, if_pos (by omega)]
    rfl

theorem generateRandom_eq (hvalid : s.Valid ctx.lineLength)
    (hbuffer : env.blksize ≤ ctx.patternBuffer.length)
    (hsize : ctx.patternSize ≤ ctx.patternBuffer.length)
    (hends : p9.Ends env.blksize ctx.lineLength) :
    exists payload s',
      generateRandom ctx.patternBuffer ctx.patternSize ctx.lineLength (bufsize env.blksize) s =
        some (payload, s') ∧
      payload.length = p9.payloadLength env.blksize ctx.lineLength ctx.dlen ∧
      s'.Valid ctx.lineLength := by
  unfold generateRandom payloadLength
  rw [if_neg (by omega), u32_bufsize hlow hhigh]
  by_cases height : ctx.lineLength % 8 = 0
  · have hends := hends height
    rw [if_neg (by omega), if_neg (by rw [div_eq_of_lt hends]; decide), if_pos height,
      mod_eq_of_lt hends]
    split
    · next hzero => exact ⟨[], s, rfl, by simp [hzero], hvalid⟩
    · dsimp only
      split
      · refine ⟨_, _, rfl, ?_, hvalid.begin_lt, hvalid.trailing⟩
        rw [length_take, length_drop]
        omega
      · refine ⟨_, _, rfl, ?_, hvalid.begin_lt, hvalid.trailing⟩
        rw [length_take]
        omega
  · rw [if_pos height, if_neg height]
    exact ⟨[], s, rfl, rfl, hvalid⟩

theorem generateRandom_none (hends : ¬ p9.Ends env.blksize ctx.lineLength) :
    generateRandom ctx.patternBuffer ctx.patternSize ctx.lineLength (bufsize env.blksize) s =
      none := by
  simp only [Algorithm.Ends, Classical.not_imp, not_lt] at hends
  have hdiv := div_pos hends.2 hline
  unfold generateRandom
  rw [if_neg (by omega), u32_bufsize hlow hhigh, if_neg (by omega), if_pos (by omega)]

end

end

end

structure Sized (env : FillEnv) (ctx : FillContext) : Prop where
  low : headerSize ≤ env.blksize
  high : env.blksize < 2 ^ 32
  line : 0 < ctx.lineLength
  buffer : env.blksize ≤ ctx.patternBuffer.length
  patternSize : ctx.patternSize ≤ ctx.patternBuffer.length

theorem tdiv_two_bufsize (hlow : headerSize ≤ env.blksize)
    (hint : env.blksize < 2 ^ 31 + headerSize) :
    (bufsize env.blksize).tdiv 2 = ((env.blksize - headerSize) / 2 : Nat) := by
  rw [bufsize_eq hlow hint]
  exact ofNat_tdiv _ 2

theorem tdiv_two_bufsize_neg (hlarge : 2 ^ 31 + headerSize ≤ env.blksize)
    (hhigh : env.blksize < 2 ^ 32) : (bufsize env.blksize).tdiv 2 < 0 := by
  rw [bufsize_of_large hlarge hhigh, tdiv_eq_ediv]
  unfold headerSize at *
  split
  · omega
  · rw [show sign 2 = 1 from rfl]
    omega

theorem pattern_eq (hsized : Sized env ctx) (hvalid : s.Valid ctx.lineLength)
    {algorithm : Algorithm} (hends : algorithm.Ends env.blksize ctx.lineLength) {fuel : Nat}
    (hfuel : env.blksize < fuel) :
    exists payload s', pattern env ctx algorithm fuel lba s = some (payload, s') ∧
      s'.Valid ctx.lineLength := by
  unfold pattern
  cases algorithm with
  | p3 | p5 =>
    obtain ⟨hint, heven⟩ := hends
    have hhalf : (bufsize env.blksize).tdiv 2 = 2 * ((env.blksize - headerSize) / 4 : Nat) := by
      rw [tdiv_two_bufsize hsized.low hint]
      omega
    simp only [generatePattern3, generatePattern5, hhalf]
    rw [pairLoop_even _ _ (by omega)]
    exact ⟨_, _, rfl, hvalid⟩
  | p4 =>
    have hhalf : (bufsize env.blksize).tdiv 2 = ((env.blksize - headerSize) / 2 : Nat) := by
      exact tdiv_two_bufsize hsized.low hends
    simp only [generatePattern4, hhalf]
    rw [constantLoop_eq _ (by omega)]
    exact ⟨_, _, rfl, hvalid⟩
  | p7 =>
    obtain ⟨bytes, hbytes⟩ := generatePattern7_ends hsized.line (env.blksize - headerSize)
      (bufsize env.blksize) (bufsize_eq hsized.low hends) fuel (by omega)
    simp only [hbytes]
    exact ⟨_, _, rfl, hvalid⟩
  | p8 =>
    obtain ⟨payload, s', h, -, hvalid'⟩ :=
      generatePattern8_eq hsized.low hsized.high hsized.line hvalid hends
    exact ⟨payload, s', h, hvalid'⟩
  | p9 | pA =>
    obtain ⟨payload, s', h, -, hvalid'⟩ := generateRandom_eq hsized.low hsized.high hsized.line
      hvalid hsized.buffer hsized.patternSize hends
    exact ⟨payload, s', h, hvalid'⟩
  | other c => exact ⟨_, _, rfl, hvalid⟩

theorem payload_words (hsized : Sized env ctx) {ws : List Nat}
    (hlen : (ws.length : Int) = (bufsize env.blksize).tdiv 2) :
    env.blksize < 2 ^ 31 + headerSize ∧ ws.length = (env.blksize - headerSize) / 2 := by
  by_cases hint : env.blksize < 2 ^ 31 + headerSize
  · rw [tdiv_two_bufsize hsized.low hint] at hlen
    exact ⟨hint, ofNat.inj hlen⟩
  · have hneg := tdiv_two_bufsize_neg (Nat.le_of_not_lt hint) hsized.high
    omega

theorem pattern_some (hsized : Sized env ctx) (hvalid : s.Valid ctx.lineLength)
    {algorithm : Algorithm} {fuel : Nat}
    (h : pattern env ctx algorithm fuel lba s = some (payload, s')) :
    algorithm.Ends env.blksize ctx.lineLength ∧
      payload.length = algorithm.payloadLength env.blksize ctx.lineLength ctx.dlen := by
  cases algorithm with
  | p3 | p5 =>
    obtain ⟨ws, hws, heq⟩ := map_eq_some_iff.mp h
    cases heq
    obtain ⟨n, hn, hpairs⟩ := pairLoop_some hws
    have hlen : ws.length = 2 * n := by rw [hpairs, length_wordPairs]
    have hwords : (ws.length : Int) = (bufsize env.blksize).tdiv 2 := by omega
    obtain ⟨hint, hcount⟩ := payload_words hsized hwords
    refine ⟨⟨hint, by omega⟩, ?_⟩
    rw [length_wordBytes, hcount]
    rfl
  | p4 =>
    obtain ⟨ws, hws, heq⟩ := map_eq_some_iff.mp h
    cases heq
    obtain ⟨n, hn, rfl⟩ := constantLoop_some hws
    obtain ⟨hint, hcount⟩ := payload_words hsized (hn ▸ congrArg Nat.cast length_replicate)
    refine ⟨hint, ?_⟩
    rw [length_wordBytes, hcount]
    rfl
  | p7 =>
    obtain ⟨bytes, hbytes, heq⟩ := map_eq_some_iff.mp h
    cases heq
    obtain ⟨k, hlen, rfl⟩ := generatePattern7_some hbytes
    rw [length_lines]
    by_cases hint : env.blksize < 2 ^ 31 + headerSize
    · rw [bufsize_eq hsized.low hint] at hlen
      exact ⟨hint, (ofNat.inj hlen).symm⟩
    · have hhigh := hsized.high
      rw [bufsize_of_large (by omega) hhigh] at hlen
      omega
  | p8 =>
    have h : generatePattern8 env.order ctx.lineLength (bufsize env.blksize) s =
        some (payload, s') := h
    by_cases hends : p8.Ends env.blksize ctx.lineLength
    · obtain ⟨payload', s₁, h', hlen, -⟩ :=
        generatePattern8_eq hsized.low hsized.high hsized.line hvalid hends
      rw [h'] at h
      cases h
      exact ⟨hends, hlen⟩
    · rw [generatePattern8_none hsized.low hsized.high hsized.line hends] at h
      cases h
  | p9 | pA =>
    have h : generateRandom ctx.patternBuffer ctx.patternSize ctx.lineLength
        (bufsize env.blksize) s = some (payload, s') := h
    by_cases hends : p9.Ends env.blksize ctx.lineLength
    · obtain ⟨payload', s₁, h', hlen, -⟩ := generateRandom_eq hsized.low hsized.high
        hsized.line hvalid hsized.buffer hsized.patternSize hends
      rw [h'] at h
      cases h
      exact ⟨hends, hlen⟩
    · rw [generateRandom_none hsized.low hsized.high hsized.line hends] at h
      cases h
  | other c =>
    cases h
    exact ⟨trivial, length_replicate⟩

def algorithmOf : Pattern -> Algorithm
  | .p3 => p3
  | .p4 => p4
  | .p5 => p5
  | .p7 => p7

/-- The bytes of a block as the threads that compare see them are those that the generators
write. -/
theorem patternBytes_eq (hsized : Sized env ctx) (hvalid : s.Valid ctx.lineLength)
    {benv : BufferEnv} {tctx : BufferContext} (horder : benv.order = env.order)
    (hblksize : benv.blksize = env.blksize) (halign : tctx.align = ctx.lineLength) {fuel : Nat}
    (h : pattern env ctx (algorithmOf tctx.pattern) fuel lba s = some (payload, s')) :
    patternBytes benv tctx lba = some payload := by
  have hends := (pattern_some hsized hvalid h).1
  have hlow := hsized.low
  unfold patternBytes
  rw [horder, hblksize, halign]
  cases hpattern : tctx.pattern with
  | p3 | p5 =>
    rw [hpattern] at h hends
    obtain ⟨ws, hws, heq⟩ := map_eq_some_iff.mp h
    cases heq
    obtain ⟨n, hn, rfl⟩ := pairLoop_some hws
    obtain ⟨hint, heven⟩ := hends
    rw [tdiv_two_bufsize hlow hint] at hn
    obtain rfl : n = (env.blksize - headerSize) / 4 := by omega
    simp only [Hxestorage.generatePattern3, Hxestorage.generatePattern5, Hxestorage.pairLoop,
      if_pos heven, map_some]
  | p4 =>
    rw [hpattern] at h hends
    obtain ⟨ws, hws, heq⟩ := map_eq_some_iff.mp h
    cases heq
    obtain ⟨n, hn, rfl⟩ := constantLoop_some hws
    rw [tdiv_two_bufsize hlow hends] at hn
    rw [← ofNat.inj hn]
    rfl
  | p7 =>
    rw [hpattern] at h hends
    obtain ⟨bytes, hbytes, heq⟩ := map_eq_some_iff.mp h
    cases heq
    obtain ⟨n, hn, rfl⟩ := generatePattern7_some hbytes
    rw [bufsize_eq hlow hends] at hn
    rw [← ofNat.inj hn]
    exact if_neg fun hzero => hsized.line.ne' hzero.1

end

end Htx.Hxestorage.Fill
