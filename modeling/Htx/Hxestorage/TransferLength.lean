import Htx.Hxestorage.ThreadSetup
import Htx.Hxestorage.SeedReplay

/-!
# Transfer lengths

The parser makes the limits and the increment of a `TRANSFER_SIZE` multiples of the block
size, `apply_rule_settings` starts with the shortest length, and `random_dlen` moves on
between the limits.
-/

namespace Htx.Hxestorage

open SeedThread Option Function XferSize Nat ThreadContext SeedEnv

/-!
# What the parser stores
-/

/-- A value of a `TRANSFER_SIZE` line as `get_value` returns its parts: a fixed size, or
limits and an increment.  A size that is stored as `UNDEFINED` counts as none. -/
structure XferSize.Accepted (blksize : Nat) (x : XferSize) : Prop where
  blksize_pos : 0 < blksize
  blksize_lt : blksize < 2 ^ 32
  minLen_lt : x.minLen < 2 ^ 64
  maxLen_lt : x.increment ≠ 0 -> x.maxLen < 2 ^ 63
  increment_ge : - 2 ^ 31 ≤ x.increment
  increment_lt : x.increment < 2 ^ 31
  defined : (x.normalize blksize).minLen ≠ u64 (-1)

structure XferSize.Stored (blksize : Nat) (y : XferSize) : Prop where
  blksize_pos : 0 < blksize
  dvd_minLen : blksize ∣ y.minLen
  dvd_maxLen : blksize ∣ y.maxLen
  blksize_le : blksize ≤ y.minLen
  ordered : y.minLen ≤ y.maxLen
  minLen_lt : y.minLen < 2 ^ 64
  maxLen_lt : y.increment ≠ 0 -> y.maxLen < 2 ^ 63
  increment_ge : - 2 ^ 31 ≤ y.increment
  increment_lt : y.increment < 2 ^ 31

theorem signed32_bounds (n : Nat) : - 2 ^ 31 ≤ signed32 n ∧ signed32 n < 2 ^ 31 := by
  unfold signed32
  rw [Int.bmod_def]
  split <;> omega

section

variable {blksize : Nat} {x : XferSize}

def XferSize.upperLen (x : XferSize) : Nat :=
  if x.increment = 0 then x.minLen else x.maxLen

theorem XferSize.normalize_minLen : (x.normalize blksize).minLen =
      if x.minLen < blksize then blksize else x.minLen / blksize * blksize := rfl

theorem XferSize.normalize_maxLen : (x.normalize blksize).maxLen =
      if x.upperLen < (x.normalize blksize).minLen then (x.normalize blksize).minLen
      else x.upperLen / blksize * blksize := rfl

def roundIncrement (blksize : Nat) (increment : Int) : Int :=
  if increment ≠ -1 ∧ u32 increment % blksize ≠ 0 then
    signed32 (u64 increment / blksize * blksize)
  else increment

theorem XferSize.normalize_increment : (x.normalize blksize).increment = roundIncrement blksize
      (if x.upperLen < (x.normalize blksize).minLen then 0 else x.increment) := rfl

theorem roundIncrement_zero (blksize : Nat) : roundIncrement blksize 0 = 0 := by
  have hzero : u32 0 % blksize = 0 := zero_mod blksize
  unfold roundIncrement
  rw [if_neg fun h => h.2 hzero]

theorem XferSize.increment_of_normalize (h : (x.normalize blksize).increment ≠ 0) :
    x.increment ≠ 0 ∧ ¬ x.upperLen < (x.normalize blksize).minLen := by
  rw [normalize_increment] at h
  constructor
  · intro hinc
    rw [hinc, ite_self, roundIncrement_zero] at h
    exact h rfl
  · intro hlt
    rw [if_pos hlt, roundIncrement_zero] at h
    exact h rfl

theorem roundIncrement_bounds {increment : Int} (hlow : - 2 ^ 31 ≤ increment)
    (hhigh : increment < 2 ^ 31) :
    - 2 ^ 31 ≤ roundIncrement blksize increment ∧ roundIncrement blksize increment < 2 ^ 31 := by
  unfold roundIncrement
  by_cases h : increment ≠ -1 ∧ u32 increment % blksize ≠ 0
  · rw [if_pos h]
    exact signed32_bounds _
  · rw [if_neg h]
    exact ⟨hlow, hhigh⟩

theorem XferSize.Accepted.increment_bounds (hx : x.Accepted blksize) :
    - 2 ^ 31 ≤ (x.normalize blksize).increment ∧ (x.normalize blksize).increment < 2 ^ 31 := by
  rw [normalize_increment]
  by_cases h : x.upperLen < (x.normalize blksize).minLen
  · rw [if_pos h, roundIncrement_zero]
    decide
  · rw [if_neg h]
    exact roundIncrement_bounds hx.increment_ge hx.increment_lt

theorem XferSize.Accepted.stored (hx : x.Accepted blksize) :
    (x.normalize blksize).Stored blksize := by
  have hpos := hx.blksize_pos
  have hblk := hx.blksize_lt
  have hmin := hx.minLen_lt
  have hfloor := div_mul_le_self x.minLen blksize
  have hupper := div_mul_le_self x.upperLen blksize
  have hbounds := hx.increment_bounds
  have hdvdMin : blksize ∣ (x.normalize blksize).minLen := by
    rw [normalize_minLen]
    split
    · exact dvd_refl _
    · exact dvd_mul_left _ _
  refine ⟨hpos, hdvdMin, ?_, ?_, ?_, ?_, ?_, hbounds.1, hbounds.2⟩
  · rw [normalize_maxLen]
    split
    · exact hdvdMin
    · exact dvd_mul_left _ _
  · rw [normalize_minLen]
    split
    · exact le_rfl
    · next h =>
        exact Nat.le_mul_of_pos_left _ (Nat.div_pos (Nat.le_of_not_lt h) hpos)
  · rw [normalize_maxLen]
    split
    · exact le_rfl
    · next h =>
        -- rounding down stops at the lower limit, which is a multiple itself
        rw [← Nat.div_mul_cancel hdvdMin]
        exact Nat.mul_le_mul_right _ (Nat.div_le_div_right (Nat.le_of_not_lt h))
  · rw [normalize_minLen]
    split <;> omega
  · intro hinc
    rcases increment_of_normalize hinc with ⟨hraw, hnot⟩
    have hmax := hx.maxLen_lt hraw
    rw [normalize_maxLen, if_neg hnot]
    rw [upperLen, if_neg hraw] at hupper ⊢
    omega

end

/-!
# The lengths of a thread
-/

namespace SeedThread

variable {Seed : Type}

def ofContext (c : ThreadContext) (seed : Seed) : SeedThread Seed where
  oper := c.oper
  ops := populateOperations c.oper
  option := .default
  minLen := (c.transferSz.getD ⟨0, 0, 0⟩).minLen
  maxLen := (c.transferSz.getD ⟨0, 0, 0⟩).maxLen
  bwrcZoneIndex := -1
  blk := c.toBlkContext
  seed := seed
  dataSeed := seed
  clock := 0

def randomDlens (env : SeedEnv Seed) : Nat -> SeedThread Seed -> Option (SeedThread Seed)
  | 0, th => some th
  | k + 1, th => (randomDlens env k th).bind (randomDlen env)

end SeedThread

def SeedEnv.Draws {Seed : Type} (env : SeedEnv Seed) : Prop :=
  forall seed, 0 ≤ (env.nrand48 seed).1 ∧ (env.nrand48 seed).1 < 2 ^ 31

structure LengthInRange {Seed : Type} (blksize : Nat) (th : SeedThread Seed) : Prop where
  dvd : blksize ∣ th.blk.dlen
  low : th.minLen ≤ th.blk.dlen
  high : th.blk.dlen ≤ th.maxLen
  numBlks : th.blk.numBlks = th.blk.dlen / blksize
  numBlks_pos : 1 ≤ th.blk.numBlks

namespace XferSize

def longest (blksize : Nat) (y : XferSize) : Nat :=
  if y.increment = 0 then y.minLen
  else if y.increment = -1 then
    y.minLen + min (y.maxLen - y.minLen) (2 ^ 31 - 1) / blksize * blksize
  else if 0 < y.increment then
    y.minLen + (y.maxLen - y.minLen) / y.increment.toNat * y.increment.toNat
  else y.maxLen

structure Steady (blksize : Nat) (y : XferSize) : Prop where
  step : y.increment ≠ -1 -> y.minLen + y.increment.natAbs ≤ y.maxLen ->
    blksize ∣ y.increment.natAbs
  room : y.increment < -1 -> y.increment.natAbs ≤ y.minLen
  blocks : y.longest blksize / blksize < 2 ^ 32

end XferSize

variable {blksize : Nat}

section

variable {Seed : Type} {env : SeedEnv Seed} {y : XferSize} {th th' : SeedThread Seed}

structure AtLength (blksize : Nat) (y : XferSize) (len : Nat) (th : SeedThread Seed) : Prop where
  minLen : th.minLen = y.minLen
  maxLen : th.maxLen = y.maxLen
  increment : th.blk.increment = y.increment
  dlen : th.blk.dlen = len
  numBlks : th.blk.numBlks = u32 (len / blksize : Nat)

def XferSize.stepLen (y : XferSize) (dlen : Nat) : Nat :=
  if 0 < y.increment ∧ y.maxLen < u64 (dlen + y.increment) then y.minLen
  else if y.increment < 0 ∧ u64 (dlen + y.increment) < y.minLen then y.maxLen
  else u64 (dlen + y.increment)

variable {len : Nat}

theorem AtLength.randomDlen_step (h : AtLength env.blksize y len th) (hinc : y.increment ≠ -1) :
    exists th', randomDlen env th = some th' ∧
      AtLength env.blksize y (y.stepLen len) th' := by
  unfold randomDlen
  rw [if_neg (h.increment.trans_ne hinc), h.increment, h.dlen, h.minLen, h.maxLen]
  exact ⟨_, rfl, h.minLen, h.maxLen, h.increment, rfl, rfl⟩

def XferSize.drawnLen (blksize : Nat) (y : XferSize) (draw : Int) : Nat :=
  y.minLen + draw.toNat % (y.maxLen - y.minLen + 1) / blksize * blksize

section

variable (hy : y.Stored env.blksize)

include hy

theorem XferSize.Stored.drawnLen_le (draw : Int) : y.drawnLen env.blksize draw ≤ y.maxLen := by
  have hordered := hy.ordered
  have hmod := mod_lt draw.toNat (show 0 < y.maxLen - y.minLen + 1 from succ_pos _)
  have hfloor := div_mul_le_self (draw.toNat % (y.maxLen - y.minLen + 1)) env.blksize
  unfold drawnLen
  omega

theorem XferSize.Stored.drawLen_eq (hdraws : env.Draws) (hinc : y.increment = -1) (seed : Seed) :
    drawLen env y.minLen y.maxLen seed =
      some (y.drawnLen env.blksize (env.nrand48 seed).1, (env.nrand48 seed).2) := by
  have hmax := hy.maxLen_lt (by rw [hinc]; decide)
  have hordered := hy.ordered
  have hdraw := hdraws seed
  have hlen := hy.drawnLen_le (env.nrand48 seed).1
  have hwidth : u64 ((y.maxLen : Int) - y.minLen + 1) = y.maxLen - y.minLen + 1 :=
    u64_eq (by omega) (by omega)
  have hnum : u64 (env.nrand48 seed).1 = (env.nrand48 seed).1.toNat := u64_eq (by omega) (by omega)
  unfold drawLen
  dsimp only
  rw [hwidth, hnum, if_neg (succ_ne_zero _)]
  congr 2
  exact u64_eq rfl (by omega)

theorem AtLength.randomDlen_draw (hdraws : env.Draws)
    (h : AtLength env.blksize y len th) (hinc : y.increment = -1) :
    exists th', randomDlen env th = some th' ∧
      AtLength env.blksize y (y.drawnLen env.blksize (env.nrand48 th.seed).1) th' := by
  unfold randomDlen
  rw [if_pos (h.increment.trans hinc), h.minLen, h.maxLen, hy.drawLen_eq hdraws hinc]
  exact ⟨_, rfl, rfl, rfl, h.increment, rfl, rfl⟩

end

/-!
# Steady sizes
-/

structure XferSize.Reached (blksize : Nat) (y : XferSize) (len : Nat) : Prop where
  dvd : blksize ∣ len
  low : y.minLen ≤ len
  high : len ≤ y.longest blksize
  steps : 0 < y.increment -> y.increment.toNat ∣ len - y.minLen

section

variable (hy : y.Stored env.blksize)

include hy

theorem XferSize.Stored.longest_le : y.longest env.blksize ≤ y.maxLen := by
  have hordered := hy.ordered
  unfold longest
  split
  · exact hordered
  · split
    · have hfloor := div_mul_le_self (min (y.maxLen - y.minLen) (2 ^ 31 - 1)) env.blksize
      omega
    · split
      · have hfloor := div_mul_le_self (y.maxLen - y.minLen) y.increment.toNat
        omega
      · exact le_rfl

theorem XferSize.Stored.minLen_le_longest : y.minLen ≤ y.longest env.blksize := by
  unfold longest
  split
  · exact le_rfl
  · split
    · exact le_add_right _ _
    · split
      · exact le_add_right _ _
      · exact hy.ordered

theorem XferSize.Stored.reached_minLen : y.Reached env.blksize y.minLen :=
  ⟨hy.dvd_minLen, le_rfl, hy.minLen_le_longest, fun _ => by rw [Nat.sub_self]; exact dvd_zero _⟩

theorem XferSize.Reached.inRange (hs : y.Steady env.blksize)
    (hlen : y.Reached env.blksize len) (h : AtLength env.blksize y len th) :
    LengthInRange env.blksize th := by
  have hlt : len / env.blksize < 2 ^ 32 := (Nat.div_le_div_right hlen.high).trans_lt hs.blocks
  have hnum : th.blk.numBlks = len / env.blksize := h.numBlks.trans (u32_eq rfl hlt)
  refine ⟨?_, ?_, ?_, ?_, ?_⟩
  · rw [h.dlen]
    exact hlen.dvd
  · rw [h.dlen, h.minLen]
    exact hlen.low
  · rw [h.dlen, h.maxLen]
    exact hlen.high.trans hy.longest_le
  · rw [h.dlen, hnum]
  · rw [hnum]
    exact div_pos (hy.blksize_le.trans hlen.low) hy.blksize_pos

theorem XferSize.Reached.step_up (hs : y.Steady env.blksize)
    (hinc : 0 < y.increment) (h : y.Reached env.blksize len) :
    y.Reached env.blksize (y.stepLen len) := by
  have hmax := hy.maxLen_lt hinc.ne'
  have hlt := hy.increment_lt
  have hlow := h.low
  have hle := h.high.trans hy.longest_le
  have hnext : u64 (len + y.increment) = len + y.increment.toNat := u64_eq (by omega) (by omega)
  unfold stepLen
  rw [hnext]
  by_cases hover : y.maxLen < len + y.increment.toNat
  · rw [if_pos ⟨hinc, hover⟩]
    exact hy.reached_minLen
  · rw [if_neg fun h => hover h.2, if_neg fun h => absurd h.1 hinc.not_gt]
    have hdvd : env.blksize ∣ y.increment.toNat := by
      have hstep := hs.step (by omega) (by omega)
      rwa [show y.increment.natAbs = y.increment.toNat by omega] at hstep
    have hsteps : y.increment.toNat ∣ len + y.increment.toNat - y.minLen := by
      rw [Nat.sub_add_comm hlow]
      exact (h.steps hinc).add (dvd_refl _)
    refine ⟨h.dvd.add hdvd, by omega, ?_, fun _ => hsteps⟩
    unfold longest
    rw [if_neg hinc.ne', if_neg (by omega), if_pos hinc]
    have hquot := Nat.mul_le_mul_right y.increment.toNat
      (Nat.div_le_div_right (c := y.increment.toNat)
        (show len + y.increment.toNat - y.minLen ≤ y.maxLen - y.minLen by omega))
    rw [Nat.div_mul_cancel hsteps] at hquot
    omega

end

theorem XferSize.longest_down (hinc : y.increment < -1) : y.longest blksize = y.maxLen := by
  unfold longest
  rw [if_neg (by omega), if_neg (by omega), if_neg (by omega)]

section

variable (hy : y.Stored env.blksize)

include hy

theorem XferSize.Reached.step_down (hs : y.Steady env.blksize)
    (hinc : y.increment < -1) (h : y.Reached env.blksize len) :
    y.Reached env.blksize (y.stepLen len) := by
  have hmax := hy.maxLen_lt (by omega)
  have hroom := hs.room hinc
  have hlow := h.low
  have hhigh := h.high
  rw [longest_down hinc] at hhigh
  have hnext : u64 (len + y.increment) = len - y.increment.natAbs := u64_eq (by omega) (by omega)
  unfold stepLen
  rw [hnext, if_neg (by omega)]
  by_cases hunder : len - y.increment.natAbs < y.minLen
  · rw [if_pos ⟨by omega, hunder⟩]
    exact ⟨hy.dvd_maxLen, hy.ordered, (longest_down hinc).ge, fun hup => by omega⟩
  · rw [if_neg fun h => hunder h.2]
    have hdvd := hs.step (by omega) (by omega)
    refine ⟨dvd_sub h.dvd hdvd, by omega, ?_, fun hup => by omega⟩
    rw [longest_down hinc]
    omega

theorem XferSize.Reached.step_zero (hinc : y.increment = 0) (h : y.Reached env.blksize len) :
    y.Reached env.blksize (y.stepLen len) := by
  have hhigh := h.high
  have hmin := hy.minLen_lt
  rw [longest, if_pos hinc] at hhigh
  have hnext : u64 (len + y.increment) = len := u64_eq (by omega) (by omega)
  have hstay : y.stepLen len = len := by
    unfold stepLen
    rw [hnext, if_neg (by omega), if_neg (by omega)]
  rw [hstay]
  exact h

theorem XferSize.Stored.reached_drawn (hinc : y.increment = -1)
    {draw : Int} (hdraw : draw < 2 ^ 31) :
    y.Reached env.blksize (y.drawnLen env.blksize draw) := by
  have hmod := mod_lt draw.toNat (show 0 < y.maxLen - y.minLen + 1 from succ_pos _)
  have hle := mod_le draw.toNat (y.maxLen - y.minLen + 1)
  refine ⟨hy.dvd_minLen.add (dvd_mul_left _ _), le_add_right _ _, ?_, fun hup => by omega⟩
  unfold longest drawnLen
  rw [if_neg (by omega), if_pos hinc]
  refine Nat.add_le_add_left (Nat.mul_le_mul_right _ (Nat.div_le_div_right ?_)) _
  omega

theorem AtLength.randomDlen (hs : y.Steady env.blksize)
    (hdraws : env.Draws) (h : AtLength env.blksize y len th) (hlen : y.Reached env.blksize len) :
    exists th' len', randomDlen env th = some th' ∧
      AtLength env.blksize y len' th' ∧ y.Reached env.blksize len' := by
  by_cases hrandom : y.increment = -1
  · rcases h.randomDlen_draw hy hdraws hrandom with ⟨th', heq, hat⟩
    exact ⟨th', _, heq, hat, hy.reached_drawn hrandom (hdraws th.seed).2⟩
  · rcases h.randomDlen_step hrandom with ⟨th', heq, hat⟩
    refine ⟨th', _, heq, hat, ?_⟩
    rcases lt_trichotomy y.increment 0 with hneg | hzero | hup
    · exact hlen.step_down hy hs (by omega)
    · exact hlen.step_zero hy hzero
    · exact hlen.step_up hy hs hup

theorem AtLength.randomDlens (hs : y.Steady env.blksize)
    (hdraws : env.Draws) (h : AtLength env.blksize y y.minLen th) (k : Nat) :
    exists th' len', randomDlens env k th = some th' ∧
      AtLength env.blksize y len' th' ∧ y.Reached env.blksize len' := by
  induction k with
  | zero => exact ⟨th, y.minLen, rfl, h, hy.reached_minLen⟩
  | succ k ih =>
    rcases ih with ⟨th', len', heq, hat, hlen⟩
    rcases hat.randomDlen hy hs hdraws hlen with ⟨th'', len'', hnext, hat', hlen'⟩
    refine ⟨th'', len'', ?_, hat', hlen'⟩
    rw [SeedThread.randomDlens, heq]
    exact hnext

end

/-!
# Only steady sizes
-/

structure XferSize.Passes (blksize : Nat) (y : XferSize) (len : Nat) : Prop where
  dvd : blksize ∣ len
  low : y.minLen ≤ len
  high : len ≤ y.maxLen
  blocks : len / blksize < 2 ^ 32

theorem AtLength.passes (h : AtLength blksize y len th)
    (hok : LengthInRange blksize th) : y.Passes blksize len := by
  have hnum : len / blksize = u32 (len / blksize : Nat) := by
    rw [← h.numBlks, hok.numBlks, h.dlen]
  refine ⟨?_, ?_, ?_, ?_⟩
  · rw [← h.dlen]
    exact hok.dvd
  · rw [← h.dlen, ← h.minLen]
    exact hok.low
  · rw [← h.dlen, ← h.maxLen]
    exact hok.high
  · rw [hnum]
    unfold u32
    omega

theorem AtLength.steps (h : AtLength env.blksize y y.minLen th) (hinc : y.increment ≠ -1)
    (k : Nat) :
    exists th', SeedThread.randomDlens env k th = some th' ∧
      AtLength env.blksize y (iterate y.stepLen k y.minLen) th' := by
  induction k with
  | zero => exact ⟨th, rfl, h⟩
  | succ k ih =>
    rcases ih with ⟨th', heq, hat⟩
    rcases hat.randomDlen_step hinc with ⟨th'', hnext, hat'⟩
    refine ⟨th'', ?_, ?_⟩
    · rw [SeedThread.randomDlens, heq]
      exact hnext
    · rw [iterate_succ_apply']
      exact hat'

section

variable {blksize : Nat}

section

variable (hy : y.Stored blksize)

include hy

theorem XferSize.Stored.iterate_up (hinc : 0 < y.increment) {k : Nat}
    (hk : k ≤ (y.maxLen - y.minLen) / y.increment.toNat) :
    iterate y.stepLen k y.minLen = y.minLen + k * y.increment.toNat := by
  have hmax := hy.maxLen_lt hinc.ne'
  induction k with
  | zero => rw [iterate_zero_apply, zero_mul, add_zero]
  | succ k ih =>
    have hroom := (le_div_iff_mul_le (show 0 < y.increment.toNat by omega)).mp hk
    rw [add_mul, one_mul] at hroom ⊢
    rw [iterate_succ_apply', ih (le_of_succ_le hk)]
    have hnext : u64 ((y.minLen + k * y.increment.toNat : Nat) + y.increment) =
        y.minLen + (k * y.increment.toNat + y.increment.toNat) :=
      u64_eq (by omega) (by omega)
    unfold stepLen
    rw [hnext, if_neg (by omega), if_neg (by omega)]

theorem XferSize.Stored.stepLen_minLen (hinc : y.increment < -1) :
    y.stepLen y.minLen =
      if y.increment.natAbs ≤ y.minLen then y.maxLen
      else 2 ^ 64 + y.minLen - y.increment.natAbs := by
  have hmax := hy.maxLen_lt (by omega)
  have hordered := hy.ordered
  have hge := hy.increment_ge
  unfold stepLen
  rw [if_neg (by omega)]
  by_cases hroom : y.increment.natAbs ≤ y.minLen
  · have hnext : u64 (y.minLen + y.increment) = y.minLen - y.increment.natAbs :=
      u64_eq (by omega) (by omega)
    rw [hnext, if_pos hroom, if_pos (by omega)]
  · have hnext : u64 (y.minLen + y.increment) = 2 ^ 64 + y.minLen - y.increment.natAbs := by
      unfold u64
      omega
    rw [hnext, if_neg hroom, if_neg (by omega)]

theorem XferSize.Stored.stepLen_maxLen (hinc : y.increment < -1)
    (hstep : y.minLen + y.increment.natAbs ≤ y.maxLen) :
    y.stepLen y.maxLen = y.maxLen - y.increment.natAbs := by
  have hmax := hy.maxLen_lt (by omega)
  have hnext : u64 (y.maxLen + y.increment) = y.maxLen - y.increment.natAbs :=
    u64_eq (by omega) (by omega)
  unfold stepLen
  rw [hnext, if_neg (by omega), if_neg (by omega)]

theorem XferSize.Stored.steady_of_up (hinc : 0 < y.increment)
    (hall : forall k, y.Passes blksize (iterate y.stepLen k y.minLen)) :
    y.Steady blksize := by
  have habs : y.increment.natAbs = y.increment.toNat := by omega
  refine ⟨?_, fun hdown => by omega, ?_⟩
  · intro _ hstep
    rw [habs] at hstep ⊢
    have hone := (hall 1).dvd
    rw [hy.iterate_up hinc, one_mul] at hone
    · exact (Nat.dvd_add_right hy.dvd_minLen).mp hone
    · rw [le_div_iff_mul_le (by omega)]
      omega
  · have hlast := (hall ((y.maxLen - y.minLen) / y.increment.toNat)).blocks
    rw [hy.iterate_up hinc le_rfl] at hlast
    rw [longest, if_neg hinc.ne', if_neg (by omega), if_pos hinc]
    exact hlast

theorem XferSize.Stored.steady_of_down (hinc : y.increment < -1)
    (hall : forall k, y.Passes blksize (iterate y.stepLen k y.minLen)) :
    y.Steady blksize := by
  have hmax := hy.maxLen_lt (by omega)
  have hge := hy.increment_ge
  have hone := hall 1
  rw [iterate_one, hy.stepLen_minLen hinc] at hone
  have hroom : y.increment.natAbs ≤ y.minLen := by
    by_contra hnot
    rw [if_neg hnot] at hone
    have hhigh := hone.high
    omega
  refine ⟨?_, fun _ => hroom, ?_⟩
  · intro _ hstep
    have htwo := (hall 2).dvd
    rw [iterate_succ_apply', iterate_one, hy.stepLen_minLen hinc, if_pos hroom,
      hy.stepLen_maxLen hinc hstep] at htwo
    exact (dvd_sub_iff_right (by omega) hy.dvd_maxLen).mp htwo
  · rw [if_pos hroom] at hone
    rw [longest_down hinc]
    exact hone.blocks

end

theorem XferSize.Stored.steady_of_fixed (hinc : y.increment = 0)
    (hall : forall k, y.Passes blksize (iterate y.stepLen k y.minLen)) :
    y.Steady blksize := by
  refine ⟨fun _ _ => ?_, fun hdown => by omega, ?_⟩
  · rw [hinc]
    exact dvd_zero _
  · rw [longest, if_pos hinc]
    exact (hall 0).blocks

theorem XferSize.Stored.steady_of_random (hinc : y.increment = -1)
    (hall : forall draw : Int, 0 ≤ draw -> draw < 2 ^ 31 ->
      y.Passes blksize (y.drawnLen blksize draw)) : y.Steady blksize := by
  refine ⟨fun hne => absurd hinc hne, fun hdown => by omega, ?_⟩
  have hlast := (hall (min (y.maxLen - y.minLen) (2 ^ 31 - 1) : Nat) (by omega) (by omega)).blocks
  rw [drawnLen, Int.toNat_natCast, mod_eq_of_lt (by omega)] at hlast
  rw [longest, if_neg (by omega), if_pos hinc]
  exact hlast

end

end

/-!
# From the rule to the lengths
-/

variable {y : XferSize}

namespace ThreadContext

section

variable {dev : Device} {rule : RuleInfo} {thNum total : Nat} {zones : Nat -> ThreadContext}
  {c c' : ThreadContext}

def lengths (c : ThreadContext) : Option XferSize × Int × Nat × Nat :=
  (c.transferSz, c.increment, c.dlen, c.numBlks)

theorem lengths_of_kept (h : c'.kept = c.kept) : c'.lengths = c.lengths :=
  congrArg (·.2.2) h

theorem lengths_applyTransfer (hsize : pick rule.associativity rule.dataLen thNum = some (some y))
    (h : c.applyTransfer dev rule thNum = some c') :
    c'.lengths = (some y, y.increment, y.minLen, u32 (y.minLen / dev.blksize : Nat)) := by
  simp only [applyTransfer, bind_eq_bind, bind_eq_some_iff, pure_def, some.injEq, hsize] at h
  rcases h with ⟨_, _, _, rfl, rfl⟩
  rfl

theorem lengths_applyRange (h : c.applyRange rule thNum = some c') : c'.lengths = c.lengths := by
  unfold applyRange at h
  split at h
  · cases h
    rfl
  · simp only [bind_eq_bind, bind_eq_some_iff, pure_def, some.injEq] at h
    rcases h with ⟨_, _, _, _, rfl⟩
    rfl

theorem lengths_applyZone (h : c.applyZone total zones = some c') : c'.lengths = c.lengths := by
  unfold applyZone at h
  split at h
  · unfold updateBwrcZone at h
    split at h
    · split at h
      · cases h
        rfl
      · split at h <;> cases h <;> rfl
    · split at h
      · cases h
        rfl
      · split at h <;> cases h <;> rfl
    · cases h
  · cases h
    rfl

theorem lengths_applyRuleSettings (hassoc : rule.associativity ≠ .random)
    (hsize : pick rule.associativity rule.dataLen thNum = some (some y))
    (h : c.applyRuleSettings dev total zones rule thNum = some c') :
    c'.lengths = (some y, y.increment, y.minLen, u32 (y.minLen / dev.blksize : Nat)) := by
  unfold applyRuleSettings at h
  simp only [if_neg hassoc, bind_eq_bind, bind_eq_some_iff, beforeZone] at h
  rcases h with ⟨c4, ⟨c1, h1, c2, h2, c3, h3, h4⟩, c5, h5, h6⟩
  rw [lengths_of_kept (kept_afterZone h6), lengths_applyZone h5,
    lengths_of_kept (kept_applySeek h4), lengths_applyRange h3,
    lengths_of_kept (kept_applyDirection h2)]
  exact lengths_applyTransfer hsize h1

end

end ThreadContext

section

variable {dev : Device} {rule : RuleInfo} {thNum total : Nat} {zones : Nat -> ThreadContext}
  {c0 c : ThreadContext}

theorem ofContext_atLength {Seed : Type}
    (h : c.lengths = (some y, y.increment, y.minLen, u32 (y.minLen / blksize : Nat)))
    (seed : Seed) : AtLength blksize y y.minLen (ofContext c seed) := by
  unfold lengths at h
  simp only [Prod.mk.injEq] at h
  rcases h with ⟨hsize, hinc, hdlen, hnum⟩
  refine ⟨?_, ?_, hinc, hdlen, hnum⟩
  · unfold ofContext
    rw [hsize]
    rfl
  · unfold ofContext
    rw [hsize]
    rfl

end

def SeedEnv.constant (blksize : Nat) (draw : Int) : SeedEnv Unit where
  nrand48 := fun _ => (draw, ())
  blksize := blksize
  totalBwrcThreads := 0

def LengthsInRange (blksize : Nat) (c : ThreadContext) : Prop :=
  forall (Seed : Type) (env : SeedEnv Seed) (seed : Seed), env.blksize = blksize -> env.Draws ->
    forall k, exists th, SeedThread.randomDlens env k (SeedThread.ofContext c seed) = some th ∧
      LengthInRange blksize th

theorem LengthsInRange.steady {c : ThreadContext} (hy : y.Stored blksize)
    (hstart : c.lengths = (some y, y.increment, y.minLen, u32 (y.minLen / blksize : Nat)))
    (hall : LengthsInRange blksize c) : y.Steady blksize := by
  have hat := ofContext_atLength hstart ()
  by_cases hrandom : y.increment = -1
  · refine XferSize.Stored.steady_of_random hrandom fun draw hlow hhigh => ?_
    have hdraws : (constant blksize draw).Draws := fun _ => ⟨hlow, hhigh⟩
    rcases hall Unit (constant blksize draw) () rfl hdraws 1 with ⟨th, heq, hok⟩
    rcases hat.randomDlen_draw hy hdraws hrandom with ⟨th', hnext, hat'⟩
    have hsame : some th = some th' := heq.symm.trans hnext
    rw [Option.some.inj hsame] at hok
    exact hat'.passes hok
  · have hpasses : forall k, y.Passes blksize (iterate y.stepLen k y.minLen) := by
      intro k
      change AtLength (constant blksize 0).blksize y y.minLen _ at hat
      have hdraws : (constant blksize 0).Draws :=
        fun _ => ⟨le_rfl, show (0 : Int) < 2 ^ 31 by decide⟩
      rcases hall Unit (constant blksize 0) () rfl hdraws k with ⟨th, heq, hok⟩
      rcases AtLength.steps hat hrandom k with ⟨th', hnext, hat'⟩
      have hsame : some th = some th' := heq.symm.trans hnext
      rw [Option.some.inj hsame] at hok
      exact hat'.passes hok
    rcases lt_trichotomy y.increment 0 with hneg | hzero | hup
    · exact hy.steady_of_down (by omega) hpasses
    · exact XferSize.Stored.steady_of_fixed hzero hpasses
    · exact hy.steady_of_up hup hpasses

/-- Every length of a thread is a multiple of the block size between the limits, exactly
if the rule settings are applied at all and the stored size is steady. -/
theorem lengths_inRange_iff {dev : Device} {rule : RuleInfo} {thNum total : Nat}
    {zones : Nat -> ThreadContext} {c0 c : ThreadContext} {x : XferSize}
    (hx : x.Accepted dev.blksize)
    (hline : pick rule.associativity rule.dataLen thNum = some (some (x.normalize dev.blksize)))
    (hfresh : c0.numBlks = 0) (hset : c0.applyRuleSettings dev total zones rule thNum = some c) :
    LengthsInRange dev.blksize c <->
      rule.associativity ≠ .random ∧ (x.normalize dev.blksize).Steady dev.blksize := by
  have hy := hx.stored
  constructor
  · intro hall
    have hassoc : rule.associativity ≠ .random := by
      intro hrandom
      rw [applyRuleSettings, if_pos hrandom] at hset
      cases hset
      have hdraws : (constant dev.blksize 0).Draws := fun _ => ⟨le_rfl,
        show (0 : Int) < 2 ^ 31 by decide⟩
      rcases hall Unit (constant dev.blksize 0) () rfl hdraws 0 with ⟨th, heq, hok⟩
      cases heq
      have hpos : 1 ≤ c0.numBlks := hok.numBlks_pos
      omega
    exact ⟨hassoc, hall.steady hy (lengths_applyRuleSettings hassoc hline hset)⟩
  · rintro ⟨hassoc, hs⟩ Seed env seed hblk hdraws k
    have hstart := lengths_applyRuleSettings hassoc hline hset
    rw [← hblk] at hy hs hstart ⊢
    rcases (ofContext_atLength hstart seed).randomDlens hy hs hdraws k with
      ⟨th, len, heq, hat, hlen⟩
    exact ⟨th, heq, hlen.inRange hy hs hat⟩

def sizedRule (x : XferSize) : RuleInfo :=
  { setRuleDefaults ⟨999, 512⟩ with
    patternId := ["#003"]
    numOper := [10]
    dataLen := [some (x.normalize 512)] }

def sizedThread (x : XferSize) : Option ThreadContext :=
  initial.applyRuleSettings ⟨999, 512⟩ 0 (fun _ => initial)
    (sizedRule x) 0

theorem lengths_inRange_stepped_up :
    exists c, sizedThread ⟨1024, 8192, 2048⟩ = some c ∧ LengthsInRange 512 c := by
  have hx : XferSize.Accepted (Device.mk 999 512).blksize ⟨1024, 8192, 2048⟩ :=
    ⟨by decide, by decide, by decide, fun _ => by decide, by decide, by decide, by decide⟩
  have hs : XferSize.Steady 512 (XferSize.normalize 512 ⟨1024, 8192, 2048⟩) :=
    ⟨fun _ _ => by decide, fun hdown => absurd hdown (by decide), by decide⟩
  cases hset : sizedThread ⟨1024, 8192, 2048⟩ with
  | none => exact absurd hset (by decide +kernel)
  | some c => exact ⟨c, rfl, (lengths_inRange_iff hx rfl rfl hset).mpr ⟨by decide, hs⟩⟩

theorem step_down_below_zero :
    exists c th, sizedThread ⟨512, 4096, -1024⟩ = some c ∧
      randomDlens (constant 512 0) 1 (ofContext c ()) = some th ∧
      th.blk.dlen = 2 ^ 64 - 512 :=
  ⟨_, _, rfl, rfl, by decide +kernel⟩

end Htx.Hxestorage
