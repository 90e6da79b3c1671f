import Htx.Hxestorage.Compare

/-!
# What a comparison means

A comparison that finds nothing should mean that every sub-block is the expected one, up
to the fields of a recognised header; otherwise the result should be the first byte that
differs.
-/

namespace Htx.Hxestorage

open Library Nat Option CompareEnv Int

namespace CompareEnv

structure Tiled (env : CompareEnv) : Prop where
  discard : env.discardEnabled = false
  divides : env.numSubBlks + 1 ∣ env.blksize
  header : headerSize ≤ env.cmpBytes
  whole : env.blksize ∣ env.dlen
  short : env.dlen ≤ 2 ^ 31

def SubBlock (env : CompareEnv) (i : Nat) : Prop :=
  env.cmpBytes ∣ i ∧ i < env.dlen

variable {env : CompareEnv} {i : Nat}

theorem Tiled.cmpBytes_pos (h : env.Tiled) : 0 < env.cmpBytes :=
  lt_of_lt_of_le (by decide) h.header

theorem Tiled.cmpBytes_dvd (h : env.Tiled) : env.cmpBytes ∣ env.dlen :=
  dvd_trans (div_dvd_of_dvd h.divides) h.whole

theorem Tiled.compareLen_eq (h : env.Tiled) : env.compareLen = env.dlen := by
  unfold compareLen
  rw [h.discard]
  rfl

theorem SubBlock.end_le (h : env.Tiled) (hi : env.SubBlock i) : i + env.cmpBytes ≤ env.dlen := by
  rcases h.cmpBytes_dvd with ⟨n, hn⟩
  rcases hi with ⟨⟨k, rfl⟩, hlt⟩
  rw [hn] at hlt ⊢
  have hk : k + 1 ≤ n := Nat.lt_of_mul_lt_mul_left hlt
  calc env.cmpBytes * k + env.cmpBytes = env.cmpBytes * (k + 1) := (mul_succ _ _).symm
    _ ≤ env.cmpBytes * n := mul_le_mul_left _ hk

end CompareEnv

/-!
# One sub-block
-/

section

variable {wbuf rbuf : Memory}

theorem findDifference_spec {n j : Nat} (h : j + n ≤ 2 ^ 31) :
    (forall q, j ≤ q -> q < j + n -> wbuf q = rbuf q) ∨
      exists q, findDifference wbuf rbuf n j = (q, true) ∧ j ≤ q ∧ q < j + n ∧ wbuf q ≠ rbuf q ∧
        forall q', j ≤ q' -> q' < q -> wbuf q' = rbuf q' := by
  induction n generalizing j with
  | zero =>
    left
    intro q hle hlt
    omega
  | succ n ih =>
    by_cases hj : wbuf j = rbuf j
    · have hwrap : u32 (j + 1 : Nat) = j + 1 := by
        unfold u32
        omega
      have hfind : findDifference wbuf rbuf (n + 1) j = findDifference wbuf rbuf n (j + 1) := by
        rw [findDifference, if_neg (not_not_intro hj), hwrap]
      rcases ih (j := j + 1) (by omega) with hall | ⟨q, hq, hle, hlt, hne, hbefore⟩
      · left
        intro q hle hlt
        rcases eq_or_lt_of_le hle with rfl | hmore
        · exact hj
        · exact hall q hmore (by omega)
      · right
        refine ⟨q, hfind.trans hq, by omega, by omega, hne, ?_⟩
        intro q' hle' hlt'
        rcases eq_or_lt_of_le hle' with rfl | hmore
        · exact hj
        · exact hbefore q' hmore hlt'
    · right
      refine ⟨j, by rw [findDifference, if_pos hj], le_refl j, by omega, hj, ?_⟩
      intro q' hle hlt
      omega

end

section

variable {env : CompareEnv} {wbuf rbuf : Memory} {i : Nat}

def StampMiscompare (env : CompareEnv) (wbuf rbuf : Memory) (i : Nat) : Prop :=
  env.enableStateTable = true ∧ StampsDiffer wbuf rbuf i

inductive HeaderOutcome (env : CompareEnv) (wbuf rbuf : Memory) (i : Nat) :
    HeaderCheck -> Prop
  | unrecognised : 0 < env.numWritesRemaining ∨ ¬ HeaderSigned wbuf rbuf i ->
      HeaderOutcome env wbuf rbuf i ⟨0, false, none, none⟩
  | stale {msg : Option CompareMsg} : env.numWritesRemaining ≤ 0 ->
      HeaderOutcome env wbuf rbuf i ⟨8, true, none, msg⟩
  | notSummed {cksum : Option Nat} {msg : Option CompareMsg} :
      ¬ HeaderSummed env.machine.order wbuf rbuf i ->
      HeaderOutcome env wbuf rbuf i ⟨0, false, cksum, msg⟩
  | recognised {cksum : Option Nat} {msg : Option CompareMsg} :
      env.numWritesRemaining ≤ 0 -> HeaderSigned wbuf rbuf i ->
      HeaderSummed env.machine.order wbuf rbuf i ->
      StampMiscompare env wbuf rbuf i ∨ env.controlTime ≤ timeBuffer env.machine rbuf i ->
      HeaderOutcome env wbuf rbuf i ⟨headerSize, false, cksum, msg⟩

theorem checkHeader_outcome : HeaderOutcome env wbuf rbuf i (checkHeader env wbuf rbuf i) := by
  unfold checkHeader
  by_cases hwrites : 0 < env.numWritesRemaining
  · rw [if_pos hwrites]
    exact .unrecognised (.inl hwrites)
  · rw [if_neg hwrites]
    by_cases hsigned : HeaderSigned wbuf rbuf i
    · rw [if_neg (not_not_intro hsigned)]
      dsimp only
      split
      · exact .stale (not_lt.mp hwrites)
      · rename_i hfresh
        by_cases hsummed : HeaderSummed env.machine.order wbuf rbuf i
        · rw [if_pos hsummed]
          refine .recognised (not_lt.mp hwrites) hsigned hsummed ?_
          rw [not_and_or, Bool.not_eq_false, Bool.and_eq_true, decide_eq_true_eq,
            not_lt] at hfresh
          exact hfresh
        · rw [if_neg hsummed]
          exact .notSummed hsummed
    · rw [if_pos hsigned]
      exact .unrecognised (.inr hsigned)

theorem HeaderOutcome.offset_le {c : HeaderCheck} (h : HeaderOutcome env wbuf rbuf i c) :
    c.offset ≤ headerSize := by
  cases h with
  | unrecognised _ => exact zero_le _
  | stale _ =>
    show 8 ≤ headerSize
    decide
  | notSummed _ => exact zero_le _
  | recognised _ _ _ _ => exact le_refl _

theorem HeaderOutcome.offset_of_stale {c : HeaderCheck}
    (h : HeaderOutcome env wbuf rbuf i c) (hstale : c.stale = true) : c.offset = 8 := by
  cases h with
  | stale _ => rfl
  | _ => cases hstale

def ChecksPass (env : CompareEnv) (wbuf rbuf : Memory) (i : Nat) : Prop :=
  env.Skipped wbuf i ∨ ((checkHeader env wbuf rbuf i).stale = false ∧
      forall q, i + (checkHeader env wbuf rbuf i).offset ≤ q -> q < i + env.cmpBytes ->
        wbuf q = rbuf q)

def Stale (env : CompareEnv) (wbuf rbuf : Memory) (i : Nat) : Prop :=
  env.numWritesRemaining ≤ 0 ∧ HeaderSigned wbuf rbuf i ∧ ¬ StampMiscompare env wbuf rbuf i ∧
    timeBuffer env.machine rbuf i < env.controlTime

/-- In the bytes of the buffers: a sub-block is not stale, its data is as expected, and its header
is recognised or as expected. -/
def Passes (env : CompareEnv) (wbuf rbuf : Memory) (i : Nat) : Prop :=
  env.Skipped wbuf i ∨ (¬ Stale env wbuf rbuf i ∧
    (forall q, i + headerSize ≤ q -> q < i + env.cmpBytes -> wbuf q = rbuf q) ∧
    (env.numWritesRemaining ≤ 0 ∧ HeaderSigned wbuf rbuf i ∧
        HeaderSummed env.machine.order wbuf rbuf i ∨
      forall q, i ≤ q -> q < i + headerSize -> wbuf q = rbuf q))

theorem checksPass_iff (h : env.Tiled) :
    ChecksPass env wbuf rbuf i <-> Passes env wbuf rbuf i := by
  have hheader := h.header
  have hwhole : (forall q, i + 0 ≤ q -> q < i + env.cmpBytes -> wbuf q = rbuf q) <->
      (forall q, i + headerSize ≤ q -> q < i + env.cmpBytes -> wbuf q = rbuf q) ∧
        forall q, i ≤ q -> q < i + headerSize -> wbuf q = rbuf q := by
    constructor
    · exact fun hall => ⟨fun q hle => hall q (by omega), fun q hle hlt => hall q hle (by omega)⟩
    · rintro ⟨hdata, hhead⟩ q hle hlt
      rcases lt_or_ge q (i + headerSize) with hlow | hhigh
      · exact hhead q hle hlow
      · exact hdata q hhigh hlt
  refine or_congr_right ?_
  unfold checkHeader
  by_cases hwrites : 0 < env.numWritesRemaining
  · have hfresh : ¬ Stale env wbuf rbuf i := fun hstale => not_lt.mpr hstale.1 hwrites
    simp only [if_pos hwrites, hfresh, not_le.mpr hwrites, false_and, not_false_eq_true, true_and,
      false_or, hwhole]
  · rw [if_neg hwrites]
    by_cases hsigned : HeaderSigned wbuf rbuf i
    · rw [if_neg (not_not_intro hsigned)]
      have hstale : Stale env wbuf rbuf i <->
          (env.enableStateTable && decide (StampsDiffer wbuf rbuf i)) = false ∧
            timeBuffer env.machine rbuf i < env.controlTime := by
        simp [Stale, StampMiscompare, not_lt.mp hwrites, hsigned]
      dsimp only
      split
      · next hold => simp [hstale.mpr hold]
      · next hnot =>
        have hfresh : ¬ Stale env wbuf rbuf i := fun hold => hnot (hstale.mp hold)
        by_cases hsummed : HeaderSummed env.machine.order wbuf rbuf i
        · simp [hfresh, hsigned, hsummed, not_lt.mp hwrites]
        · simp only [hfresh, hsummed, if_false, and_false, not_false_eq_true, true_and, false_or,
            hwhole]
    · have hfresh : ¬ Stale env wbuf rbuf i := fun hstale => hsigned hstale.2.1
      simp only [hfresh, hsigned, if_true, false_and, and_false, not_false_eq_true, true_and,
        false_or, hwhole]

def Compared (env : CompareEnv) (wbuf rbuf : Memory) (i q : Nat) : Prop :=
  ¬ env.Skipped wbuf i ∧ i + (checkHeader env wbuf rbuf i).offset ≤ q ∧ q < i + env.cmpBytes

structure FailsAt (env : CompareEnv) (wbuf rbuf : Memory) (i : Nat) (st : CompareState) :
    Prop where
  errorFound : st.errorFound = true
  inside : i ≤ st.j ∧ st.j < i + env.cmpBytes
  first : st.stale = false -> Compared env wbuf rbuf i st.j ∧ wbuf st.j ≠ rbuf st.j ∧
      forall q, Compared env wbuf rbuf i q -> q < st.j -> wbuf q = rbuf q

theorem compareBlock_spec (h : env.Tiled) (hi : env.SubBlock i) {st : CompareState}
    (herror : st.errorFound = false) (hstale : st.stale = false) :
    exists st', compareBlock env wbuf rbuf i st = some st' ∧
      ((ChecksPass env wbuf rbuf i ∧ st'.errorFound = false ∧ st'.stale = false) ∨
        (¬ ChecksPass env wbuf rbuf i ∧ FailsAt env wbuf rbuf i st')) := by
  have hend := hi.end_le h
  have hshort := h.short
  have hheader := h.header
  have hoffset := (@checkHeader_outcome env wbuf rbuf i).offset_le
  have htime := (@checkHeader_outcome env wbuf rbuf i).offset_of_stale
  unfold compareBlock ChecksPass
  by_cases hskip : env.Skipped wbuf i
  · rw [if_pos hskip]
    exact ⟨st, rfl, .inl ⟨.inl hskip, herror, hstale⟩⟩
  · rw [if_neg hskip]
    have hcompared : forall q, Compared env wbuf rbuf i q <->
        i + (checkHeader env wbuf rbuf i).offset ≤ q ∧ q < i + env.cmpBytes := by
      intro q
      simp [Compared, hskip]
    have hfirst := @FailsAt.mk env wbuf rbuf i
    simp only [hcompared] at hfirst
    generalize checkHeader env wbuf rbuf i = c at hoffset htime hfirst ⊢
    have hj : u32 (i + c.offset : Nat) = i + c.offset := by
      unfold u32
      omega
    have hsplit : i + c.offset + (env.cmpBytes - c.offset) = i + env.cmpBytes := by
      omega
    simp only [hj, herror, hstale, Bool.false_or, hskip, false_or]
    rw [if_neg (by omega)]
    have hsame : wbuf.bytes (i + c.offset) (env.cmpBytes - c.offset) =
        rbuf.bytes (i + c.offset) (env.cmpBytes - c.offset) <->
        forall q, i + c.offset ≤ q -> q < i + env.cmpBytes -> wbuf q = rbuf q := by
      rw [Memory.bytes_eq_iff]
      constructor
      · intro hall q hle hlt
        have hq := hall (q - (i + c.offset)) (by omega)
        rwa [Nat.add_sub_cancel' hle] at hq
      · intro hall k hk
        exact hall _ (by omega) (by omega)
    by_cases hequal : wbuf.bytes (i + c.offset) (env.cmpBytes - c.offset) =
        rbuf.bytes (i + c.offset) (env.cmpBytes - c.offset)
    · rw [if_pos hequal]
      refine ⟨_, rfl, ?_⟩
      cases hc : c.stale with
      | false => exact .inl ⟨⟨rfl, hsame.mp hequal⟩, rfl, rfl⟩
      | true =>
        have hinside : i ≤ i + c.offset ∧ i + c.offset < i + env.cmpBytes := by
          rw [htime hc]
          exact ⟨le_add_right _ _,
            Nat.add_lt_add_left (Nat.lt_of_lt_of_le (by decide) hheader) i⟩
        exact .inr ⟨fun hpass => Bool.noConfusion hpass.1,
          hfirst rfl hinside fun hfresh => Bool.noConfusion hfresh⟩
    · rw [if_neg hequal]
      refine ⟨_, rfl, .inr ⟨fun hpass => hequal (hsame.mpr hpass.2), ?_⟩⟩
      rcases @findDifference_spec wbuf rbuf (env.cmpBytes - c.offset) (i + c.offset) (by omega) with
        hall | ⟨q, hfind, hle, hlt, hne, hbefore⟩
      · rw [hsplit] at hall
        exact absurd (hsame.mpr hall) hequal
      · rw [hfind]
        rw [hsplit] at hlt
        refine hfirst (Bool.or_true _) ⟨le_trans (le_add_right _ _) hle, hlt⟩
          fun _ => ⟨⟨hle, hlt⟩, hne, ?_⟩
        intro q' hq' hbelow
        exact hbefore q' hq'.1 hbelow

end

/-!
# The whole transfer
-/

section

variable {env : CompareEnv} {wbuf rbuf : Memory}

theorem compareLoop_spec (h : env.Tiled) {fuel i : Nat} {st : CompareState}
    (hdvd : env.cmpBytes ∣ i) (hfuel : env.dlen < i + fuel) (hle : i ≤ env.dlen)
    (herror : st.errorFound = false) (hstale : st.stale = false) :
    exists st', compareLoop env wbuf rbuf env.dlen fuel i st = some st' ∧ ((st'.errorFound = false ∧
          forall k, env.SubBlock k -> i ≤ k -> ChecksPass env wbuf rbuf k) ∨
        exists k, env.SubBlock k ∧ i ≤ k ∧ ¬ ChecksPass env wbuf rbuf k ∧
          FailsAt env wbuf rbuf k st' ∧
          forall k', env.SubBlock k' -> i ≤ k' -> k' < k -> ChecksPass env wbuf rbuf k') := by
  induction fuel generalizing i st with
  | zero => omega
  | succ fuel ih =>
    rw [compareLoop]
    by_cases hlt : i < env.dlen
    · have hi : env.SubBlock i := ⟨hdvd, hlt⟩
      have hpos := h.cmpBytes_pos
      rw [if_pos ⟨hlt, herror⟩]
      -- the next sub-block that the loop comes to
      have hnext : forall k, env.SubBlock k -> i ≤ k -> k = i ∨ i + env.cmpBytes ≤ k := by
        intro k hk hik
        rcases eq_or_lt_of_le hik with rfl | hmore
        · exact .inl rfl
        · right
          have hgap : env.cmpBytes ≤ k - i := le_of_dvd (by omega) (dvd_sub hk.1 hdvd)
          omega
      rcases @compareBlock_spec env wbuf rbuf i h hi st herror hstale with
        ⟨st1, hblock, ⟨hpass, herror1, hstale1⟩ | ⟨hfail, hat⟩⟩
      · rw [hblock]
        rcases ih (dvd_add hdvd (dvd_refl _)) (by omega) (hi.end_le h) herror1
          hstale1 with ⟨st', hloop, ⟨herror', hall⟩ | ⟨k, hk, hik, hnot, hat, hbefore⟩⟩
        · refine ⟨st', hloop, .inl ⟨herror', ?_⟩⟩
          intro k hk hik
          rcases hnext k hk hik with rfl | hlater
          · exact hpass
          · exact hall k hk hlater
        · refine ⟨st', hloop, .inr ⟨k, hk, by omega, hnot, hat, ?_⟩⟩
          intro k' hk' hik' hlt'
          rcases hnext k' hk' hik' with rfl | hlater
          · exact hpass
          · exact hbefore k' hk' hlater hlt'
      · rw [hblock]
        refine ⟨st1, ?_, .inr ⟨i, hi, le_refl i, hfail, hat, ?_⟩⟩
        · cases fuel with
          | zero => omega
          | succ fuel => simp [compareLoop, hat.errorFound]
        · intro k' _ hik' hlt'
          omega
    · rw [if_neg fun hboth => hlt hboth.1]
      refine ⟨st, rfl, .inl ⟨herror, ?_⟩⟩
      intro k hk hik
      have := hk.2
      omega

theorem doCompare_spec (h : env.Tiled) (wbuf rbuf : Memory) :
    (exists st, doCompare env wbuf rbuf 0 = some (-1, st) ∧
      forall k, env.SubBlock k -> ChecksPass env wbuf rbuf k) ∨
      exists k st, doCompare env wbuf rbuf 0 = some ((st.j : Int), st) ∧ env.SubBlock k ∧
        ¬ ChecksPass env wbuf rbuf k ∧ FailsAt env wbuf rbuf k st ∧
        forall k', env.SubBlock k' -> k' < k -> ChecksPass env wbuf rbuf k' := by
  have hloop := @compareLoop_spec env wbuf rbuf h (env.dlen + 1) 0
    ⟨false, false, 0, 0, none⟩ (dvd_zero _) (by omega) (zero_le _) rfl rfl
  unfold doCompare
  rw [h.compareLen_eq, zero_add]
  rcases hloop with ⟨st, hst, ⟨herror, hall⟩ | ⟨k, hk, _, hnot, hat, hbefore⟩⟩
  · left
    refine ⟨st, ?_, fun k hk => hall k hk (zero_le k)⟩
    rw [hst, map_some, herror]
    rfl
  · right
    have hend := hk.end_le h
    have hshort := h.short
    have hj : signed32 st.j = st.j := by
      have hinside := hat.inside.2
      unfold signed32
      rw [bmod_eq_of_le] <;> omega
    refine ⟨k, st, ?_, hk, hnot, hat, fun k' hk' => hbefore k' hk' (zero_le k')⟩
    rw [hst, map_some, hat.errorFound, if_pos rfl, hj]

end

/-!
# Soundness
-/

structure HeaderExpected (env : CompareEnv) (wbuf rbuf : Memory) (i : Nat) : Prop where
  signature : rbuf.bytes (i + bufsigPos) bufsigLen = bufsig
  hostname : rbuf.bytes (i + hostnamePos) hostnameLen = wbuf.bytes (i + hostnamePos) hostnameLen
  devName : rbuf.bytes (i + devNamePos) devNameLen = wbuf.bytes (i + devNamePos) devNameLen
  lba : rbuf.load env.machine.order (i + lbaPos) lbaLen =
    wbuf.load env.machine.order (i + lbaPos) lbaLen
  time : env.controlTime ≤ rbuf.load env.machine.order (i + timeStampPos) timeStampLen
  stamp : env.enableStateTable = true -> rbuf.bytes (i + writeStampPos) writeStampLen =
    wbuf.bytes (i + writeStampPos) writeStampLen
  sum : wordSum env.machine.order rbuf i overhead % 2 ^ 16 = 0

structure BlockSound (env : CompareEnv) (wbuf rbuf : Memory) (i : Nat) : Prop where
  payload : forall q, i + headerSize ≤ q -> q < i + env.cmpBytes -> wbuf q = rbuf q
  header : (forall q, i ≤ q -> q < i + env.cmpBytes -> wbuf q = rbuf q) ∨
    (env.numWritesRemaining ≤ 0 ∧ HeaderExpected env wbuf rbuf i)

structure CompareSound (env : CompareEnv) (wbuf rbuf : Memory) : Prop where
  returns : exists result, doCompare env wbuf rbuf 0 = some result
  pass : forall st, doCompare env wbuf rbuf 0 = some (-1, st) ->
    forall i, env.SubBlock i -> ¬ env.Skipped wbuf i -> BlockSound env wbuf rbuf i
  inside : forall (p : Int) st, doCompare env wbuf rbuf 0 = some (p, st) -> 0 ≤ p -> p < env.dlen
  first : forall (p : Nat) st, doCompare env wbuf rbuf 0 = some ((p : Int), st) ->
    st.stale = false -> (exists i, env.SubBlock i ∧ Compared env wbuf rbuf i p) ∧ wbuf p ≠ rbuf p ∧
        forall i q, env.SubBlock i -> Compared env wbuf rbuf i q -> q < p -> wbuf q = rbuf q

structure StampMasked (env : CompareEnv) (wbuf rbuf : Memory) (i : Nat) : Prop where
  compared : ¬ env.Skipped wbuf i
  writes : env.numWritesRemaining ≤ 0
  signed : HeaderSigned wbuf rbuf i
  summed : HeaderSummed env.machine.order wbuf rbuf i
  stamps : StampMiscompare env wbuf rbuf i

section

variable {env : CompareEnv} {wbuf rbuf : Memory} {i : Nat}

theorem ChecksPass.blockSound (h : ChecksPass env wbuf rbuf i) (hskip : ¬ env.Skipped wbuf i)
    (hmasked : ¬ StampMasked env wbuf rbuf i) : BlockSound env wbuf rbuf i := by
  rcases h with hskip' | ⟨hstale, hsame⟩
  · exact absurd hskip' hskip
  · have hwhole : (checkHeader env wbuf rbuf i).offset = 0 -> BlockSound env wbuf rbuf i := by
      intro hzero
      rw [hzero] at hsame
      exact ⟨fun q hle hlt => hsame q (le_trans (le_add_right _ _) hle) hlt, .inl hsame⟩
    have hout := @checkHeader_outcome env wbuf rbuf i
    generalize checkHeader env wbuf rbuf i = c at hstale hsame hwhole hout
    cases hout with
    | unrecognised _ => exact hwhole rfl
    | stale _ => cases hstale
    | notSummed _ => exact hwhole rfl
    | recognised hwrites hsigned hsummed hfresh =>
      rcases hfresh with hstamps | htime
      · exact absurd ⟨hskip, hwrites, hsigned, hsummed, hstamps⟩ hmasked
      · refine ⟨hsame, .inr ⟨hwrites, ?_⟩⟩
        have hnonneg := le_trans (natCast_nonneg _) htime
        rw [timeBuffer_of_nonneg hnonneg, ofNat_le] at htime
        refine ⟨hsigned.1, hsigned.2.2.1, hsigned.2.2.2, hsummed.2, htime, ?_, hsummed.1⟩
        intro htable
        by_contra hne
        exact hmasked ⟨hskip, hwrites, hsigned, hsummed, htable, fun heq => hne heq.symm⟩

theorem StampMasked.not_blockSound (h : env.Tiled)
    (hmasked : StampMasked env wbuf rbuf i) : ¬ BlockSound env wbuf rbuf i := by
  intro hsound
  rcases hsound.header with hsame | ⟨_, hexpected⟩
  · apply hmasked.stamps.2
    rw [Memory.bytes_eq_iff]
    intro k hk
    have hheader := h.header
    unfold writeStampLen at hk
    unfold headerSize at hheader
    exact hsame _ (by omega) (by unfold writeStampPos; omega)
  · exact hmasked.stamps.2 (hexpected.stamp hmasked.stamps.1).symm

/-- `do_compare` is sound on a transfer, unless all of it passes and some header
differs in its write stamp only. -/
theorem doCompare_sound_iff (h : env.Tiled) (wbuf rbuf : Memory) : CompareSound env wbuf rbuf <->
      ((forall i, env.SubBlock i -> Passes env wbuf rbuf i) ->
        forall i, env.SubBlock i -> ¬ StampMasked env wbuf rbuf i) := by
  simp only [← checksPass_iff h]
  constructor
  · intro hsound hall i hi hmasked
    rcases doCompare_spec h wbuf rbuf with ⟨st, hcmp, _⟩ | ⟨k, st, _, hk, hnot, _⟩
    · exact hmasked.not_blockSound h (hsound.pass st hcmp i hi hmasked.compared)
    · exact hnot (hall k hk)
  · intro hfine
    rcases doCompare_spec h wbuf rbuf with ⟨st, hcmp, hall⟩ | ⟨k, st, hcmp, hk, hnot, hat, hbefore⟩
    · constructor
      · exact ⟨_, hcmp⟩
      · intro st' _ i hi hskip
        exact (hall i hi).blockSound hskip (hfine hall i hi)
      · intro p st' hp hnonneg
        rw [hcmp] at hp
        cases hp
        exact absurd hnonneg (by decide)
      · intro p st' hp
        rw [hcmp, some.injEq, Prod.mk.injEq] at hp
        omega
    · constructor
      · exact ⟨_, hcmp⟩
      · intro st' hp
        rw [hcmp, some.injEq, Prod.mk.injEq] at hp
        have := hp.1
        omega
      · intro p st' hp _
        rw [hcmp] at hp
        cases hp
        have hend := hk.end_le h
        have hinside := hat.inside.2
        omega
      · intro p st' hp hfresh
        rw [hcmp, some.injEq, Prod.mk.injEq, ofNat_inj] at hp
        rcases hp with ⟨rfl, rfl⟩
        rcases hat.first hfresh with ⟨hcompared, hne, hfirst⟩
        refine ⟨⟨k, hk, hcompared⟩, hne, ?_⟩
        intro i q hi hq hlt
        rcases lt_trichotomy i k with hearlier | rfl | hlater
        · rcases hbefore i hi hearlier with hskip | ⟨_, hsame⟩
          · exact absurd hskip hq.1
          · exact hsame q hq.2.1 hq.2.2
        · exact hfirst q hq hlt
        · have hgap : env.cmpBytes ≤ i - k :=
            le_of_dvd (by omega) (dvd_sub hi.1 hk.1)
          have hinside := hat.inside.2
          have hstart := hq.2.1
          omega

end

def oneBlock : CompareEnv where
  machine := ⟨.little, true⟩
  blksize := 128
  numSubBlks := 0
  discardEnabled := false
  enableStateTable := true
  enablementTime := 0
  timeMark := 0
  numWritesRemaining := 0
  dlen := 128

theorem CompareEnv.tiled_oneBlock : oneBlock.Tiled :=
  ⟨rfl, by decide, by decide, by decide, by decide⟩

def stampedBuf (stamp cksum : List UInt8) : Memory :=
  ((Memory.put (fun _ => 0) writeStampPos stamp).put bufsigPos bufsig).put checksumPos cksum

theorem doCompare_sound_unchanged :
    oneBlock.Tiled ∧ CompareSound oneBlock (stampedBuf [2, 0] [0x69, 0x75])
      (stampedBuf [2, 0] [0x69, 0x75]) :=
  ⟨tiled_oneBlock, (doCompare_sound_iff tiled_oneBlock _ _).mpr
      fun _ _ _ hmasked => hmasked.stamps.2 rfl⟩

/-- Stamp 2 is expected and stamp 1 is read; the difference is put into the message
and then forgotten. -/
theorem doCompare_passes_other_stamp :
    exists st, doCompare oneBlock (stampedBuf [2, 0] [0x69, 0x75])
        (stampedBuf [1, 0] [0x6a, 0x75]) 0 = some (-1, st) ∧
      st.msg = some (.stateMiscompare 2 1) ∧
      ¬ CompareSound oneBlock (stampedBuf [2, 0] [0x69, 0x75])
        (stampedBuf [1, 0] [0x6a, 0x75]) := by
  have hcmp : doCompare oneBlock (stampedBuf [2, 0] [0x69, 0x75])
      (stampedBuf [1, 0] [0x6a, 0x75]) 0 =
      some (-1, ⟨false, false, 64, 65536, some (.stateMiscompare 2 1)⟩) := by
    decide +kernel
  have hmasked : StampMasked oneBlock (stampedBuf [2, 0] [0x69, 0x75])
      (stampedBuf [1, 0] [0x6a, 0x75]) 0 :=
    ⟨by decide, by decide, by decide, by decide +kernel, rfl, by decide⟩
  refine ⟨_, hcmp, rfl, fun hsound => ?_⟩
  exact hmasked.not_blockSound tiled_oneBlock
    (hsound.pass _ hcmp 0 ⟨dvd_zero _, by decide⟩ hmasked.compared)

end Htx.Hxestorage
