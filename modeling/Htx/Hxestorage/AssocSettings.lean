import Htx.Hxestorage.ThreadSetup

/-!
# Settings under SEQ and RROBIN

`apply_rule_settings` has two copies of one block, which differ in how a thread picks among
the values of a keyword.  With one value for every keyword there is nothing to pick, so the
copies should do the same.
-/

namespace Htx.Hxestorage

open List Option RuleInfo ThreadContext

structure RuleExtras where
  ruleOption : BitVec 32
  userDefinedSeed : Nat -> UInt16
  userDefinedLbaSeed : Nat
  runReread : Char
  numCacheThreads : Int

def userSeedsFlag : BitVec 32 := 0x4

structure SettledContext extends ThreadContext where
  id : String
  testcase : Testcase
  passthrough : Bool
  mode : Mode
  ruleOption : BitVec 32
  seed : List UInt16
  dataSeed : List UInt16
  lbaSeed : Nat
  runReread : Char
  numCacheThreads : Int

namespace SettledContext

def applyCommon (rule : RuleInfo) (extras : RuleExtras) (thNum : Nat) (c : SettledContext) :
    SettledContext :=
  { c with
    id := rule.ruleId ++ "_" ++ toString thNum
    testcase := rule.testcase
    passthrough := decide (rule.testcase = .passthrough)
    mode := rule.mode
    ruleOption := extras.ruleOption }

def applySeeds (extras : RuleExtras) (c : SettledContext) : SettledContext :=
  let c :=
    if extras.ruleOption &&& userSeedsFlag ≠ 0 then
      { c with
        seed := [0, 1, 2].map extras.userDefinedSeed
        dataSeed := [3, 4, 5].map extras.userDefinedSeed
        lbaSeed := extras.userDefinedLbaSeed }
    else c
  { c with runReread := extras.runReread, numCacheThreads := extras.numCacheThreads }

def applyRuleSettings (dev : Device) (total : Nat) (zones : Nat -> ThreadContext)
    (rule : RuleInfo) (extras : RuleExtras) (thNum : Nat) (c : SettledContext) :
    Option SettledContext :=
  let c := c.applyCommon rule extras thNum
  (c.toThreadContext.applyRuleSettings dev total zones rule thNum).map fun t =>
    if rule.associativity = .random then { c with toThreadContext := t }
    else applySeeds extras { c with toThreadContext := t }

end SettledContext

/-!
# One value for every keyword
-/

structure RuleInfo.SingleValued (rule : RuleInfo) : Prop where
  patternId : rule.patternId.length = 1
  numOper : rule.numOper.length = 1
  seekBreakupPrcnt : rule.seekBreakupPrcnt.length = 1
  dataLen : rule.dataLen.length = 1
  startingBlock : rule.startingBlock.length = 1
  direction : rule.direction.length = 1
  maxBlkno : rule.maxBlkno.length = 1
  minBlkno : rule.minBlkno.length = 1
  blkHop : rule.blkHop.length = 1
  align : rule.align.length = 1
  lbaAlign : rule.lbaAlign.length = 1
  numMallocs : rule.numMallocs.length = 1
  hotness : rule.hotness.length = 1
  loopOnOffset : rule.loopOnOffset.length = 1

def RuleInfo.under (rule : RuleInfo) (a : Associativity) : RuleInfo :=
  { rule with associativity := a }

@[simp] theorem pick_singleton {α : Type} (a : Associativity) (v : α) (thNum : Nat) :
    pick a [v] thNum = some v := by
  have hrrobin : rrobinIndex [v] thNum = some v := by
    unfold rrobinIndex
    rw [length_singleton, Nat.mod_one]
    rfl
  have hseq : seqIndex [v] thNum = some v := by
    unfold seqIndex
    rw [length_singleton]
    split
    · next hlt =>
        rw [Nat.lt_one_iff.mp hlt]
        rfl
    · rfl
  cases a with
  | rrobin => exact hrrobin
  | seq | random => exact hseq

theorem pick_single {α : Type} {values : List α} (h : values.length = 1) (a : Associativity)
    (thNum : Nat) : pick a values thNum = values.head? := by
  obtain ⟨v, rfl⟩ := length_eq_one_iff.mp h
  exact pick_singleton a v thNum

namespace RuleInfo

variable (rule : RuleInfo)

def seekFor (c : ThreadContext) : Nat :=
  if rule.numOper.head? = some 0 then 0
  else (((rule.seekBreakupPrcnt.head?.getD none).orElse fun _ => c.seekBreakupPrcnt).getD 0)

def ExitsInZone (total : Nat) (c : ThreadContext) : Prop :=
  isBwrc c.oper = false ∧ total ≠ 0 ∧ rule.seekFor c ≠ 100 ∧ (operationCounts c.oper).1 = 0 ∧
    (operationCounts c.oper).2.2 = true ∧
    (rule.direction.head? = some .inward ∨ rule.direction.head? = some .outward)

instance (total : Nat) (c : ThreadContext) : Decidable (rule.ExitsInZone total c) :=
  inferInstanceAs (Decidable (_ ∧ _))

def randomShare (c : ThreadContext) : Nat :=
  u64 (rule.numOper.headD 0 * rule.seekFor c : Nat) / 100

def SharesAgree (total : Nat) (c : ThreadContext) : Prop :=
  rule.numOper.head? = some 0 ∨ rule.seekFor c = 0 ∨ rule.seekFor c = 100 ∨
    rule.randomShare c = c.numOperSeq % 2 ^ 64 ∨ rule.ExitsInZone total c

instance (total : Nat) (c : ThreadContext) : Decidable (rule.SharesAgree total c) :=
  inferInstanceAs (Decidable (_ ∨ _))

end RuleInfo

/-!
# The two copies, stage by stage
-/

namespace ThreadContext

section

variable {rule : RuleInfo} (hsingle : rule.SingleValued) (a : Associativity) (thNum : Nat)
  (c : ThreadContext)

structure Keeps (c c' : ThreadContext) : Prop where
  seek : c'.seekBreakupPrcnt = c.seekBreakupPrcnt
  numOperSeq : c'.numOperSeq = c.numOperSeq
  numOperRandom : c'.numOperRandom = c.numOperRandom

theorem Keeps.trans {c c' c'' : ThreadContext} (h : Keeps c c') (h' : Keeps c' c'') :
    Keeps c c'' where
  seek := h'.seek.trans h.seek
  numOperSeq := h'.numOperSeq.trans h.numOperSeq
  numOperRandom := h'.numOperRandom.trans h.numOperRandom

theorem checkAlignment_keeps : Keeps c c.checkAlignment := by
  unfold checkAlignment
  split
  · split <;> exact ⟨rfl, rfl, rfl⟩
  · exact ⟨rfl, rfl, rfl⟩

include hsingle

theorem applyTransfer_under (dev : Device) :
    c.applyTransfer dev (rule.under a) thNum = c.applyTransfer dev (rule.under .rrobin) thNum := by
  unfold applyTransfer under
  simp only [pick_single hsingle.patternId, pick_single hsingle.dataLen]

theorem applyDirection_under :
    c.applyDirection (rule.under a) thNum = c.applyDirection (rule.under .rrobin) thNum := by
  unfold applyDirection under
  simp only [pick_single hsingle.startingBlock, pick_single hsingle.direction,
    pick_single hsingle.blkHop]

theorem applyRange_under :
    c.applyRange (rule.under a) thNum = c.applyRange (rule.under .rrobin) thNum := by
  unfold applyRange under
  simp only [pick_single hsingle.minBlkno, pick_single hsingle.maxBlkno]

theorem applySeek_under :
    c.applySeek (rule.under a) thNum = c.applySeek (rule.under .rrobin) thNum := by
  unfold applySeek under
  simp only [pick_single hsingle.numOper, pick_single hsingle.seekBreakupPrcnt]

theorem applyAlignment_under : c.applyAlignment (rule.under a) thNum =
      c.applyAlignment (rule.under .rrobin) thNum := by
  unfold applyAlignment under
  simp only [pick_single hsingle.align, pick_single hsingle.lbaAlign]

theorem applyRest_under :
    c.applyRest (rule.under a) thNum = c.applyRest (rule.under .rrobin) thNum := by
  unfold applyRest under
  simp only [pick_single hsingle.hotness, pick_single hsingle.loopOnOffset,
    pick_single hsingle.numMallocs]

theorem beforeZone_under (dev : Device) :
    c.beforeZone dev (rule.under a) thNum = c.beforeZone dev (rule.under .rrobin) thNum := by
  unfold beforeZone
  simp only [applyTransfer_under hsingle a, applyDirection_under hsingle a,
    applyRange_under hsingle a, applySeek_under hsingle a]

theorem beforeZone_single (dev : Device) :
    exists c', c.beforeZone dev (rule.under a) thNum = some c' ∧
      c'.seekBreakupPrcnt = some (rule.seekFor c) ∧ c'.numOperSeq = c.numOperSeq ∧
      c'.numOperRandom = c.numOperRandom ∧ c'.oper = c.oper ∧ c'.numWrites = c.numWrites ∧
      c'.compareEnabled = c.compareEnabled ∧ rule.direction.head? = some c'.direction := by
  obtain ⟨pattern, hpattern⟩ := length_eq_one_iff.mp hsingle.patternId
  obtain ⟨size, hsize⟩ := length_eq_one_iff.mp hsingle.dataLen
  obtain ⟨start, hstart⟩ := length_eq_one_iff.mp hsingle.startingBlock
  obtain ⟨direction, hdirection⟩ := length_eq_one_iff.mp hsingle.direction
  obtain ⟨hop, hhop⟩ := length_eq_one_iff.mp hsingle.blkHop
  obtain ⟨low, hlow⟩ := length_eq_one_iff.mp hsingle.minBlkno
  obtain ⟨high, hhigh⟩ := length_eq_one_iff.mp hsingle.maxBlkno
  obtain ⟨numOper, hnumOper⟩ := length_eq_one_iff.mp hsingle.numOper
  obtain ⟨seek, hseek⟩ := length_eq_one_iff.mp hsingle.seekBreakupPrcnt
  unfold beforeZone applyTransfer applyDirection applyRange applySeek under
    seekFor
  simp only [hpattern, hsize, hstart, hdirection, hhop, hlow, hhigh, hnumOper, hseek,
    pick_singleton, head?_cons]
  cases hsectioned : rule.sectioned <;> by_cases hzero : numOper = 0 <;> simp [hzero]

theorem applyAlignment_single :
    exists c', c.applyAlignment (rule.under a) thNum = some c' ∧ Keeps c c' := by
  obtain ⟨align, halign⟩ := length_eq_one_iff.mp hsingle.align
  obtain ⟨lbaAlign, hlbaAlign⟩ := length_eq_one_iff.mp hsingle.lbaAlign
  have hset : Keeps c { c with align := align, lbaAlign := lbaAlign } := ⟨rfl, rfl, rfl⟩
  have hkeeps := hset.trans (checkAlignment_keeps _)
  unfold applyAlignment under
  simp only [halign, hlbaAlign, pick_singleton, bind_eq_bind, bind_some]
  split
  · exact ⟨_, rfl, hkeeps.trans ⟨rfl, rfl, rfl⟩⟩
  · exact ⟨_, rfl, hkeeps⟩

theorem applyRest_single :
    exists hotness offset numMallocs, forall d : ThreadContext, d.applyRest (rule.under a) thNum =
        some { d with hotness := hotness, offset := offset, numMallocs := numMallocs } := by
  obtain ⟨hotness, hhotness⟩ := length_eq_one_iff.mp hsingle.hotness
  obtain ⟨offset, hoffset⟩ := length_eq_one_iff.mp hsingle.loopOnOffset
  obtain ⟨numMallocs, hnumMallocs⟩ := length_eq_one_iff.mp hsingle.numMallocs
  refine ⟨hotness, offset, numMallocs, fun d => ?_⟩
  unfold applyRest under
  simp only [hhotness, hoffset, hnumMallocs, pick_singleton]
  rfl

end

variable {total numOper seek : Nat} {zones : Nat -> ThreadContext} {c : ThreadContext}
  {rule : RuleInfo}

theorem updateBwrcZone_none_iff :
    c.updateBwrcZone total zones = none <-> c.direction = .inward ∨ c.direction = .outward := by
  unfold updateBwrcZone
  cases c.direction with
  | up | down => grind
  | inward | outward => simp

theorem updateBwrcZone_keeps {c' : ThreadContext} (h : c.updateBwrcZone total zones = some c') :
    Keeps c c' := by
  unfold updateBwrcZone at h
  repeat' split at h
  all_goals
    cases h
    try exact ⟨rfl, rfl, rfl⟩

theorem applyZone_none_iff :
    c.applyZone total zones = none <->
      c.NeedsZone total ∧ (c.direction = .inward ∨ c.direction = .outward) := by
  unfold applyZone
  split
  · next hneeds =>
      rw [updateBwrcZone_none_iff]
      exact ⟨fun h => ⟨hneeds, h⟩, fun h => h.2⟩
  · next hneeds =>
      constructor
      · intro h
        cases h
      · intro h
        exact absurd h.1 hneeds

theorem applyZone_keeps {c' : ThreadContext} (h : c.applyZone total zones = some c') :
    Keeps c c' := by
  unfold applyZone at h
  split at h
  · exact updateBwrcZone_keeps h
  · cases h
    exact ⟨rfl, rfl, rfl⟩

def withOperations (numOper seek share : Nat) (c : ThreadContext) : ThreadContext :=
  if seek = 0 then { c with numOperSeq := numOper }
  else if seek = 100 then { c with numOperRandom := numOper }
  else
    { c with
      numOperRandom := u64 (numOper * seek : Nat) / 100, numOperSeq := u64 (numOper - share) }

theorem applyRuleSettings_single (hsingle : rule.SingleValued) (dev : Device) (total : Nat)
    (zones : Nat -> ThreadContext) (thNum : Nat) (c : ThreadContext) :
    (rule.ExitsInZone total c ∧ forall a, a ≠ .random ->
        c.applyRuleSettings dev total zones (rule.under a) thNum = none) ∨
    (¬ rule.ExitsInZone total c ∧
      exists (d : ThreadContext) (last : ThreadContext -> ThreadContext),
        d.seekBreakupPrcnt = some (rule.seekFor c) ∧ d.numOperSeq = c.numOperSeq ∧
        d.numOperRandom = c.numOperRandom ∧
        (forall e, (last e).numOperSeq = e.numOperSeq ∧ (last e).numOperRandom = e.numOperRandom) ∧
        forall a, a ≠ .random -> c.applyRuleSettings dev total zones (rule.under a) thNum =
            (d.applyNumOper (rule.under a) thNum).map last) := by
  obtain ⟨b, hb, hseek, hseq, hrandom, hoper, hwrites, hcompare, hdirection⟩ :=
    beforeZone_single hsingle .rrobin thNum c.countOperations dev
  have hbefore : forall a, c.countOperations.beforeZone dev (rule.under a) thNum = some b := by
    intro a
    rw [beforeZone_under hsingle, hb]
  have hexits : rule.ExitsInZone total c <-> b.applyZone total zones = none := by
    rw [applyZone_none_iff]
    unfold ExitsInZone NeedsZone
    rw [hseek, hoper, hwrites, hcompare, hdirection]
    simp only [countOperations, some.injEq, ne_eq, and_assoc]
    rfl
  have hunfold : forall a, a ≠ .random -> c.applyRuleSettings dev total zones (rule.under a) thNum =
        (b.applyZone total zones).bind fun z => z.afterZone (rule.under a) thNum := by
    intro a ha
    unfold applyRuleSettings
    rw [if_neg (show ¬ (rule.under a).associativity = .random from ha), hbefore a]
    rfl
  cases hzone : b.applyZone total zones with
  | none =>
    left
    refine ⟨hexits.mpr hzone, fun a ha => ?_⟩
    rw [hunfold a ha, hzone]
    rfl
  | some z =>
    right
    obtain ⟨d, hd, hkeeps⟩ := applyAlignment_single hsingle .rrobin thNum z
    obtain ⟨hotness, offset, numMallocs, hrest⟩ := applyRest_single hsingle .rrobin thNum
    have hkeeps := (applyZone_keeps hzone).trans hkeeps
    refine ⟨fun h => ?_, d,
      fun e => { e with hotness := hotness, offset := offset, numMallocs := numMallocs },
      hkeeps.seek.trans hseek, hkeeps.numOperSeq.trans hseq,
      hkeeps.numOperRandom.trans hrandom, fun e => ⟨rfl, rfl⟩, fun a ha => ?_⟩
    · rw [hexits.mp h] at hzone
      cases hzone
    · rw [hunfold a ha, hzone]
      unfold afterZone
      simp only [applyAlignment_under hsingle a, hd, applyRest_under hsingle a, hrest,
        bind_eq_bind, bind_some]
      cases d.applyNumOper (rule.under a) thNum <;> rfl

theorem applyNumOper_single (hnum : rule.numOper = [numOper]) (hnonzero : numOper ≠ 0)
    (a : Associativity) (thNum : Nat) (hseek : c.seekBreakupPrcnt = some seek) :
    c.applyNumOper (rule.under a) thNum = some (c.withOperations numOper seek
        (if a = .rrobin then u64 (numOper * seek : Nat) / 100 else c.numOperSeq)) := by
  have hrrobin : rrobinIndex rule.numOper thNum = some numOper := by
    rw [hnum]
    exact pick_singleton .rrobin numOper thNum
  have hpick : pick a rule.numOper thNum = some numOper := by
    rw [hnum]
    exact pick_singleton a numOper thNum
  unfold applyNumOper withOperations under
  simp only [hrrobin, hpick, hseek, hnonzero, bind_eq_bind, bind_some,
    getD_some, if_false]
  split
  · rfl
  · split <;> rfl

theorem applyNumOper_zero (hnum : rule.numOper = [0]) (a : Associativity) (thNum : Nat)
    (c : ThreadContext) :
    c.applyNumOper (rule.under a) thNum = c.updateNumOper := by
  have hrrobin : rrobinIndex rule.numOper thNum = some 0 := by
    rw [hnum]
    exact pick_singleton .rrobin 0 thNum
  unfold applyNumOper under
  simp only [hrrobin, bind_eq_bind, bind_some, if_true]

theorem u64_sub_eq_iff (numOper share share' : Nat) :
    u64 (numOper - share) = u64 (numOper - share') <-> share % 2 ^ 64 = share' % 2 ^ 64 := by
  unfold u64
  omega

theorem u64_div_mod (x : Int) (k : Nat) : u64 x / k % 2 ^ 64 = u64 x / k :=
  Nat.mod_eq_of_lt ((Nat.div_le_self _ _).trans_lt (u64_lt x))

theorem withOperations_numOperSeq (hseek : seek ≠ 0) (hseek' : seek ≠ 100) (share : Nat)
    (c : ThreadContext) :
    (c.withOperations numOper seek share).numOperSeq = u64 (numOper - share) := by
  unfold withOperations
  rw [if_neg hseek, if_neg hseek']

theorem withOperations_eq {share share' : Nat}
    (h : seek = 0 ∨ seek = 100 ∨ share % 2 ^ 64 = share' % 2 ^ 64) (c : ThreadContext) :
    c.withOperations numOper seek share = c.withOperations numOper seek share' := by
  unfold withOperations
  split
  · rfl
  · next hzero =>
      split
      · rfl
      · next hall =>
          rw [(u64_sub_eq_iff numOper share share').mpr ((h.resolve_left hzero).resolve_left hall)]

theorem withOperations_last_eq_iff {last : ThreadContext -> ThreadContext}
    (hlast : forall e, (last e).numOperSeq = e.numOperSeq) (c : ThreadContext)
    (numOper seek share share' : Nat) :
    last (c.withOperations numOper seek share) = last (c.withOperations numOper seek share') <->
      seek = 0 ∨ seek = 100 ∨ share % 2 ^ 64 = share' % 2 ^ 64 := by
  constructor
  · intro heq
    by_contra hnot
    push Not at hnot
    apply hnot.2.2
    have hcounts := congrArg numOperSeq heq
    rw [hlast, hlast, withOperations_numOperSeq hnot.1 hnot.2.1,
      withOperations_numOperSeq hnot.1 hnot.2.1, u64_sub_eq_iff] at hcounts
    exact hcounts
  · intro h
    rw [withOperations_eq h]

theorem withOperations_sum_iff (hsize : numOper < 2 ^ 64) (share : Nat) (hseq : c.numOperSeq = 0)
    (hrandom : c.numOperRandom = 0) :
    ((c.withOperations numOper seek share).numOperSeq +
        (c.withOperations numOper seek share).numOperRandom) % 2 ^ 64 = numOper <->
      seek = 0 ∨ seek = 100 ∨ share % 2 ^ 64 = u64 (numOper * seek : Nat) / 100 := by
  unfold withOperations
  split
  · next hzero =>
      show (numOper + c.numOperRandom) % 2 ^ 64 = numOper <-> _
      rw [hrandom, add_zero, Nat.mod_eq_of_lt hsize]
      exact ⟨fun _ => .inl hzero, fun _ => rfl⟩
  · next hzero =>
      split
      · next hall =>
          show (c.numOperSeq + numOper) % 2 ^ 64 = numOper <-> _
          rw [hseq, zero_add, Nat.mod_eq_of_lt hsize]
          exact ⟨fun _ => .inr (.inl hall), fun _ => rfl⟩
      · next hall =>
          show (u64 (numOper - share) + u64 (numOper * seek : Nat) / 100) % 2 ^ 64 = numOper <-> _
          have hlt := u64_lt (numOper * seek : Nat)
          generalize u64 (numOper * seek : Nat) = product at *
          unfold u64
          constructor
          · intro hsum
            omega
          · intro h
            omega

end ThreadContext

/-!
# The whole context
-/

namespace SettledContext

theorem applySeeds_toThreadContext (extras : RuleExtras) (c : SettledContext) :
    (applySeeds extras c).toThreadContext = c.toThreadContext := by
  unfold applySeeds
  split <;> rfl

theorem applyRuleSettings_under (dev : Device) (total : Nat) (zones : Nat -> ThreadContext)
    (rule : RuleInfo) (extras : RuleExtras) (thNum : Nat) (c : SettledContext) :
    exists settle : ThreadContext -> SettledContext, (forall t, (settle t).toThreadContext = t) ∧
      forall a, a ≠ .random -> c.applyRuleSettings dev total zones (rule.under a) extras thNum =
          (c.toThreadContext.applyRuleSettings dev total zones (rule.under a) thNum).map
            settle := by
  refine ⟨fun t => applySeeds extras { c.applyCommon rule extras thNum with toThreadContext := t },
    fun t => applySeeds_toThreadContext extras _, fun a ha => ?_⟩
  unfold applyRuleSettings
  simp only [show ¬ (rule.under a).associativity = .random from ha, if_false]
  rfl

end SettledContext

namespace RuleInfo

variable {rule : RuleInfo} {numOper : Nat}

theorem sharesAgree_zero (hnum : rule.numOper = [0]) (total : Nat) (c : ThreadContext) :
    rule.SharesAgree total c := by
  left
  rw [hnum]
  rfl

theorem sharesAgree_iff (hnum : rule.numOper = [numOper]) (hnonzero : numOper ≠ 0) {total : Nat}
    {c : ThreadContext} (hzone : ¬ rule.ExitsInZone total c) :
    rule.SharesAgree total c <-> rule.seekFor c = 0 ∨ rule.seekFor c = 100 ∨
        c.numOperSeq % 2 ^ 64 = u64 (numOper * rule.seekFor c : Nat) / 100 := by
  unfold SharesAgree randomShare
  rw [hnum]
  simp only [head?_cons, some.injEq, hnonzero, headD_cons, hzone, false_or,
    or_false]
  rw [eq_comm (a := c.numOperSeq % 2 ^ 64)]

end RuleInfo

/-- With one value for every keyword, SEQ and RROBIN leave the same context exactly when the
sequential share comes out the same; and the numbers of operations of a fresh context add up
to NUM_OPER always under RROBIN, under SEQ exactly then. -/
theorem seq_eq_rrobin_iff (dev : Device) (total : Nat) (zones : Nat -> ThreadContext)
    (rule : RuleInfo) (hsingle : rule.SingleValued) (extras : RuleExtras) (thNum : Nat)
    (c : SettledContext) :
    (c.applyRuleSettings dev total zones (rule.under .seq) extras thNum =
        c.applyRuleSettings dev total zones (rule.under .rrobin) extras thNum <->
      rule.SharesAgree total c.toThreadContext) ∧
    (forall numOper, rule.numOper = [numOper] -> numOper ≠ 0 -> numOper < 2 ^ 64 ->
      c.numOperSeq = 0 -> c.numOperRandom = 0 -> forall a, a ≠ .random -> forall c',
        c.applyRuleSettings dev total zones (rule.under a) extras thNum = some c' ->
          ((c'.numOperSeq + c'.numOperRandom) % 2 ^ 64 = numOper <->
            a = .rrobin ∨ rule.SharesAgree total c.toThreadContext)) := by
  obtain ⟨settle, hsettle, hunder⟩ :=
    c.applyRuleSettings_under dev total zones rule extras thNum
  have hinjective : Function.Injective settle := Function.LeftInverse.injective hsettle
  obtain ⟨hexits, hnone⟩ | ⟨hstays, d, last, hseek, hseq, hrandom, hlast, hsome⟩ :=
    applyRuleSettings_single hsingle dev total zones thNum c.toThreadContext
  · constructor
    · rw [hunder .seq (by decide), hunder .rrobin (by decide), hnone .seq (by decide),
        hnone .rrobin (by decide)]
      exact ⟨fun _ => .inr (.inr (.inr (.inr hexits))), fun _ => rfl⟩
    · intro numOper _ _ _ _ _ a ha c' hc'
      rw [hunder a ha, hnone a ha] at hc'
      cases hc'
  · constructor
    · rw [hunder .seq (by decide), hunder .rrobin (by decide), hsome .seq (by decide),
        hsome .rrobin (by decide), (map_injective hinjective).eq_iff]
      obtain ⟨numOper, hnum⟩ := List.length_eq_one_iff.mp hsingle.numOper
      by_cases hzero : numOper = 0
      · subst hzero
        rw [applyNumOper_zero hnum, applyNumOper_zero hnum]
        exact ⟨fun _ => sharesAgree_zero hnum total _, fun _ => rfl⟩
      · rw [sharesAgree_iff hnum hzero hstays,
          applyNumOper_single hnum hzero .seq thNum hseek,
          applyNumOper_single hnum hzero .rrobin thNum hseek, if_pos rfl,
          if_neg (by decide), hseq]
        have hiff := withOperations_last_eq_iff (fun e => (hlast e).1) d numOper
          (rule.seekFor c.toThreadContext) c.numOperSeq
          (u64 (numOper * rule.seekFor c.toThreadContext : Nat) / 100)
        rw [u64_div_mod] at hiff
        rw [map_some, map_some, some.injEq]
        exact hiff
    · intro numOper hnum hnonzero hsize hfreshSeq hfreshRandom a ha c' hc'
      rw [hunder a ha, hsome a ha, applyNumOper_single hnum hnonzero a thNum hseek,
        map_some, map_some] at hc'
      have hc := congrArg SettledContext.toThreadContext (some.inj hc')
      rw [hsettle] at hc
      rw [← hc, (hlast _).1, (hlast _).2,
        withOperations_sum_iff hsize _ (hseq.trans hfreshSeq)
          (hrandom.trans hfreshRandom), sharesAgree_iff hnum hnonzero hstays, hseq]
      by_cases hrrobin : a = .rrobin
      · rw [if_pos hrrobin]
        exact ⟨fun _ => .inl hrrobin, fun _ => .inr (.inr (u64_div_mod _ 100))⟩
      · rw [if_neg hrrobin]
        exact ⟨fun h => .inr h, fun h => h.resolve_left hrrobin⟩

def halfRandomRule (dev : Device) : RuleInfo :=
  { setRuleDefaults dev with
    patternId := ["#003"]
    numOper := [100]
    seekBreakupPrcnt := [some 50] }

theorem halfRandomRule_singleValued (dev : Device) : (halfRandomRule dev).SingleValued := by
  constructor <;> rfl

def freshContext : SettledContext where
  toThreadContext := initial
  id := ""
  testcase := .sync
  passthrough := false
  mode := .validation
  ruleOption := 0
  seed := []
  dataSeed := []
  lbaSeed := 0
  runReread := 'n'
  numCacheThreads := 0

def noExtras : RuleExtras := ⟨0, fun _ => 0, 0, 'n', 0⟩

theorem half_random_counts :
    ((freshContext.applyRuleSettings ⟨1000, 512⟩ 0 (fun _ => initial)
        ((halfRandomRule ⟨1000, 512⟩).under .rrobin) noExtras 0).map fun c =>
          (c.numOperSeq, c.numOperRandom)) = some (50, 50) ∧
    ((freshContext.applyRuleSettings ⟨1000, 512⟩ 0 (fun _ => initial)
        ((halfRandomRule ⟨1000, 512⟩).under .seq) noExtras 0).map fun c =>
          (c.numOperSeq, c.numOperRandom)) = some (100, 50) := by
  decide +kernel

theorem seq_eq_rrobin_iff_half_random :
    ¬ (halfRandomRule ⟨1000, 512⟩).SharesAgree 0 initial ∧
    freshContext.applyRuleSettings ⟨1000, 512⟩ 0 (fun _ => initial)
        ((halfRandomRule ⟨1000, 512⟩).under .seq) noExtras 0 ≠
      freshContext.applyRuleSettings ⟨1000, 512⟩ 0 (fun _ => initial)
        ((halfRandomRule ⟨1000, 512⟩).under .rrobin) noExtras 0 ∧
    forall c', freshContext.applyRuleSettings ⟨1000, 512⟩ 0 (fun _ => initial)
        ((halfRandomRule ⟨1000, 512⟩).under .rrobin) noExtras 0 = some c' ->
      (c'.numOperSeq + c'.numOperRandom) % 2 ^ 64 = 100 := by
  have hnot : ¬ (halfRandomRule ⟨1000, 512⟩).SharesAgree 0 initial := by
    decide +kernel
  obtain ⟨hsame, hsum⟩ := seq_eq_rrobin_iff ⟨1000, 512⟩ 0 (fun _ => initial)
    (halfRandomRule ⟨1000, 512⟩) (halfRandomRule_singleValued _) noExtras 0 freshContext
  refine ⟨hnot, fun heq => hnot (hsame.mp heq), fun c' hc' => ?_⟩
  exact (hsum 100 rfl (by decide) (by decide) rfl rfl .rrobin (by decide) c' hc').mpr (.inl rfl)

end Htx.Hxestorage
