import Htx.Hxestorage.ThreadSetup
import Htx.Library.Traverse

/-!
# Test data and the metadata area

`update_min_blkno` keeps the rules above the blocks of the state table.  A
context takes its range from the rule, or from `update_blkno`, which divides the
size of the range of the rule but starts counting at block 0.
-/

namespace Htx.Hxestorage

namespace ThreadContext

open List Option

variable {dev : Device} {rule : RuleInfo} {thNum total : Nat}
variable {zones : Nat -> ThreadContext} {c c' : ThreadContext}

/-!
# The range of one context
-/

theorem minBlkno_of_kept (h : c'.kept = c.kept) : c'.minBlkno = c.minBlkno :=
  congrArg (·.2.1) h

theorem oper_of_kept (h : c'.kept = c.kept) : c'.oper = c.oper :=
  congrArg Prod.fst h

theorem applyTransfer_frame (h : c.applyTransfer dev rule thNum = some c') :
    c'.minBlkno = c.minBlkno ∧ c'.oper = c.oper := by
  simp only [applyTransfer, Option.bind_eq_bind, Option.bind_eq_some_iff, Option.pure_def,
    Option.some.injEq] at h
  rcases h with ⟨_, _, _, _, rfl⟩
  exact ⟨rfl, rfl⟩

theorem minBlkno_applyRange (h : c.applyRange rule thNum = some c') :
    (rule.sectioned = true -> c'.minBlkno = c.minBlkno) ∧ (rule.sectioned = false ->
        pick rule.associativity rule.minBlkno thNum = some c'.minBlkno) := by
  unfold applyRange at h
  cases hs : rule.sectioned with
  | true =>
    simp only [hs, if_true, Option.some.injEq] at h
    simp [h]
  | false =>
    simp only [hs, Bool.false_eq_true, if_false, Option.bind_eq_bind,
      Option.bind_eq_some_iff, Option.pure_def, Option.some.injEq] at h
    rcases h with ⟨_, hmin, _, _, rfl⟩
    simpa using hmin

theorem minBlkno_beforeZone (h : c.beforeZone dev rule thNum = some c') :
    (rule.sectioned = true -> c'.minBlkno = c.minBlkno) ∧ (rule.sectioned = false ->
        pick rule.associativity rule.minBlkno thNum = some c'.minBlkno) := by
  simp only [beforeZone, bind_eq_bind, bind_eq_some_iff] at h
  rcases h with ⟨c1, h1, c2, h2, c3, h3, h4⟩
  have hrange := minBlkno_applyRange h3
  rw [minBlkno_of_kept (kept_applyDirection h2), (applyTransfer_frame h1).1] at hrange
  rw [minBlkno_of_kept (kept_applySeek h4)]
  exact hrange

theorem oper_beforeZone (h : c.beforeZone dev rule thNum = some c') : c'.oper = c.oper := by
  simp only [beforeZone, Option.bind_eq_bind, Option.bind_eq_some_iff] at h
  rcases h with ⟨c1, h1, c2, h2, c3, h3, h4⟩
  have hoper3 : c3.oper = c2.oper := by
    unfold applyRange at h3
    split at h3
    · cases h3
      rfl
    · simp only [Option.bind_eq_bind, Option.bind_eq_some_iff, Option.pure_def,
        Option.some.injEq] at h3
      rcases h3 with ⟨_, _, _, _, rfl⟩
      rfl
  rw [oper_of_kept (kept_applySeek h4), hoper3, oper_of_kept (kept_applyDirection h2),
    (applyTransfer_frame h1).2]

def MovedAbove (total : Nat) (zones : Nat -> ThreadContext) (floor : Nat)
    (c : ThreadContext) : Prop :=
  c.NeedsZone total ∧ ((c.direction = .down ∧ exists i, zoneOf total zones c.maxBlkno = some i ∧
        floor ≤ (zones i).minBlkno) ∨
      (c.direction = .up ∧ zoneOf total zones c.minBlkno = none ∧
        exists i, zoneAbove total zones c = some i ∧ floor ≤ (zones i).minBlkno))

theorem minBlkno_lt_zoneAbove {i : Nat} (h : zoneAbove total zones c = some i) :
    c.minBlkno < (zones i).minBlkno := by
  have hfound := find?_some h
  simp only [Bool.and_eq_true, decide_eq_true_eq] at hfound
  exact hfound.1.2

variable {floor : Nat}

theorem updateBwrcZone_above (h : c.updateBwrcZone total zones = some c') :
    floor ≤ c'.minBlkno <-> floor ≤ c.minBlkno ∨
      ((c.direction = .down ∧ exists i, zoneOf total zones c.maxBlkno = some i ∧
          floor ≤ (zones i).minBlkno) ∨
        (c.direction = .up ∧ zoneOf total zones c.minBlkno = none ∧
          exists i, zoneAbove total zones c = some i ∧ floor ≤ (zones i).minBlkno)) := by
  unfold updateBwrcZone at h
  cases hdir : c.direction with
  | up =>
    simp only [hdir] at h
    cases hzone : zoneOf total zones c.minBlkno with
    | some i =>
      simp only [hzone, some.injEq] at h
      simp [← h]
    | none =>
      simp only [hzone] at h
      cases habove : zoneAbove total zones c with
      | none =>
        simp only [habove, some.injEq] at h
        simp [← h]
      | some i =>
        simp only [habove, some.injEq] at h
        have hlt := minBlkno_lt_zoneAbove habove
        simp only [← h, reduceCtorEq, false_and, false_or, true_and, some.injEq, exists_eq_left']
        omega
  | down =>
    simp only [hdir] at h
    cases hzone : zoneOf total zones c.maxBlkno with
    | some i =>
      simp only [hzone, some.injEq] at h
      simp [← h]
    | none =>
      simp only [hzone] at h
      cases hbelow : zoneBelow total zones c with
      | none | some i =>
        simp only [hbelow, some.injEq] at h
        simp [← h]
  | inward | outward => simp [hdir] at h

theorem applyZone_above (h : c.applyZone total zones = some c') :
    floor ≤ c'.minBlkno <-> floor ≤ c.minBlkno ∨ c.MovedAbove total zones floor := by
  unfold applyZone at h
  unfold MovedAbove
  split at h
  · rename_i hneeds
    rw [updateBwrcZone_above h]
    simp [hneeds]
  · rename_i hneeds
    cases h
    simp [hneeds]

theorem not_movedAbove_of_isBwrc (h : isBwrc c.oper = true) : ¬ c.MovedAbove total zones floor := by
  intro hmoved
  have hfalse := hmoved.1.1
  rw [h] at hfalse
  cases hfalse

theorem applyRuleSettings_above (floor : Nat) (hassoc : rule.associativity ≠ .random)
    (h : c.applyRuleSettings dev total zones rule thNum = some c') :
    exists c1, c.countOperations.beforeZone dev rule thNum = some c1 ∧ (floor ≤ c'.minBlkno <->
        floor ≤ c1.minBlkno ∨ c1.MovedAbove total zones floor) := by
  unfold applyRuleSettings at h
  rw [if_neg hassoc] at h
  simp only [bind_eq_bind, bind_eq_some_iff] at h
  rcases h with ⟨c1, h1, c2, h2, h3⟩
  refine ⟨c1, h1, ?_⟩
  rw [minBlkno_of_kept (kept_afterZone h3)]
  exact applyZone_above h2

theorem applyRuleSettings_rule_above (hassoc : rule.associativity ≠ .random)
    (hsection : rule.sectioned = false) (hrule : forall v, v ∈ rule.minBlkno -> floor ≤ v)
    (h : c.applyRuleSettings dev total zones rule thNum = some c') :
    floor ≤ c'.minBlkno := by
  rcases applyRuleSettings_above floor hassoc h with ⟨c1, hbefore, habove⟩
  have hpick := (minBlkno_beforeZone hbefore).2 hsection
  have hmem : c1.minBlkno ∈ rule.minBlkno := by
    cases ha : rule.associativity with
    | random => exact absurd ha hassoc
    | rrobin | seq =>
      rw [ha] at hpick
      exact mem_of_getElem? hpick
  exact habove.mpr (.inl (hrule _ hmem))

end ThreadContext

/-!
# Filling the memory
-/

namespace ThreadMem

variable {f : Nat -> Visit -> ThreadContext -> Option ThreadContext}
variable {slot : Nat} {vs : List Visit} {m m' : ThreadMem}

theorem fillAll_frame (h : fillAll f slot vs m = some m') (other : Nat)
    (hother : other < slot ∨ slot + vs.length ≤ other) : m'.ctx other = m.ctx other := by
  induction vs generalizing slot m with
  | nil =>
    cases h
    rfl
  | cons v rest ih =>
    simp only [fillAll] at h
    simp only [List.length_cons] at hother
    cases hf : f slot v (m.ctx slot) with
    | none =>
      rw [hf] at h
      cases h
    | some c =>
      rw [hf] at h
      rw [ih h (by omega)]
      exact Function.update_of_ne (by omega) _ _

theorem fillAll_get (h : fillAll f slot vs m = some m') {i : Nat} {v : Visit}
    (hv : vs[i]? = some v) :
    f (slot + i) v (m.ctx (slot + i)) = some (m'.ctx (slot + i)) := by
  induction vs generalizing slot m i with
  | nil => cases hv
  | cons w rest ih =>
    simp only [fillAll] at h
    cases hf : f slot w (m.ctx slot) with
    | none =>
      rw [hf] at h
      cases h
    | some c =>
      rw [hf] at h
      cases i with
      | zero =>
        cases hv
        rw [add_zero, fillAll_frame h slot (.inl (Nat.lt_succ_self slot))]
        simpa using hf
      | succ i =>
        have hget := ih h hv
        have hne : slot + 1 + i ≠ slot := by omega
        have hslot : slot + (i + 1) = slot + 1 + i := by omega
        simp only [Function.update_of_ne hne] at hget
        rw [hslot]
        exact hget

end ThreadMem

section

variable {dev : Device} {rule rule' : RuleInfo} {total slot : Nat} {zones : Nat -> ThreadContext}

open ThreadMem

theorem prepare_minBlkno (fencepost : Option Nat) (v : Visit) (c : ThreadContext) :
    (prepare fencepost v c).countOperations.minBlkno = c.minBlkno := by
  unfold prepare
  cases v.tmplt with
  | none | some t => rfl

theorem prepare_oper (fencepost : Option Nat) (v : Visit) (c : ThreadContext) :
    (prepare fencepost v c).countOperations.oper = v.oper := by
  unfold prepare Visit.oper
  cases v.tmplt with
  | none | some t => rfl

theorem updateBlkno_frame {m : ThreadMem} {base : Nat} (h : slot < base) :
    (m.updateBlkno dev rule base).ctx slot = m.ctx slot :=
  if_neg fun hin => not_le.mpr h hin.1

theorem updateBlkno_first {m : ThreadMem} (base : Nat) (h : 0 < rule.numThreads) :
    ((m.updateBlkno dev rule base).ctx base).minBlkno = 0 := by
  unfold updateBlkno
  have hin : base ≤ base ∧ base < base + rule.numThreads :=
    ⟨Nat.le_refl base, Nat.lt_add_of_pos_right h⟩
  simp [hin, u64]

theorem visits_isBwrc {bwrc : Bool} {vs : List Visit} {found : Bool} {v : Visit}
    (h : rule.visits bwrc = some (vs, found)) (hv : v ∈ vs) : isBwrc v.oper = bwrc := by
  unfold RuleInfo.visits at h
  split at h
  · simp only [Option.map_eq_some_iff] at h
    rcases h with ⟨ws, _, rfl, rfl⟩
    simpa using (List.mem_filter.mp hv).2
  · simp only [Option.map_eq_some_iff] at h
    rcases h with ⟨blocks, _, rfl, rfl⟩
    simpa using (List.mem_filter.mp hv).2

theorem templateBlocks_zero (thNum : Nat) (uses : List (Nat × Template)) :
    templateBlocks 0 thNum uses = some [] := by
  cases uses with
  | nil | cons use rest => rfl

theorem visits_found {vs : List Visit} {found : Bool}
    (h : rule.visits true = some (vs, found)) (hne : vs ≠ []) :
    found = true ∧ 0 < rule.numThreads := by
  unfold RuleInfo.visits at h
  rcases List.exists_mem_of_ne_nil vs hne with ⟨v, hv⟩
  split at h
  · simp only [Option.map_eq_some_iff] at h
    rcases h with ⟨ws, hws, rfl, rfl⟩
    rw [List.mem_filter] at hv
    have hmem := Library.mapM_eq_some_iff.mp hws
    have hlen := hmem.length_eq
    rw [List.length_range] at hlen
    constructor
    · exact List.any_eq_true.mpr ⟨v, hv.1, by simpa using hv.2⟩
    · rw [hlen]
      exact List.length_pos_of_mem hv.1
  · simp only [Option.map_eq_some_iff] at h
    rcases h with ⟨blocks, hblocks, rfl, rfl⟩
    rw [List.mem_filter, List.mem_flatMap] at hv
    rcases hv with ⟨⟨b, hb, hvb⟩, hbwrc⟩
    constructor
    · refine List.any_eq_true.mpr ⟨b, hb, ?_⟩
      simp only [TemplateBlock.visits, List.mem_map] at hvb
      rcases hvb with ⟨_, _, rfl⟩
      simpa [Visit.oper] using hbwrc
    · by_contra hzero
      have hnone : rule.numThreads = 0 := by omega
      rw [hnone, templateBlocks_zero] at hblocks
      cases hblocks
      cases hb

def BwrcMem.Above (floor : Nat) (b : BwrcMem) : Prop :=
  forall slot, slot < b.free -> floor ≤ (b.mem.ctx slot).minBlkno

def RuleInfo.BwrcFromRule (rule : RuleInfo) : Prop :=
  rule.numBwrcThreads ≠ 0 -> forall vs found, rule.visits true = some (vs, found) ->
    vs ≠ [] -> rule.associativity ≠ .random ∧ rule.sectioned = false

variable {b b' : BwrcMem} {floor : Nat} {rules' rules : List RuleInfo} {mem : ThreadMem}

section

variable (h : populateBwrcThreadContext dev total rule b = some (rule', b'))

include h

theorem populateBwrc_spec :
    exists vs found, rule.visits true = some (vs, found) ∧ b'.free = b.free + vs.length ∧
      rule' = { rule with bwrcThMemIndex := if found then some b.free else none } ∧
      fillAll
        (fun slot => fill dev total (fun _ => ThreadContext.initial) rule
          (some slot)) b.free vs
        (if found ∧ rule.sectioned then b.mem.updateBlkno dev rule b.free else b.mem) =
          some b'.mem := by
  unfold populateBwrcThreadContext at h
  cases hvisits : rule.visits true with
  | none =>
    rw [hvisits] at h
    cases h
  | some r =>
    rcases r with ⟨vs, found⟩
    rw [hvisits] at h
    simp only [Option.map_eq_some_iff] at h
    rcases h with ⟨mem, hfill, rfl, rfl⟩
    exact ⟨vs, found, rfl, rfl, rfl, hfill⟩

theorem populateBwrc_frame :
    b.free ≤ b'.free ∧ forall slot, slot < b.free -> b'.mem.ctx slot = b.mem.ctx slot := by
  rcases populateBwrc_spec h with ⟨vs, found, _, hfree, _, hfill⟩
  constructor
  · omega
  · intro slot hslot
    rw [fillAll_frame hfill slot (.inl hslot)]
    split
    · exact updateBlkno_frame hslot
    · rfl

theorem populateBwrc_above (hbwrc : rule.numBwrcThreads ≠ 0) (hsafe : rule.BwrcFromRule)
    (hrule : forall v, v ∈ rule.minBlkno -> floor ≤ v) (habove : b.Above floor) :
    b'.Above floor := by
  rcases populateBwrc_spec h with ⟨vs, found, hvisits, hfree, _, hfill⟩
  intro slot hslot
  rcases lt_or_ge slot b.free with hold | hnew
  · rw [(populateBwrc_frame h).2 slot hold]
    exact habove slot hold
  · have hindex : slot - b.free < vs.length := by omega
    have hget := fillAll_get hfill (List.getElem?_eq_getElem hindex)
    rw [Nat.add_sub_cancel' hnew] at hget
    have hne : vs ≠ [] := List.ne_nil_of_length_pos (by omega)
    rcases hsafe hbwrc vs found hvisits hne with ⟨hassoc, hsection⟩
    exact ThreadContext.applyRuleSettings_rule_above hassoc hsection hrule hget

end

theorem populateBwrc_fromRule (hfloor : 0 < floor)
    (h : populateBwrcThreadContext dev total rule b = some (rule', b'))
    (hassoc : rule.associativity ≠ .random) (habove : b'.Above floor) :
    rule.BwrcFromRule := by
  intro _ vs found hvisits hne
  refine ⟨hassoc, ?_⟩
  by_contra hsection
  rw [Bool.not_eq_false] at hsection
  rcases populateBwrc_spec h with ⟨vs', found', hvisits', hfree, _, hfill⟩
  rw [hvisits] at hvisits'
  cases hvisits'
  rcases visits_found hvisits hne with ⟨rfl, hthreads⟩
  rcases List.exists_cons_of_ne_nil hne with ⟨v, rest, rfl⟩
  have hget := fillAll_get hfill (i := 0) (v := v) rfl
  rw [add_zero] at hget
  rcases ThreadContext.applyRuleSettings_above floor hassoc hget with ⟨c1, hbefore, hiff⟩
  have hlow : floor ≤ (b'.mem.ctx b.free).minBlkno :=
    habove b.free (by rw [hfree, List.length_cons]; omega)
  have hzero : c1.minBlkno = 0 := by
    rw [(ThreadContext.minBlkno_beforeZone hbefore).1 hsection, prepare_minBlkno,
      if_pos ⟨rfl, hsection⟩]
    exact updateBlkno_first b.free hthreads
  have hbwrc : isBwrc c1.oper = true := by
    rw [ThreadContext.oper_beforeZone hbefore, prepare_oper]
    exact visits_isBwrc hvisits (List.mem_cons_self)
  rcases hiff.mp hlow with hle | hmoved
  · omega
  · exact ThreadContext.not_movedAbove_of_isBwrc hbwrc hmoved

/-!
# All rules
-/

theorem populateAllBwrc_cons {rest : List RuleInfo}
    (h : populateAllBwrc dev total (rule :: rest) b = some (rules', b')) :
    exists rule1 b1 rest', rules' = rule1 :: rest' ∧
      populateAllBwrc dev total rest b1 = some (rest', b') ∧
      ((rule.numBwrcThreads = 0 ∧ rule1 = rule ∧ b1 = b) ∨ (rule.numBwrcThreads ≠ 0 ∧
          populateBwrcThreadContext dev total rule b = some (rule1, b1))) := by
  simp only [populateAllBwrc] at h
  split at h
  · rename_i hnone
    simp only [Option.map_eq_some_iff] at h
    rcases h with ⟨⟨rest', b2⟩, hrest, rfl, rfl⟩
    exact ⟨rule, b, rest', rfl, hrest, .inl ⟨hnone, rfl, rfl⟩⟩
  · rename_i hsome
    cases hpop : populateBwrcThreadContext dev total rule b with
    | none =>
      rw [hpop] at h
      cases h
    | some first =>
      rcases first with ⟨rule1, b1⟩
      simp only [hpop, Option.map_eq_some_iff] at h
      rcases h with ⟨⟨rest', b2⟩, hrest, rfl, rfl⟩
      exact ⟨rule1, b1, rest', rfl, hrest, .inr ⟨hsome, rfl⟩⟩

theorem populateAllBwrc_frame (h : populateAllBwrc dev total rules b = some (rules', b')) :
    b.free ≤ b'.free ∧ forall slot, slot < b.free -> b'.mem.ctx slot = b.mem.ctx slot := by
  induction rules generalizing b rules' with
  | nil =>
    cases h
    exact ⟨le_refl _, fun _ _ => rfl⟩
  | cons rule rest ih =>
    rcases populateAllBwrc_cons h with ⟨rule1, b1, rest', _, hrest, ⟨_, _, rfl⟩ | ⟨_, hpop⟩⟩
    · exact ih hrest
    · rcases populateBwrc_frame hpop with ⟨hle, hsame⟩
      rcases ih hrest with ⟨hle', hsame'⟩
      refine ⟨hle.trans hle', ?_⟩
      intro slot hslot
      rw [hsame' slot (lt_of_lt_of_le hslot hle), hsame slot hslot]

theorem BwrcMem.Above.of_later (habove : b'.Above floor)
    (h : populateAllBwrc dev total rules b = some (rules', b')) : b.Above floor := by
  rcases populateAllBwrc_frame h with ⟨hle, hsame⟩
  intro slot hslot
  rw [← hsame slot hslot]
  exact habove slot (lt_of_lt_of_le hslot hle)

def Placed (rule rule' : RuleInfo) : Prop :=
  exists index, rule' = { rule with bwrcThMemIndex := index }

theorem populateAllBwrc_placed (h : populateAllBwrc dev total rules b = some (rules', b')) :
    List.Forall₂ Placed rules rules' := by
  induction rules generalizing b rules' with
  | nil =>
    cases h
    exact List.Forall₂.nil
  | cons rule rest ih =>
    rcases populateAllBwrc_cons h with ⟨rule1, b1, rest', rfl, hrest, ⟨_, rfl, _⟩ | ⟨_, hpop⟩⟩
    · exact List.Forall₂.cons ⟨_, rfl⟩ (ih hrest)
    · rcases populateBwrc_spec hpop with ⟨_, _, _, _, hrule, _⟩
      exact List.Forall₂.cons ⟨_, hrule⟩ (ih hrest)

theorem populateAllBwrc_above (h : populateAllBwrc dev total rules b = some (rules', b'))
    (hsafe : forall rule, rule ∈ rules -> rule.BwrcFromRule)
    (hrules : forall rule, rule ∈ rules -> forall v, v ∈ rule.minBlkno -> floor ≤ v)
    (habove : b.Above floor) : b'.Above floor := by
  induction rules generalizing b rules' with
  | nil =>
    cases h
    exact habove
  | cons rule rest ih =>
    have hsafe' := fun r hr => hsafe r (List.mem_cons_of_mem rule hr)
    have hrules' := fun r hr => hrules r (List.mem_cons_of_mem rule hr)
    rcases populateAllBwrc_cons h with ⟨rule1, b1, rest', _, hrest, ⟨_, _, rfl⟩ | ⟨hbwrc, hpop⟩⟩
    · exact ih hrest hsafe' hrules' habove
    · have hfirst := populateBwrc_above hpop hbwrc (hsafe rule List.mem_cons_self)
        (hrules rule List.mem_cons_self) habove
      exact ih hrest hsafe' hrules' hfirst

theorem populateAllBwrc_fromRule (hfloor : 0 < floor)
    (h : populateAllBwrc dev total rules b = some (rules', b'))
    (hassoc : forall rule, rule ∈ rules -> rule.associativity ≠ .random) (habove : b'.Above floor) :
    forall rule, rule ∈ rules -> rule.BwrcFromRule := by
  induction rules generalizing b rules' with
  | nil =>
    intro rule hrule
    cases hrule
  | cons rule rest ih =>
    rcases populateAllBwrc_cons h with ⟨rule1, b1, rest', _, hrest, hfirst⟩
    intro r hr
    cases hr with
    | head =>
      rcases hfirst with ⟨hnone, _⟩ | ⟨_, hpop⟩
      · intro hbwrc
        exact absurd hnone hbwrc
      · exact populateBwrc_fromRule hfloor hpop (hassoc rule List.mem_cons_self)
          (habove.of_later hrest)
    | tail _ hr => exact ih hrest (fun r hr => hassoc r (List.mem_cons_of_mem rule hr)) r hr

/-!
# The other threads of a stanza
-/

def RuleInfo.FillsThreads (rule : RuleInfo) : Prop :=
  startsThreads rule = true ∧ rule.numBwrcThreads < rule.numThreads ∧
    ¬ (rule.isOnlyBwrcStanza ∧ rule.bwrcThMemIndex ≠ none)

def dividedContext (dev : Device) (rule : RuleInfo) (slot : Nat) : ThreadContext :=
  (initial.updateBlkno dev rule (rule.bwrcThMemIndex.getD 0)).ctx slot

def RuleInfo.ThreadsSafe (dev : Device) (total : Nat) (zones : Nat -> ThreadContext)
    (rule : RuleInfo) : Prop :=
  rule.FillsThreads -> forall vs found, rule.visits false = some (vs, found) ->
    forall slot v, vs[slot]? = some v -> rule.associativity ≠ .random ∧ (rule.sectioned = true ->
          metadataEnd dev ≤ (dividedContext dev rule slot).minBlkno ∨
            exists c,
              (prepare none v (dividedContext dev rule slot)).countOperations.beforeZone
                dev rule v.thNum = some c ∧
              c.MovedAbove total zones (metadataEnd dev))

theorem stanzaThreads_spec {count : Nat}
    (h : stanzaThreads dev total zones rule = some (mem, count)) :
    (¬ rule.FillsThreads ∧ count = 0) ∨ (rule.FillsThreads ∧ exists vs found,
        rule.visits false = some (vs, found) ∧ count = vs.length ∧
        fillAll (fun _ => fill dev total zones rule none) 0 vs
          (if rule.sectioned then
            initial.updateBlkno dev rule (rule.bwrcThMemIndex.getD 0)
          else initial) = some mem) := by
  unfold stanzaThreads at h
  split at h
  · rename_i hskip
    cases h
    refine .inl ⟨?_, rfl⟩
    intro hfills
    rcases hskip with hstarts | heq
    · rw [hfills.1] at hstarts
      cases hstarts
    · exact absurd hfills.2.1 (by omega)
  · rename_i hskip
    rw [not_or, Bool.not_eq_false] at hskip
    split at h
    · cases h
    · rename_i hle
      have hlt : rule.numBwrcThreads < rule.numThreads :=
        lt_of_le_of_ne (not_lt.mp hle) (Ne.symm hskip.2)
      unfold populateThreadContext at h
      split at h
      · rename_i honly
        cases h
        exact .inl ⟨fun hfills => hfills.2.2 honly, rfl⟩
      · rename_i honly
        cases hvisits : rule.visits false with
        | none =>
          rw [hvisits] at h
          cases h
        | some r =>
          rcases r with ⟨vs, found⟩
          simp only [hvisits, Option.map_eq_some_iff] at h
          rcases h with ⟨_, hfill, rfl, rfl⟩
          exact .inr ⟨⟨hskip.1, hlt, honly⟩, vs, found, rfl, rfl, hfill⟩

theorem stanzaContext_above {v : Visit} {c' : ThreadContext} (hassoc : rule.associativity ≠ .random)
    (hrule : forall m, m ∈ rule.minBlkno -> metadataEnd dev ≤ m)
    (h : fill dev total zones rule none v
      ((if rule.sectioned then
          initial.updateBlkno dev rule (rule.bwrcThMemIndex.getD 0)
        else initial).ctx slot) = some c') :
    metadataEnd dev ≤ c'.minBlkno <-> (rule.sectioned = true ->
        metadataEnd dev ≤ (dividedContext dev rule slot).minBlkno ∨
          exists c,
            (prepare none v (dividedContext dev rule slot)).countOperations.beforeZone
              dev rule v.thNum = some c ∧
            c.MovedAbove total zones (metadataEnd dev)) := by
  cases hsection : rule.sectioned with
  | false =>
    constructor
    · intro _ hfalse
      cases hfalse
    · intro _
      exact ThreadContext.applyRuleSettings_rule_above hassoc hsection hrule h
  | true =>
    rw [if_pos hsection] at h
    rcases ThreadContext.applyRuleSettings_above (metadataEnd dev) hassoc h with ⟨c1, hbefore, hiff⟩
    have hmin : c1.minBlkno = (dividedContext dev rule slot).minBlkno := by
      rw [(ThreadContext.minBlkno_beforeZone hbefore).1 hsection, prepare_minBlkno]
      rfl
    have hdivided : (prepare none v
        (dividedContext dev rule slot)).countOperations.beforeZone dev rule v.thNum =
          some c1 := hbefore
    rw [hiff, hmin, hdivided]
    simp

variable {count : Nat} (hrule : forall m, m ∈ rule.minBlkno -> metadataEnd dev ≤ m)
variable (h : stanzaThreads dev total zones rule = some (mem, count))

include hrule h

theorem stanzaThreads_above (hsafe : rule.ThreadsSafe dev total zones) :
    forall slot, slot < count -> metadataEnd dev ≤ (mem.ctx slot).minBlkno := by
  intro slot hslot
  rcases stanzaThreads_spec h with ⟨_, rfl⟩ | ⟨hfills, vs, found, hvisits, rfl, hfill⟩
  · cases hslot
  · have hv := List.getElem?_eq_getElem hslot
    have hget := fillAll_get hfill hv
    rw [zero_add] at hget
    rcases hsafe hfills vs found hvisits slot _ hv with ⟨hassoc, hdivided⟩
    exact (stanzaContext_above hassoc hrule hget).mpr hdivided

theorem stanzaThreads_safe (hassoc : rule.associativity ≠ .random)
    (habove : forall slot, slot < count -> metadataEnd dev ≤ (mem.ctx slot).minBlkno) :
    rule.ThreadsSafe dev total zones := by
  intro hfills vs found hvisits slot v hv
  refine ⟨hassoc, ?_⟩
  rcases stanzaThreads_spec h with ⟨hnot, _⟩ | ⟨_, vs', found', hvisits', rfl, hfill⟩
  · exact absurd hfills hnot
  · rw [hvisits] at hvisits'
    cases hvisits'
    have hget := fillAll_get hfill hv
    rw [zero_add] at hget
    have hslot : slot < vs.length := (getElem?_eq_some_iff.mp hv).1
    exact (stanzaContext_above hassoc hrule hget).mp (habove slot hslot)

end

/-!
# The whole run
-/

namespace Contexts

def AboveMetadata (dev : Device) (built : Contexts) : Prop :=
  built.bwrc.Above (metadataEnd dev) ∧ forall t, t ∈ built.threads -> forall slot, slot < t.2 ->
      metadataEnd dev ≤ (t.1.ctx slot).minBlkno

def Safe (dev : Device) (built : Contexts) : Prop :=
  forall rule, rule ∈ built.rules ->
    rule.BwrcFromRule ∧ rule.ThreadsSafe dev built.total built.bwrc.mem.ctx

theorem safe_of_unsectioned {dev : Device} {built : Contexts}
    (h : forall rule, rule ∈ built.rules ->
      rule.sectioned = false ∧ rule.associativity ≠ .random) : built.Safe dev := by
  intro rule hrule
  rcases h rule hrule with ⟨hsection, hassoc⟩
  constructor
  · intro _ vs found _ _
    exact ⟨hassoc, hsection⟩
  · intro _ vs found _ slot v _
    refine ⟨hassoc, ?_⟩
    intro hsectioned
    rw [hsection] at hsectioned
    cases hsectioned

end Contexts

variable {dev : Device} {l : RuleList} {built : Contexts}

theorem minBlkno_updateMinBlkno {rule : RuleInfo} {m : Nat}
    (h : m ∈ (updateMinBlkno dev rule).minBlkno) : metadataEnd dev ≤ m := by
  rcases List.mem_map.mp h with ⟨v, _, rfl⟩
  exact le_max_right _ _

theorem metadataEnd_pos (dev : Device) : 0 < metadataEnd dev :=
  Nat.succ_pos _

section

variable (h : buildContexts dev l = some built)

include h

theorem buildContexts_spec :
    populateAllBwrc dev built.total (l.rules.map (updateMinBlkno dev))
        ⟨ThreadMem.initial, 0⟩ = some (built.rules, built.bwrc) ∧
      List.Forall₂ (fun rule t => stanzaThreads dev built.total built.bwrc.mem.ctx rule = some t)
        built.rules built.threads := by
  simp only [buildContexts, Option.bind_eq_bind, Option.bind_eq_some_iff, Option.pure_def,
    Option.some.injEq] at h
  rcases h with ⟨r, hbwrc, threads, hthreads, rfl⟩
  exact ⟨hbwrc, Library.mapM_eq_some_iff.mp hthreads⟩

theorem built_minBlkno {rule : RuleInfo}
    (hrule : rule ∈ built.rules) {m : Nat} (hm : m ∈ rule.minBlkno) : metadataEnd dev ≤ m := by
  have hplaced := populateAllBwrc_placed (buildContexts_spec h).1
  rcases Library.forall₂_exists_left hplaced hrule with ⟨placed, hmem, index, rfl⟩
  rcases List.mem_map.mp hmem with ⟨source, _, rfl⟩
  exact minBlkno_updateMinBlkno hm

theorem built_associativity
    (hassoc : forall rule, rule ∈ built.rules -> rule.associativity ≠ .random) :
    forall rule, rule ∈ l.rules.map (updateMinBlkno dev) -> rule.associativity ≠ .random := by
  intro rule hrule
  have hplaced := populateAllBwrc_placed (buildContexts_spec h).1
  rcases Library.forall₂_exists_right hplaced hrule with ⟨placed, hmem, index, rfl⟩
  have hplaced := hassoc _ hmem
  exact hplaced

theorem bwrcFromRule_iff :
    (forall rule, rule ∈ l.rules.map (updateMinBlkno dev) -> rule.BwrcFromRule) <->
      forall rule, rule ∈ built.rules -> rule.BwrcFromRule := by
  have hplaced := populateAllBwrc_placed (buildContexts_spec h).1
  constructor
  · intro hall rule hrule
    rcases Library.forall₂_exists_left hplaced hrule with ⟨placed, hmem, index, rfl⟩
    exact hall placed hmem
  · intro hall rule hrule
    rcases Library.forall₂_exists_right hplaced hrule with ⟨placed, hmem, index, rfl⟩
    have hfrom := hall _ hmem
    exact hfrom

end

/-- The contexts stay out of the metadata area when the stanzas are safe, and,
as long as no stanza has associativity RANDOM, only then. -/
theorem contexts_above_metadata_iff_safe {dev : Device} {file : List Stanza}
    {built : Contexts} (h : contextsOf dev file = some built) :
    (built.Safe dev -> built.AboveMetadata dev) ∧
      ((forall rule, rule ∈ built.rules -> rule.associativity ≠ .random) ->
        built.AboveMetadata dev -> built.Safe dev) := by
  unfold contextsOf at h
  cases hread : readRf dev file with
  | error e =>
    rw [hread] at h
    cases h
  | ok l =>
    rw [hread] at h
    have hbuilt : buildContexts dev l = some built := h
    rcases buildContexts_spec hbuilt with ⟨hbwrc, hthreads⟩
    constructor
    · intro hsafe
      constructor
      · refine populateAllBwrc_above hbwrc ?_ ?_ ?_
        · exact (bwrcFromRule_iff hbuilt).mpr fun rule hrule => (hsafe rule hrule).1
        · intro rule hrule m hm
          rcases List.mem_map.mp hrule with ⟨source, _, rfl⟩
          exact minBlkno_updateMinBlkno hm
        · intro slot hslot
          cases hslot
      · intro t ht
        rcases Library.forall₂_exists_left hthreads ht with ⟨rule, hrule, hstanza⟩
        exact stanzaThreads_above (fun m hm => built_minBlkno hbuilt hrule hm) hstanza
          (hsafe rule hrule).2
    · intro hassoc habove rule hrule
      constructor
      · refine (bwrcFromRule_iff hbuilt).mp ?_ rule hrule
        exact populateAllBwrc_fromRule (metadataEnd_pos dev) hbwrc
          (built_associativity hbuilt hassoc) habove.1
      · rcases Library.forall₂_exists_right hthreads hrule with ⟨t, ht, hstanza⟩
        exact stanzaThreads_safe (fun m hm => built_minBlkno hbuilt hrule hm) hstanza
          (hassoc rule hrule) (habove.2 t ht)

def smallDisk : Device :=
  ⟨9999, 512⟩

def wholeDiskFile : List Stanza :=
  [.rule "whole" [.patternId ["#003"], .oper ["BWRC", "WRC"], .numThreads 2]]

theorem contexts_above_metadata_whole_disk :
    exists built, contextsOf smallDisk wholeDiskFile = some built ∧
      built.bwrc.free = 1 ∧ built.AboveMetadata smallDisk := by
  refine ⟨(contextsOf smallDisk wholeDiskFile).get (by decide), by simp, by decide, ?_⟩
  exact (@contexts_above_metadata_iff_safe smallDisk wholeDiskFile _ (by simp)).1
    (Contexts.safe_of_unsectioned (by decide))

def backgroundFile : List Stanza :=
  [.rule "bwrc" [.patternId ["#003"], .oper ["BWRC"]]]

theorem contexts_background_only_at_zero :
    exists built, contextsOf smallDisk backgroundFile = some built ∧
      built.bwrc.free = 4 ∧ (built.bwrc.mem.ctx 0).minBlkno = 0 ∧
      metadataEnd smallDisk = 6 ∧ ¬ built.AboveMetadata smallDisk := by
  refine ⟨(contextsOf smallDisk backgroundFile).get (by decide), by simp, by decide,
    by decide, by decide, ?_⟩
  intro habove
  exact absurd (habove.1 0 (by decide)) (by decide)

end Htx.Hxestorage
