import Htx.Hxestorage.StanzaCheck

/-!
# Thread accounting

`main` allocates one array for the background threads of all stanzas, with
`total_BWRC_threads` contexts, and one array for the other threads of a stanza.
-/

namespace Htx.Hxestorage

open List Option RuleState RuleList ThreadMem

/-!
# The contexts that are written
-/

def RuleInfo.bwrcSlots (rule : RuleInfo) (free : Nat) (vs : List Visit) (found : Bool) : List Nat :=
  (if found ∧ rule.sectioned then range' free rule.numThreads else []) ++
    range' free vs.length

def RuleInfo.threadSlots (rule : RuleInfo) : Option (List Nat) :=
  (rule.visits false).map fun r =>
    (if rule.sectioned then
      range' (rule.bwrcThMemIndex.getD 0) rule.numThreads
    else []) ++ range' 0 r.1.length

/-- All background threads of a file: the rules with the places of their threads,
the slots that are written, and the first free slot behind them. -/
def placeBwrc : List RuleInfo -> Nat -> Option (List RuleInfo × List Nat × Nat)
  | [], free => some ([], [], free)
  | rule :: rest, free =>
    if rule.numBwrcThreads = 0 then
      (placeBwrc rest free).map fun r => (rule :: r.1, r.2)
    else
      match rule.visits true with
      | none => none
      | some (vs, found) =>
        (placeBwrc rest (free + vs.length)).map fun r =>
          ({ rule with bwrcThMemIndex := if found then some free else none } :: r.1,
            rule.bwrcSlots free vs found ++ r.2.1, r.2.2)

section

variable {dev : Device} {total : Nat} {zones : Nat -> ThreadContext}

theorem fillAll_slots {f : Nat -> Visit -> ThreadContext -> Option ThreadContext}
    {slot : Nat} {vs : List Visit} {m m' : ThreadMem}
    (h : fillAll f slot vs m = some m') :
    m'.slots = m.slots ++ range' slot vs.length := by
  induction vs generalizing slot m with
  | nil =>
    cases h
    simp
  | cons v rest ih =>
    simp only [fillAll] at h
    cases hf : f slot v (m.ctx slot) with
    | none =>
      rw [hf] at h
      cases h
    | some c =>
      rw [hf] at h
      rw [ih h, length_cons, range'_succ, append_assoc]
      rfl

theorem placeBwrc_populate {rules rules' : List RuleInfo} {b b' : BwrcMem}
    (h : populateAllBwrc dev total rules b = some (rules', b')) :
    exists slots, placeBwrc rules b.free = some (rules', slots, b'.free) ∧
      b'.mem.slots = b.mem.slots ++ slots := by
  induction rules generalizing b rules' with
  | nil =>
    cases h
    exact ⟨[], rfl, by simp⟩
  | cons rule rest ih =>
    simp only [placeBwrc]
    rcases populateAllBwrc_cons h with
      ⟨rule1, b1, rest', rfl, hrest, ⟨hnone, rfl, rfl⟩ | ⟨hsome, hpop⟩⟩
    · rcases ih hrest with ⟨slots, hplace, hslots⟩
      rw [if_pos hnone, hplace]
      exact ⟨slots, rfl, hslots⟩
    · rcases populateBwrc_spec hpop with ⟨vs, found, hvisits, hfree, rfl, hfill⟩
      rcases ih hrest with ⟨slots, hplace, hslots⟩
      rw [hfree] at hplace
      rw [if_neg hsome, hvisits]
      simp only [hplace, map_some]
      refine ⟨_, rfl, ?_⟩
      rw [hslots, fillAll_slots hfill]
      unfold RuleInfo.bwrcSlots
      split
      · simp [updateBlkno]
      · simp

theorem threadSlots_populate {rule : RuleInfo} {mem : ThreadMem} {count : Nat}
    (hfills : rule.FillsThreads)
    (h : stanzaThreads dev total zones rule = some (mem, count)) :
    rule.threadSlots = some mem.slots := by
  rcases stanzaThreads_spec h with ⟨hnot, _⟩ | ⟨_, vs, found, hvisits, _, hfill⟩
  · exact absurd hfills hnot
  · unfold RuleInfo.threadSlots
    rw [hvisits, map_some, fillAll_slots hfill]
    split
    · simp [updateBlkno, initial]
    · simp [initial]

end

/-!
# Rule files whose counts agree
-/

def RuleInfo.ThreadsInside (rule : RuleInfo) : Prop :=
  rule.numBwrcThreads < rule.numThreads -> forall slots, rule.threadSlots = some slots ->
    forall slot, slot ∈ slots -> slot < rule.numThreads - rule.numBwrcThreads

structure RuleList.Accounted (l : RuleList) : Prop where
  counted : forall rule, rule ∈ l.rules -> rule.Counted
  total : (l.rules.map RuleInfo.numBwrcThreads).sum = l.total
  inside : exists placed slots free, placeBwrc l.rules 0 = some (placed, slots, free) ∧
    (forall slot, slot ∈ slots -> slot < l.total) ∧
    forall rule, rule ∈ placed -> rule.ThreadsInside

section

variable {rule : RuleInfo} {rules placed : List RuleInfo} {slots : List Nat} {free free' : Nat}

theorem placeBwrc_mem (h : placeBwrc rules free = some (placed, slots, free'))
    (hrule : rule ∈ rules) (hsome : rule.numBwrcThreads ≠ 0) :
    exists vs found first, rule.visits true = some (vs, found) ∧
      { rule with bwrcThMemIndex := if found then some first else none } ∈ placed := by
  induction rules generalizing free placed slots with
  | nil => cases hrule
  | cons first rest ih =>
    simp only [placeBwrc] at h
    split at h
    · rename_i hnone
      rw [map_eq_some_iff] at h
      rcases h with ⟨⟨placed1, slots1, free1⟩, hrest, heq⟩
      cases heq
      rcases mem_cons.mp hrule with rfl | hmem
      · exact absurd hnone hsome
      · rcases ih hrest hmem with ⟨vs, found, at', hvisits, hplaced⟩
        exact ⟨vs, found, at', hvisits, mem_cons_of_mem _ hplaced⟩
    · split at h
      · cases h
      · rename_i vs found hvisits
        rw [map_eq_some_iff] at h
        rcases h with ⟨⟨placed1, slots1, free1⟩, hrest, heq⟩
        cases heq
        rcases mem_cons.mp hrule with rfl | hmem
        · exact ⟨vs, found, free, hvisits, mem_cons_self⟩
        · rcases ih hrest hmem with ⟨vs', found', at', hvisits', hplaced⟩
          exact ⟨vs', found', at', hvisits', mem_cons_of_mem _ hplaced⟩

theorem not_threadsInside (hcounted : rule.Counted) (hsection : rule.sectioned = true)
    (hpos : rule.numBwrcThreads ≠ 0) (hlt : rule.numBwrcThreads < rule.numThreads)
    (first : Nat) : ¬ { rule with bwrcThMemIndex := some first }.ThreadsInside := by
  intro hinside
  rcases hcounted with ⟨_, _, nv, nf, _, hnv, _, _, _⟩
  have hslots : { rule with bwrcThMemIndex := some first }.threadSlots =
      some (range' first rule.numThreads ++ range' 0 nv.length) := by
    change Option.map _ (rule.visits false) = _
    simp [hnv, hsection]
  have hlast : first + (rule.numThreads - 1) ∈
      range' first rule.numThreads ++ range' 0 nv.length :=
    mem_append_left _ (mem_range'_1.mpr (by omega))
  have hbound := hinside hlt _ hslots _ hlast
  change first + (rule.numThreads - 1) < rule.numThreads - rule.numBwrcThreads at hbound
  omega

theorem threadsInside_of_accounted (h : rule.Accounted) {index : Option Nat}
    (hindex : rule.numBwrcThreads = 0 -> index = none) :
    { rule with bwrcThMemIndex := index }.ThreadsInside := by
  rcases h with ⟨⟨_, _, nv, nf, _, hnv, _, _, hnlen⟩, hdivided⟩
  intro hlt slots hslots slot hslot
  change Option.map _ (rule.visits false) = _ at hslots
  rw [hnv, map_some] at hslots
  cases hslots
  rw [mem_append] at hslot
  rcases hslot with hslot | hslot
  · cases hsection : rule.sectioned with
    | false => simp [hsection] at hslot
    | true =>
      have hnone : rule.numBwrcThreads = 0 := by
        rcases hdivided hsection with hzero | hall
        · exact hzero
        · exact absurd hall (ne_of_lt hlt)
      rw [hnone]
      simpa [hsection, hindex hnone, mem_range'_1] using hslot
  · rw [← hnlen]
    simpa [mem_range'_1] using hslot

theorem placeBwrc_accounted (haccounted : forall rule, rule ∈ rules -> rule.Accounted)
    (hplace : forall rule, rule ∈ rules -> rule.bwrcThMemIndex = none) (free : Nat) :
    exists placed slots, placeBwrc rules free = some (placed, slots,
        free + (rules.map RuleInfo.numBwrcThreads).sum) ∧
      (forall slot, slot ∈ slots -> slot < free + (rules.map RuleInfo.numBwrcThreads).sum) ∧
      forall rule, rule ∈ placed -> rule.ThreadsInside := by
  induction rules generalizing free with
  | nil => exact ⟨[], [], rfl, by simp, by simp⟩
  | cons rule rest ih =>
    have hrule := haccounted rule mem_cons_self
    have hnone := hplace rule mem_cons_self
    have ih := ih (fun r hr => haccounted r (mem_cons_of_mem _ hr))
      (fun r hr => hplace r (mem_cons_of_mem _ hr))
    have hself : { rule with bwrcThMemIndex := none } = rule := by
      rw [← hnone]
    simp only [placeBwrc, map_cons, sum_cons]
    by_cases hzero : rule.numBwrcThreads = 0
    · rcases ih free with ⟨placed, slots, hrest, hslots, hplaced⟩
      rw [if_pos hzero, hrest, hzero, zero_add]
      refine ⟨rule :: placed, slots, rfl, hslots, ?_⟩
      intro r hr
      rcases mem_cons.mp hr with rfl | hmem
      · rw [← hself]
        exact threadsInside_of_accounted hrule fun _ => rfl
      · exact hplaced r hmem
    · rcases hrule.1 with ⟨bv, bf, _, _, hbv, _, hblen, _, _⟩
      rcases ih (free + rule.numBwrcThreads) with ⟨placed, slots, hrest, hslots, hplaced⟩
      rw [if_neg hzero, hbv]
      simp only [hblen, hrest, map_some, add_assoc] at hslots ⊢
      refine ⟨_, _, rfl, ?_, ?_⟩
      · intro slot hslot
        rw [mem_append, RuleInfo.bwrcSlots, mem_append] at hslot
        rcases hslot with (hslot | hslot) | hslot
        · split at hslot
          · rename_i hboth
            have hall := (hrule.2 hboth.2).resolve_left hzero
            rw [mem_range'_1] at hslot
            omega
          · cases hslot
        · rw [mem_range'_1] at hslot
          omega
        · exact hslots slot hslot
      · intro r hr
        rcases mem_cons.mp hr with rfl | hmem
        · exact threadsInside_of_accounted hrule fun h => absurd h hzero
        · exact hplaced r hmem

theorem accounted_iff_forall {l : RuleList}
    (htotal : (l.rules.map RuleInfo.numBwrcThreads).sum = l.total)
    (hplace : forall rule, rule ∈ l.rules -> rule.bwrcThMemIndex = none) :
    l.Accounted <-> forall rule, rule ∈ l.rules -> rule.Accounted := by
  constructor
  · intro h rule hrule
    have hcounted := h.counted rule hrule
    refine ⟨hcounted, fun hsection => ?_⟩
    by_contra hmixed
    rw [not_or] at hmixed
    rcases h.inside with ⟨placed, slots, free, hplaced, _, hinside⟩
    rcases placeBwrc_mem hplaced hrule hmixed.1 with ⟨vs, found, first, hvisits, hmem⟩
    have hcounted' := hcounted
    rcases hcounted' with ⟨bv, bf, _, _, hbv, _, hblen, hle, _⟩
    rw [hvisits] at hbv
    cases hbv
    have hfound := (visits_found hvisits (fun hnil => hmixed.1 (by simp [← hblen, hnil]))).1
    rw [hfound, if_pos rfl] at hmem
    exact not_threadsInside hcounted hsection hmixed.1
      (lt_of_le_of_ne hle hmixed.2) first (hinside _ hmem)
  · intro h
    rcases placeBwrc_accounted h hplace 0 with ⟨placed, slots, hplaced, hslots, hinside⟩
    rw [zero_add, htotal] at hplaced hslots
    exact ⟨fun rule hrule => (h rule hrule).1, htotal, placed, slots, l.total, hplaced,
      hslots, hinside⟩

end

/-!
# Whole rule files
-/

def parsedRules (dev : Device) : List Template -> List Stanza -> Option (List RuleInfo)
  | _, [] => some []
  | tmplts, .template t :: rest => parsedRules dev (tmplts ++ [t]) rest
  | tmplts, .rule id params :: rest =>
    match parseRule dev ⟨tmplts, [], 0⟩ id params with
    | none => none
    | some st => (parsedRules dev tmplts rest).map fun rules => st.rule :: rules

def SingleLined (file : List Stanza) : Prop :=
  forall id params, Stanza.rule id params ∈ file -> SingleLines params

section

variable {dev : Device} {file : List Stanza} {l l' : RuleList}

theorem parseRuleParameter_rule {tmplts : List Template} {st st1 : RuleState}
    (hrule : st.rule = st1.rule) (p : RuleParam) :
    (parseRuleParameter dev tmplts st p).map rule =
      (parseRuleParameter dev tmplts st1 p).map rule := by
  cases st with
  | mk rule total =>
  cases st1 with
  | mk rule1 total1 =>
  subst hrule
  cases p with
  | numThreads n =>
    simp only [parseRuleParameter, setNumThreads]
    split <;> rfl
  | numThreadsOf uses =>
    simp only [parseRuleParameter, setTemplates]
    split
    · rfl
    · split <;> rfl
  | oper values =>
    simp only [parseRuleParameter, setOper]
    split <;> rfl
  | _ =>
    simp only [parseRuleParameter, setValues]
    split <;> rfl

variable {params : List RuleParam}

theorem foldlM_parse_rule {tmplts : List Template} {st st1 : RuleState}
    (hrule : st.rule = st1.rule) :
    (params.foldlM (parseRuleParameter dev tmplts) st).map rule =
      (params.foldlM (parseRuleParameter dev tmplts) st1).map rule := by
  induction params generalizing st st1 with
  | nil => exact congrArg some hrule
  | cons p rest ih =>
    have hline := @parseRuleParameter_rule dev tmplts st st1 hrule p
    simp only [foldlM_cons, bind_eq_bind]
    cases h : parseRuleParameter dev tmplts st p with
    | none =>
      rw [h, map_none, eq_comm, map_eq_none_iff] at hline
      rw [hline]
    | some st' =>
      rw [h, map_some, eq_comm, map_eq_some_iff] at hline
      rcases hline with ⟨st1', h1, hrule'⟩
      rw [h1]
      exact ih hrule'.symm

theorem parseRule_rule (l : RuleList) (id : String) (params : List RuleParam) :
    (l.parseRule dev id params).map rule =
      (parseRule dev ⟨l.tmplts, [], 0⟩ id params).map rule := by
  unfold parseRule
  split
  · rfl
  · exact foldlM_parse_rule rfl

structure RuleList.Totalled (l : RuleList) : Prop where
  total : (l.rules.map RuleInfo.numBwrcThreads).sum = l.total
  place : forall rule, rule ∈ l.rules -> rule.bwrcThMemIndex = none

theorem readStanza_rule {id : String} (h : l.readStanza dev (.rule id params) = .ok l') :
    exists st st', l.parseRule dev id params = some st ∧ checkNUpdateRuleParams st = .ok st' ∧
      l' = ⟨l.tmplts, l.rules ++ [st'.rule], st'.total⟩ := by
  simp only [readStanza] at h
  split at h
  · cases h
  · rename_i st hparse
    split at h
    · cases h
    · rename_i st' hcheck
      cases h
      exact ⟨st, st', hparse, hcheck, rfl⟩

theorem RuleList.Totalled.readStanza {stanza : Stanza} (h : l.Totalled)
    (hsingle : forall id params, stanza = .rule id params -> SingleLines params)
    (hread : l.readStanza dev stanza = .ok l') : l'.Totalled := by
  cases stanza with
  | template t =>
    cases hread
    exact ⟨h.total, h.place⟩
  | rule id params =>
    rcases readStanza_rule hread with ⟨st, st', hparse, hcheck, rfl⟩
    have hstanza := stanza_total (parsed_parseRule (hsingle id params rfl) hparse) hcheck
    constructor
    · simp [h.total, hstanza.1]
    · intro rule hrule
      rcases mem_append.mp hrule with hmem | hmem
      · exact h.place rule hmem
      · rw [mem_singleton.mp hmem]
        exact hstanza.2

theorem readStanzas_totalled (h : l.Totalled) (hsingle : SingleLined file)
    (hread : file.foldlM (readStanza dev) l = .ok l') : l'.Totalled := by
  induction file generalizing l with
  | nil =>
    cases hread
    exact h
  | cons stanza rest ih =>
    rw [foldlM_cons] at hread
    cases hfirst : l.readStanza dev stanza with
    | error e =>
      rw [hfirst] at hread
      cases hread
    | ok l1 =>
      rw [hfirst] at hread
      refine ih (h.readStanza ?_ hfirst) ?_ hread
      · rintro id params rfl
        exact hsingle id params mem_cons_self
      · intro id params hmem
        exact hsingle id params (mem_cons_of_mem _ hmem)

theorem readStanza_accounted_iff {id : String} (hsingle : SingleLines params)
    (hnot : l.readStanza dev (.rule id params) ≠ .error .rejected) :
    exists st, parseRule dev ⟨l.tmplts, [], 0⟩ id params = some st ∧
      (st.rule.Consistent <-> exists rule total, l.readStanza dev (.rule id params) =
          .ok ⟨l.tmplts, l.rules ++ [rule], total⟩ ∧ rule.Accounted) := by
  simp only [readStanza] at hnot ⊢
  cases hparse : l.parseRule dev id params with
  | none =>
    rw [hparse] at hnot
    exact absurd rfl hnot
  | some st =>
    have hrule := @parseRule_rule dev l id params
    rw [hparse, map_some, eq_comm, map_eq_some_iff] at hrule
    rcases hrule with ⟨st0, hst0, hrule⟩
    refine ⟨st0, hst0, ?_⟩
    simp only [hparse] at hnot
    have hchecked : checkNUpdateRuleParams st ≠ .error .rejected := by
      intro herror
      rw [herror] at hnot
      exact hnot rfl
    rw [hrule, ← stanza_accounted_iff (parsed_parseRule hsingle hparse) hchecked]
    cases hcheck : checkNUpdateRuleParams st with
    | error e | ok st' => simp [hcheck]

theorem readStanzas_accounted_iff (hsingle : SingleLined file)
    (hread : file.foldlM (readStanza dev) l ≠ .error .rejected) :
    (exists l', file.foldlM (readStanza dev) l = .ok l' ∧
        forall rule, rule ∈ l'.rules -> rule.Accounted) <->
      (forall rule, rule ∈ l.rules -> rule.Accounted) ∧
        exists rules, parsedRules dev l.tmplts file = some rules ∧
          forall rule, rule ∈ rules -> rule.Consistent := by
  induction file generalizing l with
  | nil => simp [parsedRules, pure, Except.pure]
  | cons stanza rest ih =>
    have hrest : SingleLined rest := fun id params hmem =>
      hsingle id params (mem_cons_of_mem _ hmem)
    rw [foldlM_cons] at hread ⊢
    cases stanza with
    | template t => exact ih hrest hread
    | rule id params =>
      have hnot : l.readStanza dev (.rule id params) ≠ .error .rejected := by
        intro herror
        rw [herror] at hread
        exact hread rfl
      rcases readStanza_accounted_iff (hsingle id params mem_cons_self) hnot with
        ⟨st, hst, hiff⟩
      simp only [parsedRules, hst]
      cases hfirst : l.readStanza dev (.rule id params) with
      | error e =>
        constructor
        · intro h
          rcases h with ⟨l', herror, _⟩
          cases herror
        · intro h
          rcases h with ⟨_, rules, hrules, hconsistent⟩
          rcases map_eq_some_iff.mp hrules with ⟨others, _, rfl⟩
          rcases hiff.mp (hconsistent st.rule mem_cons_self) with ⟨rule, total, hok, _⟩
          rw [hfirst] at hok
          cases hok
      | ok l1 =>
        rcases readStanza_rule hfirst with ⟨_, st', _, _, rfl⟩
        have hone : st.rule.Consistent <-> st'.rule.Accounted := by
          rw [hiff, hfirst]
          simp
        rw [hfirst] at hread
        refine (ih hrest hread).trans ?_
        constructor
        · intro h
          rcases h with ⟨hl, rules, hrules, hconsistent⟩
          refine ⟨fun r hr => hl r (mem_append_left _ hr), st.rule :: rules,
            map_eq_some_iff.mpr ⟨rules, hrules, rfl⟩, ?_⟩
          intro r hr
          rcases mem_cons.mp hr with rfl | hmem
          · exact hone.mpr (hl _ (mem_append_right _ (mem_singleton_self _)))
          · exact hconsistent r hmem
        · intro h
          rcases h with ⟨hl, rules, hrules, hconsistent⟩
          rcases map_eq_some_iff.mp hrules with ⟨others, hothers, rfl⟩
          refine ⟨?_, others, hothers, fun r hr =>
            hconsistent r (mem_cons_of_mem _ hr)⟩
          intro r hr
          rcases mem_append.mp hr with hmem | hmem
          · exact hl r hmem
          · rw [mem_singleton.mp hmem]
            exact hone.mp (hconsistent _ mem_cons_self)

end

/-- For a rule file that is not rejected: every stanza passes its checks without
a division by zero and the threads of the file are accounted for, exactly when
every stanza is consistent. -/
theorem threads_accounted_iff_consistent {dev : Device} {file : List Stanza}
    (hsingle : SingleLined file) (hread : readRf dev file ≠ .error .rejected) :
    (exists l, readRf dev file = .ok l ∧ l.Accounted) <->
      exists rules, parsedRules dev [] file = some rules ∧
        forall rule, rule ∈ rules -> rule.Consistent := by
  have hiff := readStanzas_accounted_iff hsingle hread
  have hempty : empty.Totalled := ⟨rfl, fun rule hrule => nomatch hrule⟩
  have hstart : (forall rule, rule ∈ empty.rules -> rule.Accounted) <-> True :=
    iff_true_intro fun rule hrule => nomatch hrule
  rw [hstart, true_and] at hiff
  refine Iff.trans (exists_congr fun l => and_congr_right fun hok => ?_) hiff
  have htotal := readStanzas_totalled hempty hsingle hok
  exact accounted_iff_forall htotal.total htotal.place

def turnsFile : List Stanza :=
  [.rule "turns" [.oper ["BWRC", "WRC"], .numThreads 3]]

theorem threads_accounted_turns :
    exists l, readRf smallDisk turnsFile = .ok l ∧ l.total = 2 ∧ l.Accounted := by
  have hsingle : SingleLined turnsFile := by
    intro id params hmem
    rw [turnsFile, mem_singleton] at hmem
    cases hmem
    exact ⟨by decide, by decide, by decide⟩
  have hread : readRf smallDisk turnsFile ≠ .error .rejected := by
    intro hrejected
    have hok : (readRf smallDisk turnsFile).isOk = true := by decide
    rw [hrejected] at hok
    cases hok
  have htotal : (readRf smallDisk turnsFile).toOption.map RuleList.total = some 2 := by
    decide
  rcases (threads_accounted_iff_consistent hsingle hread).mpr
    ⟨(parsedRules smallDisk [] turnsFile).get (by decide), by simp, by decide⟩ with
      ⟨l, hl, haccounted⟩
  rw [hl] at htotal
  exact ⟨l, hl, some.inj htotal, haccounted⟩

def lastTwiceFile : List Stanza :=
  [.rule "last" [.oper ["R", "BWRC"], .associativity .seq, .numThreads 3]]

def mixedTemplatesFile : List Stanza :=
  [.template ⟨"write", none, none, "BWRC"⟩, .template ⟨"read", none, none, "RC"⟩,
    .rule "mixed" [.numThreadsOf [(1, "write"), (1, "read")]]]

/-- One background thread is counted and two are filled; the other file divides
by the number of its `OPER` values. -/
theorem threads_unaccounted : (exists l, readRf smallDisk lastTwiceFile = .ok l ∧ l.total = 1 ∧
      (l.rules.map fun rule => (rule.visits true).map fun r => r.1.length) = [some 2] ∧
      ¬ l.Accounted) ∧
      readRf smallDisk mixedTemplatesFile = .error .divisionByZero := by
  constructor
  · have hfilled : (readRf smallDisk lastTwiceFile).toOption.map (fun l =>
        (l.total, l.rules.map fun rule => (rule.visits true).map fun r => r.1.length)) =
        some (1, [some 2]) := by
      decide
    cases hl : readRf smallDisk lastTwiceFile with
    | error e =>
      rw [hl] at hfilled
      cases hfilled
    | ok l =>
      rw [hl] at hfilled
      have hpair := Prod.mk.inj (some.inj hfilled)
      refine ⟨l, rfl, hpair.1, hpair.2, ?_⟩
      intro haccounted
      rcases map_eq_singleton_iff.mp hpair.2 with ⟨rule, hrules, htwo⟩
      rcases haccounted.counted rule (by rw [hrules]; exact mem_cons_self) with
        ⟨bv, bf, _, _, hbv, _, hblen, _⟩
      have hone : rule.numBwrcThreads = 1 := by
        have htotal := haccounted.total
        rw [hpair.1, hrules] at htotal
        exact htotal
      rw [hbv, map_some, some.injEq] at htwo
      exact absurd (htwo.symm.trans (hblen.trans hone)) (by decide)
  · rfl

/-- If the counts of every stanza agree, no context is written behind an array. -/
theorem contexts_inside {dev : Device} {l : RuleList} {built : Contexts} (htotal : l.Totalled)
    (hl : forall rule, rule ∈ l.rules -> rule.Accounted) (h : buildContexts dev l = some built) :
    (forall slot, slot ∈ built.bwrc.mem.slots -> slot < l.total) ∧
      Forall₂ (fun rule t => rule.FillsThreads -> forall slot, slot ∈ t.1.slots ->
        slot < rule.numThreads - rule.numBwrcThreads) built.rules built.threads := by
  obtain ⟨hbwrc, hthreads⟩ := buildContexts_spec h
  obtain ⟨slots, hplace, hmem⟩ := placeBwrc_populate hbwrc
  obtain ⟨placed, _, hplaced, hslots, hinside⟩ := placeBwrc_accounted
    ((List.forall_mem_map (f := updateMinBlkno dev)).mpr hl)
    (List.forall_mem_map.mpr htotal.place) 0
  rw [hplaced, some.injEq, Prod.mk.injEq, Prod.mk.injEq] at hplace
  obtain ⟨rfl, rfl, -⟩ := hplace
  constructor
  · have hsum : (l.rules.map (updateMinBlkno dev)).map RuleInfo.numBwrcThreads =
        l.rules.map RuleInfo.numBwrcThreads := map_map
    rw [hsum, zero_add, htotal.total] at hslots
    rw [hmem]
    exact hslots
  · refine ((forall₂_and_left _ _).mpr ⟨hinside, hthreads⟩).imp ?_
    rintro rule ⟨mem, count⟩ ⟨hrule, hstanza⟩ hfills
    exact hrule hfills.2.1 _ (threadSlots_populate hfills hstanza)

theorem contexts_inside_whole_disk : exists built, contextsOf smallDisk wholeDiskFile = some built ∧
    built.bwrc.mem.slots = [0] ∧ forall slot, slot ∈ built.bwrc.mem.slots -> slot < 1 := by
  let l := (readRf smallDisk wholeDiskFile).toOption.get (by decide)
  refine ⟨_, rfl, by decide, (@contexts_inside smallDisk l _ ⟨by decide, by decide⟩ ?_ rfl).1⟩
  intro rule hrule
  obtain rfl := mem_singleton.mp hrule
  exact ⟨⟨_, _, _, _, rfl, rfl, by decide, by decide, by decide⟩, by decide⟩

end Htx.Hxestorage
