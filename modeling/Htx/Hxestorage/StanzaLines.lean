import Htx.Hxestorage.MetadataFloor

/-!
# The counters of a stanza

How many background threads the populate functions come to, and what the counters of a
rule say after its lines have been read.
-/

namespace Htx.Hxestorage

open List Option Prod RuleInfo RuleParam

/-!
# The enumerations
-/

def entryIndex (a : Associativity) (count thNum : Nat) : Nat :=
  match a with
  | .rrobin => thNum % count
  | _ => min thNum (count - 1)

def threadOpers (a : Associativity) (ops : List String) (n : Nat) : List String :=
  (List.range n).map fun thNum => ops.getD (entryIndex a ops.length thNum) ""

theorem length_threadOpers (a : Associativity) (ops : List String) (n : Nat) :
    (threadOpers a ops n).length = n := by
  simp [threadOpers]

section

variable {rule : RuleInfo}

theorem operIndex_eq (bwrc : Bool) (hne : rule.oper ≠ [])
    (hassoc : rule.associativity ≠ .random) (thNum : Nat) :
    rule.operIndex bwrc thNum =
      some (rule.oper.getD (entryIndex rule.associativity rule.oper.length thNum) "") := by
  have hpos : 0 < rule.oper.length := length_pos_of_ne_nil hne
  unfold operIndex entryIndex
  rw [getD_eq_getElem?_getD]
  cases ha : rule.associativity with
  | random => exact absurd ha hassoc
  | rrobin =>
    simp only [rrobinIndex]
    rw [getElem?_eq_getElem (Nat.mod_lt _ hpos)]
    rfl
  | seq =>
    have hindex : (if thNum < rule.oper.length then thNum else rule.oper.length - 1) =
        min thNum (rule.oper.length - 1) := by
      split <;> omega
    simp only [seqIndex, hindex]
    rw [getElem?_eq_getElem (by omega)]
    rfl

theorem visits_oper (bwrc : Bool) (htmplts : rule.tmplts = []) (hne : rule.oper ≠ [])
    (hassoc : rule.associativity ≠ .random) :
    exists vs found, rule.visits bwrc = some (vs, found) ∧
      vs.length = (threadOpers rule.associativity rule.oper rule.numThreads).countP
        (fun oper => isBwrc oper == bwrc) := by
  unfold visits
  simp only [if_pos htmplts, operIndex_eq bwrc hne hassoc, map_some, Library.mapM_some]
  refine ⟨_, _, rfl, ?_⟩
  rw [← countP_eq_length_filter, countP_map, threadOpers, countP_map]
  rfl

end

section

theorem countP_templateVisits (b : TemplateBlock) (bwrc : Bool) :
    b.visits.countP (fun v => isBwrc v.oper == bwrc) =
      if isBwrc b.tmplt.oper == bwrc then b.count else 0 := by
  unfold TemplateBlock.visits
  rw [countP_map]
  cases hb : isBwrc b.tmplt.oper == bwrc with
  | true =>
    rw [if_pos rfl]
    have hall : forall i, i ∈ range b.count ->
        ((fun v : Visit => isBwrc v.oper == bwrc) ∘ fun i =>
          Visit.mk (b.thNum + i) "" (some b.tmplt)) i = true := fun _ _ => hb
    rw [countP_eq_length.mpr hall, length_range]
  | false =>
    rw [if_neg (by decide), countP_eq_zero]
    intro i _
    simpa [Visit.oper] using hb

def usesOf (bwrc : Bool) (uses : List (Nat × Template)) : Nat :=
  ((uses.filter fun use => isBwrc use.2.oper == bwrc).map fst).sum

theorem usesOf_cons (bwrc : Bool) (use : Nat × Template) (uses : List (Nat × Template)) :
    usesOf bwrc (use :: uses) =
      (if isBwrc use.2.oper == bwrc then use.1 else 0) + usesOf bwrc uses := by
  unfold usesOf
  rw [filter_cons]
  split <;> simp

theorem usesOf_add (uses : List (Nat × Template)) :
    usesOf true uses + usesOf false uses = (uses.map fst).sum := by
  induction uses with
  | nil => rfl
  | cons use rest ih =>
    rw [usesOf_cons, usesOf_cons, map_cons, sum_cons]
    cases isBwrc use.2.oper <;> simp <;> omega

theorem templateBlocks_exact {n thNum : Nat} {uses : List (Nat × Template)}
    (h : thNum + (uses.map fst).sum = n) :
    exists blocks, templateBlocks n thNum uses = some blocks ∧
      forall bwrc, (blocks.flatMap TemplateBlock.visits).countP
        (fun v => isBwrc v.oper == bwrc) = usesOf bwrc uses := by
  induction uses generalizing thNum with
  | nil =>
    refine ⟨[], ?_, fun bwrc => rfl⟩
    simp only [map_nil, sum_nil, add_zero] at h
    simp [templateBlocks, h]
  | cons use rest ih =>
    rcases use with ⟨count, t⟩
    simp only [map_cons, sum_cons] at h
    simp only [templateBlocks]
    rcases lt_or_ge thNum n with hlt | hge
    · rcases @ih (thNum + count) (by omega) with ⟨blocks, hblocks, hcount⟩
      refine ⟨⟨thNum, count, t⟩ :: blocks, ?_, ?_⟩
      · rw [if_pos hlt, hblocks, map_some]
      · intro bwrc
        rw [flatMap_cons, countP_append, hcount, countP_templateVisits, usesOf_cons]
    · refine ⟨[], if_neg (by omega), ?_⟩
      intro bwrc
      have hzero : usesOf true ((count, t) :: rest) = 0 ∧
          usesOf false ((count, t) :: rest) = 0 := by
        have hadd := usesOf_add ((count, t) :: rest)
        simp only [map_cons, sum_cons] at hadd
        omega
      cases bwrc with
      | true => simpa using hzero.1.symm
      | false => simpa using hzero.2.symm

theorem templateBlocks_short {n thNum : Nat} {uses : List (Nat × Template)}
    (h : thNum + (uses.map fst).sum < n) : templateBlocks n thNum uses = none := by
  induction uses generalizing thNum with
  | nil =>
    simp only [map_nil, sum_nil, add_zero] at h
    simp [templateBlocks, h]
  | cons use rest ih =>
    rcases use with ⟨count, t⟩
    simp only [map_cons, sum_cons] at h
    simp only [templateBlocks]
    rw [if_pos (by omega), ih (by omega), map_none]

theorem visits_templates {rule : RuleInfo} (bwrc : Bool) (htmplts : rule.tmplts ≠ [])
    (hsum : (rule.uses.map fst).sum = rule.numThreads) :
    exists vs found, rule.visits bwrc = some (vs, found) ∧ vs.length = usesOf bwrc rule.uses := by
  unfold visits
  rw [if_neg htmplts]
  rcases @templateBlocks_exact rule.numThreads 0 rule.uses (by omega) with ⟨blocks, hblocks, hcount⟩
  rw [hblocks, map_some]
  refine ⟨_, _, rfl, ?_⟩
  rw [← countP_eq_length_filter, hcount]

end

/-!
# Reading the lines of a stanza
-/

namespace RuleParam

def isOper : RuleParam -> Bool
  | .oper _ => true
  | _ => false

def isNumThreads : RuleParam -> Bool
  | .numThreads _ => true
  | .numThreadsOf _ => true
  | _ => false

def namesTemplates : RuleParam -> Bool
  | .numThreadsOf _ => true
  | _ => false

def noBwrc : RuleParam -> Bool
  | .oper values => values ≠ [] ∧ values.countP isBwrc = 0
  | _ => true

def Plain : RuleParam -> Prop
  | .numThreadsOf uses => uses ≠ [] ∧ (uses.map fst).sum < 2 ^ 32
  | .associativity a => a ≠ .random
  | _ => True

instance : (p : RuleParam) -> Decidable p.Plain
  | .numThreadsOf _ => inferInstanceAs (Decidable (_ ∧ _))
  | .associativity _ => inferInstanceAs (Decidable (_ ≠ _))
  | .patternId _ | .numThreads _ | .testcase _ | .oper _ | .numOper _ | .seekBreakupPrcnt _
  | .transferSize _ | .startingBlock _ | .direction _ | .maxBlkno _ | .minBlkno _ | .blkHop _
  | .align _ | .lbaAlign _ | .numMallocs _ | .mode _ | .hotness _ | .section _ => isTrue trivial

end RuleParam

/-- `OPER` is repeated only without background threads, and `NUM_THREADS` not behind a line
that names templates. -/
structure SingleLines (params : List RuleParam) : Prop where
  oper : params.Pairwise fun p q => p.isOper -> q.isOper -> p.noBwrc ∧ q.noBwrc
  threads : params.Pairwise fun p q => p.namesTemplates -> q.isNumThreads = false
  plain : forall p, p ∈ params -> p.Plain

theorem bwrcUses_eq (uses : List (Nat × Template)) : bwrcUses uses = usesOf true uses := by
  simp [bwrcUses, usesOf]

structure Parsed (start : Nat) (st : RuleState) : Prop where
  only : st.rule.isOnlyBwrcStanza =
    (st.rule.oper.all isBwrc && st.rule.tmplts.all fun t => isBwrc t.oper)
  operCount : st.rule.tmplts = [] -> st.rule.numBwrcThreads =
    if st.rule.isOnlyBwrcStanza then 0 else st.rule.oper.countP isBwrc
  tmpltCount : st.rule.oper = [] -> st.rule.tmplts ≠ [] -> st.rule.numBwrcThreads =
    if st.rule.isOnlyBwrcStanza then 0 else usesOf true st.rule.uses
  threads : st.rule.tmplts ≠ [] -> (st.rule.uses.map fst).sum = st.rule.numThreads
  place : st.rule.bwrcThMemIndex = none
  associativity : st.rule.associativity ≠ .random
  total : st.rule.tmplts = [] ∨ st.rule.oper = [] -> st.total = start + st.rule.numBwrcThreads

section

variable {dev : Device} {tmplts : List Template} {start : Nat} {st st' : RuleState}

theorem Parsed.setValues {ok : Bool} {rule : RuleInfo} (h : Parsed start st)
    (hset : st.setValues ok rule = some st')
    (honly : rule.isOnlyBwrcStanza = st.rule.isOnlyBwrcStanza)
    (hoper : rule.oper = st.rule.oper) (htmplts : rule.tmplts = st.rule.tmplts)
    (huses : rule.tmpltThreads = st.rule.tmpltThreads)
    (hthreads : rule.numThreads = st.rule.numThreads)
    (hbwrc : rule.numBwrcThreads = st.rule.numBwrcThreads)
    (hplace : rule.bwrcThMemIndex = st.rule.bwrcThMemIndex)
    (hassoc : rule.associativity ≠ .random) :
    Parsed start st' ∧ st'.rule.oper = st.rule.oper ∧ st'.rule.tmplts = st.rule.tmplts := by
  have heq : st' = { st with rule := rule } := by
    cases ok with
    | true => exact (Option.some.inj hset).symm
    | false => cases hset
  subst heq
  have hsame : rule.uses = st.rule.uses := by
    unfold uses
    rw [htmplts, huses]
  refine ⟨⟨?_, ?_, ?_, ?_, ?_, hassoc, ?_⟩, hoper, htmplts⟩
  · rw [honly, hoper, htmplts]
    exact h.only
  · rw [honly, hoper, htmplts, hbwrc]
    exact h.operCount
  · rw [honly, hoper, htmplts, hbwrc, hsame]
    exact h.tmpltCount
  · rw [htmplts, hsame, hthreads]
    exact h.threads
  · rw [hplace]
    exact h.place
  · rw [hoper, htmplts, hbwrc]
    exact h.total

theorem Parsed.setNumThreads {n : Nat} (h : Parsed start st)
    (htmplts : st.rule.tmplts = []) (hset : st.setNumThreads n = some st') :
    Parsed start st' ∧ st'.rule.oper = st.rule.oper ∧ st'.rule.tmplts = st.rule.tmplts := by
  unfold RuleState.setNumThreads at hset
  split at hset
  · cases hset
  · cases hset
    exact ⟨⟨h.only, h.operCount, fun _ hne => absurd htmplts hne,
      fun hne => absurd htmplts hne, h.place, h.associativity, h.total⟩, rfl, rfl⟩

structure OperRead (st : RuleState) (values : List String) (st' : RuleState) : Prop where
  oper : st'.rule.oper = values
  tmplts : st'.rule.tmplts = st.rule.tmplts
  uses : st'.rule.uses = st.rule.uses
  numThreads : st'.rule.numThreads = st.rule.numThreads
  place : st'.rule.bwrcThMemIndex = st.rule.bwrcThMemIndex
  associativity : st'.rule.associativity = st.rule.associativity
  only : st'.rule.isOnlyBwrcStanza = (st.rule.isOnlyBwrcStanza && values.all isBwrc)
  numBwrcThreads : st'.rule.numBwrcThreads =
    if st'.rule.isOnlyBwrcStanza = false ∧ values.countP isBwrc ≠ 0 then
      values.countP isBwrc
    else st.rule.numBwrcThreads
  total : st'.total =
    if st'.rule.isOnlyBwrcStanza = false ∧ values.countP isBwrc ≠ 0 then
      st.total + values.countP isBwrc
    else st.total

theorem operRead {values : List String} (hset : st.setOper values = some st') :
    OperRead st values st' := by
  unfold RuleState.setOper at hset
  split at hset
  · cases hset
    constructor <;> rfl
  · cases hset

theorem Parsed.setOper {values : List String} (h : Parsed start st)
    (hfirst : st.rule.oper = []) (hread : OperRead st values st') : Parsed start st' := by
  have honly := h.only
  rw [hfirst, all_nil, Bool.true_and] at honly
  have htotal := h.total (.inr hfirst)
  refine ⟨?_, ?_, ?_, ?_, ?_, ?_, ?_⟩
  · rw [hread.only, hread.oper, hread.tmplts, honly, Bool.and_comm]
  · intro htmplts
    rw [hread.tmplts] at htmplts
    have hcount := h.operCount htmplts
    rw [hfirst, countP_nil, ite_self] at hcount
    rw [hread.numBwrcThreads, hread.oper, hcount]
    cases st'.rule.isOnlyBwrcStanza with
    | true => simp
    | false =>
      simp only [true_and, Bool.false_eq_true, if_false]
      split <;> omega
  · intro hnil hne
    rw [hread.oper] at hnil
    rw [hread.tmplts] at hne
    have hcount := h.tmpltCount hfirst hne
    rw [hread.numBwrcThreads, hread.only, hread.uses, hnil]
    simpa using hcount
  · rw [hread.tmplts, hread.uses, hread.numThreads]
    exact h.threads
  · rw [hread.place]
    exact h.place
  · rw [hread.associativity]
    exact h.associativity
  · intro hcases
    rw [hread.total, hread.numBwrcThreads]
    split
    · rename_i hcount
      rcases hcases with htmplts | hnil
      · rw [hread.tmplts] at htmplts
        have hzero := h.operCount htmplts
        rw [hfirst, countP_nil, ite_self] at hzero
        omega
      · rw [hread.oper] at hnil
        rw [hnil] at hcount
        exact absurd rfl hcount.2
    · exact htotal

theorem Parsed.setOper_again {values : List String} (h : Parsed start st)
    (hold : noBwrc (.oper st.rule.oper) = true) (hnew : noBwrc (.oper values) = true)
    (hread : OperRead st values st') : Parsed start st' := by
  have hnone : forall {values}, noBwrc (.oper values) = true ->
      values ≠ [] ∧ values.countP isBwrc = 0 ∧ values.all isBwrc = false := by
    intro values hvalues
    obtain ⟨hne, hcount⟩ := of_decide_eq_true hvalues
    obtain ⟨v, hv⟩ := exists_mem_of_ne_nil values hne
    exact ⟨hne, hcount, all_eq_false.mpr ⟨v, hv, countP_eq_zero.mp hcount v hv⟩⟩
  obtain ⟨hne, hzero, hall⟩ := hnone hnew
  obtain ⟨hne', hzero', hall'⟩ := hnone hold
  have honly : st.rule.isOnlyBwrcStanza = false := by
    rw [h.only, hall', Bool.false_and]
  have honly' : st'.rule.isOnlyBwrcStanza = false := by
    rw [hread.only, honly, Bool.false_and]
  have hcount := hread.numBwrcThreads
  have htotal := hread.total
  rw [if_neg fun hboth => hboth.2 hzero] at hcount htotal
  refine ⟨?_, fun htmplts => ?_, fun hnil => ?_, ?_, ?_, ?_, fun hcases => ?_⟩
  · rw [honly', hread.oper, hall, Bool.false_and]
  · have hsame := h.operCount (hread.tmplts ▸ htmplts)
    rw [hcount, hsame, honly, honly', hread.oper, hzero, hzero']
  · exact absurd (hread.oper ▸ hnil) hne
  · rw [hread.tmplts, hread.uses, hread.numThreads]
    exact h.threads
  · rw [hread.place]
    exact h.place
  · rw [hread.associativity]
    exact h.associativity
  · rw [hread.tmplts, hread.oper] at hcases
    rw [htotal, hcount]
    exact h.total (.inl (hcases.resolve_right hne))

structure TemplatesRead (st : RuleState) (uses : List (Nat × Template))
    (st' : RuleState) : Prop where
  oper : st'.rule.oper = st.rule.oper
  tmplts : st'.rule.tmplts = st.rule.tmplts ++ uses.map snd
  threads : st'.rule.tmpltThreads = fun i => (uses.map fst).getD i (st.rule.tmpltThreads i)
  numThreads : st'.rule.numThreads = u32 (uses.map fst).sum
  place : st'.rule.bwrcThMemIndex = st.rule.bwrcThMemIndex
  associativity : st'.rule.associativity = st.rule.associativity
  only : st'.rule.isOnlyBwrcStanza =
    (st.rule.isOnlyBwrcStanza && uses.all fun use => isBwrc use.2.oper)
  numBwrcThreads : st'.rule.numBwrcThreads =
    if st'.rule.isOnlyBwrcStanza then st.rule.numBwrcThreads else u32 (bwrcUses uses)
  total : st'.total =
    if st'.rule.isOnlyBwrcStanza then st.total else st.total + u32 (bwrcUses uses)

variable {uses : List (Nat × Template)}

theorem templatesRead (hset : st.setTemplates uses = some st') : TemplatesRead st uses st' := by
  simp only [RuleState.setTemplates, ite_none_left_eq_some, some.injEq] at hset
  rcases hset with ⟨_, rfl⟩
  constructor <;> rfl

theorem TemplatesRead.uses_eq (h : TemplatesRead st uses st') (hfirst : st.rule.tmplts = []) :
    st'.rule.uses = uses := by
  unfold RuleInfo.uses
  rw [h.tmplts, h.threads, hfirst, nil_append]
  apply ext_getElem
  · simp
  · intro i hi hi'
    simp [getElem?_eq_getElem hi']

theorem usesOf_le (uses : List (Nat × Template)) : usesOf true uses ≤ (uses.map fst).sum := by
  rw [← usesOf_add]
  exact Nat.le_add_right _ _

theorem Parsed.setTemplates (h : Parsed start st) (hfirst : st.rule.tmplts = []) (hne : uses ≠ [])
    (hsum : (uses.map fst).sum < 2 ^ 32) (hset : st.setTemplates uses = some st') :
    Parsed start st' ∧ st'.rule.oper = st.rule.oper := by
  have hread := templatesRead hset
  have huses := hread.uses_eq hfirst
  have htmplts : st'.rule.tmplts = uses.map snd := by
    rw [hread.tmplts, hfirst, nil_append]
  have hnonempty : st'.rule.tmplts ≠ [] := by
    rw [htmplts]
    simpa using hne
  have hbwrc : u32 (bwrcUses uses) = usesOf true uses := by
    rw [bwrcUses_eq]
    exact u32_eq rfl (lt_of_le_of_lt (usesOf_le uses) hsum)
  have honly := h.only
  rw [hfirst, all_nil, Bool.and_true] at honly
  refine ⟨⟨?_, ?_, ?_, ?_, ?_, ?_, ?_⟩, hread.oper⟩
  · rw [hread.only, hread.oper, htmplts, honly, List.all_map]
    rfl
  · intro hnil
    exact absurd hnil hnonempty
  · intro hnil _
    rw [hread.oper] at hnil
    have hzero := h.operCount hfirst
    rw [hnil, countP_nil, ite_self] at hzero
    rw [hread.numBwrcThreads, hzero, hbwrc, huses]
  · intro _
    rw [huses, hread.numThreads]
    exact (u32_eq rfl hsum).symm
  · rw [hread.place]
    exact h.place
  · rw [hread.associativity]
    exact h.associativity
  · intro hcases
    rcases hcases with hnil | hnil
    · exact absurd hnil hnonempty
    · rw [hread.oper] at hnil
      have hzero := h.operCount hfirst
      rw [hnil, countP_nil, ite_self] at hzero
      have htotal := h.total (.inl hfirst)
      rw [hread.total, hread.numBwrcThreads, hzero]
      split
      · omega
      · omega

theorem lookupTemplates_fst {named : List (Nat × String)}
    (h : lookupTemplates tmplts named = some uses) :
    uses.map fst = named.map fst := by
  have hall := Library.mapM_eq_some_iff.mp h
  clear h
  induction hall with
  | nil => rfl
  | cons hfirst _ ih =>
    rcases map_eq_some_iff.mp hfirst with ⟨t, _, rfl⟩
    rw [map_cons, map_cons, ih]

theorem Parsed.line {p : RuleParam} (h : Parsed start st) (hplain : p.Plain)
    (hoper : p.isOper -> st.rule.oper = [] ∨ noBwrc (.oper st.rule.oper) ∧ p.noBwrc)
    (hthreads : p.isNumThreads -> st.rule.tmplts = [])
    (hparse : parseRuleParameter dev tmplts st p = some st') :
    Parsed start st' ∧ (p.isOper = false ∧ st'.rule.oper = st.rule.oper ∨
        p = .oper st'.rule.oper) ∧
      (p.namesTemplates ∨ st'.rule.tmplts = st.rule.tmplts) := by
  cases p with
  | numThreads n =>
    rcases h.setNumThreads (hthreads rfl) hparse with ⟨hparsed, hsame, hsame'⟩
    exact ⟨hparsed, .inl ⟨rfl, hsame⟩, .inr hsame'⟩
  | numThreadsOf named =>
    simp only [parseRuleParameter] at hparse
    cases huses : lookupTemplates tmplts named with
    | none =>
      rw [huses] at hparse
      cases hparse
    | some uses =>
      rw [huses] at hparse
      have hfst := lookupTemplates_fst huses
      have hne : uses ≠ [] := by
        intro hnil
        rw [hnil] at hfst
        exact hplain.1 (map_eq_nil_iff.mp hfst.symm)
      have hsum : (uses.map fst).sum < 2 ^ 32 := by
        rw [hfst]
        exact hplain.2
      rcases h.setTemplates (hthreads rfl) hne hsum hparse with ⟨hparsed, hsame⟩
      exact ⟨hparsed, .inl ⟨rfl, hsame⟩, .inl rfl⟩
  | oper values =>
    have hread := operRead hparse
    refine ⟨?_, .inr (by rw [hread.oper]), .inr hread.tmplts⟩
    rcases hoper rfl with hfirst | ⟨hold, hnew⟩
    · exact h.setOper hfirst hread
    · exact h.setOper_again hold hnew hread
  | associativity a =>
    rcases h.setValues hparse rfl rfl rfl rfl rfl rfl rfl hplain with ⟨hparsed, hsame, hsame'⟩
    exact ⟨hparsed, .inl ⟨rfl, hsame⟩, .inr hsame'⟩
  | _ =>
    rcases h.setValues hparse rfl rfl rfl rfl rfl rfl rfl h.associativity with
      ⟨hparsed, hsame, hsame'⟩
    exact ⟨hparsed, .inl ⟨rfl, hsame⟩, .inr hsame'⟩

theorem Parsed.lines {params : List RuleParam} (hsingle : SingleLines params) (h : Parsed start st)
    (hoper : forall p, p ∈ params -> p.isOper ->
      st.rule.oper = [] ∨ noBwrc (.oper st.rule.oper) ∧ p.noBwrc)
    (hthreads : forall p, p ∈ params -> p.isNumThreads -> st.rule.tmplts = [])
    (hparse : params.foldlM (parseRuleParameter dev tmplts) st = some st') :
    Parsed start st' := by
  induction params generalizing st with
  | nil =>
    cases hparse
    exact h
  | cons p rest ih =>
    rw [foldlM_cons, bind_eq_bind, bind_eq_some_iff] at hparse
    rcases hparse with ⟨st1, hfirst, hrest⟩
    obtain ⟨hpairs, honce⟩ := pairwise_cons.mp hsingle.oper
    obtain ⟨hpairs', honce'⟩ := pairwise_cons.mp hsingle.threads
    obtain ⟨hparsed, hopers, htmplts⟩ := h.line (hsingle.plain p mem_cons_self)
      (hoper p mem_cons_self) (hthreads p mem_cons_self) hfirst
    have hrest' : SingleLines rest :=
      ⟨honce, honce', fun q hq => hsingle.plain q (mem_cons_of_mem p hq)⟩
    refine ih hrest' hparsed (fun q hq hqoper => ?_) (fun q hq hqthreads => ?_) hrest
    · rcases hopers with ⟨-, hsame⟩ | hp
      · rw [hsame]
        exact hoper q (mem_cons_of_mem p hq) hqoper
      · rw [hp] at hpairs
        exact .inr (hpairs q hq rfl hqoper)
    · rcases htmplts with hp | hsame
      · rw [hpairs' q hq hp] at hqthreads
        cases hqthreads
      · rw [hsame]
        exact hthreads q (mem_cons_of_mem p hq) hqthreads

theorem parsed_parseRule {l : RuleList} {id : String} {params : List RuleParam}
    (hsingle : SingleLines params) (h : l.parseRule dev id params = some st) :
    Parsed l.total st := by
  unfold RuleList.parseRule at h
  split at h
  · cases h
  · refine Parsed.lines hsingle ?_ (fun _ _ _ => .inl rfl) (fun _ _ _ => rfl) h
    exact ⟨rfl, fun _ => rfl, fun _ hne => absurd rfl hne, fun hne => absurd rfl hne, rfl,
      (by decide : Associativity.rrobin ≠ .random), fun _ => rfl⟩

end

end Htx.Hxestorage
