import Htx.Hxestorage.StanzaLines

/-!
# The counts at the end of a stanza

`check_n_update_rule_params` corrects the number of background threads of a
stanza.  The number is right, in the sense that the populate functions come to
as many threads, exactly for the consistent stanzas.
-/

namespace Htx.Hxestorage

open List RuleInfo RuleState

/-!
# The checks at the end of a stanza
-/

def RuleInfo.opers (rule : RuleInfo) : List String :=
  if rule.oper = [] then ["R"] else rule.oper

structure Settled (rule : RuleInfo) (total : Nat) (st' : RuleState) : Prop where
  oper : st'.rule.oper = rule.oper
  tmplts : st'.rule.tmplts = rule.tmplts
  uses : st'.rule.uses = rule.uses
  associativity : st'.rule.associativity = rule.associativity
  place : st'.rule.bwrcThMemIndex = rule.bwrcThMemIndex
  sectioned : st'.rule.sectioned = (rule.isOnlyBwrcStanza || rule.sectioned)
  numThreads : st'.rule.numThreads =
    if rule.numThreads = 0 then
      if rule.isOnlyBwrcStanza then defaultBwrcThreads else 1
    else rule.numThreads
  numBwrcThreads : st'.rule.numBwrcThreads =
    if rule.isOnlyBwrcStanza then st'.rule.numThreads
    else if rule.RoundRobin then rule.roundRobinCount else rule.numBwrcThreads
  total : st'.total =
    if rule.isOnlyBwrcStanza then total + st'.rule.numThreads
    else if rule.RoundRobin then total + rule.roundRobinCount - rule.numBwrcThreads
    else total

section

variable {st st' : RuleState}

theorem checkPerformance_cases (st : RuleState) :
    st.checkPerformance = .ok st ∨ st.checkPerformance = .error .rejected := by
  unfold checkPerformance
  split
  · exact .inr rfl
  · exact .inl rfl

theorem checkCache_cases (st : RuleState) : (exists seeks, st.checkCache =
      .ok { st with rule := { st.rule with seekBreakupPrcnt := seeks } }) ∨
      st.checkCache = .error .rejected := by
  unfold checkCache
  split
  · split
    · exact .inr rfl
    · exact .inl ⟨_, rfl⟩
  · exact .inl ⟨st.rule.seekBreakupPrcnt, rfl⟩

theorem countRoundRobin_settle (st : RuleState) : (st.rule.RoundRobin ∧ st.rule.oper = [] ∧
        st.countRoundRobin = .error .divisionByZero) ∨
      (¬ (st.rule.RoundRobin ∧ st.rule.oper = []) ∧ exists st1,
        st.countRoundRobin = .ok st1 ∧ Settled st.rule st.total st1.settleBwrc) := by
  unfold countRoundRobin
  by_cases hrr : st.rule.RoundRobin
  · rw [if_pos hrr]
    by_cases hnil : st.rule.oper = []
    · exact .inl ⟨hrr, hnil, if_pos hnil⟩
    · have hmixed : st.rule.isOnlyBwrcStanza = false := hrr.2.2.1
      have hpos : st.rule.numThreads ≠ 0 := ne_of_gt (Nat.zero_lt_of_lt hrr.1)
      refine .inr ⟨fun hboth => hnil hboth.2, ?_⟩
      rw [if_neg hnil]
      refine ⟨_, rfl, ?_⟩
      unfold settleBwrc
      simp only [hmixed, Bool.false_eq_true, if_false, if_neg hpos]
      constructor <;> simp [hmixed, hpos, hrr, uses]
  · rw [if_neg hrr]
    refine .inr ⟨fun hboth => hrr hboth.1, st, rfl, ?_⟩
    unfold settleBwrc
    cases honly : st.rule.isOnlyBwrcStanza with
    | true =>
      simp only [honly, if_true]
      constructor <;> simp [honly, uses]
    | false =>
      simp only [honly, Bool.false_eq_true, if_false]
      by_cases hzero : st.rule.numThreads = 0
      · rw [if_pos hzero]
        constructor <;> simp [honly, hrr, hzero, uses]
      · rw [if_neg hzero]
        constructor <;> simp [honly, hrr, hzero]

structure Defaulted (rule rule1 : RuleInfo) : Prop where
  exclusive : rule.tmplts = [] ∨ rule.oper = []
  oper : rule1.oper = if rule.tmplts = [] then rule.opers else []
  only : rule1.isOnlyBwrcStanza =
    if rule.tmplts = [] ∧ rule.oper = [] then false else rule.isOnlyBwrcStanza
  tmplts : rule1.tmplts = rule.tmplts
  uses : rule1.uses = rule.uses
  associativity : rule1.associativity = rule.associativity
  place : rule1.bwrcThMemIndex = rule.bwrcThMemIndex
  sectioned : rule1.sectioned = rule.sectioned
  numThreads : rule1.numThreads = rule.numThreads
  numBwrcThreads : rule1.numBwrcThreads = rule.numBwrcThreads

theorem defaultOper_cases (st : RuleState) :
    (exists rule1, st.defaultOper = .ok ⟨rule1, st.total⟩ ∧ Defaulted st.rule rule1) ∨
      st.defaultOper = .error .rejected := by
  unfold defaultOper
  by_cases htmplts : st.rule.tmplts = []
  · rw [if_pos htmplts]
    by_cases hoper : st.rule.oper = []
    · rw [if_pos hoper]
      refine .inl ⟨_, rfl, ?_⟩
      constructor <;> simp [htmplts, hoper, opers, uses]
    · rw [if_neg hoper]
      refine .inl ⟨_, rfl, ?_⟩
      constructor <;> simp [htmplts, hoper, opers]
  · rw [if_neg htmplts]
    by_cases hoper : st.rule.oper = []
    · rw [if_pos hoper]
      refine .inl ⟨_, rfl, ?_⟩
      constructor <;> simp [htmplts, hoper]
    · exact .inr (if_neg hoper)

theorem check_cases (hnot : checkNUpdateRuleParams st ≠ .error .rejected) :
    exists rule1, Defaulted st.rule rule1 ∧ ((rule1.RoundRobin ∧ rule1.oper = [] ∧
          checkNUpdateRuleParams st = .error .divisionByZero) ∨
        (¬ (rule1.RoundRobin ∧ rule1.oper = []) ∧ exists st',
          checkNUpdateRuleParams st = .ok st' ∧ Settled rule1 st.total st')) := by
  unfold checkNUpdateRuleParams at hnot ⊢
  rcases defaultOper_cases st with ⟨rule1, hdefault, hdefaulted⟩ | hrejected
  · refine ⟨rule1, hdefaulted, ?_⟩
    rw [hdefault] at hnot ⊢
    rcases checkPerformance_cases ⟨rule1, st.total⟩ with hperf | hperf
    · simp only [hperf] at hnot ⊢
      have hasync : exists mode, asyncMode ⟨rule1, st.total⟩ =
          ⟨{ rule1 with mode := mode }, st.total⟩ := by
        unfold asyncMode
        split
        · exact ⟨_, rfl⟩
        · exact ⟨rule1.mode, rfl⟩
      rcases hasync with ⟨mode, hasync⟩
      rw [hasync] at hnot ⊢
      rcases checkCache_cases ⟨{ rule1 with mode := mode }, st.total⟩ with ⟨seeks, hcache⟩ | hcache
      · simp only [hcache] at hnot ⊢
        rcases countRoundRobin_settle
          ⟨{ rule1 with mode := mode, seekBreakupPrcnt := seeks }, st.total⟩ with
            ⟨hrr, hnil, hcount⟩ | ⟨hfine, st1, hcount, hsettled⟩
        · refine .inl ⟨hrr, hnil, ?_⟩
          rw [hcount]
        · refine .inr ⟨hfine, st1.settleBwrc, ?_, ?_⟩
          · rw [hcount]
          · exact ⟨hsettled.oper, hsettled.tmplts, hsettled.uses, hsettled.associativity,
              hsettled.place, hsettled.sectioned, hsettled.numThreads,
              hsettled.numBwrcThreads, hsettled.total⟩
      · simp only [hcache] at hnot
        exact absurd rfl hnot
    · simp only [hperf] at hnot
      exact absurd rfl hnot
  · rw [hrejected] at hnot
    exact absurd rfl hnot

end

/-!
# Stanzas whose counts agree
-/

def RuleInfo.Counted (rule : RuleInfo) : Prop :=
  exists bv bf nv nf, rule.visits true = some (bv, bf) ∧
    rule.visits false = some (nv, nf) ∧ bv.length = rule.numBwrcThreads ∧
    rule.numBwrcThreads ≤ rule.numThreads ∧
    nv.length = rule.numThreads - rule.numBwrcThreads

def RuleInfo.Accounted (rule : RuleInfo) : Prop :=
  rule.Counted ∧ (rule.sectioned = true ->
    rule.numBwrcThreads = 0 ∨ rule.numBwrcThreads = rule.numThreads)

/-- Every background operation of a list is for exactly one of `n` threads: none
is left over, and with SEQ the last operation, which all further threads get, is
no background operation. -/
def OpersFit (a : Associativity) (ops : List String) (n : Nat) : Prop :=
  (forall op, op ∈ ops.drop n -> isBwrc op = false) ∧
    (a = .seq -> ops.length < n -> isBwrc (ops.getD (ops.length - 1) "") = false)

instance (a : Associativity) (ops : List String) (n : Nat) : Decidable (OpersFit a ops n) :=
  inferInstanceAs (Decidable (_ ∧ (_ -> _ -> _)))

def RuleInfo.Consistent (rule : RuleInfo) : Prop :=
  let n := if rule.numThreads = 0 then 1 else rule.numThreads
  let opers := threadOpers rule.associativity rule.opers n
  if rule.tmplts = [] then
    (forall op, op ∈ rule.opers -> isBwrc op = true) ∨ (OpersFit rule.associativity rule.opers n ∧
        (rule.sectioned = true -> opers.countP isBwrc = 0 ∨ opers.countP isBwrc = n))
  else
    0 < rule.numThreads ∧ ((forall t, t ∈ rule.tmplts -> isBwrc t.oper = true) ∨
        ((rule.associativity = .seq ∨ usesOf true rule.uses = 0) ∧ (rule.sectioned = true ->
            usesOf true rule.uses = 0 ∨ usesOf true rule.uses = rule.numThreads)))

instance (rule : RuleInfo) : Decidable rule.Consistent :=
  inferInstanceAs (Decidable (ite _ _ _))

section

variable {ops : List String} {n : Nat}

theorem countP_rrobin_le (hpos : 0 < ops.length) (hle : n ≤ ops.length) :
    (threadOpers .rrobin ops n).countP isBwrc = (ops.take n).countP isBwrc := by
  have hcount := Library.countP_mod_range isBwrc ops "" hpos n
  change (threadOpers .rrobin ops n).countP isBwrc = _ at hcount
  rw [hcount]
  rcases Nat.lt_or_eq_of_le hle with hlt | rfl
  · rw [Nat.div_eq_of_lt hlt, Nat.mod_eq_of_lt hlt, Nat.mul_zero, Nat.zero_add]
  · rw [Nat.div_self hpos, Nat.mod_self]
    simp

theorem drop_countP_eq_zero_iff : (ops.drop n).countP isBwrc = 0 <->
      forall op, op ∈ ops.drop n -> isBwrc op = false := by
  rw [countP_eq_zero]
  simp

theorem countP_take_add_drop :
    (ops.take n).countP isBwrc + (ops.drop n).countP isBwrc = ops.countP isBwrc := by
  rw [← countP_append, take_append_drop]

theorem opersFit_seq_iff :
    ops.countP isBwrc = (threadOpers .seq ops n).countP isBwrc <-> OpersFit .seq ops n := by
  have hcount := Library.countP_min_range isBwrc ops "" n
  change (threadOpers .seq ops n).countP isBwrc = _ at hcount
  have hsplit := @countP_take_add_drop ops n
  unfold OpersFit
  rw [hcount, ← drop_countP_eq_zero_iff, ← hsplit]
  rcases lt_or_ge ops.length n with hlt | hge
  · have hnone : (ops.drop n).countP isBwrc = 0 := by
      rw [drop_eq_nil_of_le hlt.le]
      rfl
    cases isBwrc (ops.getD (ops.length - 1) "") with
    | true =>
      simp only [hnone, if_true, hlt, forall_const, reduceCtorEq, and_false, iff_false]
      omega
    | false => simp [hnone]
  · have hlate : ¬ ops.length < n := not_lt.mpr hge
    simp only [Nat.sub_eq_zero_of_le hge, ite_self, hlate, false_implies, implies_true, and_true]
    omega

theorem opersFit_rrobin_iff (hpos : 0 < ops.length) (hle : n ≤ ops.length) :
    ops.countP isBwrc = (threadOpers .rrobin ops n).countP isBwrc <-> OpersFit .rrobin ops n := by
  have hsplit := @countP_take_add_drop ops n
  unfold OpersFit
  rw [countP_rrobin_le hpos hle, ← drop_countP_eq_zero_iff, ← hsplit]
  simp

end

section

variable {rule rule1 : RuleInfo} {total : Nat} {st' : RuleState}

theorem counted_oper_iff (htmplts : rule.tmplts = []) (hne : rule.oper ≠ [])
    (hassoc : rule.associativity ≠ .random) :
    rule.Counted <-> rule.numBwrcThreads =
      (threadOpers rule.associativity rule.oper rule.numThreads).countP isBwrc := by
  rcases visits_oper true htmplts hne hassoc with ⟨bv, bf, hbv, hblen⟩
  rcases visits_oper false htmplts hne hassoc with ⟨nv, nf, hnv, hnlen⟩
  have hsplit := length_eq_countP_add_countP isBwrc
    (l := threadOpers rule.associativity rule.oper rule.numThreads)
  rw [length_threadOpers] at hsplit
  simp only [beq_true] at hblen
  simp only [beq_false] at hnlen
  unfold Counted
  rw [hbv, hnv]
  constructor
  · intro h
    rcases h with ⟨_, _, _, _, h1, _, h2, _, _⟩
    cases h1
    rw [← h2, hblen]
  · intro h
    refine ⟨bv, bf, nv, nf, rfl, rfl, ?_, ?_, ?_⟩
    · rw [hblen, h]
    · omega
    · rw [hnlen, h]
      simp only [Bool.not_eq_true, Bool.decide_eq_false] at hsplit
      omega

theorem counted_templates_iff (htmplts : rule.tmplts ≠ [])
    (hsum : (rule.uses.map Prod.fst).sum = rule.numThreads) :
    rule.Counted <-> rule.numBwrcThreads = usesOf true rule.uses := by
  rcases visits_templates true htmplts hsum with ⟨bv, bf, hbv, hblen⟩
  rcases visits_templates false htmplts hsum with ⟨nv, nf, hnv, hnlen⟩
  have hadd := usesOf_add rule.uses
  unfold Counted
  rw [hbv, hnv]
  constructor
  · intro h
    rcases h with ⟨_, _, _, _, h1, _, h2, _, _⟩
    cases h1
    rw [← h2, hblen]
  · intro h
    refine ⟨bv, bf, nv, nf, rfl, rfl, ?_, ?_, ?_⟩ <;> omega

theorem not_counted_of_short (htmplts : rule.tmplts ≠ [])
    (hsum : (rule.uses.map Prod.fst).sum < rule.numThreads) : ¬ rule.Counted := by
  intro h
  rcases h with ⟨_, _, _, _, hvisits, _⟩
  unfold visits at hvisits
  rw [if_neg htmplts, templateBlocks_short (by omega)] at hvisits
  cases hvisits

theorem mem_of_threadOpers {a : Associativity} {ops : List String} {n : Nat} {op : String}
    (hpos : 0 < ops.length) (h : op ∈ threadOpers a ops n) : op ∈ ops := by
  rcases mem_map.mp h with ⟨thNum, _, rfl⟩
  have hlt : entryIndex a ops.length thNum < ops.length := by
    unfold entryIndex
    cases a with
    | rrobin => exact Nat.mod_lt _ hpos
    | seq | random => exact lt_of_le_of_lt (min_le_right _ _) (Nat.sub_lt hpos one_pos)
  rw [getD_eq_getElem?_getD, getElem?_eq_getElem hlt]
  exact getElem_mem hlt

theorem opers_length_pos (rule : RuleInfo) : 0 < rule.opers.length := by
  unfold opers
  split
  · exact one_pos
  · rename_i hne
    exact length_pos_of_ne_nil hne

theorem usesOf_false_of_all {uses : List (Nat × Template)}
    (h : forall use, use ∈ uses -> isBwrc use.2.oper = true) : usesOf false uses = 0 := by
  have hnone : (uses.filter fun use => isBwrc use.2.oper == false) = [] := by
    rw [filter_eq_nil_iff]
    intro use huse
    simp [h use huse]
  unfold usesOf
  rw [hnone]
  rfl

theorem snd_mem_tmplts {use : Nat × Template} (h : use ∈ rule.uses) : use.2 ∈ rule.tmplts := by
  unfold uses at h
  rcases mem_mapIdx.mp h with ⟨i, hi, rfl⟩
  exact getElem_mem hi

variable {start : Nat} {st : RuleState}

section

variable (hd : Defaulted st.rule rule1) (hp : Parsed start st) (htmplts : st.rule.tmplts = [])

include hd hp htmplts

theorem Defaulted.only_iff : rule1.isOnlyBwrcStanza = st.rule.opers.all isBwrc := by
  have honly := hp.only
  rw [htmplts, all_nil, Bool.and_true] at honly
  rw [hd.only, opers, honly]
  by_cases hoper : st.rule.oper = []
  · rw [if_pos ⟨htmplts, hoper⟩, if_pos hoper]
    decide
  · rw [if_neg fun hboth => hoper hboth.2, if_neg hoper]

theorem Defaulted.numBwrcThreads_oper (hmixed : rule1.isOnlyBwrcStanza = false) :
    rule1.numBwrcThreads = st.rule.opers.countP isBwrc := by
  rw [hd.numBwrcThreads, hp.operCount htmplts, opers]
  by_cases hoper : st.rule.oper = []
  · rw [if_pos hoper, hoper, countP_nil, ite_self]
    decide
  · have honly := hd.only
    rw [if_neg fun hboth => hoper hboth.2, hmixed] at honly
    rw [← honly, if_neg hoper]
    rfl

end

theorem settledCount_iff {n n' : Nat} {a : Associativity} {ops : List String}
    (hpos : 0 < ops.length) (ha : a ≠ .random) (hn' : n' = if n = 0 then 1 else n) :
    (if ops.length < n ∧ ops.countP isBwrc ≠ 0 ∧ a = .rrobin then
        ops.countP isBwrc * (n / ops.length) + (ops.take (n % ops.length)).countP isBwrc
      else ops.countP isBwrc) = (threadOpers a ops n').countP isBwrc <->
      OpersFit a ops n' := by
  have hfits : ops.length < n' -> a = .rrobin -> OpersFit a ops n' := by
    intro hlt hrrobin
    constructor
    · intro op hop
      rw [drop_eq_nil_of_le hlt.le] at hop
      cases hop
    · intro hseq
      rw [hrrobin] at hseq
      cases hseq
  cases a with
  | random => exact absurd rfl ha
  | seq =>
    rw [if_neg (by simp)]
    exact opersFit_seq_iff
  | rrobin =>
    rcases lt_or_ge ops.length n with hlt | hge
    · have heq : n' = n := by
        rw [hn', if_neg (by omega)]
      subst heq
      have hcount := Library.countP_mod_range isBwrc ops "" hpos n'
      change (threadOpers .rrobin ops n').countP isBwrc = _ at hcount
      rw [iff_true_right (hfits hlt rfl), hcount]
      split
      · rfl
      · rename_i hnot
        have hzero : ops.countP isBwrc = 0 := by
          by_contra hne
          exact hnot ⟨hlt, hne, rfl⟩
        have hsub := (take_sublist (n' % ops.length) ops).countP_le (p := isBwrc)
        rw [hzero] at hsub ⊢
        omega
    · rw [if_neg fun h => not_lt.mpr hge h.1]
      apply opersFit_rrobin_iff hpos
      rw [hn']
      split <;> omega

section

variable (hp : Parsed start st)

include hp

section

variable (hd : Defaulted st.rule rule1)

include hd

theorem accounted_oper_iff (hs : Settled rule1 total st') (htmplts : st.rule.tmplts = []) :
    st'.rule.Accounted <-> st.rule.Consistent := by
  have hpos := opers_length_pos st.rule
  have hoper : st'.rule.oper = st.rule.opers := by
    rw [hs.oper, hd.oper, if_pos htmplts]
  have hassoc : st'.rule.associativity = st.rule.associativity := by
    rw [hs.associativity, hd.associativity]
  have hnotRandom : st'.rule.associativity ≠ .random := hassoc ▸ hp.associativity
  have hcounted := @counted_oper_iff st'.rule (by rw [hs.tmplts, hd.tmplts, htmplts])
    (by rw [hoper]; exact ne_nil_of_length_pos hpos) hnotRandom
  have honly := hd.only_iff hp htmplts
  unfold Accounted Consistent
  simp only [if_pos htmplts]
  rw [hcounted, hoper, hassoc]
  cases hmixed : rule1.isOnlyBwrcStanza with
  | true =>
    rw [hmixed] at honly
    have hall : forall op, op ∈ st.rule.opers -> isBwrc op = true := all_eq_true.mp honly.symm
    have hbwrc : st'.rule.numBwrcThreads = st'.rule.numThreads := by
      rw [hs.numBwrcThreads, hmixed, if_pos rfl]
    have hcount : (threadOpers st.rule.associativity st.rule.opers
        st'.rule.numThreads).countP isBwrc = st'.rule.numThreads := by
      rw [countP_eq_length.mpr fun op hop => hall op (mem_of_threadOpers hpos hop),
        length_threadOpers]
    exact iff_of_true ⟨by rw [hbwrc, hcount], fun _ => .inr hbwrc⟩ (.inl hall)
  | false =>
    rw [hmixed] at honly
    have hnotAll : ¬ forall op, op ∈ st.rule.opers -> isBwrc op = true := by
      intro hall
      rw [all_eq_true.mpr hall] at honly
      cases honly
    have hthreads : st'.rule.numThreads =
        if st.rule.numThreads = 0 then 1 else st.rule.numThreads := by
      rw [hs.numThreads, hmixed, hd.numThreads]
      simp
    have hsection : st'.rule.sectioned = st.rule.sectioned := by
      rw [hs.sectioned, hmixed, hd.sectioned, Bool.false_or]
    have hnum : st'.rule.numBwrcThreads =
        if st.rule.opers.length < st.rule.numThreads ∧ st.rule.opers.countP isBwrc ≠ 0 ∧
            st.rule.associativity = .rrobin then
          st.rule.opers.countP isBwrc * (st.rule.numThreads / st.rule.opers.length) +
            (st.rule.opers.take (st.rule.numThreads % st.rule.opers.length)).countP isBwrc
        else st.rule.opers.countP isBwrc := by
      rw [hs.numBwrcThreads, hmixed]
      simp only [Bool.false_eq_true, if_false, RoundRobin,
        roundRobinCount, hmixed, true_and, hd.oper, if_pos htmplts,
        hd.numThreads, hd.associativity, hd.numBwrcThreads_oper hp htmplts hmixed]
    have hfit := settledCount_iff hpos hp.associativity hthreads
    rw [← hnum] at hfit
    rw [hsection, ← hthreads, ← hfit]
    constructor
    · intro h
      rcases h with ⟨heq, hdivided⟩
      rw [heq] at hdivided
      exact .inr ⟨heq, hdivided⟩
    · intro h
      rcases h with hall | ⟨heq, hdivided⟩
      · exact absurd hall hnotAll
      · rw [← heq] at hdivided
        exact ⟨heq, hdivided⟩

theorem accounted_templates_iff
    (hs : Settled rule1 total st') (hfine : ¬ (rule1.RoundRobin ∧ rule1.oper = []))
    (htmplts : st.rule.tmplts ≠ []) :
    st'.rule.Accounted <-> st.rule.Consistent := by
  have hnil : st.rule.oper = [] := hd.exclusive.resolve_left htmplts
  have honly : rule1.isOnlyBwrcStanza = st.rule.tmplts.all fun t => isBwrc t.oper := by
    rw [hd.only, if_neg fun hboth => htmplts hboth.1, hp.only, hnil, all_nil, Bool.true_and]
  have huses : st'.rule.uses = st.rule.uses := by
    rw [hs.uses, hd.uses]
  have htmplts' : st'.rule.tmplts ≠ [] := by
    rw [hs.tmplts, hd.tmplts]
    exact htmplts
  have hsum := hp.threads htmplts
  have hnum := hp.tmpltCount hnil htmplts
  unfold Consistent
  simp only [if_neg htmplts]
  rcases eq_zero_or_pos st.rule.numThreads with hzero | hthreads
  · have hshort : ¬ st'.rule.Counted := by
      apply not_counted_of_short htmplts'
      rw [huses, hsum, hzero, hs.numThreads, hd.numThreads, if_pos hzero]
      split
      · decide
      · exact one_pos
    exact iff_of_false (fun h => hshort h.1) (fun h => lt_irrefl 0 (hzero ▸ h.1))
  · have hn : st'.rule.numThreads = st.rule.numThreads := by
      rw [hs.numThreads, hd.numThreads, if_neg (ne_of_gt hthreads)]
    have hcounted := counted_templates_iff htmplts' (by rw [huses, hsum, hn])
    have hadd := usesOf_add st.rule.uses
    unfold Accounted
    rw [hcounted, huses, hn]
    cases hmixed : rule1.isOnlyBwrcStanza with
    | true =>
      rw [hmixed] at honly
      have hall : forall t, t ∈ st.rule.tmplts -> isBwrc t.oper = true := all_eq_true.mp honly.symm
      have hnone : usesOf false st.rule.uses = 0 :=
        usesOf_false_of_all fun use huse => hall use.2 (snd_mem_tmplts huse)
      have hbwrc : st'.rule.numBwrcThreads = st.rule.numThreads := by
        rw [hs.numBwrcThreads, hmixed, if_pos rfl, hn]
      exact iff_of_true ⟨by omega, fun _ => .inr hbwrc⟩ ⟨hthreads, .inl hall⟩
    | false =>
      rw [hmixed] at honly
      have hnotAll : ¬ forall t, t ∈ st.rule.tmplts -> isBwrc t.oper = true := by
        intro hall
        rw [all_eq_true.mpr hall] at honly
        cases honly
      have hnotOnly : st.rule.isOnlyBwrcStanza = false := by
        rw [← hmixed, hd.only, if_neg fun hboth => htmplts hboth.1]
      have hoper1 : rule1.oper = [] := by
        rw [hd.oper, if_neg htmplts]
      have hnotRR : ¬ rule1.RoundRobin := fun hrr => hfine ⟨hrr, hoper1⟩
      have hbwrc : st'.rule.numBwrcThreads = usesOf true st.rule.uses := by
        rw [hs.numBwrcThreads, hmixed, if_neg hnotRR, hd.numBwrcThreads, hnum, hnotOnly]
        rfl
      have hseq : st.rule.associativity = .seq ∨ usesOf true st.rule.uses = 0 := by
        by_contra hneither
        rw [not_or] at hneither
        apply hnotRR
        refine ⟨?_, ?_, hmixed, ?_⟩
        · rw [hoper1, hd.numThreads]
          exact hthreads
        · rw [hd.numBwrcThreads, hnum, hnotOnly]
          exact hneither.2
        · rw [hd.associativity]
          have hnotRandom := hp.associativity
          revert hneither hnotRandom
          cases st.rule.associativity <;> simp
      have hsection : st'.rule.sectioned = st.rule.sectioned := by
        rw [hs.sectioned, hmixed, hd.sectioned, Bool.false_or]
      rw [hbwrc, hsection]
      constructor
      · intro h
        exact ⟨hthreads, .inr ⟨hseq, h.2⟩⟩
      · intro h
        rcases h.2 with hall | ⟨_, hdivided⟩
        · exact absurd hall hnotAll
        · exact ⟨rfl, hdivided⟩

theorem not_consistent_of_roundRobin (hrr : rule1.RoundRobin) (hnil1 : rule1.oper = []) :
    ¬ st.rule.Consistent := by
  have htmplts : st.rule.tmplts ≠ [] := by
    intro htmplts
    have hpos := opers_length_pos st.rule
    rw [hd.oper, if_pos htmplts] at hnil1
    rw [hnil1] at hpos
    cases hpos
  have hnil : st.rule.oper = [] := hd.exclusive.resolve_left htmplts
  rcases hrr with ⟨_, hbwrc, hmixed, hrrobin⟩
  rw [hd.only, if_neg fun hboth => htmplts hboth.1] at hmixed
  rw [hd.associativity] at hrrobin
  rw [hd.numBwrcThreads, hp.tmpltCount hnil htmplts, hmixed] at hbwrc
  unfold Consistent
  simp only [if_neg htmplts]
  intro h
  rcases h.2 with hall | ⟨hseq | hzero, _⟩
  · have honly := hp.only
    rw [hmixed, hnil, all_nil, Bool.true_and, all_eq_true.mpr hall] at honly
    cases honly
  · rw [hrrobin] at hseq
    cases hseq
  · exact hbwrc hzero

end

theorem stanza_accounted_iff (hnot : checkNUpdateRuleParams st ≠ .error .rejected) :
    (exists st', checkNUpdateRuleParams st = .ok st' ∧ st'.rule.Accounted) <->
      st.rule.Consistent := by
  rcases check_cases hnot with ⟨rule1, hd, ⟨hrr, hnil, hcheck⟩ | ⟨hfine, st1, hcheck, hs⟩⟩
  · constructor
    · intro h
      rcases h with ⟨st', hok, _⟩
      rw [hcheck] at hok
      cases hok
    · intro h
      exact absurd h (not_consistent_of_roundRobin hp hd hrr hnil)
  · have hiff : st1.rule.Accounted <-> st.rule.Consistent := by
      by_cases htmplts : st.rule.tmplts = []
      · exact accounted_oper_iff hp hd hs htmplts
      · exact accounted_templates_iff hp hd hs hfine htmplts
    rw [← hiff]
    constructor
    · intro h
      rcases h with ⟨st', hok, haccounted⟩
      rw [hcheck] at hok
      cases hok
      exact haccounted
    · intro h
      exact ⟨st1, hcheck, h⟩

theorem stanza_total (hcheck : checkNUpdateRuleParams st = .ok st') :
    st'.total = start + st'.rule.numBwrcThreads ∧ st'.rule.bwrcThMemIndex = none := by
  rcases check_cases (by rw [hcheck]; exact fun h => nomatch h) with
    ⟨rule1, hd, ⟨_, _, herror⟩ | ⟨hfine, st1, hok, hs⟩⟩
  · rw [hcheck] at herror
    cases herror
  · rw [hcheck] at hok
    cases hok
    have htotal := hp.total hd.exclusive
    refine ⟨?_, by rw [hs.place, hd.place, hp.place]⟩
    rw [hs.total, hs.numBwrcThreads, htotal]
    cases hmixed : rule1.isOnlyBwrcStanza with
    | true =>
      have hzero : st.rule.numBwrcThreads = 0 := by
        have honly := hd.only
        rw [hmixed] at honly
        split at honly
        · cases honly
        · rcases hd.exclusive with htmplts | hnil
          · rw [hp.operCount htmplts, ← honly, if_pos rfl]
          · by_cases htmplts : st.rule.tmplts = []
            · rw [hp.operCount htmplts, ← honly, if_pos rfl]
            · rw [hp.tmpltCount hnil htmplts, ← honly, if_pos rfl]
      rw [hzero]
      rfl
    | false =>
      simp only [Bool.false_eq_true, if_false]
      split
      · rw [hd.numBwrcThreads]
        omega
      · rw [hd.numBwrcThreads]

end

end

end Htx.Hxestorage
