import Htx.Gr64.RuleStanzas

/-!
# Defaults and assignments

What `set_default_var` leaves in the variables of an accepted table, and what the
assignments of a stanza make of that.
-/

namespace Htx.Gr64

open List

/-! ## Accepted tables -/

variable {entry : RuleDef} {table : List RuleDef}

theorem chkRangeEnd_ok {value1 text : List Char} {long1 : Int} {arg : Arg}
    (h : chkRangeEnd entry value1 long1 text = .ok arg) :
    arg.value1 = value1 ∧ arg.long1 = long1 := by
  simp only [chkRangeEnd] at h
  split at h
  · exact nomatch h
  split at h
  · exact nomatch h
  split at h
  · exact nomatch h
  split at h
  · exact nomatch h
  split at h
  · exact nomatch h
  split at h
  · cases h
    exact ⟨rfl, rfl⟩
  · exact nomatch h

theorem chkArg_ok {text : List Char} {arg : Arg} (h : chkArg entry text = .ok arg) :
    arg.value1 = (scanBound false text).1 ∧
      chkAValue entry (scanBound false text).1 = .ok arg.long1 := by
  simp only [chkArg] at h
  split at h
  · exact nomatch h
  split at h
  · exact nomatch h
  split at h
  · exact nomatch h
  rename_i long1 hvalue
  split at h
  · cases h
    exact ⟨rfl, hvalue⟩
  · split at h
    · obtain ⟨hvalue1, hlong1⟩ := chkRangeEnd_ok h
      rw [hlong1]
      exact ⟨hvalue1, hvalue⟩
    · exact nomatch h

theorem checkLong_some {value : List Char} {n : Int} (h : checkLong value = some n) :
    n = (strtol value).1 := by
  simp only [checkLong] at h
  split at h
  · exact nomatch h
  split at h
  · exact (Option.some.inj h).symm
  · split at h
    · exact (Option.some.inj h).symm
    · exact nomatch h

theorem chkArgs_ok {args : List (List Char)} (h : chkArgs entry args = .ok ()) :
    forall text, text ∈ args -> exists arg, chkArg entry text = .ok arg := by
  induction args with
  | nil =>
    intro text hmem
    exact nomatch hmem
  | cons first args ih =>
    intro text hmem
    rw [chkArgs] at h
    split at h
    · exact nomatch h
    rename_i arg hfirst
    rcases mem_cons.mp hmem with rfl | hmem
    · exact ⟨arg, hfirst⟩
    · exact ih h text hmem

def Accepted (table : List RuleDef) : Prop :=
  forall entry, entry ∈ table -> forall text, text ∈ entry.args ->
    exists arg, chkArg entry text = .ok arg

theorem chkRdtSyntax_ok (h : chkRdtSyntax table = .ok ()) : Accepted table := by
  induction table with
  | nil =>
    intro entry hmem
    exact nomatch hmem
  | cons first table ih =>
    intro entry hmem
    rw [chkRdtSyntax] at h
    split at h
    · exact nomatch h
    rename_i hfirst
    rcases mem_cons.mp hmem with rfl | hmem
    · exact chkArgs_ok hfirst
    · exact ih h entry hmem

theorem Accepted.tail (h : Accepted (entry :: table)) : Accepted table :=
  fun other hmem => h other (mem_cons_of_mem entry hmem)

/-! ## Defaults -/

def Value.stored : Value -> Value
  | text chars => text chars
  | number n => number (throughDouble n)

theorem setDefaultVar_cons (haccepted : Accepted (entry :: table)) (hlisted : entry.args ≠ []) :
    (entry.dataType = DataType.string ∧ entry.len < 0 ∧
        forall index vars, setDefaultVar (entry :: table) index vars = none) ∨
      (exists value, entry.default? = some value ∧
        (entry.dataType = DataType.string -> 0 ≤ entry.len) ∧
        forall index vars, setDefaultVar (entry :: table) index vars =
          setDefaultVar table (index + 1) (setVar vars index value.stored)) := by
  cases hargs : entry.args with
  | nil => exact absurd hargs hlisted
  | cons text args =>
    obtain ⟨arg, harg⟩ := haccepted entry mem_cons_self text (by rw [hargs]; exact mem_cons_self)
    obtain ⟨hvalue, hchecked⟩ := chkArg_ok harg
    have hdefault : entry.default? = entry.read (scanBound false text).1 := by
      rw [RuleDef.default?, hargs]
      rfl
    cases htype : entry.dataType with
    | other code =>
      rw [chkAValue, htype] at hchecked
      cases hchecked
    | long =>
      rw [chkAValue, htype] at hchecked
      simp only at hchecked
      split at hchecked
      · cases hchecked
      rename_i n hn
      apply Or.inr
      refine ⟨Value.number n, ?_, ?_, ?_⟩
      · rw [hdefault, RuleDef.read, htype, checkLong_some hn]
      · intro hstring
        cases hstring
      · intro index vars
        rw [setDefaultVar, hargs]
        simp only [harg, htype]
        rw [← Except.ok.inj hchecked]
        rfl
    | string =>
      rw [chkAValue, htype] at hchecked
      simp only at hchecked
      split at hchecked
      · cases hchecked
      split at hchecked
      · cases hchecked
      rename_i hfits
      by_cases hneg : entry.len < 0
      · apply Or.inl
        refine ⟨rfl, hneg, ?_⟩
        intro index vars
        rw [setDefaultVar, hargs]
        simp only [harg, htype, hneg, if_true]
      · apply Or.inr
        refine ⟨Value.text (scanBound false text).1, ?_, fun _ => by omega, ?_⟩
        · rw [hdefault, RuleDef.read, htype]
        · intro index vars
          have htake : arg.value1.take entry.len.toNat = (scanBound false text).1 := by
            rw [hvalue]
            apply take_of_length_le
            omega
          rw [setDefaultVar, hargs]
          simp only [harg, htype, hneg, if_false, htake]
          rfl

theorem setVar_same (vars : Vars) (index : Nat) (value : Value) :
    setVar vars index value index = value := if_pos rfl

theorem setVar_other {vars : Vars} {index i : Nat} {value : Value} (h : i ≠ index) :
    setVar vars index value i = vars i := if_neg h

section

variable (haccepted : Accepted table)

include haccepted

section

variable (hlisted : forall entry, entry ∈ table -> entry.args ≠ [])

include hlisted

theorem setDefaultVar_before :
    forall {index : Nat} {vars vars' : Vars}, setDefaultVar table index vars = some vars' ->
      forall i, i < index -> vars' i = vars i := by
  induction table with
  | nil =>
    intro index vars vars' h i _
    rw [← Option.some.inj h]
  | cons entry table ih =>
    intro index vars vars' h i hi
    rcases setDefaultVar_cons haccepted (hlisted entry mem_cons_self) with
      ⟨-, -, hnone⟩ | ⟨value, -, -, hnext⟩
    · rw [hnone] at h
      exact nomatch h
    · rw [hnext] at h
      have hsame := ih haccepted.tail
        (fun other hmem => hlisted other (mem_cons_of_mem entry hmem)) h i (by omega)
      rw [hsame, setVar_other (by omega)]

theorem setDefaultVar_some :
    forall {index : Nat} {vars vars' : Vars}, setDefaultVar table index vars = some vars' ->
      (forall entry, entry ∈ table -> entry.dataType = .string -> 0 ≤ entry.len) ∧
        forall i entry, table[i]? = some entry ->
          exists value, entry.default? = some value ∧ vars' (index + i) = value.stored := by
  induction table with
  | nil =>
    intro index vars vars' _
    exact ⟨(fun _ hmem => nomatch hmem), (fun _ _ hget => nomatch hget)⟩
  | cons entry table ih =>
    intro index vars vars' h
    have htail := fun other hmem => hlisted other (mem_cons_of_mem entry hmem)
    rcases setDefaultVar_cons haccepted (hlisted entry mem_cons_self) with
      ⟨-, -, hnone⟩ | ⟨value, hdefault, hlen, hnext⟩
    · rw [hnone] at h
      exact nomatch h
    · rw [hnext] at h
      obtain ⟨hlens, hvalues⟩ := ih haccepted.tail htail h
      constructor
      · intro other hmem
        rcases mem_cons.mp hmem with rfl | hmem
        · exact hlen
        · exact hlens other hmem
      · intro i other hget
        cases i with
        | zero =>
          cases Option.some.inj hget
          refine ⟨value, hdefault, ?_⟩
          have hkept := setDefaultVar_before haccepted.tail htail h index (by omega)
          rw [add_zero, hkept, setVar_same]
        | succ i =>
          obtain ⟨value', hdefault', hstored⟩ := hvalues i other hget
          refine ⟨value', hdefault', ?_⟩
          rw [← hstored, show index + (i + 1) = index + 1 + i by omega]

theorem setDefaultVar_total
    (hlens : forall entry, entry ∈ table -> entry.dataType = .string -> 0 ≤ entry.len) :
    forall (index : Nat) (vars : Vars),
      exists vars', setDefaultVar table index vars = some vars' := by
  induction table with
  | nil =>
    intro index vars
    exact ⟨vars, rfl⟩
  | cons entry table ih =>
    intro index vars
    rcases setDefaultVar_cons haccepted (hlisted entry mem_cons_self) with
      ⟨hstring, hneg, -⟩ | ⟨value, -, -, hnext⟩
    · have hlen := hlens entry mem_cons_self hstring
      omega
    · rw [hnext]
      exact ih haccepted.tail (fun other hmem => hlisted other (mem_cons_of_mem entry hmem))
        (fun other hmem => hlens other (mem_cons_of_mem entry hmem)) _ _

theorem bindPtrs_of_accepted : bindPtrs table = true := by
  rw [bindPtrs, all_eq_true]
  intro entry hmem
  rw [decide_eq_true_eq]
  cases hargs : entry.args with
  | nil => exact absurd hargs (hlisted entry hmem)
  | cons text args =>
    obtain ⟨arg, harg⟩ := haccepted entry hmem text (by rw [hargs]; exact mem_cons_self)
    have hchecked := (chkArg_ok harg).2
    cases htype : entry.dataType with
    | string => exact .inl rfl
    | long => exact .inr rfl
    | other code =>
      rw [chkAValue, htype] at hchecked
      exact nomatch hchecked

end

end

/-! ## Assignments -/

theorem lookupRule_some {keyword : List Char} :
    forall {index : Nat} {entry : RuleDef}, lookupRule table keyword = some (index, entry) ->
      table[index]? = some entry ∧ entry.keyword = keyword := by
  induction table with
  | nil =>
    intro index entry h
    exact nomatch h
  | cons first table ih =>
    intro index entry h
    rw [lookupRule] at h
    split at h
    · rename_i hkeyword
      cases Option.some.inj h
      exact ⟨rfl, hkeyword⟩
    · obtain ⟨found, hfound, heq⟩ := Option.map_eq_some_iff.mp h
      cases heq
      exact ih hfound

end Htx.Gr64
