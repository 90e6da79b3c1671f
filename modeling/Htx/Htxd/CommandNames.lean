import Htx.Htxd.Daemon

/-!
# Command names

`htxcmd` takes the first option whose text begins the command's name.
-/

namespace Htx.Htxd

open List

/-- What becomes of a name; one that fills `command_name` overruns it. -/
inductive NameResult where
  | index (i : Nat)
  | usage
  | overrun
  deriving DecidableEq

def maxCommandNameLength : Nat := 50

def OptionEntry.Begins (entry : OptionEntry) (name : String) : Prop :=
  entry.optionString.toList <+: name.toList

instance (entry : OptionEntry) (name : String) : Decidable (entry.Begins name) :=
  inferInstanceAs (Decidable (_ <+: _))

def validateCommandName (name : String) : NameResult :=
  if name.toList.head? ≠ some '-' then .usage
  else match optionList.findIdx? (fun entry => entry.Begins name) with
    | some i => .index i
    | none => .usage

/-- The options before the command, each with a value. -/
def valueOptions : List String := ["-sut", "-port", "-mdt", "-ecg"]

/-- The argument that `htxcmd_get_command_name` copies to `command_name`. -/
def commandArgument : List String -> Option String
  | [] => none
  | [argument] => if argument ∈ valueOptions then none else some argument
  | argument :: _ :: rest =>
    if argument ∈ valueOptions then commandArgument rest else some argument

def getCommandName (arguments : List String) : NameResult :=
  match commandArgument arguments with
  | none => .usage
  | some name =>
    if maxCommandNameLength ≤ name.toList.length then .overrun else validateCommandName name

structure ResolvesExactly (name : String) (result : NameResult) : Prop where
  index_iff : forall i, result = .index i <->
    exists entry, optionList[i]? = some entry ∧ entry.optionString = name
  usage_of : (forall entry, entry ∈ optionList -> entry.optionString ≠ name) -> result = .usage

theorem optionString_head : forall entry, entry ∈ optionList ->
    entry.optionString.toList.head? = some '-' ∧
      entry.optionString.toList.length < maxCommandNameLength := by
  decide +kernel

theorem later_not_begins :
    optionList.Pairwise fun earlier later => ¬ later.Begins earlier.optionString := by
  decide +kernel

theorem OptionEntry.Begins.head {entry : OptionEntry} {name : String} (h : entry.Begins name)
    (hmem : entry ∈ optionList) : name.toList.head? = some '-' := by
  obtain ⟨rest, hrest⟩ := h
  rw [← hrest, head?_append, (optionString_head entry hmem).1]
  rfl

theorem findIdx_begins_iff (name : String) (i : Nat) :
    optionList.findIdx? (fun entry => entry.Begins name) = some i <->
      exists h : i < optionList.length, optionList[i].Begins name ∧
        forall j (hj : j < i), ¬ optionList[j].Begins name := by
  simp only [findIdx?_eq_some_iff_getElem, decide_eq_true_eq]

theorem validate_eq_index_iff (name : String) (i : Nat) :
    validateCommandName name = .index i <->
      optionList.findIdx? (fun entry => entry.Begins name) = some i := by
  unfold validateCommandName
  split_ifs with hhead
  · refine ⟨nofun, fun h => absurd ?_ hhead⟩
    obtain ⟨hi, hbegins, -⟩ := (findIdx_begins_iff name i).mp h
    exact hbegins.head (getElem_mem hi)
  · cases optionList.findIdx? fun entry => entry.Begins name <;> simp

theorem le_of_begins {i j : Nat} (hi : i < optionList.length) (hj : j < optionList.length)
    (h : optionList[i].Begins optionList[j].optionString) : i ≤ j := by
  by_contra hlt
  exact pairwise_iff_getElem.mp later_not_begins j i hj hi (by omega) h

/-- A name that two options begin is taken for the shorter one. -/
theorem begins_eq_of_resolves {name : String} {entry : OptionEntry}
    (h : ResolvesExactly name (validateCommandName name))
    (hmem : entry ∈ optionList) (hbegins : entry.Begins name) : entry.optionString = name := by
  obtain ⟨k, hk, rfl⟩ := getElem_of_mem hmem
  cases hfind : optionList.findIdx? fun entry => entry.Begins name with
  | none => simp_all
  | some j =>
    obtain ⟨hj, -, hfirst⟩ := (findIdx_begins_iff name j).mp hfind
    obtain ⟨found, hfound, rfl⟩ := (h.index_iff j).mp ((validate_eq_index_iff name j).mpr hfind)
    obtain rfl : optionList[j] = found := by simpa [hj] using hfound
    have hle : k ≤ j := le_of_begins hk hj hbegins
    have hge : ¬ k < j := fun hlt => hfirst k hlt hbegins
    obtain rfl : k = j := by omega
    rfl

theorem resolves_of_begins_eq {name : String}
    (h : forall entry, entry ∈ optionList -> entry.Begins name -> entry.optionString = name) :
    ResolvesExactly name (validateCommandName name) := by
  refine ⟨fun i => ?_, fun hnone => ?_⟩
  · rw [validate_eq_index_iff, findIdx_begins_iff]
    constructor
    · rintro ⟨hi, hbegins, -⟩
      exact ⟨_, getElem?_eq_getElem hi, h _ (getElem_mem hi) hbegins⟩
    · rintro ⟨entry, hentry, rfl⟩
      obtain ⟨hi, rfl⟩ := List.getElem?_eq_some_iff.mp hentry
      refine ⟨hi, prefix_rfl, fun j hj hbegins => ?_⟩
      have heq := h _ (getElem_mem (hj.trans hi)) hbegins
      have hle := le_of_begins hi (hj.trans hi) (heq ▸ prefix_rfl)
      omega
  · have hfind : optionList.findIdx? (fun entry => entry.Begins name) = none := by
      rw [findIdx?_eq_none_iff]
      exact fun entry hmem => decide_eq_false fun hbegins => hnone entry hmem (h entry hmem hbegins)
    simp [validateCommandName, hfind]

theorem command_names_exact_iff {arguments : List String} {name : String}
    (harg : commandArgument arguments = some name) :
    ResolvesExactly name (getCommandName arguments) <->
      name.toList.length < maxCommandNameLength ∧
        forall entry, entry ∈ optionList -> entry.Begins name -> entry.optionString = name := by
  simp only [getCommandName, harg]
  split_ifs with hlen
  · refine ⟨fun h => absurd (h.usage_of ?_) nofun, fun h => absurd hlen (Nat.not_le.mpr h.1)⟩
    rintro entry hmem rfl
    exact absurd (optionString_head entry hmem).2 (Nat.not_lt.mpr hlen)
  · exact ⟨fun h => ⟨Nat.not_le.mp hlen, fun _ => begins_eq_of_resolves h⟩,
      fun h => resolves_of_begins_eq h.2⟩

theorem command_names_exact_run : ResolvesExactly "-run" (getCommandName ["-ecg", "a", "-run"]) :=
  (command_names_exact_iff (by decide +kernel)).mpr (by decide +kernel)

/-- The command `-coe_soe` is taken for `-coe`. -/
theorem coe_soe_taken_for_coe :
    getCommandName ["-coe_soe"] = .index 10 ∧
      (optionList[10]?.map (·.optionString) = some "-coe" ∧
        optionList[32]?.map (·.optionString) = some "-coe_soe") := by
  decide +kernel

end Htx.Htxd
