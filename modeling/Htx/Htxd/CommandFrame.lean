import Htx.Htxd.Daemon

/-!
# From a client's bytes to a command

A command thread reads ten bytes that announce a length, then as many bytes as they say,
and takes these apart at the colons.  The end of the stream may come anywhere, and the
bytes may arrive in any fragments.
-/

namespace Htx.Htxd

open List Option

abbrev Bytes := List UInt8

/-!
# C strings
-/

def colon : UInt8 := 58

def slash : UInt8 := 47

def cString (bytes : Bytes) : Bytes :=
  bytes.takeWhile fun b => b ≠ 0

def isSpace (b : UInt8) : Bool :=
  b = 32 ∨ (9 ≤ b ∧ b ≤ 13)

def isDigit (b : UInt8) : Bool :=
  48 ≤ b ∧ b ≤ 57

def decimal (digits : Bytes) : Nat :=
  digits.foldl (fun n b => 10 * n + (b.toNat - 48)) 0

def strtol (s : Bytes) : Int :=
  match s.dropWhile isSpace with
  | 45 :: rest => max (-2 ^ 63) (-(decimal (rest.takeWhile isDigit) : Int))
  | 43 :: rest => min (2 ^ 63 - 1) (decimal (rest.takeWhile isDigit))
  | rest => min (2 ^ 63 - 1) (decimal (rest.takeWhile isDigit))

def atoi (bytes : Bytes) : Int :=
  (strtol (cString bytes)).bmod (2 ^ 32)

theorem isDigit_bounds {b : UInt8} (h : isDigit b = true) : 48 ≤ b.toNat ∧ b.toNat ≤ 57 := by
  simp only [isDigit, decide_eq_true_eq] at h
  exact ⟨UInt8.le_iff_toNat_le.mp h.1, UInt8.le_iff_toNat_le.mp h.2⟩

theorem not_space_of_digit {b : UInt8} (h : isDigit b = true) : isSpace b = false := by
  have hbounds := isDigit_bounds h
  simp only [isSpace, decide_eq_false_iff_not]
  rintro (rfl | ⟨_, hle⟩)
  · exact absurd hbounds.1 (by decide)
  · have hle := UInt8.le_iff_toNat_le.mp hle
    have h13 : (13 : UInt8).toNat = 13 := rfl
    omega

theorem takeWhile_eq_of_forall {p : UInt8 -> Bool} {bytes : Bytes}
    (h : forall b, b ∈ bytes -> p b = true) : bytes.takeWhile p = bytes :=
  takeWhile_eq_self_iff.mpr h

theorem cString_eq {bytes : Bytes} (h : 0 ∉ bytes) : cString bytes = bytes := by
  refine takeWhile_eq_of_forall fun b hb => ?_
  rw [decide_eq_true_eq]
  rintro rfl
  exact h hb

theorem atoi_decimal {digits : Bytes} (hne : digits ≠ [])
    (hdigits : forall b, b ∈ digits -> isDigit b = true) (hsmall : decimal digits < 2 ^ 31) :
    atoi digits = decimal digits := by
  have hzero : 0 ∉ digits := fun hmem => absurd (hdigits 0 hmem) (by decide)
  have htake := takeWhile_eq_of_forall hdigits
  have hlong : strtol digits = decimal digits := by
    cases digits with
    | nil => exact absurd rfl hne
    | cons b rest =>
      have hb := hdigits b mem_cons_self
      have hdrop : (b :: rest).dropWhile isSpace = b :: rest := by
        rw [dropWhile_cons, not_space_of_digit hb]
        rfl
      unfold strtol
      rw [hdrop]
      split
      · rename_i heq
        cases heq
        exact absurd hb (by decide)
      · rename_i heq
        cases heq
        exact absurd hb (by decide)
      · rw [htake]
        omega
  unfold atoi
  rw [cString_eq hzero, hlong]
  exact Int.bmod_eq_of_le (by omega) (by omega)

/-!
# Receiving
-/

/-- `htxd_receive_bytes`: `recv` gives what is left of a fragment, at most as much as is
asked for.  After the last fragment the stream is closed. -/
def receiveBytes : List Bytes -> Nat -> Bytes × List Bytes
  | [], _ => ([], [])
  | fragment :: rest, remaining =>
    if fragment.length ≤ remaining then
      let (got, left) := receiveBytes rest (remaining - fragment.length)
      (fragment ++ got, left)
    else (fragment.take remaining, fragment.drop remaining :: rest)

theorem receiveBytes_eq (fragments : List Bytes) (n : Nat) :
    (receiveBytes fragments n).1 = fragments.flatten.take n ∧
      (receiveBytes fragments n).2.flatten = fragments.flatten.drop n := by
  induction fragments generalizing n with
  | nil => simp [receiveBytes]
  | cons fragment rest ih =>
    rw [receiveBytes, flatten_cons]
    split
    · rename_i hle
      rcases ih (n - fragment.length) with ⟨hgot, hleft⟩
      dsimp only
      rw [hgot, hleft, take_append, drop_append, take_of_length_le hle, drop_of_length_le hle]
      exact ⟨rfl, rfl⟩
    · rename_i hlt
      have hle := le_of_lt (not_le.mp hlt)
      rw [flatten_cons, take_append_of_le_length hle, drop_append_of_le_length hle]
      exact ⟨rfl, rfl⟩

structure Received where
  announced : Int
  body : Bytes
  deriving DecidableEq

def Allocated (malloc : Int -> Bool) (announced : Int) : Prop :=
  0 ≤ (announced + 10).bmod (2 ^ 32) ∧ malloc (announced + 10) = true

instance (malloc : Int -> Bool) (announced : Int) : Decidable (Allocated malloc announced) :=
  inferInstanceAs (Decidable (_ ∧ _))

def receiveCommand (malloc : Int -> Bool) (fragments : List Bytes) : Option Received :=
  let (header, rest) := receiveBytes fragments 10
  let announced := atoi header
  if Allocated malloc announced then
    some ⟨announced, (receiveBytes rest announced.toNat).1⟩
  else none

/-!
# Decoding
-/

inductive Fault where
  /-- `command_details_buffer[command_length] = 0` for a negative length. -/
  | writeBefore
  | readPast
  | overflow
  | badIndex
  deriving DecidableEq

def getStringValue : Bytes -> Option (Bytes × Bytes)
  | [] => none
  | b :: rest =>
    if b = colon then some ([], rest)
    else (getStringValue rest).map fun (value, left) => (b :: value, left)

theorem getStringValue_append {value : Bytes} (hvalue : colon ∉ value) (rest : Bytes) :
    getStringValue (value ++ colon :: rest) = some (value, rest) := by
  induction value with
  | nil => simp [getStringValue]
  | cons b value ih =>
    rw [mem_cons, not_or] at hvalue
    rw [cons_append, getStringValue, if_neg (Ne.symm hvalue.1), ih hvalue.2]
    rfl

theorem getStringValue_eq {bytes value rest : Bytes}
    (h : getStringValue bytes = some (value, rest)) :
    bytes = value ++ colon :: rest ∧ colon ∉ value := by
  induction bytes generalizing value with
  | nil => cases h
  | cons b bytes ih =>
    rw [getStringValue] at h
    split at h
    · rename_i hb
      cases h
      exact ⟨by rw [hb]; rfl, not_mem_nil⟩
    · rename_i hb
      rcases map_eq_some_iff.mp h with ⟨⟨value', left⟩, hrest, heq⟩
      cases heq
      rcases ih hrest with ⟨rfl, hvalue⟩
      refine ⟨rfl, ?_⟩
      rw [mem_cons, not_or]
      exact ⟨Ne.symm hb, hvalue⟩

structure CommandObject where
  commandIndex : Int
  ecgName : Bytes
  optionList : Bytes
  deriving DecidableEq

def qualify (home name : Bytes) : Bytes :=
  if name ≠ [] ∧ slash ∉ name then home ++ [47, 109, 100, 116, 47] ++ name else name

/-- `htxd_update_command_object`, behind the first colon.  `temp_string`, `ecg_name` and
`option_list` have 512 bytes each.  The last character of the options is dropped
unseen; without one the zero goes to the end of `ecg_name`, where one is. -/
def updateCommandObject (home bytes : Bytes) : Except Fault CommandObject :=
  match getStringValue bytes with
  | none => .error .readPast
  | some (index, rest) =>
    if 512 ≤ index.length then .error .overflow
    else
      match getStringValue rest with
      | none => .error .readPast
      | some (ecg, options) =>
        if 512 ≤ ecg.length ∨ 512 ≤ (qualify home (cString ecg)).length ∨
            512 ≤ (cString options).length then .error .overflow
        else
          .ok ⟨atoi index, qualify home (cString ecg), (cString options).dropLast⟩

inductive CommandOutcome where
  /-- `htxd_receive_command` has returned `NULL`. -/
  | noCommand
  /-- The format is wrong, and the client is told. -/
  | answered
  /-- The daemon state does not admit the command, and the client is told. -/
  | refused
  | dispatched (index : Fin optionList.length) (ecgName options : Bytes)
  | fault (fault : Fault)
  deriving DecidableEq

def processObject (state : DaemonState) (command : CommandObject) : CommandOutcome :=
  if h : 0 ≤ command.commandIndex ∧ command.commandIndex.toNat < optionList.length then
    if (optionList.get ⟨command.commandIndex.toNat, h.2⟩).Admitted state then
      .dispatched ⟨command.commandIndex.toNat, h.2⟩ command.ecgName command.optionList
    else .refused
  else .fault .badIndex

def formatOk (body : Bytes) : Bool :=
  (cString body).length ≠ 0 ∧ body.head? = some colon

def commandThread (home : Bytes) (malloc : Int -> Bool) (state : DaemonState)
    (fragments : List Bytes) : CommandOutcome :=
  match receiveCommand malloc fragments with
  | none => .noCommand
  | some received =>
    if received.announced < 0 then .fault .writeBefore
    else if formatOk received.body = false then .answered
    else
      match updateCommandObject home received.body.tail with
      | .error fault => .fault fault
      | .ok command => processObject state command

/-!
# What a command thread owes to its client
-/

def announcedLength (stream : Bytes) : Int :=
  atoi (stream.take 10)

def arrived (stream : Bytes) : Bytes :=
  (stream.drop 10).take (announcedLength stream).toNat

def Complete (stream : Bytes) : Prop :=
  (arrived stream).length = announcedLength stream

instance (stream : Bytes) : Decidable (Complete stream) :=
  inferInstanceAs (Decidable (_ = _))

structure CommandFrame where
  index : Bytes
  ecg : Bytes
  options : Bytes
  deriving DecidableEq

namespace CommandFrame

def text (f : CommandFrame) : Bytes :=
  colon :: (f.index ++ colon :: (f.ecg ++ colon :: (f.options ++ [colon])))

structure WellFormed (f : CommandFrame) : Prop where
  index_ne : f.index ≠ []
  digits : forall b, b ∈ f.index -> isDigit b = true
  ecg_colon : colon ∉ f.ecg
  ecg_zero : 0 ∉ f.ecg
  options_zero : 0 ∉ f.options

end CommandFrame

def Proper (home stream : Bytes) : CommandOutcome -> Prop
  | .dispatched index ecgName options =>
    Complete stream ∧ exists f : CommandFrame, f.WellFormed ∧ arrived stream = f.text ∧
      decimal f.index = index ∧ ecgName = qualify home f.ecg ∧ options = f.options
  | .fault _ => False
  | _ => True

structure Separated (home bytes index ecg options : Bytes) : Prop where
  eq : bytes = index ++ colon :: (ecg ++ colon :: options)
  index_colon : colon ∉ index
  ecg_colon : colon ∉ ecg
  index_fits : index.length < 512
  ecg_fits : ecg.length < 512
  name_fits : (qualify home (cString ecg)).length < 512
  options_fit : (cString options).length < 512

/-- A frame that begins with a colon can be taken apart in memory and names an option,
and if the daemon state admits this option the frame is complete and well formed. -/
def Handled (home : Bytes) (malloc : Int -> Bool) (state : DaemonState) (stream : Bytes) :
    Prop :=
  Allocated malloc (announcedLength stream) -> 0 ≤ announcedLength stream ∧
      ((arrived stream).head? = some colon ->
        exists (index ecg options : Bytes) (i : Fin optionList.length),
          Separated home (arrived stream).tail index ecg options ∧ atoi index = i ∧
            ((optionList.get i).Admitted state ->
              Complete stream ∧ exists text, options = text ++ [colon] ∧
                (CommandFrame.mk index ecg text).WellFormed ∧ decimal index = i))

theorem receiveCommand_eq (malloc : Int -> Bool) (fragments : List Bytes) :
    receiveCommand malloc fragments =
      if Allocated malloc (announcedLength fragments.flatten) then
        some ⟨announcedLength fragments.flatten, arrived fragments.flatten⟩
      else none := by
  rcases receiveBytes_eq fragments 10 with ⟨hheader, hrest⟩
  unfold receiveCommand arrived announcedLength
  dsimp only
  rw [hheader, (receiveBytes_eq _ _).1, hrest]

theorem formatOk_iff (body : Bytes) : formatOk body = true <-> body.head? = some colon := by
  cases body with
  | nil => simp [formatOk]
  | cons b rest =>
    simp only [formatOk, decide_eq_true_eq, and_iff_right_iff_imp, head?_cons, some.injEq]
    rintro rfl
    simp [cString, colon]

namespace Separated

variable {home bytes index ecg options : Bytes}

section

variable (h : Separated home bytes index ecg options)

include h

theorem getStringValue_index : getStringValue bytes = some (index, ecg ++ colon :: options) := by
  rw [h.eq]
  exact getStringValue_append h.index_colon _

theorem updateCommandObject_eq :
    updateCommandObject home bytes =
      .ok ⟨atoi index, qualify home (cString ecg), (cString options).dropLast⟩ := by
  have hfits : ¬ (512 ≤ ecg.length ∨ 512 ≤ (qualify home (cString ecg)).length ∨
      512 ≤ (cString options).length) := by
    have hecg := h.ecg_fits
    have hname := h.name_fits
    have hoptions := h.options_fit
    omega
  unfold updateCommandObject
  rw [h.getStringValue_index]
  dsimp only
  rw [if_neg (not_le.mpr h.index_fits), getStringValue_append h.ecg_colon]
  dsimp only
  rw [if_neg hfits]

theorem unique {index' ecg' options' : Bytes}
    (heq : bytes = index' ++ colon :: (ecg' ++ colon :: options'))
    (hindex : colon ∉ index') (hecg : colon ∉ ecg') :
    index = index' ∧ ecg = ecg' ∧ options = options' := by
  have hfirst := h.getStringValue_index
  rw [heq, getStringValue_append hindex] at hfirst
  rcases Prod.mk.inj (some.inj hfirst) with ⟨rfl, hrest⟩
  have hsecond := getStringValue_append h.ecg_colon options
  rw [← hrest, getStringValue_append hecg] at hsecond
  rcases Prod.mk.inj (some.inj hsecond) with ⟨rfl, rfl⟩
  exact ⟨rfl, rfl, rfl⟩

end

end Separated

theorem updateCommandObject_separated {home bytes : Bytes} {command : CommandObject}
    (h : updateCommandObject home bytes = .ok command) :
    exists index ecg options, Separated home bytes index ecg options := by
  unfold updateCommandObject at h
  split at h
  · cases h
  · rename_i index rest hindex
    split at h
    · cases h
    · rename_i hindexfits
      split at h
      · cases h
      · rename_i ecg options hecg
        split at h
        · cases h
        · rename_i hfits
          rcases getStringValue_eq hindex with ⟨rfl, hindexcolon⟩
          rcases getStringValue_eq hecg with ⟨rfl, hecgcolon⟩
          exact ⟨index, ecg, options, rfl, hindexcolon, hecgcolon, by omega, by omega,
            by omega, by omega⟩

theorem CommandFrame.WellFormed.index_colon {f : CommandFrame} (h : f.WellFormed) :
    colon ∉ f.index := fun hmem => absurd (h.digits colon hmem) (by decide)

theorem CommandFrame.WellFormed.decoded {index ecg text : Bytes}
    (h : (CommandFrame.mk index ecg text).WellFormed) :
    cString ecg = ecg ∧ (cString (text ++ [colon])).dropLast = text := by
  have hzero : 0 ∉ text ++ [colon] := by
    rw [mem_append, not_or]
    exact ⟨h.options_zero, by decide⟩
  rw [cString_eq h.ecg_zero, cString_eq hzero, dropLast_concat]
  exact ⟨rfl, rfl⟩

theorem processObject_proper_iff {home stream index ecg options : Bytes} {state : DaemonState}
    (hhead : (arrived stream).head? = some colon)
    (h : Separated home (arrived stream).tail index ecg options) :
    Proper home stream (processObject state
        ⟨atoi index, qualify home (cString ecg), (cString options).dropLast⟩) <->
      exists i : Fin optionList.length, atoi index = i ∧ ((optionList.get i).Admitted state ->
          Complete stream ∧ exists text, options = text ++ [colon] ∧
            (CommandFrame.mk index ecg text).WellFormed ∧ decimal index = i) := by
  have hcons : arrived stream = colon :: (arrived stream).tail :=
    eq_cons_of_mem_head? (mem_def.mpr hhead)
  unfold processObject
  dsimp only
  split
  · rename_i hrange
    have hindex : forall i : Fin optionList.length, atoi index = i ->
        i = ⟨(atoi index).toNat, hrange.2⟩ := by
      intro i hi
      exact Fin.ext (by dsimp only; omega)
    split
    · rename_i hadmitted
      constructor
      · rintro ⟨hcomplete, f, hf, htext, hdecimal, -, -⟩
        rw [CommandFrame.text] at htext
        rw [htext, tail_cons] at h
        rcases h.unique rfl hf.index_colon hf.ecg_colon with ⟨rfl, rfl, rfl⟩
        exact ⟨⟨_, hrange.2⟩, by dsimp only; omega,
          fun _ => ⟨hcomplete, f.options, rfl, hf, hdecimal⟩⟩
      · rintro ⟨i, hi, hframe⟩
        rw [hindex i hi] at hframe
        rcases hframe hadmitted with ⟨hcomplete, text, rfl, hf, hdecimal⟩
        rcases hf.decoded with ⟨hecg, htext⟩
        refine ⟨hcomplete, ⟨index, ecg, text⟩, hf, ?_, hdecimal, ?_, htext⟩
        · rw [hcons, h.eq]
          rfl
        · rw [hecg]
    · rename_i hrefused
      refine iff_of_true trivial ⟨⟨_, hrange.2⟩, by dsimp only; omega, ?_⟩
      intro hadmitted
      exact absurd hadmitted hrefused
  · rename_i hrange
    refine iff_of_false id ?_
    rintro ⟨i, hi, -⟩
    exact hrange ⟨by omega, by omega⟩

theorem commandThread_proper_iff (home : Bytes) (malloc : Int -> Bool) (state : DaemonState)
    (fragments : List Bytes) :
    Proper home fragments.flatten (commandThread home malloc state fragments) <->
      Handled home malloc state fragments.flatten := by
  unfold commandThread Handled
  rw [receiveCommand_eq]
  by_cases halloc : Allocated malloc (announcedLength fragments.flatten)
  · rw [if_pos halloc]
    dsimp only
    by_cases hnegative : announcedLength fragments.flatten < 0
    · rw [if_pos hnegative]
      refine iff_of_false id ?_
      intro hhandled
      have hnonneg := (hhandled halloc).1
      omega
    · rw [if_neg hnegative]
      by_cases hhead : (arrived fragments.flatten).head? = some colon
      · rw [if_neg (by rw [(formatOk_iff _).mpr hhead]; decide)]
        cases hobject : updateCommandObject home (arrived fragments.flatten).tail with
        | error fault =>
          refine iff_of_false id ?_
          intro hhandled
          rcases (hhandled halloc).2 hhead with ⟨index, ecg, options, i, hsep, -⟩
          rw [hsep.updateCommandObject_eq] at hobject
          cases hobject
        | ok command =>
          rcases updateCommandObject_separated hobject with ⟨index, ecg, options, hsep⟩
          rw [hsep.updateCommandObject_eq] at hobject
          cases hobject
          rw [processObject_proper_iff hhead hsep]
          constructor
          · rintro ⟨i, hi, hframe⟩ _
            exact ⟨Int.not_lt.mp hnegative, fun _ => ⟨index, ecg, options, i, hsep, hi, hframe⟩⟩
          · intro hhandled
            rcases (hhandled halloc).2 hhead with ⟨index', ecg', options', i, hsep', hi, hframe⟩
            rcases hsep.unique hsep'.eq hsep'.index_colon hsep'.ecg_colon with ⟨rfl, rfl, rfl⟩
            exact ⟨i, hi, hframe⟩
      · rw [if_pos (Bool.eq_false_iff.mpr fun hok => hhead ((formatOk_iff _).mp hok))]
        exact iff_of_true trivial
          fun _ => ⟨Int.not_lt.mp hnegative, fun hcolon => absurd hcolon hhead⟩
  · rw [if_neg halloc]
    exact iff_of_true trivial fun h => absurd h halloc

def cutTerminate : Bytes :=
  [48, 48, 48, 48, 48, 48, 48, 48, 49, 50, 58, 56, 58, 47, 109, 47, 97, 58]

def unknownOption : Bytes :=
  [48, 48, 48, 48, 48, 48, 48, 48, 48, 54, 58, 57, 57, 58, 58, 58]

def missingColons : Bytes :=
  [48, 48, 48, 48, 48, 48, 48, 48, 48, 50, 58, 56]

/-- A `-terminate` that is cut off behind the ECG name is carried out for all devices; an
index outside `option_list` is used; a frame without colons is read past its end. -/
theorem commandThread_improper : (commandThread [] (fun _ => true) .runningMdt [cutTerminate] =
        .dispatched ⟨8, by decide⟩ [47, 109, 47, 97] [] ∧
      ¬ Proper [] cutTerminate
        (commandThread [] (fun _ => true) .runningMdt [cutTerminate])) ∧
    commandThread [] (fun _ => true) .runningMdt [unknownOption] = .fault .badIndex ∧
    commandThread [] (fun _ => true) .runningMdt [missingColons] = .fault .readPast := by
  have hcut : commandThread [] (fun _ => true) .runningMdt [cutTerminate] =
      .dispatched ⟨8, by decide⟩ [47, 109, 47, 97] [] := by
    decide
  refine ⟨⟨hcut, ?_⟩, by decide, by decide⟩
  rw [hcut]
  rintro ⟨hcomplete, -⟩
  exact absurd hcomplete (by decide)

end Htx.Htxd
