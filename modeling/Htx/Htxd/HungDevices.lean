import Mathlib

/-!
# Hung devices

`htxd_hang_monitor_ecg` looks at one device after the other, and what it does with a
device depends on no other one.  For a hung device it writes a text when the parity of the
number of elapsed lapses differs from the one noted in the slot; the text is not sent.
-/

namespace Htx.Htxd

structure HangConfig where
  heName : String
  sdevId : String
  maxRunTm : UInt16
  idleTime : UInt32
  maxCycles : Nat

/-- What a scan finds in the slot and in the semaphores of a device. -/
structure HangScan where
  now : Int
  pid : Nat
  tmLastUpd : Int
  cycles : Nat
  runSem : Int
  errorSem : Int

/-- The arguments of the text that says a device is hung. -/
structure HungEntry where
  heName : String
  sdevId : String
  maxRunTm : UInt16
  elapsedTime : Int
  deriving DecidableEq

namespace HangConfig

variable (device : HangConfig)

/-- The sum is one of `unsigned int` values. -/
def maxUpdateLapse : Nat :=
  (device.maxRunTm.toNat + device.idleTime.toNat) % 2 ^ 32

def Eligible (scan : HangScan) : Prop :=
  scan.pid ≠ 0 ∧ scan.tmLastUpd ≠ 0 ∧ ¬ (device.maxCycles ≠ 0 ∧ device.maxCycles ≤ scan.cycles) ∧
    scan.runSem = 0 ∧ scan.errorSem = 0

instance (scan : HangScan) : Decidable (device.Eligible scan) :=
  inferInstanceAs (Decidable (_ ∧ _))

/-- Number of whole lapses since the last update. -/
def lapses (scan : HangScan) : Nat :=
  (scan.now - scan.tmLastUpd).toNat / device.maxUpdateLapse

def Exceeded (scan : HangScan) : Prop :=
  device.maxUpdateLapse < scan.now - scan.tmLastUpd

instance (scan : HangScan) : Decidable (device.Exceeded scan) :=
  inferInstanceAs (Decidable (_ < _))

/-- The new `hung_flag` and the text, and `none` after a division by zero. -/
def hangMonitor (hungFlag : Nat) (scan : HangScan) : Option (Nat × Option HungEntry) :=
  if device.Eligible scan then
    if device.Exceeded scan then
      if device.maxUpdateLapse = 0 then none
      else
        let hungToggle := device.lapses scan % 2
        if hungFlag ≠ hungToggle then
          some (hungToggle, some ⟨device.heName, device.sdevId, device.maxRunTm,
            scan.now - scan.tmLastUpd⟩)
        else some (hungFlag, none)
    else some (0, none)
  else some (hungFlag, none)

def Hung (scan : HangScan) : Prop :=
  device.Eligible scan ∧ device.Exceeded scan

instance (scan : HangScan) : Decidable (device.Hung scan) :=
  inferInstanceAs (Decidable (_ ∧ _))

/-- Every scan that finds the device newly hung reports it, and so does every scan at
which more lapses have passed than at the last report. -/
def NeverMissed : Nat -> Bool -> Nat -> List HangScan -> Prop
  | _, _, _, [] => True
  | hungFlag, wasHung, reported, scan :: scans =>
    match device.hangMonitor hungFlag scan with
    | none => False
    | some (hungFlag, entry) =>
      (device.Hung scan -> wasHung = false ∨ reported < device.lapses scan ->
        entry.isSome = true) ∧
      NeverMissed hungFlag (decide (device.Hung scan))
        (if entry.isSome then device.lapses scan else reported) scans

/-- The lapse is not zero, and the lapses of a scan that has to report are odd in number
counted from those of the last report, or from 0 after the device was not hung. -/
def OddSteps : Bool -> Nat -> List HangScan -> Prop
  | _, _, [] => True
  | wasHung, noted, scan :: scans =>
    if device.Hung scan then
      device.maxUpdateLapse ≠ 0 ∧
      (wasHung = false ∨ noted < device.lapses scan -> noted % 2 ≠ device.lapses scan % 2) ∧
      OddSteps true (if noted % 2 ≠ device.lapses scan % 2 then device.lapses scan
        else noted) scans
    else OddSteps false (if device.Eligible scan then 0 else noted) scans

theorem neverMissed_iff_oddSteps (scans : List HangScan) {wasHung : Bool}
    {noted reported : Nat} (h : wasHung = true -> reported = noted) :
    device.NeverMissed (noted % 2) wasHung reported scans <->
      device.OddSteps wasHung noted scans := by
  induction scans generalizing wasHung noted reported with
  | nil => exact Iff.rfl
  | cons scan scans ih =>
    by_cases hhung : device.Hung scan
    · simp only [NeverMissed, OddSteps, hangMonitor, if_pos hhung, if_pos hhung.1, if_pos hhung.2,
        decide_eq_true hhung]
      by_cases hzero : device.maxUpdateLapse = 0
      · simp [hzero]
      · by_cases hsame : noted % 2 = device.lapses scan % 2
        · cases wasHung with
          | false => simp [hsame, hzero, hhung]
          | true =>
            have hnext := @ih true noted noted fun _ => rfl
            simp [hzero, ← hsame, hhung, hnext, h rfl]
        · have hnext := @ih true (device.lapses scan) (device.lapses scan) fun _ => rfl
          simp [hzero, hsame, hnext]
    · have hstep : device.hangMonitor (noted % 2) scan =
          some ((if device.Eligible scan then 0 else noted) % 2, none) := by
        unfold hangMonitor
        by_cases heligible : device.Eligible scan
        · have hexceeded : ¬ device.Exceeded scan := fun h => hhung ⟨heligible, h⟩
          simp [heligible, hexceeded]
        · simp [heligible]
      simp only [NeverMissed, hstep, OddSteps, if_neg hhung, decide_eq_false hhung]
      have hnext := @ih false (if device.Eligible scan then 0 else noted) reported nofun
      simp [hhung, hnext]

/-- From a cleared slot on, no hang is missed exactly if the lapses come in odd steps. -/
theorem hangs_reported_iff (device : HangConfig) (scans : List HangScan) :
    device.NeverMissed 0 false 0 scans <-> device.OddSteps false 0 scans :=
  @neverMissed_iff_oddSteps device scans false 0 0 fun _ => rfl

/-- A scan that comes after two whole lapses says nothing, and without a lapse it
divides by zero. -/
theorem second_lapse_missed :
    Hung ⟨"hxestorage", "hdisk0", 10, 0, 0⟩ ⟨120, 7, 100, 0, 0, 0⟩ ∧
      hangMonitor ⟨"hxestorage", "hdisk0", 10, 0, 0⟩ 0 ⟨120, 7, 100, 0, 0, 0⟩ =
        some (0, none) ∧
      hangMonitor ⟨"hxestorage", "hdisk0", 0, 0, 0⟩ 0 ⟨120, 7, 100, 0, 0, 0⟩ = none := by
  decide

end HangConfig

end Htx.Htxd
