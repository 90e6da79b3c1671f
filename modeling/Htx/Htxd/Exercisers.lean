import Htx.Library.EventSystem
import Htx.Htxd.Daemon

/-!
# Exercisers

An exerciser is a process that `htxd` forks for a device of the loaded ECG.  Its process
id is kept twice: in the device's slot of the ECG's shared memory (`HE`) and in the entry
of the exer table.
-/

namespace Htx.Htxd

structure DeviceStanza where
  sdevId : String
  heName : String
  runTime : Int
  deriving DecidableEq

structure Slot where
  sdevId : String
  heName : String
  pid : Nat
  tmLastUpd : Int
  testStartedTime : Int
  startedDelayFlag : Bool
  testRunPeriod : Int
  testRunPeriodExpired : Bool
  userTerm : Bool
  drTerm : Bool
  deriving DecidableEq

def Slot.ofStanza (stanza : DeviceStanza) : Slot :=
  ⟨stanza.sdevId, stanza.heName, 0, -1, 0, false, stanza.runTime, false, false, false⟩

def Slot.Flagged (slot : Slot) : Prop :=
  slot.userTerm ∨ slot.drTerm ∨ slot.testRunPeriodExpired

instance (slot : Slot) : Decidable slot.Flagged :=
  inferInstanceAs (Decidable (_ ∨ _ ∨ _))

structure ExerEntry where
  devName : String
  ecgExerAddr : Nat
  exerPid : Nat
  deriving DecidableEq

structure LoadedEcg where
  ecgExerciserEntries : Int
  slots : List Slot
  exerTable : List ExerEntry
  started : Bool
  deriving DecidableEq

structure Exerciser where
  pid : Nat
  device : String
  sigterm : Bool
  deriving DecidableEq

inductive Severity where
  | sysInfo
  | heHardError
  deriving DecidableEq

inductive LogEntry where
  | started (i : Nat)
  | terminated (i : Nat)
  | exited (i : Nat) (severity : Severity) (text : String)
  deriving DecidableEq

structure World where
  runState : DaemonState
  ecgShutdownFlag : Bool
  ecg : LoadedEcg
  live : List Exerciser
  forks : Nat
  log : List LogEntry
  deriving DecidableEq

structure Forks where
  result : Nat -> Option Nat
  ne_zero : forall k, result k ≠ some 0
  fresh : forall j k pid, result j = some pid -> result k = some pid -> j = k

def Forks.counting : Forks where
  result k := some (k + 1)
  ne_zero k h := by cases h
  fresh j k pid hj hk := by
    cases hj
    cases hk
    rfl

namespace LoadedEcg

def empty : LoadedEcg :=
  ⟨0, [], [], false⟩

section

variable (ecg : LoadedEcg)

def positionByName (name : String) : Option Nat :=
  ecg.exerTable.findIdx? fun entry => entry.devName = name

def positionByPid (pid : Nat) : Option Nat :=
  ecg.exerTable.findIdx? fun entry => entry.exerPid = pid

def positionInShm (name : String) : Option Nat :=
  ecg.slots.findIdx? fun slot => slot.sdevId = name

def setSlot (i : Nat) (slot : Slot) : LoadedEcg :=
  { ecg with slots := ecg.slots.set i slot }

def setTablePid (k pid : Nat) : LoadedEcg :=
  { ecg with exerTable := ecg.exerTable.modify k ({ · with exerPid := pid }) }

def updateExerPid (name : String) (pid : Nat) : LoadedEcg :=
  match ecg.positionByName name with
  | none => ecg
  | some k => ecg.setTablePid k pid

def register (stanza : DeviceStanza) : LoadedEcg :=
  match ecg.positionByName stanza.sdevId with
  | some _ => ecg
  | none =>
    { ecg with
      slots := ecg.slots ++ [Slot.ofStanza stanza]
      exerTable := ecg.exerTable ++ [⟨stanza.sdevId, ecg.slots.length, 0⟩] }

def needDrRestart (name : String) : Bool :=
  match (ecg.positionInShm name).bind fun i => ecg.slots[i]? with
  | none => false
  | some slot => slot.pid = 0 ∧ slot.drTerm

def slotPid (i : Nat) : Nat :=
  (ecg.slots[i]?.map Slot.pid).getD 0

def stillRunning : Int :=
  ecg.ecgExerciserEntries -
    (List.range ecg.ecgExerciserEntries.toNat).countP fun i => ecg.slotPid i = 0

end

end LoadedEcg

namespace World

def initial : World :=
  ⟨.idle, false, .empty, [], 0, []⟩

def setSlot (w : World) (i : Nat) (slot : Slot) : World :=
  { w with ecg := w.ecg.setSlot i slot }

def note (w : World) (entry : LogEntry) : World :=
  { w with log := entry :: w.log }

def isLive (w : World) (pid : Nat) : Bool :=
  w.live.any fun p => p.pid = pid

def sendSigterm (w : World) (pid : Nat) : World :=
  { w with live := w.live.map fun p => if p.pid = pid then { p with sigterm := true } else p }

variable (forks : Forks)

section

variable (w : World)

def loadExerciser (i : Nat) : World :=
  match w.ecg.slots[i]? with
  | none => w
  | some slot =>
    match forks.result w.forks with
    | none => { w with forks := w.forks + 1 }
    | some pid =>
      { w with
        ecg := (w.ecg.setSlot i { slot with pid := pid }).updateExerPid slot.sdevId pid
        live := ⟨pid, slot.sdevId, false⟩ :: w.live
        forks := w.forks + 1
        log := .started i :: w.log }

def loadAll (positions : List Nat) : World :=
  positions.foldl (loadExerciser forks) w

def terminateSlot (i : Nat) : World :=
  match w.ecg.slots[i]? with
  | none => w
  | some slot =>
    if slot.pid ≠ 0 ∧ slot.tmLastUpd ≠ 0 then
      if w.isLive slot.pid then
        ((w.setSlot i { slot with userTerm := true }).sendSigterm slot.pid).note
          (.terminated i)
      else w.setSlot i { slot with userTerm := false, drTerm := false }
    else w

def terminate : Option (List String) -> World
  | none => (List.range w.ecg.slots.length).foldl terminateSlot w
  | some names =>
    names.foldl
      (fun w name =>
        match w.ecg.positionInShm name with
        | none => w
        | some i => w.terminateSlot i)
      w

def restart : Option (List String) -> World
  | none => w.loadAll forks (List.range w.ecg.slots.length)
  | some names =>
    names.foldl
      (fun w name =>
        match w.ecg.positionInShm name with
        | none => w
        | some i => w.loadExerciser forks i)
      w

def hotplugStanza (stanza : DeviceStanza) : World :=
  let known := (w.ecg.positionByName stanza.sdevId).isSome
  let w' := { w with ecg := w.ecg.register stanza }
  if known ∧ w'.ecg.needDrRestart stanza.sdevId = false then w'
  else
    match w'.ecg.positionInShm stanza.sdevId with
    | none => w'
    | some i => w'.loadExerciser forks i

def runMdt (stanzas : List DeviceStanza) (complete : Bool) : World :=
  let entries : Int := if complete then stanzas.length else -1
  let ecg :=
    stanzas.foldl LoadedEcg.register { LoadedEcg.empty with ecgExerciserEntries := entries }
  let w' :=
    { w with runState := .startingMdt, ecgShutdownFlag := false, ecg := ecg, log := [] }
  w'.loadAll forks (List.range ecg.slots.length)

def unloadExercisers : World :=
  (List.range w.ecg.ecgExerciserEntries.toNat).foldl
    (fun w i => if w.ecg.slotPid i ≠ 0 then w.sendSigterm (w.ecg.slotPid i) else w)
    { w with runState := .shuttingDownMdt, ecgShutdownFlag := true }

end

def exitText (slot : Slot) (reason : String) : String :=
  let detail := s!"{slot.heName} HE program for {slot.sdevId} terminated by {reason}"
  if slot.userTerm then detail ++ " because of user request"
  else if slot.drTerm then detail ++ " because of DR operation"
  else if slot.testRunPeriodExpired then
    detail ++ s!" because of run time ({slot.testRunPeriod} seconds) is completed"
  else detail

def exitSeverity (slot : Slot) : Severity :=
  if slot.userTerm ∨ slot.drTerm ∨ slot.testRunPeriodExpired then .sysInfo else .heHardError

def resetExerPid (w : World) (pid : Nat) (reason : String) : World :=
  match w.ecg.positionByPid pid with
  | none => w
  | some k =>
    match w.ecg.exerTable[k]? with
    | none => w
    | some entry =>
      match w.ecg.slots[entry.ecgExerAddr]? with
      | none => w
      | some slot =>
        let w' :=
          if w.ecgShutdownFlag = false then
            w.note (.exited entry.ecgExerAddr (exitSeverity slot) (exitText slot reason))
          else w
        { w' with
          ecg := (w.ecg.setTablePid k 0).setSlot entry.ecgExerAddr { slot with pid := 0 } }

def exit (w : World) (pid : Nat) (reason : String) : World :=
  { w with live := w.live.filter fun p => p.pid ≠ pid }.resetExerPid pid reason

def stopWatch (w : World) (i : Nat) (slot : Slot) : World :=
  let w' := w.setSlot i { slot with testRunPeriodExpired := true }
  if slot.pid ≠ 0 then (w'.sendSigterm slot.pid).note (.terminated i) else w'

def RunPeriodOver (slot : Slot) (now : Int) : Prop :=
  slot.testRunPeriod ≠ 0 ∧ slot.startedDelayFlag = false ∧ slot.testStartedTime ≠ 0 ∧
    slot.testRunPeriod ≤ now - slot.testStartedTime ∧ slot.testRunPeriodExpired = false

instance (slot : Slot) (now : Int) : Decidable (RunPeriodOver slot now) :=
  inferInstanceAs (Decidable (_ ∧ _ ∧ _ ∧ _ ∧ _))

end World

/-!
# Events
-/

inductive SlotWrite where
  | lastUpdate (tm : Int)
  | startDelay
  | startTest (time : Int)
  /-- `RECONFIG`, before it ends for a DR or hotplug operation. -/
  | reconfig
  deriving DecidableEq

inductive ExerEvent where
  | run (stanzas : List DeviceStanza) (complete : Bool)
  | running
  | terminate (devices : Option (List String))
  | restart (devices : Option (List String))
  | hotplug (stanzas : List DeviceStanza)
  | exit (pid : Nat) (reason : String)
  | write (i : Nat) (what : SlotWrite)
  | stopWatch (i : Nat) (now : Int)
  | shutdown
  | shutdownDone
  deriving DecidableEq

namespace World

def write (w : World) (i : Nat) (slot : Slot) : SlotWrite -> World
  | .lastUpdate tm => w.setSlot i { slot with tmLastUpd := tm }
  | .startDelay => w.setSlot i { slot with startedDelayFlag := true }
  | .startTest time =>
    w.setSlot i { slot with startedDelayFlag := false, testStartedTime := time }
  | .reconfig => (w.setSlot i { slot with drTerm := true }).note (.terminated i)

variable (forks : Forks)

def step (w : World) : ExerEvent -> Option World
  | .run stanzas complete =>
    if w.runState = .idle then some (w.runMdt forks stanzas complete) else none
  | .running =>
    if w.runState = .startingMdt then
      some { w with runState := .runningMdt, ecg := { w.ecg with started := true } }
    else none
  | .terminate devices =>
    if w.runState = .runningMdt then some (w.terminate devices) else none
  | .restart devices =>
    if w.runState = .runningMdt then some (w.restart forks devices) else none
  | .hotplug stanzas =>
    if w.runState = .runningMdt then some (stanzas.foldl (hotplugStanza forks) w) else none
  | .exit pid reason => if w.isLive pid then some (w.exit pid reason) else none
  | .write i what =>
    match w.ecg.slots[i]? with
    | none => none
    | some slot =>
      if w.live.any fun p => p.device = slot.sdevId then some (w.write i slot what) else none
  | .stopWatch i now =>
    match w.ecg.slots[i]? with
    | none => none
    | some slot =>
      if w.ecg.started ∧ RunPeriodOver slot now then some (w.stopWatch i slot) else none
  | .shutdown => if w.runState = .runningMdt then some w.unloadExercisers else none
  | .shutdownDone =>
    if w.runState = .shuttingDownMdt ∧ w.ecg.stillRunning = 0 then
      some { w with runState := .idle, ecg := .empty }
    else none

end World

def exerSystem (forks : Forks) : Library.EventSystem World ExerEvent where
  Initial w := w = .initial
  step := World.step forks

end Htx.Htxd
