import Mathlib

/-!
# The HTX daemon

`htxd` keeps a daemon state, which decides the commands it admits, and a list of the
loaded ECGs (exerciser control groups, also called MDTs).
-/

namespace Htx.Htxd

inductive DaemonState where
  | idle
  | creatingMdt
  | selectingMdt
  | selectedMdt
  | startingMdt
  | runningMdt
  | shuttingDownMdt
  deriving DecidableEq

namespace DaemonState

def code : DaemonState -> Nat
  | .idle => 1
  | .creatingMdt => 2
  | .selectingMdt => 4
  | .selectedMdt => 8
  | .startingMdt => 16
  | .runningMdt => 32
  | .shuttingDownMdt => 64

def text : DaemonState -> String
  | .idle => "IDLE"
  | .creatingMdt => "CREATING_MDT"
  | .selectingMdt => "SELECTING_MDT"
  | .selectedMdt => "SELECTED_MDT"
  | .startingMdt => "STARTING_MDT"
  | .runningMdt => "RUNNING_MDT"
  | .shuttingDownMdt => "SHUTTING_DOWN_MDT"

end DaemonState

/-!
# The option list
-/

open DaemonState

def stateIdle : Nat := idle.code

def stateRunning : Nat := runningMdt.code

def stateSelectedRunning : Nat :=
  selectedMdt.code ||| runningMdt.code

def stateIdleSelectedRunning : Nat :=
  idle.code ||| selectedMdt.code ||| runningMdt.code

def stateIdleSelected : Nat :=
  idle.code ||| selectedMdt.code

def stateAll : Nat :=
  idle.code ||| creatingMdt.code |||
    selectingMdt.code ||| selectedMdt.code |||
    startingMdt.code ||| runningMdt.code |||
    shuttingDownMdt.code

inductive OptionMethod where
  | createMdt
  | runMdt
  | selectMdt
  | shutdownMdt
  | listMdt
  /-- The commands for single devices. -/
  | onDevices
  | getstats
  | geterrlog
  | getFile
  | deviceCount
  | testActivateHalt
  | other
  deriving DecidableEq

structure OptionEntry where
  optionString : String
  method : OptionMethod
  runningEcgDisplay : Bool
  commandState : Nat
  deriving DecidableEq

def optionList : List OptionEntry :=
  [⟨"-createmdt", .createMdt, false, stateIdle⟩, ⟨"-listmdt", .listMdt, false, stateAll⟩,
    ⟨"-run", .runMdt, false, stateIdleSelected⟩,
    ⟨"-getactecg", .other, true, stateSelectedRunning⟩,
    ⟨"-shutdown", .shutdownMdt, false, stateSelectedRunning⟩,
    ⟨"-refresh", .other, true, stateIdle⟩,
    ⟨"-activate", .onDevices, true, stateSelectedRunning⟩,
    ⟨"-suspend", .onDevices, true, stateSelectedRunning⟩,
    ⟨"-terminate", .onDevices, true, stateRunning⟩,
    ⟨"-restart", .onDevices, true, stateRunning⟩,
    ⟨"-coe", .onDevices, true, stateSelectedRunning⟩,
    ⟨"-soe", .onDevices, true, stateSelectedRunning⟩,
    ⟨"-status", .onDevices, true, stateSelectedRunning⟩,
    ⟨"-getstats", .getstats, true, stateRunning⟩,
    ⟨"-geterrlog", .geterrlog, true, stateAll⟩,
    ⟨"-clrerrlog", .other, true, stateAll⟩,
    ⟨"-cmd", .other, true, stateAll⟩,
    ⟨"-set_eeh", .other, false, stateIdleSelectedRunning⟩,
    ⟨"-set_kdblevel", .other, false, stateIdleSelectedRunning⟩,
    ⟨"-set_hxecom", .other, false, stateIdleSelectedRunning⟩,
    ⟨"-getvpd", .other, true, stateAll⟩,
    ⟨"-getecgsum", .other, true, stateRunning⟩,
    ⟨"-getecglist", .other, true, stateAll⟩,
    ⟨"-select", .selectMdt, false, stateIdle⟩,
    ⟨"-exersetupinfo", .other, true, stateRunning⟩,
    ⟨"-bootme", .other, true, stateAll⟩,
    ⟨"-query", .onDevices, true, stateSelectedRunning⟩,
    ⟨"-screen_2", .other, false, stateAll⟩,
    ⟨"-screen_4", .other, false, stateAll⟩,
    ⟨"-screen_5", .other, false, stateAll⟩,
    ⟨"-get_file", .getFile, false, stateAll⟩,
    ⟨"-get_daemon_state", .other, false, stateAll⟩,
    ⟨"-coe_soe", .other, false, stateSelectedRunning⟩,
    ⟨"-activate_halt", .other, false, stateSelectedRunning⟩,
    ⟨"-device_count", .deviceCount, false, stateAll⟩,
    ⟨"-test_activate_halt", .testActivateHalt, false, stateAll⟩,
    ⟨"-config_net", .other, false, stateAll⟩,
    ⟨"-append_net_mdt", .other, false, stateAll⟩,
    ⟨"-test_net", .other, false, stateAll⟩,
    ⟨"-set_htx_env", .other, false, stateAll⟩,
    ⟨"-get_htx_env", .other, false, stateAll⟩,
    ⟨"-get_run_time", .other, true, stateRunning⟩,
    ⟨"-get_last_update_time", .other, true, stateRunning⟩,
    ⟨"-get_fail_status", .other, true, stateRunning⟩,
    ⟨"-get_dev_cycles", .other, true, stateRunning⟩]

def OptionEntry.Admitted (entry : OptionEntry) (state : DaemonState) : Prop :=
  state.code &&& entry.commandState ≠ 0

instance (entry : OptionEntry) (state : DaemonState) : Decidable (entry.Admitted state) :=
  inferInstanceAs (Decidable (_ ≠ _))

/-!
# The ECG list
-/

inductive ShmAddr where
  | attached
  | null
  /-- Never assigned; the node comes from `malloc`. -/
  | unset
  deriving DecidableEq

structure EcgInfo where
  ecgName : String
  ecgExerciserEntries : Int
  ecgShmExerciserEntries : Int
  ecgShmAddr : ShmAddr
  deriving DecidableEq

structure EcgManager where
  ecgInfoList : List EcgInfo
  ecgListLength : Int
  currentLoadingEcgInfo : Option EcgInfo
  selectedEcgName : String
  runningEcgName : String
  deriving DecidableEq

/-- How a method ends that leaves the state and the ECG list alone. -/
inductive MethodEnd where
  | returned (code : Int) (text : Option String)
  | exited
  /-- A text longer than its buffer, or a device position outside of the table. -/
  | overrun
  deriving DecidableEq

structure Outcomes where
  /-- `malloc` of the result text. -/
  resultMalloc : Bool
  /-- `stat` of the ECG file. -/
  fileExists : Bool
  /-- `create_ecg_manager` has got its memory and IPC objects. -/
  managerCreated : Bool
  /-- `malloc` of the node. -/
  nodeMalloc : Bool
  semget : Bool
  /-- `shmget` and `shmat`. -/
  shmget : Bool
  /-- What the ECG file says, and how much of it gets a slot. -/
  devices : Int
  shmDevices : Int
  initSyscfg : Int
  /-- The fork for `hxstats`. -/
  statsFork : Bool
  popen : Bool
  pclose : Bool
  stanzaCount : Int
  errno : Int
  /-- `hxstats` has not ended since `-run` has started it. -/
  statsAlive : Bool
  methodEnd : MethodEnd
  displayMalloc : Bool
  deriving DecidableEq

namespace EcgManager

def empty : EcgManager :=
  ⟨[], 0, none, "", ""⟩

def allocateEcgInfo (m : EcgManager) (node : EcgInfo) : EcgManager :=
  { m with ecgInfoList := m.ecgInfoList ++ [node], currentLoadingEcgInfo := some node }

def initEcgInfo (m : EcgManager) (name : String) (o : Outcomes) : EcgManager :=
  if o.semget = false then m.allocateEcgInfo ⟨name, o.devices, 0, .unset⟩
  else if o.shmget = false then m.allocateEcgInfo ⟨name, o.devices, 0, .null⟩
  else
    { m.allocateEcgInfo ⟨name, o.devices, o.shmDevices, .attached⟩ with
      ecgListLength := m.ecgListLength + 1 }

def removeEcgInfoNode (m : EcgManager) (k : Nat) : Option EcgManager :=
  if m.ecgListLength = 1 then
    some { m with ecgInfoList := [], ecgListLength := m.ecgListLength - 1 }
  else if k = 0 ∧ m.ecgInfoList.length ≤ 1 then none
  else
    some { m with
      ecgInfoList := m.ecgInfoList.eraseIdx k
      ecgListLength := m.ecgListLength - 1 }

def findEcg (m : EcgManager) (name : String) : Option Nat :=
  (List.range m.ecgInfoList.length).reverse.find? fun k =>
    (m.ecgInfoList[k]?.map EcgInfo.ecgName) == some name

end EcgManager

/-!
# The daemon and its commands
-/

structure Daemon where
  runState : DaemonState
  manager : Option EcgManager
  isMdtCreated : Bool
  initSyscfgFlag : Bool
  deriving DecidableEq

inductive Reply where
  | returned (st : Daemon) (code : Int) (text : Option String)
  | exited
  | crashed
  deriving DecidableEq

structure Dirs where
  htxHomeDir : String
  htxdLogDir : String
  deriving DecidableEq

namespace Daemon

def runOption : OptionEntry :=
  optionList.get ⟨2, by decide⟩

def shutdownOption : OptionEntry :=
  optionList.get ⟨4, by decide⟩

def initial : Daemon :=
  ⟨.idle, none, false, false⟩

variable (dirs : Dirs) (st : Daemon)

def setState (state : DaemonState) : Daemon :=
  { st with runState := state }

def loaded : List EcgInfo :=
  match st.manager with
  | none => []
  | some m => m.ecgInfoList

def ecgListLength : Int :=
  match st.manager with
  | none => 0
  | some m => m.ecgListLength

def ecgNameOf (name : String) : String :=
  if name = "" then s!"{dirs.htxHomeDir}/mdt/mdt.bu" else name

def createMdt (o : Outcomes) : Reply :=
  let st' := { st.setState .creatingMdt with isMdtCreated := true }
  if o.resultMalloc = false then .returned (st'.setState .creatingMdt) (-1) none
  else if o.popen = false then
    .returned (st'.setState .idle) (-1) (some s!"Error: popen failed with errno <{o.errno}>")
  else if o.pclose = false ∧ o.errno ≠ 10 then
    .returned (st'.setState .idle) (-1) (some s!"Error: pclose failed with errno <{o.errno}>")
  else if 2 < o.stanzaCount then
    .returned (st'.setState .idle) 0 (some "mdts are created successfully.")
  else
    .returned (st'.setState .idle) (-1)
      (some ("Error: mdt creation is failed, please check error at log file <" ++
        s!"{dirs.htxdLogDir}/htxd_bash_profile_output>."))

def activatedText (name : String) (ecg : EcgInfo) : String :=
  if ecg.ecgExerciserEntries = 0 then
    s!"No device is present in ECG <{name}>, could not start any device"
  else if ecg.ecgShmExerciserEntries = 0 then
    s!"No device is started under ECG <{name}>, since all the devices are already " ++
      "loaded under another ECG(s)"
  else if ecg.ecgExerciserEntries ≠ ecg.ecgShmExerciserEntries then
    s!"ECG ({name}) Activated\nWARNING: few devices are unable to start since they " ++
      "may be already loaded under another ECG(s)"
  else s!"ECG ({name}) Activated."

def startMdt (m : EcgManager) (name : String) (o : Outcomes) : Reply :=
  let st' := { st with runState := .startingMdt, manager := some m }
  match m.currentLoadingEcgInfo with
  | none => .crashed
  | some ecg =>
    if st'.initSyscfgFlag = false ∧ o.initSyscfg ≠ 0 then
      .returned st' o.initSyscfg
        (some ("Internal error: failed to initialize syscfg with error code " ++
          s!"<{o.initSyscfg}>"))
    else
      -- `htxd_activate_all_ecg_devices` writes to the header of the shared memory
      if ecg.ecgShmAddr ≠ .attached then .crashed
      else if o.statsFork = false then .exited
      else
        .returned
          { st' with
            runState := .runningMdt
            manager := some { m with runningEcgName := name }
            initSyscfgFlag := true }
          0 (some (activatedText name ecg))

def runMdt (command : String) (o : Outcomes) : Reply :=
  let name := ecgNameOf dirs command
  let st' := { st with isMdtCreated := true }
  if o.resultMalloc = false then .crashed
  else if o.fileExists = false then
    .returned st' 1 (some s!"specified mdt({name}) is invalid")
  else if st.manager = none ∧ o.managerCreated = false then .exited
  else
    let m := st.manager.getD .empty
    let st'' := { st' with manager := some m }
    if st.runState ≠ .selectedMdt then
      if name ∈ m.ecgInfoList.map EcgInfo.ecgName then
        .returned st'' 1 (some s!"specified ECG ({name}) is already running")
      else if o.nodeMalloc = false then .exited
      else startMdt st'' (m.initEcgInfo name o) name o
    else if name ≠ m.selectedEcgName then
      .returned st'' 1
        (some (s!"Failed to run specified ecg/mdt ({name}), another ecg/mdt " ++
          s!"({m.selectedEcgName}) is already selected"))
    else startMdt st'' { m with selectedEcgName := "" } name o

def selectedText (name : String) (ecg : EcgInfo) : String :=
  if ecg.ecgExerciserEntries = 0 then
    s!"No device is present in ECG <{name}>, could not start any device"
  else if ecg.ecgShmExerciserEntries = 0 then
    s!"No device is started under ECG <{name}>, since all the devices are already " ++
      "loaded under another ECG(s)"
  else if ecg.ecgExerciserEntries ≠ ecg.ecgShmExerciserEntries then
    s!"ECG ({name}) is slected\nWARNING: few devices are unable to start since they " ++
      "may be already loaded under another ECG(s)"
  else s!"ECG ({name}) is selected"

def selectRefusal (command current what : String) : String :=
  if command = current then
    s!"Failed to select specified ecg/mdt({command}), same ecg/mdt is {what}"
  else
    s!"Failed to select specified ecg/mdt({command}), another ecg/mdt({current}) is {what}"

def selectMdt (command : String) (o : Outcomes) : Reply :=
  let st' := { st with isMdtCreated := true }
  if o.resultMalloc = false then .crashed
  else if st.runState = .selectedMdt then
    match st.manager with
    | none => .crashed
    | some m =>
      .returned st' 1 (some (selectRefusal command m.selectedEcgName "already selected"))
  else if st.runState = .runningMdt then
    match st.manager with
    | none => .crashed
    | some m =>
      .returned st' 1 (some (selectRefusal command m.runningEcgName "being run"))
  else
    let name := ecgNameOf dirs command
    if o.fileExists = false then
      .returned st' 1 (some s!"specified mdt({name}) is invalid")
    else if st.manager = none ∧ o.managerCreated = false then .exited
    else
      let m := st.manager.getD .empty
      if name ∈ m.ecgInfoList.map EcgInfo.ecgName then
        .returned { st' with manager := some m } 1
          (some s!"specified ECG ({name}) is already running")
      else if o.nodeMalloc = false then .exited
      else
        let m' := m.initEcgInfo name o
        .returned
          { st' with
            runState := .selectedMdt
            manager := some { m' with selectedEcgName := name } }
          0 (m'.currentLoadingEcgInfo.map (selectedText name))

def idleDaemon : Daemon :=
  { st with runState := .idle, manager := none, initSyscfgFlag := false }

def removeMdt (m : EcgManager) (k : Nat) (name : String) : Reply :=
  match m.removeEcgInfoNode k, m.ecgInfoList[k]? with
  | some m', some ecg =>
    -- `htxd_unload_exercisers` writes to the header of the shared memory
    if ecg.ecgShmAddr ≠ .attached then .crashed
    else
      let st' := { st with runState := .shuttingDownMdt, manager := some m' }
      .returned (if m'.ecgListLength = 0 then st'.idleDaemon else st') 0
        (some s!"ECG ({name}) shutdown successfully")
  | _, _ => .crashed

def shutdownMdt (command : String) (o : Outcomes) : Reply :=
  if o.resultMalloc = false then .crashed
  else if st.runState ≠ .runningMdt ∧ st.runState ≠ .selectedMdt then
    .returned st 1 (some "No ECG/MDT is currently running")
  else
    match st.manager with
    | none => if command ≠ "" ∧ o.fileExists = false then
        .returned st 1 (some s!"specified mdt<{command}> is invalid") else .crashed
    | some m =>
      if command ≠ "" ∧ o.fileExists = false then
        .returned st 1 (some s!"specified mdt<{command}> is invalid")
      else if command = "" ∧ st.runState ≠ .selectedMdt ∧ m.ecgInfoList = [] then .crashed
      else
        let name :=
          if command ≠ "" then command
          else if st.runState = .selectedMdt then m.selectedEcgName
          else (m.ecgInfoList.head?.map EcgInfo.ecgName).getD ""
        match m.findEcg name with
        | none => .returned st 1 (some s!"specified mdt({name}) is already inactive")
        | some k => removeMdt st m k name

/-- `htx_stats_pid` is not 0. -/
def statsRunning (o : Outcomes) : Bool :=
  st.runState = .runningMdt && o.statsAlive

def validateCommandRequirements : Int :=
  if st.runState ≠ .runningMdt ∧ st.runState ≠ .selectedMdt then -1
  else
    match st.manager with
    | none => -2
    | some m => if m.ecgInfoList = [] then -3 else 0

/-- A `malloc` whose result is written to at once. -/
def uncheckedText (o : Outcomes) (code : Int) (text : String) : Reply :=
  if o.resultMalloc = false then .crashed else .returned st code (some text)

def endMethod (o : Outcomes) : Reply :=
  match o.methodEnd with
  | .returned code text => .returned st code text
  | .exited => .exited
  | .overrun => .crashed

/-- An error text goes to memory from an unchecked `malloc`. -/
def endUnchecked (o : Outcomes) : Reply :=
  match o.methodEnd with
  | .returned _ none => .crashed
  | _ => st.endMethod o

def listMdt (o : Outcomes) : Reply :=
  if o.popen = false then .crashed else st.endMethod o

def onDevices (o : Outcomes) : Reply :=
  if st.validateCommandRequirements ≠ 0 then
    st.uncheckedText o st.validateCommandRequirements "No ECG/MDT is currently running"
  else st.endMethod o

def getstats (command : String) (o : Outcomes) : Reply :=
  let name := ecgNameOf dirs command
  if st.validateCommandRequirements ≠ 0 then
    st.uncheckedText o st.validateCommandRequirements "No ECG/MDT is currently running"
  else if st.runState ≠ .runningMdt then
    st.uncheckedText o (-1) "No ECG/MDT is currently running"
  else if name ∉ st.loaded.map EcgInfo.ecgName then
    st.uncheckedText o (-1) s!"Specified ECG/MDT<{name}> is not currently running"
  else if st.statsRunning o = false then .crashed
  else st.endUnchecked o

def getFile (option : String) (o : Outcomes) : Reply :=
  -- `SIGUSR1` to process 0 ends the daemon itself
  if option = "stats_file_string" ∧ st.statsRunning o = false then .crashed
  else if option = "running_mdt_string" ∧ st.loaded = [] then .crashed
  else st.endMethod o

def deviceCount (o : Outcomes) : Reply :=
  if o.resultMalloc = false then .returned st (-1) none
  else if st.manager = none then .crashed
  else st.endMethod o

def testActivateHalt (o : Outcomes) : Reply :=
  if o.resultMalloc = false then .returned st (-1) none
  else if st.loaded = [] then .crashed
  else st.endMethod o

structure Command where
  index : Fin optionList.length
  ecgName : String
  options : String
  deriving DecidableEq

def Command.entry (c : Command) : OptionEntry :=
  optionList.get c.index

end Daemon

end Htx.Htxd
