import Htx.Library.EventSystem
import Htx.Htxd.Daemon

/-!
# Commands side by side

The daemon starts a thread for every client and nothing serialises them.
-/

namespace Htx.Htxd

open Library

structure EcgNode where
  address : Nat
  ecgName : String
  deriving DecidableEq

structure SharedManager where
  ecgInfoList : List EcgNode
  ecgListLength : Int
  currentLoadingEcgInfo : Option Nat
  selectedEcgName : String
  deriving DecidableEq

namespace SharedManager

def empty : SharedManager :=
  ⟨[], 0, none, ""⟩

def allocateEcgInfo (m : SharedManager) (node : EcgNode) : SharedManager :=
  { m with
    ecgInfoList := m.ecgInfoList ++ [node]
    currentLoadingEcgInfo := some node.address }

def removeEcgInfoNode (m : SharedManager) (address : Nat) : Option SharedManager :=
  if m.ecgListLength = 1 then
    some { m with ecgInfoList := [], ecgListLength := m.ecgListLength - 1 }
  else
    match m.ecgInfoList.findIdx? fun node => node.address = address with
    | none => none
    | some k =>
      if k = 0 ∧ m.ecgInfoList.length ≤ 1 then none
      else
        some { m with
          ecgInfoList := m.ecgInfoList.eraseIdx k
          ecgListLength := m.ecgListLength - 1 }

def shutdownName (m : SharedManager) (selected : Bool) (command : String) : Option String :=
  if command ≠ "" then some command
  else if selected then some m.selectedEcgName
  else m.ecgInfoList.head?.map EcgNode.ecgName

def findEcg (m : SharedManager) (name : String) : Option EcgNode :=
  m.ecgInfoList.reverse.find? fun node => node.ecgName = name

theorem length_removeEcgInfoNode {m m' : SharedManager} {address : Nat}
    (h : m.removeEcgInfoNode address = some m') :
    m'.ecgInfoList.length ≤ m.ecgInfoList.length := by
  unfold removeEcgInfoNode at h
  split at h
  · cases h
    exact Nat.zero_le _
  · split at h
    · cases h
    · split at h
      · cases h
      · cases h
        exact List.length_eraseIdx_le _ _

end SharedManager

structure Shared where
  runState : DaemonState
  global : Option Nat
  managers : Nat -> SharedManager
  initSyscfgFlag : Bool
  /-- The next address `malloc` gives. -/
  fresh : Nat

namespace Shared

def initial : Shared :=
  ⟨.idle, none, fun _ => .empty, false, 0⟩

section

variable (sh : Shared)

def setState (state : DaemonState) : Shared :=
  { sh with runState := state }

def setManager (g : Nat) (m : SharedManager) : Shared :=
  { sh with managers := fun k => if k = g then m else sh.managers k }

def createManager : Shared :=
  { sh.setManager sh.fresh .empty with global := some sh.fresh, fresh := sh.fresh + 1 }

def appendNode (g : Nat) (name : String) : Shared :=
  { sh.setManager g ((sh.managers g).allocateEcgInfo ⟨sh.fresh, name⟩) with
    fresh := sh.fresh + 1 }

def countNode (g : Nat) (ok : Bool) : Shared :=
  if ok then
    sh.setManager g
      { sh.managers g with ecgListLength := (sh.managers g).ecgListLength + 1 }
  else sh

def setSelectedName (g : Nat) (name : String) : Shared :=
  sh.setManager g { sh.managers g with selectedEcgName := name }

def loaded : List EcgNode :=
  match sh.global with
  | none => []
  | some g => (sh.managers g).ecgInfoList

end

end Shared

/-!
# The steps of a command
-/

inductive RunPoint where
  | getManager
  | checkFile
  | createManager
  | publishManager
  | checkLoaded
  | append
  | count
  | setStarting
  | initSyscfg
  | activate
  | setRunning
  deriving DecidableEq

inductive SelectPoint where
  | getManager
  | checkState
  | checkFile
  | createManager
  | publishManager
  | checkLoaded
  | setSelecting
  | append
  | count
  | setName
  | setSelected
  deriving DecidableEq

inductive ShutdownPoint where
  | checkState
  | findNode
  | setShuttingDown (address : Nat)
  | remove (address : Nat)
  | unload
  | countRunning
  | deleteManager
  | setIdle
  /-- The IPC objects, the node and the bootme entries. -/
  | cleanUp
  deriving DecidableEq

inductive CreatePoint where
  | setCreating
  | setIdle
  deriving DecidableEq

inductive RestartPoint where
  | validate
  | countDevices
  | findNode
  | load
  | result
  deriving DecidableEq

inductive Point where
  | run (name : String) (manager : Option Nat) (point : RunPoint)
  | select (name : String) (manager : Option Nat) (point : SelectPoint)
  | shutdown (command : String) (point : ShutdownPoint)
  | create (point : CreatePoint)
  | restart (command : String) (point : RestartPoint)
  deriving DecidableEq

abbrev Advance :=
  Option (Shared × Option Point)

namespace Shared

variable (sh : Shared)

def finished : Advance :=
  some (sh, none)

def goOn (point : Point) : Advance :=
  some (sh, some point)

def advanceRun (name : String) (manager : Option Nat) (ok : Bool) : RunPoint -> Advance
  | .getManager => sh.goOn (.run name sh.global .checkFile)
  | .checkFile =>
    if ok then sh.goOn (.run name manager .createManager) else sh.finished
  | .createManager =>
    if manager ≠ none then sh.goOn (.run name manager .checkLoaded)
    else if ok then sh.createManager.goOn (.run name (some sh.fresh) .publishManager)
    else none
  | .publishManager => { sh with global := manager }.goOn (.run name manager .checkLoaded)
  | .checkLoaded =>
    if sh.runState ≠ .selectedMdt then
      if sh.global = none then none
      else if name ∈ sh.loaded.map EcgNode.ecgName then sh.finished
      else sh.goOn (.run name manager .append)
    else
      match manager with
      | none => none
      | some g =>
        if name ≠ (sh.managers g).selectedEcgName then sh.finished
        else (sh.setSelectedName g "").goOn (.run name manager .setStarting)
  | .append =>
    match manager with
    | none => none
    | some g => (sh.appendNode g name).goOn (.run name manager .count)
  | .count =>
    match manager with
    | none => none
    | some g => (sh.countNode g ok).goOn (.run name manager .setStarting)
  | .setStarting => (sh.setState .startingMdt).goOn (.run name manager .initSyscfg)
  | .initSyscfg =>
    match manager with
    | none => none
    | some g =>
      -- the start time is written to the node first
      if (sh.managers g).currentLoadingEcgInfo = none then none
      else if sh.initSyscfgFlag then sh.goOn (.run name manager .activate)
      else if ok then
        { sh with initSyscfgFlag := true }.goOn (.run name manager .activate)
      else sh.finished
  | .activate => if ok then sh.goOn (.run name manager .setRunning) else none
  | .setRunning => (sh.setState .runningMdt).finished

def advanceSelect (name : String) (manager : Option Nat) (ok : Bool) : SelectPoint -> Advance
  | .getManager => sh.goOn (.select name sh.global .checkState)
  | .checkState =>
    if sh.runState = .selectedMdt ∨ sh.runState = .runningMdt then
      if manager = none then none else sh.finished
    else sh.goOn (.select name manager .checkFile)
  | .checkFile =>
    if ok then sh.goOn (.select name manager .createManager) else sh.finished
  | .createManager =>
    if manager ≠ none then sh.goOn (.select name manager .checkLoaded)
    else if ok then sh.createManager.goOn (.select name (some sh.fresh) .publishManager)
    else none
  | .publishManager =>
    { sh with global := manager }.goOn (.select name manager .checkLoaded)
  | .checkLoaded =>
    if sh.global = none then none
    else if name ∈ sh.loaded.map EcgNode.ecgName then sh.finished
    else sh.goOn (.select name manager .setSelecting)
  | .setSelecting => (sh.setState .selectingMdt).goOn (.select name manager .append)
  | .append =>
    match manager with
    | none => none
    | some g => (sh.appendNode g name).goOn (.select name manager .count)
  | .count =>
    match manager with
    | none => none
    | some g => (sh.countNode g ok).goOn (.select name manager .setName)
  | .setName =>
    match manager with
    | none => none
    | some g => (sh.setSelectedName g name).goOn (.select name manager .setSelected)
  | .setSelected => (sh.setState .selectedMdt).finished

def advanceShutdown (command : String) (ok : Bool) : ShutdownPoint -> Advance
  | .checkState =>
    if sh.runState ≠ .runningMdt ∧ sh.runState ≠ .selectedMdt then sh.finished
    else if command ≠ "" ∧ ok = false then sh.finished
    else sh.goOn (.shutdown command .findNode)
  | .findNode =>
    match sh.global with
    | none => none
    | some g =>
      match (sh.managers g).shutdownName (sh.runState = .selectedMdt) command with
      | none => none
      | some name =>
        match (sh.managers g).findEcg name with
        | none => sh.finished
        | some node => sh.goOn (.shutdown command (.setShuttingDown node.address))
  | .setShuttingDown address =>
    (sh.setState .shuttingDownMdt).goOn (.shutdown command (.remove address))
  | .remove address =>
    match sh.global with
    | none => none
    | some g =>
      match (sh.managers g).removeEcgInfoNode address with
      | none => none
      | some m => (sh.setManager g m).goOn (.shutdown command .unload)
  | .unload =>
    if ok ∧ sh.global ≠ none then sh.goOn (.shutdown command .countRunning) else none
  | .countRunning =>
    match sh.global with
    | none => none
    | some g =>
      if (sh.managers g).ecgListLength = 0 then
        sh.goOn (.shutdown command .deleteManager)
      else sh.goOn (.shutdown command .cleanUp)
  | .deleteManager =>
    { sh with global := none, initSyscfgFlag := false }.goOn (.shutdown command .setIdle)
  | .setIdle => (sh.setState .idle).goOn (.shutdown command .cleanUp)
  | .cleanUp => sh.finished

def advanceCreate (ok : Bool) : CreatePoint -> Advance
  | .setCreating =>
    if ok then (sh.setState .creatingMdt).goOn (.create .setIdle)
    else (sh.setState .creatingMdt).finished
  | .setIdle => (sh.setState .idle).finished

/-- Nothing that other commands read is changed; without an ECG name all loaded ECGs are
gone through. -/
def advanceRestart (command : String) (ok : Bool) : RestartPoint -> Advance
  | .validate =>
    if (sh.runState ≠ .runningMdt ∧ sh.runState ≠ .selectedMdt) ∨ sh.loaded = [] then
      if ok then sh.finished else none
    else sh.goOn (.restart command .countDevices)
  | .countDevices =>
    if sh.global = none then none
    else if ok then sh.goOn (.restart command .findNode)
    else sh.finished
  | .findNode =>
    if sh.global = none then none
    else if command ≠ "" ∧ command ∉ sh.loaded.map EcgNode.ecgName then sh.finished
    else sh.goOn (.restart command .load)
  | .load =>
    if command = "" ∧ sh.global = none then none else sh.goOn (.restart command .result)
  | .result => if command = "" ∧ sh.global = none then none else sh.finished

def advance (ok : Bool) : Point -> Advance
  | .run name manager point => sh.advanceRun name manager ok point
  | .select name manager point => sh.advanceSelect name manager ok point
  | .shutdown command point => sh.advanceShutdown command ok point
  | .create point => sh.advanceCreate ok point
  | .restart command point => sh.advanceRestart command ok point

end Shared

/-!
# The system of all command threads
-/

inductive Request where
  | run (command : String)
  | select (command : String)
  | shutdown (command : String)
  | create
  | restart (command : String)
  deriving DecidableEq

namespace Request

def entry : Request -> OptionEntry
  | .create => optionList.get ⟨0, by decide⟩
  | .run _ => Daemon.runOption
  | .shutdown _ => Daemon.shutdownOption
  | .select _ => optionList.get ⟨23, by decide⟩
  | .restart _ => optionList.get ⟨9, by decide⟩

def entryPoint (dirs : Dirs) : Request -> Point
  | .run command => .run (Daemon.ecgNameOf dirs command) none .getManager
  | .select command => .select (Daemon.ecgNameOf dirs command) none .getManager
  | .shutdown command => .shutdown command .checkState
  | .create => .create .setCreating
  | .restart command => .restart command .validate

end Request

structure CommandState where
  shared : Shared
  threads : Nat -> Option Point

namespace CommandState

def initial : CommandState :=
  ⟨.initial, fun _ => none⟩

def setThread (s : CommandState) (t : Nat) (point : Option Point) : CommandState :=
  { s with threads := fun u => if u = t then point else s.threads u }

end CommandState

inductive CommandEvent where
  | enter (t : Nat) (request : Request)
  | advance (t : Nat) (ok : Bool)
  deriving DecidableEq

def commandStep (dirs : Dirs) (s : CommandState) : CommandEvent -> Option CommandState
  | .enter t request =>
    if s.threads t = none ∧ request.entry.Admitted s.shared.runState then
      some (s.setThread t (some (request.entryPoint dirs)))
    else none
  | .advance t ok =>
    match s.threads t with
    | none => none
    | some point =>
      match s.shared.advance ok point with
      | none => none
      | some (sh, next) => some ({ s with shared := sh }.setThread t next)

def commandSystem (dirs : Dirs) : EventSystem CommandState CommandEvent where
  Initial s := s = .initial
  step := commandStep dirs

namespace Point

def Loading : Point -> Prop
  | .create _ | .restart _ _ => False
  | _ => True

def Starting : Point -> Prop
  | .run _ _ point => point = .activate
  | .restart _ point => point = .load
  | _ => False

def Restarts : Point -> Prop
  | .restart _ _ => True
  | _ => False

def Unannounced : Point -> Prop
  | .run _ _ .initSyscfg => False
  | .run _ _ .activate => False
  | .run _ _ .setRunning => False
  | .run _ _ _ => True
  | .select _ _ .append => False
  | .select _ _ .count => False
  | .select _ _ .setName => False
  | .select _ _ .setSelected => False
  | .select _ _ _ => True
  | .shutdown _ .checkState => True
  | .shutdown _ .findNode => True
  | .shutdown _ (.setShuttingDown _) => True
  | .shutdown _ .cleanUp => True
  | .shutdown _ _ => False
  | .create .setCreating => True
  | .create .setIdle => False
  | .restart _ .result => False
  | .restart _ _ => True

end Point

def Request.Restarts : Request -> Prop
  | .restart _ => True
  | _ => False

/-- No command is admitted while another one is under way unseen; two `-restart` may be. -/
def AdmitsSeen (s : CommandState) : CommandEvent -> Prop
  | .enter _ request => forall t point, s.threads t = some point -> point.Unannounced ->
      request.Restarts ∧ point.Restarts
  | .advance _ _ => True

def Undisturbed (s : CommandState) : Prop :=
  forall t u p q, t ≠ u -> s.threads t = some p -> s.threads u = some q -> p.Starting -> ¬ q.Loading

/-!
# What holds at each step of a command that is alone
-/

namespace Shared

variable {sh sh' : Shared} {g : Nat}

theorem loaded_setManager {m : SharedManager} (hg : sh.global = some g) :
    (sh.setManager g m).loaded = m.ecgInfoList := by
  simp [loaded, setManager, hg]

theorem loaded_of_list {m : SharedManager} (hm : m.ecgInfoList = (sh.managers g).ecgInfoList) :
    (sh.setManager g m).loaded = sh.loaded := by
  cases hglobal : sh.global with
  | none => simp [loaded, setManager, hglobal]
  | some k =>
    by_cases hk : k = g
    · rw [loaded_setManager (hk ▸ hglobal), hm]
      simp [loaded, hglobal, hk]
    · simp [loaded, setManager, hglobal, hk]

theorem loaded_createManager : sh.createManager.loaded = [] := by
  simp [loaded, createManager, setManager, SharedManager.empty]

theorem loaded_appendNode {name : String} (hg : sh.global = some g) :
    (sh.appendNode g name).loaded = sh.loaded ++ [⟨sh.fresh, name⟩] := by
  simp [loaded, appendNode, setManager, SharedManager.allocateEcgInfo, hg]

theorem loaded_countNode {ok : Bool} : (sh.countNode g ok).loaded = sh.loaded := by
  unfold countNode
  split
  · exact loaded_of_list rfl
  · rfl

theorem runState_countNode {ok : Bool} : (sh.countNode g ok).runState = sh.runState := by
  unfold countNode
  split <;> rfl

structure Rest (sh : Shared) : Prop where
  single : sh.loaded.length ≤ 1
  idle : sh.runState = .idle -> sh.loaded = []

theorem Rest.of_busy (h : sh.loaded.length ≤ 1) (hstate : sh.runState ≠ .idle) : sh.Rest :=
  ⟨h, fun hidle => absurd hidle hstate⟩

theorem Rest.of_empty (h : sh.loaded = []) : sh.Rest :=
  ⟨by simp [h], fun _ => h⟩

def RunPhase (sh : Shared) (manager : Option Nat) : RunPoint -> Prop
  | .getManager => sh.Rest ∧ (sh.runState = .idle ∨ sh.runState = .selectedMdt)
  | .append => sh.loaded = [] ∧ manager = sh.global
  | .count | .setStarting => sh.loaded.length ≤ 1
  | .initSyscfg | .activate | .setRunning =>
    sh.loaded.length ≤ 1 ∧ sh.runState = .startingMdt
  | _ =>
    (sh.Rest ∧ (sh.runState = .idle ∨ sh.runState = .selectedMdt)) ∧ manager = sh.global

def SelectPhase (sh : Shared) (manager : Option Nat) : SelectPoint -> Prop
  | .getManager => sh.loaded = []
  | .append => (sh.loaded = [] ∧ manager = sh.global) ∧ sh.runState = .selectingMdt
  | .count | .setName | .setSelected =>
    sh.loaded.length ≤ 1 ∧ sh.runState = .selectingMdt
  | _ => sh.loaded = [] ∧ manager = sh.global

def ShutdownPhase (sh : Shared) : ShutdownPoint -> Prop
  | .checkState | .findNode | .cleanUp => sh.Rest
  | .setShuttingDown _ => sh.loaded.length ≤ 1
  | .setIdle => sh.loaded = [] ∧ sh.runState = .shuttingDownMdt
  | _ => sh.loaded.length ≤ 1 ∧ sh.runState = .shuttingDownMdt

def CreatePhase (sh : Shared) : CreatePoint -> Prop
  | .setCreating => sh.loaded = []
  | .setIdle => sh.loaded = [] ∧ sh.runState = .creatingMdt

/-- What holds at a point of a command other than `-restart`. -/
def Phase (sh : Shared) : Point -> Prop
  | .run _ manager point => sh.RunPhase manager point
  | .select _ manager point => sh.SelectPhase manager point
  | .shutdown _ point => sh.ShutdownPhase point
  | .create point => sh.CreatePhase point
  | .restart _ _ => False

def After (sh : Shared) : Option Point -> Prop
  | none => sh.Rest
  | some point => sh.Phase point

end Shared

def Advance.Ensures (a : Advance) : Prop :=
  forall sh next, a = some (sh, next) -> sh.After next

variable {point : Point}

namespace Shared

variable {sh : Shared} {name : String} {manager : Option Nat} {ok : Bool}

theorem ensures_none : Advance.Ensures none := by
  intro sh next h
  cases h

theorem ensures_finished (h : sh.Rest) : sh.finished.Ensures := by
  rintro _ _ ⟨⟩
  exact h

theorem ensures_goOn (h : sh.Phase point) : (sh.goOn point).Ensures := by
  rintro _ _ ⟨⟩
  exact h

theorem single_appendNode {g : Nat} (hempty : sh.loaded = []) (hg : some g = sh.global) :
    (sh.appendNode g name).loaded.length ≤ 1 := by
  rw [loaded_appendNode hg.symm, hempty]
  exact le_refl 1

open Rest

theorem advanceRun_ensures {point : RunPoint} (h : sh.RunPhase manager point) :
    (sh.advanceRun name manager ok point).Ensures := by
  cases point with
  | getManager => exact ensures_goOn ⟨h, rfl⟩
  | checkFile =>
    rw [advanceRun]
    split
    · exact ensures_goOn h
    · exact ensures_finished h.1.1
  | createManager =>
    rw [advanceRun]
    split
    · exact ensures_goOn h
    · split
      · exact ensures_goOn ⟨⟨of_empty loaded_createManager, h.1.2⟩, rfl⟩
      · exact ensures_none
  | publishManager =>
    have hsame : { sh with global := manager } = sh := by
      rw [h.2]
    rw [advanceRun]
    rw [hsame]
    exact ensures_goOn h
  | checkLoaded =>
    rcases h with ⟨⟨hrest, hstate⟩, hmanager⟩
    by_cases hselected : sh.runState = .selectedMdt
    · cases manager with
      | none =>
        rw [advanceRun, if_neg (not_not.mpr hselected)]
        exact ensures_none
      | some g =>
        rw [advanceRun, if_neg (not_not.mpr hselected)]
        split
        · exact ensures_finished hrest
        · refine ensures_goOn ?_
          change (sh.setManager _ _).loaded.length ≤ 1
          rw [loaded_of_list (by rfl)]
          exact hrest.single
    · rw [advanceRun.eq_def]
      dsimp only
      rw [if_pos hselected]
      -- admitted when idle: nothing is loaded
      have hidle := hstate.resolve_right hselected
      split
      · exact ensures_none
      · split
        · exact ensures_finished hrest
        · exact ensures_goOn ⟨hrest.idle hidle, hmanager⟩
  | append =>
    cases manager with
    | none => exact ensures_none
    | some g => exact ensures_goOn (single_appendNode h.1 h.2)
  | count =>
    cases manager with
    | none => exact ensures_none
    | some g =>
      refine ensures_goOn ?_
      change (sh.countNode _ _).loaded.length ≤ 1
      rw [loaded_countNode]
      exact h
  | setStarting => exact ensures_goOn ⟨h, rfl⟩
  | initSyscfg =>
    cases manager with
    | none => exact ensures_none
    | some g =>
      rw [advanceRun]
      split
      · exact ensures_none
      · split
        · exact ensures_goOn h
        · split
          · exact ensures_goOn h
          · exact ensures_finished (of_busy h.1 (by rw [h.2]; decide))
  | activate =>
    rw [advanceRun]
    split
    · exact ensures_goOn h
    · exact ensures_none
  | setRunning => exact ensures_finished (of_busy h.1 (nomatch ·))

theorem advanceSelect_ensures {point : SelectPoint} (h : sh.SelectPhase manager point) :
    (sh.advanceSelect name manager ok point).Ensures := by
  cases point with
  | getManager => exact ensures_goOn ⟨h, rfl⟩
  | checkState =>
    rw [advanceSelect]
    split
    · split
      · exact ensures_none
      · exact ensures_finished (of_empty h.1)
    · exact ensures_goOn h
  | checkFile =>
    rw [advanceSelect]
    split
    · exact ensures_goOn h
    · exact ensures_finished (of_empty h.1)
  | createManager =>
    rw [advanceSelect]
    split
    · exact ensures_goOn h
    · split
      · exact ensures_goOn ⟨loaded_createManager, rfl⟩
      · exact ensures_none
  | publishManager =>
    have hsame : { sh with global := manager } = sh := by
      rw [h.2]
    rw [advanceSelect]
    rw [hsame]
    exact ensures_goOn h
  | checkLoaded =>
    rw [advanceSelect]
    split
    · exact ensures_none
    · split
      · exact ensures_finished (of_empty h.1)
      · exact ensures_goOn h
  | setSelecting => exact ensures_goOn ⟨h, rfl⟩
  | append =>
    cases manager with
    | none => exact ensures_none
    | some g => exact ensures_goOn ⟨single_appendNode h.1.1 h.1.2, h.2⟩
  | count =>
    cases manager with
    | none => exact ensures_none
    | some g =>
      refine ensures_goOn ?_
      change (sh.countNode _ _).loaded.length ≤ 1 ∧ _
      rw [loaded_countNode, runState_countNode]
      exact h
  | setName =>
    cases manager with
    | none => exact ensures_none
    | some g =>
      refine ensures_goOn ?_
      change (sh.setManager _ _).loaded.length ≤ 1 ∧ _
      rw [loaded_of_list (by rfl)]
      exact h
  | setSelected => exact ensures_finished (of_busy h.1 (nomatch ·))

theorem advanceShutdown_ensures {point : ShutdownPoint} (h : sh.ShutdownPhase point) :
    (sh.advanceShutdown name ok point).Ensures := by
  cases point with
  | checkState =>
    rw [advanceShutdown]
    split
    · exact ensures_finished h
    · split
      · exact ensures_finished h
      · exact ensures_goOn h
  | findNode =>
    rw [advanceShutdown]
    split
    · exact ensures_none
    · split
      · exact ensures_none
      · split
        · exact ensures_finished h
        · exact ensures_goOn h.single
  | setShuttingDown address => exact ensures_goOn ⟨h, rfl⟩
  | remove address =>
    rw [advanceShutdown]
    split
    · exact ensures_none
    · rename_i g hg
      split
      · exact ensures_none
      · rename_i m hm
        refine ensures_goOn ⟨?_, h.2⟩
        have hshorter := SharedManager.length_removeEcgInfoNode hm
        have hsingle := h.1
        rw [loaded_setManager hg]
        simp only [loaded, hg] at hsingle
        omega
  | unload =>
    rw [advanceShutdown]
    split
    · exact ensures_goOn h
    · exact ensures_none
  | countRunning =>
    rw [advanceShutdown]
    split
    · exact ensures_none
    · split
      · exact ensures_goOn h
      · exact ensures_goOn (of_busy h.1 (by rw [h.2]; decide))
  | deleteManager => exact ensures_goOn ⟨rfl, h.2⟩
  | setIdle => exact ensures_goOn (of_empty h.1)
  | cleanUp => exact ensures_finished h

theorem advanceCreate_ensures {point : CreatePoint} (h : sh.CreatePhase point) :
    (sh.advanceCreate ok point).Ensures := by
  cases point with
  | setCreating =>
    rw [advanceCreate]
    split
    · exact ensures_goOn ⟨h, rfl⟩
    · exact ensures_finished (of_empty h)
  | setIdle => exact ensures_finished (of_empty h.1)

theorem advanceRestart_eq {point : RestartPoint} {sh' : Shared} {next : Option Point}
    (h : sh.advanceRestart name ok point = some (sh', next)) :
    sh' = sh ∧ (next = none ∨ exists point', next = some (.restart name point')) ∧
      (point = .result -> next = none) := by
  cases point <;> simp only [advanceRestart] at h <;> split_ifs at h <;> cases h <;> simp

theorem advance_ensures (h : sh.Phase point) : (sh.advance ok point).Ensures := by
  cases point with
  | run name manager point => exact advanceRun_ensures h
  | select name manager point => exact advanceSelect_ensures h
  | shutdown command point => exact advanceShutdown_ensures h
  | create point => exact advanceCreate_ensures h
  | restart command point => exact h.elim

theorem Phase.not_restarts (h : sh.Phase point) : ¬ point.Restarts := by
  cases point with
  | restart command point => exact h.elim
  | _ => exact id

theorem Phase.single (h : sh.Phase point) : sh.loaded.length ≤ 1 := by
  have hempty : sh.loaded = [] -> sh.loaded.length ≤ 1 := fun h => by simp [h]
  cases point with
  | run name manager point =>
    cases point with
    | getManager => exact h.1.single
    | append => exact hempty h.1
    | count | setStarting => exact h
    | initSyscfg | activate | setRunning => exact h.1
    | _ => exact h.1.1.single
  | select name manager point =>
    cases point with
    | getManager => exact hempty h
    | append => exact hempty h.1.1
    | count | setName | setSelected => exact h.1
    | _ => exact hempty h.1
  | shutdown command point =>
    cases point with
    | checkState | findNode | cleanUp => exact single h
    | setShuttingDown address => exact h
    | setIdle => exact hempty h.1
    | _ => exact h.1
  | create point =>
    cases point with
    | setCreating => exact hempty h
    | setIdle => exact hempty h.1
  | restart command point => exact h.elim

end Shared

namespace Request

def states : Request -> List DaemonState
  | .run _ => [.idle, .selectedMdt]
  | .select _ => [.idle]
  | .shutdown _ => [.selectedMdt, .runningMdt]
  | .create => [.idle]
  | .restart _ => [.runningMdt]

theorem admitted_iff (request : Request) (state : DaemonState) :
    request.entry.Admitted state <-> state ∈ request.states := by
  cases request <;> cases state <;> simp only [entry, states] <;> decide

theorem not_admitted {sh : Shared} (h : sh.Phase point)
    (hseen : ¬ point.Unannounced) (request : Request) :
    ¬ request.entry.Admitted sh.runState := by
  have hbusy : sh.runState = .startingMdt ∨ sh.runState = .selectingMdt ∨
      sh.runState = .shuttingDownMdt ∨ sh.runState = .creatingMdt := by
    cases point with
    | run name manager point =>
      cases point with
      | initSyscfg | activate | setRunning => exact .inl h.2
      | _ => exact absurd trivial hseen
    | select name manager point =>
      cases point with
      | append | count | setName | setSelected => exact .inr (.inl h.2)
      | _ => exact absurd trivial hseen
    | shutdown command point =>
      cases point with
      | checkState | findNode | setShuttingDown | cleanUp => exact absurd trivial hseen
      | _ => exact .inr (.inr (.inl h.2))
    | create point =>
      cases point with
      | setCreating => exact absurd trivial hseen
      | setIdle => exact .inr (.inr (.inr h.2))
    | restart command point => exact h.elim
  rw [admitted_iff]
  rcases hbusy with hstate | hstate | hstate | hstate <;> rw [hstate] <;>
    cases request <;> simp [states]

theorem entryPoint_phase {sh : Shared} {dirs : Dirs} {request : Request} (h : sh.Rest)
    (hmain : ¬ request.Restarts) (hadmitted : request.entry.Admitted sh.runState) :
    sh.Phase (request.entryPoint dirs) := by
  rw [admitted_iff] at hadmitted
  cases request with
  | run command => exact ⟨h, by simpa [states] using hadmitted⟩
  | select command => exact h.idle (by simpa [states] using hadmitted)
  | shutdown command => exact h
  | create => exact h.idle (by simpa [states] using hadmitted)
  | restart command => exact absurd trivial hmain

end Request

/-!
# Every run
-/

namespace CommandState

/-- At most one command other than `-restart` is under way, and none before a `-restart`
has started its exercisers. -/
structure Alone (s : CommandState) : Prop where
  unique : forall t u p q, s.threads t = some p -> s.threads u = some q ->
    ¬ p.Restarts -> ¬ q.Restarts -> t = u
  phase : forall t p, s.threads t = some p -> ¬ p.Restarts -> s.shared.Phase p
  rest : (forall t p, s.threads t = some p -> p.Restarts) -> s.shared.Rest
  restarting : forall t p, s.threads t = some p -> p.Restarts -> p.Unannounced ->
    forall u q, s.threads u = some q -> q.Restarts

variable {s s' : CommandState} {dirs : Dirs}

theorem alone_initial : initial.Alone where
  unique _ _ _ _ h := nomatch h
  phase _ _ h := nomatch h
  rest _ := .of_empty rfl
  restarting _ _ h := nomatch h

theorem threads_setThread {t u : Nat} {next : Option Point} {p : Point}
    (h : (s.setThread t next).threads u = some p) :
    u = t ∧ next = some p ∨ u ≠ t ∧ s.threads u = some p := by
  by_cases hut : u = t
  · exact .inl ⟨hut, by simpa [setThread, hut] using h⟩
  · exact .inr ⟨hut, by simpa [setThread, hut] using h⟩

/-- A command other than `-restart` goes on, or begins, with no other one under way. -/
theorem alone_setMain {t : Nat} {sh : Shared} {next : Option Point}
    (hothers : forall u p, u ≠ t -> s.threads u = some p -> p.Restarts ∧ ¬ p.Unannounced)
    (h : sh.After next) : ({ s with shared := sh }.setThread t next).Alone := by
  have hmain : forall p, next = some p -> ¬ p.Restarts := by
    rintro p rfl
    exact Shared.Phase.not_restarts h
  have hself : forall u p, ({ s with shared := sh }.setThread t next).threads u = some p ->
      ¬ p.Restarts -> u = t ∧ next = some p := by
    intro u p hu hp
    rcases threads_setThread hu with hu | ⟨hne, hu⟩
    · exact hu
    · exact absurd (hothers u p hne hu).1 hp
  constructor
  · intro u v p q hu hv hp hq
    rw [(hself u p hu hp).1, (hself v q hv hq).1]
  · intro u p hu hp
    rw [(hself u p hu hp).2] at h
    exact h
  · intro hall
    cases next with
    | none => exact h
    | some p => exact absurd (hall t p (by simp [setThread])) (hmain p rfl)
  · intro u p hu hrestarts hunseen
    rcases threads_setThread hu with ⟨-, hu⟩ | ⟨hne, hu⟩
    · exact absurd hrestarts (hmain p hu)
    · exact absurd hunseen (hothers u p hne hu).2

/-- A `-restart` goes on, or begins, without a change to what is shared. -/
theorem Alone.setRestart (h : s.Alone) {t : Nat} {next : Option Point}
    (hself : forall p, s.threads t = some p -> p.Restarts)
    (hnext : forall p, next = some p -> p.Restarts)
    (hunseen : forall p, next = some p -> p.Unannounced ->
      forall u q, s.threads u = some q -> q.Restarts) : (s.setThread t next).Alone := by
  have hmain : forall u p, (s.setThread t next).threads u = some p -> ¬ p.Restarts ->
      s.threads u = some p := by
    intro u p hu hp
    rcases threads_setThread hu with ⟨-, hu⟩ | ⟨-, hu⟩
    · exact absurd (hnext p hu) hp
    · exact hu
  constructor
  · intro u v p q hu hv hp hq
    exact h.unique u v p q (hmain u p hu hp) (hmain v q hv hq) hp hq
  · intro u p hu hp
    exact h.phase u p (hmain u p hu hp) hp
  · intro hall
    refine h.rest fun u p hu => ?_
    by_cases hut : u = t
    · exact hself p (hut ▸ hu)
    · exact hall u p (by simpa [setThread, hut] using hu)
  · intro u p hu hrestarts hp v q hv
    have hothers : forall v q, s.threads v = some q -> q.Restarts := by
      rcases threads_setThread hu with ⟨-, hu⟩ | ⟨-, hu⟩
      · exact hunseen p hu hp
      · exact h.restarting u p hu hrestarts hp
    rcases threads_setThread hv with ⟨-, hv⟩ | ⟨-, hv⟩
    · exact hnext q hv
    · exact hothers v q hv

theorem Alone.single (h : s.Alone) : s.shared.loaded.length ≤ 1 := by
  by_cases hall : forall t p, s.threads t = some p -> p.Restarts
  · exact (h.rest hall).single
  · push Not at hall
    obtain ⟨t, p, hp, hmain⟩ := hall
    exact (h.phase t p hp hmain).single

theorem Alone.enter {t : Nat} {request : Request} (h : s.Alone)
    (hguard : AdmitsSeen s (.enter t request))
    (hadmitted : request.entry.Admitted s.shared.runState) :
    (s.setThread t (some (request.entryPoint dirs))).Alone := by
  -- another command under way would have kept this one out
  have hall : forall u p, s.threads u = some p -> p.Restarts := by
    intro u p hp
    by_contra hmain
    have hseen : ¬ p.Unannounced := fun hunseen => hmain (hguard u p hp hunseen).2
    exact Request.not_admitted (h.phase u p hp hmain) hseen request hadmitted
  by_cases hrestart : request.Restarts
  · refine h.setRestart (fun p hp => hall t p hp) ?_ fun _ _ _ => hall
    rintro p ⟨⟩
    cases request with
    | restart command => exact trivial
    | _ => exact hrestart.elim
  · refine alone_setMain (fun u p _ hp => ⟨hall u p hp, fun hunseen => ?_⟩)
      (Request.entryPoint_phase (h.rest hall) hrestart hadmitted)
    exact hrestart (hguard u p hp hunseen).1

theorem Alone.advance {t : Nat} {ok : Bool} {p : Point} {sh : Shared} {next : Option Point}
    (h : s.Alone) (hp : s.threads t = some p) (hadvance : s.shared.advance ok p = some (sh, next)) :
    ({ s with shared := sh }.setThread t next).Alone := by
  by_cases hmain : p.Restarts
  · obtain ⟨command, point, rfl⟩ : exists command point, p = .restart command point := by
      cases p with
      | restart command point => exact ⟨command, point, rfl⟩
      | _ => exact hmain.elim
    obtain ⟨rfl, hnext, hlast⟩ := Shared.advanceRestart_eq hadvance
    refine h.setRestart (fun q hq => ?_) (fun q hq => ?_) fun q hq _ => ?_
    · rw [hp] at hq
      cases hq
      exact hmain
    · rcases hnext with rfl | ⟨point', rfl⟩
      · cases hq
      · cases hq
        exact trivial
    · refine h.restarting t _ hp hmain ?_
      cases point with
      | result =>
        rw [hlast rfl] at hq
        cases hq
      | _ => exact trivial
  · refine alone_setMain (fun u q hu hq => ?_)
      (Shared.advance_ensures (h.phase t p hp hmain) sh next hadvance)
    by_cases hrestarts : q.Restarts
    · exact ⟨hrestarts, fun hunseen => hmain (h.restarting u q hq hrestarts hunseen t p hp)⟩
    · exact absurd (h.unique u t q p hq hp hrestarts hmain) hu

theorem Alone.step {e : CommandEvent} (h : s.Alone) (hguard : AdmitsSeen s e)
    (hstep : commandStep dirs s e = some s') : s'.Alone := by
  cases e with
  | enter t request =>
    rw [commandStep] at hstep
    split at hstep
    · rename_i henter
      cases hstep
      exact h.enter hguard henter.2
    · cases hstep
  | advance t ok =>
    rw [commandStep] at hstep
    split at hstep
    · cases hstep
    · rename_i p hp
      split at hstep
      · cases hstep
      · rename_i sh next hadvance
        cases hstep
        exact h.advance hp hadvance

end CommandState

/-- If no command is admitted while another one is under way unseen, then in every run
at most one ECG is loaded and exercisers are started by one command at a time. -/
theorem one_mdt_loaded {dirs : Dirs} {s : CommandState}
    (hreach : (commandSystem dirs).ReachableUnder AdmitsSeen s) :
    s.shared.loaded.length ≤ 1 ∧ Undisturbed s := by
  have halone : s.Alone := by
    refine EventSystem.ReachableUnder.invariant (fun s hs => ?_) ?_ hreach
    · have hs : s = CommandState.initial := hs
      rw [hs]
      exact CommandState.alone_initial
    · intro s e s' h hguard hstep
      exact h.step hguard hstep
  refine ⟨halone.single, ?_⟩
  intro t u p q hne hp hq hstarting hloading
  have hmain : ¬ q.Restarts := by
    cases q with
    | restart command point => exact hloading.elim
    | _ => exact id
  by_cases hrestarts : p.Restarts
  · refine hmain (halone.restarting t p hp hrestarts ?_ u q hq)
    cases p with
    | restart command point =>
      rw [show point = .load from hstarting]
      exact trivial
    | _ => exact hrestarts.elim
  · exact hne (halone.unique t u p q hp hq hrestarts hmain)

def someDirs : Dirs :=
  ⟨"/usr/lpp/htx", "/tmp/htx"⟩

/-- A `-run`, and two `-restart` at a time. -/
def threeCommands : List CommandEvent :=
  .enter 0 (.run "mdt.a") :: (List.replicate 11 (.advance 0 true) ++
    .enter 1 (.restart "") :: .enter 2 (.restart "mdt.a") :: (List.replicate 3 (.advance 1 true) ++
    List.replicate 3 (.advance 2 true)))

theorem one_mdt_loaded_threeCommands :
    exists s, (commandSystem someDirs).ReachableUnder AdmitsSeen s ∧
      s.threads 1 = some (.restart "" .load) ∧ s.threads 2 = some (.restart "mdt.a" .load) ∧
      s.shared.loaded.map EcgNode.ecgName = ["mdt.a"] ∧
      s.shared.loaded.length ≤ 1 ∧ Undisturbed s := by
  have hreach : (commandSystem someDirs).ReachableUnder AdmitsSeen _ :=
    EventSystem.ReachableUnder.schedule rfl threeCommands rfl (by
      refine ⟨?_, trivial, trivial, trivial, trivial, trivial, trivial, trivial, trivial,
        trivial, trivial, trivial, ?_, ?_, trivial, trivial, trivial, trivial, trivial,
        trivial, trivial⟩
      · intro t p h
        cases h
      · intro t p h
        match t, h with
        | 0, h => cases h
        | t + 1, h => cases h
      · intro t p h
        match t, h with
        | 0, h => cases h
        | 1, h =>
          cases h
          exact fun _ => ⟨trivial, trivial⟩
        | t + 2, h => cases h)
  exact ⟨_, hreach, rfl, rfl, rfl, one_mdt_loaded hreach⟩

/-- Two `-run` load two ECGs; a `-restart` starts exercisers while a `-shutdown` is under
way. -/
theorem two_mdts_loaded :
    (exists s, (commandSystem someDirs).Reachable s ∧
      s.shared.loaded.map EcgNode.ecgName = ["mdt.a", "mdt.b"] ∧ ¬ Undisturbed s) ∧
    exists s, (commandSystem someDirs).Reachable s ∧
      s.threads 1 = some (.restart "" .load) ∧ ¬ Undisturbed s := by
  have hreach := EventSystem.Reachable.schedule (S := commandSystem someDirs) rfl
    ([.enter 0 (.run "mdt.a"), .enter 1 (.run "mdt.b")] ++
      List.replicate 6 (.advance 0 true) ++ List.replicate 5 (.advance 1 true) ++
      List.replicate 3 (.advance 0 true)) rfl
  have hrestart := EventSystem.Reachable.schedule (S := commandSystem someDirs) rfl
    (.enter 0 (.run "mdt.a") :: (List.replicate 11 (.advance 0 true) ++
      [.enter 1 (.restart ""), .enter 2 (.shutdown "")] ++ List.replicate 3 (.advance 1 true))) rfl
  refine ⟨⟨_, hreach, rfl, ?_⟩, _, hrestart, rfl, ?_⟩
  · intro hundisturbed
    exact hundisturbed 0 1 (.run "mdt.a" (some 0) .activate)
      (.run "mdt.b" (some 0) .count) (by decide) rfl rfl rfl trivial
  · intro hundisturbed
    exact hundisturbed 1 2 (.restart "" .load) (.shutdown "" .checkState) (by decide) rfl rfl rfl
      trivial

end Htx.Htxd
