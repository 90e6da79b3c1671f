import Htx.Htxd.Daemon

/-!
# Settled states of the daemon

Between two commands the daemon should be idle with nothing loaded, or have one selected
or running ECG.
-/

namespace Htx.Htxd

namespace Daemon

open EcgManager

structure Settled (st : Daemon) : Prop where
  state : st.runState = .idle ∨ st.runState = .selectedMdt ∨ st.runState = .runningMdt
  idle_iff : st.runState = .idle <-> st.loaded = []
  loaded_iff : (st.runState = .selectedMdt ∨ st.runState = .runningMdt) <->
    st.loaded.length = 1 ∧ st.ecgListLength = 1

variable (dirs : Dirs)

def StartHandled (st : Daemon) (o : Outcomes) : Prop :=
  st.initSyscfgFlag = true ∨ o.initSyscfg = 0

def RunHandled (st : Daemon) (command : String) (o : Outcomes) : Prop :=
  if st.runState = .selectedMdt then
    st.manager.map EcgManager.selectedEcgName = some (ecgNameOf dirs command) -> st.StartHandled o
  else
    o.managerCreated = true -> o.nodeMalloc = true ->
      (o.semget = true ∧ o.shmget = true) ∧ st.StartHandled o

def SelectHandled (o : Outcomes) : Prop :=
  o.managerCreated = true -> o.nodeMalloc = true -> o.semget = true ∧ o.shmget = true

/-- A text that is shown is there, unless the daemon exits before it is read. -/
def EndHandled (st : Daemon) (entry : OptionEntry) (o : Outcomes) : Prop :=
  o.methodEnd ≠ .overrun ∧ forall code, o.methodEnd = .returned code none ->
    entry.runningEcgDisplay = true -> 0 < st.ecgListLength ∧ o.displayMalloc = false

def TextHandled (o : Outcomes) : Prop :=
  o.methodEnd ≠ .overrun ∧ forall code, o.methodEnd ≠ .returned code none

def GetstatsHandled (st : Daemon) (command : String) (o : Outcomes) : Prop :=
  if ecgNameOf dirs command ∈ st.loaded.map EcgInfo.ecgName then
    o.statsAlive = true ∧ TextHandled o
  else o.resultMalloc = true

def GetFileHandled (st : Daemon) (option : String) (o : Outcomes) : Prop :=
  (option = "stats_file_string" -> st.statsRunning o = true) ∧
    (option = "running_mdt_string" -> st.loaded ≠ []) ∧ o.methodEnd ≠ .overrun

def Handled (st : Daemon) (c : Command) (o : Outcomes) : Prop :=
  if c.entry.Admitted st.runState then
    match c.entry.method with
    | .createMdt => o.resultMalloc = true
    | .runMdt =>
      o.resultMalloc = true ∧ (o.fileExists = true -> st.RunHandled dirs c.ecgName o)
    | .selectMdt => o.resultMalloc = true ∧ (o.fileExists = true -> SelectHandled o)
    | .shutdownMdt => o.resultMalloc = true
    | .listMdt => o.popen = true ∧ o.methodEnd ≠ .overrun
    | .getstats => st.GetstatsHandled dirs c.ecgName o
    | .geterrlog => TextHandled o
    | .getFile => st.GetFileHandled c.options o
    | .deviceCount | .testActivateHalt =>
      o.resultMalloc = true -> st.loaded ≠ [] ∧ o.methodEnd ≠ .overrun
    | .onDevices | .other => st.EndHandled c.entry o
  else o.resultMalloc = true

inductive Steady (st : Daemon) : Prop
  | idle : st.runState = .idle -> st.manager = none -> Steady st
  | loaded (m : EcgManager) (ecg : EcgInfo) :
      st.runState = .selectedMdt ∨ st.runState = .runningMdt ->
      st.manager = some m -> m.ecgInfoList = [ecg] -> m.ecgListLength = 1 ->
      m.currentLoadingEcgInfo = some ecg -> ecg.ecgShmAddr = .attached -> Steady st

theorem Steady.settled {st : Daemon} (h : st.Steady) : st.Settled := by
  cases h with
  | idle hstate hmanager =>
    constructor
    · exact .inl hstate
    · simp [hstate, Daemon.loaded, hmanager]
    · simp [hstate, Daemon.loaded, hmanager]
  | loaded m ecg hstate hmanager hlist hlength =>
    have hloaded : st.loaded = [ecg] := by
      rw [Daemon.loaded, hmanager]
      exact hlist
    have hcount : st.ecgListLength = 1 := by
      rw [Daemon.ecgListLength, hmanager]
      exact hlength
    have hidle : st.runState ≠ .idle := by
      rcases hstate with hstate | hstate <;> rw [hstate] <;> decide
    constructor
    · exact .inr hstate
    · simp [hidle, hloaded]
    · simp [hstate, hloaded, hcount]

end Daemon

def Reply.Settles : Reply -> Prop
  | .returned st _ _ => st.Settled
  | .exited => True
  | .crashed => False

def Reply.Keeps : Reply -> Prop
  | .returned st _ _ => st.Steady
  | .exited => True
  | .crashed => False

structure Reply.Decides (p : Prop) (reply : Reply) : Prop where
  keeps : p -> reply.Keeps
  necessary : reply.Settles -> p

theorem Reply.Decides.congr {p q : Prop} {reply : Reply} (h : reply.Decides p)
    (hpq : p <-> q) : reply.Decides q :=
  ⟨fun hq => h.keeps (hpq.mpr hq), fun hsettles => hpq.mp (h.necessary hsettles)⟩

variable {m : EcgManager}

namespace Daemon

variable {dirs : Dirs} {st : Daemon} {o : Outcomes} {command : String}

end Daemon

namespace Daemon

variable {dirs : Dirs} {st : Daemon} {o : Outcomes} {command : String}

section

variable (hidle : st.runState = .idle) (hnone : st.manager = none) (hmalloc : o.resultMalloc = true)
  (hfile : o.fileExists = true)

include hidle hnone hmalloc hfile

end

open List

section

variable (h : st.Steady)

include h

end

theorem Settled.admits (h : st.Settled) :
    runOption.Admitted st.runState ∨ shutdownOption.Admitted st.runState := by
  rcases h.state with hstate | hstate | hstate
  · rw [hstate]
    exact .inl (by decide)
  · rw [hstate]
    exact .inl (by decide)
  · rw [hstate]
    exact .inr (by decide)

end Daemon

end Htx.Htxd
