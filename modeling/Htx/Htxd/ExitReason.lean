import Htx.Htxd.ExerciserMoves

/-!
# Why an exerciser ended

The message about an ended exerciser, and the status shown for its device, depend on three
flags of the slot.
-/

namespace Htx.Htxd

open List Library

def terminatedSince : List LogEntry -> Nat -> Bool
  | [], _ => false
  | .started j :: older, i => if j = i then false else terminatedSince older i
  | .terminated j :: older, i => if j = i then true else terminatedSince older i
  | .exited _ _ _ :: older, i => terminatedSince older i

def Reported : List LogEntry -> Prop
  | [] => True
  | .exited i severity _ :: older =>
    (severity = .sysInfo <-> terminatedSince older i = true) ∧ Reported older
  | .started _ :: older => Reported older
  | .terminated _ :: older => Reported older

/-!
# The status of a device
-/

inductive RunStatus where
  | blank
  | drTerminated
  | runTimeOver
  | dead
  | terminated
  | partially
  | error
  | stopped
  | startDelayed
  | complete
  | hung
  | running
  deriving DecidableEq

def RunStatus.text : RunStatus -> String
  | .blank => "  "
  | .drTerminated => "DT"
  | .runTimeOver => "RT"
  | .dead => "DD"
  | .terminated => "TM"
  | .partially => "PR"
  | .error => "ER"
  | .stopped => "ST"
  | .startDelayed => "SD"
  | .complete => "CP"
  | .hung => "HG"
  | .running => "RN"

structure DeviceView where
  noOfErrs : Int
  errorSem : Int
  equaliserHalt : Bool
  runSem : Int
  activateHaltSem : Int
  maxCycles : Int
  cycles : Int
  maxRunTm : UInt16
  idleTime : UInt32
  now : Int
  deriving DecidableEq

def deviceRunStatus (started : Bool) (slot : Slot) (v : DeviceView) : Option RunStatus :=
  if started = false then some .blank
  else if slot.pid = 0 then
    if slot.drTerm then some .drTerminated
    else if slot.testRunPeriodExpired then some .runTimeOver
    else if slot.userTerm = false then some .dead
    else some .terminated
  else if 0 < v.noOfErrs then
    if v.errorSem = -1 then none
    else if v.errorSem = 0 then some .partially
    else some .error
  else if v.equaliserHalt ∨ v.runSem ≠ 0 ∨ v.activateHaltSem = 1 then some .stopped
  else if slot.startedDelayFlag then some .startDelayed
  else if v.maxCycles ≠ 0 ∧ v.maxCycles ≤ v.cycles then some .complete
  else if ((v.maxRunTm.toNat + v.idleTime.toNat) % 2 ^ 32 : Nat) < v.now - slot.tmLastUpd then
    some .hung
  else if v.maxCycles ≠ 0 ∧ v.maxCycles ≤ v.cycles then some .partially
  else some .running

def RunStatus.NamesReason (status : RunStatus) : Prop :=
  status = .terminated ∨ status = .drTerminated ∨ status = .runTimeOver

theorem deviceRunStatus_dead {slot : Slot} (v : DeviceView) (hpid : slot.pid = 0) :
    exists status, deviceRunStatus true slot v = some status ∧
      (status.NamesReason <-> slot.Flagged) ∧ (status = .dead <-> ¬ slot.Flagged) := by
  unfold deviceRunStatus Slot.Flagged
  rw [if_neg (by decide), if_pos hpid]
  cases slot.drTerm <;> cases slot.testRunPeriodExpired <;> cases slot.userTerm <;>
    simp [RunStatus.NamesReason]

/-!
# Runs in which the flags are up to date
-/

def ReasonGuard (w : World) : ExerEvent -> Prop
  | .restart devices =>
    forall i, i ∈ w.restartPositions devices -> forall slot, slot ∈ w.ecg.slots[i]? ->
      ¬ slot.Flagged
  | .hotplug stanzas =>
    forall slot, slot ∈ w.ecg.slots -> slot.sdevId ∈ stanzas.map DeviceStanza.sdevId ->
      ¬ (slot.pid = 0 ∧ slot.drTerm)
  | .stopWatch i _ => w.ecg.slotPid i ≠ 0
  | _ => True

instance (w : World) : (e : ExerEvent) -> Decidable (ReasonGuard w e)
  | .restart _ => inferInstanceAs (Decidable (forall i, i ∈ _ -> _))
  | .hotplug _ => inferInstanceAs (Decidable (forall slot, slot ∈ _ -> _))
  | .stopWatch i _ => inferInstanceAs (Decidable (w.ecg.slotPid i ≠ 0))
  | .run _ _ | .running | .terminate _ | .exit _ _ | .write _ _ | .shutdown
  | .shutdownDone => isTrue trivial

def reasonLimits : Limits :=
  ⟨fun slot => ¬ slot.Flagged, False, fun _ => True, fun _ => by simp [Slot.Flagged, Slot.ofStanza]⟩

theorem reasonGuard_within (w : World) (e : ExerEvent) (h : ReasonGuard w e) :
    reasonLimits.Within w e := by
  cases e with
  | restart devices => exact ⟨h, .inr fun _ _ hclear => hclear⟩
  | hotplug stanzas =>
    intro slot hslot hname hpid hdr
    exact absurd ⟨hpid, hdr⟩ (h slot hslot hname)
  | stopWatch i now =>
    intro slot hslot hpid
    refine h ?_
    rw [LoadedEcg.slotPid, hslot]
    exact hpid
  | shutdown | _ => trivial

structure UpToDate (w : World) : Prop where
  flags : forall (i : Nat) (slot : Slot), w.ecg.slots[i]? = some slot ->
    (slot.Flagged <-> terminatedSince w.log i = true)
  /-- Nothing is noted for devices still to come. -/
  unused : w.runState ≠ .idle -> forall i, w.ecg.slots.length ≤ i -> terminatedSince w.log i = false
  reported : Reported w.log

namespace UpToDate

variable {forks : Forks} {w w' : World}

theorem initial : UpToDate .initial where
  flags _ _ h := nomatch h
  unused h := absurd rfl h
  reported := trivial

variable {slot slot' : Slot}

section

variable (h : UpToDate w) {i : Nat} (hslot : w.ecg.slots[i]? = some slot)

include h hslot

theorem withSlot (hslots : w'.ecg.slots = w.ecg.slots.set i slot')
    (hstate : w'.runState = w.runState) (hreported : Reported w'.log)
    (hother : forall k, i ≠ k -> terminatedSince w'.log k = terminatedSince w.log k)
    (hflags : slot'.Flagged <-> terminatedSince w'.log i = true) : UpToDate w' := by
  have hlt := (List.getElem?_eq_some_iff.mp hslot).1
  refine ⟨?_, ?_, hreported⟩
  · intro k slot'' hk
    rw [hslots, getElem?_set_slot hslot] at hk
    split at hk
    · rename_i hik
      cases hk
      exact hik ▸ hflags
    · rename_i hik
      rw [hother k hik]
      exact h.flags k slot'' hk
  · intro hup k hk
    rw [hslots, length_set] at hk
    rw [hother k (by omega)]
    exact h.unused (hstate ▸ hup) k hk

theorem rewrite (hflagged : slot'.Flagged <-> slot.Flagged) : UpToDate (w.setSlot i slot') :=
  h.withSlot hslot rfl rfl h.reported (fun _ _ => rfl) (hflagged.trans (h.flags i slot hslot))

theorem mark (hflagged : slot'.Flagged) : UpToDate ((w.setSlot i slot').note (.terminated i)) :=
  h.withSlot hslot rfl rfl h.reported (fun _ hik => if_neg hik)
    (iff_of_true hflagged (if_pos rfl))

end

theorem loadExerciser (h : UpToDate w) (hc : Consistent forks w) {i : Nat} {slot : Slot}
    (hslot : w.ecg.slots[i]? = some slot) (hclear : ¬ slot.Flagged) :
    UpToDate (w.loadExerciser forks i) := by
  cases hfork : forks.result w.forks with
  | none =>
    rw [World.loadExerciser, hslot]
    dsimp only
    rw [hfork]
    exact ⟨h.flags, h.unused, h.reported⟩
  | some pid =>
    rw [hc.loadExerciser_eq hslot hfork]
    have hstarted : terminatedSince (.started i :: w.log) i = false := if_pos rfl
    refine h.withSlot hslot rfl rfl h.reported (fun _ hik => if_neg hik) ?_
    exact iff_of_false hclear (by rw [hstarted]; decide)

theorem register (h : UpToDate w) (hup : w.Up) {stanza : DeviceStanza}
    (hnew : w.ecg.positionByName stanza.sdevId = none) :
    UpToDate { w with ecg := w.ecg.register stanza } := by
  have hstate : w.runState ≠ .idle := by
    rcases hup with hstate | hstate <;> rw [hstate] <;> decide
  unfold LoadedEcg.register
  rw [hnew]
  refine ⟨?_, ?_, h.reported⟩
  · intro k slot hk
    dsimp only at hk ⊢
    rw [getElem?_append] at hk
    split at hk
    · exact h.flags k slot hk
    · rename_i hge
      rw [getElem?_singleton] at hk
      split at hk
      · cases hk
        rw [h.unused hstate k (not_lt.mp hge)]
        exact iff_of_false (reasonLimits.load_ofStanza stanza) (by decide)
      · cases hk
  · intro _ k hk
    dsimp only at hk ⊢
    rw [length_append] at hk
    exact h.unused hstate k (by omega)

theorem exitSeverity_eq (slot : Slot) : World.exitSeverity slot = .sysInfo <-> slot.Flagged := by
  unfold World.exitSeverity Slot.Flagged
  split
  · rename_i h
    exact iff_of_true rfl h
  · rename_i h
    exact iff_of_false (nomatch ·) h

theorem exit (h : UpToDate w) (hc : Consistent forks w) {pid : Nat} (reason : String)
    (hlive : w.isLive pid = true) : UpToDate (w.exit pid reason) := by
  rcases hc.slot_or_none hlive with ⟨hne, ⟨i, slot, hslot, rfl⟩ | hnone⟩
  · have hfree : UpToDate (w.setSlot i { slot with pid := 0 }) := h.rewrite hslot Iff.rfl
    rw [hc.exit_eq reason hslot hne]
    by_cases hflag : w.ecgShutdownFlag = false
    · rw [if_pos hflag]
      refine ⟨hfree.flags, hfree.unused, ?_, h.reported⟩
      exact (exitSeverity_eq slot).trans (h.flags i slot hslot)
    · rw [if_neg hflag]
      exact ⟨hfree.flags, hfree.unused, h.reported⟩
  · rw [hc.exit_untracked reason hnone]
    exact ⟨h.flags, h.unused, h.reported⟩

theorem move (h : UpToDate w) (hc : Consistent forks w)
    (hmove : Move forks reasonLimits w w') : UpToDate w' := by
  cases hmove with
  | newEcg entries hidle => exact ⟨fun _ _ hslot => (nomatch hslot), fun _ _ _ => rfl, trivial⟩
  | running hstate | beginShutdown hstate hlimit =>
    refine ⟨h.flags, fun _ => h.unused ?_, h.reported⟩
    rw [hstate]
    decide
  | endShutdown hstate hstill =>
    exact ⟨fun _ _ hslot => (nomatch hslot), fun hidle => absurd rfl hidle, h.reported⟩
  | rewrite hslot hname hpid hflagged => exact h.rewrite hslot hflagged
  | mark hslot hname hpid hflagged => exact h.mark hslot hflagged
  | stale hlimit hslot hname hpid => exact hlimit.elim
  | signal pid => exact ⟨h.flags, h.unused, h.reported⟩
  | load hup hslot hlimit => exact h.loadExerciser hc hslot hlimit
  | register hup hnew => exact h.register hup hnew
  | exit reason hlive => exact h.exit hc reason hlive

end UpToDate

/-- If exercisers are only started for devices without a flag, and no run time is found
over for a dead device, messages and status name a reason exactly for the devices that
were terminated since their most recent start. -/
theorem exits_reported {forks : Forks} {w : World}
    (hreach : (exerSystem forks).ReachableUnder ReasonGuard w) :
    Reported w.log ∧ forall (i : Nat) (slot : Slot) (v : DeviceView), w.ecg.slots[i]? = some slot ->
        slot.pid = 0 -> w.ecg.started = true ->
        exists status, deviceRunStatus w.ecg.started slot v = some status ∧
          (status.NamesReason <-> terminatedSince w.log i = true) ∧
          (status = .dead <-> ¬ terminatedSince w.log i = true) := by
  have h := (exer_invariant reasonGuard_within UpToDate.initial
    (fun w w' hc h hmove => h.move hc hmove) hreach).2
  refine ⟨h.reported, ?_⟩
  intro i slot v hslot hpid hstarted
  rcases deviceRunStatus_dead v hpid with ⟨status, hstatus, hreason, hdead⟩
  rw [← h.flags i slot hslot, hstarted]
  exact ⟨status, hstatus, hreason, hdead⟩

theorem exits_reported_two_devices :
    exists w, (exerSystem Forks.counting).ReachableUnder ReasonGuard w ∧ w.log =
        [.exited 1 .heHardError "hxestorage HE program for sdb terminated by signal 11",
          .exited 0 .sysInfo
            "hxestorage HE program for sda terminated by signal 15 because of user request",
          .terminated 0, .started 1, .started 0] ∧
      Reported w.log ∧
      forall (i : Nat) (slot : Slot) (v : DeviceView), w.ecg.slots[i]? = some slot ->
        slot.pid = 0 -> w.ecg.started = true ->
        exists status, deviceRunStatus w.ecg.started slot v = some status ∧
          (status.NamesReason <-> terminatedSince w.log i = true) ∧
          (status = .dead <-> ¬ terminatedSince w.log i = true) := by
  have hreach : (exerSystem Forks.counting).ReachableUnder ReasonGuard _ :=
    EventSystem.ReachableUnder.schedule rfl
      [.run [⟨"sda", "hxestorage", 0⟩, ⟨"sdb", "hxestorage", 0⟩] true, .running,
        .terminate (some ["sda"]), .exit 1 "signal 15", .exit 2 "signal 11"] rfl (by decide)
  exact ⟨_, hreach, rfl, exits_reported hreach⟩

/-- A device that was terminated once, was restarted and then dies by itself: the message
says user request, and the status is `TM`. -/
theorem exit_misreported :
    exists w, (exerSystem Forks.counting).Reachable w ∧ w.log = [.exited 0 .sysInfo
            "hxestorage HE program for sda terminated by signal 11 because of user request",
          .started 0,
          .exited 0 .sysInfo
            "hxestorage HE program for sda terminated by signal 15 because of user request",
          .terminated 0, .started 0] ∧
      ¬ Reported w.log ∧ terminatedSince w.log 0 = false ∧
      exists slot, w.ecg.slots[0]? = some slot ∧ slot.pid = 0 ∧ w.ecg.started = true ∧
        forall v, deviceRunStatus w.ecg.started slot v = some .terminated := by
  have hreach := EventSystem.Reachable.schedule (S := exerSystem Forks.counting) rfl
    [.run [⟨"sda", "hxestorage", 0⟩] true, .running, .terminate none, .exit 1 "signal 15",
      .restart none, .exit 2 "signal 11"] rfl
  refine ⟨_, hreach, rfl, ?_, rfl, _, rfl, rfl, rfl, fun v => rfl⟩
  intro h
  exact absurd (h.1.mp rfl) (by decide)

end Htx.Htxd
