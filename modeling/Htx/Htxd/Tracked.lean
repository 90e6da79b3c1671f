import Htx.Htxd.ExerciserMoves

/-!
# Every exerciser is tracked

A living exerciser has its process id in its device's slot and table entry as long as no
exerciser is started for a device that has one.
-/

namespace Htx.Htxd

open List LoadedEcg Forks Library

structure Tracked (w : World) : Prop where
  single : forall slot p q, slot ∈ w.ecg.slots -> p ∈ w.live -> q ∈ w.live ->
    p.device = slot.sdevId -> q.device = slot.sdevId -> p = q
  inSlot : forall slot p, slot ∈ w.ecg.slots -> p ∈ w.live -> p.device = slot.sdevId ->
    slot.pid = p.pid
  inTable : forall slot p, slot ∈ w.ecg.slots -> p ∈ w.live -> p.device = slot.sdevId ->
    exists entry, entry ∈ w.ecg.exerTable ∧ entry.devName = slot.sdevId ∧ entry.exerPid = p.pid
  /-- After `-shutdown` the daemon is idle. -/
  stopped : w.runState = .idle -> forall p, p ∈ w.live -> p.sigterm = true

def NoneBeyond (w : World) : Prop :=
  forall slot, slot ∈ w.ecg.slots.drop w.ecg.ecgExerciserEntries.toNat -> slot.pid = 0

instance (w : World) : Decidable (NoneBeyond w) :=
  inferInstanceAs (Decidable (forall slot, slot ∈ _ -> _))

def TrackGuard (w : World) : ExerEvent -> Prop
  | .restart devices =>
    (w.restartPositions devices).Nodup ∧
      forall i, i ∈ w.restartPositions devices -> w.ecg.slotPid i = 0
  | .shutdown => NoneBeyond w
  | _ => True

instance (w : World) : (e : ExerEvent) -> Decidable (TrackGuard w e)
  | .restart _ => inferInstanceAs (Decidable (_ ∧ _))
  | .shutdown => inferInstanceAs (Decidable (NoneBeyond w))
  | .run _ _ | .running | .terminate _ | .hotplug _ | .exit _ _ | .write _ _
  | .stopWatch _ _ | .shutdownDone => isTrue trivial

def trackLimits : Limits :=
  ⟨fun slot => slot.pid = 0, True, NoneBeyond, fun _ => rfl⟩

theorem trackGuard_within (w : World) (e : ExerEvent) (h : TrackGuard w e) :
    trackLimits.Within w e := by
  cases e with
  | restart devices =>
    refine ⟨?_, .inl h.1⟩
    intro i hi slot hslot
    have hpid := h.2 i hi
    rw [slotPid, hslot] at hpid
    exact hpid
  | hotplug stanzas =>
    intro slot _ _ hpid _
    exact hpid
  | stopWatch i now => exact fun _ _ _ => trivial
  | shutdown => exact h
  | _ => trivial

structure Owned (w : World) : Prop where
  owner : forall p, p ∈ w.live -> exists (i : Nat) (slot : Slot),
    w.ecg.slots[i]? = some slot ∧ slot.sdevId = p.device ∧ slot.pid = p.pid
  idle : w.runState = .idle -> w.live = []
  beyond : w.runState = .shuttingDownMdt -> NoneBeyond w

namespace Owned

variable {forks : Forks} {w w' : World}

theorem initial : Owned .initial where
  owner _ h := nomatch h
  idle _ := rfl
  beyond h := nomatch h

theorem of_up (hup : w.Up) (howner : forall p, p ∈ w.live -> exists (i : Nat) (slot : Slot),
    w.ecg.slots[i]? = some slot ∧ slot.sdevId = p.device ∧ slot.pid = p.pid) : Owned w := by
  refine ⟨howner, ?_, ?_⟩
  · intro hidle
    rcases hup with hstate | hstate <;> rw [hstate] at hidle <;> cases hidle
  · intro hshutting
    rcases hup with hstate | hstate <;> rw [hstate] at hshutting <;> cases hshutting

theorem noneBeyond_setSlot (h : NoneBeyond w) {i : Nat} {slot slot' : Slot}
    (hslot : w.ecg.slots[i]? = some slot) (hpid : slot.pid = 0 -> slot'.pid = 0) :
    NoneBeyond (w.setSlot i slot') := by
  intro slot'' hmem
  rcases mem_iff_getElem?.mp hmem with ⟨k, hk⟩
  rw [getElem?_drop] at hk
  change (w.ecg.slots.set i slot')[w.ecg.ecgExerciserEntries.toNat + k]? = some slot'' at hk
  have hold : forall old, w.ecg.slots[w.ecg.ecgExerciserEntries.toNat + k]? = some old ->
      old.pid = 0 := by
    intro old hget
    exact h old (mem_iff_getElem?.mpr ⟨k, by rw [getElem?_drop]; exact hget⟩)
  rw [getElem?_set_slot hslot] at hk
  split at hk
  · rename_i hik
    cases hk
    exact hpid (hold slot (hik ▸ hslot))
  · exact hold slot'' hk

section

variable (h : Owned w)

include h

theorem setSlot {i : Nat} {slot slot' : Slot}
    (hslot : w.ecg.slots[i]? = some slot) (hname : slot'.sdevId = slot.sdevId)
    (hpid : slot'.pid = slot.pid) : Owned (w.setSlot i slot') := by
  refine ⟨?_, h.idle, ?_⟩
  · intro p hp
    rcases h.owner p hp with ⟨k, old, hk, hdevice, hppid⟩
    by_cases hik : i = k
    · subst hik
      rw [hslot] at hk
      cases hk
      refine ⟨i, slot', ?_, hname.trans hdevice, hpid.trans hppid⟩
      exact (getElem?_set_slot hslot i).trans (if_pos rfl)
    · exact ⟨k, old, ((getElem?_set_slot hslot k).trans (if_neg hik)).trans hk, hdevice, hppid⟩
  · intro hstate
    exact noneBeyond_setSlot (h.beyond hstate) hslot (fun hzero => hpid.trans hzero)

theorem sendSigterm (pid : Nat) : Owned (w.sendSigterm pid) := by
  refine ⟨?_, ?_, h.beyond⟩
  · intro p hp
    rcases mem_map.mp hp with ⟨q, hq, rfl⟩
    rcases h.owner q hq with ⟨i, slot, hslot, hdevice, hpid⟩
    refine ⟨i, slot, hslot, ?_, ?_⟩
    · rw [hdevice]
      split <;> rfl
    · rw [hpid]
      split <;> rfl
  · intro hstate
    have hempty := h.idle hstate
    unfold World.sendSigterm
    rw [hempty]
    rfl

theorem loadExerciser (hc : Consistent forks w) (hup : w.Up) {i : Nat}
    {slot : Slot} (hslot : w.ecg.slots[i]? = some slot) (hzero : slot.pid = 0) :
    Owned (w.loadExerciser forks i) := by
  refine of_up (World.up_loadExerciser hup i) ?_
  cases hfork : forks.result w.forks with
  | none =>
    rw [World.loadExerciser, hslot]
    dsimp only
    rw [hfork]
    exact h.owner
  | some pid =>
    rw [hc.loadExerciser_eq hslot hfork]
    intro p hp
    rcases mem_cons.mp hp with rfl | hp
    · exact ⟨i, _, (getElem?_set_slot hslot i).trans (if_pos rfl), rfl, rfl⟩
    · rcases h.owner p hp with ⟨k, old, hk, hdevice, hppid⟩
      -- the slot was free, so no living exerciser is in it
      have hik : i ≠ k := by
        rintro rfl
        rw [hslot] at hk
        cases hk
        exact hc.pid_ne_zero hp (hppid ▸ hzero)
      exact ⟨k, old, ((getElem?_set_slot hslot k).trans (if_neg hik)).trans hk, hdevice, hppid⟩

theorem register (hup : w.Up) {stanza : DeviceStanza}
    (hnew : w.ecg.positionByName stanza.sdevId = none) :
    Owned { w with ecg := w.ecg.register stanza } := by
  refine of_up hup ?_
  intro p hp
  rcases h.owner p hp with ⟨i, slot, hslot, hdevice, hpid⟩
  refine ⟨i, slot, ?_, hdevice, hpid⟩
  rw [LoadedEcg.register, hnew]
  exact (List.getElem?_append_left (List.getElem?_eq_some_iff.mp hslot).1).trans hslot

theorem exit (hc : Consistent forks w) {pid : Nat} (reason : String)
    (hlive : w.isLive pid = true) : Owned (w.exit pid reason) := by
  rcases Consistent.exists_of_isLive hlive with ⟨p, hp, hpid⟩
  rcases h.owner p hp with ⟨i, slot, hslot, hdevice, hslotpid⟩
  have hsame : slot.pid = pid := hslotpid.trans hpid
  have hne : slot.pid ≠ 0 := hslotpid ▸ hc.pid_ne_zero hp
  subst hsame
  rw [hc.exit_eq reason hslot hne]
  refine ⟨?_, ?_, ?_⟩
  · intro q hq
    rcases mem_filter.mp hq with ⟨hq, hother⟩
    have hother : q.pid ≠ slot.pid := by simpa using hother
    rcases h.owner q hq with ⟨k, old, hk, hqdevice, hqpid⟩
    have hik : i ≠ k := by
      rintro rfl
      rw [hslot] at hk
      cases hk
      exact hother hqpid.symm
    exact ⟨k, old, ((getElem?_set_slot hslot k).trans (if_neg hik)).trans hk, hqdevice, hqpid⟩
  · intro hstate
    rw [h.idle hstate] at hp
    cases hp
  · intro hstate
    exact noneBeyond_setSlot (h.beyond hstate) hslot (fun _ => rfl)

end

theorem pid_zero_of_stillRunning {ecg : LoadedEcg} (hstill : ecg.stillRunning = 0) {i : Nat}
    (hi : i < ecg.ecgExerciserEntries.toNat) : ecg.slotPid i = 0 := by
  unfold stillRunning at hstill
  have hall : (List.range ecg.ecgExerciserEntries.toNat).countP
      (fun i => decide (ecg.slotPid i = 0)) =
        (List.range ecg.ecgExerciserEntries.toNat).length := by
    have hle := countP_le_length
      (p := fun i => decide (ecg.slotPid i = 0)) (l := List.range ecg.ecgExerciserEntries.toNat)
    rw [length_range] at hle ⊢
    omega
  simpa using countP_eq_length.mp hall i (mem_range.mpr hi)

section

variable (h : Owned w) (hc : Consistent forks w)

include h hc

theorem endShutdown (hstate : w.runState = .shuttingDownMdt) (hstill : w.ecg.stillRunning = 0) :
    w.live = [] := by
  rw [eq_nil_iff_forall_not_mem]
  intro p hp
  rcases h.owner p hp with ⟨i, slot, hslot, hdevice, hpid⟩
  refine hc.pid_ne_zero hp (hpid ▸ ?_)
  by_cases hi : i < w.ecg.ecgExerciserEntries.toNat
  · have hzero := pid_zero_of_stillRunning hstill hi
    rw [slotPid, hslot] at hzero
    exact hzero
  · refine h.beyond hstate slot (mem_iff_getElem?.mpr ?_)
    refine ⟨i - w.ecg.ecgExerciserEntries.toNat, ?_⟩
    rw [getElem?_drop, Nat.add_sub_cancel' (not_lt.mp hi)]
    exact hslot

theorem move (hmove : Move forks trackLimits w w') : Owned w' := by
  cases hmove with
  | newEcg entries hidle =>
    refine of_up (.inl rfl) ?_
    intro p hp
    have hp : p ∈ w.live := hp
    rw [h.idle hidle] at hp
    cases hp
  | running hstate => exact of_up (.inr rfl) h.owner
  | beginShutdown hstate hlimit => exact ⟨h.owner, (nomatch ·), fun _ => hlimit⟩
  | endShutdown hstate hstill =>
    have hempty := h.endShutdown hc hstate hstill
    refine ⟨?_, fun _ => hempty, (nomatch ·)⟩
    intro p hp
    have hp : p ∈ w.live := hp
    rw [hempty] at hp
    cases hp
  | rewrite hslot hname hpid hflagged => exact h.setSlot hslot hname hpid
  | mark hslot hname hpid hflagged =>
    have hset := h.setSlot hslot hname hpid
    exact ⟨hset.owner, hset.idle, hset.beyond⟩
  | stale hlimit hslot hname hpid => exact h.setSlot hslot hname hpid
  | signal pid => exact h.sendSigterm pid
  | load hup hslot hlimit => exact h.loadExerciser hc hup hslot hlimit
  | register hup hnew => exact h.register hup hnew
  | exit reason hlive => exact h.exit hc reason hlive

theorem slot_eq {slot : Slot} {p : Exerciser}
    (hslot : slot ∈ w.ecg.slots) (hp : p ∈ w.live) (hdevice : p.device = slot.sdevId) :
    slot.pid = p.pid := by
  rcases mem_iff_getElem?.mp hslot with ⟨i, hi⟩
  rcases h.owner p hp with ⟨k, owner, hk, hname, hpid⟩
  have hik := position_unique hc.names hi hk (hdevice.symm.trans hname.symm)
  rw [hik, hk] at hi
  cases hi
  exact hpid

theorem tracked : Tracked w where
  single slot p q hslot hp hq hpdevice hqdevice := by
    have hppid := h.slot_eq hc hslot hp hpdevice
    have hqpid := h.slot_eq hc hslot hq hqdevice
    exact hc.live_unique hp hq (hppid.symm.trans hqpid)
  inSlot slot p hslot hp hdevice := h.slot_eq hc hslot hp hdevice
  inTable slot p hslot hp hdevice := by
    rcases mem_iff_getElem?.mp hslot with ⟨i, hi⟩
    refine ⟨⟨slot.sdevId, i, slot.pid⟩, mem_iff_getElem?.mpr ⟨i, ?_⟩, rfl,
      h.slot_eq hc hslot hp hdevice⟩
    rw [hc.table, getElem?_mirror, hi]
    rfl
  stopped hidle p hp := by
    rw [h.idle hidle] at hp
    cases hp

end

end Owned

/-- If exercisers are only started for devices that have none, and no exerciser runs
behind the counted slots when `-shutdown` begins, every exerciser is tracked. -/
theorem exercisers_tracked {forks : Forks} {w : World}
    (hreach : (exerSystem forks).ReachableUnder TrackGuard w) : Tracked w := by
  have hinv := exer_invariant trackGuard_within Owned.initial
    (fun w w' hc h hmove => h.move hc hmove) hreach
  exact hinv.2.tracked hinv.1

def diskStanza (name : String) : DeviceStanza :=
  ⟨name, "hxestorage", 0⟩

theorem exercisers_tracked_restart :
    exists w, (exerSystem counting).ReachableUnder TrackGuard w ∧
      w.runState = .runningMdt ∧ w.live = [⟨2, "sda", false⟩] ∧ Tracked w := by
  have hreach : (exerSystem counting).ReachableUnder TrackGuard _ :=
    EventSystem.ReachableUnder.schedule rfl
      [.run [diskStanza "sda"] true, .running, .terminate none, .exit 1 "signal 15",
        .restart (some ["sda"])] rfl (by decide)
  exact ⟨_, hreach, rfl, rfl, exercisers_tracked hreach⟩

/-- `-restart` of a running device leaves two exercisers and forgets the first.  A device
that a hotplug operation has added still runs, without a signal, after `-shutdown`. -/
theorem exercisers_lost : (exists w, (exerSystem counting).Reachable w ∧
      w.runState = .runningMdt ∧ w.live = [⟨2, "sda", false⟩, ⟨1, "sda", false⟩] ∧
      w.ecg.slots.map Slot.pid = [2] ∧ ¬ Tracked w) ∧
    (exists w, (exerSystem counting).Reachable w ∧
      w.runState = .idle ∧ w.live = [⟨2, "sdb", false⟩] ∧ ¬ Tracked w) := by
  constructor
  · have hreach := EventSystem.Reachable.schedule (S := exerSystem counting) rfl
      [.run [diskStanza "sda"] true, .running, .restart none] rfl
    refine ⟨_, hreach, rfl, rfl, rfl, ?_⟩
    intro h
    have hsame := h.single _ ⟨2, "sda", false⟩ ⟨1, "sda", false⟩ List.mem_cons_self
      (by decide) (by decide) rfl rfl
    cases hsame
  · have hreach := EventSystem.Reachable.schedule (S := exerSystem counting) rfl
      [.run [diskStanza "sda"] true, .running,
        .hotplug [diskStanza "sda", diskStanza "sdb"], .shutdown, .exit 1 "signal 15",
        .shutdownDone] rfl
    refine ⟨_, hreach, rfl, rfl, ?_⟩
    intro h
    have hsigterm := h.stopped rfl ⟨2, "sdb", false⟩ (by decide)
    cases hsigterm

end Htx.Htxd
