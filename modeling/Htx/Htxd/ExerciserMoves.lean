import Htx.Htxd.Exercisers

/-!
# What an event can do to the exercisers

Every event is a sequence of moves of a few kinds.  An invariant is shown for each kind of
move once.
-/

namespace Htx.Htxd

open List Option LoadedEcg World Slot Relation.ReflTransGen

structure Limits where
  load : Slot -> Prop
  stale : Prop
  shutdown : World -> Prop
  /-- A device that was just entered may be started. -/
  load_ofStanza : forall stanza, load (ofStanza stanza)

def World.Up (w : World) : Prop :=
  w.runState = .startingMdt ∨ w.runState = .runningMdt

inductive Move (forks : Forks) (limits : Limits) : World -> World -> Prop
  | newEcg {w : World} (entries : Int) : w.runState = .idle ->
      Move forks limits w
        { w with
          runState := .startingMdt
          ecgShutdownFlag := false
          ecg := { LoadedEcg.empty with ecgExerciserEntries := entries }
          log := [] }
  | running {w : World} : w.runState = .startingMdt ->
      Move forks limits w
        { w with runState := .runningMdt, ecg := { w.ecg with started := true } }
  | beginShutdown {w : World} : w.runState = .runningMdt -> limits.shutdown w ->
      Move forks limits w { w with runState := .shuttingDownMdt, ecgShutdownFlag := true }
  | endShutdown {w : World} : w.runState = .shuttingDownMdt -> w.ecg.stillRunning = 0 ->
      Move forks limits w { w with runState := .idle, ecg := .empty }
  | rewrite {w : World} {i : Nat} {slot slot' : Slot} : w.ecg.slots[i]? = some slot ->
      slot'.sdevId = slot.sdevId -> slot'.pid = slot.pid ->
      (slot'.Flagged <-> slot.Flagged) -> Move forks limits w (w.setSlot i slot')
  | mark {w : World} {i : Nat} {slot slot' : Slot} : w.ecg.slots[i]? = some slot ->
      slot'.sdevId = slot.sdevId -> slot'.pid = slot.pid -> slot'.Flagged ->
      Move forks limits w ((w.setSlot i slot').note (.terminated i))
  | stale {w : World} {i : Nat} {slot slot' : Slot} : limits.stale ->
      w.ecg.slots[i]? = some slot -> slot'.sdevId = slot.sdevId -> slot'.pid = slot.pid ->
      Move forks limits w (w.setSlot i slot')
  | signal {w : World} (pid : Nat) : Move forks limits w (w.sendSigterm pid)
  | load {w : World} {i : Nat} {slot : Slot} : w.Up -> w.ecg.slots[i]? = some slot ->
      limits.load slot -> Move forks limits w (w.loadExerciser forks i)
  | register {w : World} {stanza : DeviceStanza} : w.Up ->
      w.ecg.positionByName stanza.sdevId = none ->
      Move forks limits w { w with ecg := w.ecg.register stanza }
  | exit {w : World} {pid : Nat} (reason : String) : w.isLive pid ->
      Move forks limits w (w.exit pid reason)

abbrev Moves (forks : Forks) (limits : Limits) : World -> World -> Prop :=
  Relation.ReflTransGen (Move forks limits)

/-!
# The exer table mirrors the slots
-/

def mirror (slots : List Slot) : List ExerEntry :=
  slots.mapIdx fun k slot => ⟨slot.sdevId, k, slot.pid⟩

theorem set_of_getElem? {α : Type*} {l : List α} {i : Nat} {a : α} (h : l[i]? = some a) :
    l.set i a = l := by
  obtain ⟨hlt, rfl⟩ := List.getElem?_eq_some_iff.mp h
  exact set_getElem_self hlt

theorem getElem?_mirror (slots : List Slot) (k : Nat) :
    (mirror slots)[k]? = slots[k]?.map fun slot => ⟨slot.sdevId, k, slot.pid⟩ := by
  simp [mirror]

theorem mirror_append (slots : List Slot) (slot : Slot) :
    mirror (slots ++ [slot]) = mirror slots ++ [⟨slot.sdevId, slots.length, slot.pid⟩] := by
  simp [mirror, mapIdx_append]

variable {slots : List Slot} {i : Nat} {slot slot' : Slot}

section

variable (hslot : slots[i]? = some slot)

include hslot

theorem getElem?_set_slot (k : Nat) :
    (slots.set i slot')[k]? = if i = k then some slot' else slots[k]? := by
  have hlt := (List.getElem?_eq_some_iff.mp hslot).1
  rw [List.getElem?_set]
  by_cases hk : i = k
  · rw [if_pos hk, if_pos hk, if_pos (hk ▸ hlt)]
  · rw [if_neg hk, if_neg hk]

section

variable (hname : slot'.sdevId = slot.sdevId)

include hname

theorem mirror_set :
    mirror (slots.set i slot') = (mirror slots).modify i ({ · with exerPid := slot'.pid }) := by
  refine ext_getElem? fun k => ?_
  rw [getElem?_mirror, getElem?_modify, getElem?_mirror, getElem?_set_slot hslot]
  by_cases hk : i = k
  · subst hk
    rw [hslot]
    simp [hname]
  · simp [hk]

theorem mirror_set_same
    (hpid : slot'.pid = slot.pid) : mirror (slots.set i slot') = mirror slots := by
  rw [mirror, mapIdx_set, hname, hpid]
  exact set_of_getElem? (by rw [← mirror, getElem?_mirror, hslot]; rfl)

theorem map_sdevId_set : (slots.set i slot').map sdevId = slots.map sdevId := by
  rw [map_set, hname]
  exact set_of_getElem? (by rw [getElem?_map, hslot]; rfl)

end

end

theorem findIdx?_mirror {p : ExerEntry -> Bool} (hslot : slots[i]? = some slot)
    (hp : p ⟨slot.sdevId, i, slot.pid⟩ = true)
    (hunique : forall j slot', slots[j]? = some slot' ->
      p ⟨slot'.sdevId, j, slot'.pid⟩ = true -> j = i) : (mirror slots).findIdx? p = some i := by
  have hentry : (mirror slots)[i]? = some ⟨slot.sdevId, i, slot.pid⟩ := by
    rw [getElem?_mirror, hslot]
    rfl
  obtain ⟨hlt, hval⟩ := List.getElem?_eq_some_iff.mp hentry
  rw [findIdx?_eq_some_iff_getElem]
  refine ⟨hlt, by rw [hval]; exact hp, ?_⟩
  intro j hj hpj
  have hlater := List.getElem?_eq_getElem (lt_trans hj hlt)
  rw [getElem?_mirror, map_eq_some_iff] at hlater
  obtain ⟨slot', hslot', heq⟩ := hlater
  have hji := hunique j slot' hslot' (heq ▸ hpj)
  omega

theorem position_unique {j : Nat} (hnodup : (slots.map sdevId).Nodup)
    (hi : slots[i]? = some slot) (hj : slots[j]? = some slot')
    (hname : slot.sdevId = slot'.sdevId) : i = j := by
  have hlt := (List.getElem?_eq_some_iff.mp hi).1
  refine (List.getElem?_inj (by simpa using hlt) hnodup).mp ?_
  simp [hi, hj, hname]

/-!
# What holds in every run
-/

structure Consistent (forks : Forks) (w : World) : Prop where
  table : w.ecg.exerTable = mirror w.ecg.slots
  names : (w.ecg.slots.map sdevId).Nodup
  forked : forall p, p ∈ w.live -> exists j, j < w.forks ∧ forks.result j = some p.pid
  pids : (w.live.map Exerciser.pid).Nodup
  /-- A process id in a slot is that of a living exerciser of the device. -/
  alive : forall (i : Nat) (slot : Slot), w.ecg.slots[i]? = some slot -> slot.pid ≠ 0 ->
    exists p, p ∈ w.live ∧ p.pid = slot.pid ∧ p.device = slot.sdevId

namespace Consistent

variable {forks : Forks} {limits : Limits} {w w' : World}

theorem initial : Consistent forks .initial where
  table := rfl
  names := nodup_nil
  forked _ h := nomatch h
  pids := nodup_nil
  alive _ _ h := nomatch h

theorem pid_ne_zero (h : Consistent forks w) {p : Exerciser} (hp : p ∈ w.live) : p.pid ≠ 0 := by
  rcases h.forked p hp with ⟨j, _, hj⟩
  intro hzero
  exact forks.ne_zero j (hzero ▸ hj)

theorem live_unique (h : Consistent forks w) {p q : Exerciser} (hp : p ∈ w.live)
    (hq : q ∈ w.live) (hpid : p.pid = q.pid) : p = q :=
  inj_on_of_nodup_map h.pids hp hq hpid

variable {i pid : Nat} {slot : Slot}

section

variable (h : Consistent forks w)

include h

theorem slot_unique {j : Nat} {slot' : Slot}
    (hi : w.ecg.slots[i]? = some slot) (hj : w.ecg.slots[j]? = some slot') (hne : slot.pid ≠ 0)
    (hpid : slot.pid = slot'.pid) : i = j := by
  rcases h.alive i slot hi hne with ⟨p, hp, hppid, hpdev⟩
  rcases h.alive j slot' hj (hpid ▸ hne) with ⟨q, hq, hqpid, hqdev⟩
  have hpq := h.live_unique hp hq (by rw [hppid, hqpid, hpid])
  exact position_unique h.names hi hj (by rw [← hpdev, ← hqdev, hpq])

section

variable (hslot : w.ecg.slots[i]? = some slot)

include hslot

theorem isLive_slot (hne : slot.pid ≠ 0) : w.isLive slot.pid = true := by
  rcases h.alive i slot hslot hne with ⟨p, hp, hpid, _⟩
  exact any_eq_true.mpr ⟨p, hp, by simpa using hpid⟩

theorem positionByName_slot : w.ecg.positionByName slot.sdevId = some i := by
  unfold positionByName
  rw [h.table]
  refine findIdx?_mirror hslot (by simp) fun j slot' hslot' hname => ?_
  exact position_unique h.names hslot' hslot (by simpa using hname)

theorem positionByPid_slot (hne : slot.pid ≠ 0) : w.ecg.positionByPid slot.pid = some i := by
  unfold positionByPid
  rw [h.table]
  refine findIdx?_mirror hslot (by simp) fun j slot' hslot' hpid => ?_
  have hpid : slot'.pid = slot.pid := by simpa using hpid
  exact h.slot_unique hslot' hslot (hpid ▸ hne) hpid

theorem setSlot {slot' : Slot} (hname : slot'.sdevId = slot.sdevId) (hpid : slot'.pid = slot.pid) :
    Consistent forks (w.setSlot i slot') := by
  constructor
  · exact h.table.trans (mirror_set_same hslot hname hpid).symm
  · exact (map_sdevId_set hslot hname).symm ▸ h.names
  · exact h.forked
  · exact h.pids
  · intro k slot'' hk hne
    change (w.ecg.slots.set i slot')[k]? = some slot'' at hk
    rw [getElem?_set_slot hslot] at hk
    split at hk
    · cases hk
      rw [hname, hpid]
      exact h.alive i slot hslot (hpid ▸ hne)
    · exact h.alive k slot'' hk hne

end

theorem note (entry : LogEntry) : Consistent forks (w.note entry) :=
  ⟨h.table, h.names, h.forked, h.pids, h.alive⟩

theorem sendSigterm (pid : Nat) : Consistent forks (w.sendSigterm pid) := by
  have hpids : (w.sendSigterm pid).live.map Exerciser.pid = w.live.map Exerciser.pid := by
    unfold World.sendSigterm
    rw [List.map_map]
    refine map_congr_left fun p _ => ?_
    dsimp only [Function.comp]
    split <;> rfl
  constructor
  · exact h.table
  · exact h.names
  · intro p hp
    rcases mem_map.mp hp with ⟨q, hq, rfl⟩
    rcases h.forked q hq with ⟨j, hj, hres⟩
    refine ⟨j, hj, ?_⟩
    rw [hres]
    split <;> rfl
  · exact hpids ▸ h.pids
  · intro i slot hslot hne
    rcases h.alive i slot hslot hne with ⟨p, hp, hpid, hdevice⟩
    refine ⟨_, mem_map.mpr ⟨p, hp, rfl⟩, ?_, ?_⟩
    · rw [← hpid]
      split <;> rfl
    · rw [← hdevice]
      split <;> rfl

section

variable (hslot : w.ecg.slots[i]? = some slot)

include hslot

theorem table_setPid (pid : Nat) :
    mirror (w.ecg.slots.set i { slot with pid := pid }) =
      w.ecg.exerTable.modify i ({ · with exerPid := pid }) := by
  rw [h.table]
  exact mirror_set hslot rfl

theorem names_setPid (pid : Nat) :
    ((w.ecg.slots.set i { slot with pid := pid }).map sdevId).Nodup := by
  have hsame : (w.ecg.slots.set i { slot with pid := pid }).map sdevId =
      w.ecg.slots.map sdevId := map_sdevId_set hslot rfl
  exact hsame ▸ h.names

theorem loadExerciser_eq (hfork : forks.result w.forks = some pid) :
    w.loadExerciser forks i =
      { w with
        ecg := { w.ecg with
          slots := w.ecg.slots.set i { slot with pid := pid }
          exerTable := mirror (w.ecg.slots.set i { slot with pid := pid }) }
        live := ⟨pid, slot.sdevId, false⟩ :: w.live
        forks := w.forks + 1
        log := .started i :: w.log } := by
  have hposition := h.positionByName_slot hslot
  have hposition' : (w.ecg.setSlot i { slot with pid := pid }).positionByName slot.sdevId =
      some i := hposition
  rw [loadExerciser, hslot]
  rw [hfork]
  dsimp only
  rw [updateExerPid, hposition', h.table_setPid hslot]
  rfl

end

theorem fork_fresh (hfork : forks.result w.forks = some pid) {p : Exerciser} (hp : p ∈ w.live) :
    p.pid ≠ pid := by
  rcases h.forked p hp with ⟨j, hj, hres⟩
  intro heq
  have := forks.fresh j w.forks pid (heq ▸ hres) hfork
  omega

theorem loadExerciser (i : Nat) : Consistent forks (w.loadExerciser forks i) := by
  cases hslot : w.ecg.slots[i]? with
  | none =>
    rw [World.loadExerciser, hslot]
    exact h
  | some slot =>
    cases hfork : forks.result w.forks with
    | none =>
      rw [World.loadExerciser, hslot]
      rw [hfork]
      refine ⟨h.table, h.names, ?_, h.pids, h.alive⟩
      intro p hp
      rcases h.forked p hp with ⟨j, hj, hres⟩
      exact ⟨j, Nat.lt_succ_of_lt hj, hres⟩
    | some pid =>
      rw [h.loadExerciser_eq hslot hfork]
      constructor
      · rfl
      · exact h.names_setPid hslot pid
      · intro p hp
        rcases mem_cons.mp hp with rfl | hp
        · exact ⟨w.forks, Nat.lt_succ_self _, hfork⟩
        · rcases h.forked p hp with ⟨j, hj, hres⟩
          exact ⟨j, Nat.lt_succ_of_lt hj, hres⟩
      · refine nodup_cons.mpr ⟨?_, h.pids⟩
        intro hmem
        rcases mem_map.mp hmem with ⟨p, hp, hpid⟩
        exact h.fork_fresh hfork hp hpid
      · intro k slot' hk hne
        rw [getElem?_set_slot hslot] at hk
        split at hk
        · cases hk
          exact ⟨_, mem_cons_self, rfl, rfl⟩
        · rcases h.alive k slot' hk hne with ⟨p, hp, hpid, hdevice⟩
          exact ⟨p, mem_cons_of_mem _ hp, hpid, hdevice⟩

theorem register (stanza : DeviceStanza) :
    Consistent forks { w with ecg := w.ecg.register stanza } := by
  unfold LoadedEcg.register
  cases hposition : w.ecg.positionByName stanza.sdevId with
  | some k => exact h
  | none =>
    constructor
    · dsimp only
      rw [mirror_append, h.table]
      rfl
    · dsimp only
      rw [map_append, nodup_append]
      refine ⟨h.names, nodup_singleton _, ?_⟩
      intro name hname name' hname' heq
      rcases mem_map.mp hname with ⟨slot, hslot, rfl⟩
      rcases mem_iff_getElem?.mp hslot with ⟨i, hi⟩
      have hnew : slot.sdevId = stanza.sdevId := heq.trans (mem_singleton.mp hname')
      have hfound := h.positionByName_slot hi
      rw [hnew, hposition] at hfound
      cases hfound
    · exact h.forked
    · exact h.pids
    · intro i slot hi hne
      rw [getElem?_append] at hi
      split at hi
      · exact h.alive i slot hi hne
      · -- the new slot has no process yet
        rw [getElem?_singleton] at hi
        split at hi
        · cases hi
          exact absurd rfl hne
        · cases hi

theorem exit_eq (reason : String) (hslot : w.ecg.slots[i]? = some slot) (hne : slot.pid ≠ 0) :
    w.exit slot.pid reason =
      { w with
        ecg := { w.ecg with
          slots := w.ecg.slots.set i { slot with pid := 0 }
          exerTable := mirror (w.ecg.slots.set i { slot with pid := 0 }) }
        live := w.live.filter fun p => p.pid ≠ slot.pid
        log :=
          if w.ecgShutdownFlag = false then
            .exited i (exitSeverity slot) (exitText slot reason) :: w.log
          else w.log } := by
  have hposition := h.positionByPid_slot hslot hne
  have hentry : w.ecg.exerTable[i]? = some ⟨slot.sdevId, i, slot.pid⟩ := by
    rw [h.table, getElem?_mirror, hslot]
    rfl
  rw [exit, resetExerPid]
  rw [hposition]
  dsimp only
  rw [hentry]
  dsimp only
  rw [hslot, h.table_setPid hslot]
  dsimp only
  split <;> rfl

theorem exit_untracked (reason : String)
    (hnone : forall (i : Nat) (slot : Slot), w.ecg.slots[i]? = some slot -> slot.pid ≠ pid) :
    w.exit pid reason = { w with live := w.live.filter fun p => p.pid ≠ pid } := by
  have hposition : w.ecg.positionByPid pid = none := by
    rw [positionByPid, findIdx?_eq_none_iff, h.table]
    intro entry hentry
    rcases mem_iff_getElem?.mp hentry with ⟨i, hi⟩
    rw [getElem?_mirror, map_eq_some_iff] at hi
    rcases hi with ⟨slot, hslot, rfl⟩
    simpa using hnone i slot hslot
  rw [exit, resetExerPid]
  rw [hposition]

end

theorem exists_of_isLive (hlive : w.isLive pid = true) : exists p, p ∈ w.live ∧ p.pid = pid := by
  rcases any_eq_true.mp hlive with ⟨p, hp, hpid⟩
  exact ⟨p, hp, by simpa using hpid⟩

section

variable (h : Consistent forks w)

include h

theorem slot_or_none (hlive : w.isLive pid = true) : pid ≠ 0 ∧
      ((exists (i : Nat) (slot : Slot), w.ecg.slots[i]? = some slot ∧ slot.pid = pid) ∨
        forall (i : Nat) (slot : Slot), w.ecg.slots[i]? = some slot -> slot.pid ≠ pid) := by
  rcases exists_of_isLive hlive with ⟨p, hp, rfl⟩
  refine ⟨h.pid_ne_zero hp, ?_⟩
  by_cases htracked : exists (i : Nat) (slot : Slot), w.ecg.slots[i]? = some slot ∧ slot.pid = p.pid
  · exact .inl htracked
  · exact .inr fun i slot hslot hpid => htracked ⟨i, slot, hslot, hpid⟩

theorem exit (reason : String) (hlive : w.isLive pid = true) :
    Consistent forks (w.exit pid reason) := by
  rcases h.slot_or_none hlive with ⟨hne, htracked⟩
  have hforked : forall q, q ∈ w.live.filter (fun p => p.pid ≠ pid) ->
      exists j, j < w.forks ∧ forks.result j = some q.pid :=
    fun q hq => h.forked q (mem_filter.mp hq).1
  have hpids : ((w.live.filter fun p => p.pid ≠ pid).map Exerciser.pid).Nodup :=
    h.pids.sublist (filter_sublist.map _)
  -- a slot with another process id keeps its exerciser
  have halive : forall (i : Nat) (slot : Slot), w.ecg.slots[i]? = some slot ->
      slot.pid ≠ 0 -> slot.pid ≠ pid ->
      exists q, q ∈ w.live.filter (fun p => p.pid ≠ pid) ∧ q.pid = slot.pid ∧
        q.device = slot.sdevId := by
    intro i slot hslot hslotne hother
    rcases h.alive i slot hslot hslotne with ⟨q, hq, hqpid, hqdevice⟩
    refine ⟨q, mem_filter.mpr ⟨hq, ?_⟩, hqpid, hqdevice⟩
    simpa [hqpid] using hother
  rcases htracked with ⟨i, slot, hslot, rfl⟩ | hnone
  · rw [h.exit_eq reason hslot hne]
    refine ⟨rfl, ?_, hforked, hpids, ?_⟩
    · exact h.names_setPid hslot 0
    · intro k slot' hk hk0
      rw [getElem?_set_slot hslot] at hk
      split at hk
      · cases hk
        exact absurd rfl hk0
      · rename_i hik
        refine halive k slot' hk hk0 fun hsame => hik ?_
        exact h.slot_unique hslot hk hne hsame.symm
  · rw [h.exit_untracked reason hnone]
    exact ⟨h.table, h.names, hforked, hpids,
      fun i slot hslot hslotne => halive i slot hslot hslotne (hnone i slot hslot)⟩

theorem move (hmove : Move forks limits w w') : Consistent forks w' := by
  cases hmove with
  | newEcg entries hidle | endShutdown hstate hstill =>
    exact ⟨rfl, nodup_nil, h.forked, h.pids, fun _ _ hslot => nomatch hslot⟩
  | running hstate | beginShutdown hstate hlimit =>
    exact ⟨h.table, h.names, h.forked, h.pids, h.alive⟩
  | rewrite hslot hname hpid hflagged | stale hlimit hslot hname hpid =>
    exact h.setSlot hslot hname hpid
  | mark hslot hname hpid hflagged => exact (h.setSlot hslot hname hpid).note _
  | signal pid => exact h.sendSigterm pid
  | load hup hslot hlimit => exact h.loadExerciser _
  | register hup hnew => exact h.register _
  | exit reason hlive => exact h.exit reason hlive

theorem moves (hmoves : Moves forks limits w w') : Consistent forks w' := by
  induction hmoves with
  | refl => exact h
  | tail _ hmove ih => exact ih.move hmove

end

end Consistent

/-!
# Events as moves
-/

namespace World

def restartPositions (w : World) : Option (List String) -> List Nat
  | none => range w.ecg.slots.length
  | some names => names.filterMap w.ecg.positionInShm

variable {forks : Forks} {limits : Limits} {w : World}

theorem runState_loadExerciser (i : Nat) : (w.loadExerciser forks i).runState = w.runState := by
  unfold loadExerciser
  split
  · rfl
  · split <;> rfl

theorem slots_updateExerPid (ecg : LoadedEcg) (name : String) (pid : Nat) :
    (ecg.updateExerPid name pid).slots = ecg.slots := by
  unfold updateExerPid
  split <;> rfl

variable {i : Nat} {ecg : LoadedEcg} {stanza : DeviceStanza} {slot : Slot} {names : List String}

theorem slot_loadExerciser {k : Nat} {slot' : Slot}
    (hk : (w.loadExerciser forks i).ecg.slots[k]? = some slot') :
    exists slot, w.ecg.slots[k]? = some slot ∧
      (slot' = slot ∨ k = i ∧ exists pid, pid ≠ 0 ∧ slot' = { slot with pid := pid }) := by
  cases hslot : w.ecg.slots[i]? with
  | none =>
    rw [loadExerciser, hslot] at hk
    exact ⟨slot', hk, .inl rfl⟩
  | some slot =>
    rw [loadExerciser, hslot] at hk
    dsimp only at hk
    split at hk
    · exact ⟨slot', hk, .inl rfl⟩
    · rename_i pid hfork
      rw [slots_updateExerPid, LoadedEcg.setSlot, getElem?_set_slot hslot] at hk
      split at hk
      · rename_i hik
        cases hk
        refine ⟨slot, hik ▸ hslot, .inr ⟨hik.symm, pid, ?_, rfl⟩⟩
        rintro rfl
        exact forks.ne_zero _ hfork
      · exact ⟨slot', hk, .inl rfl⟩

theorem names_loadExerciser (i : Nat) :
    (w.loadExerciser forks i).ecg.slots.map sdevId = w.ecg.slots.map sdevId := by
  unfold loadExerciser
  split
  · rfl
  · rename_i slot hslot
    split
    · rfl
    · rw [slots_updateExerPid]
      exact map_sdevId_set hslot rfl

theorem positionInShm_eq (ecg : LoadedEcg) (name : String) :
    ecg.positionInShm name = (ecg.slots.map sdevId).findIdx? fun n => n = name := by
  rw [positionInShm, findIdx?_map]
  rfl

theorem positionInShm_loadExerciser (i : Nat) (name : String) :
    (w.loadExerciser forks i).ecg.positionInShm name = w.ecg.positionInShm name := by
  rw [positionInShm_eq, positionInShm_eq, names_loadExerciser]

theorem restart_eq_loadAll (devices : Option (List String)) :
    w.restart forks devices = w.loadAll forks (w.restartPositions devices) := by
  cases devices with
  | none => rfl
  | some names =>
    induction names generalizing w with
    | nil => rfl
    | cons name rest ih =>
      rw [restart, foldl_cons, restartPositions, filterMap_cons]
      cases hposition : w.ecg.positionInShm name with
      | none => exact ih
      | some i =>
        have hsame : (w.loadExerciser forks i).ecg.positionInShm =
            w.ecg.positionInShm := funext (positionInShm_loadExerciser i)
        have hrest := ih (w := w.loadExerciser forks i)
        rw [restartPositions, hsame] at hrest
        exact hrest

theorem moves_load (hup : w.Up)
    (hload : forall slot, w.ecg.slots[i]? = some slot -> limits.load slot) :
    Moves forks limits w (w.loadExerciser forks i) := by
  cases hslot : w.ecg.slots[i]? with
  | none => rw [loadExerciser, hslot]
  | some slot => exact .single (.load hup hslot (hload slot hslot))

theorem up_loadExerciser (hup : w.Up) (i : Nat) : (w.loadExerciser forks i).Up := by
  unfold Up
  rw [runState_loadExerciser]
  exact hup

theorem moves_loadAll (positions : List Nat) (hup : w.Up)
    (hload : forall i, i ∈ positions -> forall slot, w.ecg.slots[i]? = some slot ->
      limits.load slot)
    (hkeep : positions.Nodup ∨
      forall slot pid, limits.load slot -> limits.load { slot with pid := pid }) :
    Moves forks limits w (w.loadAll forks positions) := by
  induction positions generalizing w with
  | nil => exact .refl
  | cons i rest ih =>
    refine (moves_load hup (hload i mem_cons_self)).trans ?_
    refine ih (up_loadExerciser hup i) ?_ (hkeep.imp_left fun h => (nodup_cons.mp h).2)
    intro k hk slot' hslot'
    rcases slot_loadExerciser hslot' with ⟨slot, hslot, rfl | ⟨rfl, pid, _, rfl⟩⟩
    · exact hload k (mem_cons_of_mem i hk) _ hslot
    · rcases hkeep with hnodup | hkeep
      · exact absurd hk (nodup_cons.mp hnodup).1
      · exact hkeep slot pid (hload k mem_cons_self slot hslot)

theorem moves_foldl {α : Type*} {f : World -> α -> World}
    (hf : forall w a, Consistent forks w -> Moves forks limits w (f w a)) (l : List α)
    (h : Consistent forks w) : Moves forks limits w (l.foldl f w) := by
  induction l generalizing w with
  | nil => exact .refl
  | cons a rest ih => exact (hf w a h).trans (ih (h.moves (hf w a h)))

theorem moves_terminateSlot (i : Nat) (h : Consistent forks w) :
    Moves forks limits w (w.terminateSlot i) := by
  cases hslot : w.ecg.slots[i]? with
  | none => rw [terminateSlot, hslot]
  | some slot =>
    rw [terminateSlot, hslot]
    dsimp only
    split
    · rename_i hrunning
      rw [if_pos (h.isLive_slot hslot hrunning.1)]
      -- the flag is noted before the signal is sent
      have hmark : Move forks limits w
          ((w.setSlot i { slot with userTerm := true }).note (.terminated i)) :=
        .mark hslot rfl rfl (.inl rfl)
      exact (single hmark).tail (.signal slot.pid)
    · exact .refl

theorem moves_terminate (devices : Option (List String)) (h : Consistent forks w) :
    Moves forks limits w (w.terminate devices) := by
  cases devices with
  | none => exact moves_foldl (fun w i => moves_terminateSlot i) _ h
  | some names =>
    refine moves_foldl (fun w name h => ?_) _ h
    split
    · exact .refl
    · exact moves_terminateSlot _ h

theorem moves_unloadExercisers (hrunning : w.runState = .runningMdt)
    (hlimit : limits.shutdown w) (h : Consistent forks w) :
    Moves forks limits w w.unloadExercisers := by
  have hbegin : Move forks limits w
      { w with runState := .shuttingDownMdt, ecgShutdownFlag := true } :=
    .beginShutdown hrunning hlimit
  refine head hbegin (moves_foldl (fun w i _ => ?_) _ (h.move hbegin))
  split
  · exact .single (.signal _)
  · exact .refl

theorem moves_register (hup : w.Up) (stanza : DeviceStanza) :
    Moves forks limits w { w with ecg := w.ecg.register stanza } := by
  cases hposition : w.ecg.positionByName stanza.sdevId with
  | none => exact .single (.register hup hposition)
  | some k => rw [register, hposition]

theorem moves_registerAll (hup : w.Up) (stanzas : List DeviceStanza) :
    Moves forks limits w { w with ecg := stanzas.foldl register w.ecg } := by
  induction stanzas generalizing w with
  | nil => exact .refl
  | cons stanza rest ih =>
    exact (moves_register hup stanza).trans (ih (w := { w with ecg := w.ecg.register stanza }) hup)

theorem slot_register (hslot : slot ∈ (ecg.register stanza).slots) :
    slot ∈ ecg.slots ∨ ecg.positionByName stanza.sdevId = none ∧ slot = .ofStanza stanza := by
  unfold register at hslot
  split at hslot
  · exact .inl hslot
  · rename_i hposition
    rcases mem_append.mp hslot with hold | hnew
    · exact .inl hold
    · exact .inr ⟨hposition, mem_singleton.mp hnew⟩

theorem slot_registerAll {stanzas : List DeviceStanza}
    (hslot : slot ∈ (stanzas.foldl register ecg).slots) :
    slot ∈ ecg.slots ∨ exists stanza, slot = .ofStanza stanza := by
  induction stanzas generalizing ecg with
  | nil => exact .inl hslot
  | cons stanza rest ih =>
    rcases ih hslot with hslot | hnew
    · exact (slot_register hslot).imp_right fun h => ⟨stanza, h.2⟩
    · exact .inr hnew

theorem moves_runMdt (hidle : w.runState = .idle) (stanzas : List DeviceStanza)
    (complete : Bool) : Moves forks limits w (w.runMdt forks stanzas complete) := by
  refine head (.newEcg (if complete then stanzas.length else -1) hidle) ?_
  refine (moves_registerAll (.inl rfl) stanzas).trans ?_
  refine moves_loadAll _ (.inl rfl) ?_ (.inl nodup_range)
  intro i _ slot hslot
  rcases slot_registerAll (mem_of_getElem? hslot) with hnone | ⟨stanza, rfl⟩
  · cases hnone
  · exact limits.load_ofStanza stanza

def DrWithin (limits : Limits) (w : World) (names : List String) : Prop :=
  forall slot, slot ∈ w.ecg.slots -> slot.sdevId ∈ names -> slot.pid = 0 -> slot.drTerm ->
    limits.load slot

theorem drWithin_loadExerciser (h : DrWithin limits w names) (i : Nat) :
    DrWithin limits (w.loadExerciser forks i) names := by
  intro slot' hslot' hname hpid hdr
  rcases mem_iff_getElem?.mp hslot' with ⟨k, hk⟩
  rcases slot_loadExerciser hk with ⟨slot, hslot, rfl | ⟨_, pid, hne, rfl⟩⟩
  · exact h _ (mem_of_getElem? hslot) hname hpid hdr
  · exact absurd hpid hne

theorem drWithin_register (h : DrWithin limits w names) (stanza : DeviceStanza) :
    DrWithin limits { w with ecg := w.ecg.register stanza } names := by
  intro slot hslot hname hpid hdr
  rcases slot_register hslot with hold | ⟨_, rfl⟩
  · exact h slot hold hname hpid hdr
  · cases hdr

section

variable {name : String} (hposition : ecg.positionInShm name = some i)
  (hslot : ecg.slots[i]? = some slot)

include hposition hslot

theorem needDrRestart_eq : ecg.needDrRestart name = decide (slot.pid = 0 ∧ slot.drTerm) := by
  unfold needDrRestart
  rw [hposition, bind_some, hslot]

theorem sdevId_of_positionInShm : slot.sdevId = name := by
  rcases findIdx?_eq_some_iff_getElem.mp hposition with ⟨hlt, hname, _⟩
  rw [getElem?_eq_getElem hlt] at hslot
  cases hslot
  simpa using hname

end

theorem moves_hotplugStanza (hup : w.Up) (h : Consistent forks w) (hdr : DrWithin limits w names)
    (hmem : stanza.sdevId ∈ names) :
    Moves forks limits w (w.hotplugStanza forks stanza) := by
  have hregister : Moves forks limits w { w with ecg := w.ecg.register stanza } :=
    moves_register hup stanza
  have hup' : World.Up { w with ecg := w.ecg.register stanza } := hup
  unfold hotplugStanza
  dsimp only
  split
  · exact hregister
  · rename_i hstart
    split
    · exact hregister
    · rename_i i hposition
      refine hregister.trans (moves_load hup' ?_)
      intro slot hslot
      rcases slot_register (mem_of_getElem? hslot) with hold | ⟨_, rfl⟩
      · -- a known device, which needs the restart
        have hname := sdevId_of_positionInShm hposition hslot
        have hknown : (w.ecg.positionByName stanza.sdevId).isSome = true := by
          rcases mem_iff_getElem?.mp hold with ⟨k, hk⟩
          rw [← hname, h.positionByName_slot hk]
          rfl
        have hneed : (w.ecg.register stanza).needDrRestart stanza.sdevId = true := by
          by_contra hnot
          exact hstart ⟨hknown, Bool.not_eq_true _ ▸ hnot⟩
        rw [needDrRestart_eq hposition hslot, decide_eq_true_eq] at hneed
        exact hdr slot hold (hname ▸ hmem) hneed.1 hneed.2
      · exact limits.load_ofStanza stanza

theorem hotplugStanza_keeps (hdr : DrWithin limits w names) :
    DrWithin limits (w.hotplugStanza forks stanza) names := by
  have hregister := drWithin_register hdr stanza
  unfold hotplugStanza
  dsimp only
  split
  · exact hregister
  · split
    · exact hregister
    · exact drWithin_loadExerciser hregister _

theorem up_hotplugStanza (hup : w.Up) (stanza : DeviceStanza) :
    (w.hotplugStanza forks stanza).Up := by
  have hup' : World.Up { w with ecg := w.ecg.register stanza } := hup
  unfold hotplugStanza
  dsimp only
  split
  · exact hup
  · split
    · exact hup
    · exact up_loadExerciser hup' _

theorem moves_hotplug {stanzas : List DeviceStanza} (hup : w.Up) (h : Consistent forks w)
    (hdr : DrWithin limits w names)
    (hmem : forall stanza, stanza ∈ stanzas -> stanza.sdevId ∈ names) :
    Moves forks limits w (stanzas.foldl (hotplugStanza forks) w) := by
  induction stanzas generalizing w with
  | nil => exact .refl
  | cons stanza rest ih =>
    have hfirst := moves_hotplugStanza hup h hdr (hmem stanza mem_cons_self)
    refine hfirst.trans (ih (up_hotplugStanza hup stanza) (h.moves hfirst)
      (hotplugStanza_keeps hdr) ?_)
    intro stanza' hstanza'
    exact hmem stanza' (mem_cons_of_mem stanza hstanza')

theorem moves_write (what : SlotWrite) (hslot : w.ecg.slots[i]? = some slot) :
    Moves forks limits w (w.write i slot what) := by
  cases what with
  | lastUpdate tm | startDelay | startTest time => exact .single (.rewrite hslot rfl rfl Iff.rfl)
  | reconfig => exact .single (.mark hslot rfl rfl (.inr (.inl rfl)))

theorem moves_stopWatch (hslot : w.ecg.slots[i]? = some slot)
    (hlimit : slot.pid = 0 -> limits.stale) :
    Moves forks limits w (w.stopWatch i slot) := by
  unfold stopWatch
  split
  · have hmark : Move forks limits w
        ((w.setSlot i { slot with testRunPeriodExpired := true }).note (.terminated i)) :=
      .mark hslot rfl rfl (.inr (.inr rfl))
    exact (single hmark).tail (.signal slot.pid)
  · rename_i hpid
    exact .single (.stale (hlimit (not_not.mp hpid)) hslot rfl rfl)

end World

def Limits.Within (limits : Limits) (w : World) : ExerEvent -> Prop
  | .restart devices =>
    (forall i, i ∈ w.restartPositions devices -> forall slot, w.ecg.slots[i]? = some slot ->
      limits.load slot) ∧
    ((w.restartPositions devices).Nodup ∨
      forall slot pid, limits.load slot -> limits.load { slot with pid := pid })
  | .hotplug stanzas => World.DrWithin limits w (stanzas.map DeviceStanza.sdevId)
  | .stopWatch i _ =>
    forall slot, w.ecg.slots[i]? = some slot -> slot.pid = 0 -> limits.stale
  | .shutdown => limits.shutdown w
  | _ => True

theorem World.step_moves {forks : Forks} {limits : Limits} {w w' : World} {e : ExerEvent}
    (h : Consistent forks w) (hwithin : limits.Within w e)
    (hstep : w.step forks e = some w') : Moves forks limits w w' := by
  cases e with
  | run stanzas complete =>
    rw [step, ite_none_right_eq_some] at hstep
    obtain ⟨hidle, ⟨⟩⟩ := hstep
    exact moves_runMdt hidle stanzas complete
  | running =>
    rw [step, ite_none_right_eq_some] at hstep
    obtain ⟨hstarting, ⟨⟩⟩ := hstep
    exact .single (.running hstarting)
  | terminate devices =>
    rw [step, ite_none_right_eq_some] at hstep
    obtain ⟨-, ⟨⟩⟩ := hstep
    exact moves_terminate devices h
  | restart devices =>
    rw [step, ite_none_right_eq_some] at hstep
    obtain ⟨hrunning, ⟨⟩⟩ := hstep
    rw [restart_eq_loadAll]
    exact moves_loadAll _ (.inr hrunning) hwithin.1 hwithin.2
  | hotplug stanzas =>
    rw [step, ite_none_right_eq_some] at hstep
    obtain ⟨hrunning, ⟨⟩⟩ := hstep
    exact moves_hotplug (.inr hrunning) h hwithin fun stanza => mem_map_of_mem
  | exit pid reason =>
    rw [step, ite_none_right_eq_some] at hstep
    obtain ⟨hlive, ⟨⟩⟩ := hstep
    exact .single (.exit reason hlive)
  | write i what =>
    rw [step] at hstep
    split at hstep
    · cases hstep
    · rename_i slot hslot
      obtain ⟨-, ⟨⟩⟩ := ite_none_right_eq_some.mp hstep
      exact moves_write what hslot
  | stopWatch i now =>
    rw [step] at hstep
    split at hstep
    · cases hstep
    · rename_i slot hslot
      obtain ⟨-, ⟨⟩⟩ := ite_none_right_eq_some.mp hstep
      exact moves_stopWatch hslot (hwithin slot hslot)
  | shutdown =>
    rw [step, ite_none_right_eq_some] at hstep
    obtain ⟨hrunning, ⟨⟩⟩ := hstep
    exact moves_unloadExercisers hrunning hwithin h
  | shutdownDone =>
    rw [step, ite_none_right_eq_some] at hstep
    obtain ⟨hdone, ⟨⟩⟩ := hstep
    exact .single (.endShutdown hdone.1 hdone.2)

theorem exer_invariant {forks : Forks} {limits : Limits}
    {Guard : World -> ExerEvent -> Prop} {Inv : World -> Prop}
    (hguard : forall w e, Guard w e -> limits.Within w e) (hinit : Inv .initial)
    (hmove : forall w w', Consistent forks w -> Inv w -> Move forks limits w w' -> Inv w')
    {w : World} (hreach : (exerSystem forks).ReachableUnder Guard w) :
    Consistent forks w ∧ Inv w := by
  have hmoves : forall {w w' : World}, Consistent forks w -> Inv w ->
      Moves forks limits w w' -> Consistent forks w' ∧ Inv w' := by
    intro w w' h hinv hmoves
    induction hmoves with
    | refl => exact ⟨h, hinv⟩
    | tail _ hlast ih => exact ⟨ih.1.move hlast, hmove _ _ ih.1 ih.2 hlast⟩
  refine @Library.EventSystem.ReachableUnder.invariant _ _ (exerSystem forks) Guard
    (fun w => Consistent forks w ∧ Inv w) w (fun w hw => ?_) ?_ hreach
  · have hw : w = initial := hw
    rw [hw]
    exact ⟨.initial, hinit⟩
  · intro w e w' h he hstep
    exact hmoves h.1 h.2 (step_moves h.1 (hguard w e he) hstep)

def anyLimits : Limits :=
  ⟨fun _ => True, True, fun _ => True, fun _ => trivial⟩

theorem anyLimits_within (w : World) (e : ExerEvent) : anyLimits.Within w e := by
  cases e <;> simp [Limits.Within, World.DrWithin, anyLimits]

/-- Whatever is started, restarted, terminated or exits, the exer table mirrors the slots, and
the process id in a slot is that of a living exerciser of its device. -/
theorem exercisers_consistent (forks : Forks) (events : List ExerEvent) :
    (exerSystem forks).Along (Consistent forks) .initial events := by
  refine Library.EventSystem.Reachable.along (fun w hw => ?_) (.init rfl) events
  exact (@exer_invariant forks anyLimits (fun _ _ => True) (fun _ => True)
    (fun w e _ => anyLimits_within w e) trivial (fun _ _ _ _ _ => trivial) w hw).1

end Htx.Htxd
