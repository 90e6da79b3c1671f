import Mathlib

/-!
# Pages of devices

`htxscreen` shows the devices of an ECG page by page and changes the devices of a page.
The loops of the daemon bound a page by an absolute position, or by a count from the
start of the page.
-/

namespace Htx.Htxd

open List

def screen5EntriesPerPage : Nat := 2 * 17

def screen24DevicesPerPage : Nat := 15

inductive OperationMode where
  | singleDevice
  | screenDevices
  | allDevices
  deriving DecidableEq

/-- `entries` is `ecg_shm_exerciser_entries`; there are semaphores for `places` devices,
among them those that may be added later. -/
structure PagedEcg where
  entries : Nat
  places : Nat
  entries_le : entries ≤ places

namespace PagedEcg

/-- The announced number of rows, and the positions of the rows. -/
def screen5AllDevice (ecg : PagedEcg) (start : Nat) : Int × List Nat :=
  let displayDeviceCount : Int := ecg.entries - start
  (min displayDeviceCount screen5EntriesPerPage,
    range' start (min ecg.entries screen5EntriesPerPage))

def screen24AllDevice (ecg : PagedEcg) (start : Nat) : List Nat :=
  range' start (min ecg.entries (screen24DevicesPerPage + start) - start)

def toggled (value : Int) : Int :=
  if value = 1 then 0 else 1

section

variable (ecg : PagedEcg)

/-- The stores to `cont_on_err`, each with the position of the device. -/
def toggleCoeSoe (position : Nat) (operation : Int) (contOnErr : Nat -> Int) :
    OperationMode -> List (Nat × Int)
  | .singleDevice => [(position, toggled (contOnErr position))]
  | .screenDevices => (range' position (min ecg.entries 15)).map fun i => (i, operation)
  | .allDevices => (range' 0 ecg.entries).map fun i => (i, operation)

/-- `semctl` refuses a semaphore that does not exist and a value beyond `SEMVMX`. -/
def setDeviceRunSemStatus (sets : List (Nat × Int)) : List (Nat × Int) :=
  sets.filter fun set => set.1 < ecg.places ∧ 0 ≤ set.2 ∧ set.2 ≤ 32767

def getDeviceRunSemStatus (sem : Nat -> Int) (position : Nat) : Int :=
  if position < ecg.places then sem position else -1

/-- The semaphores that are set. -/
def toggleActivateHalt (position : Nat) (operation : Int) (sem : Nat -> Int) :
    OperationMode -> List (Nat × Int)
  | .singleDevice =>
    ecg.setDeviceRunSemStatus [(position, toggled (ecg.getDeviceRunSemStatus sem position))]
  | .screenDevices => ecg.setDeviceRunSemStatus
      ((range (min ecg.entries 15)).map fun i => (position + i, operation))
  | .allDevices => ecg.setDeviceRunSemStatus
      ((range ecg.entries).map fun i => (position + i, operation))

def page (start perPage : Nat) : List Nat :=
  range' start (min (start + perPage) ecg.entries - start)

/-- The positions a command is to change. -/
def affected (position : Nat) : OperationMode -> List Nat
  | .singleDevice => ecg.page position 1
  | .screenDevices => ecg.page position 15
  | .allDevices => ecg.page 0 ecg.entries

end

def Changes (stores : List (Nat × Int)) (positions : List Nat) : Prop :=
  forall i, i ∈ stores.map Prod.fst <-> i ∈ positions

theorem mem_stores (positions : List Nat) (value : Int) (i : Nat) :
    i ∈ (positions.map fun j => (j, value)).map Prod.fst <-> i ∈ positions := by
  simp

theorem mem_sets {ecg : PagedEcg} {value : Int} (h : 0 ≤ value ∧ value ≤ 32767)
    (position count i : Nat) :
    i ∈ (ecg.setDeviceRunSemStatus
        ((range count).map fun j => (position + j, value))).map Prod.fst <->
      position ≤ i ∧ i < position + count ∧ i < ecg.places := by
  simp only [setDeviceRunSemStatus, mem_map, mem_filter, mem_range]
  constructor
  · rintro ⟨_, ⟨⟨j, hj, rfl⟩, hplace⟩, rfl⟩
    simp only [decide_eq_true_eq] at hplace
    exact ⟨Nat.le_add_right _ _, Nat.add_lt_add_left hj _, hplace.1⟩
  · rintro ⟨hle, hlt, hplace⟩
    refine ⟨(i, value), ⟨⟨i - position, by omega, ?_⟩, by simp [hplace, h]⟩, rfl⟩
    rw [Nat.add_sub_cancel' hle]

theorem toggled_range (value : Int) : 0 ≤ toggled value ∧ toggled value ≤ 32767 := by
  unfold toggled
  split <;> decide

/-- Screens 2 and 4 and the change of all error modes keep to the ECG.  The other
commands run over its end on a page that is not full, and the activation of all
devices starts at the position of the page. -/
theorem paging_iff (ecg : PagedEcg) {start : Nat} (hstart : start ≤ ecg.entries)
    (operation : Int) (status : Nat -> Int) :
    (((ecg.screen5AllDevice start).2 = ecg.page start screen5EntriesPerPage ∧
        (ecg.screen5AllDevice start).1 = (ecg.screen5AllDevice start).2.length) <->
      start = 0 ∨ start + screen5EntriesPerPage ≤ ecg.entries) ∧
    ecg.screen24AllDevice start = ecg.page start screen24DevicesPerPage ∧
    (forall mode, Changes (ecg.toggleCoeSoe start operation status mode)
        (ecg.affected start mode) <->
      match mode with
      | .singleDevice => start < ecg.entries
      | .screenDevices => start = 0 ∨ start + 15 ≤ ecg.entries
      | .allDevices => True) ∧
    (0 ≤ operation ∧ operation ≤ 32767 -> forall mode,
      Changes (ecg.toggleActivateHalt start operation status mode) (ecg.affected start mode) <->
      match mode with
      | .singleDevice => start < ecg.entries ∨ ecg.entries = ecg.places
      | .screenDevices => start = 0 ∨ start + 15 ≤ ecg.entries ∨ ecg.entries = ecg.places
      | .allDevices => start = 0) := by
  have hplaces := ecg.entries_le
  refine ⟨?_, ?_, fun mode => ?_, fun hop mode => ?_⟩
  · simp only [screen5AllDevice, page, length_range', range'_inj,
      screen5EntriesPerPage, or_true, and_true]
    exact ⟨fun h => by omega, fun h => by omega⟩
  · rw [screen24AllDevice, page, add_comm, min_comm]
  · unfold Changes
    cases mode with
    | singleDevice =>
      simp only [toggleCoeSoe, affected, page, map_cons, map_nil, mem_singleton,
        mem_range'_1]
      exact ⟨fun h => by have := h start; omega, fun h i => by omega⟩
    | screenDevices =>
      simp only [toggleCoeSoe, mem_stores, affected, page, mem_range'_1]
      exact ⟨fun h => by have := h ecg.entries; omega, fun h i => by omega⟩
    | allDevices => simp [toggleCoeSoe, affected, page]
  · unfold Changes
    cases mode with
    | singleDevice =>
      have hone := @mem_sets ecg _
        (toggled_range (ecg.getDeviceRunSemStatus status start)) start 1
      simp only [toggleActivateHalt, affected, page, mem_range'_1]
      refine ⟨fun h => ?_, fun h i => (hone i).trans (by omega)⟩
      have := (hone start).symm.trans (h start)
      omega
    | screenDevices =>
      simp only [toggleActivateHalt, mem_sets hop, affected, page, mem_range'_1]
      exact ⟨fun h => by have := h ecg.entries; omega, fun h i => by omega⟩
    | allDevices =>
      simp only [toggleActivateHalt, mem_sets hop, affected, page, mem_range'_1]
      exact ⟨fun h => by have := h 0; omega, fun h i => by omega⟩

def twentyDevices : PagedEcg where
  entries := 20
  places := 40
  entries_le := Nat.le_of_ble_eq_true rfl

theorem paging_first_page :
    (twentyDevices.screen5AllDevice 0).2 = twentyDevices.page 0 screen5EntriesPerPage ∧
      (twentyDevices.screen5AllDevice 0).1 = (twentyDevices.screen5AllDevice 0).2.length ∧
      Changes (twentyDevices.toggleCoeSoe 0 1 (fun _ => 0) .screenDevices) (range' 0 15) ∧
      Changes (twentyDevices.toggleActivateHalt 0 1 (fun _ => 0) .allDevices) (range' 0 20) := by
  obtain ⟨hscreen, -, hcoe, hactivate⟩ := paging_iff twentyDevices (Nat.zero_le 20) 1 fun _ => 0
  obtain ⟨hrows, hcount⟩ := hscreen.mpr (.inl rfl)
  exact ⟨hrows, hcount, (hcoe .screenDevices).mpr (.inl rfl),
    (hactivate (by decide) .allDevices).mpr rfl⟩

/-- The page from position 15 on, of an ECG that has 20 devices. -/
theorem last_page_overruns :
    (twentyDevices.screen5AllDevice 15).1 = 5 ∧
      (twentyDevices.screen5AllDevice 15).2.length = 20 ∧
      20 ∈ (twentyDevices.toggleCoeSoe 15 1 (fun _ => 0) .screenDevices).map Prod.fst ∧
      20 ∈ (twentyDevices.toggleActivateHalt 15 1 (fun _ => 0) .screenDevices).map Prod.fst ∧
      0 ∉ (twentyDevices.toggleActivateHalt 15 1 (fun _ => 0) .allDevices).map Prod.fst := by
  decide

end PagedEcg

end Htx.Htxd
