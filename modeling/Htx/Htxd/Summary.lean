import Htx.Htxd.ExitReason

/-!
# The summary of an ECG

`htxd_getecgsum_all_device` counts the devices by the text of their status.  Two of the
texts it never compares with, a third it counts in a field that is not printed, and a
status that cannot be read leaves the text of the device before.
-/

namespace Htx.Htxd

open List Function

/-- The categories of the summary, each under its status, in the order printed. -/
def printedStatuses : List RunStatus :=
  [.running, .stopped, .error, .partially, .terminated, .dead, .hung, .complete, .blank]

/-- The loop over the devices; `text` is `device_run_status`.  The counter of `DT` is
`dr_terminated_device`. -/
def ecgSumLoop (entries : Nat) :
    Option RunStatus -> List (Option RunStatus) -> (RunStatus -> Nat) -> RunStatus -> Nat
  | _, [], counts => counts
  | text, status :: rest, counts =>
    match status.or text with
    | some .blank => update counts .blank entries
    | none => ecgSumLoop entries none rest counts
    | some status =>
      if status = .runTimeOver ∨ status = .startDelayed then
        ecgSumLoop entries (some status) rest counts
      else
        ecgSumLoop entries (some status) rest
          (update counts status (counts status + 1))

/-- The counters; `text` and `drTerminated` are what the stack holds before. -/
def getecgsumAllDevice (started : Bool) (devices : List (Slot × DeviceView))
    (text : Option RunStatus) (drTerminated : Nat) : RunStatus -> Nat :=
  ecgSumLoop devices.length text
    (devices.map fun device => deviceRunStatus started device.1 device.2)
    (update (fun _ => 0) .drTerminated drTerminated)

def Accounts (statuses : List (Option RunStatus)) (counts : RunStatus -> Nat) : Prop :=
  (forall status, status ∈ printedStatuses -> counts status = statuses.count (some status)) ∧
    (printedStatuses.map counts).sum = statuses.length

theorem sum_count_printed (statuses : List (Option RunStatus)) :
    (printedStatuses.map fun status => statuses.count (some status)).sum =
      statuses.countP fun status => decide (exists s, s ∈ printedStatuses ∧ status = some s) := by
  induction statuses with
  | nil => rfl
  | cons status rest ih =>
    rw [countP_cons, ← ih]
    cases status with
    | none => simp [printedStatuses]
    | some status => cases status <;> simp [printedStatuses] <;> omega

variable {statuses : List (Option RunStatus)}

theorem Accounts.printed {counts : RunStatus -> Nat}
    (h : Accounts statuses counts) {status : Option RunStatus} (hmem : status ∈ statuses) :
    exists s, s ∈ printedStatuses ∧ status = some s := by
  have hsum := h.2
  rw [map_congr_left h.1, sum_count_printed] at hsum
  exact of_decide_eq_true (countP_eq_length.mp hsum status hmem)

theorem ecgSumLoop_of_printed (entries : Nat) (h : forall status, status ∈ statuses ->
      exists s, s ∈ printedStatuses ∧ s ≠ .blank ∧ status = some s)
    (text : Option RunStatus) (counts : RunStatus -> Nat) (status : RunStatus) :
    ecgSumLoop entries text statuses counts status =
      counts status + statuses.count (some status) := by
  induction statuses generalizing text counts with
  | nil => rfl
  | cons first rest ih =>
    rcases h first mem_cons_self with ⟨s, hs, hblank, rfl⟩
    have hrest := ih fun status hmem => h status (mem_cons_of_mem _ hmem)
    have hcounted : ¬ (s = .runTimeOver ∨ s = .startDelayed) := by
      rintro (rfl | rfl) <;> simp [printedStatuses] at hs
    have hstep : ecgSumLoop entries text (some s :: rest) counts =
        ecgSumLoop entries (some s) rest (update counts s (counts s + 1)) := by
      cases s <;> first | exact absurd rfl hblank | rfl | simp at hcounted
    rw [hstep, hrest, count_cons]
    by_cases heq : status = s
    · subst heq
      simp
      omega
    · simp [heq, Ne.symm heq]

theorem Accounts.of_counts {counts : RunStatus -> Nat}
    (hprinted : forall status, status ∈ statuses -> exists s, s ∈ printedStatuses ∧ status = some s)
    (hcounts : forall status, status ∈ printedStatuses ->
      counts status = statuses.count (some status)) : Accounts statuses counts := by
  refine ⟨hcounts, ?_⟩
  rw [map_congr_left hcounts, sum_count_printed, countP_eq_length]
  exact fun status hmem => decide_eq_true (hprinted status hmem)

theorem deviceRunStatus_ne_blank (slot : Slot) (v : DeviceView) :
    deviceRunStatus true slot v ≠ some .blank := by
  unfold deviceRunStatus
  split_ifs <;> simp_all

/-- Every device is counted once, in the category of its status, exactly if no device
is over its run time, terminated by a DR operation or started with a delay, and the
error semaphore of each can be read. -/
theorem getecgsum_accounts_iff (started : Bool) (devices : List (Slot × DeviceView))
    (text : Option RunStatus) (drTerminated : Nat) :
    Accounts (devices.map fun device => deviceRunStatus started device.1 device.2)
        (getecgsumAllDevice started devices text drTerminated) <->
      forall device, device ∈ devices ->
        exists s, s ∈ printedStatuses ∧ deviceRunStatus started device.1 device.2 = some s := by
  constructor
  · intro h device hmem
    exact h.printed (mem_map_of_mem hmem)
  · intro h
    refine Accounts.of_counts (forall_mem_map.mpr h) fun status hstatus => ?_
    have hinit : update (fun _ => 0) .drTerminated drTerminated status = 0 := by
      cases status <;> simp [printedStatuses] at hstatus ⊢
    cases started with
    | true =>
      rw [getecgsumAllDevice, ecgSumLoop_of_printed, hinit, Nat.zero_add]
      refine forall_mem_map.mpr fun device hmem => ?_
      rcases h device hmem with ⟨s, hs, hdevice⟩
      refine ⟨s, hs, ?_, hdevice⟩
      rintro rfl
      exact deviceRunStatus_ne_blank _ _ hdevice
    | false =>
      -- the first device ends the loop, and all devices are inactive
      have hall : (devices.map fun device => deviceRunStatus false device.1 device.2) =
          replicate devices.length (some .blank) := by
        simp [deviceRunStatus]
      rw [getecgsumAllDevice, hall]
      cases devices with
      | nil => exact hinit
      | cons device rest =>
        change update _ RunStatus.blank _ status = _
        by_cases hblank : status = .blank
        · simp [hblank]
        · rw [update_of_ne hblank, hinit, count_replicate]
          simp [Ne.symm hblank]

/-- A device that waits for its start is in no category. -/
theorem delayed_device_not_counted :
    deviceRunStatus true ⟨"hdisk0", "hxestorage", 7, 50, 40, true, 0, false, false, false⟩
        ⟨0, 0, false, 0, 0, 0, 0, 600, 0, 60⟩ = some .startDelayed ∧
      (printedStatuses.map (getecgsumAllDevice true
        [(⟨"hdisk0", "hxestorage", 7, 50, 40, true, 0, false, false, false⟩,
          ⟨0, 0, false, 0, 0, 0, 0, 600, 0, 60⟩)] none 0)).sum = 0 := by
  decide

end Htx.Htxd
