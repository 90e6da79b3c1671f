import Htx.Hxestorage.SegUnlock

/-!
# The hang monitor

`hang_monitor` scans one segment table after the other, while the threads lock and unlock
their ranges.
-/

namespace Htx.Hxestorage

open List Library SegState

/-!
# The scan of one table
-/

structure HangParams where
  hangTime : Int
  threshold : Int

inductive ErrLevel where
  | hard
  | soft
  deriving DecidableEq

structure HangAlert where
  table : Nat
  hung : Nat
  currentTime : Nat
  errLevel : ErrLevel
  deriving DecidableEq

structure HangLoop where
  thresholdExceeded : Bool
  hungSwitch : Nat
  oldestTime : Int
  deriving DecidableEq

def intMul (a b : Int) : Int :=
  Int.bmod (a * b) (2 ^ 32)

namespace HangParams

variable {tid : Type} (p : HangParams)

def Hung (now : Nat) (e : SegmentTableData tid) : Prop :=
  e.inUse = true ∧ intMul p.hangTime (e.hangCount + 1 : Nat) ≤ (now : Int) - e.threadTime

instance (now : Nat) (e : SegmentTableData tid) : Decidable (p.Hung now e) :=
  inferInstanceAs (Decidable (_ ∧ _))

def counted (now : Nat) (e : SegmentTableData tid) : SegmentTableData tid :=
  if p.Hung now e then { e with hangCount := e.hangCount + 1 } else e

def Over (e : SegmentTableData tid) : Prop :=
  e.inUse = true ∧ p.threshold < e.hangCount

instance (e : SegmentTableData tid) : Decidable (p.Over e) :=
  inferInstanceAs (Decidable (_ ∧ _))

def checkEntry (now : Nat) (e : SegmentTableData tid) (v : HangLoop) : HangLoop :=
  if e.inUse = true then
    let e' := p.counted now e
    let temp := e.threadTime + intMul e'.hangCount p.hangTime
    { thresholdExceeded :=
        if p.Hung now e ∧ p.threshold < e'.hangCount then true else v.thresholdExceeded
      hungSwitch := if p.Hung now e then v.hungSwitch + 1 else v.hungSwitch
      oldestTime := if temp < v.oldestTime then temp else v.oldestTime }
  else v

def checkEntries (now : Nat) :
    List (SegmentTableData tid) -> HangLoop -> List (SegmentTableData tid) × HangLoop
  | [], v => ([], v)
  | e :: rest, v =>
    let r := checkEntries now rest (p.checkEntry now e v)
    (p.counted now e :: r.1, r.2)

def scanEntries (exceeded : Bool) (now : Nat) (entries : List (SegmentTableData tid)) :
    List (SegmentTableData tid) × HangLoop :=
  p.checkEntries now entries ⟨exceeded, 0, now⟩

end HangParams

/-!
# The monitor and the threads
-/

/-- The tables and the threads, the table that is scanned next, `threshold_exceeded`, the time
of the latest event and the message of the latest event, if it was a scan that sent one. -/
structure HangState (tid : Type) where
  seg : SegState tid
  next : Nat
  thresholdExceeded : Bool
  time : Nat
  alert : Option HangAlert

inductive HangEvent (tid : Type) where
  | thread (e : SegEvent tid)
  | scan (now : Nat)
  deriving DecidableEq

def SegEvent.timeFrom {tid : Type} (time : Nat) : SegEvent tid -> Nat
  | .lockTable _ now => now
  | _ => time

namespace HangState

variable {tid : Type} [DecidableEq tid]

def scanned (L : SegmentLimits) (p : HangParams) (st : HangState tid) (now : Nat) : HangState tid :=
  let r := p.scanEntries st.thresholdExceeded now (st.seg.segTable st.next)
  { seg := st.seg.setTable st.next r.1
    next := (st.next + 1) % L.numOfSegTables
    thresholdExceeded := r.2.thresholdExceeded
    time := now
    alert :=
      if r.2.hungSwitch ≠ 0 then
        some ⟨st.next, r.2.hungSwitch, now, if r.2.thresholdExceeded then .hard else .soft⟩
      else none }

def step (L : SegmentLimits) (p : HangParams) (st : HangState tid) :
    HangEvent tid -> Option (HangState tid)
  | .thread e =>
    if e.timeFrom st.time < st.time then none
    else
      match st.seg.stepAny L e with
      | none => none
      | some seg => some { st with seg := seg, time := e.timeFrom st.time, alert := none }
  | .scan now =>
    if st.seg.fault.isSome ∨ now < st.time then none
    else some (st.scanned L p now)

def Initial (st : HangState tid) : Prop :=
  st.seg.Initial ∧ st.next = 0 ∧ st.thresholdExceeded = false ∧ st.alert = none

end HangState

open HangState

def hangSystem (L : SegmentLimits) (p : HangParams) (tid : Type) [DecidableEq tid] :
    EventSystem (HangState tid) (HangEvent tid) where
  Initial := HangState.Initial
  step := step L p

/-!
# What a scan leaves
-/

namespace HangParams

variable {tid : Type} {p : HangParams} {now : Nat} {e : SegmentTableData tid}

theorem counted_inUse : (p.counted now e).inUse = e.inUse := by
  unfold counted
  split <;> rfl

theorem counted_threadTime : (p.counted now e).threadTime = e.threadTime := by
  unfold counted
  split <;> rfl

theorem counted_of_hung (h : p.Hung now e) : (p.counted now e).hangCount = e.hangCount + 1 := by
  rw [counted, if_pos h]

theorem counted_of_not_hung (h : ¬ p.Hung now e) : p.counted now e = e := by
  rw [counted, if_neg h]

theorem over_counted_iff : p.Over (p.counted now e) <->
    e.inUse = true ∧ p.threshold < (e.hangCount + if p.Hung now e then 1 else 0 : Nat) := by
  unfold Over
  rw [counted_inUse]
  by_cases hhung : p.Hung now e
  · rw [counted_of_hung hhung, if_pos hhung]
  · rw [counted_of_not_hung hhung, if_neg hhung, add_zero]

section

variable (now) (entries : List (SegmentTableData tid)) (v : HangLoop)

theorem checkEntries_fst : (p.checkEntries now entries v).1 = entries.map (p.counted now) := by
  induction entries generalizing v with
  | nil => rfl
  | cons e rest ih => rw [checkEntries, map_cons, ih]

theorem checkEntries_exceeded :
    (p.checkEntries now entries v).2.thresholdExceeded = true <-> v.thresholdExceeded = true ∨
        exists e, e ∈ entries ∧ p.Hung now e ∧ p.Over (p.counted now e) := by
  induction entries generalizing v with
  | nil => simp [checkEntries]
  | cons e rest ih =>
    have hfirst : (p.checkEntry now e v).thresholdExceeded = true <->
        v.thresholdExceeded = true ∨ (p.Hung now e ∧ p.Over (p.counted now e)) := by
      unfold checkEntry Over
      rw [counted_inUse]
      by_cases huse : e.inUse = true
      · rw [if_pos huse]
        by_cases hover : p.Hung now e ∧ p.threshold < (p.counted now e).hangCount
        · simp [hover, huse]
        · simp only [hover, if_false, huse, true_and, or_false]
      · have hnot : ¬ p.Hung now e := fun hhung => huse hhung.1
        simp [huse, hnot]
    rw [checkEntries, ih, hfirst, or_assoc]
    simp only [mem_cons, or_and_right, exists_or, exists_eq_left]

theorem checkEntries_hung : (p.checkEntries now entries v).2.hungSwitch =
      v.hungSwitch + entries.countP fun e => p.Hung now e := by
  induction entries generalizing v with
  | nil => rfl
  | cons e rest ih =>
    have hfirst : (p.checkEntry now e v).hungSwitch =
        v.hungSwitch + if p.Hung now e then 1 else 0 := by
      unfold checkEntry
      by_cases huse : e.inUse = true
      · rw [if_pos huse]
        by_cases hhung : p.Hung now e
        · simp [hhung]
        · simp [hhung]
      · have hnot : ¬ p.Hung now e := fun hhung => huse hhung.1
        simp [huse, hnot]
    rw [checkEntries, ih, hfirst, countP_cons]
    simp only [decide_eq_true_eq]
    omega

end

end HangParams

/-!
# Entries appear uncounted
-/

variable {i j : Nat}

namespace SegState

variable {tid : Type} [DecidableEq tid] {L : SegmentLimits}

variable {s : SegState tid} {e : SegmentTableData tid}

theorem lockTable_inUse {t : tid} {i k now a b : Nat} (he : (s.lockTable L t i k now).InUse a b e) :
    s.InUse a b e ∨ (e.hangCount = 0 ∧ e.threadTime = now) := by
  have hclaim : forall index, FreeIndex (s.segTable i) index ->
      (s.claim L t i k index now).InUse a b e ->
      s.InUse a b e ∨ (e.hangCount = 0 ∧ e.threadTime = now) := by
    intro index hfree hnew
    rcases (inUse_claim hfree).mp hnew with ⟨_, _, rfl⟩ | hold
    · exact .inr ⟨rfl, rfl⟩
    · exact .inl hold
  unfold lockTable at he
  dsimp only at he
  split at he
  · exact .inl he
  split at he
  · exact .inl he
  split at he
  · exact .inl he
  cases hm : (scan (s.thread t).flba (s.thread t).llba (s.segTable i)).matchFound with
  | true =>
    rw [if_pos hm] at he
    exact .inl he
  | false =>
    rw [if_neg (by simp [hm])] at he
    split at he
    · next index hindex => exact hclaim index (scan_freeIndex_unused hindex) he
    · split at he
      · exact hclaim _ (scan_freeIndex_length hm) he
      · exact .inl he

theorem unlockTable_inUse {t : tid} {k a b : Nat} (he : (s.unlockTable t k).InUse a b e) :
    s.InUse a b e := by
  unfold unlockTable at he
  dsimp only at he
  split at he
  · exact he
  split at he
  · exact he
  · next i _ =>
      split at he
      · exact he
      · next index _ =>
          split at he
          · exact he
          · next e' he' =>
              split at he
              · next hown =>
                  have hold : s.InUse i index e' := ⟨he', hown.1⟩
                  exact ((inUse_released (t := t) (k := k) hold).mp he).1
              · exact he

theorem stepAny_inUse {s' : SegState tid} {ev : SegEvent tid}
    (hst : s.stepAny L ev = some s') (he : s'.InUse i j e) (time : Nat) :
    s.InUse i j e ∨ (e.hangCount = 0 ∧ e.threadTime = ev.timeFrom time) := by
  cases ev with
  | segLock t flba llba =>
    simp only [stepAny] at hst
    split at hst
    · cases hst
    · split at hst
      · cases hst
        exact .inl he
      · cases hst
  | lockTable t now =>
    rcases step_lockTable hst with ⟨_, i, k, _, rfl⟩
    exact lockTable_inUse he
  | wakeup t | segUnlock t =>
    simp only [stepAny, step] at hst
    split at hst
    · cases hst
    · split at hst
      · cases hst
        exact .inl he
      · cases hst
  | unlockTable t =>
    simp only [stepAny, step] at hst
    split at hst
    · cases hst
    · split at hst
      · cases hst
        exact .inl (unlockTable_inUse he)
      · cases hst

end SegState

/-!
# Counters and severity over whole runs
-/

namespace HangState

variable {tid : Type} {L : SegmentLimits} {p : HangParams}

variable {st : HangState tid} {now : Nat} {e : SegmentTableData tid}

open HangParams

theorem scanned_inUse :
    (st.scanned L p now).seg.InUse i j e <->
      (i = st.next ∧ exists e0, st.seg.InUse i j e0 ∧ e = p.counted now e0) ∨
        (i ≠ st.next ∧ st.seg.InUse i j e) := by
  change (st.seg.setTable st.next (p.scanEntries _ now _).1).InUse i j e <-> _
  rw [inUse_setTable, scanEntries, checkEntries_fst, getElem?_map]
  by_cases hi : i = st.next
  · subst hi
    rw [if_pos rfl]
    constructor
    · intro h
      rcases Option.map_eq_some_iff.mp h.1 with ⟨e0, he0, rfl⟩
      rw [counted_inUse] at h
      exact .inl ⟨rfl, e0, ⟨he0, h.2⟩, rfl⟩
    · intro h
      rcases h with ⟨_, e0, he0, rfl⟩ | ⟨hne, _⟩
      · exact ⟨Option.map_eq_some_iff.mpr ⟨e0, he0.1, rfl⟩, counted_inUse.trans he0.2⟩
      · exact absurd rfl hne
  · rw [if_neg hi]
    simp [hi]

/-- The counters are within the bound, `threshold_exceeded` remembers every counter that passed
the threshold, and the message of the latest scan is right. -/
structure Inv (p : HangParams) (st : HangState tid) : Prop where
  started : forall i j e, st.seg.InUse i j e -> e.threadTime ≤ st.time
  counts : forall i j e, st.seg.InUse i j e ->
    p.hangTime * (e.hangCount : Int) ≤ (st.time : Int) - e.threadTime
  flagged : forall i j e, st.seg.InUse i j e -> 0 < e.hangCount -> p.Over e ->
    st.thresholdExceeded = true
  severity : forall a, st.alert = some a ->
    (a.errLevel = .hard <-> exists j e, st.seg.InUse a.table j e ∧ p.threshold < e.hangCount)

/-- No I/O of the table is so old that the next multiple of `hang_time` is not an `int`; and if
a counter has passed the threshold in an earlier scan, and an I/O of this table is found hung,
then some counter of this table, with the hang that this scan finds, is past it, too. -/
def Guard (p : HangParams) (st : HangState tid) : HangEvent tid -> Prop
  | .thread _ => True
  | .scan now =>
    (forall e, e ∈ st.seg.segTable st.next -> e.inUse = true ->
      (now : Int) - e.threadTime + p.hangTime < 2 ^ 31) ∧
    (st.thresholdExceeded = true -> (exists e, e ∈ st.seg.segTable st.next ∧ p.Hung now e) ->
      exists e, e ∈ st.seg.segTable st.next ∧ e.inUse = true ∧
        p.threshold < (e.hangCount + if p.Hung now e then 1 else 0 : Nat))

instance decidableGuard (p : HangParams) (st : HangState tid) :
    (ev : HangEvent tid) -> Decidable (Guard p st ev)
  | .thread _ => isTrue trivial
  | .scan _ => inferInstanceAs (Decidable (_ ∧ _))

theorem Initial.inv (h : Initial st) : Inv p st := by
  rcases h with ⟨hseg, _, _, halert⟩
  have hnone : forall i j e, ¬ st.seg.InUse i j e := by
    intro i j e he
    have hget := he.1
    rw [hseg.1 i] at hget
    cases hget
  refine ⟨?_, ?_, ?_, ?_⟩
  · intro i j e he
    exact absurd he (hnone i j e)
  · intro i j e he
    exact absurd he (hnone i j e)
  · intro i j e he
    exact absurd he (hnone i j e)
  · intro a ha
    rw [halert] at ha
    cases ha

theorem intMul_eq (h : Inv p st) (hpos : 0 < p.hangTime) (he : st.seg.InUse i j e)
    (hnow : st.time ≤ now) (hyoung : (now : Int) - e.threadTime + p.hangTime < 2 ^ 31) :
    intMul p.hangTime (e.hangCount + 1 : Nat) = p.hangTime * (e.hangCount + 1 : Nat) := by
  have hcount := h.counts i j e he
  have hnonneg : 0 ≤ p.hangTime * (e.hangCount : Int) := mul_nonneg hpos.le (Int.natCast_nonneg _)
  unfold intMul
  push_cast
  rw [mul_add, mul_one]
  apply Int.bmod_eq_of_le
  · omega
  · omega

theorem Inv.scanned_counts (h : Inv p st) (hpos : 0 < p.hangTime)
    (hguard : Guard p st (.scan now)) (hnow : st.time ≤ now)
    (he : (st.scanned L p now).seg.InUse i j e) :
    p.hangTime * (e.hangCount : Int) ≤ (now : Int) - e.threadTime := by
  rcases scanned_inUse.mp he with ⟨rfl, e0, he0, rfl⟩ | ⟨_, hold⟩
  · by_cases hhung : p.Hung now e0
    · have hexact := intMul_eq h hpos he0 hnow (hguard.1 e0 (mem_of_getElem? he0.1) he0.2)
      have hpassed := hhung.2
      rw [hexact] at hpassed
      rw [counted_of_hung hhung, counted_threadTime]
      exact hpassed
    · have hcount := h.counts _ j e0 he0
      rw [counted_of_not_hung hhung]
      omega
  · have hcount := h.counts i j e hold
    omega

theorem scanned_exceeded :
    (st.scanned L p now).thresholdExceeded = true <-> st.thresholdExceeded = true ∨
        exists e, e ∈ st.seg.segTable st.next ∧ p.Hung now e ∧ p.Over (p.counted now e) :=
  checkEntries_exceeded now _ _

theorem Inv.scanned_flagged (h : Inv p st) (he : (st.scanned L p now).seg.InUse i j e)
    (hcount : 0 < e.hangCount) (hover : p.Over e) :
    (st.scanned L p now).thresholdExceeded = true := by
  rw [scanned_exceeded]
  rcases scanned_inUse.mp he with ⟨rfl, e0, he0, rfl⟩ | ⟨_, hold⟩
  · by_cases hhung : p.Hung now e0
    · exact .inr ⟨e0, mem_of_getElem? he0.1, hhung, hover⟩
    · rw [counted_of_not_hung hhung] at hcount hover
      exact .inl (h.flagged _ j e0 he0 hcount hover)
  · exact .inl (h.flagged i j e hold hcount hover)

theorem scanned_alert {a : HangAlert} (ha : (st.scanned L p now).alert = some a) :
    a.table = st.next ∧ (a.errLevel = .hard <-> (st.scanned L p now).thresholdExceeded = true) ∧
      exists e, e ∈ st.seg.segTable st.next ∧ p.Hung now e := by
  simp only [scanned] at ha ⊢
  split at ha
  · next hsome =>
      cases ha
      refine ⟨rfl, ?_, ?_⟩
      · dsimp only
        split <;> simp_all
      · rw [scanEntries, checkEntries_hung, zero_add, Ne,
          countP_eq_zero] at hsome
        push Not at hsome
        rcases hsome with ⟨e, he, hhung⟩
        exact ⟨e, he, of_decide_eq_true hhung⟩
  · cases ha

theorem exists_over_iff :
    (exists j e, (st.scanned L p now).seg.InUse st.next j e ∧ p.threshold < e.hangCount) <->
      exists e, e ∈ st.seg.segTable st.next ∧ p.Over (p.counted now e) := by
  constructor
  · intro h
    rcases h with ⟨j, e, he, hover⟩
    rcases scanned_inUse.mp he with ⟨_, e0, he0, rfl⟩ | ⟨hne, _⟩
    · exact ⟨e0, mem_of_getElem? he0.1, he.2, hover⟩
    · exact absurd rfl hne
  · intro h
    rcases h with ⟨e, he, hover⟩
    rcases getElem?_of_mem he with ⟨j, hj⟩
    have huse := hover.1
    rw [counted_inUse] at huse
    exact ⟨j, p.counted now e, scanned_inUse.mpr (.inl ⟨rfl, e, ⟨hj, huse⟩, rfl⟩), hover.2⟩

theorem Inv.scanned_severity {a : HangAlert} (h : Inv p st) (hguard : Guard p st (.scan now))
    (ha : (st.scanned L p now).alert = some a) :
    a.errLevel = .hard <->
      exists j e, (st.scanned L p now).seg.InUse a.table j e ∧ p.threshold < e.hangCount := by
  rcases scanned_alert ha with ⟨htable, hhard, e0, he0, hhung⟩
  rw [hhard, htable, exists_over_iff]
  constructor
  · intro hflag
    rcases scanned_exceeded.mp hflag with hbefore | ⟨e, he, _, hover⟩
    · obtain ⟨e, he, hover⟩ := hguard.2 hbefore ⟨e0, he0, hhung⟩
      exact ⟨e, he, over_counted_iff.mpr hover⟩
    · exact ⟨e, he, hover⟩
  · intro hover
    rcases exists_over_iff.mpr hover with ⟨j, e, he, hlt⟩
    rcases eq_zero_or_pos e.hangCount with hzero | hcount
    · -- the threshold is negative, and the entry that was counted exceeds it
      refine scanned_exceeded.mpr (.inr ⟨e0, he0, hhung, ?_, ?_⟩)
      · rw [counted_inUse]
        exact hhung.1
      · rw [counted_of_hung hhung]
        omega
    · exact h.scanned_flagged he hcount ⟨he.2, hlt⟩

theorem Inv.scanned (h : Inv p st) (hpos : 0 < p.hangTime) (hguard : Guard p st (.scan now))
    (hnow : st.time ≤ now) : Inv p (st.scanned L p now) where
  started := by
    intro i j e he
    rcases scanned_inUse.mp he with ⟨rfl, e0, he0, rfl⟩ | ⟨_, hold⟩
    · rw [counted_threadTime]
      exact (h.started _ j e0 he0).trans hnow
    · exact (h.started i j e hold).trans hnow
  counts := fun _ _ _ he => h.scanned_counts hpos hguard hnow he
  flagged := fun _ _ _ he hcount hover => h.scanned_flagged he hcount hover
  severity := fun _ ha => h.scanned_severity hguard ha

variable [DecidableEq tid]

theorem Inv.thread {ev : SegEvent tid} {seg : SegState tid} (h : Inv p st)
    (htime : st.time ≤ ev.timeFrom st.time) (hst : st.seg.stepAny L ev = some seg) :
    Inv p { st with seg := seg, time := ev.timeFrom st.time, alert := none } where
  started := by
    intro i j e he
    rcases stepAny_inUse hst he st.time with hold | ⟨_, hnow⟩
    · exact (h.started i j e hold).trans htime
    · exact le_of_eq hnow
  counts := by
    intro i j e he
    rcases stepAny_inUse hst he st.time with hold | ⟨hzero, hnow⟩
    · have hcount := h.counts i j e hold
      dsimp only
      omega
    · dsimp only
      rw [hzero, hnow]
      simp
  flagged := by
    intro i j e he hpos hover
    rcases stepAny_inUse hst he st.time with hold | ⟨hzero, _⟩
    · exact h.flagged i j e hold hpos hover
    · omega
  severity := by
    intro a ha
    cases ha

theorem Inv.step {st' : HangState tid} {ev : HangEvent tid} (h : Inv p st) (hpos : 0 < p.hangTime)
    (hguard : Guard p st ev) (hst : st.step L p ev = some st') :
    Inv p st' := by
  cases ev with
  | thread e =>
    simp only [HangState.step] at hst
    split at hst
    · cases hst
    · next htime =>
        split at hst
        · cases hst
        · next seg hseg =>
            cases hst
            exact h.thread (Nat.le_of_not_lt htime) hseg
  | scan now =>
    simp only [HangState.step] at hst
    split at hst
    · cases hst
    · next htime =>
        cases hst
        exact h.scanned hpos hguard (Nat.le_of_not_lt fun hlt => htime (.inr hlt))

end HangState

/-- In every run whose scans meet the condition: a message is HARD exactly when a counter of its
table exceeds the threshold at that scan, and no counter exceeds the number of times that
`hang_time` has passed. -/
theorem hang_monitor_severity (L : SegmentLimits) (p : HangParams) (tid : Type)
    [DecidableEq tid] {st : HangState tid} (hpos : 0 < p.hangTime)
    (hreach : (hangSystem L p tid).ReachableUnder (HangState.Guard p) st) :
    (forall a, st.alert = some a -> (a.errLevel = .hard <->
        exists j e, st.seg.InUse a.table j e ∧ p.threshold < e.hangCount)) ∧
    (forall i j e, st.seg.InUse i j e -> e.threadTime ≤ st.time ∧
        (e.hangCount : Int) ≤ ((st.time : Int) - e.threadTime) / p.hangTime) := by
  have hinv : st.Inv p := by
    refine EventSystem.ReachableUnder.invariant (fun st hst => ?_) ?_ hreach
    · exact @HangState.Initial.inv tid p st hst
    · intro st ev st' hst hguard hstep
      exact hst.step hpos hguard hstep
  refine ⟨hinv.severity, ?_⟩
  intro i j e he
  refine ⟨hinv.started i j e he, ?_⟩
  rw [Int.le_ediv_iff_mul_le hpos, mul_comm]
  exact hinv.counts i j e he

def HangState.start (tid : Type) : HangState tid where
  seg := SegState.start tid
  next := 0
  thresholdExceeded := false
  time := 0
  alert := none

theorem HangState.initial_start (tid : Type) : (start tid).Initial :=
  ⟨SegState.initial_start tid, rfl, rfl, rfl⟩

def slowRead : List (HangEvent Bool) :=
  [.thread (.segLock false 3 4), .thread (.lockTable false 0), .scan 5, .scan 5, .scan 10]

theorem hang_monitor_slowRead :
    exists st, (hangSystem twoSegments ⟨5, 1⟩ Bool).ReachableUnder (HangState.Guard ⟨5, 1⟩) st ∧
      st.alert = some ⟨0, 1, 10, .hard⟩ ∧
      exists j e, st.seg.InUse 0 j e ∧ (1 : Int) < e.hangCount := by
  have hreach := EventSystem.ReachableUnder.schedule
    (S := hangSystem twoSegments ⟨5, 1⟩ Bool) (initial_start Bool) slowRead rfl
    (by decide : (hangSystem twoSegments ⟨5, 1⟩ Bool).Admits (HangState.Guard ⟨5, 1⟩) _ _)
  exact ⟨_, hreach, rfl,
    ((hang_monitor_severity twoSegments ⟨5, 1⟩ Bool (by decide) hreach).1 _ rfl).mp rfl⟩

/-- The I/O ends, and another one begins in the second segment.  When it is counted for the
first time, its message is HARD all the same. -/
theorem severity_sticks :
    exists st, (hangSystem twoSegments ⟨5, 1⟩ Bool).Reachable st ∧
      st.alert = some ⟨1, 1, 15, .hard⟩ ∧
      forall j e, st.seg.InUse 1 j e -> (e.hangCount : Int) ≤ 1 := by
  have hreach := EventSystem.Reachable.schedule
    (S := hangSystem twoSegments ⟨5, 1⟩ Bool) (initial_start Bool)
    (slowRead ++ [.thread (.segUnlock false), .thread (.unlockTable false),
      .thread (.segLock true 13 14), .thread (.lockTable true 10),
      .thread (.lockTable true 10), .scan 15]) rfl
  refine ⟨_, hreach, rfl, ?_⟩
  intro j e he
  have hmem := List.mem_of_getElem? he.1
  clear he
  revert e
  decide

end Htx.Hxestorage
