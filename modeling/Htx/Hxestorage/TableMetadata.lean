import Htx.Library.EventSystem
import Htx.Hxestorage.BlockHeader
import Htx.Hxestorage.StateTable

/-!
# State table metadata

The state table survives a run of the exerciser on the disk itself: block 0 says whether a
table is there and for which names and time it is, and the blocks behind it hold the write
status of every block.
-/

namespace Htx.Hxestorage

open Library Memory CString EventSystem.Reachable

def invalid : UInt8 := 0

def valid : UInt8 := 1

def statusOffset : Nat := 0x0

def tableSizeOffset : Nat := 0x1

def timeOffset : Nat := 0x9

def devNameOffset : Nat := 0xd

def hostnameOffset : Nat := 0x1d

structure TableMem where
  enablementTime : UInt32
  diskname : CString
  hostname : CString
  blkWriteStatus : StatusTable

structure TableDisk where
  info : Memory
  table : Memory

structure Launch where
  heap : StatusTable
  timeMark : UInt32
  diskname : CString
  hostname : CString

def emptyTable (size : UInt64) (heap : StatusTable) : StatusTable :=
  fun i => if 0 ≤ i ∧ i < size.toNat then 0 else heap i

def readTable (n : Nat) (disk : Memory) (tbl : StatusTable) : StatusTable :=
  fun i => if 0 ≤ i ∧ i < n then disk i.toNat else tbl i

def writeTable (n : Nat) (tbl : StatusTable) (disk : Memory) : Memory :=
  fun i => if i < n then tbl i else disk i

def infoBlock (order : ByteOrder) (size : UInt64) (mem : TableMem) (stack : Memory) :
    Memory :=
  let buf := stack.put statusOffset [valid]
  let buf := buf.store order tableSizeOffset 8 size.toNat
  let buf := buf.store order timeOffset 4 mem.enablementTime.toNat
  let buf := buf.put devNameOffset (mem.diskname.padded devNameLen)
  buf.put hostnameOffset (mem.hostname.padded hostnameLen)

def initializeStateTable (order : ByteOrder) (size : UInt64) (disk : TableDisk)
    (launch : Launch) : TableMem :=
  let tbl := emptyTable size launch.heap
  if disk.info statusOffset = valid then
    let saved := disk.info.load order tableSizeOffset 8
    { enablementTime := UInt32.ofNat (disk.info.load order timeOffset 4)
      diskname := ofField (disk.info.bytes devNameOffset devNameLen)
      hostname := ofField (disk.info.bytes hostnameOffset hostnameLen)
      blkWriteStatus :=
        readTable (if size.toNat < saved then size.toNat else saved) disk.table tbl }
  else
    { enablementTime := launch.timeMark
      diskname := launch.diskname
      hostname := launch.hostname
      blkWriteStatus := tbl }

/-!
# Histories
-/

inductive RunPhase where
  | down
  | loaded (mem : TableMem)
  | running (mem : TableMem)
  | tableWritten (mem : TableMem)

structure TableHistory where
  disk : TableDisk
  phase : RunPhase
  lastSync : Option TableMem
  updated : Bool

inductive TableEvent where
  | start (launch : Launch)
  | invalidate
  | update (blkno numBlks : Nat)
  | syncTable
  | syncInfo (stack : Memory)
  | crash

namespace TableHistory

def step (order : ByteOrder) (size : UInt64) (s : TableHistory) : TableEvent -> Option TableHistory
  | .start launch =>
    match s.phase with
    | .down =>
      let mem := initializeStateTable order size s.disk launch
      if s.disk.info statusOffset = valid then some { s with phase := .loaded mem }
      else some { s with phase := .running mem }
    | _ => none
  | .invalidate =>
    match s.phase with
    | .loaded mem =>
      some { s with
        disk := { s.disk with info := s.disk.info.put statusOffset [invalid] }
        phase := .running mem }
    | _ => none
  | .update blkno numBlks =>
    match s.phase with
    | .running mem =>
      some { s with
        phase := .running { mem with
          blkWriteStatus := updateStateTable mem.blkWriteStatus blkno numBlks }
        updated := true }
    | _ => none
  | .syncTable =>
    match s.phase with
    | .running mem =>
      some { s with
        disk := { s.disk with
          table := writeTable size.toNat mem.blkWriteStatus s.disk.table }
        phase := .tableWritten mem }
    | _ => none
  | .syncInfo stack =>
    match s.phase with
    | .tableWritten mem =>
      some {
        disk := { s.disk with info := infoBlock order size mem stack }
        phase := .down
        lastSync := some mem
        updated := false }
    | _ => none
  | .crash => some { s with phase := .down }

def Initial (s : TableHistory) : Prop :=
  s.disk.info statusOffset ≠ valid ∧ s.phase = .down ∧ s.lastSync = none ∧ s.updated = false

end TableHistory

open TableHistory

def tableSystem (order : ByteOrder) (size : UInt64) : EventSystem TableHistory TableEvent where
  Initial := TableHistory.Initial
  step := step order size

/-!
# What the disk says
-/

structure TableMem.DescribedBy (order : ByteOrder) (size : UInt64) (mem : TableMem)
    (info : Memory) : Prop where
  size : info.load order tableSizeOffset 8 = size.toNat
  time : info.load order timeOffset 4 = mem.enablementTime.toNat
  diskname : info.bytes devNameOffset devNameLen = mem.diskname.padded devNameLen
  hostname : info.bytes hostnameOffset hostnameLen = mem.hostname.padded hostnameLen

def TableMem.SavedIn (size : UInt64) (mem : TableMem) (table : Memory) : Prop :=
  forall i, i < size.toNat -> table i = mem.blkWriteStatus i

structure TableMem.Restores (size : UInt64) (mem saved : TableMem) : Prop where
  table : forall i : Int, 0 ≤ i -> i < size.toNat -> mem.blkWriteStatus i = saved.blkWriteStatus i
  time : mem.enablementTime = saved.enablementTime
  diskname : mem.diskname.chars = saved.diskname.chars.take devNameLen
  hostname : mem.hostname.chars = saved.hostname.chars.take hostnameLen

section

variable {order : ByteOrder} {size : UInt64} {mem saved : TableMem}

theorem infoBlock_describes (stack : Memory) :
    mem.DescribedBy order size (infoBlock order size mem stack) := by
  unfold infoBlock
  constructor
  · rw [load_put_of_disjoint (.inl (by decide)), load_put_of_disjoint (.inl (by decide)),
      load_store_of_disjoint (.inl (by decide)), load_store_self]
    exact Nat.mod_eq_of_lt size.toNat_lt
  · rw [load_put_of_disjoint (.inl (by decide)),
      load_put_of_disjoint (.inl (by decide)), load_store_self]
    exact Nat.mod_eq_of_lt mem.enablementTime.toNat_lt
  · rw [bytes_put_of_disjoint (.inl (by decide)), bytes_put_self (length_padded _ _)]
  · rw [bytes_put_self (length_padded _ _)]

theorem initializeStateTable_restores {disk : TableDisk} (launch : Launch)
    (hvalid : disk.info statusOffset = valid)
    (hinfo : saved.DescribedBy order size disk.info)
    (htable : saved.SavedIn size disk.table) :
    (initializeStateTable order size disk launch).Restores size saved := by
  unfold initializeStateTable
  rw [if_pos hvalid]
  constructor
  · intro i hpos hlt
    have hbyte := htable i.toNat (by omega)
    rw [Int.toNat_of_nonneg hpos] at hbyte
    simp only [hinfo.size, lt_irrefl, if_false]
    rw [readTable, if_pos ⟨hpos, hlt⟩, hbyte]
  · simp only [hinfo.time, UInt32.ofNat_toNat]
  · simp only [hinfo.diskname, ofField_padded]
  · simp only [hinfo.hostname, ofField_padded]

end

/-!
# Every history
-/

namespace TableHistory

structure Inv (order : ByteOrder) (size : UInt64) (s : TableHistory) : Prop where
  marked : s.disk.info statusOffset = valid -> s.updated = false ∧
    exists saved, s.lastSync = some saved ∧ saved.DescribedBy order size s.disk.info ∧
      saved.SavedIn size s.disk.table
  running : forall mem, s.phase = .running mem -> s.disk.info statusOffset ≠ valid
  tableWritten : forall mem, s.phase = .tableWritten mem ->
    s.disk.info statusOffset ≠ valid ∧ mem.SavedIn size s.disk.table

variable {order : ByteOrder} {size : UInt64} {s s' : TableHistory}

theorem Initial.inv (h : s.Initial) : s.Inv order size := by
  rcases h with ⟨hstatus, hphase, _, _⟩
  refine ⟨fun hvalid => absurd hvalid hstatus, ?_, ?_⟩
  · intro mem hmem
    rw [hphase] at hmem
    cases hmem
  · intro mem hmem
    rw [hphase] at hmem
    cases hmem

theorem Inv.step {e : TableEvent} (h : s.Inv order size)
    (hstep : s.step order size e = some s') : s'.Inv order size := by
  cases e with
  | start launch =>
    simp only [TableHistory.step] at hstep
    split at hstep
    · split at hstep
      · cases hstep
        exact ⟨h.marked, (fun _ hmem => nomatch hmem), (fun _ hmem => nomatch hmem)⟩
      · rename_i hstatus
        cases hstep
        exact ⟨h.marked, fun _ _ => hstatus, (fun _ hmem => nomatch hmem)⟩
    · cases hstep
  | invalidate =>
    simp only [TableHistory.step] at hstep
    split at hstep
    · cases hstep
      have hstatus : s.disk.info.put statusOffset [invalid] statusOffset ≠ valid := by
        change invalid ≠ valid
        decide
      exact ⟨fun hvalid => absurd hvalid hstatus, fun _ _ => hstatus, (fun _ hmem => nomatch hmem)⟩
    · cases hstep
  | update blkno numBlks =>
    simp only [TableHistory.step] at hstep
    split at hstep
    · rename_i mem hphase
      cases hstep
      have hstatus := h.running mem hphase
      exact ⟨fun hvalid => absurd hvalid hstatus, fun _ _ => hstatus, (fun _ hmem => nomatch hmem)⟩
    · cases hstep
  | syncTable =>
    simp only [TableHistory.step] at hstep
    split at hstep
    · rename_i mem hphase
      cases hstep
      have hstatus := h.running mem hphase
      refine ⟨fun hvalid => absurd hvalid hstatus, (fun _ hmem => nomatch hmem), ?_⟩
      intro mem' hmem'
      cases hmem'
      exact ⟨hstatus, fun i hi => if_pos hi⟩
    · cases hstep
  | syncInfo stack =>
    simp only [TableHistory.step] at hstep
    split at hstep
    · rename_i mem hphase
      cases hstep
      refine ⟨fun _ => ⟨rfl, mem, rfl, infoBlock_describes stack,
        (h.tableWritten mem hphase).2⟩, (fun _ hmem => nomatch hmem),
        (fun _ hmem => nomatch hmem)⟩
    · cases hstep
  | crash =>
    cases hstep
    exact ⟨h.marked, (fun _ hmem => nomatch hmem), (fun _ hmem => nomatch hmem)⟩

end TableHistory

/-- Whenever a run finds a `VALID` table, it continues with what was in memory at
the last completed sync, and no table has been updated since. -/
theorem initialize_restores_lastSync {order : ByteOrder} {size : UInt64}
    {s s' : TableHistory} {launch : Launch} (hreach : (tableSystem order size).Reachable s)
    (hstart : s.step order size (.start launch) = some s')
    (hvalid : s.disk.info statusOffset = valid) :
    exists mem saved, s'.phase = .loaded mem ∧ s.lastSync = some saved ∧
      s.updated = false ∧ mem.Restores size saved := by
  have hinv : s.Inv order size := by
    refine invariant (fun s hs => ?_) ?_ hreach
    · exact TableHistory.Initial.inv (s := s) hs
    · intro s e s' h hst
      exact h.step hst
  rcases hinv.marked hvalid with ⟨hfresh, saved, hsync, hinfo, htable⟩
  refine ⟨initializeStateTable order size s.disk launch, saved, ?_, hsync, hfresh,
    initializeStateTable_restores launch hvalid hinfo htable⟩
  simp only [step] at hstart
  split at hstart
  · rw [if_pos hvalid] at hstart
    cases hstart
    rfl
  · cases hstart

def firstLaunch (diskname : CString) : Launch :=
  ⟨fun _ => 0, 1000, diskname, ⟨[0x68], by decide⟩⟩

def blankDisk : TableHistory :=
  ⟨⟨fun _ => 0, fun _ => 0⟩, .down, none, false⟩

theorem TableHistory.initial_blankDisk : blankDisk.Initial :=
  ⟨by decide, rfl, rfl, rfl⟩

def syncedRun (diskname : CString) : List TableEvent :=
  [.start (firstLaunch diskname), .update 5 1, .syncTable, .syncInfo fun _ => 0xcc]

theorem initialize_restores_synced_run :
    exists s s' mem saved, (tableSystem .little 512).Reachable s ∧
      s.step .little 512 (.start (firstLaunch ⟨[0x61], by decide⟩)) = some s' ∧
      s'.phase = .loaded mem ∧ getWriteStatus mem.blkWriteStatus 5 = 1 ∧
      s.lastSync = some saved ∧ s.updated = false ∧ mem.Restores 512 saved := by
  have hreach := schedule (S := tableSystem .little 512)
    initial_blankDisk (syncedRun ⟨[0x61], by decide⟩) rfl
  rcases @initialize_restores_lastSync _ _ _ _ (firstLaunch ⟨[0x61], by decide⟩) hreach
    rfl rfl with ⟨mem, saved, hphase, hsync, hfresh, hrestores⟩
  refine ⟨_, _, mem, saved, hreach, rfl, hphase, ?_, hsync, hfresh, hrestores⟩
  cases hphase
  decide

def longName : CString :=
  ⟨[0x64, 0x69, 0x73, 0x6b, 0x2d, 0x31, 0x32, 0x33, 0x34, 0x35, 0x36], by decide⟩

theorem initialize_truncates_name :
    exists s s' mem saved, (tableSystem .little 512).Reachable s ∧
      s.disk.info statusOffset = valid ∧
      s.step .little 512 (.start (firstLaunch longName)) = some s' ∧
      s'.phase = .loaded mem ∧ s.lastSync = some saved ∧ mem.diskname ≠ saved.diskname := by
  have hreach := schedule (S := tableSystem .little 512)
    initial_blankDisk (syncedRun longName) rfl
  exact ⟨_, _, _, _, hreach, rfl, rfl, rfl, rfl, by decide⟩

end Htx.Hxestorage
