import Htx.Library.EventSystem
import Htx.Hxsmsg.Restart

/-!
# Archiving

With archiving on, a log that wraps has the message log copied to the next archive file.
The copy is right for the message log.
-/

namespace Htx.Hxsmsg

open List State Function Library

structure ArchiveState where
  state : State
  logged : List UInt8

inductive ArchiveEvent where
  | message (m : Message)
  | restart (now : LogName -> Nat)

namespace ArchiveState

def step (argv : Argv) (s : ArchiveState) : ArchiveEvent -> ArchiveState
  | .message m =>
    { state := copyMessage argv m s.state
      logged := if .msg ∈ m.logs then s.logged ++ m.text else s.logged }
  | .restart now =>
    { s with state := Hxsmsg.restart argv now s.state }

def Initial (argv : Argv) (s : ArchiveState) : Prop :=
  exists (disk : Disk) (now : LogName -> Nat),
    disk.ckpt = none ∧ (forall i, disk.archive i = none) ∧
    s = ⟨openLogs argv disk now, []⟩

end ArchiveState

def archiveSystem (argv : Argv) : EventSystem ArchiveState ArchiveEvent where
  Initial := ArchiveState.Initial argv
  step := fun s e => some (s.step argv e)

def Argv.Wraps (argv : Argv) (log : LogName) (st : State) (text : List UInt8) : Prop :=
  argv.wrapFlag log = true ∧
    exists pos, pos ∈ st.fd log ∧ argv.ThresholdMet log (pos + text.length)

instance (argv : Argv) (log : LogName) (st : State) (text : List UInt8) :
    Decidable (argv.Wraps log st text) :=
  inferInstanceAs (Decidable (_ ∧ exists pos, pos ∈ st.fd log ∧ _))

def archived (archive : Nat -> Option (List UInt8)) (n : Nat) : List UInt8 :=
  (List.range n).flatMap fun i => (archive i).getD []

def NothingLost (s : ArchiveState) : Prop :=
  exists n, (forall i, s.state.disk.archive i ≠ none ↔ i < n) ∧
    exists f, s.state.disk.file .msg = some f ∧ archived s.state.disk.archive n ++
        f.bytes.take (s.state.checkpt.entry .msg).offset = s.logged

section

variable {argv : Argv} {log : LogName} {st : State} {m : Message}

theorem archive_writeLog_of_not_wraps (h : ¬ argv.Wraps log st m.text) :
    (writeLog argv log m st).disk.archive = st.disk.archive ∧
      (writeLog argv log m st).archiveSequenceCount = st.archiveSequenceCount := by
  cases hfd : st.fd log with
  | none => simp [writeLog, hfd]
  | some pos =>
    by_cases hmet : argv.ThresholdMet log (pos + m.text.length)
    · have hwrap : argv.wrapFlag log = false := by
        by_contra hwrap
        exact h ⟨by simpa using hwrap, pos, hfd, hmet⟩
      cases hsignal : log.signalOnThres <;>
        simp [writeLog, hfd, checkWrap, updateCkpt, hmet, hwrap, hsignal, write, setFile, setFd]
    · simp [writeLog, hfd, checkWrap, updateCkpt, hmet, write, setFile, setFd]

end

theorem archived_update (archive : Nat -> Option (List UInt8)) (n : Nat) (bytes : List UInt8) :
    archived (update archive n (some bytes)) (n + 1) = archived archive n ++ bytes := by
  have hold : archived (update archive n (some bytes)) n = archived archive n := by
    refine flatMap_congr fun i hi => ?_
    rw [update_of_ne (ne_of_lt (mem_range.mp hi))]
  rw [← hold]
  simp [archived, range_succ, flatMap_append]

/-- `NothingLost` with what keeps it: the archives have the first numbers, the counter
is not ahead of them and the message log reaches up to its offset. -/
structure Kept (st : State) (logged : List UInt8) (n : Nat) (file : List UInt8) :
    Prop where
  archives : forall i, st.disk.archive i ≠ none ↔ i < n
  count : st.archiveSequenceCount ≤ n
  bytes : (st.view .msg).bytes = some file
  offset : (st.view .msg).offset ≤ file.length
  all : archived st.disk.archive n ++ file.take (st.view .msg).offset = logged

variable {n : Nat}

theorem Kept.frame {st st' : State} {logged file : List UInt8}
    (hkept : Kept st logged n file) (harchive : st'.disk.archive = st.disk.archive)
    (hcount : st'.archiveSequenceCount ≤ st.archiveSequenceCount)
    (hbytes : (st'.view .msg).bytes = (st.view .msg).bytes)
    (hoffset : (st'.view .msg).offset = (st.view .msg).offset) :
    Kept st' logged n file where
  archives := by
    rw [harchive]
    exact hkept.archives
  count := hcount.trans hkept.count
  bytes := hbytes.trans hkept.bytes
  offset := by
    rw [hoffset]
    exact hkept.offset
  all := by
    rw [harchive, hoffset]
    exact hkept.all

section

variable {argv : Argv} {st : State} {m : Message}

open ByteFile

theorem archive_writeLog_msg {f : File} {pos : Nat} (harchive : argv.msgArchive = true)
    (hwrap : argv.wrapFlag .msg = true) (hfd : st.fd .msg = some pos)
    (hfile : st.disk.file .msg = some f) (hpos : pos ≤ f.bytes.length)
    (hmet : argv.ThresholdMet .msg (pos + m.text.length)) :
    (writeLog argv .msg m st).disk.archive = update st.disk.archive st.archiveSequenceCount
          (some (f.bytes.take pos ++ m.text)) ∧
      (writeLog argv .msg m st).archiveSequenceCount = st.archiveSequenceCount + 1 := by
  rw [← resize_pwrite hpos]
  simp [writeLog, hfd, checkWrap, updateCkpt, hmet, hwrap, harchive, write,
    setFile, setFd, ftruncate, archiveMsg, hfile, File.write,
    File.truncate]

variable {logged file : List UInt8}

section

variable (hrun : Running argv st)

include hrun

theorem Kept.writeLog_msg (harchive : argv.msgArchive = true)
    (hwrap : argv.wrapFlag .msg = true) (hkept : Kept st logged n file)
    (hfree : argv.Wraps .msg st m.text -> st.disk.archive st.archiveSequenceCount = none) :
    exists n' file', Kept (writeLog argv .msg m st) (logged ++ m.text) n' file' := by
  have hfd : st.fd .msg = some (st.view .msg).offset :=
    (hrun.log .msg).position.resolve_right fun h => h.2 (.inl rfl)
  have hview := view_writeLog_self argv .msg m st (hrun.file_of_open .msg)
  obtain ⟨f, hfile, hf⟩ : exists f, st.disk.file .msg = some f ∧ f.bytes = file := by
    simpa [view] using hkept.bytes
  subst hf
  have hoffset := hkept.offset
  by_cases hmet : argv.ThresholdMet .msg ((st.view .msg).offset + m.text.length)
  · have hwrite : (st.view .msg).write argv .msg m.text =
        ⟨some (f.bytes.take (st.view .msg).offset ++ m.text), some 0, 0⟩ := by
      rw [← resize_pwrite hoffset]
      simp [LogView.write, show (st.view .msg).fd = _ from hfd, hmet, hwrap, hkept.bytes]
    rw [hwrite] at hview
    rcases archive_writeLog_msg harchive hwrap hfd hfile hoffset hmet with ⟨harchives, hcount⟩
    have hn : st.archiveSequenceCount = n := by
      refine le_antisymm hkept.count (Nat.le_of_not_lt fun hlt => ?_)
      exact (hkept.archives _).mpr hlt (hfree ⟨hwrap, _, hfd, hmet⟩)
    refine ⟨n + 1, f.bytes.take (st.view .msg).offset ++ m.text, ?_⟩
    rw [hn] at harchives hcount
    refine ⟨fun i => ?_, hcount.le, by rw [hview], by simp [hview], ?_⟩
    · rw [harchives]
      by_cases hi : i = n
      · simp [hi]
      · rw [update_of_ne hi, hkept.archives]
        omega
    · rw [harchives, archived_update, hview, take_zero, append_nil, ← append_assoc, hkept.all]
  · have hwrite : (st.view .msg).write argv .msg m.text =
        ⟨some (pwrite f.bytes (st.view .msg).offset m.text),
          some ((st.view .msg).offset + m.text.length),
          (st.view .msg).offset + m.text.length⟩ := by
      simp [LogView.write, show (st.view .msg).fd = _ from hfd, hmet, hkept.bytes]
    rw [hwrite] at hview
    have hnot : ¬ argv.Wraps .msg st m.text := by
      rintro ⟨_, pos, hpos, hmet'⟩
      rw [hfd, Option.mem_some_iff] at hpos
      exact hmet (hpos ▸ hmet')
    rcases archive_writeLog_of_not_wraps hnot with ⟨harchives, hcount⟩
    refine ⟨n, pwrite f.bytes (st.view .msg).offset m.text, ?_⟩
    refine ⟨?_, hcount.trans_le hkept.count, by rw [hview], ?_, ?_⟩
    · rw [harchives]
      exact hkept.archives
    · rw [hview]
      exact length_pwrite hoffset
    · rw [harchives, hview, take_pwrite hoffset, ← append_assoc, hkept.all]

theorem Kept.writeLog_of_ne {log : LogName} (hne : log ≠ .msg)
    (hkept : Kept st logged n file) (hwraps : ¬ argv.Wraps log st m.text) :
    Kept (writeLog argv log m st) logged n file := by
  have hview := view_writeLog_of_ne argv log m st hne.symm (hrun.file_of_open log)
  rcases archive_writeLog_of_not_wraps hwraps with ⟨harchives, hcount⟩
  exact hkept.frame harchives hcount.le (by rw [hview]) (by rw [hview])

theorem wraps_writeLog_of_ne {log other : LogName} (hne : other ≠ log) (text : List UInt8) :
    argv.Wraps other (writeLog argv log m st) text ↔ argv.Wraps other st text := by
  have hfd := congrArg LogView.fd (view_writeLog_of_ne argv log m st hne (hrun.file_of_open log))
  simp only [view] at hfd
  simp only [Argv.Wraps, hfd]

theorem Kept.writeLogs {logs : List LogName}
    (hnodup : (.msg :: logs).Nodup) (hkept : Kept st logged n file)
    (hwraps : forall log, log ∈ logs -> ¬ argv.Wraps log st m.text) :
    Kept (writeLogs argv m logs st) logged n file := by
  induction logs generalizing st with
  | nil => exact hkept
  | cons log rest ih =>
    simp only [nodup_cons, mem_cons, not_or] at hnodup
    rcases hnodup with ⟨⟨hmsg, hmsgRest⟩, hlogRest, hrest⟩
    refine ih (hrun.writeLog log m) (nodup_cons.mpr ⟨hmsgRest, hrest⟩) ?_ ?_
    · exact hkept.writeLog_of_ne hrun (Ne.symm hmsg) (hwraps log (mem_cons_self ..))
    · intro other hother
      have hne : other ≠ log := fun h => hlogRest (h ▸ hother)
      rw [wraps_writeLog_of_ne hrun hne]
      exact hwraps other (mem_cons_of_mem log hother)

end

end

/-!
## Runs
-/

def Archivable (argv : Argv) (s : ArchiveState) : ArchiveEvent -> Prop
  | .message m =>
    (.err ∈ m.logs -> ¬ argv.Wraps .err s.state m.text) ∧
    (.msg ∈ m.logs -> argv.Wraps .msg s.state m.text ->
      s.state.disk.archive s.state.archiveSequenceCount = none)
  | .restart _ => True

instance (argv : Argv) (s : ArchiveState) : DecidablePred (Archivable argv s)
  | .message _ => inferInstanceAs (Decidable ((_ -> ¬ _) ∧ (_ -> _ -> _)))
  | .restart _ => isTrue trivial

def ArchiveInv (argv : Argv) (s : ArchiveState) : Prop :=
  Running argv s.state ∧ exists n file, Kept s.state s.logged n file

section

variable {argv : Argv} {s : ArchiveState}

theorem ArchiveInv.message (hinv : ArchiveInv argv s) (harchive : argv.msgArchive = true)
    (hwrap : argv.wrapFlag .msg = true) {m : Message}
    (hguard : Archivable argv s (.message m)) :
    ArchiveInv argv (s.step argv (.message m)) := by
  rcases hinv with ⟨hrun, n, file, hkept⟩
  refine ⟨hrun.copyMessage m, ?_⟩
  simp only [ArchiveState.step, copyMessage_eq]
  rcases m.logs_eq with hlogs | ⟨rest, hlogs⟩
  · rw [hlogs]
    exact ⟨n, file, by simpa [writeLogs] using hkept⟩
  · have hnodup : (.msg :: rest).Nodup := hlogs ▸ m.nodup_logs
    simp only [Archivable, hlogs] at hguard
    rcases hkept.writeLog_msg hrun harchive hwrap
      (hguard.2 (mem_cons_self ..)) with ⟨n', file', hmsg⟩
    rw [hlogs, if_pos (mem_cons_self ..)]
    refine ⟨n', file', hmsg.writeLogs (hrun.writeLog .msg m) hnodup ?_⟩
    intro log hlog
    have hne : log ≠ .msg := fun h => (nodup_cons.mp hnodup).1 (h ▸ hlog)
    rw [wraps_writeLog_of_ne hrun hne]
    cases log with
    | err => exact hguard.1 (mem_cons_of_mem _ hlog)
    | msg => exact absurd rfl hne
    | errSave | msgSave => exact fun h => Bool.false_ne_true h.1

theorem openLogs_archive (disk : Disk) (now : LogName -> Nat) :
    (openLogs argv disk now).disk.archive = disk.archive := by
  change (checkCkpt argv disk).1.archive = disk.archive
  unfold checkCkpt
  split
  · rfl
  · split <;> rfl

theorem ArchiveInv.restart (hinv : ArchiveInv argv s) (now : LogName -> Nat) :
    ArchiveInv argv (s.step argv (.restart now)) := by
  rcases hinv with ⟨hrun, n, file, hkept⟩
  have hview := view_restart hrun now .msg
  refine ⟨running_openLogs hrun.intact, n, file, ?_⟩
  refine hkept.frame (openLogs_archive _ _) (Nat.zero_le _) ?_ ?_
  · exact (congrArg LogView.bytes hview).trans rfl
  · exact (congrArg LogView.offset hview).trans rfl

theorem ArchiveInv.initial (hinit : ArchiveState.Initial argv s) : ArchiveInv argv s := by
  rcases hinit with ⟨disk, now, hckpt, harchive, rfl⟩
  have hother : forall c, disk.ckpt = some c -> c.thres ≠ argv.thres := by
    intro c hc
    rw [hckpt] at hc
    cases hc
  have hintact : disk.Intact argv := fun c hc hthres => absurd hthres (hother c hc)
  refine ⟨running_openLogs hintact, 0, [], ?_⟩
  have hview : (openLogs argv disk now).view .msg = ⟨some [], some 0, 0⟩ := by
    have hopens : argv.Opens .msg 0 := .inl rfl
    rw [view_openLogs_other hother, LogView.new, if_pos hopens]
  refine ⟨fun i => ?_, Nat.zero_le _, by rw [hview], by rw [hview]; simp, ?_⟩
  · simp [openLogs_archive, harchive i]
  · simp [archived]

theorem ArchiveInv.nothingLost (hinv : ArchiveInv argv s) : NothingLost s := by
  rcases hinv with ⟨_, n, file, hkept⟩
  obtain ⟨f, hfile, hf⟩ : exists f, s.state.disk.file .msg = some f ∧ f.bytes = file := by
    simpa [view] using hkept.bytes
  exact ⟨n, hkept.archives, f, hfile, by rw [hf]; exact hkept.all⟩

end

/-- In every run in which the error log does not wrap and no archive is written over,
nothing is lost. -/
theorem nothingLost_of_archivable (argv : Argv) (harchive : argv.msgArchive = true)
    (hwrap : argv.msgWrap = true) {s : ArchiveState}
    (h : (archiveSystem argv).ReachableUnder (Archivable argv) s) : NothingLost s := by
  suffices hinv : ArchiveInv argv s from hinv.nothingLost
  induction h with
  | init hinit => exact ArchiveInv.initial hinit
  | @step _ _ e _ hguard hstep ih =>
    cases hstep
    cases e with
    | message m => exact ih.message harchive hwrap hguard
    | restart now => exact ih.restart now

def archiving (errSize : Int) (errWrap : Bool) : Argv where
  size := fun log => if log = .err then errSize else 0
  maxThreshold := 1000000
  errWrap := errWrap
  msgWrap := true
  msgArchive := true

def archiveStart (argv : Argv) : ArchiveState :=
  ⟨openLogs argv .empty (fun _ => 1), []⟩

theorem archiveStart_initial (argv : Argv) : ArchiveState.Initial argv (archiveStart argv) :=
  ⟨.empty, fun _ => 1, rfl, fun _ => rfl, rfl⟩

theorem nothingLost_two_archives :
    NothingLost (((archiveStart (archiving 0 false)).step (archiving 0 false)
      (.message (infoMessage [65]))).step (archiving 0 false)
      (.message (infoMessage [66]))) := by
  refine nothingLost_of_archivable (archiving 0 false) rfl rfl ?_
  exact .step (.step (.init (archiveStart_initial _)) (by decide) rfl) (by decide) rfl

def errorMessage (text : List UInt8) : Message where
  text := text
  severityCode := 1
  time := fun _ => 1

theorem NothingLost.logged_eq {s : ArchiveState} (h : NothingLost s)
    {file : List UInt8} (hlast : forall i, i < n -> s.state.disk.archive i ≠ none)
    (hnext : s.state.disk.archive n = none)
    (hfile : (s.state.disk.file .msg).map File.bytes = some file) :
    archived s.state.disk.archive n ++ file.take (s.state.checkpt.entry .msg).offset =
      s.logged := by
  rcases h with ⟨n', harchives, f, hf, hall⟩
  have hn : n' = n := by
    refine le_antisymm (Nat.le_of_not_lt fun hlt => ?_) (Nat.le_of_not_lt fun hlt => ?_)
    · exact (harchives n).mpr hlt hnext
    · exact absurd ((harchives n').mp (hlast n' hlt)) (lt_irrefl n')
  rw [hf, Option.map_some, Option.some.injEq] at hfile
  rwa [hn, hfile] at hall

/-- An error that makes both logs wrap is archived twice, and after a restart the first
archive is written over. -/
theorem archives_repeated_and_lost :
    (exists s, (archiveSystem (archiving 0 true)).Reachable s ∧ ¬ NothingLost s) ∧
    exists s, (archiveSystem (archiving 0 false)).Reachable s ∧ ¬ NothingLost s := by
  constructor
  · refine ⟨(archiveStart (archiving 0 true)).step _ (.message (errorMessage [65])),
      .step (.init (archiveStart_initial _)) trivial rfl, fun h => ?_⟩
    have hall := h.logged_eq (n := 2) (by decide) (by decide) rfl
    revert hall
    decide
  · refine ⟨(((archiveStart (archiving 0 false)).step _ (.message (infoMessage [65]))).step
      _ (.restart fun _ => 2)).step _ (.message (infoMessage [66])),
      .step (.step (.step (.init (archiveStart_initial _)) trivial rfl) trivial rfl)
        trivial rfl, fun h => ?_⟩
    have hall := h.logged_eq (n := 1) (by decide) (by decide) rfl
    revert hall
    decide

end Htx.Hxsmsg
