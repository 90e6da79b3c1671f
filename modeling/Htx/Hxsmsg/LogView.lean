import Htx.Hxsmsg.Logs

/-!
# Logs on their own

A log seen on its own is its bytes, its file position and its offset in the checkpoint;
the modification times, the other logs and the archives do not come into it.
-/

namespace Htx.Hxsmsg

open Option Function State Library

structure LogView where
  bytes : Option (List UInt8)
  fd : Option Nat
  offset : Nat
  deriving DecidableEq

namespace LogView

def write (argv : Argv) (log : LogName) (text : List UInt8) (v : LogView) : LogView :=
  match v.fd with
  | none => v
  | some pos =>
    let offset := pos + text.length
    let bytes := v.bytes.map (ByteFile.pwrite · pos text)
    if argv.ThresholdMet log offset then
      if argv.wrapFlag log = false then
        ⟨bytes, if log.isSave then none else some offset, offset⟩
      else ⟨bytes.map (ByteFile.resize · offset), some 0, 0⟩
    else ⟨bytes, some offset, offset⟩

def new (argv : Argv) (log : LogName) : LogView :=
  if argv.Opens log 0 then ⟨some [], some 0, 0⟩ else ⟨none, none, 0⟩

def reopen (argv : Argv) (log : LogName) (v : LogView) : LogView :=
  { v with fd := if argv.Opens log v.offset then some v.offset else none }

end LogView

def State.view (st : State) (log : LogName) : LogView :=
  ⟨(st.disk.file log).map File.bytes, st.fd log, (st.checkpt.entry log).offset⟩

section

variable (argv : Argv) (log : LogName) (m : Message) (st : State)

theorem writeLog_spec {pos : Nat} {f : File} (hfd : st.fd log = some pos)
    (hfile : st.disk.file log = some f) :
    exists f' : File,
      let v := (st.view log).write argv log m.text
      let st' := writeLog argv log m st
      v.bytes = some f'.bytes ∧
      st'.disk.file = Function.update st.disk.file log (some f') ∧
      st'.fd = Function.update st.fd log v.fd ∧
      st'.checkpt = { st.checkpt with
        entry := Function.update st.checkpt.entry log ⟨v.offset, f'.mtime⟩ } ∧
      st'.disk.ckpt = some st'.checkpt := by
  by_cases hthres : argv.ThresholdMet log (pos + m.text.length)
  · by_cases hwrap : argv.wrapFlag log = false
    · refine ⟨f.write pos m.text (m.time log), ?_⟩
      cases hsave : log.isSave <;>
        simp [writeLog, hfd, checkWrap, updateCkpt, LogView.write, view, hfile,
          hthres, hwrap, write, setFile, setFd, File.write,
          LogName.signalOnThres, hsave]
    · refine ⟨(f.write pos m.text (m.time log)).truncate (pos + m.text.length) (m.time log), ?_⟩
      cases harchive : argv.msgArchive <;>
        simp [writeLog, hfd, checkWrap, updateCkpt, LogView.write, view, hfile,
          hthres, hwrap, write, setFile, setFd, ftruncate,
          archiveMsg, File.write, File.truncate, harchive]
  · refine ⟨f.write pos m.text (m.time log), ?_⟩
    simp [writeLog, hfd, checkWrap, updateCkpt, LogView.write, view, hfile,
      hthres, write, setFile, setFd, File.write]

theorem view_writeLog_self (h : st.fd log ≠ none -> st.disk.file log ≠ none) :
    (writeLog argv log m st).view log = (st.view log).write argv log m.text := by
  cases hfd : st.fd log with
  | none => simp [writeLog, hfd, LogView.write, view]
  | some pos =>
    obtain ⟨f, hfile⟩ := ne_none_iff_exists'.mp (h (by simp [hfd]))
    rcases writeLog_spec argv log m st hfd hfile with ⟨f', hbytes, hf, hfd', hck, _⟩
    simp only [view, hf, hfd', hck, update_self, map_some, ← hbytes]

theorem view_writeLog_of_ne {other : LogName} (hne : other ≠ log)
    (h : st.fd log ≠ none -> st.disk.file log ≠ none) :
    (writeLog argv log m st).view other = st.view other := by
  cases hfd : st.fd log with
  | none => simp [writeLog, hfd]
  | some pos =>
    obtain ⟨f, hfile⟩ := ne_none_iff_exists'.mp (h (by simp [hfd]))
    rcases writeLog_spec argv log m st hfd hfile with ⟨f', _, hf, hfd', hck, _⟩
    simp only [view, hf, hfd', hck, update_of_ne hne]

end

/-!
## Starting a log
-/

variable {e : Entry} {f : Option File}

section

variable (argv : Argv) (now : Nat) (log : LogName)

def startLog (f : Option File) (e : Entry) : Option File × Option Nat × Entry :=
  let (f, e) := checkLog argv log f e
  let (f, fd) := openLog argv now log f e
  (f, fd, e)

def Entry.Matches (e : Entry) (f : File) : Prop :=
  f.mtime = e.modTime ∨ (f.bytes = [] ∧ e.offset = 0)

theorem Argv.Checks.opens_zero {argv : Argv} {log : LogName} (h : argv.Checks log) :
    argv.Opens log 0 := by
  rcases h with h | h
  · exact .inl h
  · exact .inr ⟨h, h⟩

theorem startLog_missing (hchecks : argv.Checks log) (e : Entry) :
    startLog argv now log none e = (some ⟨[], now⟩, some 0, ⟨0, 0⟩) := by
  simp [startLog, checkLog, hchecks, checkTime, openLog, hchecks.opens_zero]

theorem startLog_unchecked (hchecks : ¬ argv.Checks log) (f : Option File) (e : Entry) :
    startLog argv now log f e = (if argv.thres log = 0 then none else f, none, e) := by
  have hopens : ¬ argv.Opens log e.offset := by
    rintro (h | h)
    · exact hchecks (.inl h)
    · exact hchecks (.inr h.1)
  by_cases hzero : argv.thres log = 0 <;>
    simp [startLog, checkLog, hchecks, hzero, openLog, hopens]

def Entry.Describes (e : Entry) : Option File -> Prop
  | none => e.offset = 0
  | some f => e.Matches f

structure LogOk (f : Option File) (fd : Option Nat) (e : Entry) : Prop where
  file : argv.Checks log -> exists f', f = some f' ∧ e.Matches f'
  unchecked : ¬ argv.Checks log -> fd = none ∧ (argv.thres log = 0 -> f = none)
  position : fd = some e.offset ∨ (fd = none ∧ ¬ argv.Opens log e.offset)

theorem startLog_matching (hchecks : argv.Checks log) {f : File} (hmatches : e.Matches f) :
    exists (f' : File) (e' : Entry), startLog argv now log (some f) e =
        (some f', if argv.Opens log e.offset then some e.offset else none, e') ∧
      f'.bytes = f.bytes ∧ e'.offset = e.offset ∧ e'.Matches f' ∧ e.Matches f' := by
  by_cases htime : f.mtime = e.modTime
  · refine ⟨f, e, ?_, rfl, rfl, hmatches, hmatches⟩
    by_cases hopens : argv.Opens log e.offset <;>
      simp [startLog, checkLog, hchecks, checkTime, htime, openLog, hopens]
  · rcases hmatches.resolve_left htime with ⟨hbytes, hoffset⟩
    refine ⟨⟨[], now⟩, ⟨0, 0⟩, ?_, hbytes.symm, hoffset.symm, .inr ⟨rfl, rfl⟩,
      .inr ⟨rfl, hoffset⟩⟩
    simp [startLog, checkLog, hchecks, checkTime, htime, openLog, hchecks.opens_zero, hoffset]

theorem Argv.Opens.checks {argv : Argv} {log : LogName} {offset : Nat}
    (h : argv.Opens log offset) : argv.Checks log := by
  rcases h with h | h
  · exact .inl h
  · exact .inr h.1

theorem startLog_ok (h : argv.Checks log -> e.Describes f) :
    exists (f' : Option File) (fd : Option Nat) (e' : Entry),
      startLog argv now log f e = (f', fd, e') ∧ LogOk argv log f' fd e' ∧
      e'.offset = e.offset ∧ (argv.Checks log -> e.Describes f') := by
  by_cases hchecks : argv.Checks log
  · cases f with
    | none =>
      have hoffset : e.offset = 0 := h hchecks
      refine ⟨_, _, _, startLog_missing argv now log hchecks e, ?_, hoffset.symm,
        fun _ => .inr ⟨rfl, hoffset⟩⟩
      exact ⟨fun _ => ⟨_, rfl, .inr ⟨rfl, rfl⟩⟩, fun h => absurd hchecks h, .inl rfl⟩
    | some f =>
      rcases startLog_matching argv now log hchecks (h hchecks) with
        ⟨f', e', hstart, _, hoffset, hok, hmatches⟩
      refine ⟨_, _, _, hstart, ?_, hoffset, fun _ => hmatches⟩
      refine ⟨fun _ => ⟨f', rfl, hok⟩, fun h => absurd hchecks h, ?_⟩
      by_cases hopens : argv.Opens log e.offset
      · exact .inl (by simp [hopens, hoffset])
      · exact .inr ⟨by simp [hopens], by rwa [hoffset]⟩
  · refine ⟨_, _, _, startLog_unchecked argv now log hchecks f e, ?_, rfl,
      fun h => absurd h hchecks⟩
    exact ⟨fun h => absurd h hchecks, fun _ => ⟨rfl, fun hzero => by simp [hzero]⟩,
      .inr ⟨rfl, fun h => hchecks h.checks⟩⟩

end

/-!
## What every running program satisfies
-/

def Disk.Intact (argv : Argv) (disk : Disk) : Prop :=
  forall c, disk.ckpt = some c -> c.thres = argv.thres ->
    forall log, argv.Checks log -> (c.entry log).Describes (disk.file log)

/-- The checkpoint file of a running program: it says what the checkpoint in memory
says, or it is one of other thresholds and nothing has been logged yet. -/
def Saved (argv : Argv) (st : State) (c : Ckpt) : Prop :=
  if c.thres = argv.thres then
    forall log, (c.entry log).offset = (st.checkpt.entry log).offset ∧
      (argv.Checks log -> (c.entry log).Describes (st.disk.file log))
  else forall log, st.view log = LogView.new argv log

structure Running (argv : Argv) (st : State) : Prop where
  thres : st.checkpt.thres = argv.thres
  log : forall log, LogOk argv log (st.disk.file log) (st.fd log) (st.checkpt.entry log)
  saved : exists c, st.disk.ckpt = some c ∧ Saved argv st c

section

variable {argv : Argv} {st : State} {disk : Disk} {now : LogName -> Nat}

theorem Running.file_of_open (hrun : Running argv st) (log : LogName)
    (hopen : st.fd log ≠ none) : st.disk.file log ≠ none := by
  by_cases hchecks : argv.Checks log
  · rcases (hrun.log log).file hchecks with ⟨f, hf, _⟩
    simp [hf]
  · exact absurd ((hrun.log log).unchecked hchecks).1 hopen

theorem Running.intact (hrun : Running argv st) : st.disk.Intact argv := by
  intro c hc hthres log hchecks
  rcases hrun.saved with ⟨c', hc', hsaved⟩
  obtain rfl : c' = c := some_injective _ (hc'.symm.trans hc)
  rw [Saved, if_pos hthres] at hsaved
  exact (hsaved log).2 hchecks

theorem checkCkpt_same {c : Ckpt} (hc : disk.ckpt = some c)
    (hthres : c.thres = argv.thres) : checkCkpt argv disk = (disk, c) := by
  simp [checkCkpt, hc, hthres]

theorem checkCkpt_other (h : forall c, disk.ckpt = some c -> c.thres ≠ argv.thres) :
    checkCkpt argv disk =
      ({ disk with
          file := fun _ => none, ckpt := some (disk.ckpt.getD (Ckpt.new argv)) },
        Ckpt.new argv) := by
  cases hc : disk.ckpt with
  | none => simp [checkCkpt, hc]
  | some c => simp [checkCkpt, hc, h c hc]

theorem openLogs_thres : (openLogs argv disk now).checkpt.thres = argv.thres := by
  change (checkCkpt argv disk).2.thres = argv.thres
  unfold checkCkpt
  split
  · rfl
  · split
    · assumption
    · rfl

theorem openLogs_same (now : LogName -> Nat) {c : Ckpt} (hc : disk.ckpt = some c)
    (hthres : c.thres = argv.thres) (log : LogName) :
    ((openLogs argv disk now).disk.file log, (openLogs argv disk now).fd log,
        (openLogs argv disk now).checkpt.entry log) =
      startLog argv (now log) log (disk.file log) (c.entry log) := by
  simp only [openLogs, checkLogs, checkCkpt_same hc hthres, startLog]

theorem openLogs_other (now : LogName -> Nat)
    (h : forall c, disk.ckpt = some c -> c.thres ≠ argv.thres) (log : LogName) :
    ((openLogs argv disk now).disk.file log, (openLogs argv disk now).fd log,
        (openLogs argv disk now).checkpt.entry log) =
      startLog argv (now log) log none ⟨0, 0⟩ := by
  simp only [openLogs, checkLogs, checkCkpt_other h, startLog, Ckpt.new]

theorem openLogs_ckpt :
    (openLogs argv disk now).disk.ckpt = some (disk.ckpt.getD (Ckpt.new argv)) := by
  change (checkCkpt argv disk).1.ckpt = _
  cases hc : disk.ckpt with
  | none => simp [checkCkpt, hc]
  | some c => by_cases hthres : c.thres = argv.thres <;> simp [checkCkpt, hc, hthres]

variable {log : LogName}

theorem view_of_start {fd : Option Nat}
    (h : (st.disk.file log, st.fd log, st.checkpt.entry log) = (f, fd, e)) :
    st.view log = ⟨f.map File.bytes, fd, e.offset⟩ := by
  simp only [Prod.mk.injEq] at h
  simp only [view, h]

theorem view_openLogs_other (h : forall c, disk.ckpt = some c -> c.thres ≠ argv.thres)
    (log : LogName) : (openLogs argv disk now).view log = LogView.new argv log := by
  by_cases hchecks : argv.Checks log
  · have hstart := (openLogs_other now h log).trans
      (startLog_missing argv (now log) log hchecks _)
    simp [view_of_start hstart, LogView.new, hchecks.opens_zero]
  · have hstart := (openLogs_other now h log).trans
      (startLog_unchecked argv (now log) log hchecks _ _)
    have hopens : ¬ argv.Opens log 0 := fun h => hchecks h.checks
    simp [view_of_start hstart, LogView.new, hopens]

theorem openLogs_ok
    (hstart : ((openLogs argv disk now).disk.file log, (openLogs argv disk now).fd log,
        (openLogs argv disk now).checkpt.entry log) =
      startLog argv (now log) log f e) (h : argv.Checks log -> e.Describes f) :
    LogOk argv log ((openLogs argv disk now).disk.file log)
        ((openLogs argv disk now).fd log) ((openLogs argv disk now).checkpt.entry log) ∧
      e.offset = ((openLogs argv disk now).checkpt.entry log).offset ∧
      (argv.Checks log -> e.Describes ((openLogs argv disk now).disk.file log)) := by
  rcases startLog_ok argv (now log) log h with ⟨f', fd, e', hresult, hok, hoffset, hdesc⟩
  have hall := hstart.trans hresult
  simp only [Prod.mk.injEq] at hall
  rw [hall.1, hall.2.1, hall.2.2]
  exact ⟨hok, hoffset.symm, hdesc⟩

theorem running_openLogs (hdisk : disk.Intact argv) : Running argv (openLogs argv disk now) := by
  by_cases hsame : exists c, disk.ckpt = some c ∧ c.thres = argv.thres
  · rcases hsame with ⟨c, hc, hthres⟩
    have hlog := fun log => openLogs_ok (openLogs_same now hc hthres log) (hdisk c hc hthres log)
    refine ⟨openLogs_thres, fun log => (hlog log).1, c, by simp [openLogs_ckpt, hc], ?_⟩
    rw [Saved, if_pos hthres]
    exact fun log => (hlog log).2
  · have hother : forall c, disk.ckpt = some c -> c.thres ≠ argv.thres :=
      fun c hc hthres => hsame ⟨c, hc, hthres⟩
    have hlog := fun log => openLogs_ok (openLogs_other now hother log) (fun _ => rfl)
    refine ⟨openLogs_thres, fun log => (hlog log).1, _, openLogs_ckpt, ?_⟩
    cases hc : disk.ckpt with
    | none =>
      rw [getD_none, Saved, if_pos (show (Ckpt.new argv).thres = argv.thres from rfl)]
      exact fun log => (hlog log).2
    | some c =>
      rw [getD_some, Saved, if_neg (hother c hc)]
      exact fun log => view_openLogs_other hother log

theorem view_restart (hrun : Running argv st) (now : LogName -> Nat) (log : LogName) :
    (restart argv now st).view log = (st.view log).reopen argv log := by
  rcases hrun.saved with ⟨c, hc, hsaved⟩
  by_cases hthres : c.thres = argv.thres
  · rw [Saved, if_pos hthres] at hsaved
    rcases hsaved log with ⟨hoffset, hdescribes⟩
    have hstart := openLogs_same now hc hthres log
    by_cases hchecks : argv.Checks log
    · rcases (hrun.log log).file hchecks with ⟨f, hf, _⟩
      have hmatches : (c.entry log).Matches f := by
        simpa [hf, Entry.Describes] using hdescribes hchecks
      rcases startLog_matching argv (now log) log hchecks hmatches with
        ⟨f', e', hresult, hbytes, hoffset', _, _⟩
      rw [hf, hresult] at hstart
      rw [restart, view_of_start hstart]
      simp [LogView.reopen, view, hf, hbytes, hoffset', hoffset]
    · have hopens : ¬ argv.Opens log (st.checkpt.entry log).offset :=
        fun h => hchecks h.checks
      rw [startLog_unchecked argv (now log) log hchecks] at hstart
      rw [restart, view_of_start hstart]
      by_cases hzero : argv.thres log = 0
      · simp [LogView.reopen, view, hopens, hoffset, hzero,
          ((hrun.log log).unchecked hchecks).2 hzero]
      · simp [LogView.reopen, view, hopens, hoffset, hzero]
  · rw [Saved, if_neg hthres] at hsaved
    have hother : forall c', st.disk.ckpt = some c' -> c'.thres ≠ argv.thres := by
      intro c' hc'
      rwa [← some_injective _ (hc.symm.trans hc')]
    rw [restart, view_openLogs_other hother log, hsaved log, LogView.new]
    split <;> rename_i hopens <;> simp [LogView.reopen, hopens]

theorem Argv.ThresholdMet.not_opens {offset : Nat} (h : argv.ThresholdMet log offset)
    (hsave : log.isSave = true) :
    ¬ argv.Opens log offset := by
  rintro (hlog | ⟨_, hlt⟩)
  · simp [hsave] at hlog
  · have hblocks : offset / UBSIZE ≤ offset := Nat.div_le_self _ _
    simp only [Argv.ThresholdMet] at h
    omega

theorem LogView.write_position (text : List UInt8) {v : LogView} (h : v.fd ≠ none) :
    let w := v.write argv log text
    w.fd = some w.offset ∨ (w.fd = none ∧ ¬ argv.Opens log w.offset) := by
  obtain ⟨pos, hpos⟩ := ne_none_iff_exists'.mp h
  by_cases hmet : argv.ThresholdMet log (pos + text.length)
  · by_cases hwrap : argv.wrapFlag log = false
    · cases hsave : log.isSave
      · simp [LogView.write, hpos, hmet, hwrap, hsave]
      · simp [LogView.write, hpos, hmet, hwrap, hsave, hmet.not_opens hsave]
    · simp [LogView.write, hpos, hmet, hwrap]
  · simp [LogView.write, hpos, hmet]

theorem Running.writeLog (hrun : Running argv st) (log : LogName) (m : Message) :
    Running argv (writeLog argv log m st) := by
  cases hfd : st.fd log with
  | none => simpa [Hxsmsg.writeLog, hfd] using hrun
  | some pos =>
    have hopen : st.fd log ≠ none := by simp [hfd]
    obtain ⟨f, hfile⟩ := ne_none_iff_exists'.mp (hrun.file_of_open log hopen)
    rcases writeLog_spec argv log m st hfd hfile with ⟨f', hbytes, hf, hfd', hck, hdisk⟩
    have hlog : forall other, LogOk argv other ((Hxsmsg.writeLog argv log m st).disk.file other)
        ((Hxsmsg.writeLog argv log m st).fd other)
        ((Hxsmsg.writeLog argv log m st).checkpt.entry other) := by
      intro other
      rw [hf, hfd', hck]
      by_cases hne : other = log
      · subst hne
        simp only [update_self]
        refine ⟨fun _ => ⟨f', rfl, .inl rfl⟩, fun hchecks => ?_,
          LogView.write_position m.text hopen⟩
        exact absurd ((hrun.log other).unchecked hchecks).1 hopen
      · simp only [update_of_ne hne]
        exact hrun.log other
    have hthres : (Hxsmsg.writeLog argv log m st).checkpt.thres = argv.thres := by
      rw [hck]
      exact hrun.thres
    refine ⟨hthres, hlog, _, hdisk, ?_⟩
    rw [Saved, if_pos hthres]
    refine fun other => ⟨rfl, fun hchecks => ?_⟩
    rcases (hlog other).file hchecks with ⟨f'', hf'', hmatches⟩
    rw [hf'']
    exact hmatches

end

/-!
## Messages
-/

def Message.logs (m : Message) : List LogName :=
  if m.severityCode = HE_STATUS then []
  else if m.severityCode < HTX_SYS_INFO then [.msg, .msgSave, .err, .errSave]
  else [.msg, .msgSave]

theorem Message.nodup_logs (m : Message) : m.logs.Nodup := by
  unfold Message.logs
  split_ifs <;> decide

theorem Message.logs_eq (m : Message) :
    m.logs = [] ∨ exists rest, m.logs = LogName.msg :: rest := by
  unfold Message.logs
  split_ifs
  · exact .inl rfl
  · exact .inr ⟨_, rfl⟩
  · exact .inr ⟨_, rfl⟩

def writeLogs (argv : Argv) (m : Message) (logs : List LogName) (st : State) : State :=
  logs.foldl (fun st log => writeLog argv log m st) st

theorem copyMessage_eq (argv : Argv) (m : Message) (st : State) :
    copyMessage argv m st = writeLogs argv m m.logs st := by
  unfold copyMessage Message.logs
  split_ifs <;> rfl

def textsOf (log : LogName) (ms : List Message) : List (List UInt8) :=
  (ms.filter fun m => log ∈ m.logs).map Message.text

def LogView.writeAll (argv : Argv) (log : LogName) (texts : List (List UInt8))
    (v : LogView) : LogView :=
  texts.foldl (fun v text => v.write argv log text) v

section

variable {argv : Argv} {st : State}

section

variable (hrun : Running argv st)

include hrun

theorem Running.writeLogs (m : Message) (logs : List LogName) :
    Running argv (writeLogs argv m logs st) := by
  induction logs generalizing st with
  | nil => exact hrun
  | cons log rest ih => exact ih (hrun.writeLog log m)

theorem view_writeLogs (m : Message) {logs : List LogName}
    (hnodup : logs.Nodup) (log : LogName) :
    (writeLogs argv m logs st).view log =
      if log ∈ logs then (st.view log).write argv log m.text else st.view log := by
  induction logs generalizing st with
  | nil => rfl
  | cons first rest ih =>
    rw [List.nodup_cons] at hnodup
    have hrest := ih (hrun.writeLog first m) hnodup.2
    change (Hxsmsg.writeLogs argv m rest (writeLog argv first m st)).view log = _
    rw [hrest]
    by_cases hfirst : log = first
    · subst hfirst
      simp [hnodup.1, view_writeLog_self argv log m st (hrun.file_of_open log)]
    · simp [hfirst, view_writeLog_of_ne argv first m st hfirst (hrun.file_of_open first)]

theorem Running.copyMessage (m : Message) : Running argv (copyMessage argv m st) := by
  rw [copyMessage_eq]
  exact hrun.writeLogs m m.logs

theorem Running.copyMessages (ms : List Message) : Running argv (copyMessages argv ms st) := by
  induction ms generalizing st with
  | nil => exact hrun
  | cons m rest ih => exact ih (hrun.copyMessage m)

theorem view_copyMessages (ms : List Message) (log : LogName) :
    (copyMessages argv ms st).view log = (st.view log).writeAll argv log (textsOf log ms) := by
  induction ms generalizing st with
  | nil => rfl
  | cons m rest ih =>
    change (Hxsmsg.copyMessages argv rest (Hxsmsg.copyMessage argv m st)).view log = _
    rw [ih (hrun.copyMessage m), copyMessage_eq, view_writeLogs hrun m m.nodup_logs]
    by_cases hlog : log ∈ m.logs <;> simp [textsOf, hlog, LogView.writeAll]

end

end

end Htx.Hxsmsg
