import Htx.Hxsmsg.LogView

/-!
# Restarts

A restart brings back every position that `open_logs` takes.  It does not take the one
of a save log that has as many bytes as its threshold has blocks, although the log is
full only with `UBSIZE` times as many.
-/

namespace Htx.Hxsmsg

open List LogView Library

def bytesOf (log : LogName) (ms : List Message) : Nat :=
  ((textsOf log ms).map List.length).sum

variable {v : LogView}

/-- The shortest beginning of the texts that fills a log of `start` bytes, or all of them. -/
structure FirstTexts (argv : Argv) (log : LogName) (start : Nat)
    (texts front : List (List UInt8)) : Prop where
  begins : front <+: texts
  room : forall shorter, shorter <+: front -> shorter ≠ front ->
    ¬ argv.ThresholdMet log (start + shorter.flatten.length)
  full : argv.ThresholdMet log (start + front.flatten.length) ∨ front = texts

/-- A save log `v` after the texts: `w` holds those in front. -/
structure Saves (argv : Argv) (log : LogName) (v w : LogView)
    (texts front : List (List UInt8)) : Prop extends
    FirstTexts argv log v.offset texts front where
  offset : w.offset = v.offset + front.flatten.length
  fd : w.fd = if argv.ThresholdMet log w.offset then none else some w.offset
  same : front.flatten = [] -> w.bytes = v.bytes
  bytes : forall file, v.bytes = some file -> file.length = v.offset ->
    w.bytes = some (file ++ front.flatten)

section

variable {argv : Argv} {log : LogName}

theorem LogView.writeAll_of_closed (h : v.fd = none)
    (texts : List (List UInt8)) : v.writeAll argv log texts = v := by
  induction texts with
  | nil => rfl
  | cons text rest ih =>
    have hwrite : v.write argv log text = v := by
      simp [write, h]
    change (v.write argv log text).writeAll argv log rest = v
    rw [hwrite, ih]

theorem LogView.writeAll_concat (texts : List (List UInt8)) (text : List UInt8) :
    v.writeAll argv log (texts ++ [text]) = (v.writeAll argv log texts).write argv log text := by
  simp [writeAll]

theorem pwrite_end (file data : List UInt8) :
    ByteFile.pwrite file file.length data = file ++ data := by
  rw [ByteFile.pwrite_of_le le_rfl, take_length, drop_of_length_le (by omega), append_nil]

theorem LogView.saves_writeAll (hsave : log.isSave = true) (hfd : v.fd = some v.offset)
    (hroom : ¬ argv.ThresholdMet log v.offset) (texts : List (List UInt8)) :
    exists front, Saves argv log v (v.writeAll argv log texts) texts front := by
  have hwrap : argv.wrapFlag log = false := by
    cases log <;> first | rfl | cases hsave
  induction texts using reverseRecOn with
  | nil =>
    refine ⟨[], ⟨prefix_rfl, fun shorter h hne => absurd (prefix_nil.mp h) hne, .inr rfl⟩, rfl,
      hfd.trans (if_neg hroom).symm, fun _ => rfl, fun file hfile _ => ?_⟩
    rwa [flatten_nil, append_nil]
  | append_singleton texts text ih =>
    obtain ⟨front, h⟩ := ih
    rw [writeAll_concat]
    by_cases hmet : argv.ThresholdMet log (v.offset + front.flatten.length)
    · -- the log is closed
      have hclosed : (v.writeAll argv log texts).fd = none := by
        rw [h.fd, h.offset, if_pos hmet]
      have hwrite : (v.writeAll argv log texts).write argv log text =
          v.writeAll argv log texts := by
        simp [write, hclosed]
      rw [hwrite]
      exact ⟨front, ⟨h.begins.trans (prefix_append ..), h.room, .inl hmet⟩, h.offset, h.fd, h.same,
        h.bytes⟩
    · obtain rfl := h.full.resolve_left hmet
      have hopen : (v.writeAll argv log front).fd = some (v.writeAll argv log front).offset := by
        rw [h.fd, h.offset, if_neg hmet]
      have hwrite : (v.writeAll argv log front).write argv log text =
          let offset := v.offset + (front ++ [text]).flatten.length
          ⟨(v.writeAll argv log front).bytes.map
              (ByteFile.pwrite · (v.offset + front.flatten.length) text),
            if argv.ThresholdMet log offset then none else some offset, offset⟩ := by
        simp only [write, hopen, h.offset, hsave, hwrap, if_true, flatten_concat, length_append,
          ← Nat.add_assoc]
        split <;> rfl
      rw [hwrite]
      refine ⟨front ++ [text], ⟨prefix_rfl, fun shorter hshorter hne => ?_, .inr rfl⟩, rfl, rfl,
        fun hnil => ?_, fun file hfile hlength => ?_⟩
      · have hbegins := (prefix_concat_iff.mp hshorter).resolve_left hne
        by_cases hall : shorter = front
        · rwa [hall]
        · exact h.room shorter hbegins hall
      · rw [flatten_concat, append_eq_nil_iff] at hnil
        rw [h.same hnil.1, hnil.2]
        cases v.bytes <;> simp [ByteFile.pwrite]
      · dsimp only
        rw [h.bytes file hfile hlength, Option.map_some, ← hlength, ← length_append, pwrite_end,
          flatten_concat, append_assoc]

theorem Argv.ThresholdMet.mono {offset offset' : Nat} (h : argv.ThresholdMet log offset)
    (hle : offset ≤ offset') : argv.ThresholdMet log offset' := by
  have hblocks : offset / UBSIZE ≤ offset' / UBSIZE := Nat.div_le_div_right hle
  simp only [Argv.ThresholdMet] at h ⊢
  omega

structure Fills (argv : Argv) (log : LogName) (v w : LogView) (size : Nat) : Prop where
  taken : ¬ argv.ThresholdMet log (v.offset + size) ->
    w.fd = some (v.offset + size) ∧ w.offset = v.offset + size
  full : argv.ThresholdMet log (v.offset + size) -> w.fd = none
  grows : 0 < size -> v.offset < w.offset
  same : size = 0 -> w.bytes = v.bytes ∧ w.offset = v.offset

theorem LogView.fills_writeAll (hsave : log.isSave = true)
    (hfd : v.fd = some v.offset) (hroom : ¬ argv.ThresholdMet log v.offset)
    (texts : List (List UInt8)) :
    Fills argv log v (v.writeAll argv log texts) (texts.map List.length).sum := by
  obtain ⟨front, h⟩ := saves_writeAll hsave hfd hroom texts
  rw [← length_flatten]
  have hle : front.flatten.length ≤ texts.flatten.length := by
    obtain ⟨rest, rfl⟩ := h.begins
    simp
  rcases h.full with hmet | rfl
  · -- the log is full
    have hpos : 0 < front.flatten.length := by
      refine Nat.pos_of_ne_zero fun hzero => hroom ?_
      rwa [hzero] at hmet
    refine ⟨fun hnot => absurd (hmet.mono (by omega)) hnot, fun _ => ?_, fun _ => ?_, fun _ => ?_⟩
    · rw [h.fd, h.offset, if_pos hmet]
    · rw [h.offset]
      omega
    · omega
  · refine ⟨fun hnot => ?_, fun hmet => ?_, fun hpos => ?_, fun hzero => ?_⟩
    · rw [h.fd, h.offset, if_neg hnot]
      exact ⟨rfl, rfl⟩
    · rw [h.fd, h.offset, if_pos hmet]
    · rw [h.offset]
      omega
    · exact ⟨h.same (length_eq_zero_iff.mp hzero), by rw [h.offset, hzero, Nat.add_zero]⟩

end

section

variable {argv : Argv} {log : LogName}

def LogView.kept (v : LogView) : Option (List UInt8) × Nat :=
  (v.bytes, v.offset)

theorem LogView.reopen_eq_self (h : (argv.Opens log v.offset ∧ v.fd = some v.offset) ∨
      (¬ argv.Opens log v.offset ∧ v.fd = none)) :
    v.reopen argv log = v := by
  rcases v with ⟨bytes, fd, offset⟩
  rcases h with ⟨hopens, hfd⟩ | ⟨hopens, hfd⟩ <;> simp_all [reopen]

theorem LogView.kept_closed_iff (hsave : log.isSave = true)
    (hfd : v.fd = some v.offset) (hroom : ¬ argv.ThresholdMet log v.offset)
    (hopens : ¬ argv.Opens log v.offset) (texts : List (List UInt8)) :
    ((v.reopen argv log).writeAll argv log texts).kept = (v.writeAll argv log texts).kept ↔
      (texts.map List.length).sum = 0 := by
  have hfills := fills_writeAll hsave hfd hroom texts
  have hclosed : (v.reopen argv log).fd = none := by
    simp [reopen, hopens]
  rw [writeAll_of_closed hclosed]
  constructor
  · intro hkept
    have hoffset : v.offset = (v.writeAll argv log texts).offset := congrArg Prod.snd hkept
    by_contra hpos
    exact absurd hoffset (ne_of_lt (hfills.grows (pos_of_ne_zero hpos)))
  · intro hzero
    rcases hfills.same hzero with ⟨hbytes, hoffset⟩
    simp [kept, reopen, hbytes, hoffset]

theorem thresholdMet_iff {offset : Nat} :
    argv.ThresholdMet log offset ↔ UBSIZE * argv.thres log ≤ offset := by
  simp only [Argv.ThresholdMet, UBSIZE]
  omega

theorem openLogs_fd (disk : Disk) (now : LogName -> Nat) (log : LogName) :
    let st := openLogs argv disk now
    st.fd log = if argv.Opens log (st.checkpt.entry log).offset then
      some (st.checkpt.entry log).offset else none := by
  exact apply_ite Prod.snd _ _ _

section

variable {st : State} (hrun : Running argv st) (hsave : log.isSave = true)
  (hfd : st.fd log = some (st.checkpt.entry log).offset)

include hrun hsave hfd

theorem fills_copyMessages
    (hroom : ¬ argv.ThresholdMet log (st.checkpt.entry log).offset) (ms : List Message) :
    Fills argv log (st.view log) ((copyMessages argv ms st).view log) (bytesOf log ms) := by
  rw [view_copyMessages hrun]
  exact fills_writeAll hsave hfd hroom _

theorem kept_restart_save_iff (hopens : argv.Opens log (st.checkpt.entry log).offset)
    (ms : List Message) (texts : List (List UInt8)) :
    let v := (copyMessages argv ms st).view log
    let size := (st.checkpt.entry log).offset + bytesOf log ms
    ((v.reopen argv log).writeAll argv log texts).kept = (v.writeAll argv log texts).kept ↔
      size < argv.thres log ∨ UBSIZE * argv.thres log ≤ size ∨ (texts.map List.length).sum = 0 := by
  intro v size
  have hroom : ¬ argv.ThresholdMet log (st.checkpt.entry log).offset :=
    fun h => h.not_opens hsave hopens
  have hfills := fills_copyMessages hrun hsave hfd hroom ms
  by_cases hmet : argv.ThresholdMet log size
  · have hself : v.reopen argv log = v := by
      have hclosed : v.fd = none := hfills.full hmet
      have hposition : v.fd = some v.offset ∨ (v.fd = none ∧ ¬ argv.Opens log v.offset) :=
        ((hrun.copyMessages ms).log log).position
      have hopens : ¬ argv.Opens log v.offset := (hposition.resolve_left (by simp [hclosed])).2
      exact reopen_eq_self (.inr ⟨hopens, hclosed⟩)
    exact iff_of_true (by rw [hself]) (.inr (.inl (thresholdMet_iff.mp hmet)))
  · rcases hfills.taken hmet with ⟨hvfd, hvoffset⟩
    have hposition : v.fd = some v.offset := hvfd.trans (congrArg some hvoffset.symm)
    have hfull : ¬ UBSIZE * argv.thres log ≤ (size : Int) := fun h => hmet (thresholdMet_iff.mpr h)
    have hvopens : argv.Opens log v.offset ↔ (size : Int) < argv.thres log := by
      rw [show v.offset = size from hvoffset]
      simp only [Argv.Opens, hsave, Bool.true_eq_false, false_or, gt_iff_lt, and_iff_right_iff_imp]
      omega
    by_cases hsmall : (size : Int) < argv.thres log
    · have hself : v.reopen argv log = v := reopen_eq_self (.inl ⟨hvopens.mpr hsmall, hposition⟩)
      exact iff_of_true (by rw [hself]) (.inl hsmall)
    · rw [kept_closed_iff hsave hposition
        (by rwa [show v.offset = size from hvoffset]) (fun h => hsmall (hvopens.mp h))]
      simp [hsmall, hfull]

end

theorem kept_restart_iff {st : State} (hrun : Running argv st)
    (hstart : st.fd log = if argv.Opens log (st.checkpt.entry log).offset then
      some (st.checkpt.entry log).offset else none)
    (ms : List Message) (texts : List (List UInt8)) :
    let v := (copyMessages argv ms st).view log
    ((v.reopen argv log).writeAll argv log texts).kept = (v.writeAll argv log texts).kept ↔
      (log.isSave = true -> argv.thres log > (st.checkpt.entry log).offset ->
        let size := (st.checkpt.entry log).offset + bytesOf log ms
        size < argv.thres log ∨ UBSIZE * argv.thres log ≤ size ∨
          (texts.map List.length).sum = 0) := by
  intro v
  cases hsave : log.isSave with
  | false =>
    have hopens : argv.Opens log v.offset := .inl hsave
    have hposition := ((hrun.copyMessages ms).log log).position
    have hself : v.reopen argv log = v :=
      reopen_eq_self (.inl ⟨hopens, hposition.resolve_right fun h => h.2 hopens⟩)
    simp [hself]
  | true =>
    by_cases hopens : argv.Opens log (st.checkpt.entry log).offset
    · rw [if_pos hopens] at hstart
      have hlt : argv.thres log > (st.checkpt.entry log).offset := by
        simpa [Argv.Opens, hsave] using (hopens.resolve_left (by simp [hsave])).2
      simpa only [hlt, forall_const] using kept_restart_save_iff hrun hsave hstart hopens ms texts
    · rw [if_neg hopens] at hstart
      have hv : v = st.view log :=
        (view_copyMessages hrun ms log).trans (writeAll_of_closed hstart _)
      have hself : v.reopen argv log = v := by
        rw [hv]
        exact reopen_eq_self (.inr ⟨hopens, hstart⟩)
      have hge : ¬ argv.thres log > (st.checkpt.entry log).offset :=
        fun h => hopens (.inr ⟨by omega, h⟩)
      simp [hself, hge]

end

/-!
## The checkpoint file
-/

def State.savedOffset (st : State) (log : LogName) : Option Nat :=
  st.disk.ckpt.map fun c => (c.entry log).offset

def State.UpToDate (st : State) : Prop :=
  st.disk.ckpt = some st.checkpt

section

variable {argv : Argv} {st : State}

section

variable (hrun : Running argv st)

include hrun

theorem Running.upToDate_writeLog {log : LogName}
    (h : st.UpToDate ∨ st.fd log ≠ none) (m : Message) :
    (Hxsmsg.writeLog argv log m st).UpToDate := by
  cases hfd : st.fd log with
  | none =>
    rw [hfd] at h
    simpa [Hxsmsg.writeLog, hfd] using h
  | some pos =>
    have hopen : st.fd log ≠ none := by simp [hfd]
    obtain ⟨f, hfile⟩ := Option.ne_none_iff_exists'.mp (hrun.file_of_open log hopen)
    rcases writeLog_spec argv log m st hfd hfile with ⟨_, _, _, _, _, hdisk⟩
    exact hdisk

theorem Running.upToDate_writeLogs (h : st.UpToDate) (m : Message) (logs : List LogName) :
    (Hxsmsg.writeLogs argv m logs st).UpToDate := by
  induction logs generalizing st with
  | nil => exact h
  | cons log rest ih => exact ih (hrun.writeLog log m) (hrun.upToDate_writeLog (.inl h) m)

theorem Running.upToDate_copyMessage {m : Message}
    (h : st.UpToDate ∨ m.logs ≠ []) : (Hxsmsg.copyMessage argv m st).UpToDate := by
  rw [copyMessage_eq]
  rcases h with h | h
  · exact hrun.upToDate_writeLogs h m m.logs
  · rcases m.logs_eq.resolve_left h with ⟨rest, hlogs⟩
    have hopen : st.fd .msg ≠ none := by
      rcases (hrun.log .msg).position with hfd | ⟨_, hopens⟩
      · simp [hfd]
      · exact absurd (.inl rfl) hopens
    rw [hlogs]
    exact (hrun.writeLog .msg m).upToDate_writeLogs (hrun.upToDate_writeLog (.inr hopen) m) m rest

theorem Running.upToDate_copyMessages {ms : List Message}
    (h : st.UpToDate ∨ exists m, m ∈ ms ∧ m.logs ≠ []) :
    (Hxsmsg.copyMessages argv ms st).UpToDate := by
  induction ms generalizing st with
  | nil => simpa [Hxsmsg.copyMessages] using h
  | cons m rest ih =>
    refine ih (hrun.copyMessage m) ?_
    rcases h with h | ⟨m', hm', hlogs⟩
    · exact .inl (hrun.upToDate_copyMessage (.inl h))
    · rcases mem_cons.mp hm' with rfl | hrest
      · exact .inl (hrun.upToDate_copyMessage (.inr hlogs))
      · exact .inr ⟨m', hrest, hlogs⟩

end

theorem copyMessages_of_not_logged {ms : List Message} (h : forall m, m ∈ ms -> m.logs = []) :
    copyMessages argv ms st = st := by
  induction ms with
  | nil => rfl
  | cons m rest ih =>
    have hstep : copyMessage argv m st = st := by
      rw [copyMessage_eq, h m (mem_cons_self ..)]
      rfl
    change copyMessages argv rest (copyMessage argv m st) = st
    rw [hstep]
    exact ih fun m' hm' => h m' (mem_cons_of_mem m hm')

end

def SameLogs (s t : State) : Prop :=
  forall log, (s.disk.file log).map File.bytes = (t.disk.file log).map File.bytes ∧
    (s.checkpt.entry log).offset = (t.checkpt.entry log).offset ∧
    s.savedOffset log = t.savedOffset log

section

variable (argv : Argv) (disk : Disk) (now later : LogName -> Nat)

def oneRun (ms : List Message) : State :=
  copyMessages argv ms (openLogs argv disk now)

def twoRuns (ms rest : List Message) : State :=
  copyMessages argv rest (restart argv later (oneRun argv disk now ms))

theorem oneRun_append (ms rest : List Message) :
    oneRun argv disk now (ms ++ rest) = copyMessages argv rest (oneRun argv disk now ms) :=
  foldl_append

theorem sameLogs_iff (hdisk : disk.Intact argv) (ms rest : List Message) :
    SameLogs (twoRuns argv disk now later ms rest) (oneRun argv disk now (ms ++ rest)) ↔
      forall log, ((twoRuns argv disk now later ms rest).view log).kept =
        ((oneRun argv disk now (ms ++ rest)).view log).kept := by
  have hrun : Running argv (oneRun argv disk now ms) := (running_openLogs hdisk).copyMessages ms
  have hrestarted : Running argv (restart argv later (oneRun argv disk now ms)) :=
    running_openLogs hrun.intact
  constructor
  · intro hsame log
    exact Prod.ext (hsame log).1 (hsame log).2.1
  · intro hkept log
    have hoffset := congrArg Prod.snd (hkept log)
    refine ⟨congrArg Prod.fst (hkept log), hoffset, ?_⟩
    rw [oneRun_append] at hoffset ⊢
    by_cases hlogged : exists m, m ∈ rest ∧ m.logs ≠ []
    · have htwo : (twoRuns argv disk now later ms rest).UpToDate :=
        hrestarted.upToDate_copyMessages (.inr hlogged)
      have hone := hrun.upToDate_copyMessages (.inr hlogged)
      rw [State.UpToDate] at htwo hone
      rw [State.savedOffset, State.savedOffset, htwo, hone]
      exact congrArg some hoffset
    · have hnone : forall m, m ∈ rest -> m.logs = [] := by
        simpa using hlogged
      rcases hrun.saved with ⟨c, hc, _⟩
      rw [twoRuns, copyMessages_of_not_logged hnone, copyMessages_of_not_logged hnone,
        State.savedOffset, State.savedOffset, restart, openLogs_ckpt, hc, Option.getD_some]

/-- A restart is transparent except for a save log that is not full and has at least as
many bytes as its threshold has blocks, if more is to be written to it. -/
theorem restart_transparent_iff (hdisk : disk.Intact argv) (ms rest : List Message) :
    SameLogs (twoRuns argv disk now later ms rest) (oneRun argv disk now (ms ++ rest)) ↔
      forall log, log.isSave = true ->
        let start := ((openLogs argv disk now).checkpt.entry log).offset
        argv.thres log > start ->
          let size := start + bytesOf log ms
          size < argv.thres log ∨ UBSIZE * argv.thres log ≤ size ∨ bytesOf log rest = 0 := by
  have hstart : Running argv (openLogs argv disk now) := running_openLogs hdisk
  have hrun : Running argv (oneRun argv disk now ms) := hstart.copyMessages ms
  have hrestarted : Running argv (restart argv later (oneRun argv disk now ms)) :=
    running_openLogs hrun.intact
  rw [sameLogs_iff argv disk now later hdisk]
  refine forall_congr' fun log => ?_
  rw [oneRun_append, twoRuns, view_copyMessages hrestarted, view_restart hrun later,
    view_copyMessages hrun]
  exact kept_restart_iff hstart (openLogs_fd disk now log) ms (textsOf log rest)

end

def Disk.empty : Disk where
  file := fun _ => none
  ckpt := none
  archive := fun _ => none

theorem Disk.intact_empty (argv : Argv) : Disk.empty.Intact argv := by
  intro c hc
  cases hc

def twoBlocks : Argv where
  size := fun _ => 1024
  maxThreshold := 1000000
  errWrap := true
  msgWrap := true
  msgArchive := false

def infoMessage (text : List UInt8) : Message where
  text := text
  severityCode := 7
  time := fun _ => 1

theorem restart_transparent_one_byte : SameLogs
      (twoRuns twoBlocks .empty (fun _ => 1) (fun _ => 2) [infoMessage [65]] [infoMessage [66]])
      (oneRun twoBlocks .empty (fun _ => 1) [infoMessage [65], infoMessage [66]]) := by
  refine (restart_transparent_iff twoBlocks .empty (fun _ => 1) (fun _ => 2)
    (Disk.intact_empty _) [infoMessage [65]] [infoMessage [66]]).mpr ?_
  decide

/-- With two bytes in it the save log, which has room for 1024, is not reopened: the
message after the restart is missing from it. -/
theorem restart_not_transparent : ¬ SameLogs
      (twoRuns twoBlocks .empty (fun _ => 1) (fun _ => 2) [infoMessage [65, 10]]
        [infoMessage [66, 10]])
      (oneRun twoBlocks .empty (fun _ => 1)
        ([infoMessage [65, 10]] ++ [infoMessage [66, 10]])) := by
  intro hsame
  have hoffset := (hsame .msgSave).2.1
  revert hoffset
  decide

end Htx.Hxsmsg
