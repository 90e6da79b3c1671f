import Htx.Hxsmsg.Restart

/-!
# What the logs hold

A log that does not wrap holds the texts in order, a log that wraps those since its last wrap
and the rest of the lap before, and a save log the first ones, until it is full.
-/

namespace Htx.Hxsmsg

open List Library ByteFile LogView

/-- The texts since the last wrap, and those of the lap before. -/
structure Laps where
  current : List UInt8
  previous : List UInt8

def Laps.file (laps : Laps) : List UInt8 :=
  laps.current ++ laps.previous.drop laps.current.length

def Laps.add (argv : Argv) (log : LogName) (laps : Laps) (text : List UInt8) : Laps :=
  if argv.wrapFlag log = true ∧ argv.ThresholdMet log (laps.current ++ text).length then
    ⟨[], laps.current ++ text⟩
  else ⟨laps.current ++ text, laps.previous⟩

open Laps

def lapsOf (argv : Argv) (log : LogName) (texts : List (List UInt8)) : Laps :=
  texts.foldl (add argv log) ⟨[], []⟩

structure LogView.Holds (argv : Argv) (log : LogName) (texts : List (List UInt8))
    (v : LogView) : Prop where
  plain : log.isSave = false -> argv.wrapFlag log = false -> v.bytes = some texts.flatten
  wraps : argv.wrapFlag log = true -> v.fd = some (lapsOf argv log texts).current.length ∧
    v.bytes = some (lapsOf argv log texts).file
  saves : log.isSave = true -> exists front, FirstTexts argv log 0 texts front ∧
    v.bytes.getD [] = front.flatten

def signalsParent (argv : Argv) (log : LogName) (m : Message) (st : State) : Bool :=
  match st.fd log with
  | none => false
  | some pos => (checkWrap argv log m (st.write log pos m)).2.2

section

variable {argv : Argv} {log : LogName} (texts : List (List UInt8))

theorem signalsParent_iff {m : Message} {st : State} {pos : Nat} (hfd : st.fd log = some pos) :
    signalsParent argv log m st = true <-> argv.ThresholdMet log (pos + m.text.length) ∧
      argv.wrapFlag log = false ∧ log.isSave = false := by
  have hoffset : ((st.write log pos m).fd log).getD 0 = pos + m.text.length := by
    simp [State.write, State.setFile, State.setFd]
  unfold signalsParent checkWrap LogName.signalOnThres
  simp only [hfd, hoffset]
  by_cases hmet : argv.ThresholdMet log (pos + m.text.length)
  · cases argv.wrapFlag log <;> cases log.isSave <;> simp [hmet]
  · simp [hmet]

theorem lapsOf_concat (text : List UInt8) : lapsOf argv log (texts ++ [text]) =
    (lapsOf argv log texts).add argv log text := by
  simp [lapsOf]

theorem lapsOf_plain (hwrap : argv.wrapFlag log = false) :
    lapsOf argv log texts = ⟨texts.flatten, []⟩ := by
  induction texts using reverseRecOn with
  | nil => rfl
  | append_singleton texts text ih => simp [lapsOf_concat, ih, add, hwrap]

theorem write_laps {l : Laps} {v : LogView} (hsave : log.isSave = false)
    (hfd : v.fd = some l.current.length) (hbytes : v.bytes = some l.file) (text : List UInt8) :
    (v.write argv log text).fd = some (l.add argv log text).current.length ∧
      (v.write argv log text).bytes = some (l.add argv log text).file := by
  have hle : l.current.length ≤ l.file.length := by
    simp [file]
  have hwrite : pwrite l.file l.current.length text =
      (mk (l.current ++ text) l.previous).file := by
    rw [pwrite_of_le hle]
    simp [file, drop_append]
  have hcut : resize (pwrite l.file l.current.length text) (l.current.length + text.length) =
      (mk [] (l.current ++ text)).file := by
    rw [resize_pwrite hle]
    simp [file]
  unfold write add
  rw [hfd, hbytes, length_append]
  by_cases hmet : argv.ThresholdMet log (l.current.length + text.length)
  · cases hwrap : argv.wrapFlag log
    · simp [hmet, hsave, hwrite]
    · simp [hmet, hcut]
  · simp [hmet, hwrite]

theorem writeAll_laps (hsave : log.isSave = false) :
    let v := (new argv log).writeAll argv log texts
    v.fd = some (lapsOf argv log texts).current.length ∧
      v.bytes = some (lapsOf argv log texts).file := by
  induction texts using reverseRecOn with
  | nil => simp [new, writeAll, Argv.Opens, hsave, lapsOf, file]
  | append_singleton texts text ih =>
    simp only [writeAll_concat, lapsOf_concat]
    exact write_laps hsave ih.1 ih.2 text

theorem holds_writeAll : ((new argv log).writeAll argv log texts).Holds argv log texts where
  plain := by
    intro hsave hwrap
    rw [(writeAll_laps texts hsave).2, lapsOf_plain texts hwrap, file, drop_nil, append_nil]
  wraps := by
    intro hwrap
    refine writeAll_laps texts ?_
    cases log <;> first | rfl | cases hwrap
  saves := by
    intro hsave
    by_cases hopens : argv.Opens log 0
    · have hnew : new argv log = ⟨some [], some 0, 0⟩ := if_pos hopens
      rw [hnew]
      obtain ⟨front, h⟩ := saves_writeAll (v := ⟨some [], some 0, 0⟩) hsave rfl
        (fun hmet => hmet.not_opens hsave hopens) texts
      exact ⟨front, h.toFirstTexts, by rw [h.bytes [] rfl rfl]; rfl⟩
    · -- a threshold that the empty log reaches
      have hmet : argv.ThresholdMet log 0 := by
        simp only [Argv.Opens, hsave, Argv.ThresholdMet, Nat.zero_div] at hopens ⊢
        omega
      refine ⟨[], ⟨ nil_prefix, fun shorter h hne => absurd (prefix_nil.mp h) hne, .inl hmet⟩, ?_⟩
      rw [writeAll_of_closed (by simp [new, hopens])]
      simp [new, hopens]

end

/-- The logs of a first run, after any messages, and the signals for the next one. -/
theorem logs_hold_texts (argv : Argv) (disk : Disk)
    (h : forall c, disk.ckpt = some c -> c.thres ≠ argv.thres) (now : LogName -> Nat)
    (ms : List Message) (log : LogName) :
    ((oneRun argv disk now ms).view log).Holds argv log (textsOf log ms) ∧
      forall (m : Message) (front back : List LogName), m.logs = front ++ log :: back ->
        (signalsParent argv log m (writeLogs argv m front (oneRun argv disk now ms)) = true <->
          log.isSave = false ∧ argv.wrapFlag log = false ∧
            argv.ThresholdMet log (textsOf log (ms ++ [m])).flatten.length) := by
  have hrun : Running argv (openLogs argv disk now) :=
    running_openLogs fun c hc hthres => absurd hthres (h c hc)
  have hview : (oneRun argv disk now ms).view log =
      (new argv log).writeAll argv log (textsOf log ms) := by
    rw [oneRun, view_copyMessages hrun, view_openLogs_other h]
  refine ⟨hview ▸ holds_writeAll _, fun m front back hlogs => ?_⟩
  have hnodup : (front ++ log :: back).Nodup := hlogs ▸ m.nodup_logs
  have hbefore : (writeLogs argv m front (oneRun argv disk now ms)).fd log =
      ((new argv log).writeAll argv log (textsOf log ms)).fd := by
    have hnot : log ∉ front := fun hmem => disjoint_of_nodup_append hnodup hmem mem_cons_self
    have hsame := view_writeLogs (hrun.copyMessages ms) m hnodup.of_append_left log
    rw [if_neg hnot, ← oneRun, hview] at hsame
    exact congrArg fd hsame
  generalize writeLogs argv m front (oneRun argv disk now ms) = st at hbefore ⊢
  by_cases hplain : log.isSave = false ∧ argv.wrapFlag log = false
  · have hlog : log ∈ m.logs := by
      simp [hlogs]
    rw [(writeAll_laps _ hplain.1).1, lapsOf_plain _ hplain.2] at hbefore
    simp [signalsParent_iff hbefore, hplain, textsOf, hlog]
  · refine ⟨fun hsignal => absurd ?_ hplain, fun hall => absurd ⟨hall.1, hall.2.1⟩ hplain⟩
    cases hfd : st.fd log with
    | none => simp [signalsParent, hfd] at hsignal
    | some pos => exact ((signalsParent_iff hfd).mp hsignal).2.symm

theorem logs_hold_texts_two_messages :
    ((oneRun { twoBlocks with msgWrap := false } .empty (fun _ => 1)
      [infoMessage [65], infoMessage [66]]).view .msg).bytes = some [65, 66] ∧
    ((oneRun twoBlocks .empty (fun _ => 1)
      [infoMessage (replicate 1025 65), infoMessage [66]]).view .msg).bytes =
        some (66 :: replicate 1024 65) := by
  constructor
  · exact (logs_hold_texts { twoBlocks with msgWrap := false } .empty (fun _ h => nomatch h)
      (fun _ => 1) [infoMessage [65], infoMessage [66]] .msg).1.plain rfl rfl
  · -- the first message fills the log, the second one is written over its beginning
    have hwraps := (logs_hold_texts twoBlocks .empty (fun _ h => nomatch h) (fun _ => 1)
      [infoMessage (replicate 1025 65), infoMessage [66]] .msg).1.wraps rfl
    rw [hwraps.2]
    decide +kernel

end Htx.Hxsmsg
