import Htx.Library.ByteFile

/-!
# The logs of the message process

`hxsmsg` copies every message it receives to the message log and, if it is an error, to
the error log.  Each of the two has a save log that keeps the first messages and is closed
when it is full.
-/

namespace Htx.Hxsmsg

open Library Function

def UBSIZE : Nat :=
  512

inductive LogName where
  | err
  | errSave
  | msg
  | msgSave
  deriving DecidableEq

instance : Fintype LogName where
  elems := {.err, .errSave, .msg, .msgSave}
  complete := by
    intro log
    cases log <;> decide

def LogName.isSave : LogName -> Bool
  | .errSave | .msgSave => true
  | .err | .msg => false

structure Argv where
  size : LogName -> Int
  maxThreshold : Int
  errWrap : Bool
  msgWrap : Bool
  msgArchive : Bool

def ckThreshold (size maxThreshold : Int) : Int :=
  let logThreshold := size.tdiv UBSIZE
  if logThreshold < 0 then -1
  else if logThreshold > maxThreshold then maxThreshold
  else logThreshold

namespace Argv

def thres (argv : Argv) (log : LogName) : Int :=
  ckThreshold (argv.size log) argv.maxThreshold

def wrapFlag (argv : Argv) : LogName -> Bool
  | .err => argv.errWrap
  | .msg => argv.msgWrap
  | .errSave | .msgSave => false

end Argv

def LogName.signalOnThres (log : LogName) : Bool :=
  !log.isSave

def HE_STATUS : Int :=
  20

def HTX_SYS_INFO : Int :=
  6

structure Message where
  text : List UInt8
  severityCode : Int
  time : LogName -> Nat

structure Entry where
  offset : Nat
  modTime : Nat
  deriving DecidableEq

structure Ckpt where
  thres : LogName -> Int
  entry : LogName -> Entry
  deriving DecidableEq

structure File where
  bytes : List UInt8
  mtime : Nat
  deriving DecidableEq

def File.write (f : File) (pos : Nat) (text : List UInt8) (time : Nat) : File where
  bytes := ByteFile.pwrite f.bytes pos text
  mtime := if text = [] then f.mtime else time

def File.truncate (f : File) (size time : Nat) : File where
  bytes := ByteFile.resize f.bytes size
  mtime := time

structure Disk where
  file : LogName -> Option File
  ckpt : Option Ckpt
  archive : Nat -> Option (List UInt8)

/-- A running program.  `fd` is the file position of each log that is open; `checkpt`
is the checkpoint in memory and `archiveSequenceCount` the static counter of
`check_wrap`. -/
structure State where
  disk : Disk
  fd : LogName -> Option Nat
  checkpt : Ckpt
  archiveSequenceCount : Nat

namespace State

section

variable (st : State) (log : LogName)

def setFile (f : Option File) : State :=
  { st with disk := { st.disk with file := update st.disk.file log f } }

def setFd (fd : Option Nat) : State :=
  { st with fd := update st.fd log fd }

def write (pos : Nat) (m : Message) : State :=
  (st.setFile log ((st.disk.file log).map (·.write pos m.text (m.time log)))).setFd log
    (some (pos + m.text.length))

def ftruncate (size time : Nat) : State :=
  st.setFile log ((st.disk.file log).map (·.truncate size time))

end

def archiveMsg (st : State) : State :=
  { st with
    disk := { st.disk with
      archive := match st.disk.file .msg with
        | none => st.disk.archive
        | some f => update st.disk.archive st.archiveSequenceCount (some f.bytes) }
    archiveSequenceCount := st.archiveSequenceCount + 1 }

end State

section

variable (argv : Argv) (log : LogName)

def Argv.ThresholdMet (fileOffset : Nat) : Prop :=
  ((fileOffset / UBSIZE : Nat) : Int) ≥ argv.thres log

instance (fileOffset : Nat) : Decidable (argv.ThresholdMet log fileOffset) :=
  inferInstanceAs (Decidable (_ ≥ _))

/-- The last part says whether `SIGUSR1` is sent to the parent. -/
def checkWrap (m : Message) (st : State) : State × Nat × Bool :=
  let fileOffset := (st.fd log).getD 0
  if argv.ThresholdMet log fileOffset then
    if argv.wrapFlag log = false then
      if log.signalOnThres = false then (st.setFd log none, fileOffset, false)
      else (st, fileOffset, true)
    else
      let st := st.ftruncate log fileOffset (m.time log)
      -- whichever log has wrapped, it is the message log that is copied
      let st := if argv.msgArchive then st.archiveMsg else st
      (st.setFd log (some 0), 0, false)
  else (st, fileOffset, false)

def updateCkpt (fileOffset : Nat) (st : State) : State :=
  let modTime := match st.disk.file log with
    | none => (st.checkpt.entry log).modTime
    | some f => f.mtime
  let checkpt := { st.checkpt with
    entry := update st.checkpt.entry log ⟨fileOffset, modTime⟩ }
  { st with disk := { st.disk with ckpt := some checkpt }, checkpt := checkpt }

def writeLog (m : Message) (st : State) : State :=
  match st.fd log with
  | none => st
  | some pos =>
    let (st, fileOffset, _) := checkWrap argv log m (st.write log pos m)
    updateCkpt log fileOffset st

def copyMessage (m : Message) (st : State) : State :=
  if m.severityCode = HE_STATUS then st
  else
    let st := writeLog argv .msg m st
    let st := writeLog argv .msgSave m st
    if m.severityCode < HTX_SYS_INFO then
      writeLog argv .errSave m (writeLog argv .err m st)
    else st

def copyMessages (ms : List Message) (st : State) : State :=
  ms.foldl (fun st m => copyMessage argv m st) st

def Ckpt.new : Ckpt where
  thres := argv.thres
  entry := fun _ => ⟨0, 0⟩

def checkCkpt (disk : Disk) : Disk × Ckpt :=
  match disk.ckpt with
  | none =>
    ({ disk with file := fun _ => none, ckpt := some (Ckpt.new argv) }, Ckpt.new argv)
  | some c =>
    if c.thres = argv.thres then (disk, c)
    else ({ disk with file := fun _ => none }, Ckpt.new argv)

end

def checkTime (f : Option File) (e : Entry) : Option File × Entry :=
  match f with
  | none => (none, ⟨0, 0⟩)
  | some f => if f.mtime ≠ e.modTime then (none, ⟨0, 0⟩) else (some f, e)

section

variable (argv : Argv)

def Argv.Checks (log : LogName) : Prop :=
  log.isSave = false ∨ argv.thres log > 0

instance (argv : Argv) (log : LogName) : Decidable (argv.Checks log) :=
  inferInstanceAs (Decidable (_ ∨ _))

def checkLog (log : LogName) (f : Option File) (e : Entry) : Option File × Entry :=
  if argv.Checks log then checkTime f e
  else if argv.thres log = 0 then (none, e)
  else (f, e)

def checkLogs (disk : Disk) : Disk × Ckpt :=
  let (disk, checkpt) := checkCkpt argv disk
  ({ disk with file := fun log =>
      (checkLog argv log (disk.file log) (checkpt.entry log)).1 },
    { checkpt with entry := fun log =>
      (checkLog argv log (disk.file log) (checkpt.entry log)).2 })

def Argv.Opens (log : LogName) (offset : Nat) : Prop :=
  log.isSave = false ∨ (argv.thres log > 0 ∧ argv.thres log > offset)

instance (argv : Argv) (log : LogName) (offset : Nat) :
    Decidable (argv.Opens log offset) :=
  inferInstanceAs (Decidable (_ ∨ (_ ∧ _)))

def openLog (now : Nat) (log : LogName) (f : Option File) (e : Entry) : Option File × Option Nat :=
  if argv.Opens log e.offset then (some (f.getD ⟨[], now⟩), some e.offset)
  else (f, none)

def openLogs (disk : Disk) (now : LogName -> Nat) : State :=
  let (disk, checkpt) := checkLogs argv disk
  let opened := fun log => openLog argv (now log) log (disk.file log) (checkpt.entry log)
  { disk := { disk with file := fun log => (opened log).1 }
    fd := fun log => (opened log).2
    checkpt := checkpt
    archiveSequenceCount := 0 }

def restart (now : LogName -> Nat) (st : State) : State :=
  openLogs argv st.disk now

end

end Htx.Hxsmsg
