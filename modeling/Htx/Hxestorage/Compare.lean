import Htx.Hxestorage.BlockHeader
import Htx.Hxestorage.BlockPosition

/-!
# Comparing buffers

`do_compare` compares what was read with what is expected, one sub-block after the other.
A header that is recognised may differ in some fields, so the comparison of a sub-block
starts at its header or behind it.
-/

namespace Htx.Hxestorage

open Library

structure CompareEnv where
  machine : Machine
  blksize : Nat
  numSubBlks : Nat
  discardEnabled : Bool
  enableStateTable : Bool
  enablementTime : UInt32
  timeMark : Nat
  numWritesRemaining : Int
  dlen : Nat
  deriving DecidableEq

inductive CompareMsg where
  | stateMiscompare (expected actual : Nat)
  | staleData (timeStamp control : Nat)
  deriving DecidableEq

structure CompareState where
  errorFound : Bool
  stale : Bool
  j : Nat
  cksum : Nat
  msg : Option CompareMsg
  deriving DecidableEq

structure HeaderCheck where
  offset : Nat
  stale : Bool
  cksum : Option Nat
  msg : Option CompareMsg
  deriving DecidableEq

namespace CompareEnv

variable (env : CompareEnv)

def cmpBytes : Nat :=
  env.blksize / (env.numSubBlks + 1)

def compareLen : Nat :=
  if env.discardEnabled then env.blksize else env.dlen

def Skipped (wbuf : Memory) (i : Nat) : Prop :=
  env.enableStateTable = true ∧ wbuf.load env.machine.order (i + writeStampPos) writeStampLen = 0

instance (wbuf : Memory) (i : Nat) : Decidable (env.Skipped wbuf i) :=
  inferInstanceAs (Decidable (_ ∧ _))

def controlTime : Nat :=
  if env.enableStateTable then env.enablementTime.toNat else env.timeMark

end CompareEnv

variable (env : CompareEnv) (order : ByteOrder) (wbuf rbuf : Memory) (i : Nat)

def HeaderSigned : Prop :=
  rbuf.bytes (i + bufsigPos) bufsigLen = bufsig ∧ wbuf.bytes (i + bufsigPos) bufsigLen = bufsig ∧
    rbuf.bytes (i + hostnamePos) hostnameLen = wbuf.bytes (i + hostnamePos) hostnameLen ∧
    rbuf.bytes (i + devNamePos) devNameLen = wbuf.bytes (i + devNamePos) devNameLen

instance : Decidable (HeaderSigned wbuf rbuf i) :=
  inferInstanceAs (Decidable (_ ∧ _))

def StampsDiffer : Prop :=
  wbuf.bytes (i + writeStampPos) writeStampLen ≠ rbuf.bytes (i + writeStampPos) writeStampLen

instance : Decidable (StampsDiffer wbuf rbuf i) :=
  inferInstanceAs (Decidable (_ ≠ _))

def HeaderSummed : Prop :=
  wordSum order rbuf i overhead % 2 ^ 16 = 0 ∧
    rbuf.load order (i + lbaPos) lbaLen = wbuf.load order (i + lbaPos) lbaLen

instance : Decidable (HeaderSummed order wbuf rbuf i) :=
  inferInstanceAs (Decidable (_ ∧ _))

/-- The checks of one header.  A write stamp that differs is noted in the message;
the offset that it sets is overwritten by the check of the sum. -/
def checkHeader : HeaderCheck :=
  let order := env.machine.order
  if 0 < env.numWritesRemaining then ⟨0, false, none, none⟩
  else if ¬ HeaderSigned wbuf rbuf i then ⟨0, false, none, none⟩
  else
    let time := timeBuffer env.machine rbuf i
    let miscompare := env.enableStateTable && decide (StampsDiffer wbuf rbuf i)
    if miscompare = false ∧ time < env.controlTime then
      ⟨8, true, none, some (.staleData (u32 time) (u32 env.timeMark))⟩
    else
      ⟨if HeaderSummed order wbuf rbuf i then headerSize else 0, false,
        some (wordSum order rbuf i overhead),
        if miscompare then
          some (.stateMiscompare (wbuf.load order (i + writeStampPos) writeStampLen)
            (rbuf.load order (i + writeStampPos) writeStampLen))
        else none⟩

variable {env wbuf rbuf i} in
theorem checkHeader_of_recognised
    (hwrites : env.numWritesRemaining ≤ 0) (hsigned : HeaderSigned wbuf rbuf i)
    (hfresh : env.controlTime ≤ timeBuffer env.machine rbuf i)
    (hsummed : HeaderSummed env.machine.order wbuf rbuf i) :
    (checkHeader env wbuf rbuf i).offset = headerSize ∧
      (checkHeader env wbuf rbuf i).stale = false := by
  unfold checkHeader
  rw [if_neg (Int.not_lt.mpr hwrites), if_neg (not_not_intro hsigned)]
  dsimp only
  rw [if_neg fun h => Int.not_lt.mpr hfresh h.2]
  exact ⟨if_pos hsummed, rfl⟩

def findDifference : Nat -> Nat -> Nat × Bool
  | 0, j => (j, false)
  | n + 1, j =>
    if wbuf j ≠ rbuf j then (j, true)
    else findDifference n (u32 (j + 1 : Nat))

def compareBlock (st : CompareState) : Option CompareState :=
  if env.Skipped wbuf i then some st
  else
    let h := checkHeader env wbuf rbuf i
    let j := u32 (i + h.offset : Nat)
    let len := env.cmpBytes - h.offset
    let st : CompareState := {
      errorFound := st.errorFound || h.stale
      stale := st.stale || h.stale
      j := j
      cksum := h.cksum.getD st.cksum
      msg := h.msg.or st.msg }
    if env.cmpBytes < h.offset then none
    else if wbuf.bytes j len = rbuf.bytes j len then some st
    else
      let found := findDifference wbuf rbuf len j
      some { st with j := found.1, errorFound := st.errorFound || found.2 }

def compareLoop (limit : Nat) : Nat -> Nat -> CompareState -> Option CompareState
  | 0, _, _ => none
  | fuel + 1, i, st =>
    if i < limit ∧ st.errorFound = false then
      match compareBlock env wbuf rbuf i st with
      | none => none
      | some st => compareLoop limit fuel (i + env.cmpBytes) st
    else some st

def doCompare (cmpOffset : Nat) : Option (Int × CompareState) :=
  (compareLoop env wbuf rbuf (cmpOffset + env.compareLen) (env.compareLen + 1) cmpOffset
    ⟨false, false, 0, 0, none⟩).map fun st =>
      (if st.errorFound then signed32 st.j else -1, st)

end Htx.Hxestorage
