import Htx.Hxemem64.Detection
import Htx.Library.Trace

/-!
# do_mem_operation

A thread visits its segments again and again, with one pattern at a visit, and runs the
given numbers of writes, reads and comparisons.
-/

namespace Htx.Hxemem64

open Library

inductive SwitchPat where
  | all
  | on
  | off
  deriving DecidableEq

structure MemStanza where
  numOper : Nat
  numWrites : Nat
  numReads : Nat
  numCompares : Nat
  width : Width
  switchPat : SwitchPat
  numPatterns : Nat
  pattern : Nat -> Pattern
  seed : UInt64

structure StopFlags where
  exitFlag : Nat -> Bool
  memDRFlag : Nat -> Bool

/-- A sweep over a segment: what `do_mem_operation` calls an operation for, and a
sub-segment of `do_rim_operation`. -/
inductive Sweep where
  | write
  | read
  | compare (rc : Nat)
  | rim
  deriving DecidableEq

structure Access where
  seg : Nat
  pi : Nat
  sweep : Sweep
  deriving DecidableEq

structure OperState where
  memory : Memory
  seed : UInt64
  backupSeed : UInt64
  tests : Nat

section

variable (mach : Machine) (flags : StopFlags) (stanza : MemStanza) (segs : List Segment)

def testExit {out : Type} (s : OperState) : Trace out OperState :=
  if flags.exitFlag s.tests then .stop else .done { s with tests := s.tests + 1 }

def writePart (pattern : Pattern) (seg : Segment) (nw : Nat) (s : OperState) :
    Trace Sweep OperState :=
  if 0 < nw then
    match callOperation mach .write pattern stanza.width seg s.backupSeed s.memory with
    | none => .stop
    | some r => .emit .write { s with memory := r.memory, seed := r.seed }
  else .done s

def readPart (pattern : Pattern) (seg : Segment) (nr : Nat) (s : OperState) :
    Trace Sweep OperState :=
  if 0 < nr then
    match callOperation mach .read pattern stanza.width seg s.seed s.memory with
    | none => .stop
    | some r => .emit .read { s with memory := r.memory, seed := r.seed }
  else .done s

def comparePart (pattern : Pattern) (seg : Segment) (nc : Nat) (s : OperState) :
    Trace Sweep (Nat × OperState) :=
  if 0 < nc then
    match callOperation mach .compare pattern stanza.width seg s.backupSeed s.memory with
    | none => .stop
    | some r => .emit (.compare r.rc) (r.rc, { s with backupSeed := r.seed })
  else .done (0, s)

def visitLoop (pattern : Pattern) (seg : Segment) (nw nr nc : Nat) (s : OperState) :
    Trace Sweep OperState :=
  if 0 < nw ∨ 0 < nr ∨ 0 < nc then
    (writePart mach stanza pattern seg nw s).andThen fun s =>
    (testExit flags s).andThen fun s =>
    (readPart mach stanza pattern seg nr s).andThen fun s =>
    (testExit flags s).andThen fun s =>
    (comparePart mach stanza pattern seg nc s).andThen fun r =>
    if r.1 = 0 then
      (testExit flags r.2).andThen
        (visitLoop pattern seg (nw - 1) (nr - 1) (nc - 1))
    else .done r.2
  else .done s
termination_by nw + nr + nc

/-- One visit: `backup_seed = seed`, and the loop.  The report on a miscompare, which
compares the rest of the segment from `backup_seed` on, changes nothing that a later
visit reads. -/
def visit (pattern : Pattern) (seg : Segment) (s : OperState) : Trace Sweep OperState :=
  (visitLoop mach flags stanza pattern seg stanza.numWrites stanza.numReads
    stanza.numCompares { s with backupSeed := s.seed }).andThen (testExit flags)

def advance (seg pi : Nat) : Nat × Nat :=
  match stanza.switchPat with
  | .all => if stanza.numPatterns ≤ pi + 1 then (seg + 1, 0) else (seg, pi + 1)
  | .on => if stanza.numPatterns ≤ pi + 1 then (seg + 1, 0) else (seg + 1, pi + 1)
  | .off => (seg + 1, pi)

variable {stanza segs}

theorem advance_lex {seg pi : Nat} (h : seg < segs.length) : Prod.Lex (· < ·) (· < ·)
      (segs.length - (advance stanza seg pi).1, stanza.numPatterns - (advance stanza seg pi).2)
      (segs.length - seg, stanza.numPatterns - pi) := by
  unfold advance
  split
  · split
    · exact .left _ _ (by omega)
    · exact .right _ (by omega)
  · split <;> exact .left _ _ (by dsimp only; omega)
  · exact .left _ _ (by omega)

variable (stanza segs)

def segLoop (seg pi : Nat) (s : OperState) : Trace Access (Nat × OperState) :=
  if h : seg < segs.length then
    ((visit mach flags stanza (stanza.pattern pi) segs[seg] s).map (Access.mk seg pi)).andThen
      fun s =>
    (testExit flags s).andThen
      (segLoop (advance stanza seg pi).1 (advance stanza seg pi).2)
  else .done (pi, s)
termination_by (segs.length - seg, stanza.numPatterns - pi)
decreasing_by exact advance_lex h

def operLoop : Nat -> Nat -> Nat -> OperState -> Trace Access (Nat × OperState)
  | 0, _, pi, s => .done (pi, s)
  | remaining + 1, pass, pi, s =>
    if flags.memDRFlag pass then .stop
    else (segLoop mach flags stanza segs 0 pi s).andThen fun r =>
      operLoop remaining (pass + 1) r.1 r.2

def doMemOperation (m : Memory) : Trace Access (Nat × OperState) :=
  operLoop mach flags stanza segs stanza.numOper 0 0 ⟨m, stanza.seed, stanza.seed, 0⟩

end

def noFlags : StopFlags :=
  ⟨fun _ => false, fun _ => false⟩

/-!
# Calls through the table
-/

section

variable {mach : Machine} {pattern : Pattern} {width : Width} {seg : Segment}
variable {seed : UInt64} {m : Memory}

theorem callOperation_isSome (mach : Machine) (oper : BasicOper) (pattern : Pattern)
    (width : Width) (seg : Segment) (seed : UInt64) (m : Memory) :
    exists r, callOperation mach oper pattern width seg seed m = some r := by
  unfold callOperation memAccess
  cases pattern.type <;> cases oper <;> cases width <;> exact ⟨_, rfl⟩

theorem callOperation_read :
    callOperation mach .read pattern width seg seed m = some ⟨0, m, seed⟩ := by
  unfold callOperation memAccess
  cases pattern.type <;> cases width <;> rfl

def Holds (mach : Machine) (width : Width) (pattern : Pattern) (seg : Segment)
    (seed : UInt64) (m : Memory) : Prop :=
  forall r, callOperation mach .compare pattern width seg seed m = some r -> r.rc = 0

theorem callOperation_address (htype : pattern.type = .address) (oper : BasicOper) :
    callOperation mach oper pattern width seg seed m =
      (operationFunTyp mach .address oper .dword).map fun operation =>
        operation (toInt (seg.size / 8)) seg.address pattern seed m := by
  unfold callOperation memAccess
  rw [htype]
  rfl

theorem holds_write {r : Outcome}
    (hwrite : callOperation mach .write pattern width seg seed m = some r) :
    Holds mach width pattern seg seed r.memory := by
  intro r' hcompare
  by_cases htype : pattern.type = .address
  · rw [callOperation_address htype] at hwrite hcompare
    cases hwrite
    cases hcompare
    rw [memOperationCompAddr_rc]
    exact memOperationWriteAddr_bytes
  · obtain ⟨w, hw, hmemory⟩ := callOperation_write mach width seg seed m htype
    obtain rfl : w = r := Option.some.inj (hw.symm.trans hwrite)
    obtain ⟨c, hc, hrc⟩ := callOperation_compare mach width seg seed w.memory htype
    obtain rfl : c = r' := Option.some.inj (hc.symm.trans hcompare)
    rw [hrc, hmemory]
    exact Memory.bytes_put_self rfl

def NeedsSeed (width : Width) (pattern : Pattern) (seg : Segment) : Prop :=
  pattern.type = .random ∧ 0 < (toInt (seg.size / width.bytes)).toNat

theorem Holds.of_seed (hseed : ¬ NeedsSeed width pattern seg)
    (h : Holds mach width pattern seg seed m) (seed' : UInt64) :
    Holds mach width pattern seg seed' m := by
  intro r' hcompare'
  by_cases htype : pattern.type = .random
  · have hcount : (toInt (seg.size / width.bytes)).toNat = 0 := by
      by_contra hpos
      exact hseed ⟨htype, pos_of_ne_zero hpos⟩
    obtain ⟨r, hr, hrc⟩ := callOperation_compare mach width seg seed' m
      (show pattern.type ≠ .address by simp [htype])
    obtain rfl : r = r' := Option.some.inj (hr.symm.trans hcompare')
    rw [hrc]
    simp [segmentImage, expectedImage, htype, hcount, Memory.bytes]
  · obtain ⟨r, hcompare⟩ := callOperation_isSome mach .compare pattern width seg seed m
    have hrc : r'.rc = r.rc := by
      unfold callOperation at hcompare hcompare'
      revert hcompare hcompare'
      cases hkind : pattern.type with
      | random => exact absurd hkind htype
      | _ => cases memAccess pattern width <;> rintro ⟨⟩ ⟨⟩ <;> rfl
    rw [hrc]
    exact h r hcompare

end

/-!
# A visit
-/

def Sweep.Clean (sweep : Sweep) : Prop :=
  forall rc, sweep = .compare rc -> rc = 0

section

variable {mach : Machine} {flags : StopFlags} {stanza : MemStanza} {pattern : Pattern}
variable {seg : Segment}

/-- What the comparisons of a visit need in a state from which `nw` writes and `nc`
comparisons remain: random data a write for each of them, everything else one write,
which may have been made. -/
structure Ready (mach : Machine) (stanza : MemStanza) (pattern : Pattern) (seg : Segment)
    (nw nc : Nat) (s : OperState) : Prop where
  random : NeedsSeed stanza.width pattern seg -> nc ≤ nw
  other : ¬ NeedsSeed stanza.width pattern seg -> 0 < nw ∨
    Holds mach stanza.width pattern seg s.backupSeed s.memory

def RoundHolds (mach : Machine) (stanza : MemStanza) (pattern : Pattern) (seg : Segment)
    (nc : Nat) (s : OperState) : Prop :=
  (NeedsSeed stanza.width pattern seg ∧ nc = 0) ∨
    Holds mach stanza.width pattern seg s.backupSeed s.memory

variable {s : OperState}

theorem testExit_always {out : Type} {clean : out -> Prop} {p : OperState -> Prop}
    (hp : forall tests, p { s with tests := tests }) : (testExit flags s).Always clean p := by
  unfold testExit
  split
  · exact .stop
  · exact .done (hp _)

theorem readPart_always {p : OperState -> Prop} {nr : Nat} (hp : p s) :
    (readPart mach stanza pattern seg nr s).Always Sweep.Clean p := by
  unfold readPart
  split
  · rw [callOperation_read]
    exact .emit (fun _ h => nomatch h) hp
  · exact .done hp

theorem writePart_always {nw nc : Nat} (h : Ready mach stanza pattern seg nw nc s) :
    (writePart mach stanza pattern seg nw s).Always Sweep.Clean
      (RoundHolds mach stanza pattern seg nc) := by
  unfold writePart
  split
  case isTrue =>
    split
    case h_1 => exact .stop
    case h_2 r hwrite => exact .emit (fun _ h => nomatch h) (.inr (holds_write hwrite))
  case isFalse hnone =>
    apply Trace.Always.done
    by_cases hrandom : NeedsSeed stanza.width pattern seg
    · have hle := h.random hrandom
      exact .inl ⟨hrandom, by omega⟩
    · exact .inr ((h.other hrandom).resolve_left hnone)

theorem comparePart_always {nw nc : Nat} (hrandom : NeedsSeed stanza.width pattern seg -> nc ≤ nw)
    (h : RoundHolds mach stanza pattern seg nc s) :
    (comparePart mach stanza pattern seg nc s).Always Sweep.Clean fun r =>
      r.1 = 0 ∧ Ready mach stanza pattern seg (nw - 1) (nc - 1) r.2 := by
  have hnext (hother : ¬ NeedsSeed stanza.width pattern seg) (seed : UInt64) :
      Holds mach stanza.width pattern seg seed s.memory := by
    rcases h with ⟨hkind, _⟩ | hholds
    · exact absurd hkind hother
    · exact hholds.of_seed hother seed
  have hready (seed : UInt64) : Ready mach stanza pattern seg (nw - 1) (nc - 1)
      { s with backupSeed := seed } :=
    ⟨fun hkind => Nat.sub_le_sub_right (hrandom hkind) 1, fun hother => Or.inr (hnext hother seed)⟩
  unfold comparePart
  split
  case isTrue hsome =>
    have hholds : Holds mach stanza.width pattern seg s.backupSeed s.memory := by
      rcases h with ⟨_, hzero⟩ | hholds
      · omega
      · exact hholds
    split
    case h_1 => exact .stop
    case h_2 r hcompare =>
      have hrc := hholds r hcompare
      refine .emit ?_ ⟨hrc, hready r.seed⟩
      rintro rc ⟨⟩
      exact hrc
  case isFalse =>
    exact .done ⟨rfl, hready s.backupSeed⟩

theorem visitLoop_always {nw nr nc : Nat} (h : Ready mach stanza pattern seg nw nc s) :
    (visitLoop mach flags stanza pattern seg nw nr nc s).Always Sweep.Clean
      fun _ => True := by
  -- each round takes one from every positive number
  induction hn : nw + nr + nc using Nat.strong_induction_on generalizing nw nr nc s with
  | _ n ih =>
    rw [visitLoop]
    split
    case isFalse =>
      exact .done trivial
    case isTrue hmore =>
      apply (writePart_always h).andThen
      intro s1 h1
      apply (testExit_always (p := RoundHolds mach stanza pattern seg nc) fun _ => h1).andThen
      intro s2 h2
      apply (readPart_always h2).andThen
      intro s3 h3
      apply (testExit_always (p := RoundHolds mach stanza pattern seg nc) fun _ => h3).andThen
      intro s4 h4
      apply (comparePart_always h.random h4).andThen
      rintro r ⟨hrc, hready⟩
      rw [if_pos hrc]
      apply (testExit_always (p := Ready mach stanza pattern seg (nw - 1) (nc - 1))
        fun _ => ⟨hready.random, hready.other⟩).andThen
      intro s5 h5
      exact ih _ (by omega) h5 rfl

theorem visit_always
    (h : Ready mach stanza pattern seg stanza.numWrites stanza.numCompares
      { s with backupSeed := s.seed }) :
    (visit mach flags stanza pattern seg s).Always Sweep.Clean fun _ => True :=
  (visitLoop_always h).andThen fun _ _ => testExit_always fun _ => trivial

end

/-!
# Runs that nothing stops
-/

section

variable {mach : Machine} {stanza : MemStanza} {pattern : Pattern} {seg : Segment}

@[simp]
theorem testExit_noFlags {out : Type} (s : OperState) :
    testExit noFlags s = (.done { s with tests := s.tests + 1 } : Trace out OperState) :=
  rfl

theorem readPart_eq (nr : Nat) (s : OperState) : readPart mach stanza pattern seg nr s =
    ⟨if 0 < nr then [.read] else [], some s⟩ := by
  unfold readPart
  split
  · rw [callOperation_read]
    rfl
  · rfl

variable (mach stanza pattern seg)

theorem writePart_zero (s : OperState) : writePart mach stanza pattern seg 0 s = ⟨[], some s⟩ :=
  rfl

theorem writePart_pos {nw : Nat} (h : 0 < nw) (s : OperState) :
    exists r, callOperation mach .write pattern stanza.width seg s.backupSeed s.memory = some r ∧
      writePart mach stanza pattern seg nw s =
        ⟨[.write], some { s with memory := r.memory, seed := r.seed }⟩ := by
  obtain ⟨r, hr⟩ := callOperation_isSome mach .write pattern stanza.width seg s.backupSeed s.memory
  refine ⟨r, hr, ?_⟩
  rw [writePart, if_pos h, hr]
  rfl

theorem writePart_result (nw : Nat) (s : OperState) :
    exists s', writePart mach stanza pattern seg nw s =
      ⟨if 0 < nw then [.write] else [], some s'⟩ := by
  rcases Nat.eq_zero_or_pos nw with rfl | hpos
  · exact ⟨s, rfl⟩
  · obtain ⟨r, _, hr⟩ := writePart_pos mach stanza pattern seg hpos s
    rw [if_pos hpos]
    exact ⟨_, hr⟩

theorem comparePart_pos {nc : Nat} (h : 0 < nc) (s : OperState) :
    exists r, callOperation mach .compare pattern stanza.width seg s.backupSeed s.memory = some r ∧
      comparePart mach stanza pattern seg nc s =
        .emit (.compare r.rc) (r.rc, { s with backupSeed := r.seed }) := by
  obtain ⟨r, hr⟩ := callOperation_isSome mach .compare pattern stanza.width seg
    s.backupSeed s.memory
  refine ⟨r, hr, ?_⟩
  rw [comparePart, if_pos h, hr]

variable {mach stanza pattern seg}

/-- The writes and reads of a round end in the state in which it compares. -/
theorem visitLoop_round {nw nr nc : Nat} {s s1 : OperState} {front : List Sweep}
    (hmore : 0 < nw ∨ 0 < nr ∨ 0 < nc)
    (hwrite : writePart mach stanza pattern seg nw s = ⟨front, some s1⟩) :
    visitLoop mach noFlags stanza pattern seg nw nr nc s =
      Trace.andThen ⟨front ++ (if 0 < nr then [.read] else []),
          some { s1 with tests := s1.tests + 1 + 1 }⟩ fun s =>
        (comparePart mach stanza pattern seg nc s).andThen
          fun r => if r.1 = 0 then visitLoop mach noFlags stanza pattern seg (nw - 1) (nr - 1)
            (nc - 1) { r.2 with tests := r.2.tests + 1 } else .done r.2 := by
  rw [visitLoop, if_pos hmore, hwrite]
  simp [Trace.mk_andThen, readPart_eq, Trace.done]

end

end Htx.Hxemem64
