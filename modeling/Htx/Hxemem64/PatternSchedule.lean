import Htx.Hxemem64.SeedBookkeeping

/-!
# The order of the visits

`do_mem_operation`, `do_rim_operation` and `do_stride_operation` go over the segments in one
way, and differ in what they do at a visit.  No flag is set here and no comparison fails.
-/

namespace Htx.Hxemem64

open List MemStanza Nat Library

structure Visit where
  seg : Nat
  pi : Nat
  sweeps : List Sweep
  deriving DecidableEq

def Visit.accesses (v : Visit) : List Access :=
  v.sweeps.map (Access.mk v.seg v.pi)

/-- The counters `nw`, `nr` and `nc` of a visit of `do_mem_operation` or
`do_stride_operation`. -/
def memSweeps (nw nr nc : Nat) : List Sweep :=
  if 0 < nw ∨ 0 < nr ∨ 0 < nc then
    (if 0 < nw then [.write] else []) ++ (if 0 < nr then [.read] else []) ++
      (if 0 < nc then [.compare 0] else []) ++ memSweeps (nw - 1) (nr - 1) (nc - 1)
  else []
termination_by nw + nr + nc

/-- A visit of `do_rim_operation` to a segment with `more` sub-segments behind the first. -/
def rimSweeps (more nw : Nat) : List Sweep :=
  if 0 < nw then List.replicate (more + 1) .rim ++ rimSweeps more (nw - (more + 1)) else []
termination_by nw

section

variable (stanza : MemStanza) (segs : List Segment) (body : Nat -> Nat -> List Sweep)

/-- The visits of a pass from a segment and a pattern on, and the pattern index after them. -/
def passVisits (seg pi : Nat) : List Visit × Nat :=
  if _h : seg < segs.length then
    let rest := passVisits (advance stanza seg pi).1 (advance stanza seg pi).2
    (⟨seg, pi, body seg pi⟩ :: rest.1, rest.2)
  else ([], pi)
termination_by (segs.length - seg, stanza.numPatterns - pi)
decreasing_by exact advance_lex _h

def runVisits : Nat -> Nat -> List Visit
  | 0, _ => []
  | remaining + 1, pi => (passVisits stanza segs body 0 pi).1 ++
      runVisits remaining (passVisits stanza segs body 0 pi).2

end

section

variable (stanza : MemStanza) (segs : List Segment)

def strideVisits : List Visit :=
  runVisits stanza segs
    (fun _ _ => memSweeps stanza.numWrites stanza.numReads stanza.numCompares) stanza.numOper 0

def rimVisits (more : Nat -> Nat) : List Visit :=
  runVisits stanza segs (fun seg _ => rimSweeps (more seg) stanza.numWrites) stanza.numOper 0

end

namespace MemStanza

variable (stanza : MemStanza)

/-- A stanza without patterns uses the first one. -/
def patternCount : Nat :=
  max stanza.numPatterns 1

/-- The segments and patterns of a pass in their order. -/
def passPlaces (numSegs pass : Nat) : List (Nat × Nat) :=
  match stanza.switchPat with
  | .all => range numSegs ×ˢ range stanza.patternCount
  | .on => (range numSegs).map fun seg => (seg, (pass * numSegs + seg) % stanza.patternCount)
  | .off => (range numSegs).map (·, 0)

def places (numSegs : Nat) : List (Nat × Nat) :=
  (range stanza.numOper).flatMap (stanza.passPlaces numSegs)

end MemStanza

def visitAt (body : Nat -> Nat -> List Sweep) (place : Nat × Nat) : Visit :=
  ⟨place.1, place.2, body place.1 place.2⟩

section

variable {stanza : MemStanza} {segs : List Segment} {body : Nat -> Nat -> List Sweep}
  {seg pi n : Nat}

theorem passVisits_of_lt (h : seg < segs.length) : passVisits stanza segs body seg pi =
    let rest := passVisits stanza segs body (advance stanza seg pi).1 (advance stanza seg pi).2
    (visitAt body (seg, pi) :: rest.1, rest.2) := by
  rw [passVisits, dif_pos h]
  rfl

theorem passVisits_length : passVisits stanza segs body segs.length pi = ([], pi) := by
  rw [passVisits, dif_neg (lt_irrefl _)]

/-- A pass with one pattern at every segment. -/
theorem passVisits_steps (pattern : Nat -> Nat)
    (h : forall seg, advance stanza seg (pattern seg) = (seg + 1, pattern (seg + 1)))
    (hn : seg + n = segs.length) : passVisits stanza segs body seg (pattern seg) =
      ((range' seg n).map fun seg => visitAt body (seg, pattern seg), pattern segs.length) := by
  induction n generalizing seg with
  | zero =>
    obtain rfl : seg = segs.length := hn
    exact passVisits_length
  | succ n ih =>
    rw [passVisits_of_lt (by omega), h, ih (by omega)]
    rfl

/-- The visits of a segment that stays until its last pattern. -/
theorem passVisits_patterns (hall : stanza.switchPat = .all) (h : seg < segs.length)
    (hn : pi + n + 1 = stanza.patternCount) : passVisits stanza segs body seg pi =
      let next := passVisits stanza segs body (seg + 1) 0
      ((range' pi (n + 1)).map (fun pi => visitAt body (seg, pi)) ++ next.1, next.2) := by
  unfold patternCount at hn
  induction n generalizing pi with
  | zero =>
    have hlast : stanza.numPatterns ≤ pi + 1 := by omega
    rw [passVisits_of_lt h]
    simp [advance, hall, hlast]
  | succ n ih =>
    have hmore : ¬ stanza.numPatterns ≤ pi + 1 := by omega
    have hnext := ih (show pi + 1 + n + 1 = _ by omega)
    rw [passVisits_of_lt h]
    simp only [advance, hall, hmore, if_false, hnext]
    rfl

theorem passVisits_all (hall : stanza.switchPat = .all) (hn : seg + n = segs.length) :
    passVisits stanza segs body seg 0 =
      ((range' seg n ×ˢ range stanza.patternCount).map (visitAt body), 0) := by
  induction n generalizing seg with
  | zero =>
    obtain rfl : seg = segs.length := hn
    exact passVisits_length
  | succ n ih =>
    obtain ⟨last, hlast⟩ : exists last, 0 + last + 1 = stanza.patternCount := by
      refine ⟨stanza.patternCount - 1, ?_⟩
      unfold patternCount
      omega
    rw [passVisits_patterns hall (by omega) hlast, ih (by omega), ← hlast, zero_add]
    simp [range'_succ, product_cons, range_eq_range']

theorem advance_on (hon : stanza.switchPat = .on) (seg k : Nat) :
    advance stanza seg (k % stanza.patternCount) =
      (seg + 1, (k + 1) % stanza.patternCount) := by
  have hcount : stanza.patternCount = max stanza.numPatterns 1 := rfl
  have hlt : k % stanza.patternCount < stanza.patternCount := mod_lt _ (by omega)
  rw [advance, hon, ← mod_add_mod]
  dsimp only
  split_ifs with hlast
  · rw [show k % stanza.patternCount + 1 = stanza.patternCount by omega, mod_self]
  · rw [mod_eq_of_lt (show k % stanza.patternCount + 1 < _ by omega)]

/-!
## All passes
-/

def MemStanza.firstPattern (stanza : MemStanza) (numSegs pass : Nat) : Nat :=
  match stanza.switchPat with
  | .on => pass * numSegs % stanza.patternCount
  | _ => 0

theorem passVisits_places (pass : Nat) :
    passVisits stanza segs body 0 (stanza.firstPattern segs.length pass) =
      ((stanza.passPlaces segs.length pass).map (visitAt body),
        stanza.firstPattern segs.length (pass + 1)) := by
  unfold firstPattern passPlaces
  cases h : stanza.switchPat with
  | all => rw [passVisits_all h (zero_add _), ← range_eq_range']
  | on =>
    rw [range_eq_range', map_map, add_mul, one_mul]
    exact passVisits_steps (fun seg => (pass * segs.length + seg) % stanza.patternCount)
      (fun seg => advance_on h seg _) (zero_add _)
  | off =>
    rw [range_eq_range', map_map]
    exact passVisits_steps (fun _ => 0) (fun _ => by rw [advance, h]) (zero_add _)

theorem runVisits_passes (remaining pass : Nat) :
    runVisits stanza segs body remaining (stanza.firstPattern segs.length pass) =
      ((range' pass remaining).flatMap (stanza.passPlaces segs.length)).map (visitAt body) := by
  induction remaining generalizing pass with
  | zero => rfl
  | succ remaining ih =>
    rw [runVisits, passVisits_places, ih, range'_succ, flatMap_cons, map_append]

theorem runVisits_places : runVisits stanza segs body stanza.numOper 0 =
    (stanza.places segs.length).map (visitAt body) := by
  have hfirst : stanza.firstPattern segs.length 0 = 0 := by
    unfold firstPattern
    split
    · rw [zero_mul, zero_mod]
    · rfl
  rw [← hfirst, runVisits_passes, places, range_eq_range']

end

theorem count_memSweeps (nw nr nc : Nat) : (memSweeps nw nr nc).count .write = nw ∧
    (memSweeps nw nr nc).count .read = nr ∧ (memSweeps nw nr nc).count (.compare 0) = nc := by
  induction nw, nr, nc using memSweeps.induct with
  | case1 nw nr nc hmore ih =>
    rw [memSweeps, if_pos hmore]
    simp only [count_append, ih]
    rcases nw with _ | nw <;> rcases nr with _ | nr <;> rcases nc with _ | nc <;>
      simp [add_comm]
  | case2 nw nr nc hnone =>
    rw [memSweeps, if_neg hnone]
    simp only [count_nil]
    omega

theorem write_before_compare {nw : Nat} (h : 0 < nw) {nr nc : Nat} {front : List Sweep}
    (hfront : front ++ [.compare 0] <+: memSweeps nw nr nc) : .write ∈ front := by
  rw [memSweeps, if_pos (.inl h), if_pos h] at hfront
  cases front with
  | nil => simp at hfront
  | cons first rest =>
    obtain ⟨rfl, -⟩ := cons_prefix_cons.mp hfront
    exact mem_cons_self

/-!
## The accesses of do_mem_operation
-/

section

variable {mach : Machine} {stanza : MemStanza} {segs : List Segment} {pattern : Pattern}
  {seg : Segment} {s : OperState}

theorem comparePart_clean {nc : Nat} (hclean : forall rc,
      .compare rc ∈ (comparePart mach stanza pattern seg nc s).output -> rc = 0) :
    exists s', comparePart mach stanza pattern seg nc s =
      ⟨if 0 < nc then [.compare 0] else [], some (0, s')⟩ := by
  rcases Nat.eq_zero_or_pos nc with rfl | hpos
  · exact ⟨s, rfl⟩
  · obtain ⟨r, _, hr⟩ := comparePart_pos mach stanza pattern seg hpos s
    rw [hr] at hclean
    have hrc : r.rc = 0 := hclean r.rc (mem_singleton_self _)
    refine ⟨{ s with backupSeed := r.seed }, ?_⟩
    rw [hr, hrc, if_pos hpos]
    rfl

theorem visitLoop_sweeps (nw nr nc : Nat) (s : OperState) (hclean : forall rc,
      .compare rc ∈ (visitLoop mach noFlags stanza pattern seg nw nr nc s).output -> rc = 0) :
    exists s', visitLoop mach noFlags stanza pattern seg nw nr nc s =
      ⟨memSweeps nw nr nc, some s'⟩ := by
  induction nw, nr, nc using memSweeps.induct generalizing s with
  | case1 nw nr nc hmore ih =>
    obtain ⟨s1, hwrite⟩ := writePart_result mach stanza pattern seg nw s
    rw [visitLoop_round hmore hwrite] at hclean ⊢
    obtain ⟨s2, hcompare⟩ := comparePart_clean fun rc h =>
      hclean rc (Trace.mem_output_andThen_right rfl (Trace.mem_output_andThen_left h))
    rw [Trace.mk_andThen, hcompare, Trace.mk_andThen, if_pos rfl] at hclean ⊢
    obtain ⟨s3, hrest⟩ := ih { s2 with tests := s2.tests + 1 } fun rc h =>
      hclean rc (mem_append_right _ (mem_append_right _ h))
    refine ⟨s3, ?_⟩
    rw [memSweeps, if_pos hmore, hrest]
    simp only [append_assoc]
  | case2 nw nr nc hnone =>
    rw [visitLoop, if_neg hnone, memSweeps, if_neg hnone]
    exact ⟨s, rfl⟩

theorem visit_sweeps (s : OperState) (hclean : forall rc,
      .compare rc ∈ (visit mach noFlags stanza pattern seg s).output -> rc = 0) :
    exists s', visit mach noFlags stanza pattern seg s =
      ⟨memSweeps stanza.numWrites stanza.numReads stanza.numCompares, some s'⟩ := by
  obtain ⟨s', hloop⟩ := visitLoop_sweeps _ _ _ _ fun rc h =>
    hclean rc (Trace.mem_output_andThen_left h)
  rw [visit, hloop]
  refine ⟨{ s' with tests := s'.tests + 1 }, ?_⟩
  simp [Trace.mk_andThen, Trace.done]

theorem segLoop_visits (seg pi : Nat) (s : OperState) (hclean : forall seg' pi' rc,
      ⟨seg', pi', .compare rc⟩ ∈ (segLoop mach noFlags stanza segs seg pi s).output -> rc = 0) :
    let pass := passVisits stanza segs
      (fun _ _ => memSweeps stanza.numWrites stanza.numReads stanza.numCompares) seg pi
    exists s', segLoop mach noFlags stanza segs seg pi s =
      ⟨pass.1.flatMap Visit.accesses, some (pass.2, s')⟩ := by
  induction seg, pi using segVisits.induct stanza segs generalizing s with
  | case1 seg pi h ih =>
    rw [segLoop, dif_pos h] at hclean ⊢
    obtain ⟨s1, hvisit⟩ := visit_sweeps s fun rc hmem =>
      hclean seg pi rc (Trace.mem_output_andThen_left (mem_map_of_mem hmem))
    rw [hvisit] at hclean ⊢
    obtain ⟨s2, hrest⟩ := ih { s1 with tests := s1.tests + 1 } fun seg' pi' rc hmem =>
      hclean seg' pi' rc (Trace.mem_output_andThen_right rfl (by simpa using hmem))
    refine ⟨s2, ?_⟩
    rw [passVisits_of_lt h]
    simp [Trace.map, Trace.mk_andThen, hrest, visitAt, Visit.accesses]
  | case2 seg pi h =>
    rw [segLoop, dif_neg h, passVisits, dif_neg h]
    exact ⟨s, rfl⟩

theorem operLoop_visits (remaining pass pi : Nat) (s : OperState) (hclean : forall seg' pi' rc,
      ⟨seg', pi', .compare rc⟩ ∈
        (operLoop mach noFlags stanza segs remaining pass pi s).output -> rc = 0) :
    (operLoop mach noFlags stanza segs remaining pass pi s).output =
      (runVisits stanza segs (fun _ _ => memSweeps stanza.numWrites stanza.numReads
        stanza.numCompares) remaining pi).flatMap Visit.accesses := by
  induction remaining generalizing pass pi s with
  | zero => rfl
  | succ remaining ih =>
    rw [operLoop, if_neg (by simp [noFlags])] at hclean ⊢
    obtain ⟨s1, hpass⟩ := segLoop_visits 0 pi s fun seg' pi' rc hmem =>
      hclean seg' pi' rc (Trace.mem_output_andThen_left hmem)
    rw [hpass] at hclean ⊢
    rw [Trace.output_andThen rfl, ih _ _ s1 fun seg' pi' rc hmem =>
      hclean seg' pi' rc (Trace.mem_output_andThen_right rfl hmem), runVisits, flatMap_append]

end

/-- All three operations visit the same places in the same order, and a visit with writes
compares only after it has written. -/
theorem visits_scheduled (mach : Machine) (stanza : MemStanza) (segs : List Segment)
    (m : Memory) (more : Nat -> Nat) (hclean : forall seg pi rc,
      ⟨seg, pi, .compare rc⟩ ∈ (doMemOperation mach noFlags stanza segs m).output -> rc = 0) :
    let sweeps := memSweeps stanza.numWrites stanza.numReads stanza.numCompares
    let places := stanza.places segs.length
    (doMemOperation mach noFlags stanza segs m).output =
      (places.map (visitAt fun _ _ => sweeps)).flatMap Visit.accesses ∧
    strideVisits stanza segs = places.map (visitAt fun _ _ => sweeps) ∧
    rimVisits stanza segs more =
      places.map (visitAt fun seg _ => rimSweeps (more seg) stanza.numWrites) ∧
    sweeps.count .write = stanza.numWrites ∧ sweeps.count .read = stanza.numReads ∧
    sweeps.count (.compare 0) = stanza.numCompares ∧
    (0 < stanza.numWrites ->
      forall front, front ++ [.compare 0] <+: sweeps -> .write ∈ front) := by
  obtain ⟨hwrites, hreads, hcompares⟩ :=
    count_memSweeps stanza.numWrites stanza.numReads stanza.numCompares
  refine ⟨?_, runVisits_places, runVisits_places, hwrites, hreads, hcompares,
    fun hpos _ => write_before_compare hpos⟩
  rw [doMemOperation, operLoop_visits _ _ _ _ hclean, runVisits_places]

theorem visits_scheduled_one_compare :
    (doMemOperation littleMachine noFlags (randomStanza 1) [⟨0x10000000, 4096⟩] 0).output =
      [⟨0, 0, .write⟩, ⟨0, 0, .compare 0⟩] := by
  have hclean : forall seg pi rc, ⟨seg, pi, .compare rc⟩ ∈ (doMemOperation littleMachine noFlags
      (randomStanza 1) [⟨0x10000000, 4096⟩] 0).output -> rc = 0 := fun seg pi rc hmem =>
    (operLoop_safe (by decide) 1 0 0 _ fun _ _ _ => by decide).output _ hmem rc rfl
  rw [(visits_scheduled littleMachine (randomStanza 1) _ 0 (fun _ => 0) hclean).1]
  simp [memSweeps, randomStanza, MemStanza.places, MemStanza.passPlaces, patternCount, visitAt,
    Visit.accesses]

end Htx.Hxemem64
