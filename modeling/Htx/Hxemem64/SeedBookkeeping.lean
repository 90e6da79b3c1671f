import Htx.Hxemem64.MemOperation

/-!
# Seeds over many visits

Which segments are visited with which patterns does not depend on the data.
-/

namespace Htx.Hxemem64

open List UInt32 Nat.Coprime Library

section

variable (stanza : MemStanza) (segs : List Segment)

def segVisits (seg pi : Nat) : List (Segment × Pattern) :=
  if h : seg < segs.length then
    (segs[seg], stanza.pattern pi) :: segVisits (advance stanza seg pi).1 (advance stanza seg pi).2
  else []
termination_by (segs.length - seg, stanza.numPatterns - pi)
decreasing_by exact advance_lex h

def segEnd (seg pi : Nat) : Nat :=
  if _h : seg < segs.length then segEnd (advance stanza seg pi).1 (advance stanza seg pi).2
  else pi
termination_by (segs.length - seg, stanza.numPatterns - pi)
decreasing_by exact advance_lex _h

def operVisits : Nat -> Nat -> List (Segment × Pattern)
  | 0, _ => []
  | remaining + 1, pi =>
    segVisits stanza segs 0 pi ++ operVisits remaining (segEnd stanza segs 0 pi)

def visits : List (Segment × Pattern) :=
  operVisits stanza segs stanza.numOper 0

def SeedSafe (v : Segment × Pattern) : Prop :=
  NeedsSeed stanza.width v.2 v.1 -> stanza.numCompares ≤ stanza.numWrites

end

/-!
# Comparisons that go through
-/

section

variable {mach : Machine} {flags : StopFlags} {stanza : MemStanza} {segs : List Segment}

section

variable (hwrites : 0 < stanza.numWrites)

include hwrites

theorem visit_safe {seg : Segment} {pattern : Pattern}
    (hsafe : SeedSafe stanza (seg, pattern)) (s : OperState) :
    (visit mach flags stanza pattern seg s).Always Sweep.Clean fun _ => True :=
  visit_always ⟨hsafe, fun _ => .inl hwrites⟩

theorem segLoop_safe (seg pi : Nat) (s : OperState)
    (hsafe : forall v, v ∈ segVisits stanza segs seg pi -> SeedSafe stanza v) :
    (segLoop mach flags stanza segs seg pi s).Always (fun a => a.sweep.Clean) fun r =>
      r.1 = segEnd stanza segs seg pi := by
  -- the induction follows the positions of the pass
  induction seg, pi using segVisits.induct stanza segs generalizing s with
  | case1 seg pi h ih =>
    rw [segVisits, dif_pos h] at hsafe
    rw [segLoop, dif_pos h, segEnd, dif_pos h]
    have hvisit : ((visit mach flags stanza (stanza.pattern pi) segs[seg] s).map
        (Access.mk seg pi)).Always (fun a => a.sweep.Clean) fun _ => True :=
      .map (visit_safe hwrites (hsafe _ mem_cons_self) s)
    apply hvisit.andThen
    intro s1 _
    apply (testExit_always (p := fun _ => True) fun _ => trivial).andThen
    intro s2 _
    exact ih s2 fun v hv => hsafe v (mem_cons_of_mem _ hv)
  | case2 seg pi h =>
    rw [segLoop, dif_neg h, segEnd, dif_neg h]
    exact .done rfl

theorem operLoop_safe (remaining pass pi : Nat) (s : OperState)
    (hsafe : forall v, v ∈ operVisits stanza segs remaining pi -> SeedSafe stanza v) :
    (operLoop mach flags stanza segs remaining pass pi s).Always (fun a => a.sweep.Clean)
      fun _ => True := by
  induction remaining generalizing pass pi s with
  | zero => exact .done trivial
  | succ remaining ih =>
    rw [operLoop]
    split
    · exact .stop
    · apply (segLoop_safe hwrites 0 pi s fun v hv =>
        hsafe v (mem_append_left _ hv)).andThen
      rintro ⟨pi', s'⟩ rfl
      exact ih _ _ s' fun v hv => hsafe v (mem_append_right _ hv)

end

end

/-!
# Comparisons that fail
-/

def cyclicRandR (p : Nat) (hp : 0 < p ∧ p ≤ 255) : RandR where
  next seed := (ofNat ((seed.toNat + 1) % p), ofNat ((seed.toNat + 1) % p))
  nonneg := by
    intro seed
    have hlt : (seed.toNat + 1) % p < p := Nat.mod_lt _ hp.1
    simp only [toNat_ofNat']
    omega

def cyclicMachine (p : Nat) (hp : 0 < p ∧ p ≤ 255) : Machine :=
  ⟨.little, cyclicRandR p hp, 0⟩

section

variable {p : Nat} (hp : 0 < p ∧ p ≤ 255)

def lowWord (seed : UInt64) : Nat :=
  seed.toNat % 2 ^ 32

def cycleStep : Width -> Nat
  | .dword => 2
  | .word => 1
  | .byte => 1

theorem toNat_callRandR (seed : UInt64) :
    (callRandR (cyclicMachine p hp) seed).1.toNat = (lowWord seed + 1) % p := by
  have hlt : (lowWord seed + 1) % p < p := Nat.mod_lt _ hp.1
  change (lowWord seed + 1) % p % 2 ^ 32 = (lowWord seed + 1) % p
  exact Nat.mod_eq_of_lt (by omega)

theorem lowWord_shiftLeft_or (a b : UInt32) :
    lowWord (a.toUInt64 <<< 32 ||| b.toUInt64) = b.toNat := by
  have hb := b.toNat_lt
  have hshift : (a.toUInt64 <<< 32).toNat % 2 ^ 32 = 0 := by
    have h32 : (32 : UInt64).toNat % 64 = 32 := rfl
    rw [UInt64.toNat_shiftLeft, h32, Nat.shiftLeft_eq]
    omega
  rw [lowWord, UInt64.toNat_or, Nat.or_mod_two_pow, hshift, Nat.zero_or]
  exact Nat.mod_eq_of_lt hb

theorem lowWord_getRandomNo (w : Width) (seed : UInt64) :
    lowWord (getRandomNo (cyclicMachine p hp) w seed) = (lowWord seed + cycleStep w) % p := by
  have hlt : (lowWord seed + 1) % p < p := Nat.mod_lt _ hp.1
  have hcall := toNat_callRandR hp seed
  cases w with
  | dword =>
    have hlow : lowWord (callRandR (cyclicMachine p hp) seed).1.toUInt64 =
        (lowWord seed + 1) % p := by
      rw [← hcall, lowWord, toNat_toUInt64]
      exact Nat.mod_eq_of_lt (toNat_lt _)
    rw [getRandomNo, getRandomNo64, lowWord_shiftLeft_or, toNat_callRandR, hlow, Nat.mod_add_mod]
    rfl
  | word =>
    rw [getRandomNo, getRandomNo32, lowWord, toNat_toUInt64, hcall]
    exact Nat.mod_eq_of_lt (by omega)
  | byte =>
    rw [getRandomNo, getRandomNo8, lowWord, UInt8.toNat_toUInt64, toNat_toUInt8,
      UInt32.toNat_mod, hcall]
    have h255 : (255 : UInt32).toNat = 255 := rfl
    rw [h255, cycleStep]
    omega

theorem after_randStep (w : Width) (n : Nat) (s : RandLoop) :
    ((randStep (cyclicMachine p hp) w).after (n + 1) s).randNo =
        ((randStep (cyclicMachine p hp) w).after (n + 1) s).lseed ∧
      lowWord ((randStep (cyclicMachine p hp) w).after (n + 1) s).lseed =
        (lowWord s.lseed + cycleStep w * (n + 1)) % p := by
  induction n generalizing s with
  | zero =>
    refine ⟨rfl, ?_⟩
    simp [Generator.after, randStep, lowWord_getRandomNo]
  | succ n ih =>
    obtain ⟨hsame, hlow⟩ := ih (randStep (cyclicMachine p hp) w s).2
    refine ⟨hsame, ?_⟩
    change lowWord ((randStep (cyclicMachine p hp) w).after (n + 1)
      (randStep (cyclicMachine p hp) w s).2).lseed = _
    rw [hlow]
    simp only [randStep]
    rw [lowWord_getRandomNo, Nat.mod_add_mod, add_assoc, Nat.mul_succ _ (n + 1),
      add_comm (cycleStep w)]

theorem exists_cycle {n : Nat} (hpos : 0 < n) (hlt : n < 2 ^ 31) :
    exists p, (0 < p ∧ p ≤ 255) ∧ forall w, ¬ p ∣ cycleStep w * n := by
  -- numbers without a common factor, whose product is too large to divide `n`
  have hprime : ¬ 243 ∣ n ∨ ¬ 125 ∣ n ∨ ¬ 49 ∣ n ∨ ¬ 121 ∣ n ∨ ¬ 169 ∣ n := by
    by_contra hall
    push Not at hall
    obtain ⟨h3, h5, h7, h11, h13⟩ := hall
    have h35 := mul_dvd_of_dvd_of_dvd (by decide) h3 h5
    have h711 := mul_dvd_of_dvd_of_dvd (by decide) h7 h11
    have h7113 := mul_dvd_of_dvd_of_dvd (by decide) h711 h13
    have hprod := mul_dvd_of_dvd_of_dvd (by decide) h35 h7113
    exact absurd (lt_of_le_of_lt (Nat.le_of_dvd hpos hprod) hlt) (by decide)
  have hwidth {p : Nat} (hp : 0 < p ∧ p ≤ 255) (hone : ¬ p ∣ n) (htwo : ¬ p ∣ 2 * n) :
      exists p, (0 < p ∧ p ≤ 255) ∧ forall w, ¬ p ∣ cycleStep w * n := by
    refine ⟨p, hp, ?_⟩
    intro w
    cases w with
    | dword => exact htwo
    | word | byte => simpa [cycleStep] using hone
  have hodd {p : Nat} (hcoprime : Nat.Coprime p 2) (h : ¬ p ∣ n) : ¬ p ∣ 2 * n :=
    fun hdvd => h (hcoprime.dvd_of_dvd_mul_left hdvd)
  rcases hprime with h | h | h | h | h <;>
    exact hwidth (by decide) h (hodd (by decide) h)

end

section

variable {mach : Machine} {width : Width} {pattern : Pattern} {seg : Segment}
variable {seed seed' : UInt64} {m : Memory}

theorem callOperation_compare_random (mach : Machine) (width : Width) (seg : Segment)
    (seed : UInt64) (m : Memory) (htype : pattern.type = .random) :
    exists first, callOperation mach .compare pattern width seg seed m =
      some (randOperationComp mach width first (toInt (seg.size / width.bytes)) seg.address
        pattern seed m) := by
  rw [callOperation, memAccess_of_ne_address width (by simp [htype]), htype]
  cases width <;> exact ⟨_, rfl⟩

theorem getRandomNo_eq_of_holds (hneeds : NeedsSeed width pattern seg)
    (h : Holds mach width pattern seg seed m) (h' : Holds mach width pattern seg seed' m) :
    getRandomNo mach width seed = getRandomNo mach width seed' := by
  have himage (seed : UInt64) (h : Holds mach width pattern seg seed m) :
      m.bytes seg.address ((toInt (seg.size / width.bytes)).toNat * width.bytes) =
        (randStep mach width).image mach.order width.bytes
          (toInt (seg.size / width.bytes)).toNat ⟨seed, seed⟩ := by
    obtain ⟨r, hr, hrc⟩ := callOperation_compare mach width seg seed m
      (show pattern.type ≠ .address by simp [hneeds.1])
    simpa [segmentImage, expectedImage, hneeds.1] using hrc.mp (h r hr)
  have heq := (himage seed h).symm.trans (himage seed' h')
  obtain ⟨n, hn⟩ := Nat.exists_eq_succ_of_ne_zero hneeds.2.ne'
  rw [hn, Generator.image_succ, Generator.image_succ] at heq
  have hfirst := (append_inj heq (by simp)).1
  have hvalue := congrArg mach.order.decode hfirst
  simp only [ByteOrder.decode_encode, Nat.mod_eq_of_lt (randStep_lt mach width _)] at hvalue
  exact UInt64.toNat_inj.mp hvalue

variable {p : Nat} (hp : 0 < p ∧ p ≤ 255) (hneeds : NeedsSeed width pattern seg) {r : Outcome}
variable (hr : callOperation (cyclicMachine p hp) .compare pattern width seg seed m = some r)

include hneeds hr

theorem lowWord_compare_seed (hrc : r.rc = 0) :
    lowWord r.seed = (lowWord seed +
      cycleStep width * (toInt (seg.size / width.bytes)).toNat) % p := by
  obtain ⟨first, hfirst⟩ :=
    callOperation_compare_random (cyclicMachine p hp) width seg seed m hneeds.1
  obtain ⟨n, hn⟩ := Nat.exists_eq_succ_of_ne_zero hneeds.2.ne'
  obtain rfl := Option.some.inj (hr.symm.trans hfirst)
  simp only [randOperationComp, rcOf_eq_zero_iff] at hrc ⊢
  rw [compareLoop_state hrc, hn]
  obtain ⟨hsame, hlow⟩ := after_randStep hp width n ⟨seed, first seed⟩
  rw [hsame, hlow]

theorem not_holds_next_seed
    (hcycle : ¬ p ∣ cycleStep width * (toInt (seg.size / width.bytes)).toNat)
    (h : Holds (cyclicMachine p hp) width pattern seg seed m) :
    ¬ Holds (cyclicMachine p hp) width pattern seg r.seed m := by
  intro hnext
  have hsame := congrArg lowWord (getRandomNo_eq_of_holds hneeds h hnext)
  rw [lowWord_getRandomNo, lowWord_getRandomNo,
    lowWord_compare_seed hp hneeds hr (h r hr), Nat.mod_add_mod] at hsame
  apply hcycle
  have hmod : lowWord seed + cycleStep width + 0 ≡ lowWord seed + cycleStep width +
      cycleStep width * (toInt (seg.size / width.bytes)).toNat [MOD p] := by
    rw [add_zero, add_right_comm]
    exact hsame
  exact (Nat.modEq_zero_iff_dvd).mp (Nat.ModEq.add_left_cancel' _ hmod).symm

end

/-!
# Runs that nothing stops
-/

section

variable {mach : Machine} {stanza : MemStanza} {pattern : Pattern} {seg : Segment}
variable {segs : List Segment}

open Trace

theorem visitLoop_result (nw nr nc : Nat) (s : OperState) :
    exists s', (visitLoop mach noFlags stanza pattern seg nw nr nc s).result = some s' := by
  induction hn : nw + nr + nc using Nat.strong_induction_on generalizing nw nr nc s with
  | _ n ih =>
    by_cases hmore : 0 < nw ∨ 0 < nr ∨ 0 < nc
    · obtain ⟨s1, hwrite⟩ := writePart_result mach stanza pattern seg nw s
      obtain ⟨r, hcompare⟩ : exists r, (comparePart mach stanza pattern seg nc
          { s1 with tests := s1.tests + 1 + 1 }).result = some r := by
        rcases eq_zero_or_pos nc with rfl | hpos
        · exact ⟨_, rfl⟩
        · obtain ⟨r, _, hemit⟩ := comparePart_pos mach stanza pattern seg hpos
            { s1 with tests := s1.tests + 1 + 1 }
          exact ⟨_, congrArg result hemit⟩
      rw [visitLoop_round hmore hwrite, result_andThen rfl, result_andThen hcompare]
      split
      · exact ih _ (by omega) _ _ _ _ rfl
      · exact ⟨_, rfl⟩
    · rw [visitLoop, if_neg hmore]
      exact ⟨s, rfl⟩

theorem visit_result (mach : Machine) (stanza : MemStanza) (pattern : Pattern)
    (seg : Segment) (s : OperState) :
    exists s', (visit mach noFlags stanza pattern seg s).result = some s' := by
  obtain ⟨s', hs'⟩ := visitLoop_result stanza.numWrites stanza.numReads stanza.numCompares
    { s with backupSeed := s.seed }
  exact ⟨_, result_andThen hs'⟩

theorem segLoop_result (seg pi : Nat) (s : OperState) :
    exists s', (segLoop mach noFlags stanza segs seg pi s).result =
      some (segEnd stanza segs seg pi, s') := by
  induction seg, pi using segVisits.induct stanza segs generalizing s with
  | case1 seg pi h ih =>
    rw [segLoop, dif_pos h, segEnd, dif_pos h]
    obtain ⟨s1, hs1⟩ := visit_result mach stanza (stanza.pattern pi) segs[seg] s
    obtain ⟨s2, hs2⟩ := ih { s1 with tests := s1.tests + 1 }
    refine ⟨s2, ?_⟩
    have hmap : ((visit mach noFlags stanza (stanza.pattern pi) segs[seg] s).map
      (Access.mk seg pi)).result = some s1 := hs1
    rw [result_andThen hmap]
    simpa using hs2
  | case2 seg pi h =>
    rw [segLoop, dif_neg h, segEnd, dif_neg h]
    exact ⟨s, rfl⟩

end

section

variable {stanza : MemStanza} {pattern : Pattern} {seg : Segment} {segs : List Segment}
variable {p : Nat} (hp : 0 < p ∧ p ≤ 255)

theorem visitLoop_fails (hneeds : NeedsSeed stanza.width pattern seg)
    (hcycle : ¬ p ∣ cycleStep stanza.width * (toInt (seg.size / stanza.width.bytes)).toNat)
    (nw nr nc : Nat) (s : OperState) (hlt : nw < nc)
    (hstale : nw = 0 ->
      ¬ Holds (cyclicMachine p hp) stanza.width pattern seg s.backupSeed s.memory) :
    exists rc, .compare rc ∈ (visitLoop (cyclicMachine p hp) noFlags stanza pattern seg nw nr nc
      s).output ∧ rc ≠ 0 := by
  have hnc : 0 < nc := Nat.lt_of_le_of_lt (Nat.zero_le _) hlt
  induction nw generalizing nr nc s with
  | zero =>
    rw [visitLoop_round (.inr (.inr hnc)) (writePart_zero _ stanza pattern seg s)]
    obtain ⟨r, hr, hemit⟩ := comparePart_pos (cyclicMachine p hp) stanza pattern seg hnc
      { s with tests := s.tests + 1 + 1 }
    refine ⟨r.rc, Trace.mem_output_andThen_right rfl (Trace.mem_output_andThen_left ?_), ?_⟩
    · rw [hemit]
      exact mem_singleton_self _
    · intro hrc
      apply hstale rfl
      intro r' hr'
      obtain rfl : r = r' := Option.some.inj (hr.symm.trans hr')
      exact hrc
  | succ nw ih =>
    obtain ⟨w, hw, hdone⟩ := writePart_pos (cyclicMachine p hp) stanza pattern seg nw.succ_pos s
    rw [visitLoop_round (.inl nw.succ_pos) hdone]
    obtain ⟨r, hr, hemit⟩ := comparePart_pos (cyclicMachine p hp) stanza pattern seg hnc
      { s with memory := w.memory, seed := w.seed, tests := s.tests + 1 + 1 }
    have hholds := holds_write hw
    have hrc : r.rc = 0 := hholds r hr
    have hnext := ih (nr - 1) (nc - 1) ⟨w.memory, w.seed, r.seed, s.tests + 1 + 1 + 1⟩ (by omega)
      (fun _ => not_holds_next_seed hp hneeds hr hcycle hholds) (by omega)
    obtain ⟨rc, hmem, hne⟩ := hnext
    refine ⟨rc, Trace.mem_output_andThen_right rfl ?_, hne⟩
    rw [hemit]
    apply Trace.mem_output_andThen_right rfl
    rw [if_pos hrc]
    exact hmem

section

variable {mach : Machine} {v : Segment × Pattern}
  (hfail : forall s, exists rc,
    .compare rc ∈ (visit mach noFlags stanza v.2 v.1 s).output ∧ rc ≠ 0)

include hfail

theorem segLoop_fails (seg pi : Nat) (s : OperState) (hv : v ∈ segVisits stanza segs seg pi) :
    exists seg' pi' rc, ⟨seg', pi', .compare rc⟩ ∈
      (segLoop mach noFlags stanza segs seg pi s).output ∧ rc ≠ 0 := by
  induction seg, pi using segVisits.induct stanza segs generalizing s with
  | case1 seg pi h ih =>
    rw [segVisits, dif_pos h] at hv
    rw [segLoop, dif_pos h]
    rcases mem_cons.mp hv with rfl | hv
    · obtain ⟨rc, hmem, hne⟩ := hfail s
      exact ⟨seg, pi, rc, Trace.mem_output_andThen_left (mem_map_of_mem hmem), hne⟩
    · obtain ⟨s1, hs1⟩ := visit_result mach stanza (stanza.pattern pi) segs[seg] s
      obtain ⟨seg', pi', rc, hmem, hne⟩ := ih { s1 with tests := s1.tests + 1 } hv
      refine ⟨seg', pi', rc, Trace.mem_output_andThen_right hs1 ?_, hne⟩
      simpa using hmem
  | case2 seg pi h =>
    rw [segVisits, dif_neg h] at hv
    cases hv

theorem operLoop_fails (remaining pass pi : Nat) (s : OperState)
    (hv : v ∈ operVisits stanza segs remaining pi) :
    exists seg' pi' rc, ⟨seg', pi', .compare rc⟩ ∈
      (operLoop mach noFlags stanza segs remaining pass pi s).output ∧ rc ≠ 0 := by
  induction remaining generalizing pass pi s with
  | zero => cases hv
  | succ remaining ih =>
    rw [operLoop, if_neg (by simp [noFlags])]
    rcases mem_append.mp hv with hv | hv
    · obtain ⟨seg', pi', rc, hmem, hne⟩ := segLoop_fails hfail 0 pi s hv
      exact ⟨seg', pi', rc, Trace.mem_output_andThen_left hmem, hne⟩
    · obtain ⟨s1, hs1⟩ := segLoop_result 0 pi s
      obtain ⟨seg', pi', rc, hmem, hne⟩ := ih (pass + 1) (segEnd stanza segs 0 pi) s1 hv
      exact ⟨seg', pi', rc, Trace.mem_output_andThen_right hs1 hmem, hne⟩

end

end

/-- Every comparison of every run returns 0, on every machine and from every memory,
exactly when random data are compared at most as often as they are written. -/
theorem no_false_miscompare_iff (stanza : MemStanza) (segs : List Segment)
    (hwrites : 1 ≤ stanza.numWrites) :
    (forall mach flags m seg pi rc,
      ⟨seg, pi, .compare rc⟩ ∈ (doMemOperation mach flags stanza segs m).output -> rc = 0) <->
      forall v, v ∈ visits stanza segs -> SeedSafe stanza v := by
  constructor
  · intro hall v hv hneeds
    by_contra hmore
    obtain ⟨p, hp, hcycle⟩ := exists_cycle hneeds.2 (toNat_toInt_lt _)
    have hvisit (s : OperState) : exists rc,
        .compare rc ∈ (visit (cyclicMachine p hp) noFlags stanza v.2 v.1 s).output ∧ rc ≠ 0 := by
      obtain ⟨rc, hmem, hne⟩ := visitLoop_fails hp hneeds (hcycle _) stanza.numWrites
        stanza.numReads stanza.numCompares { s with backupSeed := s.seed } (by omega)
        (fun hzero => by omega)
      exact ⟨rc, Trace.mem_output_andThen_left hmem, hne⟩
    obtain ⟨seg, pi, rc, hmem, hne⟩ := operLoop_fails hvisit stanza.numOper 0 0
      ⟨fun _ => 0, stanza.seed, stanza.seed, 0⟩ hv
    exact hne (hall (cyclicMachine p hp) noFlags (fun _ => 0) seg pi rc hmem)
  · intro hsafe mach flags m seg pi rc hmem
    exact (operLoop_safe hwrites stanza.numOper 0 0 _ hsafe).output _ hmem rc rfl

def randomPattern : Pattern where
  type := .random
  size := 8
  data := fun _ => 0
  size_pow := onesPattern.size_pow
  size_le := onesPattern.size_le
  size_normal := nofun
  size_big := nofun

def randomStanza (numCompares : Nat) : MemStanza where
  numOper := 1
  numWrites := 1
  numReads := 0
  numCompares := numCompares
  width := .dword
  switchPat := .all
  numPatterns := 1
  pattern := fun _ => randomPattern
  seed := 0

theorem no_false_miscompare_one_compare : 1 ≤ (randomStanza 1).numWrites ∧
    forall mach flags m seg pi rc, ⟨seg, pi, .compare rc⟩ ∈
      (doMemOperation mach flags (randomStanza 1) [⟨0x10000000, 4096⟩] m).output -> rc = 0 :=
  ⟨by decide, (no_false_miscompare_iff (randomStanza 1) [⟨0x10000000, 4096⟩]
    (by decide)).mpr fun _ _ _ => by decide⟩

theorem second_compare_fails :
    exists seg pi rc, ⟨seg, pi, .compare rc⟩ ∈ (doMemOperation (cyclicMachine 3 (by decide))
      noFlags (randomStanza 2) [⟨0x10000000, 4096⟩] fun _ => 0).output ∧ rc ≠ 0 := by
  have hneeds : NeedsSeed (randomStanza 2).width randomPattern ⟨0x10000000, 4096⟩ :=
    ⟨rfl, by decide⟩
  have hvisit (s : OperState) : exists rc, .compare rc ∈ (visit (cyclicMachine 3 (by decide))
      noFlags (randomStanza 2) randomPattern ⟨0x10000000, 4096⟩ s).output ∧ rc ≠ 0 := by
    obtain ⟨rc, hmem, hne⟩ := visitLoop_fails (p := 3) (by decide) hneeds (by decide) 1 0 2
      { s with backupSeed := s.seed } (by decide) (fun h => absurd h (by decide))
    exact ⟨rc, Trace.mem_output_andThen_left hmem, hne⟩
  apply operLoop_fails (v := (⟨0x10000000, 4096⟩, randomPattern)) hvisit
  rw [show (randomStanza 2).numOper = 0 + 1 from rfl, operVisits, segVisits, dif_pos (by decide)]
  exact List.mem_append_left _ List.mem_cons_self

end Htx.Hxemem64
