import Htx.Hxemem64.FilterUnion

/-!
# When a list of CPU filters is read as its union

A list of filters is steady if each of them adds what it stands for to those before it.
After every filter of a steady list exactly the CPUs of the filters so far are marked.
-/

namespace Htx.Hxemem64

open List Bool FilterTree CpuFilter Nat Library

def Populated : List Level -> PathTree Nat -> Prop
  | [], _ => True
  | _ :: levels, size => 0 < size [] ∧ forall i, i < size [] -> Populated levels (size.sub i)

theorem Entry.exists_picks {e : Entry} {size : Nat} (hpos : 0 < size) (hfits : e.Fits size) :
    exists i, i < size ∧ e.picks size i = true := by
  cases e with
  | single n => exact ⟨n.value, hfits, decide_eq_true rfl⟩
  | range r => exact ⟨r.last.value, hfits.1, decide_eq_true ⟨r.first_le_last, le_rfl⟩⟩
  | percent p => exact ⟨0, hpos, decide_eq_true (le_max_left 1 _)⟩

theorem Token.exists_picks {t : Token} {size : Nat} (hpos : 0 < size) (hfits : t.Fits size) :
    exists i, t.picks size i = true := by
  have hmatch : exists i, t.matches size i = true := by
    cases t with
    | all => exact ⟨0, decide_eq_true hpos⟩
    | number n => exact ⟨n.value, decide_eq_true rfl⟩
    | list e es =>
      rcases Entry.exists_picks hpos (hfits.2 e mem_cons_self) with ⟨i, _, hi⟩
      exact ⟨i, any_eq_true.mpr ⟨e, mem_cons_self, hi⟩⟩
    | percent p => exact ⟨0, decide_eq_true (le_max_left 1 _)⟩
  rwa [← Token.picks_eq_matches hpos hfits] at hmatch

theorem CpuFilter.length_of_selects {f : CpuFilter} {levels : List Level} {size : PathTree Nat}
    {path : List Nat} (h : f.selects levels size path = true) : path.length = levels.length := by
  induction levels generalizing size path with
  | nil =>
    cases path with
    | nil => rfl
    | cons i path => cases h
  | cons level levels ih =>
    cases path with
    | nil => cases h
    | cons i path =>
      rw [selects, and_eq_true] at h
      exact congrArg succ (ih h.2)

variable {t t' : FilterTree}

theorem exists_marks_of_visit {levels : List Level} {size : PathTree Nat} {i : Nat}
    {h : List Round} {f : CpuFilter} (hbounded : Bounded levels (size.sub i))
    (hpop : Populated levels (size.sub i)) (hrep : Represents levels (size.sub i) h t)
    (hsel : h.any Round.selected = false) (hmarked : (t []).marked = true)
    (hvisit : visitPlace f levels size i t = .ok t') :
    (t' []).marked = true ∧ exists path, path.length = levels.length ∧ t'.marks path = true := by
  induction levels generalizing size i h t t' with
  | nil =>
    have heq : t = t' := Except.ok.inj ((ite_self _).symm.trans hvisit)
    exact ⟨heq ▸ hmarked, [], rfl, rfl⟩
  | cons next levels ih =>
    have hfull : ¬ full next (size [i]) h = true := by
      rw [full_of_not_selected hsel, decide_eq_true_eq]
      exact ne_of_gt hpop.1
    have happly : ¬ ((t []).marked = false ∨ (t []).count = size [i]) := by
      rw [hmarked]
      exact fun hor => hor.elim (by decide) fun hcount => hfull (hrep.1.mp hcount)
    rw [visitPlace, if_neg happly] at hvisit
    rcases (parseLevels_eq_ok_iff (r := ⟨true, f⟩) hpop.1 hbounded.1).mp hvisit with
      ⟨hfits, hroot, hloop, _⟩
    rcases Token.exists_picks hpop.1 hfits with ⟨j, hj⟩
    have hlt : j < size [i] := of_decide_eq_true (and_eq_true_iff.mp hj).1
    have hbelow := ih (hbounded.2 j) (hpop.2 j hlt) ((hrep.kids hfull).sub_marked j)
      (by rw [any_selected_down, picked_of_not_selected hsel])
      (by rw [PathTree.sub_apply, marked_singleton]
          exact (congrArg _ hj).trans (or_true _))
      (hloop j (mem_range.mpr (hlt.trans_le hbounded.1)))
    rcases hbelow with ⟨hmark, path, hlength, hpath⟩
    refine ⟨by rw [hroot]; exact hmarked, j :: path, congrArg succ hlength, ?_⟩
    rw [marks, and_eq_true]
    exact ⟨hmark, hpath⟩

/-! ## A round that is read as what it stands for -/

section

variable {level : Level} {levels : List Level} {size : PathTree Nat} {h : List Round} {r : Round}
  {t t' : FilterTree}

theorem extends_of_exact (hbounded : Bounded (level :: levels) size)
    (hpop : Populated (level :: levels) size) (hkids : KidsRepresent level levels size h t)
    (hrun : parseLevels (r.filter.tokens (level :: levels)) size t = .ok t')
    (hexact : forall path, path.length = levels.length + 1 ->
      t'.marks path = covered (level :: levels) size (r :: h) path) :
    Extends level (size []) h r := by
  rcases (parseLevels_eq_ok_iff hpop.1 hbounded.1).mp hrun with ⟨hfits, _, hloop, _⟩
  refine ⟨hfits, fun i hi hpicks => ?_⟩
  by_contra hnot
  rw [not_eq_true] at hnot
  have hearlier : picked level (size []) h i = false := by
    rw [picked_cons, or_eq_false_iff] at hnot
    exact hnot.2
  have hlt : i < size [] := of_decide_eq_true (and_eq_true_iff.mp hpicks).1
  have hbelow := exists_marks_of_visit (hbounded.2 i) (hpop.2 i hlt) (hkids.sub_marked i)
    (by rw [any_selected_down, hearlier])
    (by rw [PathTree.sub_apply, marked_singleton]
        exact (congrArg _ hpicks).trans (or_true _))
    (hloop i (mem_range.mpr hi))
  rcases hbelow with ⟨hmark, path, hlength, hpath⟩
  have hmarks : t'.marks (i :: path) = true := by
    rw [marks, and_eq_true]
    exact ⟨hmark, hpath⟩
  rw [hexact (i :: path) (congrArg succ hlength), ← covered_down,
    covered_of_not_selected (by rw [any_selected_down, hnot])] at hmarks
  cases hmarks

end

variable {levels : List Level} {size : PathTree Nat} {h : List Round}

theorem adds_of_full {level : Level} {r : Round} (hfull : full level (size []) h = true)
    (hcovers : forall path, r.covers (level :: levels) size path = true ->
      covered (level :: levels) size h path = true) : Adds (level :: levels) size h r := by
  rw [Adds, if_pos hfull]
  exact hcovers

theorem adds_of_not_full {level : Level} {r : Round} (hfull : ¬ full level (size []) h = true)
    (hadds : AddsTop level levels size h r) : Adds (level :: levels) size h r := by
  rw [Adds, if_neg hfull]
  exact hadds

theorem addsTop_of_exact {level : Level} {r : Round}
    (hbounded : Bounded (level :: levels) size) (hpop : Populated (level :: levels) size)
    (hkids : KidsRepresent level levels size h t)
    (hrun : parseLevels (r.filter.tokens (level :: levels)) size t = .ok t')
    (hexact : forall path, path.length = levels.length + 1 ->
      t'.marks path = covered (level :: levels) size (r :: h) path) :
    AddsTop level levels size h r := by
  induction levels generalizing level size h r t t' with
  | nil => exact ⟨extends_of_exact hbounded hpop hkids hrun hexact, fun _ _ _ => trivial⟩
  | cons next levels ih =>
    have hextends := extends_of_exact hbounded hpop hkids hrun hexact
    refine ⟨hextends, fun i hi hpicked => ?_⟩
    rcases (parseLevels_eq_ok_iff hpop.1 hbounded.1).mp hrun with ⟨_, _, hloop, _⟩
    have hvisit := hloop i (mem_range.mpr hi)
    have hrep := hkids.sub_marked (r := r) i
    have hmarked := (hkids.marked_eq hbounded.1 hextends i).trans hpicked
    by_cases hfull : full next (size [i]) (h.map (Round.down level (size []) i)) = true
    · refine adds_of_full hfull ?_
      have heq : (marked level size r t).sub i = t'.sub i :=
        Except.ok.inj ((if_pos (.inr (hrep.1.mpr hfull))).symm.trans hvisit)
      intro path hcovers
      have hlength := length_of_selects (Bool.and_eq_true_iff.mp hcovers).2
      have hmarks : t'.marks (i :: path) = true := by
        rw [hexact (i :: path) (congrArg succ hlength), covered_cons,
          ← Round.covers_down, hcovers, Bool.true_or]
      rw [marks, Bool.and_eq_true, ← heq, hrep.exact hfull hlength] at hmarks
      exact hmarks.2
    · have happly : ¬ ((marked level size r t [i]).marked = false ∨
          (marked level size r t [i]).count = size [i]) := by
        rw [hmarked]
        exact fun hor => hor.elim (by decide) fun hcount => hfull (hrep.1.mp hcount)
      have hrun' := (if_neg happly).symm.trans hvisit
      have hmark : (t' [i]).marked = true := by
        have hroot := ((parseLevels_eq_ok_iff (r := r) (pos_of_not_full hfull)
          (hbounded.2 i).1).mp hrun').2.1
        exact (congrArg PlaceInfo.marked hroot).trans hmarked
      refine adds_of_not_full hfull (ih (hbounded.2 i) ?_ (hrep.kids hfull) hrun' ?_)
      · exact hpop.2 i (lt_of_picked hpicked)
      · intro path hlength
        rw [← map_cons, covered_down, ← hexact (i :: path) (congrArg succ hlength),
          marks, hmark, Bool.true_and]

/-! ## Lists of filters -/

structure CpuMachine where
  size : PathTree Nat
  nodes_pos : 0 < size []
  bounded : Bounded allLevels size

def ReadAsUnion (m : CpuMachine) (filters : List CpuFilter) : Prop :=
  exists t, parseCpuFilter m.size FilterTree.blank (filters.map CpuFilter.text) = .ok t ∧
    forall node chip core thread, t.marks [node, chip, core, thread] = true <->
      exists f, f ∈ filters ∧ f.selects allLevels m.size [node, chip, core, thread] = true

def CpuMachine.Steady (m : CpuMachine) (filters : List CpuFilter) : Prop :=
  SteadyFrom m.size [] filters

def rounds (filters : List CpuFilter) : List Round :=
  filters.reverse.map (Round.mk true)

theorem rounds_cons_append (f : CpuFilter) (fs : List CpuFilter) (h : List Round) :
    rounds (f :: fs) ++ h = rounds fs ++ ⟨true, f⟩ :: h := by
  simp [rounds]

theorem covered_rounds_iff (levels : List Level) (size : PathTree Nat)
    (filters : List CpuFilter) (path : List Nat) :
    covered levels size (rounds filters) path = true <->
      exists f, f ∈ filters ∧ f.selects levels size path = true := by
  simp [covered, rounds, Round.covers]

theorem blank_represents (levels : List Level) (size : PathTree Nat) :
    Represents levels size [] blank := by
  induction levels generalizing size with
  | nil => trivial
  | cons level levels ih =>
    refine ⟨?_, ?_⟩
    · rw [full, decide_eq_true_eq]
      exact eq_comm
    · split
      · intro path hlength
        cases path with
        | nil => cases hlength
        | cons i path => rfl
      · exact fun i => ⟨rfl, ih (size.sub i)⟩

theorem parseCpuFilter_cons {f : CpuFilter} {fs : List CpuFilter}
    (hrun : parseLevels (f.tokens allLevels) size t = .ok t') :
    parseCpuFilter size t ((f :: fs).map text) =
      parseCpuFilter size t' (fs.map text) := by
  rw [map_cons, parseCpuFilter, f.parseFilter_text, hrun]

variable {filters : List CpuFilter}

section

variable {size : PathTree Nat}

theorem SteadyFrom.parse (hpos : 0 < size []) (hbounded : Bounded allLevels size)
    {h : List Round} {t : FilterTree}
    (hkids : KidsRepresent .node [.chip, .core, .thread] size h t)
    (hsteady : SteadyFrom size h filters) {shorter : List CpuFilter}
    (hshorter : shorter <+: filters) :
    exists t', parseCpuFilter size t (shorter.map text) = .ok t' ∧
      KidsRepresent .node [.chip, .core, .thread] size (rounds shorter ++ h) t' := by
  induction filters generalizing h t shorter with
  | nil =>
    rw [prefix_nil.mp hshorter]
    exact ⟨t, rfl, hkids⟩
  | cons f fs ih =>
    cases shorter with
    | nil => exact ⟨t, rfl, hkids⟩
    | cons g shorter =>
      rcases cons_prefix_cons.mp hshorter with ⟨heq, hrest⟩
      subst heq
      rcases parseLevels_adds hbounded hpos hkids hsteady.1 with ⟨t', hrun, _, hkids'⟩
      rw [parseCpuFilter_cons hrun, rounds_cons_append]
      exact ih hkids' hsteady.2 hrest

theorem steadyFrom_of_exact (hbounded : Bounded allLevels size)
    (hpop : Populated allLevels size) {h : List Round} {t : FilterTree}
    (hkids : KidsRepresent .node [.chip, .core, .thread] size h t)
    (hexact : forall shorter, shorter <+: filters -> exists t',
      parseCpuFilter size t (shorter.map text) = .ok t' ∧ forall path, path.length = 4 ->
          t'.marks path = covered allLevels size (rounds shorter ++ h) path) :
    SteadyFrom size h filters := by
  induction filters generalizing h t with
  | nil => trivial
  | cons f fs ih =>
    have hadds : AddsTop .node [.chip, .core, .thread] size h ⟨true, f⟩ := by
      rcases hexact [f] (cons_prefix_cons.mpr ⟨rfl, nil_prefix⟩) with ⟨t', hrun, hmarks⟩
      cases hone : parseLevels (f.tokens allLevels) size t with
      | error e =>
        rw [map_cons, parseCpuFilter, f.parseFilter_text, hone] at hrun
        cases hrun
      | ok one =>
        rw [parseCpuFilter_cons hone] at hrun
        cases hrun
        exact addsTop_of_exact hbounded hpop hkids hone hmarks
    rcases parseLevels_adds hbounded hpop.1 hkids hadds with ⟨t', hrun, _, hkids'⟩
    refine ⟨hadds, ih hkids' fun shorter hshorter => ?_⟩
    have hlonger := hexact (f :: shorter) (cons_prefix_cons.mpr ⟨rfl, hshorter⟩)
    rwa [parseCpuFilter_cons hrun, rounds_cons_append] at hlonger

end

theorem readAsUnion_iff {m : CpuMachine} : ReadAsUnion m filters <->
      exists t, parseCpuFilter m.size blank (filters.map text) = .ok t ∧
        forall path, path.length = 4 ->
          t.marks path = covered allLevels m.size (rounds filters) path := by
  refine exists_congr fun t => and_congr_right fun _ => ?_
  constructor
  · intro hmarks path hlength
    rcases length_eq_four.mp hlength with ⟨node, chip, core, thread, hpath⟩
    rw [hpath, Bool.eq_iff_iff, hmarks, covered_rounds_iff]
  · intro hmarks node chip core thread
    rw [hmarks _ rfl, covered_rounds_iff]

theorem blank_kidsRepresent (m : CpuMachine) :
    KidsRepresent .node [.chip, .core, .thread] m.size [] blank :=
  fun i => ⟨rfl, blank_represents [.chip, .core, .thread] (m.size.sub i)⟩

/-- Every beginning of a steady list of filters is read as the union of its filters, and on
a machine where every place has something below it no other list is read so at every
beginning. -/
theorem readAsUnion_of_steady (m : CpuMachine) (filters : List CpuFilter) :
    (m.Steady filters -> forall shorter, shorter <+: filters -> ReadAsUnion m shorter) ∧
      (Populated allLevels m.size ->
        (forall shorter, shorter <+: filters -> ReadAsUnion m shorter) -> m.Steady filters) := by
  constructor
  · intro hsteady shorter hshorter
    rcases SteadyFrom.parse m.nodes_pos m.bounded (blank_kidsRepresent m) hsteady hshorter with
      ⟨t, hrun, hkids⟩
    rw [append_nil] at hkids
    exact readAsUnion_iff.mpr ⟨t, hrun, fun path hlength => hkids.marks_eq hlength⟩
  · intro hpop hread
    refine steadyFrom_of_exact m.bounded hpop (blank_kidsRepresent m) fun shorter hshorter => ?_
    rw [append_nil]
    exact readAsUnion_iff.mp (hread shorter hshorter)

/-! ## Two nodes with two chips -/

def Numeral.ofNat (n : Nat) : Numeral where
  text := toDigits 10 n
  text_ne := toDigits_ne_nil
  digits := fun _ hc => isDigit_of_mem_toDigits (by decide) (by decide) hc

def twoNodes : PathTree Nat :=
  fun path => [2, 2, 8, 4].getD path.length 0

theorem twoNodes_bounded : Bounded allLevels twoNodes :=
  ⟨le_of_ble_eq_true rfl, fun _ => ⟨le_of_ble_eq_true rfl, fun _ =>
    ⟨le_of_ble_eq_true rfl, fun _ => ⟨le_of_ble_eq_true rfl, fun _ => trivial⟩⟩⟩⟩

def twoNodeMachine : CpuMachine where
  size := twoNodes
  nodes_pos := le_of_ble_eq_true rfl
  bounded := twoNodes_bounded

open Numeral

theorem fiveToSeven_le : (Numeral.ofNat 5).value ≤ (Numeral.ofNat 7).value := by
  decide +kernel

def fiveToSeven : NumeralRange where
  first := Numeral.ofNat 5
  last := Numeral.ofNat 7
  first_le_last := fiveToSeven_le

def firstCores : CpuFilter :=
  ⟨.all, .all, .number (ofNat 0), .all⟩

def lastCores : CpuFilter :=
  ⟨.all, .all, .list (.range fiveToSeven) [], .all⟩

def firstThread (node : Nat) : CpuFilter :=
  ⟨.number (ofNat node), .number (ofNat 0), .number (ofNat 0),
    .number (ofNat 0)⟩

example : firstCores.text = "N*P*C0T*".toList := by
  decide +kernel

example : lastCores.text = "N*P*C[5-7]T*".toList := by
  decide +kernel

theorem first_threads_read_as_union : forall shorter, shorter <+: [firstThread 0, firstThread 1] ->
      ReadAsUnion twoNodeMachine shorter :=
  (readAsUnion_of_steady twoNodeMachine [firstThread 0, firstThread 1]).1
    (show SteadyFrom twoNodes [] [firstThread 0, firstThread 1] by decide +kernel)

/-- `N*P*C0T* N*P*C[5-7]T*` leaves out cores 5 to 7: after the first filter every node has
as many chips counted as it has, and the second one passes over it. -/
theorem cores_of_second_filter_missing : ¬ ReadAsUnion twoNodeMachine [firstCores, lastCores] := by
  rintro ⟨t, hrun, hmarks⟩
  have hselected := (hmarks 0 0 5 0).mpr
    ⟨lastCores, mem_cons_of_mem _ mem_cons_self, by decide +kernel⟩
  have hunmarked : ((parseCpuFilter twoNodes FilterTree.blank
      ([firstCores, lastCores].map CpuFilter.text)).map
        fun t => t.marks [0, 0, 5, 0]).toOption = some false := by
    decide +kernel
  rw [show twoNodes = twoNodeMachine.size from rfl, hrun] at hunmarked
  have hfalse : t.marks [0, 0, 5, 0] = false := Option.some.inj hunmarked
  rw [hselected] at hfalse
  cases hfalse

end Htx.Hxemem64
