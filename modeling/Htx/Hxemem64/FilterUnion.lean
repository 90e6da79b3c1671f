import Htx.Hxemem64.FilterHistory

/-!
# The filters as a union

The tree of a history: below a place that is not full the marks are those of the places
that the rounds have selected, and below a full one at least the CPUs are right.
-/

namespace Htx.Hxemem64

open List Bool Round FilterTree Library

def Represents : List Level -> PathTree Nat -> List Round -> FilterTree -> Prop
  | [], _, _, _ => True
  | level :: levels, size, h, t =>
    ((t []).count = size [] <-> full level (size []) h = true) ∧
      if full level (size []) h = true then
        forall path, path.length = levels.length + 1 ->
          t.marks path = covered (level :: levels) size h path
      else
        forall i, (t [i]).marked = picked level (size []) h i ∧
          Represents levels (size.sub i) (h.map (Round.down level (size []) i)) (t.sub i)

def KidsRepresent (level : Level) (levels : List Level) (size : PathTree Nat) (h : List Round)
    (t : FilterTree) : Prop :=
  forall i, (t [i]).marked = picked level (size []) h i ∧
    Represents levels (size.sub i) (h.map (Round.down level (size []) i)) (t.sub i)

section

variable {level : Level} {levels : List Level} {size : PathTree Nat} {h : List Round} {r : Round}

@[simp]
theorem any_selected_down (s i : Nat) (h : List Round) :
    (h.map (down level s i)).any selected = picked level s h i := by
  rw [any_map]
  rfl

theorem picked_cons (s i : Nat) :
    picked level s (r :: h) i = (r.picks level s i || picked level s h i) :=
  rfl

theorem covered_cons (path : List Nat) : covered levels size (r :: h) path =
      (r.covers levels size path || covered levels size h path) :=
  rfl

theorem Round.covers_down (i : Nat) (path : List Nat) :
    (r.down level (size []) i).covers levels (size.sub i) path =
      r.covers (level :: levels) size (i :: path) := by
  simp only [covers, down, picks, CpuFilter.selects, Bool.and_assoc]

theorem covered_down (i : Nat) (path : List Nat) :
    covered levels (size.sub i) (h.map (down level (size []) i)) path =
      covered (level :: levels) size h (i :: path) := by
  simp only [covered, any_map]
  exact congrArg h.any (funext fun r => covers_down i path)

section

variable (hsel : h.any Round.selected = false)

include hsel

theorem covered_of_not_selected (path : List Nat) : covered levels size h path = false := by
  rw [any_eq_false] at hsel
  refine any_eq_false.mpr fun r hr hcovers => hsel r hr ?_
  exact (and_eq_true_iff.mp hcovers).1

theorem picked_of_not_selected (s i : Nat) : picked level s h i = false := by
  rw [any_eq_false] at hsel
  refine any_eq_false.mpr fun r hr hpicks => hsel r hr ?_
  exact (and_eq_true_iff.mp hpicks).1

theorem full_of_not_selected {s : Nat} : full level s h = decide (s = 0) := by
  induction h with
  | nil => rfl
  | cons r h ih =>
    have hearlier : h.any selected = false := by
      rw [any_cons, or_eq_false_iff] at hsel
      exact hsel.2
    rw [full, hsel, Bool.false_and, Bool.or_false, ih hearlier]

end

theorem lt_of_picked {s i : Nat} (hpicked : picked level s h i = true) : i < s := by
  rcases any_eq_true.mp hpicked with ⟨r, _, hr⟩
  rw [picks, Token.picks, and_eq_true, and_eq_true] at hr
  exact of_decide_eq_true hr.2.1

end

variable {level : Level} {levels : List Level} {size : PathTree Nat} {h : List Round}
  {t : FilterTree} {path : List Nat}

theorem Represents.exact (hrep : Represents (level :: levels) size h t)
    (hfull : full level (size []) h = true) (hlength : path.length = levels.length + 1) :
    t.marks path = covered (level :: levels) size h path := by
  have hexact := hrep.2
  rw [if_pos hfull] at hexact
  exact hexact path hlength

theorem Represents.kids (hrep : Represents (level :: levels) size h t)
    (hfull : ¬ full level (size []) h = true) : KidsRepresent level levels size h t := by
  have hkids := hrep.2
  rwa [if_neg hfull] at hkids

/-! ## The marks of a tree that represents a history -/

theorem marks_eq_covered {i : Nat} (hmarked : (t [i]).marked = picked level (size []) h i)
    (hbelow : picked level (size []) h i = true -> marks (t.sub i) path =
      covered levels (size.sub i) (h.map (down level (size []) i)) path) :
    t.marks (i :: path) = covered (level :: levels) size h (i :: path) := by
  rw [marks, hmarked, ← covered_down]
  cases hpicked : picked level (size []) h i with
  | true => rw [Bool.true_and, hbelow hpicked]
  | false =>
    rw [Bool.false_and, covered_of_not_selected]
    rw [any_selected_down, hpicked]

theorem Represents.marks_eq (hrep : Represents levels size h t) (hsel : h.any selected = true)
    (hlength : path.length = levels.length) :
    t.marks path = covered levels size h path := by
  induction levels generalizing size h t path with
  | nil =>
    rw [length_eq_zero_iff.mp hlength, marks, covered, ← hsel]
    refine congrArg h.any (funext fun r => ?_)
    rw [covers, CpuFilter.selects, Bool.and_true]
  | cons level levels ih =>
    by_cases hfull : full level (size []) h = true
    · exact hrep.exact hfull hlength
    · have hkids := hrep.kids hfull
      cases path with
      | nil => cases hlength
      | cons i path =>
        refine marks_eq_covered (hkids i).1 fun hpicked => ?_
        refine ih (hkids i).2 ?_ (Nat.succ.inj hlength)
        rw [any_selected_down, hpicked]

theorem KidsRepresent.marks_eq (hkids : KidsRepresent level levels size h t)
    (hlength : path.length = levels.length + 1) :
    t.marks path = covered (level :: levels) size h path := by
  cases path with
  | nil => cases hlength
  | cons i path =>
    refine marks_eq_covered (hkids i).1 fun hpicked => ?_
    refine (hkids i).2.marks_eq ?_ (Nat.succ.inj hlength)
    rw [any_selected_down, hpicked]

/-! ## Places that a round passes over -/

theorem Represents.congr {t' : FilterTree} (hrep : Represents levels size h t)
    (hcount : (t' []).count = (t []).count) (hbelow : forall i path, t' (i :: path) = t
    (i :: path)) : Represents levels size h t' := by
  cases levels with
  | nil => trivial
  | cons level levels =>
    have hsub : forall i, t'.sub i = t.sub i := fun i => funext (hbelow i)
    have hmarks : forall path, t'.marks path = t.marks path := by
      intro path
      cases path with
      | nil => rfl
      | cons i path => rw [marks, marks, hsub, hbelow]
    unfold Represents at hrep ⊢
    simp only [hcount, hsub, hbelow, hmarks]
    exact hrep

theorem Represents.cons_of_full {r : Round} (hrep : Represents (level :: levels) size h t)
    (hfull : full level (size []) h = true)
    (hadds : forall path, r.covers (level :: levels) size path = true ->
      covered (level :: levels) size h path = true) :
    Represents (level :: levels) size (r :: h) t := by
  have hlater : full level (size []) (r :: h) = true := by
    rw [full, hfull, Bool.true_or]
  refine ⟨?_, ?_⟩
  · rw [hrep.1, hfull, hlater]
  · rw [if_pos hlater]
    intro path hlength
    rw [hrep.exact hfull hlength, covered_cons]
    cases hcovers : r.covers (level :: levels) size path with
    | false => rw [Bool.false_or]
    | true => rw [Bool.true_or, hadds path hcovers]

theorem Represents.cons_of_not_selected {r : Round} (hrep : Represents levels size h t)
    (hsel : (r :: h).any selected = false) : Represents levels size (r :: h) t := by
  induction levels generalizing size h r t with
  | nil => trivial
  | cons level levels ih =>
    have hearlier : h.any selected = false := by
      rw [any_cons, or_eq_false_iff] at hsel
      exact hsel.2
    have hfull : full level (size []) (r :: h) = full level (size []) h := by
      rw [full_of_not_selected hsel, full_of_not_selected hearlier]
    refine ⟨by rw [hrep.1, hfull], ?_⟩
    rw [hfull]
    by_cases hf : full level (size []) h = true
    · rw [if_pos hf]
      intro path hlength
      rw [hrep.exact hf hlength, covered_of_not_selected hsel, covered_of_not_selected hearlier]
    · have hkids := hrep.kids hf
      rw [if_neg hf]
      intro i
      refine ⟨?_, ?_⟩
      · rw [(hkids i).1, picked_of_not_selected hsel, picked_of_not_selected hearlier]
      · refine ih (hkids i).2 ?_
        rw [← map_cons, any_selected_down, picked_of_not_selected hsel]

/-! ## One round -/

def Bounded : List Level -> PathTree Nat -> Prop
  | [], _ => True
  | level :: levels, size => size [] ≤ level.limit ∧ forall i, Bounded levels (size.sub i)

def visitPlace (f : CpuFilter) (levels : List Level) (size : PathTree Nat) (i : Nat)
    (below : FilterTree) : Except FilterError FilterTree :=
  if (below []).marked = false ∨ (below []).count = size [i] then .ok below
  else parseLevels (f.tokens levels) (size.sub i) below

theorem parseLevels_cons (f : CpuFilter) (level : Level) (levels : List Level)
    (size : PathTree Nat) (t : FilterTree) :
    parseLevels (f.tokens (level :: levels)) size t =
      match markToken level (some (f.token level).text) (size []) t.kids with
      | .error e => .error e
      | .ok m => (t.setKids m).eachM (visitPlace f levels size) (range level.limit) := by
  rw [CpuFilter.tokens, map_cons, parseLevels]
  rfl

section

variable {level : Level} {levels : List Level} {size : PathTree Nat} {h : List Round} {r : Round}
  {t : FilterTree}

def marked (level : Level) (size : PathTree Nat) (r : Round) (t : FilterTree) : FilterTree :=
  t.setKids ⟨fun i => t.kids i || (r.filter.token level).picks (size []) i,
    (r.filter.token level).count level (size []) t.kids⟩

@[simp]
theorem marked_nil : marked level size r t [] =
    ⟨(t []).marked, (r.filter.token level).count level (size []) t.kids⟩ :=
  rfl

@[simp]
theorem marked_singleton (i : Nat) : marked level size r t [i] =
    ⟨t.kids i || (r.filter.token level).picks (size []) i, (t [i]).count⟩ :=
  rfl

section

variable (hkids : KidsRepresent level levels size h t)

include hkids

theorem KidsRepresent.kids_eq : t.kids = picked level (size []) h :=
  funext fun i => (hkids i).1

theorem KidsRepresent.marked_eq
    (hsize : size [] ≤ level.limit) (hextends : Extends level (size []) h r) (i : Nat) :
    (marked level size r t [i]).marked = picked level (size []) (r :: h) i := by
  rw [marked_singleton, hkids.kids_eq]
  cases hpicks : (r.filter.token level).picks (size []) i with
  | false => rw [picked_cons, picks, hpicks, Bool.and_false, Bool.false_or, Bool.or_false]
  | true =>
    have hlt : i < size [] := of_decide_eq_true (and_eq_true_iff.mp hpicks).1
    rw [hextends.2 i (hlt.trans_le hsize) hpicks, Bool.or_true]

theorem KidsRepresent.sub_marked (i : Nat) :
    Represents levels (size.sub i) (h.map (down level (size []) i))
      ((marked level size r t).sub i) :=
  (hkids i).2.congr rfl fun _ _ => rfl

end

theorem pos_of_not_full {s : Nat} (hfull : ¬ full level s h = true) : 0 < s := by
  refine pos_of_ne_zero fun hzero => hfull ?_
  induction h with
  | nil => exact decide_eq_true hzero
  | cons r h ih =>
    rw [full, or_eq_true]
    exact .inl (ih fun h' => hfull (by rw [full, h', Bool.true_or]))

theorem KidsRepresent.represents (hkids : KidsRepresent level levels size (r :: h) t)
    (hsel : (r :: h).any selected = true) (hfull : ¬ full level (size []) h = true)
    (hcount : (t []).count =
      (r.filter.token level).count level (size []) (picked level (size []) h)) :
    Represents (level :: levels) size (r :: h) t := by
  have hnow : full level (size []) (r :: h) = decide ((t []).count = size []) := by
    rw [full, hsel, Bool.not_eq_true _ |>.mp hfull, Bool.false_or, Bool.true_and, hcount]
  refine ⟨by rw [hnow, decide_eq_true_eq], ?_⟩
  split
  · exact fun path hlength => hkids.marks_eq hlength
  · exact hkids

theorem parseLevels_eq_ok_iff (hpos : 0 < size []) (hsize : size [] ≤ level.limit)
    {t' : FilterTree} :
    parseLevels (r.filter.tokens (level :: levels)) size t = .ok t' <->
      (r.filter.token level).Fits (size []) ∧ t' [] = marked level size r t [] ∧
        (forall i, i ∈ range level.limit ->
          visitPlace r.filter levels size i ((marked level size r t).sub i) = .ok (t'.sub i)) ∧
        forall i, i ∉ range level.limit -> t'.sub i = (marked level size r t).sub i := by
  rw [parseLevels_cons]
  by_cases hfits : (r.filter.token level).Fits (size [])
  · rw [Token.markToken_of_fits hpos hsize hfits, and_iff_right hfits]
    exact PathTree.eachM_eq_ok_iff nodup_range
  · rcases Token.markToken_of_not_fits hsize hfits t.kids with ⟨error, herror⟩
    rw [herror]
    exact ⟨fun h => (by cases h), fun h => absurd h.1 hfits⟩

theorem KidsRepresent.parseLevels (hpos : 0 < size []) (hsize : size [] ≤ level.limit)
    (hkids : KidsRepresent level levels size h t) (hextends : Extends level (size []) h r)
    (hvisit : forall i, i < level.limit -> exists below,
      visitPlace r.filter levels size i ((marked level size r t).sub i) = .ok below ∧
        (below []).marked = (marked level size r t [i]).marked ∧
        Represents levels (size.sub i) ((r :: h).map (down level (size []) i)) below) :
    exists t', parseLevels (r.filter.tokens (level :: levels)) size t = .ok t' ∧
      t' [] = marked level size r t [] ∧ KidsRepresent level levels size (r :: h) t' := by
  have hlimit : forall {i}, i ∈ range level.limit -> i < level.limit :=
    fun hi => mem_range.mp hi
  have hrun : exists t', (marked level size r t).eachM (visitPlace r.filter levels size)
      (range level.limit) = .ok t' :=
    PathTree.exists_eachM_ok nodup_range fun i hi => by
      rcases hvisit i (hlimit hi) with ⟨below, hbelow, _⟩
      exact ⟨below, hbelow⟩
  rcases hrun with ⟨t', ht'⟩
  have hloop := (PathTree.eachM_eq_ok_iff nodup_range).mp ht'
  refine ⟨t', (parseLevels_eq_ok_iff hpos hsize).mpr ⟨hextends.1, hloop⟩, hloop.1, fun i => ?_⟩
  rw [← hkids.marked_eq hsize hextends i]
  by_cases hi : i ∈ range level.limit
  · rcases hvisit i (hlimit hi) with ⟨below, hbelow, hmarked, hrep⟩
    have heq : t'.sub i = below := by
      have h := hloop.2.1 i hi
      rw [hbelow] at h
      exact (Except.ok.inj h).symm
    refine ⟨?_, heq ▸ hrep⟩
    exact (congrArg PlaceInfo.marked (congrFun heq [])).trans hmarked
  · -- the loop ends where the machine may
    have heq : t'.sub i = (marked level size r t).sub i := hloop.2.2 i hi
    have hpicked : picked level (size []) (r :: h) i = false := by
      rw [← not_eq_true]
      exact fun hp => hi (mem_range.mpr ((lt_of_picked hp).trans_le hsize))
    refine ⟨congrArg PlaceInfo.marked (congrFun heq []), ?_⟩
    rw [heq]
    refine (hkids.sub_marked i).cons_of_not_selected ?_
    rw [← map_cons, any_selected_down, hpicked]

theorem KidsRepresent.visit_not_picked (hsize : size [] ≤ level.limit)
    (hkids : KidsRepresent level levels size h t) (hextends : Extends level (size []) h r) {i : Nat}
    (hpicked : picked level (size []) (r :: h) i = false) :
    visitPlace r.filter levels size i ((marked level size r t).sub i) =
        .ok ((marked level size r t).sub i) ∧
      Represents levels (size.sub i) ((r :: h).map (down level (size []) i))
        ((marked level size r t).sub i) := by
  constructor
  · exact if_pos (.inl ((hkids.marked_eq hsize hextends i).trans hpicked))
  · refine (hkids.sub_marked i).cons_of_not_selected ?_
    rw [← map_cons, any_selected_down, hpicked]

end

theorem parseLevels_adds {level : Level} {levels : List Level} {size : PathTree Nat}
    {h : List Round} {r : Round} {t : FilterTree} (hbounded : Bounded (level :: levels) size)
    (hpos : 0 < size []) (hkids : KidsRepresent level levels size h t)
    (hadds : AddsTop level levels size h r) :
    exists t', parseLevels (r.filter.tokens (level :: levels)) size t = .ok t' ∧
      t' [] = marked level size r t [] ∧ KidsRepresent level levels size (r :: h) t' := by
  induction levels generalizing level size h r t with
  | nil =>
    refine hkids.parseLevels hpos hbounded.1 hadds.1 fun i _ => ?_
    refine ⟨(marked level size r t).sub i, ?_, rfl, trivial⟩
    exact ite_self _
  | cons next levels ih =>
    refine hkids.parseLevels hpos hbounded.1 hadds.1 fun i hi => ?_
    cases hpicked : picked level (size []) (r :: h) i with
    | false =>
      have hskip := hkids.visit_not_picked hbounded.1 hadds.1 hpicked
      exact ⟨_, hskip.1, rfl, hskip.2⟩
    | true =>
      have hrep := hkids.sub_marked (r := r) i
      have hbelow := hadds.2 i hi hpicked
      have hmarked := (hkids.marked_eq hbounded.1 hadds.1 i).trans hpicked
      by_cases hfull : full next (size [i]) (h.map (down level (size []) i)) = true
      · refine ⟨_, if_pos (.inr (hrep.1.mpr hfull)), rfl, ?_⟩
        refine hrep.cons_of_full hfull ?_
        rw [Adds] at hbelow
        exact (if_pos hfull).mp hbelow
      · have happly : ¬ ((marked level size r t [i]).marked = false ∨
            (marked level size r t [i]).count = size [i]) := by
          rw [hmarked]
          exact fun hor => hor.elim (by decide) fun hcount => hfull (hrep.1.mp hcount)
        have hkids' := hrep.kids hfull
        have hadds' : AddsTop next levels (size.sub i)
            (h.map (down level (size []) i)) (r.down level (size []) i) := by
          rw [Adds] at hbelow
          exact (if_neg hfull).mp hbelow
        rcases ih (hbounded.2 i) (pos_of_not_full hfull) hkids' hadds' with
          ⟨below, hrun, hroot, hkids''⟩
        refine ⟨below, (if_neg happly).trans hrun, by rw [hroot]; rfl, ?_⟩
        refine hkids''.represents ?_ hfull ?_
        · rw [← map_cons, any_selected_down, hpicked]
        · rw [hroot, marked_nil, hkids'.kids_eq]

end Htx.Hxemem64
