import Htx.Hxemem64.FilterText

/-!
# What the filters so far stand for

A filter stands for the CPUs whose node, chip, core and thread its four tokens pick.  Seen
from a place of the machine, every filter is a round: it has selected the place or not,
and its tokens for the levels below follow.
-/

namespace Htx.Hxemem64

open Library

def CpuFilter.selects (f : CpuFilter) : List Level -> PathTree Nat -> List Nat -> Bool
  | [], _, [] => true
  | level :: levels, size, i :: path =>
    (f.token level).picks (size []) i && f.selects levels (size.sub i) path
  | _, _, _ => false

structure Round where
  selected : Bool
  filter : CpuFilter

namespace Round

def picks (level : Level) (size : Nat) (r : Round) (i : Nat) : Bool :=
  r.selected && (r.filter.token level).picks size i

def down (level : Level) (size : Nat) (i : Nat) (r : Round) : Round :=
  ⟨r.picks level size i, r.filter⟩

def covers (levels : List Level) (size : PathTree Nat) (r : Round) (path : List Nat) : Bool :=
  r.selected && r.filter.selects levels size path

end Round

def picked (level : Level) (size : Nat) (h : List Round) (i : Nat) : Bool :=
  h.any fun r => r.picks level size i

def covered (levels : List Level) (size : PathTree Nat) (h : List Round) (path : List Nat) :
    Bool :=
  h.any fun r => r.covers levels size path

def full (level : Level) (size : Nat) : List Round -> Bool
  | [] => decide (size = 0)
  | r :: h =>
    full level size h ||
      ((r :: h).any Round.selected &&
        decide ((r.filter.token level).count level size (picked level size h) = size))

def Extends (level : Level) (size : Nat) (h : List Round) (r : Round) : Prop :=
  (r.filter.token level).Fits size ∧
    forall i, i < level.limit -> (r.filter.token level).picks size i = true ->
      picked level size (r :: h) i = true

/-- A round at a place that some round has selected: if the place is full, the round has
nothing to add below; otherwise its token extends the marks, and so it goes on below. -/
def Adds : List Level -> PathTree Nat -> List Round -> Round -> Prop
  | [], _, _, _ => True
  | level :: levels, size, h, r =>
    if full level (size []) h = true then
      forall path, r.covers (level :: levels) size path = true ->
        covered (level :: levels) size h path = true
    else
      Extends level (size []) h r ∧
        forall i, i < level.limit -> picked level (size []) (r :: h) i = true ->
          Adds levels (size.sub i) (h.map (Round.down level (size []) i)) (r.down level (size []) i)

def AddsTop (level : Level) (levels : List Level) (size : PathTree Nat) (h : List Round)
    (r : Round) : Prop :=
  Extends level (size []) h r ∧
    forall i, i < level.limit -> picked level (size []) (r :: h) i = true ->
      Adds levels (size.sub i) (h.map (Round.down level (size []) i)) (r.down level (size []) i)

def SteadyFrom (size : PathTree Nat) : List Round -> List CpuFilter -> Prop
  | _, [] => True
  | h, f :: fs =>
    AddsTop .node [.chip, .core, .thread] size h ⟨true, f⟩ ∧ SteadyFrom size (⟨true, f⟩ :: h) fs

/-! ## Deciding it -/

def positions : List Level -> PathTree Nat -> List (List Nat)
  | [], _ => [[]]
  | _ :: levels, size =>
    (List.range (size [])).flatMap fun i => (positions levels (size.sub i)).map (i :: ·)

theorem CpuFilter.mem_positions {f : CpuFilter} {levels : List Level} {size : PathTree Nat}
    {path : List Nat} (h : f.selects levels size path = true) : path ∈ positions levels size := by
  induction levels generalizing size path with
  | nil =>
    cases path with
    | nil => exact List.mem_singleton.mpr rfl
    | cons i path => cases h
  | cons level levels ih =>
    cases path with
    | nil => cases h
    | cons i path =>
      rw [selects, Bool.and_eq_true, Token.picks, Bool.and_eq_true] at h
      exact List.mem_flatMap.mpr ⟨i, List.mem_range.mpr (of_decide_eq_true h.1.1),
        List.mem_map.mpr ⟨path, ih h.2, rfl⟩⟩

instance (size : Nat) (e : Entry) : Decidable (e.Fits size) :=
  match e with
  | .single n => inferInstanceAs (Decidable (n.value < size))
  | .range r => inferInstanceAs (Decidable (r.last.value < size ∧
      r.first.text.length + r.last.text.length < 7))
  | .percent _ => inferInstanceAs (Decidable True)

instance (size : Nat) (t : Token) : Decidable (t.Fits size) :=
  match t with
  | .all => inferInstanceAs (Decidable True)
  | .number n => inferInstanceAs (Decidable (n.value < size))
  | .list e es => inferInstanceAs (Decidable ((e :: es).length < 16 ∧
      forall e', e' ∈ e :: es -> e'.Fits size))
  | .percent _ => inferInstanceAs (Decidable True)

instance (level : Level) (size : Nat) (h : List Round) (r : Round) :
    Decidable (Extends level size h r) :=
  inferInstanceAs (Decidable (_ ∧ _))

theorem covers_positions_iff {levels : List Level} {size : PathTree Nat} {h : List Round}
    {r : Round} :
    (forall path, path ∈ positions levels size -> r.covers levels size path = true ->
        covered levels size h path = true) <->
      forall path, r.covers levels size path = true -> covered levels size h path = true := by
  constructor
  · intro hall path hcovers
    exact hall path (CpuFilter.mem_positions (Bool.and_eq_true_iff.mp hcovers).2) hcovers
  · exact fun hall path _ => hall path

instance decidableAdds : (levels : List Level) -> (size : PathTree Nat) -> (h : List Round) ->
    (r : Round) -> Decidable (Adds levels size h r)
  | [], _, _, _ => inferInstanceAs (Decidable True)
  | level :: levels, size, h, r =>
    have : forall i, Decidable (Adds levels (size.sub i)
        (h.map (Round.down level (size []) i)) (r.down level (size []) i)) :=
      fun i => decidableAdds levels (size.sub i) _ _
    have : Decidable (forall path, r.covers (level :: levels) size path = true ->
        covered (level :: levels) size h path = true) :=
      decidable_of_iff _ covers_positions_iff
    inferInstanceAs (Decidable (if full level (size []) h = true then _ else _))

instance (level : Level) (levels : List Level) (size : PathTree Nat) (h : List Round)
    (r : Round) : Decidable (AddsTop level levels size h r) :=
  inferInstanceAs (Decidable (_ ∧ _))

instance decidableSteadyFrom (size : PathTree Nat) : (h : List Round) -> (fs : List CpuFilter) ->
    Decidable (SteadyFrom size h fs)
  | _, [] => inferInstanceAs (Decidable True)
  | h, f :: fs =>
    have : Decidable (SteadyFrom size (⟨true, f⟩ :: h) fs) :=
      decidableSteadyFrom size (⟨true, f⟩ :: h) fs
    inferInstanceAs (Decidable (_ ∧ _))

end Htx.Hxemem64
