import Htx.Hxemem64.FabricBus

/-!
# Every CPU across the bus

The segments are always numbered right.  Whether the CPUs work across the bus depends on where
the searches end: each goes over the chips modulo the end of a node, which leads to chip 0 of
the machine and not back to the node.
-/

namespace Htx.Hxemem64

open List Filter

/-!
# The map
-/

namespace FabSystem

variable (m : FabSystem)

def InNode (n k : Nat) : Prop :=
  n < m.nodes.length ∧ m.startChip n ≤ k ∧ k < m.nodeEnd n

def Across (oper : FabOper) (a b : Nat) : Prop :=
  0 < m.memAvail b ∧
    match oper with
    | .intraNode => a ≠ b ∧ exists n, m.InNode n a ∧ m.InNode n b
    | .interNode => exists n n', n ≠ n' ∧ m.InNode n a ∧ m.InNode n' b

/-- For a CPU of chip `a` a chip across the bus if there is one, and none if not. -/
def Fits (oper : FabOper) (a : Nat) : Option Nat -> Prop
  | some b => m.Across oper a b
  | none => forall b, ¬ m.Across oper a b

end FabSystem

namespace Fab

def chipOf (fab : Fab) (cpu : Nat) : Option Nat :=
  (fab.destChip cpu).map Prod.fst

def Booked (fab : Fab) : Prop :=
  (forall cpu cpu' seg, fab.destChip cpu = some seg -> fab.destChip cpu' = some seg ->
    cpu = cpu') ∧
  forall k i, (exists cpu, fab.destChip cpu = some (k, i)) <-> i < fab.segsPerChip k

end Fab

namespace Fab

variable {fab : Fab}

theorem destChip_assign {cpu : Nat} (hnone : fab.destChip cpu = none) (pick : Option Nat)
    (c : Nat) : (fab.assign cpu pick).destChip c =
      if c = cpu then pick.map fun k => (k, fab.segsPerChip k) else fab.destChip c := by
  cases pick with
  | none => grind [assign]
  | some k => exact Function.update_apply _ _ _ _

theorem Booked.assign (h : fab.Booked) {cpu : Nat} (hnone : fab.destChip cpu = none)
    (pick : Option Nat) : (fab.assign cpu pick).Booked := by
  cases pick with
  | none => exact h
  | some k =>
    have hdest := destChip_assign hnone (some k)
    have hsegs : forall k', (fab.assign cpu (some k)).segsPerChip k' =
        if k' = k then fab.segsPerChip k + 1 else fab.segsPerChip k' :=
      Function.update_apply _ _ _
    -- the number of the next segment is not in use
    have hfree : forall c, fab.destChip c ≠ some (k, fab.segsPerChip k) := fun c hc =>
      lt_irrefl _ ((h.2 k (fab.segsPerChip k)).mp ⟨c, hc⟩)
    constructor
    · intro c c' seg hc hc'
      have hold := h.1 c c' seg
      grind
    · intro k' i
      have hold := h.2 k' i
      rw [hsegs]
      constructor
      · rintro ⟨c, hc⟩
        grind
      · intro hlt
        by_cases hi : i < fab.segsPerChip k'
        · obtain ⟨c, hc⟩ := hold.mpr hi
          exact ⟨c, by grind⟩
        · exact ⟨cpu, by grind⟩

end Fab

/-!
# The search
-/

namespace FabSystem

section Search

variable (m : FabSystem) (own : Option Nat) (n : Nat)

/-- The chip after `d` steps from `k`. -/
def place (k d : Nat) : Nat :=
  if d = 0 then k else (k + d) % m.nodeEnd n

/-- What `d` steps from `k` are counted as. -/
def counted (k d : Nat) : Nat :=
  d + (range d).countP fun i => own = some ((k + i + 1) % m.nodeEnd n)

/-- The search from `k`, with `count` so far, ends after `d` steps. -/
def Ends (count k d : Nat) (found : Nat × Bool) : Prop :=
  (forall i, i < d -> 0 < m.nodeEnd n ∧
    m.halted n (count + m.counted own n k i) (m.place n k i) = none) ∧
  m.halted n (count + m.counted own n k d) (m.place n k d) = some found

variable {m own n} {count k : Nat} {found : Nat × Bool}

end Search

/-!
# The loops
-/

section Loops

variable (m : FabSystem) (oper : FabOper) {σ : Type}

/-- A part of the loops gives segments to the CPUs in `jobs`, each with its chip, and leaves
the others alone.  It comes to an end and picks what fits exactly if `fits`. -/
def Books (jobs : List (Nat × Nat)) (fits : Prop) (fab : Fab) : Except FabStop Fab -> Prop
  | .error _ => ¬ fits
  | .ok fab' => (jobs.map Prod.snd).Nodup ->
    (forall j, j ∈ jobs -> fab.destChip j.2 = none) ->
    (fab.Booked -> fab'.Booked) ∧
    (forall cpu, cpu ∉ jobs.map Prod.snd -> fab'.destChip cpu = fab.destChip cpu) ∧
    ((forall j, j ∈ jobs -> m.Fits oper j.1 (fab'.chipOf j.2)) <-> fits)

/-- For `c` CPUs of chip `a` in turn, from `place` on, what is picked fits. -/
def Walk (a : Nat) (picks : σ -> Option Nat × σ -> Prop) : Nat -> σ -> Prop
  | 0, _ => True
  | c + 1, place => exists next, picks place next ∧ m.Fits oper a next.1 ∧
      Walk a picks c next.2

variable {m oper} {a : Nat} {fab : Fab}

theorem Books.bind {jobs jobs' : List (Nat × Nat)} {fits fits' : Prop} {r : Except FabStop Fab}
    {f : Fab -> Except FabStop Fab} (h : m.Books oper jobs fits fab r)
    (h' : forall fab, m.Books oper jobs' fits' fab (f fab)) :
    m.Books oper (jobs ++ jobs') (fits ∧ fits') fab (r.bind f) := by
  cases r with
  | error e => exact fun hfits => h hfits.1
  | ok fab₁ =>
    have h' := h' fab₁
    show m.Books oper _ _ _ (f fab₁)
    cases hf : f fab₁ with
    | error e =>
      rw [hf] at h'
      exact fun hfits => h' hfits.2
    | ok fab₂ =>
      rw [hf] at h'
      intro hnodup hfree
      rw [map_append, nodup_append'] at hnodup
      obtain ⟨hnodup₁, hnodup₂, hdisjoint⟩ := hnodup
      obtain ⟨hbooked₁, hkept₁, hfits₁⟩ :=
        h hnodup₁ fun j hj => hfree j (mem_append_left _ hj)
      obtain ⟨hbooked₂, hkept₂, hfits₂⟩ := h' hnodup₂ fun j hj => by
        rw [hkept₁ j.2 fun hmem => hdisjoint hmem (mem_map_of_mem hj)]
        exact hfree j (mem_append_right _ hj)
      refine ⟨hbooked₂ ∘ hbooked₁, fun cpu hcpu => ?_, ?_⟩
      · rw [map_append, mem_append, not_or] at hcpu
        exact (hkept₂ cpu hcpu.2).trans (hkept₁ cpu hcpu.1)
      · rw [forall_mem_append, hfits₂, ← hfits₁]
        refine and_congr_left fun _ => forall₂_congr fun j hj => ?_
        unfold Fab.chipOf
        rw [hkept₂ j.2 fun hmem => hdisjoint (mem_map_of_mem hj) hmem]

/-- The CPUs of `c` chips from chip `a` on. -/
def jobs (m : FabSystem) (a c : Nat) : List (Nat × Nat) :=
  (range' a c).flatMap fun b => (m.cpus b).map (b, ·)

variable (start : Nat -> Nat -> Nat -> Except FabStop σ)
  (target : Nat -> Nat -> Nat -> σ -> Except FabStop (Option Nat × σ)) (chips : List (Nat × Nat))

theorem Walk.imp {picks picks' : σ -> Option Nat × σ -> Prop}
    (h : forall place next, picks place next -> picks' place next) {c : Nat} {place : σ}
    (hwalk : m.Walk oper a picks c place) : m.Walk oper a picks' c place := by
  induction c generalizing place with
  | zero => trivial
  | succ c ih =>
    obtain ⟨next, hnext, hfits, hrest⟩ := hwalk
    exact ⟨next, h place next hnext, hfits, ih hrest⟩

/-- Given time, `target` comes to what is picked. -/
def Settles (target : Nat -> σ -> Except FabStop (Option Nat × σ))
    (picks : σ -> Option Nat × σ -> Prop) : Prop :=
  forall place next, (forall fuel, target fuel place = .ok next -> picks place next) ∧
    (picks place next -> ∀ᶠ fuel in atTop, target fuel place = .ok next)

end Loops

section Condition

variable (m : FabSystem)

variable {m}

end Condition

end FabSystem

end Htx.Hxemem64
