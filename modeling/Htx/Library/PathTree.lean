import Mathlib

/-!
# Trees of records

A tree whose nodes are addressed by paths of numbers and carry a record each: the record
at the root, and a subtree below every number.
-/

namespace Htx.Library

open List

def PathTree (α : Type*) : Type _ :=
  List Nat -> α

namespace PathTree

variable {α ε : Type*}

section

variable (t : PathTree α) (i : Nat)

def sub : PathTree α :=
  fun path => t (i :: path)

def put (below : PathTree α) : PathTree α
  | [] => t []
  | j :: path => if j = i then below path else t (j :: path)

@[simp]
theorem sub_apply (path : List Nat) : t.sub i path = t (i :: path) :=
  rfl

@[simp]
theorem sub_put_self (below : PathTree α) : (t.put i below).sub i = below := by
  funext path
  exact if_pos rfl

end

theorem sub_put_of_ne {i j : Nat} (h : j ≠ i) (t : PathTree α) (below : PathTree α) :
    (t.put i below).sub j = t.sub j := by
  funext path
  exact if_neg h

theorem ext_sub {t t' : PathTree α} (hroot : t [] = t' [])
    (hsub : forall i, t.sub i = t'.sub i) : t = t' := by
  funext path
  cases path with
  | nil => exact hroot
  | cons i path => exact congrFun (hsub i) path

def eachM (f : Nat -> PathTree α -> Except ε (PathTree α)) :
    List Nat -> PathTree α -> Except ε (PathTree α)
  | [], t => .ok t
  | i :: is, t =>
    match f i (t.sub i) with
    | .error e => .error e
    | .ok below => eachM f is (t.put i below)

variable {f : Nat -> PathTree α -> Except ε (PathTree α)}

theorem eachM_eq_ok_iff {is : List Nat} (hnodup : is.Nodup) {t t' : PathTree α} :
    eachM f is t = .ok t' <-> t' [] = t [] ∧ (forall i, i ∈ is -> f i (t.sub i) = .ok (t'.sub i)) ∧
        forall i, i ∉ is -> t'.sub i = t.sub i := by
  induction is generalizing t with
  | nil =>
    constructor
    · intro h
      cases h
      exact ⟨rfl, fun i hi => absurd hi not_mem_nil, fun _ _ => rfl⟩
    · intro h
      exact congrArg _ (ext_sub h.1.symm fun i => (h.2.2 i not_mem_nil).symm)
  | cons i is ih =>
    have hi : i ∉ is := (nodup_cons.mp hnodup).1
    have hlater : forall {below : PathTree α} {j : Nat}, j ∈ is ->
        (t.put i below).sub j = t.sub j := fun {below j} hj =>
      sub_put_of_ne (ne_of_mem_of_not_mem hj hi) t below
    rw [eachM]
    cases hbelow : f i (t.sub i) with
    | error e => simp [hbelow]
    | ok below =>
      dsimp only
      rw [ih (nodup_cons.mp hnodup).2]
      constructor
      · rintro ⟨hroot, hdone, hrest⟩
        refine ⟨hroot, fun j hj => ?_, fun j hj => ?_⟩
        · cases mem_cons.mp hj with
          | inl heq =>
            subst heq
            rw [hbelow, hrest j hi, sub_put_self]
          | inr hj => rw [← hdone j hj, hlater hj]
        · rw [hrest j (fun h => hj (mem_cons_of_mem _ h)), sub_put_of_ne (ne_of_not_mem_cons hj)]
      · rintro ⟨hroot, hdone, hrest⟩
        have hhead : below = t'.sub i := by
          have h := hdone i mem_cons_self
          rw [hbelow] at h
          exact Except.ok.inj h
        refine ⟨hroot, fun j hj => ?_, fun j hj => ?_⟩
        · rw [hlater hj]
          exact hdone j (mem_cons_of_mem _ hj)
        · by_cases heq : j = i
          · rw [heq, sub_put_self, hhead]
          · rw [sub_put_of_ne heq]
            exact hrest j fun h => (mem_cons.mp h).elim heq hj

theorem exists_eachM_ok {is : List Nat} (hnodup : is.Nodup) {t : PathTree α}
    (h : forall i, i ∈ is -> exists below, f i (t.sub i) = .ok below) :
    exists t', eachM f is t = .ok t' := by
  induction is generalizing t with
  | nil => exact ⟨t, rfl⟩
  | cons i is ih =>
    rcases h i mem_cons_self with ⟨below, hbelow⟩
    rw [eachM, hbelow]
    refine ih (nodup_cons.mp hnodup).2 fun j hj => ?_
    rw [sub_put_of_ne (ne_of_mem_of_not_mem hj (nodup_cons.mp hnodup).1)]
    exact h j (mem_cons_of_mem _ hj)

end PathTree
end Htx.Library
