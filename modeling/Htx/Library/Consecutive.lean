import Mathlib

/-!
# Consecutive intervals

Finitely many intervals of numbers, each beginning where the one before has ended.
-/

namespace Htx.Library

open Nat

structure Consecutive (n : Nat) (lower upper : Nat -> Nat) (first last : Nat) : Prop where
  pos : 0 < n
  lower_zero : lower 0 = first
  lower_le_upper : forall i, i < n -> lower i ≤ upper i
  lower_succ : forall i, i + 1 < n -> lower (i + 1) = upper i + 1
  upper_last : upper (n - 1) = last

namespace Consecutive

variable {n first last : Nat} {lower upper : Nat -> Nat}

section

variable (h : Consecutive n lower upper first last)

include h

theorem upper_lt_lower {i j : Nat} (hij : i < j) (hj : j < n) : upper i < lower j := by
  induction j with
  | zero => exact absurd hij (not_lt_zero i)
  | succ j ih =>
    rw [h.lower_succ j hj]
    rcases lt_or_eq_of_le (le_of_lt_succ hij) with hlt | rfl
    · have hprev := ih hlt (lt_of_succ_lt hj)
      exact lt_succ_of_lt (hprev.trans_le (h.lower_le_upper j (lt_of_succ_lt hj)))
    · exact lt_succ_self _

theorem first_le_lower {i : Nat} (hi : i < n) : first ≤ lower i := by
  cases i with
  | zero => exact le_of_eq h.lower_zero.symm
  | succ i =>
    rw [← h.lower_zero]
    exact (h.lower_le_upper 0 h.pos).trans (h.upper_lt_lower (succ_pos i) hi).le

theorem upper_le_last {i : Nat} (hi : i < n) : upper i ≤ last := by
  rcases lt_or_eq_of_le (le_sub_one_of_lt hi) with hlt | rfl
  · have hend : n - 1 < n := sub_one_lt_of_lt hi
    rw [← h.upper_last]
    exact (h.upper_lt_lower hlt hend).le.trans (h.lower_le_upper _ hend)
  · exact le_of_eq h.upper_last

theorem mem_iff (x : Nat) :
    (exists i, i < n ∧ lower i ≤ x ∧ x ≤ upper i) <-> first ≤ x ∧ x ≤ last := by
  constructor
  · rintro ⟨i, hi, hlow, hup⟩
    exact ⟨(h.first_le_lower hi).trans hlow, hup.trans (h.upper_le_last hi)⟩
  · rintro ⟨hfirst, hlast⟩
    -- the last interval that begins at or before `x`
    have hall : forall i, i < n -> lower i ≤ x ->
        exists j, j < n ∧ lower j ≤ x ∧ x ≤ upper j := by
      intro i hi
      induction hk : n - 1 - i generalizing i with
      | zero =>
        intro hlow
        refine ⟨i, hi, hlow, ?_⟩
        have hend : i = n - 1 := by omega
        rw [hend, h.upper_last]
        exact hlast
      | succ k ih =>
        intro hlow
        by_cases hup : x ≤ upper i
        · exact ⟨i, hi, hlow, hup⟩
        · have hnext : i + 1 < n := by omega
          refine ih (i + 1) hnext (by omega) ?_
          rw [h.lower_succ i hnext]
          exact Nat.lt_of_not_le hup
    exact hall 0 h.pos (h.lower_zero.trans_le hfirst)

end

end Consecutive

end Htx.Library
