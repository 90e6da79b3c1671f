import Mathlib

/-!
# Shares

A total is shared out among `n` parties: everybody gets the quotient, and the first ones
one more until the remainder is used up.  Laid out one after another, the shares tile
the numbers below the total.
-/

namespace Htx.Library

def share (total n t : Nat) : Nat :=
  total / n + if t < total % n then 1 else 0

def sharesBefore (total n t : Nat) : Nat :=
  t * (total / n) + min t (total % n)

@[simp]
theorem sharesBefore_zero (total n : Nat) : sharesBefore total n 0 = 0 := by
  simp [sharesBefore]

theorem sharesBefore_succ (total n t : Nat) :
    sharesBefore total n (t + 1) = sharesBefore total n t + share total n t := by
  have hmin : min (t + 1) (total % n) = min t (total % n) + if t < total % n then 1 else 0 := by
    split <;> omega
  rw [sharesBefore, sharesBefore, share, hmin, Nat.succ_mul]
  omega

theorem sharesBefore_self {total n : Nat} (hn : 0 < n) : sharesBefore total n n = total := by
  rw [sharesBefore, min_eq_right (Nat.mod_lt total hn).le, Nat.div_add_mod]

theorem sharesBefore_mono (total n : Nat) {t t' : Nat} (h : t ≤ t') :
    sharesBefore total n t ≤ sharesBefore total n t' :=
  Nat.add_le_add (Nat.mul_le_mul_right _ h) (min_le_min_right _ h)

theorem sharesBefore_add_lt {total n t i : Nat} (ht : t < n) (hi : i < share total n t) :
    sharesBefore total n t + i < total := by
  calc sharesBefore total n t + i < sharesBefore total n (t + 1) := by
        rw [sharesBefore_succ]
        omega
    _ ≤ sharesBefore total n n := sharesBefore_mono total n ht
    _ = total := sharesBefore_self (Nat.zero_lt_of_lt ht)

theorem sharesBefore_add_inj {total n t t' i i' : Nat} (hi : i < share total n t)
    (hi' : i' < share total n t')
    (h : sharesBefore total n t + i = sharesBefore total n t' + i') : t = t' ∧ i = i' := by
  have hnot : forall {t t' i i' : Nat}, i < share total n t ->
      sharesBefore total n t + i = sharesBefore total n t' + i' -> ¬ t < t' := by
    intro t t' i i' hi h hlt
    have hle := sharesBefore_mono total n (Nat.succ_le_of_lt hlt)
    rw [Nat.succ_eq_add_one, sharesBefore_succ] at hle
    omega
  have ht : t = t' :=
    le_antisymm (Nat.le_of_not_lt (hnot hi' h.symm)) (Nat.le_of_not_lt (hnot hi h))
  subst ht
  exact ⟨rfl, add_left_cancel h⟩

theorem exists_share {total n x : Nat} (hn : 0 < n) (hx : x < total) :
    exists t i, t < n ∧ i < share total n t ∧ x = sharesBefore total n t + i := by
  have hfirst : exists t, x < sharesBefore total n (t + 1) :=
    ⟨n - 1, by rwa [Nat.sub_add_cancel hn, sharesBefore_self hn]⟩
  classical
  have hlt := Nat.find_spec hfirst
  have hge : sharesBefore total n (Nat.find hfirst) ≤ x := by
    cases ht : Nat.find hfirst with
    | zero => simp
    | succ t => exact Nat.le_of_not_lt (Nat.find_min hfirst (by omega))
  refine ⟨Nat.find hfirst, x - sharesBefore total n (Nat.find hfirst), ?_, ?_, by omega⟩
  · by_contra hge'
    have hmono := sharesBefore_mono total n (Nat.le_of_not_lt hge')
    rw [sharesBefore_self hn] at hmono
    omega
  · rw [sharesBefore_succ] at hlt
    omega

end Htx.Library
