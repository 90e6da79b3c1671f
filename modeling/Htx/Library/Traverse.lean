import Mathlib.Data.List.Forall2

/-!
# Partial functions along a list

Applying a partial function to every entry of a list, and what a result says
about the single entries.
-/

namespace Htx.Library

open List

variable {α β : Type*}

theorem mapM_eq_some_iff {f : α -> Option β} {xs : List α} {ys : List β} :
    xs.mapM f = some ys <-> Forall₂ (fun x y => f x = some y) xs ys := by
  induction xs generalizing ys with
  | nil =>
    cases ys with
    | nil | cons y ys => simp
  | cons x xs ih =>
    rw [mapM_cons]
    cases ys with
    | nil => simp [Option.bind_eq_some_iff]
    | cons y ys => simp [← ih, Option.bind_eq_some_iff]

theorem forall₂_exists_left {R : α -> β -> Prop} {xs : List α} {ys : List β}
    (h : Forall₂ R xs ys) {y : β} (hy : y ∈ ys) : exists x, x ∈ xs ∧ R x y := by
  induction h with
  | nil => cases hy
  | cons hxy _ ih =>
    cases hy with
    | head => exact ⟨_, mem_cons_self, hxy⟩
    | tail _ hy =>
      rcases ih hy with ⟨x, hx, hR⟩
      exact ⟨x, mem_cons_of_mem _ hx, hR⟩

theorem forall₂_exists_right {R : α -> β -> Prop} {xs : List α} {ys : List β}
    (h : Forall₂ R xs ys) {x : α} (hx : x ∈ xs) : exists y, y ∈ ys ∧ R x y :=
  forall₂_exists_left h.flip hx

theorem mapM_some (g : α -> β) (xs : List α) : xs.mapM (fun x => some (g x)) = some (xs.map g) := by
  rw [mapM_eq_some_iff, forall₂_map_right_iff]
  exact forall₂_same.mpr fun _ _ => rfl

/-!
# Choosing entries in turn
-/

theorem map_getD_range (xs : List α) (d : α) {n : Nat} (h : n ≤ xs.length) {f : Nat -> Nat}
    (hf : forall i, i < n -> f i = i) : (range n).map (fun i => xs.getD (f i) d) = xs.take n := by
  apply ext_getElem
  · simp [h]
  · intro i hi _
    simp only [length_map, length_range] at hi
    simp [hf i hi, getElem?_eq_getElem (Nat.lt_of_lt_of_le hi h)]

theorem map_getD_mod_range (xs : List α) (d : α) (hpos : 0 < xs.length) (n : Nat) :
    (range n).map (fun i => xs.getD (i % xs.length) d) =
      (replicate (n / xs.length) xs).flatten ++ xs.take (n % xs.length) := by
  induction n using Nat.strongRecOn with
  | _ n ih =>
    rcases Nat.lt_or_ge n xs.length with hlt | hge
    · rw [Nat.div_eq_of_lt hlt, Nat.mod_eq_of_lt hlt]
      exact map_getD_range xs d (Nat.le_of_lt hlt) fun i hi =>
        Nat.mod_eq_of_lt (Nat.lt_trans hi hlt)
    · obtain ⟨m, rfl⟩ := Nat.exists_eq_add_of_le hge
      have hfirst := map_getD_range xs d (Nat.le_refl _) fun i hi => Nat.mod_eq_of_lt hi
      rw [range_add, map_append, hfirst, take_length, map_map,
        Nat.add_div_left m hpos, Nat.add_mod_left, replicate_succ,
        flatten_cons, append_assoc, ← ih m (by omega)]
      congr 1
      apply map_congr_left
      intro i _
      simp

theorem countP_mod_range (p : α -> Bool) (xs : List α) (d : α) (hpos : 0 < xs.length) (n : Nat) :
    ((range n).map (fun i => xs.getD (i % xs.length) d)).countP p =
      xs.countP p * (n / xs.length) + (xs.take (n % xs.length)).countP p := by
  rw [map_getD_mod_range xs d hpos, countP_append, countP_flatten]
  simp [Nat.mul_comm]

theorem countP_min_range (p : α -> Bool) (xs : List α) (d : α) (n : Nat) :
    ((range n).map (fun i => xs.getD (min i (xs.length - 1)) d)).countP p =
      (xs.take n).countP p +
        if p (xs.getD (xs.length - 1) d) then n - xs.length else 0 := by
  have hbefore : forall i, i < xs.length -> min i (xs.length - 1) = i :=
    fun i hi => Nat.min_eq_left (by omega)
  rcases Nat.le_total n xs.length with hle | hge
  · rw [map_getD_range xs d hle fun i hi => hbefore i (Nat.lt_of_lt_of_le hi hle),
      Nat.sub_eq_zero_of_le hle, ite_self, Nat.add_zero]
  · obtain ⟨m, rfl⟩ := Nat.exists_eq_add_of_le hge
    have hfirst := map_getD_range xs d (Nat.le_refl _) hbefore
    have hrest : (range m).map
        ((fun i => xs.getD (min i (xs.length - 1)) d) ∘ (xs.length + ·)) =
          replicate m (xs.getD (xs.length - 1) d) := by
      rw [eq_replicate_iff]
      constructor
      · simp
      · intro y hy
        rcases mem_map.mp hy with ⟨i, _, rfl⟩
        show xs.getD (min (xs.length + i) (xs.length - 1)) d = _
        rw [Nat.min_eq_right (by omega)]
    rw [range_add, map_append, hfirst, take_length, map_map, hrest, countP_append,
      countP_replicate, take_of_length_le (Nat.le_add_right _ _),
      Nat.add_sub_cancel_left]

end Htx.Library
