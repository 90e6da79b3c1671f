import Mathlib

/-!
# Chunks of a span

A span of `total` places is gone through in strides: a chunk of at most `size` places
starts at every multiple of `step`.  The last chunk is cut off at the end of the span.
-/

namespace Htx.Library

open Nat

structure Strides where
  total : Nat
  size : Nat
  step : Nat
  total_pos : 0 < total
  size_pos : 0 < size
  size_le_step : size ≤ step

namespace Strides

variable (s : Strides)

theorem step_pos : 0 < s.step :=
  s.size_pos.trans_le s.size_le_step

def count : Nat :=
  (s.total - 1) / s.step + 1

def len (k : Nat) : Nat :=
  min s.size (s.total - k * s.step)

theorem count_pos : 0 < s.count :=
  succ_pos _

theorem lt_count_iff {k : Nat} : k < s.count <-> k * s.step < s.total := by
  have htotal := s.total_pos
  unfold count
  rw [Nat.lt_succ_iff, Nat.le_div_iff_mul_le s.step_pos]
  omega

theorem len_pos {k : Nat} (h : k < s.count) : 0 < s.len k := by
  have hstart := s.lt_count_iff.mp h
  have hsize := s.size_pos
  unfold len
  omega

theorem len_le (k : Nat) : s.len k ≤ s.total - k * s.step :=
  min_le_right _ _

theorem len_eq_of_short {k : Nat} (hshort : s.len k < s.size) : s.len k = s.total - k * s.step := by
  unfold len at hshort ⊢
  omega

theorem count_eq_of_short {k : Nat} (h : k < s.count) (hshort : s.len k < s.size) :
    k + 1 = s.count := by
  have hnext : ¬ k + 1 < s.count := by
    rw [s.lt_count_iff, add_mul, one_mul]
    have hstep := s.size_le_step
    unfold len at hshort
    omega
  omega

theorem count_eq_ceil : s.count = s.total / s.step + if s.total % s.step ≠ 0 then 1 else 0 := by
  have hsucc := @Nat.succ_div (s.total - 1) s.step
  simp only [Nat.sub_add_cancel s.total_pos, Nat.dvd_iff_mod_eq_zero] at hsucc
  rw [count, hsucc]
  by_cases hzero : s.total % s.step = 0
  · rw [if_pos hzero, if_neg (not_not.mpr hzero)]
  · rw [if_neg hzero, if_pos hzero]

theorem mem_chunk_iff (hgap : s.step = s.size) {k x : Nat} (hx : x < s.total) :
    (k * s.step ≤ x ∧ x < k * s.step + s.len k) <-> k = x / s.step := by
  rw [eq_comm, Nat.div_eq_iff s.step_pos]
  have hsize := s.size_pos
  unfold len
  rw [hgap]
  omega

theorem div_lt_count {x : Nat} (hx : x < s.total) : x / s.step < s.count := by
  rw [s.lt_count_iff]
  exact (div_mul_le_self x s.step).trans_lt hx

theorem succ_mod_count (i : Nat) :
    (i + 1) % s.count = if i % s.count + 1 = s.count then 0 else i % s.count + 1 := by
  have hlt := mod_lt i s.count_pos
  rw [add_mod]
  split
  · next heq =>
      by_cases hone : s.count = 1
      · rw [hone, mod_one]
      · rw [mod_eq_of_lt (show 1 < s.count by omega), heq, mod_self]
  · next hne =>
      rw [mod_eq_of_lt (show 1 < s.count by omega), mod_eq_of_lt (by omega)]

end Strides
end Htx.Library
