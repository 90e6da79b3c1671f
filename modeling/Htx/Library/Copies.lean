import Mathlib

/-!
# Copies around an address

Bytes copied to places before and behind a given address.  A sequence of copies fills a range
when the range ends up with given bytes, whatever the memory held before, and nothing else
changes.
-/

namespace Htx.Library

open List

structure Copy where
  offset : Int
  bytes : List UInt8
  deriving DecidableEq

namespace Copy

def apply (w : Copy) (m : Int -> UInt8) : Int -> UInt8 := fun i =>
  if w.offset ≤ i then (w.bytes[(i - w.offset).toNat]?).getD (m i) else m i

def Covers (w : Copy) (i : Int) : Prop :=
  w.offset ≤ i ∧ i < w.offset + w.bytes.length

def applyAll (ws : List Copy) (m : Int -> UInt8) : Int -> UInt8 :=
  ws.foldl (fun m w => w.apply m) m

def Covered (ws : List Copy) (i : Int) : Prop :=
  exists w, w ∈ ws ∧ w.Covers i

open Copy

def Fills (ws : List Copy) (data : List UInt8) : Prop :=
  forall m, applyAll ws m = (mk 0 data).apply m

def consecutive : Int -> List (List UInt8) -> List Copy
  | _, [] => []
  | a, bs :: rest => ⟨a, bs⟩ :: consecutive (a + bs.length) rest

section

variable {w : Copy} {ws vs : List Copy} {m m' : Int -> UInt8} {i : Int} {data : List UInt8}

theorem apply_of_not_covers (h : ¬ w.Covers i) : w.apply m i = m i := by
  unfold apply
  split
  · next hle =>
      have hlen : w.bytes.length ≤ (i - w.offset).toNat := by
        unfold Covers at h
        omega
      rw [getElem?_eq_none hlen, Option.getD_none]
  · rfl

theorem apply_of_covers (h : w.Covers i) : w.bytes[(i - w.offset).toNat]? = some (w.apply m i) := by
  have hlen : (i - w.offset).toNat < w.bytes.length := by
    unfold Covers at h
    omega
  unfold apply
  rw [if_pos h.1, getElem?_eq_getElem hlen, Option.getD_some]

theorem apply_eq_of_covers (h : w.Covers i) (m m' : Int -> UInt8) : w.apply m i = w.apply m' i :=
  Option.some.inj ((apply_of_covers h).symm.trans (apply_of_covers h))

@[simp] theorem applyAll_nil : applyAll [] m = m :=
  rfl

@[simp] theorem applyAll_cons : applyAll (w :: ws) m = applyAll ws (w.apply m) :=
  rfl

theorem applyAll_append : applyAll (ws ++ vs) m = applyAll vs (applyAll ws m) :=
  foldl_append

theorem covered_cons : Covered (w :: ws) i <-> w.Covers i ∨ Covered ws i := by
  simp [Covered]

theorem applyAll_of_not_covered (h : ¬ Covered ws i) : applyAll ws m i = m i := by
  induction ws generalizing m with
  | nil => rfl
  | cons w ws ih =>
    rw [covered_cons, not_or] at h
    rw [applyAll_cons, ih h.2, apply_of_not_covers h.1]

theorem applyAll_congr (h : m i = m' i) : applyAll ws m i = applyAll ws m' i := by
  induction ws generalizing m m' with
  | nil => exact h
  | cons w ws ih =>
    rw [applyAll_cons, applyAll_cons]
    apply ih
    by_cases hw : w.Covers i
    · exact apply_eq_of_covers hw m m'
    · rw [apply_of_not_covers hw, apply_of_not_covers hw, h]

theorem applyAll_eq_of_covered (h : Covered ws i) (m m' : Int -> UInt8) :
    applyAll ws m i = applyAll ws m' i := by
  induction ws generalizing m m' with
  | nil =>
    obtain ⟨w, hw, _⟩ := h
    cases hw
  | cons w ws ih =>
    by_cases hw : w.Covers i
    · rw [applyAll_cons, applyAll_cons]
      exact applyAll_congr (apply_eq_of_covers hw m m')
    · exact ih ((covered_cons.mp h).resolve_left hw) _ _

theorem Fills.covered_iff (h : Fills ws data) : Covered ws i <-> (mk 0 data).Covers i := by
  have hzero := congrFun (h fun _ => 0) i
  have hone := congrFun (h fun _ => 1) i
  constructor
  · intro hcovered
    by_contra hnot
    rw [apply_of_not_covers hnot] at hzero hone
    have heq := applyAll_eq_of_covered hcovered (fun _ => 0) (fun _ => 1)
    rw [hzero, hone] at heq
    exact absurd heq (by decide)
  · intro hcovers
    by_contra hnot
    rw [applyAll_of_not_covered hnot] at hzero hone
    have heq := apply_eq_of_covers hcovers (fun _ => 0) (fun _ => 1)
    rw [← hzero, ← hone] at heq
    exact absurd heq (by decide)

theorem apply_append (a : Int) (bs cs : List UInt8) : (mk a (bs ++ cs)).apply m =
      (mk (a + bs.length) cs).apply ((mk a bs).apply m) := by
  funext i
  unfold apply
  simp only [getElem?_append]
  grind

@[simp] theorem apply_nil (a : Int) : (mk a []).apply m = m := by
  funext i
  exact apply_of_not_covers (by simp [Covers])

theorem applyAll_consecutive (a : Int) (bss : List (List UInt8)) (m : Int -> UInt8) :
    applyAll (consecutive a bss) m = (mk a bss.flatten).apply m := by
  induction bss generalizing a m with
  | nil => exact (apply_nil a).symm
  | cons bs rest ih => rw [consecutive, applyAll_cons, ih, flatten_cons, apply_append]

theorem fills_consecutive (bss : List (List UInt8)) : Fills (consecutive 0 bss) bss.flatten :=
  applyAll_consecutive 0 bss

theorem not_fills_of_covered_lt {limit : Int} (hlimit : limit < data.length) (hpos : 0 ≤ limit)
    (h : forall i, Covered ws i -> i < limit) : ¬ Fills ws data := by
  intro hfills
  have hcovers : (mk 0 data).Covers limit := by
    unfold Covers
    simp only
    omega
  exact absurd (h limit (hfills.covered_iff.mpr hcovers)) (lt_irrefl limit)

end

end Copy
end Htx.Library
