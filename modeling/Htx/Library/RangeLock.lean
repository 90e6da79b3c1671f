import Mathlib

/-!
# Range locks

The abstract service of a range lock: every owner holds a set of blocks, an acquisition is
granted when the requested set is disjoint from what everybody else holds, and a release
gives the whole set back.
-/

namespace Htx.Library

namespace RangeLock

open Function

variable {owner block : Type*}

abbrev Held (owner block : Type*) :=
  owner -> Set block

def Exclusive (held : Held owner block) : Prop :=
  Pairwise fun t u => Disjoint (held t) (held u)

theorem exclusive_empty : Exclusive (fun _ : owner => (∅ : Set block)) := by
  intro t u _
  exact Set.disjoint_empty _

variable [DecidableEq owner]

inductive Step : Held owner block -> Held owner block -> Prop
  | acquire {held : Held owner block} (t : owner) (r : Set block) :
      held t = ∅ -> (forall u, u ≠ t -> Disjoint (held u) r) ->
      Step held (Function.update held t r)
  | release {held : Held owner block} (t : owner) :
      Step held (Function.update held t ∅)
  | stutter {held : Held owner block} :
      Step held held

theorem exclusive_update {held : Held owner block} {t : owner} {r : Set block}
    (h : Exclusive held) (hr : forall u, u ≠ t -> Disjoint (held u) r) :
    Exclusive (Function.update held t r) := by
  intro a b hab
  by_cases ha : a = t
  · subst a
    rw [update_self, update_of_ne hab.symm]
    exact (hr b hab.symm).symm
  · rw [update_of_ne ha]
    by_cases hb : b = t
    · subst b
      rw [update_self]
      exact hr a ha
    · rw [update_of_ne hb]
      exact h hab

theorem Step.exclusive {held held' : Held owner block}
    (hstep : Step held held') (h : Exclusive held) : Exclusive held' := by
  cases hstep with
  | acquire t r _ hr => exact exclusive_update h hr
  | release t => exact exclusive_update h fun u _ => Set.disjoint_empty _
  | stutter => exact h

end RangeLock

/-!
# Closed intervals that meet
-/

section

variable {block : Type*} [LinearOrder block] {a b c d : block} (hab : a ≤ b) (hcd : c ≤ d)

include hab hcd

theorem Icc_inter_Icc_nonempty_iff : (Set.Icc a b ∩ Set.Icc c d).Nonempty <-> a ≤ d ∧ c ≤ b := by
  rw [Set.Icc_inter_Icc, Set.nonempty_Icc, sup_le_iff, le_inf_iff, le_inf_iff]
  constructor
  · rintro ⟨⟨_, had⟩, hcb, _⟩
    exact ⟨had, hcb⟩
  · rintro ⟨had, hcb⟩
    exact ⟨⟨hab, had⟩, hcb, hcd⟩

theorem conflict_iff_inter_nonempty :
    ((a < c ∧ c ≤ b) ∨ (c < a ∧ a ≤ d) ∨ a = c) <-> (Set.Icc a b ∩ Set.Icc c d).Nonempty := by
  rw [Icc_inter_Icc_nonempty_iff hab hcd]
  constructor
  · rintro (⟨hac, hcb⟩ | ⟨hca, had⟩ | rfl)
    · exact ⟨hac.le.trans hcd, hcb⟩
    · exact ⟨had, hca.le.trans hab⟩
    · exact ⟨hcd, hab⟩
  · rintro ⟨had, hcb⟩
    rcases lt_trichotomy a c with hac | hac | hca
    · exact .inl ⟨hac, hcb⟩
    · exact .inr (.inr hac)
    · exact .inr (.inl ⟨hca, had⟩)

end

end Htx.Library
