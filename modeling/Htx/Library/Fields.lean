import Mathlib

/-!
# Fields of a text

The fields of a text are its longest runs without a separator; several separators in a row
separate as one does.
-/

namespace Htx.Library

variable {α : Type*}

def fields (separator : α -> Bool) (text : List α) : List (List α) :=
  (text.splitOnP separator).filter fun field => field ≠ []

variable {separator : α -> Bool} {field text : List α} {c : α}

@[simp]
theorem fields_nil : fields separator [] = [] := by
  simp [fields]

theorem fields_separator (hc : separator c = true) :
    fields separator (c :: text) = fields separator text := by
  simp [fields, List.splitOnP_cons_eq_if_modifyHead, hc]

theorem fields_last (hne : field ≠ []) (hfield : forall c, c ∈ field -> separator c = false) :
    fields separator field = [field] := by
  unfold fields
  rw [List.splitOnP_eq_singleton fun c hc => by simp [hfield c hc]]
  simp [hne]

theorem fields_append (hne : field ≠ []) (hfield : forall c, c ∈ field -> separator c = false)
    (hc : separator c = true) :
    fields separator (field ++ c :: text) = field :: fields separator text := by
  unfold fields
  rw [List.splitOnP_append_cons_of_forall_mem (fun c hc => by simp [hfield c hc]) c hc]
  simp [hne]

end Htx.Library
