import Mathlib.Data.List.Nodup

/-!
# Counting after a change in one place

The number of items of a list with a property, when the property changes for one of
the items only.
-/

namespace Pegasos.Support

universe u

variable {α : Type u} {old new : α → Bool} {items : List α} {item : α}

theorem countP_same (same : ∀ other ∈ items, new other = old other) :
    items.countP new = items.countP old :=
  List.countP_congr fun other member => by rw [same other member]

/-- One item of a list without repetitions has changed. -/
theorem countP_change (old new : α → Bool) (distinct : items.Nodup) (member : item ∈ items)
    (same : ∀ other ∈ items, other ≠ item → new other = old other) :
    items.countP new + (old item).toNat = items.countP old + (new item).toNat := by
  induction items with
  | nil => simp at member
  | cons first items ih =>
      obtain ⟨notFirst, distinct⟩ := List.nodup_cons.mp distinct
      simp only [List.countP_cons]
      by_cases here : first = item
      · subst here
        have rest : items.countP new = items.countP old := by
          apply countP_same
          intro other inRest
          apply same other (List.mem_cons_of_mem _ inRest)
          rintro rfl
          exact notFirst inRest
        rw [rest]
        cases old first <;> cases new first <;> rfl
      · have inRest : item ∈ items := (List.mem_cons.mp member).resolve_left (Ne.symm here)
        have rest := ih distinct inRest fun other isOther =>
          same other (List.mem_cons_of_mem _ isOther)
        rw [same first List.mem_cons_self here]
        omega

end Pegasos.Support
