import Mathlib.Data.Finset.Card
import Mathlib.Data.Finset.Range
import Mathlib.Data.Nat.Find
import Mathlib.Logic.Function.Iterate

/-!
# The first stop

A walk that takes the same step again and again comes to a stop soon or not at all, if it
leads to finitely many values.
-/

namespace Pegasos.Support

variable {α : Type} {next : α → α} {stop : α → Prop} {c : α}

/-- The first stop of a walk that comes to one. -/
theorem exists_first_stop (ends : ∃ k, stop (next^[k] c)) :
    ∃ k, stop (next^[k] c) ∧ ∀ i < k, ¬stop (next^[i] c) := by
  classical
  exact ⟨Nat.find ends, Nat.find_spec ends, fun i less => Nat.find_min ends less⟩

/-- In front of the first stop a walk comes to no value twice. -/
theorem iterate_ne_of_first_stop {k i j : Nat} (stops : stop (next^[k] c))
    (first : ∀ i < k, ¬stop (next^[i] c)) (less : i < j) (le : j ≤ k) :
    next^[i] c ≠ next^[j] c := by
  intro same
  have shorter : next^[k - j + i] c = next^[k] c := by
    rw [Function.iterate_add_apply, same, ← Function.iterate_add_apply, Nat.sub_add_cancel le]
  exact first (k - j + i) (by omega) (shorter ▸ stops)

/-- The first stop is not farther than the number of the values that the steps lead to. -/
theorem first_stop_le {k : Nat} (values : Finset α) (inside : ∀ d, ¬stop d → next d ∈ values)
    (stops : stop (next^[k] c)) (first : ∀ i < k, ¬stop (next^[i] c)) : k ≤ values.card := by
  have maps : Set.MapsTo (fun i => next^[i + 1] c) (Finset.range k) values := by
    intro i less
    have less : i < k := by simpa using less
    change next^[i + 1] c ∈ values
    rw [Function.iterate_succ_apply']
    exact inside _ (first i less)
  have injective : Set.InjOn (fun i => next^[i + 1] c) (Finset.range k) := by
    intro i less j less' same
    have less : i < k := by simpa using less
    have less' : j < k := by simpa using less'
    by_contra apart
    rcases Nat.lt_or_gt_of_ne apart with before | after
    · exact iterate_ne_of_first_stop stops first (Nat.succ_lt_succ before) less' same
    · exact iterate_ne_of_first_stop stops first (Nat.succ_lt_succ after) less same.symm
  have count := Finset.card_le_card_of_injOn _ maps injective
  rwa [Finset.card_range] at count

end Pegasos.Support
