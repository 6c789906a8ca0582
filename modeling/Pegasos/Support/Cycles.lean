import Mathlib.Data.Finset.Card
import Mathlib.Data.Finset.Range
import Mathlib.Dynamics.PeriodicPts.Defs

/-!
# Cycles of a function

A function with few values goes round in a cycle behind as many steps as it has values.
-/

namespace Pegasos.Support

open Function

variable {α : Type} {f : α → α} {x : α} {values : Finset α} {a b d n p : Nat}

theorem iterate_shift (same : f^[a] x = f^[b] x) (m : Nat) : f^[a + m] x = f^[b + m] x := by
  rw [Nat.add_comm a, Nat.add_comm b, iterate_add_apply, iterate_add_apply, same]

/-- Behind as many steps as there are values, the values come again. -/
theorem exists_period (into : ∀ c, f c ∈ values) (x : α) : ∃ p, 0 < p ∧ p ≤ values.card ∧
    ∀ m, values.card ≤ m → f^[m + p] x = f^[m] x := by
  have first : ∀ i j, i < j → j ≤ values.card → f^[i + 1] x = f^[j + 1] x →
      ∃ p, 0 < p ∧ p ≤ values.card ∧ ∀ m, values.card ≤ m → f^[m + p] x = f^[m] x := by
    intro i j before last again
    refine ⟨j - i, by omega, by omega, fun m later => ?_⟩
    have far : j + 1 + (m - (i + 1)) = m + (j - i) := by omega
    have near : i + 1 + (m - (i + 1)) = m := by omega
    rw [← far, ← iterate_shift again, near]
  have inside : ∀ i ∈ Finset.range (values.card + 1), f^[i + 1] x ∈ values := by
    intro i _
    rw [iterate_succ_apply']
    exact into _
  obtain ⟨i, isI, j, isJ, ne, same⟩ := Finset.exists_ne_map_eq_of_card_lt_of_maps_to
    (by rw [Finset.card_range]; exact Nat.lt_succ_self _) inside
  rw [Finset.mem_range, Nat.lt_succ_iff] at isI isJ
  rcases lt_or_gt_of_ne ne with less | less
  · exact first i j less isJ same
  · exact first j i less isI same.symm

section Period

variable (period : ∀ m, n ≤ m → f^[m + p] x = f^[m] x)
include period

theorem period_mul (times : Nat) : ∀ m, n ≤ m → f^[m + p * times] x = f^[m] x := by
  intro m later
  induction times with
  | zero => rfl
  | succ times ih =>
      rw [Nat.mul_succ, ← Nat.add_assoc, period _ (Nat.le_add_right_of_le later), ih]

/-- Values that come again once come again everywhere in the cycle. -/
theorem period_of_again (some : 0 < p) (again : f^[a + d] x = f^[a] x) :
    ∀ m, n ≤ m → f^[m + d] x = f^[m] x := by
  intro m later
  have far : a ≤ p * a := Nat.le_mul_of_pos_left a some
  obtain ⟨more, isMore⟩ : ∃ more, m + p * a = a + more := ⟨m + p * a - a, by omega⟩
  have beyond : m + d + p * a = a + d + more := by omega
  calc f^[m + d] x = f^[a + d + more] x := by rw [← beyond, period_mul period a _ (by omega)]
    _ = f^[a + more] x := iterate_shift again more
    _ = f^[m] x := by rw [← isMore, period_mul period a m later]

/-- A value that comes again in the cycle comes again after a common divisor of steps. -/
theorem gcd_period (again : f^[a + d] x = f^[a] x) (far : n ≤ a + d) :
    IsPeriodicPt f (Nat.gcd p d) (f^[a] x) := by
  have steps : ∀ m, f^[m] (f^[a] x) = f^[a + m] x := fun m => by
    rw [← iterate_add_apply, Nat.add_comm]
  refine IsPeriodicPt.gcd ?_ ?_
  · rw [IsPeriodicPt, IsFixedPt, steps, ← iterate_shift again, period _ far, again]
  · rw [IsPeriodicPt, IsFixedPt, steps, again]

end Period

end Pegasos.Support
