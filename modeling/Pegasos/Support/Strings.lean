import Mathlib.Data.List.TakeWhile
import Mathlib.Logic.Function.Basic
import Pegasos.Support.Outcome

/-!
# Strings in memory

A string is a run of bytes with a NUL behind them, and the loop that passes the bytes of one
kind stops in it.
-/

namespace Pegasos.Support

open Function (update)

variable {mem other : Nat → UInt8} {p fuel : Nat} {text front rest : List UInt8} {ch : UInt8}

/-- The string at `p` has exactly the bytes of `text`. -/
def StringAt (mem : Nat → UInt8) : Nat → List UInt8 → Prop
  | p, [] => mem p = 0
  | p, ch :: rest => mem p = ch ∧ ch ≠ 0 ∧ StringAt mem (p + 1) rest

namespace StringAt

instance decidable (mem : Nat → UInt8) : (p : Nat) → (text : List UInt8) →
    Decidable (StringAt mem p text)
  | p, [] => inferInstanceAs (Decidable (mem p = 0))
  | p, ch :: rest =>
      have := decidable mem (p + 1) rest
      inferInstanceAs (Decidable (mem p = ch ∧ ch ≠ 0 ∧ StringAt mem (p + 1) rest))

theorem congr (same : ∀ a, p ≤ a → a ≤ p + text.length → other a = mem a)
    (string : StringAt mem p text) : StringAt other p text := by
  induction text generalizing p with
  | nil => exact (same p (le_refl p) (le_refl p)).trans string
  | cons ch rest ih =>
      obtain ⟨here, some, behind⟩ := string
      refine ⟨(same p (le_refl p) (by omega)).trans here, some, ih ?_ behind⟩
      intro a low high
      exact same a (by omega) (by simp only [List.length_cons]; omega)

/-- A string behind the first bytes of another one. -/
theorem drop (string : StringAt mem p (front ++ rest)) : StringAt mem (p + front.length) rest := by
  induction front generalizing p with
  | nil => exact string
  | cons ch front ih =>
      have behind := ih string.2.2
      rwa [List.length_cons, Nat.add_comm front.length 1, ← Nat.add_assoc]

theorem ends (string : StringAt mem p text) : mem (p + text.length) = 0 := by
  rw [← List.append_nil text] at string
  exact string.drop

/-- Storing a NUL behind the first bytes of a string cuts it off there. -/
theorem cut (string : StringAt mem p (front ++ rest)) :
    StringAt (update mem (p + front.length) 0) p front := by
  induction front generalizing p with
  | nil => exact Function.update_self ..
  | cons ch front ih =>
      obtain ⟨here, some, behind⟩ := string
      refine ⟨?_, some, ?_⟩
      · rwa [Function.update_of_ne (by simp only [List.length_cons]; omega)]
      · rw [List.length_cons, Nat.add_comm front.length 1, ← Nat.add_assoc]
        exact ih behind

/-- Tests that differ on the NUL only pass the same bytes of a string. -/
theorem takeWhile_eq {test like : UInt8 → Bool} (same : ∀ ch, ch ≠ 0 → test ch = like ch)
    (string : StringAt mem p text) : text.takeWhile test = text.takeWhile like := by
  induction text generalizing p with
  | nil => rfl
  | cons ch rest ih =>
      rw [List.takeWhile_cons, List.takeWhile_cons, same ch string.2.1, ih string.2.2]

theorem dropWhile_eq {test like : UInt8 → Bool} (same : ∀ ch, ch ≠ 0 → test ch = like ch)
    (string : StringAt mem p text) : text.dropWhile test = text.dropWhile like := by
  have split : text.takeWhile test ++ text.dropWhile test =
      text.takeWhile test ++ text.dropWhile like := by
    rw [List.takeWhile_append_dropWhile, string.takeWhile_eq same, List.takeWhile_append_dropWhile]
  exact List.append_cancel_left split

theorem nonzero (string : StringAt mem p (ch :: rest)) : mem p ≠ 0 := by
  rw [string.1]
  exact string.2.1

end StringAt

/-- `while (test(*p)) p++;` -/
def skip (mem : Nat → UInt8) (test : UInt8 → Bool) : Nat → Nat → Outcome Nat
  | 0, _ => .hang
  | fuel + 1, p => if test (mem p) then skip mem test fuel (p + 1) else .ok p

/-- A loop that does not pass the NUL stops inside the string. -/
theorem StringAt.skip {test : UInt8 → Bool} (atEnd : test 0 = false)
    (string : StringAt mem p text) (enough : text.length < fuel) :
    skip mem test fuel p = .ok (p + (text.takeWhile test).length) := by
  induction text generalizing p fuel with
  | nil =>
      obtain ⟨fuel, rfl⟩ := Nat.exists_eq_succ_of_ne_zero (by omega : fuel ≠ 0)
      have here : mem p = 0 := string
      rw [Support.skip, here, atEnd, if_neg (by decide), List.takeWhile_nil, List.length_nil,
        Nat.add_zero]
  | cons ch rest ih =>
      obtain ⟨fuel, rfl⟩ := Nat.exists_eq_succ_of_ne_zero (by omega : fuel ≠ 0)
      obtain ⟨here, -, behind⟩ := string
      rw [Support.skip, here]
      by_cases passed : test ch = true
      · rw [if_pos passed, List.takeWhile_cons_of_pos passed, List.length_cons,
          ih behind (by simp only [List.length_cons] at enough; omega), Nat.add_assoc,
          Nat.add_comm 1]
      · rw [if_neg passed, List.takeWhile_cons_of_neg passed, List.length_nil, Nat.add_zero]

end Pegasos.Support
