import Mathlib.Tactic.Common
import Mathlib.Algebra.Group.Nat.Defs

/-!
# Flag bits of 16-bit words

Allocators keep an in-use flag in the lowest bit of a header word.  These lemmas
reduce the masks with which the flag is read, set and cleared to `testBit 0` and
to arithmetic.
-/

namespace Pegasos.Support

/-- Difference of 16-bit words, reduced mod 2^16. -/
def sub16 (left right : Nat) : Nat := (left + 0x10000 - right % 0x10000) % 0x10000

theorem sub16_of_le {left right : Nat} (small : left < 0x10000) (le : right ≤ left) :
    sub16 left right = left - right := by
  unfold sub16
  omega

/-- A 16-bit size rounded up to a whole number of words. -/
def roundToWord (size : Nat) : Nat := (size + 1) % 0x10000 &&& 0xfffe

/-- The flag kept in the lowest bit of a word. -/
def lowBit (word : Nat) : Bool := word.testBit 0

theorem and_one_eq_zero {word : Nat} : word &&& 1 = 0 ↔ lowBit word = false := by
  rw [lowBit, Nat.and_one_is_mod, Nat.testBit_zero]
  simp

@[simp] theorem lowBit_or_one (word : Nat) : lowBit (word ||| 1) = true := by
  simp [lowBit]

@[simp] theorem lowBit_clear (word : Nat) : lowBit (word &&& 0xfffe) = false := by
  have mask : (0xfffe : Nat).testBit 0 = false := by decide
  rw [lowBit, Nat.testBit_and, mask, Bool.and_false]

/-- Clearing the lowest bit of a 16-bit word rounds it down to an even number. -/
theorem and_fffe_eq {word : Nat} (small : word < 0x10000) : word &&& 0xfffe = word / 2 * 2 := by
  apply Nat.eq_of_testBit_eq
  intro index
  cases index with
  | zero =>
      have cleared := lowBit_clear word
      rw [lowBit] at cleared
      rw [cleared, Nat.testBit_zero]
      simp
  | succ index =>
      rw [Nat.testBit_and, Nat.testBit_succ, Nat.testBit_succ, Nat.testBit_succ]
      have mask : 0xfffe / 2 = 2 ^ 15 - 1 := by decide
      rw [mask, Nat.testBit_two_pow_sub_one, Nat.mul_div_cancel _ (by decide)]
      by_cases within : index < 15
      · simp [within]
      · have tall : (word / 2).testBit index = false := by
          apply Nat.testBit_lt_two_pow
          calc word / 2 < 2 ^ 15 := by omega
            _ ≤ 2 ^ index := Nat.pow_le_pow_right (by decide) (by omega)
        simp [tall]

/-- Packing the flag of a word below an even size. -/
@[simp] theorem lowBit_pack (word size : Nat) :
    lowBit ((word % 2) ||| (size &&& 0xfffe)) = lowBit word := by
  have mask : (0xfffe : Nat).testBit 0 = false := by decide
  rw [← Nat.and_one_is_mod]
  simp only [lowBit, Nat.testBit_or, Nat.testBit_and, mask, Bool.and_false, Bool.or_false]
  simp

@[simp] theorem pack_clear (word size : Nat) :
    ((word % 2) ||| (size &&& 0xfffe)) &&& 0xfffe = size &&& 0xfffe := by
  have flag : word &&& 1 &&& 0xfffe = 0 := by
    rw [Nat.and_assoc]
    simp
  rw [← Nat.and_one_is_mod, Nat.and_or_distrib_right, flag, Nat.zero_or, Nat.and_assoc,
    Nat.and_self]

@[simp] theorem or_one_clear (word : Nat) : (word ||| 1) &&& 0xfffe = word &&& 0xfffe := by
  rw [Nat.and_or_distrib_right]
  simp

@[simp] theorem clear_clear (word : Nat) : word &&& 0xfffe &&& 0xfffe = word &&& 0xfffe := by
  rw [Nat.and_assoc, Nat.and_self]

/-- The flag and the masked word depend on the low 16 bits only. -/
@[simp] theorem lowBit_mod (word : Nat) : lowBit (word % 0x10000) = lowBit word := by
  rw [show 0x10000 = 2 ^ 16 from rfl, lowBit, lowBit, Nat.testBit_mod_two_pow]
  simp

@[simp] theorem mod_clear (word : Nat) : word % 0x10000 &&& 0xfffe = word &&& 0xfffe := by
  have mask : 0xfffe % 2 ^ 16 = 0xfffe := by decide
  rw [show 0x10000 = 2 ^ 16 from rfl, ← mask, ← Nat.and_mod_two_pow, mask]
  exact Nat.mod_eq_of_lt (Nat.lt_of_le_of_lt Nat.and_le_right (by decide))

theorem clear_of_even {word : Nat} (small : word < 0x10000) (even : 2 ∣ word) :
    word &&& 0xfffe = word := by
  rw [and_fffe_eq small]
  omega

/-- Rounding keeps every size but 65535, which becomes 0. -/
theorem roundToWord_spec {size : Nat} (small : size < 0x10000) (notTop : size ≠ 0xFFFF) :
    size ≤ roundToWord size ∧ 2 ∣ roundToWord size ∧ roundToWord size < 0x10000 := by
  have noWrap : (size + 1) % 0x10000 = size + 1 := by omega
  rw [roundToWord, noWrap, and_fffe_eq (by omega)]
  omega

theorem clear_of_lowBit {word : Nat} (small : word < 0x10000) (clear : lowBit word = false) :
    word &&& 0xfffe = word := by
  refine clear_of_even small ?_
  rw [lowBit, Nat.testBit_zero, decide_eq_false_iff_not] at clear
  omega

/-- Three fields side by side in a word do not overlap. -/
theorem three_fields {high mid low width more : Nat} (lowFits : low < 2 ^ width)
    (midFits : mid < 2 ^ more) :
    high <<< (more + width) ||| mid <<< width ||| low =
      (high * 2 ^ more + mid) * 2 ^ width + low := by
  rw [Nat.shiftLeft_add, ← Nat.shiftLeft_or_distrib, ← Nat.shiftLeft_add_eq_or_of_lt midFits,
    ← Nat.shiftLeft_add_eq_or_of_lt lowFits, Nat.shiftLeft_eq, Nat.shiftLeft_eq]

/-- A number that fits a 16-bit word is kept in it. -/
theorem toNat_ofInt16 {value : Int} (low : 0 ≤ value) (high : value < 0x10000) :
    (UInt16.ofInt value).toNat = value.toNat := by
  obtain ⟨value, rfl⟩ := Int.eq_ofNat_of_zero_le low
  have small : value < 0x10000 := by omega
  simp [UInt16.ofInt]
  omega

end Pegasos.Support
