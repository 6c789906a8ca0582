import Mathlib.Data.Int.Init

/-!
# Integers of the machine

Arithmetic on an `int` of 16 bits and on a `long` of 32 bits wraps around, and so does
unsigned arithmetic on their words.
-/

namespace Pegasos.Support

/-- A 16-bit `int`. -/
def int16 (value : Int) : Int := value.bmod 0x10000

/-- A 32-bit `long`. -/
def int32 (value : Int) : Int := value.bmod 0x100000000

/-- A word of 32 bits. -/
def word (value : Nat) : Nat := value % 0x100000000

/-- An `int` or a `long` as a word of 32 bits. -/
def wordOfInt (value : Int) : Nat := (value % 0x100000000).toNat

theorem int16_eq {value : Int} (low : -0x8000 ≤ value) (high : value < 0x8000) :
    int16 value = value := by
  rw [int16, Int.bmod_def]
  omega

theorem int32_eq {value : Int} (low : -0x80000000 ≤ value) (high : value < 0x80000000) :
    int32 value = value := by
  rw [int32, Int.bmod_def]
  omega

/-- A value up to twice too large comes out negative. -/
theorem int32_above {value : Int} (low : 0x80000000 ≤ value) (high : value < 0x180000000) :
    int32 value = value - 0x100000000 := by
  rw [int32, Int.bmod_def]
  omega

theorem int32_below {value : Int} (low : -0x180000000 ≤ value) (high : value < -0x80000000) :
    int32 value = value + 0x100000000 := by
  rw [int32, Int.bmod_def]
  omega

theorem word_word_add (value more : Nat) : word (word value + more) = word (value + more) := by
  unfold word
  omega

end Pegasos.Support
