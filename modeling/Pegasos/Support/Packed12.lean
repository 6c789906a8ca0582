import Mathlib.Data.UInt
import Mathlib.Logic.Function.Basic
import Mathlib.Tactic.Common

/-!
# Packed numbers of 12 bits

An array of numbers of 12 bits in bytes: two numbers share three bytes.  The number of an
even index begins with a byte of its own, that of an odd index in the upper half of the
byte that it shares with its neighbour.
-/

namespace Pegasos.Support

open Function (update)

/-- Where the number of an index begins. -/
def offset12 (c : Nat) : Nat := c * 3 / 2

/-- The number of an index from its two bytes. -/
def unpack12 (c : Nat) (low high : UInt8) : Nat :=
  if c % 2 = 1 then low.toNat / 0x10 + high.toNat * 0x10
  else high.toNat % 0x10 * 0x100 + low.toNat

/-- The first byte of an index once it holds `value`. -/
def packLow12 (c value : Nat) (old : UInt8) : UInt8 :=
  if c % 2 = 1 then UInt8.ofNat (old.toNat % 0x10 + value % 0x10 * 0x10)
  else UInt8.ofNat (value % 0x100)

/-- The second byte of an index once it holds `value`. -/
def packHigh12 (c value : Nat) (old : UInt8) : UInt8 :=
  if c % 2 = 1 then UInt8.ofNat (value / 0x10 % 0x100)
  else UInt8.ofNat (old.toNat / 0x10 * 0x10 + value / 0x100 % 0x10)

/-- The number of an index in an array of bytes. -/
def get12 (bytes : Nat → UInt8) (c : Nat) : Nat :=
  unpack12 c (bytes (offset12 c)) (bytes (offset12 c + 1))

/-- Store the number of an index. -/
def set12 (bytes : Nat → UInt8) (c value : Nat) : Nat → UInt8 :=
  let bytes := update bytes (offset12 c) (packLow12 c value (bytes (offset12 c)))
  update bytes (offset12 c + 1) (packHigh12 c value (bytes (offset12 c + 1)))

variable {bytes other : Nat → UInt8} {c d value : Nat}

theorem unpack12_lt (low high : UInt8) : unpack12 c low high < 0x1000 := by
  have low_lt := low.toNat_lt
  have high_lt := high.toNat_lt
  unfold unpack12
  split <;> omega

theorem get12_lt (bytes : Nat → UInt8) (c : Nat) : get12 bytes c < 0x1000 := unpack12_lt _ _

/-- The number of an index depends on its two bytes only. -/
theorem get12_congr (first : bytes (offset12 c) = other (offset12 c))
    (second : bytes (offset12 c + 1) = other (offset12 c + 1)) : get12 bytes c = get12 other c := by
  rw [get12, get12, first, second]

theorem set12_low : set12 bytes c value (offset12 c) = packLow12 c value (bytes (offset12 c)) := by
  simp [set12]

theorem set12_high :
    set12 bytes c value (offset12 c + 1) = packHigh12 c value (bytes (offset12 c + 1)) := by
  simp [set12]

/-- No other bytes change. -/
theorem set12_apart {i : Nat} (apart : i ≠ offset12 c ∧ i ≠ offset12 c + 1) :
    set12 bytes c value i = bytes i := by
  simp [set12, apart]

/-- A byte after storing depends on the two bytes of the index and on itself. -/
theorem set12_congr {i : Nat} (first : bytes (offset12 c) = other (offset12 c))
    (second : bytes (offset12 c + 1) = other (offset12 c + 1)) (own : bytes i = other i) :
    set12 bytes c value i = set12 other c value i := by
  by_cases low : i = offset12 c
  · rw [low, set12_low, set12_low, first]
  by_cases high : i = offset12 c + 1
  · rw [high, set12_high, set12_high, second]
  · rw [set12_apart ⟨low, high⟩, set12_apart ⟨low, high⟩, own]

theorem get12_set12_self (small : value < 0x1000) : get12 (set12 bytes c value) c = value := by
  rw [get12, set12_low, set12_high]
  unfold unpack12 packLow12 packHigh12
  have low_lt := (bytes (offset12 c)).toNat_lt
  have high_lt := (bytes (offset12 c + 1)).toNat_lt
  split
  · simp only [UInt8.toNat_ofNat']
    omega
  · simp only [UInt8.toNat_ofNat']
    omega

/-- Storing a number keeps all others. -/
theorem get12_set12_ne (ne : d ≠ c) : get12 (set12 bytes c value) d = get12 bytes d := by
  by_cases next : d = c + 1
  · -- the second byte of `c` is the first one of `d`, or `d` lies behind `c`
    subst next
    by_cases odd : c % 2 = 1
    · refine get12_congr (set12_apart ?_) (set12_apart ?_) <;> (unfold offset12; omega)
    · have shared : offset12 (c + 1) = offset12 c + 1 := by unfold offset12; omega
      rw [get12, get12, shared, set12_high, set12_apart (by omega)]
      have isOdd : (c + 1) % 2 = 1 := by omega
      have high_lt := (bytes (offset12 c + 1)).toNat_lt
      simp only [unpack12, packHigh12, if_pos isOdd, if_neg odd, UInt8.toNat_ofNat']
      omega
  by_cases previous : c = d + 1
  · subst previous
    by_cases odd : d % 2 = 1
    · refine get12_congr (set12_apart ?_) (set12_apart ?_) <;> (unfold offset12; omega)
    · have shared : offset12 (d + 1) = offset12 d + 1 := by unfold offset12; omega
      have apart : offset12 d ≠ offset12 (d + 1) ∧ offset12 d ≠ offset12 (d + 1) + 1 := by omega
      rw [get12, get12, set12_apart apart, ← shared, set12_low]
      have isOdd : (d + 1) % 2 = 1 := by omega
      simp only [unpack12, packLow12, if_pos isOdd, if_neg odd, UInt8.toNat_ofNat']
      omega
  · refine get12_congr (set12_apart ?_) (set12_apart ?_) <;> (unfold offset12; omega)

end Pegasos.Support
