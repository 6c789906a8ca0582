import Pegasos.Support.Bits

/-!
# Words in a byte memory

A segment is a memory of bytes in which programs keep 16-bit words, low byte
first.  `peek` and `poke` read and write such a word; a word is unaffected by
stores that do not overlap it.
-/

namespace Pegasos.Support

/-- The bytes of a segment. -/
abbrev Bytes := Nat → UInt8

/-- The word at an address. -/
def peek (bytes : Bytes) (addr : Nat) : Nat :=
  (bytes addr).toNat + 0x100 * (bytes (addr + 1)).toNat

/-- Store a word at an address. -/
def poke (bytes : Bytes) (addr word : Nat) : Bytes := fun other =>
  if other = addr then UInt8.ofNat word
  else if other = addr + 1 then UInt8.ofNat (word / 0x100)
  else bytes other

/-- Store a byte at an address. -/
def pokeByte (bytes : Bytes) (addr : Nat) (byte : UInt8) : Bytes := fun other =>
  if other = addr then byte else bytes other

variable {bytes : Bytes} {addr other word : Nat}

theorem peek_lt : peek bytes addr < 0x10000 := by
  have low := (bytes addr).toNat_lt
  have high := (bytes (addr + 1)).toNat_lt
  unfold peek
  omega

@[simp] theorem peek_poke_self : peek (poke bytes addr word) addr = word % 0x10000 := by
  simp only [peek, poke, Nat.add_eq_left, Nat.one_ne_zero, if_true, if_false, UInt8.toNat_ofNat']
  omega

theorem peek_poke_apart (apart : other + 2 ≤ addr ∨ addr + 2 ≤ other) :
    peek (poke bytes addr word) other = peek bytes other := by
  have first : other ≠ addr ∧ other ≠ addr + 1 := by omega
  have second : other + 1 ≠ addr ∧ other + 1 ≠ addr + 1 := by omega
  simp only [peek, poke, first, second, if_false]

theorem poke_apart (apart : other < addr ∨ addr + 2 ≤ other) :
    poke bytes addr word other = bytes other := by
  have first : other ≠ addr := by omega
  have second : other ≠ addr + 1 := by omega
  simp only [poke, first, second, if_false]

theorem peek_pokeByte_apart {byte : UInt8} (apart : other ≠ addr ∧ other + 1 ≠ addr) :
    peek (pokeByte bytes addr byte) other = peek bytes other := by
  simp only [peek, pokeByte, apart, if_false]

end Pegasos.Support
