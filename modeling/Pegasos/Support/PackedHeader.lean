import Pegasos.Support.BlockChain
import Pegasos.Support.Words

/-!
# Headers of two words

A small allocator keeps two words in front of every payload: the address of the
next header, and the payload size with the in-use flag in its lowest bit.
-/

namespace Pegasos.Support

/-- The headers that such an allocator finds in a byte memory. -/
def packedHeaders (bytes : Bytes) : Headers where
  next addr := peek bytes addr
  size addr := peek bytes (addr + 2) &&& 0xfffe
  used addr := lowBit (peek bytes (addr + 2))

variable {bytes bytes' : Bytes} {addr other word : Nat}

/-- A store of a word that misses a header leaves it unchanged. -/
theorem packedHeaders_poke_apart (apart : other + 4 ≤ addr ∨ addr + 2 ≤ other) :
    (packedHeaders (poke bytes addr word)).AgreeAt (packedHeaders bytes) other := by
  have first : peek (poke bytes addr word) other = peek bytes other :=
    peek_poke_apart (by omega)
  have second : peek (poke bytes addr word) (other + 2) = peek bytes (other + 2) :=
    peek_poke_apart (by omega)
  simp only [Headers.AgreeAt, packedHeaders, first, second, and_self]

theorem packedHeaders_pokeByte_apart {byte : UInt8} (apart : addr < other ∨ other + 4 ≤ addr) :
    (packedHeaders (pokeByte bytes addr byte)).AgreeAt (packedHeaders bytes) other := by
  have first : peek (pokeByte bytes addr byte) other = peek bytes other :=
    peek_pokeByte_apart (by omega)
  have second : peek (pokeByte bytes addr byte) (other + 2) = peek bytes (other + 2) :=
    peek_pokeByte_apart (by omega)
  simp only [Headers.AgreeAt, packedHeaders, first, second, and_self]

theorem Headers.AgreeAt.trans {first second third : Headers} (left : first.AgreeAt second addr)
    (right : second.AgreeAt third addr) : first.AgreeAt third addr :=
  ⟨left.1.trans right.1, left.2.1.trans right.2.1, left.2.2.trans right.2.2⟩

/-- The word that follows a word just stored is kept, and so is the one before. -/
@[simp] theorem peek_poke_next : peek (poke bytes addr word) (addr + 2) = peek bytes (addr + 2) :=
  peek_poke_apart (by omega)

@[simp] theorem peek_poke_size : peek (poke bytes (addr + 2) word) addr = peek bytes addr :=
  peek_poke_apart (by omega)

end Pegasos.Support
