import Mathlib.Algebra.GroupWithZero.Nat
import Mathlib.Algebra.NeZero
import Mathlib.Data.Fin.Basic

/-!
# Tables of fixed sizes

A table has an entry 0, and the lists of its indices and of addresses with lengths can be searched.
-/

namespace Pegasos.Support

instance neZero_two : NeZero 2 := ⟨by decide⟩

instance neZero_eleven : NeZero 11 := ⟨by decide⟩

instance neZero_thirtyTwo : NeZero 32 := ⟨by decide⟩

instance lawfulBEq_fin32 : LawfulBEq (Fin 32) := inferInstance

instance lawfulBEq_pair : LawfulBEq (Nat × Nat) := inferInstance

end Pegasos.Support
