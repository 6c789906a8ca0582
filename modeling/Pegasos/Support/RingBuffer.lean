import Mathlib.Logic.Function.Basic
import Mathlib.Tactic.Common

/-!
# Ring buffers

A ring of `size` places with the index of its first item and the index behind the
last one.  One place always stays free, so equal indices mean an empty ring.
`Holds` gives the items as a list, and the theorems say what it means for them to
add an item at either index or to take one away.
-/

namespace Pegasos.Support

open Function (update)

universe u

variable {α : Type u}

/-- The items of a ring, from `head` to `tail`. -/
structure RingHolds (size : Nat) (buf : Nat → α) (head tail : Nat) (items : List α) : Prop where
  first : head < size
  short : items.length < size
  last : tail = (head + items.length) % size
  cells : ∀ i item, items[i]? = some item → buf ((head + i) % size) = item

/-- The index behind another one. -/
theorem ring_index {size i j : Nat} (first : i < size) (second : j ≤ size) :
    (i + j) % size = if i + j < size then i + j else i + j - size := by
  split
  · exact Nat.mod_eq_of_lt ‹_›
  · rw [Nat.mod_eq_sub_mod (by omega), Nat.mod_eq_of_lt (by omega)]

namespace RingHolds

variable {size head tail : Nat} {buf : Nat → α} {items : List α} {item : α}

theorem tail_lt (holds : RingHolds size buf head tail items) : tail < size := by
  rw [holds.last]
  exact Nat.mod_lt _ (Nat.zero_lt_of_lt holds.first)

/-- The number of items, read from the two indices. -/
theorem length_eq (holds : RingHolds size buf head tail items) :
    items.length = if head ≤ tail then tail - head else size + tail - head := by
  have first := holds.first
  have short := holds.short
  have last := holds.last
  rw [ring_index first (Nat.le_of_lt short)] at last
  split at last <;> split <;> omega

theorem empty_iff (holds : RingHolds size buf head tail items) : head = tail ↔ items = [] := by
  have length := holds.length_eq
  have first := holds.first
  rw [← List.length_eq_zero_iff]
  split at length <;> omega

/-- An empty ring. -/
theorem nil (first : head < size) : RingHolds size buf head head [] where
  first := first
  short := Nat.zero_lt_of_lt first
  last := (Nat.mod_eq_of_lt first).symm
  cells := by simp

/-- The list of items is determined by the ring. -/
theorem unique {items' : List α} (holds : RingHolds size buf head tail items)
    (holds' : RingHolds size buf head tail items') : items = items' := by
  have same : items.length = items'.length := holds.length_eq.trans holds'.length_eq.symm
  apply List.ext_getElem same
  intro i bound bound'
  rw [← holds.cells i _ (List.getElem?_eq_getElem bound),
    ← holds'.cells i _ (List.getElem?_eq_getElem bound')]

/-- An item is stored behind the last one. -/
theorem push (item : α) (holds : RingHolds size buf head tail items) (room : items.length + 1 < size) :
    RingHolds size (update buf tail item) head ((tail + 1) % size) (items ++ [item]) where
  first := holds.first
  short := by simpa using room
  last := by
    rw [holds.last, List.length_append, List.length_singleton, Nat.mod_add_mod, Nat.add_assoc]
  cells i other at? := by
    rcases Nat.lt_trichotomy i items.length with inside | last | outside
    · rw [List.getElem?_append_left inside] at at?
      rw [Function.update_of_ne, holds.cells i other at?]
      rw [holds.last, ring_index holds.first (by omega), ring_index holds.first (by omega)]
      split <;> split <;> omega
    · subst last
      rw [List.getElem?_append_right (Nat.le_refl _), Nat.sub_self] at at?
      rw [← holds.last, Function.update_self]
      exact Option.some.inj at?
    · rw [List.getElem?_eq_none (by simp only [List.length_append, List.length_singleton]; omega)]
        at at?
      simp at at?

/-- The first item is taken. -/
theorem pop (holds : RingHolds size buf head tail (item :: items)) :
    buf head = item ∧ RingHolds size buf ((head + 1) % size) tail items := by
  constructor
  · have first := holds.cells 0 item rfl
    rwa [Nat.add_zero, Nat.mod_eq_of_lt holds.first] at first
  · refine ⟨Nat.mod_lt _ (Nat.zero_lt_of_lt holds.first), Nat.lt_of_succ_lt holds.short, ?_, ?_⟩
    · rw [holds.last, List.length_cons, Nat.mod_add_mod, Nat.add_assoc, Nat.add_comm 1]
    · intro i other at?
      rw [Nat.mod_add_mod, Nat.add_assoc, Nat.add_comm 1]
      apply holds.cells
      rwa [List.getElem?_cons_succ]

/-- The last item is taken back. -/
theorem unpush (holds : RingHolds size buf head tail (items ++ [item])) :
    buf ((tail + size - 1) % size) = item ∧
      RingHolds size buf head ((tail + size - 1) % size) items := by
  have first := holds.first
  have short : items.length + 1 < size := by simpa using holds.short
  have before : (tail + size - 1) % size = (head + items.length) % size := by
    have last := holds.last
    rw [List.length_append, List.length_singleton, ring_index first (by omega)] at last
    rw [show tail + size - 1 = (size - 1) + tail by omega, ring_index (by omega) (Nat.le_of_lt holds.tail_lt),
      ring_index first (by omega)]
    split at last <;> split <;> split <;> omega
  rw [before]
  constructor
  · apply holds.cells
    simp
  · refine ⟨first, by omega, rfl, fun i other at? => holds.cells i other ?_⟩
    have inside := (List.getElem?_eq_some_iff.mp at?).1
    rwa [List.getElem?_append_left inside]

end RingHolds

end Pegasos.Support
