import Mathlib.Algebra.BigOperators.Fin
import Mathlib.Algebra.Group.Fin.Basic
import Mathlib.Algebra.Group.Units.Equiv
import Pegasos.Support.Words

/-!
# Adding a word at many places

A relocator adds one word to the words at a list of addresses.  The words may overlap: an
addition carries from its low byte into its high byte, but not beyond.  Where some of the
addresses are too low, there is a memory that shows it (`exists_addAll_ne`).
-/

namespace Pegasos.Support

/-- Add a word to the word at an address, modulo 2^16. -/
def addAt (word : Nat) (bytes : Bytes) (addr : Nat) : Bytes :=
  poke bytes addr (peek bytes addr + word)

/-- Add a word to the words at the addresses of a list, one after the other. -/
def addAll (word : Nat) (bytes : Bytes) (addrs : List Nat) : Bytes :=
  addrs.foldl (addAt word) bytes

variable {word addr other place : Nat} {bytes bytes' : Bytes} {addrs : List Nat}

@[simp] theorem addAll_nil : addAll word bytes [] = bytes := rfl

@[simp] theorem addAll_cons :
    addAll word bytes (addr :: addrs) = addAll word (addAt word bytes addr) addrs := rfl

theorem addAt_apart (apart : other < addr ∨ addr + 2 ≤ other) :
    addAt word bytes addr other = bytes other :=
  poke_apart apart

theorem addAt_low :
    (addAt word bytes addr addr).toNat = ((bytes addr).toNat + word) % 0x100 := by
  simp only [addAt, poke, peek, if_true, UInt8.toNat_ofNat']
  omega

theorem addAt_high : (addAt word bytes addr (addr + 1)).toNat =
    ((bytes (addr + 1)).toNat + ((bytes addr).toNat + word) / 0x100) % 0x100 := by
  have apart : addr + 1 ≠ addr := by omega
  simp only [addAt, poke, peek, apart, if_false, if_true, UInt8.toNat_ofNat']
  omega

/-- An addition depends on its word alone. -/
theorem addAt_congr (low : bytes addr = bytes' addr) (high : bytes (addr + 1) = bytes' (addr + 1))
    (same : bytes other = bytes' other) :
    addAt word bytes addr other = addAt word bytes' addr other := by
  simp only [addAt, poke, peek, low, high, same]

theorem addAll_append {front back : List Nat} :
    addAll word bytes (front ++ back) = addAll word (addAll word bytes front) back :=
  List.foldl_append

/-- Memories that agree where the words are still agree there. -/
theorem addAll_agree {inside : Nat → Prop}
    (words : ∀ addr ∈ addrs, inside addr ∧ inside (addr + 1))
    (same : ∀ addr, inside addr → bytes addr = bytes' addr) (isInside : inside other) :
    addAll word bytes addrs other = addAll word bytes' addrs other := by
  induction addrs generalizing bytes bytes' with
  | nil => exact same other isInside
  | cons addr addrs ih =>
      obtain ⟨low, high⟩ := words addr List.mem_cons_self
      exact ih (fun later member => words later (List.mem_cons_of_mem _ member))
        fun near isNear => addAt_congr (same addr low) (same _ high) (same near isNear)

/-! ## Additions of 0x0101 at one place -/

/-- How often the additions at `place` carry into the high byte there. -/
def carries (place : Nat) : Bytes → List Nat → Nat
  | _, [] => 0
  | bytes, addr :: addrs =>
      (if addr = place ∧ bytes addr = 0xff then 1 else 0) +
        carries place (addAt 0x0101 bytes addr) addrs

theorem toNat_eq_ff (byte : UInt8) : byte = 0xff ↔ byte.toNat = 0xff := UInt8.toNat_inj.symm

/-- The byte behind `place` counts the additions at `place` and behind it, and the carries. -/
theorem addAll_behind : (addAll 0x0101 bytes addrs (place + 1)).toNat =
    ((bytes (place + 1)).toNat + addrs.count (place + 1) + addrs.count place +
      carries place bytes addrs) % 0x100 := by
  induction addrs generalizing bytes with
  | nil =>
      have small := (bytes (place + 1)).toNat_lt
      simp only [addAll_nil, List.count_nil, carries, Nat.add_zero]
      omega
  | cons addr addrs ih =>
      rw [addAll_cons, ih, carries, List.count_cons, List.count_cons]
      by_cases atPlace : addr = place
      · subst atPlace
        have small := (bytes addr).toNat_lt
        have apart : ¬addr = addr + 1 := by omega
        simp only [addAt_high, beq_iff_eq, if_true, apart, if_false, true_and, toNat_eq_ff]
        split <;> omega
      by_cases behind : addr = place + 1
      · subst behind
        have apart : ¬place + 1 = place := by omega
        simp only [addAt_low, beq_iff_eq, if_true, apart, if_false, false_and]
        omega
      · have same : addAt 0x0101 bytes addr (place + 1) = bytes (place + 1) :=
          addAt_apart (by omega)
        simp only [same, beq_iff_eq, atPlace, behind, if_false, false_and]
        omega

/-- Each addition moves the byte at `place` by two at most. -/
theorem carries_le : 0x100 * carries place bytes addrs + (addAll 0x0101 bytes addrs place).toNat ≤
    (bytes place).toNat + 2 * addrs.length := by
  induction addrs generalizing bytes with
  | nil => simp [carries]
  | cons addr addrs ih =>
      have rest := @ih (addAt 0x0101 bytes addr)
      have small := (bytes addr).toNat_lt
      rw [addAll_cons, carries, List.length_cons]
      by_cases atPlace : addr = place
      · subst atPlace
        simp only [addAt_low, true_and, toNat_eq_ff] at rest ⊢
        split <;> omega
      simp only [atPlace, false_and, if_false]
      by_cases before : addr + 1 = place
      · subst before
        have small := (bytes (addr + 1)).toNat_lt
        rw [addAt_high] at rest
        omega
      · have same : addAt 0x0101 bytes addr place = bytes place := addAt_apart (by omega)
        rw [same] at rest
        omega

/-- Whether the additions at `place` carry does not depend on the bytes behind it. -/
theorem carries_congr (same : ∀ other ≤ place, bytes other = bytes' other) :
    carries place bytes addrs = carries place bytes' addrs := by
  induction addrs generalizing bytes bytes' with
  | nil => rfl
  | cons addr addrs ih =>
      have head : (addr = place ∧ bytes addr = 0xff) ↔ (addr = place ∧ bytes' addr = 0xff) :=
        and_congr_right fun atPlace => by rw [same addr atPlace.le]
      have tail : ∀ other ≤ place,
          addAt 0x0101 bytes addr other = addAt 0x0101 bytes' addr other := by
        intro other upTo
        by_cases outside : other < addr ∨ addr + 2 ≤ other
        · rw [addAt_apart outside, addAt_apart outside, same other upTo]
        · apply UInt8.toNat_inj.mp
          rcases (show other = addr ∨ other = addr + 1 by omega) with rfl | rfl
          · rw [addAt_low, addAt_low, same other upTo]
          · rw [addAt_high, addAt_high, same addr (by omega), same _ upTo]
      simp only [carries, head, ih tail]

/-- An addition up to `place` moves the byte there by an amount that does not depend on it. -/
theorem exists_shift (bytes : Bytes) (place addr : Nat) : ∃ (bytes' : Bytes) (shift : UInt8),
    ∀ byte, ∀ other ≤ place, addAt 0x0101 (pokeByte bytes place byte) addr other =
      pokeByte bytes' place (byte + shift) other := by
  by_cases atPlace : addr = place
  · subst atPlace
    refine ⟨bytes, 1, fun byte other upTo => ?_⟩
    by_cases self : other = addr
    · subst self
      apply UInt8.toNat_inj.mp
      simp only [addAt_low, pokeByte, if_true, UInt8.toNat_add, UInt8.toNat_one]
      omega
    · rw [addAt_apart (by omega)]
      simp only [pokeByte, self, if_false]
  by_cases before : addr + 1 = place
  · subst before
    refine ⟨addAt 0x0101 bytes addr, UInt8.ofNat (((bytes addr).toNat + 0x0101) / 0x100),
      fun byte other upTo => ?_⟩
    apply UInt8.toNat_inj.mp
    by_cases last : other = addr + 1
    · subst last
      simp only [addAt_high, pokeByte, if_true, if_neg atPlace, UInt8.toNat_add,
        UInt8.toNat_ofNat']
      omega
    by_cases first : other = addr
    · subst first
      simp only [addAt_low, pokeByte, if_neg atPlace]
    · rw [addAt_apart (by omega)]
      simp only [pokeByte, last, if_false]
      rw [addAt_apart (by omega)]
  · refine ⟨addAt 0x0101 bytes addr, 0, fun byte other upTo => ?_⟩
    rw [UInt8.add_zero]
    by_cases self : other = place
    · subst self
      rw [addAt_apart (by omega)]
      simp only [pokeByte, if_true]
    · have same : ∀ near, near ≠ place → pokeByte bytes place byte near = bytes near :=
        fun near ne => if_neg ne
      simp only [pokeByte, self, if_false]
      exact addAt_congr (same addr atPlace) (same (addr + 1) before) (same other self)

/-- Over all values of the byte at `place`, there are as many carries as additions. -/
theorem sum_carries :
    ∑ byte : Fin 256, carries place (pokeByte bytes place (UInt8.ofFin byte)) addrs =
      addrs.count place := by
  induction addrs generalizing bytes with
  | nil => simp [carries]
  | cons addr addrs ih =>
      obtain ⟨bytes', shift, moved⟩ := exists_shift bytes place addr
      have tail : ∑ byte : Fin 256, carries place
          (addAt 0x0101 (pokeByte bytes place (UInt8.ofFin byte)) addr) addrs =
            addrs.count place := by
        rw [← @ih bytes', ← Equiv.sum_comp (Equiv.addRight shift.toFin) fun byte : Fin 256 =>
          carries place (pokeByte bytes' place (UInt8.ofFin byte)) addrs]
        exact Finset.sum_congr rfl fun byte _ => carries_congr (moved (UInt8.ofFin byte))
      simp only [carries, Finset.sum_add_distrib, tail, List.count_cons]
      by_cases atPlace : addr = place
      · subst atPlace
        have once : ∀ byte : Fin 256,
            pokeByte bytes addr (UInt8.ofFin byte) addr = 0xff ↔ byte = 255 := by
          intro byte
          simp only [pokeByte, if_true]
          exact ⟨fun same => congrArg UInt8.toFin same, fun same => congrArg UInt8.ofFin same⟩
        simp only [true_and, once, Finset.sum_ite_eq', Finset.mem_univ, if_true, beq_self_eq_true]
        omega
      · simp [atPlace]

/-! ## Addresses that are too low -/

theorem countP_lt_of_mem {α : Type} {weak strong : α → Bool} {list : List α} {item : α}
    (imp : ∀ other ∈ list, strong other → weak other) (member : item ∈ list) (holds : weak item)
    (fails : ¬strong item) : list.countP strong < list.countP weak := by
  obtain ⟨front, back, rfl⟩ := List.append_of_mem member
  have before := List.countP_mono_left (l := front) fun other inFront =>
    imp other (List.mem_append_left _ inFront)
  have after := List.countP_mono_left (l := back) fun other inBack =>
    imp other (List.mem_append_right _ (List.mem_cons_of_mem _ inBack))
  simp only [List.countP_append, List.countP_cons, holds, fails, if_true]
  simp only [Bool.false_eq_true, if_false]
  omega

/-- Numbers of additions that make no difference to any byte at `place`. -/
theorem eq_of_carries {more fewer : Nat} {carry carry' : Fin 256 → Nat}
    (sum : ∑ byte, carry byte = more) (sum' : ∑ byte, carry' byte = fewer)
    (small : ∀ byte, carry byte < 0x100) (small' : ∀ byte, carry' byte < 0x100)
    (same : ∀ byte, (more + carry byte) % 0x100 = (fewer + carry' byte) % 0x100) :
    more = fewer := by
  have each : ∀ byte ∈ Finset.univ,
      (256 : Int) ∣ (carry byte : Int) - carry' byte + ((more : Int) - fewer) := by
    intro byte _
    have := same byte
    omega
  have total := Finset.dvd_sum each
  simp only [Finset.sum_add_distrib, Finset.sum_sub_distrib, ← Nat.cast_sum, sum, sum',
    Finset.sum_const, Finset.card_univ, Fintype.card_fin, nsmul_eq_mul] at total
  have equal : ∀ byte ∈ Finset.univ, carry byte = carry' byte := by
    intro byte _
    have := same byte
    have := small byte
    have := small' byte
    omega
  rw [← sum, ← sum', Finset.sum_congr rfl equal]

/-- Where some addresses of a list are replaced by lower ones, a memory of zeros but for one
byte tells the two lists apart by the addition of 0x0101. -/
theorem exists_addAll_ne {moves : List (Nat × Nat)} (few : moves.length ≤ 0x4000)
    (down : ∀ move ∈ moves, move.2 ≤ move.1) (moved : ∃ move ∈ moves, move.2 < move.1) :
    ∃ (bytes : Bytes) (place : Nat), place ∈ moves.map Prod.fst ∧
      addAll 0x0101 bytes (moves.map Prod.fst) (place + 1) ≠
        addAll 0x0101 bytes (moves.map Prod.snd) (place + 1) := by
  -- the highest address that is replaced
  obtain ⟨move, member, highest⟩ := Finset.exists_max_image
    (moves.toFinset.filter fun move => move.2 < move.1) Prod.fst
    (by obtain ⟨move, member, lower⟩ := moved; exact ⟨move, by simp [member, lower]⟩)
  simp only [Finset.mem_filter, List.mem_toFinset] at member highest
  obtain ⟨place, isPlace⟩ : ∃ place, place = move.1 := ⟨_, rfl⟩
  rw [← isPlace] at highest member
  have fixed : ∀ other ∈ moves, place < other.1 → other.2 = other.1 := by
    intro other inMoves above
    by_contra ne
    have := highest other ⟨inMoves, lt_of_le_of_ne (down other inMoves) ne⟩
    omega
  have behind : (moves.map Prod.fst).count (place + 1) =
      (moves.map Prod.snd).count (place + 1) := by
    simp only [List.count, List.countP_map]
    refine List.countP_congr fun other inMoves => ?_
    have := fixed other inMoves
    have := down other inMoves
    simp only [Function.comp, beq_iff_eq]
    omega
  have fewer : (moves.map Prod.snd).count place < (moves.map Prod.fst).count place := by
    simp only [List.count, List.countP_map]
    refine countP_lt_of_mem (fun other inMoves atPlace => ?_) member.1 ?_ ?_
    · have := fixed other inMoves
      have := down other inMoves
      simp only [Function.comp, beq_iff_eq] at atPlace ⊢
      omega
    · simp [isPlace]
    · simp only [Function.comp, beq_iff_eq]
      omega
  by_contra none
  simp only [not_exists, not_and, not_not] at none
  have isFirst : place ∈ moves.map Prod.fst := isPlace ▸ List.mem_map_of_mem member.1
  have bound : ∀ addrs : List Nat, addrs.length ≤ 0x4000 → ∀ byte : Fin 256,
      carries place (pokeByte (fun _ => 0) place (UInt8.ofFin byte)) addrs < 0x100 := by
    intro addrs short byte
    have := @carries_le place (pokeByte (fun _ => 0) place (UInt8.ofFin byte)) addrs
    have := (pokeByte (fun _ => 0) place (UInt8.ofFin byte) place).toNat_lt
    omega
  refine fewer.ne' (eq_of_carries sum_carries sum_carries (bound _ (by simpa using few))
    (bound _ (by simpa using few)) fun byte => ?_)
  have equal := congrArg UInt8.toNat
    (none (pokeByte (fun _ => 0) place (UInt8.ofFin byte)) place isFirst)
  rw [addAll_behind, addAll_behind, behind] at equal
  omega

end Pegasos.Support
