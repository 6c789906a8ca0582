import Mathlib.Data.List.Induction
import Mathlib.Logic.Function.Basic
import Mathlib.Tactic.Common

/-!
# Stacks of words

A stack of 16-bit words in a byte memory grows down from a stack pointer.  The offsets of
the stack lead to addresses of the memory; two offsets do not lead to the same address.
What has been pushed can be loaded from the stack pointer up, as long as the bytes in
between are left alone.
-/

namespace Pegasos.Support

open Function (update)

universe u

variable {Addr : Type u}

/-- The word at an offset, low byte first. -/
def loadWord (place : BitVec 16 → Addr) (mem : Addr → BitVec 8) (offs : BitVec 16) : BitVec 16 :=
  mem (place (offs + 1)) ++ mem (place offs)

/-- The words from an offset up. -/
def loadWords (place : BitVec 16 → Addr) (mem : Addr → BitVec 8) :
    BitVec 16 → Nat → List (BitVec 16)
  | _, 0 => []
  | offs, count + 1 => loadWord place mem offs :: loadWords place mem (offs + 2) count

theorem length_loadWords (place : BitVec 16 → Addr) (mem : Addr → BitVec 8) (offs : BitVec 16)
    (count : Nat) : (loadWords place mem offs count).length = count := by
  induction count generalizing offs with
  | zero => rfl
  | succ count ih => exact congrArg (· + 1) (ih _)

theorem loadWords_add (place : BitVec 16 → Addr) (mem : Addr → BitVec 8) (offs : BitVec 16)
    (count more : Nat) : loadWords place mem offs (count + more) =
      loadWords place mem offs count ++
        loadWords place mem (offs + BitVec.ofNat 16 (2 * count)) more := by
  induction count generalizing offs with
  | zero => simp [loadWords]
  | succ count ih =>
      have shift : offs + BitVec.ofNat 16 (2 * (count + 1)) =
          offs + 2 + BitVec.ofNat 16 (2 * count) := by
        rw [Nat.mul_succ, BitVec.ofNat_add]
        bv_omega
      rw [Nat.succ_add, loadWords, loadWords, ih, shift, List.cons_append]

theorem getElem?_loadWords {place : BitVec 16 → Addr} {mem : Addr → BitVec 8} {offs : BitVec 16}
    {count i : Nat} (less : i < count) :
    (loadWords place mem offs count)[i]? =
      some (loadWord place mem (offs + BitVec.ofNat 16 (2 * i))) := by
  obtain ⟨more, rfl⟩ := Nat.exists_eq_add_of_lt less
  rw [Nat.add_assoc, loadWords_add, List.getElem?_append_right (Nat.le_of_eq (length_loadWords ..)),
    length_loadWords, Nat.sub_self]
  rfl

theorem loadWord_of_loadWords {place : BitVec 16 → Addr} {mem : Addr → BitVec 8}
    {offs word : BitVec 16} {count i : Nat} {words : List (BitVec 16)}
    (all : loadWords place mem offs count = words) (isWord : words[i]? = some word) :
    loadWord place mem (offs + BitVec.ofNat 16 (2 * i)) = word := by
  subst all
  have less := (List.getElem?_eq_some_iff.mp isWord).1
  rw [length_loadWords] at less
  exact Option.some.inj ((getElem?_loadWords less).symm.trans isWord)

/-- So many bytes from an offset up are the same in two memories. -/
def SameFrom (place : BitVec 16 → Addr) (mem mem' : Addr → BitVec 8) (offs : BitVec 16)
    (count : Nat) : Prop :=
  ∀ i < count, mem' (place (offs + BitVec.ofNat 16 i)) = mem (place (offs + BitVec.ofNat 16 i))

variable [DecidableEq Addr]

/-- Store a word at an offset. -/
def storeWord (place : BitVec 16 → Addr) (mem : Addr → BitVec 8) (offs word : BitVec 16) :
    Addr → BitVec 8 :=
  update (update mem (place offs) (word.setWidth 8)) (place (offs + 1)) ((word >>> 8).setWidth 8)

/-- Push words, the first one first: the memory and the stack pointer afterwards. -/
def pushWords (place : BitVec 16 → Addr) :
    (Addr → BitVec 8) → BitVec 16 → List (BitVec 16) → (Addr → BitVec 8) × BitVec 16
  | mem, sp, [] => (mem, sp)
  | mem, sp, word :: words => pushWords place (storeWord place mem (sp - 2) word) (sp - 2) words

variable {place : BitVec 16 → Addr} {mem mem' : Addr → BitVec 8} {offs sp word : BitVec 16}
variable {words : List (BitVec 16)} {count : Nat}

omit [DecidableEq Addr] in
theorem SameFrom.loadWords (same : SameFrom place mem mem' offs (2 * count)) :
    loadWords place mem' offs count = loadWords place mem offs count := by
  induction count generalizing offs with
  | zero => rfl
  | succ count ih =>
      have low := same 0 (by omega)
      have high := same 1 (by omega)
      have later : SameFrom place mem mem' (offs + 2) (2 * count) := by
        intro i less
        have next := same (i + 2) (by omega)
        have shift : offs + BitVec.ofNat 16 (i + 2) = offs + 2 + BitVec.ofNat 16 i := by
          rw [BitVec.ofNat_add]
          bv_omega
        rwa [shift] at next
      rw [BitVec.add_zero] at low
      simp only [Support.loadWords, loadWord, ih later, low]
      rw [show (1 : BitVec 16) = BitVec.ofNat 16 1 from rfl, high]

omit [DecidableEq Addr] in
theorem SameFrom.trans {mem'' : Addr → BitVec 8} (same : SameFrom place mem mem' offs count)
    (same' : SameFrom place mem' mem'' offs count) : SameFrom place mem mem'' offs count :=
  fun i less => (same' i less).trans (same i less)

omit [DecidableEq Addr] in
theorem SameFrom.drop {skip : Nat} (same : SameFrom place mem mem' offs (skip + count)) :
    SameFrom place mem mem' (offs + BitVec.ofNat 16 skip) count := by
  intro i less
  have next := same (skip + i) (by omega)
  rwa [BitVec.ofNat_add, ← BitVec.add_assoc] at next

/-- A word is stored somewhere else. -/
theorem sameFrom_storeWord {place' : BitVec 16 → Addr} {other : BitVec 16}
    (apart : ∀ i < count, place (offs + BitVec.ofNat 16 i) ≠ place' other ∧
      place (offs + BitVec.ofNat 16 i) ≠ place' (other + 1)) :
    SameFrom place mem (storeWord place' mem other word) offs count := by
  intro i less
  rw [storeWord, Function.update_of_ne (apart i less).2, Function.update_of_ne (apart i less).1]

section Injective

variable (injective : Function.Injective place)
include injective

theorem loadWord_storeWord_self : loadWord place (storeWord place mem offs word) offs = word := by
  have apart : place offs ≠ place (offs + 1) := fun same => by
    have := injective same
    bv_omega
  rw [loadWord, storeWord, Function.update_self, Function.update_of_ne apart, Function.update_self]
  apply BitVec.eq_of_getLsbD_eq
  intro i less
  rw [BitVec.getLsbD_append]
  by_cases low : i < 8
  · simp [low]
  · have index : 8 + (i - 8) = i := by omega
    simp [low, index]
    omega

theorem storeWord_apart {other : BitVec 16} (first : other ≠ offs) (second : other ≠ offs + 1) :
    storeWord place mem offs word (place other) = mem (place other) := by
  rw [storeWord, Function.update_of_ne fun same => second (injective same),
    Function.update_of_ne fun same => first (injective same)]

theorem loadWord_storeWord_apart {other : BitVec 16} (at' : other ≠ offs) (above : other ≠ offs + 1)
    (below : other + 1 ≠ offs) :
    loadWord place (storeWord place mem offs word) other = loadWord place mem other := by
  rw [loadWord, storeWord_apart injective at' above, storeWord_apart injective below, loadWord]
  bv_omega

omit injective in
theorem pushWords_append (words more : List (BitVec 16)) :
    pushWords place mem sp (words ++ more) =
      pushWords place (pushWords place mem sp words).1 (pushWords place mem sp words).2 more := by
  induction words generalizing mem sp with
  | nil => rfl
  | cons word words ih => exact ih

omit injective in
theorem pushWords_sp (words : List (BitVec 16)) :
    (pushWords place mem sp words).2 = sp - BitVec.ofNat 16 (2 * words.length) := by
  induction words generalizing mem sp with
  | nil => simp [pushWords]
  | cons word words ih =>
      rw [pushWords, ih, List.length_cons, Nat.mul_succ, BitVec.ofNat_add]
      bv_omega

/-- Pushing stores below the stack pointer only. -/
theorem pushWords_above (words : List (BitVec 16)) {i : Nat}
    (room : 2 * words.length + i < 0x10000) :
    (pushWords place mem sp words).1 (place (sp + BitVec.ofNat 16 i)) =
      mem (place (sp + BitVec.ofNat 16 i)) := by
  induction words generalizing mem sp i with
  | nil => rfl
  | cons word words ih =>
      rw [List.length_cons] at room
      have shift : sp + BitVec.ofNat 16 i = sp - 2 + BitVec.ofNat 16 (i + 2) := by
        rw [BitVec.ofNat_add]
        bv_omega
      rw [pushWords, shift, ih (by omega), ← shift]
      apply storeWord_apart injective
      · bv_omega
      · bv_omega

omit injective in
/-- Pushing stores nowhere else. -/
theorem pushWords_apart (words : List (BitVec 16)) {addr : Addr}
    (apart : ∀ i < 2 * words.length, addr ≠ place (sp - BitVec.ofNat 16 (i + 1))) :
    (pushWords place mem sp words).1 addr = mem addr := by
  induction words generalizing mem sp with
  | nil => rfl
  | cons word words ih =>
      rw [List.length_cons, Nat.mul_succ] at apart
      have low := apart 1 (by omega)
      have high := apart 0 (by omega)
      have later : ∀ i < 2 * words.length, addr ≠ place (sp - 2 - BitVec.ofNat 16 (i + 1)) := by
        intro i less
        have next := apart (i + 2) (by omega)
        have shift : sp - BitVec.ofNat 16 (i + 2 + 1) = sp - 2 - BitVec.ofNat 16 (i + 1) := by
          rw [Nat.add_right_comm, BitVec.ofNat_add]
          bv_omega
        rwa [shift] at next
      have second : sp - 2 + 1 = sp - BitVec.ofNat 16 (0 + 1) := by bv_omega
      rw [pushWords, ih later, storeWord, second, Function.update_of_ne high]
      exact Function.update_of_ne low _ _

/-- What has been pushed is on the stack, the last word first. -/
theorem loadWords_pushWords (mem : Addr → BitVec 8) (sp : BitVec 16) (words : List (BitVec 16))
    (room : 2 * words.length < 0x10000) :
    loadWords place (pushWords place mem sp words).1 (pushWords place mem sp words).2
      words.length = words.reverse := by
  induction words using List.reverseRecOn with
  | nil => rfl
  | append_singleton words word ih =>
      rw [List.length_append, List.length_singleton] at room
      have before := ih (by omega)
      rw [pushWords_append, List.reverse_concat, List.length_append, List.length_singleton]
      simp only [pushWords, loadWords, loadWord_storeWord_self injective]
      congr 1
      rw [← before]
      have same : SameFrom place (pushWords place mem sp words).1
          (storeWord place (pushWords place mem sp words).1
            ((pushWords place mem sp words).2 - 2) word)
          (pushWords place mem sp words).2 (2 * words.length) := by
        intro i less
        apply storeWord_apart injective
        · bv_omega
        · bv_omega
      rw [show (pushWords place mem sp words).2 - 2 + 2 = (pushWords place mem sp words).2 by bv_omega]
      exact same.loadWords

/-- What has been pushed, and what was on the stack before. -/
theorem loadWords_pushWords_add (mem : Addr → BitVec 8) (sp : BitVec 16) (words : List (BitVec 16))
    (count : Nat) (room : 2 * (words.length + count) < 0x10000) :
    loadWords place (pushWords place mem sp words).1 (pushWords place mem sp words).2
      (words.length + count) = words.reverse ++ loadWords place mem sp count := by
  rw [loadWords_add, loadWords_pushWords injective mem sp words (by omega)]
  have behind : (pushWords place mem sp words).2 + BitVec.ofNat 16 (2 * words.length) = sp := by
    rw [pushWords_sp]
    bv_omega
  rw [behind]
  congr 1
  refine SameFrom.loadWords fun i less => ?_
  exact pushWords_above injective words (by omega)

/-- Storing a word of a stretch changes this word. -/
theorem loadWords_storeWord {i : Nat} (less : i < count) (room : 2 * count ≤ 0x10000) :
    loadWords place (storeWord place mem (offs + BitVec.ofNat 16 (2 * i)) word) offs count =
      (loadWords place mem offs count).set i word := by
  refine List.ext_getElem? fun j => ?_
  rw [List.getElem?_set, length_loadWords]
  by_cases inside : j < count
  · rw [getElem?_loadWords inside, getElem?_loadWords inside]
    by_cases same : i = j
    · subst same
      rw [if_pos rfl, if_pos less, loadWord_storeWord_self injective]
    · rw [if_neg same, loadWord_storeWord_apart injective]
      all_goals bv_omega
  · have outside : ∀ mem : Addr → BitVec 8, (loadWords place mem offs count)[j]? = none := by
      intro mem
      rw [List.getElem?_eq_none_iff, length_loadWords]
      omega
    have other : i ≠ j := by omega
    rw [outside, outside, if_neg other]

end Injective

end Pegasos.Support
