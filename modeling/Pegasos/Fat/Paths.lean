import Mathlib.Data.List.TakeWhile
import Pegasos.Fat.Names

/-!
# Elements of paths

`path_next_dir_ele` finds the next element of a path behind the separators.  The elements that
it finds, one after the other, are those between the separators of the path.
-/

namespace Pegasos.Fat

/-- The next element of a path from a place on. -/
def nextEle (sep : UInt8 → Bool) (fn : List UInt8) (start : Nat) : Substr :=
  let rest := fn.drop start
  let skipped := (rest.takeWhile sep).length
  { start := start + skipped
    len := ((rest.drop skipped).takeWhile fun ch => !sep ch).length }

/-- What is between the separators of a path. -/
def elements (sep : UInt8 → Bool) (path : List UInt8) : List (List UInt8) :=
  (path.splitOnP sep).filter (· ≠ [])

/-- The bytes of an element. -/
def Substr.bytes (ss : Substr) (fn : List UInt8) : List UInt8 := (fn.drop ss.start).take ss.len

variable {sep : UInt8 → Bool} {fn path ele rest : List UInt8} {start : Nat}

@[simp] theorem elements_nil : elements sep [] = [] := by simp [elements]

theorem elements_separators (all : ∀ ch ∈ rest, sep ch = true) :
    elements sep (rest ++ path) = elements sep path := by
  induction rest with
  | nil => rfl
  | cons ch rest ih =>
      have first : sep ch = true := all ch List.mem_cons_self
      rw [← ih fun ch member => all ch (List.mem_cons_of_mem _ member), List.cons_append, elements,
        List.splitOnP_cons_eq_if_modifyHead, if_pos first, List.filter_cons_of_neg (by simp),
        elements]

/-- An element and what is behind it. -/
theorem elements_append (some : ele ≠ []) (free : ∀ ch ∈ ele, sep ch = false)
    (ends : ∀ ch ∈ path.head?, sep ch = true) :
    elements sep (ele ++ path) = ele :: elements sep path := by
  cases path with
  | nil =>
      rw [List.append_nil, elements_nil, elements, List.splitOnP_eq_singleton free,
        List.filter_cons_of_pos (by simpa using some), List.filter_nil]
  | cons ch path =>
      have isSep : sep ch = true := ends ch rfl
      rw [elements, List.splitOnP_append_cons_of_forall_mem free ch isSep,
        List.filter_cons_of_pos (by simpa using some), elements,
        List.splitOnP_cons_eq_if_modifyHead, if_pos isSep, List.filter_cons_of_neg (by simp)]

theorem splitOnP_spec (member : ele ∈ path.splitOnP sep) :
    ∀ ch ∈ ele, sep ch = false ∧ ch ∈ path := by
  induction path generalizing ele with
  | nil =>
      rw [List.splitOnP_nil, List.mem_singleton] at member
      subst member
      exact fun ch isIn => nomatch isIn
  | cons first path ih =>
      have more := @ih
      rw [List.splitOnP_cons_eq_if_modifyHead] at member
      split at member
      · rcases List.mem_cons.mp member with rfl | member
        · exact fun ch isIn => nomatch isIn
        · exact fun ch isIn => (more member ch isIn).imp_right (List.mem_cons_of_mem first)
      · next other =>
          obtain ⟨head, rest, split⟩ := List.exists_cons_of_ne_nil (List.splitOnP_ne_nil sep path)
          rw [split] at member more
          rw [List.modifyHead_cons] at member
          rcases List.mem_cons.mp member with rfl | member
          · intro ch isIn
            rcases List.mem_cons.mp isIn with rfl | isIn
            · exact ⟨Bool.eq_false_of_not_eq_true other, List.mem_cons_self⟩
            · exact (more List.mem_cons_self ch isIn).imp_right (List.mem_cons_of_mem first)
          · exact fun ch isIn => (more (List.mem_cons_of_mem _ member) ch isIn).imp_right
              (List.mem_cons_of_mem first)

/-- The elements are made of the characters of the path. -/
theorem elements_spec (member : ele ∈ elements sep path) :
    ele ≠ [] ∧ ∀ ch ∈ ele, sep ch = false ∧ ch ∈ path := by
  obtain ⟨piece, some⟩ := List.mem_filter.mp member
  exact ⟨of_decide_eq_true some, splitOnP_spec piece⟩

/-- A path with these elements. -/
def joined (ch : UInt8) : List (List UInt8) → List UInt8
  | [] => []
  | ele :: rest => ele ++ ch :: joined ch rest

theorem elements_joined {ch : UInt8} {all : List (List UInt8)} (isSep : sep ch = true)
    (some : ∀ ele ∈ all, ele ≠ []) (free : ∀ ele ∈ all, ∀ ch ∈ ele, sep ch = false) :
    elements sep (joined ch all) = all := by
  induction all with
  | nil => exact elements_nil
  | cons ele rest ih =>
      have later := ih (fun ele member => some ele (List.mem_cons_of_mem _ member))
        fun ele member => free ele (List.mem_cons_of_mem _ member)
      have ends : ∀ a ∈ (ch :: joined ch rest).head?, sep a = true := by
        rintro a ⟨⟩
        exact isSep
      have skip := @elements_separators sep (joined ch rest) [ch] (by simpa using isSep)
      rw [joined, elements_append (some ele List.mem_cons_self) (free ele List.mem_cons_self) ends]
      rw [List.singleton_append] at skip
      rw [skip, later]

theorem not_mem_joined {a ch : UInt8} {all : List (List UInt8)} (other : a ≠ ch)
    (free : ∀ ele ∈ all, a ∉ ele) : a ∉ joined ch all := by
  induction all with
  | nil => exact List.not_mem_nil
  | cons ele rest ih =>
      have later := ih fun ele member => free ele (List.mem_cons_of_mem _ member)
      rw [joined, List.mem_append, List.mem_cons, not_or, not_or]
      exact ⟨free ele List.mem_cons_self, other, later⟩

/-- The elements of a path with a separator in it. -/
theorem elements_split {ch : UInt8} {front : List UInt8} (isSep : sep ch = true) :
    elements sep (front ++ ch :: path) = elements sep front ++ elements sep path := by
  rw [elements, List.splitOnP_append_cons front path isSep, List.filter_append, elements, elements]

section Split

variable {α : Type} (p : α → Bool) (l : List α)

theorem drop_takeWhile : l.drop (l.takeWhile p).length = l.dropWhile p := by
  have split := @List.drop_left _ (l.takeWhile p) (l.dropWhile p)
  rwa [List.takeWhile_append_dropWhile] at split

theorem take_takeWhile : l.take (l.takeWhile p).length = l.takeWhile p := by
  have split := @List.take_left _ (l.takeWhile p) (l.dropWhile p)
  rwa [List.takeWhile_append_dropWhile] at split

/-- What is left begins with something else. -/
theorem head?_dropWhile_ne : ∀ a ∈ (l.dropWhile p).head?, p a = false := by
  intro a first
  have head := List.head?_dropWhile_not p l
  rw [Option.mem_def] at first
  rwa [first] at head

end Split

/-- The next element, and the elements behind it. -/
theorem elements_nextEle (sep : UInt8 → Bool) (fn : List UInt8) (start : Nat) :
    ((nextEle sep fn start).len = 0 ∧ elements sep (fn.drop start) = []) ∨
      (nextEle sep fn start).len ≠ 0 ∧
        elements sep (fn.drop start) = (nextEle sep fn start).bytes fn ::
          elements sep (fn.drop ((nextEle sep fn start).start + (nextEle sep fn start).len)) ∧
        ∀ ch ∈ (fn.drop ((nextEle sep fn start).start + (nextEle sep fn start).len)).head?,
          sep ch = true := by
  generalize whole : fn.drop start = rest
  have place : fn.drop (nextEle sep fn start).start = rest.dropWhile sep := by
    rw [← drop_takeWhile, ← whole, List.drop_drop]
    rfl
  have length : (nextEle sep fn start).len =
      ((rest.dropWhile sep).takeWhile fun ch => !sep ch).length := by
    rw [← drop_takeWhile, ← whole]
    rfl
  have bytes : (nextEle sep fn start).bytes fn = (rest.dropWhile sep).takeWhile fun ch => !sep ch := by
    rw [Substr.bytes, place, length, take_takeWhile]
  have behind : fn.drop ((nextEle sep fn start).start + (nextEle sep fn start).len) =
      (rest.dropWhile sep).dropWhile fun ch => !sep ch := by
    rw [← List.drop_drop, place, length, drop_takeWhile]
  have front : elements sep rest = elements sep (rest.dropWhile sep) := by
    have all : ∀ ch ∈ rest.takeWhile sep, sep ch = true := fun ch => List.mem_takeWhile_imp
    have skip := @elements_separators sep (rest.dropWhile sep) _ all
    rwa [List.takeWhile_append_dropWhile] at skip
  rw [bytes, behind, length, front]
  have first := head?_dropWhile_ne sep rest
  generalize rest.dropWhile sep = rest at first
  have free : ∀ ch ∈ rest.takeWhile fun ch => !sep ch, sep ch = false := by
    intro ch member
    simpa using List.mem_takeWhile_imp member
  have ends : ∀ ch ∈ (rest.dropWhile fun ch => !sep ch).head?, sep ch = true := by
    intro ch member
    simpa using head?_dropWhile_ne (fun ch => !sep ch) rest ch member
  by_cases empty : rest.takeWhile (fun ch => !sep ch) = []
  · refine .inl ⟨by rw [empty]; rfl, ?_⟩
    cases rest with
    | nil => exact elements_nil
    | cons ch rest =>
        rw [List.takeWhile_cons_of_pos (by simpa using first ch rfl)] at empty
        exact nomatch empty
  · refine .inr ⟨by simpa using empty, ?_, ends⟩
    have split := elements_append empty free ends
    rwa [List.takeWhile_append_dropWhile] at split

/-- Where the next element is. -/
theorem nextEle_inside (sep : UInt8 → Bool) (fn : List UInt8) (start : Nat)
    (some : (nextEle sep fn start).len ≠ 0) :
    start ≤ (nextEle sep fn start).start ∧
      (nextEle sep fn start).start + (nextEle sep fn start).len ≤ fn.length := by
  refine ⟨Nat.le_add_right _ _, ?_⟩
  have shorter :
      ((fn.drop (nextEle sep fn start).start).takeWhile fun ch => !sep ch).length ≤
        (fn.drop (nextEle sep fn start).start).length := (List.takeWhile_sublist _).length_le
  have length : (nextEle sep fn start).len =
      ((fn.drop (nextEle sep fn start).start).takeWhile fun ch => !sep ch).length := by
    simp only [nextEle, List.drop_drop]
  rw [List.length_drop, ← length] at shorter
  omega

theorem bytes_length (sep : UInt8 → Bool) (fn : List UInt8) (start : Nat)
    (some : (nextEle sep fn start).len ≠ 0) :
    ((nextEle sep fn start).bytes fn).length = (nextEle sep fn start).len := by
  have inside := nextEle_inside sep fn start some
  rw [Substr.bytes, List.length_take, List.length_drop]
  omega

/-- The next element in memory. -/
theorem nextEle_inMemory (seps : ∀ ch, sep ch = true → ch = SLASH ∨ ch = BACKSLASH)
    (fn : List UInt8) (start : Nat) (some : (nextEle sep fn start).len ≠ 0) :
    InMemory (stringAt fn (nextEle sep fn start).start) ((nextEle sep fn start).bytes fn) := by
  have length := bytes_length sep fn start some
  have inside := nextEle_inside sep fn start some
  refine ⟨fun i less => ?_, ?_⟩
  · rw [stringAt, getD_of_lt (by omega)]
    simp [Substr.bytes]
  · rw [length, stringAt, List.getD_eq_getElem?_getD, ← List.head?_drop]
    rcases elements_nextEle sep fn start with ⟨none, -⟩ | ⟨-, -, ends⟩
    · exact absurd none some
    · cases first : (fn.drop ((nextEle sep fn start).start + (nextEle sep fn start).len)).head? with
      | none => exact .inl rfl
      | some ch => exact .inr (seps ch (ends ch first))

/-- The next element is `ele`, with the elements `rest` behind it. -/
structure NextIs (sep : UInt8 → Bool) (fn : List UInt8) (start : Nat) (ele : List UInt8)
    (rest : List (List UInt8)) : Prop where
  some : (nextEle sep fn start).len ≠ 0
  length : ele.length = (nextEle sep fn start).len
  inMemory : InMemory (stringAt fn (nextEle sep fn start).start) ele
  behind : elements sep (fn.drop ((nextEle sep fn start).start + (nextEle sep fn start).len)) = rest
  later : start < (nextEle sep fn start).start + (nextEle sep fn start).len
  inside : (nextEle sep fn start).start + (nextEle sep fn start).len ≤ fn.length

theorem nextEle_cons (seps : ∀ ch, sep ch = true → ch = SLASH ∨ ch = BACKSLASH)
    {rest : List (List UInt8)} (split : elements sep (fn.drop start) = ele :: rest) :
    NextIs sep fn start ele rest := by
  rcases elements_nextEle sep fn start with ⟨-, none⟩ | ⟨some, more, -⟩
  · rw [none] at split
    exact nomatch split
  · obtain ⟨rfl, behind⟩ := List.cons.inj (more.symm.trans split)
    have inside := nextEle_inside sep fn start some
    exact ⟨some, bytes_length sep fn start some, nextEle_inMemory seps fn start some, behind,
      by omega, inside.2⟩

theorem nextEle_none (none : elements sep (fn.drop start) = []) : (nextEle sep fn start).len = 0 := by
  rcases elements_nextEle sep fn start with ⟨last, -⟩ | ⟨-, more, -⟩
  · exact last
  · exact nomatch more.symm.trans none

end Pegasos.Fat
