import Mathlib.Data.UInt
import Mathlib.Tactic.Common

/-!
# Names in directories

`path_parse_fn`, which is the same in both copies of the FAT code: a name of a path becomes
the 11 bytes of a directory entry.
-/

namespace Pegasos.Fat

def SPACE : UInt8 := 32
def DOT : UInt8 := 46
def SLASH : UInt8 := 47
def BACKSLASH : UInt8 := 92

/-- `toupper`. -/
def toupper (ch : UInt8) : UInt8 := if 97 ≤ ch ∧ ch ≤ 122 then ch - 32 else ch

/-- The memory from a pointer into a string on. -/
def stringAt (fn : List UInt8) (start : Nat) : Nat → UInt8 := fun i => fn.getD (start + i) 0

/-- The characters of the base name: those before the end or the first dot, at most 8. -/
def baseLen (src : Nat → UInt8) (len : Nat) : Nat :=
  ((List.range 8).find? fun d => d = len ∨ src d = DOT).getD 8

/-- The characters of the extension that begins at `s`: those before the end, at most 3. -/
def extLen (s len : Nat) : Nat := ((List.range 3).find? fun j => s + j = len).getD 3

/-- `path_parse_fn`: the 11 bytes of a name, unless it is not a legal one. -/
def pathParseFn (src : Nat → UInt8) (len : Nat) : Option (Fin 11 → UInt8) :=
  if src 0 = DOT ∧ (len = 1 ∨ src 1 = DOT ∨ len = 2) then
    some fun d => if d.val = 0 then DOT else if d.val = 1 ∧ src 1 = DOT then DOT else 0
  else
    let s := baseLen src len
    if s < len ∧ src s ≠ DOT then none
    else
      let base := fun d => if d < s then toupper (src d) else SPACE
      if src s = DOT then
        let n := extLen (s + 1) len
        if n = 3 ∧ s + 1 + n < len then none
        else some fun d =>
          if d.val < 8 then base d
          else if d.val - 8 < n then toupper (src (s + 1 + (d.val - 8)))
          else SPACE
      else some fun d => if d.val < 8 then base d else SPACE

/-- `substr_t`. -/
structure Substr where
  start : Nat
  len : Nat
  deriving DecidableEq, Repr

/-! ## Names of eight and three bytes -/

/-- The name is in memory, and a NUL or a separator follows it. -/
structure InMemory (src : Nat → UInt8) (s : List UInt8) : Prop where
  chars : ∀ i (less : i < s.length), src i = s[i]
  ends : src s.length = 0 ∨ src s.length = SLASH ∨ src s.length = BACKSLASH

/-- A base and an extension in upper case, padded with spaces. -/
def name83 (base ext : List UInt8) : Fin 11 → UInt8 := fun d =>
  if d.val < 8 then toupper (base.getD d SPACE) else toupper (ext.getD (d - 8) SPACE)

/-- The 11 bytes that a legal name stands for. -/
inductive Encoded : List UInt8 → (Fin 11 → UInt8) → Prop where
  | dots {s : List UInt8} (special : s = [DOT] ∨ s = [DOT, DOT]) :
      Encoded s fun d => s.getD d SPACE
  | base {base : List UInt8} (short : base.length ≤ 8) (free : DOT ∉ base) :
      Encoded base (name83 base [])
  | ext {base ext : List UInt8} (short : base.length ≤ 8) (free : DOT ∉ base)
      (short' : ext.length ≤ 3) (plain : base ≠ [] ∨ ext ≠ [] ∧ ext ≠ [DOT]) :
      Encoded (base ++ DOT :: ext) (name83 base ext)

/-- No dot is in front, or three characters and more with one dot in front. -/
def Regular (s : List UInt8) : Prop := s.head? ≠ some DOT ∨ 3 ≤ s.length ∧ s[1]? ≠ some DOT

instance (s : List UInt8) : Decidable (Regular s) := inferInstanceAs (Decidable (_ ∨ _))

variable {src : Nat → UInt8} {s base ext : List UInt8} {name : Fin 11 → UInt8} {len k : Nat}

theorem InMemory.end_ne (inMemory : InMemory src s) : src s.length ≠ DOT := by
  rcases inMemory.ends with eq | eq | eq <;> rw [eq] <;> decide

theorem InMemory.append (inMemory : InMemory src (base ++ DOT :: ext)) :
    (∀ i (less : i < base.length), src i = base[i]) ∧ src base.length = DOT ∧
      ∀ i (less : i < ext.length), src (base.length + 1 + i) = ext[i] := by
  refine ⟨fun i less => ?_, ?_, fun i less => ?_⟩
  · rw [inMemory.chars i (by simp; omega), List.getElem_append_left less]
  · rw [inMemory.chars base.length (by simp), List.getElem_append_right (Nat.le_refl _)]
    simp
  · rw [inMemory.chars _ (by simp; omega), List.getElem_append_right (by omega)]
    simp [Nat.add_sub_cancel_left, Nat.add_assoc, Nat.add_comm 1]

/-- Every name is free of dots, or a base and an extension. -/
theorem dot_cases (s : List UInt8) :
    DOT ∉ s ∨ ∃ base ext, DOT ∉ base ∧ s = base ++ DOT :: ext := by
  by_cases dotted : DOT ∈ s
  · obtain ⟨base, ext, split, free⟩ := List.eq_append_cons_of_mem dotted
    exact .inr ⟨base, ext, free, split⟩
  · exact .inl dotted

theorem baseLen_eq (first : k = len ∨ src k = DOT) (before : ∀ i < k, i ≠ len ∧ src i ≠ DOT) :
    baseLen src len = min 8 k := by
  rw [baseLen]
  by_cases short : k < 8
  · have found : (List.range 8).find? (fun d => decide (d = len ∨ src d = DOT)) = some k := by
      rw [List.find?_range_eq_some]
      refine ⟨by simpa using first, by simpa using short, fun i less => ?_⟩
      simpa using before i less
    rw [found, Option.getD_some, Nat.min_eq_right short.le]
  · have missing : (List.range 8).find? (fun d => decide (d = len ∨ src d = DOT)) = none := by
      rw [List.find?_range_eq_none]
      intro i less
      simpa using before i (by omega)
    rw [missing, Option.getD_none, Nat.min_eq_left (Nat.le_of_not_lt short)]

theorem extLen_eq (start len : Nat) (inside : start ≤ len) :
    extLen start len = min 3 (len - start) := by
  rw [extLen]
  by_cases short : len - start < 3
  · have found : (List.range 3).find? (fun j => decide (start + j = len)) = some (len - start) := by
      rw [List.find?_range_eq_some]
      refine ⟨by simp; omega, by simpa using short, fun i less => by simp; omega⟩
    rw [found, Option.getD_some, Nat.min_eq_right short.le]
  · have missing : (List.range 3).find? (fun j => decide (start + j = len)) = none := by
      rw [List.find?_range_eq_none]
      intro i less
      simp
      omega
    rw [missing, Option.getD_none, Nat.min_eq_left (Nat.le_of_not_lt short)]

theorem getD_of_lt {i : Nat} (less : i < s.length) (pad : UInt8) : s.getD i pad = s[i] := by
  rw [List.getD_eq_getElem?_getD, List.getElem?_eq_getElem less, Option.getD_some]

theorem getD_of_ge {i : Nat} (beyond : s.length ≤ i) (pad : UInt8) : s.getD i pad = pad := by
  rw [List.getD_eq_getElem?_getD, List.getElem?_eq_none beyond, Option.getD_none]

theorem toupper_space : toupper SPACE = SPACE := by decide

/-- A name without dots. -/
theorem pathParseFn_base (inMemory : InMemory src base) (free : DOT ∉ base) :
    pathParseFn src base.length =
      if base.length ≤ 8 then some (name83 base []) else none := by
  have plain : ∀ i ≤ base.length, src i ≠ DOT := by
    intro i le
    rcases Nat.lt_or_ge i base.length with less | ge
    · rw [inMemory.chars i less]
      exact fun dot => free (dot ▸ List.getElem_mem less)
    · rw [Nat.le_antisymm le ge]
      exact inMemory.end_ne
  have length : baseLen src base.length = min 8 base.length :=
    baseLen_eq (.inl rfl) fun i less => ⟨by omega, plain i less.le⟩
  rw [pathParseFn, if_neg (fun special => plain 0 (Nat.zero_le _) special.1), length]
  by_cases short : base.length ≤ 8
  · rw [Nat.min_eq_right short, if_pos short]
    simp only [Nat.lt_irrefl, false_and, if_false, plain _ (Nat.le_refl _)]
    congr 1
    funext d
    rw [name83]
    by_cases front : d.val < 8
    · rw [if_pos front, if_pos front]
      by_cases less : d.val < base.length
      · rw [if_pos less, inMemory.chars _ less, getD_of_lt less]
      · rw [if_neg less, getD_of_ge (Nat.le_of_not_lt less), toupper_space]
    · rw [if_neg front, if_neg front, List.getD_nil, toupper_space]
  · rw [Nat.min_eq_left (by omega), if_neg short]
    exact if_pos ⟨by omega, plain 8 (by omega)⟩

/-- A name with a base and an extension that is not taken for a dot name. -/
theorem pathParseFn_ext (inMemory : InMemory src (base ++ DOT :: ext)) (free : DOT ∉ base)
    (regular : Regular (base ++ DOT :: ext)) :
    pathParseFn src (base ++ DOT :: ext).length =
      if base.length ≤ 8 ∧ ext.length ≤ 3 then some (name83 base ext) else none := by
  obtain ⟨front, dot, behind⟩ := inMemory.append
  have plain : ∀ i < base.length, src i ≠ DOT := by
    intro i less
    rw [front i less]
    exact fun dot => free (dot ▸ List.getElem_mem less)
  have total : (base ++ DOT :: ext).length = base.length + 1 + ext.length := by
    simp
    omega
  have notSpecial : ¬(src 0 = DOT ∧
      ((base ++ DOT :: ext).length = 1 ∨ src 1 = DOT ∨ (base ++ DOT :: ext).length = 2)) := by
    rintro ⟨first, special⟩
    cases base with
    | cons ch base => exact plain 0 (Nat.succ_pos _) first
    | nil =>
        rcases regular with headed | ⟨long, single⟩
        · exact headed rfl
        · have some : 0 < ext.length := by
            simp at long
            omega
          have second : src 1 = ext[0] := behind 0 some
          rw [List.nil_append, List.getElem?_cons_succ, List.getElem?_eq_getElem some] at single
          rcases special with one | double | two
          · omega
          · exact single (by rw [← second, double])
          · omega
  have length : baseLen src (base ++ DOT :: ext).length = min 8 base.length :=
    baseLen_eq (.inr dot) fun i less => ⟨by omega, plain i less⟩
  rw [pathParseFn, if_neg notSpecial, length, total]
  by_cases short : base.length ≤ 8
  · simp only [Nat.min_eq_right short, dot, ne_eq, not_true_eq_false, and_false, if_false, if_true,
      short, true_and]
    rw [extLen_eq _ _ (by omega), Nat.add_sub_cancel_left]
    by_cases short' : ext.length ≤ 3
    · rw [if_pos short', if_neg (by omega), Nat.min_eq_right short']
      congr 1
      funext d
      rw [name83]
      by_cases inBase : d.val < 8
      · rw [if_pos inBase, if_pos inBase]
        by_cases less : d.val < base.length
        · rw [if_pos less, front _ less, getD_of_lt less]
        · rw [if_neg less, getD_of_ge (Nat.le_of_not_lt less), toupper_space]
      · rw [if_neg inBase, if_neg inBase]
        by_cases less : d.val - 8 < ext.length
        · rw [if_pos less, behind _ less, getD_of_lt less]
        · rw [if_neg less, getD_of_ge (Nat.le_of_not_lt less), toupper_space]
    · rw [if_neg short', if_pos (by omega)]
  · have long : 8 < base.length := Nat.lt_of_not_le short
    have rest : 8 < base.length + 1 + ext.length := by omega
    rw [Nat.min_eq_left long.le, if_pos ⟨rest, plain 8 long⟩, if_neg (fun both => short both.1)]

/-- A name that is taken for a dot name. -/
theorem InMemory.dots (inMemory : InMemory src s) (irregular : ¬Regular s) :
    src 0 = DOT ∧ (s.length = 1 ∨ src 1 = DOT ∨ s.length = 2) := by
  rw [Regular, not_or, not_and_or, not_not, not_not] at irregular
  obtain ⟨headed, rest⟩ := irregular
  cases s with
  | nil => exact nomatch headed
  | cons ch rest' =>
      have first : src 0 = DOT := by
        rw [inMemory.chars 0 (Nat.succ_pos _)]
        exact Option.some.inj headed
      refine ⟨first, ?_⟩
      rcases rest with short | second
      · rw [List.length_cons] at short ⊢
        omega
      · obtain ⟨less, eq⟩ := List.getElem?_eq_some_iff.mp second
        exact .inr (.inl ((inMemory.chars 1 less).trans eq))

theorem pathParseFn_dots (inMemory : InMemory src s) (irregular : ¬Regular s) :
    ∃ name, pathParseFn src s.length = some name ∧ name 0 = DOT ∧ name 10 = 0 :=
  ⟨_, if_pos (inMemory.dots irregular), rfl, rfl⟩

/-- The second character, or what is behind the only one. -/
theorem InMemory.second (inMemory : InMemory src s) (nonempty : s ≠ []) :
    src 1 = DOT ↔ s[1]? = some DOT := by
  have positive := List.length_pos_iff.mpr nonempty
  rcases Nat.lt_or_ge 1 s.length with long | short
  · rw [inMemory.chars 1 long, List.getElem?_eq_getElem long, Option.some_inj]
  · have one : s.length = 1 := by omega
    have end_ne := inMemory.end_ne
    rw [one] at end_ne
    rw [List.getElem?_eq_none short]
    exact ⟨fun dot => absurd dot end_ne, nofun⟩

/-- What is behind a name in memory does not matter. -/
theorem pathParseFn_congr {src' : Nat → UInt8} (inMemory : InMemory src s)
    (inMemory' : InMemory src' s) : pathParseFn src s.length = pathParseFn src' s.length := by
  by_cases regular : Regular s
  · rcases dot_cases s with free | ⟨base, ext, free, rfl⟩
    · rw [pathParseFn_base inMemory free, pathParseFn_base inMemory' free]
    · rw [pathParseFn_ext inMemory free regular, pathParseFn_ext inMemory' free regular]
  · have nonempty : s ≠ [] := by
      rintro rfl
      exact regular (by decide)
    rw [pathParseFn, pathParseFn, if_pos (inMemory.dots regular), if_pos (inMemory'.dots regular)]
    simp only [inMemory.second nonempty, inMemory'.second nonempty]

/-! ## When names are encoded right -/

/-- `path_parse_fn` accepts the legal names, and encodes them. -/
def EncodesRight (src : Nat → UInt8) (s : List UInt8) : Prop :=
  ∀ name, pathParseFn src s.length = some name ↔ Encoded s name

theorem toupper_eq_dot {ch : UInt8} (dot : toupper ch = DOT) : ch = DOT := by
  unfold toupper at dot
  split at dot
  · next lower =>
      have small : 97 ≤ ch.toNat := UInt8.le_iff_toNat_le.mp lower.1
      have below : (32 : UInt8) ≤ ch := UInt8.le_iff_toNat_le.mpr (Nat.le_trans (by decide) small)
      have eq : (ch - 32).toNat = 46 := congrArg UInt8.toNat dot
      have sub : (ch - 32).toNat = ch.toNat - 32 := UInt8.toNat_sub_of_le ch 32 below
      omega
  · exact dot

theorem name83_zero_ne (free : DOT ∉ base) : name83 base ext 0 ≠ DOT := by
  intro dot
  cases base with
  | nil => exact absurd (show toupper SPACE = DOT from dot) (by decide)
  | cons ch base => exact free (toupper_eq_dot dot ▸ List.mem_cons_self)

/-- The base of a name is what is in front of the first dot. -/
theorem split_unique {base' ext' : List UInt8} (free : DOT ∉ base) (free' : DOT ∉ base')
    (same : base ++ DOT :: ext = base' ++ DOT :: ext') : base = base' ∧ ext = ext' := by
  have front : ∀ {base ext : List UInt8}, DOT ∉ base →
      (base ++ DOT :: ext).takeWhile (· ≠ DOT) = base := by
    intro base ext free
    rw [List.takeWhile_append_of_pos]
    · simp
    · exact fun ch mem => decide_eq_true fun dot => free (dot ▸ mem)
  have bases : base = base' := by
    have fronts := congrArg (List.takeWhile (· ≠ DOT)) same
    rwa [front free, front free'] at fronts
  subst bases
  exact ⟨rfl, List.cons.inj (List.append_cancel_left same) |>.2⟩

theorem encoded_base (free : DOT ∉ s) : Encoded s name ↔ s.length ≤ 8 ∧ name = name83 s [] := by
  constructor
  · intro encoded
    cases encoded with
    | dots special => rcases special with rfl | rfl <;> exact absurd (by decide) free
    | base short free => exact ⟨short, rfl⟩
    | ext => exact absurd (by simp) free
  · rintro ⟨short, rfl⟩
    exact .base short free

theorem encoded_ext (free : DOT ∉ base) (regular : Regular (base ++ DOT :: ext)) :
    Encoded (base ++ DOT :: ext) name ↔
      (base.length ≤ 8 ∧ ext.length ≤ 3) ∧ name = name83 base ext := by
  constructor
  · intro encoded
    generalize whole : base ++ DOT :: ext = s at encoded regular
    cases encoded with
    | dots special => rcases special with rfl | rfl <;> exact absurd regular (by decide)
    | base short free' => exact absurd (whole ▸ by simp) free'
    | ext short free' short' plain =>
        obtain ⟨rfl, rfl⟩ := split_unique free free' whole
        exact ⟨⟨short, short'⟩, rfl⟩
  · rintro ⟨⟨short, short'⟩, rfl⟩
    refine .ext short free short' ?_
    by_contra special
    push Not at special
    obtain ⟨rfl, rest⟩ := special
    by_cases empty : ext = []
    · subst empty
      exact absurd regular (by decide)
    · rw [rest empty] at regular
      exact absurd regular (by decide)

/-- `path_parse_fn` is right about a name exactly if the name is regular. -/
theorem encodesRight_iff (inMemory : InMemory src s) : EncodesRight src s ↔ Regular s := by
  constructor
  · intro right
    by_contra irregular
    obtain ⟨name, accepted, first, last⟩ := pathParseFn_dots inMemory irregular
    cases (right name).mp accepted with
    | dots special => rcases special with rfl | rfl <;> exact absurd last (by decide)
    | base short free => exact name83_zero_ne free first
    | ext short free => exact name83_zero_ne free first
  · intro regular name
    rcases dot_cases s with free | ⟨base, ext, free, rfl⟩
    · rw [pathParseFn_base inMemory free, encoded_base free, Option.ite_none_right_eq_some,
        Option.some_inj, eq_comm (a := name)]
    · rw [pathParseFn_ext inMemory free regular, encoded_ext free regular,
        Option.ite_none_right_eq_some, Option.some_inj, eq_comm (a := name)]

/-! ## Names with the same bytes -/

/-- The name ends neither in a space nor in a dot. -/
def Trimmed (s : List UInt8) : Prop := s.getLast? ≠ some SPACE ∧ s.getLast? ≠ some DOT

instance (s : List UInt8) : Decidable (Trimmed s) := inferInstanceAs (Decidable (_ ∧ _))

/-- Two names that are accepted have the same bytes only if they are equal up to case. -/
def Apart (src src' : Nat → UInt8) (s t : List UInt8) : Prop :=
  ∀ name, pathParseFn src s.length = some name → pathParseFn src' t.length = some name →
    Trimmed s → Trimmed t → s.map toupper = t.map toupper

/-- The first name has more spaces in front of its dot, and is otherwise the second one up to
case. -/
def SpacesMore (s t : List UInt8) : Prop :=
  ∃ base ext base' ext', s = base ++ DOT :: ext ∧ t = base' ++ DOT :: ext' ∧
    DOT ∉ base ∧ DOT ∉ base' ∧ base.length ≤ 8 ∧ ext.length ≤ 3 ∧ Trimmed s ∧ Trimmed t ∧
    ext.map toupper = ext'.map toupper ∧
    ∃ n, 0 < n ∧ base.map toupper = base'.map toupper ++ List.replicate n SPACE

theorem toupper_eq_space {ch : UInt8} (space : toupper ch = SPACE) : ch = SPACE := by
  unfold toupper at space
  split at space
  · next lower =>
      have small : 97 ≤ ch.toNat := UInt8.le_iff_toNat_le.mp lower.1
      have below : (32 : UInt8) ≤ ch := UInt8.le_iff_toNat_le.mpr (Nat.le_trans (by decide) small)
      have eq : (ch - 32).toNat = 32 := congrArg UInt8.toNat space
      have sub : (ch - 32).toNat = ch.toNat - 32 := UInt8.toNat_sub_of_le ch 32 below
      omega
  · exact space

/-- Of two lists that are the same once they are padded, the longer one is the other one and
padding. -/
theorem padded_le {α : Type} {a b : List α} {pad : α} {n : Nat} (shorter : a.length ≤ b.length)
    (most : b.length ≤ n) (same : ∀ i < n, a.getD i pad = b.getD i pad) :
    b = a ++ List.replicate (b.length - a.length) pad := by
  refine List.ext_getElem (by simp; omega) fun i less _ => ?_
  have eq := same i (Nat.lt_of_lt_of_le less most)
  rw [List.getD_eq_getElem?_getD, List.getD_eq_getElem?_getD, List.getElem?_eq_getElem less,
    Option.getD_some] at eq
  rw [← eq, List.getElem_append]
  split
  · next inside => rw [List.getElem?_eq_getElem inside, Option.getD_some]
  · next beyond =>
      rw [List.getElem?_eq_none (Nat.le_of_not_lt beyond), Option.getD_none,
        List.getElem_replicate]

theorem toupper_getD (s : List UInt8) (i : Nat) :
    toupper (s.getD i SPACE) = (s.map toupper).getD i SPACE := by
  rw [List.getD_eq_getElem?_getD, List.getD_eq_getElem?_getD, List.getElem?_map]
  cases s[i]? with
  | none => exact toupper_space
  | some ch => rfl

theorem getD_append_replicate {α : Type} (s : List α) (n i : Nat) (pad : α) :
    (s ++ List.replicate n pad).getD i pad = s.getD i pad := by
  rw [List.getD_eq_getElem?_getD, List.getD_eq_getElem?_getD]
  rcases Nat.lt_or_ge i s.length with inside | beyond
  · rw [List.getElem?_append_left inside]
  · rw [List.getElem?_append_right beyond, List.getElem?_eq_none beyond, List.getElem?_replicate]
    split <;> rfl

/-- Names that are the same once they are padded. -/
theorem padded_cases {s t : List UInt8} {n : Nat} (most : s.length ≤ n) (most' : t.length ≤ n)
    (same : ∀ i < n, toupper (s.getD i SPACE) = toupper (t.getD i SPACE)) :
    s.map toupper = t.map toupper ∨
      (∃ n, 0 < n ∧ s.map toupper = t.map toupper ++ List.replicate n SPACE) ∨
      ∃ n, 0 < n ∧ t.map toupper = s.map toupper ++ List.replicate n SPACE := by
  simp only [toupper_getD] at same
  rcases Nat.lt_trichotomy s.length t.length with shorter | equal | shorter
  · refine .inr (.inr ⟨_, ?_, padded_le (by simpa using shorter.le) (by simpa using most') same⟩)
    rw [List.length_map, List.length_map]
    exact Nat.sub_pos_of_lt shorter
  · have padded := padded_le (by simpa using equal.le) (by simpa using most') same
    rw [List.length_map, List.length_map, equal, Nat.sub_self, List.replicate_zero,
      List.append_nil] at padded
    exact .inl padded.symm
  · refine .inr (.inl ⟨_, ?_, padded_le (by simpa using shorter.le) (by simpa using most)
      fun i less => (same i less).symm⟩)
    rw [List.length_map, List.length_map]
    exact Nat.sub_pos_of_lt shorter

theorem not_spaces_behind {s t : List UInt8} {n : Nat} (trimmed : s.getLast? ≠ some SPACE)
    (some : 0 < n) : s.map toupper ≠ t.map toupper ++ List.replicate n SPACE := by
  intro padded
  obtain ⟨n, rfl⟩ := Nat.exists_eq_succ_of_ne_zero some.ne'
  have last := congrArg List.getLast? padded
  rw [List.replicate_succ', ← List.append_assoc, List.getLast?_concat, List.getLast?_map,
    Option.map_eq_some_iff] at last
  obtain ⟨ch, at_last, space⟩ := last
  rw [toupper_eq_space space] at at_last
  exact trimmed at_last

/-- Trimmed names that are the same once they are padded. -/
theorem eq_of_padded {s t : List UInt8} {n : Nat} (trimmed : s.getLast? ≠ some SPACE)
    (trimmed' : t.getLast? ≠ some SPACE) (most : s.length ≤ n) (most' : t.length ≤ n)
    (same : ∀ i < n, toupper (s.getD i SPACE) = toupper (t.getD i SPACE)) :
    s.map toupper = t.map toupper := by
  rcases padded_cases most most' same with equal | ⟨n, some, more⟩ | ⟨n, some, more⟩
  · exact equal
  · exact absurd more (not_spaces_behind trimmed some)
  · exact absurd more (not_spaces_behind trimmed' some)

theorem name83_inj {base ext base' ext' : List UInt8}
    (same : name83 base ext = name83 base' ext') :
    (∀ i < 8, toupper (base.getD i SPACE) = toupper (base'.getD i SPACE)) ∧
      ∀ i < 3, toupper (ext.getD i SPACE) = toupper (ext'.getD i SPACE) := by
  refine ⟨fun i less => ?_, fun i less => ?_⟩
  · have byte := congrFun same ⟨i, by omega⟩
    rwa [name83, name83, if_pos less, if_pos less] at byte
  · have byte := congrFun same ⟨i + 8, by omega⟩
    rwa [name83, name83, if_neg (by simp), if_neg (by simp), Nat.add_sub_cancel] at byte

/-- What a regular name is that is accepted. -/
theorem accepted_cases (inMemory : InMemory src s) (regular : Regular s)
    (accepted : pathParseFn src s.length = some name) :
    (s.length ≤ 8 ∧ name = name83 s []) ∨ ∃ base ext, s = base ++ DOT :: ext ∧ DOT ∉ base ∧
      base.length ≤ 8 ∧ ext.length ≤ 3 ∧ name = name83 base ext := by
  rcases dot_cases s with free | ⟨base, ext, free, rfl⟩
  · rw [pathParseFn_base inMemory free, Option.ite_none_right_eq_some, Option.some_inj] at accepted
    exact .inl ⟨accepted.1, accepted.2.symm⟩
  · rw [pathParseFn_ext inMemory free regular, Option.ite_none_right_eq_some,
      Option.some_inj] at accepted
    exact .inr ⟨base, ext, rfl, free, accepted.1.1, accepted.1.2, accepted.2.symm⟩

/-- The extension of a trimmed name is trimmed, and there is one. -/
theorem Trimmed.extension (trimmed : Trimmed (base ++ DOT :: ext)) :
    ext ≠ [] ∧ ext.getLast? ≠ some SPACE := by
  have some : ext ≠ [] := by
    rintro rfl
    exact trimmed.2 (by simp)
  refine ⟨some, fun space => trimmed.1 ?_⟩
  obtain ⟨ch, ext, rfl⟩ := List.exists_cons_of_ne_nil some
  rw [List.getLast?_append_cons, List.getLast?_cons_cons]
  exact space

/-- An extension of spaces only is not one of a trimmed name. -/
theorem ext_ne_spaces (trimmed : Trimmed (base ++ DOT :: ext)) (short : ext.length ≤ 3)
    (same : ∀ i < 3, toupper (ext.getD i SPACE) = toupper (([] : List UInt8).getD i SPACE)) :
    False := by
  have empty := eq_of_padded (t := []) trimmed.extension.2 (by simp) short (Nat.zero_le 3) same
  rw [List.map_nil, List.map_eq_nil_iff] at empty
  exact trimmed.extension.1 empty

/-- Names that differ by spaces in front of the dot have the same bytes. -/
theorem SpacesMore.same {src' : Nat → UInt8} {t : List UInt8} (more : SpacesMore s t)
    (inMemory : InMemory src s) (inMemory' : InMemory src' t) (regular : Regular s)
    (regular' : Regular t) :
    Trimmed s ∧ Trimmed t ∧ s.map toupper ≠ t.map toupper ∧
      ∃ name, pathParseFn src s.length = some name ∧ pathParseFn src' t.length = some name := by
  obtain ⟨base, ext, base', ext', rfl, rfl, free, free', short, short', trimmed, trimmed', same, n,
    some, padded⟩ := more
  have lengths := congrArg List.length padded
  have lengths' := congrArg List.length same
  simp only [List.length_append, List.length_map, List.length_replicate] at lengths lengths'
  have names : name83 base' ext' = name83 base ext := by
    funext d
    rw [name83, name83]
    simp only [toupper_getD, padded, same, getD_append_replicate]
  refine ⟨trimmed, trimmed', fun equal => ?_, name83 base ext, ?_, ?_⟩
  · have total := congrArg List.length equal
    simp at total
    omega
  · rw [pathParseFn_ext inMemory free regular, if_pos ⟨short, short'⟩]
  · rw [pathParseFn_ext inMemory' free' regular', if_pos (by omega), names]

/-- Regular names are told apart unless they differ by spaces in front of the dot. -/
theorem apart_iff {src' : Nat → UInt8} {t : List UInt8} (inMemory : InMemory src s)
    (inMemory' : InMemory src' t) (regular : Regular s) (regular' : Regular t) :
    Apart src src' s t ↔ ¬SpacesMore s t ∧ ¬SpacesMore t s := by
  constructor
  · intro apart
    refine ⟨fun more => ?_, fun more => ?_⟩
    · obtain ⟨trimmed, trimmed', differ, name, first, second⟩ :=
        more.same inMemory inMemory' regular regular'
      exact differ (apart name first second trimmed trimmed')
    · obtain ⟨trimmed', trimmed, differ, name, second, first⟩ :=
        more.same inMemory' inMemory regular' regular
      exact differ (apart name first second trimmed trimmed').symm
  · rintro ⟨fewer, fewer'⟩ name first second trimmed trimmed'
    rcases accepted_cases inMemory regular first with
      ⟨short, rfl⟩ | ⟨base, ext, rfl, free, short, few, rfl⟩ <;>
    rcases accepted_cases inMemory' regular' second with
      ⟨short', eq⟩ | ⟨base', ext', rfl, free', short', few', eq⟩
    · exact eq_of_padded trimmed.1 trimmed'.1 short short' (name83_inj eq).1
    · exact (ext_ne_spaces trimmed' few' fun i less => ((name83_inj eq).2 i less).symm).elim
    · exact (ext_ne_spaces trimmed few (name83_inj eq).2).elim
    · have exts := eq_of_padded trimmed.extension.2 trimmed'.extension.2 few few' (name83_inj eq).2
      rcases padded_cases short short' (name83_inj eq).1 with equal | more | more
      · rw [List.map_append, List.map_append, List.map_cons, List.map_cons, equal, exts]
      · exact (fewer ⟨base, ext, base', ext', rfl, rfl, free, free', short, few, trimmed, trimmed',
          exts, more⟩).elim
      · exact (fewer' ⟨base', ext', base, ext, rfl, rfl, free', free, short', few', trimmed',
          trimmed, exts.symm, more⟩).elim

/-- `path_parse_fn` is right about two names, and tells them apart, exactly if they are regular
and do not differ by spaces in front of the dot. -/
theorem path_parse_fn_right {src' : Nat → UInt8} {t : List UInt8} (inMemory : InMemory src s)
    (inMemory' : InMemory src' t) :
    (EncodesRight src s ∧ EncodesRight src' t ∧ Apart src src' s t) ↔
      Regular s ∧ Regular t ∧ ¬SpacesMore s t ∧ ¬SpacesMore t s := by
  rw [encodesRight_iff inMemory, encodesRight_iff inMemory']
  constructor
  · rintro ⟨regular, regular', apart⟩
    exact ⟨regular, regular', (apart_iff inMemory inMemory' regular regular').mp apart⟩
  · rintro ⟨regular, regular', fewer⟩
    exact ⟨regular, regular', (apart_iff inMemory inMemory' regular regular').mpr fewer⟩

theorem inMemory_stringAt (s : List UInt8) : InMemory (stringAt s 0) s := by
  refine ⟨fun i less => ?_, .inl ?_⟩
  · rw [stringAt, Nat.zero_add, getD_of_lt less]
  · rw [stringAt, Nat.zero_add, getD_of_ge (Nat.le_refl _)]

theorem SpacesMore.dotted {t : List UInt8} (more : SpacesMore s t) : DOT ∈ s ∧ DOT ∈ t := by
  obtain ⟨base, ext, base', ext', rfl, rfl, -⟩ := more
  simp

/-- The names `readme` and `.rc1`. -/
theorem path_parse_fn_right_readme :
    let readme : List UInt8 := [114, 101, 97, 100, 109, 101]
    let rc1 : List UInt8 := [46, 114, 99, 49]
    EncodesRight (stringAt readme 0) readme ∧ EncodesRight (stringAt rc1 0) rc1 ∧
      Apart (stringAt readme 0) (stringAt rc1 0) readme rc1 := by
  intro readme rc1
  refine (path_parse_fn_right (inMemory_stringAt readme) (inMemory_stringAt rc1)).mpr
    ⟨by decide, by decide, fun more => ?_, fun more => ?_⟩
  · exact absurd more.dotted.1 (by decide)
  · exact absurd more.dotted.2 (by decide)

/-- The name `.` is stored with zeros and not with spaces behind it. -/
theorem path_parse_fn_dot : ¬EncodesRight (stringAt [DOT] 0) [DOT] := by
  rw [encodesRight_iff (inMemory_stringAt [DOT])]
  decide

end Pegasos.Fat
