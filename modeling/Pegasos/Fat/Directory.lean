import Pegasos.Fat.Dirent
import Pegasos.Support.CInt

/-!
# Searching directories

What `dir_find_ent` looks for, the same in both copies of the FAT code, and the search of a
list of slots for it.
-/

namespace Pegasos.Fat

open Support (word word_word_add)

def DELETE_FLAG : UInt8 := 0xe5

def FA_DIR : UInt8 := 0x10
def FA_DEV : UInt8 := 0x40

/-- An `int` of 16 bits that is counted down. -/
def pred16 (value : Nat) : Nat := (value + 0xffff) % 0x10000

/-- An `int` with the value of a 16-bit word, as a cluster number. -/
def clusterOfInt (cluster0 : UInt16) : Nat :=
  if cluster0 < 0x8000 then cluster0.toNat else cluster0.toNat + 0xffff0000

/-- The entry is what is looked for: a free slot, or one with the name. -/
def isFound (key : Option (Fin 11 → UInt8)) (dirent : Dirent) : Bool :=
  match key with
  | none => dirent.name 0 = 0 ∨ dirent.name 0 = DELETE_FLAG
  | some ele => dirent.name = ele

/-- Where a directory entry is. -/
structure Slot where
  sec : Nat
  offs : Nat
  deriving DecidableEq, Repr

/-- The entry in a slot. -/
def Slot.dirent (slot : Slot) (data : Nat → Sector) : Dirent := direntAt (data slot.sec) slot.offs

/-- How the search of some slots ends: with a slot, at the end of the directory, or with the
last one of them. -/
inductive Scan where
  | found (slot : Slot)
  | ended
  | through
  deriving DecidableEq, Repr

/-- The search of some slots. -/
def scan (data : Nat → Sector) (key : Option (Fin 11 → UInt8)) : List Slot → Scan
  | [] => .through
  | slot :: rest =>
      if key ≠ none ∧ (slot.dirent data).name 0 = 0 then .ended
      else if isFound key (slot.dirent data) then .found slot
      else scan data key rest

/-- The slot behind so many other ones, from a sector on. -/
def slotAt (start j : Nat) : Slot := ⟨word (start + j / 16), j % 16 * 32⟩

/-- So many slots from a sector on. -/
def slotsFrom (start n : Nat) : List Slot := (List.range n).map (slotAt start)

/-- The number of entries that are visited when `entleft` is counted down to zero. -/
def entryCount (entleft : Nat) : Nat := if entleft = 0 then 0x10000 else entleft

variable {data : Nat → Sector} {key : Option (Fin 11 → UInt8)} {front rest : List Slot}
  {slot : Slot} {n start : Nat}

theorem scan_append : scan data key (front ++ rest) =
    match scan data key front with
    | .through => scan data key rest
    | result => result := by
  induction front with
  | nil => rfl
  | cons slot front ih =>
      rw [List.cons_append, scan, scan]
      by_cases ended : key ≠ none ∧ (slot.dirent data).name 0 = 0
      · rw [if_pos ended, if_pos ended]
      · rw [if_neg ended, if_neg ended]
        by_cases found : isFound key (slot.dirent data)
        · rw [if_pos found, if_pos found]
        · rw [if_neg found, if_neg found, ih]

theorem scan_append_through (through : scan data key front = .through) :
    scan data key (front ++ rest) = scan data key rest := by
  rw [scan_append, through]

/-- What is found is among the slots, and what is looked for. -/
theorem scan_found (found : scan data key rest = .found slot) :
    slot ∈ rest ∧ isFound key (slot.dirent data) = true ∧
      ¬(key ≠ none ∧ (slot.dirent data).name 0 = 0) := by
  induction rest with
  | nil => exact nomatch found
  | cons first rest ih =>
      rw [scan] at found
      split at found
      · exact nomatch found
      · next more =>
          split at found
          · next here =>
              obtain rfl := Scan.found.inj found
              exact ⟨List.mem_cons_self, here, more⟩
          · exact (ih found).imp_left (List.mem_cons_of_mem first)

@[simp] theorem slotsFrom_length : (slotsFrom start n).length = n := by
  rw [slotsFrom, List.length_map, List.length_range]

theorem entryCount_pos (entleft : Nat) : 0 < entryCount entleft := by
  unfold entryCount
  split <;> omega

theorem entryCount_mod {entleft : Nat} (small : entleft < 0x10000) :
    entryCount entleft % 0x10000 = entleft := by
  unfold entryCount
  split <;> omega

theorem entryCount_le {entleft : Nat} (small : entleft < 0x10000) :
    entryCount entleft ≤ 0x10000 := by
  unfold entryCount
  split <;> omega

theorem pred16_eq {m : Nat} (some : 0 < m) (most : m ≤ 0x10000) :
    pred16 (m % 0x10000) = (m - 1) % 0x10000 := by
  unfold pred16
  omega

/-- The slot behind another one, in the same sector or in the next one. -/
theorem slotAt_succ (start j : Nat) :
    (j % 16 = 15 → slotAt start (j + 1) = ⟨word ((slotAt start j).sec + 1), 0⟩) ∧
      (j % 16 ≠ 15 → slotAt start (j + 1) = ⟨(slotAt start j).sec, (slotAt start j).offs + 32⟩) := by
  refine ⟨fun last => ?_, fun within => ?_⟩
  · have row : (j + 1) / 16 = j / 16 + 1 ∧ (j + 1) % 16 = 0 := by omega
    rw [slotAt, slotAt, row.1, row.2, word_word_add, Nat.add_assoc]
  · have row : (j + 1) / 16 = j / 16 ∧ (j + 1) % 16 = j % 16 + 1 := by omega
    rw [slotAt, slotAt, row.1, row.2, Nat.add_one_mul]

/-- The sectors of slots whose numbers have 32 bits. -/
theorem slotsFrom_inside (fits : start + (n + 15) / 16 ≤ 0x100000000) (member : slot ∈ slotsFrom start n) :
    start ≤ slot.sec ∧ slot.sec < start + (n + 15) / 16 ∧ slot.offs < 512 ∧ 32 ∣ slot.offs := by
  obtain ⟨j, less, rfl⟩ := List.mem_map.mp member
  rw [List.mem_range] at less
  have sector : word (start + j / 16) = start + j / 16 := Nat.mod_eq_of_lt (by omega)
  rw [slotAt, sector]
  exact ⟨Nat.le_add_right _ _, by dsimp only; omega, by dsimp only; omega,
    Nat.dvd_mul_left 32 (j % 16)⟩

theorem mem_slotsFrom : slot ∈ slotsFrom start n ↔ ∃ j < n, slotAt start j = slot := by
  simp [slotsFrom]

end Pegasos.Fat
