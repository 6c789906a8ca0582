import Mathlib.Data.UInt
import Mathlib.Logic.Function.Basic
import Pegasos.Support.Tables

/-!
# Directory entries

A directory entry is read from and written to the bytes of its slot in a sector.
-/

namespace Pegasos.Fat

open Function (update)

/-- The bytes of a block.  Those from `BLKSIZE` on are not part of it. -/
abbrev Sector := Nat → UInt8

/-- `dirent_t`. -/
structure Dirent where
  name : Fin 11 → UInt8
  attr : UInt8
  major : UInt8
  minor : UInt8
  reserved : Fin 8 → UInt8
  modtime : UInt16
  moddate : UInt16
  cluster0 : UInt16
  size : UInt32

/-- Two bytes, the low one first. -/
def word16 (sector : Sector) (i : Nat) : UInt16 :=
  (sector i).toUInt16 + (sector (i + 1)).toUInt16 * 0x100

/-- Four bytes, the lowest one first. -/
def word32 (sector : Sector) (i : Nat) : UInt32 :=
  (word16 sector i).toUInt32 + (word16 sector (i + 2)).toUInt32 * 0x10000

/-- Store two bytes. -/
def setWord16 (i : Nat) (value : UInt16) (sector : Sector) : Sector :=
  update (update sector i value.toUInt8) (i + 1) (value / 0x100).toUInt8

/-- Store four bytes. -/
def setWord32 (i : Nat) (value : UInt32) (sector : Sector) : Sector :=
  setWord16 (i + 2) (value / 0x10000).toUInt16 (setWord16 i value.toUInt16 sector)

section Words

variable {sector : Sector} {i j : Nat}

theorem word16_setWord16 (value : UInt16) : word16 (setWord16 i value sector) i = value := by
  apply UInt16.toNat_inj.mp
  have small := value.toNat_lt
  simp [word16, setWord16]
  omega

theorem word16_setWord16_apart (value : UInt16) (apart : i + 2 ≤ j ∨ j + 2 ≤ i) :
    word16 (setWord16 i value sector) j = word16 sector j := by
  have first : j ≠ i ∧ j ≠ i + 1 := by omega
  have second : j + 1 ≠ i ∧ j + 1 ≠ i + 1 := by omega
  simp [word16, setWord16, first, second]

theorem word32_setWord32 (value : UInt32) : word32 (setWord32 i value sector) i = value := by
  rw [word32, setWord32, word16_setWord16, word16_setWord16_apart _ (by omega), word16_setWord16]
  apply UInt32.toNat_inj.mp
  have small := value.toNat_lt
  simp
  omega

end Words

/-- The entry at an offset in a sector. -/
def direntAt (sector : Sector) (offs : Nat) : Dirent where
  name i := sector (offs + i)
  attr := sector (offs + 11)
  major := sector (offs + 12)
  minor := sector (offs + 13)
  reserved i := sector (offs + 14 + i)
  modtime := word16 sector (offs + 22)
  moddate := word16 sector (offs + 24)
  cluster0 := word16 sector (offs + 26)
  size := word32 sector (offs + 28)

/-- The bytes that `fobj_create` stores in a slot. -/
def storeDirent (offs : Nat) (ent : Dirent) (sector : Sector) : Sector := fun i =>
  if inName : offs ≤ i ∧ i - offs < 11 then ent.name ⟨i - offs, inName.2⟩
  else if i = offs + 11 then ent.attr
  else if offs + 14 ≤ i ∧ i < offs + 22 then 0
  else setWord16 (offs + 22) ent.modtime (setWord16 (offs + 24) ent.moddate sector) i

section Store

variable {sector sector' : Sector} {offs i : Nat} {ent : Dirent}

theorem word16_congr (same : sector i = sector' i) (same' : sector (i + 1) = sector' (i + 1)) :
    word16 sector i = word16 sector' i := by
  rw [word16, word16, same, same']

theorem setWord16_apart (value : UInt16) {j : Nat} (apart : j ≠ i ∧ j ≠ i + 1) :
    setWord16 i value sector j = sector j := by
  simp [setWord16, apart]

theorem storeDirent_behind (behind : offs + 22 ≤ i) : storeDirent offs ent sector i =
    setWord16 (offs + 22) ent.modtime (setWord16 (offs + 24) ent.moddate sector) i := by
  rw [storeDirent, dif_neg (by omega), if_neg (by omega), if_neg (by omega)]

/-- What is not stored. -/
theorem storeDirent_kept (outside : i < offs ∨ i = offs + 12 ∨ i = offs + 13 ∨ offs + 26 ≤ i) :
    storeDirent offs ent sector i = sector i := by
  rw [storeDirent, dif_neg (by omega), if_neg (by omega), if_neg (by omega),
    setWord16_apart _ (by omega), setWord16_apart _ (by omega)]

/-- The entry in the slot: the device numbers, `cluster0` and `size` are the old ones. -/
theorem direntAt_storeDirent : direntAt (storeDirent offs ent sector) offs =
    { ent with
      major := sector (offs + 12)
      minor := sector (offs + 13)
      reserved := fun _ => 0
      cluster0 := word16 sector (offs + 26)
      size := word32 sector (offs + 28) } := by
  have name : (fun d : Fin 11 => storeDirent offs ent sector (offs + d)) = ent.name := by
    funext d
    have inName : offs ≤ offs + d ∧ offs + d - offs < 11 := by omega
    rw [storeDirent, dif_pos inName]
    congr 1
    exact Fin.ext (Nat.add_sub_cancel_left ..)
  have attr : storeDirent offs ent sector (offs + 11) = ent.attr := by
    rw [storeDirent, dif_neg (by omega), if_pos rfl]
  have reserved : (fun d : Fin 8 => storeDirent offs ent sector (offs + 14 + d)) = fun _ => 0 := by
    funext d
    rw [storeDirent, dif_neg (by omega), if_neg (by omega), if_pos (by omega)]
  have time : word16 (storeDirent offs ent sector) (offs + 22) = ent.modtime := by
    rw [word16_congr (storeDirent_behind (by omega)) (storeDirent_behind (by omega))]
    exact word16_setWord16 _
  have date : word16 (storeDirent offs ent sector) (offs + 24) = ent.moddate := by
    rw [word16_congr (storeDirent_behind (by omega)) (storeDirent_behind (by omega)),
      word16_setWord16_apart _ (by omega)]
    exact word16_setWord16 _
  have cluster : word16 (storeDirent offs ent sector) (offs + 26) = word16 sector (offs + 26) :=
    word16_congr (storeDirent_kept (by omega)) (storeDirent_kept (by omega))
  have size : word32 (storeDirent offs ent sector) (offs + 28) = word32 sector (offs + 28) := by
    rw [word32, word32, word16_congr (storeDirent_kept (by omega)) (storeDirent_kept (by omega)),
      word16_congr (storeDirent_kept (by omega)) (storeDirent_kept (by omega))]
  rw [direntAt, name, attr, reserved, time, date, cluster, size,
    storeDirent_kept (by omega), storeDirent_kept (by omega)]

/-- Entries are the same where their bytes are. -/
theorem direntAt_congr (same : ∀ i < 32, sector (offs + i) = sector' (offs + i)) :
    direntAt sector offs = direntAt sector' offs := by
  have word (i : Nat) (less : i < 31) : word16 sector (offs + i) = word16 sector' (offs + i) :=
    word16_congr (same i (by omega)) (same (i + 1) (by omega))
  have name : (fun d : Fin 11 => sector (offs + d)) = fun d : Fin 11 => sector' (offs + d) :=
    funext fun d => same d (by omega)
  have reserved : (fun d : Fin 8 => sector (offs + 14 + d)) = fun d : Fin 8 => sector' (offs + 14 + d) :=
    funext fun d => by simpa [Nat.add_assoc] using same (14 + d) (by omega)
  have size : word32 sector (offs + 28) = word32 sector' (offs + 28) := by
    rw [word32, word32, word 28 (by decide)]
    exact congrArg _ (congrArg (·.toUInt32 * 0x10000) (word 30 (by decide)))
  rw [direntAt, direntAt, name, same 11 (by decide), same 12 (by decide), same 13 (by decide), reserved,
    word 22 (by decide), word 24 (by decide), word 26 (by decide), size]

end Store

end Pegasos.Fat
