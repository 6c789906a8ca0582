import Mathlib.Tactic.Common
import Pegasos.Fat.Dirent

/-!
# The layout of a FAT volume

The BIOS parameter block and the places on the volume that are computed from it: by
`f_mount` and `fat_mount`, by `write_rootdir` of `mkfs`, and by the boot sector.  The
computations use words of 8, 16 and 32 bits, and they agree where no root directory
ends within a sector and nothing wraps around.
-/

namespace Pegasos.Fat

/-- The members of `bpb_t` from which places on the volume are computed. -/
structure Bpb where
  bytesPerSector : UInt16
  sectorPerCluster : UInt8
  reservedSectors : UInt16
  fatCount : UInt8
  rootEntries : UInt16
  totalSectors : UInt16
  sectorsPerFat : UInt16
  hiddenSectors : UInt32
  deriving DecidableEq, Repr

/-- The BIOS parameter block in a boot sector. -/
def bpbOf (sector : Sector) : Bpb where
  bytesPerSector := word16 sector 11
  sectorPerCluster := sector 13
  reservedSectors := word16 sector 14
  fatCount := sector 16
  rootEntries := word16 sector 17
  totalSectors := word16 sector 19
  sectorsPerFat := word16 sector 22
  hiddenSectors := word32 sector 28

def BLOCK_SIZE : UInt16 := 512

/-- `sizeof(dirent_t)`. -/
def direntSize : UInt16 := 32

/-- The members of `fatvol_t` that are computed when a volume is mounted. -/
structure Layout where
  fat0sec : UInt32
  rootdirsec : UInt32
  datasec : UInt32
  nClus : UInt32
  deriving DecidableEq, Repr

namespace Bpb

variable (bpb : Bpb)

/-- `f_mount` and `fat_mount`, which compute the same, for a boot sector with `bpb`. -/
def mount : Layout :=
  let fat0sec := bpb.hiddenSectors + bpb.reservedSectors.toUInt32
  let rootdirsec := fat0sec + (bpb.fatCount.toUInt16 * bpb.sectorsPerFat).toUInt32
  let datasec := rootdirsec +
    ((bpb.rootEntries * direntSize + BLOCK_SIZE - 1) / BLOCK_SIZE).toUInt32
  { fat0sec := fat0sec
    rootdirsec := rootdirsec
    datasec := datasec
    nClus := 2 + (bpb.totalSectors.toUInt32 - datasec) / bpb.sectorPerCluster.toUInt32 }

/-- `dir` in `write_rootdir`. -/
def mkfsDir : UInt32 :=
  bpb.hiddenSectors + bpb.reservedSectors.toUInt32 +
    (bpb.fatCount.toUInt16 * bpb.sectorsPerFat).toUInt32

/-- `secs` in `write_rootdir`. -/
def mkfsSecs : UInt16 :=
  (bpb.rootEntries * direntSize + bpb.bytesPerSector - 1) / bpb.bytesPerSector

/-- The sector behind the last one that `write_rootdir` clears. -/
def mkfsEnd : UInt32 := bpb.mkfsDir + bpb.mkfsSecs.toUInt32

/-- `rootsec` of the boot sector. -/
def bootRootsec : UInt16 :=
  bpb.sectorsPerFat * bpb.fatCount.toUInt16 + bpb.hiddenSectors.toUInt16 + bpb.reservedSectors

/-- The first sector of a cluster, as the boot sector computes it. -/
def bootSector (cluster : UInt16) : UInt16 :=
  (cluster - 2) * bpb.sectorPerCluster.toUInt16 + bpb.bootRootsec + (bpb.rootEntries >>> (4 : UInt16))

/-! ## The places over the integers -/

/-- The sectors of all copies of the FAT. -/
def fatSectors : Nat := bpb.fatCount.toNat * bpb.sectorsPerFat.toNat

/-- The sectors of the root directory. -/
def rootSectors : Nat := (bpb.rootEntries.toNat * 32 + 511) / 512

/-- The first sector of the data area. -/
def dataStart : Nat :=
  bpb.hiddenSectors.toNat + bpb.reservedSectors.toNat + bpb.fatSectors + bpb.rootSectors

/-- Behind the number of the last cluster. -/
def clusterEnd : Nat := 2 + (bpb.totalSectors.toNat - bpb.dataStart) / bpb.sectorPerCluster.toNat

/-- The areas lie in order inside the volume, and the FAT has an entry for every cluster. -/
structure Proper : Prop where
  sector : bpb.bytesPerSector = 512
  clusters : bpb.sectorPerCluster ≠ 0
  inside : bpb.dataStart ≤ bpb.totalSectors.toNat
  table : ∀ c < bpb.clusterEnd, c * 3 / 2 + 1 < bpb.sectorsPerFat.toNat * 512

variable {bpb}

section Places

variable (hidden : bpb.hiddenSectors.toNat < 0x10000)
variable (inside : bpb.reservedSectors.toNat + bpb.fatSectors + bpb.rootSectors ≤
  bpb.totalSectors.toNat)

include inside in
/-- Within a volume the sectors of the FATs fit into a word. -/
theorem fatSectors_lt : bpb.fatSectors < 0x10000 := by
  have total := bpb.totalSectors.toNat_lt
  omega

include inside in
theorem fatSectors_toNat :
    (bpb.fatCount.toUInt16 * bpb.sectorsPerFat).toNat = bpb.fatSectors ∧
      (bpb.sectorsPerFat * bpb.fatCount.toUInt16).toNat = bpb.fatSectors := by
  have small := fatSectors_lt inside
  rw [UInt16.mul_comm]
  simp only [UInt16.toNat_mul, UInt8.toNat_toUInt16, and_self]
  rw [Nat.mul_comm, ← fatSectors]
  exact Nat.mod_eq_of_lt small

include hidden inside in
theorem rootdirsec_toNat : bpb.mount.rootdirsec.toNat =
    bpb.hiddenSectors.toNat + bpb.reservedSectors.toNat + bpb.fatSectors := by
  have small := fatSectors_lt inside
  have reserved := bpb.reservedSectors.toNat_lt
  simp only [mount, UInt32.toNat_add, UInt16.toNat_toUInt32, (fatSectors_toNat inside).1]
  omega

/-- The size of the root directory is right while its bytes fit into a word. -/
theorem rootSectors_toNat :
    ((bpb.rootEntries * direntSize + BLOCK_SIZE - 1) / BLOCK_SIZE).toNat = bpb.rootSectors ↔
      bpb.rootEntries.toNat < 2033 := by
  have entries := bpb.rootEntries.toNat_lt
  simp only [UInt16.toNat_div, UInt16.toNat_sub, UInt16.toNat_add, UInt16.toNat_mul, direntSize,
    BLOCK_SIZE, rootSectors, UInt16.reduceToNat]
  omega

include hidden inside in
theorem datasec_toNat :
    bpb.mount.datasec.toNat = bpb.dataStart ↔ bpb.rootEntries.toNat < 2033 := by
  have start := rootdirsec_toNat hidden inside
  have small := fatSectors_lt inside
  have reserved := bpb.reservedSectors.toNat_lt
  have same : bpb.mount.datasec = bpb.mount.rootdirsec +
    ((bpb.rootEntries * direntSize + BLOCK_SIZE - 1) / BLOCK_SIZE).toUInt32 := rfl
  have size := ((bpb.rootEntries * direntSize + BLOCK_SIZE - 1) / BLOCK_SIZE).toNat_lt
  rw [← rootSectors_toNat, same, UInt32.toNat_add, UInt16.toNat_toUInt32, start, dataStart]
  omega

include hidden inside in
theorem nClus_toNat (entries : bpb.rootEntries.toNat < 2033)
    (total : bpb.dataStart ≤ bpb.totalSectors.toNat) : bpb.mount.nClus.toNat = bpb.clusterEnd := by
  have start := (datasec_toNat hidden inside).mpr entries
  have small := bpb.totalSectors.toNat_lt
  have same : bpb.mount.nClus =
    2 + (bpb.totalSectors.toUInt32 - bpb.mount.datasec) / bpb.sectorPerCluster.toUInt32 := rfl
  have rest : (bpb.totalSectors.toUInt32 - bpb.mount.datasec).toNat =
      bpb.totalSectors.toNat - bpb.dataStart := by
    rw [UInt32.toNat_sub_of_le _ _ (UInt32.le_iff_toNat_le.mpr (by simpa [start] using total)),
      start, UInt16.toNat_toUInt32]
  have fewer := Nat.div_le_self (bpb.totalSectors.toNat - bpb.dataStart) bpb.sectorPerCluster.toNat
  rw [same, UInt32.toNat_add, UInt32.toNat_div, rest, UInt8.toNat_toUInt32, clusterEnd]
  exact Nat.mod_eq_of_lt (by simp; omega)

/-- `write_rootdir` clears the area up to the data area that is mounted. -/
theorem mkfsEnd_eq (sector : bpb.bytesPerSector = 512) : bpb.mkfsEnd = bpb.mount.datasec := by
  simp only [mkfsEnd, mkfsDir, mkfsSecs, mount, sector, BLOCK_SIZE]

include hidden inside in
/-- The boot sector leaves out the entries of the root directory in an incomplete
sector, and its sectors are words. -/
theorem bootSector_toNat : (bpb.bootSector 2).toNat = bpb.dataStart ↔
    bpb.rootEntries.toNat % 16 = 0 ∧ bpb.dataStart < 0x10000 := by
  have small := fatSectors_lt inside
  have first : (bpb.bootSector 2).toNat = (bpb.hiddenSectors.toNat + bpb.reservedSectors.toNat +
      bpb.fatSectors + bpb.rootEntries.toNat / 16) % 0x10000 := by
    have sixteen : (bpb.rootEntries >>> (4 : UInt16)).toNat = bpb.rootEntries.toNat / 16 := by
      simp [Nat.shiftRight_eq_div_pow]
    simp only [bootSector, bootRootsec, UInt16.sub_self, UInt16.zero_mul, UInt16.zero_add,
      UInt16.toNat_add, UInt32.toNat_toUInt16, (fatSectors_toNat inside).2, sixteen]
    omega
  rw [first, dataStart, rootSectors]
  omega

end Places

/-- Where the data area begins is the same for all that compute it, and right, exactly
if the root directory fills its sectors, its bytes fit into a word and the sectors up
to the data area do. -/
theorem data_area_agrees (sector : bpb.bytesPerSector = 512)
    (hidden : bpb.hiddenSectors.toNat < 0x10000)
    (inside : bpb.reservedSectors.toNat + bpb.fatSectors + bpb.rootSectors ≤
      bpb.totalSectors.toNat) :
    ((bpb.bootSector 2).toNat = bpb.dataStart ∧ bpb.mkfsEnd.toNat = bpb.dataStart ∧
        bpb.mount.datasec.toNat = bpb.dataStart) ↔
      bpb.rootEntries.toNat % 16 = 0 ∧ bpb.rootEntries.toNat < 2033 ∧ bpb.dataStart < 0x10000 := by
  rw [mkfsEnd_eq sector, bootSector_toNat hidden inside, datasec_toNat hidden inside]
  tauto

/-- A floppy disk of 1.44 MB. -/
def floppy : Bpb where
  bytesPerSector := 512
  sectorPerCluster := 1
  reservedSectors := 1
  fatCount := 2
  rootEntries := 224
  totalSectors := 2880
  sectorsPerFat := 9
  hiddenSectors := 0

theorem data_area_agrees_floppy : (floppy.bootSector 2).toNat = 33 ∧ floppy.mkfsEnd.toNat = 33 ∧
    floppy.mount.datasec.toNat = 33 :=
  (data_area_agrees (by decide) (by decide) (by decide)).mpr (by decide)

/-- One more root entry, and the boot sector is a sector behind the others. -/
theorem boot_sector_misses_root_entry :
    let bpb := { floppy with rootEntries := 225 }
    bpb.bytesPerSector = 512 ∧ bpb.hiddenSectors.toNat < 0x10000 ∧
      bpb.reservedSectors.toNat + bpb.fatSectors + bpb.rootSectors ≤ bpb.totalSectors.toNat ∧
      bpb.mount.datasec.toNat = bpb.dataStart ∧ (bpb.bootSector 2).toNat ≠ bpb.dataStart := by
  decide

end Bpb

end Pegasos.Fat
