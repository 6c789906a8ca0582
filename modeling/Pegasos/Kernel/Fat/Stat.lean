import Mathlib.Data.Nat.Bitwise
import Pegasos.Kernel.Fat.FileObj
import Pegasos.Kernel.Fat.Resolution
import Pegasos.Kernel.Files.FileIo

/-!
# Inodes

`fat_ino_get`, `fat_stat` and `fillstat` of `fileops.c`.  An inode is the place of a slot in
32 bits, an error code, or 0 for the root directory, which has no slot.
-/

namespace Pegasos.Kernel.Fat

open Pegasos.Support
open Pegasos.Fat (Sector Bpb bpbOf Dirent direntAt word16 Slot elements FA_DIR FA_DEV SLASH SPACE)
open Cache (BlkPtr)
open Files (INO_ERR Stat S_IFREG S_IFDIR S_IFBLK S_IFCHR S_ISREG S_ISDIR S_ISBLK S_ISCHR S_MAJOR
  S_MINOR)

def EACCES : Int := 12

def O_RDONLY : UInt16 := 0
def O_ACCESS : UInt16 := 3
def O_CREAT : UInt16 := 4

/-- `ISBDEV`. -/
def ISBDEV (dev : UInt8) : Bool := dev &&& 0x80 ≠ 0

/-- `S_RDEV`. -/
def S_RDEV (maj min : UInt8) : UInt16 := (maj.toUInt16 <<< 8) ||| (min.toUInt16 &&& 0xff)

namespace FatVol

variable (fv : FatVol)

/-- `fat_ino_get`: an inode, or an error code in its place. -/
def fatInoGet (path : List UInt8) (flags : UInt16) : DiskM Nat := do
  match ← Program.attempt (fv.dirFindPath path) with
  | .ok info =>
      if info.dir.attr &&& FA_DIR ≠ 0 ∧ flags &&& O_ACCESS ≠ O_RDONLY then
        return wordOfInt (-EACCES)
      else return info.ino
  | .error rc =>
      if rc = -ENOENT ∧ flags &&& O_CREAT ≠ 0 then
        match ← Program.attempt (fv.fobjCreate path 0) with
        | .ok info => return info.ino
        | .error rc => return wordOfInt rc
      else return wordOfInt rc

/-- `fillstat`. -/
def fillstat (info : FileInfo) : Stat where
  stSize := info.dir.size
  stBlksize := fv.bpb.bytesPerSector
  stMode :=
    if info.dir.attr &&& FA_DIR ≠ 0 then S_IFDIR
    else if info.dir.attr &&& FA_DEV ≠ 0 then
      if ISBDEV info.dir.major then S_IFBLK else S_IFCHR
    else S_IFREG
  stRdev :=
    if info.dir.attr &&& FA_DIR ≠ 0 then 0
    else if info.dir.attr &&& FA_DEV ≠ 0 then S_RDEV info.dir.major info.dir.minor
    else 0

/-- `fat_stat`.  The block is not put back. -/
def fatStat (ino : Nat) : DiskM Stat := do
  let blk ← bcGet (fv.tag (inoSec ino))
  let dir := direntAt (← readBlock blk) (inoOffs ino)
  return fv.fillstat { ino := ino, dir := dir }

end FatVol

/-! ## What the code does -/

/-- The entry is one of a directory. -/
def IsDir (dirent : Dirent) : Prop := dirent.attr &&& FA_DIR ≠ 0

/-- The entry is one of a device. -/
def IsDev (dirent : Dirent) : Prop := ¬IsDir dirent ∧ dirent.attr &&& FA_DEV ≠ 0

/-- What is reported is the size, the type and the device numbers of an entry. -/
structure Describes (st : Stat) (dirent : Dirent) : Prop where
  size : st.stSize = dirent.size
  dir : S_ISDIR st.stMode = true ↔ IsDir dirent
  blk : S_ISBLK st.stMode = true ↔ IsDev dirent ∧ 0x80 ≤ dirent.major
  chr : S_ISCHR st.stMode = true ↔ IsDev dirent ∧ dirent.major < 0x80
  reg : S_ISREG st.stMode = true ↔ ¬IsDir dirent ∧ ¬IsDev dirent
  numbers : IsDev dirent → S_MAJOR st.stRdev = dirent.major.toUInt16 ∧
    S_MINOR st.stRdev = dirent.minor.toUInt16

theorem isbdev_iff (dev : UInt8) : ISBDEV dev = true ↔ 0x80 ≤ dev := by
  have small := dev.toNat_lt
  have bit : dev.toNat &&& 0x80 = (dev.toNat.testBit 7).toNat * 2 ^ 7 := Nat.and_two_pow dev.toNat 7
  have seventh : dev.toNat.testBit 7 = decide (0x80 ≤ dev.toNat) := by
    rw [Nat.testBit_eq_decide_div_mod_eq]
    apply decide_eq_decide.mpr
    omega
  rw [ISBDEV, decide_eq_true_iff, ne_eq, ← UInt8.toNat_inj, UInt8.toNat_and]
  change ¬dev.toNat &&& 0x80 = 0 ↔ 0x80 ≤ dev.toNat
  rw [bit, seventh]
  by_cases high : 0x80 ≤ dev.toNat <;> simp [high]

theorem major_minor (maj min : UInt8) : S_MAJOR (S_RDEV maj min) = maj.toUInt16 ∧
    S_MINOR (S_RDEV maj min) = min.toUInt16 := by
  have low : min.toNat < 2 ^ 8 := min.toNat_lt
  have high : maj.toNat < 2 ^ 8 := maj.toNat_lt
  have mask : ∀ n : Nat, n &&& 255 = n % 2 ^ 8 := fun n => Nat.and_two_pow_sub_one_eq_mod n 8
  have value : (S_RDEV maj min).toNat = maj.toNat * 256 + min.toNat := by
    have shifted : maj.toNat <<< 8 % 65536 = maj.toNat <<< 8 := by
      rw [Nat.shiftLeft_eq]
      omega
    simp only [S_RDEV, UInt16.toNat_or, UInt16.toNat_shiftLeft, UInt8.toNat_toUInt16, UInt16.toNat_and]
    change maj.toNat <<< 8 % 65536 ||| min.toNat &&& 255 = _
    rw [mask, Nat.mod_eq_of_lt low, shifted, ← Nat.shiftLeft_add_eq_or_of_lt low, Nat.shiftLeft_eq]
  constructor
  · apply UInt16.toNat_inj.mp
    simp only [S_MAJOR, UInt16.toNat_shiftRight, value, UInt8.toNat_toUInt16]
    change (maj.toNat * 256 + min.toNat) >>> 8 = _
    rw [Nat.shiftRight_eq_div_pow]
    omega
  · apply UInt16.toNat_inj.mp
    simp only [S_MINOR, UInt16.toNat_and, value, UInt8.toNat_toUInt16]
    change (maj.toNat * 256 + min.toNat) &&& 255 = _
    rw [mask]
    omega
namespace FatVol

variable {fv : FatVol} {data : Nat → Sector} {base : BlkPtr → Nat} {disk after : Disk}
  {path : List UInt8} {flags : UInt16} {info : FileInfo} {sec offs ino : Nat}

theorem fillstat_describes (info : FileInfo) : Describes (fv.fillstat info) info.dir := by
  have high := isbdev_iff info.dir.major
  have low : info.dir.major < 0x80 ↔ ¬0x80 ≤ info.dir.major := UInt8.not_le.symm
  by_cases isDir : IsDir info.dir
  · have mode : (fv.fillstat info).stMode = S_IFDIR := if_pos isDir
    have noDev : ¬IsDev info.dir := fun dev => dev.1 isDir
    refine ⟨rfl, ?_, ?_, ?_, ?_, ?_⟩ <;> simp [mode, isDir, noDev] <;> decide
  have mode : (fv.fillstat info).stMode = if info.dir.attr &&& FA_DEV ≠ 0 then
      if ISBDEV info.dir.major then S_IFBLK else S_IFCHR else S_IFREG := if_neg isDir
  by_cases attr : info.dir.attr &&& FA_DEV ≠ 0
  · have isDev : IsDev info.dir := ⟨isDir, attr⟩
    have numbers : (fv.fillstat info).stRdev = S_RDEV info.dir.major info.dir.minor :=
      (if_neg isDir).trans (if_pos attr)
    rw [if_pos attr] at mode
    by_cases block : 0x80 ≤ info.dir.major
    · rw [if_pos (high.mpr block)] at mode
      refine ⟨rfl, ?_, ?_, ?_, ?_, ?_⟩ <;>
        simp [mode, isDir, isDev, low, block, numbers, major_minor] <;> decide
    · rw [if_neg (mt high.mp block)] at mode
      refine ⟨rfl, ?_, ?_, ?_, ?_, ?_⟩ <;>
        simp [mode, isDir, isDev, low, block, numbers, major_minor] <;> decide
  · have noDev : ¬IsDev info.dir := fun dev => attr dev.2
    rw [if_neg attr] at mode
    refine ⟨rfl, ?_, ?_, ?_, ?_, ?_⟩ <;> simp [mode, isDir, noDev] <;> decide

/-! ## Inodes of slots -/

theorem INO_ERR_eq_zero (small : ino < 0x100000000) :
    INO_ERR (UInt32.ofNat ino) = 0 ↔ ino < 0xffffffe0 := by
  have value : (UInt32.ofNat ino).toInt32.toInt = (ino : Int).bmod (2 ^ 32) :=
    BitVec.toInt_ofNat' ino
  rw [INO_ERR, value, Int.bmod_def, Files.EMAX]
  split <;> omega

/-- An inode of a slot, and back. -/
theorem fatIno_decode (small : sec < 0x10000000) (inside : offs < 512) (aligned : 32 ∣ offs) :
    inoSec (fatIno sec offs) = sec ∧ inoOffs (fatIno sec offs) = offs ∧
      fatIno sec offs = sec * 16 + offs / 32 := by
  unfold inoSec inoOffs fatIno word
  omega

theorem fatInoGet_ok (readOnly : flags &&& O_ACCESS = O_RDONLY)
    (ran : fv.dirFindPath path disk = .ok info after) :
    fv.fatInoGet path flags disk = .ok info.ino after := by
  rw [fatInoGet, Program.bind_ok (Program.attempt_ok ran)]
  change (if _ then _ else _ : DiskM Nat) after = _
  rw [if_neg fun both => both.2 readOnly]
  rfl

theorem fatStat_gives (others : Others base) (serves : Serves fv.dev fv.unit data base disk [])
    (ino : Nat) : ∃ after, fv.fatStat ino disk =
      .ok (fv.fillstat { ino := ino, dir := direntAt (data (inoSec ino)) (inoOffs ino) }) after := by
  obtain ⟨b, after, ran, holds, -, -⟩ := get_holds others serves (inoSec ino)
  have block : readBlock b after = .ok (data (inoSec ino)) after := by
    rw [← holds.bytes]
    rfl
  rw [fatStat, Program.bind_ok ran, Program.bind_ok block]
  exact ⟨after, rfl⟩

/-- `dir_find_path` returns this. -/
structure Finds (fv : FatVol) (path : List UInt8) (disk : Disk) (info : FileInfo) : Prop where
  ran : ∃ after, fv.dirFindPath path disk = .ok info after

/-- `fat_ino_get` returns an inode that is no error and leads to the slot of the path, and
`fat_stat` of it describes the entry. -/
structure StatAgrees (fv : FatVol) (data : Nat → Sector) (path : List UInt8) (flags : UInt16)
    (disk : Disk) (dirent : Dirent) : Prop where
  agrees : Program.Gives (fv.fatInoGet path flags) disk fun ino after =>
    INO_ERR (UInt32.ofNat ino) = 0 ∧
      (∀ slot, fv.Resolves data path (some slot) → inoSec ino = slot.sec ∧ inoOffs ino = slot.offs) ∧
      Program.Gives (fv.fatStat ino) after fun st _ => Describes st dirent

/-- No directory entry begins a boot sector with sectors of 512 bytes. -/
theorem not_isDir_boot (sized : (bpbOf (data 0)).bytesPerSector.toNat = 512) :
    ¬IsDir (direntAt (data 0) 0) := by
  have low : data 0 11 = 0 := by
    apply UInt8.toNat_inj.mp
    have first := (data 0 11).toNat_lt
    have second := (data 0 12).toNat_lt
    simp [bpbOf, word16] at sized
    change (data 0 11).toNat = 0
    omega
  rw [IsDir, not_not]
  change data 0 (0 + 11) &&& FA_DIR = 0
  rw [low]
  rfl

/-- What is left to show once the three functions have run. -/
theorem statAgrees_iff (others : Others base) (serves : Serves fv.dev fv.unit data base after [])
    (readOnly : flags &&& O_ACCESS = O_RDONLY) (ran : fv.dirFindPath path disk = .ok info after) :
    fv.StatAgrees data path flags disk info.dir ↔ INO_ERR (UInt32.ofNat info.ino) = 0 ∧
      (∀ slot, fv.Resolves data path (some slot) →
        inoSec info.ino = slot.sec ∧ inoOffs info.ino = slot.offs) ∧
      Describes (fv.fillstat { ino := info.ino
                               dir := direntAt (data (inoSec info.ino)) (inoOffs info.ino) }) info.dir := by
  have got := fatInoGet_ok readOnly ran
  obtain ⟨last, stat⟩ := fatStat_gives others serves info.ino
  constructor
  · rintro ⟨ino, after', ran', fine, slots, st, last', stat', describes⟩
    obtain ⟨rfl, rfl⟩ := Result.ok.inj (got.symm.trans ran')
    obtain ⟨rfl, -⟩ := Result.ok.inj (stat.symm.trans stat')
    exact ⟨fine, slots, describes⟩
  · rintro ⟨fine, slots, describes⟩
    exact ⟨_, after, got, fine, slots, _, last, stat, describes⟩

/-- The inode of the root directory is that of the first bytes of the boot sector. -/
theorem not_statAgrees_root (sized : (bpbOf (data 0)).bytesPerSector.toNat = 512)
    (others : Others base) (serves : Serves fv.dev fv.unit data base after [])
    (readOnly : flags &&& O_ACCESS = O_RDONLY)
    (ran : fv.dirFindPath path disk = .ok (entryInfo data none) after) :
    ¬fv.StatAgrees data path flags disk rootDirent := by
  intro agrees
  have describes : Describes (fv.fillstat
      { ino := 0, dir := direntAt (data (inoSec 0)) (inoOffs 0) }) rootDirent :=
    ((statAgrees_iff others serves readOnly ran).mp agrees).2.2
  have boot : inoSec 0 = 0 ∧ inoOffs 0 = 0 := ⟨rfl, rfl⟩
  rw [boot.1, boot.2] at describes
  have same : Describes (fv.fillstat _) _ := fillstat_describes { ino := 0, dir := direntAt (data 0) 0 }
  have isDir : IsDir rootDirent := by
    rw [IsDir]
    decide
  exact not_isDir_boot sized (same.dir.mp (describes.dir.mpr isDir))

/-- The inode of a slot, which may look like an error code. -/
theorem statAgrees_entry {slot : Slot} (resolves : fv.Resolves data path (some slot))
    (small : slot.sec < 0xfffffff) (others : Others base)
    (serves : Serves fv.dev fv.unit data base after []) (readOnly : flags &&& O_ACCESS = O_RDONLY)
    (ran : fv.dirFindPath path disk = .ok (infoAt data slot) after) :
    fv.StatAgrees data path flags disk (slot.dirent data) ↔ slot.sec ≠ 0xffffffe := by
  obtain ⟨less, aligned⟩ := resolves.inside
  obtain ⟨sector, place, number⟩ := fatIno_decode (small.trans (by decide)) less aligned
  have agrees := statAgrees_iff others serves readOnly ran
  change fv.StatAgrees data path flags disk (slot.dirent data) ↔
    INO_ERR (UInt32.ofNat (fatIno slot.sec slot.offs)) = 0 ∧
      (∀ slot', fv.Resolves data path (some slot') → inoSec (fatIno slot.sec slot.offs) = slot'.sec ∧
        inoOffs (fatIno slot.sec slot.offs) = slot'.offs) ∧ Describes (fv.fillstat
          { ino := fatIno slot.sec slot.offs
            dir := direntAt (data (inoSec (fatIno slot.sec slot.offs)))
              (inoOffs (fatIno slot.sec slot.offs)) }) (slot.dirent data) at agrees
  rw [agrees, sector, place, INO_ERR_eq_zero (by omega), number]
  constructor
  · rintro ⟨fine, -⟩
    omega
  · intro other
    refine ⟨by omega, fun slot' resolves' => ?_, fillstat_describes _⟩
    obtain rfl := resolves.unique resolves'
    exact ⟨rfl, rfl⟩

/-- The inode of a path and what is reported for it agree with the lookup exactly if the path
comes to a slot, and not to one of the last sector that 28 bits leave. -/
theorem stat_agrees (mounted : fv = ofBpb fv.dev fv.unit (bpbOf (data 0)))
    (sized : fv.blksize = BLOCK_SIZE) (others : Others base)
    (serves : Serves fv.dev fv.unit data base disk []) (readOnly : flags &&& O_ACCESS = O_RDONLY)
    {sectors : Nat} (few : sectors < 0x10000000)
    (inside : ∀ slot, fv.Resolves data path (some slot) → slot.sec < sectors)
    (finds : fv.Finds path disk info) : fv.StatAgrees data path flags disk info.dir ↔
      ∃ slot, fv.Resolves data path (some slot) ∧ slot.sec ≠ 0xffffffe := by
  have root : fv.rootdirsec < 0x100000000 := by
    rw [mounted]
    exact (bpbOf (data 0)).mount.rootdirsec.toNat_lt
  obtain ⟨after, ran⟩ := finds.ran
  obtain ⟨entry, resolves, rfl, left⟩ := dirFindPath_resolves sized root others serves ran
  cases entry with
  | none =>
      have size : (bpbOf (data 0)).bytesPerSector.toNat = 512 := by
        rw [blksize, mounted] at sized
        exact sized
      have differs := not_statAgrees_root size others left.serves readOnly ran
      refine ⟨fun agrees => absurd agrees differs, fun ⟨slot, found, _⟩ => ?_⟩
      cases resolves with
      | root empty nonempty =>
          cases found with
          | entry split found => exact nomatch empty.symm.trans split
  | some slot =>
      have small : slot.sec < 0xfffffff := by
        have less := inside slot resolves
        omega
      refine (statAgrees_entry resolves small others left.serves readOnly ran).trans ?_
      constructor
      · exact fun other => ⟨slot, resolves, other⟩
      · rintro ⟨slot', resolves', other⟩
        obtain rfl := resolves.unique resolves'
        exact other

theorem stat_agrees_file : (ofBpb 0 0 .floppy).StatAgrees fileData [SLASH, 97] O_RDONLY
    (.idle fileData) (infoAt fileData ⟨19, 0⟩).dir := by
  have root : (ofBpb 0 0 .floppy).rootdirsec < 0x100000000 := by decide
  obtain ⟨after, ran, left⟩ := fileData_resolves.runs rfl root .none (.idle 0 0 fileData)
  have mounted : bpbOf (fileData 0) = .floppy := bpbOf_floppySector
  have inside : ∀ slot, (ofBpb 0 0 .floppy).Resolves fileData [SLASH, 97] (some slot) →
      slot.sec < 2880 := by
    intro slot found
    rw [← fileData_resolves.unique found]
    decide
  apply (@stat_agrees _ _ _ _ _ O_RDONLY _ (by rw [mounted]; rfl) rfl .none (.idle 0 0 fileData) rfl
    2880 (by decide) inside ⟨after, ran⟩).mpr
  exact ⟨⟨19, 0⟩, fileData_resolves, by decide⟩

/-- The root directory of a floppy disk is found, and reported to be a regular file. -/
theorem stat_takes_root_for_file :
    (ofBpb 0 0 .floppy).Finds [SLASH] (.idle fileData) { ino := 0, dir := rootDirent } ∧
      ¬(ofBpb 0 0 .floppy).StatAgrees fileData [SLASH] O_RDONLY (.idle fileData) rootDirent := by
  have root : (ofBpb 0 0 .floppy).rootdirsec < 0x100000000 := by decide
  have resolves : (ofBpb 0 0 .floppy).Resolves fileData [SLASH] none := .root (by decide) nofun
  obtain ⟨after, ran, left⟩ := resolves.runs rfl root .none (.idle 0 0 fileData)
  exact ⟨⟨after, ran⟩, not_statAgrees_root (by decide) .none left.serves rfl ran⟩

end FatVol

end Pegasos.Kernel.Fat
