import Pegasos.Kernel.Fat.FileSectors
import Pegasos.Kernel.Fat.PathLookup

/-!
# Reading a slice of a file

On a consistent volume `fat_read` follows the chain of the file to the cluster of the offset
before it looks at the size, and it clamps the size of the slice with words.  So it returns the
slice only from offsets in front of the end of the file, and from the end itself where the last
cluster is not full.
-/

namespace Pegasos.Kernel.Fat

open Pegasos.Support
open Pegasos.Fat (Sector Dirent direntAt)
open Cache (BlkPtr)

/-! ## Chains of files -/

section Chains

variable {next : Nat → Nat} {c n : Nat} {rest clusters : List Nat}

/-- The clusters of a file from its first cluster on; an empty file has none. -/
def FileChain (next : Nat → Nat) : Nat → List Nat → Prop
  | c, [] => c = 0
  | c, d :: rest => c = d ∧ Links next (0xff0 ≤ ·) d rest

theorem walk_links (links : Links next (0xff0 ≤ ·) c rest) (inside : ∀ d ∈ rest, d < 0xff0) :
    walk next n c = (c :: rest)[n]? := by
  induction n generalizing c rest with
  | zero => rfl
  | succ n ih =>
      rw [walk, List.getElem?_cons_succ]
      cases rest with
      | nil => exact if_pos links
      | cons d rest =>
          have small := inside d List.mem_cons_self
          rw [links.1, if_neg (Nat.not_le_of_lt small)]
          exact ih links.2 fun e member => inside e (List.mem_cons_of_mem d member)

/-- What following the chain of a file comes to. -/
theorem walk_fileChain (chain : FileChain next c clusters) (media : 0xff0 ≤ next 0)
    (inside : ∀ d ∈ clusters, d < 0xff0) :
    walk next n c = if clusters = [] ∧ n = 0 then some 0 else clusters[n]? := by
  cases clusters with
  | nil =>
      obtain rfl : c = 0 := chain
      cases n with
      | zero => rfl
      | succ n => exact if_pos media
  | cons d rest =>
      obtain ⟨rfl, links⟩ := chain
      rw [if_neg (by simp)]
      exact walk_links links fun e member => inside e (List.mem_cons_of_mem c member)

/-- So many clusters at most have a number in front of the marks. -/
theorem FileChain.length_le (chain : FileChain next c clusters)
    (inside : ∀ d ∈ clusters, d < 0xff0) : clusters.length ≤ 0xff0 := by
  cases clusters with
  | nil => exact Nat.zero_le _
  | cons d rest =>
      have nodup := chain.2.nodup fun e member => Nat.not_le_of_lt (inside e member)
      have subset : d :: rest ⊆ List.range 0xff0 :=
        fun e member => List.mem_range.mpr (inside e member)
      simpa using (nodup.subperm subset).length_le

end Chains

namespace FatVol

/-! ## What a read is for -/

/-- The directory entry behind an inode. -/
def entryOf (data : Nat → Sector) (ino : Nat) : Dirent := direntAt (data (inoSec ino)) (inoOffs ino)

/-- A file of a consistent volume: as many clusters as its size needs, in the data area, and the
last one leads to a mark.  The entry of cluster 0 in the FAT holds the media byte. -/
structure IsFile (fv : FatVol) (data : Nat → Sector) (ino : Nat) (clusters : List Nat) : Prop where
  notRoot : ino ≠ 0
  media : 0xff0 ≤ fv.nextOf data 0
  chain : FileChain (fv.nextOf data) (entryOf data ino).cluster0.toNat clusters
  inside : ∀ d ∈ clusters, 2 ≤ d ∧ d < fv.nClus ∧ d < 0xff0
  count : clusters.length =
    ((entryOf data ino).size.toNat + fv.clusterBytes - 1) / fv.clusterBytes

/-- The byte of a file at an offset. -/
def fileByte (fv : FatVol) (data : Nat → Sector) (clusters : List Nat) (offs : Nat) : UInt8 :=
  data (fv.datasec + (clusters.getD (offs / fv.clusterBytes) 0 - 2) * fv.secPerClus +
    offs % fv.clusterBytes / BLOCK_SIZE) (offs % BLOCK_SIZE)

/-- `fat_read` returns as many bytes as there are, and copies those of the file. -/
def RightRead (fv : FatVol) (data : Nat → Sector) (disk : Disk) (ino : Nat) (clusters : List Nat)
    (off size : Nat) : Prop :=
  Program.Gives (fv.fatRead ino off size) disk fun value after =>
    value = min size ((entryOf data ino).size.toNat - off) ∧
      after.buf = stored disk.buf 0 (min size ((entryOf data ino).size.toNat - off)) fun k =>
        fv.fileByte data clusters (off + k)

/-- The offset is in front of the end of the file, or at the end behind a cluster that is not
full; and with clusters of 32 KB it is in the first one. -/
def Reads (fv : FatVol) (fileSize off : Nat) : Prop :=
  (off < fileSize ∨ off = fileSize ∧ (fileSize = 0 ∨ fileSize % fv.clusterBytes ≠ 0)) ∧
    (fv.secPerClus < 64 ∨ off < 0x8000)

variable {fv : FatVol} {data : Nat → Sector} {base : BlkPtr → Nat} {disk : Disk}
  {clusters : List Nat} {ino off size k : Nat}

theorem Volume.sized (volume : fv.Volume) : fv.Sized :=
  ⟨volume.blksize, volume.some, volume.most⟩

/-! ## The cluster of an offset -/

section File

variable (volume : fv.Volume) (isFile : fv.IsFile data ino clusters)
include volume isFile

/-- The size of a file lies in its last cluster or at the end of it. -/
theorem IsFile.size_bounds :
    (entryOf data ino).size.toNat ≤ clusters.length * fv.clusterBytes ∧
      clusters.length * fv.clusterBytes < (entryOf data ino).size.toNat + fv.clusterBytes ∧
      clusters.length ≤ 0xff0 ∧ clusters.length * fv.clusterBytes < 0x40000000 := by
  have positive := clusterBytes_pos volume.sized
  have split := Nat.div_add_mod' ((entryOf data ino).size.toNat + fv.clusterBytes - 1)
    fv.clusterBytes
  have rest := Nat.mod_lt ((entryOf data ino).size.toNat + fv.clusterBytes - 1) positive
  rw [← isFile.count] at split
  have few := isFile.chain.length_le fun d member => (isFile.inside d member).2.2
  have bytes : fv.clusterBytes ≤ 0x8000 := Nat.mul_le_mul_left BLOCK_SIZE volume.most
  have small : clusters.length * fv.clusterBytes ≤ 0xff0 * 0x8000 := Nat.mul_le_mul few bytes
  omega

/-- Where `fat_read` begins. -/
theorem IsFile.start (small : off < 0x80000000) :
    walk (fv.nextOf data) (fv.clusOf off) (entryOf data ino).cluster0.toNat =
      if fv.secPerClus < 64 ∨ off < 0x8000 then
        if clusters = [] ∧ off / fv.clusterBytes = 0 then some 0
        else clusters[off / fv.clusterBytes]?
      else none := by
  rw [walk_fileChain isFile.chain isFile.media fun d member => (isFile.inside d member).2.2]
  rcases Nat.lt_or_ge fv.secPerClus 64 with regular | most
  · have within : fv.secPerClus < 64 ∨ off < 0x8000 := .inl regular
    rw [clusOf_eq volume.sized regular small, if_pos within]
  · have even := Nat.le_antisymm volume.most most
    have bytes : fv.clusterBytes = 0x8000 := by rw [clusterBytes, even]; decide
    rw [clusOf_even volume.sized even small, bytes]
    by_cases first : off < 0x8000
    · have within : fv.secPerClus < 64 ∨ off < 0x8000 := .inr first
      rw [if_pos within, Nat.div_eq_of_lt first]
    · obtain ⟨-, -, few, -⟩ := isFile.size_bounds volume
      have row : 0 < off / 0x8000 := Nat.div_pos (by omega) (by decide)
      rw [if_neg (by omega), if_neg (by omega)]
      exact List.getElem?_eq_none (by omega)

/-- Where `fat_read` finds a cluster to begin with. -/
theorem IsFile.start_iff (small : off < 0x80000000) :
    (walk (fv.nextOf data) (fv.clusOf off) (entryOf data ino).cluster0.toNat).isSome ↔
      (fv.secPerClus < 64 ∨ off < 0x8000) ∧
        (clusters = [] ∧ off / fv.clusterBytes = 0 ∨ off < clusters.length * fv.clusterBytes) := by
  rw [isFile.start volume small, ← Nat.div_lt_iff_lt_mul (clusterBytes_pos volume.sized)]
  split
  · rename_i regular
    split
    · rename_i first
      simp only [Option.isSome_some, regular, true_and, first, true_or]
    · rename_i later
      simp only [isSome_getElem?, regular, true_and, later, false_or]
  · rename_i beyond
    simp only [Option.isSome_none, Bool.false_eq_true, beyond, false_and]

/-- The offsets with a right slice are in the file, and have a cluster to begin with. -/
theorem IsFile.reads_iff (small : off < 0x80000000) :
    fv.Reads (entryOf data ino).size.toNat off ↔
      off ≤ (entryOf data ino).size.toNat ∧
        (walk (fv.nextOf data) (fv.clusOf off) (entryOf data ino).cluster0.toNat).isSome := by
  obtain ⟨fits, last, -, -⟩ := isFile.size_bounds volume
  have none : clusters = [] ↔ clusters.length = 0 := List.length_eq_zero_iff.symm
  rw [isFile.start_iff volume small, Reads]
  generalize (entryOf data ino).size.toNat = fileSize at *
  constructor
  · rintro ⟨before | ⟨rfl, rfl | ragged⟩, regular⟩
    · exact ⟨before.le, regular, .inr (by omega)⟩
    · have zero : clusters.length = 0 := by
        by_contra some
        have := Nat.le_mul_of_pos_left fv.clusterBytes (Nat.pos_of_ne_zero some)
        omega
      exact ⟨le_rfl, regular, .inl ⟨none.mpr zero, Nat.zero_div _⟩⟩
    · refine ⟨le_rfl, regular, .inr (lt_of_le_of_ne fits ?_)⟩
      intro full
      rw [full, Nat.mul_mod_left] at ragged
      exact ragged rfl
  · rintro ⟨le, regular, first⟩
    refine ⟨?_, regular⟩
    rcases Nat.lt_or_eq_of_le le with before | rfl
    · exact .inl before
    refine .inr ⟨rfl, ?_⟩
    rcases first with ⟨isNil, row⟩ | before
    · rw [isNil, List.length_nil, Nat.zero_mul] at fits
      exact .inl (Nat.le_zero.mp fits)
    · refine .inr fun full => ?_
      obtain ⟨rows, isRows⟩ := Nat.dvd_of_mod_eq_zero full
      rw [isRows, Nat.mul_comm clusters.length] at before last
      rw [← Nat.mul_add_one] at last
      have low := Nat.lt_of_mul_lt_mul_left before
      have high := Nat.lt_of_mul_lt_mul_left last
      omega

/-- The sector that `fat_read` comes to is that of the file. -/
theorem IsFile.seqSector {s : Nat} (first : clusters[off / fv.clusterBytes]? = some s)
    (within : (off + k) / fv.clusterBytes < clusters.length) :
    fv.seqSector data s (off % fv.clusterBytes + k) =
      fv.datasec + (clusters.getD ((off + k) / fv.clusterBytes) 0 - 2) * fv.secPerClus +
        (off + k) % fv.clusterBytes / BLOCK_SIZE := by
  have walked : ∀ n, walk (fv.nextOf data) n (entryOf data ino).cluster0.toNat =
      if clusters = [] ∧ n = 0 then some 0 else clusters[n]? := fun n =>
    walk_fileChain isFile.chain isFile.media fun d member => (isFile.inside d member).2.2
  have nonempty : clusters ≠ [] := by
    rintro rfl
    exact Nat.not_lt_zero _ within
  have row := row_add volume.sized off k
  rw [row] at within
  obtain ⟨d, isD⟩ : ∃ d, clusters[off / fv.clusterBytes +
      (off % fv.clusterBytes + k) / fv.clusterBytes]? = some d :=
    ⟨_, List.getElem?_eq_getElem within⟩
  have links : d = (fv.nextOf data)^[(off % fv.clusterBytes + k) / fv.clusterBytes] s := by
    have both := walked (off / fv.clusterBytes + (off % fv.clusterBytes + k) / fv.clusterBytes)
    rw [walk_add, walked, if_neg (fun empty => nonempty empty.1),
      if_neg (fun empty => nonempty empty.1), first, isD, Option.bind_some] at both
    exact walk_eq_iterate both
  obtain ⟨low, high, -⟩ := isFile.inside d (List.mem_of_getElem? isD)
  obtain ⟨sector, fits⟩ := volume.clusSector low high
  have less : (off + k) % fv.clusterBytes / BLOCK_SIZE < fv.secPerClus :=
    Nat.div_lt_of_lt_mul (Nat.mod_lt _ (clusterBytes_pos volume.sized))
  rw [seqSector_eq, ← links, sectorAt, sector, row, List.getD_eq_getElem?_getD, isD,
    Option.getD_some, Nat.add_comm (fv.datasec + _)]
  exact Nat.mod_eq_of_lt (by omega)

/-- The bytes that are copied are those of the file. -/
theorem IsFile.copied {s : Nat} (small : off < 0x80000000)
    (walked : walk (fv.nextOf data) (fv.clusOf off) (entryOf data ino).cluster0.toNat = some s)
    (within : off + k < (entryOf data ino).size.toNat) :
    data (fv.seqSector data s (off % fv.clusterBytes + k))
        ((off % fv.clusterBytes + k) % BLOCK_SIZE) = fv.fileByte data clusters (off + k) := by
  obtain ⟨fits, -, -, -⟩ := isFile.size_bounds volume
  have row : (off + k) / fv.clusterBytes < clusters.length :=
    (Nat.div_lt_iff_lt_mul (clusterBytes_pos volume.sized)).mpr (by omega)
  have nonempty : clusters ≠ [] := by
    rintro rfl
    exact Nat.not_lt_zero _ row
  have first : clusters[off / fv.clusterBytes]? = some s := by
    rw [isFile.start volume small] at walked
    split at walked
    · rwa [if_neg fun empty => nonempty empty.1] at walked
    · exact nomatch walked
  have byte : (off % fv.clusterBytes + k) % BLOCK_SIZE = (off + k) % BLOCK_SIZE := by
    rw [Nat.add_mod, clusterBytes, Nat.mod_mul_right_mod, ← Nat.add_mod]
  rw [isFile.seqSector volume first row, fileByte, byte]

end File

/-- Where the sum of the offset and the size is no `off_t`. -/
theorem fatRead_overflows (small : off < 0x80000000) (few : size < 0x10000)
    (past : 0x80000000 ≤ off + size) :
    fv.fatRead ino off size = Pure.pure (sizeT (-EINVAL)) := by
  have wraps : int32 ((off : Int) + size) < off := by
    rw [int32_above (by omega) (by omega)]
    omega
  rw [fatRead, if_pos wraps]

theorem clampSize_inside {fileSize : UInt32} (small : off + size < 0x80000000)
    (few : size < 0x8000) (inside : off ≤ fileSize.toNat) :
    clampSize fileSize off size = min size (fileSize.toNat - off) := by
  unfold clampSize sizeT wordOfInt
  split <;> omega

/-- Behind the end of a file there are bytes to read, as far as the code can tell. -/
theorem clampSize_behind {fileSize : UInt32} (small : off + size < 0x80000000)
    (behind : fileSize.toNat < off) (near : off < fileSize.toNat + 0x8000) :
    clampSize fileSize off size ≠ 0 := by
  unfold clampSize sizeT wordOfInt
  split <;> omega

/-- `fat_read` returns the right slice where it begins in the file, with a cluster. -/
theorem rightRead_iff (volume : fv.Volume) (isFile : fv.IsFile data ino clusters)
    (others : Others base) (serves : Serves fv.dev fv.unit data base disk [])
    (few : size < 0x8000) (small : off < 0x80000000) :
    fv.RightRead data disk ino clusters off size ↔
      off ≤ (entryOf data ino).size.toNat ∧
        (walk (fv.nextOf data) (fv.clusOf off) (entryOf data ino).cluster0.toNat).isSome := by
  obtain ⟨fits, last, -, total⟩ := isFile.size_bounds volume
  by_cases past : 0x80000000 ≤ off + size
  · refine iff_of_false ?_ (by omega)
    rintro ⟨value, after, ran, isValue, -⟩
    rw [fatRead_overflows small (by omega) past] at ran
    obtain ⟨rfl, -⟩ := Result.ok.inj ran
    have error : sizeT (-EINVAL) = 0xfffb := by decide
    omega
  have inside : off + size < 0x80000000 := Nat.lt_of_not_le past
  obtain ⟨value, after, ran, ended⟩ :=
    fatRead_gives volume.sized others serves isFile.notRoot (by omega) inside
  rcases ended with ⟨walked, isValue, -⟩ | ⟨s, walked, isValue, copied⟩
  · change walk _ _ (entryOf data ino).cluster0.toNat = none at walked
    refine iff_of_false ?_ (by simp [walked])
    rintro ⟨value', after', ran', isValue', -⟩
    obtain ⟨rfl, -⟩ := Result.ok.inj (ran.symm.trans ran')
    have error : sizeT (- EIO) = 0xfffc := by decide
    omega
  · change walk _ _ (entryOf data ino).cluster0.toNat = some s at walked
    change value = clampSize (entryOf data ino).size off size at isValue
    by_cases le : off ≤ (entryOf data ino).size.toNat
    · have clamped := clampSize_inside inside few le
      refine iff_of_true ⟨value, after, ran, isValue.trans clamped, ?_⟩ ⟨le, by simp [walked]⟩
      rw [copied.buf, ← clamped]
      refine stored_congr fun k less => isFile.copied volume small walked ?_
      change k < clampSize (entryOf data ino).size off size at less
      omega
    · refine iff_of_false ?_ fun both => le both.1
      rintro ⟨value', after', ran', isValue', -⟩
      obtain ⟨rfl, -⟩ := Result.ok.inj (ran.symm.trans ran')
      have bytes : fv.clusterBytes ≤ 0x8000 := Nat.mul_le_mul_left BLOCK_SIZE volume.most
      have near : off < (entryOf data ino).size.toNat + 0x8000 := by
        have positive := clusterBytes_pos volume.sized
        rcases ((isFile.start_iff volume small).mp (by simp [walked])).2 with
          ⟨-, row⟩ | before
        · have := (Nat.div_eq_zero_iff_lt positive).mp row
          omega
        · omega
      have some := @clampSize_behind off size _ inside (Nat.lt_of_not_le le) near
      omega

/-- A floppy disk with one file, which has one cluster. -/
def oneCluster (low high : UInt8) : Nat → Sector := fun sec i =>
  if sec = 1 then [0xf0, 0xff, 0xff, 0xff, 0x0f].getD i 0
  else if sec = 19 then if i = 26 then 2 else if i = 28 then low else if i = 29 then high else 0
  else 7

theorem floppy_volume : (ofBpb 0 0 .floppy).Volume :=
  ⟨rfl, by decide, by decide, by decide, by decide, by decide⟩

theorem oneCluster_isFile {low high : UInt8}
    (count : [2].length = ((entryOf (oneCluster low high) 304).size.toNat +
      (ofBpb 0 0 .floppy).clusterBytes - 1) / (ofBpb 0 0 .floppy).clusterBytes) :
    (ofBpb 0 0 .floppy).IsFile (oneCluster low high) 304 [2] := by
  have sectors : ∀ c < 3, (ofBpb 0 0 .floppy).fatSec (fatOffs c) = 1 ∧
      (ofBpb 0 0 .floppy).fatSec (fatOffs c + 1) = 1 := by decide
  have table : oneCluster low high 1 = fun i => [0xf0, 0xff, 0xff, 0xff, 0x0f].getD i 0 := rfl
  have media : (ofBpb 0 0 .floppy).nextOf (oneCluster low high) 0 = 0xff0 := by
    rw [nextOf, (sectors 0 (by decide)).1, (sectors 0 (by decide)).2, table]
    decide
  have last : (ofBpb 0 0 .floppy).nextOf (oneCluster low high) 2 = 0xfff := by
    rw [nextOf, (sectors 2 (by decide)).1, (sectors 2 (by decide)).2, table]
    decide
  have mark : Links ((ofBpb 0 0 .floppy).nextOf (oneCluster low high)) (0xff0 ≤ ·) 2 [] := by
    rw [Links, last]
    decide
  have entry : oneCluster low high 19 26 = 2 ∧ oneCluster low high 19 27 = 0 := ⟨rfl, rfl⟩
  have first : (entryOf (oneCluster low high) 304).cluster0.toNat = 2 := by
    change (Pegasos.Fat.word16 (oneCluster low high 19) 26).toNat = 2
    rw [Pegasos.Fat.word16, entry.1, entry.2]
    decide
  exact ⟨by decide, media.ge, ⟨first, mark⟩, by decide, count⟩

end FatVol

end Pegasos.Kernel.Fat
