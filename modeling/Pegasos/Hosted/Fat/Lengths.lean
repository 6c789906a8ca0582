import Pegasos.Hosted.Fat.EntryTable
import Pegasos.Hosted.Fat.FileObj

/-!
# Lengths of files

How `fobj_trunc` computes the number of clusters of a length, with an `int` for the bytes of
a cluster, and what it stores in the slot of a file.
-/

namespace Pegasos.Hosted

open Pegasos.Support
open Fat (Sector direntAt word16 word32 setWord16 setWord32 word16_setWord16 word16_setWord16_apart
  word32_setWord32)
open Function (update)

namespace FatVol

/-- The bytes of a cluster fit into an `int`. -/
def Regular (fv : FatVol) : Prop := 0 < fv.secPerClus ∧ fv.secPerClus < 64

/-- The bytes of a cluster. -/
def clusterBytes (fv : FatVol) : Nat := BLKSIZE * fv.secPerClus

/-- The number of clusters that a length takes. -/
def clusterCount (fv : FatVol) (length : Nat) : Nat :=
  (length + (fv.clusterBytes - 1)) / fv.clusterBytes

variable {fv : FatVol} {unit : Blocks} {length : Nat}

theorem byPerClus_eq (sized : fv.blksize = BLKSIZE) (regular : fv.Regular) :
    fv.byPerClus = fv.clusterBytes := by
  have few := regular.2
  rw [byPerClus, sized, clusterBytes, Nat.cast_mul]
  apply int16_eq <;> (unfold BLKSIZE; omega)

theorem clusterBytes_pos (regular : fv.Regular) : 0 < fv.clusterBytes :=
  Nat.mul_pos (by decide) regular.1

theorem clusterBytes_lt (regular : fv.Regular) : fv.clusterBytes < 0x8000 := by
  have few := regular.2
  unfold clusterBytes BLKSIZE
  omega

/-- `target` is the sum of the length and the bytes of a cluster less one, in 32 bits, divided by
the bytes of a cluster. -/
theorem clustersFor_word (sized : fv.blksize = BLKSIZE) (regular : fv.Regular) :
    fv.clustersFor length = word (length + (fv.clusterBytes - 1)) / fv.clusterBytes := by
  have positive := clusterBytes_pos regular
  have few := clusterBytes_lt regular
  have same : wordOfInt fv.clusterBytes = fv.clusterBytes := by
    unfold wordOfInt
    omega
  have sum : word (length + fv.clusterBytes + 0xffffffff) = word (length + (fv.clusterBytes - 1)) := by
    unfold word
    omega
  rw [clustersFor, byPerClus_eq sized regular, same, sum]

/-- `target` is the number of clusters that the length takes. -/
theorem clustersFor_of_sum (sized : fv.blksize = BLKSIZE) (regular : fv.Regular)
    (fits : length + (fv.clusterBytes - 1) < 0x100000000) :
    fv.clustersFor length = fv.clusterCount length := by
  rw [clustersFor_word sized regular, word, Nat.mod_eq_of_lt fits, clusterCount]

theorem clustersFor_eq (sized : fv.blksize = BLKSIZE) (regular : fv.Regular)
    (small : length < 0x80000000) : fv.clustersFor length = fv.clusterCount length := by
  have few := clusterBytes_lt regular
  exact clustersFor_of_sum sized regular (by omega)

/-- The sum wraps around. -/
theorem clustersFor_wraps (sized : fv.blksize = BLKSIZE) (regular : fv.Regular)
    (small : length < 0x100000000) (wraps : 0x100000000 ≤ length + (fv.clusterBytes - 1)) :
    fv.clustersFor length = 0 := by
  have few := clusterBytes_lt regular
  rw [clustersFor_word sized regular]
  apply Nat.div_eq_of_lt
  unfold word
  omega

/-- With 64 sectors in a cluster its bytes are a negative `int`, and no length takes more
than one cluster. -/
theorem clustersFor_negative (sized : fv.blksize = BLKSIZE) (sectors : fv.secPerClus = 64)
    (small : length < 0x100000000) :
    fv.clustersFor length = if 0 < length ∧ length ≤ 0x8000 then 1 else 0 := by
  have bytes : fv.byPerClus = -0x8000 := by
    rw [byPerClus, sized, sectors]
    decide
  rw [clustersFor, bytes]
  have same : wordOfInt (-0x8000) = 0xffff8000 := by decide
  rw [same, word]
  split_ifs <;> omega

/-- With 128 sectors in a cluster its bytes are zero. -/
theorem byPerClus_zero (sized : fv.blksize = BLKSIZE) (sectors : fv.secPerClus = 128) :
    fv.byPerClus = 0 := by
  rw [byPerClus, sized, sectors]
  decide

/-! ## The slot of a file -/

/-- The bytes that `fobj_trunc` stores in the slot of a file. -/
def storeLength (offs : Nat) (cluster0 : UInt16) (length : Nat) (sector : Sector) : Sector :=
  setWord16 (offs + 26) cluster0 (setWord32 (offs + 28) (UInt32.ofNat length) sector)

theorem direntAt_storeLength (offs : Nat) (cluster0 : UInt16) (length : Nat) (sector : Sector) :
    (direntAt (storeLength offs cluster0 length sector) offs).cluster0 = cluster0 ∧
      (direntAt (storeLength offs cluster0 length sector) offs).size = UInt32.ofNat length := by
  refine ⟨word16_setWord16 _, ?_⟩
  change word32 (storeLength offs cluster0 length sector) (offs + 28) = _
  rw [storeLength, word32, word16_setWord16_apart _ (by omega),
    word16_setWord16_apart _ (by omega)]
  exact word32_setWord32 _

theorem storeSize_does (info : FileInfo) (length : Nat) (onUnit : info.sector < unit.blocks)
    (room : unit.Room 1) :
    Does (storeSize info length) unit () (update unit.data info.sector
      (storeLength info.secoffs info.dir.cluster0 length (unit.data info.sector))) := by
  obtain ⟨unit', ran, kept, stored⟩ := Does.store unit info.sector
    (storeLength info.secoffs info.dir.cluster0 length)
  refine ⟨(), unit', ?_, rfl, kept, stored⟩
  rw [storeSize, Program.bind_ok (Blocks.bcGet_ok room onUnit _)]
  exact ran

/-- The same, whatever the transfers do. -/
theorem storeSize_ends (info : FileInfo) (length : Nat) (few : info.sector < 0x100000000) :
    Program.Ends (storeSize info length) unit
      (fun _ after => after.data = update unit.data info.sector
        (storeLength info.secoffs info.dir.cluster0 length (unit.data info.sector)))
      (Fails unit) := by
  refine Blocks.get_ends few (fun unit' freed same => ?_)
    fun code after freed error => .of_error ⟨freed, error⟩
  obtain ⟨unit'', ran, -, stored⟩ := Does.store unit' info.sector
    (storeLength info.secoffs info.dir.cluster0 length)
  refine .of_ok ran ?_
  rw [stored, same]

/-- What `fobj_trunc` returns in `info`. -/
def withLength (info : FileInfo) (cluster0 : UInt16) (length : Nat) : FileInfo :=
  { info with dir := { info.dir with cluster0 := cluster0, size := UInt32.ofNat length } }

end FatVol

end Pegasos.Hosted
