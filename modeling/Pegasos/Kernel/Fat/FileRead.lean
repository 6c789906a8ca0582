import Pegasos.Kernel.Fat.Disk
import Pegasos.Support.CInt
import Pegasos.Support.Packed12

/-!
# Reading files

`clus_get_next` of `cluster.c`, `fobj_get_sec_at_offs` of `fileobj.c` and `fat_read` of
`fileops.c`, all of the kernel: the chain of a file is followed to the cluster of an offset,
and `fat_read` goes on from there sector by sector.  Numbers of blocks and clusters are words
of 32 bits, kept as natural numbers.
-/

namespace Pegasos.Kernel.Fat

open Pegasos.Support
open Pegasos.Fat (Sector direntAt)
open Cache (BlkPtr Tag)

/-- `fatvol_t`. -/
structure FatVol where
  dev : Int
  unit : Int
  bpb : Pegasos.Fat.Bpb
  fat0sec : Nat
  rootdirsec : Nat
  datasec : Nat
  nClus : Nat

/-- A `size_t` of 16 bits. -/
def sizeT (value : Int) : Nat := (value % 0x10000).toNat

/-- The code that a part has returned. -/
def codeOf {α : Type} : Except Int α → Int
  | .ok _ => 0
  | .error rc => rc

/-- `FAT_INO_SEC`. -/
def inoSec (ino : Nat) : Nat := ino / 16 % 0x10000000

/-- `FAT_INO_OFFS`. -/
def inoOffs (ino : Nat) : Nat := ino % 16 * 32

namespace FatVol

variable (fv : FatVol)

def blksize : Nat := fv.bpb.bytesPerSector.toNat

def secPerClus : Nat := fv.bpb.sectorPerCluster.toNat

/-- `bytes_per_cluster`, an `int`. -/
def bytesPerCluster : Int := int16 (fv.blksize * fv.secPerClus)

/-- `clus` or `clcnt`: the number of links to the cluster of an offset. -/
def clusOf (offs : Int) : Nat := wordOfInt (offs.tdiv fv.bytesPerCluster)

/-- `offs` or `off`, once the clusters in front of it are taken off. -/
def offsIn (offs : Int) : Int := int32 (offs - fv.clusOf offs * fv.bytesPerCluster)

/-- `sec`, at first: the sector in the cluster. -/
def secIn (offs : Int) : Nat := wordOfInt ((fv.offsIn offs).tdiv fv.blksize)

def tag (blkno : Nat) : Tag := ⟨fv.dev, fv.unit, blkno⟩

/-- The first sector of a cluster. -/
def clusSector (cluster : Nat) : Nat :=
  word (fv.datasec + word (cluster + 0x100000000 - 2) * fv.secPerClus)

/-- `offs`: where the entry of a cluster begins in the FAT. -/
def fatOffs (cluster : Nat) : Nat := word (cluster * 3) / 2

/-- `sec0` or `sec1`: the sector of a byte of the FAT. -/
def fatSec (offs : Nat) : Nat := word (fv.fat0sec + offs / fv.blksize)

/-- `clus_get_next`. -/
def clusGetNext (cluster : Nat) : DiskM Nat := do
  let offs := fatOffs cluster
  let sec0 := fv.fatSec offs
  let sec1 := fv.fatSec (offs + 1)
  let blk ← bcGet (fv.tag sec0)
  let low ← readByte blk (offs % fv.blksize)
  if sec1 ≠ sec0 then
    bcPut blk
    let blk ← bcGet (fv.tag sec1)
    let high ← readByte blk ((offs + 1) % fv.blksize)
    bcPut blk
    return unpack12 cluster low high
  else
    let high ← readByte blk ((offs + 1) % fv.blksize)
    bcPut blk
    return unpack12 cluster low high

/-- The loop of `fobj_get_sec_at_offs`. -/
def secAtLoop : Nat → Nat → DiskM Nat
  | 0, ci => return ci
  | clus + 1, ci => do
      let ci ← fv.clusGetNext ci
      if 0xff0 ≤ ci then .throw (- EIO) else secAtLoop clus ci

/-- `fobj_get_sec_at_offs`: the block, which has been got. -/
def fobjGetSecAtOffs (clus0 : Nat) (offs : Int) : DiskM BlkPtr := do
  -- a division by zero
  if fv.bytesPerCluster = 0 then Program.fault
  else
    let ci ← fv.secAtLoop (fv.clusOf offs) clus0
    bcGet (fv.tag (word (fv.secIn offs + fv.clusSector ci)))

/-- The loop of `read_root_dir`, with so many sectors behind `sec0`. -/
def readRootDirLoop (off : Int) : Nat → Nat → Nat → Nat → DiskM Nat
  | 0, _, _, got => return got
  | left + 1, sec0, size, got =>
      if size = 0 then return got
      else do
        match ← Program.attempt (bcGet (fv.tag sec0)) with
        | .error rc => return sizeT rc
        | .ok blk =>
            let dataoffs := sizeT (off.tmod fv.blksize)
            let datalen := min (fv.blksize - dataoffs) size
            copyOut got blk dataoffs datalen
            match ← Program.attempt (bcPut blk) with
            | .error rc => return sizeT rc
            | .ok () => readRootDirLoop off left (sec0 + 1) (size - datalen) (got + datalen)

/-- `read_root_dir`. -/
def readRootDir (off : Int) (size : Nat) : DiskM Nat :=
  -- a division by zero
  if fv.blksize = 0 then .fault
  else
    let sec0 := word (fv.rootdirsec + wordOfInt (off.tdiv fv.blksize))
    fv.readRootDirLoop off (fv.datasec - sec0) sec0 size 0

/-- `rc = clus_get_next(fv, ci, &ci)`: `rc` and `ci`. -/
def nextCluster (ci : Nat) : DiskM (Int × Nat) := do
  match ← Program.attempt (fv.clusGetNext ci) with
  | .error rc => return (rc, ci)
  | .ok next => return (0, next)

/-- The loop of `fat_read` that follows the chain: `rc` and `ci`, or the error that ends the
function. -/
def walkLoop : Nat → Nat → Int → DiskM (Except Int (Int × Nat))
  | 0, ci, rc => return .ok (rc, ci)
  | clcnt + 1, ci, _ => do
      let (rc, ci) ← fv.nextCluster ci
      if rc < 0 then return .error rc
      else if 0xff0 ≤ ci then return .error (- EIO)
      else walkLoop clcnt ci rc

/-- The loop of `fat_read` that copies: `rc` and `got`. -/
def copyLoop : Nat → Nat → Nat → Nat → Int → Nat → Nat → Int → DiskM (Int × Nat)
  | 0, _, _, _, _, size, got, rc => if size = 0 then return (rc, got) else .hang
  | fuel + 1, ci, sec, secleft, off, size, got, rc =>
      if size = 0 then return (rc, got)
      else do
        match ← Program.attempt (bcGet (fv.tag sec)) with
        | .error rc => return (rc, got)
        | .ok blk =>
            let dataoffs := sizeT (off.tmod fv.blksize)
            let datalen := min (fv.blksize - dataoffs) size
            copyOut got blk dataoffs datalen
            let rc := codeOf (← Program.attempt (bcPut blk))
            if rc < 0 then return (rc, got)
            else if word (secleft + 0xffffffff) ≠ 0 then
              copyLoop fuel ci (word (sec + 1)) (word (secleft + 0xffffffff))
                (int32 (off + datalen)) (size - datalen) (got + datalen) rc
            else
              let (rc, ci) ← fv.nextCluster ci
              if rc < 0 then return (rc, got)
              else
                copyLoop fuel ci (fv.clusSector ci) fv.secPerClus (int32 (off + datalen))
                  (size - datalen) (got + datalen) rc

/-- `fat_read` of a file while its directory entry is held: `rc` and `got`. -/
def readChain (cluster0 : Nat) (off : Int) (size : Nat) : DiskM (Int × Nat) := do
  -- a division by zero
  if fv.bytesPerCluster = 0 then Program.fault
  else
    let sec := fv.secIn off
    let secleft := word (fv.secPerClus + 0x100000000 - sec)
    match ← fv.walkLoop (fv.clusOf off) cluster0 0 with
    | .error rc => return (rc, 0)
    | .ok (rc, ci) =>
        fv.copyLoop size ci (word (sec + fv.clusSector ci)) secleft (fv.offsIn off) size 0 rc

/-- `size` once it is clamped to what is in the file. -/
def clampSize (fileSize : UInt32) (off : Int) (size : Nat) : Nat :=
  if fileSize.toNat < wordOfInt (off + size) then sizeT (wordOfInt (fileSize.toNat - off))
  else size

/-- `fat_read`. -/
def fatRead (ino : Nat) (off : Int) (size : Nat) : DiskM Nat := do
  if int32 (off + size) < off then return sizeT (-EINVAL)
  else if ino = 0 then fv.readRootDir off size
  else
    match ← Program.attempt (bcGet (fv.tag (inoSec ino))) with
    | .error rc => return sizeT rc
    | .ok dirblk =>
        let dir := direntAt (← readBlock dirblk) (inoOffs ino)
        let (rc, got) ← fv.readChain dir.cluster0.toNat off (clampSize dir.size off size)
        let rc2 := codeOf (← Program.attempt (bcPut dirblk))
        if rc ≠ 0 then return sizeT rc
        else if rc2 ≠ 0 then return sizeT rc2
        else return got

end FatVol

end Pegasos.Kernel.Fat
