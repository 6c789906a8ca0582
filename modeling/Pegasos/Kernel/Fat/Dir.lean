import Pegasos.Fat.Directory
import Pegasos.Fat.Names
import Pegasos.Kernel.Fat.FileRead

/-!
# Directories

`dir.c` of the kernel and `path_next_dir_ele` of its `path.c`: the search for a name, or for a
free slot, in one directory, and the lookup of a path.
-/

namespace Pegasos.Kernel.Fat

open Pegasos.Support
open Pegasos.Fat (Dirent direntAt Substr pathParseFn stringAt pred16 clusterOfInt isFound FA_DIR
  SLASH SPACE)
open Cache (BlkPtr)

def ENOENT : Int := 7

/-- `sizeof(dirent_t)`. -/
abbrev direntSize : Nat := 32

/-- `fileinfo_t`. -/
structure FileInfo where
  ino : Nat
  dir : Dirent

/-- `FAT_INO`. -/
def fatIno (sec doffs : Nat) : Nat := word (sec * 16) + doffs / 32 % 16

/-- `blk->blkno`. -/
def readBlkno (b : BlkPtr) : DiskM Nat := .peek fun disk => (disk.cache.blocks b).tag.blkno

/-- `path_next_dir_ele`.  A path is the list of its bytes up to the NUL. -/
def pathNextDirEle (fn : List UInt8) (start : Nat) : Substr :=
  let rest := fn.drop start
  let skipped := (rest.takeWhile fun ch => ch = SLASH).length
  { start := start + skipped
    len := ((rest.drop skipped).takeWhile fun ch => ch ≠ SLASH).length }

/-- The directory entry that stands for the root. -/
def rootDirent : Dirent where
  name := fun _ => SPACE
  attr := FA_DIR
  major := 0
  minor := 0
  reserved := fun _ => 0
  modtime := 0
  moddate := 0
  cluster0 := 0
  size := 0

/-- More steps than any search that ends. -/
def dirFuel : Nat := 0x10000001

namespace FatVol

variable (fv : FatVol)

def rootEntries : Nat := fv.bpb.rootEntries.toNat

/-- `entleft` at the beginning of a cluster. -/
def clusEntries : Nat := fv.blksize * fv.secPerClus % 0x10000 / direntSize

/-- The loop of `dir_find_ent` at an entry of a block, which has been got. -/
def dirFindEntLoop (key : Option (Fin 11 → UInt8)) :
    Nat → Nat → BlkPtr → Nat → Nat → Nat → DiskM FileInfo
  | 0, _, _, _, _, _ => .hang
  | fuel + 1, cluster, blk, sec, offs, entleft => do
      let dirent := direntAt (← readBlock blk) offs
      -- the end of the directory; the block is not put back
      if key ≠ none ∧ dirent.name 0 = 0 then .throw (-ENOENT)
      else if isFound key dirent then
        let blkno ← readBlkno blk
        bcPut blk
        return { ino := fatIno blkno offs, dir := dirent }
      else if pred16 entleft = 0 then
        bcPut blk
        if cluster = 0 then .throw (-ENOENT)
        else
          let next ← fv.clusGetNext cluster
          if 0xff0 ≤ next then .throw (-ENOENT)
          else
            let blk ← bcGet (fv.tag (fv.clusSector next))
            dirFindEntLoop key fuel next blk (fv.clusSector next) 0 fv.clusEntries
      else if offs + direntSize = fv.blksize then
        bcPut blk
        let blk ← bcGet (fv.tag (word (sec + 1)))
        dirFindEntLoop key fuel cluster blk (word (sec + 1)) 0 (pred16 entleft)
      else dirFindEntLoop key fuel cluster blk sec (offs + direntSize) (pred16 entleft)

/-- The first sector of a directory. -/
def dirSector (cluster : Nat) : Nat := if cluster = 0 then fv.rootdirsec else fv.clusSector cluster

/-- `entleft` at the beginning of a directory. -/
def dirEntries (cluster : Nat) : Nat := if cluster = 0 then fv.rootEntries else fv.clusEntries

/-- `dir_find_ent` behind the parsing of the name. -/
def dirFindKey (key : Option (Fin 11 → UInt8)) (cluster : Nat) : DiskM FileInfo := do
  let blk ← bcGet (fv.tag (fv.dirSector cluster))
  fv.dirFindEntLoop key dirFuel cluster blk (fv.dirSector cluster) 0 (fv.dirEntries cluster)

/-- `dir_find_ent`, with a name or with NULL. -/
def dirFindEnt (path : Option ((Nat → UInt8) × Nat)) (cluster : Nat) : DiskM FileInfo :=
  match path with
  | none => fv.dirFindKey none cluster
  | some (src, len) =>
      match pathParseFn src len with
      | none => .throw (-ENOENT)
      | some ele => fv.dirFindKey (some ele) cluster

/-- The loop of `dir_find_path` at an element of the path. -/
def dirFindPathLoop (fn : List UInt8) : Nat → Substr → Nat → FileInfo → DiskM FileInfo
  | 0, _, _, _ => .hang
  | fuel + 1, ss, cluster, info =>
      if ss.len = 0 then return info
      else do
        let info ← fv.dirFindEnt (some (stringAt fn ss.start, ss.len)) cluster
        let ss := pathNextDirEle fn (ss.start + ss.len)
        if ss.len ≠ 0 ∧ info.dir.attr &&& FA_DIR = 0 then .throw (-ENOENT)
        else dirFindPathLoop fn fuel ss (clusterOfInt info.dir.cluster0) info

/-- `dir_find_path`. -/
def dirFindPath (fn : List UInt8) : DiskM FileInfo :=
  let ss := pathNextDirEle fn 0
  if ss.len = 0 then
    if fn.head? = some SLASH then return { ino := 0, dir := rootDirent } else .throw (-ENOENT)
  else fv.dirFindPathLoop fn (fn.length + 1) ss 0 { ino := 0, dir := rootDirent }

end FatVol

end Pegasos.Kernel.Fat
