import Pegasos.Fat.Directory
import Pegasos.Hosted.Fat.Cluster
import Pegasos.Hosted.Fat.Path

/-!
# Directories

`dir.c` of the hosted FAT code: the search for a name, or for a free slot, in one
directory, and the lookup of a path.
-/

namespace Pegasos.Hosted

open Pegasos.Support
open Fat (Dirent direntAt Substr pathParseFn stringAt pred16 clusterOfInt isFound FA_DIR)

/-- More steps than any search that ends. -/
def dirFuel : Nat := 0x10000001

namespace FatVol

variable (fv : FatVol)

/-- `entleft` at the beginning of a cluster. -/
def clusEntries : Nat := fv.blksize * fv.secPerClus % 0x10000 / direntSize

/-- The loop of `dir_find_ent` at an entry of the block `sec`, which has been got. -/
def dirFindEntLoop (key : Option (Fin 11 → UInt8)) : Nat → Nat → Nat → Nat → Nat → BlockM FileInfo
  | 0, _, _, _, _ => .hang
  | fuel + 1, cluster, sec, offs, entleft => do
      let dirent := direntAt (← readBlock sec) offs
      -- the end of the directory; the block is not put back
      if key ≠ none ∧ dirent.name 0 = 0 then .throw (-ENOENT)
      else if isFound key dirent then
        bcPut sec
        return { sector := sec, secoffs := offs, dir := dirent }
      else if pred16 entleft = 0 then
        if cluster = 0 then
          bcPut sec
          .throw (-ENOENT)
        else
          match ← Program.attempt (fv.clusGetNext cluster) with
          | .error rc =>
              let _ ← Program.attempt (bcPut sec)
              .throw rc
          | .ok next =>
              -- the end of the directory; the block is not put back
              if 0xff0 ≤ next then .throw (-ENOENT)
              else
                bcPut sec
                bcGet (fv.clusSector next) false
                dirFindEntLoop key fuel next (fv.clusSector next) 0 fv.clusEntries
      else if offs + direntSize = fv.blksize then
        bcPut sec
        bcGet (word (sec + 1)) false
        dirFindEntLoop key fuel cluster (word (sec + 1)) 0 (pred16 entleft)
      else dirFindEntLoop key fuel cluster sec (offs + direntSize) (pred16 entleft)

/-- `dir_find_ent` behind the parsing of the name. -/
def dirFindKey (key : Option (Fin 11 → UInt8)) (cluster : Nat) : BlockM FileInfo := do
  let sec := if cluster = 0 then fv.rootdirsec else fv.clusSector cluster
  bcGet sec false
  fv.dirFindEntLoop key dirFuel cluster sec 0 (if cluster = 0 then fv.rootEntries else fv.clusEntries)

/-- `dir_find_ent` with a name. -/
def dirFindEnt (path : Nat → UInt8) (len cluster : Nat) : BlockM FileInfo :=
  match pathParseFn path len with
  | none => .throw (-ENOENT)
  | some ele => fv.dirFindKey (some ele) cluster

/-- `dir_find_ent` with NULL for the name. -/
def dirFindFree (cluster : Nat) : BlockM FileInfo := fv.dirFindKey none cluster

/-- The loop of `dir_find_path` at an element of the path. -/
def dirFindPathLoop (fn : List UInt8) : Nat → Substr → Nat → FileInfo → BlockM FileInfo
  | 0, _, _, _ => .hang
  | fuel + 1, ss, cluster, info =>
      if ss.len = 0 then return info
      else do
        let info ← fv.dirFindEnt (stringAt fn ss.start) ss.len cluster
        let ss := pathNextDirEle fn (ss.start + ss.len)
        if ss.len ≠ 0 ∧ info.dir.attr &&& FA_DIR = 0 then .throw (-ENOENT)
        else dirFindPathLoop fn fuel ss (clusterOfInt info.dir.cluster0) info

/-- `dir_find_path`.  For a path without elements it leaves `info` as it is. -/
def dirFindPath (fn : List UInt8) (info : FileInfo) : BlockM FileInfo :=
  fv.dirFindPathLoop fn (fn.length + 1) (pathNextDirEle fn 0) 0 info

end FatVol

/-- `struct tm`, as far as it is used. -/
structure Tm where
  tmYear : Int
  tmMon : Int
  tmMday : Int
  tmHour : Int
  tmMin : Int
  tmSec : Int
deriving DecidableEq

/-- `dir_set_datetime`: the time and the date of an entry. -/
def dirSetDatetime (tm : Tm) (ent : Dirent) : Dirent :=
  { ent with
    modtime :=
      UInt16.ofInt tm.tmHour <<< 11 ||| UInt16.ofInt tm.tmMin <<< 5 |||
        UInt16.ofInt (tm.tmSec >>> (1 : Nat))
    moddate :=
      (UInt16.ofInt (tm.tmYear - 80) <<< 9 &&& (0xfe00 : UInt16)) |||
        UInt16.ofInt (tm.tmMon + 1) <<< 5 ||| UInt16.ofInt tm.tmMday }

end Pegasos.Hosted
