import Pegasos.Kernel.Fat.Dir

/-!
# Making files

`path_split` of `path.c` and `fobj_create` of `fileobj.c`, of the kernel.
-/

namespace Pegasos.Kernel.Fat

open Pegasos.Support
open Pegasos.Fat (Sector Dirent direntAt storeDirent pathParseFn stringAt clusterOfInt FA_DIR SLASH)
open Cache (BlkPtr)

def EEXIST : Int := 9

abbrev F_MAX_PATH : Nat := 128

/-- `path_split`: the path and the name behind the last slash. -/
def pathSplit (fn : List UInt8) : List UInt8 × List UInt8 :=
  if SLASH ∈ fn then
    let name := (fn.reverse.takeWhile (· ≠ SLASH)).reverse
    (fn.take (fn.length - name.length - 1), name)
  else ([], fn)

example : pathSplit [97, SLASH, 98, SLASH, 99] = ([97, SLASH, 98], [99]) := by decide

/-- Change the bytes of a block, which is dirty then. -/
def writeBlock (b : BlkPtr) (edit : Sector → Sector) : DiskM Unit := .change fun disk =>
  { disk with cache := disk.cache.modify b fun block =>
      { block with dirty := true, data := edit block.data } }

/-- What `fobj_create` makes of the slot that it has found; `dir_set_datetime` clears the time
and the date of it. -/
def newDirent (ele : Fin 11 → UInt8) (attr : UInt8) (ent : Dirent) : Dirent :=
  { ent with name := ele, attr := attr, reserved := fun _ => 0, modtime := 0, moddate := 0 }

namespace FatVol

variable (fv : FatVol)

/-- `fobj_create`: the new entry. -/
def fobjCreate (fn : List UInt8) (attr : UInt8) : DiskM FileInfo :=
  if F_MAX_PATH < fn.length then .throw (-EINVAL)
  else
    let (dir, name) := pathSplit fn
    match pathParseFn (stringAt name 0) name.length with
    | none => .throw (-EINVAL)
    | some ele => do
        let info ← if dir = [] then pure { ino := 0, dir := rootDirent } else fv.dirFindPath dir
        if dir ≠ [] ∧ info.dir.attr &&& FA_DIR = 0 then .throw (-ENOENT)
        else
          let clus := if dir = [] then 0 else clusterOfInt info.dir.cluster0
          match ← Program.attempt (fv.dirFindEnt (some (stringAt name 0, name.length)) clus) with
          | .ok _ => .throw (-EEXIST)
          | .error rc =>
              if rc ≠ -ENOENT then .throw rc
              else
                let info ← fv.dirFindEnt none clus
                let blk ← bcGet (fv.tag (inoSec info.ino))
                let ent := newDirent ele attr (direntAt (← readBlock blk) (inoOffs info.ino))
                writeBlock blk (storeDirent (inoOffs info.ino) ent)
                bcPut blk
                return { info with dir := ent }

end FatVol

end Pegasos.Kernel.Fat
