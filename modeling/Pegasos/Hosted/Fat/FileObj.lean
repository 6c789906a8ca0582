import Pegasos.Hosted.Fat.Dir

/-!
# File objects

`fileobj.c` of the hosted FAT code: files get longer or shorter by whole clusters, new
entries are made, and the sector of a position in a file is found.
-/

namespace Pegasos.Hosted

open Pegasos.Support
open Fat (Sector Dirent direntAt setWord16 setWord32 storeDirent pathParseFn stringAt clusterOfInt FA_DIR)

/-- More steps than the loop that cuts clusters off takes if it ends. -/
def truncFuel : Nat := 0x4000

namespace FatVol

variable (fv : FatVol)

/-- `target`: the number of clusters for a length. -/
def clustersFor (length : Nat) : Nat :=
  word (length + wordOfInt fv.byPerClus + 0xffffffff) / wordOfInt fv.byPerClus

/-- The first loop of `fobj_trunc`, with `left` clusters to go: `p`, `c` and the clusters
that are missing. -/
def truncWalk : Nat → Nat → Nat → BlockM (Nat × Nat × Nat)
  | 0, p, c => return (p, c, 0)
  | left + 1, p, c =>
      if c < 0xff0 then do
        let next ← fv.clusGetNext c
        truncWalk left c next
      else return (p, c, left + 1)

/-- The loop of `fobj_trunc` that adds clusters, with `left` to go.  It returns the code of
an error, `cluster0` and `p`. -/
def truncGrow : Nat → Nat → UInt16 → BlockM (Int × UInt16 × Nat)
  | 0, p, cluster0 => return (0, cluster0, p)
  | left + 1, p, cluster0 => do
      match ← Program.attempt fv.clusAlloc with
      | .error rc => return (rc, cluster0, p)
      | .ok c =>
          if p = 0 then truncGrow left c (UInt16.ofNat c)
          else
            match ← Program.attempt (fv.clusSetNext p c) with
            | .error rc => return (rc, cluster0, p)
            | .ok () => truncGrow left c cluster0

/-- The loop of `fobj_trunc` that cuts clusters off.  It returns the code of an error and
`cluster0`. -/
def truncShrink : Nat → Nat → Nat → UInt16 → BlockM (Int × UInt16)
  | 0, _, _, _ => .hang
  | fuel + 1, p, c, cluster0 => do
      let cut : Except Int Unit ←
        if p = 0 then pure (.ok ()) else Program.attempt (fv.clusSetNext p 0)
      let cluster0 := if p = 0 then 0 else cluster0
      match cut with
      | .error rc => return (rc, cluster0)
      | .ok () =>
          if 0xff0 ≤ c then return (0, cluster0)
          else
            match ← Program.attempt (fv.clusGetNext c) with
            | .error rc => return (rc, cluster0)
            | .ok next => truncShrink fuel c next cluster0

/-- What `fobj_trunc` does where its first loop has ended: the code of an error and
`cluster0`. -/
def truncEdit (cluster0 : UInt16) (p c left : Nat) : BlockM (Int × UInt16) :=
  if left ≠ 0 then do
    let (rc, cluster0, p) ← fv.truncGrow left p cluster0
    if rc ≠ 0 then return (rc, cluster0)
    else
      match ← Program.attempt (fv.clusSetNext p 0xfff) with
      | .error rc => return (rc, cluster0)
      | .ok () => return (0, cluster0)
  else if c ≠ 0 then fv.truncShrink truncFuel p c cluster0
  else return (0, cluster0)

/-- The part of `fobj_trunc` that changes the FAT. -/
def truncChain (target : Nat) (cluster0 : UInt16) : BlockM (Int × UInt16) :=
  if cluster0 = 0 then fv.truncEdit cluster0 0 0 target
  else do
    match ← Program.attempt (fv.truncWalk target 0 cluster0.toNat) with
    | .error rc => return (rc, cluster0)
    | .ok (p, c, left) => fv.truncEdit cluster0 p c left

/-- Store `size` and `cluster0` in the slot of a file. -/
def storeSize (info : FileInfo) (length : Nat) : BlockM Unit := do
  bcGet info.sector false
  writeBlock info.sector fun sector =>
    setWord16 (info.secoffs + 26) info.dir.cluster0
      (setWord32 (info.secoffs + 28) (UInt32.ofNat length) sector)
  bcPut info.sector

/-- `fobj_trunc`: 0 or the code of an error, and `info`. -/
def fobjTrunc (info : FileInfo) (length : Nat) : BlockM (Int × FileInfo) := do
  -- a division by zero
  if fv.byPerClus = 0 then Program.fault
  else
    let (rc, cluster0) ← fv.truncChain (fv.clustersFor length) info.dir.cluster0
    let info := { info with dir := { info.dir with cluster0 := cluster0 } }
    if rc ≠ 0 then return (rc, info)
    else
      let info := { info with dir := { info.dir with size := UInt32.ofNat length } }
      match ← Program.attempt (storeSize info length) with
      | .error rc => return (rc, info)
      | .ok () => return (0, info)

/-- What `fobj_create` makes of the slot that it has found. -/
def newDirent (ele : Fin 11 → UInt8) (attr : UInt8) (tm : Tm) (ent : Dirent) : Dirent :=
  dirSetDatetime tm { ent with name := ele, attr := attr, reserved := fun _ => 0 }

/-- `fobj_create`, given what `info` holds before: the new entry. -/
def fobjCreate (fn : List UInt8) (attr : UInt8) (tm : Tm) (info : FileInfo) : BlockM FileInfo :=
  if F_MAX_PATH < fn.length then .throw (-EINVAL)
  else
    let (dir, name) := pathSplit fn
    match pathParseFn (stringAt name 0) name.length with
    | none => .throw (-EINVAL)
    | some ele => do
        let info ← if dir = [] then pure info else fv.dirFindPath dir info
        if dir ≠ [] ∧ info.dir.attr &&& FA_DIR = 0 then .throw (-ENOENT)
        else
          let clus := if dir = [] then 0 else clusterOfInt info.dir.cluster0
          match ← Program.attempt (fv.dirFindEnt (stringAt name 0) name.length clus) with
          | .ok _ => .throw (-EEXIST)
          | .error rc =>
              if rc ≠ -ENOENT then .throw rc
              else
                let info ← fv.dirFindFree clus
                bcGet info.sector false
                let ent := newDirent ele attr tm (direntAt (← readBlock info.sector) info.secoffs)
                writeBlock info.sector (storeDirent info.secoffs ent)
                bcPut info.sector
                return { info with dir := ent }

/-- The loop of `fobj_get_sec_at_offs`. -/
def secAtLoop : Nat → Nat → BlockM Nat
  | 0, ci => return ci
  | clus + 1, ci => do
      let ci ← fv.clusGetNext ci
      if 0xff0 ≤ ci then .throw (- EIO) else secAtLoop clus ci

/-- `fobj_get_sec_at_offs`: the block, which has been got. -/
def fobjGetSecAtOffs (info : FileInfo) (offs : Nat) (overw : Bool) : BlockM Nat := do
  -- a division by zero
  if fv.byPerClus = 0 then Program.fault
  else
    let offs := int32 offs
    let clus := wordOfInt (offs.tdiv fv.byPerClus)
    let offs := int32 (offs - clus * fv.byPerClus)
    let ci ← fv.secAtLoop clus info.dir.cluster0.toNat
    let sec := word (wordOfInt (offs.tdiv fv.blksize) + fv.clusSector ci)
    bcGet sec overw
    return sec

end FatVol

end Pegasos.Hosted
