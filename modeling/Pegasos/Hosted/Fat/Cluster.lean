import Pegasos.Hosted.Fat.Volume
import Pegasos.Support.Packed12

/-!
# The FAT

`cluster.c` of the hosted FAT code: the next cluster of a cluster, in entries of 12 bits
that may lie in two sectors; storing it in all copies of the FAT; and taking a free one.
-/

namespace Pegasos.Hosted

open Pegasos.Support

namespace FatVol

variable (fv : FatVol)

/-- `offs`: where the entry of a cluster begins in the FAT. -/
def fatOffs (cluster : Nat) : Nat := word (cluster * 3) / 2

/-- `sec0` or `sec1`: the sector of a byte of the FAT. -/
def fatSec (offs : Nat) : Nat := word (fv.fat0sec + offs / fv.blksize)

/-- `clus_get_next`. -/
def clusGetNext (cluster : Nat) : BlockM Nat := do
  let offs := fatOffs cluster
  let sec0 := fv.fatSec offs
  let sec1 := fv.fatSec (offs + 1)
  bcGet sec0 false
  let low ← readByte sec0 (offs % fv.blksize)
  if sec1 ≠ sec0 then
    bcPut sec0
    bcGet sec1 false
  let high ← readByte sec1 ((offs + 1) % fv.blksize)
  bcPut sec1
  return unpack12 cluster low high

/-- The loop of `clus_set_next` over the copies of the FAT.  The offsets in the FAT are
used as offsets in the sectors. -/
def clusSetNextLoop (curr next : Nat) : Nat → Nat → Nat → BlockM Unit
  | 0, _, _ => return
  | copies + 1, sec0, sec1 => do
      let offs := fatOffs curr
      bcGet sec0 false
      let low ← readByte sec0 offs
      writeByte sec0 offs (packLow12 curr next low)
      if sec1 ≠ sec0 then
        bcPut sec0
        bcGet sec1 false
      let high ← readByte sec1 (offs + 1)
      writeByte sec1 (offs + 1) (packHigh12 curr next high)
      bcPut sec1
      clusSetNextLoop curr next copies (word (sec0 + fv.secPerFat)) (word (sec1 + fv.secPerFat))

/-- `clus_set_next`. -/
def clusSetNext (curr next : Nat) : BlockM Unit :=
  fv.clusSetNextLoop curr next fv.fatCount (fv.fatSec (fatOffs curr)) (fv.fatSec (fatOffs curr + 1))

/-- The loop of `clus_alloc` from cluster `c` on, with the block that it has got. -/
def clusAllocLoop : Nat → Nat → Option Nat → BlockM Nat
  | 0, _, _ => .throw (-ENOSPC)
  | left + 1, c, blk => do
      let offs := fatOffs c
      let sec0 := fv.fatSec offs
      let sec1 := fv.fatSec (offs + 1)
      if blk ≠ some sec0 then
        if let some blkno := blk then bcPut blkno
        bcGet sec0 false
      let low ← readByte sec0 (offs % fv.blksize)
      if sec1 ≠ sec0 then
        bcPut sec0
        bcGet sec1 false
      let high ← readByte sec1 ((offs + 1) % fv.blksize)
      if unpack12 c low high = 0 then
        bcPut sec1
        fv.clusSetNext c 0xfff
        return c
      else clusAllocLoop left (c + 1) (some sec1)

/-- `clus_alloc`. -/
def clusAlloc : BlockM Nat := fv.clusAllocLoop (fv.nClus - 2) 2 none

end FatVol

end Pegasos.Hosted
