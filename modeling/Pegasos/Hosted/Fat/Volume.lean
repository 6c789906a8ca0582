import Pegasos.Fat.Bpb
import Pegasos.Fat.Dirent
import Pegasos.Hosted.Fat.Blocks
import Pegasos.Support.CInt

/-!
# Data of the hosted FAT code

The structures of `fat.h`.  Numbers of blocks and clusters are words of 32 bits, kept as
natural numbers; a directory entry is read from and written to the bytes of its slot.
-/

namespace Pegasos.Hosted

open Pegasos.Support
open Fat (Dirent)
open Function (update)

def ENOENT : Int := 2
def EIO : Int := 5
def EEXIST : Int := 17
def ENFILE : Int := 23
def ENOSPC : Int := 28

abbrev F_MAX_PATH : Nat := 128
abbrev MAX_OPENFILES : Nat := 8

/-- `sizeof(dirent_t)`. -/
abbrev direntSize : Nat := 32

/-- `fileinfo_t`. -/
structure FileInfo where
  sector : Nat
  secoffs : Nat
  dir : Dirent

/-- `openfile_t`. -/
structure OpenFile where
  isOpen : Bool
  flags : Nat
  info : FileInfo
  offset : Nat

/-- `fatvol_t`, with the BIOS parameter block as far as it is used. -/
structure FatVol where
  bpb : Fat.Bpb
  fat0sec : Nat
  rootdirsec : Nat
  datasec : Nat
  nClus : Nat
  openfiles : Fin MAX_OPENFILES → OpenFile

namespace FatVol

variable (fv : FatVol)

def blksize : Nat := fv.bpb.bytesPerSector.toNat

def secPerClus : Nat := fv.bpb.sectorPerCluster.toNat

def fatCount : Nat := fv.bpb.fatCount.toNat

def secPerFat : Nat := fv.bpb.sectorsPerFat.toNat

def rootEntries : Nat := fv.bpb.rootEntries.toNat

/-- `by_per_clus` and `bytes_per_cluster`: an `int` of 16 bits. -/
def byPerClus : Int := int16 (fv.blksize * fv.secPerClus)

/-- The first sector of a cluster. -/
def clusSector (cluster : Nat) : Nat :=
  word (fv.datasec + word (cluster + 0x100000000 - 2) * fv.secPerClus)

end FatVol

end Pegasos.Hosted
