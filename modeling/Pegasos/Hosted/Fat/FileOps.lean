import Pegasos.Hosted.Fat.FileObj

/-!
# Files

`fileops.c` of the hosted FAT code: a volume is mounted, and files are opened, read,
written and closed.  The functions return their result with the volume, whose open files
they change.
-/

namespace Pegasos.Hosted

open Pegasos.Support
open Fat (Sector direntAt bpbOf)
open Function (update)

def O_ACCMODE : Nat := 3
def O_RDONLY : Nat := 0
def O_WRONLY : Nat := 1
def O_RDWR : Nat := 2
def O_CREAT : Nat := 0x100
def O_TRUNC : Nat := 0x200

/-- The volume with a BIOS parameter block. -/
def mounted (bpb : Fat.Bpb) (openfiles : Fin MAX_OPENFILES → OpenFile) : FatVol where
  bpb := bpb
  fat0sec := bpb.mount.fat0sec.toNat
  rootdirsec := bpb.mount.rootdirsec.toNat
  datasec := bpb.mount.datasec.toNat
  nClus := bpb.mount.nClus.toNat
  openfiles := openfiles

/-- A file structure filled with zeros. -/
def noFile : OpenFile where
  isOpen := false
  flags := 0
  info := { sector := 0, secoffs := 0, dir := direntAt (fun _ => 0) 0 }
  offset := 0

/-- `f_mount`. -/
def fMount : BlockM FatVol := do
  bcGet 0 false
  let bpb := bpbOf (← readBlock 0)
  bcPut 0
  -- a division by zero
  if bpb.sectorPerCluster = 0 then Program.fault
  else return mounted bpb fun _ => noFile

namespace FatVol

variable (fv : FatVol)

/-- `unused_fd`. -/
def unusedFd : Option (Fin MAX_OPENFILES) :=
  (List.finRange MAX_OPENFILES).find? fun i => (fv.openfiles i).isOpen = false

/-- `openfile_by_fd`. -/
def openfileByFd (fd : Int) : Option (Fin MAX_OPENFILES) :=
  if inTable : 0 ≤ fd ∧ fd.toNat < MAX_OPENFILES then
    if (fv.openfiles ⟨fd.toNat, inTable.2⟩).isOpen then some ⟨fd.toNat, inTable.2⟩ else none
  else none

def setFile (fd : Fin MAX_OPENFILES) (of : OpenFile) : FatVol :=
  { fv with openfiles := update fv.openfiles fd of }

/-- The lookup or creation in `f_open`. -/
def findOrCreate (fn : List UInt8) (flags : Nat) (tm : Tm) (info : FileInfo) : BlockM FileInfo := do
  match ← Program.attempt (fv.dirFindPath fn info) with
  | .ok info => return info
  | .error rc =>
      if rc = -ENOENT ∧ flags &&& O_CREAT ≠ 0 then fv.fobjCreate fn 0 tm info else .throw rc

/-- `f_open`; `info` is what the variable of that name holds before it is set. -/
def fOpen (fn : List UInt8) (flags : Nat) (tm : Tm) (info : FileInfo) : BlockM (Int × FatVol) := do
  let acc := flags &&& O_ACCMODE
  if acc ≠ O_RDONLY ∧ acc ≠ O_WRONLY ∧ acc ≠ O_RDWR then return (-EINVAL, fv)
  else
    match fv.unusedFd with
    | none => return (-ENFILE, fv)
    | some fd =>
        match ← Program.attempt (fv.findOrCreate fn flags tm info) with
        | .error rc => return (rc, fv)
        | .ok info =>
            let (rc, info) ←
              if acc ≠ O_RDONLY ∧ flags &&& O_TRUNC ≠ 0 then fv.fobjTrunc info 0
              else pure (0, info)
            if rc ≠ 0 then return (rc, fv)
            else
              return (fd.val, fv.setFile fd
                { isOpen := true, flags := flags, info := info, offset := 0 })

/-- `f_close`. -/
def fClose (fd : Int) : Int × FatVol :=
  match fv.openfileByFd fd with
  | none => (-EINVAL, fv)
  | some i => (0, fv.setFile i { fv.openfiles i with isOpen := false })

/-- The sector at the offset of a file is got for `f_read`, and bytes of it are copied. -/
def readSector (of : OpenFile) (dataoffs datalen : Nat) : BlockM (List UInt8) := do
  let sec ← fv.fobjGetSecAtOffs of.info of.offset false
  let sector ← readBlock sec
  bcPut sec
  return (List.range datalen).map fun i => sector (dataoffs + i)

/-- A turn of the loop of `f_read`, with the file, the bytes to go and those that are in the
buffer.  It ends with the code of an error. -/
def fReadTurn : OpenFile × Nat × List UInt8 →
    BlockM ((OpenFile × Nat × List UInt8) ⊕ (Int × OpenFile × List UInt8))
  | (of, size, buffer) =>
      if size = 0 then return .inr (0, of, buffer)
      else do
        let dataoffs := of.offset % fv.blksize
        let datalen := min (fv.blksize - dataoffs) size
        match ← Program.attempt (fv.readSector of dataoffs datalen) with
        | .error rc => return .inr (rc, of, buffer)
        | .ok bytes =>
            return .inl
              ({ of with offset := word (of.offset + datalen) }, size - datalen, buffer ++ bytes)

/-- `f_read` with a `size` of 16 bits: the result and the bytes in the buffer. -/
def fRead (fd : Int) (size : Nat) : BlockM (Int × List UInt8 × FatVol) :=
  match fv.openfileByFd fd with
  | none => return (-EINVAL, [], fv)
  | some i => do
      let of := fv.openfiles i
      if word (of.offset + size) < of.offset then return (-EINVAL, [], fv)
      else
        let size :=
          if of.info.dir.size.toNat < of.offset + size then
            (of.info.dir.size.toNat + 0x100000000 - of.offset) % 0x10000
          else size
        let (rc, of, bytes) ← Program.loop fv.fReadTurn (size + 1) (of, size, [])
        return (if rc = 0 then int16 bytes.length else rc, bytes, fv.setFile i of)

/-- `_fmemcpy` to a block. -/
def copyTo (offs : Nat) (bytes : List UInt8) (sector : Sector) : Sector := fun i =>
  if offs ≤ i ∧ i < offs + bytes.length then bytes.getD (i - offs) 0 else sector i

/-- The sector at the offset of a file is got for `f_write`, and bytes are copied to it. -/
def writeSector (of : OpenFile) (overw : Bool) (dataoffs : Nat) (bytes : List UInt8) :
    BlockM Unit := do
  let sec ← fv.fobjGetSecAtOffs of.info of.offset overw
  writeBlock sec (copyTo dataoffs bytes)
  bcPut sec

/-- A turn of the loop of `f_write`, with the file and the bytes to go.  It ends with the
code of an error. -/
def fWriteTurn : OpenFile × List UInt8 → BlockM ((OpenFile × List UInt8) ⊕ (Int × OpenFile))
  | (of, buffer) =>
      if buffer = [] then return .inr (0, of)
      else do
        let dataoffs := of.offset % fv.blksize
        let datalen := min (fv.blksize - dataoffs) buffer.length
        let overw : Bool := dataoffs = 0 ∧ datalen = fv.blksize
        match ← Program.attempt (fv.writeSector of overw dataoffs (buffer.take datalen)) with
        | .error rc => return .inr (rc, of)
        | .ok () =>
            return .inl ({ of with offset := word (of.offset + datalen) }, buffer.drop datalen)

/-- `f_write` with a buffer whose length is a `size_t` of 16 bits. -/
def fWrite (fd : Int) (buffer : List UInt8) : BlockM (Int × FatVol) :=
  match fv.openfileByFd fd with
  | none => return (-EINVAL, fv)
  | some i => do
      let of := fv.openfiles i
      if word (of.offset + buffer.length) < of.offset then return (-EINVAL, fv)
      else
        let (rc, info) ←
          if of.info.dir.size.toNat < of.offset + buffer.length then
            fv.fobjTrunc of.info (of.offset + buffer.length)
          else pure (0, of.info)
        let of := { of with info := info }
        if rc ≠ 0 then return (rc, fv.setFile i of)
        else
          let (rc, of) ← Program.loop fv.fWriteTurn (buffer.length + 1) (of, buffer)
          return (if rc = 0 then int16 buffer.length else rc, fv.setFile i of)

end FatVol

end Pegasos.Hosted
