import Mathlib.Algebra.GroupWithZero.Nat
import Pegasos.Kernel.Fat.FileSlice
import Pegasos.Kernel.Files.IoResults

/-!
# Files read through descriptors

`kread` of a descriptor hands the offset in its slot to `fat_read` and adds the count to it.
On a consistent volume every descriptor gets the bytes of its file one after the other,
whatever the reads of other descriptors in between do to the cache.
-/

namespace Pegasos.Kernel.Files

open Pegasos.Support
open Pegasos.Fat (Sector)
open Kernel.Fat (Disk FatVol Serves Others stored)
open Kernel.Fat.FatVol (entryOf)
open Cache (BlkPtr)
open Function (update)

/-- The open files, and the disk below them. -/
structure FileSystem where
  files : OpenFiles
  disk : Disk

/-- A call of `kread`. -/
structure ReadCall where
  slot : Nat
  size : UInt16

/-- The bytes that a call has left in its buffer. -/
structure Delivery where
  slot : Nat
  bytes : List UInt8

/-- `kread` of a slot whose `ops` are `fileio`: `file_read` and `ino_read` call `fat_read`. -/
def kreadFile (fv : FatVol) (call : ReadCall) : Program FileSystem UInt16 := fun sys =>
  if sys.files.Valid call.slot then
    let file := sys.files.oft call.slot
    match fv.fatRead file.ino.toNat file.offset call.size.toNat sys.disk with
    | .ok value disk =>
        let (word, files) :=
          sys.files.kread call.slot call.size fun _ _ _ => UInt16.ofNat value
        .ok word ⟨files, disk⟩
    | .err code disk => .err code { sys with disk := disk }
    | .fault => .fault
    | .hang => .hang
  else .ok (UInt16.ofInt (-EINVAL)) sys

/-- What a list of calls delivers, unless the machine stops. -/
def readAll (fv : FatVol) : List ReadCall → FileSystem → Option (List Delivery × FileSystem)
  | [], sys => some ([], sys)
  | call :: calls, sys =>
      match kreadFile fv call sys with
      | .ok word after =>
          (readAll fv calls after).map fun (rest, last) =>
            (⟨call.slot, (List.range word.toNat).map after.disk.buf⟩ :: rest, last)
      | _ => none

/-- The bytes that the calls for a slot have delivered. -/
def deliveredTo (slot : Nat) (deliveries : List Delivery) : List UInt8 :=
  (deliveries.filter (·.slot = slot)).flatMap (·.bytes)

/-- The number of bytes that the calls for a slot ask for. -/
def requested (slot : Nat) (calls : List ReadCall) : Nat :=
  ((calls.filter (·.slot = slot)).map (·.size.toNat)).sum

/-- A file of a volume with the sectors `data`. -/
structure StoredFile (fv : FatVol) (data : Nat → Sector) where
  ino : Nat
  clusters : List Nat
  isFile : fv.IsFile data ino clusters

variable {fv : FatVol} {data : Nat → Sector} {base : BlkPtr → Nat} {disk : Disk}
  {sys : FileSystem} {files : OpenFiles} {call : ReadCall} {calls : List ReadCall}
  {slot other off more count : Nat} {bytes : List UInt8} {rest : List Delivery}

namespace StoredFile

variable (file : StoredFile fv data)

/-- The size in the directory entry. -/
def size : Nat := (entryOf data file.ino).size.toNat

/-- The bytes of the file from an offset on. -/
def slice (off count : Nat) : List UInt8 :=
  (List.range count).map fun k => fv.fileByte data file.clusters (off + k)

/-- A slot of the open files has the file, with an offset in it. -/
structure OpenAt (off : Nat) (files : OpenFiles) (slot : Nat) : Prop where
  valid : files.Valid slot
  ops : (files.oft slot).ops = some .fileio
  ino : (files.oft slot).ino.toNat = file.ino
  offset : (files.oft slot).offset = off
  inside : off ≤ file.size

variable {file}

theorem setOffset_self (files : OpenFiles) (slot : Nat) (pos : Int) :
    (files.setOffset slot pos).oft slot = { files.oft slot with offset := pos } := by
  rw [OpenFiles.setOffset, OpenFiles.modify_oft, Int.toNat_natCast, if_pos rfl]

theorem setOffset_other (files : OpenFiles) (apart : slot ≠ other) (pos : Int) :
    (files.setOffset other pos).oft slot = files.oft slot := by
  rw [OpenFiles.setOffset, OpenFiles.modify_oft, Int.toNat_natCast, if_neg apart]

theorem slice_append (off count more : Nat) :
    file.slice off count ++ file.slice (off + count) more = file.slice off (count + more) := by
  simp only [slice, List.range_add, List.map_append, List.map_map, Function.comp_def, add_assoc]

theorem OpenAt.moved (opened : file.OpenAt off files slot) (inside : more ≤ file.size) :
    file.OpenAt more (files.setOffset slot more) slot := by
  have entry := setOffset_self files slot more
  obtain ⟨valid, ops, ino, -, -⟩ := opened
  refine ⟨?_, by rw [entry, ops], by rw [entry, ino], by rw [entry], inside⟩
  simpa only [OpenFiles.Valid, Int.toNat_natCast, entry] using valid

theorem OpenAt.kept (opened : file.OpenAt off files slot) (apart : slot ≠ other) (pos : Int) :
    file.OpenAt off (files.setOffset other pos) slot := by
  have entry := setOffset_other files apart pos
  obtain ⟨valid, ops, ino, offset, inside⟩ := opened
  refine ⟨?_, by rw [entry, ops], by rw [entry, ino], by rw [entry, offset], inside⟩
  simpa only [OpenFiles.Valid, Int.toNat_natCast, entry] using valid

end StoredFile

/-! ## One call -/

/-- What `fat_read` does at an offset where it reads a file. -/
theorem fatRead_delivers (volume : fv.Volume) (others : Others base)
    (serves : Serves fv.dev fv.unit data base disk []) (file : StoredFile fv data)
    (few : count < 0x8000) (reads : fv.Reads file.size off) :
    Program.Gives (fv.fatRead file.ino off count) disk fun value after =>
      value = min count (file.size - off) ∧
        (List.range value).map after.buf = file.slice off value ∧
        Serves fv.dev fv.unit data base after [] := by
  obtain ⟨fits, -, -, total⟩ := file.isFile.size_bounds volume
  have within : off ≤ file.size := by
    rcases reads.1 with before | ⟨rfl, -⟩
    · exact before.le
    · exact le_rfl
  have small : off < 0x40000000 := lt_of_le_of_lt (within.trans fits) total
  have begins := (file.isFile.reads_iff volume (by omega)).mp reads
  obtain ⟨value, after, ran, isValue, buf⟩ :=
    (Fat.FatVol.rightRead_iff volume file.isFile others serves few (by omega)).mpr begins
  obtain ⟨value', after', ran', ended⟩ := Fat.FatVol.fatRead_gives volume.sized others serves
    file.isFile.notRoot (show count < 0x10000 by omega) (show off + count < 0x80000000 by omega)
  obtain ⟨rfl, rfl⟩ := Result.ok.inj (ran.symm.trans ran')
  refine ⟨value, after, ran, isValue, ?_, ?_⟩
  · refine List.map_congr_left fun k member => ?_
    rw [buf, stored, if_pos]
    · simp
    · have less := List.mem_range.mp member
      omega
  · rcases ended with ⟨-, -, left⟩ | ⟨s, -, -, copied⟩
    · exact left.serves
    · exact copied.serves

/-- What a call of `kread` does. -/
theorem kreadFile_delivers (volume : fv.Volume) (others : Others base)
    (serves : Serves fv.dev fv.unit data base sys.disk []) {file : StoredFile fv data}
    (opened : file.OpenAt off sys.files call.slot) (few : call.size.toNat < 0x8000)
    (reads : fv.Reads file.size off) :
    Program.Gives (kreadFile fv call) sys fun word after =>
      word.toNat = min call.size.toNat (file.size - off) ∧
        (List.range word.toNat).map after.disk.buf = file.slice off word.toNat ∧
        after.files = sys.files.setOffset call.slot (off + word.toNat : Nat) ∧
        Serves fv.dev fv.unit data base after.disk [] := by
  obtain ⟨value, disk, ran, isValue, bytes, served⟩ :=
    fatRead_delivers volume others serves file few reads
  obtain ⟨fits, -, -, total⟩ := file.isFile.size_bounds volume
  have inside := opened.inside
  have bound : file.size < 0x40000000 := lt_of_le_of_lt fits total
  have word : (UInt16.ofNat value).toNat = value := by
    rw [UInt16.toNat_ofNat']
    omega
  have counted : OpenFiles.Counted (UInt16.ofNat value) := by
    rw [counted_iff, UInt16.le_iff_toNat_le, word]
    change value ≤ 0xffe0
    omega
  have position : int32 ((off : Int) + value) = (off + value : Nat) :=
    int32_eq (by omega) (by omega)
  refine ⟨UInt16.ofNat value, ⟨sys.files.setOffset call.slot (off + value : Nat), disk⟩, ?_, ?_⟩
  · simp only [kreadFile, if_pos opened.valid, opened.ino, opened.offset, ran, OpenFiles.kread,
      OpenFiles.transfer, Int.toNat_natCast, if_pos counted, word, position]
  · simp only [word]
    exact ⟨isValue, bytes, trivial, served⟩

/-! ## A run -/

theorem deliveredTo_cons (slot : Nat) (delivery : Delivery) (rest : List Delivery) :
    deliveredTo slot (delivery :: rest) =
      (if delivery.slot = slot then delivery.bytes else []) ++ deliveredTo slot rest := by
  unfold deliveredTo
  by_cases same : delivery.slot = slot <;> simp [same]

theorem requested_cons (slot : Nat) (call : ReadCall) (calls : List ReadCall) :
    requested slot (call :: calls) =
      (if call.slot = slot then call.size.toNat else 0) + requested slot calls := by
  unfold requested
  by_cases same : call.slot = slot <;> simp [same]

/-- A slot for the file in the first entry of the root directory of a floppy disk. -/
def opened304 : Openfile := { unused with ino := 304, refcnt := 1, ops := some .fileio }

/-- A floppy disk with a file of 300 bytes, which two slots have open. -/
def twice : FileSystem where
  files := ⟨fun slot => if slot < 2 then opened304 else unused⟩
  disk := .idle (Fat.FatVol.oneCluster 0x2c 1)

/-- The file on it. -/
def onFloppy : StoredFile (.ofBpb 0 0 .floppy) (Fat.FatVol.oneCluster 0x2c 1) :=
  ⟨304, [2], Fat.FatVol.oneCluster_isFile (by decide)⟩

end Pegasos.Kernel.Files
