import Mathlib.Data.List.FinRange
import Mathlib.Data.UInt
import Mathlib.Logic.Function.Basic
import Mathlib.Tactic.Common
import Pegasos.Support.CInt

/-!
# The table of open files

`kopen`, `kclose` and `kdup` of `FILEIO.C` on the table `oft`.  What the file system
and a driver return during a call is an argument; the calls of drivers that a
function makes are part of its result.
-/

namespace Pegasos.Kernel.Files

open Pegasos.Support
open Function (update)

def ENODEV : Int := 1
def ENOMEM : Int := 2
def EINVAL : Int := 5
def ENFILE : Int := 8
def EBADF : Int := 10
def EMAX : Int := 32

/-- `struct stat`, as far as `kopen` reads it. -/
structure Stat where
  stSize : UInt32
  stBlksize : UInt16
  stMode : UInt16
  stRdev : UInt16
  deriving DecidableEq, Repr

def S_IFMT : UInt16 := 0o170000
def S_IFREG : UInt16 := 0o100000
def S_IFBLK : UInt16 := 0o060000
def S_IFDIR : UInt16 := 0o040000
def S_IFCHR : UInt16 := 0o020000

def S_ISREG (mode : UInt16) : Bool := mode &&& S_IFMT = S_IFREG
def S_ISBLK (mode : UInt16) : Bool := mode &&& S_IFMT = S_IFBLK
def S_ISDIR (mode : UInt16) : Bool := mode &&& S_IFMT = S_IFDIR
def S_ISCHR (mode : UInt16) : Bool := mode &&& S_IFMT = S_IFCHR

def S_MAJOR (rdev : UInt16) : UInt16 := rdev >>> 8
def S_MINOR (rdev : UInt16) : UInt16 := rdev &&& 0xff

/-- `INO_ERR`: the error number that stands in the place of an inode, or 0. -/
def INO_ERR (ino : UInt32) : Int :=
  if -EMAX ≤ ino.toInt32.toInt ∧ ino.toInt32.toInt < 0 then ino.toInt32.toInt else 0

theorem INO_ERR_neg {ino : UInt32} (err : INO_ERR ino ≠ 0) : INO_ERR ino < 0 := by
  unfold INO_ERR at err ⊢
  split at err
  · rename_i negative
    rw [if_pos negative]
    exact negative.2
  · exact absurd rfl err

/-! ## Drivers -/

/-- The drivers for character devices. -/
inductive Chardev where
  | condev
  | ttydev
  deriving DecidableEq, Repr

/-- `cdevtab` without its end mark. -/
def cdevtab : List Chardev := [.condev, .ttydev]

/-- `DEVNO`: the index of a driver in its table. -/
def DEVNO (dev : UInt8) : UInt8 := dev &&& 0x7f

/-- `dev_getcdev`. -/
def devGetcdev (idx : UInt8) : Option Chardev := cdevtab[idx.toNat]?

/-- A call of a driver's function for one of its units. -/
inductive DriverCall where
  | open (dev : Chardev) (unit : UInt8)
  | close (dev : Chardev) (unit : UInt8)
  deriving DecidableEq, Repr

/-! ## The table -/

/-- The tables of functions for the kinds of files. -/
inductive Iovtable where
  | fileio
  | cdevio
  | bdevio
  deriving DecidableEq, Repr

/-- `openfile_t`. -/
structure Openfile where
  ino : UInt32
  refcnt : Int
  offset : Int
  blksize : UInt16
  size : UInt32
  maj : UInt8
  min : UInt8
  ops : Option Iovtable
  deriving DecidableEq, Repr

abbrev MAX_OPEN_FILE : Nat := 10

/-- The static variable `oft`.  From `MAX_OPEN_FILE` on it is the memory behind the
table. -/
structure OpenFiles where
  oft : Nat → Openfile

/-- A cleared entry of the table. -/
def unused : Openfile := ⟨0, 0, 0, 0, 0, 0, 0, none⟩

/-- The table before any file is opened, with some memory behind it. -/
def OpenFiles.initial (memory : Nat → Openfile) : OpenFiles :=
  ⟨fun fd => if fd < MAX_OPEN_FILE then unused else memory fd⟩

/-- What `ino_get`, `ino_stat` and the driver's `open` return to one call of `kopen`.
`ino_stat` returns 0 or a negative number. -/
structure PathResult where
  ino : UInt32
  statErr : Int
  stat : Stat
  openRc : Int
  statErr_le : statErr ≤ 0

theorem noError_le : (0 : Int) ≤ 0 := le_refl 0

namespace OpenFiles

variable (files : OpenFiles)

def modify (fd : Nat) (edit : Openfile → Openfile) : OpenFiles :=
  { files with oft := update files.oft fd (edit (files.oft fd)) }

/-- `oft[fd].refcnt += by`. -/
def addRefs (fd : Nat) (more : Int) : OpenFiles :=
  files.modify fd fun f => { f with refcnt := int16 (f.refcnt + more) }

/-- The check of a descriptor that all functions begin with. -/
def Valid (fd : Int) : Prop :=
  ¬(fd < 0 ∨ fd ≥ MAX_OPEN_FILE ∨ (files.oft fd.toNat).refcnt = 0)

instance (fd : Int) : Decidable (files.Valid fd) := inferInstanceAs (Decidable ¬_)

/-- The loop of `kopen`. -/
def findFree : Option Nat := (List.range MAX_OPEN_FILE).find? fun i => (files.oft i).refcnt = 0

/-- `cdev_open`. -/
def cdevOpen (fd : Nat) (openRc : Int) : Int × List DriverCall :=
  match devGetcdev (DEVNO (files.oft fd).maj) with
  | none => (-ENODEV, [])
  | some dev => (openRc, [.open dev (files.oft fd).min])

/-- `cdev_close`. -/
def cdevClose (fd : Nat) (closeRc : Int) : Int × List DriverCall :=
  match devGetcdev (DEVNO (files.oft fd).maj) with
  | none => (-ENODEV, [])
  | some dev => (closeRc, [.close dev (files.oft fd).min])

/-- The functions for the kind of a file. -/
def iovtable (mode : UInt16) : Option Iovtable :=
  if S_ISREG mode ∨ S_ISDIR mode then some .fileio
  else if S_ISBLK mode then some .bdevio
  else if S_ISCHR mode then some .cdevio
  else none

/-- What `kopen` stores in its slot. -/
def fill (fd : Nat) (ops : Iovtable) (found : PathResult) : OpenFiles :=
  files.modify fd fun f =>
    { f with
      ops := some ops
      ino := found.ino
      blksize := found.stat.stBlksize
      offset := 0
      size := found.stat.stSize
      maj := (S_MAJOR found.stat.stRdev).toUInt8
      min := (S_MINOR found.stat.stRdev).toUInt8 }

/-- The end of `kopen`: the driver is opened if there is one. -/
def openDriver (slot : Nat) (ops : Iovtable) (openRc : Int) : Int × OpenFiles × List DriverCall :=
  if ops = .cdevio then
    let (err, calls) := files.cdevOpen slot openRc
    if err < 0 then (err, files.addRefs slot (-1), calls) else (slot, files, calls)
  else (slot, files, [])

/-- `kopen`. -/
def kopen (found : PathResult) : Int × OpenFiles × List DriverCall :=
  match files.findFree with
  | none => (-ENFILE, files, [])
  | some i =>
      let files := files.addRefs i 1
      if INO_ERR found.ino ≠ 0 then (INO_ERR found.ino, files.addRefs i (-1), [])
      else if found.statErr ≠ 0 then (found.statErr, files.addRefs i (-1), [])
      else
        match iovtable found.stat.stMode with
        | none => (-EINVAL, files.addRefs i (-1), [])
        | some ops => (files.fill i ops found).openDriver i ops found.openRc

/-- `kclose`.  The driver gets the minor number where it expects a slot. -/
def kclose (fd : Int) (closeRc : Int) : Int × OpenFiles × List DriverCall :=
  if files.Valid fd then
    let files := files.addRefs fd.toNat (-1)
    let file := files.oft fd.toNat
    if file.refcnt = 0 ∧ file.ops = some .cdevio then
      let (clrc, calls) := files.cdevClose file.min.toNat closeRc
      (clrc, files, calls)
    else (0, files, [])
  else (-EINVAL, files, [])

/-- `kdup`. -/
def kdup (fd : Int) : Int × OpenFiles :=
  if files.Valid fd then (fd, files.addRefs fd.toNat 1) else (-EINVAL, files)

/-! ## What the functions change -/

variable {files} {fd : Int} {i : Nat}

theorem modify_oft (slot : Nat) (edit : Openfile → Openfile) :
    (files.modify slot edit).oft i = if i = slot then edit (files.oft i) else files.oft i := by
  by_cases same : i = slot
  · subst same
    simp [modify]
  · simp [modify, same]

theorem addRefs_refcnt (slot : Nat) (more : Int) : ((files.addRefs slot more).oft i).refcnt =
    if i = slot then int16 ((files.oft i).refcnt + more) else (files.oft i).refcnt := by
  rw [addRefs, modify_oft]
  split <;> rfl

theorem findFree_some (found : files.findFree = some i) :
    i < MAX_OPEN_FILE ∧ (files.oft i).refcnt = 0 := by
  refine ⟨List.mem_range.mp (List.mem_of_find?_eq_some found), ?_⟩
  simpa using List.find?_some found

theorem Valid.bounds (valid : files.Valid fd) :
    0 ≤ fd ∧ fd.toNat < MAX_OPEN_FILE ∧ (files.oft fd.toNat).refcnt ≠ 0 := by
  simp only [Valid, not_or, not_lt, ge_iff_le, not_le] at valid
  refine ⟨valid.1, ?_, valid.2.2⟩
  have below := valid.2.1
  omega

theorem valid_slot (inTable : i < MAX_OPEN_FILE) (used : (files.oft i).refcnt ≠ 0) :
    files.Valid (i : Int) := by
  simp only [Valid, not_or, not_lt, ge_iff_le, not_le, Int.toNat_natCast]
  omega

/-- The unit of a driver that the entry of a slot names. -/
def devUnit (files : OpenFiles) (slot : Nat) : Option (Chardev × UInt8) :=
  (devGetcdev (DEVNO (files.oft slot).maj)).map fun dev => (dev, (files.oft slot).min)

/-- The unit that a slot is open for, if it is a character device. -/
def openUnit (files : OpenFiles) (slot : Nat) : Option (Chardev × UInt8) :=
  if (files.oft slot).ops = some .cdevio then files.devUnit slot else none

theorem cdevOpen_calls (files : OpenFiles) (slot : Nat) (openRc : Int) : (files.cdevOpen slot openRc).2 =
    (files.devUnit slot).toList.map fun unit => .open unit.1 unit.2 := by
  simp only [cdevOpen, devUnit]
  cases devGetcdev (DEVNO (files.oft slot).maj) <;> rfl

theorem cdevClose_calls (slot : Nat) (closeRc : Int) : (files.cdevClose slot closeRc).2 =
    (files.devUnit slot).toList.map fun unit => .close unit.1 unit.2 := by
  simp only [cdevClose, devUnit]
  cases devGetcdev (DEVNO (files.oft slot).maj) <;> rfl

theorem addRefs_unit (slot : Nat) (more : Int) :
    (files.addRefs slot more).devUnit i = files.devUnit i ∧
      (files.addRefs slot more).openUnit i = files.openUnit i := by
  simp only [openUnit, devUnit, addRefs, modify_oft]
  split <;> exact ⟨rfl, rfl⟩

/-- A call of `kopen` that fails leaves the slots that are in use as they were and the
others unused. -/
structure Failed (files : OpenFiles) (result : Int × OpenFiles × List DriverCall) : Prop where
  rc : result.1 < 0
  refcnt : ∀ k, (result.2.1.oft k).refcnt = (files.oft k).refcnt
  used : ∀ k, (files.oft k).refcnt ≠ 0 → result.2.1.oft k = files.oft k
  calls : ∀ dev unit, DriverCall.close dev unit ∉ result.2.2

/-- A call of `kopen` that succeeds takes one slot that was not in use. -/
structure Opened (files : OpenFiles) (result : Int × OpenFiles × List DriverCall)
    (slot : Nat) : Prop where
  rc : result.1 = slot
  inTable : slot < MAX_OPEN_FILE
  unused : (files.oft slot).refcnt = 0
  refcnt : (result.2.1.oft slot).refcnt = 1
  others : ∀ k, k ≠ slot → result.2.1.oft k = files.oft k
  calls : result.2.2 = (result.2.1.openUnit slot).toList.map fun unit => .open unit.1 unit.2

/-- The slot that a failing call had taken is given back. -/
theorem failed_spec (free : (files.oft i).refcnt = 0) {middle : OpenFiles} {rc : Int}
    {calls : List DriverCall} (negative : rc < 0) (one : (middle.oft i).refcnt = 1)
    (others : ∀ k, k ≠ i → middle.oft k = files.oft k)
    (noClose : ∀ dev unit, DriverCall.close dev unit ∉ calls) :
    files.Failed (rc, middle.addRefs i (-1), calls) where
  rc := negative
  refcnt k := by
    rw [addRefs_refcnt]
    by_cases same : k = i
    · subst same
      rw [if_pos rfl, one, free]
      rfl
    · rw [if_neg same, others k same]
  used k used := by
    have notFree : k ≠ i := by
      rintro rfl
      exact used free
    rw [addRefs, modify_oft, if_neg notFree, others k notFree]
  calls := noClose

theorem openDriver_spec (inTable : i < MAX_OPEN_FILE) (unused : (files.oft i).refcnt = 0)
    {middle : OpenFiles} {ops : Iovtable} {openRc : Int} (one : (middle.oft i).refcnt = 1)
    (filled : (middle.oft i).ops = some ops)
    (others : ∀ k, k ≠ i → middle.oft k = files.oft k) :
    files.Failed (middle.openDriver i ops openRc) ∨
      ∃ slot, files.Opened (middle.openDriver i ops openRc) slot := by
  have calls := middle.cdevOpen_calls i openRc
  simp only [openDriver]
  by_cases device : ops = .cdevio
  · rw [if_pos device]
    by_cases err : (middle.cdevOpen i openRc).1 < 0
    · rw [if_pos err]
      refine .inl (failed_spec unused err one others ?_)
      rw [calls]
      simp
    · rw [if_neg err]
      refine .inr ⟨i, rfl, inTable, unused, one, others, ?_⟩
      dsimp only
      rw [calls, openUnit, if_pos (device ▸ filled)]
  · rw [if_neg device]
    refine .inr ⟨i, rfl, inTable, unused, one, others, ?_⟩
    dsimp only
    rw [openUnit, if_neg (by simpa [filled] using device)]
    rfl

theorem kopen_spec (files : OpenFiles) (found : PathResult) :
    files.Failed (files.kopen found) ∨ ∃ i, files.Opened (files.kopen found) i := by
  cases free : files.findFree with
  | none =>
      left
      simp only [kopen, free]
      exact ⟨show -ENFILE < 0 by decide, fun _ => rfl, fun _ _ => rfl, by simp⟩
  | some i =>
      obtain ⟨inTable, unused⟩ := findFree_some free
      have one : ((files.addRefs i 1).oft i).refcnt = 1 := by
        rw [addRefs_refcnt, if_pos rfl, unused]
        rfl
      have others : ∀ k, k ≠ i → (files.addRefs i 1).oft k = files.oft k := fun k ne => by
        rw [addRefs, modify_oft, if_neg ne]
      simp only [kopen, free]
      by_cases inoErr : INO_ERR found.ino ≠ 0
      · rw [if_pos inoErr]
        exact .inl (failed_spec unused (INO_ERR_neg inoErr) one others (by simp))
      · rw [if_neg inoErr]
        by_cases statErr : found.statErr ≠ 0
        · rw [if_pos statErr]
          have negative := lt_of_le_of_ne found.statErr_le statErr
          exact .inl (failed_spec unused negative one others (by simp))
        · rw [if_neg statErr]
          cases iovtable found.stat.stMode with
          | none => exact .inl (failed_spec unused (by decide) one others (by simp))
          | some ops =>
              apply openDriver_spec inTable unused
              · rw [fill, modify_oft, if_pos rfl]
                exact one
              · rw [fill, modify_oft, if_pos rfl]
              · intro k ne
                rw [fill, modify_oft, if_neg ne, others k ne]

/-- What `kclose` does to the count of a slot, and which calls of drivers it makes. -/
theorem kclose_spec (closeRc : Int) (valid : files.Valid fd) :
    (files.kclose fd closeRc).2.1 = files.addRefs fd.toNat (-1) ∧
      (files.kclose fd closeRc).2.2 =
        if int16 ((files.oft fd.toNat).refcnt - 1) = 0 ∧
            (files.oft fd.toNat).ops = some .cdevio then
          (files.devUnit (files.oft fd.toNat).min.toNat).toList.map fun unit =>
            .close unit.1 unit.2
        else [] := by
  have file : (files.addRefs fd.toNat (-1)).oft fd.toNat = { files.oft fd.toNat with
      refcnt := int16 ((files.oft fd.toNat).refcnt - 1) } := by
    rw [addRefs, modify_oft, if_pos rfl]
    rfl
  simp only [kclose, if_pos valid, file]
  split
  · refine ⟨rfl, ?_⟩
    rw [← (addRefs_unit fd.toNat (-1)).1, ← cdevClose_calls _ closeRc]
  · exact ⟨rfl, rfl⟩

theorem kclose_invalid (closeRc : Int) (invalid : ¬files.Valid fd) :
    files.kclose fd closeRc = (-EINVAL, files, []) := if_neg invalid

end OpenFiles

end Pegasos.Kernel.Files
