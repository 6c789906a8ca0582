import Pegasos.Kernel.Files.Seek
import Pegasos.Kernel.Files.UserFiles

/-!
# Results of reads and writes

A count and an error share a word of 16 bits on the way from a driver through `kread`
and `kwrite`, `sc_disp` and the C library to the user.  Every layer draws its own line
between the two.
-/

namespace Pegasos.Kernel.Files

open Pegasos.Support
open Pegasos.Kernel.Proc (ProcTable Slot PROC_FILES)

/-- `ops->read` or `ops->write` of an open file during one call: the word it returns for
a descriptor, an offset and a size. -/
abbrev Transfer := Int → Int → UInt16 → UInt16

namespace OpenFiles

variable (files : OpenFiles) (io : Transfer) (fd : Int) (size : UInt16)

/-- The test on a word that `kread` and `kwrite` make. -/
def Counted (word : UInt16) : Prop := int16 word.toNat ≥ 0 ∨ int16 word.toNat ≤ -EMAX

instance (word : UInt16) : Decidable (Counted word) := inferInstanceAs (Decidable (_ ∨ _))

/-- The common body of `kread` and `kwrite`. -/
def transfer : UInt16 × OpenFiles :=
  if files.Valid fd then
    let offset := (files.oft fd.toNat).offset
    let moved := io fd offset size
    if Counted moved then (moved, files.setOffset fd (int32 (offset + moved.toNat)))
    else (moved, files)
  else (UInt16.ofInt (-EINVAL), files)

/-- `kread`. -/
def kread (read : Transfer) : UInt16 × OpenFiles := files.transfer read fd size

/-- `kwrite`. -/
def kwrite (write : Transfer) : UInt16 × OpenFiles := files.transfer write fd size

end OpenFiles

namespace ProcFiles

variable (sys : ProcFiles)

/-- The common body of `read` and `write`, with `kread` or `kwrite`. -/
def sysTransfer (curproc : Option Slot) (fd : Int)
    (kernel : OpenFiles → Int → UInt16 × OpenFiles) : Int × ProcFiles :=
  match curproc with
  | none => (-EINVAL, sys)
  | some slot =>
      match sys.fdOf slot fd with
      | none => (-EBADF, sys)
      | some j =>
          let (moved, files) := kernel sys.files (sys.kfd slot j)
          (moved.toNat, { sys with files := files })

/-- `read`. -/
def sysRead (read : Transfer) (curproc : Option Slot) (fd : Int) (size : UInt16) :
    Int × ProcFiles :=
  sys.sysTransfer curproc fd fun files kfd => files.kread kfd size read

/-- `write`. -/
def sysWrite (write : Transfer) (curproc : Option Slot) (fd : Int) (size : UInt16) :
    Int × ProcFiles :=
  sys.sysTransfer curproc fd fun files kfd => files.kwrite kfd size write

end ProcFiles

/-! ## System calls -/

/-- The functions in the table `syscalls`. -/
inductive Syscall where
  | exit
  | open
  | close
  | read
  | write
  | exec
  | wait
  | dup
  | sleep
  deriving DecidableEq, Repr

/-- `syscalls`: the functions with the number of their words. -/
def syscalls : List (Syscall × Nat) :=
  [(.exit, 1), (.open, 3), (.close, 1), (.read, 4), (.write, 4), (.exec, 2), (.wait, 2), (.dup, 1),
    (.sleep, 2)]

/-- The registers in `ustack_t` that arguments and results are in. -/
structure Ustack where
  ax : UInt16
  bx : UInt16
  cx : UInt16
  dx : UInt16
  si : UInt16
  deriving DecidableEq, Repr

/-- What a system call does with the words it gets. -/
abbrev Dispatch := Syscall → List UInt16 → ProcFiles → Int × ProcFiles

/-- `sc_disp`. -/
def scDisp (call : Dispatch) (ustack : Ustack) (sys : ProcFiles) : Ustack × ProcFiles :=
  match syscalls[ustack.ax.toNat]? with
  | none => ({ ustack with ax := UInt16.ofInt (-EINVAL) }, sys)
  | some (fn, argw) =>
      let (ret, sys) :=
        match argw with
        | 1 => call fn [ustack.cx] sys
        | 2 => call fn [ustack.cx, ustack.dx] sys
        | 3 => call fn [ustack.cx, ustack.dx, ustack.bx] sys
        | 4 => call fn [ustack.cx, ustack.dx, ustack.bx, ustack.si] sys
        | _ => (0, sys)
      ({ ustack with ax := UInt16.ofInt ret, dx := UInt16.ofInt (ret / 0x10000) }, sys)

/-- The calls that a process makes: a `read` and a `write`, and others. -/
def calls (other : Dispatch) (curproc : Option Slot) (io : Transfer) : Dispatch
  | .read, [fd, _, _, size], sys => sys.sysRead io curproc (int16 fd.toNat) size
  | .write, [fd, _, _, size], sys => sys.sysWrite io curproc (int16 fd.toNat) size
  | fn, words, sys => other fn words sys

/-! ## The C library -/

/-- `MAXERR`, as a word. -/
def MAXERR : UInt16 := UInt16.ofInt (-32)

/-- `_errcheck`: what a function returns for a word in `ax`, and `_errno`. -/
def errcheck (ax : UInt16) : UInt16 × UInt16 := if ax < MAXERR then (ax, 0) else (-1, -ax)

def READ : UInt16 := 3
def WRITE : UInt16 := 4

/-- The common body of `_read` and `_write`: the arguments in registers, the interrupt
and `_errcheck`. -/
def libTransfer (nsys : UInt16) (call : Dispatch) (fd bufOffs bufSeg size : UInt16)
    (sys : ProcFiles) : (UInt16 × UInt16) × ProcFiles :=
  let (ustack, sys) :=
    scDisp call { ax := nsys, bx := bufSeg, cx := fd, dx := bufOffs, si := size } sys
  (errcheck ustack.ax, sys)

/-- `_read`. -/
def libRead : Dispatch → UInt16 → UInt16 → UInt16 → UInt16 → ProcFiles →
    (UInt16 × UInt16) × ProcFiles := libTransfer READ

/-- `_write`. -/
def libWrite : Dispatch → UInt16 → UInt16 → UInt16 → UInt16 → ProcFiles →
    (UInt16 × UInt16) × ProcFiles := libTransfer WRITE

/-! ## What they are for -/

/-- What happens to the bytes of one call: a number of them moves, or an error stops them. -/
inductive Outcome where
  | count (moved : UInt16)
  | error (err : Int)
  deriving DecidableEq, Repr

namespace Outcome

/-- The word for it. -/
def word : Outcome → UInt16
  | count moved => moved
  | error err => UInt16.ofInt (-err)

/-- What can happen to a number of bytes. -/
def Possible (size : UInt16) : Outcome → Prop
  | count moved => moved ≤ size
  | error err => 1 ≤ err ∧ err ≤ EMAX

/-- The offset after it. -/
def offset (start : Int) : Outcome → Int
  | count moved => start + moved.toNat
  | error _ => start

/-- What the user gets: the result and `_errno`. -/
def result : Outcome → UInt16 × UInt16
  | count moved => (moved, 0)
  | error err => (-1, UInt16.ofInt err)

/-- Those that come through: the counts below the words of errors, if the offset stays an
`off_t`, and the errors but the last. -/
def Clear (start : Int) : Outcome → Prop
  | count moved => moved < MAXERR ∧ start + moved.toNat < 2 ^ 31
  | error err => err ≠ EMAX

end Outcome

/-- The lines that `kread` and `kwrite`, `INO_ERR` and `_errcheck` draw have a word on the
same side. -/
def SameSide (word : UInt16) : Prop :=
  (OpenFiles.Counted word ↔ word < MAXERR) ∧
    (INO_ERR (UInt32.ofInt (int16 word.toNat)) = 0 ↔ word < MAXERR)

/-- The offset and the user's result are those of the outcome, and no layer takes its word
for the other kind. -/
structure IoRight (start : Int) (kfd : Int) (outcome : Outcome)
    (after : (UInt16 × UInt16) × ProcFiles) : Prop where
  offset : (after.2.files.oft kfd.toNat).offset = outcome.offset start
  result : after.1 = outcome.result
  line : SameSide outcome.word

/-! ## The lines -/

theorem int16_word (word : UInt16) : int16 word.toNat =
    if word.toNat < 0x8000 then (word.toNat : Int) else word.toNat - 0x10000 := by
  have high := word.toNat_lt
  rw [int16, Int.bmod_def]
  split <;> omega

/-- `kread` and `kwrite` count the first word of the errors. -/
theorem counted_iff (word : UInt16) : OpenFiles.Counted word ↔ word ≤ MAXERR := by
  have high := word.toNat_lt
  have maxerr : MAXERR.toNat = 0xffe0 := rfl
  rw [OpenFiles.Counted, int16_word, UInt16.le_iff_toNat_le, maxerr, EMAX]
  split <;> omega

theorem INO_ERR_word (word : UInt16) :
    INO_ERR (UInt32.ofInt (int16 word.toNat)) = 0 ↔ word < MAXERR := by
  have high := word.toNat_lt
  have maxerr : MAXERR.toNat = 0xffe0 := rfl
  have value : (UInt32.ofInt (int16 word.toNat)).toInt32.toInt = int16 word.toNat := by
    have bits : (UInt32.ofInt (int16 word.toNat)).toInt32.toInt =
        ((UInt32.ofInt (int16 word.toNat)).toNat : Int).bmod (2 ^ 32) :=
      BitVec.toInt_eq_toNat_bmod _
    rw [bits, UInt32.ofInt, UInt32.toNat_ofNat', int16_word, Int.bmod_def]
    split <;> omega
  rw [INO_ERR, value, int16_word, UInt16.lt_iff_toNat_lt, maxerr, EMAX]
  split <;> split <;> omega

/-- The layers differ at the last error only. -/
theorem sameSide_iff (word : UInt16) : SameSide word ↔ word ≠ MAXERR := by
  rw [SameSide, counted_iff, INO_ERR_word, UInt16.le_iff_toNat_le, UInt16.lt_iff_toNat_lt, Ne,
    ← UInt16.toNat_inj]
  omega

/-! ## A whole call -/

section call

variable {other : Dispatch} {io : Transfer} {sys : ProcFiles} {slot : Slot} {j : Fin PROC_FILES}
variable {fd size : UInt16}

theorem ofInt_toNat (word : UInt16) : UInt16.ofInt (word.toNat : Int) = word := by
  rw [← UInt16.toNat_inj, UInt16.ofInt, UInt16.toNat_ofNat']
  have high := word.toNat_lt
  omega

/-- The word of an open file's driver comes to `_errcheck` as it is. -/
theorem sysTransfer_open {kernel : OpenFiles → Int → UInt16 × OpenFiles} {fd : Int}
    (named : sys.fdOf slot fd = some j) :
    sys.sysTransfer (some slot) fd kernel =
      (((kernel sys.files (sys.kfd slot j)).1.toNat : Int),
        { sys with files := (kernel sys.files (sys.kfd slot j)).2 }) := by
  simp only [ProcFiles.sysTransfer, named]

/-- A system call with four words. -/
theorem libTransfer_eq {nsys : UInt16} {call : Dispatch} {fn : Syscall}
    (entry : syscalls[nsys.toNat]? = some (fn, 4)) (bufOffs bufSeg : UInt16) :
    libTransfer nsys call fd bufOffs bufSeg size sys =
      let after := call fn [fd, bufOffs, bufSeg, size] sys
      (errcheck (UInt16.ofInt after.1), after.2) := by
  simp only [libTransfer, scDisp, entry]

theorem libRead_open (named : sys.fdOf slot (int16 fd.toNat) = some j) (bufOffs bufSeg : UInt16) :
    libRead (calls other (some slot) io) fd bufOffs bufSeg size sys =
      (errcheck (sys.files.transfer io (sys.kfd slot j) size).1,
        { sys with files := (sys.files.transfer io (sys.kfd slot j) size).2 }) := by
  have entry : syscalls[READ.toNat]? = some (.read, 4) := rfl
  rw [libRead, libTransfer_eq entry]
  dsimp only [calls]
  rw [ProcFiles.sysRead, sysTransfer_open named]
  dsimp only [OpenFiles.kread]
  rw [ofInt_toNat]

theorem libWrite_open (named : sys.fdOf slot (int16 fd.toNat) = some j) (bufOffs bufSeg : UInt16) :
    libWrite (calls other (some slot) io) fd bufOffs bufSeg size sys =
      (errcheck (sys.files.transfer io (sys.kfd slot j) size).1,
        { sys with files := (sys.files.transfer io (sys.kfd slot j) size).2 }) := by
  have entry : syscalls[WRITE.toNat]? = some (.write, 4) := rfl
  rw [libWrite, libTransfer_eq entry]
  dsimp only [calls]
  rw [ProcFiles.sysWrite, sysTransfer_open named]
  dsimp only [OpenFiles.kwrite]
  rw [ofInt_toNat]

/-- The offset after a call of `kread` or `kwrite`. -/
theorem transfer_offset {files : OpenFiles} {kfd : Int} (opened : files.Valid kfd)
    {start : Int} (at_start : (files.oft kfd.toNat).offset = start) {word : UInt16}
    (moves : io kfd start size = word) :
    (files.transfer io kfd size).1 = word ∧
      ((files.transfer io kfd size).2.oft kfd.toNat).offset =
        if OpenFiles.Counted word then int32 (start + word.toNat) else start := by
  rw [OpenFiles.transfer, if_pos opened]
  simp only [at_start, moves]
  split
  · exact ⟨rfl, OpenFiles.setOffset_offset _⟩
  · exact ⟨rfl, at_start⟩

theorem word_error {err : Int} (least : 1 ≤ err) (most : err ≤ EMAX) :
    (Outcome.error err).word.toNat = 0x10000 - err.toNat := by
  unfold EMAX at most
  rw [Outcome.word, UInt16.ofInt, UInt16.toNat_ofNat']
  omega

/-- `_errcheck` takes the words from `MAXERR` on for errors. -/
theorem errcheck_count {moved : UInt16} :
    errcheck moved = (Outcome.count moved).result ↔ moved < MAXERR := by
  have maxerr : MAXERR.toNat = 0xffe0 := rfl
  rw [errcheck, Outcome.result]
  split
  · exact iff_of_true rfl ‹_›
  · rename_i high
    refine iff_of_false (fun same => ?_) high
    have none : -moved = 0 := congrArg Prod.snd same
    have zero : moved = 0 := by simpa using none
    rw [zero] at high
    exact high (by decide)

theorem errcheck_error {err : Int} (least : 1 ≤ err) (most : err ≤ EMAX) :
    errcheck (Outcome.error err).word = (Outcome.error err).result := by
  have maxerr : MAXERR.toNat = 0xffe0 := rfl
  have high := word_error least most
  unfold EMAX at most
  rw [errcheck, if_neg (by rw [UInt16.lt_iff_toNat_lt]; omega), Outcome.result, Outcome.word]
  simp

/-- What a call leaves is right exactly if its outcome is one of those that come through. -/
theorem transfer_right {kfd : Int} (opened : sys.files.Valid kfd) {start : Int}
    (at_start : (sys.files.oft kfd.toNat).offset = start) (least : -2 ^ 31 ≤ start)
    (most : start < 2 ^ 31) {outcome : Outcome} (possible : outcome.Possible size)
    (moves : io kfd start size = outcome.word) :
    IoRight start kfd outcome (errcheck (sys.files.transfer io kfd size).1,
        { sys with files := (sys.files.transfer io kfd size).2 }) ↔ outcome.Clear start := by
  obtain ⟨word, offset⟩ := transfer_offset opened at_start moves
  have maxerr : MAXERR.toNat = 0xffe0 := rfl
  simp only [counted_iff, UInt16.le_iff_toNat_le] at offset
  cases outcome with
  | count moved =>
      rw [Outcome.word] at offset word
      constructor
      · rintro ⟨offset', result, -⟩
        rw [word] at result
        have low := errcheck_count.mp result
        refine ⟨low, ?_⟩
        rw [UInt16.lt_iff_toNat_lt] at low
        simp only [offset, Outcome.offset] at offset'
        rw [if_pos (by omega), int32, Int.bmod_def] at offset'
        omega
      · rintro ⟨low, room⟩
        refine ⟨?_, ?_, (sameSide_iff _).mpr fun same => ?_⟩
        · rw [UInt16.lt_iff_toNat_lt] at low
          simp only [offset, Outcome.offset]
          rw [if_pos (by omega), int32_eq (by omega) (by omega)]
        · rw [word]
          exact errcheck_count.mpr low
        · rw [Outcome.word] at same
          exact absurd (same ▸ low) (by decide)
  | error err =>
      obtain ⟨first, last⟩ := possible
      have high := word_error first last
      have result := errcheck_error first last
      rw [high] at offset
      unfold EMAX at last
      constructor
      · rintro ⟨offset', -, -⟩ rfl
        simp only [offset, Outcome.offset] at offset'
        rw [if_pos (by decide), EMAX, int32, Int.bmod_def] at offset'
        omega
      · intro notLast
        have below : err < 32 := lt_of_le_of_ne last notLast
        refine ⟨?_, ?_, (sameSide_iff _).mpr fun same => ?_⟩
        · simp only [offset, Outcome.offset]
          rw [if_neg (by omega)]
        · rw [word]
          exact result
        · rw [same] at high
          omega

/-- A read or write of an open file is right, from the driver to the user, exactly if its
outcome is not the last error, nor a count that has the word of one or does not fit the
offset. -/
theorem io_right (named : sys.fdOf slot (int16 fd.toNat) = some j)
    (opened : sys.files.Valid (sys.kfd slot j)) {start : Int}
    (at_start : (sys.files.oft (sys.kfd slot j).toNat).offset = start)
    (least : -2 ^ 31 ≤ start) (most : start < 2 ^ 31) {outcome : Outcome}
    (possible : outcome.Possible size)
    (moves : io (sys.kfd slot j) start size = outcome.word) (bufOffs bufSeg : UInt16) :
    (IoRight start (sys.kfd slot j) outcome
        (libRead (calls other (some slot) io) fd bufOffs bufSeg size sys) ↔
      outcome.Clear start) ∧
    (IoRight start (sys.kfd slot j) outcome
        (libWrite (calls other (some slot) io) fd bufOffs bufSeg size sys) ↔
      outcome.Clear start) := by
  rw [libRead_open named, libWrite_open named]
  have right : _ ↔ outcome.Clear start :=
    transfer_right opened at_start least most possible moves
  exact ⟨right, right⟩

end call

/-- A process with one file open. -/
def oneProc : ProcFiles := ⟨OpenFiles.oneFile, ProcTable.initial, fun _ => true⟩

/-- A system without any other call. -/
def noCalls : Dispatch := fun _ _ sys => (0, sys)

/-- 40000 bytes, a negative `int`, come through. -/
theorem io_right_large :
    IoRight 100 0 (.count 40000)
      (libRead (calls noCalls (some 0) fun _ _ _ => 40000) 0 0 0 50000 oneProc) := by
  have named : oneProc.fdOf 0 (int16 (0 : UInt16).toNat) = some 0 := by decide
  have opened : oneProc.files.Valid (oneProc.kfd 0 0) := by decide
  have possible : (Outcome.count 40000).Possible 50000 := by
    change (40000 : UInt16) ≤ 50000
    decide
  have moves : (fun _ _ _ => 40000 : Transfer) (oneProc.kfd 0 0) 100 50000 =
      (Outcome.count 40000).word := rfl
  exact (io_right named opened rfl (by decide) (by decide) possible moves 0 0).1.mpr
    ⟨by decide, by decide⟩

/-- The last error moves the offset. -/
theorem io_last_error :
    ¬ IoRight 100 0 (.error EMAX)
        (libRead (calls noCalls (some 0) fun _ _ _ => (Outcome.error EMAX).word) 0 0 0 512
          oneProc) := by
  rintro ⟨offset, -, -⟩
  exact absurd offset (by decide)

end Pegasos.Kernel.Files
