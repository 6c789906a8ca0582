import Pegasos.Kernel.Files.FileIo
import Pegasos.Kernel.Proc.Process

/-!
# The files of processes

The system calls of `UFILEIO.C`, and what `exec`, `_exit` and `_wait` do to the files
of processes.  A call is made by a task of a process or by a task of the kernel.
-/

namespace Pegasos.Kernel.Files

open Pegasos.Kernel.Proc (ProcTable Process Slot PROC_FILES)
open Function (update)

/-- The open files and the processes.  `tasked` are the processes that are the
`process` of a task. -/
structure ProcFiles where
  files : OpenFiles
  table : ProcTable
  tasked : Slot → Bool

/-- What `exec` gets from the rest of the kernel: memory for the path, what is found
there, the image or an error from reading it, and a task. -/
structure ExecResult where
  path : Bool
  found : PathResult
  image : Except Int Nat
  task : Bool

namespace ProcFiles

variable (sys : ProcFiles)

/-- `proc[slot].fds[j].kfd`. -/
def kfd (slot : Slot) (j : Fin PROC_FILES) : Int := (sys.table.proc slot).fds j

def setKfd (slot : Slot) (j : Fin PROC_FILES) (kfd : Int) : ProcFiles :=
  { sys with table := sys.table.modify slot fun p => { p with fds := update p.fds j kfd } }

/-- The loop of `open` and of `dup`. -/
def findFd (slot : Slot) : Option (Fin PROC_FILES) :=
  (List.finRange PROC_FILES).find? fun i => sys.kfd slot i = -1

/-- The file that a process names by a number. -/
def fdOf (slot : Slot) (fd : Int) : Option (Fin PROC_FILES) :=
  if inRange : 0 ≤ fd ∧ fd.toNat < PROC_FILES then
    if sys.kfd slot ⟨fd.toNat, inRange.2⟩ = -1 then none else some ⟨fd.toNat, inRange.2⟩
  else none

/-- `open` in a process, with memory for the path or not. -/
def sysOpen (slot : Slot) (path : Bool) (found : PathResult) : Int × ProcFiles :=
  match sys.findFd slot with
  | none => (-ENOMEM, sys)
  | some i =>
      if path then
        let (kfd, files, _) := sys.files.kopen found
        if kfd < 0 then (kfd, { sys with files := files })
        else (i.val, { sys with files := files }.setKfd slot i kfd)
      else (-ENOMEM, sys)

/-- `kclose` of a file of a process, whose entry is then cleared.  The result of
`kclose` is not used. -/
def closeKfd (slot : Slot) (j : Fin PROC_FILES) : ProcFiles :=
  let (_, files, _) := sys.files.kclose (sys.kfd slot j) 0
  { sys with files := files }.setKfd slot j (-1)

/-- `close` in a process. -/
def sysClose (slot : Slot) (fd : Int) : Int × ProcFiles :=
  match sys.fdOf slot fd with
  | none => (-EBADF, sys)
  | some j => (0, sys.closeKfd slot j)

/-- `dup` in a process. -/
def sysDup (slot : Slot) (fd : Int) : Int × ProcFiles :=
  match sys.fdOf slot fd with
  | none => (-EBADF, sys)
  | some j =>
      match sys.findFd slot with
      | none => (-ENOMEM, sys)
      | some i =>
          let (nfd, files) := sys.files.kdup (sys.kfd slot j)
          if nfd < 0 then (nfd, { sys with files := files })
          else (i.val, { sys with files := files }.setKfd slot i nfd)

/-- The loop of `proc_free`. -/
def closeAll (slot : Slot) (js : List (Fin PROC_FILES)) : ProcFiles :=
  js.foldl (fun sys j => if sys.kfd slot j ≠ -1 then sys.closeKfd slot j else sys) sys

/-- `proc_free`. -/
def procFree (slot : Slot) : ProcFiles :=
  let sys := sys.closeAll slot (List.finRange PROC_FILES)
  { sys with table := sys.table.procFree slot }

/-- `proc_alloc`. -/
def procAlloc : Option (Slot × ProcFiles) :=
  sys.table.procAllocPid.map fun (i, table) => (i, { sys with table := table.procAllocInit i })

/-- `make_process`, called by a process or by the kernel. -/
def makeProcess (curproc : Option Slot) (image : Nat) (task : Bool) : Option Slot × ProcFiles :=
  match sys.procAlloc with
  | none => (none, sys)
  | some (i, sys) =>
      let sys := { sys with table := sys.table.modify i fun p => { p with image := some image } }
      if task then
        (some i, { sys with
          table := sys.table.modify i fun p => { p with parent := curproc }
          tasked := update sys.tasked i true })
      else (none, sys.procFree i)

/-- The loop of `dup_handles`. -/
def dupLoop (slot parent : Slot) : List (Fin PROC_FILES) → ProcFiles → Int × ProcFiles
  | [], sys => (0, sys)
  | j :: rest, sys =>
      if sys.kfd parent j ≠ -1 then
        let (newfd, files) := sys.files.kdup (sys.kfd parent j)
        if newfd < 0 then (newfd, { sys with files := files })
        else dupLoop slot parent rest ({ sys with files := files }.setKfd slot j newfd)
      else dupLoop slot parent rest sys

/-- `dup_handles`. -/
def dupHandles (slot : Slot) : Int × ProcFiles :=
  match (sys.table.proc slot).parent with
  | none => (0, sys)
  | some parent => dupLoop slot parent (List.finRange PROC_FILES) sys

/-- `exec`.  The file that is read is closed on all ways out; reading it changes nothing
but the offset in its slot. -/
def exec (curproc : Option Slot) (result : ExecResult) : Int × ProcFiles :=
  if result.path then
    let (fd, files, _) := sys.files.kopen result.found
    if fd < 0 then (fd, { sys with files := files })
    else
      let (_, files, _) := files.kclose fd 0
      let sys := { sys with files := files }
      match result.image with
      | .error err => (err, sys)
      | .ok image =>
          match sys.makeProcess curproc image result.task with
          | (none, sys) => (-ENOMEM, sys)
          | (some i, sys) =>
              let (err, sys) := sys.dupHandles i
              if err ≠ 0 then (err, sys.procFree i) else ((sys.table.proc i).pid, sys)
  else (-ENOMEM, sys)

/-- `_exit` in a process.  Its task is not the task of a process any more. -/
def exit (slot : Slot) (rc : Int) : ProcFiles :=
  let sys :=
    match (sys.table.proc slot).parent with
    | none => sys.procFree slot
    | some _ => { sys with table := (sys.table.exit slot rc).1 }
  { sys with tasked := update sys.tasked slot false }

/-- `_wait` in a process, when it finds a child that has exited. -/
def wait (slot : Slot) : Option (Int × ProcFiles) :=
  (sys.table.findZombie slot).map fun i => ((sys.table.proc i).pid, sys.procFree i)

/-! ## Entries -/

/-- The file of a process, if the slot has a process. -/
def entry (slot : Slot) (j : Fin PROC_FILES) : Int :=
  if (sys.table.proc slot).pid = 0 then -1 else sys.kfd slot j

/-- A change of files only. -/
structure SameProcs (sys sys' : ProcFiles) : Prop where
  nextpid : sys'.table.nextpid = sys.table.nextpid
  pid : ∀ p, (sys'.table.proc p).pid = (sys.table.proc p).pid
  zombie : ∀ p, (sys'.table.proc p).zombie = (sys.table.proc p).zombie
  parent : ∀ p, (sys'.table.proc p).parent = (sys.table.proc p).parent
  tasked : sys'.tasked = sys.tasked

variable {sys} {sys' sys'' : ProcFiles} {slot p : Slot} {j i : Fin PROC_FILES}

theorem SameProcs.refl (sys : ProcFiles) : sys.SameProcs sys :=
  ⟨rfl, fun _ => rfl, fun _ => rfl, fun _ => rfl, rfl⟩

theorem SameProcs.trans (first : sys.SameProcs sys') (second : sys'.SameProcs sys'') :
    sys.SameProcs sys'' where
  nextpid := second.nextpid.trans first.nextpid
  pid p := (second.pid p).trans (first.pid p)
  zombie p := (second.zombie p).trans (first.zombie p)
  parent p := (second.parent p).trans (first.parent p)
  tasked := second.tasked.trans first.tasked

theorem setKfd_same (files : OpenFiles) (kfd : Int) :
    sys.SameProcs ({ sys with files := files }.setKfd slot j kfd) := by
  refine ⟨rfl, fun p => ?_, fun p => ?_, fun p => ?_, rfl⟩ <;>
    (simp only [setKfd, ProcTable.modify_proc]; split <;> rfl)

theorem setKfd_kfd (kfd : Int) : (sys.setKfd slot j kfd).kfd p i =
    if p = slot ∧ i = j then kfd else sys.kfd p i := by
  by_cases same : p = slot
  · subst same
    by_cases sameFd : i = j <;>
      simp [setKfd, ProcFiles.kfd, ProcTable.modify, sameFd]
  · simp [setKfd, ProcFiles.kfd, ProcTable.modify, same]

theorem setKfd_entry (live : (sys.table.proc slot).pid ≠ 0) (kfd : Int) :
    (sys.setKfd slot j kfd).entry p i = if p = slot ∧ i = j then kfd else sys.entry p i := by
  have same : sys.SameProcs (sys.setKfd slot j kfd) := setKfd_same sys.files kfd
  rw [entry, entry, setKfd_kfd, same.pid p]
  by_cases dead : (sys.table.proc p).pid = 0
  · have ne : p ≠ slot := by
      rintro rfl
      exact live dead
    rw [if_pos dead, if_pos dead, if_neg (fun both => ne both.1)]
  · rw [if_neg dead, if_neg dead]

theorem findFd_some (found : sys.findFd slot = some j) : sys.kfd slot j = -1 := by
  simpa using List.find?_some found

theorem fdOf_some {fd : Int} (found : sys.fdOf slot fd = some j) : sys.kfd slot j ≠ -1 := by
  unfold fdOf at found
  split at found
  · split at found
    · simp at found
    · rename_i isOpen
      obtain rfl := Option.some.inj found
      exact isOpen
  · simp at found

theorem closeKfd_same (sys : ProcFiles) (slot : Slot) (j : Fin PROC_FILES) :
    sys.SameProcs (sys.closeKfd slot j) := setKfd_same _ _

/-- Closing the files of a list clears their entries. -/
theorem closeAll_spec (sys : ProcFiles) (slot : Slot) (js : List (Fin PROC_FILES)) :
    sys.SameProcs (sys.closeAll slot js) ∧ ∀ p i, (sys.closeAll slot js).kfd p i =
      if p = slot ∧ i ∈ js then -1 else sys.kfd p i := by
  induction js generalizing sys with
  | nil => exact ⟨.refl sys, by simp [closeAll]⟩
  | cons j js ih =>
      rw [closeAll, List.foldl_cons]
      by_cases isOpen : sys.kfd slot j ≠ -1
      · rw [if_pos isOpen]
        obtain ⟨same, kfds⟩ := ih (sys.closeKfd slot j)
        refine ⟨(closeKfd_same sys slot j).trans same, fun p i => ?_⟩
        refine (kfds p i).trans ?_
        have first : (sys.closeKfd slot j).kfd p i =
            if p = slot ∧ i = j then -1 else sys.kfd p i := setKfd_kfd (-1)
        rw [first]
        by_cases sameSlot : p = slot <;> by_cases sameFd : i = j <;> by_cases rest : i ∈ js <;>
          simp [sameSlot, sameFd, rest]
      · rw [if_neg isOpen]
        obtain ⟨same, kfds⟩ := ih sys
        refine ⟨same, fun p i => (kfds p i).trans ?_⟩
        by_cases sameSlot : p = slot <;> by_cases sameFd : i = j <;> by_cases rest : i ∈ js <;>
          simp_all

/-- A process that is freed leaves the other processes as they are. -/
theorem procFree_spec (sys : ProcFiles) (slot : Slot) :
    (sys.procFree slot).table.nextpid = sys.table.nextpid ∧
      (sys.procFree slot).tasked = sys.tasked ∧
      ∀ p, ((sys.procFree slot).table.proc p).pid =
          (if p = slot then 0 else (sys.table.proc p).pid) ∧
        ((sys.procFree slot).table.proc p).zombie =
          (if p = slot then false else (sys.table.proc p).zombie) := by
  obtain ⟨same, -⟩ := closeAll_spec sys slot (List.finRange PROC_FILES)
  refine ⟨same.nextpid, same.tasked, fun p => ?_⟩
  simp only [procFree, ProcTable.procFree_proc, same.pid, same.zombie, true_and]

/-- A process that is freed has no entries, as if its files had been closed. -/
theorem procFree_entry : (sys.procFree slot).entry p i =
    (sys.closeAll slot (List.finRange PROC_FILES)).entry p i := by
  obtain ⟨same, kfds⟩ := closeAll_spec sys slot (List.finRange PROC_FILES)
  simp only [entry, kfd, procFree, ProcTable.procFree_proc] at kfds ⊢
  by_cases sameSlot : p = slot
  · subst sameSlot
    simp [kfds]
  · simp only [if_neg sameSlot]

/-- What `proc_alloc` does: a free slot gets the next pid and no files. -/
theorem procAlloc_spec {sys' : ProcFiles} (alloc : sys.procAlloc = some (slot, sys')) :
    (sys.table.proc slot).pid = 0 ∧ sys'.files = sys.files ∧ sys'.tasked = sys.tasked ∧
      sys'.table.nextpid = Proc.int16 (sys.table.nextpid + 1) ∧
      (∀ j, sys'.kfd slot j = -1) ∧
      ∀ p, (sys'.table.proc p).pid =
          (if p = slot then sys.table.nextpid else (sys.table.proc p).pid) ∧
        ((sys'.table.proc p).zombie = true → (sys.table.proc p).zombie = true) ∧
        (p ≠ slot → (sys'.table.proc p).fds = (sys.table.proc p).fds) := by
  simp only [procAlloc, Option.map_eq_some_iff, Prod.exists, Prod.mk.injEq] at alloc
  obtain ⟨i, table, taken, rfl, rfl⟩ := alloc
  simp only [ProcTable.procAllocPid, Option.map_eq_some_iff, Prod.mk.injEq] at taken
  obtain ⟨_, found, rfl, rfl⟩ := taken
  refine ⟨ProcTable.findFree_some found, rfl, rfl, rfl, fun j => ?_, fun p => ?_⟩
  · rw [kfd, ProcTable.procAllocInit_proc]
    simp
  · simp only [ProcTable.procAllocInit_proc, ProcTable.modify_proc]
    refine ⟨?_, ?_, fun ne => ?_⟩
    · split <;> rfl
    · split
      · exact fun cleared => absurd cleared (by decide)
      · split <;> exact id
    · simp [ne]

end ProcFiles

end Pegasos.Kernel.Files
