import Mathlib.Data.List.FinRange
import Mathlib.Logic.Function.Basic
import Mathlib.Tactic.Common
import Pegasos.Support.Tables

/-!
# The process table

The functions of `PROCESS.C` on the table of processes.  A process is named by its
slot, and so is its task on the queues of waiting tasks, of which the tasks in
their order are kept.  Closing the files of a process concerns the table of open
files and is not part of this table.
-/

namespace Pegasos.Kernel.Proc

open Function (update)

abbrev MAX_PROCESS : Nat := 32
abbrev PROC_FILES : Nat := 8

/-- A pointer to an entry of the process table. -/
abbrev Slot := Fin MAX_PROCESS

/-- `process_t`. -/
structure Process where
  pid : Int
  parent : Option Slot
  waitq : List Slot
  zombie : Bool
  rc : Nat
  image : Option Nat
  fds : Fin PROC_FILES → Int

/-- The static variables `proc` and `nextpid`. -/
structure ProcTable where
  proc : Slot → Process
  nextpid : Int

/-- What the status of an exited child has set in addition to its exit code. -/
def WIFEXITED : Nat := 0x0100

/-- A 16-bit `int`. -/
def int16 (value : Int) : Int := value.bmod 0x10000

namespace ProcTable

variable (table : ProcTable)

/-- `proc` and `nextpid` before any process is made. -/
def initial : ProcTable where
  proc := fun _ =>
    { pid := 0, parent := none, waitq := [], zombie := false, rc := 0, image := none, fds := fun _ => 0 }
  nextpid := 1

def modify (slot : Slot) (edit : Process → Process) : ProcTable :=
  { table with proc := update table.proc slot (edit (table.proc slot)) }

/-- The first loop of `proc_alloc`. -/
def findFree : Option Slot := (List.finRange MAX_PROCESS).find? fun i => (table.proc i).pid = 0

/-- The part of `proc_alloc` under the semaphore: a free slot gets the next pid. -/
def procAllocPid : Option (Slot × ProcTable) :=
  table.findFree.map fun i =>
    (i, { table.modify i fun p => { p with pid := table.nextpid } with
      nextpid := int16 (table.nextpid + 1) })

/-- The rest of `proc_alloc`.  The pointer `proc` is the start of the table here, so
all but the files are those of the first slot. -/
def procAllocInit (slot : Slot) : ProcTable :=
  let table := table.modify slot fun p => { p with fds := fun _ => -1 }
  table.modify 0 fun p => { p with waitq := [], image := none, zombie := false }

/-- `proc_free`. -/
def procFree (slot : Slot) : ProcTable :=
  table.modify slot fun p =>
    { p with fds := fun _ => -1, image := none, zombie := false, pid := 0 }

/-- `_exit` for the process in a slot: the table and the task that is unblocked. -/
def exit (slot : Slot) (rc : Int) : ProcTable × Option Slot :=
  match (table.proc slot).parent with
  | none => (table.procFree slot, none)
  | some parent =>
      let table := table.modify slot fun p =>
        { p with zombie := true, rc := (rc % 0x100).toNat }
      -- the first waiting task, if there is one, goes back to its run queue
      (table.modify parent fun p => { p with waitq := p.waitq.tail },
        (table.proc parent).waitq.head?)

/-- The loop of `_wait` over the table. -/
def findZombie (curr : Slot) : Option Slot :=
  (List.finRange MAX_PROCESS).find? fun i =>
    (table.proc i).pid ≠ 0 ∧ (table.proc i).zombie = true ∧ (table.proc i).parent = some curr

/-- One round of `_wait`: a child's pid and status, or the calling task is blocked.
The queue is the one of the first slot. -/
def wait (curr : Slot) : ProcTable × Option (Slot × Int × Nat) :=
  match table.findZombie curr with
  | some i =>
      (table.procFree i, some (i, (table.proc i).pid, WIFEXITED ||| (table.proc i).rc))
  | none => (table.modify 0 fun p => { p with waitq := p.waitq ++ [curr] }, none)

/-- What `make_process` and `dup_handles` do once the task has been made. -/
def adopt (slot : Slot) (parent : Option Slot) : ProcTable :=
  let table := table.modify slot fun p => { p with parent := parent }
  match parent with
  | none => table
  | some parent =>
      table.modify slot fun p =>
        { p with fds := fun j =>
            if (table.proc parent).fds j ≠ -1 then (table.proc parent).fds j else p.fds j }

/-! ## What the functions change -/

theorem modify_proc (slot i : Slot) (edit : Process → Process) :
    (table.modify slot edit).proc i = if i = slot then edit (table.proc i) else table.proc i := by
  by_cases same : i = slot
  · subst same
    simp [modify]
  · simp [modify, same]

variable {table} {slot i : Slot}

theorem findFree_some (found : table.findFree = some i) : (table.proc i).pid = 0 := by
  simpa using List.find?_some found

theorem procAllocPid_proc (found : table.findFree = some slot) :
    table.procAllocPid = some (slot, { table.modify slot fun p => { p with pid := table.nextpid } with
      nextpid := int16 (table.nextpid + 1) }) := by
  rw [procAllocPid, found]
  rfl

theorem procAllocInit_proc : (table.procAllocInit slot).proc i =
    { table.proc i with
      fds := if i = slot then fun _ => -1 else (table.proc i).fds
      waitq := if i = 0 then [] else (table.proc i).waitq
      image := if i = 0 then none else (table.proc i).image
      zombie := if i = 0 then false else (table.proc i).zombie } := by
  simp only [procAllocInit, modify_proc]
  split_ifs <;> rfl

theorem procFree_proc : (table.procFree slot).proc i =
    { table.proc i with
      fds := if i = slot then fun _ => -1 else (table.proc i).fds
      image := if i = slot then none else (table.proc i).image
      zombie := if i = slot then false else (table.proc i).zombie
      pid := if i = slot then 0 else (table.proc i).pid } := by
  simp only [procFree, modify_proc]
  split_ifs <;> rfl

theorem exit_orphan (rc : Int) (orphan : (table.proc slot).parent = none) :
    table.exit slot rc = (table.procFree slot, none) := by
  simp only [exit, orphan]

/-- A process that has a parent becomes a zombie, and the first task that waits on
the parent is unblocked. -/
theorem exit_child (rc : Int) {parent : Slot} (child : (table.proc slot).parent = some parent) :
    (table.exit slot rc).2 = (table.proc parent).waitq.head? ∧
      ∀ i, (table.exit slot rc).1.proc i =
        { table.proc i with
          zombie := if i = slot then true else (table.proc i).zombie
          rc := if i = slot then (rc % 0x100).toNat else (table.proc i).rc
          waitq := if i = parent then (table.proc i).waitq.tail else (table.proc i).waitq } := by
  have same : ((table.modify slot fun p =>
      { p with zombie := true, rc := (rc % 0x100).toNat }).proc parent).waitq =
        (table.proc parent).waitq := by
    rw [modify_proc]
    split <;> rfl
  constructor
  · simp only [exit, child, same]
  · intro i
    simp only [exit, child, modify_proc]
    split_ifs <;> rfl

theorem findZombie_some (found : table.findZombie slot = some i) :
    (table.proc i).pid ≠ 0 ∧ (table.proc i).zombie = true ∧ (table.proc i).parent = some slot := by
  simpa using List.find?_some found

theorem findZombie_none : table.findZombie slot = none ↔
    ∀ i, (table.proc i).pid ≠ 0 → (table.proc i).zombie = true →
      (table.proc i).parent ≠ some slot := by
  simp [findZombie, List.find?_eq_none]

theorem wait_found (found : table.findZombie slot = some i) : table.wait slot =
    (table.procFree i, some (i, (table.proc i).pid, WIFEXITED ||| (table.proc i).rc)) := by
  simp only [wait, found]

theorem wait_none (none : table.findZombie slot = none) : table.wait slot =
    (table.modify 0 fun p => { p with waitq := p.waitq ++ [slot] }, .none) := by
  simp only [wait, none]

theorem adopt_proc {parent : Option Slot} : ∃ fds, (table.adopt slot parent).proc i =
    { table.proc i with
      parent := if i = slot then parent else (table.proc i).parent
      fds := fds } := by
  cases parent with
  | none =>
      refine ⟨(table.proc i).fds, ?_⟩
      simp only [adopt, modify_proc]
      split_ifs <;> rfl
  | some parent =>
      simp only [adopt, modify_proc]
      split_ifs <;> exact ⟨_, rfl⟩

end ProcTable

end Pegasos.Kernel.Proc
