import Pegasos.Kernel.Proc.Process

/-!
# The slot of a new process

What `proc_alloc` does to the whole process table.  Only the files are those of the new
slot; the members that are set after them are those of the first one.
-/

namespace Pegasos.Kernel.Proc

open Function (update)

/-- Nobody waits on the process, and it has no image and is no zombie. -/
def Process.Blank (p : Process) : Prop := p.waitq = [] ∧ p.image = none ∧ p.zombie = false

namespace ProcTable

/-- `proc_alloc`: the slot of the new process and the table, unless all are taken. -/
def procAlloc (table : ProcTable) : Option (Slot × ProcTable) :=
  table.procAllocPid.map fun (slot, table) => (slot, table.procAllocInit slot)

/-- A free slot has been made that of a process without files, and no other has
changed. -/
structure OnlyOwnSlot (table : ProcTable) (slot : Slot) (after : ProcTable) : Prop where
  free : (table.proc slot).pid = 0
  pid : (after.proc slot).pid = table.nextpid
  fds : ∀ j, (after.proc slot).fds j = -1
  blank : (after.proc slot).Blank
  others : ∀ i, i ≠ slot → after.proc i = table.proc i

variable {table : ProcTable} {slot i : Slot}

/-! ## The search -/

theorem findFree_isSome (free : ∃ i, (table.proc i).pid = 0) :
    ∃ slot, table.findFree = some slot := by
  obtain ⟨i, free⟩ := free
  cases found : table.findFree with
  | some slot => exact ⟨slot, rfl⟩
  | none =>
      have taken := List.find?_eq_none.mp found i (List.mem_finRange i)
      simp [free] at taken

/-- The search begins at the first slot. -/
theorem findFree_eq_zero : table.findFree = some 0 ↔ (table.proc 0).pid = 0 := by
  constructor
  · exact findFree_some
  · intro free
    have first : List.finRange MAX_PROCESS = 0 :: (List.finRange 31).map Fin.succ :=
      List.finRange_succ
    simp [findFree, first, free]

/-! ## The table afterwards -/

/-- The table that `proc_alloc` leaves. -/
theorem procAlloc_proc (found : table.findFree = some slot) :
    ∃ after, table.procAlloc = some (slot, after) ∧
      after.nextpid = int16 (table.nextpid + 1) ∧ ∀ i, after.proc i =
        { table.proc i with
          pid := if i = slot then table.nextpid else (table.proc i).pid
          fds := if i = slot then fun _ => -1 else (table.proc i).fds
          waitq := if i = 0 then [] else (table.proc i).waitq
          image := if i = 0 then none else (table.proc i).image
          zombie := if i = 0 then false else (table.proc i).zombie } := by
  refine ⟨_, by rw [procAlloc, procAllocPid_proc found]; rfl, rfl, fun i => ?_⟩
  rw [procAllocInit_proc]
  simp only [modify_proc]
  by_cases own : i = slot
  · simp only [if_pos own]
  · simp only [if_neg own]

/-- With the first slot free, the members that are set are its own. -/
theorem onlyOwnSlot_first (found : table.findFree = some 0) :
    ∃ after, table.procAlloc = some (0, after) ∧ OnlyOwnSlot table 0 after := by
  obtain ⟨after, alloc, -, proc⟩ := procAlloc_proc found
  refine ⟨after, alloc, findFree_some found, ?_, fun j => ?_, ?_, fun i other => ?_⟩
  · rw [proc, if_pos rfl]
  · simp only [proc, if_true]
  · rw [proc]
    exact ⟨rfl, rfl, rfl⟩
  · rw [proc]
    simp only [if_neg other]

/-- With another slot, they are not, and must be right already. -/
theorem onlyOwnSlot_later (found : table.findFree = some slot) (later : slot ≠ 0)
    {after : ProcTable} (alloc : table.procAlloc = some (slot, after)) :
    OnlyOwnSlot table slot after ↔ (table.proc 0).Blank ∧ (table.proc slot).Blank := by
  obtain ⟨_, alloc', -, proc⟩ := procAlloc_proc found
  obtain rfl : after = _ := congrArg Prod.snd (Option.some.inj (alloc.symm.trans alloc'))
  have own : (after.proc slot).Blank ↔ (table.proc slot).Blank := by
    rw [proc]
    simp only [Process.Blank, if_neg later]
  have first := proc 0
  simp only [if_neg later.symm] at first
  constructor
  · intro right
    have same := right.others 0 later.symm
    rw [first] at same
    refine ⟨⟨?_, ?_, ?_⟩, own.mp right.blank⟩
    · exact (congrArg Process.waitq same).symm
    · exact (congrArg Process.image same).symm
    · exact (congrArg Process.zombie same).symm
  · rintro ⟨⟨waitq, image, zombie⟩, blank⟩
    refine ⟨findFree_some found, ?_, fun j => ?_, own.mpr blank, fun i other => ?_⟩
    · rw [proc, if_pos rfl]
    · simp only [proc, if_true]
    · by_cases isFirst : i = 0
      · subst isFirst
        rw [first]
        simp only [if_true, ← waitq, ← image, ← zombie]
      · rw [proc]
        simp only [if_neg other, if_neg isFirst]

/-- The first process with an image, and no other. -/
def oneProcess : ProcTable where
  proc := update ProcTable.initial.proc 0
    { ProcTable.initial.proc 0 with pid := 1, image := some 0x1000, fds := fun _ => -1 }
  nextpid := 2

end ProcTable

end Pegasos.Kernel.Proc
