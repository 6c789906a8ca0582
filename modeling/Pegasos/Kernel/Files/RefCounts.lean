import Mathlib.Data.List.ProdSigma
import Pegasos.Kernel.Files.UserFiles
import Pegasos.Support.Counting
import Pegasos.Support.Transition

/-!
# Reference counts of open files

Processes open, close and duplicate files, exec, exit and wait, and the kernel opens
and closes files of its own.  The count of every slot of the table of open files is
the number of processes' entries and kernel handles that name it.
-/

namespace Pegasos.Kernel.Files

open Pegasos.Support
open Pegasos.Kernel.Proc (ProcTable Process Slot MAX_PROCESS PROC_FILES)
open Function (update)

/-- All entries for files of all processes. -/
def allEntries : List (Slot × Fin PROC_FILES) :=
  List.finRange MAX_PROCESS ×ˢ List.finRange PROC_FILES

theorem allEntries_nodup : allEntries.Nodup :=
  (List.nodup_finRange _).product (List.nodup_finRange _)

theorem mem_allEntries (e : Slot × Fin PROC_FILES) : e ∈ allEntries :=
  List.mem_product.mpr ⟨List.mem_finRange _, List.mem_finRange _⟩

namespace ProcFiles

variable (sys : ProcFiles)

/-- The number of files of live processes that are the slot. -/
def refs (k : Nat) : Nat :=
  allEntries.countP fun e => (sys.table.proc e.1).pid ≠ 0 ∧ sys.kfd e.1 e.2 = k

/-- The counts are those of the processes' files and of some handles of the kernel. -/
structure Counted (sys : ProcFiles) (handles : List Nat) : Prop where
  refcnt : ∀ k, k < MAX_OPEN_FILE → (sys.files.oft k).refcnt = (sys.refs k + handles.count k : Nat)
  entries : ∀ p j, sys.entry p j = -1 ∨ ∃ k : Nat, k < MAX_OPEN_FILE ∧ sys.entry p j = k
  handles : ∀ k ∈ handles, k < MAX_OPEN_FILE

variable {sys} {sys' : ProcFiles} {handles : List Nat} {slot p : Slot} {j : Fin PROC_FILES}
variable {k : Nat}

theorem entry_eq : sys.entry p j = k ↔ (sys.table.proc p).pid ≠ 0 ∧ sys.kfd p j = k := by
  rw [entry]
  split
  · rename_i dead
    simp only [dead, ne_eq, not_true_eq_false, false_and, iff_false]
    omega
  · rename_i live
    simp [live]

theorem refs_entry : sys.refs k = allEntries.countP fun e => sys.entry e.1 e.2 = k := by
  simp only [refs, entry_eq]

theorem refs_congr (same : ∀ p j, sys'.entry p j = sys.entry p j) : sys'.refs k = sys.refs k := by
  simp only [refs_entry, same]

theorem refs_le : sys.refs k ≤ 256 := by
  have length : allEntries.length = 256 := by
    rw [allEntries, List.length_product, List.length_finRange, List.length_finRange]
    decide
  exact length ▸ List.countP_le_length

theorem refs_pos (isEntry : sys.entry p j = k) : 0 < sys.refs k := by
  rw [refs_entry, List.countP_pos_iff]
  exact ⟨(p, j), mem_allEntries _, by simpa using isEntry⟩

theorem Counted.congr (counted : sys.Counted handles)
    (refcnt : ∀ k, (sys'.files.oft k).refcnt = (sys.files.oft k).refcnt)
    (same : ∀ p j, sys'.entry p j = sys.entry p j) : sys'.Counted handles where
  refcnt k inTable := by rw [refcnt, refs_congr same, counted.refcnt k inTable]
  entries p j := by
    rw [same]
    exact counted.entries p j
  handles := counted.handles

/-- The references after a change of one entry. -/
theorem setKfd_refs (live : (sys.table.proc slot).pid ≠ 0) (kfd : Int) :
    (sys.setKfd slot j kfd).refs k + (decide (sys.entry slot j = k)).toNat =
      sys.refs k + (decide (kfd = k)).toNat := by
  have change : ∀ q i, (sys.setKfd slot j kfd).entry q i =
      if q = slot ∧ i = j then kfd else sys.entry q i := fun q i => setKfd_entry live kfd
  rw [refs_entry, refs_entry]
  have counts := countP_change (fun e => decide (sys.entry e.1 e.2 = k))
    (fun e => decide ((sys.setKfd slot j kfd).entry e.1 e.2 = k)) allEntries_nodup
    (mem_allEntries (slot, j)) ?_
  · simpa [change] using counts
  · rintro ⟨q, i⟩ - ne
    have other : ¬(q = slot ∧ i = j) := by
      rintro ⟨rfl, rfl⟩
      exact ne rfl
    simp [change, other]

theorem Counted.setKfd_entries (counted : sys.Counted handles)
    (live : (sys.table.proc slot).pid ≠ 0) {kfd : Int}
    (inTable : kfd = -1 ∨ ∃ k : Nat, k < MAX_OPEN_FILE ∧ kfd = k) (p : Slot)
    (i : Fin PROC_FILES) : (sys.setKfd slot j kfd).entry p i = -1 ∨
      ∃ k : Nat, k < MAX_OPEN_FILE ∧ (sys.setKfd slot j kfd).entry p i = k := by
  rw [setKfd_entry live]
  split
  · exact inTable
  · exact counted.entries p i

/-- A handle is stored in an entry that was free. -/
theorem Counted.store (counted : sys.Counted (k :: handles))
    (live : (sys.table.proc slot).pid ≠ 0) (free : sys.kfd slot j = -1) :
    (sys.setKfd slot j k).Counted handles where
  refcnt other inTable := by
    have refs := setKfd_refs (k := other) (j := j) live k
    have freeEntry : ¬sys.entry slot j = other := by
      rw [entry, if_neg live, free]
      omega
    have refcnt := counted.refcnt other inTable
    rw [List.count_cons] at refcnt
    simp only [freeEntry, decide_false, Bool.toNat_false, Nat.add_zero, Nat.cast_inj] at refs
    rw [refs]
    refine refcnt.trans ?_
    by_cases same : k = other
    · simp [same]
      omega
    · simp [same]
  entries := counted.setKfd_entries live
    (.inr ⟨k, counted.handles k List.mem_cons_self, rfl⟩)
  handles other member := counted.handles other (List.mem_cons_of_mem _ member)

/-- An entry is cleared and becomes a handle. -/
theorem Counted.fetch (counted : sys.Counted handles) (isEntry : sys.entry slot j = k)
    (inTable : k < MAX_OPEN_FILE) : (sys.setKfd slot j (-1)).Counted (k :: handles) where
  refcnt other inTable := by
    have live := (entry_eq.mp isEntry).1
    have refs := setKfd_refs (k := other) (j := j) live (-1)
    have refcnt := counted.refcnt other inTable
    have notOther : ¬(-1 : Int) = other := by omega
    rw [List.count_cons]
    refine refcnt.trans ?_
    simp only [isEntry, notOther, decide_false, Bool.toNat_false, Nat.add_zero,
      Nat.cast_inj] at refs
    by_cases same : k = other
    · simp only [same, decide_true, Bool.toNat_true, beq_self_eq_true, if_true] at refs ⊢
      omega
    · simp [same] at refs ⊢
      omega
  entries := counted.setKfd_entries (entry_eq.mp isEntry).1 (.inl rfl)
  handles other member := by
    rcases List.mem_cons.mp member with rfl | member
    · exact inTable
    · exact counted.handles other member

/-! ## The functions on the table -/

/-- A handle is closed. -/
theorem Counted.kclose (counted : sys.Counted (k :: handles)) (once : handles.count k ≤ 1)
    (closeRc : Int) :
    { sys with files := (sys.files.kclose k closeRc).2.1 }.Counted handles := by
  have inTable := counted.handles k List.mem_cons_self
  have refcnt := counted.refcnt k inTable
  have bound : sys.refs k ≤ 256 := refs_le
  rw [List.count_cons_self] at refcnt
  have valid : sys.files.Valid (k : Int) := OpenFiles.valid_slot inTable (by omega)
  rw [(OpenFiles.kclose_spec closeRc valid).1]
  constructor
  · intro other inTable
    dsimp only
    rw [OpenFiles.addRefs_refcnt, Int.toNat_natCast]
    by_cases same : other = k
    · subst same
      rw [if_pos rfl, refcnt, int16_eq (by omega) (by omega)]
      show _ = ((sys.refs other + _ : Nat) : Int)
      omega
    · rw [if_neg same, counted.refcnt other inTable, List.count_cons_of_ne (Ne.symm same)]
      rfl
  · exact counted.entries
  · exact fun other member => counted.handles other (List.mem_cons_of_mem _ member)

/-- A file of a process is duplicated. -/
theorem Counted.kdup (counted : sys.Counted handles) (isEntry : sys.entry p j = k)
    (inTable : k < MAX_OPEN_FILE) (once : handles.count k ≤ 1) :
    (sys.files.kdup k).1 = k ∧ { sys with files := (sys.files.kdup k).2 }.Counted (k :: handles) := by
  have refcnt := counted.refcnt k inTable
  have some := refs_pos isEntry
  have bound : sys.refs k ≤ 256 := refs_le
  have valid : sys.files.Valid (k : Int) := OpenFiles.valid_slot inTable (by omega)
  simp only [OpenFiles.kdup, if_pos valid, true_and]
  constructor
  · intro other inTable
    dsimp only
    rw [OpenFiles.addRefs_refcnt, Int.toNat_natCast]
    by_cases same : other = k
    · subst same
      rw [if_pos rfl, refcnt, int16_eq (by omega) (by omega), List.count_cons_self]
      show _ = ((sys.refs other + _ : Nat) : Int)
      omega
    · rw [if_neg same, counted.refcnt other inTable, List.count_cons_of_ne (Ne.symm same)]
      rfl
  · exact counted.entries
  · intro other member
    rcases List.mem_cons.mp member with rfl | member
    · exact inTable
    · exact counted.handles other member

theorem Counted.failed (counted : sys.Counted handles)
    {result : Int × OpenFiles × List DriverCall} (failed : sys.files.Failed result) :
    { sys with files := result.2.1 }.Counted handles :=
  counted.congr failed.refcnt fun _ _ => rfl

/-- A file is opened in a slot that nothing refers to. -/
theorem Counted.opened (counted : sys.Counted handles)
    {result : Int × OpenFiles × List DriverCall} (isOpen : sys.files.Opened result k) :
    { sys with files := result.2.1 }.Counted (k :: handles) ∧ sys.refs k = 0 ∧
      handles.count k = 0 := by
  have none := counted.refcnt k isOpen.inTable
  rw [isOpen.unused] at none
  refine ⟨⟨?_, counted.entries, ?_⟩, by omega, by omega⟩
  · intro other inTable
    by_cases same : other = k
    · subst same
      rw [isOpen.refcnt, List.count_cons_self]
      show _ = ((sys.refs other + _ : Nat) : Int)
      omega
    · rw [List.count_cons_of_ne (Ne.symm same)]
      dsimp only
      rw [isOpen.others other same]
      exact counted.refcnt other inTable
  · intro other member
    rcases List.mem_cons.mp member with rfl | member
    · exact isOpen.inTable
    · exact counted.handles other member

/-! ## The functions on processes -/

/-- An entry of a live process is closed. -/
theorem Counted.closeKfd (counted : sys.Counted handles) (once : ∀ k, handles.count k ≤ 1)
    (live : (sys.table.proc slot).pid ≠ 0) (isOpen : sys.kfd slot j ≠ -1) :
    (sys.closeKfd slot j).Counted handles := by
  have entry : sys.entry slot j = sys.kfd slot j := if_neg live
  rcases counted.entries slot j with free | ⟨k, inTable, isEntry⟩
  · exact absurd (entry.symm.trans free) isOpen
  · have closed := (counted.fetch isEntry inTable).kclose (once k) 0
    rw [← isEntry, entry] at closed
    exact closed

theorem Counted.closeAll (counted : sys.Counted handles) (once : ∀ k, handles.count k ≤ 1)
    (live : (sys.table.proc slot).pid ≠ 0) (js : List (Fin PROC_FILES)) :
    (sys.closeAll slot js).Counted handles := by
  induction js generalizing sys with
  | nil => exact counted
  | cons j js ih =>
      rw [ProcFiles.closeAll, List.foldl_cons]
      by_cases isOpen : sys.kfd slot j ≠ -1
      · rw [if_pos isOpen]
        exact ih (counted.closeKfd once live isOpen)
          (by rwa [(closeKfd_same sys slot j).pid])
      · rw [if_neg isOpen]
        exact ih counted live

/-- A process is freed. -/
theorem Counted.procFree (counted : sys.Counted handles) (once : ∀ k, handles.count k ≤ 1)
    (live : (sys.table.proc slot).pid ≠ 0) : (sys.procFree slot).Counted handles :=
  (counted.closeAll once live (List.finRange PROC_FILES)).congr (fun _ => rfl)
    fun _ _ => procFree_entry

/-- The processes that have tasks or have exited are in use, and so many pids have been
given out. -/
structure Settled (sys : ProcFiles) (created : Nat) : Prop where
  nextpid : sys.table.nextpid = Proc.int16 (created + 1)
  zombie : ∀ p, (sys.table.proc p).zombie = true →
    sys.tasked p = false ∧ (sys.table.proc p).pid ≠ 0
  tasked : ∀ p, sys.tasked p = true → (sys.table.proc p).pid ≠ 0

variable {created : Nat}

theorem Settled.same (settled : sys.Settled created) (same : sys.SameProcs sys') :
    sys'.Settled created where
  nextpid := same.nextpid.trans settled.nextpid
  zombie p isZombie := by
    rw [same.tasked, same.pid]
    exact settled.zombie p (by rwa [same.zombie] at isZombie)
  tasked p isTasked := by
    rw [same.pid]
    exact settled.tasked p (by rwa [same.tasked] at isTasked)

/-- A process without a task is freed. -/
theorem Settled.procFree (settled : sys.Settled created) {tasked : Slot → Bool}
    (fewer : ∀ p, tasked p = true → sys.tasked p = true) (without : tasked slot = false) :
    { sys.procFree slot with tasked := tasked }.Settled created := by
  obtain ⟨nextpid, -, procs⟩ := procFree_spec sys slot
  constructor
  · exact nextpid.trans settled.nextpid
  · intro p isZombie
    dsimp only at isZombie ⊢
    rw [(procs p).2] at isZombie
    rw [(procs p).1]
    by_cases same : p = slot
    · rw [if_pos same] at isZombie
      exact absurd isZombie (by decide)
    · rw [if_neg same] at isZombie ⊢
      obtain ⟨noTask, live⟩ := settled.zombie p isZombie
      refine ⟨Bool.eq_false_iff.mpr fun isTasked => ?_, live⟩
      rw [fewer p isTasked] at noTask
      exact absurd noTask (by decide)
  · intro p isTasked
    dsimp only at isTasked ⊢
    rw [(procs p).1]
    by_cases same : p = slot
    · subst same
      rw [without] at isTasked
      exact absurd isTasked (by decide)
    · rw [if_neg same]
      exact settled.tasked p (fewer p isTasked)

theorem Settled.free (settled : sys.Settled created) (without : sys.tasked slot = false) :
    (sys.procFree slot).Settled created := by
  have tasked : (sys.procFree slot).tasked = sys.tasked := (procFree_spec sys slot).2.1
  exact settled.procFree (fun p isTasked => tasked ▸ isTasked) (tasked ▸ without)

/-- A process is allocated. -/
theorem Counted.procAlloc (counted : sys.Counted handles)
    (alloc : sys.procAlloc = some (slot, sys')) : sys'.Counted handles := by
  obtain ⟨free, files, -, -, none, procs⟩ := procAlloc_spec alloc
  apply counted.congr fun k => by rw [files]
  intro p j
  by_cases same : p = slot
  · subst same
    rw [entry, entry, if_pos free, none, ite_self]
  · obtain ⟨pid, -, fds⟩ := procs p
    rw [if_neg same] at pid
    rw [entry, entry, kfd, kfd, pid, fds same]

theorem Settled.procAlloc (settled : sys.Settled created) (few : created < 32767)
    (alloc : sys.procAlloc = some (slot, sys')) : sys'.Settled (created + 1) ∧
      sys'.tasked slot = false ∧ (sys'.table.proc slot).pid ≠ 0 ∧
      (sys'.table.proc slot).zombie = false := by
  obtain ⟨free, -, tasked, nextpid, -, procs⟩ := procAlloc_spec alloc
  have first : sys.table.nextpid = created + 1 := by
    rw [settled.nextpid, Proc.int16, Int.bmod_def]
    omega
  have noTask : sys.tasked slot = false :=
    Bool.eq_false_iff.mpr fun isTasked => settled.tasked slot isTasked free
  have live : ∀ p, (sys.table.proc p).pid ≠ 0 → (sys'.table.proc p).pid ≠ 0 := by
    intro p before
    rw [(procs p).1]
    split
    · omega
    · exact before
  refine ⟨⟨?_, ?_, ?_⟩, ?_, ?_, ?_⟩
  · rw [nextpid, first]
    rfl
  · intro p isZombie
    obtain ⟨without, used⟩ := settled.zombie p ((procs p).2.1 isZombie)
    exact ⟨tasked ▸ without, live p used⟩
  · intro p isTasked
    exact live p (settled.tasked p (tasked ▸ isTasked))
  · exact tasked ▸ noTask
  · rw [(procs slot).1, if_pos rfl, first]
    omega
  · exact Bool.eq_false_iff.mpr fun isZombie =>
      (settled.zombie slot ((procs slot).2.1 isZombie)).2 free

/-- A change of other fields of a process. -/
theorem Counted.edit (counted : sys.Counted handles) (slot : Slot) (edit : Process → Process)
    (pid : ∀ p, (edit p).pid = p.pid) (fds : ∀ p, (edit p).fds = p.fds) :
    { sys with table := sys.table.modify slot edit }.Counted handles := by
  refine counted.congr (fun _ => rfl) fun p j => ?_
  simp only [entry, kfd, ProcTable.modify_proc]
  split
  · rw [pid, fds]
  · rfl

theorem Settled.edit (settled : sys.Settled created) (slot : Slot) (edit : Process → Process)
    (pid : ∀ p, (edit p).pid = p.pid) (zombie : ∀ p, (edit p).zombie = p.zombie) :
    { sys with table := sys.table.modify slot edit }.Settled created := by
  have samePid : ∀ p, ((sys.table.modify slot edit).proc p).pid = (sys.table.proc p).pid := by
    intro p
    rw [ProcTable.modify_proc]
    split
    · exact pid _
    · rfl
  have sameZombie : ∀ p,
      ((sys.table.modify slot edit).proc p).zombie = (sys.table.proc p).zombie := by
    intro p
    rw [ProcTable.modify_proc]
    split
    · exact zombie _
    · rfl
  constructor
  · exact settled.nextpid
  · intro p isZombie
    dsimp only at isZombie ⊢
    rw [sameZombie] at isZombie
    rw [samePid]
    exact settled.zombie p isZombie
  · intro p isTasked
    dsimp only
    rw [samePid]
    exact settled.tasked p isTasked

/-- A live process gets a task. -/
theorem Settled.task (settled : sys.Settled created) (live : (sys.table.proc slot).pid ≠ 0)
    (notZombie : (sys.table.proc slot).zombie = false) :
    { sys with tasked := update sys.tasked slot true }.Settled created := by
  refine ⟨settled.nextpid, fun p isZombie => ?_, fun p isTasked => ?_⟩
  · have ne : p ≠ slot := by
      rintro rfl
      exact Bool.noConfusion (isZombie.symm.trans notZombie)
    dsimp only
    rw [Function.update_of_ne ne]
    exact settled.zombie p isZombie
  · by_cases same : p = slot
    · subst same
      exact live
    · dsimp only at isTasked
      rw [Function.update_of_ne same] at isTasked
      exact settled.tasked p isTasked

/-- What `make_process` returns: no process, or one with an unused slot and no files. -/
structure Made (sys : ProcFiles) (curproc : Option Slot) (i : Slot) (sys' : ProcFiles) : Prop where
  free : (sys.table.proc i).pid = 0
  live : (sys'.table.proc i).pid ≠ 0
  files : ∀ j, sys'.kfd i j = -1
  parent : (sys'.table.proc i).parent = curproc
  others : ∀ p, p ≠ i → (sys'.table.proc p).pid = (sys.table.proc p).pid

theorem Counted.makeProcess (counted : sys.Counted handles) (once : ∀ k, handles.count k ≤ 1)
    (settled : sys.Settled created) (few : created < 32767) (curproc : Option Slot)
    (image : Nat) (task : Bool) :
    (sys.makeProcess curproc image task).2.Counted handles ∧
      ((sys.makeProcess curproc image task).2.Settled created ∨
        (sys.makeProcess curproc image task).2.Settled (created + 1)) ∧
      ∀ i, (sys.makeProcess curproc image task).1 = some i →
        sys.Made curproc i (sys.makeProcess curproc image task).2 := by
  rw [ProcFiles.makeProcess]
  cases alloc : sys.procAlloc with
  | none => exact ⟨counted, .inl settled, by simp⟩
  | some result =>
      obtain ⟨i, sys'⟩ := result
      have counted' := counted.procAlloc alloc
      obtain ⟨settled', noTask, live, notZombie⟩ := settled.procAlloc few alloc
      obtain ⟨free, -, -, -, none, procs⟩ := procAlloc_spec alloc
      have imaged := counted'.edit i (fun p => { p with image := some image })
        (fun _ => rfl) fun _ => rfl
      have settledImage := settled'.edit i (fun p => { p with image := some image })
        (fun _ => rfl) fun _ => rfl
      cases task with
      | false =>
          refine ⟨?_, ?_, by simp⟩
          · apply imaged.procFree once
            rw [ProcTable.modify_proc, if_pos rfl]
            exact live
          · exact .inr (settledImage.free noTask)
      | true =>
          have adopted := imaged.edit i (fun p => { p with parent := curproc })
            (fun _ => rfl) fun _ => rfl
          have settledParent := settledImage.edit i (fun p => { p with parent := curproc })
            (fun _ => rfl) fun _ => rfl
          refine ⟨adopted.congr (fun _ => rfl) fun _ _ => rfl, .inr ?_, ?_⟩
          · apply settledParent.task
            · simpa only [ProcTable.modify_proc, if_pos] using live
            · simpa only [ProcTable.modify_proc, if_pos] using notZombie
          · intro other made
            obtain rfl := Option.some.inj made
            constructor
            · exact free
            · simpa only [ProcTable.modify_proc, if_pos] using live
            · intro j
              simpa only [kfd, ProcTable.modify_proc, if_pos] using none j
            · simp only [ProcTable.modify_proc, if_pos]
            · intro p ne
              have pid := (procs p).1
              rw [if_neg ne] at pid
              simpa only [if_true, ProcTable.modify_proc, if_neg ne] using pid

/-- The files of a parent are duplicated for its child. -/
theorem Counted.dupLoop {parent : Slot} (js : List (Fin PROC_FILES))
    (counted : sys.Counted handles) (once : ∀ k, handles.count k ≤ 1) (distinct : js.Nodup)
    (live : (sys.table.proc slot).pid ≠ 0)
    (parentLive : (sys.table.proc parent).pid ≠ 0) (free : ∀ j ∈ js, sys.kfd slot j = -1) :
    (dupLoop slot parent js sys).1 = 0 ∧ (dupLoop slot parent js sys).2.Counted handles ∧
      sys.SameProcs (dupLoop slot parent js sys).2 := by
  induction js generalizing sys with
  | nil => exact ⟨rfl, counted, .refl sys⟩
  | cons j js ih =>
      obtain ⟨notIn, distinct⟩ := List.nodup_cons.mp distinct
      have freeRest : ∀ i ∈ js, sys.kfd slot i = -1 := fun i member =>
        free i (List.mem_cons_of_mem _ member)
      by_cases isOpen : sys.kfd parent j ≠ -1
      · have entry : sys.entry parent j = sys.kfd parent j := if_neg parentLive
        rcases counted.entries parent j with closed | ⟨k, inTable, isEntry⟩
        · exact absurd (entry.symm.trans closed) isOpen
        · obtain ⟨newfd, duped⟩ := counted.kdup isEntry inTable (once k)
          have stored := duped.store live (free j List.mem_cons_self)
          have positive : ¬(k : Int) < 0 := by omega
          have next : ProcFiles.dupLoop slot parent (j :: js) sys =
              ProcFiles.dupLoop slot parent js
                ({ sys with files := (sys.files.kdup k).2 }.setKfd slot j k) := by
            rw [ProcFiles.dupLoop, if_pos isOpen, ← entry, isEntry]
            simp only [newfd, if_neg positive]
          have same : sys.SameProcs ({ sys with files := (sys.files.kdup k).2 }.setKfd slot j k) :=
            setKfd_same _ _
          rw [next]
          obtain ⟨zero, counted', same'⟩ := ih stored distinct (by rwa [same.pid])
            (by rwa [same.pid]) fun i member => by
              have ne : ¬(slot = slot ∧ i = j) := by
                rintro ⟨-, rfl⟩
                exact notIn member
              rw [setKfd_kfd, if_neg ne]
              exact freeRest i member
          exact ⟨zero, counted', same.trans same'⟩
      · rw [ProcFiles.dupLoop, if_neg isOpen]
        exact ih counted distinct live parentLive freeRest

theorem Counted.dupHandles (counted : sys.Counted handles) (once : ∀ k, handles.count k ≤ 1)
    (live : (sys.table.proc slot).pid ≠ 0) (free : ∀ j, sys.kfd slot j = -1)
    (parentLive : ∀ parent, (sys.table.proc slot).parent = some parent →
      (sys.table.proc parent).pid ≠ 0) :
    (sys.dupHandles slot).1 = 0 ∧ (sys.dupHandles slot).2.Counted handles ∧
      sys.SameProcs (sys.dupHandles slot).2 := by
  rw [ProcFiles.dupHandles]
  cases parent : (sys.table.proc slot).parent with
  | none => exact ⟨rfl, counted, .refl sys⟩
  | some parent' =>
      exact counted.dupLoop _ once (List.nodup_finRange _) live (parentLive parent' parent)
        fun j _ => free j

/-- `exec`, whether it succeeds or fails. -/
theorem Counted.exec (counted : sys.Counted handles) (once : ∀ k, handles.count k ≤ 1)
    (settled : sys.Settled created) (few : created < 32767) {curproc : Option Slot}
    (caller : ∀ parent, curproc = some parent → (sys.table.proc parent).pid ≠ 0)
    (result : ExecResult) :
    (sys.exec curproc result).2.Counted handles ∧
      ((sys.exec curproc result).2.Settled created ∨
        (sys.exec curproc result).2.Settled (created + 1)) := by
  rw [ProcFiles.exec]
  cases result.path with
  | false => exact ⟨counted, .inl settled⟩
  | true =>
      rcases sys.files.kopen_spec result.found with failed | ⟨k, isOpen⟩
      · simp only [if_pos failed.rc, if_true]
        exact ⟨counted.failed failed, .inl ⟨settled.nextpid, settled.zombie, settled.tasked⟩⟩
      · have positive : ¬(k : Int) < 0 := by omega
        obtain ⟨opened, -, none⟩ := counted.opened isOpen
        have closed := opened.kclose (by omega) 0
        have settled' : { sys with files :=
            ((sys.files.kopen result.found).2.1.kclose k 0).2.1 }.Settled created :=
          ⟨settled.nextpid, settled.zombie, settled.tasked⟩
        simp only [isOpen.rc, if_neg positive, if_true]
        cases result.image with
        | error err => exact ⟨closed, .inl settled'⟩
        | ok image =>
            obtain ⟨made, settledMade, process⟩ :=
              closed.makeProcess once settled' few curproc image result.task
            dsimp only at made settledMade process ⊢
            generalize ProcFiles.makeProcess _ curproc image result.task = outcome
              at made settledMade process
            obtain ⟨returned, sys'⟩ := outcome
            cases returned with
            | none => exact ⟨made, settledMade⟩
            | some i =>
                have isMade := process i rfl
                obtain ⟨zero, duped, same⟩ := made.dupHandles once isMade.live isMade.files
                  fun parent isParent => by
                    have live := caller parent (isMade.parent.symm.trans isParent)
                    have ne : parent ≠ i := by
                      rintro rfl
                      exact live isMade.free
                    rw [isMade.others parent ne]
                    exact live
                dsimp only
                rw [if_neg (not_not.mpr zero)]
                exact ⟨duped, settledMade.imp (·.same same) (·.same same)⟩

/-- `open` in a live process. -/
theorem Counted.sysOpen (counted : sys.Counted handles) (live : (sys.table.proc slot).pid ≠ 0)
    (path : Bool) (found : PathResult) : (sys.sysOpen slot path found).2.Counted handles ∧
      sys.SameProcs (sys.sysOpen slot path found).2 := by
  rw [ProcFiles.sysOpen]
  cases free : sys.findFd slot with
  | none => exact ⟨counted, .refl sys⟩
  | some j =>
      cases path with
      | false => exact ⟨counted, .refl sys⟩
      | true =>
          rcases sys.files.kopen_spec found with failed | ⟨k, isOpen⟩
          · simp only [if_pos failed.rc, if_true]
            exact ⟨counted.failed failed, ⟨rfl, fun _ => rfl, fun _ => rfl, fun _ => rfl, rfl⟩⟩
          · have positive : ¬(k : Int) < 0 := by omega
            simp only [isOpen.rc, if_neg positive, if_true]
            exact ⟨(counted.opened isOpen).1.store live (findFd_some free), setKfd_same _ _⟩

theorem Counted.sysClose (counted : sys.Counted handles) (once : ∀ k, handles.count k ≤ 1)
    (live : (sys.table.proc slot).pid ≠ 0) (fd : Int) :
    (sys.sysClose slot fd).2.Counted handles ∧ sys.SameProcs (sys.sysClose slot fd).2 := by
  rw [ProcFiles.sysClose]
  cases isOpen : sys.fdOf slot fd with
  | none => exact ⟨counted, .refl sys⟩
  | some j => exact ⟨counted.closeKfd once live (fdOf_some isOpen), closeKfd_same sys slot j⟩

theorem Counted.sysDup (counted : sys.Counted handles) (once : ∀ k, handles.count k ≤ 1)
    (live : (sys.table.proc slot).pid ≠ 0) (fd : Int) :
    (sys.sysDup slot fd).2.Counted handles ∧ sys.SameProcs (sys.sysDup slot fd).2 := by
  rw [ProcFiles.sysDup]
  cases isOpen : sys.fdOf slot fd with
  | none => exact ⟨counted, .refl sys⟩
  | some j =>
      cases free : sys.findFd slot with
      | none => exact ⟨counted, .refl sys⟩
      | some i =>
          have entry : sys.entry slot j = sys.kfd slot j := if_neg live
          rcases counted.entries slot j with closed | ⟨k, inTable, isEntry⟩
          · exact absurd (entry.symm.trans closed) (fdOf_some isOpen)
          · obtain ⟨nfd, duped⟩ := counted.kdup isEntry inTable (once k)
            have positive : ¬(k : Int) < 0 := by omega
            simp only [← entry, isEntry, nfd, if_neg positive]
            exact ⟨duped.store live (findFd_some free), setKfd_same _ _⟩

/-- `_exit` in a process that has a task. -/
theorem Counted.exit (counted : sys.Counted handles) (once : ∀ k, handles.count k ≤ 1)
    (settled : sys.Settled created) (live : (sys.table.proc slot).pid ≠ 0) (rc : Int) :
    (sys.exit slot rc).Counted handles ∧ (sys.exit slot rc).Settled created := by
  cases parent : (sys.table.proc slot).parent with
  | none =>
      have tasked : (sys.procFree slot).tasked = sys.tasked := (procFree_spec sys slot).2.1
      have freed := counted.procFree once live
      simp only [ProcFiles.exit, parent]
      refine ⟨freed.congr (fun _ => rfl) fun _ _ => rfl, settled.procFree (fun p isTasked => ?_) ?_⟩
      · by_cases same : p = slot
        · simp [same] at isTasked
        · rwa [Function.update_of_ne same, tasked] at isTasked
      · exact Function.update_self _ _ _
  | some parent' =>
      obtain ⟨-, procs⟩ := ProcTable.exit_child rc parent
      have nextpid : (sys.table.exit slot rc).1.nextpid = sys.table.nextpid := by
        simp only [ProcTable.exit, parent]
        rfl
      simp only [ProcFiles.exit, parent]
      constructor
      · refine counted.congr (fun _ => rfl) fun p j => ?_
        simp only [entry, kfd, procs]
      · refine ⟨nextpid.trans settled.nextpid, fun p isZombie => ?_, fun p isTasked => ?_⟩
        · simp only [procs] at isZombie ⊢
          by_cases same : p = slot
          · subst same
            exact ⟨Function.update_self _ _ _, live⟩
          · rw [if_neg same] at isZombie
            rw [Function.update_of_ne same]
            exact settled.zombie p isZombie
        · simp only [procs]
          by_cases same : p = slot
          · subst same
            exact live
          · dsimp only at isTasked
            rw [Function.update_of_ne same] at isTasked
            exact settled.tasked p isTasked

/-- `_wait` in a process that has an exited child. -/
theorem Counted.wait (counted : sys.Counted handles) (once : ∀ k, handles.count k ≤ 1)
    (settled : sys.Settled created) {pid : Int} (waited : sys.wait slot = some (pid, sys')) :
    sys'.Counted handles ∧ sys'.Settled created := by
  simp only [ProcFiles.wait, Option.map_eq_some_iff, Prod.mk.injEq] at waited
  obtain ⟨i, found, -, rfl⟩ := waited
  obtain ⟨live, zombie, -⟩ := ProcTable.findZombie_some found
  exact ⟨counted.procFree once live, settled.free (settled.zombie i zombie).1⟩

end ProcFiles

/-! ## Every run -/

/-- The processes and their files, the kernel's own handles, and how many processes
have been created. -/
structure RefSystem where
  sys : ProcFiles
  handles : List Nat
  created : Nat

/-- The calls of processes and of the kernel. -/
inductive FilesAction where
  | sysOpen (slot : Slot) (path : Bool) (found : PathResult)
  | sysClose (slot : Slot) (fd : Int)
  | sysDup (slot : Slot) (fd : Int)
  | exec (curproc : Option Slot) (result : ExecResult)
  | exit (slot : Slot) (rc : Int)
  | wait (slot : Slot)
  | kopen (found : PathResult)
  | kclose (handle : Nat) (closeRc : Int)

namespace RefSystem

variable (ref : RefSystem)

/-- The system after a call.  `nextpid` moves when a process is created. -/
def become (sys : ProcFiles) : RefSystem :=
  { ref with
    sys := sys
    created := ref.created + if sys.table.nextpid = ref.sys.table.nextpid then 0 else 1 }

/-- A call that completes.  Processes call while they have a task, and the kernel closes
files that it has opened. -/
def step : FilesAction → Option RefSystem
  | .sysOpen slot path found =>
      if ref.sys.tasked slot then some (ref.become (ref.sys.sysOpen slot path found).2) else none
  | .sysClose slot fd =>
      if ref.sys.tasked slot then some (ref.become (ref.sys.sysClose slot fd).2) else none
  | .sysDup slot fd =>
      if ref.sys.tasked slot then some (ref.become (ref.sys.sysDup slot fd).2) else none
  | .exec curproc result =>
      if ∀ slot, curproc = some slot → ref.sys.tasked slot then
        some (ref.become (ref.sys.exec curproc result).2)
      else none
  | .exit slot rc =>
      if ref.sys.tasked slot then some (ref.become (ref.sys.exit slot rc)) else none
  | .wait slot =>
      if ref.sys.tasked slot then
        (ref.sys.wait slot).map fun result => ref.become result.2
      else none
  | .kopen found =>
      let (rc, files, _) := ref.sys.files.kopen found
      let ref := { ref with sys := { ref.sys with files := files } }
      if rc < 0 then some ref else some { ref with handles := rc.toNat :: ref.handles }
  | .kclose handle closeRc =>
      if handle ∈ ref.handles then
        some { ref with
          sys := { ref.sys with files := (ref.sys.files.kclose handle closeRc).2.1 }
          handles := ref.handles.erase handle }
      else none

/-- Before any call. -/
def start (memory : Nat → Openfile) : RefSystem where
  sys :=
    { files := .initial memory
      table := .initial
      tasked := fun _ => false }
  handles := []
  created := 0

/-- The invariant of every run. -/
structure Inv (ref : RefSystem) : Prop where
  counted : ref.sys.Counted ref.handles
  once : ∀ k, ref.handles.count k ≤ 1
  settled : ref.sys.Settled ref.created

variable {ref} {ref' : RefSystem}

theorem start_inv (memory : Nat → Openfile) : (start memory).Inv := by
  have dead : ∀ p, ((start memory).sys.table.proc p).pid = 0 := fun _ => rfl
  constructor
  · constructor
    · intro k inTable
      have none : (start memory).sys.refs k = 0 := by
        rw [ProcFiles.refs, List.countP_eq_zero]
        intro e _
        simp only [dead, ne_eq, not_true_eq_false, false_and, decide_false, Bool.false_eq_true,
          not_false_eq_true]
      have refcnt : ((start memory).sys.files.oft k).refcnt = 0 := by
        simp only [start, OpenFiles.initial, if_pos inTable, unused]
      rw [none, refcnt]
      rfl
    · intro p j
      left
      rw [ProcFiles.entry, if_pos (dead p)]
    · simp [start]
  · simp [start]
  · constructor
    · exact (by decide : (1 : Int) = Proc.int16 (0 + 1))
    · simp [start, ProcTable.initial]
    · simp [start]

/-- A call that creates no process. -/
theorem Inv.become_same (inv : ref.Inv) {sys : ProcFiles} (counted : sys.Counted ref.handles)
    (settled : sys.Settled ref.created) : (ref.become sys).Inv := by
  have same : sys.table.nextpid = ref.sys.table.nextpid :=
    settled.nextpid.trans inv.settled.nextpid.symm
  have created : (ref.become sys).created = ref.created := by
    simp only [become, if_pos same, Nat.add_zero]
  exact ⟨counted, inv.once, created ▸ settled⟩

/-- A call that creates one. -/
theorem Inv.become_next (inv : ref.Inv) {sys : ProcFiles} (counted : sys.Counted ref.handles)
    (settled : sys.Settled (ref.created + 1)) : (ref.become sys).Inv := by
  have moved : ¬sys.table.nextpid = ref.sys.table.nextpid := by
    rw [settled.nextpid, inv.settled.nextpid, Proc.int16, Int.bmod_def, Proc.int16, Int.bmod_def]
    omega
  have created : (ref.become sys).created = ref.created + 1 := by
    simp only [become, if_neg moved]
  exact ⟨counted, inv.once, created ▸ settled⟩

theorem created_le {action : FilesAction} (taken : ref.step action = some ref') :
    ref.created ≤ ref'.created := by
  have become : ∀ sys, ref.created ≤ (ref.become sys).created := fun _ => Nat.le_add_right _ _
  cases action with
  | kopen found =>
      simp only [step] at taken
      split at taken <;> (obtain rfl := Option.some.inj taken; exact le_refl _)
  | kclose handle closeRc =>
      simp only [step, Option.ite_none_right_eq_some, Option.some.injEq] at taken
      obtain ⟨-, rfl⟩ := taken
      exact le_refl _
  | wait slot =>
      simp only [step, Option.ite_none_right_eq_some, Option.map_eq_some_iff] at taken
      obtain ⟨-, _, -, rfl⟩ := taken
      exact become _
  | _ =>
      simp only [step, Option.ite_none_right_eq_some, Option.some.injEq] at taken
      obtain ⟨-, rfl⟩ := taken
      exact become _

theorem Inv.step (inv : ref.Inv) (few : ref.created < 32767) {action : FilesAction}
    (taken : ref.step action = some ref') : ref'.Inv := by
  have counted := inv.counted
  have settled := inv.settled
  cases action with
  | sysOpen slot path found =>
      simp only [RefSystem.step, Option.ite_none_right_eq_some, Option.some.injEq] at taken
      obtain ⟨isTasked, rfl⟩ := taken
      obtain ⟨counted', same⟩ := counted.sysOpen (settled.tasked slot isTasked) path found
      exact inv.become_same counted' (settled.same same)
  | sysClose slot fd =>
      simp only [RefSystem.step, Option.ite_none_right_eq_some, Option.some.injEq] at taken
      obtain ⟨isTasked, rfl⟩ := taken
      obtain ⟨counted', same⟩ := counted.sysClose inv.once (settled.tasked slot isTasked) fd
      exact inv.become_same counted' (settled.same same)
  | sysDup slot fd =>
      simp only [RefSystem.step, Option.ite_none_right_eq_some, Option.some.injEq] at taken
      obtain ⟨isTasked, rfl⟩ := taken
      obtain ⟨counted', same⟩ := counted.sysDup inv.once (settled.tasked slot isTasked) fd
      exact inv.become_same counted' (settled.same same)
  | exec curproc result =>
      simp only [RefSystem.step, Option.ite_none_right_eq_some, Option.some.injEq] at taken
      obtain ⟨isTasked, rfl⟩ := taken
      obtain ⟨counted', settled'⟩ := counted.exec inv.once settled few
        (fun slot isCaller => settled.tasked slot (isTasked slot isCaller)) result
      rcases settled' with same | next
      · exact inv.become_same counted' same
      · exact inv.become_next counted' next
  | exit slot rc =>
      simp only [RefSystem.step, Option.ite_none_right_eq_some, Option.some.injEq] at taken
      obtain ⟨isTasked, rfl⟩ := taken
      obtain ⟨counted', settled'⟩ :=
        counted.exit inv.once settled (settled.tasked slot isTasked) rc
      exact inv.become_same counted' settled'
  | wait slot =>
      simp only [RefSystem.step, Option.ite_none_right_eq_some, Option.map_eq_some_iff] at taken
      obtain ⟨-, ⟨pid, sys⟩, waited, rfl⟩ := taken
      obtain ⟨counted', settled'⟩ := counted.wait inv.once settled waited
      exact inv.become_same counted' settled'
  | kopen found =>
      rcases ref.sys.files.kopen_spec found with failed | ⟨k, isOpen⟩
      · simp only [RefSystem.step, if_pos failed.rc, Option.some.injEq] at taken
        subst taken
        exact ⟨counted.failed failed, inv.once,
          ⟨settled.nextpid, settled.zombie, settled.tasked⟩⟩
      · have positive : ¬(k : Int) < 0 := by omega
        obtain ⟨opened, -, none⟩ := counted.opened isOpen
        simp only [RefSystem.step, isOpen.rc, if_neg positive, Option.some.injEq,
          Int.toNat_natCast] at taken
        subst taken
        refine ⟨opened, fun other => ?_, ⟨settled.nextpid, settled.zombie, settled.tasked⟩⟩
        have before := inv.once other
        dsimp only
        rw [List.count_cons]
        by_cases same : k = other
        · subst same
          simp [none]
        · simpa [same] using before
  | kclose handle closeRc =>
      simp only [RefSystem.step, Option.ite_none_right_eq_some, Option.some.injEq] at taken
      obtain ⟨held, rfl⟩ := taken
      have fewer : ∀ k, (ref.handles.erase handle).count k ≤ 1 := fun k =>
        (List.erase_sublist.count_le k).trans (inv.once k)
      have perm : ref.handles.Perm (handle :: ref.handles.erase handle) :=
        List.perm_cons_erase held
      have cons : ref.sys.Counted (handle :: ref.handles.erase handle) :=
        ⟨fun k inTable => by rw [← perm.count_eq k]; exact counted.refcnt k inTable,
          counted.entries, fun k member => counted.handles k (perm.mem_iff.mpr member)⟩
      exact ⟨cons.kclose (fewer handle) closeRc, fewer,
        ⟨settled.nextpid, settled.zombie, settled.tasked⟩⟩

theorem reached_inv {memory : Nat → Openfile}
    (reached : Reachable (· = start memory) (fun r a r' => r.step a = some r') ref) :
    ref.created < 32767 → ref.Inv := by
  refine reached.invariant (fun ref => ref.created < 32767 → ref.Inv) ?_ ?_
  · rintro _ rfl -
    exact start_inv memory
  · intro ref ref' action inv _ taken few
    have before := lt_of_le_of_lt (created_le taken) few
    exact (inv before).step before taken

/-- In every run with fewer than 32767 processes, the count of a slot is the number of
files of live processes and of handles of the kernel that are the slot.  So `kopen`
takes a slot only if nothing refers to it, and a file of a live process is a slot with
a positive count. -/
theorem refcnt_eq_refs {memory : Nat → Openfile}
    (reached : Reachable (· = start memory) (fun r a r' => r.step a = some r') ref)
    (few : ref.created < 32767) :
    (∀ k, k < MAX_OPEN_FILE →
      (ref.sys.files.oft k).refcnt = (ref.sys.refs k + ref.handles.count k : Nat)) ∧
    (∀ found k, (ref.sys.files.kopen found).1 = (k : Nat) →
      ref.sys.refs k = 0 ∧ k ∉ ref.handles) ∧
    ∀ p j, (ref.sys.table.proc p).pid ≠ 0 → ref.sys.kfd p j ≠ -1 →
      ∃ k : Nat, ref.sys.kfd p j = k ∧ k < MAX_OPEN_FILE ∧ 0 < (ref.sys.files.oft k).refcnt := by
  have counted := (reached_inv reached few).counted
  refine ⟨counted.refcnt, fun found k isSlot => ?_, fun p j live isOpen => ?_⟩
  · rcases ref.sys.files.kopen_spec found with failed | ⟨slot, opened⟩
    · have negative := failed.rc
      omega
    · have same : slot = k := by
        have rc := opened.rc
        omega
      subst same
      obtain ⟨-, noRefs, noHandles⟩ := counted.opened opened
      exact ⟨noRefs, List.count_eq_zero.mp noHandles⟩
  · have entry : ref.sys.entry p j = ref.sys.kfd p j := if_neg live
    rcases counted.entries p j with free | ⟨k, inTable, isEntry⟩
    · exact absurd (entry.symm.trans free) isOpen
    · have refs := ProcFiles.refs_pos isEntry
      have refcnt := counted.refcnt k inTable
      exact ⟨k, entry.symm.trans isEntry, inTable, by omega⟩

/-- A path to a regular file. -/
def regular : PathResult where
  ino := 0
  statErr := 0
  stat := { stSize := 0, stBlksize := 0, stMode := S_IFREG, stRdev := 0 }
  openRc := 0
  statErr_le := noError_le

/-- The case of a process that has opened a file and made another process. -/
theorem refcnt_eq_refs_child :
    ∃ ref, runs step (start fun _ => unused) [.exec none ⟨true, regular, .ok 0, true⟩,
        .sysOpen 0 true regular, .exec (some 0) ⟨true, regular, .ok 0, true⟩] = some ref ∧
      ref.sys.refs 0 = 2 ∧
      (ref.sys.files.oft 0).refcnt = (ref.sys.refs 0 + ref.handles.count 0 : Nat) := by
  have ran : ((runs step (start fun _ => unused) [.exec none ⟨true, regular, .ok 0, true⟩,
      .sysOpen 0 true regular, .exec (some 0) ⟨true, regular, .ok 0, true⟩]).map fun ref =>
        (ref.created, ref.sys.refs 0)) = some (2, 2) := by
    decide +kernel
  obtain ⟨ref, ran, values⟩ := Option.map_eq_some_iff.mp ran
  obtain ⟨created, refs⟩ := Prod.mk.inj values
  have correct := refcnt_eq_refs (reachable_of_runs rfl ran) (by omega)
  exact ⟨ref, ran, refs, correct.1 0 (by decide)⟩

end RefSystem

end Pegasos.Kernel.Files
