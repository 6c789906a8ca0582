import Pegasos.Kernel.Files.UserFiles
import Pegasos.Support.Transition

/-!
# The start of a new process

`exec` makes the task of a new process runnable before it has stored the parent of the
process and duplicated the caller's files.  Here the steps of `exec` after that come
one by one, with system calls of the new process and of others in between.
-/

namespace Pegasos.Kernel.Proc

open Pegasos.Support
open Pegasos.Kernel.Files (ProcFiles ExecResult PathResult)
open Function (update update_self update_of_ne)

/-- How far `exec` has come with a process: it has a slot, its task is on its run
queue, its parent is stored and the file of a number is the next to duplicate, or that
has been duplicated and is to be stored; `exec` has ended, or has freed the process
though its task is there; or the process has exited. -/
inductive Stage where
  | unborn
  | made
  | queued
  | dup (j : Nat)
  | store (j : Nat) (newfd : Int)
  | ready
  | failed
  | gone
  deriving DecidableEq, Repr

/-- `exec` is not through with the process. -/
def Stage.inExec : Stage → Bool
  | made | queued | dup _ | store _ _ => true
  | _ => false

/-- The process has a task that can run. -/
def Stage.hasTask : Stage → Bool
  | queued | dup _ | store _ _ | ready | failed => true
  | _ => false

/-- The slot of the process is its own. -/
def Stage.alive : Stage → Bool
  | made | queued | dup _ | store _ _ | ready => true
  | _ => false

/-- The processes in the order in which they were made, with the slot of each, who made
it, and the caller and the files that it should have: those of its maker at the time of
`exec`, with the changes that its own calls have made. -/
structure ExecSystem where
  sys : ProcFiles
  count : Nat
  slot : Nat → Slot
  stage : Nat → Stage
  maker : Nat → Option Nat
  caller : Nat → Option Slot
  wanted : Nat → Fin PROC_FILES → Int

/-- `exec` up to the end of `proc_alloc`, its further steps for a new process, and the
system calls of a process. -/
inductive ExecAction where
  | exec (actor : Option Nat) (result : ExecResult)
  | taskFromProc (child : Nat) (enough : Bool)
  | storeParent (child : Nat)
  | kdup (child : Nat)
  | storeFd (child : Nat)
  | sysOpen (p : Nat) (path : Bool) (found : PathResult)
  | sysClose (p : Nat) (fd : Int)
  | sysDup (p : Nat) (fd : Int)
  | other (p : Nat)
  | exit (p : Nat) (rc : Int)
  | wait (p : Nat)

/-- The process that makes a system call. -/
def ExecAction.process : ExecAction → Option Nat
  | .exec actor _ => actor
  | .sysOpen p _ _ => some p
  | .sysClose p _ => some p
  | .sysDup p _ => some p
  | .other p => some p
  | .exit p _ => some p
  | .wait p => some p
  | _ => none

namespace ExecSystem

variable (s : ExecSystem)

/-- The process is inside of `exec`. -/
def Busy (p : Nat) : Prop := ∃ c < s.count, s.maker c = some p ∧ (s.stage c).inExec = true

instance (p : Nat) : Decidable (s.Busy p) :=
  inferInstanceAs (Decidable (∃ c < s.count, s.maker c = some p ∧ (s.stage c).inExec = true))

/-- A process can make a system call. -/
def canCall (p : Nat) : Bool := (s.stage p).hasTask && !s.Busy p

/-- The table of files of a process. -/
def fds (p : Nat) : Fin PROC_FILES → Int := s.sys.kfd (s.slot p)

/-- A system call of a process that changes its files.  It should have the changes that
the call has made. -/
def call (p : Nat) (sys : ProcFiles) : ExecSystem :=
  { s with
    sys := sys
    wanted := update s.wanted p fun j =>
      if sys.kfd (s.slot p) j ≠ s.fds p j then sys.kfd (s.slot p) j else s.wanted p j }

/-- `exec` from `proc_alloc` on, up to its end. -/
def procAlloc (actor : Option Nat) (image : Nat) : ExecSystem :=
  match s.sys.procAlloc with
  | none => s
  | some (i, sys) => { s with
      sys := { sys with table := sys.table.modify i fun p => { p with image := some image } }
      count := s.count + 1
      slot := update s.slot s.count i
      stage := update s.stage s.count .made
      maker := update s.maker s.count actor
      caller := update s.caller s.count (actor.map s.slot)
      wanted := update s.wanted s.count (actor.elim (fun _ => -1) s.fds) }

/-- A step of the loop of `dup_handles`. -/
def dupStep (child j : Nat) : ExecSystem :=
  match s.maker child with
  | none => { s with stage := update s.stage child .ready }
  | some m =>
      if inTable : j < PROC_FILES then
        if s.fds m ⟨j, inTable⟩ ≠ -1 then
          let (newfd, files) := s.sys.files.kdup (s.fds m ⟨j, inTable⟩)
          if newfd < 0 then { s with
            sys := { s.sys with files := files }.procFree (s.slot child)
            stage := update s.stage child .failed }
          else { s with
            sys := { s.sys with files := files }
            stage := update s.stage child (.store j newfd) }
        else { s with stage := update s.stage child (.dup (j + 1)) }
      else { s with stage := update s.stage child .ready }

/-- One step. -/
def step : ExecAction → Option ExecSystem
  | .exec actor result =>
      if actor.all s.canCall then
        if result.path then
          let (fd, files, _) := s.sys.files.kopen result.found
          if fd < 0 then some { s with sys := { s.sys with files := files } }
          else
            let (_, files, _) := files.kclose fd 0
            let s := { s with sys := { s.sys with files := files } }
            match result.image with
            | .error _ => some s
            | .ok image => some (s.procAlloc actor image)
        else some s
      else none
  | .taskFromProc child enough =>
      match s.stage child with
      | .made =>
          if enough then some { s with
            sys := { s.sys with tasked := update s.sys.tasked (s.slot child) true }
            stage := update s.stage child .queued }
          else some { s with
            sys := s.sys.procFree (s.slot child)
            stage := update s.stage child .gone }
      | _ => none
  | .storeParent child =>
      match s.stage child with
      | .queued => some { s with
          sys := { s.sys with table := s.sys.table.modify (s.slot child) fun p =>
            { p with parent := (s.maker child).map s.slot } }
          stage := update s.stage child (.dup 0) }
      | _ => none
  | .kdup child =>
      match s.stage child with
      | .dup j => some (s.dupStep child j)
      | _ => none
  | .storeFd child =>
      match s.stage child with
      | .store j newfd =>
          if inTable : j < PROC_FILES then some { s with
            sys := s.sys.setKfd (s.slot child) ⟨j, inTable⟩ newfd
            stage := update s.stage child (.dup (j + 1)) }
          else none
      | _ => none
  | .sysOpen p path found =>
      if s.canCall p then some (s.call p (s.sys.sysOpen (s.slot p) path found).2) else none
  | .sysClose p fd =>
      if s.canCall p then some (s.call p (s.sys.sysClose (s.slot p) fd).2) else none
  | .sysDup p fd =>
      if s.canCall p then some (s.call p (s.sys.sysDup (s.slot p) fd).2) else none
  | .other p => if s.canCall p then some s else none
  | .exit p rc =>
      if s.canCall p then some { s with
        sys := s.sys.exit (s.slot p) rc
        stage := update s.stage p .gone }
      else none
  | .wait p =>
      if s.canCall p then (s.sys.wait (s.slot p)).map fun (_, sys) => { s with sys := sys } else none

/-- Before any process is made. -/
def start (files : Files.OpenFiles) : ExecSystem where
  sys := { files := files, table := .initial, tasked := fun _ => false }
  count := 0
  slot := fun _ => 0
  stage := fun _ => .unborn
  maker := fun _ => none
  caller := fun _ => none
  wanted := fun _ _ => -1

/-- The condition under which new processes are set up: a process makes no system call
before `exec` is through with it, and no process gets the pid 0. -/
def Guarded (action : ExecAction) : Prop :=
  (∀ p ∈ action.process, s.stage p = .ready) ∧
    match action with
    | .exec _ _ => s.sys.table.nextpid ≠ 0
    | _ => True

instance : (action : ExecAction) → Decidable (s.Guarded action)
  | .exec _ _ => inferInstanceAs (Decidable (_ ∧ _ ≠ _))
  | .taskFromProc _ _ | .storeParent _ | .kdup _ | .storeFd _ | .sysOpen _ _ _ | .sysClose _ _
  | .sysDup _ _ | .other _ | .exit _ _ | .wait _ => inferInstanceAs (Decidable (_ ∧ True))

variable {s s' : ExecSystem} {p q c m : Nat} {i : Slot}

theorem step_eq_some_of_canCall {after : ExecSystem}
    (taken : (if s.canCall p then some after else none) = some s') :
    s.canCall p = true ∧ after = s' := by
  split at taken
  · exact ⟨‹_›, Option.some.inj taken⟩
  · simp at taken

theorem not_busy_of_canCall (able : s.canCall p = true) : ¬s.Busy p := by
  have both : (s.stage p).hasTask = true ∧ ¬s.Busy p := by simpa [canCall] using able
  exact both.2

end ExecSystem

/-! ## What a step does to the slots -/

/-- A change of the process in one slot only. -/
structure OnlyAt (i : Slot) (sys sys' : ProcFiles) : Prop where
  pid : ∀ q ≠ i, (sys'.table.proc q).pid = (sys.table.proc q).pid
  zombie : ∀ q ≠ i, (sys'.table.proc q).zombie = true → (sys.table.proc q).zombie = true
  parent : ∀ q ≠ i, (sys'.table.proc q).parent = (sys.table.proc q).parent
  kfd : ∀ q ≠ i, sys'.kfd q = sys.kfd q
  clean : (sys'.table.proc i).pid = 0 → (sys'.table.proc i).zombie = false

/-- A change of the files of one process only. -/
structure FilesAt (i : Slot) (sys sys' : ProcFiles) : Prop where
  same : sys.SameProcs sys'
  kfd : ∀ q ≠ i, sys'.kfd q = sys.kfd q

section Slots

variable {sys sys' : ProcFiles} {i : Slot}

theorem FilesAt.files (sys : ProcFiles) (i : Slot) (files : Files.OpenFiles) :
    FilesAt i sys { sys with files := files } where
  same := ⟨rfl, fun _ => rfl, fun _ => rfl, fun _ => rfl, rfl⟩
  kfd _ _ := rfl

theorem FilesAt.setKfd (sys : ProcFiles) (i : Slot) (files : Files.OpenFiles)
    (j : Fin PROC_FILES) (kfd : Int) :
    FilesAt i sys ({ sys with files := files }.setKfd i j kfd) where
  same := Files.ProcFiles.setKfd_same files kfd
  kfd q ne := by
    funext k
    rw [Files.ProcFiles.setKfd_kfd, if_neg (fun both => ne both.1)]
    rfl

theorem FilesAt.sysOpen (sys : ProcFiles) (i : Slot) (path : Bool) (found : PathResult) :
    FilesAt i sys (sys.sysOpen i path found).2 := by
  rw [ProcFiles.sysOpen]
  cases sys.findFd i with
  | none => exact .files sys i sys.files
  | some j =>
      cases path with
      | false => exact .files sys i sys.files
      | true =>
          simp only [if_true]
          split
          · exact .files sys i _
          · exact .setKfd sys i _ j _

theorem FilesAt.sysClose (sys : ProcFiles) (i : Slot) (fd : Int) :
    FilesAt i sys (sys.sysClose i fd).2 := by
  rw [ProcFiles.sysClose]
  cases sys.fdOf i fd with
  | none => exact .files sys i sys.files
  | some j => exact .setKfd sys i _ j _

theorem FilesAt.sysDup (sys : ProcFiles) (i : Slot) (fd : Int) :
    FilesAt i sys (sys.sysDup i fd).2 := by
  rw [ProcFiles.sysDup]
  cases sys.fdOf i fd with
  | none => exact .files sys i sys.files
  | some j =>
      cases sys.findFd i with
      | none => exact .files sys i sys.files
      | some k =>
          simp only
          split
          · exact .files sys i _
          · exact .setKfd sys i _ k _

theorem FilesAt.onlyAt (files : FilesAt i sys sys')
    (clean : (sys.table.proc i).pid = 0 → (sys.table.proc i).zombie = false) :
    OnlyAt i sys sys' where
  pid q _ := files.same.pid q
  zombie q _ set := (files.same.zombie q).symm.trans set
  parent q _ := files.same.parent q
  kfd := files.kfd
  clean free := (files.same.zombie i).trans (clean ((files.same.pid i).symm.trans free))

theorem OnlyAt.table (same : sys'.table = sys.table)
    (clean : (sys.table.proc i).pid = 0 → (sys.table.proc i).zombie = false) :
    OnlyAt i sys sys' where
  pid q _ := by rw [same]
  zombie q _ := by rw [same]; exact id
  parent q _ := by rw [same]
  kfd q _ := by funext k; rw [ProcFiles.kfd, same]; rfl
  clean := by rw [same]; exact clean

theorem OnlyAt.trans {sys'' : ProcFiles} (first : OnlyAt i sys sys') (second : OnlyAt i sys' sys'') :
    OnlyAt i sys sys'' where
  pid q ne := (second.pid q ne).trans (first.pid q ne)
  zombie q ne set := first.zombie q ne (second.zombie q ne set)
  parent q ne := (second.parent q ne).trans (first.parent q ne)
  kfd q ne := (second.kfd q ne).trans (first.kfd q ne)
  clean := second.clean

/-- An assignment to fields of a process. -/
theorem OnlyAt.modify (only : OnlyAt i sys sys') (edit : Process → Process)
    (clean : (edit (sys'.table.proc i)).pid = 0 → (edit (sys'.table.proc i)).zombie = false) :
    OnlyAt i sys { sys' with table := sys'.table.modify i edit } := by
  refine ⟨fun q ne => ?_, fun q ne => ?_, fun q ne => ?_, fun q ne => ?_, ?_⟩
  · rw [ProcTable.modify_proc, if_neg ne]
    exact only.pid q ne
  · rw [ProcTable.modify_proc, if_neg ne]
    exact only.zombie q ne
  · rw [ProcTable.modify_proc, if_neg ne]
    exact only.parent q ne
  · rw [← only.kfd q ne]
    funext k
    rw [ProcFiles.kfd, ProcTable.modify_proc, if_neg ne]
    rfl
  · rw [ProcTable.modify_proc, if_pos rfl]
    exact clean

/-- `proc_free` changes the process that it frees. -/
theorem OnlyAt.procFree (sys : ProcFiles) (i : Slot) : OnlyAt i sys (sys.procFree i) := by
  obtain ⟨-, -, procs⟩ := Files.ProcFiles.procFree_spec sys i
  obtain ⟨same, kfds⟩ := Files.ProcFiles.closeAll_spec sys i (List.finRange PROC_FILES)
  refine ⟨fun q ne => ?_, fun q ne set => ?_, fun q ne => ?_, fun q ne => ?_, fun _ => ?_⟩
  · rw [(procs q).1, if_neg ne]
  · rwa [(procs q).2, if_neg ne] at set
  · rw [ProcFiles.procFree, ProcTable.procFree_proc]
    exact same.parent q
  · funext k
    have closed := kfds q k
    rw [if_neg (fun both => ne both.1)] at closed
    rw [← closed]
    simp only [ProcFiles.procFree, ProcFiles.kfd, ProcTable.procFree_proc, if_neg ne]
  · rw [(procs i).2, if_pos rfl]

/-- `_exit` changes the process that calls it. -/
theorem OnlyAt.exit (sys : ProcFiles) (i : Slot) (rc : Int) (live : (sys.table.proc i).pid ≠ 0) :
    OnlyAt i sys (sys.exit i rc) := by
  cases parent : (sys.table.proc i).parent with
  | none =>
      have freed := OnlyAt.procFree sys i
      rw [ProcFiles.exit, parent]
      exact ⟨freed.pid, freed.zombie, freed.parent, freed.kfd, freed.clean⟩
  | some _ =>
      obtain ⟨-, procs⟩ := ProcTable.exit_child rc parent
      simp only [ProcFiles.exit, parent]
      refine ⟨fun q _ => ?_, fun q ne set => ?_, fun q _ => ?_, fun q _ => ?_, fun free => ?_⟩
      · simp only [procs q]
      · simpa only [procs q, if_neg ne] using set
      · simp only [procs q]
      · funext k
        simp only [ProcFiles.kfd, procs q]
      · simp only [procs i] at free
        exact absurd free live

/-- `proc_alloc` does not store a parent. -/
theorem procAlloc_parent (alloc : sys.procAlloc = some (i, sys')) (q : Slot) :
    (sys'.table.proc q).parent = (sys.table.proc q).parent := by
  simp only [ProcFiles.procAlloc, ProcTable.procAllocPid, Option.map_eq_some_iff, Prod.exists,
    Prod.mk.injEq] at alloc
  obtain ⟨_, _, ⟨_, _, rfl, rfl⟩, rfl, rfl⟩ := alloc
  simp only [ProcTable.procAllocInit_proc, ProcTable.modify_proc]
  split <;> rfl

/-- `proc_alloc` takes a free slot, and the files of the new process are closed. -/
theorem OnlyAt.procAlloc (alloc : sys.procAlloc = some (i, sys'))
    (numbered : sys.table.nextpid ≠ 0)
    (clean : (sys.table.proc i).pid = 0 → (sys.table.proc i).zombie = false) :
    OnlyAt i sys sys' ∧ (sys.table.proc i).pid = 0 ∧ (sys'.table.proc i).pid ≠ 0 ∧
      (sys'.table.proc i).zombie = false ∧ sys'.kfd i = fun _ => -1 := by
  obtain ⟨free, -, -, -, closed, procs⟩ := Files.ProcFiles.procAlloc_spec alloc
  have pid : (sys'.table.proc i).pid = sys.table.nextpid := by rw [(procs i).1, if_pos rfl]
  have live : (sys'.table.proc i).pid ≠ 0 := fun zero => numbered (pid.symm.trans zero)
  have awake : (sys'.table.proc i).zombie = false :=
    Bool.eq_false_iff.mpr fun set =>
      Bool.eq_false_iff.mp (clean free) ((procs i).2.1 set)
  refine ⟨⟨fun q ne => ?_, fun q _ => (procs q).2.1, fun q ne => ?_, fun q ne => ?_,
    fun zero => absurd zero live⟩, free, live, awake, funext closed⟩
  · rw [(procs q).1, if_neg ne]
  · exact procAlloc_parent alloc q
  · funext k
    rw [ProcFiles.kfd, (procs q).2.2 ne]
    rfl

end Slots

/-! ## What `exec` has done -/

namespace ExecSystem

variable (s : ExecSystem)

/-- The entry of a process in the table. -/
def process (p : Nat) : Process := s.sys.table.proc (s.slot p)

/-- The files before the `j`th are duplicated. -/
def Duped (p j : Nat) : Prop := ∀ k, s.fds p k = if k.val < j then s.wanted p k else -1

/-- A process has what it should have. -/
def Complete (p : Nat) : Prop := (s.process p).parent = s.caller p ∧ s.fds p = s.wanted p

/-- What a process has at its stage. -/
def SetUp (p : Nat) : Prop :=
  match s.stage p with
  | .made | .queued => s.fds p = fun _ => -1
  | .dup j => (s.process p).parent = s.caller p ∧ s.Duped p j
  | .store j newfd => (s.process p).parent = s.caller p ∧ s.Duped p j ∧
      ∀ inTable : j < PROC_FILES, newfd = s.wanted p ⟨j, inTable⟩
  | .ready => s.Complete p
  | .unborn | .failed | .gone => True

/-- While `exec` is not through with a process, its maker has the files that it had
at the time of `exec`. -/
structure Snapshot (p : Nat) : Prop where
  kernel : s.maker p = none → s.caller p = none ∧ s.wanted p = fun _ => -1
  process : ∀ m, s.maker p = some m →
    s.stage m = .ready ∧ s.caller p = some (s.slot m) ∧ s.wanted p = s.fds m

structure Inv : Prop where
  alive : ∀ p, (s.stage p).alive = true → (s.process p).pid ≠ 0 ∧ (s.process p).zombie = false
  apart : ∀ p q, (s.stage p).alive = true → (s.stage q).alive = true → s.slot p = s.slot q → p = q
  clean : ∀ i, (s.sys.table.proc i).pid = 0 → (s.sys.table.proc i).zombie = false
  born : ∀ p, s.stage p ≠ .unborn → p < s.count
  snapshot : ∀ p, (s.stage p).inExec = true → s.Snapshot p
  setUp : ∀ p, s.SetUp p

/-- Nothing but the tables changes for any process other than `c`. -/
structure Frame (c : Nat) (s s' : ExecSystem) : Prop where
  stage : ∀ p ≠ c, s'.stage p = s.stage p
  slot : ∀ p ≠ c, s'.slot p = s.slot p
  maker : ∀ p ≠ c, s'.maker p = s.maker p
  caller : ∀ p ≠ c, s'.caller p = s.caller p
  wanted : ∀ p ≠ c, s'.wanted p = s.wanted p

variable {s} {s' : ExecSystem} {p q c m : Nat} {i : Slot}

theorem alive_of_inExec {stage : Stage} (inside : stage.inExec = true) : stage.alive = true := by
  cases stage <;> simp_all [Stage.inExec, Stage.alive]

/-- A step for one process, which changes one slot that is not the slot of another
process, keeps the invariant if it does for that process. -/
theorem Inv.frame (inv : s.Inv) (frame : Frame c s s') (only : OnlyAt i s.sys s'.sys)
    (away : ∀ p ≠ c, (s.stage p).alive = true → s.slot p ≠ i)
    (idle : ∀ p ≠ c, (s.stage p).inExec = true → s.maker p ≠ some c)
    (count : s.count ≤ s'.count) (born : s'.stage c ≠ .unborn → c < s'.count)
    (own : (s'.stage c).alive = true →
      s'.slot c = i ∧ (s'.process c).pid ≠ 0 ∧ (s'.process c).zombie = false)
    (snapshot : (s'.stage c).inExec = true → s'.Snapshot c) (setUp : s'.SetUp c) : s'.Inv := by
  have fds : ∀ p ≠ c, (s.stage p).alive = true → s'.fds p = s.fds p := fun p ne alive => by
    rw [fds, frame.slot p ne]
    exact only.kfd _ (away p ne alive)
  have parent : ∀ p ≠ c, (s.stage p).alive = true →
      (s'.process p).parent = (s.process p).parent := fun p ne alive => by
    rw [process, frame.slot p ne]
    exact only.parent _ (away p ne alive)
  refine ⟨fun p alive => ?_, fun p q alive alive' same => ?_, fun q free => ?_, fun p ne => ?_,
    fun p inside => ?_, fun p => ?_⟩
  · by_cases same : p = c
    · subst same
      exact (own alive).2
    · rw [frame.stage p same] at alive
      have ne := away p same alive
      obtain ⟨live, awake⟩ := inv.alive p alive
      rw [process, frame.slot p same]
      refine ⟨fun free => live ((only.pid _ ne).symm.trans free), ?_⟩
      exact Bool.eq_false_iff.mpr fun set => Bool.eq_false_iff.mp awake (only.zombie _ ne set)
  · by_cases sameP : p = c <;> by_cases sameQ : q = c
    · exact sameP.trans sameQ.symm
    · subst sameP
      rw [frame.stage q sameQ] at alive'
      rw [(own alive).1, frame.slot q sameQ] at same
      exact absurd same.symm (away q sameQ alive')
    · subst sameQ
      rw [frame.stage p sameP] at alive
      rw [(own alive').1, frame.slot p sameP] at same
      exact absurd same (away p sameP alive)
    · rw [frame.stage p sameP] at alive
      rw [frame.stage q sameQ] at alive'
      rw [frame.slot p sameP, frame.slot q sameQ] at same
      exact inv.apart p q alive alive' same
  · by_cases same : q = i
    · subst same
      exact only.clean free
    · exact Bool.eq_false_iff.mpr fun set =>
        Bool.eq_false_iff.mp (inv.clean q ((only.pid q same).symm.trans free))
          (only.zombie q same set)
  · by_cases same : p = c
    · subst same
      exact born ne
    · rw [frame.stage p same] at ne
      exact (inv.born p ne).trans_le count
  · by_cases same : p = c
    · subst same
      exact snapshot inside
    · rw [frame.stage p same] at inside
      obtain ⟨kernel, process⟩ := inv.snapshot p inside
      constructor
      · rw [frame.maker p same, frame.caller p same, frame.wanted p same]
        exact kernel
      · rw [frame.maker p same, frame.caller p same, frame.wanted p same]
        intro m isMaker
        have ne : m ≠ c := by
          rintro rfl
          exact idle p same inside isMaker
        obtain ⟨ready, caller, wanted⟩ := process m isMaker
        rw [frame.stage m ne, frame.slot m ne, fds m ne (by rw [ready]; rfl)]
        exact ⟨ready, caller, wanted⟩
  · by_cases same : p = c
    · subst same
      exact setUp
    · have before := inv.setUp p
      have files := fds p same
      have parents := parent p same
      rw [SetUp] at before ⊢
      rw [frame.stage p same]
      cases stage : s.stage p with
      | unborn => trivial
      | made | queued =>
          rw [stage] at before files
          exact (files rfl).trans before
      | dup j =>
          rw [stage] at before files parents
          simp only [Duped, files rfl, parents rfl, frame.caller p same, frame.wanted p same]
          exact before
      | store j newfd =>
          rw [stage] at before files parents
          simp only [Duped, files rfl, parents rfl, frame.caller p same, frame.wanted p same]
          exact before
      | ready =>
          rw [stage] at before files parents
          rw [Complete, files rfl, parents rfl, frame.caller p same, frame.wanted p same]
          exact before
      | failed | gone => trivial

/-- The invariant after a step for a process that `exec` is not through with. -/
theorem Inv.inside (inv : s.Inv) (inside : (s.stage c).inExec = true) {sys : ProcFiles}
    {stage : Stage} (only : OnlyAt (s.slot c) s.sys sys)
    (own : stage.alive = true →
      (sys.table.proc (s.slot c)).pid ≠ 0 ∧ (sys.table.proc (s.slot c)).zombie = false)
    (setUp : { s with sys := sys, stage := update s.stage c stage }.SetUp c) :
    { s with sys := sys, stage := update s.stage c stage }.Inv := by
  have notReady : s.stage c ≠ .ready := fun ready => by simp [ready, Stage.inExec] at inside
  have alive := alive_of_inExec inside
  have born : c < s.count := inv.born c fun unborn => by simp [unborn, Stage.inExec] at inside
  have away : ∀ p ≠ c, (s.stage p).alive = true → s.slot p ≠ s.slot c :=
    fun p ne isAlive same => ne (inv.apart p c isAlive alive same)
  have frame : Frame c s { s with sys := sys, stage := update s.stage c stage } :=
    ⟨fun p ne => update_of_ne ne _ _, fun _ _ => rfl, fun _ _ => rfl, fun _ _ => rfl,
      fun _ _ => rfl⟩
  refine inv.frame frame only away
    (fun p _ inExec isMaker => notReady ((inv.snapshot p inExec).process c isMaker).1) le_rfl
    (fun _ => born) (fun isAlive => ?_) (fun _ => ?_) setUp
  · simp only [update_self] at isAlive
    exact ⟨rfl, own isAlive⟩
  · obtain ⟨kernel, process⟩ := inv.snapshot c inside
    refine ⟨kernel, fun m isMaker => ?_⟩
    obtain ⟨ready, caller, wanted⟩ := process m isMaker
    have ne : m ≠ c := fun same => notReady (same ▸ ready)
    refine ⟨(update_of_ne ne _ _).trans ready, caller, wanted.trans ?_⟩
    exact (only.kfd _ (away m ne (by rw [ready]; rfl))).symm

/-- A system call of a process that changes its files only. -/
theorem Inv.call (inv : s.Inv) (ready : s.stage p = .ready) (idle : ¬s.Busy p) {sys : ProcFiles}
    (files : FilesAt (s.slot p) s.sys sys) : (s.call p sys).Inv := by
  have alive : (s.stage p).alive = true := by rw [ready]; rfl
  have setUp := inv.setUp p
  simp only [SetUp, ready] at setUp
  have frame : Frame p s (s.call p sys) :=
    ⟨fun _ _ => rfl, fun _ _ => rfl, fun _ _ => rfl, fun _ _ => rfl,
      fun q ne => update_of_ne ne _ _⟩
  refine inv.frame frame
    (files.onlyAt (inv.clean _)) (fun q ne isAlive same => ne (inv.apart q p isAlive alive same))
    (fun q _ inExec isMaker => idle ⟨q, inv.born q fun unborn => ?_, isMaker, inExec⟩) le_rfl
    (inv.born p) (fun _ => ⟨rfl, ?_⟩) (fun inExec => ?_) ?_
  · simp [unborn, Stage.inExec] at inExec
  · obtain ⟨live, awake⟩ := inv.alive p alive
    exact ⟨(files.same.pid _).trans_ne live, (files.same.zombie _).trans awake⟩
  · simp [ExecSystem.call, ready, Stage.inExec] at inExec
  · have stage : (s.call p sys).stage p = .ready := ready
    rw [SetUp, stage]
    refine ⟨(files.same.parent _).trans setUp.1, ?_⟩
    funext k
    have wanted : (s.call p sys).wanted p k =
        if sys.kfd (s.slot p) k ≠ s.fds p k then sys.kfd (s.slot p) k else s.wanted p k := by
      simp only [ExecSystem.call, update_self]
    rw [wanted, ← setUp.2]
    by_cases same : sys.kfd (s.slot p) k = s.fds p k
    · rw [if_neg (not_not.mpr same)]
      exact same
    · rw [if_pos same]
      rfl

/-- A step that changes nothing of a process. -/
theorem Inv.files (inv : s.Inv) (files : Files.OpenFiles) :
    { s with sys := { s.sys with files := files } }.Inv := by
  obtain ⟨alive, apart, clean, born, snapshot, setUp⟩ := inv
  exact ⟨alive, apart, clean, born, fun p inside => ⟨(snapshot p inside).1, (snapshot p inside).2⟩,
    setUp⟩

/-- `_exit` of a process. -/
theorem Inv.exit (inv : s.Inv) (ready : s.stage p = .ready) (idle : ¬s.Busy p) (rc : Int) :
    { s with sys := s.sys.exit (s.slot p) rc, stage := update s.stage p .gone }.Inv := by
  have alive : (s.stage p).alive = true := by rw [ready]; rfl
  have frame : Frame p s
      { s with sys := s.sys.exit (s.slot p) rc, stage := update s.stage p .gone } :=
    ⟨fun q ne => update_of_ne ne _ _, fun _ _ => rfl, fun _ _ => rfl, fun _ _ => rfl,
      fun _ _ => rfl⟩
  refine inv.frame frame
    (.exit s.sys _ rc (inv.alive p alive).1)
    (fun q ne isAlive same => ne (inv.apart q p isAlive alive same))
    (fun q _ inExec isMaker => idle ⟨q, inv.born q fun unborn => ?_, isMaker, inExec⟩) le_rfl
    (fun _ => inv.born p fun unborn => ?_) (fun isAlive => ?_) (fun inExec => ?_) ?_
  · simp [unborn, Stage.inExec] at inExec
  · simp [unborn] at ready
  · simp [Stage.alive] at isAlive
  · simp [Stage.inExec] at inExec
  · simp [SetUp]

/-- `_wait` of a process frees the slot of a process that has exited. -/
theorem Inv.wait (inv : s.Inv) {slot : Slot} {pid : Int} {sys : ProcFiles}
    (waited : s.sys.wait slot = some (pid, sys)) : { s with sys := sys }.Inv := by
  simp only [ProcFiles.wait, Option.map_eq_some_iff, Prod.mk.injEq] at waited
  obtain ⟨i, found, -, rfl⟩ := waited
  have unborn : s.stage s.count = .unborn := by
    by_contra ne
    exact (inv.born _ ne).false
  have frame : Frame s.count s { s with sys := s.sys.procFree i } :=
    ⟨fun _ _ => rfl, fun _ _ => rfl, fun _ _ => rfl, fun _ _ => rfl, fun _ _ => rfl⟩
  refine inv.frame frame
    (.procFree s.sys i) (fun q _ isAlive same => ?_) (fun q _ inExec isMaker => ?_) le_rfl
    (fun ne => absurd unborn ne) (fun isAlive => ?_) (fun inExec => ?_) ?_
  · have zombie := (ProcTable.findZombie_some found).2.1
    have awake := (inv.alive q isAlive).2
    rw [process, same] at awake
    simp [awake] at zombie
  · have ready := ((inv.snapshot q inExec).process _ isMaker).1
    simp [unborn] at ready
  · simp [unborn, Stage.alive] at isAlive
  · simp [unborn, Stage.inExec] at inExec
  · simp [SetUp, unborn]

/-- `exec` up to the end of `proc_alloc`. -/
theorem Inv.procAlloc (inv : s.Inv) {actor : Option Nat}
    (ready : ∀ m, actor = some m → s.stage m = .ready) (numbered : s.sys.table.nextpid ≠ 0)
    (image : Nat) : (s.procAlloc actor image).Inv := by
  rw [ExecSystem.procAlloc]
  cases alloc : s.sys.procAlloc with
  | none => exact inv
  | some made =>
      obtain ⟨i, sys⟩ := made
      obtain ⟨only, free, live, awake, closed⟩ := OnlyAt.procAlloc alloc numbered (inv.clean i)
      have fresh : s.stage s.count = .unborn := by
        by_contra ne
        exact (inv.born _ ne).false
      have away : ∀ p, (s.stage p).alive = true → s.slot p ≠ i := by
        rintro p isAlive rfl
        exact (inv.alive p isAlive).1 free
      have other : ∀ p, s.stage p ≠ .unborn → p ≠ s.count := by
        rintro p ne rfl
        exact ne fresh
      have frame : Frame s.count s (s.procAlloc actor image) := by
        rw [ExecSystem.procAlloc, alloc]
        exact ⟨fun p ne => update_of_ne ne _ _, fun p ne => update_of_ne ne _ _,
          fun p ne => update_of_ne ne _ _, fun p ne => update_of_ne ne _ _,
          fun p ne => update_of_ne ne _ _⟩
      rw [ExecSystem.procAlloc, alloc] at frame
      refine inv.frame frame
        (only.modify (fun p => { p with image := some image }) fun zero => absurd zero live)
        (fun p _ isAlive => away p isAlive) (fun p _ inExec isMaker => ?_) (Nat.le_succ _)
        (fun _ => Nat.lt_succ_self _) (fun _ => ?_) (fun _ => ?_) ?_
      · have isReady := ((inv.snapshot p inExec).process _ isMaker).1
        simp [fresh] at isReady
      · simp only [process, update_self, ProcTable.modify_proc, if_pos]
        exact ⟨trivial, live, awake⟩
      · constructor
        · simp only [update_self]
          rintro rfl
          exact ⟨rfl, rfl⟩
        · simp only [update_self]
          rintro m rfl
          have isReady := ready m rfl
          have ne := other m (by rw [isReady]; exact Stage.noConfusion)
          refine ⟨(update_of_ne ne _ _).trans isReady, ?_, ?_⟩
          · rw [update_of_ne ne]
            rfl
          · have kept := only.kfd (s.slot m) (away m (by rw [isReady]; rfl))
            funext k
            simp only [Option.elim_some, fds, update_of_ne ne]
            rw [ProcFiles.kfd, ProcFiles.kfd, ProcTable.modify_proc,
              if_neg (away m (by rw [isReady]; rfl))]
            exact (congrFun kept k).symm
      · simp only [SetUp, update_self, fds]
        rw [← closed]
        funext k
        rw [ProcFiles.kfd, ProcTable.modify_proc, if_pos rfl]
        rfl

/-- `dup_handles` goes on to the next file. -/
theorem Duped.succ {j : Nat} (duped : s.Duped p j) (inTable : j < PROC_FILES)
    (same : s.fds p ⟨j, inTable⟩ = s.wanted p ⟨j, inTable⟩) : s.Duped p (j + 1) := by
  intro k
  by_cases next : k.val = j
  · obtain rfl : k = ⟨j, inTable⟩ := Fin.ext next
    rw [if_pos (Nat.lt_succ_self j), same]
  · rw [duped k]
    have iff : k.val < j ↔ k.val < j + 1 := by omega
    simp only [iff]

/-- The loop of `dup_handles` is over. -/
theorem Duped.complete {j : Nat} (duped : s.Duped p j) (past : ¬j < PROC_FILES) :
    s.fds p = s.wanted p := by
  funext k
  rw [duped k, if_pos (by omega)]

/-- `task_from_proc`. -/
theorem Inv.taskFromProc (inv : s.Inv) {enough : Bool}
    (taken : s.step (.taskFromProc c enough) = some s') : s'.Inv := by
  simp only [step] at taken
  split at taken
  · rename_i stage
    have inside : (s.stage c).inExec = true := by rw [stage]; rfl
    have setUp := inv.setUp c
    simp only [SetUp, stage] at setUp
    split at taken <;> obtain rfl := Option.some.inj taken
    · refine inv.inside inside (.table rfl (inv.clean _))
        (fun _ => inv.alive c (alive_of_inExec inside)) ?_
      simp only [SetUp, update_self]
      exact setUp
    · refine inv.inside inside (.procFree s.sys _) (fun isAlive => ?_) ?_
      · simp [Stage.alive] at isAlive
      · simp only [SetUp, update_self]
  · simp at taken

/-- The store of the parent. -/
theorem Inv.storeParent (inv : s.Inv) (taken : s.step (.storeParent c) = some s') : s'.Inv := by
  simp only [step] at taken
  split at taken
  · rename_i stage
    obtain rfl := Option.some.inj taken
    have inside : (s.stage c).inExec = true := by rw [stage]; rfl
    have setUp := inv.setUp c
    simp only [SetUp, stage] at setUp
    have alive := inv.alive c (alive_of_inExec inside)
    refine inv.inside inside
      (.modify (.table rfl (inv.clean _)) (fun p => { p with parent := (s.maker c).map s.slot })
        fun _ => alive.2) (fun _ => ?_) ?_
    · rw [ProcTable.modify_proc, if_pos rfl]
      exact alive
    · simp only [SetUp, update_self]
      constructor
      · obtain ⟨kernel, process⟩ := inv.snapshot c inside
        simp only [ExecSystem.process, ProcTable.modify_proc, if_pos]
        cases maker : s.maker c with
        | none => exact (kernel maker).1.symm
        | some m => exact (process m maker).2.1.symm
      · intro k
        rw [if_neg (Nat.not_lt_zero _), ← congrFun setUp k, fds, fds, ProcFiles.kfd,
          ProcTable.modify_proc, if_pos rfl]
        rfl
  · simp at taken

/-- A step of the loop of `dup_handles` up to the result of `kdup`. -/
theorem Inv.dupStep (inv : s.Inv) {j : Nat} (stage : s.stage c = .dup j) :
    (s.dupStep c j).Inv := by
  have inside : (s.stage c).inExec = true := by rw [stage]; rfl
  have alive := inv.alive c (alive_of_inExec inside)
  obtain ⟨kernel, process⟩ := inv.snapshot c inside
  have setUp := inv.setUp c
  simp only [SetUp, stage] at setUp
  obtain ⟨parent, duped⟩ := setUp
  have refl : OnlyAt (s.slot c) s.sys s.sys := .table rfl (inv.clean _)
  rw [ExecSystem.dupStep]
  cases maker : s.maker c with
  | none =>
      refine inv.inside inside refl (fun _ => alive) ?_
      simp only [SetUp, update_self]
      refine ⟨parent, funext fun k => (duped k).trans ?_⟩
      rw [(kernel maker).2]
      exact ite_self _
  | some m =>
      have wanted := (process m maker).2.2
      simp only
      split
      · rename_i inTable
        split
        · rename_i isOpen
          have same : (s.sys.files.kdup (s.fds m ⟨j, inTable⟩)).1 < 0 ∨
              (s.sys.files.kdup (s.fds m ⟨j, inTable⟩)).1 = s.fds m ⟨j, inTable⟩ := by
            rw [Files.OpenFiles.kdup]
            split
            · exact .inr rfl
            · exact .inl (by change -Files.EINVAL < 0; decide)
          split
          · refine inv.inside inside (OnlyAt.trans ?_ (.procFree _ _)) (fun isAlive => ?_) ?_
            · exact .table rfl (inv.clean _)
            · simp [Stage.alive] at isAlive
            · simp only [SetUp, update_self]
          · rename_i positive
            refine inv.inside inside (.table rfl (inv.clean _)) (fun _ => alive) ?_
            simp only [SetUp, update_self]
            refine ⟨parent, duped, fun _ => (same.resolve_left positive).trans ?_⟩
            exact (congrFun wanted _).symm
        · rename_i closed
          refine inv.inside inside refl (fun _ => alive) ?_
          simp only [SetUp, update_self]
          refine ⟨parent, duped.succ inTable ?_⟩
          rw [duped ⟨j, inTable⟩, if_neg (lt_irrefl j), wanted]
          exact (not_not.mp closed).symm
      · rename_i past
        refine inv.inside inside refl (fun _ => alive) ?_
        simp only [SetUp, update_self]
        exact ⟨parent, duped.complete past⟩

/-- The store of a file that has been duplicated. -/
theorem Inv.storeFd (inv : s.Inv) (taken : s.step (.storeFd c) = some s') : s'.Inv := by
  simp only [step] at taken
  split at taken
  · rename_i j newfd stage
    split at taken
    · rename_i inTable
      obtain rfl := Option.some.inj taken
      have inside : (s.stage c).inExec = true := by rw [stage]; rfl
      have setUp := inv.setUp c
      simp only [SetUp, stage] at setUp
      obtain ⟨parent, duped, stored⟩ := setUp
      have files := FilesAt.setKfd s.sys (s.slot c) s.sys.files ⟨j, inTable⟩ newfd
      have alive := inv.alive c (alive_of_inExec inside)
      refine inv.inside inside (files.onlyAt (inv.clean _)) (fun _ => ?_) ?_
      · exact ⟨(files.same.pid _).trans_ne alive.1, (files.same.zombie _).trans alive.2⟩
      · simp only [SetUp, update_self]
        refine ⟨(files.same.parent _).trans parent, fun k => ?_⟩
        have after : (s.sys.setKfd (s.slot c) ⟨j, inTable⟩ newfd).kfd (s.slot c) k =
            if s.slot c = s.slot c ∧ k = ⟨j, inTable⟩ then newfd else s.fds c k :=
          Files.ProcFiles.setKfd_kfd newfd
        refine after.trans ?_
        by_cases next : k = ⟨j, inTable⟩
        · subst next
          rw [if_pos ⟨rfl, rfl⟩, if_pos (Nat.lt_succ_self j)]
          exact stored inTable
        · have ne : k.val ≠ j := fun same => next (Fin.ext same)
          have iff : k.val < j + 1 ↔ k.val < j := by omega
          rw [if_neg (fun both => next both.2)]
          simp only [iff]
          exact duped k
    · simp at taken
  · simp at taken

/-- One guarded step. -/
theorem Inv.step (inv : s.Inv) {action : ExecAction} (guarded : s.Guarded action)
    (taken : s.step action = some s') : s'.Inv := by
  obtain ⟨called, numbered⟩ := guarded
  cases action with
  | exec actor result =>
      have ready : ∀ m, actor = some m → s.stage m = .ready := by
        rintro m rfl
        exact called m rfl
      simp only [ExecSystem.step] at taken
      split at taken
      · split at taken
        · split at taken
          · obtain rfl := Option.some.inj taken
            exact inv.files _
          · split at taken <;> obtain rfl := Option.some.inj taken
            · exact inv.files _
            · have closed := inv.files
                ((s.sys.files.kopen result.found).2.1.kclose
                  (s.sys.files.kopen result.found).1 0).2.1
              exact closed.procAlloc ready numbered _
        · obtain rfl := Option.some.inj taken
          exact inv
      · simp at taken
  | taskFromProc child enough => exact inv.taskFromProc taken
  | storeParent child => exact inv.storeParent taken
  | kdup child =>
      simp only [ExecSystem.step] at taken
      split at taken
      · obtain rfl := Option.some.inj taken
        exact inv.dupStep ‹_›
      · simp at taken
  | storeFd child => exact inv.storeFd taken
  | sysOpen p path found =>
      obtain ⟨able, rfl⟩ := step_eq_some_of_canCall taken
      exact inv.call (called p rfl) (not_busy_of_canCall able) (.sysOpen s.sys _ path found)
  | sysClose p fd =>
      obtain ⟨able, rfl⟩ := step_eq_some_of_canCall taken
      exact inv.call (called p rfl) (not_busy_of_canCall able) (.sysClose s.sys _ fd)
  | sysDup p fd =>
      obtain ⟨able, rfl⟩ := step_eq_some_of_canCall taken
      exact inv.call (called p rfl) (not_busy_of_canCall able) (.sysDup s.sys _ fd)
  | other p =>
      obtain ⟨-, rfl⟩ := step_eq_some_of_canCall taken
      exact inv
  | exit p rc =>
      obtain ⟨able, rfl⟩ := step_eq_some_of_canCall taken
      exact inv.exit (called p rfl) (not_busy_of_canCall able) rc
  | wait p =>
      simp only [ExecSystem.step] at taken
      split at taken
      · obtain ⟨⟨pid, sys⟩, waited, rfl⟩ := Option.map_eq_some_iff.mp taken
        exact inv.wait waited
      · simp at taken

theorem start_inv (files : Files.OpenFiles) : (start files).Inv where
  alive p alive := by simp [start, Stage.alive] at alive
  apart p q alive := by simp [start, Stage.alive] at alive
  clean _ _ := rfl
  born p ne := absurd rfl ne
  snapshot p inside := by simp [start, Stage.inExec] at inside
  setUp p := by simp [SetUp, start]

/-- In every guarded run a process that `exec` is through with has its maker as its
parent, and its files are those of its maker at the time of `exec` with the changes of
its own calls. -/
theorem new_process_set_up {files : Files.OpenFiles}
    (reached : Reached (· = start files) (fun s a s' => s.step a = some s') Guarded s)
    (ready : s.stage p = .ready) :
    (s.process p).parent = s.caller p ∧ s.fds p = s.wanted p := by
  have inv : s.Inv := by
    refine reached.invariant Inv ?_ fun inv guarded taken => inv.step guarded taken
    rintro _ rfl
    exact start_inv files
  have setUp := inv.setUp p
  simp only [SetUp, ready] at setUp
  exact setUp

/-- A path to a regular file. -/
def program : PathResult where
  ino := 0
  statErr := 0
  stat := { stSize := 0, stBlksize := 0, stMode := Files.S_IFREG, stRdev := 0 }
  openRc := 0
  statErr_le := Files.noError_le

/-- The kernel makes process 0, which opens a file and begins to make process 1. -/
def openAndExec : List ExecAction :=
  [.exec none ⟨true, program, .ok 0, true⟩, .taskFromProc 0 true, .storeParent 0, .kdup 0,
    .sysOpen 0 true program, .exec (some 0) ⟨true, program, .ok 0, true⟩, .taskFromProc 1 true]

/-- The rest of `exec` for process 1, up to the store of the first file. -/
def parentAndFile : List ExecAction := [.storeParent 1, .kdup 1, .storeFd 1]

/-- The case of process 1, when `exec` is through with it and it has opened a file. -/
theorem new_process_set_up_second :
    ∃ s, runs step (start (.initial fun _ => Files.unused))
        (openAndExec ++ parentAndFile ++ List.replicate 8 (.kdup 1) ++
          [.sysOpen 1 true program]) = some s ∧
      s.stage 1 = .ready ∧ s.caller 1 = some 0 ∧ s.wanted 1 0 = 0 ∧ s.wanted 1 1 = 1 ∧
      (s.process 1).parent = s.caller 1 ∧ s.fds 1 = s.wanted 1 := by
  have along : Along step Guarded (start (.initial fun _ => Files.unused))
      (openAndExec ++ parentAndFile ++ List.replicate 8 (.kdup 1) ++
        [.sysOpen 1 true program]) := by
    decide +kernel
  have ran : (runs step (start (.initial fun _ => Files.unused))
      (openAndExec ++ parentAndFile ++ List.replicate 8 (.kdup 1) ++
        [.sysOpen 1 true program])).map
        (fun s => (s.stage 1, s.caller 1, s.wanted 1 0, s.wanted 1 1)) =
          some (.ready, some 0, 0, 1) := by
    decide +kernel
  obtain ⟨s, ran, values⟩ := Option.map_eq_some_iff.mp ran
  obtain ⟨ready, caller, first, second⟩ : _ ∧ _ ∧ _ ∧ _ := by
    simpa only [Prod.mk.injEq] using values
  exact ⟨s, ran, ready, caller, first, second,
    new_process_set_up (reached_of_runs rfl along ran) ready⟩

/-- Process 1 runs before the rest of `exec`: its parent and its first file are not
those of its maker.  It opens a file, which is number 0 in its table, and the rest of
`exec` overwrites that. -/
theorem new_process_runs_first :
    (runs step (start (.initial fun _ => Files.unused)) openAndExec).map
      (fun s => (s.canCall 1, s.caller 1, (s.process 1).parent, s.wanted 1 0, s.fds 1 0)) =
        some (true, some 0, none, 0, -1) ∧
    (runs step (start (.initial fun _ => Files.unused))
      (openAndExec ++ [.sysOpen 1 true program])).map (fun s => s.fds 1 0) = some 1 ∧
    (runs step (start (.initial fun _ => Files.unused))
      (openAndExec ++ [.sysOpen 1 true program] ++ parentAndFile)).map
        (fun s => (s.wanted 1 0, s.fds 1 0)) = some (1, 0) := by
  decide +kernel

end ExecSystem

end Pegasos.Kernel.Proc
