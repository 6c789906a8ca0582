import Pegasos.Kernel.Proc.Process
import Pegasos.Support.Transition

/-!
# Waiting for children and exiting

Processes exec, exit and wait in any order.  Making a process takes four steps, with
other processes running in between; the steps of `_exit` and of one round of `_wait`
that others can see are made with interrupts disabled.  The history records which
process every slot belongs to, who made it, how it exited and to whom that was
reported.
-/

namespace Pegasos.Kernel.Proc

open Pegasos.Support
open Function (update)

/-- Who calls: a process, or a task of the kernel. -/
abbrev Actor := Option Slot

/-- How far `exec` has come with the process in a slot: it has its pid, the rest of
`proc_alloc` is done, its task is runnable, or `exec` is through. -/
inductive Phase where
  | settled
  | allocated (maker : Actor)
  | cleared (maker : Actor)
  | started (maker : Actor)
  deriving DecidableEq, Repr

def Phase.maker : Phase → Option Actor
  | .settled => none
  | .allocated maker => some maker
  | .cleared maker => some maker
  | .started maker => some maker

/-- Where the task of a process is: outside of `_wait`, in its loop, or blocked there. -/
inductive Mode where
  | user
  | ready
  | blocked
  deriving DecidableEq, Repr

/-- What a slot is used for.  Processes are numbered in the order in which they are
made. -/
inductive Life where
  | free
  | made (id : Nat)
  | running (id : Nat) (mode : Mode)
  | exited (id : Nat)
  deriving DecidableEq, Repr

def Life.id : Life → Option Nat
  | .free => none
  | .made id => some id
  | .running id _ => some id
  | .exited id => some id

/-- `task_unblock` on the task of a process. -/
def Life.unblock : Life → Life
  | .running id .blocked => .running id .ready
  | life => life

/-- The tasks on the queue of a slot, if only its own process waits there. -/
def Life.waiters (slot : Slot) : Life → List Slot
  | .running _ .blocked => [slot]
  | _ => []

/-- The process table and the processes in its slots, with the history. -/
structure ProcSystem where
  table : ProcTable
  phase : Slot → Phase
  life : Slot → Life
  count : Nat
  creator : Nat → Option Nat
  pidOf : Nat → Int
  exitRc : Nat → Option Nat
  /-- The children that `_wait` has reported to a process, the last one first. -/
  reported : Nat → List Nat
  /-- What `_wait` has returned to a process, the last result first. -/
  results : Nat → List (Int × Nat)

/-- The steps of `exec` up to the pid, to the end of `proc_alloc`, to the runnable
task and to the end; `_exit`; and a round of `_wait`. -/
inductive ProcAction where
  | alloc (actor : Actor)
  | init (slot : Slot)
  | makeTask (slot : Slot) (image : Nat) (enough : Bool)
  | adopt (slot : Slot)
  | exit (slot : Slot) (rc : Int)
  | wait (slot : Slot)
  deriving DecidableEq, Repr

namespace ProcSystem

variable (sys : ProcSystem)

/-- The actor is inside of `exec`. -/
def Busy (actor : Actor) : Prop := ∃ i, (sys.phase i).maker = some actor

instance (actor : Actor) : Decidable (sys.Busy actor) :=
  inferInstanceAs (Decidable (∃ i, (sys.phase i).maker = some actor))

/-- The actor can call `exec`. -/
def CanExec : Actor → Bool
  | none => !sys.Busy none
  | some slot =>
      match sys.life slot with
      | .running _ .user => !sys.Busy (some slot)
      | _ => false

/-- The process that can go through the loop of `_wait`, for the first time or again. -/
def canWait (slot : Slot) : Option Nat :=
  match sys.life slot with
  | .running id .user => if sys.Busy (some slot) then none else some id
  | .running id .ready => some id
  | _ => none

/-- One step. -/
def step : ProcAction → Option ProcSystem
  | .alloc actor =>
      if sys.CanExec actor then
        match sys.table.procAllocPid with
        | none => some sys
        | some (i, table) => some { sys with
            table := table
            phase := update sys.phase i (.allocated actor)
            life := update sys.life i (.made sys.count)
            count := sys.count + 1
            pidOf := update sys.pidOf sys.count (table.proc i).pid }
      else none
  | .init slot =>
      match sys.phase slot with
      | .allocated maker => some { sys with
          table := sys.table.procAllocInit slot
          phase := update sys.phase slot (.cleared maker) }
      | _ => none
  | .makeTask slot image enough =>
      match sys.phase slot, sys.life slot with
      | .cleared maker, .made id =>
          let table := sys.table.modify slot fun p => { p with image := some image }
          if enough then some { sys with
            table := table
            phase := update sys.phase slot (.started maker)
            life := update sys.life slot (.running id .user)
            creator := update sys.creator id (maker.bind fun i => (sys.life i).id) }
          else some { sys with
            table := table.procFree slot
            phase := update sys.phase slot .settled
            life := update sys.life slot .free }
      | _, _ => none
  | .adopt slot =>
      match sys.phase slot with
      | .started maker => some { sys with
          table := sys.table.adopt slot maker
          phase := update sys.phase slot .settled }
      | _ => none
  | .exit slot rc =>
      match sys.life slot with
      | .running id .user =>
          if sys.Busy (some slot) then none
          else
            let (table, woken) := sys.table.exit slot rc
            let life := update sys.life slot
              (if (sys.table.proc slot).parent = none then .free else .exited id)
            some { sys with
              table := table
              life := woken.elim life fun task => update life task (life task).unblock
              exitRc := update sys.exitRc id (some (rc % 0x100).toNat) }
      | _ => none
  | .wait slot =>
      (sys.canWait slot).map fun id =>
        match sys.table.wait slot with
        | (table, some (i, pid, status)) => { sys with
            table := table
            life := update (update sys.life i .free) slot (.running id .user)
            reported := update sys.reported id ((sys.life i).id.toList ++ sys.reported id)
            results := update sys.results id ((pid, status) :: sys.results id) }
        | (table, none) => { sys with
            table := table
            life := update sys.life slot (.running id .blocked) }

/-- Before any process has been made. -/
def start : ProcSystem where
  table := .initial
  phase := fun _ => .settled
  life := fun _ => .free
  count := 0
  creator := fun _ => none
  pidOf := fun _ => 0
  exitRc := fun _ => none
  reported := fun _ => []
  results := fun _ => []

/-- The condition under which the protocol works: the next pid is not 0 and the slot
that is allocated is not the parent of a process that is left; `proc_alloc` clears
neither a waiting task nor a zombie in the first slot; a process does not exit
before `exec` has stored its parent; and only the process in the first slot has to
wait. -/
def Guarded : ProcAction → Prop
  | .alloc _ => sys.table.nextpid ≠ 0 ∧ ∀ i, sys.table.findFree = some i → ∀ j,
      sys.phase j = .settled → (sys.table.proc j).pid ≠ 0 → (sys.table.proc j).parent ≠ some i
  | .init _ => (sys.table.proc 0).waitq = [] ∧ (sys.table.proc 0).zombie = false
  | .exit slot _ => sys.phase slot = .settled
  | .wait slot => sys.table.findZombie slot = none → slot = 0
  | _ => True

instance : (action : ProcAction) → Decidable (sys.Guarded action)
  | .alloc _ => inferInstanceAs (Decidable (_ ∧ ∀ i, sys.table.findFree = some i → ∀ j,
      sys.phase j = .settled → (sys.table.proc j).pid ≠ 0 → (sys.table.proc j).parent ≠ some i))
  | .init _ => inferInstanceAs (Decidable (_ ∧ _))
  | .makeTask _ _ _ => inferInstanceAs (Decidable True)
  | .adopt _ => inferInstanceAs (Decidable True)
  | .exit _ _ => inferInstanceAs (Decidable (_ = _))
  | .wait _ => inferInstanceAs (Decidable (_ → _))

/-! ## What the protocol promises -/

/-- The processes that a process has made by `exec`. -/
def children (id : Nat) : List Nat :=
  (List.range sys.count).filter fun child => sys.creator child = some id

/-- When a child exits, its parent is not, or no longer, blocked in `_wait`. -/
def WakesParent : Prop :=
  ∀ slot rc sys' child parent i, sys.Guarded (.exit slot rc) →
    sys.step (.exit slot rc) = some sys' → (sys.life slot).id = some child →
    sys.creator child = some parent → sys'.life i ≠ .running parent .blocked

/-- Everything that `_wait` has returned is the pid and the exit code of a child of the
caller that has exited. -/
def ReportsChildren : Prop :=
  ∀ id, List.Forall₂ (fun (result : Int × Nat) child =>
    child ∈ sys.children id ∧ ∃ rc, sys.exitRc child = some rc ∧
      result = (sys.pidOf child, WIFEXITED ||| rc)) (sys.results id) (sys.reported id)

/-- No child is reported twice, and a process that has waited once per child has been
told of every child. -/
def ReportsOnce : Prop :=
  ∀ id, (sys.reported id).Nodup ∧
    ((sys.results id).length = (sys.children id).length →
      (sys.reported id).Perm (sys.children id))

/-- While an exited child of a running process has not been reported, the process is
not blocked, and a call of `_wait` returns a result. -/
def ReportsReady : Prop :=
  ∀ id slot mode child, sys.life slot = .running id mode → child ∈ sys.children id →
    sys.exitRc child ≠ none → child ∉ sys.reported id →
    mode ≠ .blocked ∧ ∀ sys', sys.step (.wait slot) = some sys' →
      (sys'.results id).length = (sys.results id).length + 1

/-! ## The invariant -/

/-- The parent of a process is the slot of the one that made it, unless that has gone. -/
def ParentOk (i : Slot) (id : Nat) : Prop :=
  match (sys.table.proc i).parent with
  | none => sys.creator id = none
  | some slot => ∃ p, sys.creator id = some p ∧ (∀ q, (sys.life slot).id = some q → q = p) ∧
      ∀ j, (sys.life j).id = some p → j = slot

/-- The entry of a slot fits what the slot is used for. -/
def SlotOk (i : Slot) : Prop :=
  match sys.life i with
  | .free => (sys.table.proc i).pid = 0 ∧ (sys.table.proc i).zombie = false ∧
      sys.phase i = .settled
  | .made id => (sys.table.proc i).pid ≠ 0 ∧ sys.pidOf id = (sys.table.proc i).pid ∧
      (sys.table.proc i).zombie = false ∧ sys.exitRc id = none ∧
      ∃ maker, sys.phase i = .allocated maker ∨ sys.phase i = .cleared maker
  | .running id _ => (sys.table.proc i).pid ≠ 0 ∧ sys.pidOf id = (sys.table.proc i).pid ∧
      (sys.table.proc i).zombie = false ∧ sys.exitRc id = none ∧
      (sys.phase i = .settled ∧ sys.ParentOk i id ∨
        ∃ maker, sys.phase i = .started maker ∧
          sys.creator id = maker.bind fun slot => (sys.life slot).id)
  | .exited id => (sys.table.proc i).pid ≠ 0 ∧ sys.pidOf id = (sys.table.proc i).pid ∧
      (sys.table.proc i).zombie = true ∧ sys.exitRc id = some (sys.table.proc i).rc ∧
      sys.phase i = .settled ∧ sys.ParentOk i id

/-- The invariant of guarded runs. -/
structure Inv (sys : ProcSystem) : Prop where
  slots : ∀ i, sys.SlotOk i
  unique : ∀ i j id, (sys.life i).id = some id → (sys.life j).id = some id → i = j
  idLt : ∀ i id, (sys.life i).id = some id → id < sys.count
  maker : ∀ i slot, (sys.phase i).maker = some (some slot) → ∃ q, sys.life slot = .running q .user
  waitq : ∀ i, (sys.table.proc i).waitq = (sys.life i).waiters i
  first : ∀ i id, sys.life i = .running id .blocked → i = 0
  asleep : ∀ id, sys.life 0 = .running id .blocked → sys.table.findZombie 0 = none
  creatorLt : ∀ id p, sys.creator id = some p → id < sys.count ∧ p < sys.count
  exitLt : ∀ id rc, sys.exitRc id = some rc → id < sys.count
  reported : ∀ p id, id ∈ sys.reported p → ∀ i, (sys.life i).id ≠ some id
  once : ∀ p, (sys.reported p).Nodup
  results : ∀ p, List.Forall₂ (fun (result : Int × Nat) child =>
    sys.creator child = some p ∧ ∃ rc, sys.exitRc child = some rc ∧
      result = (sys.pidOf child, WIFEXITED ||| rc)) (sys.results p) (sys.reported p)
  unreported : ∀ id p rc, sys.creator id = some p → sys.exitRc id = some rc →
    id ∈ sys.reported p ∨ ∃ i, sys.life i = .exited id

theorem start_inv : start.Inv := by
  constructor <;> simp [start, ProcTable.initial, SlotOk, Life.id, Life.waiters, Phase.maker]

/-! ## The steps -/

variable {sys} {sys' : ProcSystem} {slot i : Slot} {actor : Actor} {id : Nat}

/-- A step keeps what holds of a slot if it changes neither the slot nor its history,
frees or keeps its parent and keeps its maker. -/
theorem SlotOk.frame (ok : sys.SlotOk i)
    (creatorLt : ∀ id p, sys.creator id = some p → id < sys.count ∧ p < sys.count)
    (sameLife : sys'.life i = sys.life i)
    (samePhase : sys'.phase i = sys.phase i)
    (samePid : (sys'.table.proc i).pid = (sys.table.proc i).pid)
    (sameZombie : (sys'.table.proc i).zombie = (sys.table.proc i).zombie)
    (sameParent : (sys'.table.proc i).parent = (sys.table.proc i).parent)
    (sameRc : (sys'.table.proc i).rc = (sys.table.proc i).rc)
    (history : ∀ id, (sys.life i).id = some id → sys'.pidOf id = sys.pidOf id ∧
      sys'.exitRc id = sys.exitRc id ∧ sys'.creator id = sys.creator id)
    (parents : ∀ slot, sys.phase i = .settled → (sys.table.proc i).pid ≠ 0 →
      (sys.table.proc i).parent = some slot → ∀ q, (sys'.life slot).id = some q →
        (sys.life slot).id = some q)
    (old : ∀ j p, p < sys.count → (sys'.life j).id = some p → (sys.life j).id = some p)
    (makers : ∀ slot, (sys.phase i).maker = some (some slot) →
      (sys'.life slot).id = (sys.life slot).id) : sys'.SlotOk i := by
  have parentOk : ∀ {id}, (sys.life i).id = some id → sys.phase i = .settled →
      (sys.table.proc i).pid ≠ 0 → sys.ParentOk i id → sys'.ParentOk i id := by
    intro id isId settled used
    simp only [ParentOk, sameParent, (history id isId).2.2]
    cases parent : (sys.table.proc i).parent with
    | none => exact fun same => same
    | some slot =>
        rintro ⟨p, creator, only, place⟩
        exact ⟨p, creator, fun q isNow => only q (parents slot settled used parent q isNow),
          fun j isNow => place j (old j p (creatorLt id p creator).2 isNow)⟩
  cases life : sys.life i with
  | free => simpa only [SlotOk, sameLife, life, samePid, sameZombie, samePhase] using ok
  | made id =>
      obtain ⟨samePidOf, sameExit, -⟩ := history id (by rw [life]; rfl)
      simpa only [SlotOk, sameLife, life, samePid, sameZombie, samePhase, samePidOf, sameExit] using ok
  | running id mode =>
      have isId : (sys.life i).id = some id := by rw [life]; rfl
      obtain ⟨samePidOf, sameExit, sameCreator⟩ := history id isId
      simp only [SlotOk, sameLife, life, samePid, sameZombie, samePhase, samePidOf, sameExit,
        sameCreator] at ok ⊢
      refine ⟨ok.1, ok.2.1, ok.2.2.1, ok.2.2.2.1, ok.2.2.2.2.imp ?_ ?_⟩
      · rintro ⟨settled, parent⟩
        exact ⟨settled, parentOk isId settled ok.1 parent⟩
      · rintro ⟨maker, started, creator⟩
        refine ⟨maker, started, creator.trans ?_⟩
        cases maker with
        | none => rfl
        | some slot =>
            have same := makers slot (by rw [started]; rfl)
            exact same.symm
  | exited id =>
      have isId : (sys.life i).id = some id := by rw [life]; rfl
      obtain ⟨samePidOf, sameExit, -⟩ := history id isId
      simp only [SlotOk, sameLife, life, samePid, sameZombie, samePhase, samePidOf, sameExit,
        sameRc] at ok ⊢
      exact ⟨ok.1, ok.2.1, ok.2.2.1, ok.2.2.2.1, ok.2.2.2.2.1,
        parentOk isId ok.2.2.2.2.1 ok.1 ok.2.2.2.2.2⟩

theorem Inv.free_of_pid (inv : sys.Inv) (unused : (sys.table.proc i).pid = 0) :
    sys.life i = .free := by
  have ok := inv.slots i
  cases life : sys.life i with
  | free => rfl
  | made id => exact absurd unused (by simp only [SlotOk, life] at ok; exact ok.1)
  | running id mode => exact absurd unused (by simp only [SlotOk, life] at ok; exact ok.1)
  | exited id => exact absurd unused (by simp only [SlotOk, life] at ok; exact ok.1)

theorem Inv.reported_child (inv : sys.Inv) {p : Nat} (member : id ∈ sys.reported p) :
    sys.creator id = some p ∧ ∃ rc, sys.exitRc id = some rc := by
  obtain ⟨index, bound, rfl⟩ := List.getElem_of_mem member
  have results := inv.results p
  have same := results.length_eq
  obtain ⟨creator, rc, exited, -⟩ := results.get (by omega) bound
  exact ⟨creator, rc, exited⟩

/-- The results stay right as long as the history of the reported children stays. -/
theorem Inv.results_mono (inv : sys.Inv) {exitRc : Nat → Option Nat} {p : Nat}
    (same : ∀ child rc, child ∈ sys.reported p → sys.exitRc child = some rc →
      exitRc child = some rc) :
    List.Forall₂ (fun (result : Int × Nat) child =>
      sys.creator child = some p ∧ ∃ rc, exitRc child = some rc ∧
        result = (sys.pidOf child, WIFEXITED ||| rc)) (sys.results p) (sys.reported p) := by
  refine List.forall₂_iff_get.mpr ⟨(inv.results p).length_eq, fun k bound bound' => ?_⟩
  obtain ⟨creator, rc, exited, result⟩ := (inv.results p).get bound bound'
  exact ⟨creator, rc, same _ rc (List.get_mem _ _) exited, result⟩

theorem canExec_spec (can : sys.CanExec actor = true) {slot : Slot} (isSlot : actor = some slot) :
    ∃ q, sys.life slot = .running q .user := by
  subst isSlot
  simp only [CanExec] at can
  split at can
  · rename_i id life
    exact ⟨id, life⟩
  · simp at can

/-- The numbers of the processes stay distinct when a slot is freed, keeps its process
or gets a new one. -/
theorem Inv.unique_update (inv : sys.Inv) {life : Life}
    (fresh : ∀ id, life.id = some id → (sys.life i).id = some id ∨ id = sys.count) :
    ∀ j k id, (update sys.life i life j).id = some id → (update sys.life i life k).id = some id →
      j = k := by
  have apart : ∀ j id, j ≠ i → (sys.life j).id = some id → life.id ≠ some id := by
    intro j id ne isId isNew
    rcases fresh id isNew with same | new
    · exact ne (inv.unique j i id isId same)
    · exact (inv.idLt j id isId).ne new
  intro j k id isId isId'
  by_cases first : j = i <;> by_cases second : k = i
  · rw [first, second]
  · rw [first, Function.update_self] at isId
    rw [Function.update_of_ne second] at isId'
    exact absurd isId (apart k id second isId')
  · rw [second, Function.update_self] at isId'
    rw [Function.update_of_ne first] at isId
    exact absurd isId' (apart j id first isId)
  · rw [Function.update_of_ne first] at isId
    rw [Function.update_of_ne second] at isId'
    exact inv.unique j k id isId isId'

/-- A free slot gets a process that nothing refers to. -/
theorem Inv.alloc_step (inv : sys.Inv) (guarded : sys.Guarded (.alloc actor))
    (taken : sys.step (.alloc actor) = some sys') : sys'.Inv := by
  simp only [step, Option.ite_none_right_eq_some] at taken
  obtain ⟨can, taken⟩ := taken
  cases found : sys.table.findFree with
  | none =>
      rw [ProcTable.procAllocPid, found] at taken
      obtain rfl := Option.some.inj taken
      exact inv
  | some i =>
      rw [ProcTable.procAllocPid_proc found] at taken
      obtain rfl := Option.some.inj taken
      clear taken
      have life := inv.free_of_pid (ProcTable.findFree_some found)
      obtain ⟨positive, unnamed⟩ := guarded
      have unnamed := unnamed i found
      have notFree : ∀ {j}, sys.life j ≠ .free → j ≠ i := by
        rintro j used rfl
        exact used life
      have zombie : (sys.table.proc i).zombie = false := by
        have ok := inv.slots i
        simp only [SlotOk, life] at ok
        exact ok.2.1
      refine {
        slots := fun j => ?_
        unique := fun j k id isId isId' => ?_
        idLt := fun j id isId => ?_
        maker := fun j slot isMaker => ?_
        waitq := fun j => ?_
        first := fun j id isBlocked => ?_
        asleep := fun id isBlocked => ?_
        creatorLt := fun id p creator => (inv.creatorLt id p creator).imp Nat.lt_succ_of_lt
          Nat.lt_succ_of_lt
        exitLt := fun id rc exited => Nat.lt_succ_of_lt (inv.exitLt id rc exited)
        reported := fun p id member j isId => ?_
        once := inv.once
        results := fun p => ?_
        unreported := fun id p rc creator exited => ?_ }
      · by_cases same : j = i
        · subst same
          have unexited : sys.exitRc sys.count = none :=
            Option.eq_none_iff_forall_ne_some.mpr fun rc exited =>
              lt_irrefl _ (inv.exitLt _ rc exited)
          simp [SlotOk, ProcTable.modify_proc, positive, zombie, unexited]
        · refine (inv.slots j).frame inv.creatorLt (Function.update_of_ne same _ _)
            (Function.update_of_ne same _ _) ?_ ?_ ?_ ?_ (fun id isId => ⟨?_, rfl, rfl⟩)
            (fun slot settled used isParent q isNow => ?_) (fun k p isOld isNow => ?_)
            (fun slot isMaker => ?_)
          · simp [ProcTable.modify_proc, same]
          · simp [ProcTable.modify_proc, same]
          · simp [ProcTable.modify_proc, same]
          · simp [ProcTable.modify_proc, same]
          · exact Function.update_of_ne (inv.idLt j id isId).ne _ _
          · have other : slot ≠ i := by
              rintro rfl
              exact unnamed j settled used isParent
            simpa [other] using isNow
          · by_cases new : k = i
            · subst new
              simp only [Function.update_self, Life.id, Option.some.injEq] at isNow
              exact absurd isNow isOld.ne'
            · simpa [new] using isNow
          · obtain ⟨q, running⟩ := inv.maker j slot isMaker
            have other : slot ≠ i := notFree (by simp [running])
            simp [other]
      · refine inv.unique_update (fun id isNew => .inr ?_) j k id isId isId'
        exact (Option.some.inj (isNew : some sys.count = some id)).symm
      · dsimp only at isId ⊢
        by_cases same : j = i
        · subst same
          rw [Function.update_self] at isId
          exact Nat.lt_succ_of_le (Option.some.inj isId).ge
        · rw [Function.update_of_ne same] at isId
          exact Nat.lt_succ_of_lt (inv.idLt j id isId)
      · dsimp only at isMaker ⊢
        have runner : ∃ q, sys.life slot = .running q .user := by
          by_cases same : j = i
          · subst same
            rw [Function.update_self] at isMaker
            exact canExec_spec can (Option.some.inj isMaker)
          · rw [Function.update_of_ne same] at isMaker
            exact inv.maker j slot isMaker
        obtain ⟨q, running⟩ := runner
        exact ⟨q, by rw [Function.update_of_ne (notFree (by simp [running])), running]⟩
      · have waitq := inv.waitq j
        dsimp only
        by_cases same : j = i
        · subst same
          simpa [ProcTable.modify_proc, life, Life.waiters] using waitq
        · simpa [ProcTable.modify_proc, same] using waitq
      · dsimp only at isBlocked
        have ne : j ≠ i := by
          rintro rfl
          simp at isBlocked
        rw [Function.update_of_ne ne] at isBlocked
        exact inv.first j id isBlocked
      · dsimp only at isBlocked ⊢
        have ne : (0 : Slot) ≠ i := by
          rintro rfl
          simp at isBlocked
        rw [Function.update_of_ne ne] at isBlocked
        have asleep := ProcTable.findZombie_none.mp (inv.asleep id isBlocked)
        refine ProcTable.findZombie_none.mpr fun j used isZombie => ?_
        have other : j ≠ i := by
          rintro rfl
          simp [ProcTable.modify_proc, zombie] at isZombie
        simp only [ProcTable.modify_proc, other, if_false] at used isZombie ⊢
        exact asleep j used isZombie
      · dsimp only at isId member
        have old := (inv.creatorLt id p (inv.reported_child member).1).1
        by_cases same : j = i
        · subst same
          rw [Function.update_self] at isId
          exact old.ne (Option.some.inj isId).symm
        · rw [Function.update_of_ne same] at isId
          exact inv.reported p id member j isId
      · refine (inv.results p).imp fun result child waited => ?_
        obtain ⟨creator, rc, exited, same⟩ := waited
        refine ⟨creator, rc, exited, ?_⟩
        simp only [Function.update_of_ne (inv.creatorLt child p creator).1.ne, same]
      · refine (inv.unreported id p rc creator exited).imp_right fun left => ?_
        obtain ⟨j, isExited⟩ := left
        refine ⟨j, ?_⟩
        simp only [Function.update_of_ne (notFree (j := j) (by simp [isExited])), isExited]

/-- The files and the image of a process play no part in the invariant. -/
theorem Inv.congr (inv : sys.Inv) {table : ProcTable}
    (same : ∀ j, (table.proc j).pid = (sys.table.proc j).pid ∧
      (table.proc j).parent = (sys.table.proc j).parent ∧
      (table.proc j).waitq = (sys.table.proc j).waitq ∧
      (table.proc j).zombie = (sys.table.proc j).zombie ∧
      (table.proc j).rc = (sys.table.proc j).rc) : { sys with table := table }.Inv := by
  refine { inv with
    slots := fun j => ?_
    waitq := fun j => (same j).2.2.1.trans (inv.waitq j)
    asleep := fun id isBlocked => ?_ }
  · obtain ⟨pid, parent, -, zombie, rc⟩ := same j
    exact (inv.slots j).frame inv.creatorLt rfl rfl pid zombie parent rc
      (fun _ _ => ⟨rfl, rfl, rfl⟩) (fun _ _ _ _ _ isId => isId) (fun _ _ _ isId => isId)
      fun _ _ => rfl
  · have asleep := ProcTable.findZombie_none.mp (inv.asleep id isBlocked)
    refine ProcTable.findZombie_none.mpr fun j => ?_
    obtain ⟨pid, parent, -, zombie, -⟩ := same j
    simp only [pid, zombie, parent]
    exact asleep j

theorem Inv.made_of_phase (inv : sys.Inv) {maker : Actor}
    (making : sys.phase i = .allocated maker ∨ sys.phase i = .cleared maker) :
    ∃ id, sys.life i = .made id := by
  have ok := inv.slots i
  cases life : sys.life i with
  | free => simp_all [SlotOk]
  | made id => exact ⟨id, rfl⟩
  | running id mode => rcases making with phase | phase <;> simp [SlotOk, life, phase] at ok
  | exited id => simp_all [SlotOk]

/-- The makers of processes run while the phase of one slot changes. -/
theorem Inv.maker_update (inv : sys.Inv) {phase : Phase}
    (runs : ∀ slot, phase.maker = some (some slot) → ∃ q, sys.life slot = .running q .user) :
    ∀ j slot, (update sys.phase i phase j).maker = some (some slot) →
      ∃ q, sys.life slot = .running q .user := by
  intro j slot isMaker
  by_cases same : j = i
  · subst same
    rw [Function.update_self] at isMaker
    exact runs slot isMaker
  · rw [Function.update_of_ne same] at isMaker
    exact inv.maker j slot isMaker

/-- The rest of `proc_alloc` when the first slot has neither a waiter nor a zombie. -/
theorem Inv.init_step (inv : sys.Inv) (guarded : sys.Guarded (.init slot))
    (taken : sys.step (.init slot) = some sys') : sys'.Inv := by
  obtain ⟨noWaiter, noZombie⟩ := guarded
  cases phase : sys.phase slot with
  | allocated maker =>
      simp only [step, phase, Option.some.injEq] at taken
      subst taken
      have kept : { sys with table := sys.table.procAllocInit slot }.Inv := inv.congr fun j => by
        rw [ProcTable.procAllocInit_proc]
        by_cases first : j = 0
        · subst first
          simp [noWaiter, noZombie]
        · simp [first]
      obtain ⟨id, life⟩ := inv.made_of_phase (.inl phase)
      have ok := kept.slots slot
      refine { kept with
        slots := fun j => ?_
        maker := kept.maker_update fun actor isMaker =>
          kept.maker slot actor (by rw [phase]; exact isMaker) }
      by_cases same : j = slot
      · subst same
        simp only [SlotOk, life, phase] at ok
        simp only [SlotOk, life, Function.update_self]
        exact ⟨ok.1, ok.2.1, ok.2.2.1, ok.2.2.2.1, maker, .inr rfl⟩
      · exact (kept.slots j).frame kept.creatorLt rfl (Function.update_of_ne same _ _) rfl rfl rfl
          rfl (fun _ _ => ⟨rfl, rfl, rfl⟩) (fun _ _ _ _ _ isId => isId) (fun _ _ _ isId => isId)
          fun _ _ => rfl
  | settled => simp [step, phase] at taken
  | cleared maker => simp [step, phase] at taken
  | started maker => simp [step, phase] at taken

theorem id_update {life : Life} (same : life.id = (sys.life slot).id) (j : Slot) :
    (update sys.life slot life j).id = (sys.life j).id := by
  by_cases here : j = slot
  · rw [here, Function.update_self, same]
  · rw [Function.update_of_ne here]

/-- The task of a process is put on its run queue. -/
theorem Inv.start_task (inv : sys.Inv) {maker : Actor} (phase : sys.phase slot = .cleared maker)
    (life : sys.life slot = .made id) :
    { sys with
      phase := update sys.phase slot (.started maker)
      life := update sys.life slot (.running id .user)
      creator := update sys.creator id (maker.bind fun i => (sys.life i).id) }.Inv := by
  have sameId := id_update (show (Life.running id .user).id = (sys.life slot).id by rw [life]; rfl)
  have isHere : (sys.life slot).id = some id := by rw [life]; rfl
  have ok := inv.slots slot
  simp only [SlotOk, life] at ok
  obtain ⟨used, pidOf, noZombie, notExited, -⟩ := ok
  have away : ∀ {j}, sys.life j ≠ .made id → j ≠ slot := by
    rintro j other rfl
    exact other life
  have runs : ∀ actor, maker = some actor → ∃ q, sys.life actor = .running q .user :=
    fun actor isActor => inv.maker slot actor (by rw [phase, isActor]; rfl)
  have blockedBefore : ∀ {j other}, update sys.life slot (.running id .user) j =
      .running other .blocked → sys.life j = .running other .blocked := by
    intro j other isBlocked
    have ne : j ≠ slot := by
      rintro rfl
      simp at isBlocked
    rwa [Function.update_of_ne ne] at isBlocked
  have stays : ∀ {child} rc, sys.exitRc child = some rc → child ≠ id := by
    rintro child rc exited rfl
    rw [notExited] at exited
    simp at exited
  refine { inv with
    slots := fun j => ?_
    unique := fun j k other isId isId' => inv.unique j k other (by rwa [← sameId])
      (by rwa [← sameId])
    idLt := fun j other isId => inv.idLt j other (by rwa [← sameId])
    maker := fun j actor isMaker => ?_
    waitq := fun j => ?_
    first := fun j other isBlocked => inv.first j other (blockedBefore isBlocked)
    asleep := fun other isBlocked => inv.asleep other (blockedBefore isBlocked)
    creatorLt := fun child p creator => ?_
    reported := fun p child member j isId => inv.reported p child member j (by rwa [← sameId])
    results := fun p => (inv.results p).imp fun result child ⟨creator, rc, exited, same⟩ =>
      ⟨(Function.update_of_ne (stays rc exited) _ _).trans creator, rc, exited, same⟩
    unreported := fun child p rc creator exited => ?_ }
  · by_cases here : j = slot
    · subst here
      simp only [SlotOk, Function.update_self, reduceCtorEq, false_and, false_or]
      refine ⟨used, pidOf, noZombie, notExited, maker, rfl, ?_⟩
      simp only [sameId]
    · refine (inv.slots j).frame inv.creatorLt (Function.update_of_ne here _ _)
        (Function.update_of_ne here _ _) rfl rfl rfl rfl (fun other isId => ⟨rfl, rfl, ?_⟩)
        (fun _ _ _ _ _ isNow => by rwa [← sameId]) (fun _ _ _ isNow => by rwa [← sameId])
        fun _ _ => sameId _
      refine Function.update_of_ne (fun same => here ?_) _ _
      exact inv.unique j slot id (same ▸ isId) isHere
  · obtain ⟨q, running⟩ : ∃ q, sys.life actor = .running q .user := by
      refine inv.maker_update (fun actor isMaker => runs actor ?_) j actor isMaker
      exact Option.some.inj isMaker
    exact ⟨q, (Function.update_of_ne (away (by simp [running])) _ _).trans running⟩
  · have waitq := inv.waitq j
    by_cases here : j = slot
    · subst here
      simpa [life, Life.waiters] using waitq
    · simpa [here] using waitq
  · by_cases new : child = id
    · subst new
      simp only [Function.update_self] at creator
      obtain ⟨actor, isActor, isId⟩ := Option.bind_eq_some_iff.mp creator
      exact ⟨inv.idLt slot child isHere, inv.idLt actor p isId⟩
    · simp only [Function.update_of_ne new] at creator
      exact inv.creatorLt child p creator
  · simp only [Function.update_of_ne (stays rc exited)] at creator
    refine (inv.unreported child p rc creator exited).imp_right fun ⟨j, isExited⟩ => ⟨j, ?_⟩
    exact (Function.update_of_ne (away (by simp [isExited])) _ _).trans isExited

/-- A slot is freed whose process nobody waits for, or has just been told of. -/
theorem Inv.release (inv : sys.Inv) (idle : (sys.life slot).waiters slot = [])
    (notMaker : ∀ j, (sys.phase j).maker ≠ some (some slot)) {exitRc : Nat → Option Nat}
    {reported : Nat → List Nat} {results : Nat → List (Int × Nat)}
    (sameExit : ∀ j id, j ≠ slot → (sys.life j).id = some id → exitRc id = sys.exitRc id)
    (exitLt : ∀ id rc, exitRc id = some rc → id < sys.count)
    (gone : ∀ p id, id ∈ reported p → ∀ j, j ≠ slot → (sys.life j).id ≠ some id)
    (once : ∀ p, (reported p).Nodup)
    (told : ∀ p, List.Forall₂ (fun (result : Int × Nat) child =>
      sys.creator child = some p ∧ ∃ rc, exitRc child = some rc ∧
        result = (sys.pidOf child, WIFEXITED ||| rc)) (results p) (reported p))
    (unreported : ∀ id p rc, sys.creator id = some p → exitRc id = some rc →
      id ∈ reported p ∨ ∃ j, j ≠ slot ∧ sys.life j = .exited id) :
    { sys with
      table := sys.table.procFree slot
      phase := update sys.phase slot .settled
      life := update sys.life slot .free
      exitRc := exitRc
      reported := reported
      results := results }.Inv := by
  have before : ∀ {j id}, (update sys.life slot .free j).id = some id →
      j ≠ slot ∧ (sys.life j).id = some id := by
    intro j id isId
    have ne : j ≠ slot := by
      rintro rfl
      simp [Life.id] at isId
    rw [Function.update_of_ne ne] at isId
    exact ⟨ne, isId⟩
  have blockedBefore : ∀ {j id}, update sys.life slot .free j = .running id .blocked →
      sys.life j = .running id .blocked := by
    intro j id isBlocked
    have ne : j ≠ slot := by
      rintro rfl
      simp at isBlocked
    rwa [Function.update_of_ne ne] at isBlocked
  refine {
    slots := fun j => ?_
    unique := inv.unique_update fun id isNew => by simp [Life.id] at isNew
    idLt := fun j id isId => inv.idLt j id (before isId).2
    maker := fun j actor isMaker => ?_
    waitq := fun j => ?_
    first := fun j id isBlocked => inv.first j id (blockedBefore isBlocked)
    asleep := fun id isBlocked => ?_
    creatorLt := inv.creatorLt
    exitLt := exitLt
    reported := fun p id member j isId => gone p id member j (before isId).1 (before isId).2
    once := once
    results := told
    unreported := fun id p rc creator exited => ?_ }
  · by_cases here : j = slot
    · subst here
      simp [SlotOk, ProcTable.procFree_proc]
    · refine (inv.slots j).frame inv.creatorLt (Function.update_of_ne here _ _)
        (Function.update_of_ne here _ _) ?_ ?_ ?_ ?_ (fun id isId => ⟨rfl, sameExit j id here isId, rfl⟩)
        (fun _ _ _ _ _ isNow => (before isNow).2) (fun _ _ _ isNow => (before isNow).2)
        fun actor isMaker => ?_
      · simp [ProcTable.procFree_proc, here]
      · simp [ProcTable.procFree_proc, here]
      · simp [ProcTable.procFree_proc]
      · simp [ProcTable.procFree_proc]
      · have ne : actor ≠ slot := by
          rintro rfl
          exact notMaker j isMaker
        simp only [Function.update_of_ne ne]
  · obtain ⟨q, running⟩ := inv.maker_update (show ∀ s, Phase.settled.maker = some (some s) → _ by
      simp [Phase.maker]) j actor isMaker
    have isMaker' : ∃ k, (sys.phase k).maker = some (some actor) := by
      by_cases here : j = slot
      · subst here
        simp [Phase.maker] at isMaker
      · exact ⟨j, by simpa [here] using isMaker⟩
    obtain ⟨k, isMaker'⟩ := isMaker'
    have ne : actor ≠ slot := by
      rintro rfl
      exact notMaker k isMaker'
    exact ⟨q, (Function.update_of_ne ne _ _).trans running⟩
  · have waitq := inv.waitq j
    by_cases here : j = slot
    · subst here
      simp only [ProcTable.procFree_proc, Function.update_self]
      exact waitq.trans idle
    · simpa [ProcTable.procFree_proc, here] using waitq
  · have asleep := ProcTable.findZombie_none.mp (inv.asleep id (blockedBefore isBlocked))
    refine ProcTable.findZombie_none.mpr fun j => ?_
    by_cases here : j = slot
    · simp [ProcTable.procFree_proc, here]
    · simpa [ProcTable.procFree_proc, here] using asleep j
  · refine (unreported id p rc creator exited).imp_right fun ⟨j, ne, isExited⟩ => ⟨j, ?_⟩
    exact (Function.update_of_ne ne _ _).trans isExited

theorem Inv.makeTask_step (inv : sys.Inv) {image : Nat} {enough : Bool}
    (taken : sys.step (.makeTask slot image enough) = some sys') : sys'.Inv := by
  simp only [step] at taken
  split at taken
  · rename_i maker id phase life
    have kept : { sys with table := sys.table.modify slot fun p =>
        { p with image := some image } }.Inv := inv.congr fun j => by
      rw [ProcTable.modify_proc]
      split <;> exact ⟨rfl, rfl, rfl, rfl, rfl⟩
    have ok := inv.slots slot
    simp only [SlotOk, life] at ok
    cases enough with
    | true =>
        simp only [if_true, Option.some.injEq] at taken
        exact taken ▸ kept.start_task phase life
    | false =>
        simp only [Bool.false_eq_true, if_false, Option.some.injEq] at taken
        subst taken
        refine kept.release ?_ (fun j isMaker => ?_) (fun _ _ _ _ => rfl) inv.exitLt
          (fun p id member j _ => inv.reported p id member j) inv.once inv.results
          fun child p rc creator exited => ?_
        · simp [life, Life.waiters]
        · obtain ⟨q, running⟩ := inv.maker j slot isMaker
          simp [life] at running
        · refine (inv.unreported child p rc creator exited).imp_right fun ⟨j, isExited⟩ =>
            ⟨j, ?_, isExited⟩
          rintro rfl
          simp [life] at isExited
  · simp at taken

/-- A running process enters or leaves `_wait`, is blocked or unblocked there. -/
theorem Inv.set_mode (inv : sys.Inv) {old : Mode} (life : sys.life slot = .running id old)
    (mode : Mode) (table : ProcTable)
    (same : ∀ j, (table.proc j).pid = (sys.table.proc j).pid ∧
      (table.proc j).parent = (sys.table.proc j).parent ∧
      (table.proc j).zombie = (sys.table.proc j).zombie ∧
      (table.proc j).rc = (sys.table.proc j).rc ∧
      (table.proc j).waitq = if j = slot then (Life.running id mode).waiters slot
        else (sys.table.proc j).waitq)
    (notMaker : mode ≠ .user → ∀ j, (sys.phase j).maker ≠ some (some slot))
    (first : mode = .blocked → slot = 0 ∧ sys.table.findZombie 0 = none) :
    { sys with table := table, life := update sys.life slot (.running id mode) }.Inv := by
  have sameId := id_update (show (Life.running id mode).id = (sys.life slot).id by rw [life]; rfl)
  have away : ∀ {j child}, sys.life j = .exited child → j ≠ slot := by
    rintro j child isExited rfl
    simp [life] at isExited
  have blocked : ∀ {j other}, update sys.life slot (.running id mode) j =
      .running other .blocked → j = slot ∧ mode = .blocked ∨ sys.life j = .running other .blocked := by
    intro j other isBlocked
    by_cases here : j = slot
    · rw [here, Function.update_self, Life.running.injEq] at isBlocked
      exact .inl ⟨here, isBlocked.2⟩
    · rw [Function.update_of_ne here] at isBlocked
      exact .inr isBlocked
  refine { inv with
    slots := fun j => ?_
    unique := fun j k other isId isId' => inv.unique j k other (by rwa [← sameId])
      (by rwa [← sameId])
    idLt := fun j other isId => inv.idLt j other (by rwa [← sameId])
    maker := fun j actor isMaker => ?_
    waitq := fun j => ?_
    first := fun j other isBlocked => ?_
    asleep := fun other isBlocked => ?_
    reported := fun p child member j isId => inv.reported p child member j (by rwa [← sameId])
    unreported := fun child p rc creator exited => (inv.unreported child p rc creator exited).imp_right
      fun ⟨j, isExited⟩ => ⟨j, (Function.update_of_ne (away isExited) _ _).trans isExited⟩ }
  · obtain ⟨pid, parent, zombie, rc, -⟩ := same j
    by_cases here : j = slot
    · subst here
      -- the entry is the same, and so is all that is said of a running process
      have ok : { sys with table := table, life := sys.life }.SlotOk j :=
        (inv.slots j).frame inv.creatorLt rfl rfl pid zombie parent rc (fun _ _ => ⟨rfl, rfl, rfl⟩)
          (fun _ _ _ _ _ isNow => isNow) (fun _ _ _ isNow => isNow) fun _ _ => rfl
      simp only [SlotOk, life] at ok
      simp only [SlotOk, ParentOk, Function.update_self, sameId] at ok ⊢
      exact ok
    · exact (inv.slots j).frame inv.creatorLt (Function.update_of_ne here _ _) rfl pid zombie parent
        rc (fun _ _ => ⟨rfl, rfl, rfl⟩) (fun _ _ _ _ _ isNow => by rwa [← sameId])
        (fun _ _ _ isNow => by rwa [← sameId]) fun _ _ => sameId _
  · obtain ⟨q, running⟩ := inv.maker j actor isMaker
    by_cases here : actor = slot
    · subst here
      have isUser : mode = .user := by
        by_contra notUser
        exact notMaker notUser j isMaker
      exact ⟨id, (Function.update_self _ _ _).trans (by rw [isUser])⟩
    · exact ⟨q, (Function.update_of_ne here _ _).trans running⟩
  · have waitq := inv.waitq j
    rw [(same j).2.2.2.2]
    by_cases here : j = slot
    · subst here
      simp
    · simpa [here] using waitq
  · rcases blocked isBlocked with ⟨rfl, isMode⟩ | before
    · exact (first isMode).1
    · exact inv.first j other before
  · have asleep : sys.table.findZombie 0 = none := by
      rcases blocked isBlocked with ⟨-, isMode⟩ | before
      · exact (first isMode).2
      · exact inv.asleep other before
    have asleep := ProcTable.findZombie_none.mp asleep
    refine ProcTable.findZombie_none.mpr fun j => ?_
    obtain ⟨pid, parent, zombie, -⟩ := same j
    simp only [pid, zombie, parent]
    exact asleep j

/-- The process that waits on its own queue is unblocked. -/
theorem Inv.wake (inv : sys.Inv) (asleep : sys.life slot = .running id .blocked) :
    { sys with
      table := sys.table.modify slot fun p => { p with waitq := p.waitq.tail }
      life := update sys.life slot (.running id .ready) }.Inv := by
  refine inv.set_mode asleep .ready _ (fun j => ?_) (fun _ j isMaker => ?_) (by simp)
  · rw [ProcTable.modify_proc]
    by_cases here : j = slot
    · subst here
      simp [inv.waitq, asleep, Life.waiters]
    · simp [here]
  · obtain ⟨q, running⟩ := inv.maker j slot isMaker
    simp [asleep] at running

/-- The end of `exec`: the new process gets its parent and its files. -/
theorem Inv.adopt_step (inv : sys.Inv) (taken : sys.step (.adopt slot) = some sys') :
    sys'.Inv := by
  cases phase : sys.phase slot with
  | started maker =>
      simp only [step, phase, Option.some.injEq] at taken
      subst taken
      have entry := fun j => @ProcTable.adopt_proc sys.table slot j maker
      have ok := inv.slots slot
      obtain ⟨id, mode, life⟩ : ∃ id mode, sys.life slot = .running id mode := by
        cases life : sys.life slot with
        | free => simp [SlotOk, life, phase] at ok
        | made id => simp [SlotOk, life, phase] at ok
        | running id mode => exact ⟨id, mode, rfl⟩
        | exited id => simp [SlotOk, life, phase] at ok
      simp only [SlotOk, life, phase, reduceCtorEq, false_and, false_or, Phase.started.injEq,
        exists_eq_left'] at ok
      obtain ⟨used, pidOf, noZombie, notExited, creator⟩ := ok
      refine { inv with
        slots := fun j => ?_
        maker := inv.maker_update fun actor isMaker => by simp [Phase.maker] at isMaker
        waitq := fun j => ?_
        asleep := fun other isBlocked => ?_ }
      · obtain ⟨fds, same⟩ := entry j
        by_cases here : j = slot
        · subst here
          simp only [SlotOk, life, ParentOk, same, Function.update_self, if_true]
          refine ⟨used, pidOf, noZombie, notExited, .inl ⟨trivial, ?_⟩⟩
          cases maker with
          | none => exact creator
          | some actor =>
              obtain ⟨q, running⟩ := inv.maker j actor (by rw [phase]; rfl)
              have isId : (sys.life actor).id = some q := by rw [running]; rfl
              refine ⟨q, creator.trans isId, fun other isOther => ?_, fun k isOther => ?_⟩
              · exact Option.some.inj (isOther.symm.trans isId)
              · exact inv.unique k actor q isOther isId
        · refine (inv.slots j).frame inv.creatorLt rfl (Function.update_of_ne here _ _) ?_ ?_ ?_ ?_
            (fun _ _ => ⟨rfl, rfl, rfl⟩) (fun _ _ _ _ _ isNow => isNow) (fun _ _ _ isNow => isNow)
            fun _ _ => rfl <;> simp [same, here]
      · obtain ⟨fds, same⟩ := entry j
        simp only [same]
        exact inv.waitq j
      · have asleep := ProcTable.findZombie_none.mp (inv.asleep other isBlocked)
        refine ProcTable.findZombie_none.mpr fun j isUsed isZombie => ?_
        obtain ⟨fds, same⟩ := entry j
        simp only [same] at isUsed isZombie ⊢
        have ne : j ≠ slot := by
          rintro rfl
          simp [noZombie] at isZombie
        simpa only [ne, if_false] using asleep j isUsed isZombie
  | settled => simp [step, phase] at taken
  | allocated maker => simp [step, phase] at taken
  | cleared maker => simp [step, phase] at taken

/-- A process that is through with `exec` becomes a zombie.  Its parent is not blocked. -/
theorem Inv.zombie (inv : sys.Inv) (life : sys.life slot = .running id .user)
    (settled : sys.phase slot = .settled) {parent : Slot}
    (child : (sys.table.proc slot).parent = some parent)
    (awake : ∀ q, sys.life parent ≠ .running q .blocked)
    (notMaker : ∀ j, (sys.phase j).maker ≠ some (some slot)) (rc : Nat) (table : ProcTable)
    (same : ∀ j, (table.proc j).pid = (sys.table.proc j).pid ∧
      (table.proc j).parent = (sys.table.proc j).parent ∧
      (table.proc j).zombie = (if j = slot then true else (sys.table.proc j).zombie) ∧
      (table.proc j).rc = (if j = slot then rc else (sys.table.proc j).rc) ∧
      (table.proc j).waitq = (sys.table.proc j).waitq) :
    { sys with
      table := table
      life := update sys.life slot (.exited id)
      exitRc := update sys.exitRc id (some rc) }.Inv := by
  have isHere : (sys.life slot).id = some id := by rw [life]; rfl
  have sameId := id_update (show (Life.exited id).id = (sys.life slot).id by rw [life]; rfl)
  have ok := inv.slots slot
  simp only [SlotOk, life, settled, reduceCtorEq, false_and, exists_false, or_false,
    true_and] at ok
  obtain ⟨used, pidOf, noZombie, notExited, parentOk⟩ := ok
  have blockedBefore : ∀ {j other}, update sys.life slot (.exited id) j =
      .running other .blocked → sys.life j = .running other .blocked := by
    intro j other isBlocked
    have ne : j ≠ slot := by
      rintro rfl
      simp at isBlocked
    rwa [Function.update_of_ne ne] at isBlocked
  have elsewhere : ∀ {child}, (∀ j, (sys.life j).id ≠ some child) → child ≠ id := by
    rintro child nowhere rfl
    exact nowhere slot isHere
  refine { inv with
    slots := fun j => ?_
    unique := fun j k other isId isId' => inv.unique j k other (by rwa [← sameId])
      (by rwa [← sameId])
    idLt := fun j other isId => inv.idLt j other (by rwa [← sameId])
    maker := fun j actor isMaker => ?_
    waitq := fun j => ?_
    first := fun j other isBlocked => inv.first j other (blockedBefore isBlocked)
    asleep := fun other isBlocked => ?_
    exitLt := fun child rc' exited => ?_
    reported := fun p child member j isId => inv.reported p child member j (by rwa [← sameId])
    results := fun p => ?_
    unreported := fun child p rc' creator exited => ?_ }
  · obtain ⟨pid, parent, zombie, isRc, -⟩ := same j
    by_cases here : j = slot
    · subst here
      simp only [if_true] at zombie isRc
      simp only [SlotOk, ParentOk, Function.update_self, pid, parent, zombie, isRc, sameId]
      exact ⟨used, pidOf, trivial, trivial, settled, parentOk⟩
    · simp only [here, if_false] at zombie isRc
      refine (inv.slots j).frame inv.creatorLt (Function.update_of_ne here _ _) rfl pid zombie parent
        isRc (fun other isId => ⟨rfl, Function.update_of_ne ?_ _ _, rfl⟩)
        (fun _ _ _ _ _ isNow => by rwa [← sameId]) (fun _ _ _ isNow => by rwa [← sameId])
        fun _ _ => sameId _
      rintro rfl
      exact here (inv.unique j slot other isId isHere)
  · obtain ⟨q, running⟩ := inv.maker j actor isMaker
    have ne : actor ≠ slot := by
      rintro rfl
      exact notMaker j isMaker
    exact ⟨q, (Function.update_of_ne ne _ _).trans running⟩
  · have waitq := inv.waitq j
    rw [(same j).2.2.2.2]
    by_cases here : j = slot
    · subst here
      simpa [life, Life.waiters] using waitq
    · simpa [here] using waitq
  · have asleep := ProcTable.findZombie_none.mp (inv.asleep other (blockedBefore isBlocked))
    refine ProcTable.findZombie_none.mpr fun j isUsed isZombie => ?_
    obtain ⟨pid, isParent, zombie, -⟩ := same j
    simp only [pid] at isUsed
    simp only [isParent]
    by_cases here : j = slot
    · subst here
      rw [child]
      rintro isFirst
      rw [Option.some.inj isFirst] at awake
      exact awake other (blockedBefore isBlocked)
    · simp only [zombie, here, if_false] at isZombie
      exact asleep j isUsed isZombie
  · by_cases here : child = id
    · exact here ▸ inv.idLt slot id isHere
    · dsimp only at exited
      rw [Function.update_of_ne here] at exited
      exact inv.exitLt child rc' exited
  · refine inv.results_mono fun child rc' member exited => ?_
    exact (Function.update_of_ne (elsewhere (inv.reported p child member)) _ _).trans exited
  · by_cases here : child = id
    · exact .inr ⟨slot, here ▸ Function.update_self _ _ _⟩
    · dsimp only at exited
      rw [Function.update_of_ne here] at exited
      refine (inv.unreported child p rc' creator exited).imp_right fun ⟨j, isExited⟩ => ⟨j, ?_⟩
      have ne : j ≠ slot := by
        rintro rfl
        simp [life] at isExited
      exact (Function.update_of_ne ne _ _).trans isExited

/-- `_exit` of a process without a parent. -/
theorem Inv.exit_orphan (inv : sys.Inv) {rc : Int} (life : sys.life slot = .running id .user)
    (notMaker : ∀ j, (sys.phase j).maker ≠ some (some slot)) (settled : sys.phase slot = .settled)
    (orphan : (sys.table.proc slot).parent = none) :
    { sys with
      table := sys.table.procFree slot
      life := update sys.life slot .free
      exitRc := update sys.exitRc id (some (rc % 0x100).toNat) }.Inv := by
  have isHere : (sys.life slot).id = some id := by rw [life]; rfl
  have ok := inv.slots slot
  simp only [SlotOk, life, settled, reduceCtorEq, false_and, exists_false, or_false,
    true_and, ParentOk, orphan] at ok
  obtain ⟨-, -, -, -, creator⟩ := ok
  have elsewhere : ∀ {child p}, child ∈ sys.reported p → child ≠ id := by
    rintro child p member rfl
    exact inv.reported p child member slot isHere
  have released := inv.release (by rw [life]; rfl) notMaker
    (show ∀ j other, j ≠ slot → (sys.life j).id = some other →
        update sys.exitRc id (some (rc % 0x100).toNat) other = sys.exitRc other from ?_) ?_
    (fun p child member j _ => inv.reported p child member j) inv.once
    (fun p => inv.results_mono fun child rc' member exited =>
      (Function.update_of_ne (elsewhere member) _ _).trans exited) ?_
  · rwa [← settled, Function.update_eq_self] at released
  · intro j other ne isId
    refine Function.update_of_ne ?_ _ _
    rintro rfl
    exact ne (inv.unique j slot other isId isHere)
  · intro child rc' exited
    by_cases here : child = id
    · exact here ▸ inv.idLt slot id isHere
    · rw [Function.update_of_ne here] at exited
      exact inv.exitLt child rc' exited
  · intro child p rc' isChild exited
    have ne : child ≠ id := by
      rintro rfl
      simp [creator] at isChild
    rw [Function.update_of_ne ne] at exited
    refine (inv.unreported child p rc' isChild exited).imp_right fun ⟨j, isExited⟩ =>
      ⟨j, ?_, isExited⟩
    rintro rfl
    simp [life] at isExited

/-- `_exit`, after `exec` has stored the parent. -/
theorem Inv.exit_step (inv : sys.Inv) {rc : Int} (guarded : sys.Guarded (.exit slot rc))
    (taken : sys.step (.exit slot rc) = some sys') : sys'.Inv := by
  have settled : sys.phase slot = .settled := guarded
  simp only [step] at taken
  split at taken
  · rename_i id life
    split at taken
    · simp at taken
    rename_i idle
    obtain rfl := Option.some.inj taken
    have notMaker : ∀ j, (sys.phase j).maker ≠ some (some slot) := fun j isMaker => idle ⟨j, isMaker⟩
    cases isParent : (sys.table.proc slot).parent with
    | none =>
        simp only [ProcTable.exit_orphan rc isParent, if_true]
        exact inv.exit_orphan life notMaker settled isParent
    | some parent =>
        obtain ⟨woken, entry⟩ := ProcTable.exit_child rc isParent
        simp only [reduceCtorEq, if_false, woken, inv.waitq]
        by_cases asleep : ∃ q, sys.life parent = .running q .blocked
        · obtain ⟨q, asleep⟩ := asleep
          have ne : parent ≠ slot := by
            rintro rfl
            simp [life] at asleep
          -- the parent is unblocked, and then the child becomes a zombie
          have child : ((sys.table.modify parent fun p => { p with waitq := p.waitq.tail }).proc
              slot).parent = some parent := by
            rw [ProcTable.modify_proc, if_neg ne.symm, isParent]
          have exited := (inv.wake asleep).zombie ((Function.update_of_ne ne.symm _ _).trans life)
            settled child ?_ notMaker (rc % 0x100).toNat (sys.table.exit slot rc).1 fun j => ?_
          · simpa only [asleep, Life.waiters, List.head?_cons, Option.elim_some,
              Function.update_of_ne ne, Life.unblock, Function.update_comm ne] using exited
          · simp
          · rw [entry, ProcTable.modify_proc]
            split_ifs <;> simp_all
        · have noWaiter : (sys.life parent).waiters parent = [] := by
            simp only [not_exists] at asleep
            unfold Life.waiters
            split
            · rename_i q isBlocked
              exact absurd isBlocked (asleep q)
            · rfl
          simp only [noWaiter, List.head?_nil, Option.elim_none]
          refine inv.zombie life settled isParent (not_exists.mp asleep) notMaker _ _ fun j => ?_
          refine ⟨by rw [entry], by rw [entry], by rw [entry], by rw [entry], ?_⟩
          rw [entry]
          dsimp only
          split
          · rename_i here
            rw [here, inv.waitq, noWaiter, List.tail_nil]
          · rfl
  · simp at taken

theorem canWait_spec (can : sys.canWait slot = some id) : ∃ old, sys.life slot = .running id old ∧
    (old = .user → ¬ sys.Busy (some slot)) ∧ old ≠ .blocked := by
  simp only [canWait] at can
  split at can
  · rename_i found life
    split at can
    · simp at can
    · rename_i idle
      obtain rfl := Option.some.inj can
      exact ⟨.user, life, fun _ => idle, by simp⟩
  · rename_i found life
    obtain rfl := Option.some.inj can
    exact ⟨.ready, life, by simp, by simp⟩
  · simp at can

/-- The zombies that a process finds are the children of it that have exited. -/
theorem Inv.zombie_child (inv : sys.Inv) (isHere : (sys.life slot).id = some id)
    (found : sys.table.findZombie slot = some i) : ∃ child, sys.life i = .exited child ∧
      sys.phase i = .settled ∧ sys.creator child = some id ∧
      sys.pidOf child = (sys.table.proc i).pid ∧ sys.exitRc child = some (sys.table.proc i).rc := by
  obtain ⟨used, isZombie, isParent⟩ := ProcTable.findZombie_some found
  have ok := inv.slots i
  cases life : sys.life i with
  | free => simp [SlotOk, life, isZombie] at ok
  | made child => simp [SlotOk, life, isZombie] at ok
  | running child mode => simp [SlotOk, life, isZombie] at ok
  | exited child =>
      simp only [SlotOk, life, ParentOk, isParent] at ok
      obtain ⟨-, pidOf, -, exited, settled, p, creator, only, -⟩ := ok
      exact ⟨child, rfl, settled, (only id isHere) ▸ creator, pidOf, exited⟩

/-- An exited child is reported to its parent and its slot is freed. -/
theorem Inv.collect (inv : sys.Inv) {child : Nat} (exited : sys.life i = .exited child)
    (settled : sys.phase i = .settled) (creator : sys.creator child = some id)
    (pidOf : sys.pidOf child = (sys.table.proc i).pid)
    (exitRc : sys.exitRc child = some (sys.table.proc i).rc) :
    { sys with
      table := sys.table.procFree i
      life := update sys.life i .free
      reported := update sys.reported id (child :: sys.reported id)
      results := update sys.results id
        (((sys.table.proc i).pid, WIFEXITED ||| (sys.table.proc i).rc) :: sys.results id) }.Inv := by
  have isHere : (sys.life i).id = some child := by rw [exited]; rfl
  have unreported : child ∉ sys.reported id := fun member => inv.reported id child member i isHere
  have members : ∀ p other, other ∈ update sys.reported id (child :: sys.reported id) p →
      other = child ∨ other ∈ sys.reported p := by
    intro p other member
    by_cases here : p = id
    · subst here
      simpa using member
    · exact .inr (by simpa [here] using member)
  have released := inv.release (by rw [exited]; rfl) (fun j isMaker => ?_) (fun _ _ _ _ => rfl)
    inv.exitLt (show ∀ p other, other ∈ update sys.reported id (child :: sys.reported id) p → _
      from ?_) ?_ (show ∀ p, List.Forall₂ _ (update sys.results id
        (((sys.table.proc i).pid, WIFEXITED ||| (sys.table.proc i).rc) :: sys.results id) p) _
      from ?_) ?_
  · rwa [← settled, Function.update_eq_self] at released
  · obtain ⟨q, running⟩ := inv.maker j i isMaker
    simp [exited] at running
  · intro p other member j ne isOther
    rcases members p other member with rfl | old
    · exact ne (inv.unique j i other isOther isHere)
    · exact inv.reported p other old j isOther
  · intro p
    by_cases here : p = id
    · subst here
      simpa using ⟨unreported, inv.once p⟩
    · simpa [here] using inv.once p
  · intro p
    by_cases here : p = id
    · subst here
      simp only [Function.update_self]
      exact .cons ⟨creator, _, exitRc, by rw [pidOf]⟩ (inv.results p)
    · simpa only [Function.update_of_ne here] using inv.results p
  · intro other p rc isParent isExited
    rcases inv.unreported other p rc isParent isExited with member | ⟨j, isHere'⟩
    · left
      by_cases here : p = id
      · subst here
        simp [member]
      · simpa [here] using member
    · by_cases here : j = i
      · subst here
        obtain rfl : child = other := by simpa [exited] using isHere'
        obtain rfl : id = p := by simpa [creator] using isParent
        simp
      · exact .inr ⟨j, here, isHere'⟩

/-- One round of `_wait`, where only the process in the first slot is blocked. -/
theorem Inv.wait_step (inv : sys.Inv) (guarded : sys.Guarded (.wait slot))
    (taken : sys.step (.wait slot) = some sys') : sys'.Inv := by
  simp only [step, Option.map_eq_some_iff] at taken
  obtain ⟨id, can, rfl⟩ := taken
  obtain ⟨old, life, idle, notBlocked⟩ := canWait_spec can
  have isHere : (sys.life slot).id = some id := by rw [life]; rfl
  have notMaker : ∀ j, (sys.phase j).maker ≠ some (some slot) := by
    intro j isMaker
    obtain ⟨q, running⟩ := inv.maker j slot isMaker
    rw [life, Life.running.injEq] at running
    exact idle running.2 ⟨j, isMaker⟩
  cases found : sys.table.findZombie slot with
  | none =>
      obtain rfl : slot = 0 := guarded found
      rw [ProcTable.wait_none found]
      refine inv.set_mode life .blocked _ (fun j => ?_) (fun _ => notMaker) fun _ => ⟨rfl, found⟩
      rw [ProcTable.modify_proc]
      have noWaiter : (sys.table.proc 0).waitq = [] := by
        rw [inv.waitq, life]
        cases old with
        | user => rfl
        | ready => rfl
        | blocked => exact absurd rfl notBlocked
      by_cases here : j = 0
      · subst here
        simp [noWaiter, Life.waiters]
      · simp [here]
  | some i =>
      obtain ⟨child, exited, settled, creator, pidOf, exitRc⟩ := inv.zombie_child isHere found
      rw [ProcTable.wait_found found]
      have isChild : (sys.life i).id = some child := by rw [exited]; rfl
      have ne : slot ≠ i := by
        rintro rfl
        simp [life] at exited
      have collected := inv.collect exited settled creator pidOf exitRc
      have done := collected.set_mode ((Function.update_of_ne ne _ _).trans life) .user
        (sys.table.procFree i) (fun j => ?_) (by simp) (by simp)
      · simpa only [isChild, Option.toList_some, List.singleton_append] using done
      · refine ⟨rfl, rfl, rfl, rfl, ?_⟩
        split
        · rename_i here
          rw [here]
          refine (collected.waitq slot).trans ?_
          simp only [Function.update_of_ne ne, life]
          cases old with
          | user => rfl
          | ready => rfl
          | blocked => exact absurd rfl notBlocked
        · rfl

theorem Inv.step {action : ProcAction} (inv : sys.Inv) (guarded : sys.Guarded action)
    (taken : sys.step action = some sys') : sys'.Inv := by
  cases action with
  | alloc actor => exact inv.alloc_step guarded taken
  | init slot => exact inv.init_step guarded taken
  | makeTask slot image enough => exact inv.makeTask_step taken
  | adopt slot => exact inv.adopt_step taken
  | exit slot rc => exact inv.exit_step guarded taken
  | wait slot => exact inv.wait_step guarded taken

/-! ## What the invariant says -/

theorem mem_children {child : Nat} (creatorLt : ∀ id p, sys.creator id = some p →
    id < sys.count ∧ p < sys.count) : child ∈ sys.children id ↔ sys.creator child = some id := by
  simp only [children, List.mem_filter, List.mem_range, decide_eq_true_eq]
  exact ⟨fun both => both.2, fun creator => ⟨(creatorLt child id creator).1, creator⟩⟩

/-- A process with an exited child that has not been reported finds a zombie. -/
theorem Inv.awake (inv : sys.Inv) {mode : Mode} (life : sys.life slot = .running id mode)
    {child rc : Nat} (creator : sys.creator child = some id)
    (exited : sys.exitRc child = some rc) (unreported : child ∉ sys.reported id) :
    mode ≠ .blocked ∧ sys.table.findZombie slot ≠ none := by
  obtain ⟨i, isExited⟩ := (inv.unreported child id rc creator exited).resolve_left unreported
  have found : sys.table.findZombie slot ≠ none := by
    intro nothing
    have ok := inv.slots i
    simp only [SlotOk, isExited, ParentOk] at ok
    obtain ⟨used, -, isZombie, -, -, parent⟩ := ok
    have other := ProcTable.findZombie_none.mp nothing i used isZombie
    cases isParent : (sys.table.proc i).parent with
    | none => simp [isParent, creator] at parent
    | some place =>
        simp only [isParent] at parent
        obtain ⟨p, isCreator, -, only⟩ := parent
        obtain rfl : id = p := Option.some.inj (creator.symm.trans isCreator)
        exact other (isParent.trans (by rw [only slot (by rw [life]; rfl)]))
  refine ⟨?_, found⟩
  rintro rfl
  obtain rfl := inv.first slot id life
  exact found (inv.asleep id life)

theorem exit_history {rc : Int} (taken : sys.step (.exit slot rc) = some sys') :
    ∃ child, (sys.life slot).id = some child ∧ sys'.creator = sys.creator ∧
      sys'.reported = sys.reported ∧ sys'.exitRc child = some (rc % 0x100).toNat := by
  simp only [step] at taken
  split at taken
  · rename_i id life
    split at taken
    · simp at taken
    · obtain rfl := Option.some.inj taken
      exact ⟨id, by rw [life]; rfl, rfl, rfl, Function.update_self _ _ _⟩
  · simp at taken

theorem Inv.wakesParent (inv : sys.Inv) : sys.WakesParent := by
  intro slot rc sys' child parent i guarded taken isChild creator isBlocked
  have after := inv.exit_step guarded taken
  obtain ⟨child', isChild', sameCreator, sameReported, exited⟩ := exit_history taken
  obtain rfl : child = child' := Option.some.inj (isChild.symm.trans isChild')
  refine (after.awake isBlocked (by rw [sameCreator, creator]) exited ?_).1 rfl
  rw [sameReported]
  exact fun member => inv.reported parent child member slot isChild

theorem Inv.reportsChildren (inv : sys.Inv) : sys.ReportsChildren := by
  intro id
  refine (inv.results id).imp fun result child ⟨creator, exited⟩ => ⟨?_, exited⟩
  exact (mem_children inv.creatorLt).mpr creator

theorem Inv.reportsOnce (inv : sys.Inv) : sys.ReportsOnce := by
  refine fun id => ⟨inv.once id, fun same => ?_⟩
  have children : sys.reported id ⊆ sys.children id := fun child member =>
    (mem_children inv.creatorLt).mpr (inv.reported_child member).1
  have subperm := List.subperm_of_subset (inv.once id) children
  exact subperm.perm_of_length_le (same ▸ (inv.results id).length_eq.le)

theorem Inv.reportsReady (inv : sys.Inv) : sys.ReportsReady := by
  intro id slot mode child life isChild isExited unreported
  obtain ⟨rc, exited⟩ := Option.ne_none_iff_exists'.mp isExited
  obtain ⟨awake, found⟩ :=
    inv.awake life ((mem_children inv.creatorLt).mp isChild) exited unreported
  refine ⟨awake, fun sys' taken => ?_⟩
  obtain ⟨i, found⟩ := Option.ne_none_iff_exists'.mp found
  simp only [ProcSystem.step, Option.map_eq_some_iff] at taken
  obtain ⟨caller, can, rfl⟩ := taken
  obtain ⟨old, life', -⟩ := canWait_spec can
  obtain rfl : id = caller := (Life.running.inj (life.symm.trans life')).1
  rw [ProcTable.wait_found found]
  dsimp only
  rw [Function.update_self, List.length_cons]

/-! ## The protocol -/

/-- In every run whose steps meet the condition: no parent of a child that exits stays
blocked in `_wait`; every result of `_wait` is the pid and exit code of an exited child
of the caller; each child is reported at most once, and every child once the caller
has waited as often as it has children; and while an exited child has not been
reported, the parent does not stay in `_wait`. -/
theorem wait_exit_correct {sys : ProcSystem}
    (reached : Reached (· = start) (fun s a s' => s.step a = some s') Guarded sys) :
    sys.WakesParent ∧ sys.ReportsChildren ∧ sys.ReportsOnce ∧ sys.ReportsReady := by
  have inv : sys.Inv := reached.invariant Inv (by rintro _ rfl; exact start_inv)
    fun inv guarded taken => inv.step guarded taken
  exact ⟨inv.wakesParent, inv.reportsChildren, inv.reportsOnce, inv.reportsReady⟩

/-- The steps of one complete `exec`, for the process that gets the slot. -/
def execBy (actor : Actor) (slot : Slot) : List ProcAction :=
  [.alloc actor, .init slot, .makeTask slot 0x100 true, .adopt slot]

/-- The first process waits for its child, which exits, and gets the child's code. -/
theorem wait_exit_correct_first_process :
    ∃ sys, runs step start (execBy none 0 ++ execBy (some 0) 1 ++
        [.wait 0, .exit 1 5, .wait 0]) = some sys ∧
      sys.results 0 = [(2, 0x105)] ∧
      sys.WakesParent ∧ sys.ReportsChildren ∧ sys.ReportsOnce ∧ sys.ReportsReady := by
  have ran : (runs step start (execBy none 0 ++ execBy (some 0) 1 ++
      [.wait 0, .exit 1 5, .wait 0])).map (·.results 0) = some [(2, 0x105)] := by
    decide +kernel
  have guarded : Along step Guarded start (execBy none 0 ++ execBy (some 0) 1 ++
      [.wait 0, .exit 1 5, .wait 0]) := by
    decide +kernel
  obtain ⟨sys, ran, results⟩ := Option.map_eq_some_iff.mp ran
  exact ⟨sys, ran, results, wait_exit_correct (reached_of_runs rfl guarded ran)⟩

/-- A process in another slot waits on the queue of the first slot, and nobody wakes
it when its child exits. -/
theorem exit_misses_second_process :
    ∃ sys sys', Reachable (· = start) (fun s a s' => s.step a = some s') sys ∧
      sys.step (.exit 2 5) = some sys' ∧ ¬sys.WakesParent ∧ ¬sys'.ReportsReady := by
  have before : (runs step start (execBy none 0 ++ execBy (some 0) 1 ++ execBy (some 1) 2 ++
      [.wait 1])).map (fun sys => (sys.life 2, sys.phase 2, sys.creator 2)) =
        some (.running 2 .user, .settled, some 1) := by
    decide +kernel
  have after : (runs step start (execBy none 0 ++ execBy (some 0) 1 ++ execBy (some 1) 2 ++
      [.wait 1])).bind (fun sys => (sys.step (.exit 2 5)).map fun sys' =>
        (sys'.life 1, sys'.children 1, sys'.exitRc 2, sys'.reported 1)) =
        some (.running 1 .blocked, [2], some 5, []) := by
    decide +kernel
  obtain ⟨sys, ran, same⟩ := Option.map_eq_some_iff.mp before
  rw [ran, Option.bind_some] at after
  obtain ⟨sys', taken, same'⟩ := Option.map_eq_some_iff.mp after
  obtain ⟨life, phase, creator⟩ := by simpa only [Prod.mk.injEq] using same
  obtain ⟨asleep, children, exited, reported⟩ := by simpa only [Prod.mk.injEq] using same'
  refine ⟨sys, sys', reachable_of_runs rfl ran, taken, fun wakes => ?_, fun ready => ?_⟩
  · exact wakes 2 5 sys' 2 1 1 phase taken (by rw [life]; rfl) creator asleep
  · refine (ready 1 1 .blocked 2 asleep ?_ ?_ ?_).1 rfl
    · rw [children]
      exact List.mem_singleton_self 2
    · rw [exited]
      exact Option.some_ne_none 5
    · rw [reported]
      exact List.not_mem_nil

end ProcSystem

end Pegasos.Kernel.Proc
