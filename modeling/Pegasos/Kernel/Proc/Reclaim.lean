import Pegasos.Kernel.Proc.Process
import Pegasos.Kernel.Sched.System

/-!
# The tasks of processes that exit

Processes exec, wait and exit over the full scheduler, with timer ticks, interrupts
and calls of other tasks between any two steps.  `_exit` only marks the task of the
process; the task itself goes back to the free list in `task_exit`, which the
dispatcher calls when the system call returns.
-/

namespace Pegasos.Kernel.Proc

open Pegasos.Support Pegasos.Kernel.Sched
open Function (update)

/-- The members of `process_t` that decide what becomes of its task.  A wait queue is
named by a number: `proc_alloc` initialises the queue of the first slot even if tasks
are on it, which no pointer leads to any more, and its queue gets a new number then. -/
structure ProcEntry where
  pid : Int
  task : Option Task
  parent : Option Slot
  zombie : Bool
  waitq : Nat
  deriving DecidableEq

/-- How far a task has come in `exec`, for the slot of the new process, or in `_exit`. -/
inductive Place where
  | outside
  | hasPid (slot : Slot)
  | hasSlot (slot : Slot)
  | hasTask (slot : Slot) (task : Task)
  | queued (slot : Slot) (task : Task)
  | stored (slot : Slot)
  | adopted (slot : Slot)
  | exits (slot : Slot) (task : Option Task)
  | gone (task : Option Task)
  | exited
  deriving DecidableEq

/-- The scheduler and the process table.  `live` are the tasks that `exec` has
allocated and that have not been through `task_exit`, `kernel` those that the kernel
has allocated otherwise. -/
structure ExitSystem where
  sys : System
  proc : Slot → ProcEntry
  nextpid : Int
  queues : Nat
  process : Task → Option Slot
  place : Task → Place
  live : List Task
  kernel : List Task

/-- An action of the scheduler that has nothing to do with processes, or a step of the
running task: the steps of `exec`, a round of `_wait`, the steps of `_exit`, and
`task_exit` at the end of the system call. -/
inductive ExitAction where
  | sched (action : Action)
  | procAlloc
  | procInit
  | taskAlloc
  | taskFromProc
  | storeTask
  | storeParent
  | dupHandles (success : Bool)
  | wait
  | exit
  | notify
  | mark
  | taskExit
  deriving DecidableEq

/-- The allocated task that a call of the kernel starts, keeps or frees. -/
def usedTask : Action → Option Task
  | .call (.taskFree task) => some task
  | .call (.taskStart task _) => some task
  | .call (.addHandler _ task) => some task
  | .call (.schAsync task _) => some task
  | _ => none

namespace ExitSystem

variable (s : ExitSystem)

/-- The running task. -/
abbrev cur : Task := s.sys.sched.curtask

def modify (slot : Slot) (edit : ProcEntry → ProcEntry) : ExitSystem :=
  { s with proc := update s.proc slot (edit (s.proc slot)) }

/-- The running task goes on to a place. -/
def goto (place : Place) : ExitSystem :=
  { s with place := update s.place s.cur place }

/-- `proc_free`. -/
def procFree (slot : Slot) : ExitSystem :=
  s.modify slot fun p => { p with task := none, zombie := false, pid := 0 }

/-- The first loop of `proc_alloc`. -/
def findFree : Option Slot := (List.finRange MAX_PROCESS).find? fun i => (s.proc i).pid = 0

/-- The loop of `_wait` over the table. -/
def findZombie (curr : Slot) : Option Slot :=
  (List.finRange MAX_PROCESS).find? fun i =>
    (s.proc i).pid ≠ 0 ∧ (s.proc i).zombie = true ∧ (s.proc i).parent = some curr

/-- What the running task may do besides the steps of `exec`, `_wait` and `_exit`: the
kernel uses the tasks that it has allocated itself, only a task of the kernel returns
from its function, and a process that has left `_exit` calls nothing any more. -/
def Allowed : Action → Bool
  | .call .markFreeing => false
  | .call .taskExit => s.process s.cur = none ∧ s.place s.cur = .outside
  | .call call => s.place s.cur ≠ .exited ∧ ∀ task ∈ usedTask (.call call), task ∈ s.kernel
  | _ => true

/-- The tasks of the kernel after an action. -/
def kernelAfter : Action → List Task
  | .call .taskAlloc => s.sys.sched.taskAlloc.1.toList ++ s.kernel
  | .call (.taskFree task) => s.kernel.erase task
  | _ => s.kernel

/-- A task that the kernel starts or keeps belongs to no process. -/
def processAfter (action : Action) : Task → Option Slot :=
  (usedTask action).elim s.process fun task => update s.process task none

/-- A step of the running task, by how far it has come. -/
def stepCurrent : ExitAction → Place → Option ExitSystem
  | .procAlloc, .outside =>
      some <| match s.findFree with
        | none => s
        | some i => { s.modify i fun p => { p with pid := s.nextpid } with
            nextpid := int16 (s.nextpid + 1) }.goto (.hasPid i)
  | .procInit, .hasPid slot =>
      -- the pointer is the start of the table here
      some <| { s.modify 0 fun p => { p with waitq := s.queues, zombie := false } with
        queues := s.queues + 1 }.goto (.hasSlot slot)
  | .taskAlloc, .hasSlot slot =>
      match s.sys.sched.taskAlloc with
      | (none, _) =>
          some ((s.procFree slot).goto .outside)
      | (some task, sched) => some <| { s with
          sys := { s.sys with sched := sched, held := task :: s.sys.held }
          live := task :: s.live }.goto (.hasTask slot task)
  | .taskFromProc, .hasTask slot task =>
      (s.sys.call (.taskStart task 17)).map fun sys => { s with
        sys := sys
        process := update s.process task (some slot)
        place := update s.place s.cur (.queued slot task) }
  | .storeTask, .queued slot task =>
      some ((s.modify slot fun p => { p with task := some task }).goto (.stored slot))
  | .storeParent, .stored slot =>
      some ((s.modify slot fun p => { p with parent := s.process s.cur }).goto (.adopted slot))
  | .dupHandles success, .adopted slot =>
      some ((if success then s else s.procFree slot).goto .outside)
  | .wait, .outside =>
      (s.process s.cur).bind fun slot =>
        match s.findZombie slot with
        | some i => some (s.procFree i)
        | none =>
            -- the queue is the one of the first slot
            (s.sys.call (.taskBlock (s.proc 0).waitq)).map fun sys => { s with sys := sys }
  | .exit, .outside =>
      (s.process s.cur).map fun slot =>
        (s.modify slot fun p => { p with task := none }).goto (.exits slot (s.proc slot).task)
  | .notify, .exits slot task =>
      match (s.proc slot).parent with
      | none => some ((s.procFree slot).goto (.gone task))
      | some parent =>
          (s.sys.call (.taskUnblock
              (s.sys.sched.links.head (.object (s.proc parent).waitq)))).map fun sys =>
            { s.modify slot fun p => { p with zombie := true } with
              sys := sys
              place := update s.place s.cur (.gone task) }
  | .mark, .gone none =>
      -- both stores go through a null pointer
      some (s.goto .exited)
  | .mark, .gone (some task) =>
      some <| { s with
        sys := { s.sys with sched := s.sys.sched.setState task .freeing }
        process := update s.process task none }.goto .exited
  | .taskExit, .exited =>
      (s.sys.run s.sys.sched.taskExit).map fun sys => { s with
        sys := sys
        live := s.live.erase s.cur
        place := update s.place s.cur .outside }
  | _, _ => none

/-- One step. -/
def step : ExitAction → Option ExitSystem
  | .sched action =>
      if s.Allowed action then
        (s.sys.step action).map fun sys => { s with
          sys := sys
          kernel := s.kernelAfter action
          process := s.processAfter action }
      else none
  | action => if s.cur = idleTask then none else s.stepCurrent action (s.place s.cur)

/-- After `task_init`. -/
def start (counts : Nat → Int) : ExitSystem where
  sys := System.start counts
  proc := fun slot => ⟨0, none, none, false, slot⟩
  nextpid := 1
  queues := MAX_PROCESS
  process := fun _ => none
  place := fun _ => .outside
  live := []
  kernel := []

/-- The condition under which tasks come back: no timer tick and no interrupt comes
while the running task is marked, and a process exits when its entry leads to its
task. -/
def Guarded : ExitAction → Prop
  | .sched .tick => s.sys.sched.state s.cur ≠ .freeing
  | .sched (.intr _) => s.sys.sched.state s.cur ≠ .freeing
  | .exit => ∀ slot, s.process s.cur = some slot → (s.proc slot).task = some s.cur
  | _ => True

instance : (action : ExitAction) → Decidable (s.Guarded action)
  | .sched .tick => inferInstanceAs (Decidable (_ ≠ _))
  | .sched (.intr _) => inferInstanceAs (Decidable (_ ≠ _))
  | .exit => inferInstanceAs (Decidable (∀ slot, s.process s.cur = some slot → _))
  | .sched (.intrEnd _) | .sched (.call _) | .sched .idlePick | .sched .idleYield
  | .procAlloc | .procInit | .taskAlloc | .taskFromProc | .storeTask | .storeParent
  | .dupHandles _ | .wait | .notify | .mark | .taskExit => inferInstanceAs (Decidable True)

end ExitSystem

/-! ## What the scheduler does to states and handlers -/

/-- The handlers of interrupts are the same, and no more tasks are marked. -/
structure Calm (sched sched' : Scheduler) : Prop where
  intrTask : sched'.intrTask = sched.intrTask
  freeing : ∀ task, sched'.state task = .freeing → sched.state task = .freeing

namespace Calm

variable {sched sched' sched'' : Scheduler} {sys sys' : System}

theorem refl (sched : Scheduler) : Calm sched sched := ⟨rfl, fun _ => id⟩

theorem trans (first : Calm sched sched') (second : Calm sched' sched'') : Calm sched sched'' :=
  ⟨second.intrTask.trans first.intrTask,
    fun task marked => first.freeing task (second.freeing task marked)⟩

/-- A change that neither touches a handler nor a state. -/
theorem keep (sameIntr : sched'.intrTask = sched.intrTask) (sameState : sched'.state = sched.state) :
    Calm sched sched' :=
  ⟨sameIntr, fun _ marked => sameState ▸ marked⟩

/-- The same before something else happens. -/
theorem after (rest : Calm sched' sched'') (sameIntr : sched'.intrTask = sched.intrTask)
    (sameState : sched'.state = sched.state) : Calm sched sched'' :=
  (keep sameIntr sameState).trans rest

/-- A task gets another state than `TS_FREEING`, and others nothing but links. -/
theorem set (task : Task) {state : TState} (alive : state ≠ .freeing)
    (sameIntr : sched'.intrTask = sched.intrTask)
    (sameState : sched'.state = update sched.state task state) : Calm sched sched' := by
  refine ⟨sameIntr, fun other marked => ?_⟩
  rw [sameState, Function.update_apply] at marked
  split at marked
  · exact absurd marked alive
  · exact marked

theorem afterSet (rest : Calm sched' sched'') (task : Task) (state : TState)
    (alive : state ≠ .freeing) (sameIntr : sched'.intrTask = sched.intrTask)
    (sameState : sched'.state = update sched.state task state) : Calm sched sched'' :=
  (set task alive sameIntr sameState).trans rest

theorem yieldToRunnable (ran : sched.yieldToRunnable = .ok sched') : Calm sched sched' := by
  unfold Scheduler.yieldToRunnable at ran
  split at ran
  · cases ran
    exact set _ (show TState.run ≠ .freeing by simp) rfl rfl
  · cases ran

theorem iswitch (ran : sched.iswitch = .ok sched') : Calm sched sched' :=
  afterSet (yieldToRunnable ran) sched.curtask .ready (by simp) rfl rfl

theorem taskWakeLoop (fuel : Nat) (ran : Scheduler.taskWakeLoop fuel sched = .ok sched') :
    Calm sched sched' := by
  induction fuel generalizing sched with
  | zero => cases ran
  | succ fuel ih =>
      simp only [Scheduler.taskWakeLoop] at ran
      split at ran
      · cases ran
        exact refl _
      · split at ran
        · exact afterSet (ih ran) _ .ready (by simp) rfl rfl
        · cases ran
          exact refl _

theorem timerTick (ran : sched.timerTick = .ok sched') : Calm sched sched' :=
  (taskWakeLoop taskFuel ran).after rfl rfl

theorem taskSleep {ticks : Nat} (ran : sched.taskSleep ticks = .ok sched') :
    Calm sched sched' := by
  simp only [Scheduler.taskSleep] at ran
  split at ran
  · exact afterSet (yieldToRunnable ran) sched.curtask .blocked (by simp) rfl rfl
  · split at ran
    · cases ran
    · exact afterSet (yieldToRunnable ran) sched.curtask .blocked (by simp) rfl rfl

theorem taskBlock {queue : QueueId} (ran : sched.taskBlock queue = .ok sched') :
    Calm sched sched' :=
  afterSet (yieldToRunnable ran) sched.curtask .blocked (by simp) rfl rfl

theorem taskUnblock (task : Option Task) : Calm sched (sched.taskUnblock task) := by
  cases task with
  | none => exact refl _
  | some task =>
      simp only [Scheduler.taskUnblock]
      split
      · exact set task (show TState.ready ≠ .freeing by simp) rfl rfl
      · exact refl _

theorem semaTake {index : Nat} (ran : sched.semaTake index = .ok sched') : Calm sched sched' := by
  simp only [Scheduler.semaTake] at ran
  split at ran
  · exact afterSet (yieldToRunnable ran) sched.curtask .blocked (by simp) rfl rfl
  · cases ran
    exact keep rfl rfl

theorem semaDown {index : Nat} (ran : sched.semaDown index = .ok sched') : Calm sched sched' := by
  simp only [Scheduler.semaDown] at ran
  split at ran
  · cases ran
  · split at ran
    · exact semaTake ran
    · split at ran
      · cases ran
      · cases ran
      · exact semaTake ran

theorem semaUp {index : Nat} (ran : sched.semaUp index = .ok sched') : Calm sched sched' := by
  simp only [Scheduler.semaUp] at ran
  split at ran
  · cases ran
  · split at ran
    · split at ran
      · cases ran
      · cases ran
        exact set _ (show TState.ready ≠ .freeing by simp) rfl rfl
    · cases ran
      exact keep rfl rfl

theorem taskExit (ran : sched.taskExit = .ok sched') : Calm sched sched' := by
  simp only [Scheduler.taskExit] at ran
  split at ran
  · exact afterSet (yieldToRunnable ran) sched.curtask .free (by simp) rfl rfl
  · exact afterSet (yieldToRunnable ran) sched.curtask .blocked (by simp) rfl rfl

/-- A routine of the scheduler that has returned to the system. -/
theorem run {outcome : Outcome Scheduler}
    (calm : ∀ sched', outcome = .ok sched' → Calm sched sched')
    (taken : sys.run outcome = some sys') : Calm sched sys'.sched := by
  obtain ⟨sched', ran, rfl⟩ := Option.map_eq_some_iff.mp taken
  exact calm sched' (Outcome.value?_eq_some.mp ran)

theorem taskAlloc_cases (sched : Scheduler) : sched.taskAlloc = (none, sched) ∨
    ∃ task, sched.taskAlloc = (some task, { sched with tskFreel := sched.links.next task }) := by
  unfold Scheduler.taskAlloc
  cases sched.tskFreel with
  | none => exact .inl rfl
  | some task => exact .inr ⟨task, rfl⟩

/-- What a call of the running task does to handlers and states. -/
theorem call {call : Call} (taken : sys.call call = some sys') (notMark : call ≠ .markFreeing)
    (notHandler : ∀ intr task, call ≠ .addHandler intr task) : Calm sys.sched sys'.sched := by
  cases call with
  | taskAlloc =>
      rcases taskAlloc_cases sys.sched with result | ⟨task, result⟩ <;>
        simp only [System.call, result, Option.some.injEq] at taken <;> subst taken <;>
        exact keep rfl rfl
  | taskFree task =>
      simp only [System.call, Option.ite_none_right_eq_some, Option.some.injEq] at taken
      obtain ⟨-, rfl⟩ := taken
      exact set task (show TState.free ≠ .freeing by simp) rfl rfl
  | taskStart task pri =>
      simp only [System.call, Option.ite_none_right_eq_some, Option.some.injEq] at taken
      obtain ⟨-, rfl⟩ := taken
      exact set task (show TState.ready ≠ .freeing by simp) rfl rfl
  | addHandler intr task => exact absurd rfl (notHandler intr task)
  | schAsync task pri =>
      simp only [System.call, Option.ite_none_right_eq_some, Option.some.injEq] at taken
      obtain ⟨-, rfl⟩ := taken
      have reserved : Calm sys.sched (sys.sched.taskReserve task pri) :=
        set task (show TState.blocked ≠ .freeing by simp) rfl rfl
      exact reserved.trans (set task (show TState.ready ≠ .freeing by simp) rfl rfl)
  | semaDown index => exact run (fun _ => semaDown) taken
  | semaUp index => exact run (fun _ => semaUp) taken
  | taskBlock index => exact run (fun _ => taskBlock) taken
  | taskUnblock task =>
      cases task with
      | none => cases taken; exact taskUnblock none
      | some task =>
          simp only [System.call, Option.ite_none_left_eq_some, Option.some.injEq] at taken
          obtain ⟨-, rfl⟩ := taken
          exact taskUnblock (some task)
  | taskSleep ticks => exact run (fun _ => taskSleep) taken
  | markFreeing => exact absurd rfl notMark
  | taskExit =>
      simp only [System.call, Option.ite_none_left_eq_some] at taken
      exact run (fun _ => taskExit) taken.2

/-- What an action does to handlers and states. -/
theorem step {action : Action} (taken : sys.step action = some sys')
    (notMark : action ≠ .call .markFreeing)
    (notHandler : ∀ intr task, action ≠ .call (.addHandler intr task)) :
    Calm sys.sched sys'.sched := by
  cases action with
  | tick =>
      obtain ⟨before, reaches, taken⟩ := Option.bind_eq_some_iff.mp taken
      exact (timerTick (Outcome.value?_eq_some.mp reaches)).trans (run (fun _ => iswitch) taken)
  | intr intr =>
      obtain ⟨before, reaches, taken⟩ := Option.bind_eq_some_iff.mp taken
      simp only [System.atIswitch, Option.ite_none_left_eq_some, Option.map_eq_some_iff] at reaches
      obtain ⟨-, task, -, rfl⟩ := reaches
      exact afterSet (run (fun _ => iswitch) taken) task .ready (by simp) rfl rfl
  | intrEnd intr =>
      simp only [System.step, Option.ite_none_right_eq_some] at taken
      exact run (fun _ => taskExit) taken.2
  | call c =>
      simp only [System.step, Option.ite_none_left_eq_some] at taken
      exact call taken.2 (fun same => notMark (same ▸ rfl))
        fun intr task same => notHandler intr task (same ▸ rfl)
  | idlePick =>
      simp only [System.step, Option.ite_none_right_eq_some, Option.some.injEq] at taken
      obtain ⟨-, rfl⟩ := taken
      exact refl _
  | idleYield =>
      simp only [System.step, Option.ite_none_right_eq_some, Option.map_eq_some_iff] at taken
      obtain ⟨-, next, -, rfl⟩ := taken
      exact set next (show TState.run ≠ .freeing by simp) rfl rfl

end Calm

section Held

variable {sys sys' : System} {task : Task}

theorem held_run {outcome : Outcome Scheduler} (taken : sys.run outcome = some sys')
    (member : task ∈ sys.held) : task ∈ sys'.held := by
  obtain ⟨sched', -, rfl⟩ := Option.map_eq_some_iff.mp taken
  exact member

/-- An allocated task stays one until a call uses it. -/
theorem held_call {call : Call} (taken : sys.call call = some sys') (member : task ∈ sys.held)
    (unused : usedTask (.call call) ≠ some task) : task ∈ sys'.held := by
  have erased : ∀ {other}, usedTask (.call call) = some other → task ∈ sys.held.erase other :=
    fun used => (List.mem_erase_of_ne fun same => unused (used.trans (by rw [same]))).mpr member
  cases call with
  | taskAlloc =>
      rcases Calm.taskAlloc_cases sys.sched with result | ⟨other, result⟩ <;>
        simp only [System.call, result, Option.some.injEq] at taken <;> subst taken
      · exact member
      · exact List.mem_cons_of_mem _ member
  | taskFree other =>
      simp only [System.call, Option.ite_none_right_eq_some, Option.some.injEq] at taken
      obtain ⟨-, rfl⟩ := taken
      exact erased rfl
  | taskStart other pri =>
      simp only [System.call, Option.ite_none_right_eq_some, Option.some.injEq] at taken
      obtain ⟨-, rfl⟩ := taken
      exact erased rfl
  | addHandler intr other =>
      simp only [System.call, Option.ite_none_right_eq_some, Option.some.injEq] at taken
      obtain ⟨-, rfl⟩ := taken
      exact erased rfl
  | schAsync other pri =>
      simp only [System.call, Option.ite_none_right_eq_some, Option.some.injEq] at taken
      obtain ⟨-, rfl⟩ := taken
      exact erased rfl
  | semaDown index => exact held_run taken member
  | semaUp index => exact held_run taken member
  | taskBlock index => exact held_run taken member
  | taskUnblock other =>
      cases other with
      | none =>
          cases taken
          exact member
      | some other =>
          simp only [System.call, Option.ite_none_left_eq_some, Option.some.injEq] at taken
          obtain ⟨-, rfl⟩ := taken
          exact member
  | taskSleep ticks => exact held_run taken member
  | markFreeing =>
      simp only [System.call, Option.ite_none_left_eq_some, Option.some.injEq] at taken
      obtain ⟨-, rfl⟩ := taken
      exact member
  | taskExit =>
      simp only [System.call, Option.ite_none_left_eq_some] at taken
      exact held_run taken.2 member

theorem held_step {action : Action} (taken : sys.step action = some sys')
    (member : task ∈ sys.held) (unused : usedTask action ≠ some task) : task ∈ sys'.held := by
  cases action with
  | tick =>
      obtain ⟨before, -, taken⟩ := Option.bind_eq_some_iff.mp taken
      exact held_run taken member
  | intr intr =>
      obtain ⟨before, -, taken⟩ := Option.bind_eq_some_iff.mp taken
      obtain ⟨sched', -, rfl⟩ := Option.map_eq_some_iff.mp taken
      exact member
  | intrEnd intr =>
      simp only [System.step, Option.ite_none_right_eq_some] at taken
      obtain ⟨sched', -, rfl⟩ := Option.map_eq_some_iff.mp taken.2
      exact member
  | idlePick =>
      simp only [System.step, Option.ite_none_right_eq_some, Option.some.injEq] at taken
      obtain ⟨-, rfl⟩ := taken
      exact member
  | idleYield =>
      simp only [System.step, Option.ite_none_right_eq_some, Option.map_eq_some_iff] at taken
      obtain ⟨-, next, -, rfl⟩ := taken
      exact member
  | call c =>
      simp only [System.step, Option.ite_none_left_eq_some] at taken
      exact held_call taken.2 member unused

end Held

namespace ExitSystem

/-! ## The invariant -/

variable (s : ExitSystem)

/-- The task slots that `task_init` leaves on the free list. -/
def slots : List Task := (List.finRange MAX_TASK).drop 2

/-- What a task that has come to a place can rely on. -/
def PlaceOk (task : Task) : Place → Prop
  | .hasTask _ made => made ∈ s.live ∧ made ∈ s.sys.held
  | .exits _ own => own = some task ∧ task ∈ s.live
  | .gone own => own = some task ∧ task ∈ s.live
  | .exited => task = s.cur ∧ s.sys.sched.state task = .freeing ∧ task ∈ s.live ∧
      s.process task = none
  | _ => True

/-- The invariant of guarded runs. -/
structure Inv (s : ExitSystem) (lists : QueueId → List Task) (free : List Task) : Prop where
  sys : s.sys.Inv lists free
  slots : (free ++ (s.live ++ s.kernel)).Perm slots
  intr : ∀ i task, s.sys.sched.intrTask i = some task → task ∈ s.kernel
  process : ∀ task slot, s.process task = some slot → task ∈ s.live
  place : ∀ task, s.PlaceOk task (s.place task)
  maker : ∀ a b i j task, s.place a = .hasTask i task → s.place b = .hasTask j task → a = b
  freeing : ∀ task, s.sys.sched.state task = .freeing → s.place task = .exited

theorem third_perm {α : Type} (first second third : List α) (a : α) :
    (first ++ (second ++ a :: third)).Perm (a :: first ++ (second ++ third)) :=
  (List.perm_middle.append_left first).trans List.perm_middle

theorem start_inv (counts : Nat → Int) : (start counts).Inv System.startLists slots := by
  refine ⟨System.start_inv counts, by simp [start], ?_, by simp [start], fun task => trivial,
    by simp [start], fun task marked => ?_⟩
  · intro i task isIntr
    have none : (System.start counts).sched.intrTask i = none := rfl
    simp [start, none] at isIntr
  · simp only [start, System.start_state] at marked
    split at marked <;> cases marked

variable {s} {s' : ExitSystem} {lists lists' : QueueId → List Task} {free free' : List Task}
variable {task : Task}

/-- What a place promises goes on to hold if the tasks that it names stay in use. -/
theorem PlaceOk.frame {place : Place} (ok : s.PlaceOk task place) (notExited : place ≠ .exited)
    (own : task ∈ s.live → task ∈ s'.live)
    (made : ∀ i made, place = .hasTask i made → made ∈ s.live → made ∈ s.sys.held →
      made ∈ s'.live ∧ made ∈ s'.sys.held) : s'.PlaceOk task place := by
  cases place with
  | hasTask i other => exact made i other rfl ok.1 ok.2
  | exits slot other => exact ⟨ok.1, own ok.2⟩
  | gone other => exact ⟨ok.1, own ok.2⟩
  | exited => exact absurd rfl notExited
  | _ => trivial

section Inv

variable (inv : s.Inv lists free)

include inv

theorem Inv.nodup : (free ++ (s.live ++ s.kernel)).Nodup :=
  inv.slots.nodup_iff.mpr ((List.nodup_finRange MAX_TASK).sublist (List.drop_sublist _ _))

theorem Inv.live_not_kernel (isLive : task ∈ s.live) : task ∉ s.kernel := fun isKernel =>
  List.disjoint_of_nodup_append inv.nodup.of_append_right isLive isKernel

theorem Inv.live_not_idle (isLive : task ∈ s.live) : task ≠ idleTask := by
  rintro rfl
  have isSlot := inv.slots.subset
    (List.mem_append_right free (List.mem_append_left s.kernel isLive))
  exact absurd isSlot (by decide)

/-- Only the running task has left `_exit`. -/
theorem Inv.awake (here : s.place s.cur ≠ .exited) (task : Task) : s.place task ≠ .exited := by
  intro exited
  have ok := inv.place task
  rw [exited] at ok
  exact here (ok.1 ▸ exited)

/-- A step that frees no task of a process, lets no task leave `_exit` and gives no
task of a process to a call of `exec`. -/
theorem Inv.advance (awake : ∀ task, s.place task ≠ .exited) (inv' : s'.sys.Inv lists' free')
    (slots : (free' ++ (s'.live ++ s'.kernel)).Perm (free ++ (s.live ++ s.kernel)))
    (intr : ∀ i task, s'.sys.sched.intrTask i = some task → task ∈ s'.kernel)
    (process : ∀ task slot, s'.process task = some slot → task ∈ s'.live)
    (live : ∀ task ∈ s.live, task ∈ s'.live)
    (freeing : ∀ task, s'.sys.sched.state task = .freeing → s.sys.sched.state task = .freeing)
    (tasks : ∀ a i task, s'.place a = .hasTask i task →
      s.place a = .hasTask i task ∧ task ∈ s'.sys.held)
    (places : ∀ a, s'.place a = s.place a ∨ s'.PlaceOk a (s'.place a)) : s'.Inv lists' free' := by
  refine ⟨inv', slots.trans inv.slots, intr, process, fun a => ?_, ?_, fun task marked => ?_⟩
  · rcases places a with same | ok
    · have ok := inv.place a
      rw [← same] at ok
      exact ok.frame (same ▸ awake a) (live a) fun i made isTask isLive _ =>
        ⟨live made isLive, (tasks a i made isTask).2⟩
    · exact ok
  · intro a b i j task isA isB
    exact inv.maker a b i j task (tasks a i task isA).1 (tasks b j task isB).1
  · exact absurd (inv.freeing task (freeing task marked)) (awake task)

/-- What an action does to the slots that are spare or in use. -/
theorem Inv.slots_sched {action : Action} (allowed : s.Allowed action = true)
    (alive : s.sys.sched.state s.cur ≠ .freeing) :
    (System.freeAfter s.sys.sched free action ++ (s.live ++ s.kernelAfter action)).Perm
      (free ++ (s.live ++ s.kernel)) := by
  cases action with
  | call c =>
      cases c with
      | taskAlloc =>
          rcases taskAlloc_spec inv.sys.core with ⟨rfl, result⟩ | ⟨task, rest, rfl, result, -⟩
          · simp [System.freeAfter, kernelAfter, result]
          · simp only [System.freeAfter, kernelAfter, result, Option.toList_some, List.tail_cons,
              List.singleton_append]
            exact third_perm rest s.live s.kernel task
      | taskFree task =>
          have member : task ∈ s.kernel := by
            simp only [Allowed, usedTask, Option.mem_some_iff, decide_eq_true_eq] at allowed
            exact allowed.2 task rfl
          have parts := third_perm free s.live (s.kernel.erase task) task
          refine parts.symm.trans (.append_left free (.append_left s.live ?_))
          exact (List.perm_cons_erase member).symm
      | taskExit => simp [System.freeAfter, kernelAfter, alive]
      | _ => exact .refl _
  | _ => exact .refl _

/-- An action of the scheduler that the guard admits comes while no task has left
`_exit`. -/
theorem Inv.awake_sched {action : Action} {sys' : System} (allowed : s.Allowed action = true)
    (guarded : s.Guarded (.sched action)) (taken : s.sys.step action = some sys') :
    s.place s.cur ≠ .exited := by
  intro exited
  have ok := inv.place s.cur
  rw [exited] at ok
  obtain ⟨-, marked, isLive, -⟩ := ok
  cases action with
  | tick => exact guarded marked
  | intr intr => exact guarded marked
  | intrEnd intr =>
      simp only [System.step, Option.ite_none_right_eq_some] at taken
      exact inv.live_not_kernel isLive (inv.intr intr _ taken.1.1)
  | call c => cases c <;> simp [Allowed, exited] at allowed
  | idlePick =>
      simp only [System.step, Option.ite_none_right_eq_some] at taken
      exact inv.live_not_idle isLive taken.1
  | idleYield =>
      simp only [System.step, Option.ite_none_right_eq_some] at taken
      exact inv.live_not_idle isLive taken.1

/-- Interrupts are handled by tasks that the kernel has allocated. -/
theorem Inv.intr_sched {action : Action} {sys' : System} (allowed : s.Allowed action = true)
    (taken : s.sys.step action = some sys') (i : Fin 16)
    (isIntr : sys'.sched.intrTask i = some task) : task ∈ s.kernelAfter action := by
  have kept : ∀ {i task}, s.sys.sched.intrTask i = some task → task ∈ s.kernelAfter action := by
    intro i task isIntr
    have member := inv.intr i task isIntr
    cases action with
    | call c =>
        cases c with
        | taskAlloc => exact List.mem_append_right _ member
        | taskFree other =>
            simp only [System.step, System.call, Option.ite_none_left_eq_some,
              Option.ite_none_right_eq_some] at taken
            refine (List.mem_erase_of_ne fun same => ?_).mpr member
            exact (inv.sys.core.intrSpare i task isIntr).1
              (List.mem_append_right _ (same ▸ taken.2.1))
        | _ => exact member
    | _ => exact member
  by_cases handler : ∃ intr other, action = .call (.addHandler intr other)
  · obtain ⟨intr, other, rfl⟩ := handler
    simp only [System.step, System.call, Option.ite_none_left_eq_some,
      Option.ite_none_right_eq_some, Option.some.injEq] at taken
    obtain ⟨-, ⟨-, -⟩, rfl⟩ := taken
    dsimp only at isIntr
    rw [Function.update_apply] at isIntr
    split at isIntr
    · cases isIntr
      simp only [Allowed, usedTask, Option.mem_some_iff, decide_eq_true_eq] at allowed
      exact allowed.2 task rfl
    · exact kept isIntr
  · have calm := Calm.step taken (fun same => by simp [same, Allowed] at allowed)
      fun intr other same => handler ⟨intr, other, same⟩
    rw [calm.intrTask] at isIntr
    exact kept isIntr

omit inv in
/-- What is marked after an action of the scheduler was marked before. -/
theorem freeing_sched {action : Action} {sys' : System} (allowed : s.Allowed action = true)
    (taken : s.sys.step action = some sys') (marked : sys'.sched.state task = .freeing) :
    s.sys.sched.state task = .freeing := by
  by_cases handler : ∃ intr other, action = .call (.addHandler intr other)
  · obtain ⟨intr, other, rfl⟩ := handler
    simp only [System.step, System.call, Option.ite_none_left_eq_some,
      Option.ite_none_right_eq_some, Option.some.injEq] at taken
    obtain ⟨-, ⟨-, -⟩, rfl⟩ := taken
    simp only [Scheduler.taskReserve, Scheduler.setState, Function.update_apply] at marked
    split at marked
    · cases marked
    · exact marked
  · exact (Calm.step taken (fun same => by simp [same, Allowed] at allowed)
      fun intr other same => handler ⟨intr, other, same⟩).freeing task marked

/-- Actions of the scheduler keep the invariant. -/
theorem Inv.sched_step {action : Action} (guarded : s.Guarded (.sched action))
    (taken : s.step (.sched action) = some s') : ∃ lists' free', s'.Inv lists' free' := by
  simp only [ExitSystem.step, Option.ite_none_right_eq_some, Option.map_eq_some_iff] at taken
  obtain ⟨allowed, sys', taken, rfl⟩ := taken
  have here := inv.awake_sched allowed guarded taken
  have alive : s.sys.sched.state s.cur ≠ .freeing := fun marked => here (inv.freeing _ marked)
  obtain ⟨lists', inv', -⟩ := inv.sys.step_free taken
  refine ⟨lists', _, inv.advance (inv.awake here) inv' (inv.slots_sched allowed alive)
    (fun i task => inv.intr_sched allowed taken i) (fun task slot isProcess => ?_)
    (fun _ => id) (fun task => freeing_sched allowed taken) (fun a i task isTask => ⟨isTask, ?_⟩)
    fun a => .inl rfl⟩
  · refine inv.process task slot ?_
    simp only [processAfter] at isProcess
    cases used : usedTask action with
    | none => simpa [used] using isProcess
    | some other =>
        rw [used, Option.elim_some, Function.update_apply] at isProcess
        split at isProcess
        · cases isProcess
        · exact isProcess
  · have ok := inv.place a
    dsimp only at isTask
    rw [isTask] at ok
    refine held_step taken ok.2 fun used => inv.live_not_kernel ok.1 ?_
    cases action with
    | call c => cases c <;> simp_all [Allowed, usedTask]
    | _ => cases used

/-- A step of the running task that goes on to a place. -/
theorem Inv.goto_step (place : Place) (here : s.place s.cur ≠ .exited)
    (inv' : s'.sys.Inv lists' free) (calm : Calm s.sys.sched s'.sys.sched)
    (held : ∀ a i task, s'.place a = .hasTask i task → s.place a = .hasTask i task →
      task ∈ s.sys.held → task ∈ s'.sys.held)
    (sameLive : s'.live = s.live) (sameKernel : s'.kernel = s.kernel)
    (process : ∀ task slot, s'.process task = some slot → task ∈ s.live)
    (places : s'.place = update s.place s.cur place) (ok : s.PlaceOk s.cur place)
    (notTask : ∀ i task, place ≠ .hasTask i task) (notExited : place ≠ .exited) :
    s'.Inv lists' free := by
  have isTask : ∀ a i task, s'.place a = .hasTask i task → s.place a = .hasTask i task := by
    intro a i task isTask
    rw [places, Function.update_apply] at isTask
    split at isTask
    · exact absurd isTask (notTask i task)
    · exact isTask
  refine inv.advance (inv.awake here) inv' (by rw [sameLive, sameKernel])
    (by rw [calm.intrTask, sameKernel]; exact inv.intr) (by rw [sameLive]; exact process)
    (by rw [sameLive]; exact fun _ => id) calm.freeing
    (fun a i task hasTask => ⟨isTask a i task hasTask, ?_⟩) fun a => ?_
  · have ok := inv.place a
    rw [isTask a i task hasTask] at ok
    exact held a i task hasTask (isTask a i task hasTask) ok.2
  · rw [places, Function.update_apply]
    split
    · subst_vars
      exact .inr (ok.frame notExited (fun isLive => sameLive ▸ isLive)
        fun i task isTask => absurd isTask (notTask i task))
    · exact .inl rfl

/-- A step of the running task that changes the process table only. -/
theorem Inv.table_step (place : Place) (here : s.place s.cur ≠ .exited) (sameSys : s'.sys = s.sys)
    (sameLive : s'.live = s.live) (sameKernel : s'.kernel = s.kernel)
    (sameProcess : s'.process = s.process) (places : s'.place = update s.place s.cur place)
    (ok : s.PlaceOk s.cur place) (notTask : ∀ i task, place ≠ .hasTask i task)
    (notExited : place ≠ .exited) : s'.Inv lists free :=
  inv.goto_step place here (sameSys ▸ inv.sys) (sameSys ▸ .refl _) (fun _ _ _ _ _ => sameSys ▸ id)
    sameLive sameKernel (sameProcess ▸ inv.process) places ok notTask notExited

/-- `task_alloc` for a new process. -/
theorem Inv.taskAlloc_step {slot : Slot} (notIdle : s.cur ≠ idleTask)
    (here : s.place s.cur = .hasSlot slot)
    (taken : s.stepCurrent .taskAlloc (.hasSlot slot) = some s') :
    ∃ lists' free', s'.Inv lists' free' := by
  have awake := inv.awake (here ▸ by simp)
  rcases taskAlloc_spec inv.sys.core with ⟨-, result⟩ | ⟨task, rest, rfl, result, -⟩
  · simp only [stepCurrent, result, Option.some.injEq] at taken
    subst taken
    exact ⟨_, _, inv.table_step .outside (here ▸ by simp) rfl rfl rfl rfl rfl trivial (by simp)
      (by simp)⟩
  · simp only [stepCurrent, result, Option.some.injEq] at taken
    have called : s.sys.call .taskAlloc = some s'.sys := by
      simp only [System.call, result, ← taken]
      rfl
    obtain ⟨lists', inv', -⟩ := inv.sys.call_step notIdle called
    have isFree : task ∉ s.sys.held ∧ task ∉ s.live := by
      have spare := inv.sys.core.spareNodup
      have slots := inv.nodup
      simp only [List.cons_append, List.nodup_cons, List.mem_append, not_or] at spare slots
      exact ⟨spare.1.2, slots.1.2.1⟩
    subst taken
    have places : ∀ a i made, update s.place s.cur (.hasTask slot task) a = .hasTask i made →
        a = s.cur ∧ made = task ∨ a ≠ s.cur ∧ s.place a = .hasTask i made := by
      intro a i made isTask
      rw [Function.update_apply] at isTask
      split at isTask
      · cases isTask
        exact .inl ⟨‹_›, rfl⟩
      · exact .inr ⟨‹_›, isTask⟩
    have other : ∀ a i made, s.place a = .hasTask i made → made ∈ s.live ∧ made ∈ s.sys.held := by
      intro a i made isTask
      have ok := inv.place a
      rwa [isTask] at ok
    refine ⟨lists', rest, inv', ?_, inv.intr, ?_, fun a => ?_, ?_, fun task marked => ?_⟩
    · refine List.Perm.trans ?_ inv.slots
      exact List.perm_middle
    · exact fun task slot isProcess => List.mem_cons_of_mem _ (inv.process task slot isProcess)
    · by_cases same : a = s.cur
      · subst same
        simp only [goto, Function.update_self]
        exact ⟨List.mem_cons_self, List.mem_cons_self⟩
      · simp only [goto, Function.update_of_ne same]
        exact (inv.place a).frame (awake a) (List.mem_cons_of_mem _) fun i made _ isLive isHeld =>
          ⟨List.mem_cons_of_mem _ isLive, List.mem_cons_of_mem _ isHeld⟩
    · intro a b i j made isA isB
      rcases places a i made isA with ⟨rfl, rfl⟩ | ⟨-, oldA⟩
      · rcases places b j _ isB with ⟨rfl, -⟩ | ⟨-, oldB⟩
        · rfl
        · exact absurd (other b j _ oldB).1 isFree.2
      · rcases places b j made isB with ⟨-, rfl⟩ | ⟨-, oldB⟩
        · exact absurd (other a i _ oldA).1 isFree.2
        · exact inv.maker a b i j made oldA oldB
    · exact absurd (inv.freeing task marked) (awake task)

/-- `task_exit` for the task of a process that has left `_exit`: it goes back to the
free list. -/
theorem Inv.exit_step (here : s.place s.cur = .exited) :
    ∃ s' lists', s.step .taskExit = some s' ∧ s'.Inv lists' (s.cur :: free) ∧
      s'.sys.sched.tskFreel = some s.cur ∧ s'.sys.sched.state s.cur = .free := by
  have ok := inv.place s.cur
  rw [here] at ok
  obtain ⟨-, marked, isLive, noProcess⟩ := ok
  have notIdle := inv.live_not_idle isLive
  have notIntr : ∀ i, s.sys.sched.intrTask i ≠ some s.cur := fun i isIntr =>
    inv.live_not_kernel isLive (inv.intr i _ isIntr)
  have exits : s.sys.sched.taskExit.value?.isSome := by
    obtain ⟨sched', ran, -⟩ := taskExit_spec inv.sys.core inv.sys.current.member notIdle
      fun _ => notIntr
    rw [ran]
    rfl
  obtain ⟨sched', ran⟩ := Option.isSome_iff_exists.mp exits
  have called : s.sys.call .taskExit = some { s.sys with sched := sched' } := by
    simp only [System.call, System.IsIntr, notIntr, exists_false, if_false, System.run, ran,
      Option.map_some]
  obtain ⟨lists', inv', -⟩ := inv.sys.call_step notIdle called
  simp only [System.freeAfter, marked, if_true] at inv'
  have calm : Calm s.sys.sched sched' := Calm.taskExit (Outcome.value?_eq_some.mp ran)
  have first : sched'.tskFreel = some s.cur := inv'.core.freel.1
  have freed : sched'.state s.cur = .free := by
    have next := (inv'.core.owned inv'.current.member).1
    have ne : s.cur ≠ sched'.curtask := fun same => next (same ▸ List.mem_cons_self)
    have ran := Outcome.value?_eq_some.mp ran
    simp only [Scheduler.taskExit, Scheduler.yieldToRunnable] at ran
    split at ran
    · split at ran
      · cases ran
        exact (Function.update_of_ne ne _ _).trans (Function.update_self _ _ _)
      · cases ran
    · contradiction
  have notHeld : s.cur ∉ s.sys.held := fun isHeld =>
    (inv.sys.core.owned inv.sys.current.member).1 (List.mem_append_right _ isHeld)
  have others : ∀ task, task ≠ s.cur → s.place task ≠ .exited := by
    intro task ne exited
    have ok := inv.place task
    rw [exited] at ok
    exact ne ok.1
  have kept : ∀ {task}, task ≠ s.cur → task ∈ s.live → task ∈ s.live.erase s.cur :=
    fun ne isLive => (List.mem_erase_of_ne ne).mpr isLive
  have places : ∀ a i made, update s.place s.cur .outside a = .hasTask i made →
      s.place a = .hasTask i made := by
    intro a i made isTask
    rw [Function.update_apply] at isTask
    split at isTask
    · cases isTask
    · exact isTask
  refine ⟨{ s with
      sys := { s.sys with sched := sched' }
      live := s.live.erase s.cur
      place := update s.place s.cur .outside }, lists', ?_, ⟨inv', ?_, ?_, ?_, fun a => ?_, ?_,
    fun task isMarked => ?_⟩, first, freed⟩
  · simp only [step, if_neg notIdle, here, stepCurrent, System.run, ran, Option.map_some]
  · have back : (s.live.erase s.cur ++ s.cur :: s.kernel).Perm (s.live ++ s.kernel) :=
      List.perm_middle.trans ((List.perm_cons_erase isLive).symm.append_right s.kernel)
    exact ((third_perm free _ s.kernel s.cur).symm.trans (back.append_left free)).trans inv.slots
  · exact fun i task isIntr => inv.intr i task (calm.intrTask ▸ isIntr)
  · intro task slot isProcess
    refine kept ?_ (inv.process task slot isProcess)
    rintro rfl
    simp [noProcess] at isProcess
  · by_cases same : a = s.cur
    · subst same
      simp only [Function.update_self]
      trivial
    · simp only [Function.update_of_ne same]
      exact (inv.place a).frame (others a same) (kept same) fun i made _ isLive isHeld =>
        ⟨kept (fun isCur => notHeld (isCur ▸ isHeld)) isLive, isHeld⟩
  · intro a b i j made isA isB
    exact inv.maker a b i j made (places a i made isA) (places b j made isB)
  · have ne : task ≠ s.cur := by
      rintro rfl
      simp [freed] at isMarked
    exact absurd (inv.freeing task (calm.freeing task isMarked)) (others task ne)

/-- `task_from_proc` puts the task of a new process on its run queue. -/
theorem Inv.taskFromProc_step {slot : Slot} {made : Task} (notIdle : s.cur ≠ idleTask)
    (here : s.place s.cur = .hasTask slot made)
    (taken : s.stepCurrent .taskFromProc (.hasTask slot made) = some s') :
    ∃ lists' free', s'.Inv lists' free' := by
  obtain ⟨sys', called, rfl⟩ := Option.map_eq_some_iff.mp taken
  obtain ⟨lists', inv', -⟩ := inv.sys.call_step notIdle called
  have isMade := inv.place s.cur
  rw [here] at isMade
  refine ⟨lists', free, inv.goto_step (.queued slot made) (here ▸ by simp) inv'
    (Calm.call called (by simp) (by simp)) (fun a i task isTask wasTask isHeld => ?_) rfl rfl
    (fun task i isProcess => ?_) rfl trivial (by simp) (by simp)⟩
  · have ne : task ≠ made := by
      rintro rfl
      obtain rfl := inv.maker a s.cur i slot task wasTask here
      simp at isTask
    simp only [System.call, isMade.2, if_true, Option.some.injEq] at called
    subst called
    exact (List.mem_erase_of_ne ne).mpr isHeld
  · simp only [Function.update_apply] at isProcess
    split at isProcess
    · exact ‹task = made› ▸ isMade.1
    · exact inv.process task i isProcess

/-- `_exit` marks the task of the process. -/
theorem Inv.mark_step {own : Option Task} (notIdle : s.cur ≠ idleTask)
    (here : s.place s.cur = .gone own) (taken : s.stepCurrent .mark (.gone own) = some s') :
    ∃ lists' free', s'.Inv lists' free' := by
  have ok := inv.place s.cur
  rw [here] at ok
  obtain ⟨rfl, isLive⟩ := ok
  have awake := inv.awake (here ▸ by simp)
  simp only [stepCurrent, Option.some.injEq] at taken
  have notIntr : ∀ i, s.sys.sched.intrTask i ≠ some s.cur := fun i isIntr =>
    inv.live_not_kernel isLive (inv.intr i _ isIntr)
  have called : s.sys.call .markFreeing = some s'.sys := by
    simp only [System.call, System.IsIntr, notIntr, exists_false, if_false, ← taken]
    rfl
  obtain ⟨lists', inv', -⟩ := inv.sys.call_step notIdle called
  subst taken
  have places : ∀ a, a ≠ s.cur → update s.place s.cur .exited a = s.place a := fun a ne =>
    Function.update_of_ne ne _ _
  have isTask : ∀ a i made, update s.place s.cur .exited a = .hasTask i made →
      s.place a = .hasTask i made := by
    intro a i made isTask
    by_cases same : a = s.cur
    · subst same
      simp at isTask
    · rwa [places a same] at isTask
  refine ⟨lists', free, inv', inv.slots, inv.intr, fun task slot isProcess => ?_, fun a => ?_,
    fun a b i j made isA isB => ?_, fun task marked => ?_⟩
  · simp only [goto, Function.update_apply] at isProcess
    split at isProcess
    · cases isProcess
    · exact inv.process task slot isProcess
  · by_cases same : a = s.cur
    · subst same
      change ExitSystem.PlaceOk _ _ (update s.place s.cur .exited s.cur)
      rw [Function.update_self]
      exact ⟨rfl, Function.update_self _ _ _, isLive, Function.update_self _ _ _⟩
    · change ExitSystem.PlaceOk _ _ (update s.place s.cur .exited a)
      rw [places a same]
      exact (inv.place a).frame (awake a) id fun _ _ _ isLive isHeld => ⟨isLive, isHeld⟩
  · exact inv.maker a b i j made (isTask a i made isA) (isTask b j made isB)
  · by_cases same : task = s.cur
    · subst same
      exact Function.update_self _ _ _
    · have before : s.sys.sched.state task = .freeing := by
        simpa [goto, Scheduler.setState, Function.update_of_ne same] using marked
      exact absurd (inv.freeing task before) (awake task)

/-- The steps of `exec`, `_wait` and `_exit` keep the invariant. -/
theorem Inv.current_step {action : ExitAction} {place : Place} (notIdle : s.cur ≠ idleTask)
    (guarded : s.Guarded action) (here : s.place s.cur = place)
    (taken : s.stepCurrent action place = some s') : ∃ lists' free', s'.Inv lists' free' := by
  have away : place ≠ .exited → s.place s.cur ≠ .exited := fun ne => here ▸ ne
  have stay : s.place = update s.place s.cur place := by rw [← here, Function.update_eq_self]
  unfold stepCurrent at taken
  split at taken
  · -- `proc_alloc` finds a slot, or does not
    cases taken
    split
    · exact ⟨lists, free, inv⟩
    · exact ⟨lists, free, inv.table_step (.hasPid _) (away (by simp)) rfl rfl rfl rfl rfl trivial
        (by simp) (by simp)⟩
  · cases taken
    exact ⟨lists, free, inv.table_step (.hasSlot _) (away (by simp)) rfl rfl rfl rfl rfl trivial
      (by simp) (by simp)⟩
  · exact inv.taskAlloc_step notIdle here taken
  · exact inv.taskFromProc_step notIdle here taken
  · cases taken
    exact ⟨lists, free, inv.table_step (.stored _) (away (by simp)) rfl rfl rfl rfl rfl trivial
      (by simp) (by simp)⟩
  · cases taken
    exact ⟨lists, free, inv.table_step (.adopted _) (away (by simp)) rfl rfl rfl rfl rfl trivial
      (by simp) (by simp)⟩
  · cases taken
    split <;> exact ⟨lists, free, inv.table_step .outside (away (by simp)) rfl rfl rfl rfl rfl
      trivial (by simp) (by simp)⟩
  · -- `_wait` frees an exited child, or blocks
    obtain ⟨slot, isProcess, taken⟩ := Option.bind_eq_some_iff.mp taken
    split at taken
    · cases taken
      exact ⟨lists, free, inv.table_step .outside (away (by simp)) rfl rfl rfl rfl stay trivial
        (by simp) (by simp)⟩
    · obtain ⟨sys', called, rfl⟩ := Option.map_eq_some_iff.mp taken
      obtain ⟨lists', inv', -⟩ := inv.sys.call_step notIdle called
      exact ⟨lists', free, inv.goto_step .outside (away (by simp)) inv'
        (Calm.call called (by simp) (by simp))
        (fun _ _ _ _ _ isHeld => held_call called isHeld (by simp [usedTask])) rfl rfl inv.process
        stay trivial (by simp) (by simp)⟩
  · -- `_exit` takes the task of the process
    obtain ⟨slot, isProcess, rfl⟩ := Option.map_eq_some_iff.mp taken
    exact ⟨lists, free, inv.table_step (.exits slot _) (away (by simp)) rfl rfl rfl rfl rfl
      ⟨guarded slot isProcess, inv.process _ slot isProcess⟩ (by simp) (by simp)⟩
  · -- the process is freed, or becomes a zombie and its parent is woken
    have ok := inv.place s.cur
    rw [here] at ok
    split at taken
    · cases taken
      exact ⟨lists, free, inv.table_step (.gone _) (away (by simp)) rfl rfl rfl rfl rfl ok
        (by simp) (by simp)⟩
    · obtain ⟨sys', called, rfl⟩ := Option.map_eq_some_iff.mp taken
      obtain ⟨lists', inv', -⟩ := inv.sys.call_step notIdle called
      exact ⟨lists', free, inv.goto_step (.gone _) (away (by simp)) inv'
        (Calm.call called (by simp) (by simp))
        (fun _ _ _ _ _ isHeld => held_call called isHeld (by simp [usedTask])) rfl rfl inv.process
        rfl ok (by simp) (by simp)⟩
  · exact inv.mark_step notIdle here taken
  · exact inv.mark_step notIdle here taken
  · obtain ⟨s'', lists', taken', inv', -⟩ := inv.exit_step here
    simp only [step, if_neg notIdle, here] at taken'
    obtain rfl := Option.some.inj (taken'.symm.trans taken)
    exact ⟨lists', _, inv'⟩
  · cases taken

/-- Every guarded step keeps the invariant. -/
theorem Inv.step {action : ExitAction} (guarded : s.Guarded action)
    (taken : s.step action = some s') : ∃ lists' free', s'.Inv lists' free' := by
  cases action with
  | sched action => exact inv.sched_step guarded taken
  | _ =>
      simp only [ExitSystem.step, Option.ite_none_left_eq_some] at taken
      exact inv.current_step taken.1 guarded rfl taken.2

end Inv

/-! ## Every run -/

/-- In every guarded run a process that has left `_exit` is running and its task is
marked, so that `task_exit` puts the task on the free list; and the task slots are
those on the free list, those of the kernel and those of processes that have not been
through `task_exit`. -/
theorem exited_task_reclaimed {counts : Nat → Int}
    (reached : Reached (· = start counts) (fun s a s' => s.step a = some s') Guarded s) :
    (∀ task, s.place task = .exited → s.sys.sched.state task = .freeing ∧
      ∃ s', s.step .taskExit = some s' ∧ s'.sys.sched.tskFreel = some task ∧
        s'.sys.sched.state task = .free) ∧
    ∃ free, NextList s.sys.sched.links.next s.sys.sched.tskFreel free ∧
      (free ++ (s.live ++ s.kernel)).Perm slots := by
  have holds : ∃ lists free, s.Inv lists free := by
    refine reached.invariant (fun s => ∃ lists free, s.Inv lists free) ?_ ?_
    · rintro _ rfl
      exact ⟨_, _, start_inv counts⟩
    · rintro s s' action ⟨lists, free, inv⟩ guarded taken
      exact inv.step guarded taken
  obtain ⟨lists, free, inv⟩ := holds
  refine ⟨fun task exited => ?_, free, inv.sys.core.freel, inv.slots⟩
  have ok := inv.place task
  rw [exited] at ok
  obtain ⟨rfl, marked, -⟩ := ok
  obtain ⟨s', lists', taken, -, first, freed⟩ := inv.exit_step exited
  exact ⟨marked, s', taken, first, freed⟩

/-- `exec` from its beginning to its end, a tick that switches to the new process, and
`_exit` of that up to its end. -/
def execAndExit : List ExitAction :=
  [.procAlloc, .procInit, .taskAlloc, .taskFromProc, .storeTask, .storeParent, .dupHandles true,
    .sched .tick, .exit, .notify, .mark]

/-- The case of the first process. -/
theorem exited_task_reclaimed_first : ∃ s, runs step (start fun _ => 0) execAndExit = some s ∧
    s.place 2 = .exited ∧ s.sys.sched.state 2 = .freeing ∧
      ∃ s', s.step .taskExit = some s' ∧ s'.sys.sched.tskFreel = some 2 := by
  have along : Along step Guarded (start fun _ => 0) execAndExit := by decide +kernel
  have ran : (runs step (start fun _ => 0) execAndExit).map (·.place 2) = some .exited := by
    decide +kernel
  obtain ⟨s, ran, exited⟩ := Option.map_eq_some_iff.mp ran
  obtain ⟨marked, s', taken, first, -⟩ :=
    (exited_task_reclaimed (reached_of_runs rfl along ran)).1 2 exited
  exact ⟨s, ran, exited, marked, s', taken, first⟩

/-- Two ticks between `_exit` and the dispatcher: the task has become running again,
and `task_exit` leaves it blocked and does not put it on the free list. -/
theorem preempted_exit_leaks_task :
    (runs step (start fun _ => 0) (execAndExit ++ [.sched .tick, .sched .tick])).map
      (fun s => (s.place 2, s.sys.sched.state 2)) = some (.exited, .run) ∧
    (runs step (start fun _ => 0) (execAndExit ++ [.sched .tick, .sched .tick, .taskExit])).map
      (fun s => (s.sys.sched.state 2, s.sys.sched.tskFreel, s.live)) =
        some (.blocked, some 3, []) := by
  decide +kernel

end ExitSystem

end Pegasos.Kernel.Proc
