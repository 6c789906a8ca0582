import Pegasos.Kernel.Sched.TaskQueue
import Pegasos.Support.Outcome

/-!
# The scheduler

The routines of `TASK.C`, `semap.c` and `tasksw.asm` as functions on the task
table, the run queues and the other variables of the scheduler.  A routine that
ends by switching to another task returns the state in which that task starts
running.  Stacks and saved registers are not modelled.
-/

namespace Pegasos.Kernel.Sched

open Pegasos.Support
open Function (update)

abbrev MAX_TASK : Nat := 32
abbrev TASK_NPRI : Nat := 20

/-- A slot of the task table. -/
abbrev Task := Fin MAX_TASK

/-- The priority of a task, which selects its run queue. -/
abbrev Pri := Fin TASK_NPRI

def TASK_PRI_NORM : Pri := 17
def TASK_PRI_IDLE : Pri := 19

/-- `tstate_t`. -/
inductive TState where
  | free
  | run
  | ready
  | blocked
  | freeing
  deriving DecidableEq, Repr

/-- The queues of the kernel: the run queues, the sleeping queue, the blocked
queues of other objects and of semaphores. -/
inductive QueueId where
  | tqueue (pri : Pri)
  | sleeping
  | object (index : Nat)
  | sema (index : Nat)
  deriving DecidableEq, Repr

/-- `semaph_t`; its `blocked` queue is `QueueId.sema`. -/
structure Semaph where
  sig : Nat
  count : Int
  deriving DecidableEq, Repr

def SEMA_SIG : Nat := 0x4153

/-- The variables of the scheduler, and `intrs[i].task`. -/
structure Scheduler where
  links : TaskLinks Task QueueId
  state : Task → TState
  pri : Task → Pri
  due : Task → Nat
  curtask : Task
  tskFreel : Option Task
  tickcnt : Nat
  semas : Nat → Semaph
  intrTask : Fin 16 → Option Task

/-- Loops over tasks end within this many rounds unless a queue is corrupt. -/
def taskFuel : Nat := MAX_TASK + 1

/-- A 16-bit `int`. -/
def int16 (value : Int) : Int := value.bmod 0x10000

namespace Scheduler

variable (sched : Scheduler)

def setState (task : Task) (state : TState) : Scheduler :=
  { sched with state := update sched.state task state }

/-- `ENQUEUE`. -/
def enqueue (task : Task) : Scheduler :=
  { sched with links := taskqPush sched.links (.tqueue (sched.pri task)) task }

/-- `task_dequeue` on the scheduler's tasks. -/
def dequeue (task : Task) : Scheduler :=
  { sched with links := taskDequeue sched.links task }

/-- `taskq_push` on the scheduler's tasks. -/
def push (queue : QueueId) (task : Task) : Scheduler :=
  { sched with links := taskqPush sched.links queue task }

/-- The loop of `task_runnable`: the head of the first run queue with a task. -/
def taskRunnable : Option Task :=
  (List.finRange TASK_NPRI).findSome? fun i => sched.links.head (.tqueue i)

/-- `swtosi`: start running a task. -/
def swtosi (task : Task) : Scheduler :=
  { sched.setState task .run with curtask := task }

/-- `task_yield_to(task_runnable())`, and the same two steps in assembly. -/
def yieldToRunnable : Outcome Scheduler :=
  match sched.taskRunnable with
  | some task => .ok (sched.swtosi task)
  | none => .panic "No runnable tasks!"

/-- `iswitch`: put the interrupted task behind the others of its priority. -/
def iswitch : Outcome Scheduler :=
  let sched := sched.setState sched.curtask .ready
  let sched := { sched with
    links := sched.links.setHead (.tqueue (sched.pri sched.curtask))
      (sched.links.next sched.curtask) }
  sched.yieldToRunnable

/-- The loop of `task_wake`. -/
def taskWakeLoop : Nat → Scheduler → Outcome Scheduler
  | 0, _ => .hang
  | fuel + 1, sched =>
      match sched.links.head .sleeping with
      | none => .ok sched
      | some p =>
          if sched.due p = sched.tickcnt then
            taskWakeLoop fuel (((sched.dequeue p).setState p .ready).enqueue p)
          else .ok sched

/-- `task_wake`. -/
def taskWake : Outcome Scheduler := taskWakeLoop taskFuel sched

/-- `_timer_handler` up to the context switch. -/
def timerTick : Outcome Scheduler :=
  taskWake { sched with tickcnt := (sched.tickcnt + 1) % 0x100000000 }

/-- The search loop of `task_sleep`.  Its variable `p` is not advanced. -/
def sleepSearch (due : Task → Nat) (head curtask : Task) : Nat → Task → Option Task
  | 0, _ => none
  | fuel + 1, p =>
      if due p > due curtask then some p
      else if p ≠ head then sleepSearch due head curtask fuel p
      else some p

/-- What `task_sleep` does to link the current task into the sleeping queue
before `p`. -/
def sleepInsert (links : TaskLinks Task QueueId) (due : Task → Nat) (p task : Task) :
    TaskLinks Task QueueId :=
  let links := links.setOwner task (some .sleeping)
  let links := links.setPrev (some task) (links.prev p)
  let links := links.setNext (some task) (some p)
  let links := links.setNext (links.prev p) (some task)
  let links := links.setPrev (some p) (some task)
  if links.head .sleeping = some p ∧ due task < due p then
    links.setHead .sleeping (some task)
  else links

/-- `task_sleep`. -/
def taskSleep (ticks : Nat) : Outcome Scheduler :=
  let ticks := if ticks = 0 then 1 else ticks
  let task := sched.curtask
  let sched := { sched with
    due := update sched.due task ((sched.tickcnt + ticks) % 0x100000000) }
  let sched := (sched.setState task .blocked).dequeue task
  match sched.links.head .sleeping with
  | none => (sched.push .sleeping task).yieldToRunnable
  | some head =>
      match sleepSearch sched.due head task taskFuel head with
      | none => .hang
      | some p =>
          yieldToRunnable { sched with links := sleepInsert sched.links sched.due p task }

/-- `task_sch_async` for a task with a kernel stack. -/
def taskSchAsync (task : Task) : Scheduler :=
  (sched.setState task .ready).enqueue task

/-- `task_block`. -/
def taskBlock (queue : QueueId) : Outcome Scheduler :=
  let task := sched.curtask
  (((sched.dequeue task).setState task .blocked).push queue task).yieldToRunnable

/-- `task_unblock`. -/
def taskUnblock : Option Task → Scheduler
  | none => sched
  | some task =>
      if sched.state task = .blocked then
        ((sched.dequeue task).setState task .ready).enqueue task
      else sched

/-- The loop with which `sema_down` looks for the current task among the blocked
ones; `none` is a loop that does not end. -/
def semaScan (next : Task → Option Task) (curtask head : Task) : Nat → Task → Option Bool
  | 0, _ => none
  | fuel + 1, cur =>
      if cur = curtask then some true
      else
        match next cur with
        | none => none
        | some cur => if cur = head then some false else semaScan next curtask head fuel cur

/-- `s->count = count`. -/
def setCount (index : Nat) (count : Int) : Scheduler :=
  { sched with
    semas := update sched.semas index { sched.semas index with count := int16 count } }

/-- `sema_down` behind its checks. -/
def semaTake (index : Nat) : Outcome Scheduler :=
  let sched := sched.setCount index ((sched.semas index).count - 1)
  if (sched.semas index).count < 0 then
    let cur := sched.curtask
    (((sched.dequeue cur).setState cur .blocked).push (.sema index) cur).yieldToRunnable
  else .ok sched

/-- `sema_down`. -/
def semaDown (index : Nat) : Outcome Scheduler :=
  if (sched.semas index).sig ≠ SEMA_SIG then
    .panic "semaphore down when not initialized"
  else
    match sched.links.head (.sema index) with
    | none => sched.semaTake index
    | some head =>
        match semaScan sched.links.next sched.curtask head taskFuel head with
        | none => .hang
        | some true => .panic "semaphore: curtask is already blocked!"
        | some false => sched.semaTake index

/-- `sema_up`. -/
def semaUp (index : Nat) : Outcome Scheduler :=
  if (sched.semas index).sig ≠ SEMA_SIG then
    .panic "semaphore up when not initialized"
  else
    let sched := sched.setCount index ((sched.semas index).count + 1)
    if (sched.semas index).count ≤ 0 then
      match taskqPop sched.links (.sema index) with
      | (none, _) => .panic "semaphore: count not consistent with queue state"
      | (some next, links) => .ok (({ sched with links := links }.setState next .ready).enqueue next)
    else .ok sched

/-- `task_alloc`; `none` is the NULL pointer. -/
def taskAlloc : Option Task × Scheduler :=
  match sched.tskFreel with
  | none => (none, sched)
  | some p => (some p, { sched with tskFreel := sched.links.next p })

/-- `task_free`, and what `task_exit` does to a task that goes away. -/
def taskFree (task : Task) : Scheduler :=
  let sched := sched.setState task .free
  { sched with
    links := (sched.links.setNext (some task) sched.tskFreel).setPrev (some task) none
    tskFreel := some task }

/-- `task_exit`. -/
def taskExit : Outcome Scheduler :=
  let task := sched.curtask
  let sched := sched.dequeue task
  if sched.state task = .freeing then (sched.taskFree task).yieldToRunnable
  else (sched.setState task .blocked).yieldToRunnable

/-- The rest of `task_start` after the allocation, and of `task_from_proc`, which
passes `TASK_PRI_NORM`. -/
def taskStart (task : Task) (pri : UInt8) : Scheduler :=
  let pri : Pri := if small : pri.toNat < TASK_NPRI then ⟨pri.toNat, small⟩ else TASK_PRI_IDLE
  let sched := { sched with pri := update sched.pri task pri }
  (sched.setState task .ready).enqueue task

/-- The rest of `task_reserve` after the allocation. -/
def taskReserve (task : Task) (pri : Pri) : Scheduler :=
  { (sched.setState task .blocked) with
    links := clearLinks sched.links task
    pri := update sched.pri task pri
    due := update sched.due task 0 }

end Scheduler

/-! ## Initialization -/

/-- The idle task is the second one that `task_init` allocates. -/
def idleTask : Task := 1

/-- The cleared task table with all tasks on the free list. -/
def freeTable (semas : Nat → Semaph) : Scheduler where
  links :=
    { next := fun task => if last : task.val + 1 < MAX_TASK then some ⟨task.val + 1, last⟩ else none
      prev := fun _ => none
      owner := fun _ => none
      head := fun _ => none }
  state := fun _ => .free
  pri := fun _ => 0
  due := fun _ => 0
  curtask := 0
  tskFreel := some 0
  tickcnt := 0
  semas := semas
  intrTask := fun _ => none

/-- `task_init`: the caller becomes the first task and the idle task is started. -/
def taskInit (semas : Nat → Semaph) : Scheduler :=
  let sched := (freeTable semas).taskAlloc.2
  let sched := { sched with
    curtask := 0
    pri := update sched.pri 0 TASK_PRI_NORM }
  let sched := sched.enqueue 0
  sched.taskAlloc.2.taskStart idleTask 19

end Pegasos.Kernel.Sched
