import Pegasos.Kernel.Sched.TaskQueue
import Pegasos.Support.Transition

/-!
# Task queues are lists

Runs of `taskq_init`, `taskq_push`, `taskq_pop` and `task_dequeue` on any number of queues
and tasks.  They return what lists return to which tasks are appended, and from which the
first or any other task is taken.
-/

namespace Pegasos.Kernel.Sched

open Pegasos.Support
open Function (update)

universe u v

variable {Task : Type u} {Queue : Type v} [DecidableEq Task] [DecidableEq Queue]

inductive QueueAction (Task : Type u) (Queue : Type v) where
  | taskqInit (queue : Queue)
  | taskqPush (queue : Queue) (task : Task)
  | taskqPop (queue : Queue)
  | taskDequeue (task : Task)

/-- A call of a routine: the task that it returns, if it is `taskq_pop`. -/
def linkStep (links : TaskLinks Task Queue) :
    QueueAction Task Queue → Option Task × TaskLinks Task Queue
  | .taskqInit queue => (none, taskqInit links queue)
  | .taskqPush queue task => (none, taskqPush links queue task)
  | .taskqPop queue => taskqPop links queue
  | .taskDequeue task => (none, taskDequeue links task)

/-- The queues as lists, and those that have been initialized. -/
structure Fifo (Task : Type u) (Queue : Type v) where
  lists : Queue → List Task
  ready : Queue → Bool

namespace Fifo

variable (fifo : Fifo Task Queue)

/-- No queue has been initialized. -/
def empty : Fifo Task Queue := ⟨fun _ => [], fun _ => false⟩

def step : QueueAction Task Queue → Option Task × Fifo Task Queue
  | .taskqInit queue => (none, { fifo with ready := update fifo.ready queue true })
  | .taskqPush queue task =>
      (none, { fifo with lists := update fifo.lists queue (fifo.lists queue ++ [task]) })
  | .taskqPop queue =>
      ((fifo.lists queue).head?,
        { fifo with lists := update fifo.lists queue (fifo.lists queue).tail })
  | .taskDequeue task => (none, { fifo with lists := fun queue => (fifo.lists queue).erase task })

/-- A queue that is initialized holds no task, a task that is pushed is on no queue, and
the queues of `taskq_push` and `taskq_pop` have been initialized. -/
def Allowed : QueueAction Task Queue → Prop
  | .taskqInit queue => fifo.lists queue = []
  | .taskqPush queue task => fifo.ready queue = true ∧ ∀ other, task ∉ fifo.lists other
  | .taskqPop queue => fifo.ready queue = true
  | .taskDequeue _ => True

end Fifo

/-- The links without the heads of the queues that have not been initialized. -/
def masked (ready : Queue → Bool) (links : TaskLinks Task Queue) : TaskLinks Task Queue :=
  { links with head := fun queue => if ready queue then links.head queue else none }

/-- The links are those of the lists: rings of the tasks, with the first one at the head
and the queue as the owner. -/
def Represents (links : TaskLinks Task Queue) (fifo : Fifo Task Queue) : Prop :=
  Queued (masked fifo.ready links) fifo.lists

/-! ## The routines and queues that have not been initialized -/

variable {links : TaskLinks Task Queue} {fifo : Fifo Task Queue} {ready : Queue → Bool}
variable {queue : Queue} {task : Task}

section Masked

omit [DecidableEq Task] [DecidableEq Queue]

theorem masked_head (isReady : ready queue = true) :
    (masked ready links).head queue = links.head queue := if_pos isReady

@[simp] theorem masked_next : (masked ready links).next = links.next := rfl

@[simp] theorem masked_prev : (masked ready links).prev = links.prev := rfl

@[simp] theorem masked_owner : (masked ready links).owner = links.owner := rfl

theorem setHead_masked [DecidableEq Queue] (isReady : ready queue = true) (value : Option Task) :
    (masked ready links).setHead queue value = masked ready (links.setHead queue value) := by
  have heads : (fun other => if ready other then update links.head queue value other else none) =
      update (fun other => if ready other then links.head other else none) queue value := by
    funext other
    by_cases same : other = queue
    · subst same
      simp [isReady]
    · simp [same]
  simp only [masked, TaskLinks.setHead, heads]

theorem setNext_masked [DecidableEq Task] (task value : Option Task) :
    (masked ready links).setNext task value = masked ready (links.setNext task value) := by
  cases task <;> rfl

theorem setPrev_masked [DecidableEq Task] (task value : Option Task) :
    (masked ready links).setPrev task value = masked ready (links.setPrev task value) := by
  cases task <;> rfl

theorem setOwner_masked [DecidableEq Task] (task : Task) (value : Option Queue) :
    (masked ready links).setOwner task value = masked ready (links.setOwner task value) := rfl

theorem clearLinks_masked [DecidableEq Task] :
    clearLinks (masked ready links) task = masked ready (clearLinks links task) := rfl

variable [DecidableEq Task] [DecidableEq Queue]

theorem taskqPush_masked (isReady : ready queue = true) :
    taskqPush (masked ready links) queue task = masked ready (taskqPush links queue task) := by
  unfold taskqPush
  rw [masked_head isReady]
  cases links.head queue with
  | none => simp only [setOwner_masked, setHead_masked isReady, setNext_masked, setPrev_masked]
  | some head => simp only [setOwner_masked, masked_prev, setNext_masked, setPrev_masked]

theorem taskqPop_masked (isReady : ready queue = true) :
    taskqPop (masked ready links) queue =
      ((taskqPop links queue).1, masked ready (taskqPop links queue).2) := by
  unfold taskqPop
  rw [masked_head isReady]
  cases links.head queue with
  | none => rfl
  | some task =>
      simp only [masked_next]
      by_cases alone : links.next task = some task
      · simp only [if_pos alone, setHead_masked isReady, clearLinks_masked]
      · simp only [if_neg alone, setHead_masked isReady, setPrev_masked, masked_prev,
          setNext_masked, clearLinks_masked]

theorem taskDequeue_masked
    (isReady : ∀ queue, links.owner task = some queue → ready queue = true) :
    taskDequeue (masked ready links) task = masked ready (taskDequeue links task) := by
  unfold taskDequeue
  rw [masked_owner]
  cases owner : links.owner task with
  | none => rfl
  | some queue =>
      have held := isReady queue owner
      simp only [masked_next, masked_head held]
      by_cases alone : links.next task = some task
      · simp only [if_pos alone, setHead_masked held, clearLinks_masked]
      · by_cases first : links.head queue = some task
        · simp only [if_neg alone, if_pos first, setHead_masked held, masked_next, masked_prev,
            setNext_masked, setPrev_masked, clearLinks_masked]
        · simp only [if_neg alone, if_neg first, masked_next, masked_prev, setNext_masked,
            setPrev_masked, clearLinks_masked]

end Masked

/-! ## Runs -/

/-- One call keeps the links those of the lists, and returns what the lists return. -/
theorem step_represents {action : QueueAction Task Queue} (represents : Represents links fifo)
    (allowed : fifo.Allowed action) :
    (linkStep links action).1 = (fifo.step action).1 ∧
      Represents (linkStep links action).2 (fifo.step action).2 := by
  have queued : Queued (masked fifo.ready links) fifo.lists := represents
  cases action with
  | taskqInit queue =>
      refine ⟨rfl, ?_⟩
      have noTask : (masked fifo.ready links).head queue = none := by
        rw [queued.head queue, show fifo.lists queue = [] from allowed]
        rfl
      have same : masked (update fifo.ready queue true) (taskqInit links queue) =
          masked fifo.ready links := by
        have heads : (masked (update fifo.ready queue true) (taskqInit links queue)).head =
            (masked fifo.ready links).head := by
          funext other
          by_cases isQueue : other = queue
          · subst isQueue
            rw [noTask]
            simp [masked, taskqInit, TaskLinks.setHead]
          · simp [masked, taskqInit, TaskLinks.setHead, isQueue]
        exact congrArg (fun head => { links with head := head }) heads
      change Queued (masked (update fifo.ready queue true) (taskqInit links queue)) fifo.lists
      rwa [same]
  | taskqPush queue task =>
      obtain ⟨isReady, onNone⟩ := allowed
      refine ⟨rfl, ?_⟩
      have unowned : (masked fifo.ready links).owner task = none := by
        cases owner : (masked fifo.ready links).owner task with
        | none => rfl
        | some other => exact absurd ((queued.owner task other).mp owner) (onNone other)
      change Queued (masked fifo.ready (taskqPush links queue task)) _
      rw [← taskqPush_masked isReady]
      exact taskqPush_spec queued unowned queue
  | taskqPop queue =>
      have isReady : fifo.ready queue = true := allowed
      have popped : taskqPop (masked fifo.ready links) queue =
          ((taskqPop links queue).1, masked fifo.ready (taskqPop links queue).2) :=
        taskqPop_masked isReady
      obtain ⟨returned, left⟩ := Prod.ext_iff.mp popped
      dsimp only at returned left
      change (taskqPop links queue).1 = (fifo.lists queue).head? ∧
        Queued (masked fifo.ready (taskqPop links queue).2) _
      rw [← returned, ← left]
      cases list : fifo.lists queue with
      | nil =>
          rw [taskqPop_empty queued list]
          refine ⟨rfl, ?_⟩
          simp only [Fifo.step, list, List.tail_nil]
          rwa [← list, Function.update_eq_self]
      | cons task rest =>
          rw [taskqPop_eq queued list]
          refine ⟨rfl, ?_⟩
          have taken := queued.unlinked (show fifo.lists queue = [] ++ task :: rest from list)
          simpa [Fifo.step, list] using taken
  | taskDequeue task =>
      refine ⟨rfl, ?_⟩
      have isReady : ∀ queue, links.owner task = some queue → fifo.ready queue = true := by
        intro queue owner
        by_contra notReady
        have none : (masked fifo.ready links).head queue = none := if_neg notReady
        rw [queued.head queue, List.head?_eq_none_iff] at none
        have member := (queued.owner task queue).mp owner
        rw [none] at member
        exact List.not_mem_nil member
      change Queued (masked fifo.ready (taskDequeue links task)) _
      rw [← taskDequeue_masked isReady]
      exact taskDequeue_spec queued task

omit [DecidableEq Task] [DecidableEq Queue] in
/-- Before any queue is initialized, with all tasks on no queue. -/
theorem start_represents (fresh : ∀ task, links.owner task = none) :
    Represents links Fifo.empty where
  ring _ := trivial
  head _ := rfl
  owner task queue := by
    change links.owner task = some queue ↔ task ∈ []
    simp [fresh task]
  nodup _ := List.nodup_nil

/-- The queues are lists: whatever is in the heads of the queues and in the links of the
tasks at the beginning, the routines return in every run what the lists return, and their
links are those of the lists. -/
theorem taskq_fifo (links : TaskLinks Task Queue) (actions : List (QueueAction Task Queue))
    (fresh : ∀ task, links.owner task = none)
    (allowed : Guarded Fifo.step Fifo.Allowed Fifo.empty actions) :
    (trace linkStep links actions).1 = (trace Fifo.step Fifo.empty actions).1 ∧
      Represents (trace linkStep links actions).2 (trace Fifo.step Fifo.empty actions).2 :=
  trace_simulates step_represents (start_represents fresh) allowed

/-- Two tasks on a queue whose head is anything at the beginning. -/
def twoTasks : TaskLinks Bool Unit where
  next _ := none
  prev _ := none
  owner _ := none
  head _ := some true

/-- The second task is left when the first one is taken off the queue. -/
def twoCalls : List (QueueAction Bool Unit) :=
  [.taskqInit (), .taskqPush () true, .taskqPush () false, .taskDequeue true, .taskqPop ()]

theorem taskq_fifo_two :
    (trace linkStep twoTasks twoCalls).1 = [none, none, none, none, some false] ∧
      Represents (trace linkStep twoTasks twoCalls).2 (trace Fifo.step Fifo.empty twoCalls).2 := by
  have allowed : Guarded Fifo.step Fifo.Allowed Fifo.empty twoCalls :=
    ⟨rfl, ⟨rfl, by simp [Fifo.step, Fifo.empty]⟩, ⟨rfl, by simp [Fifo.step, Fifo.empty]⟩, trivial,
      rfl, trivial⟩
  obtain ⟨returned, represents⟩ := taskq_fifo twoTasks twoCalls (fun _ => rfl) allowed
  exact ⟨returned.trans (by decide), represents⟩

end Pegasos.Kernel.Sched
