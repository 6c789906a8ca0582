import Pegasos.Support.Ring
import Pegasos.Support.Tables

/-!
# Task queues

Every task carries the links of the one queue it may be on, and the queue holds
a pointer to its first task.  `taskqPush`, `taskqPop` and `taskDequeue` are the
routines of `taskq.c`, for any type of tasks and any type of queues.

`Queued` relates the links to one list of tasks for each queue; the theorems
below say what each routine does to these lists.
-/

namespace Pegasos.Kernel.Sched

open Pegasos.Support
open Function (update)

universe u v

variable {Task : Type u} {Queue : Type v}

/-- The queue fields of all tasks and the heads of all queues. -/
structure TaskLinks (Task : Type u) (Queue : Type v) where
  next : Task → Option Task
  prev : Task → Option Task
  owner : Task → Option Queue
  head : Queue → Option Task

section Routines

variable [DecidableEq Task] [DecidableEq Queue]

namespace TaskLinks

/-- `task->next = value`; a store through NULL is left out. -/
def setNext (links : TaskLinks Task Queue) (task value : Option Task) : TaskLinks Task Queue :=
  match task with
  | some task => { links with next := update links.next task value }
  | none => links

/-- `task->prev = value`. -/
def setPrev (links : TaskLinks Task Queue) (task value : Option Task) : TaskLinks Task Queue :=
  match task with
  | some task => { links with prev := update links.prev task value }
  | none => links

/-- `task->owner = queue`. -/
def setOwner (links : TaskLinks Task Queue) (task : Task) (queue : Option Queue) :
    TaskLinks Task Queue :=
  { links with owner := update links.owner task queue }

/-- `queue->head = task`. -/
def setHead (links : TaskLinks Task Queue) (queue : Queue) (task : Option Task) :
    TaskLinks Task Queue :=
  { links with head := update links.head queue task }

end TaskLinks

/-- `taskq_init`. -/
def taskqInit (links : TaskLinks Task Queue) (queue : Queue) : TaskLinks Task Queue :=
  links.setHead queue none

/-- `taskq_push`. -/
def taskqPush (links : TaskLinks Task Queue) (queue : Queue) (task : Task) :
    TaskLinks Task Queue :=
  let head := links.head queue
  let links := links.setOwner task (some queue)
  match head with
  | some head =>
      let links := links.setNext (links.prev head) (some task)
      let links := links.setPrev (some task) (links.prev head)
      let links := links.setPrev (some head) (some task)
      links.setNext (some task) (some head)
  | none =>
      let links := links.setHead queue (some task)
      let links := links.setNext (some task) (some task)
      links.setPrev (some task) (some task)

/-- What `taskq_pop` and `task_dequeue` do to a task that has left its queue. -/
def clearLinks (links : TaskLinks Task Queue) (task : Task) : TaskLinks Task Queue :=
  ((links.setNext (some task) none).setPrev (some task) none).setOwner task none

/-- `taskq_pop`. -/
def taskqPop (links : TaskLinks Task Queue) (queue : Queue) :
    Option Task × TaskLinks Task Queue :=
  match links.head queue with
  | none => (none, links)
  | some task =>
      let links :=
        if links.next task = some task then links.setHead queue none
        else
          let head := links.next task
          let links := links.setHead queue head
          let links := links.setPrev head (links.prev task)
          links.setNext (head.bind links.prev) head
      (some task, clearLinks links task)

/-- `task_dequeue`. -/
def taskDequeue (links : TaskLinks Task Queue) (task : Task) : TaskLinks Task Queue :=
  let links :=
    match links.owner task with
    | some queue =>
        if links.next task = some task then links.setHead queue none
        else
          let links :=
            if links.head queue = some task then links.setHead queue (links.next task) else links
          let links := links.setNext (links.prev task) (links.next task)
          links.setPrev (links.next task) (links.prev task)
    | none => links
  clearLinks links task

end Routines

/-! ## Queues as lists -/

/-- Every queue is a ring of the tasks of its list, headed by the first one, and
the owner of a task is the queue on whose list it is. -/
structure Queued (links : TaskLinks Task Queue) (lists : Queue → List Task) : Prop where
  ring : ∀ queue, LinkRing links.next links.prev (lists queue)
  head : ∀ queue, links.head queue = (lists queue).head?
  owner : ∀ task queue, links.owner task = some queue ↔ task ∈ lists queue
  nodup : ∀ queue, (lists queue).Nodup

namespace Queued

variable {links links' : TaskLinks Task Queue} {lists : Queue → List Task}
variable {task other : Task} {queue : Queue} {front rest : List Task}

/-- A task is on at most one queue. -/
theorem queue_unique (queued : Queued links lists) {queue' : Queue}
    (member : task ∈ lists queue) (member' : task ∈ lists queue') : queue = queue' := by
  have owner := (queued.owner task queue).mpr member
  rw [(queued.owner task queue').mpr member'] at owner
  exact (Option.some.inj owner).symm

theorem not_mem (queued : Queued links lists) (unowned : links.owner task = none) (queue : Queue) :
    task ∉ lists queue := by
  intro member
  rw [(queued.owner task queue).mpr member] at unowned
  exact Option.some_ne_none queue unowned

/-- The ring of a queue, read from one of its tasks. -/
theorem ring_from (queued : Queued links lists)
    (list : lists queue = front ++ task :: rest) :
    LinkRing links.next links.prev (task :: (rest ++ front)) ∧ (task :: (rest ++ front)).Nodup := by
  have ring := queued.ring queue
  have nodup := queued.nodup queue
  rw [list] at ring nodup
  exact ⟨ring_append_comm.mp ring, (List.perm_append_comm.nodup_iff).mp nodup⟩

/-- The neighbours of a task, read from the list of its queue. -/
theorem neighbours (queued : Queued links lists)
    (list : lists queue = front ++ task :: rest) :
    (rest ++ front = [] → links.next task = some task) ∧
      ∀ first nodes, rest ++ front = first :: nodes →
        links.next task = some first ∧ first ≠ task ∧
          links.prev task = (first :: nodes).getLast? := by
  obtain ⟨ring, nodup⟩ := queued.ring_from list
  refine ⟨fun alone => ?_, fun first nodes others => ?_⟩
  · rw [ring.next_first, alone]
    rfl
  · rw [ring.next_first, ring.prev_first, others]
    refine ⟨rfl, ?_, List.getLast?_cons_cons⟩
    rintro rfl
    rw [others] at nodup
    exact (List.nodup_cons.mp nodup).1 List.mem_cons_self

variable [DecidableEq Queue]

/-- Links that differ from those of a queued state on one queue only. -/
theorem of_update {nodes : List Task} (queued : Queued links lists)
    (ring : LinkRing links'.next links'.prev nodes) (nodup : nodes.Nodup)
    (headSelf : links'.head queue = nodes.head?)
    (headOther : ∀ other, other ≠ queue → links'.head other = links.head other)
    (ownerSelf : ∀ task, links'.owner task = some queue ↔ task ∈ nodes)
    (ownerOther : ∀ task other, other ≠ queue →
      (links'.owner task = some other ↔ links.owner task = some other))
    (frame : ∀ task other, other ≠ queue → task ∈ lists other →
      links'.next task = links.next task ∧ links'.prev task = links.prev task) :
    Queued links' (update lists queue nodes) where
  ring other := by
    by_cases same : other = queue
    · subst same
      rwa [Function.update_self]
    · rw [Function.update_of_ne same]
      exact (queued.ring other).congr (fun task member => (frame task other same member).1)
        fun task member => (frame task other same member).2
  head other := by
    by_cases same : other = queue
    · subst same
      rwa [Function.update_self]
    · rw [Function.update_of_ne same, headOther other same, queued.head]
  owner task other := by
    by_cases same : other = queue
    · subst same
      rw [Function.update_self]
      exact ownerSelf task
    · rw [Function.update_of_ne same, ownerOther task other same, queued.owner]
  nodup other := by
    by_cases same : other = queue
    · subst same
      rwa [Function.update_self]
    · rw [Function.update_of_ne same]
      exact queued.nodup other

end Queued

section Specs

variable [DecidableEq Task] [DecidableEq Queue]
variable {links : TaskLinks Task Queue} {lists : Queue → List Task}
variable {task other first last : Task} {queue : Queue} {front rest nodes : List Task}

/-! ### Pushing -/

theorem taskqPush_empty (empty : links.head queue = none) :
    taskqPush links queue task =
      { next := update links.next task (some task), prev := update links.prev task (some task)
        owner := update links.owner task (some queue)
        head := update links.head queue (some task) } := by
  simp only [taskqPush, empty]
  rfl

theorem taskqPush_nonempty (head : links.head queue = some first)
    (prev : links.prev first = some last) :
    taskqPush links queue task =
      { next := update (update links.next last (some task)) task (some first)
        prev := update (update links.prev task (some last)) first (some task)
        owner := update links.owner task (some queue), head := links.head } := by
  simp only [taskqPush, head, TaskLinks.setOwner, TaskLinks.setNext, TaskLinks.setPrev, prev]

/-- Pushing changes the owner of the pushed task only. -/
theorem taskqPush_owner :
    (taskqPush links queue task).owner = update links.owner task (some queue) := by
  unfold taskqPush
  cases links.head queue with
  | none => rfl
  | some first =>
      simp only [TaskLinks.setOwner, TaskLinks.setNext, TaskLinks.setPrev]
      cases links.prev first <;> rfl

/-- Pushing a task that is on no queue puts it at the end of the list. -/
theorem taskqPush_spec (queued : Queued links lists) (unowned : links.owner task = none)
    (queue : Queue) :
    Queued (taskqPush links queue task) (update lists queue (lists queue ++ [task])) := by
  have fresh := queued.not_mem unowned
  have distinct : (lists queue ++ [task]).Nodup :=
    List.nodup_append.mpr ⟨queued.nodup queue, List.nodup_singleton task, fun left member right
      isTask equal => fresh queue (by rwa [equal, List.mem_singleton.mp isTask] at member)⟩
  have ownerSelf : ∀ other, (taskqPush links queue task).owner other = some queue ↔
      other ∈ lists queue ++ [task] := by
    intro other
    rw [taskqPush_owner]
    by_cases same : other = task
    · simp [same]
    · simp [same, queued.owner]
  have ownerOther : ∀ other queue', queue' ≠ queue →
      ((taskqPush links queue task).owner other = some queue' ↔
        links.owner other = some queue') := by
    intro other queue' ne
    rw [taskqPush_owner]
    by_cases same : other = task
    · simp [same, unowned, ne.symm]
    · simp [same]
  have head := queued.head queue
  have ring := queued.ring queue
  cases list : lists queue with
  | nil =>
      rw [list] at head distinct ownerSelf
      rw [taskqPush_empty head] at ownerSelf ownerOther ⊢
      refine queued.of_update ?_ distinct ?_ ?_ ownerSelf ownerOther ?_
      · simp [LinkRing, LinkPath, Link]
      · simp
      · exact fun other ne => Function.update_of_ne ne _ _
      · intro other queue' ne member
        have notTask : other ≠ task := fun same => fresh queue' (same ▸ member)
        simp [notTask]
  | cons first nodes =>
      rw [list] at head ring distinct ownerSelf
      have nodup := (List.nodup_append.mp distinct).1
      obtain ⟨last, isLast⟩ : ∃ last, (first :: nodes).getLast? = some last :=
        ⟨_, List.getLast?_eq_some_getLast (List.cons_ne_nil first nodes)⟩
      have lastMember : last ∈ lists queue := list ▸ List.mem_of_getLast? isLast
      have firstMember : first ∈ lists queue := list ▸ List.mem_cons_self
      have notLast : last ≠ task := fun same => fresh queue (same ▸ lastMember)
      have notFirst : first ≠ task := fun same => fresh queue (same ▸ firstMember)
      have prev : links.prev first = some last := by
        rw [ring.prev_first, isLast]
      rw [taskqPush_nonempty head prev] at ownerSelf ownerOther ⊢
      refine queued.of_update ?_ distinct ?_ (fun _ _ => rfl) ownerSelf ownerOther ?_
      · refine ring.insert nodup isLast ?_ ?_ ?_ ?_ ?_ ?_
        · simp [notLast]
        · simp [notFirst.symm]
        · simp
        · simp
        · intro other member ne
          have notTask : other ≠ task := fun same => fresh queue (list ▸ same ▸ member)
          simp [notTask, ne]
        · intro other member ne
          have notTask : other ≠ task := fun same => fresh queue (list ▸ same ▸ member)
          simp [notTask, ne]
      · exact head
      · intro other queue' ne member
        have notTask : other ≠ task := fun same => fresh queue' (same ▸ member)
        have beforeLast : other ≠ last := fun same =>
          ne (queued.queue_unique member (same ▸ lastMember))
        have behindFirst : other ≠ first := fun same =>
          ne (queued.queue_unique member (same ▸ firstMember))
        simp [notTask, beforeLast, behindFirst]

/-- Pushing keeps the next link of every other task that is on no queue. -/
theorem taskqPush_frame (queued : Queued links lists) (ne : other ≠ task)
    (unowned : links.owner other = none) :
    (taskqPush links queue task).next other = links.next other := by
  have head := queued.head queue
  cases list : lists queue with
  | nil =>
      rw [list] at head
      rw [taskqPush_empty head]
      simp [ne]
  | cons first nodes =>
      have ring := queued.ring queue
      rw [list] at head ring
      obtain ⟨last, isLast⟩ : ∃ last, (first :: nodes).getLast? = some last :=
        ⟨_, List.getLast?_eq_some_getLast (List.cons_ne_nil first nodes)⟩
      have notLast : other ≠ last := fun same =>
        queued.not_mem unowned queue (list ▸ same ▸ List.mem_of_getLast? isLast)
      rw [taskqPush_nonempty head (ring.prev_first.trans isLast)]
      simp [ne, notLast]

/-! ### Unlinking -/

/-- The links after a task has left a queue on which `others` remain, listed from
the successor of the task on. -/
def unlinked (links : TaskLinks Task Queue) (queue : Queue) (task : Task) (others : List Task)
    (head : Option Task) : TaskLinks Task Queue where
  next := update (others.getLast?.elim links.next fun last =>
    update links.next last others.head?) task none
  prev := update (others.head?.elim links.prev fun first =>
    update links.prev first others.getLast?) task none
  owner := update links.owner task none
  head := update links.head queue head

theorem Queued.unlinked (queued : Queued links lists)
    (list : lists queue = front ++ task :: rest) :
    Queued (unlinked links queue task (rest ++ front) (front ++ rest).head?)
      (update lists queue (front ++ rest)) := by
  obtain ⟨ring, nodup⟩ := queued.ring_from list
  obtain ⟨notOthers, distinct⟩ := List.nodup_cons.mp nodup
  have members : ∀ other, other ∈ lists queue ↔ other = task ∨ other ∈ front ++ rest := by
    intro other
    rw [list]
    simp only [List.mem_append, List.mem_cons]
    tauto
  have notMember : task ∉ front ++ rest := fun member =>
    notOthers (by simpa [or_comm] using member)
  have inQueue : ∀ other ∈ rest ++ front, other ∈ lists queue := fun other member =>
    (members other).mpr (.inr (by simpa [or_comm] using member))
  have taskMember : task ∈ lists queue := (members task).mpr (.inl rfl)
  refine queued.of_update ?_ ?_ ?_ ?_ ?_ ?_ ?_
  · rw [ring_append_comm]
    cases others : rest ++ front with
    | nil => trivial
    | cons first nodes =>
        obtain ⟨last, isLast⟩ : ∃ last, (first :: nodes).getLast? = some last :=
          ⟨_, List.getLast?_eq_some_getLast (List.cons_ne_nil first nodes)⟩
        rw [others] at ring notOthers distinct
        have differs : ∀ other ∈ first :: nodes, other ≠ task := fun other member same =>
          notOthers (same ▸ member)
        simp only [Sched.unlinked, isLast, List.head?_cons, Option.elim_some]
        refine ring.remove distinct isLast ?_ ?_ ?_ ?_
        · simp [differs last (List.mem_of_getLast? isLast)]
        · simp [differs first (by simp)]
        · intro other member ne
          simp [differs other member, ne]
        · intro other member ne
          simp [differs other member, ne]
  · exact List.perm_append_comm.nodup_iff.mp distinct
  · simp [Sched.unlinked]
  · exact fun other ne => Function.update_of_ne ne _ _
  · intro other
    by_cases same : other = task
    · subst same
      simp only [Sched.unlinked, Function.update_self]
      simpa using notMember
    · simp [Sched.unlinked, same, queued.owner, members other]
  · intro other queue' ne
    by_cases same : other = task
    · subst same
      have owner := (queued.owner other queue).mpr taskMember
      simp [Sched.unlinked, owner, ne.symm]
    · simp [Sched.unlinked, same]
  · intro other queue' ne member
    have differs : ∀ node ∈ rest ++ front, other ≠ node := fun node inOthers same =>
      ne (queued.queue_unique member (same ▸ inQueue node inOthers))
    have notTask : other ≠ task := fun same =>
      ne (queued.queue_unique member (same ▸ taskMember))
    cases others : rest ++ front with
    | nil => simp [Sched.unlinked, notTask]
    | cons first nodes =>
        rw [others] at differs
        obtain ⟨last, isLast⟩ : ∃ last, (first :: nodes).getLast? = some last :=
          ⟨_, List.getLast?_eq_some_getLast (List.cons_ne_nil first nodes)⟩
        simp [Sched.unlinked, notTask, isLast, differs first (by simp),
          differs last (List.mem_of_getLast? isLast)]

theorem taskqPop_empty (queued : Queued links lists) (empty : lists queue = []) :
    taskqPop links queue = (none, links) := by
  have head := queued.head queue
  rw [empty] at head
  simp only [taskqPop, head, List.head?_nil]

/-- Popping takes the first task off the list. -/
theorem taskqPop_eq (queued : Queued links lists) (list : lists queue = task :: rest) :
    taskqPop links queue = (some task, unlinked links queue task rest rest.head?) := by
  have head := queued.head queue
  rw [list] at head
  obtain ⟨alone, neighbours⟩ := queued.neighbours (show lists queue = [] ++ task :: rest from list)
  simp only [List.append_nil] at alone neighbours
  simp only [taskqPop, head, List.head?_cons]
  cases rest with
  | nil => simp [alone rfl, unlinked, clearLinks, TaskLinks.setHead, TaskLinks.setNext,
      TaskLinks.setPrev, TaskLinks.setOwner]
  | cons first nodes =>
      obtain ⟨next, ne, prev⟩ := neighbours first nodes rfl
      obtain ⟨last, isLast⟩ : ∃ last, (first :: nodes).getLast? = some last :=
        ⟨_, List.getLast?_eq_some_getLast (List.cons_ne_nil first nodes)⟩
      simp [next, ne, prev, isLast, unlinked, clearLinks, TaskLinks.setHead, TaskLinks.setNext,
        TaskLinks.setPrev, TaskLinks.setOwner]

/-- Dequeuing takes a task out of the list it is on. -/
theorem taskDequeue_eq (queued : Queued links lists)
    (list : lists queue = front ++ task :: rest) :
    taskDequeue links task = unlinked links queue task (rest ++ front) (front ++ rest).head? := by
  have owner := (queued.owner task queue).mpr (list ▸ List.mem_append_cons_self)
  have head := queued.head queue
  rw [list] at head
  obtain ⟨alone, neighbours⟩ := queued.neighbours list
  simp only [taskDequeue, owner]
  cases others : rest ++ front with
  | nil =>
      obtain ⟨rfl, rfl⟩ := List.append_eq_nil_iff.mp others
      simp [alone others, unlinked, clearLinks, TaskLinks.setHead, TaskLinks.setNext,
        TaskLinks.setPrev, TaskLinks.setOwner]
  | cons first nodes =>
      obtain ⟨next, ne, prev⟩ := neighbours first nodes others
      obtain ⟨last, isLast⟩ : ∃ last, (first :: nodes).getLast? = some last :=
        ⟨_, List.getLast?_eq_some_getLast (List.cons_ne_nil first nodes)⟩
      have newHead : (if links.head queue = some task then links.setHead queue (links.next task)
          else links) = { links with head := update links.head queue (front ++ rest).head? } := by
        cases front with
        | nil =>
            simp only [List.append_nil] at others
            simp [head, next, others, TaskLinks.setHead]
        | cons before front =>
            have notTask : before ≠ task := by
              rintro rfl
              have nodup := queued.nodup queue
              rw [list] at nodup
              exact (List.nodup_cons.mp nodup).1 (by simp)
            have same : links.head queue = (before :: front ++ rest).head? := by simpa using head
            rw [← same, Function.update_eq_self]
            simp [head, notTask]
      have notLast : task ≠ last := by
        rintro rfl
        have nodup := (queued.ring_from list).2
        rw [others] at nodup
        exact (List.nodup_cons.mp nodup).1 (List.mem_of_getLast? isLast)
      rw [if_neg (by simp [next, ne]), newHead]
      simp [next, prev, isLast, notLast, unlinked, clearLinks, TaskLinks.setNext, TaskLinks.setPrev,
        TaskLinks.setOwner]

theorem taskDequeue_unowned (unowned : links.owner task = none) :
    taskDequeue links task = clearLinks links task := by
  simp only [taskDequeue, unowned]

/-- Unlinking keeps the next link of every other task that is on no queue. -/
theorem unlinked_frame (queued : Queued links lists) {others : List Task} {head : Option Task}
    (ne : other ≠ task) (members : ∀ node ∈ others, node ∈ lists queue)
    (unowned : links.owner other = none) :
    (unlinked links queue task others head).next other = links.next other := by
  cases isLast : others.getLast? with
  | none => simp [unlinked, isLast, ne]
  | some last =>
      have notLast : other ≠ last := fun same =>
        queued.not_mem unowned queue (same ▸ members last (List.mem_of_getLast? isLast))
      simp [unlinked, isLast, ne, notLast]

/-- `task_dequeue` takes a task off whatever list it is on. -/
theorem taskDequeue_spec (queued : Queued links lists) (task : Task) :
    Queued (taskDequeue links task) fun queue => (lists queue).erase task := by
  cases owner : links.owner task with
  | none =>
      have same : (fun queue => (lists queue).erase task) = lists :=
        funext fun queue => List.erase_of_not_mem (queued.not_mem owner queue)
      have ne : ∀ {other queue}, other ∈ lists queue → other ≠ task := by
        rintro other queue member rfl
        exact queued.not_mem owner queue member
      rw [same, taskDequeue_unowned owner]
      simp only [clearLinks, TaskLinks.setNext, TaskLinks.setPrev, TaskLinks.setOwner]
      refine ⟨fun queue => ?_, queued.head, fun other queue => ?_, queued.nodup⟩
      · exact (queued.ring queue).congr (fun node member => Function.update_of_ne (ne member) _ _)
          fun node member => Function.update_of_ne (ne member) _ _
      · by_cases isTask : other = task
        · subst isTask
          simp [queued.not_mem owner queue]
        · simp [isTask, queued.owner]
  | some queue =>
      obtain ⟨front, rest, list⟩ := List.append_of_mem ((queued.owner task queue).mp owner)
      have erased : (lists queue).erase task = front ++ rest := by
        have nodup := queued.nodup queue
        rw [list] at nodup ⊢
        have notFront : task ∉ front := fun member =>
          (List.nodup_append.mp nodup).2.2 task member task List.mem_cons_self rfl
        rw [List.erase_append_right _ notFront, List.erase_cons_head]
      have lists' : (fun queue => (lists queue).erase task) =
          update lists queue (front ++ rest) := by
        funext other
        by_cases same : other = queue
        · subst same
          rw [Function.update_self, erased]
        · rw [Function.update_of_ne same]
          exact List.erase_of_not_mem fun member =>
            same (queued.queue_unique member ((queued.owner task queue).mp owner))
      rw [lists', taskDequeue_eq queued list]
      exact queued.unlinked list

theorem taskDequeue_owner (queued : Queued links lists) (task : Task) :
    (taskDequeue links task).owner = update links.owner task none := by
  cases owner : links.owner task with
  | none => rw [taskDequeue_unowned owner]; rfl
  | some queue =>
      obtain ⟨front, rest, list⟩ := List.append_of_mem ((queued.owner task queue).mp owner)
      rw [taskDequeue_eq queued list]
      rfl

/-- Dequeuing keeps the next link of every other task that is on no queue. -/
theorem taskDequeue_frame (queued : Queued links lists) (ne : other ≠ task)
    (unowned : links.owner other = none) :
    (taskDequeue links task).next other = links.next other := by
  cases owner : links.owner task with
  | none =>
      rw [taskDequeue_unowned owner]
      simp [clearLinks, TaskLinks.setNext, TaskLinks.setPrev, TaskLinks.setOwner, ne]
  | some queue =>
      obtain ⟨front, rest, list⟩ := List.append_of_mem ((queued.owner task queue).mp owner)
      rw [taskDequeue_eq queued list]
      refine unlinked_frame queued ne (fun node member => ?_) unowned
      rw [list]
      simp only [List.mem_append, List.mem_cons] at member ⊢
      tauto

/-- Popping is dequeuing the first task. -/
theorem taskqPop_dequeue (queued : Queued links lists) (list : lists queue = task :: rest) :
    taskqPop links queue = (some task, taskDequeue links task) := by
  rw [taskqPop_eq queued list, taskDequeue_eq queued (show _ = [] ++ task :: rest from list)]
  simp

/-! ### Moving the head -/

/-- A queue may be headed by any of its tasks. -/
theorem Queued.reheaded (queued : Queued links lists)
    (list : lists queue = front ++ task :: rest) :
    Queued (links.setHead queue (some task)) (update lists queue (task :: (rest ++ front))) := by
  obtain ⟨ring, nodup⟩ := queued.ring_from list
  refine queued.of_update ring nodup ?_ ?_ ?_ (fun _ _ _ => Iff.rfl) fun _ _ _ _ => ⟨rfl, rfl⟩
  · simp [TaskLinks.setHead]
  · exact fun other ne => Function.update_of_ne ne _ _
  · intro other
    have member := queued.owner other queue
    rw [list] at member
    simp only [List.mem_append, List.mem_cons] at member ⊢
    refine member.trans ?_
    tauto

/-- Advancing the head by one puts the first task behind all others. -/
theorem Queued.rotated (queued : Queued links lists) (list : lists queue = task :: rest) :
    Queued (links.setHead queue (links.next task)) (update lists queue (rest ++ [task])) := by
  have next : links.next task = (rest ++ [task]).head? := by
    have ring := queued.ring queue
    rw [list] at ring
    exact ring.next_first
  cases rest with
  | nil =>
      rw [next]
      exact queued.reheaded (show lists queue = [] ++ task :: [] from list)
  | cons second rest =>
      rw [next]
      exact queued.reheaded (show lists queue = [task] ++ second :: rest from list)

end Specs

end Pegasos.Kernel.Sched
