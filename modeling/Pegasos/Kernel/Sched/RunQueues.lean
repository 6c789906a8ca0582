import Pegasos.Kernel.Sched.Scheduler
import Mathlib.Data.Fintype.Card
import Mathlib.Data.List.FinRange

/-!
# The run queues

What the routines of the scheduler do to the queues.  `Core` is the part of the
invariant that holds even while the running task is being taken off its queue,
`Current` the part about the running task that every stretch of code restores at
its end.
-/

namespace Pegasos.Kernel.Sched

open Pegasos.Support
open Function (update)

/-- The part of the scheduler invariant that holds at every call.  `lists` are
the tasks of every queue and `free` those of the free list; `held` are tasks
that have been allocated and not started. -/
structure Core (held : List Task) (inService : Fin 16 → Bool) (sched : Scheduler)
    (lists : QueueId → List Task) (free : List Task) : Prop where
  queued : Queued sched.links lists
  freel : NextList sched.links.next sched.tskFreel free
  spareNodup : (free ++ held).Nodup
  spare : ∀ task ∈ free ++ held, sched.links.owner task = none ∧ sched.state task ≠ .blocked
  intrSpare : ∀ i task, sched.intrTask i = some task → task ∉ free ++ held ∧ task ≠ idleTask
  intrUnique : ∀ i j task, sched.intrTask i = some task → sched.intrTask j = some task → i = j
  intrAlive : ∀ i task, sched.intrTask i = some task → sched.state task ≠ .freeing
  parked : ∀ i task, sched.intrTask i = some task → inService i = false →
    sched.links.owner task = none
  pri : ∀ i task, task ∈ lists (.tqueue i) → sched.pri task = i
  runnable : ∀ i task, task ∈ lists (.tqueue i) → sched.state task ≠ .blocked
  idle : idleTask ∈ lists (.tqueue TASK_PRI_IDLE)

/-- The running task heads its queue, and it is the idle task only if nothing of
higher priority is runnable. -/
structure Current (sched : Scheduler) (lists : QueueId → List Task) : Prop where
  head : (lists (.tqueue (sched.pri sched.curtask))).head? = some sched.curtask
  idleAlone : sched.curtask = idleTask → ∀ i, i < TASK_PRI_IDLE → lists (.tqueue i) = []

/-- A task that may be put on a queue: on none now, not spare, and not kept for an
interrupt that is not in service. -/
structure Loose (held : List Task) (inService : Fin 16 → Bool) (sched : Scheduler)
    (free : List Task) (task : Task) : Prop where
  unowned : sched.links.owner task = none
  notSpare : task ∉ free ++ held
  notParked : ∀ i, sched.intrTask i = some task → inService i = true

section Core

variable {held : List Task} {inService : Fin 16 → Bool} {sched : Scheduler}
variable {lists : QueueId → List Task} {free front rest : List Task} {task : Task}
variable {queue : QueueId}

namespace Core

theorem owned (core : Core held inService sched lists free) (member : task ∈ lists queue) :
    task ∉ free ++ held ∧ ∀ i, sched.intrTask i = some task → inService i = true := by
  have owner := (core.queued.owner task queue).mpr member
  constructor
  · intro isSpare
    rw [(core.spare task isSpare).1] at owner
    simp at owner
  · intro i isIntr
    cases service : inService i with
    | true => rfl
    | false =>
        rw [core.parked i task isIntr service] at owner
        simp at owner

theorem setState (core : Core held inService sched lists free) (state : TState) (task : Task)
    (allowed : state ≠ .blocked ∨ sched.links.owner task = none ∧ task ∉ free ++ held)
    (alive : state ≠ .freeing ∨ ∀ i, sched.intrTask i ≠ some task) :
    Core held inService (sched.setState task state) lists free := by
  refine { core with
    spare := fun other isSpare => ?_
    runnable := fun i other member => ?_
    intrAlive := fun i other isIntr => ?_ }
  · obtain ⟨unowned, notBlocked⟩ := core.spare other isSpare
    refine ⟨unowned, ?_⟩
    by_cases same : other = task
    · subst same
      simp only [Scheduler.setState, Function.update_self]
      exact allowed.resolve_right fun both => both.2 isSpare
    · simpa [Scheduler.setState, same] using notBlocked
  · have notFreeing := core.intrAlive i other isIntr
    by_cases same : other = task
    · subst same
      simp only [Scheduler.setState, Function.update_self]
      exact alive.resolve_right fun noIntr => noIntr i isIntr
    · simpa [Scheduler.setState, same] using notFreeing
  · have notBlocked := core.runnable i other member
    by_cases same : other = task
    · subst same
      simp only [Scheduler.setState, Function.update_self]
      exact allowed.resolve_right fun both => core.queued.not_mem both.1 _ member
    · simpa [Scheduler.setState, same] using notBlocked

theorem dequeue (core : Core held inService sched lists free) (notSpare : task ∉ free ++ held)
    (notIdle : task ≠ idleTask) :
    Core held inService (sched.dequeue task) (fun queue => (lists queue).erase task) free where
  queued := taskDequeue_spec core.queued task
  freel := core.freel.congr fun node member =>
    taskDequeue_frame core.queued
      (fun same => notSpare (same ▸ List.mem_append_left _ member))
      (core.spare node (List.mem_append_left _ member)).1
  spareNodup := core.spareNodup
  spare other isSpare := by
    obtain ⟨unowned, notBlocked⟩ := core.spare other isSpare
    have ne : other ≠ task := fun same => notSpare (same ▸ isSpare)
    refine ⟨?_, notBlocked⟩
    simp only [Scheduler.dequeue, taskDequeue_owner core.queued, Function.update_of_ne ne, unowned]
  intrSpare := core.intrSpare
  intrUnique := core.intrUnique
  intrAlive := core.intrAlive
  parked i other isIntr service := by
    have unowned := core.parked i other isIntr service
    by_cases same : other = task
    · simp [Scheduler.dequeue, taskDequeue_owner core.queued, same]
    · simp [Scheduler.dequeue, taskDequeue_owner core.queued, same, unowned]
  pri i other member := core.pri i other (List.mem_of_mem_erase member)
  runnable i other member := core.runnable i other (List.mem_of_mem_erase member)
  idle := (List.mem_erase_of_ne notIdle.symm).mpr core.idle

/-- A dequeued task may be put on another queue. -/
theorem loose_dequeue (core : Core held inService sched lists free)
    (notSpare : task ∉ free ++ held)
    (notParked : ∀ i, sched.intrTask i = some task → inService i = true) :
    Loose held inService (sched.dequeue task) free task where
  unowned := by simp [Scheduler.dequeue, taskDequeue_owner core.queued]
  notSpare := notSpare
  notParked := notParked

theorem push (core : Core held inService sched lists free)
    (loose : Loose held inService sched free task)
    (fits : ∀ i, queue = .tqueue i → sched.pri task = i ∧ sched.state task ≠ .blocked) :
    Core held inService (sched.push queue task) (update lists queue (lists queue ++ [task]))
      free where
  queued := taskqPush_spec core.queued loose.unowned queue
  freel := core.freel.congr fun node member =>
    taskqPush_frame core.queued
      (fun same => loose.notSpare (same ▸ List.mem_append_left _ member))
      (core.spare node (List.mem_append_left _ member)).1
  spareNodup := core.spareNodup
  spare other isSpare := by
    obtain ⟨unowned, notBlocked⟩ := core.spare other isSpare
    have ne : other ≠ task := fun same => loose.notSpare (same ▸ isSpare)
    refine ⟨?_, notBlocked⟩
    simp only [Scheduler.push, taskqPush_owner, Function.update_of_ne ne, unowned]
  intrSpare := core.intrSpare
  intrUnique := core.intrUnique
  intrAlive := core.intrAlive
  parked i other isIntr service := by
    have unowned := core.parked i other isIntr service
    have ne : other ≠ task := by
      rintro rfl
      rw [loose.notParked i isIntr] at service
      simp at service
    simp only [Scheduler.push, taskqPush_owner, Function.update_of_ne ne, unowned]
  pri i other member := by
    by_cases same : QueueId.tqueue i = queue
    · rw [same, Function.update_self, List.mem_append, List.mem_singleton] at member
      rcases member with earlier | rfl
      · exact core.pri i other (same ▸ earlier)
      · exact (fits i same.symm).1
    · rw [Function.update_of_ne same] at member
      exact core.pri i other member
  runnable i other member := by
    by_cases same : QueueId.tqueue i = queue
    · rw [same, Function.update_self, List.mem_append, List.mem_singleton] at member
      rcases member with earlier | rfl
      · exact core.runnable i other (same ▸ earlier)
      · exact (fits i same.symm).2
    · rw [Function.update_of_ne same] at member
      exact core.runnable i other member
  idle := by
    by_cases same : QueueId.tqueue TASK_PRI_IDLE = queue
    · rw [← same, Function.update_self]
      exact List.mem_append_left _ core.idle
    · rw [Function.update_of_ne same]
      exact core.idle

theorem enqueue (core : Core held inService sched lists free)
    (loose : Loose held inService sched free task) (notBlocked : sched.state task ≠ .blocked) :
    Core held inService (sched.enqueue task)
      (update lists (.tqueue (sched.pri task)) (lists (.tqueue (sched.pri task)) ++ [task]))
      free := by
  refine core.push loose ?_
  rintro i ⟨rfl⟩
  exact ⟨rfl, notBlocked⟩

/-- Any of its tasks may become the head of a queue. -/
theorem reheaded (core : Core held inService sched lists free)
    (list : lists queue = front ++ task :: rest) :
    Core held inService { sched with links := sched.links.setHead queue (some task) }
      (update lists queue (task :: (rest ++ front))) free := by
  have members : ∀ other queue', other ∈ update lists queue (task :: (rest ++ front)) queue' ↔
      other ∈ lists queue' := by
    intro other queue'
    by_cases same : queue' = queue
    · subst same
      rw [Function.update_self, list]
      simp only [List.mem_cons, List.mem_append]
      tauto
    · rw [Function.update_of_ne same]
  exact { core with
    queued := core.queued.reheaded list
    pri := fun i other member => core.pri i other ((members other _).mp member)
    runnable := fun i other member => core.runnable i other ((members other _).mp member)
    idle := (members _ _).mpr core.idle }

/-- A loose task with no part in an interrupt joins the free list. -/
theorem taskFree (core : Core held inService sched lists free)
    (loose : Loose held inService sched free task) (notIntr : ∀ i, sched.intrTask i ≠ some task)
    (notIdle : task ≠ idleTask) :
    Core held inService (sched.taskFree task) lists (task :: free) := by
  have freed := core.setState .free task (.inl (by decide)) (.inl (by decide))
  have away : ∀ {other queue}, other ∈ lists queue → other ≠ task := by
    rintro other queue member rfl
    exact core.queued.not_mem loose.unowned queue member
  refine { freed with
    queued := ⟨fun queue => ?_, core.queued.head, core.queued.owner, core.queued.nodup⟩
    freel := ⟨rfl, ?_⟩
    spareNodup := List.nodup_cons.mpr ⟨loose.notSpare, core.spareNodup⟩
    spare := fun other isSpare => ?_
    intrSpare := fun i other isIntr => ?_ }
  · exact (core.queued.ring queue).congr
      (fun node member => Function.update_of_ne (away member) _ _)
      fun node member => Function.update_of_ne (away member) _ _
  · have next : (sched.taskFree task).links.next task = sched.tskFreel :=
      Function.update_self _ _ _
    rw [next]
    exact core.freel.congr fun node member => Function.update_of_ne
      (fun same : node = task => loose.notSpare (same ▸ List.mem_append_left _ member)) _ _
  · rcases List.mem_cons.mp isSpare with rfl | earlier
    · exact ⟨loose.unowned, by simp [Scheduler.taskFree, Scheduler.setState]⟩
    · exact freed.spare other earlier
  · obtain ⟨notSpare, ne⟩ := core.intrSpare i other isIntr
    refine ⟨fun isSpare => ?_, ne⟩
    rcases List.mem_cons.mp isSpare with rfl | earlier
    · exact notIntr i isIntr
    · exact notSpare earlier

/-- A held task is taken out to be put to use. -/
theorem unhold (core : Core held inService sched lists free) (member : task ∈ held) :
    Core (held.erase task) inService sched lists free ∧
      Loose (held.erase task) inService sched free task ∧ task ≠ idleTask ∧
        ∀ i, sched.intrTask i ≠ some task := by
  have isSpare : task ∈ free ++ held := List.mem_append_right _ member
  have fewer : ∀ {other}, other ∈ free ++ held.erase task → other ∈ free ++ held := by
    intro other
    simp only [List.mem_append]
    exact Or.imp_right List.mem_of_mem_erase
  obtain ⟨freeNodup, heldNodup, apart⟩ := List.nodup_append.mp core.spareNodup
  have unowned := (core.spare task isSpare).1
  refine ⟨{ core with
    spareNodup := core.spareNodup.sublist ((List.Sublist.refl free).append List.erase_sublist)
    spare := fun other inRest => core.spare other (fewer inRest)
    intrSpare := fun i other isIntr => ⟨fun inRest => (core.intrSpare i other isIntr).1
      (fewer inRest), (core.intrSpare i other isIntr).2⟩ }, ⟨unowned, ?_, ?_⟩, ?_, ?_⟩
  · rw [List.mem_append, not_or]
    exact ⟨fun inFree => apart task inFree task member rfl, heldNodup.not_mem_erase⟩
  · exact fun i isIntr => absurd isSpare (core.intrSpare i task isIntr).1
  · rintro rfl
    exact core.queued.not_mem unowned _ core.idle
  · exact fun i isIntr => absurd isSpare (core.intrSpare i task isIntr).1

/-- Setting the priority of a task that is on no queue. -/
theorem setPri (core : Core held inService sched lists free)
    (unowned : sched.links.owner task = none) (pri : Pri) :
    Core held inService { sched with pri := update sched.pri task pri } lists free where
  __ := core
  pri i other member := by
    have ne : other ≠ task := by
      rintro rfl
      exact core.queued.not_mem unowned _ member
    simpa [ne] using core.pri i other member

/-- An interrupt goes into service. -/
theorem serve (core : Core held inService sched lists free) (i : Fin 16) :
    Core held (update inService i true) sched lists free where
  __ := core
  parked j task isIntr service := by
    by_cases same : j = i
    · subst same
      simp at service
    · exact core.parked j task isIntr (by simpa [same] using service)

/-- An interrupt goes out of service when its task is on no queue. -/
theorem unserve (core : Core held inService sched lists free) {i : Fin 16}
    (unowned : ∀ task, sched.intrTask i = some task → sched.links.owner task = none) :
    Core held (update inService i false) sched lists free where
  __ := core
  parked j task isIntr service := by
    by_cases same : j = i
    · subst same
      exact unowned task isIntr
    · exact core.parked j task isIntr (by simpa [same] using service)

end Core

/-- `task_runnable` finds the head of the first run queue that is not empty. -/
theorem taskRunnable_spec (core : Core held inService sched lists free) :
    ∃ i task, sched.taskRunnable = some task ∧ (lists (.tqueue i)).head? = some task ∧
      ∀ j, j < i → lists (.tqueue j) = [] := by
  cases found : sched.taskRunnable with
  | none =>
      have empty := List.findSome?_eq_none_iff.mp found TASK_PRI_IDLE (List.mem_finRange _)
      rw [core.queued.head, List.head?_eq_none_iff] at empty
      have := core.idle
      simp [empty] at this
  | some task =>
      obtain ⟨before, i, after, whole, head, skipped⟩ := List.findSome?_eq_some_iff.mp found
      rw [core.queued.head] at head
      refine ⟨i, task, rfl, head, fun j less => ?_⟩
      have ordered := List.pairwise_lt_finRange TASK_NPRI
      have member : j ∈ before ++ i :: after := whole ▸ List.mem_finRange j
      rw [whole] at ordered
      obtain ⟨-, later, -⟩ := List.pairwise_append.mp ordered
      have inBefore : j ∈ before := by
        rcases List.mem_append.mp member with inBefore | inAfter
        · exact inBefore
        · rcases List.mem_cons.mp inAfter with rfl | inAfter
          · exact absurd less (lt_irrefl _)
          · exact absurd ((List.pairwise_cons.mp later).1 j inAfter) (lt_asymm less)
      have empty := skipped j inBefore
      rwa [core.queued.head, List.head?_eq_none_iff] at empty

/-- Switching to the runnable task makes it current. -/
theorem yieldToRunnable_spec (core : Core held inService sched lists free) :
    ∃ i task, sched.yieldToRunnable = .ok (sched.swtosi task) ∧
      Core held inService (sched.swtosi task) lists free ∧ Current (sched.swtosi task) lists ∧
      (lists (.tqueue i)).head? = some task ∧ ∀ j, j < i → lists (.tqueue j) = [] := by
  obtain ⟨i, task, found, head, least⟩ := taskRunnable_spec core
  have member : task ∈ lists (.tqueue i) := List.mem_of_head? head
  refine ⟨i, task, ?_, ?_, ⟨?_, ?_⟩, head, least⟩
  · simp only [Scheduler.yieldToRunnable, found]
  · have started := core.setState .run task (.inl (by decide)) (.inl (by decide))
    exact { started with }
  · have pri := core.pri i task member
    simp only [Scheduler.swtosi, Scheduler.setState, pri, head]
  · intro isIdle j less
    have isIdle : task = idleTask := isIdle
    have place : QueueId.tqueue i = .tqueue TASK_PRI_IDLE :=
      core.queued.queue_unique member (isIdle ▸ core.idle)
    obtain rfl := QueueId.tqueue.inj place
    exact least j less

/-! ## What the routines do to the lists -/

/-- `iswitch` rotates the queue of the interrupted task and switches to the first
task of the first run queue. -/
theorem iswitch_spec (core : Core held inService sched lists free)
    (head : (lists (.tqueue (sched.pri sched.curtask))).head? = some sched.curtask) :
    ∃ rest lists' sched', lists (.tqueue (sched.pri sched.curtask)) = sched.curtask :: rest ∧
      lists' = update lists (.tqueue (sched.pri sched.curtask)) (rest ++ [sched.curtask]) ∧
      sched.iswitch = .ok sched' ∧ Core held inService sched' lists' free ∧
      Current sched' lists' ∧
      (∃ i, (lists' (.tqueue i)).head? = some sched'.curtask ∧ ∀ j, j < i → lists' (.tqueue j) = []) ∧
      sched'.due = sched.due ∧ sched'.tickcnt = sched.tickcnt := by
  obtain ⟨rest, list⟩ := List.head?_eq_some_iff.mp head
  have stopped := core.setState .ready sched.curtask (.inl (by decide)) (.inl (by decide))
  have next : sched.links.next sched.curtask = (rest ++ [sched.curtask]).head? := by
    have ring := core.queued.ring (.tqueue (sched.pri sched.curtask))
    rw [list] at ring
    exact ring.next_first
  have rotated : Core held inService
      { sched.setState sched.curtask .ready with
        links := sched.links.setHead (.tqueue (sched.pri sched.curtask))
          (sched.links.next sched.curtask) }
      (update lists (.tqueue (sched.pri sched.curtask)) (rest ++ [sched.curtask])) free := by
    rw [next]
    cases rest with
    | nil => exact stopped.reheaded (show _ = [] ++ sched.curtask :: [] from list)
    | cons second rest => exact stopped.reheaded (show _ = [sched.curtask] ++ second :: rest from list)
  obtain ⟨i, task, switched, core', current, first, least⟩ := yieldToRunnable_spec rotated
  exact ⟨rest, _, _, list, rfl, switched, core', current, ⟨i, first, least⟩, rfl, rfl⟩

/-- A task that is taken off a run queue and put on another queue. -/
theorem leave_spec (core : Core held inService sched lists free)
    (member : task ∈ lists queue) (notIdle : task ≠ idleTask) (target : QueueId)
    (notRun : ∀ i, target ≠ .tqueue i) :
    Core held inService (((sched.dequeue task).setState task .blocked).push target task)
      (update (fun queue => (lists queue).erase task) target
        ((lists target).erase task ++ [task])) free := by
  obtain ⟨notSpare, notParked⟩ := core.owned member
  have loose := core.loose_dequeue notSpare notParked
  refine ((core.dequeue notSpare notIdle).setState .blocked task
    (.inr ⟨loose.unowned, loose.notSpare⟩) (.inl (by decide))).push
      ⟨loose.unowned, loose.notSpare, loose.notParked⟩ ?_
  exact fun i isRun => absurd isRun (notRun i)

/-- The running task stays at the head of its queue when tasks are added behind it. -/
theorem Current.stay {sched' : Scheduler} {lists' : QueueId → List Task}
    (current : Current sched lists) (notIdle : sched.curtask ≠ idleTask)
    (sameTask : sched'.curtask = sched.curtask)
    (samePri : sched'.pri sched.curtask = sched.pri sched.curtask)
    (longer : ∃ extra, lists' (.tqueue (sched.pri sched.curtask)) =
      lists (.tqueue (sched.pri sched.curtask)) ++ extra) : Current sched' lists' where
  head := by
    obtain ⟨extra, longer⟩ := longer
    rw [sameTask, samePri, longer, List.head?_append, current.head]
    rfl
  idleAlone isIdle := absurd (sameTask.symm.trans isIdle) notIdle

theorem Current.member (current : Current sched lists) :
    sched.curtask ∈ lists (.tqueue (sched.pri sched.curtask)) :=
  List.mem_of_head? current.head

/-- Adding a task to one queue makes every queue the same or longer. -/
theorem exists_extra (lists : QueueId → List Task) (queue target : QueueId) (task : Task) :
    ∃ extra, update lists target (lists target ++ [task]) queue = lists queue ++ extra := by
  by_cases same : queue = target
  · subst same
    exact ⟨[task], Function.update_self _ _ _⟩
  · exact ⟨[], by rw [Function.update_of_ne same, List.append_nil]⟩

/-- A task that waits on some queue, or on none, is made ready. -/
theorem ready_spec (core : Core held inService sched lists free)
    (away : ∀ i, task ∉ lists (.tqueue i)) (notSpare : task ∉ free ++ held)
    (notParked : ∀ i, sched.intrTask i = some task → inService i = true) :
    Core held inService (((sched.dequeue task).setState task .ready).enqueue task)
      (update (fun queue => (lists queue).erase task) (.tqueue (sched.pri task))
        (lists (.tqueue (sched.pri task)) ++ [task])) free := by
  have notIdle : task ≠ idleTask := by
    rintro rfl
    exact away _ core.idle
  have loose := core.loose_dequeue notSpare notParked
  have enqueued := ((core.dequeue notSpare notIdle).setState .ready task (.inl (by decide))
    (.inl (by decide))).enqueue ⟨loose.unowned, loose.notSpare, loose.notParked⟩
      (by simp [Scheduler.setState])
  have list : (lists (.tqueue (sched.pri task))).erase task = lists (.tqueue (sched.pri task)) :=
    List.erase_of_not_mem (away _)
  simp only [Scheduler.dequeue, Scheduler.setState, list] at enqueued
  exact enqueued

/-- `task_sch_async` puts a task that is on no queue on its run queue. -/
theorem taskSchAsync_spec (core : Core held inService sched lists free)
    (loose : Loose held inService sched free task) :
    Core held inService (sched.taskSchAsync task)
      (update lists (.tqueue (sched.pri task)) (lists (.tqueue (sched.pri task)) ++ [task]))
      free :=
  (core.setState .ready task (.inl (by decide)) (.inl (by decide))).enqueue
    ⟨loose.unowned, loose.notSpare, loose.notParked⟩ (by simp [Scheduler.setState])

/-- The lists after `task_wake` has moved `woken` off the sleeping queue. -/
def wakeLists (pri : Task → Pri) (lists : QueueId → List Task) (woken rest : List Task) :
    QueueId → List Task := fun queue =>
  if queue = .sleeping then rest
  else lists queue ++ woken.filter fun task => QueueId.tqueue (pri task) = queue

theorem wakeLists_nil {pri : Task → Pri} {rest : List Task} (list : lists .sleeping = rest) :
    wakeLists pri lists [] rest = lists := by
  funext queue
  by_cases same : queue = .sleeping
  · simp [wakeLists, same, list]
  · simp [wakeLists, same]

/-- Waking one task and then others. -/
theorem wakeLists_cons (queued : Queued sched.links lists) (member : task ∈ lists .sleeping)
    (woken rest : List Task) :
    wakeLists sched.pri (update (fun queue => (lists queue).erase task)
      (.tqueue (sched.pri task)) (lists (.tqueue (sched.pri task)) ++ [task])) woken rest =
        wakeLists sched.pri lists (task :: woken) rest := by
  funext queue
  by_cases isSleeping : queue = .sleeping
  · simp [wakeLists, isSleeping]
  · by_cases isRun : QueueId.tqueue (sched.pri task) = queue
    · subst isRun
      simp [wakeLists]
    · have absent : task ∉ lists queue := fun inQueue =>
        isSleeping (queued.queue_unique inQueue member)
      simp [wakeLists, isSleeping, isRun, Ne.symm isRun, List.erase_of_not_mem absent]

/-- `task_wake` moves the sleepers at the front of the sleeping queue that are due
to their run queues, up to the first one that is not. -/
theorem taskWakeLoop_spec (core : Core held inService sched lists free) (fuel : Nat)
    (enough : (lists .sleeping).length < fuel) :
    ∃ woken rest links state,
      Scheduler.taskWakeLoop fuel sched = .ok { sched with links := links, state := state } ∧
      lists .sleeping = woken ++ rest ∧
      Core held inService { sched with links := links, state := state }
        (wakeLists sched.pri lists woken rest) free ∧
      (∀ task ∈ woken, sched.due task = sched.tickcnt ∧ state task = .ready) ∧
      (∀ task, rest.head? = some task → sched.due task ≠ sched.tickcnt) ∧
      ∀ task, task ∉ woken → state task = sched.state task := by
  induction fuel generalizing sched lists with
  | zero => simp at enough
  | succ fuel ih =>
      cases list : lists .sleeping with
      | nil =>
          have head : sched.links.head .sleeping = none := by rw [core.queued.head, list]; rfl
          refine ⟨[], [], sched.links, sched.state, ?_, rfl, ?_, by simp, by simp, fun _ _ => rfl⟩
          · simp only [Scheduler.taskWakeLoop, head]
          · rw [wakeLists_nil list]
            exact core
      | cons p tail =>
          have head : sched.links.head .sleeping = some p := by rw [core.queued.head, list]; rfl
          by_cases due : sched.due p = sched.tickcnt
          · have member : p ∈ lists .sleeping := list ▸ List.mem_cons_self
            obtain ⟨notSpare, notParked⟩ := core.owned member
            have away : ∀ i, p ∉ lists (.tqueue i) := fun i inRun => by
              have := core.queued.queue_unique member inRun
              simp at this
            have woke := ready_spec core away notSpare notParked
            have shorter : update (fun queue => (lists queue).erase p) (.tqueue (sched.pri p))
                (lists (.tqueue (sched.pri p)) ++ [p]) .sleeping = tail := by
              rw [Function.update_of_ne (by simp)]
              simp [list]
            have distinct := core.queued.nodup .sleeping
            rw [list] at distinct enough
            obtain ⟨woken, rest, links, state, ran, split, core', ready, later, kept⟩ :=
              ih woke (by rw [shorter]; simpa using enough)
            rw [shorter] at split
            refine ⟨p :: woken, rest, links, state, ?_, by rw [split]; rfl, ?_, ?_, later, ?_⟩
            · simp only [Scheduler.taskWakeLoop, head, due, if_true]
              exact ran
            · rw [← wakeLists_cons core.queued member]
              exact core'
            · intro task inWoken
              rcases List.mem_cons.mp inWoken with rfl | inWoken
              · have notAgain : task ∉ woken := fun again =>
                  (List.nodup_cons.mp distinct).1 (split ▸ List.mem_append_left _ again)
                refine ⟨due, (kept task notAgain).trans ?_⟩
                simp [Scheduler.enqueue, Scheduler.setState]
              · exact ready task inWoken
            · intro task notWoken
              rw [List.mem_cons, not_or] at notWoken
              rw [kept task notWoken.2]
              simp [Scheduler.enqueue, Scheduler.setState, Scheduler.dequeue, notWoken.1]
          · refine ⟨[], p :: tail, sched.links, sched.state, ?_, rfl, ?_, by simp, ?_,
              fun _ _ => rfl⟩
            · simp only [Scheduler.taskWakeLoop, head, due, if_false]
            · rw [wakeLists_nil list]
              exact core
            · intro task isHead
              obtain rfl := Option.some.inj isHead
              exact due

/-- The search of `task_sleep` ends where it begins. -/
theorem sleepSearch_eq (due : Task → Nat) (head curtask : Task) :
    Scheduler.sleepSearch due head curtask taskFuel head = some head := by
  simp [taskFuel, Scheduler.sleepSearch]

/-- Linking a sleeper in before the head is a push, after which the head may be
moved to it. -/
theorem sleepInsert_eq {links : TaskLinks Task QueueId} (due : Task → Nat) {p last : Task}
    (head : links.head .sleeping = some p) (prev : links.prev p = some last)
    (notHead : task ≠ p) (notLast : task ≠ last) :
    Scheduler.sleepInsert links due p task =
      if due task < due p then (taskqPush links .sleeping task).setHead .sleeping (some task)
      else taskqPush links .sleeping task := by
  rw [taskqPush_nonempty head prev]
  simp only [Scheduler.sleepInsert, TaskLinks.setOwner, TaskLinks.setPrev, TaskLinks.setNext, prev,
    Function.update_of_ne notHead.symm, head, true_and]
  rw [Function.update_comm notLast]

/-- Where `task_sleep` puts a task on the list of sleepers. -/
def sleepList (due : Task → Nat) (task : Task) : List Task → List Task
  | [] => [task]
  | p :: rest => if due task < due p then task :: p :: rest else p :: rest ++ [task]

/-- The tick at which a task is due that sleeps for a number of ticks. -/
def dueAfter (sched : Scheduler) (ticks : Nat) : Nat :=
  (sched.tickcnt + if ticks = 0 then 1 else ticks) % 0x100000000

/-- `task_sleep` moves the running task from its run queue to the sleepers. -/
theorem taskSleep_spec (core : Core held inService sched lists free)
    (member : sched.curtask ∈ lists (.tqueue (sched.pri sched.curtask)))
    (notIdle : sched.curtask ≠ idleTask) (ticks : Nat) :
    ∃ lists' sched', sched.taskSleep ticks = .ok sched' ∧
      Core held inService sched' lists' free ∧ Current sched' lists' ∧
      sched'.due = update sched.due sched.curtask (dueAfter sched ticks) ∧
      sched'.tickcnt = sched.tickcnt ∧
      lists' .sleeping = sleepList sched'.due sched.curtask (lists .sleeping) ∧
      ∀ queue, queue ≠ .sleeping → lists' queue = (lists queue).erase sched.curtask := by
  unfold dueAfter
  generalize isDue : update sched.due sched.curtask
    ((sched.tickcnt + if ticks = 0 then 1 else ticks) % 0x100000000) = due
  have timed : Core held inService { sched with due := due } lists free := { core with }
  obtain ⟨notSpare, notParked⟩ := core.owned member
  have left := (timed.dequeue notSpare notIdle).queued
  have pushed := leave_spec timed member notIdle .sleeping (by simp)
  have awake : sched.curtask ∉ lists .sleeping := fun inSleeping => by
    have := core.queued.queue_unique inSleeping member
    simp at this
  have kept : (lists .sleeping).erase sched.curtask = lists .sleeping :=
    List.erase_of_not_mem awake
  rw [kept] at pushed
  have head := left.head .sleeping
  simp only [kept] at head
  cases list : lists .sleeping with
  | nil =>
      rw [list] at head pushed
      obtain ⟨i, task, ran, core', current, -⟩ := yieldToRunnable_spec pushed
      refine ⟨_, _, ?_, core', current, rfl, rfl, ?_, fun queue ne => ?_⟩
      · simp only [Scheduler.taskSleep, isDue]
        simp only [Scheduler.dequeue, List.head?_nil] at head
        simp only [Scheduler.dequeue, Scheduler.setState, head]
        exact ran
      · rw [Function.update_self]
        rfl
      · rw [Function.update_of_ne ne]
  | cons p rest =>
      rw [list] at head pushed awake
      have ring := left.ring .sleeping
      rw [kept, list] at ring
      obtain ⟨last, isLast⟩ : ∃ last, (p :: rest).getLast? = some last :=
        ⟨_, List.getLast?_eq_some_getLast (List.cons_ne_nil p rest)⟩
      have notHead : sched.curtask ≠ p := fun same => awake (same ▸ List.mem_cons_self)
      have notLast : sched.curtask ≠ last := fun same =>
        awake (same ▸ List.mem_of_getLast? isLast)
      have inserted := sleepInsert_eq due head (ring.prev_first.trans isLast) notHead
        notLast
      have ran : sched.taskSleep ticks = Scheduler.yieldToRunnable
          { (({ sched with due := due }).setState sched.curtask .blocked).dequeue sched.curtask with
            links := Scheduler.sleepInsert (taskDequeue sched.links sched.curtask) due p
              sched.curtask } := by
        simp only [Scheduler.taskSleep, isDue]
        simp only [Scheduler.dequeue, List.head?_cons] at head
        simp only [Scheduler.dequeue, Scheduler.setState, head, sleepSearch_eq]
      simp only [Scheduler.dequeue] at inserted
      rw [ran, inserted]
      by_cases earlier : due sched.curtask < due p
      · have split : update (fun queue => (lists queue).erase sched.curtask) .sleeping
            (p :: rest ++ [sched.curtask]) .sleeping = p :: rest ++ sched.curtask :: [] := by
          rw [Function.update_self]
        have first := pushed.reheaded split
        obtain ⟨i, task, ran, core', current, -⟩ := yieldToRunnable_spec first
        refine ⟨_, _, ?_, core', current, rfl, rfl, ?_, fun queue ne => ?_⟩
        · rw [if_pos earlier]
          exact ran
        · rw [Function.update_self]
          simp only [sleepList, Scheduler.swtosi, Scheduler.setState, Scheduler.push,
            Scheduler.dequeue, earlier, if_true, List.nil_append]
        · rw [Function.update_of_ne ne, Function.update_of_ne ne]
      · obtain ⟨i, task, ran, core', current, -⟩ := yieldToRunnable_spec pushed
        refine ⟨_, _, ?_, core', current, rfl, rfl, ?_, fun queue ne => ?_⟩
        · rw [if_neg earlier]
          exact ran
        · rw [Function.update_self]
          simp only [sleepList, Scheduler.swtosi, Scheduler.setState, Scheduler.push,
            Scheduler.dequeue, earlier, if_false]
        · rw [Function.update_of_ne ne]

/-- `task_alloc` takes the first task off the free list. -/
theorem taskAlloc_spec (core : Core held inService sched lists free) :
    free = [] ∧ sched.taskAlloc = (none, sched) ∨ ∃ task rest, free = task :: rest ∧
      sched.taskAlloc = (some task, { sched with tskFreel := sched.links.next task }) ∧
      Core (task :: held) inService { sched with tskFreel := sched.links.next task } lists rest := by
  cases free with
  | nil =>
      have empty : sched.tskFreel = none := core.freel
      exact .inl ⟨rfl, by simp only [Scheduler.taskAlloc, empty]⟩
  | cons task rest =>
      obtain ⟨first, after⟩ := core.freel
      have moved : (task :: rest ++ held).Perm (rest ++ task :: held) := List.perm_middle.symm
      refine .inr ⟨task, rest, rfl, by simp only [Scheduler.taskAlloc, first], { core with
        freel := after
        spareNodup := moved.nodup_iff.mp core.spareNodup
        spare := fun other isSpare => core.spare other (moved.symm.subset isSpare)
        intrSpare := fun i other isIntr => ?_ }⟩
      obtain ⟨notSpare, ne⟩ := core.intrSpare i other isIntr
      exact ⟨fun isSpare => notSpare (moved.symm.subset isSpare), ne⟩

/-- `task_reserve` clears a task and leaves it blocked on no queue. -/
theorem taskReserve_spec (core : Core held inService sched lists free)
    (loose : Loose held inService sched free task) (notIdle : task ≠ idleTask) (pri : Pri) :
    Core held inService (sched.taskReserve task pri) lists free ∧
      Loose held inService (sched.taskReserve task pri) free task := by
  have kept : (fun queue => (lists queue).erase task) = lists :=
    funext fun queue => List.erase_of_not_mem (core.queued.not_mem loose.unowned queue)
  have cleared := core.dequeue loose.notSpare notIdle
  rw [kept] at cleared
  have unowned : (sched.dequeue task).links.owner task = none :=
    (core.loose_dequeue loose.notSpare loose.notParked).unowned
  have same : sched.taskReserve task pri =
      { (sched.dequeue task).setState task .blocked with
        pri := update sched.pri task pri, due := update sched.due task 0 } := by
    simp only [Scheduler.taskReserve, Scheduler.dequeue, taskDequeue_unowned loose.unowned,
      Scheduler.setState]
  have reserved := (cleared.setState .blocked task (.inr ⟨unowned, loose.notSpare⟩)
    (.inl (by decide))).setPri unowned pri
  rw [same]
  exact ⟨{ reserved with }, unowned, loose.notSpare, loose.notParked⟩

/-- A reserved task is given to an interrupt. -/
theorem Core.addIntr (core : Core held inService sched lists free)
    (loose : Loose held inService sched free task) (notIdle : task ≠ idleTask)
    (alive : sched.state task ≠ .freeing) (notIntr : ∀ i, sched.intrTask i ≠ some task)
    (i : Fin 16) :
    Core held (update inService i false)
      { sched with intrTask := update sched.intrTask i (some task) } lists free := by
  have cases : ∀ {j other}, update sched.intrTask i (some task) j = some other →
      j = i ∧ other = task ∨ j ≠ i ∧ sched.intrTask j = some other := by
    intro j other isIntr
    by_cases same : j = i
    · subst same
      rw [Function.update_self, Option.some.injEq] at isIntr
      exact .inl ⟨rfl, isIntr.symm⟩
    · rw [Function.update_of_ne same] at isIntr
      exact .inr ⟨same, isIntr⟩
  refine { core with
    intrSpare := fun j other isIntr => ?_
    intrUnique := fun j k other isIntr isIntr' => ?_
    intrAlive := fun j other isIntr => ?_
    parked := fun j other isIntr service => ?_ }
  · rcases cases isIntr with ⟨-, rfl⟩ | ⟨-, earlier⟩
    · exact ⟨loose.notSpare, notIdle⟩
    · exact core.intrSpare j other earlier
  · rcases cases isIntr with ⟨rfl, rfl⟩ | ⟨-, earlier⟩ <;>
      rcases cases isIntr' with ⟨rfl, same⟩ | ⟨-, earlier'⟩
    · rfl
    · exact absurd earlier' (notIntr k)
    · exact absurd (same ▸ earlier) (notIntr j)
    · exact core.intrUnique j k other earlier earlier'
  · rcases cases isIntr with ⟨-, rfl⟩ | ⟨-, earlier⟩
    · exact alive
    · exact core.intrAlive j other earlier
  · rcases cases isIntr with ⟨-, rfl⟩ | ⟨ne, earlier⟩
    · exact loose.unowned
    · exact core.parked j other earlier (by simpa [ne] using service)

/-- `task_exit` takes the running task off its queue and frees or parks it. -/
theorem taskExit_spec (core : Core held inService sched lists free)
    (member : sched.curtask ∈ lists queue) (notIdle : sched.curtask ≠ idleTask)
    (frees : sched.state sched.curtask = .freeing → ∀ i, sched.intrTask i ≠ some sched.curtask) :
    ∃ sched', sched.taskExit = .ok sched' ∧
      Core held inService sched' (fun queue => (lists queue).erase sched.curtask)
        (if sched.state sched.curtask = .freeing then sched.curtask :: free else free) ∧
      Current sched' (fun queue => (lists queue).erase sched.curtask) ∧
      sched'.links.owner sched.curtask = none ∧ sched'.intrTask = sched.intrTask ∧
      sched'.tickcnt = sched.tickcnt ∧ sched'.due = sched.due := by
  obtain ⟨notSpare, notParked⟩ := core.owned member
  have left := core.dequeue notSpare notIdle
  have loose := core.loose_dequeue notSpare notParked
  by_cases freeing : sched.state sched.curtask = .freeing
  · have freed := left.taskFree loose (frees freeing) notIdle
    obtain ⟨i, task, ran, core', current, -⟩ := yieldToRunnable_spec freed
    refine ⟨_, ?_, by rwa [if_pos freeing], current, loose.unowned, rfl, rfl, rfl⟩
    have state : (sched.dequeue sched.curtask).state sched.curtask = .freeing := freeing
    simp only [Scheduler.taskExit, state, if_true]
    exact ran
  · have parked := left.setState .blocked sched.curtask (.inr ⟨loose.unowned, notSpare⟩)
      (.inl (by decide))
    obtain ⟨i, task, ran, core', current, -⟩ := yieldToRunnable_spec parked
    refine ⟨_, ?_, by rwa [if_neg freeing], current, loose.unowned, rfl, rfl, rfl⟩
    have state : (sched.dequeue sched.curtask).state sched.curtask ≠ .freeing := freeing
    simp only [Scheduler.taskExit, state, if_false]
    exact ran

end Core

end Pegasos.Kernel.Sched
