import Pegasos.Kernel.Sched.Sleep

/-!
# What a step does to the queues

Every step of the system, seen from the run queues: which tasks it adds, who leaves the
processor, and who runs next.
-/

namespace Pegasos.Kernel.Sched

open Pegasos.Support
open Function (update)

/-! ## The tasks of a queue, read from the links -/

/-- The tasks from one of them on, up to the head of the queue. -/
def tasksFrom (next : Task → Option Task) (head : Task) : Nat → Task → List Task
  | 0, _ => []
  | fuel + 1, task =>
      task :: (next task).elim [] fun task =>
        if task = head then [] else tasksFrom next head fuel task

/-- The tasks of a queue, from its head on. -/
def Scheduler.tasks (sched : Scheduler) (queue : QueueId) : List Task :=
  (sched.links.head queue).elim [] fun head => tasksFrom sched.links.next head MAX_TASK head

theorem tasksFrom_path {next prev : Task → Option Task} {start stop : Task} {nodes : List Task}
    {fuel : Nat} (path : LinkPath next prev start nodes stop)
    (absent : stop ∉ nodes) (enough : nodes.length < fuel) :
    tasksFrom next stop fuel start = start :: nodes := by
  induction nodes generalizing start fuel with
  | nil =>
      cases fuel with
      | zero => simp at enough
      | succ fuel => simp [tasksFrom, show next start = some stop from path.1]
  | cons node nodes ih =>
      rw [List.mem_cons, not_or] at absent
      cases fuel with
      | zero => simp at enough
      | succ fuel =>
          have later := ih path.2 absent.2 (Nat.lt_of_succ_lt_succ enough)
          simp [tasksFrom, show next start = some node from path.1.1, Ne.symm absent.1, later]

/-- The links of a queue lead through the tasks of its list. -/
theorem Queued.tasks {sched : Scheduler} {lists : QueueId → List Task}
    (queued : Queued sched.links lists) (queue : QueueId) : sched.tasks queue = lists queue := by
  have ring := queued.ring queue
  have nodup := queued.nodup queue
  have few := nodup.length_le_card
  rw [Scheduler.tasks, queued.head queue]
  cases list : lists queue with
  | nil => rfl
  | cons head rest =>
      rw [list] at ring nodup few
      rw [Fintype.card_fin, List.length_cons] at few
      exact tasksFrom_path ring (List.nodup_cons.mp nodup).1 few

/-- Only one list for each queue fits the links. -/
theorem Queued.unique {sched : Scheduler} {lists lists' : QueueId → List Task}
    (queued : Queued sched.links lists) (queued' : Queued sched.links lists') : lists = lists' :=
  funext fun queue => (queued.tasks queue).symm.trans (queued'.tasks queue)

/-! ## What a step does to the queues -/

/-- How the processor is taken from the running task: not at all, by an interrupt, by
`task_yield_to`, or by `task_exit`. -/
inductive Leaving where
  | stays
  | interrupted
  | yields
  | exits
  deriving DecidableEq, Repr

/-- How a call takes the processor from the running task. -/
def callLeaving (sched : Scheduler) : Call → Leaving
  | .taskAlloc => .stays
  | .taskFree _ => .stays
  | .taskStart _ _ => .stays
  | .addHandler _ _ => .stays
  | .schAsync _ _ => .stays
  | .semaDown index => if int16 ((sched.semas index).count - 1) < 0 then .yields else .stays
  | .semaUp _ => .stays
  | .taskBlock _ => .yields
  | .taskUnblock _ => .stays
  | .taskSleep _ => .yields
  | .markFreeing => .stays
  | .taskExit => .exits

/-- How an action takes the processor from the running task. -/
def leaving (sched : Scheduler) : Action → Leaving
  | .tick => .interrupted
  | .intr _ => .interrupted
  | .intrEnd _ => .exits
  | .call call => callLeaving sched call
  | .idlePick => .stays
  | .idleYield => .yields

/-- The task that an action starts. -/
def started (sched : Scheduler) : Action → Option Task
  | .intr intr => sched.intrTask intr
  | .call (.taskStart task _) => some task
  | .call (.schAsync task _) => some task
  | _ => none

/-- The task that an action puts on a queue and that has been on none before. -/
def appears (sched : Scheduler) : Action → Option Task
  | .call (.taskUnblock (some task)) => if sched.links.owner task = none then some task else none
  | action => started sched action

/-- What a step does to the queues.  The run queues grow at the end, and the running task
`cur` may be taken off its queue, as it is by an interrupt.  Unless it stays, the next one
to run heads the first run queue with a task. -/
structure QueuesStep (cur : Task) (pri : Pri) (way : Leaving) (fresh : Option Task)
    (sched' : Scheduler) (lists lists' : QueueId → List Task) : Prop where
  queues : ∀ p, ∃ extra, way ≠ .interrupted ∧ lists' (.tqueue p) = lists (.tqueue p) ++ extra ∨
    lists' (.tqueue p) = (lists (.tqueue p)).erase cur ++ extra
  next : way ≠ .interrupted ∧ sched'.curtask = cur ∧ sched'.pri cur = pri ∨
    ∃ i, (lists' (.tqueue i)).head? = some sched'.curtask ∧ ∀ j, j < i → lists' (.tqueue j) = []
  members : ∀ task queue, task ∈ lists' queue → (∃ queue, task ∈ lists queue) ∨ fresh = some task
  kept : ∀ task queue, task ∈ lists queue → (way = .exits → task ≠ cur) →
    ∃ queue, task ∈ lists' queue
  stays : way = .stays → sched'.curtask = cur
  exits : way = .exits → ∀ queue, cur ∉ lists' queue

section Steps

variable {held : List Task} {inService : Fin 16 → Bool} {sched sched' before : Scheduler}
variable {lists lists' middle : QueueId → List Task} {free : List Task} {task : Task}
variable {queue : QueueId} {way : Leaving} {fresh : Option Task} {pri : Pri}

/-- Nothing happens to the queues. -/
theorem QueuesStep.same (quiet : way ≠ .interrupted ∧ way ≠ .exits)
    (sameTask : sched'.curtask = sched.curtask) (samePri : sched'.pri sched.curtask = pri) :
    QueuesStep sched.curtask pri way fresh sched' lists lists where
  queues _ := ⟨[], .inl ⟨quiet.1, (List.append_nil _).symm⟩⟩
  next := .inl ⟨quiet.1, sameTask, samePri⟩
  members _ queue member := .inl ⟨queue, member⟩
  kept _ queue member _ := ⟨queue, member⟩
  stays _ := sameTask
  exits exits := absurd exits quiet.2

/-- The running task stays, and a task joins a run queue. -/
theorem QueuesStep.joins {p : Pri} (quiet : way ≠ .interrupted ∧ way ≠ .exits)
    (joined : fresh = some task ∨ ∃ queue, task ∈ lists queue)
    (away : ∀ p, task ∉ lists (.tqueue p))
    (sameTask : sched'.curtask = sched.curtask) (samePri : sched'.pri sched.curtask = pri) :
    QueuesStep sched.curtask pri way fresh sched' lists
      (update (fun queue => (lists queue).erase task) (.tqueue p)
        (lists (.tqueue p) ++ [task])) where
  queues p' := by
    by_cases here : p' = p
    · subst here
      exact ⟨[task], .inl ⟨quiet.1, Function.update_self ..⟩⟩
    · refine ⟨[], .inl ⟨quiet.1, ?_⟩⟩
      rw [Function.update_of_ne (by simp [here]), List.erase_of_not_mem (away p'), List.append_nil]
  next := .inl ⟨quiet.1, sameTask, samePri⟩
  members other queue member := by
    by_cases here : queue = .tqueue p
    · subst here
      rw [Function.update_self, List.mem_append, List.mem_singleton] at member
      rcases member with member | rfl
      · exact .inl ⟨_, member⟩
      · exact joined.symm
    · rw [Function.update_of_ne here] at member
      exact .inl ⟨queue, List.mem_of_mem_erase member⟩
  kept other queue member _ := by
    by_cases here : queue = .tqueue p
    · subst here
      exact ⟨_, by rw [Function.update_self]; exact List.mem_append_left _ member⟩
    · by_cases isTask : other = task
      · exact ⟨.tqueue p, by rw [Function.update_self, isTask]; simp⟩
      · exact ⟨queue, by rwa [Function.update_of_ne here, List.mem_erase_of_ne isTask]⟩
  stays _ := sameTask
  exits exits := absurd exits quiet.2

/-- A task that has been on no queue joins a run queue. -/
theorem QueuesStep.arrives {p : Pri} (quiet : way ≠ .interrupted ∧ way ≠ .exits)
    (isFresh : fresh = some task) (absent : ∀ queue, task ∉ lists queue)
    (sameTask : sched'.curtask = sched.curtask) (samePri : sched'.pri sched.curtask = pri) :
    QueuesStep sched.curtask pri way fresh sched' lists
      (update lists (.tqueue p) (lists (.tqueue p) ++ [task])) := by
  have kept : (fun queue => (lists queue).erase task) = lists :=
    funext fun queue => List.erase_of_not_mem (absent queue)
  have joined := QueuesStep.joins (p := p) quiet (.inl isFresh) (fun p => absent _) sameTask samePri
  rwa [kept] at joined

/-- The running task leaves its run queue, and the next one runs. -/
theorem QueuesStep.leaves (core : Core held inService sched' lists' free)
    (member : sched.curtask ∈ lists queue)
    (left : ∀ p, lists' (.tqueue p) = (lists (.tqueue p)).erase sched.curtask)
    (members : ∀ other queue, other ∈ lists' queue → other = sched.curtask ∨ other ∈ lists queue)
    (kept : ∀ other queue, other ∈ lists queue → other ≠ sched.curtask → other ∈ lists' queue)
    (waits : way ≠ .exits → ∃ queue, sched.curtask ∈ lists' queue)
    (moves : way ≠ .stays) (exits : way = .exits → ∀ queue, sched.curtask ∉ lists' queue)
    (ran : before.yieldToRunnable = .ok sched') :
    QueuesStep sched.curtask pri way fresh sched' lists lists' where
  queues p := ⟨[], .inr (by rw [left, List.append_nil])⟩
  next := by
    obtain ⟨i, task, found, first, least⟩ := taskRunnable_spec core
    unfold Scheduler.yieldToRunnable at ran
    cases runnable : before.taskRunnable with
    | none => simp [runnable] at ran
    | some next =>
        rw [runnable] at ran
        obtain rfl := Outcome.ok.inj ran
        obtain rfl := Option.some.inj (runnable.symm.trans found)
        exact .inr ⟨i, first, least⟩
  members other queue' member' := by
    rcases members other queue' member' with rfl | earlier
    · exact .inl ⟨_, member⟩
    · exact .inl ⟨_, earlier⟩
  kept other queue member ne := by
    by_cases running : other = sched.curtask
    · subst running
      exact waits fun exits => ne exits rfl
    · exact ⟨queue, kept other queue member running⟩
  stays stays := absurd stays moves
  exits := exits

/-- The running task is put behind the others of its priority, and the next one runs. -/
theorem QueuesStep.switches (queued : Queued sched.links lists)
    (head : (lists (.tqueue (sched.pri sched.curtask))).head? = some sched.curtask)
    (core : Core held inService before middle free)
    (sameTask : before.curtask = sched.curtask) (samePri : before.pri = sched.pri)
    (longer : ∀ p, ∃ extra, middle (.tqueue p) = lists (.tqueue p) ++ extra)
    (members : ∀ task queue, task ∈ middle queue →
      (∃ queue, task ∈ lists queue) ∨ fresh = some task)
    (kept : ∀ task queue, task ∈ lists queue → ∃ queue, task ∈ middle queue)
    (ran : before.iswitch = .ok sched') :
    ∃ lists', Queued sched'.links lists' ∧
      QueuesStep sched.curtask pri .interrupted fresh sched' lists lists' := by
  obtain ⟨others, list⟩ := List.head?_eq_some_iff.mp head
  have atHead : (middle (.tqueue (before.pri before.curtask))).head? = some before.curtask := by
    obtain ⟨extra, grown⟩ := longer (sched.pri sched.curtask)
    rw [samePri, sameTask, grown, List.head?_append, head]
    rfl
  obtain ⟨rest, _, sched'', same, rfl, switched, core', -, next, -⟩ := iswitch_spec core atHead
  obtain rfl := Outcome.ok.inj (ran.symm.trans switched)
  refine ⟨_, core'.queued, fun p => ?_, .inr next, fun task queue member => ?_,
    fun task queue member ne => ?_, by simp, by simp⟩
  · obtain ⟨extra, grown⟩ := longer p
    rw [samePri, sameTask] at same ⊢
    by_cases isPri : p = sched.pri sched.curtask
    · subst isPri
      rw [grown, list, List.cons_append] at same
      refine ⟨extra ++ [sched.curtask], .inr ?_⟩
      rw [Function.update_self, list, List.erase_cons_head, ← (List.cons.inj same).2,
        List.append_assoc]
    · have elsewhere : QueueId.tqueue p ≠ .tqueue (sched.pri sched.curtask) := by simp [isPri]
      have absent : sched.curtask ∉ lists (.tqueue p) := fun member =>
        elsewhere (queued.queue_unique member (List.mem_of_head? head))
      refine ⟨extra, .inr ?_⟩
      rw [Function.update_of_ne elsewhere, grown, List.erase_of_not_mem absent]
  · by_cases here : queue = .tqueue (before.pri before.curtask)
    · subst here
      rw [Function.update_self, List.mem_append, List.mem_singleton] at member
      refine members task (.tqueue (before.pri before.curtask)) ?_
      rw [same]
      rcases member with member | rfl
      · exact List.mem_cons_of_mem _ member
      · exact List.mem_cons_self
    · rw [Function.update_of_ne here] at member
      exact members task queue member
  · obtain ⟨queue, member⟩ := kept task queue member
    by_cases here : queue = .tqueue (before.pri before.curtask)
    · subst here
      rw [same] at member
      refine ⟨.tqueue (before.pri before.curtask), ?_⟩
      rw [Function.update_self]
      exact (List.perm_append_singleton _ _).symm.subset member
    · exact ⟨queue, by rwa [Function.update_of_ne here]⟩

end Steps

namespace System

variable {sys sys' : System} {lists : QueueId → List Task} {free : List Task}

theorem run_eq_some {outcome : Outcome Scheduler} (ran : sys.run outcome = some sys') :
    ∃ sched', outcome = .ok sched' ∧ sys' = { sys with sched := sched' } := by
  cases outcome with
  | ok sched' => exact ⟨sched', rfl, (Option.some.inj ran).symm⟩
  | panic reason => simp [run, Outcome.value?] at ran
  | hang => simp [run, Outcome.value?] at ran

/-- The running task waits on a queue that is not a run queue. -/
theorem Inv.leave_queues (inv : sys.Inv lists free) (notIdle : sys.sched.curtask ≠ idleTask)
    {target : QueueId} {pri : Pri} {fresh : Option Task} (notRun : ∀ i, target ≠ .tqueue i)
    (taken : sys.run (((sys.sched.dequeue sys.sched.curtask).setState sys.sched.curtask
      .blocked).push target sys.sched.curtask).yieldToRunnable = some sys') :
    ∃ lists', Queued sys'.sched.links lists' ∧
      QueuesStep sys.sched.curtask pri .yields fresh sys'.sched lists lists' := by
  obtain ⟨sched', ran, rfl⟩ := run_eq_some taken
  have left := leave_spec inv.core inv.current.member notIdle target notRun
  obtain ⟨i, task, switched, core, -⟩ := yieldToRunnable_spec left
  obtain rfl := Outcome.ok.inj (ran.symm.trans switched)
  refine ⟨_, core.queued, .leaves core inv.current.member
    (fun p => Function.update_of_ne (notRun p).symm _ _) (fun other queue member => ?_)
    (fun other queue member ne => ?_) (fun _ => ⟨target, ?_⟩) (by simp) (by simp) ran⟩
  · by_cases here : queue = target
    · subst here
      rw [Function.update_self, List.mem_append, List.mem_singleton] at member
      exact member.symm.imp_right List.mem_of_mem_erase
    · rw [Function.update_of_ne here] at member
      exact .inr (List.mem_of_mem_erase member)
  · have later := (List.mem_erase_of_ne ne).mpr member
    by_cases here : queue = target
    · subst here
      rw [Function.update_self]
      exact List.mem_append_left _ later
    · rwa [Function.update_of_ne here]
  · rw [Function.update_self]
    simp

/-- A task that waits somewhere is made ready. -/
theorem Inv.ready_queues (inv : sys.Inv lists free) {task : Task} {way : Leaving}
    {fresh : Option Task} (quiet : way ≠ .interrupted ∧ way ≠ .exits)
    (away : ∀ i, task ∉ lists (.tqueue i)) (joined : fresh = some task ∨ ∃ queue, task ∈ lists queue)
    (notSpare : task ∉ free ++ sys.held)
    (notParked : ∀ i, sys.sched.intrTask i = some task → sys.inService i = true)
    (taken : { sys with sched := ((sys.sched.dequeue task).setState task .ready).enqueue task } =
      sys') :
    ∃ lists', Queued sys'.sched.links lists' ∧
      QueuesStep sys.sched.curtask (sys.sched.pri sys.sched.curtask) way fresh sys'.sched lists
        lists' := by
  subst taken
  have core := ready_spec inv.core away notSpare notParked
  exact ⟨_, core.queued, .joins quiet joined away rfl rfl⟩

theorem Inv.semaTake_queues (inv : sys.Inv lists free) (notIdle : sys.sched.curtask ≠ idleTask)
    {index : Nat} (taken : sys.run (sys.sched.semaTake index) = some sys') :
    ∃ lists', Queued sys'.sched.links lists' ∧
      QueuesStep sys.sched.curtask (sys.sched.pri sys.sched.curtask)
        (leaving sys.sched (.call (.semaDown index))) none sys'.sched lists lists' := by
  have counted := inv.setCount index ((sys.sched.semas index).count - 1)
  have count := setCount_count sys.sched index ((sys.sched.semas index).count - 1)
  simp only [Scheduler.semaTake, count] at taken
  by_cases negative : int16 ((sys.sched.semas index).count - 1) < 0
  · rw [if_pos negative] at taken
    rw [leaving, callLeaving, if_pos negative]
    exact counted.leave_queues notIdle (show ∀ i, QueueId.sema index ≠ .tqueue i by simp) taken
  · rw [if_neg negative] at taken
    rw [leaving, callLeaving, if_neg negative]
    obtain ⟨sched', ran, rfl⟩ := run_eq_some taken
    obtain rfl := Outcome.ok.inj ran
    exact ⟨lists, counted.core.queued, .same (by simp) rfl rfl⟩

theorem Inv.semaUp_queues (inv : sys.Inv lists free) {index : Nat}
    (taken : sys.run (sys.sched.semaUp index) = some sys') :
    ∃ lists', Queued sys'.sched.links lists' ∧
      QueuesStep sys.sched.curtask (sys.sched.pri sys.sched.curtask) .stays none sys'.sched lists
        lists' := by
  have counted := inv.setCount index ((sys.sched.semas index).count + 1)
  have count := setCount_count sys.sched index ((sys.sched.semas index).count + 1)
  obtain ⟨sched', ran, rfl⟩ := run_eq_some taken
  unfold Scheduler.semaUp at ran
  split at ran
  · exact absurd ran (by simp)
  · simp only [count] at ran
    by_cases negative : int16 ((sys.sched.semas index).count + 1) ≤ 0
    · rw [if_pos negative] at ran
      cases list : lists (.sema index) with
      | nil =>
          simp only [taskqPop_empty counted.core.queued list] at ran
          exact absurd ran (by simp)
      | cons next rest =>
          have popped := taskqPop_dequeue counted.core.queued list
          have member : next ∈ lists (.sema index) := list ▸ List.mem_cons_self
          obtain ⟨notSpare, notParked⟩ := inv.core.owned member
          simp only [popped] at ran
          obtain rfl := Outcome.ok.inj ran
          exact counted.ready_queues (by simp)
            (fun i inQueue => by simpa using inv.core.queued.queue_unique inQueue member)
            (.inr ⟨_, member⟩) notSpare notParked rfl
    · rw [if_neg negative] at ran
      obtain rfl := Outcome.ok.inj ran
      exact ⟨lists, counted.core.queued, .same (by simp) rfl rfl⟩

theorem taskSleep_yields {sched sched' : Scheduler} {ticks : Nat}
    (ran : sched.taskSleep ticks = .ok sched') :
    ∃ before : Scheduler, before.yieldToRunnable = .ok sched' := by
  unfold Scheduler.taskSleep at ran
  dsimp only at ran
  split at ran
  · exact ⟨_, ran⟩
  · split at ran
    · exact absurd ran (by simp)
    · exact ⟨_, ran⟩

theorem taskExit_yields {sched sched' : Scheduler} (ran : sched.taskExit = .ok sched') :
    ∃ before : Scheduler, before.yieldToRunnable = .ok sched' := by
  unfold Scheduler.taskExit at ran
  dsimp only at ran
  split at ran
  · exact ⟨_, ran⟩
  · exact ⟨_, ran⟩

/-- The running task goes away. -/
theorem Inv.exit_queues (inv : sys.Inv lists free) (notIdle : sys.sched.curtask ≠ idleTask)
    {sched' : Scheduler} {pri : Pri} {fresh : Option Task}
    (frees : sys.sched.state sys.sched.curtask = .freeing →
      ∀ i, sys.sched.intrTask i ≠ some sys.sched.curtask)
    (ran : sys.sched.taskExit = .ok sched') :
    ∃ lists', Queued sched'.links lists' ∧
      QueuesStep sys.sched.curtask pri .exits fresh sched' lists lists' := by
  obtain ⟨sched'', exited, core, -⟩ := taskExit_spec inv.core inv.current.member notIdle frees
  obtain rfl := Outcome.ok.inj (ran.symm.trans exited)
  obtain ⟨before, yielded⟩ := taskExit_yields ran
  refine ⟨_, core.queued, .leaves core inv.current.member (fun _ => rfl)
    (fun _ _ member => .inr (List.mem_of_mem_erase member))
    (fun _ _ member ne => (List.mem_erase_of_ne ne).mpr member) (by simp) (by simp)
    (fun _ queue => ?_) yielded⟩
  exact (inv.core.queued.nodup queue).not_mem_erase

/-- What a call of the running task does to the queues. -/
theorem Inv.call_queues (inv : sys.Inv lists free) (notIdle : sys.sched.curtask ≠ idleTask)
    {call : Call} (taken : sys.call call = some sys') :
    ∃ lists', Queued sys'.sched.links lists' ∧
      QueuesStep sys.sched.curtask (sys.sched.pri sys.sched.curtask) (leaving sys.sched (.call call))
        (appears sys.sched (.call call)) sys'.sched lists lists' := by
  have core := inv.core
  have running : ∀ {task}, task ∈ sys.held → sys.sched.curtask ≠ task := by
    rintro task member rfl
    exact (core.owned inv.current.member).1 (List.mem_append_right _ member)
  have absent : ∀ {task}, task ∈ sys.held → ∀ queue, task ∉ lists queue := fun member queue inQueue =>
    (core.owned inQueue).1 (List.mem_append_right _ member)
  cases call with
  | taskAlloc =>
      rcases taskAlloc_spec core with ⟨rfl, empty⟩ | ⟨task, rest, rfl, result, core'⟩
      · simp only [call, empty, Option.some.injEq] at taken
        subst taken
        exact ⟨lists, core.queued, .same (by simp [leaving, callLeaving]) rfl rfl⟩
      · simp only [call, result, Option.some.injEq] at taken
        subst taken
        exact ⟨lists, core'.queued, .same (by simp [leaving, callLeaving]) rfl rfl⟩
  | taskFree task =>
      simp only [call, Option.ite_none_right_eq_some, Option.some.injEq] at taken
      obtain ⟨member, rfl⟩ := taken
      obtain ⟨core', loose, ne, notIntr⟩ := core.unhold member
      exact ⟨lists, (core'.taskFree loose notIntr ne).queued,
        .same (by simp [leaving, callLeaving]) rfl rfl⟩
  | taskStart task pri =>
      simp only [call, Option.ite_none_right_eq_some, Option.some.injEq] at taken
      obtain ⟨member, rfl⟩ := taken
      obtain ⟨core', loose, ne, notIntr⟩ := core.unhold member
      exact ⟨_, (taskSchAsync_spec (core'.setPri loose.unowned _)
        ⟨loose.unowned, loose.notSpare, loose.notParked⟩).queued,
        .arrives (by simp [leaving, callLeaving]) rfl (absent member) rfl
          (Function.update_of_ne (running member) _ _)⟩
  | addHandler intr task =>
      simp only [call, Option.ite_none_right_eq_some, Option.some.injEq] at taken
      obtain ⟨⟨member, -⟩, rfl⟩ := taken
      obtain ⟨core', loose, ne, notIntr⟩ := core.unhold member
      obtain ⟨reserved, -⟩ := taskReserve_spec core' loose ne (intr.castLE (by decide))
      exact ⟨lists, reserved.queued, .same (by simp [leaving, callLeaving]) rfl
        (Function.update_of_ne (running member) _ _)⟩
  | schAsync task pri =>
      simp only [call, Option.ite_none_right_eq_some, Option.some.injEq] at taken
      obtain ⟨member, rfl⟩ := taken
      obtain ⟨core', loose, ne, notIntr⟩ := core.unhold member
      obtain ⟨reserved, loose'⟩ := taskReserve_spec core' loose ne pri
      exact ⟨_, (taskSchAsync_spec reserved loose').queued,
        .arrives (by simp [leaving, callLeaving]) rfl (absent member) rfl
          (Function.update_of_ne (running member) _ _)⟩
  | semaDown index =>
      have passed : sys.run (sys.sched.semaTake index) = some sys' := by
        simp only [call, Scheduler.semaDown] at taken
        split at taken
        · simp [run, Outcome.value?] at taken
        · split at taken
          · exact taken
          · split at taken
            · simp [run, Outcome.value?] at taken
            · simp [run, Outcome.value?] at taken
            · exact taken
      exact inv.semaTake_queues notIdle passed
  | semaUp index => exact inv.semaUp_queues taken
  | taskBlock index => exact inv.leave_queues notIdle (by simp) taken
  | taskUnblock task =>
      cases task with
      | none =>
          simp only [call, Option.some.injEq] at taken
          subst taken
          exact ⟨lists, core.queued, .same (by simp [leaving, callLeaving]) rfl rfl⟩
      | some task =>
          simp only [call, Option.ite_none_left_eq_some, Option.some.injEq] at taken
          obtain ⟨notParked, result⟩ := taken
          by_cases blocked : sys.sched.state task = .blocked
          · simp only [Scheduler.taskUnblock, blocked, if_true] at result
            have served : ∀ i, sys.sched.intrTask i = some task → sys.inService i = true := by
              intro i isIntr
              cases service : sys.inService i with
              | true => rfl
              | false => exact absurd ⟨i, isIntr, service⟩ notParked
            refine inv.ready_queues (by simp [leaving, callLeaving])
              (fun i member => core.runnable i task member blocked) ?_
              (fun isSpare => (core.spare task isSpare).2 blocked) served result
            cases owner : sys.sched.links.owner task with
            | none => exact .inl (if_pos owner)
            | some queue => exact .inr ⟨queue, (core.queued.owner task queue).mp owner⟩
          · simp only [Scheduler.taskUnblock, blocked, if_false] at result
            subst result
            exact ⟨lists, core.queued, .same (by simp [leaving, callLeaving]) rfl rfl⟩
  | taskSleep ticks =>
      obtain ⟨sched', ran, rfl⟩ := run_eq_some taken
      obtain ⟨lists', sched'', slept, core', -, -, -, sleeping, others⟩ :=
        taskSleep_spec core inv.current.member notIdle ticks.toNat
      obtain rfl := Outcome.ok.inj (ran.symm.trans slept)
      obtain ⟨before, yielded⟩ := taskSleep_yields ran
      refine ⟨lists', core'.queued, .leaves core' inv.current.member (fun p => others _ (by simp))
        (fun other queue member => ?_) (fun other queue member ne => ?_)
        (fun _ => ⟨.sleeping, ?_⟩) (by simp [leaving, callLeaving])
        (by simp [leaving, callLeaving]) yielded⟩
      · by_cases isSleeping : queue = .sleeping
        · subst isSleeping
          rw [sleeping] at member
          exact mem_sleepList.mp member
        · rw [others queue isSleeping] at member
          exact .inr (List.mem_of_mem_erase member)
      · by_cases isSleeping : queue = .sleeping
        · subst isSleeping
          rw [sleeping]
          exact mem_sleepList.mpr (.inr member)
        · rw [others queue isSleeping]
          exact (List.mem_erase_of_ne ne).mpr member
      · rw [sleeping]
        exact mem_sleepList.mpr (.inl rfl)
  | markFreeing =>
      simp only [call, Option.ite_none_left_eq_some, Option.some.injEq] at taken
      obtain ⟨notIntr, rfl⟩ := taken
      exact ⟨lists, core.queued, .same (by simp [leaving, callLeaving]) rfl rfl⟩
  | taskExit =>
      simp only [call, Option.ite_none_left_eq_some] at taken
      obtain ⟨notIntr, taken⟩ := taken
      obtain ⟨sched', ran, rfl⟩ := run_eq_some taken
      exact inv.exit_queues notIdle (fun _ i isIntr => notIntr ⟨i, isIntr⟩) ran

/-- What a tick or another interrupt does to the queues. -/
theorem Inv.switch_queues (inv : sys.Inv lists free) {action : Action} {before sched' : Scheduler}
    (reaches : sys.atIswitch action = some before) (ran : before.iswitch = .ok sched') :
    ∃ lists', Queued sched'.links lists' ∧
      QueuesStep sys.sched.curtask (sys.sched.pri sys.sched.curtask) (leaving sys.sched action)
        (appears sys.sched action) sched' lists lists' := by
  have queued := inv.core.queued
  cases action with
  | tick =>
      obtain ⟨woken, rest, links, state, ticked, split, core, -⟩ := inv.tick_spec
      simp only [atIswitch, ticked, Outcome.value?_ok, Option.some.injEq] at reaches
      subst reaches
      refine QueuesStep.switches queued inv.current.head core rfl rfl (fun p => ?_)
        (fun task queue member => .inl ?_) (fun task queue member => ?_) ran
      · exact ⟨_, if_neg (by simp)⟩
      · unfold wakeLists at member
        by_cases isSleeping : queue = .sleeping
        · rw [if_pos isSleeping] at member
          exact ⟨.sleeping, split ▸ List.mem_append_right _ member⟩
        · rw [if_neg isSleeping, List.mem_append] at member
          rcases member with member | member
          · exact ⟨queue, member⟩
          · exact ⟨.sleeping, split ▸ List.mem_append_left _ (List.mem_filter.mp member).1⟩
      · by_cases isSleeping : queue = .sleeping
        · rw [isSleeping, split, List.mem_append] at member
          rcases member with member | member
          · refine ⟨.tqueue (sys.sched.pri task), ?_⟩
            rw [wakeLists, if_neg (by simp)]
            exact List.mem_append_right _ (List.mem_filter.mpr ⟨member, by simp⟩)
          · exact ⟨.sleeping, by rwa [wakeLists, if_pos rfl]⟩
        · refine ⟨queue, ?_⟩
          rw [wakeLists, if_neg isSleeping]
          exact List.mem_append_left _ member
  | intr intr =>
      simp only [atIswitch, Option.ite_none_left_eq_some, Option.map_eq_some_iff] at reaches
      obtain ⟨idle, task, isIntr, rfl⟩ := reaches
      have parked : sys.inService intr = false := by simpa using idle
      have loose : Loose sys.held (update sys.inService intr true) sys.sched free task := by
        refine ⟨inv.core.parked intr task isIntr parked, (inv.core.intrSpare intr task isIntr).1,
          fun other isOther => ?_⟩
        rw [inv.core.intrUnique other intr task isOther isIntr, Function.update_self]
      have core := taskSchAsync_spec (inv.core.serve intr) loose
      refine QueuesStep.switches queued inv.current.head core rfl rfl
        (fun p => exists_extra _ _ _ _) (fun other queue member => ?_)
        (fun other queue member => ⟨queue, ?_⟩) ran
      · by_cases here : queue = .tqueue (sys.sched.pri task)
        · subst here
          rw [Function.update_self, List.mem_append, List.mem_singleton] at member
          rcases member with member | rfl
          · exact .inl ⟨_, member⟩
          · exact .inr isIntr
        · rw [Function.update_of_ne here] at member
          exact .inl ⟨queue, member⟩
      · obtain ⟨extra, grown⟩ := exists_extra lists queue (.tqueue (sys.sched.pri task)) task
        rw [grown]
        exact List.mem_append_left _ member
  | intrEnd => simp [atIswitch] at reaches
  | call => simp [atIswitch] at reaches
  | idlePick => simp [atIswitch] at reaches
  | idleYield => simp [atIswitch] at reaches

/-- What a step does to the queues. -/
theorem Inv.queues_step (inv : sys.Inv lists free) {action : Action}
    (taken : sys.step action = some sys') :
    ∃ lists' free', sys'.Inv lists' free' ∧
      QueuesStep sys.sched.curtask (sys.sched.pri sys.sched.curtask) (leaving sys.sched action)
        (appears sys.sched action) sys'.sched lists lists' := by
  obtain ⟨lists', free', inv', -⟩ := inv.step taken
  suffices found : ∃ lists'', Queued sys'.sched.links lists'' ∧
      QueuesStep sys.sched.curtask (sys.sched.pri sys.sched.curtask) (leaving sys.sched action)
        (appears sys.sched action) sys'.sched lists lists'' by
    obtain ⟨lists'', queued, queues⟩ := found
    obtain rfl := queued.unique inv'.core.queued
    exact ⟨lists'', free', inv', queues⟩
  cases action with
  | tick =>
      obtain ⟨before, reaches, taken⟩ := Option.bind_eq_some_iff.mp taken
      obtain ⟨sched', ran, rfl⟩ := run_eq_some taken
      exact inv.switch_queues reaches ran
  | intr intr =>
      obtain ⟨before, reaches, taken⟩ := Option.bind_eq_some_iff.mp taken
      obtain ⟨sched', ran, rfl⟩ := run_eq_some taken
      exact inv.switch_queues reaches ran
  | intrEnd intr =>
      simp only [System.step, Option.ite_none_right_eq_some] at taken
      obtain ⟨⟨isIntr, -⟩, taken⟩ := taken
      obtain ⟨sched', ran, rfl⟩ := run_eq_some taken
      have alive := inv.core.intrAlive intr _ isIntr
      exact inv.exit_queues (inv.core.intrSpare intr _ isIntr).2
        (fun freeing => absurd freeing alive) ran
  | call c =>
      simp only [System.step, Option.ite_none_left_eq_some] at taken
      obtain ⟨notIdle, taken⟩ := taken
      exact inv.call_queues notIdle taken
  | idlePick =>
      simp only [System.step, Option.ite_none_right_eq_some, Option.some.injEq] at taken
      obtain ⟨isIdle, rfl⟩ := taken
      exact ⟨lists, inv.core.queued, .same (by simp [leaving]) rfl rfl⟩
  | idleYield =>
      simp only [System.step, Option.ite_none_right_eq_some, Option.map_eq_some_iff] at taken
      obtain ⟨isIdle, next, picked, rfl⟩ := taken
      obtain rfl := inv.pick next picked
      exact ⟨lists, inv.core.queued, .same (by simp [leaving]) isIdle.symm rfl⟩

end System

end Pegasos.Kernel.Sched
