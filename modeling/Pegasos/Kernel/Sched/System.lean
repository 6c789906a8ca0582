import Pegasos.Kernel.Sched.RunQueues
import Pegasos.Support.Transition

/-!
# The scheduler as a system

The running task calls the routines of the scheduler with interrupts enabled, and
timer ticks and interrupts arrive in between.  Every step of `System` is one
stretch of code that runs without being interrupted.
-/

namespace Pegasos.Kernel.Sched

open Pegasos.Support
open Function (update)

/-- The scheduler with the tasks that callers have allocated and not yet started,
the interrupts in service, and the task that the idle task is about to yield to. -/
structure System where
  sched : Scheduler
  held : List Task
  inService : Fin 16 → Bool
  pick : Option Task

/-- What the running task may call.  Allocating a task and starting it are two
stretches with interrupts enabled in between; `markFreeing` is what `_exit` does
to the task before the system call returns through `task_exit`. -/
inductive Call where
  | taskAlloc
  | taskFree (task : Task)
  | taskStart (task : Task) (pri : UInt8)
  | addHandler (intr : Fin 16) (task : Task)
  | schAsync (task : Task) (pri : Pri)
  | semaDown (index : Nat)
  | semaUp (index : Nat)
  | taskBlock (index : Nat)
  | taskUnblock (task : Option Task)
  | taskSleep (ticks : UInt32)
  | markFreeing
  | taskExit
  deriving DecidableEq, Repr

/-- A timer tick, an interrupt, the end of its handler, a call of the running
task, or one of the two halves of the idle task's loop, which runs with
interrupts enabled. -/
inductive Action where
  | tick
  | intr (intr : Fin 16)
  | intrEnd (intr : Fin 16)
  | call (call : Call)
  | idlePick
  | idleYield
  deriving DecidableEq, Repr

namespace System

variable (sys : System)

/-- The task runs the handlers of an interrupt. -/
def IsIntr (task : Task) : Prop := ∃ i, sys.sched.intrTask i = some task

/-- The task is kept for an interrupt that is not in service. -/
def IsParked (task : Task) : Prop :=
  ∃ i, sys.sched.intrTask i = some task ∧ sys.inService i = false

instance (task : Task) : Decidable (sys.IsIntr task) :=
  inferInstanceAs (Decidable (∃ i, sys.sched.intrTask i = some task))

instance (task : Task) : Decidable (sys.IsParked task) :=
  inferInstanceAs (Decidable (∃ i, sys.sched.intrTask i = some task ∧ sys.inService i = false))

/-- The system after a routine of the scheduler has returned. -/
def run (outcome : Outcome Scheduler) : Option System :=
  outcome.value?.map fun sched => { sys with sched := sched }

/-- A call of the running task.  A task that exits is not one that an interrupt
needs again, and a task to unblock comes from some blocked queue, so it is not
one that waits for its interrupt. -/
def call : Call → Option System
  | .taskAlloc =>
      match sys.sched.taskAlloc with
      | (none, sched) => some { sys with sched := sched }
      | (some task, sched) => some { sys with sched := sched, held := task :: sys.held }
  | .taskFree task =>
      if task ∈ sys.held then
        some { sys with sched := sys.sched.taskFree task, held := sys.held.erase task }
      else none
  | .taskStart task pri =>
      if task ∈ sys.held then
        some { sys with sched := sys.sched.taskStart task pri, held := sys.held.erase task }
      else none
  | .addHandler intr task =>
      if task ∈ sys.held ∧ sys.sched.intrTask intr = none then
        let sched := sys.sched.taskReserve task (intr.castLE (by decide))
        some { sys with
          sched := { sched with intrTask := update sched.intrTask intr (some task) }
          held := sys.held.erase task
          inService := update sys.inService intr false }
      else none
  | .schAsync task pri =>
      if task ∈ sys.held then
        some { sys with
          sched := (sys.sched.taskReserve task pri).taskSchAsync task
          held := sys.held.erase task }
      else none
  | .semaDown index => sys.run (sys.sched.semaDown index)
  | .semaUp index => sys.run (sys.sched.semaUp index)
  | .taskBlock index => sys.run (sys.sched.taskBlock (.object index))
  | .taskUnblock none => some { sys with sched := sys.sched.taskUnblock none }
  | .taskUnblock (some task) =>
      if sys.IsParked task then none
      else some { sys with sched := sys.sched.taskUnblock (some task) }
  | .taskSleep ticks => sys.run (sys.sched.taskSleep ticks.toNat)
  | .markFreeing =>
      if sys.IsIntr sys.sched.curtask then none
      else some { sys with sched := sys.sched.setState sys.sched.curtask .freeing }
  | .taskExit =>
      if sys.IsIntr sys.sched.curtask then none else sys.run sys.sched.taskExit

/-- The scheduler at the label `iswitch`, for the actions that lead there. -/
def atIswitch : Action → Option Scheduler
  | .tick => sys.sched.timerTick.value?
  | .intr intr =>
      if sys.inService intr then none
      else (sys.sched.intrTask intr).map fun task => sys.sched.taskSchAsync task
  | _ => none

/-- One stretch of code that runs without being interrupted. -/
def step : Action → Option System
  | .tick => (sys.atIswitch .tick).bind fun sched => sys.run sched.iswitch
  | .intr intr => (sys.atIswitch (.intr intr)).bind fun sched =>
      { sys with inService := update sys.inService intr true }.run sched.iswitch
  | .intrEnd intr =>
      if sys.sched.intrTask intr = some sys.sched.curtask ∧ sys.inService intr then
        -- the handler has disabled interrupts before it signals its end
        { sys with inService := update sys.inService intr false }.run sys.sched.taskExit
      else none
  | .call call => if sys.sched.curtask = idleTask then none else sys.call call
  | .idlePick =>
      if sys.sched.curtask = idleTask then some { sys with pick := sys.sched.taskRunnable }
      else none
  | .idleYield =>
      if sys.sched.curtask = idleTask then
        sys.pick.map fun next => { sys with sched := sys.sched.swtosi next, pick := none }
      else none

/-- The system after `task_init`, for semaphores with any counts. -/
def start (counts : Nat → Int) : System where
  sched := taskInit fun index => ⟨SEMA_SIG, counts index⟩
  held := []
  inService := fun _ => false
  pick := none

/-! ## The invariant -/

/-- The invariant of the scheduler between two stretches. -/
structure Inv (sys : System) (lists : QueueId → List Task) (free : List Task) : Prop where
  core : Core sys.held sys.inService sys.sched lists free
  current : Current sys.sched lists
  pick : ∀ next, sys.pick = some next → next = idleTask

/-- A step that puts no task to sleep and leaves the tick count alone. -/
structure Undisturbed (sched sched' : Scheduler) (lists lists' : QueueId → List Task) :
    Prop where
  sleeping : (lists' .sleeping).Sublist (lists .sleeping)
  tickcnt : sched'.tickcnt = sched.tickcnt
  due : ∀ task ∈ lists .sleeping, sched'.due task = sched.due task

theorem Undisturbed.refl (sched : Scheduler) (lists : QueueId → List Task) :
    Undisturbed sched sched lists lists :=
  ⟨List.Sublist.refl _, rfl, fun _ _ => rfl⟩

/-- What a tick does to the sleepers: those at the front that are due are woken. -/
structure Ticked (sched sched' : Scheduler) (lists lists' : QueueId → List Task) : Prop where
  tickcnt : sched'.tickcnt = (sched.tickcnt + 1) % 0x100000000
  due : sched'.due = sched.due
  woken : ∃ woken, lists .sleeping = woken ++ lists' .sleeping
  later : ∀ task, (lists' .sleeping).head? = some task → sched'.due task ≠ sched'.tickcnt

/-- What `task_sleep` does to the sleepers. -/
structure Slept (ticks : UInt32) (sched sched' : Scheduler) (lists lists' : QueueId → List Task) :
    Prop where
  tickcnt : sched'.tickcnt = sched.tickcnt
  due : sched'.due = update sched.due sched.curtask (dueAfter sched ticks.toNat)
  sleeping : lists' .sleeping = sleepList sched'.due sched.curtask (lists .sleeping)

/-- What a step does to the sleepers. -/
def SleepersStep (sched sched' : Scheduler) (lists lists' : QueueId → List Task) : Action → Prop
  | .tick => Ticked sched sched' lists lists'
  | .call (.taskSleep ticks) => Slept ticks sched sched' lists lists'
  | _ => Undisturbed sched sched' lists lists'

/-- The queues on which tasks wait for something else than a tick. -/
def Waits : QueueId → Prop
  | .object _ => True
  | .sema _ => True
  | _ => False

theorem Waits.notRun {queue : QueueId} (waits : Waits queue) (i : Pri) : queue ≠ .tqueue i := by
  rintro rfl
  exact waits

theorem Waits.notSleeping {queue : QueueId} (waits : Waits queue) : queue ≠ .sleeping := by
  rintro rfl
  exact waits

/-- The list of such a queue after a step. -/
def waitersAfter (sched : Scheduler) (queue : QueueId) (list : List Task) : Action → List Task
  | .call (.semaDown index) =>
      if queue = .sema index ∧ int16 ((sched.semas index).count - 1) < 0 then
        list ++ [sched.curtask]
      else list
  | .call (.semaUp index) =>
      if queue = .sema index ∧ int16 ((sched.semas index).count + 1) ≤ 0 then list.tail else list
  | .call (.taskBlock index) =>
      if queue = .object index then list ++ [sched.curtask] else list
  | .call (.taskUnblock (some task)) =>
      if sched.state task = .blocked then list.erase task else list
  | _ => list

/-- What a step does to the queues on which tasks wait. -/
def WaitersStep (sched : Scheduler) (lists lists' : QueueId → List Task) (action : Action) :
    Prop :=
  ∀ queue, Waits queue → lists' queue = waitersAfter sched queue (lists queue) action

/-- The free list after a step. -/
def freeAfter (sched : Scheduler) (free : List Task) : Action → List Task
  | .call .taskAlloc => free.tail
  | .call (.taskFree task) => task :: free
  | .call .taskExit =>
      if sched.state sched.curtask = .freeing then sched.curtask :: free else free
  | _ => free

variable {sys} {sys' : System} {lists : QueueId → List Task} {free : List Task} {task : Task}

/-- The running task does not wait. -/
theorem Inv.not_waiting (inv : sys.Inv lists free) {queue : QueueId} (waits : Waits queue) :
    sys.sched.curtask ∉ lists queue := by
  intro inQueue
  exact waits.notRun _ (inv.core.queued.queue_unique inQueue inv.current.member)

/-- A running task goes to a blocked queue and the next one runs. -/
theorem Inv.leave_step (inv : sys.Inv lists free) (notIdle : sys.sched.curtask ≠ idleTask)
    {target : QueueId} (notRun : ∀ i, target ≠ .tqueue i) (notSleeping : target ≠ .sleeping)
    (taken : sys.run (((sys.sched.dequeue sys.sched.curtask).setState sys.sched.curtask
      .blocked).push target sys.sched.curtask).yieldToRunnable = some sys') :
    ∃ lists', sys'.Inv lists' free ∧ Undisturbed sys.sched sys'.sched lists lists' ∧
      ∀ queue, Waits queue → lists' queue =
        if queue = target then lists queue ++ [sys.sched.curtask] else lists queue := by
  have member := inv.current.member
  have left := leave_spec inv.core member notIdle target notRun
  obtain ⟨i, task, ran, core, current, -⟩ := yieldToRunnable_spec left
  rw [run, ran, Outcome.value?_ok, Option.map_some, Option.some.injEq] at taken
  subst taken
  refine ⟨_, ⟨core, current, inv.pick⟩, ⟨?_, rfl, fun _ _ => rfl⟩, fun queue waits => ?_⟩
  · rw [Function.update_of_ne notSleeping.symm]
    exact List.erase_sublist
  · have kept : (lists queue).erase sys.sched.curtask = lists queue :=
      List.erase_of_not_mem (inv.not_waiting waits)
    by_cases here : queue = target
    · subst here
      rw [Function.update_self, kept, if_pos rfl]
    · rw [Function.update_of_ne here, kept, if_neg here]

/-- A task that waits somewhere is made ready. -/
theorem Inv.ready_step (inv : sys.Inv lists free) (notIdle : sys.sched.curtask ≠ idleTask)
    (away : ∀ i, task ∉ lists (.tqueue i)) (notSpare : task ∉ free ++ sys.held)
    (notParked : ∀ i, sys.sched.intrTask i = some task → sys.inService i = true)
    (taken : { sys with sched := ((sys.sched.dequeue task).setState task .ready).enqueue task } =
      sys') :
    ∃ lists', sys'.Inv lists' free ∧ Undisturbed sys.sched sys'.sched lists lists' ∧
      ∀ queue, Waits queue → lists' queue = (lists queue).erase task := by
  subst taken
  have core := ready_spec inv.core away notSpare notParked
  have kept : ∀ i, (lists (.tqueue i)).erase task = lists (.tqueue i) := fun i =>
    List.erase_of_not_mem (away i)
  refine ⟨_, ⟨core, ?_, inv.pick⟩, ⟨?_, rfl, fun _ _ => rfl⟩, fun queue waits => ?_⟩
  · refine inv.current.stay notIdle rfl rfl ?_
    have extra := exists_extra (fun queue => (lists queue).erase task)
      (.tqueue (sys.sched.pri sys.sched.curtask)) (.tqueue (sys.sched.pri task)) task
    simpa only [kept] using extra
  · rw [Function.update_of_ne (by simp)]
    exact List.erase_sublist
  · rw [Function.update_of_ne (waits.notRun _)]

/-- A task that is put on its run queue for the first time, or again. -/
theorem Inv.start_step (inv : sys.Inv lists free) (notIdle : sys.sched.curtask ≠ idleTask)
    {sched : Scheduler} {held : List Task} (core : Core held sys.inService sched lists free)
    (loose : Loose held sys.inService sched free task)
    (sameTask : sched.curtask = sys.sched.curtask)
    (samePri : sched.pri sys.sched.curtask = sys.sched.pri sys.sched.curtask)
    (sameTicks : sched.tickcnt = sys.sched.tickcnt)
    (sameDue : ∀ task ∈ lists .sleeping, sched.due task = sys.sched.due task) :
    ∃ lists', { sys with sched := sched.taskSchAsync task, held := held }.Inv lists' free ∧
      Undisturbed sys.sched (sched.taskSchAsync task) lists lists' ∧
      ∀ queue, Waits queue → lists' queue = lists queue := by
  refine ⟨_, ⟨taskSchAsync_spec core loose, ?_, inv.pick⟩, ⟨?_, sameTicks, sameDue⟩,
    fun queue waits => ?_⟩
  · exact inv.current.stay notIdle sameTask samePri (exists_extra _ _ _ _)
  · rw [Function.update_of_ne (by simp)]
  · rw [Function.update_of_ne (waits.notRun _)]

theorem setCount_count (sched : Scheduler) (index : Nat) (count : Int) :
    ((sched.setCount index count).semas index).count = int16 count := by
  simp [Scheduler.setCount]

/-- The count of a semaphore plays no part in the invariant. -/
theorem Inv.setCount (inv : sys.Inv lists free) (index : Nat) (count : Int) :
    { sys with sched := sys.sched.setCount index count }.Inv lists free :=
  ⟨{ inv.core with }, ⟨inv.current.head, inv.current.idleAlone⟩, inv.pick⟩

/-- `sema_down`, once its checks have passed. -/
theorem Inv.semaTake_step (inv : sys.Inv lists free) (notIdle : sys.sched.curtask ≠ idleTask)
    {index : Nat} (taken : sys.run (sys.sched.semaTake index) = some sys') :
    ∃ lists', sys'.Inv lists' free ∧ Undisturbed sys.sched sys'.sched lists lists' ∧
      WaitersStep sys.sched lists lists' (.call (.semaDown index)) := by
  have counted := inv.setCount index ((sys.sched.semas index).count - 1)
  have count := setCount_count sys.sched index ((sys.sched.semas index).count - 1)
  simp only [Scheduler.semaTake, count] at taken
  by_cases negative : int16 ((sys.sched.semas index).count - 1) < 0
  · rw [if_pos negative] at taken
    obtain ⟨lists', inv', frame, waiters⟩ := counted.leave_step notIdle
      (show ∀ i, QueueId.sema index ≠ .tqueue i by simp) (by simp) taken
    refine ⟨lists', inv', ⟨frame.sleeping, frame.tickcnt, frame.due⟩, fun queue waits => ?_⟩
    simp only [waitersAfter, negative, and_true]
    exact waiters queue waits
  · rw [if_neg negative] at taken
    simp only [run, Outcome.value?_ok, Option.map_some, Option.some.injEq] at taken
    subst taken
    refine ⟨lists, counted, ⟨.refl _, rfl, fun _ _ => rfl⟩, fun queue waits => ?_⟩
    simp [waitersAfter, negative]

theorem Inv.semaUp_step (inv : sys.Inv lists free) (notIdle : sys.sched.curtask ≠ idleTask)
    {index : Nat} (taken : sys.run (sys.sched.semaUp index) = some sys') :
    ∃ lists', sys'.Inv lists' free ∧ Undisturbed sys.sched sys'.sched lists lists' ∧
      WaitersStep sys.sched lists lists' (.call (.semaUp index)) := by
  have counted := inv.setCount index ((sys.sched.semas index).count + 1)
  have count := setCount_count sys.sched index ((sys.sched.semas index).count + 1)
  unfold Scheduler.semaUp at taken
  split at taken
  · simp [run, Outcome.value?] at taken
  · simp only [count] at taken
    by_cases negative : int16 ((sys.sched.semas index).count + 1) ≤ 0
    · rw [if_pos negative] at taken
      cases list : lists (.sema index) with
      | nil =>
          have popped := taskqPop_empty counted.core.queued list
          simp only [popped] at taken
          simp [run, Outcome.value?] at taken
      | cons next rest =>
          have popped := taskqPop_dequeue counted.core.queued list
          have member : next ∈ lists (.sema index) := list ▸ List.mem_cons_self
          obtain ⟨notSpare, notParked⟩ := inv.core.owned member
          simp only [popped, run, Outcome.value?_ok, Option.map_some, Option.some.injEq] at taken
          have elsewhere : ∀ queue, queue ≠ .sema index → next ∉ lists queue :=
            fun queue ne inQueue => ne (inv.core.queued.queue_unique inQueue member)
          obtain ⟨lists', inv', frame, waiters⟩ := counted.ready_step notIdle
            (fun i => elsewhere (.tqueue i) (by simp)) notSpare notParked taken
          refine ⟨lists', inv', ⟨frame.sleeping, frame.tickcnt, frame.due⟩, fun queue waits => ?_⟩
          rw [waiters queue waits, waitersAfter]
          by_cases here : queue = .sema index
          · subst here
            rw [if_pos ⟨rfl, negative⟩, list, List.erase_cons_head, List.tail_cons]
          · rw [if_neg fun both => here both.1, List.erase_of_not_mem (elsewhere queue here)]
    · rw [if_neg negative] at taken
      simp only [run, Outcome.value?_ok, Option.map_some, Option.some.injEq] at taken
      subst taken
      refine ⟨lists, counted, ⟨.refl _, rfl, fun _ _ => rfl⟩, fun queue waits => ?_⟩
      simp [waitersAfter, negative]

/-- Every call keeps the invariant. -/
theorem Inv.call_step (inv : sys.Inv lists free) (notIdle : sys.sched.curtask ≠ idleTask)
    {call : Call} (taken : sys.call call = some sys') :
    ∃ lists', sys'.Inv lists' (freeAfter sys.sched free (.call call)) ∧
      SleepersStep sys.sched sys'.sched lists lists' (.call call) ∧
      WaitersStep sys.sched lists lists' (.call call) := by
  have core := inv.core
  have same : Undisturbed sys.sched sys.sched lists lists := .refl _ _
  have awake : ∀ {task}, task ∈ sys.held → ∀ other ∈ lists .sleeping, other ≠ task := by
    rintro task member other inSleeping rfl
    exact (core.owned inSleeping).1 (List.mem_append_right _ member)
  have running : ∀ {task}, task ∈ sys.held → sys.sched.curtask ≠ task := by
    rintro task member rfl
    exact (core.owned inv.current.member).1 (List.mem_append_right _ member)
  cases call with
  | taskAlloc =>
      rcases taskAlloc_spec core with ⟨rfl, empty⟩ | ⟨task, rest, rfl, result, core'⟩
      · simp only [call, empty, Option.some.injEq] at taken
        subst taken
        exact ⟨lists, inv, same, fun _ _ => rfl⟩
      · simp only [call, result, Option.some.injEq] at taken
        subst taken
        exact ⟨lists, ⟨core', inv.current.stay notIdle rfl rfl ⟨[], by simp⟩, inv.pick⟩,
          ⟨.refl _, rfl, fun _ _ => rfl⟩, fun _ _ => rfl⟩
  | taskFree task =>
      simp only [call, Option.ite_none_right_eq_some, Option.some.injEq] at taken
      obtain ⟨member, rfl⟩ := taken
      obtain ⟨core', loose, ne, notIntr⟩ := core.unhold member
      exact ⟨lists, ⟨core'.taskFree loose notIntr ne,
        inv.current.stay notIdle rfl rfl ⟨[], by simp⟩, inv.pick⟩,
        ⟨.refl _, rfl, fun _ _ => rfl⟩, fun _ _ => rfl⟩
  | taskStart task pri =>
      simp only [call, Option.ite_none_right_eq_some, Option.some.injEq] at taken
      obtain ⟨member, rfl⟩ := taken
      obtain ⟨core', loose, ne, notIntr⟩ := core.unhold member
      obtain ⟨lists', inv', frame, waiters⟩ := inv.start_step notIdle (core'.setPri loose.unowned _)
        ⟨loose.unowned, loose.notSpare, loose.notParked⟩ rfl
        (Function.update_of_ne (running member) _ _) rfl (fun _ _ => rfl)
      exact ⟨lists', inv', frame, waiters⟩
  | addHandler intr task =>
      simp only [call, Option.ite_none_right_eq_some, Option.some.injEq] at taken
      obtain ⟨⟨member, -⟩, rfl⟩ := taken
      obtain ⟨core', loose, ne, notIntr⟩ := core.unhold member
      obtain ⟨reserved, loose'⟩ := taskReserve_spec core' loose ne (intr.castLE (by decide))
      have alive : (sys.sched.taskReserve task (intr.castLE (by decide))).state task ≠ .freeing := by
        simp [Scheduler.taskReserve, Scheduler.setState]
      refine ⟨lists, ⟨reserved.addIntr loose' ne alive notIntr intr, ?_, inv.pick⟩,
        ⟨.refl _, rfl, fun other inSleeping => ?_⟩, fun _ _ => rfl⟩
      · exact inv.current.stay notIdle rfl (Function.update_of_ne (running member) _ _)
          ⟨[], by simp⟩
      · exact Function.update_of_ne (awake member other inSleeping) _ _
  | schAsync task pri =>
      simp only [call, Option.ite_none_right_eq_some, Option.some.injEq] at taken
      obtain ⟨member, rfl⟩ := taken
      obtain ⟨core', loose, ne, notIntr⟩ := core.unhold member
      obtain ⟨reserved, loose'⟩ := taskReserve_spec core' loose ne pri
      obtain ⟨lists', inv', frame, waiters⟩ := inv.start_step notIdle reserved loose' rfl
        (Function.update_of_ne (running member) _ _) rfl
        (fun other inSleeping => Function.update_of_ne (awake member other inSleeping) _ _)
      exact ⟨lists', inv', frame, waiters⟩
  | semaDown index =>
      have passed : sys.run (sys.sched.semaTake index) = some sys' := by
        simp only [call, Scheduler.semaDown] at taken
        split at taken
        · simp [run, Outcome.value?] at taken
        · split at taken
          · exact taken
          · split at taken
            · simp [run, Outcome.value?] at taken
            · simp [run, Outcome.value?] at taken
            · exact taken
      obtain ⟨lists', inv', frame, waiters⟩ := inv.semaTake_step notIdle passed
      exact ⟨lists', inv', frame, waiters⟩
  | semaUp index =>
      obtain ⟨lists', inv', frame, waiters⟩ := inv.semaUp_step notIdle taken
      exact ⟨lists', inv', frame, waiters⟩
  | taskBlock index =>
      obtain ⟨lists', inv', frame, waiters⟩ := inv.leave_step notIdle (by simp) (by simp) taken
      exact ⟨lists', inv', frame, waiters⟩
  | taskUnblock task =>
      cases task with
      | none =>
          simp only [call, Option.some.injEq] at taken
          subst taken
          exact ⟨lists, inv, same, fun _ _ => rfl⟩
      | some task =>
          simp only [call, Option.ite_none_left_eq_some, Option.some.injEq] at taken
          obtain ⟨notParked, result⟩ := taken
          by_cases blocked : sys.sched.state task = .blocked
          · simp only [Scheduler.taskUnblock, blocked, if_true] at result
            have served : ∀ i, sys.sched.intrTask i = some task → sys.inService i = true := by
              intro i isIntr
              cases service : sys.inService i with
              | true => rfl
              | false => exact absurd ⟨i, isIntr, service⟩ notParked
            obtain ⟨lists', inv', frame, waiters⟩ := inv.ready_step notIdle
              (fun i member => core.runnable i task member blocked)
              (fun isSpare => (core.spare task isSpare).2 blocked) served result
            refine ⟨lists', inv', frame, fun queue waits => ?_⟩
            rw [waiters queue waits, waitersAfter, if_pos blocked]
          · simp only [Scheduler.taskUnblock, blocked, if_false] at result
            subst result
            refine ⟨lists, inv, same, fun queue waits => ?_⟩
            rw [waitersAfter, if_neg blocked]
  | taskSleep ticks =>
      obtain ⟨lists', sched', ran, core', current, due, tickcnt, sleeping, others⟩ :=
        taskSleep_spec core inv.current.member notIdle ticks.toNat
      simp only [call, run, ran, Outcome.value?_ok, Option.map_some, Option.some.injEq] at taken
      subst taken
      refine ⟨lists', ⟨core', current, inv.pick⟩, ⟨tickcnt, due, sleeping⟩, fun queue waits => ?_⟩
      rw [others queue waits.notSleeping, List.erase_of_not_mem (inv.not_waiting waits)]
      rfl
  | markFreeing =>
      simp only [call, Option.ite_none_left_eq_some, Option.some.injEq] at taken
      obtain ⟨notIntr, rfl⟩ := taken
      have marked := core.setState .freeing sys.sched.curtask (.inl (by decide))
        (.inr fun i isIntr => notIntr ⟨i, isIntr⟩)
      exact ⟨lists, ⟨marked, inv.current.stay notIdle rfl rfl ⟨[], by simp⟩, inv.pick⟩,
        ⟨.refl _, rfl, fun _ _ => rfl⟩, fun _ _ => rfl⟩
  | taskExit =>
      simp only [call, Option.ite_none_left_eq_some] at taken
      obtain ⟨notIntr, taken⟩ := taken
      have member := inv.current.member
      obtain ⟨sched', ran, core', current, -, -, ticks, due⟩ :=
        taskExit_spec core member notIdle fun _ i isIntr => notIntr ⟨i, isIntr⟩
      simp only [run, ran, Outcome.value?_ok, Option.map_some, Option.some.injEq] at taken
      subst taken
      exact ⟨_, ⟨core', current, inv.pick⟩, ⟨List.erase_sublist, ticks,
        fun _ _ => by rw [due]⟩, fun queue waits => List.erase_of_not_mem (inv.not_waiting waits)⟩

/-- A timer tick up to the context switch: the sleepers at the front that are due
are moved to their run queues. -/
theorem Inv.tick_spec (inv : sys.Inv lists free) :
    ∃ woken rest links state,
      sys.sched.timerTick = .ok { sys.sched with
        tickcnt := (sys.sched.tickcnt + 1) % 0x100000000, links := links, state := state } ∧
      lists .sleeping = woken ++ rest ∧
      Core sys.held sys.inService
        { sys.sched with
          tickcnt := (sys.sched.tickcnt + 1) % 0x100000000, links := links, state := state }
        (wakeLists sys.sched.pri lists woken rest) free ∧
      (∀ task ∈ woken, sys.sched.due task = (sys.sched.tickcnt + 1) % 0x100000000 ∧
        state task = .ready) ∧
      ∀ task, rest.head? = some task →
        sys.sched.due task ≠ (sys.sched.tickcnt + 1) % 0x100000000 := by
  have ticked : Core sys.held sys.inService
      { sys.sched with tickcnt := (sys.sched.tickcnt + 1) % 0x100000000 } lists free :=
    { inv.core with }
  have enough : (lists .sleeping).length < taskFuel := by
    have bound := (inv.core.queued.nodup .sleeping).length_le_card
    rw [Fintype.card_fin] at bound
    exact Nat.lt_succ_of_le bound
  obtain ⟨woken, rest, links, state, ran, split, core, woke, later, -⟩ :=
    taskWakeLoop_spec ticked taskFuel enough
  exact ⟨woken, rest, links, state, ran, split, core, woke, later⟩

/-- The state at `iswitch`: the running task still heads its queue. -/
theorem Inv.atIswitch_spec (inv : sys.Inv lists free) {action : Action} {before : Scheduler}
    (reaches : sys.atIswitch action = some before) :
    ∃ lists' inService,
      before.curtask = sys.sched.curtask ∧
      (∀ sched', before.iswitch = .ok sched' →
        sys.step action = some { sys with sched := sched', inService := inService }) ∧
      Core sys.held inService before lists' free ∧
      (lists' (.tqueue (before.pri before.curtask))).head? = some before.curtask ∧
      SleepersStep sys.sched before lists lists' action ∧ WaitersStep sys.sched lists lists' action := by
  have longer : ∀ {lists' : QueueId → List Task} (extra : List Task),
      lists' (.tqueue (sys.sched.pri sys.sched.curtask)) =
        lists (.tqueue (sys.sched.pri sys.sched.curtask)) ++ extra →
      (lists' (.tqueue (sys.sched.pri sys.sched.curtask))).head? = some sys.sched.curtask := by
    intro lists' extra same
    rw [same, List.head?_append, inv.current.head]
    rfl
  cases action with
  | tick =>
      obtain ⟨woken, rest, links, state, ran, split, core, -, later⟩ := inv.tick_spec
      simp only [atIswitch, ran, Outcome.value?_ok, Option.some.injEq] at reaches
      subst reaches
      refine ⟨_, sys.inService, rfl, fun sched' switched => ?_, core, ?_, ⟨rfl, rfl,
        ⟨woken, split⟩, later⟩, fun queue waits => ?_⟩
      · rw [step, atIswitch, ran, Outcome.value?_ok, Option.bind_some, run, switched,
          Outcome.value?_ok, Option.map_some]
      · exact longer (woken.filter fun task =>
          QueueId.tqueue (sys.sched.pri task) = .tqueue (sys.sched.pri sys.sched.curtask))
            (by simp [wakeLists])
      · have notRun : ∀ task, QueueId.tqueue (sys.sched.pri task) ≠ queue := fun task =>
          (waits.notRun _).symm
        simp [wakeLists, waits.notSleeping, notRun, waitersAfter]
  | intr intr =>
      have isBefore := reaches
      simp only [atIswitch, Option.ite_none_left_eq_some, Option.map_eq_some_iff] at reaches
      obtain ⟨idle, task, isIntr, rfl⟩ := reaches
      have parked : sys.inService intr = false := by simpa using idle
      have loose : Loose sys.held (update sys.inService intr true) sys.sched free task := by
        refine ⟨inv.core.parked intr task isIntr parked, (inv.core.intrSpare intr task isIntr).1,
          fun other isOther => ?_⟩
        rw [inv.core.intrUnique other intr task isOther isIntr, Function.update_self]
      obtain ⟨extra, same⟩ := exists_extra lists
        (.tqueue (sys.sched.pri sys.sched.curtask)) (.tqueue (sys.sched.pri task)) task
      refine ⟨_, update sys.inService intr true, rfl, fun sched' switched => ?_,
        taskSchAsync_spec (inv.core.serve intr) loose, longer extra same, ⟨?_, rfl,
        fun _ _ => rfl⟩, fun queue waits => ?_⟩
      · rw [step, isBefore, Option.bind_some, run, switched, Outcome.value?_ok, Option.map_some]
      · rw [Function.update_of_ne (by simp)]
      · rw [Function.update_of_ne (waits.notRun _)]
        rfl
  | intrEnd => simp [atIswitch] at reaches
  | call => simp [atIswitch] at reaches
  | idlePick => simp [atIswitch] at reaches
  | idleYield => simp [atIswitch] at reaches

/-- The context switch at the end of a tick or an interrupt: the queue of the
interrupted task is rotated. -/
theorem Inv.switch_step (inv : sys.Inv lists free) {action : Action} {before : Scheduler}
    (reaches : sys.atIswitch action = some before) :
    ∃ sys' middle rest, sys.step action = some sys' ∧ before.iswitch = .ok sys'.sched ∧
      Queued before.links middle ∧
      middle (.tqueue (before.pri before.curtask)) = before.curtask :: rest ∧
      sys'.Inv (update middle (.tqueue (before.pri before.curtask)) (rest ++ [before.curtask]))
        free ∧
      (∃ i, sys'.sched.links.head (.tqueue i) = some sys'.sched.curtask ∧
        ∀ j, j < i → sys'.sched.links.head (.tqueue j) = none) ∧
      SleepersStep sys.sched sys'.sched lists
        (update middle (.tqueue (before.pri before.curtask)) (rest ++ [before.curtask])) action ∧
      WaitersStep sys.sched lists
        (update middle (.tqueue (before.pri before.curtask)) (rest ++ [before.curtask])) action := by
  obtain ⟨middle, inService, -, taken, core, head, sleepers, waiters⟩ := inv.atIswitch_spec reaches
  obtain ⟨rest, lists', sched', list, rfl, switched, core', current, ⟨i, first, least⟩, due,
    ticks⟩ := iswitch_spec core head
  refine ⟨_, middle, rest, taken sched' switched, switched, core.queued, list,
    ⟨core', current, inv.pick⟩, ⟨i, ?_, fun j less => ?_⟩, ?_, fun queue waits => ?_⟩
  · rw [core'.queued.head, first]
  · rw [core'.queued.head, least j less, List.head?_nil]
  · have sleeping : update middle (.tqueue (before.pri before.curtask)) (rest ++ [before.curtask])
        .sleeping = middle .sleeping := Function.update_of_ne (by simp) _ _
    cases action with
    | tick =>
        obtain ⟨tickcnt, sameDue, woken, later⟩ := sleepers
        refine ⟨ticks.trans tickcnt, due.trans sameDue, ?_, ?_⟩
        · rw [sleeping]
          exact woken
        · rw [sleeping, due, ticks]
          exact later
    | intr intr =>
        obtain ⟨sub, tickcnt, sameDue⟩ := sleepers
        refine ⟨?_, ticks.trans tickcnt, fun task member => ?_⟩
        · rw [sleeping]
          exact sub
        · rw [due]
          exact sameDue task member
    | intrEnd => simp [atIswitch] at reaches
    | call => simp [atIswitch] at reaches
    | idlePick => simp [atIswitch] at reaches
    | idleYield => simp [atIswitch] at reaches
  · rw [Function.update_of_ne (waits.notRun _)]
    exact waiters queue waits

/-- The end of an interrupt handler. -/
theorem Inv.intrEnd_step (inv : sys.Inv lists free) {intr : Fin 16}
    (taken : sys.step (.intrEnd intr) = some sys') :
    ∃ lists', sys'.Inv lists' free ∧ Undisturbed sys.sched sys'.sched lists lists' ∧
      WaitersStep sys.sched lists lists' (.intrEnd intr) := by
  simp only [step, Option.ite_none_right_eq_some] at taken
  obtain ⟨⟨isIntr, -⟩, taken⟩ := taken
  have alive := inv.core.intrAlive intr _ isIntr
  obtain ⟨sched', ran, core, current, unowned, sameIntr, ticks, due⟩ :=
    taskExit_spec inv.core inv.current.member (inv.core.intrSpare intr _ isIntr).2
      fun freeing => absurd freeing alive
  rw [if_neg alive] at core
  simp only [run, ran, Outcome.value?_ok, Option.map_some, Option.some.injEq] at taken
  subst taken
  refine ⟨_, ⟨core.unserve fun task isTask => ?_, current, inv.pick⟩,
    ⟨List.erase_sublist, ticks, fun _ _ => by rw [due]⟩,
    fun queue waits => List.erase_of_not_mem (inv.not_waiting waits)⟩
  rw [sameIntr, isIntr, Option.some.injEq] at isTask
  exact isTask ▸ unowned

/-- The idle task finds nothing but itself runnable. -/
theorem Inv.idle_runnable (inv : sys.Inv lists free) (isIdle : sys.sched.curtask = idleTask) :
    sys.sched.taskRunnable = some idleTask := by
  obtain ⟨i, task, found, head, least⟩ := taskRunnable_spec inv.core
  have pri := inv.core.pri _ _ inv.core.idle
  have first := inv.current.head
  rw [isIdle, pri] at first
  have notLower : ¬i < TASK_PRI_IDLE := fun less => by
    rw [inv.current.idleAlone isIdle i less] at head
    simp at head
  obtain rfl : i = TASK_PRI_IDLE := le_antisymm (Fin.le_last i) (not_lt.mp notLower)
  rw [found, ← head, first]

/-- Every step keeps the invariant, and what it does to the free list. -/
theorem Inv.step_free (inv : sys.Inv lists free) {action : Action}
    (taken : sys.step action = some sys') :
    ∃ lists', sys'.Inv lists' (freeAfter sys.sched free action) ∧
      SleepersStep sys.sched sys'.sched lists lists' action ∧
      WaitersStep sys.sched lists lists' action := by
  have switch : ∀ {before}, sys.atIswitch action = some before → ∃ lists',
      sys'.Inv lists' free ∧ SleepersStep sys.sched sys'.sched lists lists' action ∧
        WaitersStep sys.sched lists lists' action := by
    intro before reaches
    obtain ⟨sys'', middle, rest, result, -, -, -, inv', -, sleepers⟩ := inv.switch_step reaches
    obtain rfl := Option.some.inj (taken.symm.trans result)
    exact ⟨_, inv', sleepers⟩
  cases action with
  | tick =>
      obtain ⟨before, reaches, -⟩ := Option.bind_eq_some_iff.mp taken
      exact switch reaches
  | intr intr =>
      obtain ⟨before, reaches, -⟩ := Option.bind_eq_some_iff.mp taken
      exact switch reaches
  | intrEnd intr => exact inv.intrEnd_step taken
  | call c =>
      simp only [System.step, Option.ite_none_left_eq_some] at taken
      obtain ⟨notIdle, taken⟩ := taken
      exact inv.call_step notIdle taken
  | idlePick =>
      simp only [System.step, Option.ite_none_right_eq_some, Option.some.injEq] at taken
      obtain ⟨isIdle, rfl⟩ := taken
      refine ⟨lists, ⟨inv.core, inv.current, fun next picked => ?_⟩, .refl _ _,
        fun _ _ => rfl⟩
      exact Option.some.inj (picked.symm.trans (inv.idle_runnable isIdle))
  | idleYield =>
      simp only [System.step, Option.ite_none_right_eq_some, Option.map_eq_some_iff] at taken
      obtain ⟨isIdle, next, picked, rfl⟩ := taken
      obtain rfl := inv.pick next picked
      have core := inv.core.setState .run idleTask (.inl (by decide)) (.inl (by decide))
      refine ⟨lists, ⟨{ core with }, ⟨?_, ?_⟩, by simp⟩, ⟨.refl _, rfl, fun _ _ => rfl⟩,
        fun _ _ => rfl⟩
      · exact isIdle ▸ inv.current.head
      · exact fun _ => inv.current.idleAlone isIdle

/-- Every step keeps the invariant. -/
theorem Inv.step (inv : sys.Inv lists free) {action : Action}
    (taken : sys.step action = some sys') :
    ∃ lists' free', sys'.Inv lists' free' ∧
      SleepersStep sys.sched sys'.sched lists lists' action ∧
      WaitersStep sys.sched lists lists' action := by
  obtain ⟨lists', step⟩ := inv.step_free taken
  exact ⟨lists', _, step⟩

/-! ## The start -/

/-- The lists after `task_init`: the first task and the idle task are runnable. -/
def startLists : QueueId → List Task :=
  update (update (fun _ => []) (.tqueue TASK_PRI_NORM) [0]) (.tqueue TASK_PRI_IDLE) [idleTask]

theorem start_queued (counts : Nat → Int) : Queued (start counts).sched.links startLists := by
  have unused : Queued (freeTable fun index => ⟨SEMA_SIG, counts index⟩).links fun _ => [] :=
    ⟨fun _ => trivial, fun _ => rfl, by simp [freeTable], fun _ => List.nodup_nil⟩
  have firstUnowned : (freeTable fun index => ⟨SEMA_SIG, counts index⟩).links.owner 0 = none := rfl
  have first := taskqPush_spec unused firstUnowned (.tqueue TASK_PRI_NORM)
  have idleUnowned : (taskqPush (freeTable fun index => ⟨SEMA_SIG, counts index⟩).links
      (.tqueue TASK_PRI_NORM) 0).owner idleTask = none := rfl
  exact taskqPush_spec first idleUnowned (.tqueue TASK_PRI_IDLE)

theorem mem_startLists {queue : QueueId} :
    task ∈ startLists queue ↔ queue = .tqueue TASK_PRI_NORM ∧ task = 0 ∨
      queue = .tqueue TASK_PRI_IDLE ∧ task = idleTask := by
  by_cases norm : queue = .tqueue TASK_PRI_NORM
  · subst norm
    simp [startLists, show TASK_PRI_NORM ≠ TASK_PRI_IDLE by decide]
  · by_cases idle : queue = .tqueue TASK_PRI_IDLE
    · subst idle
      simp [startLists, show TASK_PRI_IDLE ≠ TASK_PRI_NORM by decide]
    · simp [startLists, norm, idle]

theorem start_state (counts : Nat → Int) (task : Task) :
    (start counts).sched.state task = if task = idleTask then .ready else .free := by
  have same : (start counts).sched.state = update (fun _ => .free) idleTask .ready := rfl
  rw [same, Function.update_apply]

theorem start_pri (counts : Nat → Int) (task : Task) :
    (start counts).sched.pri task =
      if task = idleTask then TASK_PRI_IDLE else if task = 0 then TASK_PRI_NORM else 0 := by
  have same : (start counts).sched.pri =
      update (update (fun _ => 0) 0 TASK_PRI_NORM) idleTask TASK_PRI_IDLE := rfl
  rw [same, Function.update_apply, Function.update_apply]

/-- The invariant holds after `task_init`. -/
theorem start_inv (counts : Nat → Int) :
    (start counts).Inv startLists ((List.finRange MAX_TASK).drop 2) := by
  have noIntr : ∀ {i task}, (start counts).sched.intrTask i ≠ some task := by
    intro i task isIntr
    have none : (start counts).sched.intrTask i = none := rfl
    simp [none] at isIntr
  have later : ∀ task ∈ (List.finRange MAX_TASK).drop 2, task ≠ 0 ∧ task ≠ idleTask := by decide
  have queued := start_queued counts
  refine ⟨⟨queued, ?_, ?_, ?_, fun i task isIntr => absurd isIntr noIntr,
    fun i j task isIntr => absurd isIntr noIntr, fun i task isIntr => absurd isIntr noIntr,
    fun i task isIntr => absurd isIntr noIntr, ?_, ?_, ?_⟩, ⟨rfl, ?_⟩, ?_⟩
  · repeat' constructor
  · exact (List.nodup_finRange MAX_TASK).sublist (by simp [start, List.drop_sublist])
  · intro task isSpare
    obtain ⟨notFirst, notIdle⟩ := later task (by simpa [start] using isSpare)
    refine ⟨Option.eq_none_iff_forall_ne_some.mpr fun queue owned => ?_, ?_⟩
    · have member := (queued.owner task queue).mp owned
      simp [mem_startLists, notFirst, notIdle] at member
    · simp [start_state, notIdle]
  · intro i task member
    rcases mem_startLists.mp member with ⟨queue, rfl⟩ | ⟨queue, rfl⟩
    · have notIdle : (0 : Task) ≠ idleTask := by decide
      simp [start_pri, notIdle, QueueId.tqueue.inj queue]
    · simp [start_pri, QueueId.tqueue.inj queue]
  · intro i task member
    rw [start_state]
    split <;> simp
  · exact mem_startLists.mpr (.inr ⟨rfl, rfl⟩)
  · intro isIdle
    have notIdle : (0 : Task) ≠ idleTask := by decide
    exact absurd isIdle notIdle
  · exact fun next picked => absurd picked (by simp [start])

/-! ## Every run -/

/-- The invariant holds in every reachable state. -/
theorem reached_inv {counts : Nat → Int}
    (reached : Reachable (· = start counts) (fun s a s' => s.step a = some s') sys) :
    ∃ lists free, sys.Inv lists free := by
  refine reached.invariant (fun sys => ∃ lists free, sys.Inv lists free) ?_ ?_
  · rintro _ rfl
    exact ⟨_, _, start_inv counts⟩
  · rintro sys sys' action ⟨lists, free, inv⟩ - taken
    obtain ⟨lists', free', inv', -⟩ := inv.step taken
    exact ⟨lists', free', inv'⟩

/-- In every reachable state the queues are circular lists of distinct tasks, the
owner of a task is the queue that it is on, the tasks of a run queue have its
priority and the running task heads its queue.  A tick can be taken at any time;
after it, and after an interrupt, the queue of the interrupted task has been
rotated by one and the head of the first non-empty run queue runs. -/
theorem run_queues_correct {counts : Nat → Int}
    (reached : Reachable (· = start counts) (fun s a s' => s.step a = some s') sys) :
    (∃ before, sys.atIswitch .tick = some before) ∧
    ∃ lists : QueueId → List Task,
      Queued sys.sched.links lists ∧
      (∀ task queue queue', task ∈ lists queue → task ∈ lists queue' → queue = queue') ∧
      (∀ task, sys.sched.links.owner task = none ↔ ∀ queue, task ∉ lists queue) ∧
      (∀ i task, task ∈ lists (.tqueue i) → sys.sched.pri task = i) ∧
      sys.sched.links.head (.tqueue (sys.sched.pri sys.sched.curtask)) = some sys.sched.curtask ∧
      ∀ action before, sys.atIswitch action = some before →
        before.curtask = sys.sched.curtask ∧
        ∃ sys' middle rest, sys.step action = some sys' ∧ before.iswitch = .ok sys'.sched ∧
          Queued before.links middle ∧
          middle (.tqueue (before.pri before.curtask)) = before.curtask :: rest ∧
          Queued sys'.sched.links
            (update middle (.tqueue (before.pri before.curtask)) (rest ++ [before.curtask])) ∧
          ∃ i, sys'.sched.links.head (.tqueue i) = some sys'.sched.curtask ∧
            ∀ j, j < i → sys'.sched.links.head (.tqueue j) = none := by
  obtain ⟨lists, free, inv⟩ := reached_inv reached
  have queued := inv.core.queued
  refine ⟨?_, lists, queued, fun _ _ _ => queued.queue_unique, fun task => ⟨?_, ?_⟩, inv.core.pri,
    (queued.head _).trans inv.current.head, fun action before reaches => ⟨?_, ?_⟩⟩
  · obtain ⟨woken, rest, links, state, ran, -⟩ := inv.tick_spec
    exact ⟨_, by rw [atIswitch, ran, Outcome.value?_ok]⟩
  · exact fun unowned queue => queued.not_mem unowned queue
  · intro absent
    exact Option.eq_none_iff_forall_ne_some.mpr fun queue owned =>
      absent queue ((queued.owner task queue).mp owned)
  · obtain ⟨middle, inService, same, -⟩ := inv.atIswitch_spec reaches
    exact same
  · obtain ⟨sys', middle, rest, taken, switched, queued', list, inv', first, -⟩ :=
      inv.switch_step reaches
    exact ⟨sys', middle, rest, taken, switched, queued', list, inv'.core.queued, first⟩

/-- The case of a second task of normal priority that a tick has switched to. -/
theorem run_queues_correct_second_task :
    ∃ sys, runs step (start fun _ => 0)
        [.call .taskAlloc, .call (.taskStart 2 17), .tick] = some sys ∧
      sys.sched.curtask = 2 ∧ ∃ before, sys.atIswitch .tick = some before := by
  have ran : ((runs step (start fun _ => 0)
      [.call .taskAlloc, .call (.taskStart 2 17), .tick]).map (·.sched.curtask)) = some 2 := by
    decide +kernel
  obtain ⟨sys, ran, isSecond⟩ := Option.map_eq_some_iff.mp ran
  exact ⟨sys, ran, isSecond, (run_queues_correct (reachable_of_runs rfl ran)).1⟩

end System

end Pegasos.Kernel.Sched
