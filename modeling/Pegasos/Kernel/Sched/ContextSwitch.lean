import Pegasos.Kernel.Sched.Frames
import Pegasos.Kernel.Sched.Steps
import Pegasos.Support.Tables

/-!
# Context switches

The scheduler together with the registers and the memory of the processor.  Between two
actions of the scheduler the running task does what it likes with the registers and with
the memory, except for the saved registers of others.
-/

namespace Pegasos.Kernel.Sched

open Pegasos.Support
open Function (update)

/-- The scheduler, the processor and `task->stack`.  `suspended` records how a task has been
left, or prepared, last. -/
structure Machine where
  sys : System
  cpu : Cpu
  stack : Task → Word × Word
  suspended : Task → Option Suspended

/-- What `task_start` and `task_from_proc`, or `task_sch_async`, make a frame from. -/
inductive NewFrame where
  | fresh (new : NewTask)
  | async (callback : Callback)
  deriving DecidableEq, Repr

namespace NewFrame

def store (mem : Memory) : NewFrame → Memory
  | .fresh new => new.store mem
  | .async callback => callback.store mem

def suspended (mem : Memory) : NewFrame → Suspended
  | .fresh new => ⟨new.regs, []⟩
  | .async callback => callback.suspended mem

/-- The arguments of a callback fit on a stack. -/
def Fits : NewFrame → Prop
  | .fresh _ => True
  | .async callback => callback.args.length < 0x7000

instance : (new : NewFrame) → Decidable new.Fits
  | .fresh _ => inferInstanceAs (Decidable True)
  | .async _ => inferInstanceAs (Decidable (_ < _))

/-- The stack of the task, with the frame on top. -/
def pointer : NewFrame → Word × Word
  | .fresh new => (new.ss, new.sp - 26)
  | .async callback => (callback.ss, callback.reg)

theorem pointer_eq (new : NewFrame) (mem : Memory) :
    new.pointer = ((new.suspended mem).regs.ss, (new.suspended mem).sp) := by
  cases new with
  | fresh new => rfl
  | async callback =>
      simp only [pointer, suspended, Callback.suspended, Suspended.sp, Prod.mk.injEq, true_and]
      bv_omega

theorem store_in {new : NewFrame} (fits : new.Fits) (mem : Memory) :
    (new.suspended mem).In (new.store mem) := by
  cases new with
  | fresh new => exact new.store_in mem
  | async callback => exact callback.store_in mem fits

end NewFrame

/-- The running task changes registers and memory; or the scheduler acts, with the frame for
the task that it starts, and with the memory as the kernel leaves it. -/
inductive Event where
  | work (regs : Regs) (mem : Memory)
  | sched (action : Action) (new : NewFrame) (mem : Memory)

namespace Machine

-- `resume` is the offset of that label in `task_yield_to`
variable (resume : Word) (m : Machine)

/-- The running task. -/
abbrev curtask : Task := m.sys.sched.curtask

/-- The frame of a task is on top of its stack from now on. -/
def suspend (task : Task) (pointer : Word × Word) (suspended : Suspended) : Machine :=
  { m with
    stack := update m.stack task pointer
    suspended := update m.suspended task (some suspended) }

/-- The running task is left. -/
def leave (action : Action) : Machine :=
  match leaving m.sys.sched action with
  | .stays => m
  | .interrupted =>
      let cpu := m.cpu.interrupted
      { m.suspend m.curtask (cpu.ss, cpu.sp) ⟨m.cpu.toRegs, []⟩ with cpu := cpu }
  | .yields =>
      let cpu := m.cpu.taskYieldTo resume
      { m.suspend m.curtask (cpu.ss, cpu.sp) (m.cpu.yielded resume) with cpu := cpu }
  | .exits => { m with suspended := update m.suspended m.curtask none }

/-- The task that the scheduler starts gets its frame. -/
def prepare (action : Action) (new : NewFrame) : Machine :=
  match started m.sys.sched action with
  | none => m
  | some task =>
      { m.suspend task new.pointer (new.suspended m.cpu.mem) with
        cpu := { m.cpu with mem := new.store m.cpu.mem } }

/-- The machine before the next task is switched to. -/
def between (action : Action) (new : NewFrame) : Machine :=
  (m.leave resume action).prepare action new

/-- `lss sp, task->stack`, and what follows. -/
def switchTo (task : Task) : Machine :=
  { m with cpu := { m.cpu with ss := (m.stack task).1, sp := (m.stack task).2 }.restore }

def step : Event → Option Machine
  | .work regs mem => some { m with cpu := ⟨regs, mem⟩ }
  | .sched action new mem =>
      (m.sys.step action).map fun sys =>
        let m' := m.between resume action new
        let m' := { m' with sys := sys, cpu := { m'.cpu with mem := mem } }
        if leaving m.sys.sched action = .stays then m' else m'.switchTo sys.sched.curtask

/-- Nothing but the switch itself stores to the saved registers of a task.  A task that is
unblocked has been waiting on some queue. -/
def Guarded : Event → Prop
  | .work _ mem => ∀ task, task ≠ m.curtask → ∀ s ∈ m.suspended task, s.Same m.cpu.mem mem
  | .sched action new mem =>
      let left := m.leave resume action
      let between := m.between resume action new
      new.Fits ∧ appears m.sys.sched action = started m.sys.sched action ∧
        (∀ task, task ≠ m.curtask → started m.sys.sched action ≠ some task →
          ∀ s ∈ m.suspended task, s.Same m.cpu.mem mem) ∧
        (leaving m.sys.sched action ≠ .stays →
          ∀ s ∈ left.suspended m.curtask, s.Same left.cpu.mem mem) ∧
        ∀ task ∈ started m.sys.sched action,
          ∀ s ∈ between.suspended task, s.Same between.cpu.mem mem

instance (resume : Word) (m : Machine) : (event : Event) → Decidable (m.Guarded resume event)
  | .work _ mem =>
      inferInstanceAs (Decidable (∀ task, task ≠ m.curtask → ∀ s ∈ m.suspended task,
        s.Same m.cpu.mem mem))
  | .sched action new mem =>
      inferInstanceAs (Decidable (new.Fits ∧
        appears m.sys.sched action = started m.sys.sched action ∧
        (∀ task, task ≠ m.curtask → started m.sys.sched action ≠ some task →
          ∀ s ∈ m.suspended task, s.Same m.cpu.mem mem) ∧
        (leaving m.sys.sched action ≠ .stays →
          ∀ s ∈ (m.leave resume action).suspended m.curtask,
            s.Same (m.leave resume action).cpu.mem mem) ∧
        ∀ task ∈ started m.sys.sched action,
          ∀ s ∈ (m.between resume action new).suspended task,
            s.Same (m.between resume action new).cpu.mem mem))

/-- The frames of all tasks but the running one are on their stacks, and those that are on a
queue have one. -/
structure Inv (m : Machine) (lists : QueueId → List Task) (free : List Task) : Prop where
  sys : m.sys.Inv lists free
  frames : ∀ task, task ≠ m.curtask → ∀ s ∈ m.suspended task,
    s.In m.cpu.mem ∧ m.stack task = (s.regs.ss, s.sp)
  ready : ∀ task queue, task ∈ lists queue → task ≠ m.curtask → (m.suspended task).isSome

variable {resume m} {m' : Machine} {lists lists' : QueueId → List Task} {free : List Task}
variable {action : Action} {new : NewFrame} {mem : Memory} {task : Task}

@[simp] theorem leave_sys : (m.leave resume action).sys = m.sys := by
  unfold leave
  split <;> rfl

theorem prepare_other (ne : started m.sys.sched action ≠ some task) :
    (m.prepare action new).suspended task = m.suspended task ∧
      (m.prepare action new).stack task = m.stack task := by
  unfold prepare
  split
  · exact ⟨rfl, rfl⟩
  · rename_i other isStarted
    have other : task ≠ other := fun same => ne (same ▸ isStarted)
    exact ⟨Function.update_of_ne other _ _, Function.update_of_ne other _ _⟩

theorem prepare_self (isStarted : started m.sys.sched action = some task) :
    m.prepare action new = { m.suspend task new.pointer (new.suspended m.cpu.mem) with
      cpu := { m.cpu with mem := new.store m.cpu.mem } } := by
  unfold prepare
  rw [isStarted]

theorem leave_other (ne : task ≠ m.curtask) :
    (m.leave resume action).suspended task = m.suspended task ∧
      (m.leave resume action).stack task = m.stack task := by
  unfold leave
  split
  · exact ⟨rfl, rfl⟩
  · exact ⟨Function.update_of_ne ne _ _, Function.update_of_ne ne _ _⟩
  · exact ⟨Function.update_of_ne ne _ _, Function.update_of_ne ne _ _⟩
  · exact ⟨Function.update_of_ne ne _ _, rfl⟩

/-- The registers of the running task are on its stack when it is left, unless it exits. -/
theorem leave_self (moves : leaving m.sys.sched action ≠ .stays) {s : Suspended}
    (record : s ∈ (m.leave resume action).suspended m.curtask) :
    s.In (m.leave resume action).cpu.mem ∧
      (m.leave resume action).stack m.curtask = (s.regs.ss, s.sp) := by
  unfold leave at record ⊢
  cases way : leaving m.sys.sched action with
  | stays => exact absurd way moves
  | interrupted =>
      simp only [way, suspend, Function.update_self, Option.mem_def, Option.some.injEq] at record ⊢
      subst record
      obtain ⟨ss, sp⟩ := m.cpu.interrupted_pointer
      exact ⟨m.cpu.interrupted_in, Prod.ext ss sp⟩
  | yields =>
      simp only [way, suspend, Function.update_self, Option.mem_def, Option.some.injEq] at record ⊢
      subst record
      obtain ⟨ss, sp⟩ := m.cpu.taskYieldTo_pointer resume
      exact ⟨m.cpu.taskYieldTo_in resume, Prod.ext ss sp⟩
  | exits =>
      simp only [way, Function.update_self, Option.mem_def] at record
      exact absurd record (by simp)

theorem leave_isSome (moves : leaving m.sys.sched action ≠ .stays)
    (remains : leaving m.sys.sched action ≠ .exits) :
    ((m.leave resume action).suspended m.curtask).isSome := by
  unfold leave
  cases way : leaving m.sys.sched action with
  | stays => exact absurd way moves
  | interrupted => simp [suspend]
  | yields => simp [suspend]
  | exits => exact absurd way remains

/-- After an action every frame is on its stack, also that of the task that has been left. -/
theorem Inv.between_frames (inv : m.Inv lists free) (guarded : m.Guarded resume (.sched action new mem))
    (away : task ≠ m.curtask ∨ leaving m.sys.sched action ≠ .stays) {s : Suspended}
    (record : s ∈ (m.between resume action new).suspended task) :
    s.In mem ∧ (m.between resume action new).stack task = (s.regs.ss, s.sp) := by
  obtain ⟨fits, -, others, left, prepared⟩ := guarded
  have sys : (m.leave resume action).sys = m.sys := leave_sys
  by_cases isStarted : started m.sys.sched action = some task
  · have same := prepared task isStarted s record
    have result : m.between resume action new = _ := prepare_self (by rw [sys]; exact isStarted)
    rw [result] at record same ⊢
    simp only [suspend, Function.update_self, Option.mem_def, Option.some.injEq] at record ⊢
    subst record
    exact ⟨(NewFrame.store_in fits _).same same, NewFrame.pointer_eq _ _⟩
  · have other : started (m.leave resume action).sys.sched action ≠ some task := by rwa [sys]
    rw [between, (prepare_other other).1] at record
    rw [between, (prepare_other other).2]
    by_cases running : task = m.curtask
    · subst running
      have moves := away.resolve_left fun ne => ne rfl
      obtain ⟨inside, pointer⟩ := leave_self moves record
      exact ⟨inside.same (left moves s record), pointer⟩
    · rw [(leave_other running).1] at record
      obtain ⟨inside, pointer⟩ := inv.frames task running s record
      refine ⟨inside.same (others task running isStarted s record), ?_⟩
      exact (leave_other running).2.trans pointer

/-- The tasks on queues have frames after an action. -/
theorem Inv.between_isSome (inv : m.Inv lists free) (guarded : m.Guarded resume (.sched action new mem))
    {sys' : System} (step : QueuesStep m.curtask (m.sys.sched.pri m.curtask)
      (leaving m.sys.sched action) (appears m.sys.sched action) sys'.sched lists lists')
    (away : task ≠ m.curtask ∨ leaving m.sys.sched action ≠ .stays) {queue : QueueId}
    (member : task ∈ lists' queue) : ((m.between resume action new).suspended task).isSome := by
  have sys : (m.leave resume action).sys = m.sys := leave_sys
  by_cases isStarted : started m.sys.sched action = some task
  · have result : m.between resume action new = _ := prepare_self (by rw [sys]; exact isStarted)
    rw [result]
    simp [suspend]
  · rw [between, (prepare_other (by rw [sys]; exact isStarted)).1]
    by_cases running : task = m.curtask
    · subst running
      refine leave_isSome (away.resolve_left fun ne => ne rfl) fun exits => ?_
      exact step.exits exits queue member
    · rw [(leave_other running).1]
      rcases step.members task queue member with ⟨queue, earlier⟩ | fresh
      · exact inv.ready task queue earlier running
      · exact absurd (guarded.2.1 ▸ fresh) isStarted

/-- An action of the scheduler keeps the invariant.  When another task is switched to, it
has the registers that have been recorded for it. -/
theorem Inv.sched_step (inv : m.Inv lists free) (guarded : m.Guarded resume (.sched action new mem))
    (taken : m.step resume (.sched action new mem) = some m') :
    ∃ lists' free', m'.Inv lists' free' ∧
      QueuesStep m.curtask (m.sys.sched.pri m.curtask) (leaving m.sys.sched action)
        (appears m.sys.sched action) m'.sys.sched lists lists' ∧
      m'.suspended = (m.between resume action new).suspended ∧
      (leaving m.sys.sched action ≠ .stays → ∃ s, m'.suspended m'.curtask = some s ∧
        m'.cpu.toRegs = s.regs ∧ s.In m'.cpu.mem) := by
  obtain ⟨sys', ran, rfl⟩ := Option.map_eq_some_iff.mp taken
  obtain ⟨lists', free', inv', step⟩ := inv.sys.queues_step ran
  dsimp only
  by_cases stays : leaving m.sys.sched action = .stays
  · have same : sys'.sched.curtask = m.curtask := step.stays stays
    rw [if_pos stays]
    refine ⟨lists', free', ⟨inv', fun task ne s record => ?_, fun task queue member ne => ?_⟩, step,
      rfl, fun moves => absurd stays moves⟩
    · exact inv.between_frames guarded (.inl (same ▸ ne)) record
    · exact inv.between_isSome guarded step (.inl (same ▸ ne)) member
  · rw [if_neg stays]
    have member := inv'.current.member
    obtain ⟨s, record⟩ := Option.isSome_iff_exists.mp
      (inv.between_isSome guarded step (.inr stays) member)
    obtain ⟨inside, pointer⟩ := inv.between_frames guarded (.inr stays) record
    have restored : ({ (m.between resume action new).cpu with
        mem := mem
        ss := ((m.between resume action new).stack sys'.sched.curtask).1
        sp := ((m.between resume action new).stack sys'.sched.curtask).2 } : Cpu).restore =
          ⟨s.regs, mem⟩ :=
      Cpu.restore_eq inside (congrArg Prod.fst pointer) (congrArg Prod.snd pointer)
    refine ⟨lists', free', ⟨inv', fun task ne other record' => ?_, fun task queue member ne => ?_⟩,
      step, rfl, fun _ => ⟨s, record, congrArg Cpu.toRegs restored, ?_⟩⟩
    · obtain ⟨inside', pointer'⟩ := inv.between_frames guarded (.inr stays) record'
      refine ⟨?_, pointer'⟩
      change other.In (Cpu.restore _).mem
      exact restored ▸ inside'
    · exact inv.between_isSome guarded step (.inr stays) member
    · change s.In (Cpu.restore _).mem
      exact restored ▸ inside

/-- A task that is started has been on no queue. -/
theorem started_absent {sys sys' : System} (inv : sys.Inv lists free)
    (taken : sys.step action = some sys') (isStarted : started sys.sched action = some task)
    (queue : QueueId) : task ∉ lists queue := by
  have held : task ∈ sys.held → task ∉ lists queue := fun isHeld member =>
    (inv.core.owned member).1 (List.mem_append_right _ isHeld)
  cases action with
  | intr intr =>
      obtain ⟨before, reaches, -⟩ := Option.bind_eq_some_iff.mp taken
      simp only [System.atIswitch, Option.ite_none_left_eq_some] at reaches
      have parked : sys.inService intr = false := by simpa using reaches.1
      exact inv.core.queued.not_mem (inv.core.parked intr task isStarted parked) queue
  | call c =>
      simp only [System.step, Option.ite_none_left_eq_some] at taken
      cases c with
      | taskStart other pri =>
          obtain rfl := Option.some.inj isStarted
          simp only [System.call, Option.ite_none_right_eq_some] at taken
          exact held taken.2.1
      | schAsync other pri =>
          obtain rfl := Option.some.inj isStarted
          simp only [System.call, Option.ite_none_right_eq_some] at taken
          exact held taken.2.1
      | _ => simp [started] at isStarted
  | _ => simp [started] at isStarted

/-- A task has been left or prepared: it is on some queue, and when it runs, it has just been
given its registers. -/
structure Suspends (m : Machine) (lists : QueueId → List Task) (task : Task) (s : Suspended) :
    Prop where
  queued : ∃ queue, task ∈ lists queue
  record : m.suspended task = some s
  resumed : m.curtask = task → m.cpu.toRegs = s.regs ∧ s.In m.cpu.mem

/-- While a task waits, its record is kept. -/
theorem Inv.suspends_step (inv : m.Inv lists free) {event : Event}
    (guarded : m.Guarded resume event) (taken : m.step resume event = some m') {s : Suspended}
    (suspends : m.Suspends lists task s) (waits : m.curtask ≠ task) :
    ∃ lists' free', m'.Inv lists' free' ∧ m'.Suspends lists' task s := by
  cases event with
  | work regs mem =>
      obtain rfl := Option.some.inj taken
      refine ⟨lists, free, ⟨inv.sys, fun other ne s record => ?_, inv.ready⟩, suspends.queued,
        suspends.record, fun runs => absurd runs waits⟩
      obtain ⟨inside, pointer⟩ := inv.frames other ne s record
      exact ⟨inside.same (guarded other ne s record), pointer⟩
  | sched action new mem =>
      obtain ⟨lists', free', inv', step, records, switched⟩ := inv.sched_step guarded taken
      obtain ⟨queue, member⟩ := suspends.queued
      obtain ⟨sys', ran, -⟩ := Option.map_eq_some_iff.mp taken
      have record : m'.suspended task = some s := by
        have notStarted : started m.sys.sched action ≠ some task := fun isStarted =>
          started_absent inv.sys ran isStarted queue member
        rw [records, between, (prepare_other (by rwa [leave_sys])).1, (leave_other waits.symm).1]
        exact suspends.record
      refine ⟨lists', free', inv', step.kept task queue member fun _ => waits.symm, record,
        fun runs => ?_⟩
      obtain ⟨s', record', resumed⟩ := switched fun stays =>
        waits ((step.stays stays).symm.trans runs)
      rw [runs, record] at record'
      obtain rfl := Option.some.inj record'
      exact resumed

theorem Inv.suspends_run (inv : m.Inv lists free) {events : List Event} {s : Suspended}
    (suspends : m.Suspends lists task s)
    (ran : runs (Machine.step resume) m events = some m')
    (along : Along (Machine.step resume) (fun m event => m.Guarded resume event ∧ m.curtask ≠ task) m
      events) :
    ∃ lists', m'.Suspends lists' task s := by
  induction events generalizing m lists free with
  | nil =>
      obtain rfl := Option.some.inj ran
      exact ⟨lists, suspends⟩
  | cons event rest ih =>
      obtain ⟨next, taken, ran⟩ := Option.bind_eq_some_iff.mp ran
      obtain ⟨⟨guarded, waits⟩, along⟩ := along
      obtain ⟨lists', free', inv', suspends'⟩ := inv.suspends_step guarded taken suspends waits
      exact ih inv' suspends' ran (along next taken)

/-- What is recorded of the running task when it is left. -/
theorem leave_record : leaving m.sys.sched action = .interrupted →
      (m.leave resume action).suspended m.curtask = some ⟨m.cpu.toRegs, []⟩ := by
  intro way
  simp [leave, way, suspend]

theorem leave_record_yields : leaving m.sys.sched action = .yields →
      (m.leave resume action).suspended m.curtask = some (m.cpu.yielded resume) := by
  intro way
  simp [leave, way, suspend]

/-- Before the first switch the first task runs, and the idle task has its frame. -/
def start (counts : Nat → Int) (cpu : Cpu) (idle : NewTask) : Machine where
  sys := .start counts
  cpu := { cpu with mem := idle.store cpu.mem }
  stack := fun _ => (idle.ss, idle.sp - 26)
  suspended := update (fun _ => none) idleTask (some ⟨idle.regs, []⟩)

theorem start_inv (counts : Nat → Int) (cpu : Cpu) (idle : NewTask) :
    (start counts cpu idle).Inv System.startLists ((List.finRange MAX_TASK).drop 2) where
  sys := System.start_inv counts
  frames task ne s record := by
    by_cases isIdle : task = idleTask
    · subst isIdle
      simp only [start, Function.update_self, Option.mem_def, Option.some.injEq] at record
      subst record
      exact ⟨idle.store_in cpu.mem, rfl⟩
    · simp only [start, Function.update_of_ne isIdle, Option.mem_def] at record
      exact absurd record (by simp)
  ready task queue member ne := by
    rcases System.mem_startLists.mp member with ⟨-, rfl⟩ | ⟨-, rfl⟩
    · exact absurd rfl ne
    · simp [start]

/-- The states of the runs that begin after `task_init`. -/
def Reaches (resume : Word) : Machine → Prop :=
  Reached (fun m => ∃ counts cpu idle, m = start counts cpu idle)
    (fun m event m' => m.step resume event = some m') (Guarded resume)

theorem reaches_inv (reaches : Reaches resume m) : ∃ lists free, m.Inv lists free := by
  refine reaches.invariant (fun m => ∃ lists free, m.Inv lists free) ?_ ?_
  · rintro _ ⟨counts, cpu, idle, rfl⟩
    exact ⟨_, _, start_inv counts cpu idle⟩
  · rintro m m' event ⟨lists, free, inv⟩ guarded taken
    cases event with
    | work regs mem =>
        obtain rfl := Option.some.inj taken
        refine ⟨lists, free, inv.sys, fun other ne s record => ?_, inv.ready⟩
        obtain ⟨inside, pointer⟩ := inv.frames other ne s record
        exact ⟨inside.same (guarded other ne s record), pointer⟩
    | sched action new mem =>
        obtain ⟨lists', free', inv', -⟩ := inv.sched_step guarded taken
        exact ⟨lists', free', inv'⟩

/-- The first task runs, and the idle task has a stack of its own. -/
def first : Machine :=
  start (fun _ => 0)
    { ax := 1, cx := 2, dx := 3, bx := 4, sp := 0x1000, bp := 5, si := 6, di := 7, es := 8
      ds := 9, ss := 0x100, cs := 10, ip := 11, fl := 0x0246, mem := fun _ => 0 }
    { ss := 0x200, sp := 0x800, es := 9, ds := 9, cs := 10, ip := 0x40, ax := 0 }

/-- The kernel stores nothing else. -/
def quiet (m : Machine) (action : Action) : Event :=
  let new := .fresh { ss := 0x300, sp := 0x800, es := 12, ds := 12, cs := 13, ip := 0, ax := 14 }
  .sched action new (m.between 0x80 action new).cpu.mem

def allocated : Machine := (first.step 0x80 (first.quiet (.call .taskAlloc))).getD first

/-- Another task of the same priority is ready. -/
def another : Machine :=
  (allocated.step 0x80 (allocated.quiet (.call (.taskStart 2 17)))).getD first

def switched : Machine := (another.step 0x80 (another.quiet .tick)).getD first

/-- It changes all registers, and some memory. -/
def busy : Event :=
  .work { ax := 0xff, cx := 0xff, dx := 0xff, bx := 0xff, sp := 0x700, bp := 0xff, si := 0xff
          di := 0xff, es := 0xff, ds := 0xff, ss := 0x300, cs := 13, ip := 0xff, fl := 0x0202 }
    (update switched.cpu.mem 0x5000 0xff)

def worked : Machine := (switched.step 0x80 busy).getD first

theorem another_reaches : Reaches 0x80 another := by
  have ran : (runs (step 0x80) first
      [first.quiet (.call .taskAlloc), allocated.quiet (.call (.taskStart 2 17))]).isSome := by
    decide +kernel
  have along : Along (step 0x80) (Guarded 0x80) first
      [first.quiet (.call .taskAlloc), allocated.quiet (.call (.taskStart 2 17))] := by
    decide +kernel
  obtain ⟨last, ran⟩ := Option.isSome_iff_exists.mp ran
  have same : another = last := by
    obtain ⟨next, taken, rest⟩ := Option.bind_eq_some_iff.mp ran
    have here : allocated = next := by rw [allocated, taken]; rfl
    obtain ⟨next', taken', rest'⟩ := Option.bind_eq_some_iff.mp rest
    rw [← here] at taken'
    rw [another, taken']
    exact Option.some.inj rest'
  rw [same]
  exact reached_of_runs ⟨_, _, _, rfl⟩ along ran

end Machine
end Pegasos.Kernel.Sched
