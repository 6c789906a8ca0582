import Pegasos.Kernel.Tty.EchoPath
import Pegasos.Support.Transition

/-!
# Mutual exclusion in the echo path

A run keeps the two critical sections exclusive if `ttyc_putc` never wakes the echo task
while that task waits for a semaphore.  The tasks between a `sema_down` and the `sema_up`
after it are as many as the calls differ, so all of them but one wait on the queue.
-/

namespace Pegasos.Kernel.Tty

open Pegasos.Support
open Pegasos.Kernel.Sched (Task Scheduler GrantSystem SemaSystem QueueId idleTask TASK_PRI_NORM
  MAX_TASK)
open Function (update)

/-- The semaphore whose `sema_down` the task has called and whose `sema_up` it has not. -/
def EchoPc.inside : EchoPc → Option Nat
  | .echoing _ _ _ | .echoed _ _ | .testing | .tested _ | .draining | .drained _ => some echocs
  | .sending => some csxmit
  | _ => none

namespace EchoSystem

/-- The task is between `CS_ENTER` and `CS_LEAVE`: its `sema_down` has returned. -/
def Holds (sys : EchoSystem) (cs : Nat) (task : Task) : Prop :=
  (sys.pc task).inside = some cs ∧ (task, cs) ∉ sys.sched.hist.inside

/-- `ttyc_putc` finds the echo task on no queue of a semaphore when it wakes it. -/
def Guarded (sys : EchoSystem) : EchoAction → Prop
  | .run _ => sys.pc sys.curtask = .wake → ∀ task, sys.echotask = some task →
      SemaSystem.onSema (sys.sched.hist.sys.sched.links.owner task) = false
  | _ => True

instance decidableGuarded (sys : EchoSystem) (action : EchoAction) :
    Decidable (sys.Guarded action) := by
  unfold Guarded
  split <;> infer_instance

/-- The invariant of guarded runs. -/
structure Inv (sched : GrantSystem) (pc : Task → EchoPc) (lists : QueueId → List Task)
    (free : List Task) : Prop where
  grant : sched.Inv (fun _ => 1) lists free
  counted : ∀ i, i < 2 → sched.hist.downs i = sched.hist.ups i +
    (List.finRange MAX_TASK).countP fun task => (pc task).inside = some i
  called : ∀ task i, i < 2 → (task, i) ∈ sched.hist.inside → (pc task).inside = some i

variable {sched sched' : GrantSystem} {pc pc' : Task → EchoPc} {lists : QueueId → List Task}
variable {free : List Task} {sys sys' : EchoSystem}

theorem Inv.congr (inv : Inv sched pc lists free)
    (same : ∀ task, (pc' task).inside = (pc task).inside) : Inv sched pc' lists free where
  grant := inv.grant
  counted := by
    simp only [same]
    exact inv.counted
  called := by
    simp only [same]
    exact inv.called

/-- At most one more task has entered than has left. -/
theorem Inv.count_le (inv : Inv sched pc lists free) {i : Nat} (isCs : i < 2) :
    (sched.hist.sys.sched.semas i).count ≤ 1 := by
  have count := inv.grant.hist.count i
  have counted := inv.counted i isCs
  omega

/-- The running task calls the scheduler, which it does in step with where it goes. -/
theorem Inv.schedule_step (inv : Inv sched pc lists free) {action : Sched.Action}
    (guarded : sched.hist.Guarded action) (taken : sched.step action = some sched')
    {next : EchoPc}
    (balance : ∀ i, i < 2 →
      (decide (next.inside = some i)).toNat + (if action = .call (.semaUp i) then 1 else 0) =
        (decide ((pc sched.curtask).inside = some i)).toNat +
          (if action = .call (.semaDown i) then 1 else 0)) :
    ∃ lists' free', Inv sched' (update pc sched.curtask next) lists' free' := by
  obtain ⟨lists', free', grant'⟩ := inv.grant.step guarded taken
  obtain ⟨hist', ran, rfl⟩ := Option.map_eq_some_iff.mp taken
  obtain ⟨next', -, rfl⟩ := Option.map_eq_some_iff.mp ran
  have here : update pc sched.curtask next sched.curtask = next := Function.update_self _ _ _
  have others : ∀ task, task ≠ sched.curtask → update pc sched.curtask next task = pc task :=
    fun task ne => Function.update_of_ne ne _ _
  refine ⟨lists', free', grant', fun i isCs => ?_, fun task i isCs member => ?_⟩
  · have counted := inv.counted i isCs
    have balanced := balance i isCs
    have change := countP_change (fun task => decide ((pc task).inside = some i))
      (fun task => decide ((update pc sched.curtask next task).inside = some i))
      (List.nodup_finRange MAX_TASK) (List.mem_finRange sched.curtask)
      fun task _ ne => by rw [others task ne]
    simp only [here] at change
    dsimp only
    omega
  · have begun := (GrantSystem.mem_begin _ _ _ _).mp (List.mem_filter.mp member).1
    have balanced := balance i isCs
    by_cases isTask : task = sched.curtask
    · subst isTask
      rw [here]
      rcases begun with before | ⟨rfl, -⟩
      · exact absurd rfl (inv.grant.waiting _ before)
      · by_contra away
        simp [away] at balanced
    · rw [others task isTask]
      rcases begun with before | ⟨-, isTask'⟩
      · exact inv.called task i isCs before
      · exact absurd isTask' isTask

/-- Two tasks that are inside of a section, and not on its queue, are the same. -/
theorem Inv.exclusive (inv : Inv sched pc lists free) {i : Nat} (isCs : i < 2)
    {first second : Task} (inFirst : (pc first).inside = some i)
    (inSecond : (pc second).inside = some i) (offFirst : first ∉ lists (.sema i))
    (offSecond : second ∉ lists (.sema i)) : first = second := by
  by_contra apart
  have hist := inv.grant.hist
  have length := hist.queue i
  have count := hist.count i
  have counted := inv.counted i isCs
  have distinct : (first :: second :: lists (.sema i)).Nodup := by
    refine List.nodup_cons.mpr ⟨fun member => ?_,
      List.nodup_cons.mpr ⟨offSecond, hist.sys.core.queued.nodup _⟩⟩
    rcases List.mem_cons.mp member with same | queued
    · exact apart same
    · exact offFirst queued
  have inside : first :: second :: lists (.sema i) ⊆
      (List.finRange MAX_TASK).filter fun task => (pc task).inside = some i := by
    intro task member
    refine List.mem_filter.mpr ⟨List.mem_finRange task, decide_eq_true ?_⟩
    rcases List.mem_cons.mp member with rfl | later
    · exact inFirst
    · rcases List.mem_cons.mp later with rfl | queued
      · exact inSecond
      · exact inv.called task i isCs (hist.inside i task queued)
  have few := (List.subperm_of_subset distinct inside).length_le
  rw [← List.countP_eq_length_filter, List.length_cons, List.length_cons] at few
  omega

/-- `CS_ENTER`. -/
theorem Inv.enter (inv : Inv sys.sched sys.pc lists free) {cs : Nat} {next : EchoPc}
    (taken : sys.schedule (.semaDown cs) next = some sys')
    (before : (sys.pc sys.curtask).inside = none) (after : next.inside = some cs) :
    ∃ lists' free', Inv sys'.sched sys'.pc lists' free' := by
  have open_ : sys.sched.hist.Guarded (.call (.semaDown cs)) := trivial
  obtain ⟨sched', ran, rfl⟩ := Option.map_eq_some_iff.mp taken
  apply inv.schedule_step open_ ran
  intro i _
  rw [before, after]
  by_cases same : cs = i
  · simp [same]
  · simp [same]

/-- `CS_LEAVE`. -/
theorem Inv.leave (inv : Inv sys.sched sys.pc lists free) {cs : Nat} {next : EchoPc}
    (isCs : cs < 2) (taken : sys.schedule (.semaUp cs) next = some sys')
    (before : (sys.pc sys.curtask).inside = some cs) (after : next.inside = none) :
    ∃ lists' free', Inv sys'.sched sys'.pc lists' free' := by
  have room : sys.sched.hist.Guarded (.call (.semaUp cs)) :=
    Int.lt_of_le_of_lt (inv.count_le isCs) (by decide)
  obtain ⟨sched', ran, rfl⟩ := Option.map_eq_some_iff.mp taken
  apply inv.schedule_step room ran
  intro i _
  rw [before, after]
  by_cases same : cs = i
  · simp [same]
  · simp [same]

theorem Inv.goto (inv : Inv sys.sched sys.pc lists free) {next : EchoPc} {cook : Ttycook}
    (same : next.inside = (sys.pc sys.curtask).inside) :
    ∃ lists' free', Inv ((sys.setCook cook).goto next).sched ((sys.setCook cook).goto next).pc
      lists' free' := by
  refine ⟨lists, free, inv.congr fun task => ?_⟩
  by_cases isTask : task = sys.curtask
  · subst isTask
    exact (congrArg EchoPc.inside (Function.update_self _ _ _)).trans same
  · exact congrArg EchoPc.inside (Function.update_of_ne isTask _ _)

theorem back_inside (sys : EchoSystem) : sys.back.inside = none := by
  unfold back
  split <;> rfl

/-- A step of the driver. -/
theorem Inv.run_step (inv : Inv sys.sched sys.pc lists free) {ok : Bool}
    (guarded : sys.Guarded (.run ok)) (taken : sys.run ok = some sys') :
    ∃ lists' free', Inv sys'.sched sys'.pc lists' free' := by
  have echo : echocs < 2 := by decide
  have xmit : csxmit < 2 := by decide
  cases at_ : sys.pc sys.curtask with
  | out => simp [run, at_] at taken
  | putc ch =>
      simp only [run, at_] at taken
      split at taken
      · exact Option.some.inj taken ▸ inv.goto (by rw [at_]; rfl)
      · exact Option.some.inj taken ▸ inv.goto (by rw [at_]; rfl)
  | echo chars line =>
      cases chars with
      | nil =>
          simp only [run, at_, Option.some.injEq] at taken
          exact taken ▸ inv.goto (by rw [at_]; rfl)
      | cons ch chars =>
          simp only [run, at_] at taken
          exact inv.enter taken (by rw [at_]; rfl) rfl
  | echoing ch chars line =>
      simp only [run, at_, Option.some.injEq] at taken
      exact taken ▸ inv.goto (by rw [at_]; rfl)
  | echoed chars line =>
      simp only [run, at_] at taken
      exact inv.leave echo taken (by rw [at_]; rfl) rfl
  | wake =>
      simp only [run, at_] at taken
      obtain ⟨sched', ran, rfl⟩ := Option.map_eq_some_iff.mp taken
      apply inv.schedule_step _ ran
      · simp [at_, EchoPc.inside]
      · have asleep := guarded at_
        cases isEcho : sys.echotask with
        | none => trivial
        | some task => exact asleep task isEcho
  | test =>
      simp only [run, at_] at taken
      exact inv.enter taken (by rw [at_]; rfl) rfl
  | testing =>
      simp only [run, at_, Option.some.injEq] at taken
      exact taken ▸ inv.goto (by rw [at_]; rfl)
  | tested empty =>
      simp only [run, at_] at taken
      exact inv.leave echo taken (by rw [at_]; rfl) (by cases empty <;> rfl)
  | block =>
      simp only [run, at_] at taken
      obtain ⟨sched', ran, rfl⟩ := Option.map_eq_some_iff.mp taken
      apply inv.schedule_step _ ran
      · simp [at_, EchoPc.inside]
      · trivial
  | drain =>
      simp only [run, at_] at taken
      exact inv.enter taken (by rw [at_]; rfl) rfl
  | draining =>
      simp only [run, at_, Option.some.injEq] at taken
      exact taken ▸ inv.goto (by rw [at_]; rfl)
  | drained got =>
      simp only [run, at_] at taken
      exact inv.leave echo taken (by rw [at_]; rfl) rfl
  | write size =>
      simp only [run, at_, Option.some.injEq] at taken
      refine taken ▸ inv.goto ?_
      rw [at_]
      split
      · rfl
      · exact sys.back_inside
  | enter =>
      simp only [run, at_] at taken
      exact inv.enter taken (by rw [at_]; rfl) rfl
  | sending =>
      simp only [run, at_] at taken
      exact inv.leave xmit taken (by rw [at_]; rfl) sys.back_inside

/-- What the rest of the kernel does. -/
theorem Inv.other_step (inv : Inv sys.sched sys.pc lists free) {action : Sched.Action}
    (isForeign : sys.Foreign action) (taken : sys.sched.step action = some sched') :
    ∃ lists' free', Inv sched' sys.pc lists' free' := by
  have guarded : sys.sched.hist.Guarded action := by
    cases action with
    | call call =>
        cases call with
        | semaUp index => exact isForeign.2.2
        | taskUnblock task =>
            cases task with
            | none => trivial
            | some task => exact isForeign.2
        | _ => trivial
    | _ => trivial
  have quiet : ∀ i, i < 2 → action ≠ .call (.semaUp i) ∧ action ≠ .call (.semaDown i) := by
    intro i isCs
    constructor
    · rintro rfl
      exact absurd isCs (not_lt.mpr isForeign.2.1)
    · rintro rfl
      exact absurd isCs (not_lt.mpr isForeign.2)
  have stays : ∃ lists' free',
      Inv sched' (update sys.pc sys.curtask (sys.pc sys.curtask)) lists' free' := by
    apply inv.schedule_step guarded taken
    intro i isCs
    rw [if_neg (quiet i isCs).1, if_neg (quiet i isCs).2]
  rwa [Function.update_eq_self] at stays

/-- Every step keeps the invariant. -/
theorem Inv.step (inv : Inv sys.sched sys.pc lists free) {action : EchoAction}
    (guarded : sys.Guarded action) (taken : sys.step action = some sys') :
    ∃ lists' free', Inv sys'.sched sys'.pc lists' free' := by
  cases action with
  | call call =>
      simp only [EchoSystem.step, Option.ite_none_right_eq_some, Option.some.injEq] at taken
      obtain ⟨⟨-, at_⟩, rfl⟩ := taken
      have entered : (entry call).inside = (sys.pc sys.curtask).inside := by
        rw [at_]
        cases call <;> rfl
      exact inv.goto entered
  | run ok => exact inv.run_step guarded taken
  | init task =>
      simp only [EchoSystem.step, Option.ite_none_right_eq_some] at taken
      obtain ⟨⟨-, at_, outside⟩, taken⟩ := taken
      obtain ⟨sched', ran, rfl⟩ := Option.map_eq_some_iff.mp taken
      have isForeign : sys.Foreign (.call (.schAsync task TASK_PRI_NORM)) := at_
      obtain ⟨lists', free', inv'⟩ := inv.other_step isForeign ran
      refine ⟨lists', free', inv'.congr fun other => ?_⟩
      by_cases isTask : other = task
      · subst isTask
        have started : update sys.pc other .test other = .test := Function.update_self _ _ _
        have same : (update sys.pc other .test other).inside = EchoPc.inside .test :=
          congrArg EchoPc.inside started
        rw [outside]
        exact same
      · exact congrArg EchoPc.inside (Function.update_of_ne isTask _ _)
  | other action =>
      simp only [EchoSystem.step, Option.ite_none_right_eq_some] at taken
      obtain ⟨sched', ran, rfl⟩ := Option.map_eq_some_iff.mp taken.2
      exact inv.other_step taken.1 ran

theorem start_inv (cook : Ttycook) : Inv (start cook).sched (start cook).pc
    Sched.System.startLists ((List.finRange MAX_TASK).drop 2) := by
  constructor
  · exact GrantSystem.start_inv fun _ => by decide
  · intro i _
    simp [start, GrantSystem.start, SemaSystem.start, EchoPc.inside]
  · simp [start, GrantSystem.start, SemaSystem.start]

theorem reached_inv (reached : Reached (fun s => ∃ cook, s = start cook)
    (fun s a s' => s.step a = some s') Guarded sys) :
    ∃ lists free, Inv sys.sched sys.pc lists free := by
  apply reached.invariant fun s => ∃ lists free, Inv s.sched s.pc lists free
  · rintro _ ⟨cook, rfl⟩
    exact ⟨_, _, start_inv cook⟩
  · rintro s s' action ⟨lists, free, inv⟩ guarded taken
    exact inv.step guarded taken

/-- In every guarded run one task at most holds each of the two semaphores, every call of
`sema_down` that has returned was granted its semaphore, and `sema_up` does not panic. -/
theorem echo_exclusive (reached : Reached (fun s => ∃ cook, s = start cook)
    (fun s a s' => s.step a = some s') Guarded sys) {cs : Nat}
    (isCs : cs = echocs ∨ cs = csxmit) :
    (∀ first second, sys.Holds cs first → sys.Holds cs second → first = second) ∧
      (∀ task, (sys.sched.returns cs).count task ≤ (sys.sched.grants cs).count task) ∧
      ∃ sched', sys.sched.hist.sys.sched.semaUp cs = .ok sched' := by
  have small : cs < 2 := by
    rcases isCs with rfl | rfl <;> decide
  obtain ⟨lists, free, inv⟩ := reached_inv reached
  refine ⟨?_, inv.grant.returns_le cs, ?_⟩
  · intro first second holdsFirst holdsSecond
    apply inv.exclusive small holdsFirst.1 holdsSecond.1
    · exact fun queued => holdsFirst.2 (inv.grant.hist.inside cs first queued)
    · exact fun queued => holdsSecond.2 (inv.grant.hist.inside cs second queued)
  · apply inv.grant.hist.semaUp_ok
    exact Int.lt_of_le_of_lt (inv.count_le small) (by decide)

instance decidableHolds (sys : EchoSystem) (cs : Nat) (task : Task) :
    Decidable (sys.Holds cs task) :=
  inferInstanceAs (Decidable (_ ∧ _))

/-- A character arrives by the interrupt task 3, and while task 0 is in `csxmit` the echo
task 2 waits for it. -/
def waitingRun : List EchoAction :=
  [.other (.call .taskAlloc), .init 2, .other (.call .taskAlloc),
    .other (.call (.addHandler 4 3)), .other (.intr 4), .call (.putc 97)] ++
  List.replicate 6 (.run true) ++
  [.other (.intrEnd 4), .other .tick, .call (.write 1), .run true, .run true, .other .tick] ++
  List.replicate 8 (.run true)

/-- Another character arrives, and the echo task runs. -/
def wakingRun : List EchoAction :=
  waitingRun ++ [.other (.intr 4), .call (.putc 98)] ++ List.replicate 6 (.run true) ++
  [.other (.intrEnd 4), .other .tick]

/-- An empty line buffer. -/
def emptyCook : Ttycook where
  buf := fun _ => 0
  echobuf := fun _ => 0
  tail := 0
  head := 0
  ehead := 0
  etail := 0
  crs := 0
  echotask := false

/-- The case of an echo task that waits for `csxmit`. -/
theorem echo_exclusive_waiting : ∃ sys, runs step (start emptyCook) waitingRun = some sys ∧
    sys.Holds csxmit 0 ∧ sys.pc 2 = .sending ∧ ∀ task, sys.Holds csxmit task → task = 0 := by
  have ran : ((runs step (start emptyCook) waitingRun).map fun sys =>
      (decide (sys.Holds csxmit 0), sys.pc 2)) = some (true, .sending) := by
    decide +kernel
  have guarded : Along step Guarded (start emptyCook) waitingRun := by
    decide +kernel
  obtain ⟨sys, ran, facts⟩ := Option.map_eq_some_iff.mp ran
  obtain ⟨holds, waits⟩ := Prod.mk.inj facts
  have exclusive := echo_exclusive (reached_of_runs ⟨_, rfl⟩ guarded ran) (.inr rfl)
  exact ⟨sys, ran, of_decide_eq_true holds, waits,
    fun task holdsToo => exclusive.1 task 0 holdsToo (of_decide_eq_true holds)⟩

/-- The echo task is woken while it waits for `csxmit`: it is in the section together with
task 0, without a grant, and the next `sema_up` panics. -/
theorem echo_task_enters_csxmit_twice : ∃ sys,
    Reachable (fun s => ∃ cook, s = start cook) (fun s a s' => s.step a = some s') sys ∧
      sys.Holds csxmit 0 ∧ sys.Holds csxmit 2 ∧
      (sys.sched.grants csxmit).count 2 < (sys.sched.returns csxmit).count 2 ∧
      sys.sched.hist.sys.sched.semaUp csxmit =
        .panic "semaphore: count not consistent with queue state" := by
  have ran : ((runs step (start emptyCook) wakingRun).map fun sys =>
      (decide (sys.Holds csxmit 0 ∧ sys.Holds csxmit 2 ∧
        (sys.sched.grants csxmit).count 2 < (sys.sched.returns csxmit).count 2),
        (sys.sched.hist.sys.sched.semaUp csxmit).panicked)) =
      some (true, some "semaphore: count not consistent with queue state") := by
    decide +kernel
  obtain ⟨sys, ran, facts⟩ := Option.map_eq_some_iff.mp ran
  obtain ⟨both, panics⟩ := Prod.mk.inj facts
  obtain ⟨first, second, more⟩ := of_decide_eq_true both
  exact ⟨sys, reachable_of_runs ⟨_, rfl⟩ ran, first, second, more, Outcome.panicked_eq.mp panics⟩

end EchoSystem

end Pegasos.Kernel.Tty
