import Pegasos.Kernel.Sched.Steps

/-!
# Round robin

The tasks of one priority take turns in the order of their run queue.  A task joins
the queue at its end, and the only one that can go ahead of another is the running
one, which heads the queue: an interrupt puts it behind all others, and otherwise it
leaves the queue itself.
-/

namespace Pegasos.Kernel.Sched

open Pegasos.Support
open Function (update)

/-- A timer tick or another interrupt takes the processor from the running task. -/
def Action.interrupts : Action → Bool
  | .tick => true
  | .intr _ => true
  | _ => false

theorem leaving_interrupted {sched : Scheduler} {action : Action} :
    leaving sched action = .interrupted ↔ action.interrupts = true := by
  cases action with
  | call call =>
      cases call with
      | semaDown index =>
          simp only [leaving, callLeaving, Action.interrupts, Bool.false_eq_true, iff_false]
          split <;> simp
      | _ => simp [leaving, callLeaving, Action.interrupts]
  | _ => simp [leaving, Action.interrupts]

namespace System

variable {sys sys' : System} {lists : QueueId → List Task} {free : List Task}

/-! ## Turns -/

/-- The turn that a step ends at a priority: that of the running task, if it has this
priority and heads its queue no longer. -/
def turnEnded (p : Pri) (sched sched' : Scheduler) : List Task :=
  if sched.pri sched.curtask = p ∧ sched'.links.head (.tqueue p) ≠ some sched.curtask then
    [sched.curtask]
  else []

/-- The tasks whose turns at a priority end in a run, in this order. -/
def turns (p : Pri) : System → List Action → List Task
  | _, [] => []
  | sys, action :: rest =>
      (sys.step action).elim [] fun sys' => turnEnded p sys.sched sys'.sched ++ turns p sys' rest

/-- Another task than this one runs, and none of higher priority could. -/
def Overlooks (sys : System) (task : Task) (p : Pri) : Prop :=
  sys.sched.curtask ≠ task ∧ ∀ j, j < p → sys.sched.links.head (.tqueue j) = none

instance (sys : System) (task : Task) (p : Pri) : Decidable (sys.Overlooks task p) :=
  inferInstanceAs (Decidable (_ ∧ _))

variable {p : Pri} {task : Task} {ahead behind : List Task} {action : Action}
variable {actions : List Action} {lists' : QueueId → List Task} {free' : List Task}

/-- A step moves a waiting task ahead by the turn that it ends. -/
theorem Inv.turn_step (inv : sys.Inv lists free) (inv' : sys'.Inv lists' free')
    (step : QueuesStep sys.sched.curtask (sys.sched.pri sys.sched.curtask)
      (leaving sys.sched action) (appears sys.sched action) sys'.sched lists lists')
    (list : lists (.tqueue p) = ahead ++ task :: behind) (waits : sys.sched.curtask ≠ task) :
    ∃ ahead' extra, ahead = turnEnded p sys.sched sys'.sched ++ ahead' ∧
      lists' (.tqueue p) = ahead' ++ task :: (behind ++ extra) ∧
      (action.interrupts = true → sys.sched.pri sys.sched.curtask = p →
        turnEnded p sys.sched sys'.sched = [sys.sched.curtask]) := by
  have nodup := inv.core.queued.nodup (.tqueue p)
  have head' := inv'.core.queued.head (.tqueue p)
  obtain ⟨extra, queue⟩ := step.queues p
  by_cases isPri : sys.sched.pri sys.sched.curtask = p
  · -- the running task heads the queue, so it is the first one ahead
    have head := inv.current.head
    rw [isPri, list] at head
    cases ahead with
    | nil => exact absurd (Option.some.inj head).symm waits
    | cons first ahead =>
        obtain rfl : first = sys.sched.curtask := Option.some.inj head
        rw [list, List.cons_append] at nodup
        have gone := (List.nodup_cons.mp nodup).1
        rcases queue with ⟨quiet, queue⟩ | queue
        · rw [queue, list] at head'
          have none : turnEnded p sys.sched sys'.sched = [] := if_neg fun both => both.2 head'
          refine ⟨_, extra, by rw [none]; rfl, by rw [queue, list]; simp, fun interrupts => ?_⟩
          exact absurd (leaving_interrupted.mpr interrupts) quiet
        · rw [list, List.cons_append, List.erase_cons_head] at queue
          have ended : turnEnded p sys.sched sys'.sched = [sys.sched.curtask] := by
            refine if_pos ⟨isPri, fun same => gone ?_⟩
            rw [head', queue] at same
            cases ahead with
            | nil => exact absurd (Option.some.inj same).symm waits
            | cons second ahead => exact Option.some.inj same ▸ List.mem_cons_self
          refine ⟨ahead, extra, by rw [ended]; rfl, by rw [queue]; simp, fun _ _ => ended⟩
  · have none : turnEnded p sys.sched sys'.sched = [] := if_neg fun both => isPri both.1
    have absent : sys.sched.curtask ∉ lists (.tqueue p) := fun member =>
      isPri (inv.core.pri p _ member)
    have grown : lists' (.tqueue p) = lists (.tqueue p) ++ extra := by
      rcases queue with ⟨-, queue⟩ | queue
      · exact queue
      · rwa [List.erase_of_not_mem absent] at queue
    exact ⟨ahead, extra, by rw [none]; rfl, by rw [grown, list]; simp,
      fun _ same => absurd same isPri⟩

/-- After a step that leaves no task of higher priority than a waiting one, a task of its
priority runs, or the same one as before. -/
theorem Inv.next_pri (inv' : sys'.Inv lists' free')
    (step : QueuesStep sys.sched.curtask (sys.sched.pri sys.sched.curtask)
      (leaving sys.sched action) (appears sys.sched action) sys'.sched lists lists') (member : task ∈ lists' (.tqueue p))
    (overlooks : sys'.Overlooks task p) :
    action.interrupts = false ∧
        sys'.sched.pri sys'.sched.curtask = sys.sched.pri sys.sched.curtask ∨
      sys'.sched.pri sys'.sched.curtask = p := by
  rcases step.next with ⟨quiet, same, samePri⟩ | ⟨i, head, least⟩
  · refine .inl ⟨Bool.eq_false_iff.mpr fun interrupts => ?_, by rw [same, samePri]⟩
    exact quiet (leaving_interrupted.mpr interrupts)
  · right
    have isPri := inv'.core.pri i _ (List.mem_of_head? head)
    rw [isPri]
    rcases lt_trichotomy i p with less | same | more
    · have empty := overlooks.2 i less
      rw [inv'.core.queued.head, head] at empty
      exact absurd empty (Option.some_ne_none _)
    · exact same
    · rw [least p more] at member
      exact absurd member List.not_mem_nil

/-- While a task waits on its run queue, the turns of its priority are those of the tasks
ahead of it. -/
theorem Inv.turns_run (inv : sys.Inv lists free)
    (list : lists (.tqueue p) = ahead ++ task :: behind)
    (ran : runs System.step sys actions = some sys')
    (waits : Along System.step (fun sys _ => sys.sched.curtask ≠ task) sys actions) :
    ∃ lists' free' ahead' extra, sys'.Inv lists' free' ∧ ahead = turns p sys actions ++ ahead' ∧
      lists' (.tqueue p) = ahead' ++ task :: (behind ++ extra) := by
  induction actions generalizing sys lists free ahead behind with
  | nil =>
      obtain rfl := Option.some.inj ran
      exact ⟨lists, free, ahead, [], inv, rfl, by rw [list, List.append_nil]⟩
  | cons action rest ih =>
      obtain ⟨next, taken, ran⟩ := Option.bind_eq_some_iff.mp ran
      obtain ⟨between, free', inv', step⟩ := inv.queues_step taken
      obtain ⟨ahead', extra, rfl, list', -⟩ := inv.turn_step inv' step list waits.1
      obtain ⟨lists', free'', ahead'', extra', inv'', rfl, list''⟩ :=
        ih inv' list' ran (waits.2 next taken)
      refine ⟨lists', free'', ahead'', extra ++ extra', inv'', ?_, by rw [list'']; simp⟩
      rw [turns, taken, Option.elim_some, List.append_assoc]

/-- While a task waits on its run queue and none of higher priority could run, every
interruption but the first one ends the turn of a task ahead of it. -/
theorem Inv.interrupts_run (inv : sys.Inv lists free)
    (list : lists (.tqueue p) = ahead ++ task :: behind)
    (ran : runs System.step sys actions = some sys')
    (overlooked : Along System.step (fun sys _ => sys.Overlooks task p) sys actions)
    (last : sys'.Overlooks task p) :
    actions.countP Action.interrupts ≤
      ahead.length + if sys.sched.pri sys.sched.curtask = p then 0 else 1 := by
  induction actions generalizing sys lists free ahead behind with
  | nil => simp
  | cons action rest ih =>
      obtain ⟨next, taken, ran⟩ := Option.bind_eq_some_iff.mp ran
      obtain ⟨lists', free', inv', step⟩ := inv.queues_step taken
      obtain ⟨ahead', extra, rfl, list', ended⟩ := inv.turn_step inv' step list overlooked.1.1
      have along := overlooked.2 next taken
      have overlooks : next.Overlooks task p := by
        cases rest with
        | nil => exact Option.some.inj ran ▸ last
        | cons other rest => exact along.1
      have bound := ih inv' list' ran along
      have member : task ∈ lists' (.tqueue p) := list' ▸ List.mem_append_cons_self
      rw [List.countP_cons, List.length_append]
      rcases inv'.next_pri step member overlooks with ⟨quiet, same⟩ | same
      · rw [same] at bound
        simp only [quiet, Bool.false_eq_true, if_false]
        omega
      · rw [if_pos same] at bound
        by_cases interrupts : action.interrupts = true
        · by_cases isPri : sys.sched.pri sys.sched.curtask = p
          · have one := congrArg List.length (ended interrupts isPri)
            rw [List.length_singleton] at one
            simp only [interrupts, isPri, if_true]
            omega
          · simp only [interrupts, isPri, if_true, if_false]
            omega
        · simp only [interrupts, Bool.false_eq_true, if_false]
          omega

/-- The tasks of a priority take turns in the order of their run queue: in every run in
which a task of the queue does not run, the tasks that were ahead of it are those whose
turns have ended, in this order, and those that are still ahead.  Others have joined
behind it only. -/
theorem round_robin {counts : Nat → Int}
    (reached : Reachable (· = start counts) (fun s a s' => s.step a = some s') sys)
    (queue : sys.sched.tasks (.tqueue p) = ahead ++ task :: behind)
    (ran : runs System.step sys actions = some sys')
    (waits : Along System.step (fun sys _ => sys.sched.curtask ≠ task) sys actions) :
    ∃ ahead' joined, ahead = turns p sys actions ++ ahead' ∧
      sys'.sched.tasks (.tqueue p) = ahead' ++ task :: (behind ++ joined) := by
  obtain ⟨lists, free, inv⟩ := reached_inv reached
  rw [inv.core.queued.tasks] at queue
  obtain ⟨lists', free', ahead', joined, inv', turned, list⟩ := inv.turns_run queue ran waits
  exact ⟨ahead', joined, turned, (inv'.core.queued.tasks _).trans list⟩

/-- Three tasks of normal priority after the first tick. -/
def threeTasks : System :=
  (runs System.step (start fun _ => 0)
    [.call .taskAlloc, .call (.taskStart 2 17), .call .taskAlloc, .call (.taskStart 3 17),
      .tick]).getD (start fun _ => 0)

theorem threeTasks_reached :
    Reachable (· = start fun _ => 0) (fun s a s' => s.step a = some s') threeTasks := by
  have ran : (runs System.step (start fun _ => 0) [.call .taskAlloc, .call (.taskStart 2 17),
      .call .taskAlloc, .call (.taskStart 3 17), .tick]).isSome := by decide +kernel
  obtain ⟨sys, ran⟩ := Option.isSome_iff_exists.mp ran
  rw [threeTasks, ran]
  exact reachable_of_runs rfl ran

theorem threeTasks_queue : threeTasks.sched.tasks (.tqueue 17) = [2, 3] ++ 0 :: [] := by decide +kernel

theorem round_robin_third :
    ∃ sys', runs System.step threeTasks [.tick, .tick] = some sys' ∧
      ∃ ahead' joined, [2, 3] = turns 17 threeTasks [.tick, .tick] ++ ahead' ∧
        sys'.sched.tasks (.tqueue 17) = ahead' ++ 0 :: ([] ++ joined) := by
  have along : Along System.step (fun sys _ => sys.sched.curtask ≠ 0) threeTasks [.tick, .tick] := by
    decide +kernel
  obtain ⟨sys', ran⟩ := Option.isSome_iff_exists.mp
    (by decide +kernel : (runs System.step threeTasks [.tick, .tick]).isSome)
  exact ⟨sys', ran, round_robin threeTasks_reached threeTasks_queue ran along⟩

/-- A task waits no longer than its place in the run queue says: in every run in which it
does not run, and in which no task of higher priority could, there are at most as many ticks and
other interrupts as there were tasks ahead of it, and one more if it was a task of lower
priority that ran at first. -/
theorem bounded_wait {counts : Nat → Int}
    (reached : Reachable (· = start counts) (fun s a s' => s.step a = some s') sys)
    (queue : sys.sched.tasks (.tqueue p) = ahead ++ task :: behind)
    (ran : runs System.step sys actions = some sys')
    (overlooked : Along System.step (fun sys _ => sys.Overlooks task p) sys actions)
    (last : sys'.Overlooks task p) :
    actions.countP Action.interrupts ≤
      ahead.length + if sys.sched.pri sys.sched.curtask = p then 0 else 1 := by
  obtain ⟨lists, free, inv⟩ := reached_inv reached
  rw [inv.core.queued.tasks] at queue
  exact inv.interrupts_run queue ran overlooked last

/-- The first task waits for its second turn behind two others, and another one is started
meanwhile. -/
def secondTurn : List Action := [.tick, .call .taskAlloc, .call (.taskStart 4 17)]

theorem bounded_wait_third : secondTurn.countP Action.interrupts ≤ 2 + 0 := by
  have along : Along System.step (fun sys _ => sys.Overlooks 0 17) threeTasks secondTurn := by
    decide +kernel
  have last : ∀ sys' ∈ runs System.step threeTasks secondTurn, sys'.Overlooks 0 17 := by
    decide +kernel
  obtain ⟨sys', ran⟩ := Option.isSome_iff_exists.mp
    (by decide +kernel : (runs System.step threeTasks secondTurn).isSome)
  have bound := bounded_wait threeTasks_reached threeTasks_queue ran along
    (last sys' ran)
  have pri : threeTasks.sched.pri threeTasks.sched.curtask = 17 := by decide +kernel
  rwa [if_pos pri] at bound

end System

end Pegasos.Kernel.Sched
