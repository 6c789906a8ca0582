import Pegasos.Kernel.Sched.System

/-!
# Timed sleep

`task_wake` looks at the head of the sleeping queue and compares its due tick for
equality with the tick count, so sleepers are woken on time as long as they are
queued in the order in which they are due.  `task_sleep` puts a task in front of
the first sleeper or behind the last one, whatever is in between.
-/

namespace Pegasos.Kernel.Sched

open Pegasos.Support

/-- No sleeper is due yet, and the sleepers are in the order in which they are due. -/
structure Waiting (sched : Scheduler) (sleepers : List Task) : Prop where
  ordered : sleepers.Pairwise fun task later => sched.due task ≤ sched.due later
  notDue : ∀ task ∈ sleepers, sched.tickcnt < sched.due task ∧ sched.due task < 0x100000000

variable {sched sched' : Scheduler} {sleepers : List Task} {task : Task}
variable {lists lists' : QueueId → List Task}

theorem mem_sleepList {due : Task → Nat} {other : Task} :
    other ∈ sleepList due task sleepers ↔ other = task ∨ other ∈ sleepers := by
  cases sleepers with
  | nil => simp [sleepList]
  | cons p rest =>
      simp only [sleepList]
      split <;> simp only [List.mem_cons, List.mem_append, List.not_mem_nil, or_false]
      tauto

/-- A task that is due before the first sleeper or not before any of them is put
where it belongs. -/
theorem sleepList_ordered {due : Task → Nat}
    (ordered : sleepers.Pairwise fun task later => due task ≤ due later)
    (fits : (∀ head, sleepers.head? = some head → due task < due head) ∨
      ∀ other ∈ sleepers, due other ≤ due task) :
    (sleepList due task sleepers).Pairwise fun task later => due task ≤ due later := by
  cases sleepers with
  | nil => exact List.pairwise_singleton _ _
  | cons p rest =>
      have first := (List.pairwise_cons.mp ordered).1
      simp only [sleepList]
      split
      · rename_i earlier
        refine List.pairwise_cons.mpr ⟨fun other member => ?_, ordered⟩
        rcases List.mem_cons.mp member with rfl | member
        · exact earlier.le
        · exact earlier.le.trans (first other member)
      · rename_i notEarlier
        have last := fits.resolve_left fun isFirst => notEarlier (isFirst p rfl)
        refine List.pairwise_append.mpr ⟨ordered, List.pairwise_singleton _ _, ?_⟩
        intro other member task' isTask
        rw [List.mem_singleton.mp isTask]
        exact last other member

theorem Waiting.undisturbed (waiting : Waiting sched (lists .sleeping))
    (same : System.Undisturbed sched sched' lists lists') : Waiting sched' (lists' .sleeping) where
  ordered := by
    refine (waiting.ordered.sublist same.sleeping).imp_of_mem fun member member' le => ?_
    rw [same.due _ (same.sleeping.subset member), same.due _ (same.sleeping.subset member')]
    exact le
  notDue task member := by
    rw [same.tickcnt, same.due task (same.sleeping.subset member)]
    exact waiting.notDue task (same.sleeping.subset member)

/-- A tick wakes all sleepers that are due, and they are the first ones. -/
theorem Waiting.ticked (waiting : Waiting sched (lists .sleeping))
    (ticked : System.Ticked sched sched' lists lists') : Waiting sched' (lists' .sleeping) := by
  obtain ⟨tickcnt, due, ⟨woken, split⟩, later⟩ := ticked
  have ordered := waiting.ordered
  rw [split] at ordered
  have rest := (List.pairwise_append.mp ordered).2.1
  refine ⟨due ▸ rest, fun task member => ?_⟩
  cases remaining : lists' .sleeping with
  | nil =>
      rw [remaining] at member
      simp at member
  | cons head tail =>
      rw [remaining] at rest member later split
      have bound := waiting.notDue head (by simp [split])
      have notNow := later head rfl
      have after : sched.due head ≤ sched.due task := by
        rcases List.mem_cons.mp member with rfl | member
        · exact le_rfl
        · exact (List.pairwise_cons.mp rest).1 task member
      have upper := (waiting.notDue task (by
        rw [split]
        exact List.mem_append_right _ member)).2
      rw [due] at notNow ⊢
      omega

/-- `task_sleep` keeps the order when the new sleeper belongs at one of the ends. -/
theorem Waiting.slept (waiting : Waiting sched (lists .sleeping)) {ticks : UInt32}
    (slept : System.Slept ticks sched sched' lists lists') (awake : sched.curtask ∉ lists .sleeping)
    (noWrap : sched.tickcnt + max 1 ticks.toNat < 0x100000000)
    (fits : (∀ head, (lists .sleeping).head? = some head →
        dueAfter sched ticks.toNat < sched.due head) ∨
      ∀ other ∈ lists .sleeping, sched.due other ≤ dueAfter sched ticks.toNat) :
    Waiting sched' (lists' .sleeping) := by
  obtain ⟨tickcnt, due, sleeping⟩ := slept
  have self : sched'.due sched.curtask = dueAfter sched ticks.toNat := by
    rw [due, Function.update_self]
  have others : ∀ task ∈ lists .sleeping, sched'.due task = sched.due task := by
    rintro task member
    rw [due, Function.update_of_ne]
    rintro rfl
    exact awake member
  have isDue : dueAfter sched ticks.toNat = sched.tickcnt + max 1 ticks.toNat := by
    have small : (if ticks.toNat = 0 then 1 else ticks.toNat) = max 1 ticks.toNat := by
      split <;> omega
    rw [dueAfter, small, Nat.mod_eq_of_lt noWrap]
  rw [sleeping]
  refine ⟨sleepList_ordered ?_ ?_, fun task member => ?_⟩
  · refine waiting.ordered.imp_of_mem fun member member' le => ?_
    rw [others _ member, others _ member']
    exact le
  · refine fits.imp (fun first head isHead => ?_) (fun last other member => ?_)
    · rw [self, others head (List.mem_of_head? isHead)]
      exact first head isHead
    · rw [self, others other member]
      exact last other member
  · rw [tickcnt]
    rcases mem_sleepList.mp member with rfl | member
    · rw [self, isDue]
      omega
    · rw [others task member]
      exact waiting.notDue task member

/-! ## Runs -/

namespace System

/-- The due tick of a task that goes to sleep does not wrap around. -/
def NoWrap (sys : System) : Action → Prop
  | .call (.taskSleep ticks) => sys.sched.tickcnt + max 1 ticks.toNat < 0x100000000
  | _ => True

/-- A task that goes to sleep is due before the first sleeper, or not before any
sleeper. -/
def AtEnd (sys : System) : Action → Prop
  | .call (.taskSleep ticks) =>
      (∀ head, sys.sched.links.head .sleeping = some head →
        dueAfter sys.sched ticks.toNat < sys.sched.due head) ∨
      ∀ task, sys.sched.links.owner task = some .sleeping →
        sys.sched.due task ≤ dueAfter sys.sched ticks.toNat
  | _ => True

instance (sys : System) (action : Action) : Decidable (sys.NoWrap action) := by
  unfold NoWrap
  split <;> infer_instance

instance (sys : System) (action : Action) : Decidable (sys.AtEnd action) := by
  unfold AtEnd
  split <;> infer_instance

/-- What a tick does in this state: afterwards no sleeper is due, and every task
that has been taken off the sleeping queue is due now and ready on its run queue. -/
def WakesOnTime (sys : System) : Prop :=
  ∃ sched lists lists', sys.atIswitch .tick = some sched ∧
    Queued sys.sched.links lists ∧ Queued sched.links lists' ∧
    sched.tickcnt = (sys.sched.tickcnt + 1) % 0x100000000 ∧
    (∀ task ∈ lists' .sleeping, ¬sched.due task ≤ sched.tickcnt) ∧
    ∀ task ∈ lists .sleeping, task ∉ lists' .sleeping →
      sched.due task = sched.tickcnt ∧ sched.state task = .ready ∧
        task ∈ lists' (.tqueue (sched.pri task))

variable {sys sys' : System} {lists : QueueId → List Task} {free : List Task}

/-- Every step whose sleeper belongs at an end keeps the order. -/
theorem Inv.waiting_step (inv : sys.Inv lists free)
    (waiting : Waiting sys.sched (lists .sleeping)) {action : Action}
    (guarded : sys.NoWrap action ∧ sys.AtEnd action) (taken : sys.step action = some sys') :
    ∃ lists' free', sys'.Inv lists' free' ∧ Waiting sys'.sched (lists' .sleeping) := by
  obtain ⟨lists', free', inv', sleepers, -⟩ := inv.step taken
  refine ⟨lists', free', inv', ?_⟩
  cases action with
  | tick => exact waiting.ticked sleepers
  | call c =>
      by_cases sleeps : ∃ ticks, c = .taskSleep ticks
      · obtain ⟨ticks, rfl⟩ := sleeps
        have queued := inv.core.queued
        refine waiting.slept sleepers (fun asleep => ?_) guarded.1 ?_
        · have place := queued.queue_unique asleep inv.current.member
          simp at place
        · refine guarded.2.imp (fun first head isHead => first head ?_)
            fun last other member => last other ((queued.owner other .sleeping).mpr member)
          rw [queued.head, isHead]
      · have same : Undisturbed sys.sched sys'.sched lists lists' := by
          cases c with
          | taskSleep ticks => exact absurd ⟨ticks, rfl⟩ sleeps
          | _ => exact sleepers
        exact waiting.undisturbed same
  | _ => exact waiting.undisturbed sleepers

/-- In every run in which each task that goes to sleep is due before the first
sleeper or not before any of them, every tick wakes exactly the tasks that are due. -/
theorem task_wake_on_time {counts : Nat → Int}
    (reached : Reached (· = start counts) (fun s a s' => s.step a = some s')
      (fun s a => s.NoWrap a ∧ s.AtEnd a) sys) : sys.WakesOnTime := by
  obtain ⟨lists, free, inv, waiting⟩ := reached.invariant
    (fun sys => ∃ lists free, sys.Inv lists free ∧ Waiting sys.sched (lists .sleeping))
    (by
      rintro _ rfl
      exact ⟨_, _, start_inv counts, List.Pairwise.nil, by simp [startLists]⟩)
    (by
      rintro sys sys' action ⟨lists, free, inv, waiting⟩ guarded taken
      exact inv.waiting_step waiting guarded taken)
  obtain ⟨woken, rest, links, state, ran, split, core, woke, later⟩ := inv.tick_spec
  have sleeping : wakeLists sys.sched.pri lists woken rest .sleeping = rest := if_pos rfl
  rw [← sleeping] at split later
  have ticked : Ticked sys.sched
      { sys.sched with
        tickcnt := (sys.sched.tickcnt + 1) % 0x100000000, links := links, state := state }
      lists (wakeLists sys.sched.pri lists woken rest) := ⟨rfl, rfl, ⟨woken, split⟩, later⟩
  have after := waiting.ticked ticked
  refine ⟨_, lists, _, by rw [atIswitch, ran, Outcome.value?_ok], inv.core.queued, core.queued,
    rfl, fun task member => not_le.mpr (after.notDue task member).1, fun task member gone => ?_⟩
  have isWoken : task ∈ woken := by
    rw [split] at member
    exact (List.mem_append.mp member).resolve_right gone
  obtain ⟨due, ready⟩ := woke task isWoken
  exact ⟨due, ready, by simp [wakeLists, isWoken]⟩

/-- Two sleepers that go to sleep in the opposite order. -/
theorem task_wake_on_time_two_sleepers :
    ∃ sys, runs step (start fun _ => 0)
        [.call .taskAlloc, .call (.taskStart 2 17), .call (.taskSleep 5), .call (.taskSleep 3),
          .tick, .tick] = some sys ∧ sys.sched.tickcnt = 2 ∧ sys.WakesOnTime := by
  have ran : ((runs step (start fun _ => 0)
      [.call .taskAlloc, .call (.taskStart 2 17), .call (.taskSleep 5), .call (.taskSleep 3),
        .tick, .tick]).map (·.sched.tickcnt)) = some 2 := by
    decide +kernel
  have guarded : Along step (fun s a => s.NoWrap a ∧ s.AtEnd a) (start fun _ => 0)
      [.call .taskAlloc, .call (.taskStart 2 17), .call (.taskSleep 5), .call (.taskSleep 3),
        .tick, .tick] := by
    decide +kernel
  obtain ⟨sys, ran, ticks⟩ := Option.map_eq_some_iff.mp ran
  exact ⟨sys, ran, ticks, task_wake_on_time (reached_of_runs rfl guarded ran)⟩

/-- Three tasks sleep for 1, 3 and 2 ticks.  The third is queued behind the second
and is not woken by the second tick. -/
theorem task_sleep_misses_middle :
    ∃ sys, Reached (· = start fun _ => 0) (fun s a s' => s.step a = some s') NoWrap sys ∧
      ¬sys.WakesOnTime := by
  have ran : ((runs step (start fun _ => 0)
      [.call .taskAlloc, .call (.taskStart 2 17), .call .taskAlloc, .call (.taskStart 3 17),
        .call (.taskSleep 1), .call (.taskSleep 3), .call (.taskSleep 2), .tick]).bind fun sys =>
          (sys.atIswitch .tick).map fun sched =>
            (sys, sched.tickcnt, sched.due 3, sched.links.owner 3)).map Prod.snd =
      some (2, 2, some .sleeping) := by
    decide +kernel
  have guarded : Along step NoWrap (start fun _ => 0)
      [.call .taskAlloc, .call (.taskStart 2 17), .call .taskAlloc, .call (.taskStart 3 17),
        .call (.taskSleep 1), .call (.taskSleep 3), .call (.taskSleep 2), .tick] := by
    decide +kernel
  obtain ⟨⟨sys, values⟩, found, rfl⟩ := Option.map_eq_some_iff.mp ran
  obtain ⟨_, ran, found⟩ := Option.bind_eq_some_iff.mp found
  obtain ⟨sched, reaches, same⟩ := Option.map_eq_some_iff.mp found
  obtain ⟨rfl, ticks, due, owner⟩ := Prod.mk.inj same |>.imp_right fun same => by
    simpa only [Prod.mk.injEq] using same
  refine ⟨_, reached_of_runs rfl guarded ran, ?_⟩
  rintro ⟨sched', lists, lists', reaches', -, queued, -, notDue, -⟩
  obtain rfl := Option.some.inj (reaches.symm.trans reaches')
  refine notDue 3 ((queued.owner 3 .sleeping).mp owner) ?_
  rw [ticks, due]

end System

end Pegasos.Kernel.Sched
