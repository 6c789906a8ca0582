import Pegasos.Kernel.Sched.Semaphore

/-!
# Grants

Which task a semaphore is granted to, and which call of `sema_down` returns.  A task
is granted the semaphore when it finds the count positive, or when a `sema_up` takes
it off the queue.
-/

namespace Pegasos.Kernel.Sched

open Pegasos.Support
open Function (update)

/-- The semaphores with their history, and for every semaphore the tasks that were
granted it and the tasks whose calls of `sema_down` have returned, in this order. -/
structure GrantSystem where
  hist : SemaSystem
  grants : Nat → List Task
  returns : Nat → List Task

namespace GrantSystem

/-- The tasks that an action grants a semaphore to. -/
def granted (sched : Scheduler) (index : Nat) : Action → List Task
  | .call (.semaDown i) =>
      if i = index ∧ 0 ≤ int16 ((sched.semas index).count - 1) then [sched.curtask] else []
  | .call (.semaUp i) =>
      if i = index ∧ int16 ((sched.semas index).count + 1) ≤ 0 then
        (sched.links.head (.sema index)).toList
      else []
  | _ => []

variable (sys : GrantSystem)

/-- The running task. -/
abbrev curtask : Task := sys.hist.sys.sched.curtask

/-- A step, and what it adds to the history. -/
def step (action : Action) : Option GrantSystem :=
  (sys.hist.step action).map fun hist' =>
    { hist := hist'
      grants := fun i => sys.grants i ++ granted sys.hist.sys.sched i action
      returns := fun i => sys.returns i ++
        List.replicate ((sys.hist.begin action).count (hist'.sys.sched.curtask, i))
          hist'.sys.sched.curtask }

/-- Before any call. -/
def start (counts : Nat → Int) : GrantSystem :=
  ⟨.start counts, fun _ => [], fun _ => []⟩

/-- The invariant: a call that has not returned waits on the queue, or it has been granted
the semaphore. -/
structure Inv (counts : Nat → Int) (sys : GrantSystem) (lists : QueueId → List Task)
    (free : List Task) : Prop where
  hist : sys.hist.Inv counts lists free
  waiting : ∀ call ∈ sys.hist.inside, call.1 ≠ sys.curtask
  once : sys.hist.inside.Nodup
  grants : ∀ i task, (sys.grants i).count task = (sys.returns i).count task +
    if (task, i) ∈ sys.hist.inside ∧ task ∉ lists (.sema i) then 1 else 0

variable {sys} {sys' : GrantSystem} {counts : Nat → Int} {lists : QueueId → List Task}
variable {free : List Task}

theorem start_inv (initial : ∀ i, 0 ≤ counts i ∧ counts i < 0x8000) :
    (start counts).Inv counts System.startLists ((List.finRange MAX_TASK).drop 2) := by
  constructor
  · exact SemaSystem.start_inv initial
  · simp [start, SemaSystem.start]
  · exact List.nodup_nil
  · simp [start, SemaSystem.start]

theorem mem_begin (hist : SemaSystem) (action : Action) (task : Task) (i : Nat) :
    (task, i) ∈ hist.begin action ↔
      (task, i) ∈ hist.inside ∨ action = .call (.semaDown i) ∧ task = hist.sys.sched.curtask := by
  unfold SemaSystem.begin
  split
  · rename_i index
    constructor
    · intro member
      rcases List.mem_cons.mp member with same | before
      · obtain ⟨rfl, rfl⟩ := Prod.mk.inj same
        exact .inr ⟨rfl, rfl⟩
      · exact .inl before
    · rintro (before | ⟨same, rfl⟩)
      · exact List.mem_cons_of_mem _ before
      · obtain rfl := Call.semaDown.inj (Action.call.inj same)
        exact List.mem_cons_self
  · rename_i other
    constructor
    · exact .inl
    · rintro (before | ⟨same, -⟩)
      · exact before
      · exact absurd same (other i)

/-- The running task is inside of no `sema_down` when it calls. -/
theorem Inv.begin_once (inv : sys.Inv counts lists free) (action : Action) :
    (sys.hist.begin action).Nodup := by
  unfold SemaSystem.begin
  split
  · refine List.nodup_cons.mpr ⟨fun member => ?_, inv.once⟩
    exact inv.waiting _ member rfl
  · exact inv.once

/-- Whoever is granted the semaphore is then inside of `sema_down` and not on its queue. -/
theorem Inv.granted_count (inv : sys.Inv counts lists free) {action : Action}
    {lists' : QueueId → List Task} (guarded : sys.hist.Guarded action)
    (waiters : System.WaitersStep sys.hist.sys.sched lists lists' action) (i : Nat) (task : Task) :
    ((granted sys.hist.sys.sched i action).count task +
        if (task, i) ∈ sys.hist.inside ∧ task ∉ lists (.sema i) then 1 else 0) =
      if (task, i) ∈ sys.hist.begin action ∧ task ∉ lists' (.sema i) then 1 else 0 := by
  have running : sys.curtask ∉ lists (.sema i) :=
    inv.hist.sys.not_waiting (show System.Waits (.sema i) from trivial)
  have outside : (sys.curtask, i) ∉ sys.hist.inside := fun member => inv.waiting _ member rfl
  simp only [mem_begin]
  rcases inv.hist.queue_step guarded waiters i with
    ⟨rfl, negative, list⟩ | ⟨rfl, negative, list⟩ | ⟨notDown, notUp, list⟩
  · rw [list]
    have none : granted sys.hist.sys.sched i (.call (.semaDown i)) = [] :=
      if_neg fun both => absurd both.2 (not_le.mpr negative)
    rw [none]
    by_cases isTask : task = sys.curtask
    · subst isTask
      simp [outside]
    · simp [isTask]
  · have popped : granted sys.hist.sys.sched i (.call (.semaUp i)) =
        (lists (.sema i)).head?.toList := by
      rw [← inv.hist.sys.core.queued.head]
      exact if_pos ⟨rfl, negative⟩
    rw [popped, list]
    have distinct := inv.hist.sys.core.queued.nodup (.sema i)
    have called := inv.hist.inside i
    cases before : lists (.sema i) with
    | nil => simp
    | cons next rest =>
        rw [before] at distinct called
        have absent := (List.nodup_cons.mp distinct).1
        by_cases isNext : task = next
        · subst isNext
          simp [absent, called task List.mem_cons_self]
        · simp [isNext, Ne.symm isNext]
  · rw [list]
    cases action with
    | call call =>
        cases call with
        | semaDown index =>
            by_cases same : index = i
            · subst same
              have one : granted sys.hist.sys.sched index (.call (.semaDown index)) =
                  [sys.curtask] := if_pos ⟨rfl, notDown rfl⟩
              rw [one]
              by_cases isTask : task = sys.curtask
              · subst isTask
                simp [outside, running]
              · simp [isTask, Ne.symm isTask]
            · simp [granted, same]
        | semaUp index =>
            have none : granted sys.hist.sys.sched i (.call (.semaUp index)) = [] := by
              apply if_neg
              rintro ⟨rfl, negative⟩
              exact absurd (notUp rfl) (not_lt.mpr negative)
            simp [none]
        | _ => simp [granted]
    | _ => simp [granted]

theorem Inv.step (inv : sys.Inv counts lists free) {action : Action}
    (guarded : sys.hist.Guarded action) (taken : sys.step action = some sys') :
    ∃ lists' free', sys'.Inv counts lists' free' := by
  obtain ⟨hist', ran, rfl⟩ := Option.map_eq_some_iff.mp taken
  obtain ⟨lists', free', inv', waiters, -⟩ := inv.hist.step guarded ran
  obtain ⟨next, -, rfl⟩ := Option.map_eq_some_iff.mp ran
  have running : ∀ i, next.sched.curtask ∉ lists' (.sema i) := fun i =>
    inv'.sys.not_waiting (show System.Waits (.sema i) from trivial)
  have once := inv.begin_once action
  refine ⟨lists', free', inv', ?_, once.filter _, ?_⟩
  · intro call member
    simpa using (List.mem_filter.mp member).2
  · intro i task
    have before := inv.grants i task
    have change := inv.granted_count guarded waiters i task
    have counted : (sys.hist.begin action).count (task, i) =
        if (task, i) ∈ sys.hist.begin action then 1 else 0 := once.count
    simp only [List.count_append, List.count_replicate, List.mem_filter]
    by_cases isRunning : task = next.sched.curtask
    · subst isRunning
      simp only [running i, not_false_eq_true, and_true] at change
      simp [counted]
      omega
    · simp only [Ne.symm isRunning, isRunning, beq_iff_eq, if_false, ne_eq, not_false_eq_true,
        decide_true, and_true]
      omega

/-- Every call that has returned was granted the semaphore before. -/
theorem Inv.returns_le (inv : sys.Inv counts lists free) (i : Nat) (task : Task) :
    (sys.returns i).count task ≤ (sys.grants i).count task := by
  rw [inv.grants]
  exact Nat.le_add_right _ _

end GrantSystem

end Pegasos.Kernel.Sched
