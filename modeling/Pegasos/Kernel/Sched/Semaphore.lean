import Pegasos.Kernel.Sched.System

/-!
# Semaphores

The scheduler with a history of the calls of `sema_down` and `sema_up`: how many of
them there were, which calls of `sema_down` have not returned, and the tasks that
were blocked by them and released, in this order.  A call returns when its task
runs again.
-/

namespace Pegasos.Kernel.Sched

open Pegasos.Support
open Function (update)

/-! ## The semaphores after a step -/

namespace Scheduler

variable {sched sched' : Scheduler}

theorem yieldToRunnable_semas (ran : sched.yieldToRunnable = .ok sched') :
    sched'.semas = sched.semas := by
  unfold yieldToRunnable at ran
  split at ran
  · obtain rfl := Outcome.ok.inj ran
    rfl
  · simp at ran

theorem taskWakeLoop_semas {fuel : Nat} (ran : taskWakeLoop fuel sched = .ok sched') :
    sched'.semas = sched.semas := by
  induction fuel generalizing sched with
  | zero => simp [taskWakeLoop] at ran
  | succ fuel ih =>
      simp only [taskWakeLoop] at ran
      split at ran
      · obtain rfl := Outcome.ok.inj ran
        rfl
      · split at ran
        · exact (ih ran).trans rfl
        · obtain rfl := Outcome.ok.inj ran
          rfl

theorem taskSleep_semas {ticks : Nat} (ran : sched.taskSleep ticks = .ok sched') :
    sched'.semas = sched.semas := by
  simp only [taskSleep] at ran
  split at ran
  · exact (yieldToRunnable_semas ran).trans rfl
  · split at ran
    · simp at ran
    · exact (yieldToRunnable_semas ran).trans rfl

theorem taskExit_semas (ran : sched.taskExit = .ok sched') : sched'.semas = sched.semas := by
  simp only [taskExit] at ran
  split at ran <;> exact (yieldToRunnable_semas ran).trans rfl

theorem semaTake_semas {index : Nat} (ran : sched.semaTake index = .ok sched') :
    sched'.semas = (sched.setCount index ((sched.semas index).count - 1)).semas := by
  simp only [semaTake] at ran
  split at ran
  · exact (yieldToRunnable_semas ran).trans rfl
  · obtain rfl := Outcome.ok.inj ran
    rfl

/-- What `sema_down` returns comes from its second part. -/
theorem semaDown_take {index : Nat} (ran : sched.semaDown index = .ok sched') :
    sched.semaTake index = .ok sched' := by
  simp only [semaDown] at ran
  split at ran
  · simp at ran
  · split at ran
    · exact ran
    · split at ran
      · simp at ran
      · simp at ran
      · exact ran

theorem semaUp_semas {index : Nat} (ran : sched.semaUp index = .ok sched') :
    sched'.semas = (sched.setCount index ((sched.semas index).count + 1)).semas := by
  simp only [semaUp] at ran
  split at ran
  · simp at ran
  · split at ran
    · split at ran
      · simp at ran
      · obtain rfl := Outcome.ok.inj ran
        rfl
    · obtain rfl := Outcome.ok.inj ran
      rfl

end Scheduler

namespace System

variable {sys sys' : System}

theorem run_some {outcome : Outcome Scheduler} (ran : sys.run outcome = some sys') :
    outcome = .ok sys'.sched := by
  simp only [run, Option.map_eq_some_iff] at ran
  obtain ⟨sched, isOk, rfl⟩ := ran
  exact Outcome.value?_eq_some.mp isOk

/-- The semaphores after a step. -/
def semasAfter (sched : Scheduler) : Action → Nat → Semaph
  | .call (.semaDown index) => (sched.setCount index ((sched.semas index).count - 1)).semas
  | .call (.semaUp index) => (sched.setCount index ((sched.semas index).count + 1)).semas
  | _ => sched.semas

theorem call_semas {call : Call} (taken : sys.call call = some sys') :
    sys'.sched.semas = semasAfter sys.sched (.call call) := by
  cases call with
  | taskAlloc =>
      simp only [System.call, Scheduler.taskAlloc] at taken
      cases free : sys.sched.tskFreel with
      | none =>
          simp only [free, Option.some.injEq] at taken
          subst taken
          rfl
      | some task =>
          simp only [free, Option.some.injEq] at taken
          subst taken
          rfl
  | taskFree task =>
      simp only [System.call, Option.ite_none_right_eq_some, Option.some.injEq] at taken
      obtain ⟨-, rfl⟩ := taken
      rfl
  | taskStart task pri =>
      simp only [System.call, Option.ite_none_right_eq_some, Option.some.injEq] at taken
      obtain ⟨-, rfl⟩ := taken
      rfl
  | addHandler intr task =>
      simp only [System.call, Option.ite_none_right_eq_some, Option.some.injEq] at taken
      obtain ⟨-, rfl⟩ := taken
      rfl
  | schAsync task pri =>
      simp only [System.call, Option.ite_none_right_eq_some, Option.some.injEq] at taken
      obtain ⟨-, rfl⟩ := taken
      rfl
  | semaDown index => exact Scheduler.semaTake_semas (Scheduler.semaDown_take (run_some taken))
  | semaUp index => exact Scheduler.semaUp_semas (run_some taken)
  | taskBlock index => exact (Scheduler.yieldToRunnable_semas (run_some taken)).trans rfl
  | taskUnblock task =>
      cases task with
      | none =>
          obtain rfl := Option.some.inj taken
          rfl
      | some task =>
          simp only [System.call, Option.ite_none_left_eq_some, Option.some.injEq] at taken
          obtain ⟨-, rfl⟩ := taken
          simp only [Scheduler.taskUnblock]
          split <;> rfl
  | taskSleep ticks => exact Scheduler.taskSleep_semas (run_some taken)
  | markFreeing =>
      simp only [System.call, Option.ite_none_left_eq_some, Option.some.injEq] at taken
      obtain ⟨-, rfl⟩ := taken
      rfl
  | taskExit =>
      simp only [System.call, Option.ite_none_left_eq_some] at taken
      exact Scheduler.taskExit_semas (run_some taken.2)

theorem step_semas {action : Action} (taken : sys.step action = some sys') :
    sys'.sched.semas = semasAfter sys.sched action := by
  cases action with
  | tick =>
      obtain ⟨before, reaches, taken⟩ := Option.bind_eq_some_iff.mp taken
      have ticked : before.semas = sys.sched.semas :=
        (Scheduler.taskWakeLoop_semas (Outcome.value?_eq_some.mp reaches)).trans rfl
      exact ((Scheduler.yieldToRunnable_semas (run_some taken)).trans rfl).trans ticked
  | intr intr =>
      obtain ⟨before, reaches, taken⟩ := Option.bind_eq_some_iff.mp taken
      simp only [atIswitch, Option.ite_none_left_eq_some, Option.map_eq_some_iff] at reaches
      obtain ⟨-, task, -, rfl⟩ := reaches
      exact (Scheduler.yieldToRunnable_semas (run_some taken)).trans rfl
  | intrEnd intr =>
      simp only [step, Option.ite_none_right_eq_some] at taken
      exact Scheduler.taskExit_semas (run_some taken.2)
  | call call =>
      simp only [step, Option.ite_none_left_eq_some] at taken
      exact call_semas taken.2
  | idlePick =>
      simp only [step, Option.ite_none_right_eq_some, Option.some.injEq] at taken
      obtain ⟨-, rfl⟩ := taken
      rfl
  | idleYield =>
      simp only [step, Option.ite_none_right_eq_some, Option.map_eq_some_iff] at taken
      obtain ⟨-, next, -, rfl⟩ := taken
      rfl

end System

/-! ## The history of the calls -/

/-- The scheduler, and for every semaphore: the number of calls of `sema_down` and
`sema_up`, of the calls of `sema_down` that have returned, and the tasks that were
put on its queue and taken off it, in this order.  `inside` are the calls of
`sema_down` that have not returned. -/
structure SemaSystem where
  sys : System
  downs : Nat → Nat
  ups : Nat → Nat
  returned : Nat → Nat
  inside : List (Task × Nat)
  blocked : Nat → List Task
  released : Nat → List Task

namespace SemaSystem

variable (hist : SemaSystem)

/-- The tasks that are on the queue of a semaphore in one state and not in another. -/
def arrivals (index : Nat) (before after : Scheduler) : List Task :=
  (List.finRange MAX_TASK).filter fun task =>
    before.links.owner task ≠ some (.sema index) ∧ after.links.owner task = some (.sema index)

/-- The calls that are inside of `sema_down` when an action begins. -/
def begin : Action → List (Task × Nat)
  | .call (.semaDown index) => (hist.sys.sched.curtask, index) :: hist.inside
  | _ => hist.inside

/-- A step, and what it adds to the history. -/
def step (action : Action) : Option SemaSystem :=
  (hist.sys.step action).map fun sys' =>
    { sys := sys'
      downs := fun i => hist.downs i + if action = .call (.semaDown i) then 1 else 0
      ups := fun i => hist.ups i + if action = .call (.semaUp i) then 1 else 0
      returned := fun i => hist.returned i + (hist.begin action).count (sys'.sched.curtask, i)
      inside := (hist.begin action).filter fun call => call.1 ≠ sys'.sched.curtask
      blocked := fun i => hist.blocked i ++ arrivals i hist.sys.sched sys'.sched
      released := fun i => hist.released i ++ arrivals i sys'.sched hist.sys.sched }

/-- Before any call. -/
def start (counts : Nat → Int) : SemaSystem :=
  ⟨.start counts, fun _ => 0, fun _ => 0, fun _ => 0, [], fun _ => [], fun _ => []⟩

/-- The queue of a task is that of a semaphore. -/
def onSema : Option QueueId → Bool
  | some (.sema _) => true
  | _ => false

/-- The count of a semaphore is a 16-bit `int`, and only `sema_up` takes tasks off its
queue. -/
def Guarded : Action → Prop
  | .call (.semaUp index) => (hist.sys.sched.semas index).count < 0x7FFF
  | .call (.taskUnblock (some task)) => onSema (hist.sys.sched.links.owner task) = false
  | _ => True

instance (action : Action) : Decidable (hist.Guarded action) := by
  unfold Guarded
  split <;> infer_instance

/-- What holds of the semaphores, the lists of the queues given. -/
structure Inv (counts : Nat → Int) (hist : SemaSystem) (lists : QueueId → List Task)
    (free : List Task) : Prop where
  sys : hist.sys.Inv lists free
  sig : ∀ i, (hist.sys.sched.semas i).sig = SEMA_SIG
  count : ∀ i, (hist.sys.sched.semas i).count = counts i - hist.downs i + hist.ups i
  small : ∀ i, (hist.sys.sched.semas i).count ≤ 0x7FFF
  queue : ∀ i, ((lists (.sema i)).length : Int) = max 0 (-(hist.sys.sched.semas i).count)
  order : ∀ i, hist.blocked i = hist.released i ++ lists (.sema i)
  inside : ∀ i, ∀ task ∈ lists (.sema i), (task, i) ∈ hist.inside
  calls : ∀ i, hist.downs i = hist.returned i + (hist.inside.filter fun call => call.2 = i).length

variable {hist} {hist' : SemaSystem} {counts : Nat → Int} {lists : QueueId → List Task}
variable {free : List Task}

theorem start_inv (initial : ∀ i, 0 ≤ counts i ∧ counts i < 0x8000) :
    (start counts).Inv counts System.startLists ((List.finRange MAX_TASK).drop 2) := by
  have none : ∀ i, System.startLists (.sema i) = [] := fun i => by
    rw [List.eq_nil_iff_forall_not_mem]
    intro task member
    rcases System.mem_startLists.mp member with ⟨same, -⟩ | ⟨same, -⟩ <;> simp at same
  have count : ∀ i, ((start counts).sys.sched.semas i).count = counts i := fun _ => rfl
  constructor
  · exact System.start_inv counts
  · exact fun _ => rfl
  · intro i
    rw [count]
    simp [start]
  · intro i
    rw [count]
    have bounds := initial i
    omega
  · intro i
    rw [none, count]
    have bounds := initial i
    simp only [List.length_nil]
    omega
  · intro i
    rw [none]
    rfl
  · simp [none]
  · intro i
    rfl

/-- What a step does to the queue of a semaphore: a task is put behind the others by
`sema_down` or the first one is taken off by `sema_up`. -/
theorem Inv.queue_step (inv : hist.Inv counts lists free) {action : Action}
    {lists' : QueueId → List Task} (guarded : hist.Guarded action)
    (waiters : System.WaitersStep hist.sys.sched lists lists' action) (i : Nat) :
    (action = .call (.semaDown i) ∧ int16 ((hist.sys.sched.semas i).count - 1) < 0 ∧
        lists' (.sema i) = lists (.sema i) ++ [hist.sys.sched.curtask]) ∨
      (action = .call (.semaUp i) ∧ int16 ((hist.sys.sched.semas i).count + 1) ≤ 0 ∧
        lists' (.sema i) = (lists (.sema i)).tail) ∨
      ((action = .call (.semaDown i) → 0 ≤ int16 ((hist.sys.sched.semas i).count - 1)) ∧
        (action = .call (.semaUp i) → 0 < int16 ((hist.sys.sched.semas i).count + 1)) ∧
        lists' (.sema i) = lists (.sema i)) := by
  have after := waiters (.sema i) trivial
  by_cases down : action = .call (.semaDown i)
  · subst down
    simp only [System.waitersAfter, true_and] at after
    by_cases negative : int16 ((hist.sys.sched.semas i).count - 1) < 0
    · rw [if_pos negative] at after
      exact .inl ⟨rfl, negative, after⟩
    · rw [if_neg negative] at after
      exact .inr (.inr ⟨fun _ => not_lt.mp negative, by simp, after⟩)
  · by_cases up : action = .call (.semaUp i)
    · subst up
      simp only [System.waitersAfter, true_and] at after
      by_cases negative : int16 ((hist.sys.sched.semas i).count + 1) ≤ 0
      · rw [if_pos negative] at after
        exact .inr (.inl ⟨rfl, negative, after⟩)
      · rw [if_neg negative] at after
        exact .inr (.inr ⟨by simp, fun _ => not_le.mp negative, after⟩)
    · refine .inr (.inr ⟨fun same => absurd same down, fun same => absurd same up, ?_⟩)
      rw [after]
      cases action with
      | call call =>
          cases call with
          | semaDown index =>
              have ne : ¬(.sema i : QueueId) = .sema index := by
                rintro ⟨⟩
                exact down rfl
              simp only [System.waitersAfter, ne, false_and, if_false]
          | semaUp index =>
              have ne : ¬(.sema i : QueueId) = .sema index := by
                rintro ⟨⟩
                exact up rfl
              simp only [System.waitersAfter, ne, false_and, if_false]
          | taskUnblock task =>
              cases task with
              | none => rfl
              | some task =>
                  have absent : task ∉ lists (.sema i) := by
                    intro member
                    have elsewhere : onSema (hist.sys.sched.links.owner task) = false := guarded
                    rw [(inv.sys.core.queued.owner task _).mpr member] at elsewhere
                    exact Bool.noConfusion elsewhere
                  simp only [System.waitersAfter, List.erase_of_not_mem absent, ite_self]
          | taskBlock index => simp [System.waitersAfter]
          | _ => rfl
      | _ => rfl

/-- The counts stay far from the lower end of an `int`. -/
theorem Inv.count_low (inv : hist.Inv counts lists free) (i : Nat) :
    -32 ≤ (hist.sys.sched.semas i).count := by
  have length := inv.queue i
  have bound := (inv.sys.core.queued.nodup (.sema i)).length_le_card
  rw [Fintype.card_fin, MAX_TASK] at bound
  omega

theorem int16_eq {value : Int} (low : -0x8000 ≤ value) (high : value < 0x8000) :
    int16 value = value := by
  rw [int16, Int.bmod_def]
  omega

/-- The count after a step. -/
theorem Inv.count_step (inv : hist.Inv counts lists free) {action : Action}
    (guarded : hist.Guarded action) (i : Nat) :
    (System.semasAfter hist.sys.sched action i).sig = SEMA_SIG ∧
      (System.semasAfter hist.sys.sched action i).count = (hist.sys.sched.semas i).count -
        (if action = .call (.semaDown i) then 1 else 0) +
        (if action = .call (.semaUp i) then 1 else 0) ∧
      (System.semasAfter hist.sys.sched action i).count ≤ 0x7FFF := by
  have low := inv.count_low i
  have high := inv.small i
  have sig := inv.sig i
  cases action with
  | call call =>
      cases call with
      | semaDown index =>
          by_cases same : index = i
          · subst same
            simp only [System.semasAfter, Scheduler.setCount, Function.update_self]
            rw [int16_eq (by omega) (by omega)]
            simp [sig]
            omega
          · simp [System.semasAfter, Scheduler.setCount, Ne.symm same, same, sig, high]
      | semaUp index =>
          by_cases same : index = i
          · subst same
            have room : (hist.sys.sched.semas index).count < 0x7FFF := guarded
            simp only [System.semasAfter, Scheduler.setCount, Function.update_self]
            rw [int16_eq (by omega) (by omega)]
            simp [sig]
            omega
          · simp [System.semasAfter, Scheduler.setCount, Ne.symm same, same, sig, high]
      | _ => simp [System.semasAfter, sig, high]
  | _ => simp [System.semasAfter, sig, high]

/-- The tasks of one list that are not on another, in the order of the table. -/
def gained (old new : List Task) : List Task :=
  (List.finRange MAX_TASK).filter fun task => task ∉ old ∧ task ∈ new

theorem arrivals_eq {before after : Scheduler} {lists' : QueueId → List Task} {i : Nat}
    (queued : Queued before.links lists) (queued' : Queued after.links lists') :
    arrivals i before after = gained (lists (.sema i)) (lists' (.sema i)) := by
  simp only [arrivals, gained, ne_eq, queued.owner, queued'.owner]

theorem gained_none {old new : List Task} (sub : new ⊆ old) : gained old new = [] := by
  rw [gained, List.filter_eq_nil_iff]
  intro task _
  simpa using fun notOld isNew => notOld (sub isNew)

theorem gained_one {old new : List Task} {task : Task}
    (only : ∀ other, other ∉ old ∧ other ∈ new ↔ other = task) : gained old new = [task] := by
  have single : ∀ task : Task, (List.finRange MAX_TASK).filter (· = task) = [task] := by decide
  simp only [gained, only]
  exact single task

/-- The calls that return are no longer inside, all others are. -/
theorem count_inside (calls : List (Task × Nat)) (task : Task) (i : Nat) :
    calls.count (task, i) + ((calls.filter fun call => call.1 ≠ task).filter
      fun call => call.2 = i).length = (calls.filter fun call => call.2 = i).length := by
  induction calls with
  | nil => rfl
  | cons call calls ih =>
      obtain ⟨caller, index⟩ := call
      by_cases isTask : caller = task <;> by_cases isIndex : index = i <;>
        simp [isTask, isIndex] at ih ⊢ <;> omega

theorem mem_begin {action : Action} {call : Task × Nat} (before : call ∈ hist.inside) :
    call ∈ hist.begin action := by
  unfold begin
  split
  · exact List.mem_cons_of_mem _ before
  · exact before

theorem begin_length (hist : SemaSystem) (action : Action) (i : Nat) :
    ((hist.begin action).filter fun call => call.2 = i).length =
      (hist.inside.filter fun call => call.2 = i).length +
        if action = .call (.semaDown i) then 1 else 0 := by
  unfold begin
  split
  · rename_i index
    by_cases same : index = i
    · subst same
      simp
    · simp [same]
  · rename_i other
    rw [if_neg (other i)]
    rfl

/-- What a step does to the queue of a semaphore is what the history says it does. -/
theorem Inv.arrivals_step (inv : hist.Inv counts lists free) {action : Action} {sys' : System}
    {lists' : QueueId → List Task} {free' : List Task} (guarded : hist.Guarded action)
    (inv' : sys'.Inv lists' free')
    (waiters : System.WaitersStep hist.sys.sched lists lists' action) (i : Nat) :
    arrivals i sys'.sched hist.sys.sched =
        (if action = .call (.semaUp i) then (lists (.sema i)).take 1 else []) ∧
      lists (.sema i) ++ arrivals i hist.sys.sched sys'.sched =
        arrivals i sys'.sched hist.sys.sched ++ lists' (.sema i) ∧
      (((lists' (.sema i)).length : Int) =
        max 0 (-(System.semasAfter hist.sys.sched action i).count)) := by
  have count := (inv.count_step guarded i).2.1
  have low := inv.count_low i
  have high := inv.small i
  have length := inv.queue i
  have nodup := inv.sys.core.queued.nodup (.sema i)
  rw [arrivals_eq inv'.core.queued inv.sys.core.queued,
    arrivals_eq inv.sys.core.queued inv'.core.queued]
  rcases inv.queue_step guarded waiters i with
    ⟨rfl, negative, list⟩ | ⟨rfl, negative, list⟩ | ⟨notDown, notUp, list⟩
  · have absent : hist.sys.sched.curtask ∉ lists (.sema i) :=
      inv.sys.not_waiting (show System.Waits (.sema i) from trivial)
    have one : gained (lists (.sema i)) (lists' (.sema i)) = [hist.sys.sched.curtask] := by
      apply gained_one
      intro other
      rw [list, List.mem_append, List.mem_singleton]
      constructor
      · rintro ⟨out, inside | isTask⟩
        · exact absurd inside out
        · exact isTask
      · rintro rfl
        exact ⟨absent, .inr rfl⟩
    have none : gained (lists' (.sema i)) (lists (.sema i)) = [] := by
      apply gained_none
      rw [list]
      exact List.subset_append_left _ _
    rw [int16_eq (by omega) (by omega)] at negative
    refine ⟨by simp [none], by rw [one, none, list]; rfl, ?_⟩
    simp only [if_true, reduceCtorEq, Action.call.injEq, if_false] at count
    rw [list, List.length_append, List.length_singleton]
    omega
  · have room : (hist.sys.sched.semas i).count < 0x7FFF := guarded
    rw [int16_eq (by omega) (by omega)] at negative
    simp only [if_true, reduceCtorEq, Action.call.injEq, if_false] at count
    cases before : lists (.sema i) with
    | nil =>
        rw [before, List.length_nil] at length
        omega
    | cons next rest =>
        rw [before, List.tail_cons] at list
        rw [before] at nodup length
        rw [list]
        have absent : next ∉ rest := (List.nodup_cons.mp nodup).1
        have one : gained rest (next :: rest) = [next] := by
          apply gained_one
          intro other
          rw [List.mem_cons]
          constructor
          · rintro ⟨out, isNext | inside⟩
            · exact isNext
            · exact absurd inside out
          · rintro rfl
            exact ⟨absent, .inl rfl⟩
        have none : gained (next :: rest) rest = [] := gained_none (List.subset_cons_self _ _)
        refine ⟨by simp [one], by rw [one, none]; simp, ?_⟩
        rw [List.length_cons] at length
        omega
  · rw [list, gained_none (List.Subset.refl _)]
    refine ⟨?_, by simp, ?_⟩
    · by_cases up : action = .call (.semaUp i)
      · have positive := notUp up
        subst up
        have room : (hist.sys.sched.semas i).count < 0x7FFF := guarded
        rw [int16_eq (by omega) (by omega)] at positive
        have empty : lists (.sema i) = [] := List.length_eq_zero_iff.mp (by omega)
        simp [empty]
      · rw [if_neg up]
    · rw [length, count]
      by_cases down : action = .call (.semaDown i)
      · have enough := notDown down
        rw [int16_eq (by omega) (by omega)] at enough
        subst down
        simp only [if_true, reduceCtorEq, Action.call.injEq, if_false]
        omega
      · rw [if_neg down]
        by_cases up : action = .call (.semaUp i)
        · have positive := notUp up
          subst up
          have room : (hist.sys.sched.semas i).count < 0x7FFF := guarded
          rw [int16_eq (by omega) (by omega)] at positive
          simp only [if_true]
          omega
        · rw [if_neg up]
          omega

theorem Inv.step (inv : hist.Inv counts lists free) {action : Action}
    (guarded : hist.Guarded action) (taken : hist.step action = some hist') :
    ∃ lists' free', hist'.Inv counts lists' free' ∧
      System.WaitersStep hist.sys.sched lists lists' action ∧
      ∀ i, hist'.released i = hist.released i ++
        (if action = .call (.semaUp i) then (lists (.sema i)).take 1 else []) := by
  obtain ⟨sys', ran, rfl⟩ := Option.map_eq_some_iff.mp taken
  obtain ⟨lists', free', inv', -, waiters⟩ := inv.sys.step ran
  have semas := System.step_semas ran
  have moved := inv.arrivals_step guarded inv' waiters
  refine ⟨lists', free', ?_, waiters, fun i => by dsimp only; rw [(moved i).1]⟩
  constructor
  · exact inv'
  · intro i
    dsimp only
    rw [semas]
    exact (inv.count_step guarded i).1
  · intro i
    dsimp only
    rw [semas, (inv.count_step guarded i).2.1, inv.count i]
    split <;> split <;> push_cast <;> omega
  · intro i
    dsimp only
    rw [semas]
    exact (inv.count_step guarded i).2.2
  · intro i
    dsimp only
    rw [semas]
    exact (moved i).2.2
  · intro i
    dsimp only
    rw [inv.order, List.append_assoc, (moved i).2.1, List.append_assoc]
  · intro i task member
    have notRunning : task ≠ sys'.sched.curtask := by
      rintro rfl
      exact inv'.not_waiting (show System.Waits (.sema i) from trivial) member
    have called : (task, i) ∈ hist.begin action := by
      rcases inv.queue_step guarded waiters i with
        ⟨rfl, -, list⟩ | ⟨rfl, -, list⟩ | ⟨-, -, list⟩
      · rw [list, List.mem_append, List.mem_singleton] at member
        rcases member with before | rfl
        · exact List.mem_cons_of_mem _ (inv.inside i task before)
        · exact List.mem_cons_self
      · rw [list] at member
        exact inv.inside i task (List.mem_of_mem_tail member)
      · rw [list] at member
        exact mem_begin (inv.inside i task member)
    exact List.mem_filter.mpr ⟨called, by simpa using notRunning⟩
  · intro i
    have returns := count_inside (hist.begin action) sys'.sched.curtask i
    have calls := inv.calls i
    have begun := begin_length hist action i
    dsimp only
    omega

/-- The search of `sema_down` goes once around the queue. -/
theorem semaScan_path {next prev : Task → Option Task} {curtask head cur : Task}
    {rest : List Task} (path : LinkPath next prev cur rest head)
    (others : ∀ task ∈ cur :: rest, task ≠ curtask) (distinct : head ∉ rest) {fuel : Nat}
    (enough : rest.length < fuel) :
    Scheduler.semaScan next curtask head fuel cur = some false := by
  induction rest generalizing cur fuel with
  | nil =>
      cases fuel with
      | zero => exact absurd enough (by simp)
      | succ fuel =>
          have linked : next cur = some head := path.1
          rw [Scheduler.semaScan, if_neg (others cur List.mem_cons_self), linked]
          exact if_pos rfl
  | cons second rest ih =>
      cases fuel with
      | zero => exact absurd enough (by simp)
      | succ fuel =>
          have linked : next cur = some second := path.1.1
          have notHead : second ≠ head := fun same => distinct (same ▸ List.mem_cons_self)
          rw [Scheduler.semaScan, if_neg (others cur List.mem_cons_self), linked]
          refine (if_neg notHead).trans (ih path.2 ?_ ?_ ?_)
          · exact fun task member => others task (List.mem_cons_of_mem _ member)
          · exact fun member => distinct (List.mem_cons_of_mem _ member)
          · simpa using enough

/-- `sema_down` returns, or it blocks and another task runs. -/
theorem Inv.semaDown_ok (inv : hist.Inv counts lists free)
    (notIdle : hist.sys.sched.curtask ≠ idleTask) (i : Nat) :
    ∃ sched', hist.sys.sched.semaDown i = .ok sched' := by
  have queued := inv.sys.core.queued
  have absent : hist.sys.sched.curtask ∉ lists (.sema i) :=
    inv.sys.not_waiting (show System.Waits (.sema i) from trivial)
  have takes : ∃ sched', hist.sys.sched.semaTake i = .ok sched' := by
    simp only [Scheduler.semaTake]
    split
    · have counted := inv.sys.setCount i ((hist.sys.sched.semas i).count - 1)
      have left := leave_spec counted.core inv.sys.current.member notIdle (.sema i) (by simp)
      obtain ⟨_, _, ran, -⟩ := yieldToRunnable_spec left
      exact ⟨_, ran⟩
    · exact ⟨_, rfl⟩
  simp only [Scheduler.semaDown, inv.sig i, ne_eq, not_true_eq_false, if_false, queued.head]
  cases list : lists (.sema i) with
  | nil => exact takes
  | cons head rest =>
      have ring := queued.ring (.sema i)
      have distinct := queued.nodup (.sema i)
      have length := distinct.length_le_card
      rw [list] at ring distinct absent length
      rw [Fintype.card_fin, List.length_cons] at length
      have others : ∀ task ∈ head :: rest, task ≠ hist.sys.sched.curtask := by
        rintro task member rfl
        exact absent member
      have scanned := semaScan_path ring others (List.nodup_cons.mp distinct).1
        (show rest.length < taskFuel by simp only [taskFuel]; omega)
      simp only [List.head?_cons, scanned]
      exact takes

/-- `sema_up` finds a blocked task whenever the count says that there is one. -/
theorem Inv.semaUp_ok (inv : hist.Inv counts lists free) {i : Nat}
    (room : (hist.sys.sched.semas i).count < 0x7FFF) :
    ∃ sched', hist.sys.sched.semaUp i = .ok sched' := by
  have low := inv.count_low i
  have length := inv.queue i
  have counted := inv.sys.setCount i ((hist.sys.sched.semas i).count + 1)
  have same : int16 ((hist.sys.sched.semas i).count + 1) = (hist.sys.sched.semas i).count + 1 :=
    int16_eq (by omega) (by omega)
  simp only [Scheduler.semaUp, inv.sig i, ne_eq, not_true_eq_false, if_false,
    System.setCount_count, same]
  by_cases positive : 0 < (hist.sys.sched.semas i).count + 1
  · rw [if_neg (by omega)]
    exact ⟨_, rfl⟩
  · rw [if_pos (by omega)]
    cases list : lists (.sema i) with
    | nil =>
        rw [list, List.length_nil] at length
        omega
    | cons next rest =>
        rw [taskqPop_dequeue counted.core.queued list]
        exact ⟨_, rfl⟩

/-- No more calls of `sema_down` have returned than the count allows. -/
theorem Inv.returned_le (inv : hist.Inv counts lists free) (i : Nat) :
    (hist.returned i : Int) - hist.ups i ≤ counts i := by
  have count := inv.count i
  have length := inv.queue i
  have calls := inv.calls i
  have waiting : (lists (.sema i)).length ≤
      (hist.inside.filter fun call => call.2 = i).length := by
    have distinct : ((lists (.sema i)).map fun task => (task, i)).Nodup :=
      (inv.sys.core.queued.nodup (.sema i)).map fun _ _ same => (Prod.mk.inj same).1
    rw [← List.length_map fun task => (task, i)]
    apply (List.subperm_of_subset distinct _).length_le
    intro call member
    obtain ⟨task, isWaiting, rfl⟩ := List.mem_map.mp member
    exact List.mem_filter.mpr ⟨inv.inside i task isWaiting, by simp⟩
  omega

/-! ## Every run -/

theorem reached_inv (initial : ∀ i, 0 ≤ counts i ∧ counts i < 0x8000)
    (reached : Reached (· = start counts) (fun h a h' => h.step a = some h') Guarded hist) :
    ∃ lists free, hist.Inv counts lists free := by
  refine reached.invariant (fun hist => ∃ lists free, hist.Inv counts lists free) ?_ ?_
  · rintro _ rfl
    exact ⟨_, _, start_inv initial⟩
  · rintro hist hist' action ⟨lists, free, inv⟩ guarded taken
    obtain ⟨lists', free', inv', -⟩ := inv.step guarded taken
    exact ⟨lists', free', inv'⟩

/-- In every run the count of a semaphore is its first value less the calls of
`sema_down` and plus those of `sema_up`, and its queue has as many tasks as the count
is below zero.  Tasks are released in the order in which they were blocked, one by
each `sema_up`, no more calls of `sema_down` return than the count allows, and neither
routine panics. -/
theorem semaphore_correct (initial : ∀ i, 0 ≤ counts i ∧ counts i < 0x8000)
    (reached : Reached (· = start counts) (fun h a h' => h.step a = some h') Guarded hist)
    (i : Nat) :
    (hist.sys.sched.semas i).count = counts i - hist.downs i + hist.ups i ∧
      (hist.returned i : Int) - hist.ups i ≤ counts i ∧
      (hist.sys.sched.curtask ≠ idleTask → ∃ sched', hist.sys.sched.semaDown i = .ok sched') ∧
      (hist.Guarded (.call (.semaUp i)) → ∃ sched', hist.sys.sched.semaUp i = .ok sched') ∧
      ∃ lists, Queued hist.sys.sched.links lists ∧
        ((lists (.sema i)).length : Int) = max 0 (-(hist.sys.sched.semas i).count) ∧
        hist.blocked i = hist.released i ++ lists (.sema i) ∧
        ∀ action hist', hist.Guarded action → hist.step action = some hist' →
          hist'.released i = hist.released i ++
            (if action = .call (.semaUp i) then (lists (.sema i)).take 1 else []) := by
  obtain ⟨lists, free, inv⟩ := reached_inv initial reached
  refine ⟨inv.count i, inv.returned_le i, fun notIdle => inv.semaDown_ok notIdle i,
    fun guarded => inv.semaUp_ok guarded, lists, inv.sys.core.queued, inv.queue i, inv.order i,
    fun action hist' guarded taken => ?_⟩
  obtain ⟨_, _, -, -, released⟩ := inv.step guarded taken
  exact released i

/-- The case of a task that is blocked by the first semaphore and released by
another one. -/
theorem semaphore_correct_released :
    ∃ hist, runs step (start fun _ => 0) [.call .taskAlloc, .call (.taskStart 2 17),
        .call (.semaDown 0), .call (.semaUp 0)] = some hist ∧
      hist.blocked 0 = [0] ∧ hist.released 0 = [0] ∧
      (hist.sys.sched.semas 0).count = 0 - hist.downs 0 + hist.ups 0 := by
  have ran : ((runs step (start fun _ => 0) [.call .taskAlloc, .call (.taskStart 2 17),
      .call (.semaDown 0), .call (.semaUp 0)]).map fun hist =>
        (hist.blocked 0, hist.released 0)) = some ([0], [0]) := by
    decide +kernel
  have guarded : Along step Guarded (start fun _ => 0) [.call .taskAlloc,
      .call (.taskStart 2 17), .call (.semaDown 0), .call (.semaUp 0)] := by
    decide +kernel
  obtain ⟨hist, ran, queues⟩ := Option.map_eq_some_iff.mp ran
  have initial : ∀ i, 0 ≤ (fun _ => 0 : Nat → Int) i ∧ (fun _ => 0 : Nat → Int) i < 0x8000 :=
    fun _ => by simp
  have correct := semaphore_correct initial (reached_of_runs rfl guarded ran) 0
  exact ⟨hist, ran, (Prod.mk.inj queues).1, (Prod.mk.inj queues).2, correct.1⟩

/-- The count wraps when `sema_up` is called at the largest `int`. -/
theorem sema_up_panics_at_largest_count :
    ∃ hist, Reachable (· = start fun _ => 0x7FFF) (fun h a h' => h.step a = some h') hist ∧
      hist.sys.sched.semaUp 0 =
        .panic "semaphore: count not consistent with queue state" := by
  exact ⟨_, .start rfl, rfl⟩

end SemaSystem

end Pegasos.Kernel.Sched
