import Mathlib.Data.List.Induction
import Pegasos.Kernel.Proc.Process

/-!
# Process ids

Runs of `proc_alloc` and `proc_free`, with the processes that are live.  The counter of
process ids is an `int` that is never checked: the ids are right as long as it has not
wrapped around.
-/

namespace Pegasos.Kernel.Proc

open Function (update)

/-- The table, the live processes, how many have been made, and whether the slot of a live
one has been handed out again. -/
structure PidSystem where
  table : ProcTable
  live : Slot → Bool
  made : Nat
  reused : Bool

inductive PidAction where
  | procAlloc
  | procFree (slot : Slot)

namespace PidSystem

def initial : PidSystem := ⟨.initial, fun _ => false, 0, false⟩

def step (sys : PidSystem) : PidAction → PidSystem
  | .procAlloc =>
      match sys.table.procAllocPid with
      | none => sys
      | some (slot, table) =>
          { table := table.procAllocInit slot
            live := update sys.live slot true
            made := sys.made + 1
            reused := sys.reused || sys.live slot }
  | .procFree slot =>
      { sys with table := sys.table.procFree slot, live := update sys.live slot false }

def run (actions : List PidAction) : PidSystem := actions.foldl step initial

/-- The live processes have positive ids, which differ, and none has lost its slot. -/
structure Good (sys : PidSystem) : Prop where
  positive : ∀ slot, sys.live slot = true → 0 < (sys.table.proc slot).pid
  distinct : ∀ slot slot', sys.live slot = true → sys.live slot' = true →
    (sys.table.proc slot).pid = (sys.table.proc slot').pid → slot = slot'
  reused : sys.reused = false

/-! ## Steps -/

variable {sys : PidSystem} {slot : Slot}

/-- Without a free slot nothing is made. -/
theorem step_full (full : sys.table.findFree = none) : sys.step .procAlloc = sys := by
  simp [step, ProcTable.procAllocPid, full]

/-- A new process has the next id, and the others keep theirs. -/
theorem step_made (found : sys.table.findFree = some slot) :
    (sys.step .procAlloc).made = sys.made + 1 ∧
      (sys.step .procAlloc).live = update sys.live slot true ∧
      (sys.step .procAlloc).reused = (sys.reused || sys.live slot) ∧
      (sys.step .procAlloc).table.nextpid = int16 (sys.table.nextpid + 1) ∧
      ∀ i, ((sys.step .procAlloc).table.proc i).pid =
        if i = slot then sys.table.nextpid else (sys.table.proc i).pid := by
  rw [step, ProcTable.procAllocPid_proc found]
  refine ⟨rfl, rfl, rfl, rfl, fun i => ?_⟩
  rw [ProcTable.procAllocInit_proc]
  simp only [ProcTable.modify_proc]
  split <;> rfl

theorem free_pid (i : Slot) : ((sys.step (.procFree slot)).table.proc i).pid =
    if i = slot then 0 else (sys.table.proc i).pid := by
  rw [step, ProcTable.procFree_proc]

/-- The counter is the number of processes that have been made, as an `int`. -/
theorem step_nextpid (action : PidAction)
    (counted : sys.table.nextpid = int16 (sys.made + 1 : Nat)) :
    (sys.step action).table.nextpid = int16 ((sys.step action).made + 1 : Nat) := by
  cases action with
  | procFree slot => exact counted
  | procAlloc =>
      cases found : sys.table.findFree with
      | none => rw [step_full found, counted]
      | some slot =>
          obtain ⟨made, -, -, nextpid, -⟩ := step_made found
          rw [nextpid, made, counted, int16, int16, int16, Int.bmod_add_bmod]
          push_cast
          rfl

theorem run_nextpid (actions : List PidAction) :
    (run actions).table.nextpid = int16 ((run actions).made + 1 : Nat) := by
  induction actions using List.reverseRecOn with
  | nil =>
      change (1 : Int) = (1 : Int).bmod 0x10000
      decide
  | append_singleton actions action ih =>
      rw [run, List.foldl_append]
      exact step_nextpid action ih

/-! ## While the counter has not wrapped around -/

/-- The ids of the live processes are below the counter. -/
structure Inv (sys : PidSystem) : Prop extends Good sys where
  below : ∀ slot, sys.live slot = true → (sys.table.proc slot).pid ≤ sys.made

theorem inv_initial : Inv initial where
  positive _ isLive := Bool.noConfusion isLive
  distinct _ _ isLive := Bool.noConfusion isLive
  reused := rfl
  below _ isLive := Bool.noConfusion isLive

theorem inv_free (inv : Inv sys) (slot : Slot) : Inv (sys.step (.procFree slot)) := by
  have others : ∀ i, (sys.step (.procFree slot)).live i = true →
      sys.live i = true ∧ ((sys.step (.procFree slot)).table.proc i).pid =
        (sys.table.proc i).pid := by
    intro i isLive
    have ne : i ≠ slot := by
      rintro rfl
      simp [step] at isLive
    rw [free_pid, if_neg ne]
    exact ⟨by simpa [step, ne] using isLive, rfl⟩
  refine ⟨⟨fun i isLive => ?_, fun i j isLive isLive' same => ?_, inv.reused⟩, fun i isLive => ?_⟩
  · rw [(others i isLive).2]
    exact inv.positive i (others i isLive).1
  · rw [(others i isLive).2, (others j isLive').2] at same
    exact inv.distinct i j (others i isLive).1 (others j isLive').1 same
  · rw [(others i isLive).2]
    exact inv.below i (others i isLive).1

theorem inv_alloc (inv : Inv sys) (counted : sys.table.nextpid = int16 (sys.made + 1 : Nat))
    (few : (sys.step .procAlloc).made ≤ 32767) : Inv (sys.step .procAlloc) := by
  cases found : sys.table.findFree with
  | none => rwa [step_full found]
  | some slot =>
      obtain ⟨made, live, reused, -, pid⟩ := step_made found
      rw [made] at few
      have next : sys.table.nextpid = (sys.made + 1 : Nat) := by
        rw [counted, int16]
        exact Int.bmod_eq_of_le (by omega) (by omega)
      have notLive : sys.live slot = false := by
        cases isLive : sys.live slot with
        | false => rfl
        | true =>
            have positive := inv.positive slot isLive
            rw [ProcTable.findFree_some found] at positive
            omega
      have old : ∀ i ≠ slot, (sys.step .procAlloc).live i = true →
          sys.live i = true ∧ ((sys.step .procAlloc).table.proc i).pid =
            (sys.table.proc i).pid := by
        intro i ne isLive
        rw [live, Function.update_of_ne ne] at isLive
        rw [pid, if_neg ne]
        exact ⟨isLive, rfl⟩
      have new : ((sys.step .procAlloc).table.proc slot).pid = (sys.made + 1 : Nat) := by
        rw [pid, if_pos rfl, next]
      refine ⟨⟨fun i isLive => ?_, fun i j isLive isLive' same => ?_, ?_⟩, fun i isLive => ?_⟩
      · by_cases isNew : i = slot
        · rw [isNew, new]
          omega
        · rw [(old i isNew isLive).2]
          exact inv.positive i (old i isNew isLive).1
      · by_cases isNew : i = slot <;> by_cases isNew' : j = slot
        · rw [isNew, isNew']
        · -- the id of an older process is smaller
          have below := inv.below j (old j isNew' isLive').1
          rw [isNew, new, (old j isNew' isLive').2] at same
          omega
        · have below := inv.below i (old i isNew isLive).1
          rw [isNew', new, (old i isNew isLive).2] at same
          omega
        · rw [(old i isNew isLive).2, (old j isNew' isLive').2] at same
          exact inv.distinct i j (old i isNew isLive).1 (old j isNew' isLive').1 same
      · rw [reused, inv.reused, notLive]
        rfl
      · rw [made]
        by_cases isNew : i = slot
        · rw [isNew, new]
        · rw [(old i isNew isLive).2]
          have below := inv.below i (old i isNew isLive).1
          omega

/-! ## Runs -/

theorem run_append (actions : List PidAction) (action : PidAction) :
    run (actions ++ [action]) = (run actions).step action := by
  rw [run, List.foldl_append]
  rfl

/-- A step makes at most one process. -/
theorem step_made_le (sys : PidSystem) (action : PidAction) :
    sys.made ≤ (sys.step action).made ∧ (sys.step action).made ≤ sys.made + 1 := by
  cases action with
  | procFree slot => exact ⟨Nat.le_refl _, Nat.le_succ _⟩
  | procAlloc =>
      cases found : sys.table.findFree with
      | none =>
          rw [step_full found]
          exact ⟨Nat.le_refl _, Nat.le_succ _⟩
      | some slot =>
          rw [(step_made found).1]
          exact ⟨Nat.le_succ _, Nat.le_refl _⟩

theorem run_inv (actions : List PidAction) (few : (run actions).made ≤ 32767) :
    Inv (run actions) := by
  induction actions using List.reverseRecOn with
  | nil => exact inv_initial
  | append_singleton actions action ih =>
      rw [run_append] at few ⊢
      have inv := ih (Nat.le_trans (step_made_le _ action).1 few)
      cases action with
      | procAlloc => exact inv_alloc inv (run_nextpid actions) few
      | procFree slot => exact inv_free inv slot

theorem run_made_le {done actions : List PidAction} (before : done <+: actions) :
    (run done).made ≤ (run actions).made := by
  obtain ⟨rest, rfl⟩ := before
  induction rest using List.reverseRecOn with
  | nil => rw [List.append_nil]
  | append_singleton rest action ih =>
      rw [← List.append_assoc, run_append]
      exact ih.trans (step_made_le _ action).1

/-- The process that is made behind 32767 others has a negative id. -/
theorem not_good_of_wrap {actions : List PidAction} (wraps : 32767 < (run actions).made) :
    ∃ done, done <+: actions ∧ ¬Good (run done) := by
  induction actions using List.reverseRecOn with
  | nil => exact absurd wraps (by decide)
  | append_singleton actions action ih =>
      by_cases earlier : 32767 < (run actions).made
      · obtain ⟨done, before, bad⟩ := ih earlier
        exact ⟨done, before.trans (List.prefix_append _ _), bad⟩
      · refine ⟨_, List.prefix_refl _, fun good => ?_⟩
        have last := (step_made_le (run actions) action).2
        rw [run_append] at wraps good
        have many : (run actions).made = 32767 := by omega
        cases action with
        | procFree slot => exact absurd wraps earlier
        | procAlloc =>
            cases found : (run actions).table.findFree with
            | none =>
                rw [step_full found] at wraps
                exact earlier wraps
            | some slot =>
                obtain ⟨-, live, -, -, pid⟩ := step_made found
                have positive := good.positive slot (by rw [live, Function.update_self])
                rw [pid, if_pos rfl, run_nextpid, many] at positive
                exact absurd positive (by decide)

/-- The process ids are right in every state of a run exactly if it makes at most 32767
processes. -/
theorem pids_right (actions : List PidAction) :
    (∀ done, done <+: actions → Good (run done)) ↔ (run actions).made ≤ 32767 := by
  constructor
  · intro good
    by_contra wraps
    obtain ⟨done, before, bad⟩ := not_good_of_wrap (Nat.lt_of_not_le wraps)
    exact bad (good done before)
  · intro few done before
    exact (run_inv done ((run_made_le before).trans few)).toGood

/-- Processes that are made and freed again, one after the other. -/
def turnover : Nat → List PidAction
  | 0 => []
  | n + 1 => turnover n ++ [.procAlloc] ++ [.procFree 0]

theorem turnover_made (n : Nat) :
    (run (turnover n)).made = n ∧ ∀ i, ((run (turnover n)).table.proc i).pid = 0 := by
  induction n with
  | zero => exact ⟨rfl, fun _ => rfl⟩
  | succ n ih =>
      have found : (run (turnover n)).table.findFree = some 0 := by
        rw [ProcTable.findFree, List.finRange_succ, List.find?_cons_of_pos]
        exact decide_eq_true (ih.2 0)
      obtain ⟨made, -, -, -, pid⟩ := step_made found
      rw [turnover, run_append, run_append]
      refine ⟨?_, fun i => ?_⟩
      · exact made.trans (congrArg (· + 1) ih.1)
      · rw [free_pid, pid, ih.2]
        split <;> rfl

/-- A process that has the table for itself, after 32767 others. -/
theorem pid_wraps : ∃ done, done <+: turnover 32768 ∧ ¬Good (run done) :=
  not_good_of_wrap (by rw [(turnover_made _).1]; decide)

end PidSystem

end Pegasos.Kernel.Proc
