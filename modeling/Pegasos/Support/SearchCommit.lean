import Mathlib.Data.List.Perm.Basic
import Mathlib.Logic.Function.Basic
import Pegasos.Support.Outcome
import Pegasos.Support.Transition

/-!
# Calls that search first and change later

A heap that any number of tasks share.  A call searches the heap for the place that it
is going to change and changes it in a second step, with steps of other tasks in between.
If every change is made where what the search has found still holds, the heap stays as
good as it is when each call runs alone.
-/

namespace Pegasos.Support

open Function (update)

/-- The two halves of the calls of an allocator, and a write into an entry that its owner
holds.  A search for memory may find none. -/
structure Allocator (Heap Size Entry Site Link Write : Type) where
  mallocSearch : Heap → Size → Outcome (Option Site)
  mallocCommit : Heap → Size → Site → Heap × Entry
  freeSearch : Heap → Entry → Outcome Link
  freeCommit : Heap → Link → Heap
  write : Heap → Entry → Write → Option Heap

/-- Where a task is: between two calls, or between the halves of one. -/
inductive CallPc (Size Entry Site Link : Type) where
  | idle
  | malloc (size : Size) (site : Site)
  | free (entry : Entry) (link : Link)
  deriving DecidableEq, Repr

/-- The heap, the entries that callers hold, those that are being freed, and the tasks. -/
structure SharedHeap (Task Heap Size Entry Site Link : Type) where
  heap : Heap
  live : List Entry
  freeing : List Entry
  pc : Task → CallPc Size Entry Site Link

inductive SharedAction (Task Size Entry Write : Type) where
  | malloc (task : Task) (size : Size)
  | free (task : Task) (entry : Entry)
  | commit (task : Task)
  | write (entry : Entry) (value : Write)

/-- The task whose call begins. -/
def SharedAction.begins {Task Size Entry Write : Type} :
    SharedAction Task Size Entry Write → Option Task
  | .malloc task _ | .free task _ => some task
  | .commit _ | .write _ _ => none

namespace SharedHeap

variable {Task Heap Size Entry Site Link Write : Type}

section Step

variable [DecidableEq Task] [DecidableEq Entry]
variable (alloc : Allocator Heap Size Entry Site Link Write)
variable (sys : SharedHeap Task Heap Size Entry Site Link)

def goto (task : Task) (pc : CallPc Size Entry Site Link) :
    SharedHeap Task Heap Size Entry Site Link :=
  { sys with pc := update sys.pc task pc }

/-- The second half of the call of a task. -/
def commit (task : Task) : Option (SharedHeap Task Heap Size Entry Site Link) :=
  match sys.pc task with
  | .idle => none
  | .malloc size site =>
      let (heap, entry) := alloc.mallocCommit sys.heap size site
      some ({ sys with heap := heap, live := entry :: sys.live }.goto task .idle)
  | .free entry link =>
      some ({ sys with
        heap := alloc.freeCommit sys.heap link
        freeing := sys.freeing.erase entry }.goto task .idle)

/-- One step.  A caller frees an entry that it holds, and holds it no longer. -/
def step : SharedAction Task Size Entry Write → Option (SharedHeap Task Heap Size Entry Site Link)
  | .malloc task size =>
      match sys.pc task with
      | .idle => (alloc.mallocSearch sys.heap size).value?.map fun found =>
          match found with
          | none => sys
          | some site => sys.goto task (.malloc size site)
      | _ => none
  | .free task entry =>
      match sys.pc task with
      | .idle =>
          if entry ∈ sys.live then
            (alloc.freeSearch sys.heap entry).value?.map fun link =>
              { sys with
                live := sys.live.erase entry
                freeing := entry :: sys.freeing }.goto task (.free entry link)
          else none
      | _ => none
  | .commit task => sys.commit alloc task
  | .write entry value =>
      if entry ∈ sys.live then
        (alloc.write sys.heap entry value).map fun heap => { sys with heap := heap }
      else none

/-- A heap that nobody has used. -/
def start (heap : Heap) : SharedHeap Task Heap Size Entry Site Link :=
  ⟨heap, [], [], fun _ => .idle⟩

end Step

variable {alloc : Allocator Heap Size Entry Site Link Write}
variable {sys sys' : SharedHeap Task Heap Size Entry Site Link}

/-- What a search has found still holds when the change is made: the site is `ready` for
the request, and a search for the entry to free would end in the same place. -/
def Guarded (alloc : Allocator Heap Size Entry Site Link Write)
    (ready : Heap → Size → Site → Prop) (sys : SharedHeap Task Heap Size Entry Site Link) :
    SharedAction Task Size Entry Write → Prop
  | .commit task =>
      match sys.pc task with
      | .idle => True
      | .malloc size site => ready sys.heap size site
      | .free entry link => alloc.freeSearch sys.heap entry = .ok link
  | _ => True

instance decidableGuarded (sys : SharedHeap Task Heap Size Entry Site Link)
    (alloc : Allocator Heap Size Entry Site Link Write) (ready : Heap → Size → Site → Prop)
    [∀ heap size site, Decidable (ready heap size site)] [DecidableEq Link] :
    (action : SharedAction Task Size Entry Write) → Decidable (sys.Guarded alloc ready action)
  | .commit task =>
      match at_ : sys.pc task with
      | .idle => decidable_of_iff True (by simp [Guarded, at_])
      | .malloc size site => decidable_of_iff (ready sys.heap size site) (by simp [Guarded, at_])
      | .free entry link =>
          decidable_of_iff (alloc.freeSearch sys.heap entry = .ok link) (by simp [Guarded, at_])
  | .malloc _ _ | .free _ _ | .write _ _ => isTrue trivial

/-- The calls keep a heap good when each of them runs alone.  `passes` is what a search
checks of the request itself. -/
structure Sound (alloc : Allocator Heap Size Entry Site Link Write)
    (ready : Heap → Size → Site → Prop) (passes : Size → Prop)
    (Good : Heap → List Entry → Prop) : Prop where
  nodup : ∀ {heap live}, Good heap live → live.Nodup
  perm : ∀ {heap live order}, Good heap live → order.Perm live → Good heap order
  passed : ∀ {heap size site}, alloc.mallocSearch heap size = .ok (some site) → passes size
  malloc : ∀ {heap live size site}, Good heap live → passes size → ready heap size site →
    Good (alloc.mallocCommit heap size site).1 ((alloc.mallocCommit heap size site).2 :: live)
  free : ∀ {heap live entry rest}, Good heap live → live.Perm (entry :: rest) → ∃ link,
    alloc.freeSearch heap entry = .ok link ∧ Good (alloc.freeCommit heap link) rest
  write : ∀ {heap heap' live entry value}, Good heap live → entry ∈ live →
    alloc.write heap entry value = some heap' → Good heap' live

/-- The invariant of guarded runs. -/
structure Inv (passes : Size → Prop) (Good : Heap → List Entry → Prop)
    (sys : SharedHeap Task Heap Size Entry Site Link) : Prop where
  good : Good sys.heap (sys.freeing ++ sys.live)
  passed : ∀ task size site, sys.pc task = .malloc size site → passes size
  freeing : ∀ task entry link, sys.pc task = .free entry link → entry ∈ sys.freeing
  alone : ∀ task task' entry link link', sys.pc task = .free entry link →
    sys.pc task' = .free entry link' → task = task'

variable {ready : Heap → Size → Site → Prop} {passes : Size → Prop}
variable {Good : Heap → List Entry → Prop}

theorem start_inv {heap : Heap} (good : Good heap []) :
    (start heap : SharedHeap Task Heap Size Entry Site Link).Inv passes Good :=
  ⟨good, by simp [start], by simp [start], by simp [start]⟩

section Steps

variable [DecidableEq Task] {task : Task}

/-- A task has finished its call. -/
theorem Inv.finish (inv : sys.Inv passes Good) {heap : Heap} {live freeing : List Entry}
    (good : Good heap (freeing ++ live))
    (kept : ∀ other, other ≠ task → ∀ entry link, sys.pc other = .free entry link →
      entry ∈ freeing) :
    ({ sys with heap := heap, live := live, freeing := freeing }.goto task .idle).Inv passes
      Good := by
  have here : update sys.pc task .idle task = .idle := Function.update_self _ _ _
  have away : ∀ other, other ≠ task → update sys.pc task .idle other = sys.pc other :=
    fun other ne => Function.update_of_ne ne _ _
  have before : ∀ other pc, update sys.pc task .idle other = pc → pc ≠ .idle →
      other ≠ task ∧ sys.pc other = pc := by
    rintro other _ rfl notIdle
    have ne : other ≠ task := by
      rintro rfl
      exact notIdle here
    exact ⟨ne, (away other ne).symm⟩
  refine ⟨good, fun other size site at_ => ?_, fun other entry link at_ => ?_,
    fun other other' entry link link' at_ at' => ?_⟩
  · exact inv.passed other size site (before other _ at_ (by simp)).2
  · obtain ⟨ne, was⟩ := before other _ at_ (by simp)
    exact kept other ne entry link was
  · exact inv.alone other other' entry link link' (before other _ at_ (by simp)).2
      (before other' _ at' (by simp)).2

/-- A search for memory has found a site. -/
theorem Inv.malloc_step (inv : sys.Inv passes Good) {size : Size} {site : Site}
    (passed : passes size) : (sys.goto task (.malloc size site)).Inv passes Good := by
  have here : update sys.pc task (.malloc size site) task = .malloc size site :=
    Function.update_self _ _ _
  have away : ∀ other, other ≠ task →
      update sys.pc task (.malloc size site) other = sys.pc other :=
    fun other ne => Function.update_of_ne ne _ _
  have frees : ∀ other entry link,
      update sys.pc task (.malloc size site) other = .free entry link →
      sys.pc other = .free entry link := by
    intro other entry link at_
    have ne : other ≠ task := by
      rintro rfl
      exact absurd (here.symm.trans at_) (by simp)
    exact (away other ne).symm.trans at_
  refine ⟨inv.good, fun other size' site' at_ => ?_, fun other entry link at_ => ?_,
    fun other other' entry link link' at_ at' => ?_⟩
  · by_cases same : other = task
    · subst same
      obtain ⟨rfl, -⟩ := CallPc.malloc.inj (here.symm.trans at_)
      exact passed
    · exact inv.passed other size' site' ((away other same).symm.trans at_)
  · exact inv.freeing other entry link (frees other entry link at_)
  · exact inv.alone other other' entry link link' (frees other entry link at_)
      (frees other' entry link' at')

variable [DecidableEq Entry]

theorem Inv.commit_step (sound : Sound alloc ready passes Good) (inv : sys.Inv passes Good)
    (guarded : sys.Guarded alloc ready (.commit task))
    (taken : sys.commit alloc task = some sys') : sys'.Inv passes Good := by
  cases at_ : sys.pc task with
  | idle => simp [commit, at_] at taken
  | malloc size site =>
      simp only [Guarded, at_] at guarded
      simp only [commit, at_, Option.some.injEq] at taken
      subst taken
      apply inv.finish
      · refine sound.perm (sound.malloc inv.good (inv.passed task size site at_) guarded) ?_
        exact List.perm_middle
      · exact fun other _ entry link => inv.freeing other entry link
  | free entry link =>
      simp only [Guarded, at_] at guarded
      simp only [commit, at_, Option.some.injEq] at taken
      subst taken
      have member := inv.freeing task entry link at_
      obtain ⟨link', found, good⟩ :=
        sound.free inv.good ((List.perm_cons_erase member).append_right sys.live)
      obtain rfl := Outcome.ok.inj (guarded.symm.trans found)
      apply inv.finish good
      intro other ne entry' link' was
      have apart : entry' ≠ entry := by
        rintro rfl
        exact ne (inv.alone other task entry' link' link was at_)
      exact (List.mem_erase_of_ne apart).mpr (inv.freeing other entry' link' was)

/-- A search for an entry to free has ended; nobody else frees that entry. -/
theorem Inv.free_step (sound : Sound alloc ready passes Good) (inv : sys.Inv passes Good)
    {entry : Entry} {link : Link} (member : entry ∈ sys.live) :
    ({ sys with
      live := sys.live.erase entry
      freeing := entry :: sys.freeing }.goto task (.free entry link)).Inv passes Good := by
  have here : update sys.pc task (.free entry link) task = .free entry link :=
    Function.update_self _ _ _
  have away : ∀ other, other ≠ task →
      update sys.pc task (.free entry link) other = sys.pc other :=
    fun other ne => Function.update_of_ne ne _ _
  have fresh : entry ∉ sys.freeing := fun isFreeing =>
    (List.nodup_append.mp (sound.nodup inv.good)).2.2 entry isFreeing entry member rfl
  have mine : ∀ other entry' link', other ≠ task → sys.pc other = .free entry' link' →
      entry' ≠ entry := by
    rintro other _ link' - was rfl
    exact fresh (inv.freeing other _ link' was)
  refine ⟨?_, fun other size site at_ => ?_, fun other entry' link' at_ => ?_,
    fun other other' entry' link' link'' at_ at' => ?_⟩
  · refine sound.perm inv.good ?_
    rw [show (goto _ _ _).freeing ++ (goto _ _ _).live =
      entry :: (sys.freeing ++ sys.live.erase entry) from rfl]
    exact (List.perm_middle.symm).trans ((List.perm_cons_erase member).symm.append_left _)
  · have ne : other ≠ task := by
      rintro rfl
      exact absurd (here.symm.trans at_) (by simp)
    exact inv.passed other size site ((away other ne).symm.trans at_)
  · by_cases same : other = task
    · subst same
      obtain ⟨rfl, -⟩ := CallPc.free.inj (here.symm.trans at_)
      exact List.mem_cons_self
    · exact List.mem_cons_of_mem _
        (inv.freeing other entry' link' ((away other same).symm.trans at_))
  · by_cases same : other = task
    · by_cases same' : other' = task
      · exact same.trans same'.symm
      · subst same
        obtain ⟨rfl, -⟩ := CallPc.free.inj (here.symm.trans at_)
        exact absurd rfl (mine other' _ link'' same' ((away other' same').symm.trans at'))
    · by_cases same' : other' = task
      · subst same'
        obtain ⟨rfl, -⟩ := CallPc.free.inj (here.symm.trans at')
        exact absurd rfl (mine other _ link' same ((away other same).symm.trans at_))
      · exact inv.alone other other' entry' link' link'' ((away other same).symm.trans at_)
          ((away other' same').symm.trans at')

/-- Every guarded step keeps the invariant. -/
theorem Inv.step (sound : Sound alloc ready passes Good) (inv : sys.Inv passes Good)
    {action : SharedAction Task Size Entry Write} (guarded : sys.Guarded alloc ready action)
    (taken : sys.step alloc action = some sys') : sys'.Inv passes Good := by
  cases action with
  | malloc task size =>
      cases at_ : sys.pc task with
      | idle =>
          simp only [SharedHeap.step, at_] at taken
          obtain ⟨found, searched, rfl⟩ := Option.map_eq_some_iff.mp taken
          cases found with
          | none => exact inv
          | some site => exact inv.malloc_step (sound.passed (Outcome.value?_eq_some.mp searched))
      | _ => simp [SharedHeap.step, at_] at taken
  | free task entry =>
      cases at_ : sys.pc task with
      | idle =>
          simp only [SharedHeap.step, at_, Option.ite_none_right_eq_some] at taken
          obtain ⟨member, taken⟩ := taken
          obtain ⟨link, -, rfl⟩ := Option.map_eq_some_iff.mp taken
          exact inv.free_step sound member
      | _ => simp [SharedHeap.step, at_] at taken
  | commit task => exact inv.commit_step sound guarded taken
  | write entry value =>
      simp only [SharedHeap.step, Option.ite_none_right_eq_some] at taken
      obtain ⟨member, taken⟩ := taken
      obtain ⟨heap, written, rfl⟩ := Option.map_eq_some_iff.mp taken
      exact { inv with
        good := sound.write inv.good (List.mem_append_right _ member) written }

/-- Every guarded run keeps the heap good. -/
theorem reached_good (sound : Sound alloc ready passes Good) {heap : Heap}
    (good : Good heap []) (reached : Reached (· = start heap)
      (fun s a s' => s.step alloc a = some s') (Guarded alloc ready) sys) :
    Good sys.heap (sys.freeing ++ sys.live) := by
  have inv : sys.Inv passes Good := by
    apply reached.invariant fun s => s.Inv passes Good
    · rintro _ rfl
      exact start_inv good
    · exact fun inv guarded taken => inv.step sound guarded taken
  exact inv.good

end Steps

end SharedHeap

end Pegasos.Support
