import Mathlib.Data.List.Nodup
import Pegasos.Kernel.Tty.LineDiscipline
import Pegasos.Support.Transition

/-!
# Closing a terminal with waiting readers

`tty_open`, `tty_close` and `tty_read` of any number of tasks on one unit, with the
receive interrupt between any two of their steps.  `tty_close` counts the readers that
it finds blocked in `zombcount` and unblocks them.  Each of them runs at some later time,
and takes one from `zombcount`.
-/

namespace Pegasos.Kernel.Tty

open Pegasos.Support
open Function (update update_self update_of_ne)

def EBUSY : Int := 3
def EIO : Int := 4

/-- Where a task is in `tty_open`, `tty_close` or `tty_read`. -/
inductive TtyPc (Task : Type) where
  | out
  | openEnter
  | openTest
  | openBusy
  | openSet
  | openLeave
  | openSetup
  | closeEnter
  | closeTest
  | closeBad
  | closeLeave
  | closeOff
  | closeZero
  | closeHead
  | closeCount (rdr : Task)
  | closeUnblock
  | closeEnd
  | enter (size : Int)
  | reading (size : Int)
  | leave (size : Int) (got : Nat)
  | block (size : Int)
  | blocked (size : Int)
  | woken (size : Int)
  | check (size : Int)
  | drop
  | fail
  | again (size : Int)
  deriving DecidableEq, Repr

/-- Where the receive interrupt is; `got` says whether a character has arrived. -/
inductive IntrPc where
  | idle
  | enter
  | recv (got : Bool)
  | wake
  | leave
  deriving DecidableEq, Repr

/-- What a call of `tty_read` returned, and whether `tty_close` had found it blocked. -/
structure Return (Task : Type) where
  task : Task
  found : Bool
  rc : Int
  deriving DecidableEq, Repr

/-- A unit: its open flag, whether its interrupts are on, the line buffer, the two
critical sections (`csrecv` is held by a reader or, as `none`, by the interrupt), the
blocked queue and `zombcount`; and where everybody is.  `found` are the readers that
`tty_close` has counted and that have not returned. -/
structure TtyUnit (Task : Type) where
  isOpen : Bool
  ier : Bool
  cook : Ttycook
  refcs : Option Task
  csrecv : Option (Option Task)
  readers : List Task
  zombcount : Int
  intr : IntrPc
  pc : Task → TtyPc Task
  found : List Task
  returns : List (Return Task)

/-- A task calls one of the functions or takes its next step there, the set-up of the
unit succeeding or not; an interrupt begins; a character is received; or the interrupt
goes on. -/
inductive TtyAction (Task : Type) where
  | callOpen (task : Task)
  | callClose (task : Task)
  | callRead (task : Task) (size : Int)
  | run (task : Task)
  | setup (task : Task) (ok : Bool)
  | intr
  | recv (ch : UInt8)
  | intrRun

namespace TtyUnit

variable {Task : Type} [DecidableEq Task] (unit : TtyUnit Task)

def goto (task : Task) (pc : TtyPc Task) : TtyUnit Task :=
  { unit with pc := update unit.pc task pc }

/-- A call of `tty_read` ends. -/
def ret (task : Task) (rc : Int) : TtyUnit Task :=
  let done : Return Task := { task := task, found := decide (task ∈ unit.found), rc := rc }
  goto { unit with found := unit.found.erase task, returns := unit.returns ++ [done] } task .out

/-- `task_unblock` of the first reader on the queue. -/
def unblock (task : Task) (rest : List Task) : TtyUnit Task :=
  match unit.pc task with
  | .blocked size => { unit with readers := rest }.goto task (.woken size)
  | _ => { unit with readers := rest }

/-- The next step of a task, but for the set-up in `tty_open`. -/
def run (task : Task) : Option (TtyUnit Task) :=
  match unit.pc task with
  | .out | .openSetup | .blocked _ => none
  -- tty_open
  | .openEnter =>
      if unit.refcs = none then some ({ unit with refcs := some task }.goto task .openTest)
      else none
  | .openTest =>
      if unit.isOpen = true ∨ unit.readers ≠ [] then some (unit.goto task .openBusy)
      else some (unit.goto task .openSet)
  | .openBusy => some ({ unit with refcs := none }.goto task .out)
  | .openSet => some ({ unit with isOpen := true }.goto task .openLeave)
  | .openLeave => some ({ unit with refcs := none }.goto task .openSetup)
  -- tty_close
  | .closeEnter =>
      if unit.refcs = none then some ({ unit with refcs := some task }.goto task .closeTest)
      else none
  | .closeTest => some (unit.goto task (if unit.isOpen then .closeLeave else .closeBad))
  | .closeBad => some ({ unit with refcs := none }.goto task .out)
  | .closeLeave => some ({ unit with refcs := none }.goto task .closeOff)
  | .closeOff => some ({ unit with ier := false }.goto task .closeZero)
  | .closeZero => some ({ unit with zombcount := 0 }.goto task .closeHead)
  | .closeHead =>
      match unit.readers with
      | [] => some (unit.goto task .closeEnd)
      | rdr :: _ => some (unit.goto task (.closeCount rdr))
  | .closeCount rdr =>
      let counted := { unit with zombcount := unit.zombcount + 1, found := rdr :: unit.found }
      -- a reader that is not on the queue any more leads to some other queue
      match unit.readers.dropWhile (· ≠ rdr) with
      | [] => none
      | [_] => some (counted.goto task .closeUnblock)
      | _ :: next :: _ => some (counted.goto task (.closeCount next))
  | .closeUnblock =>
      match unit.readers with
      | [] => some (unit.goto task .closeEnd)
      | rdr :: rest => some (unit.unblock rdr rest)
  | .closeEnd => some ({ unit with isOpen := false }.goto task .out)
  -- tty_read
  | .enter size =>
      if unit.csrecv = none then
        some ({ unit with csrecv := some (some task) }.goto task (.reading size))
      else none
  | .reading size =>
      (unit.cook.ttycRead size).value?.map fun (bytes, cook) =>
        { unit with cook := cook }.goto task (.leave size bytes.length)
  | .leave size got =>
      if got ≠ 0 then some ({ unit with csrecv := none }.ret task got)
      else some ({ unit with csrecv := none }.goto task (.block size))
  | .block size =>
      some ({ unit with readers := unit.readers ++ [task] }.goto task (.blocked size))
  | .woken size =>
      if unit.refcs = none then
        some ({ unit with refcs := some task }.goto task (.check size))
      else none
  | .check size =>
      if unit.zombcount ≠ 0 then some (unit.goto task .drop)
      else some (unit.goto task (.again size))
  | .drop => some ({ unit with zombcount := unit.zombcount - 1 }.goto task .fail)
  | .fail => some ({ unit with refcs := none }.ret task (- EIO))
  | .again size => some ({ unit with refcs := none }.goto task (.enter size))

/-- The next step of the interrupt. -/
def intrRun : Option (TtyUnit Task) :=
  match unit.intr with
  | .idle => none
  | .enter =>
      if unit.csrecv = none then some { unit with csrecv := some none, intr := .recv false }
      else none
  | .recv got => some { unit with intr := if got then .wake else .leave }
  | .wake =>
      match unit.readers with
      | [] => some { unit with intr := .leave }
      | rdr :: rest => some (unit.unblock rdr rest)
  | .leave => some { unit with intr := .idle, csrecv := none }

/-- One step. -/
def step : TtyAction Task → Option (TtyUnit Task)
  | .callOpen task => if unit.pc task = .out then some (unit.goto task .openEnter) else none
  | .callClose task => if unit.pc task = .out then some (unit.goto task .closeEnter) else none
  | .callRead task size =>
      if unit.pc task = .out then
        some (if size = 0 then unit.ret task 0 else unit.goto task (.enter size))
      else none
  | .run task => unit.run task
  | .setup task ok =>
      if unit.pc task = .openSetup then
        some (if ok then { unit with cook := unit.cook.ttycInit, ier := true }.goto task .out
          else { unit with isOpen := false }.goto task .out)
      else none
  | .intr => if unit.intr = .idle ∧ unit.ier = true then some { unit with intr := .enter } else none
  | .recv ch =>
      match unit.intr with
      | .recv _ => some { unit with cook := (unit.cook.ttycPutc ch).1, intr := .recv true }
      | _ => none
  | .intrRun => unit.intrRun

/-- A unit that has not been opened. -/
def start (cook : Ttycook) : TtyUnit Task where
  isOpen := false
  ier := false
  cook := cook
  refcs := none
  csrecv := none
  readers := []
  zombcount := 0
  intr := .idle
  pc := fun _ => .out
  found := []
  returns := []

end TtyUnit

/-! ## The readers that a close has found -/

/-- What a task has to do with the queue and `zombcount`: it is on the queue; it has been
unblocked and has not looked at `zombcount`; it is about to take one; it has taken one
and not returned; or it is a close that has cleared `zombcount`, counts a reader next,
or unblocks the readers. -/
inductive Role (Task : Type) where
  | other
  | waits
  | woken
  | drops
  | fails
  | zeroed
  | counts (rdr : Task)
  | unblocks
  deriving DecidableEq

namespace Role

variable {Task : Type}

/-- A close between clearing `zombcount` and the end of its second loop. -/
def closes : Role Task → Bool
  | zeroed | counts _ | unblocks => true
  | _ => false

/-- A reader from blocking to its return. -/
def reads : Role Task → Bool
  | waits | woken | drops | fails => true
  | _ => false

/-- A reader that has not taken one from `zombcount`. -/
def owes : Role Task → Bool
  | fails => false
  | _ => true

end Role

/-- The part of a unit that closing is about. -/
structure Waiting (Task : Type) where
  role : Task → Role Task
  readers : List Task
  zombcount : Int
  found : List Task

namespace Waiting

variable {Task : Type} (w : Waiting Task)

/-- Some close is in its loops. -/
def Closing : Prop := ∃ c, (w.role c).closes = true

/-- `zombcount` is the number of readers that a close has found and that have not taken
one from it; and who has found which readers. -/
structure Inv : Prop where
  nodup : w.readers.Nodup
  queued : ∀ r, r ∈ w.readers ↔ w.role r = .waits
  once : w.found.Nodup
  found : ∀ r ∈ w.found, (w.role r).reads = true
  failing : ∀ r, w.role r = .drops ∨ w.role r = .fails → r ∈ w.found
  count : w.zombcount = w.found.countP fun r => (w.role r).owes
  single : ∀ c d, (w.role c).closes = true → (w.role d).closes = true → c = d
  zeroed : ∀ c, w.role c = .zeroed → w.zombcount = 0
  counts : ∀ c rdr, w.role c = .counts rdr → ∃ done rest, w.readers = done ++ rdr :: rest ∧
    ∀ r ∈ w.readers, r ∈ w.found ↔ r ∈ done
  unblocks : ∀ c, w.role c = .unblocks → ∀ r ∈ w.readers, r ∈ w.found
  quiet : ¬w.Closing → ∀ r ∈ w.readers, r ∉ w.found
  stray : ∀ r, r ∉ w.found → w.role r = .woken → w.zombcount = 0 ∧ (w.Closing → w.readers = [])

variable {w} {t r c : Task}

/-- A reader that has been found and has not taken one from `zombcount` is in the count. -/
theorem Inv.zombcount_ne (inv : w.Inv) (found : r ∈ w.found) (owes : (w.role r).owes = true) :
    w.zombcount ≠ 0 := by
  have positive : 0 < w.found.countP fun r => (w.role r).owes :=
    List.countP_pos_iff.mpr ⟨r, found, owes⟩
  rw [inv.count]
  omega

/-- A reader that looks at `zombcount` finds it positive if a close has found it, and
only then. -/
theorem Inv.woken_iff (inv : w.Inv) (woken : w.role r = .woken) :
    w.zombcount ≠ 0 ↔ r ∈ w.found := by
  constructor
  · intro some
    by_contra stray
    exact some (inv.stray r stray woken).1
  · intro found
    exact inv.zombcount_ne found (by rw [woken]; rfl)

theorem Inv.alone (inv : w.Inv) (closes : (w.role t).closes = true) (c : Task) (ne : c ≠ t) :
    (w.role c).closes = false :=
  Bool.eq_false_iff.mpr fun other => ne (inv.single c t other closes)

/-- Nobody on the queue has been found while `zombcount` is 0. -/
theorem Inv.fresh (inv : w.Inv) (zero : w.zombcount = 0) : ∀ r ∈ w.readers, r ∉ w.found :=
  fun r queued found => inv.zombcount_ne found (by rw [(inv.queued r).mp queued]; rfl) zero

variable [DecidableEq Task]

/-- A task that is no close and gets another such role leaves the closes alone. -/
theorem update_closes {role : Task → Role Task} {after : Role Task}
    (before : (role t).closes = false) (no : after.closes = false) (c : Task)
    (closes : (update role t after c).closes = true ∨ (role c).closes = true) :
    update role t after c = role c := by
  refine update_of_ne ?_ _ _
  rintro rfl
  simp [before, no] at closes

/-- The number of readers that have not taken one depends on the roles of those found. -/
theorem countP_update {role : Task → Role Task} {after : Role Task} {found : List Task}
    (same : t ∈ found → after.owes = (role t).owes) :
    (found.countP fun r => (update role t after r).owes) = found.countP fun r => (role r).owes := by
  refine List.countP_congr fun r member => ?_
  by_cases isTask : r = t
  · subst isTask
    rw [update_self, same member]
  · rw [update_of_ne isTask]

/-- A reader joins the queue while no close is in its loops. -/
theorem Inv.join (inv : w.Inv) (other : w.role t = .other) (idle : ¬w.Closing) :
    { w with role := update w.role t .waits, readers := w.readers ++ [t] }.Inv := by
  have notQueued : t ∉ w.readers := fun member => by
    simp [(inv.queued t).mp member] at other
  have notFound : t ∉ w.found := fun member => by
    have reads := inv.found t member
    simp [other, Role.reads] at reads
  have away : ∀ r ∈ w.found, update w.role t .waits r = w.role r := by
    intro r member
    refine update_of_ne ?_ _ _
    rintro rfl
    exact notFound member
  have noClose : ∀ c, (update w.role t .waits c).closes = true → False := fun c closes => by
    rw [update_closes (by rw [other]; rfl) rfl c (.inl closes)] at closes
    exact idle ⟨c, closes⟩
  refine ⟨?_, fun r => ?_, inv.once, fun r member => ?_, fun r failing => ?_, ?_,
    fun c d closes => (noClose c closes).elim, fun c at_ => ?_, fun c rdr at_ => ?_,
    fun c at_ => ?_, fun _ r member => ?_, fun r stray woken => ?_⟩
  · refine List.nodup_append.mpr ⟨inv.nodup, List.nodup_singleton t, fun r queued s single => ?_⟩
    obtain rfl := List.mem_singleton.mp single
    rintro rfl
    exact notQueued queued
  · by_cases same : r = t
    · subst same
      simp
    · simp [same, inv.queued r]
  · simp only [away r member]
    exact inv.found r member
  · by_cases same : r = t
    · subst same
      simp at failing
    · simp only [update_of_ne same] at failing
      exact inv.failing r failing
  · exact inv.count.trans (congrArg _ (countP_update fun member => absurd member notFound).symm)
  · exact (noClose c (congrArg Role.closes at_)).elim
  · exact (noClose c (congrArg Role.closes at_)).elim
  · exact (noClose c (congrArg Role.closes at_)).elim
  · rcases List.mem_append.mp member with queued | isTask
    · exact inv.quiet idle r queued
    · obtain rfl := List.mem_singleton.mp isTask
      exact notFound
  · by_cases same : r = t
    · subst same
      simp at woken
    · simp only [update_of_ne same] at woken
      exact ⟨(inv.stray r stray woken).1, fun ⟨c, closes⟩ => (noClose c closes).elim⟩

/-- The first reader is unblocked, by a close or else when `zombcount` is 0. -/
theorem Inv.wake (inv : w.Inv) {rest : List Task} (head : w.readers = t :: rest)
    (allowed : (∃ c, w.role c = .unblocks) ∨ ¬w.Closing ∧ w.zombcount = 0) :
    { w with role := update w.role t .woken, readers := rest }.Inv := by
  have waits : w.role t = .waits := (inv.queued t).mp (by rw [head]; exact List.mem_cons_self)
  have nodup : t ∉ rest ∧ rest.Nodup := List.nodup_cons.mp (head ▸ inv.nodup)
  have queued : ∀ r ∈ rest, r ∈ w.readers := fun r member => by
    rw [head]
    exact List.mem_cons_of_mem _ member
  have closes : ∀ c, (update w.role t .woken c).closes = true ∨ (w.role c).closes = true →
      update w.role t .woken c = w.role c := update_closes (by rw [waits]; rfl) rfl
  have closing : (∃ c, (update w.role t .woken c).closes = true) ↔ w.Closing := by
    constructor
    · rintro ⟨c, isClose⟩
      exact ⟨c, by rw [← closes c (.inl isClose)]; exact isClose⟩
    · rintro ⟨c, isClose⟩
      exact ⟨c, by rw [closes c (.inr isClose)]; exact isClose⟩
  have back : ∀ c x, x.closes = true → update w.role t .woken c = x → w.role c = x :=
    fun c x isClose at_ => (closes c (.inl (at_ ▸ isClose))).symm.trans at_
  refine ⟨nodup.2, fun r => ?_, inv.once, fun r member => ?_, fun r failing => ?_, ?_,
    fun c d isClose isClose' => ?_, fun c at_ => inv.zeroed c (back c _ rfl at_), fun c rdr at_ => ?_,
    fun c at_ r member => inv.unblocks c (back c _ rfl at_) r (queued r member),
    fun idle r member => inv.quiet (fun some => idle (closing.mpr some)) r (queued r member),
    fun r stray woken => ?_⟩
  · by_cases same : r = t
    · subst same
      simp [nodup.1]
    · have before := inv.queued r
      simp only [head, List.mem_cons, same, false_or] at before
      simp only [update_of_ne same, before]
  · by_cases same : r = t
    · subst same
      simp [Role.reads]
    · simp only [update_of_ne same]
      exact inv.found r member
  · by_cases same : r = t
    · subst same
      simp at failing
    · simp only [update_of_ne same] at failing
      exact inv.failing r failing
  · exact inv.count.trans (congrArg _ (countP_update fun _ => by rw [waits]; rfl).symm)
  · simp only [closes c (.inl isClose)] at isClose
    simp only [closes d (.inl isClose')] at isClose'
    exact inv.single c d isClose isClose'
  · -- no close is counting
    have counting := back c _ rfl at_
    rcases allowed with ⟨d, unblocks⟩ | ⟨idle, -⟩
    · have same := inv.single c d (by rw [counting]; rfl) (by rw [unblocks]; rfl)
      simp [← same, counting] at unblocks
    · exact absurd ⟨c, by rw [counting]; rfl⟩ idle
  · by_cases same : r = t
    · subst same
      rcases allowed with ⟨d, unblocks⟩ | ⟨idle, zero⟩
      · exact absurd (inv.unblocks d unblocks r (by rw [head]; exact List.mem_cons_self)) stray
      · exact ⟨zero, fun some => absurd (closing.mp some) idle⟩
    · simp only [update_of_ne same] at woken
      obtain ⟨zero, empty⟩ := inv.stray r stray woken
      refine ⟨zero, fun some => ?_⟩
      rw [empty (closing.mp some)] at head
      exact absurd head (by simp)

/-- A reader that is not on the queue goes on. -/
theorem Inv.reader (inv : w.Inv) {after : Role Task} {zombcount : Int} {found : List Task}
    (before : (w.role t).closes = false ∧ w.role t ≠ .waits)
    (no : after.closes = false ∧ after ≠ .waits) (woken : after ≠ .woken)
    (others : ∀ r, r ≠ t → (r ∈ found ↔ r ∈ w.found)) (once : found.Nodup)
    (own : t ∈ found → after.reads = true) (failing : after = .drops ∨ after = .fails → t ∈ found)
    (count : zombcount = found.countP fun r => (update w.role t after r).owes)
    (zero : w.zombcount = 0 → zombcount = 0) :
    { w with role := update w.role t after, zombcount := zombcount, found := found }.Inv := by
  have closes := fun c => update_closes before.1 no.1 c
  have back : ∀ c x, x.closes = true → update w.role t after c = x → w.role c = x :=
    fun c x isClose at_ => (closes c (.inl (at_ ▸ isClose))).symm.trans at_
  have closing : (∃ c, (update w.role t after c).closes = true) ↔ w.Closing := by
    constructor
    · rintro ⟨c, isClose⟩
      exact ⟨c, by rw [← closes c (.inl isClose)]; exact isClose⟩
    · rintro ⟨c, isClose⟩
      exact ⟨c, by rw [closes c (.inr isClose)]; exact isClose⟩
  have queued : ∀ r ∈ w.readers, r ∈ found ↔ r ∈ w.found := by
    intro r member
    refine others r ?_
    rintro rfl
    exact before.2 ((inv.queued r).mp member)
  refine ⟨inv.nodup, fun r => ?_, once, fun r member => ?_, fun r fails => ?_, count,
    fun c d isClose isClose' => ?_, fun c at_ => zero (inv.zeroed c (back c _ rfl at_)),
    fun c rdr at_ => ?_,
    fun c at_ r member => (queued r member).mpr (inv.unblocks c (back c _ rfl at_) r member),
    fun idle r member => ?_, fun r stray isWoken => ?_⟩
  · by_cases same : r = t
    · subst same
      have notQueued : r ∉ w.readers := fun member => before.2 ((inv.queued r).mp member)
      simp [notQueued, no.2]
    · simp only [update_of_ne same, inv.queued r]
  · by_cases same : r = t
    · subst same
      simp only [update_self, own member]
    · simp only [update_of_ne same]
      exact inv.found r ((others r same).mp member)
  · by_cases same : r = t
    · subst same
      simp only [update_self] at fails
      exact failing fails
    · simp only [update_of_ne same] at fails
      exact (others r same).mpr (inv.failing r fails)
  · simp only [closes c (.inl isClose)] at isClose
    simp only [closes d (.inl isClose')] at isClose'
    exact inv.single c d isClose isClose'
  · obtain ⟨done, rest, split, counted⟩ := inv.counts c rdr (back c _ rfl at_)
    exact ⟨done, rest, split, fun r member => (queued r member).trans (counted r member)⟩
  · rw [queued r member]
    exact inv.quiet (fun some => idle (closing.mpr some)) r member
  · by_cases same : r = t
    · subst same
      simp only [update_self] at isWoken
      exact absurd isWoken woken
    · simp only [update_of_ne same] at isWoken
      obtain ⟨isZero, empty⟩ := inv.stray r (fun member => stray ((others r same).mpr member)) isWoken
      exact ⟨zero isZero, fun some => empty (closing.mp some)⟩

/-- A reader finds `zombcount` positive. -/
theorem Inv.look (inv : w.Inv) (woken : w.role t = .woken) (some : w.zombcount ≠ 0) :
    { w with role := update w.role t .drops }.Inv := by
  refine inv.reader (by simp [woken, Role.closes]) (by simp [Role.closes]) (by simp)
    (fun _ _ => Iff.rfl) inv.once (fun _ => rfl) (fun _ => (inv.woken_iff woken).mp some) ?_ id
  exact inv.count.trans (congrArg _ (countP_update fun _ => by rw [woken]; rfl).symm)

/-- A reader finds `zombcount` 0 and goes on. -/
theorem Inv.pass (inv : w.Inv) (woken : w.role t = .woken) (zero : w.zombcount = 0) :
    { w with role := update w.role t .other }.Inv := by
  have stray : t ∉ w.found := fun found => (inv.woken_iff woken).mpr found zero
  refine inv.reader (by simp [woken, Role.closes]) (by simp [Role.closes]) (by simp)
    (fun _ _ => Iff.rfl) inv.once (fun found => absurd found stray) (by simp) ?_ id
  exact inv.count.trans (congrArg _ (countP_update fun found => absurd found stray).symm)

/-- A reader takes one from `zombcount`. -/
theorem Inv.take (inv : w.Inv) (drops : w.role t = .drops) :
    { w with role := update w.role t .fails, zombcount := w.zombcount - 1 }.Inv := by
  have found := inv.failing t (.inl drops)
  have some := inv.zombcount_ne found (by rw [drops]; rfl)
  refine inv.reader (by simp [drops, Role.closes]) (by simp [Role.closes]) (by simp)
    (fun _ _ => Iff.rfl) inv.once (fun _ => rfl) (fun _ => found) ?_ fun zero => absurd zero some
  -- the reader itself is the one that does not count any more
  have perm := List.perm_cons_erase found
  have notMem : t ∉ w.found.erase t := fun member => (inv.once.mem_erase_iff.mp member).1 rfl
  have before := inv.count
  rw [perm.countP_eq, List.countP_cons_of_pos (by rw [drops]; rfl)] at before
  rw [perm.countP_eq, List.countP_cons_of_neg (by simp [Role.owes]),
    countP_update fun member => absurd member notMem]
  omega

/-- A reader that has taken one returns. -/
theorem Inv.leave (inv : w.Inv) (fails : w.role t = .fails) :
    { w with role := update w.role t .other, found := w.found.erase t }.Inv := by
  have found := inv.failing t (.inr fails)
  have notMem : t ∉ w.found.erase t := fun member => (inv.once.mem_erase_iff.mp member).1 rfl
  refine inv.reader (by simp [fails, Role.closes]) (by simp [Role.closes]) (by simp)
    (fun r ne => List.mem_erase_of_ne ne) (inv.once.erase t) (fun member => absurd member notMem)
    (by simp) ?_ id
  have before := inv.count
  rw [(List.perm_cons_erase found).countP_eq, List.countP_cons_of_neg (by simp [fails, Role.owes])]
    at before
  rw [countP_update fun member => absurd member notMem]
  exact before

/-- A close goes on. -/
theorem Inv.closer (inv : w.Inv) {after : Role Task} {zombcount : Int} {found : List Task}
    (before : (w.role t).reads = false) (no : after.reads = false)
    (alone : ∀ c, c ≠ t → (w.role c).closes = false) (once : found.Nodup)
    (reads : ∀ r ∈ found, (w.role r).reads = true) (keeps : ∀ r ∈ w.found, r ∈ found)
    (count : zombcount = found.countP fun r => (w.role r).owes)
    (zeroed : after = .zeroed → zombcount = 0)
    (counts : ∀ rdr, after = .counts rdr → ∃ done rest, w.readers = done ++ rdr :: rest ∧
      ∀ r ∈ w.readers, r ∈ found ↔ r ∈ done)
    (unblocks : after = .unblocks → ∀ r ∈ w.readers, r ∈ found)
    (quiet : after.closes = false → ∀ r ∈ w.readers, r ∉ found)
    (stray : ∀ r, r ∉ found → w.role r = .woken →
      zombcount = 0 ∧ (after.closes = true → w.readers = [])) :
    { w with role := update w.role t after, zombcount := zombcount, found := found }.Inv := by
  have own : ∀ c, (update w.role t after c).closes = true → c = t := by
    intro c closes
    by_contra ne
    rw [update_of_ne ne, alone c ne] at closes
    exact Bool.noConfusion closes
  have here : ∀ c x, x.closes = true → update w.role t after c = x → after = x := by
    intro c x closes at_
    have same := own c (at_ ▸ closes)
    rwa [same, update_self] at at_
  have away : ∀ r, (w.role r).reads = true → update w.role t after r = w.role r := by
    intro r isReader
    refine update_of_ne ?_ _ _
    rintro rfl
    rw [before] at isReader
    exact Bool.noConfusion isReader
  have back : ∀ r, (update w.role t after r).reads = true → update w.role t after r = w.role r := by
    intro r isReader
    refine update_of_ne ?_ _ _
    rintro rfl
    rw [update_self, no] at isReader
    exact Bool.noConfusion isReader
  refine ⟨inv.nodup, fun r => ?_, once, fun r member => ?_, fun r fails => ?_, ?_,
    fun c d isClose isClose' => (own c isClose).trans (own d isClose').symm,
    fun c at_ => zeroed (here c _ rfl at_), fun c rdr at_ => counts rdr (here c _ rfl at_),
    fun c at_ => unblocks (here c _ rfl at_), fun idle => quiet ?_, fun r isStray woken => ?_⟩
  · rw [inv.queued r]
    constructor
    · exact fun waits => (away r (by rw [waits]; rfl)).trans waits
    · exact fun waits => (back r (congrArg Role.reads waits)).symm.trans waits
  · exact (congrArg Role.reads (away r (reads r member))).trans (reads r member)
  · have same : update w.role t after r = w.role r :=
      back r (by rcases fails with at_ | at_ <;> exact congrArg Role.reads at_)
    simp only [same] at fails
    exact keeps r (inv.failing r fails)
  · refine count.trans (congrArg _ (countP_update fun member => ?_).symm)
    exact absurd ((reads t member).symm.trans before) (by decide)
  · by_contra closes
    exact idle ⟨t, by simpa using closes⟩
  · have same := back r (congrArg Role.reads woken)
    obtain ⟨zero, empty⟩ := stray r isStray (same.symm.trans woken)
    refine ⟨zero, fun ⟨c, closes⟩ => empty ?_⟩
    have isTask := own c closes
    simpa only [isTask, update_self] using closes

/-- A close clears `zombcount`. -/
theorem Inv.clear (inv : w.Inv) (other : w.role t = .other) (idle : ¬w.Closing)
    (zero : w.zombcount = 0) (nobody : w.readers = [] ∨ ∀ r, w.role r ≠ .woken) :
    { w with role := update w.role t .zeroed, zombcount := 0 }.Inv := by
  refine inv.closer (by rw [other]; rfl) rfl (fun c _ => ?_) inv.once inv.found (fun _ => id)
    (zero.symm.trans inv.count) (fun _ => rfl) (by simp) (by simp) (by simp [Role.closes])
    fun r _ woken => ⟨rfl, fun _ => nobody.resolve_right fun none => none r woken⟩
  exact Bool.eq_false_iff.mpr fun closes => idle ⟨c, closes⟩

/-- A close begins to count. -/
theorem Inv.begin (inv : w.Inv) (zeroed : w.role t = .zeroed) {rdr : Task} {rest : List Task}
    (head : w.readers = rdr :: rest) : { w with role := update w.role t (.counts rdr) }.Inv := by
  have closes : (w.role t).closes = true := by rw [zeroed]; rfl
  have fresh := inv.fresh (inv.zeroed t zeroed)
  refine inv.closer (by rw [zeroed]; rfl) rfl (inv.alone closes) inv.once inv.found (fun _ => id)
    inv.count (by simp) ?_ (by simp) (by simp [Role.closes]) fun r stray woken => ?_
  · intro next isNext
    obtain rfl := Role.counts.inj isNext
    exact ⟨[], rest, head, fun r queued => iff_of_false (fresh r queued) (List.not_mem_nil)⟩
  · obtain ⟨zero, empty⟩ := inv.stray r stray woken
    exact ⟨zero, fun _ => empty ⟨t, closes⟩⟩

/-- A close has come to the end of an empty queue. -/
theorem Inv.emptied (inv : w.Inv) (closes : (w.role t).closes = true) (empty : w.readers = []) :
    { w with role := update w.role t .other }.Inv := by
  have noReader : (w.role t).reads = false := by
    cases role : w.role t <;> simp_all [Role.closes, Role.reads]
  refine inv.closer noReader rfl (inv.alone closes) inv.once inv.found (fun _ => id) inv.count
    (by simp) (by simp) (by simp) (fun _ r queued => ?_) fun r stray woken => ?_
  · simp [empty] at queued
  · exact ⟨(inv.stray r stray woken).1, fun _ => empty⟩

/-- A close counts a reader and goes on to the next one or to unblocking. -/
theorem Inv.countOne (inv : w.Inv) {rdr : Task} (counts : w.role t = .counts rdr) :
    ∃ rest, w.readers.dropWhile (· ≠ rdr) = rdr :: rest ∧
      { w with
        role := update w.role t (match rest with
          | [] => .unblocks
          | next :: _ => .counts next)
        zombcount := w.zombcount + 1
        found := rdr :: w.found }.Inv := by
  have closes : (w.role t).closes = true := by rw [counts]; rfl
  obtain ⟨done, rest, split, counted⟩ := inv.counts t rdr counts
  have nodup := inv.nodup
  rw [split] at nodup
  have notDone : rdr ∉ done := fun member =>
    (List.nodup_append.mp nodup).2.2 rdr member rdr List.mem_cons_self rfl
  have queued : rdr ∈ w.readers := by simp [split]
  have waits := (inv.queued rdr).mp queued
  have notFound : rdr ∉ w.found := fun found => notDone ((counted rdr queued).mp found)
  refine ⟨rest, ?_, ?_⟩
  · rw [split, List.dropWhile_append_of_pos]
    · simp
    · intro r member
      simp only [ne_eq, decide_eq_true_eq]
      rintro rfl
      exact notDone member
  · have found : ∀ r ∈ w.readers, r ∈ rdr :: w.found ↔ r ∈ done ++ [rdr] := by
      intro r member
      rw [List.mem_cons, List.mem_append, List.mem_singleton, counted r member, or_comm]
    refine inv.closer (by rw [counts]; rfl) (by cases rest <;> rfl) (inv.alone closes)
      (List.nodup_cons.mpr ⟨notFound, inv.once⟩) (fun r member => ?_)
      (fun r => List.mem_cons_of_mem _) ?_ (by cases rest <;> simp) (fun next isNext => ?_)
      (fun isLast r member => ?_) (fun none => ?_) fun r stray woken => ?_
    · rcases List.mem_cons.mp member with rfl | before
      · rw [waits]
        rfl
      · exact inv.found r before
    · rw [List.countP_cons_of_pos (by rw [waits]; rfl), inv.count]
      push_cast
      rfl
    · cases rest with
      | nil => simp at isNext
      | cons head tail =>
          obtain rfl := Role.counts.inj isNext
          exact ⟨done ++ [rdr], tail, by simp [split], found⟩
    · cases rest with
      | nil => exact (found r member).mpr (by rwa [split] at member)
      | cons head tail => simp at isLast
    · cases rest <;> simp [Role.closes] at none
    · have empty := (inv.stray r (fun member => stray (List.mem_cons_of_mem _ member)) woken).2
      rw [empty ⟨t, closes⟩] at queued
      simp at queued

end Waiting

/-! ## Guarded runs -/

namespace TtyPc

variable {Task : Type}

def role : TtyPc Task → Role Task
  | blocked _ => .waits
  | woken _ | check _ => .woken
  | drop => .drops
  | fail => .fails
  | closeHead => .zeroed
  | closeCount rdr => .counts rdr
  | closeUnblock => .unblocks
  | _ => .other

/-- The task is in the critical section `refcs`. -/
def inRefcs : TtyPc Task → Bool
  | openTest | openBusy | openSet | openLeave | closeTest | closeBad | closeLeave | check _ | drop
  | fail | again _ => true
  | _ => false

end TtyPc

namespace TtyUnit

variable {Task : Type} (unit : TtyUnit Task)

def waiting : Waiting Task where
  role task := (unit.pc task).role
  readers := unit.readers
  zombcount := unit.zombcount
  found := unit.found

/-- The condition for the steps of a task.  `tty_open` makes its test when `zombcount`
is 0, or else when the unit is open or has blocked readers.  `tty_close` clears
`zombcount` when it is 0, no other close is in its loops, and it will find no reader or
no reader that has been unblocked is still to look at `zombcount`.  No reader blocks
while a close is in its loops. -/
def RunGuard : TtyPc Task → Prop
  | .openTest => unit.zombcount = 0 ∨ unit.isOpen = true ∨ unit.readers ≠ []
  | .closeZero => unit.zombcount = 0 ∧ (∀ c, (unit.pc c).role.closes = false) ∧
      (unit.readers = [] ∨ ∀ r, (unit.pc r).role ≠ .woken)
  | .block _ => ∀ c, (unit.pc c).role.closes = false
  | _ => True

/-- The condition under which a close and its readers are right.  The interrupt unblocks
readers while a close does, or else when `zombcount` is 0 and no close is in its loops. -/
def Guarded : TtyAction Task → Prop
  | .run task => unit.RunGuard (unit.pc task)
  | .intrRun => unit.intr = .wake → unit.readers ≠ [] →
      (∃ c, (unit.pc c).role = .unblocks) ∨
        (∀ c, (unit.pc c).role.closes = false) ∧ unit.zombcount = 0
  | _ => True

/-- Who is in a critical section is the one that holds it. -/
def Exclusive (inside : Task → Bool) (holder : Option Task) : Prop :=
  ∀ task, inside task = true → holder = some task

section Exclusive

variable [DecidableEq Task] {inside : Task → Bool} {holder : Option Task} {t : Task}

theorem Exclusive.enter (ex : Exclusive inside holder) (free : holder = none) :
    Exclusive (update inside t true) (some t) := by
  intro other isIn
  by_cases same : other = t
  · rw [same]
  · rw [update_of_ne same] at isIn
    exact absurd (free.symm.trans (ex other isIn)) (by simp)

theorem Exclusive.stay (ex : Exclusive inside holder) {after : Bool}
    (before : after = true → inside t = true) : Exclusive (update inside t after) holder := by
  intro other isIn
  by_cases same : other = t
  · subst same
    rw [update_self] at isIn
    exact ex other (before isIn)
  · rw [update_of_ne same] at isIn
    exact ex other isIn

theorem Exclusive.leave (ex : Exclusive inside holder) (here : inside t = true) :
    Exclusive (update inside t false) none := by
  intro other isIn
  by_cases same : other = t
  · subst same
    simp at isIn
  · rw [update_of_ne same] at isIn
    have both := (ex t here).symm.trans (ex other isIn)
    exact absurd (Option.some.inj both).symm same

end Exclusive

/-- The invariant of guarded runs. -/
structure Inv : Prop where
  waiting : unit.waiting.Inv
  refcs : Exclusive (fun task => (unit.pc task).inRefcs) unit.refcs
  returns : ∀ ret ∈ unit.returns, ret.rc = - EIO ↔ ret.found = true

theorem start_inv (cook : Ttycook) : (start cook : TtyUnit Task).Inv where
  waiting := by
    refine ⟨List.nodup_nil, ?_, List.nodup_nil, ?_, ?_, rfl, ?_, ?_, ?_, ?_, ?_, ?_⟩ <;>
      simp [start, TtyUnit.waiting, TtyPc.role, Role.closes]
  refcs _ isIn := Bool.noConfusion isIn
  returns _ member := by simp [start] at member

variable {unit} {unit' : TtyUnit Task} {t : Task} {pc : TtyPc Task}

/-- A step that leaves the tasks, the queue and the counts alone. -/
theorem Inv.same (inv : unit.Inv) (pcs : unit'.pc = unit.pc)
    (same : unit'.readers = unit.readers ∧ unit'.zombcount = unit.zombcount ∧
      unit'.found = unit.found ∧ unit'.returns = unit.returns)
    (refcs : unit'.refcs = unit.refcs) : unit'.Inv where
  waiting := by
    have waiting : unit'.waiting = unit.waiting := by
      simp only [TtyUnit.waiting, pcs, same]
    rw [waiting]
    exact inv.waiting
  refcs := by
    rw [pcs, refcs]
    exact inv.refcs
  returns := by
    rw [same.2.2.2]
    exact inv.returns

section Moves

variable [DecidableEq Task]

/-- The waiting readers after a step of one task. -/
theorem waiting_eq (pcs : unit'.pc = update unit.pc t pc) : unit'.waiting =
    { role := update unit.waiting.role t pc.role
      readers := unit'.readers
      zombcount := unit'.zombcount
      found := unit'.found } := by
  have role : unit'.waiting.role = update unit.waiting.role t pc.role := by
    funext other
    by_cases same : other = t
    · subst same
      simp [TtyUnit.waiting, pcs]
    · simp [TtyUnit.waiting, pcs, same]
  rw [← role]
  rfl

theorem inRefcs_eq (pcs : unit'.pc = update unit.pc t pc) :
    (fun task => (unit'.pc task).inRefcs) =
      update (fun task => (unit.pc task).inRefcs) t pc.inRefcs := by
  funext other
  by_cases same : other = t
  · subst same
    simp [pcs]
  · simp [pcs, same]

/-- A step of one task. -/
theorem Inv.move (inv : unit.Inv) (pcs : unit'.pc = update unit.pc t pc)
    (waiting : Waiting.Inv
      { role := update unit.waiting.role t pc.role
        readers := unit'.readers
        zombcount := unit'.zombcount
        found := unit'.found })
    (refcs : Exclusive (update (fun task => (unit.pc task).inRefcs) t pc.inRefcs) unit'.refcs)
    (returns : unit'.returns = unit.returns) : unit'.Inv where
  waiting := by
    rw [waiting_eq pcs]
    exact waiting
  refcs := by
    rw [inRefcs_eq pcs]
    exact refcs
  returns := by
    rw [returns]
    exact inv.returns

/-- A step that has nothing to do with the waiting readers. -/
theorem Inv.plain (inv : unit.Inv) (pcs : unit'.pc = update unit.pc t pc)
    (role : pc.role = (unit.pc t).role)
    (same : unit'.readers = unit.readers ∧ unit'.zombcount = unit.zombcount ∧
      unit'.found = unit.found ∧ unit'.returns = unit.returns)
    (refcs : Exclusive (update (fun task => (unit.pc task).inRefcs) t pc.inRefcs) unit'.refcs) :
    unit'.Inv := by
  refine inv.move pcs ?_ refcs same.2.2.2
  have roles : update unit.waiting.role t pc.role = unit.waiting.role := by
    rw [role]
    exact Function.update_eq_self t _
  rw [roles, same.1, same.2.1, same.2.2.1]
  exact inv.waiting

/-- A call of `tty_read` ends that no close has found blocked. -/
theorem Inv.ret (inv : unit.Inv) (other : (unit.pc t).role = .other) {rc : Int} (fine : 0 ≤ rc)
    {csrecv : Option (Option Task)} :
    ({ unit with csrecv := csrecv }.ret t rc).Inv := by
  have stray : t ∉ unit.found := fun member => by
    have reads := inv.waiting.found t member
    simp [TtyUnit.waiting, other, Role.reads] at reads
  have same : unit.found.erase t = unit.found := List.erase_of_not_mem stray
  have after : (goto { unit with csrecv := csrecv } t .out).Inv :=
    inv.plain rfl other.symm ⟨rfl, rfl, rfl, rfl⟩ (inv.refcs.stay (by simp [TtyPc.inRefcs]))
  have isRet : { unit with csrecv := csrecv }.ret t rc =
      { goto { unit with csrecv := csrecv } t .out with
        returns := unit.returns ++ [{ task := t, found := false, rc := rc }] } := by
    simp [TtyUnit.ret, goto, same, stray]
  rw [isRet]
  refine ⟨after.waiting, after.refcs, fun ret member => ?_⟩
  rcases List.mem_append.mp member with before | isNew
  · exact inv.returns ret before
  · obtain rfl := List.mem_singleton.mp isNew
    simp only [ EIO, Bool.false_eq_true, iff_false]
    omega

/-- A reader that has taken one from `zombcount` returns. -/
theorem Inv.fail (inv : unit.Inv) (fails : unit.pc t = .fail) :
    ({ unit with refcs := none }.ret t (- EIO)).Inv := by
  have role : unit.waiting.role t = .fails := by simp [TtyUnit.waiting, fails, TtyPc.role]
  have found : t ∈ unit.found := inv.waiting.failing t (.inr role)
  have pcs : ({ unit with refcs := none }.ret t (- EIO)).pc = update unit.pc t .out := rfl
  refine ⟨?_, ?_, fun ret member => ?_⟩
  · rw [waiting_eq pcs]
    exact inv.waiting.leave role
  · rw [inRefcs_eq pcs]
    exact inv.refcs.leave (by simp [fails, TtyPc.inRefcs])
  · rcases List.mem_append.mp member with before | isNew
    · exact inv.returns ret before
    · obtain rfl := List.mem_singleton.mp isNew
      simp [found]

/-- The first reader on the queue is unblocked. -/
theorem Inv.unblock (inv : unit.Inv) {rdr : Task} {rest : List Task}
    (head : unit.readers = rdr :: rest)
    (allowed : (∃ c, (unit.pc c).role = .unblocks) ∨
      (∀ c, (unit.pc c).role.closes = false) ∧ unit.zombcount = 0) :
    (unit.unblock rdr rest).Inv ∧ (unit.unblock rdr rest).returns = unit.returns := by
  have waits : unit.waiting.role rdr = .waits :=
    (inv.waiting.queued rdr).mp (by
      change rdr ∈ unit.readers
      rw [head]
      exact List.mem_cons_self)
  have isBlocked : ∃ size, unit.pc rdr = .blocked size := by
    simp only [TtyUnit.waiting] at waits
    cases pc : unit.pc rdr <;> simp_all [TtyPc.role]
  obtain ⟨size, pc⟩ := isBlocked
  have isUnblock : unit.unblock rdr rest =
      { unit with readers := rest }.goto rdr (.woken size) := by
    simp only [TtyUnit.unblock, pc]
  rw [isUnblock]
  refine ⟨inv.move rfl (inv.waiting.wake head (allowed.imp_right fun both => ⟨?_, both.2⟩))
    (inv.refcs.stay (by simp [TtyPc.inRefcs])) rfl, rfl⟩
  rintro ⟨c, closes⟩
  simp [TtyUnit.waiting, both.1 c] at closes

/-- A step of a task. -/
theorem Inv.run_step (inv : unit.Inv) (guarded : unit.Guarded (.run t))
    (taken : unit.run t = some unit') : unit'.Inv := by
  have role : ∀ {x}, unit.pc t = x → unit.waiting.role t = x.role := fun at_ => by
    simp [TtyUnit.waiting, at_]
  have idle : (∀ c, (unit.pc c).role.closes = false) → ¬unit.waiting.Closing := by
    rintro none ⟨c, closes⟩
    simp [TtyUnit.waiting, none c] at closes
  have here : ∀ {x}, unit.pc t = x → x.inRefcs = true → (unit.pc t).inRefcs = true :=
    fun at_ isIn => by rw [at_]; exact isIn
  simp only [Guarded, RunGuard] at guarded
  cases at_ : unit.pc t with
  | out => simp [run, at_] at taken
  | openEnter | closeEnter =>
      simp only [run, at_, Option.ite_none_right_eq_some, Option.some.injEq] at taken
      obtain ⟨free, rfl⟩ := taken
      exact inv.plain rfl (by rw [at_]; rfl) ⟨rfl, rfl, rfl, rfl⟩ (inv.refcs.enter free)
  | openTest =>
      simp only [run, at_] at taken
      split at taken <;> obtain rfl := Option.some.inj taken
      · exact inv.plain rfl (by rw [at_]; rfl) ⟨rfl, rfl, rfl, rfl⟩
          (inv.refcs.stay fun _ => here at_ rfl)
      · exact inv.plain rfl (by rw [at_]; rfl) ⟨rfl, rfl, rfl, rfl⟩
          (inv.refcs.stay fun _ => here at_ rfl)
  | openSet =>
      simp only [run, at_, Option.some.injEq] at taken
      subst taken
      exact inv.plain rfl (by rw [at_]; rfl) ⟨rfl, rfl, rfl, rfl⟩
        (inv.refcs.stay fun _ => here at_ rfl)
  | openBusy | openLeave | closeBad | closeLeave | again size =>
      simp only [run, at_, Option.some.injEq] at taken
      subst taken
      exact inv.plain rfl (by rw [at_]; rfl) ⟨rfl, rfl, rfl, rfl⟩
        (inv.refcs.leave (here at_ rfl))
  | openSetup => simp [run, at_] at taken
  | closeTest =>
      simp only [run, at_, Option.some.injEq] at taken
      subst taken
      cases unit.isOpen
      · exact inv.plain rfl (by rw [at_]; rfl) ⟨rfl, rfl, rfl, rfl⟩
          (inv.refcs.stay fun _ => here at_ rfl)
      · exact inv.plain rfl (by rw [at_]; rfl) ⟨rfl, rfl, rfl, rfl⟩
          (inv.refcs.stay fun _ => here at_ rfl)
  | closeOff | closeEnd =>
      simp only [run, at_, Option.some.injEq] at taken
      subst taken
      exact inv.plain rfl (by rw [at_]; rfl) ⟨rfl, rfl, rfl, rfl⟩
        (inv.refcs.stay (by simp [TtyPc.inRefcs]))
  | closeZero =>
      simp only [at_] at guarded
      obtain ⟨zero, none, nobody⟩ := guarded
      simp only [run, at_, Option.some.injEq] at taken
      subst taken
      exact inv.move rfl (inv.waiting.clear (role at_) (idle none) zero nobody)
        (inv.refcs.stay (by simp [TtyPc.inRefcs])) rfl
  | closeHead =>
      simp only [run, at_] at taken
      split at taken <;> obtain rfl := Option.some.inj taken
      · exact inv.move rfl (inv.waiting.emptied (by rw [role at_]; rfl) ‹_›)
          (inv.refcs.stay (by simp [TtyPc.inRefcs])) rfl
      · exact inv.move rfl (inv.waiting.begin (role at_) ‹_›)
          (inv.refcs.stay (by simp [TtyPc.inRefcs])) rfl
  | closeCount rdr =>
      obtain ⟨rest, drop, counted⟩ := inv.waiting.countOne (role at_)
      have drop' : unit.readers.dropWhile (· ≠ rdr) = rdr :: rest := drop
      simp only [run, at_, drop'] at taken
      cases rest with
      | nil =>
          obtain rfl := Option.some.inj taken
          exact inv.move rfl counted (inv.refcs.stay (by simp [TtyPc.inRefcs])) rfl
      | cons next tail =>
          obtain rfl := Option.some.inj taken
          exact inv.move rfl counted (inv.refcs.stay (by simp [TtyPc.inRefcs])) rfl
  | closeUnblock =>
      simp only [run, at_] at taken
      split at taken <;> obtain rfl := Option.some.inj taken
      · exact inv.move rfl (inv.waiting.emptied (by rw [role at_]; rfl) ‹_›)
          (inv.refcs.stay (by simp [TtyPc.inRefcs])) rfl
      · exact (inv.unblock ‹_› (.inl ⟨t, by rw [at_]; rfl⟩)).1
  | enter size =>
      simp only [run, at_, Option.ite_none_right_eq_some, Option.some.injEq] at taken
      obtain ⟨-, rfl⟩ := taken
      exact inv.plain rfl (by rw [at_]; rfl) ⟨rfl, rfl, rfl, rfl⟩
        (inv.refcs.stay (by simp [TtyPc.inRefcs]))
  | reading size =>
      simp only [run, at_, Option.map_eq_some_iff] at taken
      obtain ⟨⟨bytes, cook⟩, -, rfl⟩ := taken
      exact inv.plain rfl (by rw [at_]; rfl) ⟨rfl, rfl, rfl, rfl⟩
        (inv.refcs.stay (by simp [TtyPc.inRefcs]))
  | leave size got =>
      simp only [run, at_] at taken
      split at taken <;> obtain rfl := Option.some.inj taken
      · exact inv.ret (by rw [at_]; rfl) (Int.natCast_nonneg got)
      · exact inv.plain rfl (by rw [at_]; rfl) ⟨rfl, rfl, rfl, rfl⟩
          (inv.refcs.stay (by simp [TtyPc.inRefcs]))
  | block size =>
      simp only [at_] at guarded
      simp only [run, at_, Option.some.injEq] at taken
      subst taken
      exact inv.move rfl (inv.waiting.join (role at_) (idle guarded))
        (inv.refcs.stay (by simp [TtyPc.inRefcs])) rfl
  | blocked size => simp [run, at_] at taken
  | woken size =>
      simp only [run, at_, Option.ite_none_right_eq_some, Option.some.injEq] at taken
      obtain ⟨free, rfl⟩ := taken
      exact inv.plain rfl (by rw [at_]; rfl) ⟨rfl, rfl, rfl, rfl⟩ (inv.refcs.enter free)
  | check size =>
      simp only [run, at_] at taken
      split at taken <;> obtain rfl := Option.some.inj taken
      · exact inv.move rfl (inv.waiting.look (role at_) ‹_›)
          (inv.refcs.stay fun _ => here at_ rfl) rfl
      · exact inv.move rfl (inv.waiting.pass (role at_) (not_not.mp ‹_›))
          (inv.refcs.stay fun _ => here at_ rfl) rfl
  | drop =>
      simp only [run, at_, Option.some.injEq] at taken
      subst taken
      exact inv.move rfl (inv.waiting.take (role at_)) (inv.refcs.stay fun _ => here at_ rfl) rfl
  | fail =>
      simp only [run, at_, Option.some.injEq] at taken
      subst taken
      exact inv.fail at_

/-- A step of the interrupt. -/
theorem Inv.intr_step (inv : unit.Inv) (guarded : unit.Guarded .intrRun)
    (taken : unit.intrRun = some unit') : unit'.Inv := by
  cases at_ : unit.intr with
  | idle => simp [intrRun, at_] at taken
  | enter =>
      simp only [intrRun, at_, Option.ite_none_right_eq_some, Option.some.injEq] at taken
      obtain ⟨-, rfl⟩ := taken
      exact inv.same rfl ⟨rfl, rfl, rfl, rfl⟩ rfl
  | recv got | leave =>
      simp only [intrRun, at_, Option.some.injEq] at taken
      subst taken
      exact inv.same rfl ⟨rfl, rfl, rfl, rfl⟩ rfl
  | wake =>
      simp only [intrRun, at_] at taken
      split at taken <;> obtain rfl := Option.some.inj taken
      · exact inv.same rfl ⟨rfl, rfl, rfl, rfl⟩ rfl
      · rename_i head
        exact (inv.unblock head (guarded at_ (by simp [head]))).1

/-- Every step keeps the invariant. -/
theorem Inv.step (inv : unit.Inv) {action : TtyAction Task} (guarded : unit.Guarded action)
    (taken : unit.step action = some unit') : unit'.Inv := by
  cases action with
  | callOpen task | callClose task =>
      simp only [TtyUnit.step, Option.ite_none_right_eq_some, Option.some.injEq] at taken
      obtain ⟨isOut, rfl⟩ := taken
      exact inv.plain rfl (by rw [isOut]; rfl) ⟨rfl, rfl, rfl, rfl⟩
        (inv.refcs.stay (by simp [TtyPc.inRefcs]))
  | callRead task size =>
      simp only [TtyUnit.step, Option.ite_none_right_eq_some, Option.some.injEq] at taken
      obtain ⟨isOut, rfl⟩ := taken
      split
      · exact inv.ret (by rw [isOut]; rfl) (Int.le_refl 0)
      · exact inv.plain rfl (by rw [isOut]; rfl) ⟨rfl, rfl, rfl, rfl⟩
          (inv.refcs.stay (by simp [TtyPc.inRefcs]))
  | run task => exact inv.run_step guarded taken
  | setup task ok =>
      simp only [TtyUnit.step, Option.ite_none_right_eq_some, Option.some.injEq] at taken
      obtain ⟨isSetup, rfl⟩ := taken
      cases ok
      · exact inv.plain rfl (by rw [isSetup]; rfl) ⟨rfl, rfl, rfl, rfl⟩
          (inv.refcs.stay (by simp [TtyPc.inRefcs]))
      · exact inv.plain rfl (by rw [isSetup]; rfl) ⟨rfl, rfl, rfl, rfl⟩
          (inv.refcs.stay (by simp [TtyPc.inRefcs]))
  | intr =>
      simp only [TtyUnit.step, Option.ite_none_right_eq_some, Option.some.injEq] at taken
      obtain ⟨-, rfl⟩ := taken
      exact inv.same rfl ⟨rfl, rfl, rfl, rfl⟩ rfl
  | recv ch =>
      simp only [TtyUnit.step] at taken
      split at taken
      · obtain rfl := Option.some.inj taken
        exact inv.same rfl ⟨rfl, rfl, rfl, rfl⟩ rfl
      · simp at taken
  | intrRun => exact inv.intr_step guarded taken

/-- A reader that a close has found and unblocked returns `-EIO` within four steps. -/
theorem Inv.found_returns (inv : unit.Inv) (found : t ∈ unit.found) {size : Int}
    (woken : unit.pc t = .woken size) (free : unit.refcs = none) :
    ∃ unit', runs TtyUnit.step unit (List.replicate 4 (.run t)) = some unit' ∧
      unit'.returns = unit.returns ++ [{ task := t, found := true, rc := - EIO }] := by
  have positive : unit.zombcount ≠ 0 :=
    inv.waiting.zombcount_ne found (by simp [TtyUnit.waiting, woken, TtyPc.role, Role.owes])
  let checks := { unit with refcs := some t }.goto t (.check size)
  let drops := checks.goto t .drop
  let fails := { drops with zombcount := drops.zombcount - 1 }.goto t .fail
  have first : unit.run t = some checks := by
    simp only [run, woken, free, if_true, checks]
  have second : checks.run t = some drops := by
    simp only [run, checks, goto, update_self, ne_eq, positive, not_false_eq_true, if_true, drops]
  have third : drops.run t = some fails := by
    simp only [run, drops, goto, update_self, fails]
  have fourth : fails.run t = some ({ fails with refcs := none }.ret t (- EIO)) := by
    simp only [run, fails, goto, update_self]
  refine ⟨{ fails with refcs := none }.ret t (- EIO), ?_, ?_⟩
  · simp only [List.replicate, runs, TtyUnit.step, first, second, third, fourth, Option.bind_some]
  · simp [TtyUnit.ret, goto, fails, drops, checks, found]

/-- In every guarded run, `tty_read` returns `-EIO` to the readers that a close has found
blocked, and to no others; `tty_open` gets `-EBUSY` while one of those has not returned;
each of them is still to be unblocked by the close or on its way to its return, and if it
is unblocked, its next four steps with `refcs` free return `-EIO`. -/
theorem close_with_readers {cook : Ttycook}
    (reached : Reached (· = start cook) (fun u a u' => u.step a = some u') Guarded unit) :
    (∀ ret ∈ unit.returns, ret.rc = - EIO ↔ ret.found = true) ∧
    (∀ t, unit.pc t = .openTest → unit.Guarded (.run t) → unit.found ≠ [] →
      unit.run t = some (unit.goto t .openBusy)) ∧
    ∀ r ∈ unit.found,
      (r ∈ unit.readers ∧ ∃ c, (unit.pc c).role.closes = true) ∨
      (∃ size, unit.pc r = .woken size ∧ (unit.refcs = none →
        ∃ unit', runs step unit (List.replicate 4 (.run r)) = some unit' ∧
          unit'.returns = unit.returns ++ [{ task := r, found := true, rc := - EIO }])) ∨
      (∃ size, unit.pc r = .check size) ∨ unit.pc r = .drop ∨ unit.pc r = .fail := by
  have inv : unit.Inv := by
    refine reached.invariant Inv ?_ fun inv guarded taken => inv.step guarded taken
    rintro _ rfl
    exact start_inv cook
  refine ⟨inv.returns, fun t tests guarded some => ?_, fun r found => ?_⟩
  · obtain ⟨r, found⟩ := List.exists_mem_of_ne_nil _ some
    have holder := inv.refcs t (by simp [tests, TtyPc.inRefcs])
    -- a reader that has taken one from `zombcount` is itself in the critical section
    have owes : (unit.waiting.role r).owes = true := by
      by_contra fails
      have isFail : unit.pc r = .fail := by
        simp only [TtyUnit.waiting] at fails
        cases pc : unit.pc r <;> simp_all [TtyPc.role, Role.owes]
      have same := holder.symm.trans (inv.refcs r (by simp [isFail, TtyPc.inRefcs]))
      obtain rfl := Option.some.inj same
      simp [tests] at isFail
    have notZero := inv.waiting.zombcount_ne found owes
    simp only [Guarded, RunGuard, tests] at guarded
    simp only [run, tests, if_pos (guarded.resolve_left notZero)]
  · have reads := inv.waiting.found r found
    simp only [TtyUnit.waiting] at reads
    cases pc : unit.pc r with
    | blocked size =>
        left
        have queued : r ∈ unit.readers := (inv.waiting.queued r).mpr (by
          simp [TtyUnit.waiting, pc, TtyPc.role])
        refine ⟨queued, ?_⟩
        by_contra idle
        exact inv.waiting.quiet idle r queued found
    | woken size => exact .inr (.inl ⟨size, rfl, inv.found_returns found pc⟩)
    | check size => exact .inr (.inr (.inl ⟨size, rfl⟩))
    | drop => exact .inr (.inr (.inr (.inl rfl)))
    | fail => exact .inr (.inr (.inr (.inr rfl)))
    | _ => simp [pc, TtyPc.role, Role.reads] at reads

end Moves

instance decidableRunGuard {n : Nat} (unit : TtyUnit (Fin n)) :
    (pc : TtyPc (Fin n)) → Decidable (unit.RunGuard pc)
  | .openTest => inferInstanceAs (Decidable (_ ∨ _ ∨ _ ≠ _))
  | .closeZero => inferInstanceAs (Decidable (_ ∧ (∀ _, _ = _) ∧ (_ ∨ ∀ _, _ ≠ _)))
  | .block _ => inferInstanceAs (Decidable (∀ _, _ = _))
  | .out | .openEnter | .openBusy | .openSet | .openLeave | .openSetup | .closeEnter | .closeTest
  | .closeBad | .closeLeave | .closeOff | .closeHead | .closeCount _ | .closeUnblock | .closeEnd
  | .enter _ | .reading _ | .leave _ _ | .blocked _ | .woken _ | .check _ | .drop | .fail
  | .again _ => isTrue trivial

instance decidableGuarded {n : Nat} (unit : TtyUnit (Fin n)) :
    (action : TtyAction (Fin n)) → Decidable (unit.Guarded action)
  | .run task => decidableRunGuard unit (unit.pc task)
  | .intrRun => inferInstanceAs (Decidable (_ → _ → (∃ _, _ = _) ∨ (∀ _, _ = _) ∧ _))
  | .callOpen _ | .callClose _ | .callRead _ _ | .setup _ _ | .intr | .recv _ => isTrue trivial

/-- A task opens the unit. -/
def opens (task : Fin 3) : List (TtyAction (Fin 3)) :=
  .callOpen task :: List.replicate 4 (.run task) ++ [.setup task true]

/-- A task asks for a line and blocks. -/
def blocks (task : Fin 3) : List (TtyAction (Fin 3)) :=
  .callRead task 9 :: List.replicate 4 (.run task)

/-- Two readers block, a close finds both and is unblocking them when task 0, which it has
unblocked, returns; then the close ends and the other reader returns. -/
def closedRun : List (TtyAction (Fin 3)) :=
  opens 2 ++ blocks 0 ++ blocks 1 ++ [.callClose 2] ++ List.replicate 9 (.run 2) ++
  List.replicate 4 (.run 0) ++ List.replicate 3 (.run 2) ++ List.replicate 4 (.run 1)

/-- The case of two readers. -/
theorem close_with_readers_two :
    ∃ unit, runs step (start LineSystem.unused) closedRun = some unit ∧
      unit.returns = [{ task := 0, found := true, rc := - EIO },
        { task := 1, found := true, rc := - EIO }] ∧
      ∀ ret ∈ unit.returns, ret.rc = - EIO ↔ ret.found = true := by
  have guarded : Along step Guarded (start LineSystem.unused) closedRun := by decide +kernel
  have ran : (runs step (start LineSystem.unused) closedRun).map (·.returns) =
      some [{ task := 0, found := true, rc := - EIO }, { task := 1, found := true, rc := - EIO }] := by
    decide +kernel
  obtain ⟨unit, ran, returns⟩ := Option.map_eq_some_iff.mp ran
  exact ⟨unit, ran, returns, (close_with_readers (reached_of_runs rfl guarded ran)).1⟩

/-- A close finds reader 0, and the unit is opened again before that has run.  Reader 1
blocks, and a character wakes both; reader 1 runs first. -/
def reopenedRun : List (TtyAction (Fin 3)) :=
  opens 2 ++ blocks 0 ++ [.callClose 2] ++ List.replicate 10 (.run 2) ++ opens 2 ++ blocks 1 ++
  [.intr, .intrRun, .recv 97, .intrRun, .intrRun, .intrRun, .intrRun] ++
  List.replicate 4 (.run 1)

/-- The unit is opened while reader 0 has not returned; reader 1, which began after that,
returns `-EIO`, and reader 0 goes on to read from the new unit. -/
theorem tty_open_before_reader_returns :
    (runs step (start LineSystem.unused) reopenedRun).map (fun u => (u.isOpen, u.found, u.returns)) =
        some (true, [0], [{ task := 1, found := false, rc := - EIO }]) ∧
    (runs step (start LineSystem.unused) (reopenedRun ++ List.replicate 3 (.run 0))).map
      (fun u => (u.zombcount, u.pc 0)) = some (0, .enter 9) := by
  decide +kernel

end TtyUnit

end Pegasos.Kernel.Tty
