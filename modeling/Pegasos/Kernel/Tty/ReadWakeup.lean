import Pegasos.Kernel.Tty.LineDiscipline

/-!
# Waking the readers of a terminal

Any number of tasks call `tty_read`, and the receive interrupt `tty_recv_intr` arrives
between any two of their steps.  A reader looks for a line in the critical section
`csrecv` and joins the blocked queue after it has left it.
-/

namespace Pegasos.Kernel.Tty

open Pegasos.Support
open Function (update)

/-- Where a reader is in `tty_read`, with what it asks for and what it has got. -/
inductive ReaderPc where
  | out
  | enter (size : Int)
  | reading (size : Int)
  | leave (size : Int) (got : Nat)
  | block (size : Int)
  | blocked (size : Int)
  | woken (size : Int)
  deriving DecidableEq, Repr

/-- A blocked reader is made ready. -/
def ReaderPc.wake : ReaderPc → ReaderPc
  | .blocked size => .woken size
  | pc => pc

/-- The reader has left the critical section without a line and is about to block. -/
def ReaderPc.joins : ReaderPc → Bool
  | .block _ => true
  | _ => false

/-- Where the receive interrupt is; `got` says whether a character has arrived. -/
inductive RecvPc where
  | idle
  | recv (got : Bool)
  | wake
  | leave
  deriving DecidableEq, Repr

/-- Who is in the critical section. -/
inductive Holder (Task : Type) where
  | reader (task : Task)
  | interrupt
  deriving DecidableEq, Repr

/-- The line buffer, `csrecv`, the blocked queue and `zombcount` of a unit, and where
everybody is. -/
structure ReadSystem (Task : Type) where
  line : LineSystem
  csrecv : Option (Holder Task)
  readers : List Task
  zombcount : Int
  intr : RecvPc
  pc : Task → ReaderPc

/-- A task calls `tty_read` or takes its next step there; an interrupt begins; a character
is received; or the interrupt goes on. -/
inductive ReadAction (Task : Type) where
  | call (task : Task) (size : Int)
  | run (task : Task)
  | intr
  | recv (ch : UInt8)
  | intrRun

namespace ReadSystem

variable {Task : Type} [DecidableEq Task] (sys : ReadSystem Task)

def goto (task : Task) (pc : ReaderPc) : ReadSystem Task :=
  { sys with pc := update sys.pc task pc }

/-- The next step of a reader. -/
def run (task : Task) : Option (ReadSystem Task) :=
  match sys.pc task with
  | .out => none
  | .enter size =>
      if sys.csrecv = none then
        some ({ sys with csrecv := some (.reader task) }.goto task (.reading size))
      else none
  | .reading size =>
      (sys.line.cook.ttycRead size).value?.map fun (bytes, cook) =>
        { sys with line := { sys.line with
            cook := cook
            returned := sys.line.returned ++ bytes } }.goto task (.leave size bytes.length)
  | .leave size got =>
      some ({ sys with csrecv := none }.goto task (if got ≠ 0 then .out else .block size))
  | .block size =>
      some ({ sys with readers := sys.readers ++ [task] }.goto task (.blocked size))
  | .blocked _ => none
  | .woken size =>
      if sys.zombcount ≠ 0 then
        some ({ sys with zombcount := sys.zombcount - 1 }.goto task .out)
      else some (sys.goto task (.enter size))

/-- The next step of the interrupt. -/
def intrRun : Option (ReadSystem Task) :=
  match sys.intr with
  | .idle => none
  | .recv got => some { sys with intr := if got then .wake else .leave }
  | .wake =>
      match sys.readers with
      | [] => some { sys with intr := .leave }
      | task :: rest => some ({ sys with readers := rest }.goto task (sys.pc task).wake)
  | .leave => some { sys with intr := .idle, csrecv := none }

/-- One step. -/
def step : ReadAction Task → Option (ReadSystem Task)
  | .call task size =>
      if sys.pc task = .out then
        some (if size = 0 then sys else sys.goto task (.enter size))
      else none
  | .run task => sys.run task
  | .intr =>
      if sys.intr = .idle ∧ sys.csrecv = none then
        some { sys with intr := .recv false, csrecv := some .interrupt }
      else none
  | .recv ch =>
      match sys.intr with
      | .recv _ => (sys.line.step (.putc ch)).map fun line =>
          { sys with line := line, intr := .recv true }
      | _ => none
  | .intrRun => sys.intrRun

/-- After the unit has been opened. -/
def start (cook : Ttycook) : ReadSystem Task where
  line := .start cook
  csrecv := none
  readers := []
  zombcount := 0
  intr := .idle
  pc := fun _ => .out

/-- A character that completes a line. -/
def Completes (cook : Ttycook) (ch : UInt8) : Prop :=
  Ttycook.isErase ch = false ∧ cook.isFull ch = false ∧ (ch = RETURN ∨ ch = NEWLINE)

instance (cook : Ttycook) (ch : UInt8) : Decidable (Completes cook ch) :=
  inferInstanceAs (Decidable (_ ∧ _))

/-- The condition under which no reader is forgotten: no reader asks for a negative
number of bytes, no line is completed while a reader has found none and has not joined
the queue, and the line discipline holds. -/
def Guarded (sys : ReadSystem Task) : ReadAction Task → Prop
  | .call _ size => 0 ≤ size
  | .recv ch => sys.line.Guarded (.putc ch) ∧
      (Completes sys.line.cook ch → ∀ task, (sys.pc task).joins = false)
  | _ => True

end ReadSystem

namespace ReaderPc

/-- The reader is in the critical section. -/
def Inside : ReaderPc → Prop
  | .reading _ | .leave _ _ => True
  | _ => False

def size : ReaderPc → Option Int
  | .out => none
  | .enter size | .reading size | .leave size _ | .block size | .blocked size | .woken size =>
      some size

/-- The reader has found no line and has not joined the queue. -/
def FoundNone : ReaderPc → Prop
  | .leave _ got => got = 0
  | .block _ => True
  | _ => False

end ReaderPc

namespace ReadSystem

variable {Task : Type} {sys sys' : ReadSystem Task} {pending : List UInt8}

/-- The invariant of guarded runs. -/
structure Inv (sys : ReadSystem Task) (pending : List UInt8) : Prop where
  line : sys.line.Inv pending
  zombcount : sys.zombcount = 0
  sizes : ∀ task size, (sys.pc task).size = some size → 0 < size
  reader : ∀ task, (sys.pc task).Inside → sys.csrecv = some (.reader task)
  interrupt : sys.intr ≠ .idle → sys.csrecv = some .interrupt
  foundNone : ∀ task, (sys.pc task).FoundNone → sys.line.cook.crs = 0
  readers : sys.readers ≠ [] →
    sys.line.cook.crs = 0 ∨ sys.intr = .recv true ∨ sys.intr = .wake

theorem start_inv (cook : Ttycook) : (start cook : ReadSystem Task).Inv [] := by
  refine ⟨LineSystem.start_inv cook, rfl, ?_, ?_, ?_, ?_, ?_⟩ <;>
    simp [start, ReaderPc.size, ReaderPc.Inside, ReaderPc.FoundNone]

/-- A character that completes no line leaves `crs` alone. -/
theorem putc_crs {cook : Ttycook} {items : List UInt8} {ch : UInt8} (holds : cook.Holds items)
    (quiet : ¬Completes cook ch) : (cook.ttycPutc ch).1.crs = cook.crs := by
  by_cases erase : Ttycook.isErase ch = true
  · exact (Ttycook.ttycPutc_erase holds erase).2
  · have normal : Ttycook.isErase ch = false := by simpa using erase
    by_cases full : cook.isFull ch = true
    · rw [Ttycook.ttycPutc_full normal full]
    · have room : cook.isFull ch = false := by simpa using full
      rw [(Ttycook.ttycPutc_store holds normal room).2]
      exact if_neg fun isLine => quiet ⟨normal, room, isLine⟩

variable {task : Task}

/-- The other readers are outside of the critical section while a reader is inside. -/
theorem Inv.alone (inv : sys.Inv pending) (owner : sys.csrecv = some (.reader task)) :
    (∀ other, other ≠ task → ¬(sys.pc other).Inside) ∧ sys.intr = .idle := by
  constructor
  · intro other ne inside
    have same := owner.symm.trans (inv.reader other inside)
    exact ne (Holder.reader.inj (Option.some.inj same)).symm
  · by_contra busy
    exact absurd (owner.symm.trans (inv.interrupt busy)) (by simp)

section Steps

variable [DecidableEq Task]

/-- A reader goes on, in or out of the critical section. -/
theorem Inv.move (inv : sys.Inv pending) {pc : ReaderPc} {csrecv : Option (Holder Task)}
    {readers : List Task} (size : ∀ size, pc.size = some size → 0 < size)
    (mine : pc.Inside → csrecv = some (.reader task))
    (others : ∀ other, other ≠ task → (sys.pc other).Inside → csrecv = some (.reader other))
    (interrupt : sys.intr ≠ .idle → csrecv = some .interrupt)
    (foundNone : pc.FoundNone → sys.line.cook.crs = 0)
    (waiting : readers ≠ [] →
      sys.line.cook.crs = 0 ∨ sys.intr = .recv true ∨ sys.intr = .wake) :
    ({ sys with csrecv := csrecv, readers := readers }.goto task pc).Inv pending := by
  have here : update sys.pc task pc task = pc := Function.update_self _ _ _
  have away : ∀ other, other ≠ task → update sys.pc task pc other = sys.pc other :=
    fun other ne => Function.update_of_ne ne _ _
  refine ⟨inv.line, inv.zombcount, fun other => ?_, fun other => ?_, interrupt, fun other => ?_,
    waiting⟩
  · by_cases same : other = task
    · subst same
      simpa only [goto, here] using size
    · simpa only [goto, away other same] using inv.sizes other
  · by_cases same : other = task
    · subst same
      simpa only [goto, here] using mine
    · simpa only [goto, away other same] using others other same
  · by_cases same : other = task
    · subst same
      simpa only [goto, here] using foundNone
    · simpa only [goto, away other same] using inv.foundNone other

/-- `ttyc_read`: it gets nothing only if there is no line. -/
theorem Inv.read_step (inv : sys.Inv pending) {size : Int} (at_ : sys.pc task = .reading size)
    (taken : sys.run task = some sys') : ∃ pending', sys'.Inv pending' := by
  have owner := inv.reader task (by rw [at_]; trivial)
  have positive := inv.sizes task size (by rw [at_]; rfl)
  obtain ⟨bytes, rest, cook, ran, isPending, part, line⟩ := inv.line.read_spec size
  have counted := inv.line.counted
  have left : cook.crs = rest.count NEWLINE := line.counted
  rw [isPending, List.count_append] at counted
  have none : sys.line.cook.crs = 0 → cook.crs = 0 := by omega
  have empty : bytes = [] → sys.line.cook.crs = 0 := by
    rintro rfl
    by_contra some
    rw [if_neg some] at part
    rcases part with ⟨-, length⟩ | ⟨line, isLine, -⟩
    · rw [List.length_nil] at length
      omega
    · simp at isLine
  simp only [run, at_, ran, Outcome.value?_ok, Option.map_some, Option.some.injEq] at taken
  subst taken
  have here : update sys.pc task (.leave size bytes.length) task = .leave size bytes.length :=
    Function.update_self _ _ _
  have away : ∀ other, other ≠ task →
      update sys.pc task (.leave size bytes.length) other = sys.pc other :=
    fun other ne => Function.update_of_ne ne _ _
  refine ⟨rest, line, inv.zombcount, fun other => ?_, fun other inside => ?_, inv.interrupt,
    fun other found => ?_, fun some => (inv.readers some).imp_left none⟩
  · by_cases same : other = task
    · subst same
      simp only [goto, here, ReaderPc.size, Option.some.injEq]
      rintro _ rfl
      exact positive
    · simpa only [goto, away other same] using inv.sizes other
  · by_cases same : other = task
    · subst same
      exact owner
    · exact inv.reader other (by simpa only [goto, away other same] using inside)
  · by_cases same : other = task
    · subst same
      simp only [goto, here] at found
      exact none (empty (List.length_eq_zero_iff.mp found))
    · exact none (inv.foundNone other (by simpa only [goto, away other same] using found))

/-- A step of a reader. -/
theorem Inv.run_step (inv : sys.Inv pending) (taken : sys.run task = some sys') :
    ∃ pending', sys'.Inv pending' := by
  have sizes := inv.sizes task
  have mine := inv.reader task
  have foundNone := inv.foundNone task
  cases at_ : sys.pc task with
  | out => simp [run, at_] at taken
  | enter size =>
      rw [at_] at sizes
      simp only [run, at_, Option.ite_none_right_eq_some, Option.some.injEq] at taken
      obtain ⟨free, rfl⟩ := taken
      refine ⟨pending, inv.move sizes (fun _ => rfl) ?_ ?_ False.elim inv.readers⟩
      · intro other _ inside
        exact absurd (free.symm.trans (inv.reader other inside)) (by simp)
      · intro busy
        exact absurd (free.symm.trans (inv.interrupt busy)) (by simp)
  | reading size => exact inv.read_step at_ taken
  | leave size got =>
      rw [at_] at sizes mine foundNone
      obtain ⟨away, isIdle⟩ := inv.alone (mine trivial)
      simp only [run, at_, Option.some.injEq] at taken
      subst taken
      refine ⟨pending, inv.move ?_ ?_ ?_ ?_ ?_ inv.readers⟩
      · split
        · simp [ReaderPc.size]
        · exact sizes
      · split <;> exact False.elim
      · exact fun other ne inside => absurd inside (away other ne)
      · exact fun busy => absurd isIdle busy
      · split
        · exact False.elim
        · rename_i isZero
          exact fun _ => foundNone (not_not.mp isZero)
  | block size =>
      rw [at_] at sizes foundNone
      simp only [run, at_, Option.some.injEq] at taken
      subst taken
      exact ⟨pending, inv.move sizes False.elim (fun other _ => inv.reader other) inv.interrupt
        False.elim fun _ => .inl (foundNone trivial)⟩
  | blocked size => simp [run, at_] at taken
  | woken size =>
      rw [at_] at sizes
      simp only [run, at_, inv.zombcount, ne_eq, not_true_eq_false, if_false,
        Option.some.injEq] at taken
      subst taken
      exact ⟨pending, inv.move sizes False.elim (fun other _ => inv.reader other) inv.interrupt
        False.elim inv.readers⟩

/-- A character is received. -/
theorem Inv.recv_step (inv : sys.Inv pending) {ch : UInt8}
    (guarded : sys.Guarded (.recv ch)) (taken : sys.step (.recv ch) = some sys') :
    ∃ pending', sys'.Inv pending' := by
  obtain ⟨discipline, nobody⟩ := guarded
  cases at_ : sys.intr with
  | recv got =>
      have owner := inv.interrupt (by simp [at_])
      have outside : ∀ other, ¬(sys.pc other).Inside := fun other inside =>
        absurd (owner.symm.trans (inv.reader other inside)) (by simp)
      simp only [step, at_] at taken
      obtain ⟨line', received, rfl⟩ := Option.map_eq_some_iff.mp taken
      obtain ⟨pending', line⟩ := inv.line.step discipline received
      refine ⟨pending', line, inv.zombcount, inv.sizes, inv.reader, fun _ => owner,
        fun other found => ?_, fun _ => .inr (.inl rfl)⟩
      -- a reader that has found nothing is on its way to the queue, so no line ends now
      have quiet : ¬Completes sys.line.cook ch := by
        intro completes
        cases where_ : sys.pc other with
        | leave size got =>
            exact outside other (by rw [where_]; trivial)
        | block size =>
            have notJoining := nobody completes other
            rw [where_] at notJoining
            exact Bool.noConfusion notJoining
        | _ =>
            simp only [where_] at found
            exact found
      obtain rfl := Option.some.inj received
      exact (putc_crs inv.line.holds quiet).trans (inv.foundNone other found)
  | _ => simp [step, at_] at taken

theorem wake_size (pc : ReaderPc) : pc.wake.size = pc.size := by
  cases pc <;> rfl

theorem wake_inside (pc : ReaderPc) : pc.wake.Inside = pc.Inside := by
  cases pc <;> rfl

theorem wake_foundNone (pc : ReaderPc) : pc.wake.FoundNone = pc.FoundNone := by
  cases pc <;> rfl

/-- A step of the interrupt. -/
theorem Inv.intr_step (inv : sys.Inv pending) (taken : sys.intrRun = some sys') :
    sys'.Inv pending := by
  cases at_ : sys.intr with
  | idle => simp [intrRun, at_] at taken
  | recv got =>
      have owner := inv.interrupt (by simp [at_])
      simp only [intrRun, at_, Option.some.injEq] at taken
      subst taken
      refine { inv with interrupt := fun _ => owner, readers := fun some => ?_ }
      cases got with
      | true => exact .inr (.inr rfl)
      | false =>
          left
          simpa [at_] using inv.readers some
  | wake =>
      have owner := inv.interrupt (by simp [at_])
      cases queue : sys.readers with
      | nil =>
          simp only [intrRun, at_, queue, Option.some.injEq] at taken
          subst taken
          exact { inv with
            interrupt := fun _ => owner
            readers := fun some => absurd rfl some }
      | cons task rest =>
          have woken : sys.intrRun =
              some ({ sys with readers := rest }.goto task (sys.pc task).wake) := by
            simp only [intrRun, at_, queue]
          obtain rfl := Option.some.inj (woken.symm.trans taken)
          apply inv.move
          · rw [wake_size]
            exact inv.sizes task
          · rw [wake_inside]
            exact inv.reader task
          · exact fun other _ => inv.reader other
          · exact inv.interrupt
          · rw [wake_foundNone]
            exact inv.foundNone task
          · exact fun _ => .inr (.inr at_)
  | leave =>
      have owner := inv.interrupt (by simp [at_])
      simp only [intrRun, at_, Option.some.injEq] at taken
      subst taken
      refine { inv with
        reader := fun other inside => ?_
        interrupt := fun busy => absurd rfl busy
        readers := fun some => ?_ }
      · exact absurd (owner.symm.trans (inv.reader other inside)) (by simp)
      · left
        simpa [at_] using inv.readers some

/-- Every step keeps the invariant. -/
theorem Inv.step (inv : sys.Inv pending) {action : ReadAction Task}
    (guarded : sys.Guarded action) (taken : sys.step action = some sys') :
    ∃ pending', sys'.Inv pending' := by
  cases action with
  | call task size =>
      simp only [ReadSystem.step, Option.ite_none_right_eq_some, Option.some.injEq] at taken
      obtain ⟨-, rfl⟩ := taken
      split
      · exact ⟨pending, inv⟩
      · rename_i some
        refine ⟨pending, inv.move ?_ False.elim (fun other _ => inv.reader other) inv.interrupt
          False.elim inv.readers⟩
        simp only [ReaderPc.size, Option.some.injEq]
        rintro _ rfl
        have notNegative : 0 ≤ size := guarded
        omega
  | run task => exact inv.run_step taken
  | intr =>
      simp only [ReadSystem.step, Option.ite_none_right_eq_some, Option.some.injEq] at taken
      obtain ⟨⟨isIdle, free⟩, rfl⟩ := taken
      refine ⟨pending, { inv with
        reader := fun other inside => ?_
        interrupt := fun _ => rfl
        readers := fun some => ?_ }⟩
      · exact absurd (free.symm.trans (inv.reader other inside)) (by simp)
      · left
        simpa [isIdle] using inv.readers some
  | recv ch => exact inv.recv_step guarded taken
  | intrRun => exact ⟨pending, inv.intr_step taken⟩

/-- In every guarded run no line is complete while a reader is on the blocked queue and the
interrupt is not running. -/
theorem no_reader_forgotten {cook : Ttycook}
    (reached : Reached (· = start cook) (fun s a s' => s.step a = some s') Guarded sys)
    (isIdle : sys.intr = .idle) (blocked : sys.readers ≠ []) : sys.line.cook.crs = 0 := by
  obtain ⟨pending, inv⟩ : ∃ pending, sys.Inv pending := by
    apply reached.invariant fun s => ∃ pending, s.Inv pending
    · rintro _ rfl
      exact ⟨_, start_inv cook⟩
    · rintro s s' a ⟨pending, inv⟩ guarded taken
      exact inv.step guarded taken
  simpa [isIdle] using inv.readers blocked

end Steps

instance decidableGuarded {n : Nat} (sys : ReadSystem (Fin n)) :
    (action : ReadAction (Fin n)) → Decidable (sys.Guarded action)
  | .call _ _ => inferInstanceAs (Decidable (_ ≤ _))
  | .recv _ => inferInstanceAs (Decidable (_ ∧ _))
  | .run _ | .intr | .intrRun => isTrue trivial

/-- Two readers find no line and block; a line arrives and both are woken; one of them
reads it and the other one blocks again. -/
def wokenRun : List (ReadAction (Fin 2)) :=
  [.call 0 9, .call 1 9] ++ List.replicate 4 (.run 0) ++ List.replicate 4 (.run 1) ++
  [.intr, .recv 97, .recv RETURN, .intrRun, .intrRun, .intrRun, .intrRun, .intrRun] ++
  List.replicate 4 (.run 0) ++ List.replicate 5 (.run 1)

/-- The line arrives before the reader has joined the blocked queue. -/
def forgottenRun : List (ReadAction (Fin 2)) :=
  .call 0 9 :: List.replicate 3 (.run 0) ++
  [.intr, .recv 97, .recv RETURN, .intrRun, .intrRun, .intrRun, .run 0]

/-- The case of a reader that blocks again. -/
theorem no_reader_forgotten_woken : ∃ sys, runs step (start LineSystem.unused) wokenRun = some sys ∧
    sys.readers = [1] ∧ sys.line.returned = [97, NEWLINE] ∧ sys.line.cook.crs = 0 := by
  have ran : ((runs step (start LineSystem.unused) wokenRun).map fun sys =>
      (sys.intr, sys.readers, sys.line.returned)) = some (.idle, [1], [97, NEWLINE]) := by
    decide +kernel
  have guarded : Along step Guarded (start LineSystem.unused) wokenRun := by
    decide +kernel
  obtain ⟨sys, ran, facts⟩ := Option.map_eq_some_iff.mp ran
  obtain ⟨isIdle, facts⟩ := Prod.mk.inj facts
  obtain ⟨readers, returned⟩ := Prod.mk.inj facts
  exact ⟨sys, ran, readers, returned,
    no_reader_forgotten (reached_of_runs rfl guarded ran) isIdle (by simp [readers])⟩

/-- A reader is blocked although a line is complete. -/
theorem tty_read_misses_line : ∃ sys : ReadSystem (Fin 2),
    Reachable (· = start LineSystem.unused) (fun s a s' => step s a = some s') sys ∧
      sys.intr = .idle ∧ sys.readers = [0] ∧ sys.line.cook.crs = 1 := by
  have ran : ((runs step (start LineSystem.unused) forgottenRun).map fun sys =>
      (sys.intr, sys.readers, sys.line.cook.crs)) = some (.idle, [0], 1) := by
    decide +kernel
  obtain ⟨sys, ran, facts⟩ := Option.map_eq_some_iff.mp ran
  obtain ⟨isIdle, facts⟩ := Prod.mk.inj facts
  obtain ⟨readers, crs⟩ := Prod.mk.inj facts
  exact ⟨sys, reachable_of_runs rfl ran, isIdle, readers, crs⟩

end ReadSystem

end Pegasos.Kernel.Tty
