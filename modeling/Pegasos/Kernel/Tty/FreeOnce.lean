import Pegasos.Kernel.Tty.Transmit
import Pegasos.Support.Transition

/-!
# Every transmit buffer is freed once

Any number of tasks read, write and close terminals and serve their interrupts.  The
proof gives every buffer a place: with the task that writes it, on a transmit queue,
on a list of sent buffers, with the task that frees it, or gone.
-/

namespace Pegasos.Kernel.Tty

open Pegasos.Support
open Function (update)

namespace Pc

/-- The unit whose critical section the task is in. -/
def holds : Pc → Option Nat
  | .append unit _ | .leave unit | .begin unit | .xmit unit _ _ | .push unit _ _ _
  | .pushed unit _ _ _ => some unit
  | _ => none

/-- The unit whose queue the task is about to take away. -/
def closes : Pc → Option Nat
  | .closeLink unit | .closePush unit | .closeClear unit => some unit
  | _ => none

/-- The unit whose transmit queue is not linked to its end. -/
def loose : Pc → Option Nat
  | .push unit _ _ _ | .closePush unit => some unit
  | _ => none

/-- The unit whose transmit queue still begins with sent buffers. -/
def lags : Pc → Option Nat
  | .pushed unit _ _ _ | .closeClear unit => some unit
  | _ => none

/-- The task is not in the middle of a change to a list, and frees no buffer. -/
def calm : Pc → Bool
  | .push _ _ _ _ | .pushed _ _ _ _ | .closeLink _ | .closePush _ | .closeClear _
  | .freeData _ _ _ | .freeIob _ _ _ => false
  | _ => true

variable {pc : Pc} {u : Nat}

theorem loose_of_calm (calm : pc.calm) : pc.loose = none := by
  cases pc <;> first | rfl | simp [Pc.calm] at calm

theorem lags_of_calm (calm : pc.calm) : pc.lags = none := by
  cases pc <;> first | rfl | simp [Pc.calm] at calm

theorem closes_of_calm (calm : pc.calm) : pc.closes = none := by
  cases pc <;> first | rfl | simp [Pc.calm] at calm

/-- The task is in a part of the driver that changes the transmit queue of a unit. -/
def Inside (u : Nat) (pc : Pc) : Prop := pc.holds = some u ∨ pc.closes = some u

/-- A task is inside of one unit at most. -/
theorem inside_unique {v : Nat} (inside : pc.Inside u) (inside' : pc.Inside v) : u = v := by
  cases pc <;> simp [Inside, holds, closes] at inside inside' <;> exact inside.symm.trans inside'

theorem inside_of_loose (loose : pc.loose = some u) : pc.Inside u := by
  cases pc <;> simp [Pc.loose] at loose <;> simp [Inside, holds, closes, loose]

theorem inside_of_lags (lags : pc.lags = some u) : pc.Inside u := by
  cases pc <;> simp [Pc.lags] at lags <;> simp [Inside, holds, closes, lags]

end Pc

/-- Where a buffer is. -/
inductive Place (Task : Type) where
  | writer (task : Task)
  | queue (unit : Nat)
  | free (unit : Nat)
  | popper (task : Task)
  | gone

/-- The buffer has been put on a list of sent buffers. -/
def Sent {Task : Type} : Option (Place Task) → Prop
  | some (.free _) | some (.popper _) | some .gone => True
  | _ => False

/-- The places of the buffers, and for every unit the list of sent buffers, those of
them with which the transmit queue still begins, and the rest of the transmit queue. -/
structure Places (Task : Type) where
  place : Iob → Option (Place Task)
  free : Nat → List Iob
  lag : Nat → List Iob
  waiting : Nat → List Iob

/-- The places after a step on a unit. -/
def Places.edit {Task : Type} (places : Places Task) (u : Nat)
    (place : Iob → Option (Place Task)) (free lag waiting : List Iob) : Places Task :=
  ⟨place, update places.free u free, update places.lag u lag, update places.waiting u waiting⟩

section

variable {Task : Type} (places : Places Task) (u : Nat) (place : Iob → Option (Place Task))
  (free lag waiting : List Iob)

@[simp] theorem Places.edit_lag : (places.edit u place free lag waiting).lag u = lag :=
  Function.update_self _ _ _

@[simp] theorem Places.edit_waiting : (places.edit u place free lag waiting).waiting u = waiting :=
  Function.update_self _ _ _

end

namespace Transmit

variable {Task : Type}

/-- The condition under which the lists stay intact, for a task at `pc`.  A task that
stores into `freeiob` finds there what it has read; `tty_freeiob` does not take the buffer
that is first on the transmit queue, nor one from an empty list; `tty_close` takes the
transmit queue away while no task is in the critical section and none enters it. -/
def GuardedAt (sys : Transmit Task) (ok : Bool) : Pc → Prop
  | .load unit _ => (sys.unit unit).freeiob ≠ none
  | .store unit iob _ _ => (sys.unit unit).freeiob = some iob ∧ (sys.unit unit).txhead ≠ some iob
  | .push unit old _ _ => (sys.unit unit).freeiob = sys.next old
  | .closeTest unit => ok = true → (sys.unit unit).txhead ≠ none →
      (sys.unit unit).csxmit = none ∧ ∀ other, (sys.pc other).closes ≠ some unit
  | .closePush unit => (sys.unit unit).freeiob = (sys.unit unit).txtail.bind sys.next
  | .enter unit _ | .enterIntr unit => ∀ other, (sys.pc other).closes ≠ some unit
  | _ => True

def Guarded (sys : Transmit Task) : TxAction Task → Prop
  | .call _ _ => True
  | .run task ok => sys.GuardedAt ok (sys.pc task)

/-- The lists of a unit are what its pointers lead to. -/
structure UnitOk (sys : Transmit Task) (places : Places Task) (u : Nat) : Prop where
  free : NextSegment sys.next (sys.unit u).freeiob (places.free u) none
  freeNodup : (places.free u).Nodup
  freePlace : ∀ iob, iob ∈ places.free u ↔ places.place iob = some (.free u)
  waitingNodup : (places.waiting u).Nodup
  waitingPlace : ∀ iob, iob ∈ places.waiting u ↔ places.place iob = some (.queue u)
  lag : places.lag u <+: places.free u
  noLag : (∀ t, (sys.pc t).lags ≠ some u) → places.lag u = []
  chain : (∀ t, (sys.pc t).loose ≠ some u) →
    NextSegment sys.next (places.waiting u).head? (places.waiting u) none
  txhead : (sys.unit u).txhead = (places.lag u ++ places.waiting u).head?
  txtail : (sys.unit u).txtail = (places.lag u ++ places.waiting u).getLast?
  queue : sys.queue u = places.lag u ++ places.waiting u

/-- What a task knows, from where it is. -/
def Knows (sys : Transmit Task) (places : Places Task) (task : Task) : Pc → Prop
  | .loadNext _ (some iob) _ => Sent (places.place iob)
  | .store unit iob next _ => Sent (places.place iob) ∧
      (places.place iob = some (.free unit) → sys.next iob = next)
  | .freeData _ iob _ => places.place iob = some (.popper task)
  | .freeIob _ iob _ => places.place iob = some (.popper task) ∧ iob ∈ sys.kfreed
  | .enter _ iob | .append _ iob =>
      places.place iob = some (.writer task) ∧ sys.next iob = none
  | .xmit unit iob _ => iob = (places.waiting unit).head?
  | .push unit old iob _ => ∃ rest, places.waiting unit = old :: rest ∧ iob = rest.head? ∧
      NextSegment sys.next iob rest none
  | .pushed unit old iob _ => places.lag unit = [old] ∧ iob = (places.waiting unit).head?
  | .closeLink unit => places.waiting unit ≠ []
  | .closePush unit => places.waiting unit ≠ [] ∧ ∃ stop,
      NextSegment sys.next (places.waiting unit).head? (places.waiting unit) stop
  | .closeClear unit => places.waiting unit = []
  | _ => True

/-- What has been freed. -/
structure FreedOk (sys : Transmit Task) (places : Places Task) : Prop where
  popper : ∀ iob task, places.place iob = some (.popper task) → ∃ unit after,
    sys.pc task = .freeData unit iob after ∨ sys.pc task = .freeIob unit iob after
  kfreedNodup : sys.kfreed.Nodup
  kfreed : ∀ iob ∈ sys.kfreed, places.place iob = some .gone ∨
    ∃ task unit after, sys.pc task = .freeIob unit iob after
  gone : ∀ iob, places.place iob = some .gone → iob ∈ sys.kfreed
  nearNodup : sys.nearFreed.Nodup
  nearFreed : ∀ iob, iob ∈ sys.nearFreed ↔ places.place iob = some .gone
  pushed : ∀ iob ∈ sys.pushed, Sent (places.place iob)

/-- The invariant of guarded runs. -/
structure Inv (sys : Transmit Task) (places : Places Task) : Prop where
  unborn : ∀ iob, sys.fresh ≤ iob → places.place iob = none
  units : ∀ u, sys.UnitOk places u
  tasks : ∀ task, sys.Knows places task (sys.pc task)
  alone : ∀ u task task', (sys.pc task).Inside u → (sys.pc task').Inside u → task = task'
  csxmit : ∀ u task, (sys.unit u).csxmit = some task ↔ (sys.pc task).holds = some u
  freed : sys.FreedOk places

/-- No buffer has been made. -/
def noPlaces : Places Task :=
  ⟨fun _ => none, fun _ => [], fun _ => [], fun _ => []⟩

theorem start_inv (nUnits : Nat) : (start nUnits : Transmit Task).Inv noPlaces := by
  constructor
  · exact fun _ _ => rfl
  · intro u
    constructor <;> simp [start, noPlaces, NextSegment]
  · exact fun _ => trivial
  · intro u task task' inside
    simp [start, Pc.Inside, Pc.holds, Pc.closes] at inside
  · simp [start, Pc.holds]
  · constructor <;> simp [start, noPlaces]

/-! ## What a step leaves alone -/

/-- Places that a step of a task on a unit may change. -/
def Local (u : Nat) (task : Task) : Option (Place Task) → Prop
  | some (.queue unit) | some (.free unit) => unit = u
  | some (.writer other) | some (.popper other) => other = task
  | some .gone => True
  | none => True

variable {sys sys' : Transmit Task} {places places' : Places Task} {task : Task} {u : Nat}

/-- A step of a task on a unit, as far as the other tasks and units can see it. -/
structure Change (sys sys' : Transmit Task) (places places' : Places Task) (task : Task)
    (u : Nat) : Prop where
  pc : ∀ other, other ≠ task → sys'.pc other = sys.pc other
  unit : ∀ v, v ≠ u → sys'.unit v = sys.unit v ∧ sys'.queue v = sys.queue v
  lists : ∀ v, v ≠ u → places'.free v = places.free v ∧ places'.lag v = places.lag v ∧
    places'.waiting v = places.waiting v
  place : ∀ iob, places'.place iob = places.place iob ∨
    Local u task (places.place iob) ∧ Local u task (places'.place iob)
  sent : ∀ iob, Sent (places.place iob) → Sent (places'.place iob)
  free : ∀ iob v, places'.place iob = some (.free v) →
    places.place iob = some (.free v) ∨ places.place iob = some (.queue v)
  next : ∀ iob, sys'.next iob = sys.next iob ∨ places.place iob = some (.queue u) ∨
    places.place iob = none
  others : ∀ other, other ≠ task → (sys.pc other).Inside u →
    places'.waiting u = places.waiting u ∧ places'.lag u = places.lag u ∧
      ∀ iob ∈ places.waiting u, sys'.next iob = sys.next iob
  kfreed : ∀ iob ∈ sys.kfreed, iob ∈ sys'.kfreed
  outside : ∀ v, v ≠ u → ¬(sys.pc task).Inside v

namespace Change

variable (change : Change sys sys' places places' task u)

include change

theorem queue_iff {v : Nat} (other : v ≠ u) (iob : Iob) :
    places'.place iob = some (.queue v) ↔ places.place iob = some (.queue v) := by
  rcases change.place iob with same | ⟨before, after⟩
  · rw [same]
  · constructor
    · intro isQueue
      rw [isQueue] at after
      exact absurd after other
    · intro isQueue
      rw [isQueue] at before
      exact absurd before other

theorem free_iff {v : Nat} (other : v ≠ u) (iob : Iob) :
    places'.place iob = some (.free v) ↔ places.place iob = some (.free v) := by
  rcases change.place iob with same | ⟨before, after⟩
  · rw [same]
  · constructor
    · intro isFree
      rw [isFree] at after
      exact absurd after other
    · intro isFree
      rw [isFree] at before
      exact absurd before other

/-- Buffers on a list of sent buffers keep their links. -/
theorem next_sent {iob : Iob} (sent : Sent (places.place iob)) : sys'.next iob = sys.next iob := by
  rcases change.next iob with same | isQueue | unborn
  · exact same
  · rw [isQueue] at sent
    exact sent.elim
  · rw [unborn] at sent
    exact sent.elim

theorem next_queue {v : Nat} (other : v ≠ u) {iob : Iob}
    (isQueue : places.place iob = some (.queue v)) : sys'.next iob = sys.next iob := by
  rcases change.next iob with same | here | unborn
  · exact same
  · rw [isQueue] at here
    exact absurd (Place.queue.inj (Option.some.inj here)) other
  · rw [isQueue] at unborn
    exact absurd unborn (by simp)

theorem unit_ok (inv : sys.Inv places) {v : Nat} (other : v ≠ u) : sys'.UnitOk places' v := by
  have ok := inv.units v
  obtain ⟨unit, queue⟩ := change.unit v other
  obtain ⟨free, lag, waiting⟩ := change.lists v other
  have pcs : ∀ {away : Pc → Option Nat}, (∀ {pc}, away pc = some v → pc.Inside v) →
      (∀ t, away (sys'.pc t) ≠ some v) → ∀ t, away (sys.pc t) ≠ some v := by
    intro away inside after t
    by_cases same : t = task
    · subst same
      exact fun before => change.outside v other (inside before)
    · rw [← change.pc t same]
      exact after t
  constructor
  · rw [unit, free]
    refine ok.free.congr fun iob member => change.next_sent ?_
    rw [(ok.freePlace iob).mp member]
    trivial
  · rw [free]
    exact ok.freeNodup
  · intro iob
    rw [free, change.free_iff other]
    exact ok.freePlace iob
  · rw [waiting]
    exact ok.waitingNodup
  · intro iob
    rw [waiting, change.queue_iff other]
    exact ok.waitingPlace iob
  · rw [free, lag]
    exact ok.lag
  · intro none
    rw [lag]
    exact ok.noLag (pcs Pc.inside_of_lags none)
  · intro none
    rw [waiting]
    refine (ok.chain (pcs Pc.inside_of_loose none)).congr fun iob member => ?_
    exact change.next_queue other ((ok.waitingPlace iob).mp member)
  · rw [unit, lag, waiting]
    exact ok.txhead
  · rw [unit, lag, waiting]
    exact ok.txtail
  · rw [queue, lag, waiting]
    exact ok.queue

/-- What the other tasks see of the queue of their unit. -/
theorem others_queue (inv : sys.Inv places) {other : Task} (ne : other ≠ task) {v : Nat}
    (inside : (sys.pc other).Inside v) : places'.waiting v = places.waiting v ∧
      places'.lag v = places.lag v ∧ ∀ iob ∈ places.waiting v, sys'.next iob = sys.next iob := by
  by_cases here : v = u
  · subst here
    exact change.others other ne inside
  · obtain ⟨-, lag, waiting⟩ := change.lists v here
    exact ⟨waiting, lag, fun iob member =>
      change.next_queue here (((inv.units v).waitingPlace iob).mp member)⟩

theorem other_place {other : Task} (ne : other ≠ task) {iob : Iob}
    (before : places.place iob = some (.popper other) ∨ places.place iob = some (.writer other)) :
    places'.place iob = places.place iob := by
  rcases change.place iob with same | ⟨isLocal, -⟩
  · exact same
  · rcases before with isPopper | isWriter
    · rw [isPopper] at isLocal
      exact absurd isLocal ne
    · rw [isWriter] at isLocal
      exact absurd isLocal ne

theorem writer_ok {other : Task} (ne : other ≠ task) {iob : Iob}
    (ok : places.place iob = some (.writer other) ∧ sys.next iob = none) :
    places'.place iob = some (.writer other) ∧ sys'.next iob = none := by
  refine ⟨(change.other_place ne (.inr ok.1)).trans ok.1, ?_⟩
  rcases change.next iob with same | isQueue | unborn
  · exact same.trans ok.2
  · rw [ok.1] at isQueue
    exact absurd isQueue (by simp)
  · rw [ok.1] at unborn
    exact absurd unborn (by simp)

theorem knows (inv : sys.Inv places) {other : Task} (ne : other ≠ task) :
    sys'.Knows places' other (sys'.pc other) := by
  have ok := inv.tasks other
  have queue := fun v => change.others_queue inv ne (v := v)
  rw [change.pc other ne]
  cases pc : sys.pc other with
  | loadNext unit iob after =>
      rw [pc] at ok
      cases iob with
      | none => trivial
      | some iob => exact change.sent iob ok
  | store unit iob next after =>
      rw [pc] at ok
      refine ⟨change.sent iob ok.1, fun isFree => ?_⟩
      rw [change.next_sent ok.1]
      rcases change.free iob unit isFree with before | isQueue
      · exact ok.2 before
      · have sent := ok.1
        rw [isQueue] at sent
        exact sent.elim
  | freeData unit iob after =>
      rw [pc] at ok
      exact (change.other_place ne (.inl ok)).trans ok
  | freeIob unit iob after =>
      rw [pc] at ok
      exact ⟨(change.other_place ne (.inl ok.1)).trans ok.1, change.kfreed iob ok.2⟩
  | enter unit iob =>
      rw [pc] at ok
      exact change.writer_ok ne ok
  | append unit iob =>
      rw [pc] at ok
      exact change.writer_ok ne ok
  | xmit unit iob i =>
      rw [pc] at ok queue
      exact ok.trans (congrArg _ (queue unit (.inl rfl)).1.symm)
  | push unit old iob i =>
      rw [pc] at ok queue
      obtain ⟨rest, waiting, isNext, chain⟩ := ok
      obtain ⟨same, -, next⟩ := queue unit (.inl rfl)
      refine ⟨rest, same.trans waiting, isNext, chain.congr fun iob member => next iob ?_⟩
      rw [waiting]
      exact List.mem_cons_of_mem _ member
  | pushed unit old iob i =>
      rw [pc] at ok queue
      obtain ⟨same, lag, -⟩ := queue unit (.inl rfl)
      exact ⟨lag.trans ok.1, ok.2.trans (congrArg _ same.symm)⟩
  | closeLink unit =>
      rw [pc] at ok queue
      exact fun none => ok ((queue unit (.inr rfl)).1.symm.trans none)
  | closePush unit =>
      rw [pc] at ok queue
      obtain ⟨some, stop, chain⟩ := ok
      obtain ⟨same, -, next⟩ := queue unit (.inr rfl)
      refine ⟨fun none => some (same.symm.trans none), stop, ?_⟩
      rw [same]
      exact chain.congr next
  | closeClear unit =>
      rw [pc] at ok queue
      exact (queue unit (.inr rfl)).1.trans ok
  | _ => trivial

/-- The invariant after a step, from what is particular to it. -/
theorem inv (inv : sys.Inv places) (unborn : ∀ iob, sys'.fresh ≤ iob → places'.place iob = none)
    (unit : sys'.UnitOk places' u) (ok : sys'.Knows places' task (sys'.pc task))
    (enters : ∀ v, (sys'.pc task).Inside v →
      (sys.pc task).Inside v ∨ ∀ other, ¬(sys.pc other).Inside v)
    (csxmit : ∀ v t, (sys'.unit v).csxmit = some t ↔ (sys'.pc t).holds = some v)
    (freed : sys'.FreedOk places') : sys'.Inv places' where
  unborn := unborn
  units v := by
    by_cases here : v = u
    · subst here
      exact unit
    · exact change.unit_ok inv here
  tasks other := by
    by_cases same : other = task
    · subst same
      exact ok
    · exact change.knows inv same
  alone v first second inFirst inSecond := by
    have apart : ∀ other, other ≠ task → (sys'.pc task).Inside v → ¬(sys'.pc other).Inside v := by
      intro other ne inside inOther
      rw [change.pc other ne] at inOther
      rcases enters v inside with before | none
      · exact ne (inv.alone v other task inOther before)
      · exact none other inOther
    by_cases isFirst : first = task
    · subst isFirst
      by_contra ne
      exact apart second (Ne.symm ne) inFirst inSecond
    · by_cases isSecond : second = task
      · subst isSecond
        exact absurd inFirst (apart first isFirst inSecond)
      · rw [change.pc first isFirst] at inFirst
        rw [change.pc second isSecond] at inSecond
        exact inv.alone v first second inFirst inSecond
  csxmit := csxmit
  freed := freed

/-- The critical sections are as before. -/
theorem csxmit_same (inv : sys.Inv places)
    (same : ∀ v, (sys'.unit v).csxmit = (sys.unit v).csxmit)
    (holds : (sys'.pc task).holds = (sys.pc task).holds) (v : Nat) (t : Task) :
    (sys'.unit v).csxmit = some t ↔ (sys'.pc t).holds = some v := by
  rw [same, inv.csxmit]
  by_cases here : t = task
  · subst here
    rw [holds]
  · rw [change.pc t here]

/-- A task that holds a sent buffer goes on to free it. -/
theorem still_frees (inv : sys.Inv places)
    (holding : ∀ iob, places.place iob ≠ some (.popper task)) {iob : Iob} {t : Task}
    (isPopper : places.place iob = some (.popper t)) :
    ∃ unit after, sys'.pc t = .freeData unit iob after ∨ sys'.pc t = .freeIob unit iob after := by
  have ne : t ≠ task := by
    rintro rfl
    exact holding iob isPopper
  rw [change.pc t ne]
  exact inv.freed.popper iob t isPopper

theorem still_kfreed (inv : sys.Inv places)
    (holding : ∀ iob, places.place iob ≠ some (.popper task)) {iob : Iob}
    (member : iob ∈ sys.kfreed) : places.place iob = some .gone ∨
      ∃ t unit after, sys'.pc t = .freeIob unit iob after := by
  apply (inv.freed.kfreed iob member).imp_right
  rintro ⟨t, unit, after, isFreeing⟩
  have ne : t ≠ task := by
    rintro rfl
    have ok := inv.tasks t
    rw [isFreeing] at ok
    exact holding iob ok.1
  exact ⟨t, unit, after, (change.pc t ne).trans isFreeing⟩

/-- Nothing is freed. -/
theorem freed_same (inv : sys.Inv places)
    (popper : ∀ iob t, places'.place iob = some (.popper t) ↔ places.place iob = some (.popper t))
    (gone : ∀ iob, places'.place iob = some .gone ↔ places.place iob = some .gone)
    (kfreed : sys'.kfreed = sys.kfreed) (nearFreed : sys'.nearFreed = sys.nearFreed)
    (pushed : ∀ iob ∈ sys'.pushed, Sent (places'.place iob))
    (holding : ∀ iob, places.place iob ≠ some (.popper task)) : sys'.FreedOk places' where
  popper iob t isPopper := change.still_frees inv holding ((popper iob t).mp isPopper)
  kfreedNodup := kfreed ▸ inv.freed.kfreedNodup
  kfreed iob member := by
    rw [kfreed] at member
    rw [gone]
    exact change.still_kfreed inv holding member
  gone iob isGone := by
    rw [kfreed]
    exact inv.freed.gone iob ((gone iob).mp isGone)
  nearNodup := nearFreed ▸ inv.freed.nearNodup
  nearFreed iob := by
    rw [nearFreed, gone]
    exact inv.freed.nearFreed iob
  pushed := pushed

end Change

/-- A task that frees nothing holds no sent buffer. -/
theorem Inv.not_popper (inv : sys.Inv places)
    (notData : ∀ unit iob after, sys.pc task ≠ .freeData unit iob after)
    (notIob : ∀ unit iob after, sys.pc task ≠ .freeIob unit iob after) (iob : Iob) :
    places.place iob ≠ some (.popper task) := by
  intro isPopper
  obtain ⟨unit, after, isData | isIob⟩ := inv.freed.popper iob task isPopper
  · exact notData unit iob after isData
  · exact notIob unit iob after isIob

theorem Inv.calm_not_popper (inv : sys.Inv places) (calm : (sys.pc task).calm) (iob : Iob) :
    places.place iob ≠ some (.popper task) := by
  apply inv.not_popper
  · intro unit iob after isData
    simp [isData, Pc.calm] at calm
  · intro unit iob after isIob
    simp [isIob, Pc.calm] at calm

/-- No task is inside of the unit if nobody is in its critical section or closes it. -/
theorem Inv.none_inside (inv : sys.Inv places) (free : (sys.unit u).csxmit = none)
    (open_ : ∀ other, (sys.pc other).closes ≠ some u) (other : Task) : ¬(sys.pc other).Inside u := by
  rintro (holds | closes)
  · rw [(inv.csxmit u other).mpr holds] at free
    exact absurd free (by simp)
  · exact open_ other closes

/-- Nobody else is inside of the unit. -/
theorem Inv.away (inv : sys.Inv places) (inside : (sys.pc task).Inside u) {other : Task}
    (ne : other ≠ task) : ¬(sys.pc other).Inside u :=
  fun inOther => ne (inv.alone u other task inOther inside)

/-- The transmit queue is linked to its end unless the task inside has loosened it. -/
theorem Inv.tight_chain (inv : sys.Inv places) (inside : (sys.pc task).Inside u)
    (tight : (sys.pc task).loose ≠ some u) :
    NextSegment sys.next (places.waiting u).head? (places.waiting u) none := by
  apply (inv.units u).chain
  intro t
  by_cases same : t = task
  · subst same
    exact tight
  · exact fun isLoose => inv.away inside same (Pc.inside_of_loose isLoose)

/-- The transmit queue has no sent buffers unless the task inside has just sent them. -/
theorem Inv.level_lag (inv : sys.Inv places) (inside : (sys.pc task).Inside u)
    (level : (sys.pc task).lags ≠ some u) : places.lag u = [] := by
  apply (inv.units u).noLag
  intro t
  by_cases same : t = task
  · subst same
    exact level
  · exact fun lags => inv.away inside same (Pc.inside_of_lags lags)

/-- The link of a queued buffer plays no part in the list of sent buffers. -/
theorem UnitOk.set_free (unitOk : sys.UnitOk places u) {iob : Iob}
    (isQueue : places.place iob = some (.queue u)) (next : Option Iob) :
    NextSegment (update sys.next iob next) (sys.unit u).freeiob (places.free u) none := by
  apply unitOk.free.congr
  intro other member
  apply Function.update_of_ne
  rintro rfl
  rw [(unitOk.freePlace other).mp member] at isQueue
  exact absurd isQueue (by simp)

theorem set_links {iob : Iob} (isQueue : places.place iob = some (.queue u))
    (next : Option Iob) (other : Iob) : update sys.next iob next other = sys.next other ∨
      places.place other = some (.queue u) := by
  by_cases same : other = iob
  · subst same
    exact .inr isQueue
  · exact .inl (Function.update_of_ne same _ _)

/-- A unit that the step leaves alone, but for its critical section. -/
theorem UnitOk.same (ok : sys.UnitOk places u)
    (others : ∀ other, other ≠ task → sys'.pc other = sys.pc other)
    (tight : (sys.pc task).loose = none) (level : (sys.pc task).lags = none)
    (freeiob : (sys'.unit u).freeiob = (sys.unit u).freeiob)
    (txhead : (sys'.unit u).txhead = (sys.unit u).txhead)
    (txtail : (sys'.unit u).txtail = (sys.unit u).txtail)
    (queue : sys'.queue u = sys.queue u)
    (next : ∀ iob, sys'.next iob = sys.next iob ∨ places.place iob = none)
    {place : Iob → Option (Place Task)}
    (isFree : ∀ iob, place iob = some (.free u) ↔ places.place iob = some (.free u))
    (isQueue : ∀ iob, place iob = some (.queue u) ↔ places.place iob = some (.queue u)) :
    sys'.UnitOk { places with place := place } u := by
  have away : ∀ {mark : Pc → Option Nat}, mark (sys.pc task) = none →
      (∀ t, mark (sys'.pc t) ≠ some u) → ∀ t, mark (sys.pc t) ≠ some u := by
    intro mark unmarked after t
    by_cases same : t = task
    · subst same
      rw [unmarked]
      simp
    · rw [← others t same]
      exact after t
  have nextSame : ∀ iob, places.place iob ≠ none → sys'.next iob = sys.next iob :=
    fun iob born => (next iob).resolve_right born
  constructor
  · rw [freeiob]
    refine ok.free.congr fun iob member => nextSame iob ?_
    simp [(ok.freePlace iob).mp member]
  · exact ok.freeNodup
  · exact fun iob => (ok.freePlace iob).trans (isFree iob).symm
  · exact ok.waitingNodup
  · exact fun iob => (ok.waitingPlace iob).trans (isQueue iob).symm
  · exact ok.lag
  · exact fun none => ok.noLag (away level none)
  · intro none
    refine (ok.chain (away tight none)).congr fun iob member => nextSame iob ?_
    simp [(ok.waitingPlace iob).mp member]
  · exact txhead.trans ok.txhead
  · exact txtail.trans ok.txtail
  · exact queue.trans ok.queue

/-- A unit after a step, when the task that is inside leaves the queue `level`, without
sent buffers, and `tight`, linked to its end. -/
structure UnitAfter (u : Nat) (level tight : Prop) (unit : TxUnit Task) (queue : List Iob)
    (next : Iob → Option Iob) (place : Iob → Option (Place Task))
    (frees front rest : List Iob) : Prop where
  free : NextSegment next unit.freeiob frees none
  freeNodup : frees.Nodup
  freePlace : ∀ iob, iob ∈ frees ↔ place iob = some (.free u)
  waitingNodup : rest.Nodup
  waitingPlace : ∀ iob, iob ∈ rest ↔ place iob = some (.queue u)
  lag : front <+: frees
  noLag : level → front = []
  chain : tight → NextSegment next rest.head? rest none
  txhead : unit.txhead = (front ++ rest).head?
  txtail : unit.txtail = (front ++ rest).getLast?
  queue : queue = front ++ rest

theorem UnitAfter.ok {level tight : Prop} {place : Iob → Option (Place Task)}
    {frees front rest : List Iob}
    (after : UnitAfter u level tight (sys'.unit u) (sys'.queue u) sys'.next place frees front rest)
    (isLevel : (∀ t, (sys'.pc t).lags ≠ some u) → level)
    (isTight : (∀ t, (sys'.pc t).loose ≠ some u) → tight) :
    sys'.UnitOk (places.edit u place frees front rest) u := by
  have freesIs : (places.edit u place frees front rest).free u = frees :=
    Function.update_self _ _ _
  have frontIs := places.edit_lag u place frees front rest
  have restIs := places.edit_waiting u place frees front rest
  constructor
  · rw [freesIs]
    exact after.free
  · rw [freesIs]
    exact after.freeNodup
  · rw [freesIs]
    exact after.freePlace
  · rw [restIs]
    exact after.waitingNodup
  · rw [restIs]
    exact after.waitingPlace
  · rw [freesIs, frontIs]
    exact after.lag
  · intro none
    rw [frontIs]
    exact after.noLag (isLevel none)
  · intro none
    rw [restIs]
    exact after.chain (isTight none)
  · rw [frontIs, restIs]
    exact after.txhead
  · rw [frontIs, restIs]
    exact after.txtail
  · rw [frontIs, restIs]
    exact after.queue

/-- The list of sent buffers begins with the buffer that `freeiob` points to. -/
theorem UnitOk.first_free (unitOk : sys.UnitOk places u) {iob : Iob}
    (isFirst : (sys.unit u).freeiob = some iob) : ∃ rest, places.free u = iob :: rest ∧
      NextSegment sys.next (sys.next iob) rest none := by
  have links := unitOk.free
  rw [isFirst] at links
  cases list : places.free u with
  | nil =>
      rw [list] at links
      exact absurd links (by simp [NextSegment])
  | cons first rest =>
      rw [list] at links
      obtain rfl := Option.some.inj links.1
      exact ⟨rest, rfl, links.2⟩

/-- What a task knows about the buffer that it finds there. -/
theorem Inv.load_ok (inv : sys.Inv places) (after : After) :
    sys.Knows places task (.loadNext u (sys.unit u).freeiob after) := by
  cases head : (sys.unit u).freeiob with
  | none => trivial
  | some iob =>
      obtain ⟨rest, list, -⟩ := (inv.units u).first_free head
      rw [Knows, ((inv.units u).freePlace iob).mp (list ▸ List.mem_cons_self)]
      trivial

/-- Queued buffers wait, or are on the list of sent buffers already. -/
theorem UnitOk.off_queue (unitOk : sys.UnitOk places u) {iob : Iob}
    (notFree : places.place iob ≠ some (.free u)) (notQueue : places.place iob ≠ some (.queue u)) :
    iob ∉ sys.queue u := by
  rw [unitOk.queue, List.mem_append]
  rintro (isLag | isWaiting)
  · exact notFree ((unitOk.freePlace iob).mp (unitOk.lag.subset isLag))
  · exact notQueue ((unitOk.waitingPlace iob).mp isWaiting)

/-- A buffer that a task is about to free is on no transmit queue. -/
theorem Inv.frees_off_queue (inv : sys.Inv places) {unit : Nat} {iob : Iob} {after : After}
    (frees : sys.pc task = .freeData unit iob after ∨ sys.pc task = .freeIob unit iob after) :
    iob ∉ sys.queue u := by
  have isPopper : places.place iob = some (.popper task) := by
    have mine := inv.tasks task
    rcases frees with isData | isIob
    · rw [isData] at mine
      exact mine
    · rw [isIob] at mine
      exact mine.1
  exact (inv.units u).off_queue (by simp [isPopper]) (by simp [isPopper])

/-- A character of a buffer is sent. -/
theorem Inv.set_ptr (inv : sys.Inv places) (ptr : Iob → Nat) : { sys with ptr := ptr }.Inv places :=
  ⟨inv.unborn, fun u =>
    have unitOk := inv.units u
    ⟨unitOk.free, unitOk.freeNodup, unitOk.freePlace, unitOk.waitingNodup, unitOk.waitingPlace,
      unitOk.lag, unitOk.noLag, unitOk.chain, unitOk.txhead, unitOk.txtail, unitOk.queue⟩,
    inv.tasks, inv.alone, inv.csxmit,
    ⟨inv.freed.popper, inv.freed.kfreedNodup, inv.freed.kfreed, inv.freed.gone,
      inv.freed.nearNodup, inv.freed.nearFreed, inv.freed.pushed⟩⟩

/-- A task makes a buffer. -/
theorem Inv.create (inv : sys.Inv places) {len : Nat} (at_ : sys.pc task = .cook u len)
    (ptr size : Iob → Nat) :
    { sys with
      ptr := ptr, size := size
      next := update sys.next sys.fresh none
      fresh := sys.fresh + 1 }.Inv
      { places with place := update places.place sys.fresh (some (.writer task)) } := by
  have unborn := inv.unborn sys.fresh (Nat.le_refl _)
  have placeIs : ∀ other, other ≠ sys.fresh →
      update places.place sys.fresh (some (.writer task)) other = places.place other :=
    fun other ne => Function.update_of_ne ne _ _
  have newIs : update places.place sys.fresh (some (Place.writer task)) sys.fresh =
      some (.writer task) := Function.update_self _ _ _
  have elsewhere : ∀ {here : Place Task}, here ≠ .writer task → ∀ other,
      update places.place sys.fresh (some (.writer task)) other = some here ↔
        places.place other = some here := by
    intro here notWriter other
    by_cases same : other = sys.fresh
    · subst same
      rw [newIs, unborn]
      simp [notWriter.symm]
    · rw [placeIs other same]
  have nextIs : ∀ other, update sys.next sys.fresh none other = sys.next other ∨
      places.place other = none := by
    intro other
    by_cases same : other = sys.fresh
    · subst same
      exact .inr unborn
    · exact .inl (Function.update_of_ne same _ _)
  have change : Change sys { sys with
      ptr := ptr, size := size
      next := update sys.next sys.fresh none
      fresh := sys.fresh + 1 } places
      { places with place := update places.place sys.fresh (some (.writer task)) } task u := by
    refine ⟨fun _ _ => rfl, fun _ _ => ⟨rfl, rfl⟩, fun _ _ => ⟨rfl, rfl, rfl⟩, fun other => ?_,
      fun other sent => ?_, fun other v isFree => .inl ((elsewhere (by simp) other).mp isFree),
      fun other => (nextIs other).imp_right .inr, fun _ _ _ => ⟨rfl, rfl, fun other member => ?_⟩,
      fun _ => id, fun v _ inside => ?_⟩
    · by_cases same : other = sys.fresh
      · subst same
        exact .inr ⟨unborn ▸ trivial, (congrArg (Local u task) newIs).mpr rfl⟩
      · exact .inl (placeIs other same)
    · by_cases same : other = sys.fresh
      · subst same
        rw [unborn] at sent
        exact sent.elim
      · exact (congrArg Sent (placeIs other same)).mpr sent
    · apply (nextIs other).resolve_right
      rw [((inv.units u).waitingPlace other).mp member]
      simp
    · simp [at_, Pc.Inside, Pc.holds, Pc.closes] at inside
  refine change.inv inv ?_ ?_ ?_ (fun v => .inl) inv.csxmit ?_
  · intro other later
    have ne : other ≠ sys.fresh := Nat.ne_of_gt (Nat.lt_of_succ_le later)
    exact (placeIs other ne).trans (inv.unborn other (Nat.le_of_succ_le later))
  · exact (inv.units u).same change.pc (at_ ▸ rfl) (at_ ▸ rfl) rfl rfl rfl rfl nextIs
      (elsewhere (by simp)) (elsewhere (by simp))
  · exact (congrArg (Knows _ _ task) at_).mpr trivial
  · exact change.freed_same inv (fun other t => elsewhere (by simp) other) (elsewhere (by simp))
      rfl rfl (fun other member => change.sent other (inv.freed.pushed other member))
      (inv.not_popper (by simp [at_]) (by simp [at_]))

section Steps

variable [DecidableEq Task]

/-- A step that changes nothing but where the task is. -/
theorem Inv.goto_step (inv : sys.Inv places) {pc : Pc} (ok : sys.Knows places task pc)
    (holds : pc.holds = (sys.pc task).holds)
    (closes : ∀ v, pc.closes = some v → ∀ other, ¬(sys.pc other).Inside v)
    (calm : (sys.pc task).calm) : (sys.goto task pc).Inv places := by
  have here : (sys.goto task pc).pc task = pc := Function.update_self _ _ _
  have others : ∀ other, other ≠ task → (sys.goto task pc).pc other = sys.pc other :=
    fun other ne => Function.update_of_ne ne _ _
  have change : Change sys (sys.goto task pc) places places task ((sys.pc task).holds.getD 0) := by
    refine ⟨others, fun _ _ => ⟨rfl, rfl⟩, fun _ _ => ⟨rfl, rfl, rfl⟩, fun _ => .inl rfl,
      fun _ => id, fun _ _ => .inl, fun _ => .inl rfl, fun _ _ _ => ⟨rfl, rfl, fun _ _ => rfl⟩,
      fun _ => id, fun v ne => ?_⟩
    rintro (isHeld | isClosed)
    · rw [isHeld] at ne
      exact ne rfl
    · rw [Pc.closes_of_calm calm] at isClosed
      exact absurd isClosed (by simp)
  refine change.inv inv inv.unborn ?_ (here.symm ▸ ok) ?_ ?_ ?_
  · exact (inv.units _).same others (Pc.loose_of_calm calm) (Pc.lags_of_calm calm) rfl rfl rfl
      rfl (fun _ => .inl rfl) (fun _ => Iff.rfl) (fun _ => Iff.rfl)
  · intro v inside
    rw [here] at inside
    rcases inside with isHeld | isClosed
    · exact .inl (.inl (holds ▸ isHeld))
    · exact .inr (closes v isClosed)
  · refine change.csxmit_same inv (fun _ => rfl) ?_
    rw [here, holds]
  · exact change.freed_same inv (fun _ _ => Iff.rfl) (fun _ => Iff.rfl) rfl rfl
      inv.freed.pushed (inv.calm_not_popper calm)

/-- A step on a unit: where the task is then, the pointers of the unit and its queue, the
links of the buffers and which of them have been sent. -/
def edit (sys : Transmit Task) (task : Task) (u : Nat) (pc : Pc) (unit : TxUnit Task)
    (queue : List Iob) (next : Iob → Option Iob) (pushed : List Iob) : Transmit Task :=
  { sys with
    pc := update sys.pc task pc
    unit := update sys.unit u unit
    queue := update sys.queue u queue
    next := next
    pushed := pushed }

/-- A step of the task that is inside of a unit.  Its buffer is queued, or buffers are
sent. -/
theorem Inv.inside_step (inv : sys.Inv places) (inside : (sys.pc task).Inside u) {pc : Pc}
    {unit : TxUnit Task} {queue : List Iob} {next : Iob → Option Iob} {pushed : List Iob}
    {place : Iob → Option (Place Task)} {frees front rest : List Iob}
    (after : UnitAfter u (pc.lags ≠ some u) (pc.loose ≠ some u) unit queue next place frees front
      rest)
    (holds : pc.holds = (sys.pc task).holds) (stays : ∀ v, pc.Inside v → v = u)
    (csxmit : unit.csxmit = (sys.unit u).csxmit)
    (moves : ∀ iob, place iob = places.place iob ∨
      places.place iob = some (.writer task) ∧ place iob = some (.queue u) ∨
      places.place iob = some (.queue u) ∧ place iob = some (.free u))
    (links : ∀ iob, next iob = sys.next iob ∨ places.place iob = some (.queue u))
    (sent : ∀ iob ∈ pushed, iob ∈ sys.pushed ∨ Sent (place iob))
    (ok : (sys.edit task u pc unit queue next pushed).Knows
      (places.edit u place frees front rest) task pc) :
    (sys.edit task u pc unit queue next pushed).Inv (places.edit u place frees front rest) := by
  have here : (sys.edit task u pc unit queue next pushed).pc task = pc :=
    Function.update_self _ _ _
  have single : ∀ v, (sys.pc task).Inside v → v = u := fun v inV => Pc.inside_unique inV inside
  have change : Change sys (sys.edit task u pc unit queue next pushed) places
      (places.edit u place frees front rest) task u := by
    constructor
    · exact fun other ne => Function.update_of_ne ne _ _
    · exact fun v ne => ⟨Function.update_of_ne ne _ _, Function.update_of_ne ne _ _⟩
    · exact fun v ne => ⟨Function.update_of_ne ne _ _, Function.update_of_ne ne _ _,
        Function.update_of_ne ne _ _⟩
    · intro iob
      rcases moves iob with same | ⟨before, now⟩ | ⟨before, now⟩
      · exact .inl same
      · exact .inr ⟨by rw [before]; rfl, (congrArg (Local u task) now).mpr rfl⟩
      · exact .inr ⟨by rw [before]; rfl, (congrArg (Local u task) now).mpr rfl⟩
    · intro iob isSent
      rcases moves iob with same | ⟨before, -⟩ | ⟨before, -⟩
      · exact (congrArg Sent same).mpr isSent
      · rw [before] at isSent
        exact isSent.elim
      · rw [before] at isSent
        exact isSent.elim
    · intro iob v isFree
      rcases moves iob with same | ⟨-, now⟩ | ⟨before, now⟩
      · exact .inl (same.symm.trans isFree)
      · exact absurd (now.symm.trans isFree) (by simp)
      · obtain rfl := Place.free.inj (Option.some.inj (now.symm.trans isFree))
        exact .inr before
    · exact fun iob => (links iob).imp_right .inl
    · exact fun other ne inOther => absurd inOther (inv.away inside ne)
    · exact fun iob => id
    · exact fun v ne inV => ne (single v inV)
  have unitIs : (sys.edit task u pc unit queue next pushed).unit u = unit :=
    Function.update_self _ _ _
  have queueIs : (sys.edit task u pc unit queue next pushed).queue u = queue :=
    Function.update_self _ _ _
  have unitAfter := after
  rw [← unitIs, ← queueIs] at unitAfter
  refine change.inv inv ?_ (unitAfter.ok (fun none => here ▸ none task)
    fun none => here ▸ none task) (here.symm ▸ ok) ?_ ?_ ?_
  · intro iob unborn
    have none := inv.unborn iob unborn
    rcases moves iob with same | ⟨before, -⟩ | ⟨before, -⟩
    · exact same.trans none
    · exact absurd (before.symm.trans none) (by simp)
    · exact absurd (before.symm.trans none) (by simp)
  · intro v inV
    rw [here] at inV
    obtain rfl := stays v inV
    exact .inl inside
  · apply change.csxmit_same inv
    · intro v
      by_cases same : v = u
      · subst same
        have unitIs : (sys.edit task v pc unit queue next pushed).unit v = unit :=
          Function.update_self _ _ _
        rw [unitIs, csxmit]
      · rw [(change.unit v same).1]
    · rw [here, holds]
  · apply change.freed_same inv
    · intro iob t
      rcases moves iob with same | ⟨before, now⟩ | ⟨before, now⟩
      · exact Eq.congr_left same
      · rw [before]
        exact (Eq.congr_left now).trans (by simp)
      · rw [before]
        exact (Eq.congr_left now).trans (by simp)
    · intro iob
      rcases moves iob with same | ⟨before, now⟩ | ⟨before, now⟩
      · exact Eq.congr_left same
      · rw [before]
        exact (Eq.congr_left now).trans (by simp)
      · rw [before]
        exact (Eq.congr_left now).trans (by simp)
    · rfl
    · rfl
    · exact fun iob member => (sent iob member).elim
        (fun before => change.sent iob (inv.freed.pushed iob before)) id
    · apply inv.not_popper
      · intro unit iob after isData
        simp [isData, Pc.Inside, Pc.holds, Pc.closes] at inside
      · intro unit iob after isIob
        simp [isIob, Pc.Inside, Pc.holds, Pc.closes] at inside

theorem edit_queue (sys : Transmit Task) (task : Task) (u : Nat) (pc : Pc) (unit : TxUnit Task)
    (next : Iob → Option Iob) (pushed : List Iob) :
    sys.edit task u pc unit (sys.queue u) next pushed =
      { sys with
        pc := update sys.pc task pc
        unit := update sys.unit u unit
        next := next
        pushed := pushed } := by
  simp [edit]

theorem edit_unit (sys : Transmit Task) (task : Task) (u : Nat) (pc : Pc)
    (next : Iob → Option Iob) (pushed : List Iob) :
    sys.edit task u pc (sys.unit u) (sys.queue u) next pushed =
      { sys with pc := update sys.pc task pc, next := next, pushed := pushed } := by
  simp [edit]

variable {ok : Bool} {iob old : Iob} {next : Option Iob} {i : Nat}

/-- The task that is inside when the queue has no sent buffers and is linked to its end. -/
theorem Inv.append_step (inv : sys.Inv places) (at_ : sys.pc task = .append u iob)
    (taken : sys.run task ok = some sys') : ∃ places', sys'.Inv places' := by
  have inside : (sys.pc task).Inside u := by rw [at_]; exact .inl rfl
  have unitOk := inv.units u
  have chain := inv.tight_chain inside (by simp [at_, Pc.loose])
  have lag := inv.level_lag inside (by simp [at_, Pc.lags])
  have mine := inv.tasks task
  rw [at_] at mine
  obtain ⟨isWriter, ends⟩ := mine
  have txhead := unitOk.txhead
  have txtail := unitOk.txtail
  have queue := unitOk.queue
  rw [lag, List.nil_append] at txhead txtail queue
  have absent : iob ∉ places.waiting u := fun member => by
    rw [(unitOk.waitingPlace iob).mp member] at isWriter
    exact absurd isWriter (by simp)
  have moves : ∀ other, update places.place iob (some (.queue u)) other = places.place other ∨
      places.place other = some (.writer task) ∧
        update places.place iob (some (.queue u)) other = some (.queue u) ∨
      places.place other = some (.queue u) ∧
        update places.place iob (some (.queue u)) other = some (.free u) := by
    intro other
    by_cases same : other = iob
    · subst same
      exact .inr (.inl ⟨isWriter, Function.update_self _ _ _⟩)
    · exact .inl (Function.update_of_ne same _ _)
  have freePlace : ∀ other, other ∈ places.free u ↔
      update places.place iob (some (.queue u)) other = some (.free u) := by
    intro other
    rw [unitOk.freePlace]
    by_cases same : other = iob
    · subst same
      simp [isWriter]
    · rw [Function.update_of_ne same]
  have waitingPlace : ∀ other, other ∈ places.waiting u ++ [iob] ↔
      update places.place iob (some (.queue u)) other = some (.queue u) := by
    intro other
    rw [List.mem_append, List.mem_singleton, unitOk.waitingPlace]
    by_cases same : other = iob
    · subst same
      simp
    · rw [Function.update_of_ne same]
      simp [same]
  have distinct : (places.waiting u ++ [iob]).Nodup :=
    List.nodup_append.mpr ⟨unitOk.waitingNodup, List.nodup_singleton _, fun x inList y isIob same =>
      absent (by rwa [same, List.mem_singleton.mp isIob] at inList)⟩
  simp only [run, at_] at taken
  refine ⟨places.edit u (update places.place iob (some (.queue u))) (places.free u) []
    (places.waiting u ++ [iob]), ?_⟩
  cases list : places.waiting u with
  | nil =>
      rw [list] at txhead txtail queue waitingPlace distinct
      simp only [txhead, List.head?_nil, Option.some.injEq] at taken
      subst taken
      change (sys.edit task u (.begin u) { sys.unit u with txhead := some iob, txtail := some iob }
        (sys.queue u ++ [iob]) sys.next sys.pushed).Inv _
      apply inv.inside_step inside
      · exact ⟨unitOk.free, unitOk.freeNodup, freePlace, distinct, waitingPlace,
          List.nil_prefix, fun _ => rfl, fun _ => ⟨rfl, ends⟩, rfl, rfl, by rw [queue]; rfl⟩
      · rw [at_]
        rfl
      · exact fun v inV => Pc.inside_unique inV (.inl rfl)
      · rfl
      · exact moves
      · exact fun _ => .inl rfl
      · exact fun _ => .inl
      · trivial
  | cons first rest =>
      have nonempty : places.waiting u ≠ [] := by simp [list]
      obtain ⟨last, isLast⟩ : ∃ last, (places.waiting u).getLast? = some last :=
        ⟨_, List.getLast?_eq_some_getLast nonempty⟩
      have isQueue := (unitOk.waitingPlace last).mp (List.mem_of_getLast? isLast)
      rw [isLast] at txtail
      simp only [txhead, txtail, list, List.head?_cons, Option.some.injEq] at taken
      subst taken
      change (sys.edit task u (.leave u) { sys.unit u with txtail := some iob }
        (sys.queue u ++ [iob]) (update sys.next last (some iob)) sys.pushed).Inv _
      have notLast : iob ≠ last := by
        rintro rfl
        exact absent (List.mem_of_getLast? isLast)
      have linked := (chain.set_last unitOk.waitingNodup isLast (some iob)).append
        (show NextSegment (update sys.next last (some iob)) (some iob) [iob] none from
          ⟨rfl, (Function.update_of_ne notLast _ _).trans ends⟩)
      rw [list] at linked txhead queue waitingPlace distinct
      apply inv.inside_step inside
      · refine ⟨unitOk.set_free isQueue _, unitOk.freeNodup, freePlace, distinct, waitingPlace,
          List.nil_prefix, fun _ => rfl, fun _ => linked, txhead, ?_, by rw [queue]; rfl⟩
        rw [List.nil_append, List.getLast?_concat]
      · rw [at_]
        rfl
      · exact fun v inV => Pc.inside_unique inV (.inl rfl)
      · rfl
      · exact moves
      · exact fun other => set_links isQueue _ other
      · exact fun _ => .inl
      · trivial

/-- The first buffer of the queue has been sent and is linked to the sent ones. -/
theorem Inv.link_step (inv : sys.Inv places) (at_ : sys.pc task = .xmit u (some old) i) :
    ((sys.setNext old (sys.unit u).freeiob).goto task (.push u old (sys.next old) i)).Inv
      (places.edit u places.place (places.free u) [] (places.waiting u)) := by
  have inside : (sys.pc task).Inside u := by rw [at_]; exact .inl rfl
  have unitOk := inv.units u
  have chain := inv.tight_chain inside (by simp [at_, Pc.loose])
  have lag := inv.level_lag inside (by simp [at_, Pc.lags])
  have isFirst := inv.tasks task
  rw [at_] at isFirst
  have txhead := unitOk.txhead
  have txtail := unitOk.txtail
  have queue := unitOk.queue
  rw [lag] at txhead txtail queue
  obtain ⟨rest, list⟩ : ∃ rest, places.waiting u = old :: rest :=
    List.head?_eq_some_iff.mp isFirst.symm
  have isQueue := (unitOk.waitingPlace old).mp (list ▸ List.mem_cons_self)
  have distinct := unitOk.waitingNodup
  rw [list] at chain distinct
  have edited := sys.edit_unit task u (.push u old (sys.next old) i)
    (update sys.next old (sys.unit u).freeiob) sys.pushed
  suffices after : (sys.edit task u (.push u old (sys.next old) i) (sys.unit u) (sys.queue u)
      (update sys.next old (sys.unit u).freeiob) sys.pushed).Inv _ by
    rw [edited] at after
    exact after
  refine inv.inside_step inside ?_ ?_ ?_ rfl (fun _ => .inl rfl)
    (fun other => set_links isQueue _ other) (fun _ => .inl) ?_
  · exact ⟨unitOk.set_free isQueue _, unitOk.freeNodup, unitOk.freePlace, unitOk.waitingNodup,
      unitOk.waitingPlace, List.nil_prefix, fun _ => rfl, fun tight => absurd rfl tight, txhead,
      txtail, queue⟩
  · rw [at_]
    rfl
  · exact fun v inV => Pc.inside_unique inV (.inl rfl)
  · refine ⟨rest, (places.edit_waiting _ _ _ _ _).trans list, chain.2.head_eq, ?_⟩
    refine chain.2.congr fun other member => Function.update_of_ne ?_ _ _
    rintro rfl
    exact (List.nodup_cons.mp distinct).1 member

/-- The buffer is put on the list of sent buffers. -/
theorem Inv.push_step (inv : sys.Inv places) (at_ : sys.pc task = .push u old next i)
    (guarded : sys.Guarded (.run task ok)) (taken : sys.run task ok = some sys') :
    ∃ places', sys'.Inv places' := by
  have inside : (sys.pc task).Inside u := by rw [at_]; exact .inl rfl
  have unitOk := inv.units u
  have lag := inv.level_lag inside (by simp [at_, Pc.lags])
  have mine := inv.tasks task
  rw [at_] at mine
  obtain ⟨rest, list, isNext, chain⟩ := mine
  have linked : (sys.unit u).freeiob = sys.next old := by
    simpa only [Guarded, GuardedAt, at_] using guarded
  have isQueue := (unitOk.waitingPlace old).mp (list ▸ List.mem_cons_self)
  have absent : old ∉ places.free u := fun member => by
    rw [(unitOk.freePlace old).mp member] at isQueue
    exact absurd isQueue (by simp)
  have distinct := unitOk.waitingNodup
  have waitingPlace := unitOk.waitingPlace
  have txhead := unitOk.txhead
  have txtail := unitOk.txtail
  have queue := unitOk.queue
  have free := unitOk.free
  rw [lag, list, List.nil_append] at txhead txtail queue
  rw [list] at distinct waitingPlace
  rw [linked] at free
  obtain ⟨notRest, restDistinct⟩ := List.nodup_cons.mp distinct
  simp only [run, at_, Option.some.injEq] at taken
  subst taken
  refine ⟨places.edit u (update places.place old (some (.free u))) (old :: places.free u) [old]
    rest, ?_⟩
  have edited := sys.edit_queue task u (.pushed u old next i)
    { sys.unit u with freeiob := some old } sys.next (old :: sys.pushed)
  suffices after : (sys.edit task u (.pushed u old next i)
      { sys.unit u with freeiob := some old } (sys.queue u) sys.next
      (old :: sys.pushed)).Inv _ by
    rw [edited] at after
    exact after
  refine inv.inside_step inside ?_ ?_ ?_ rfl ?_ (fun _ => .inl rfl) ?_ ?_
  · constructor
    · exact ⟨rfl, free⟩
    · exact List.nodup_cons.mpr ⟨absent, unitOk.freeNodup⟩
    · intro other
      rw [List.mem_cons, unitOk.freePlace]
      by_cases same : other = old
      · subst same
        simp
      · rw [Function.update_of_ne same]
        simp [same]
    · exact restDistinct
    · intro other
      by_cases same : other = old
      · subst same
        simp [notRest]
      · rw [Function.update_of_ne same, ← waitingPlace]
        simp [same]
    · exact ⟨places.free u, rfl⟩
    · exact fun level => absurd rfl level
    · exact fun _ => isNext ▸ chain
    · exact txhead
    · exact txtail
    · exact queue
  · rw [at_]
    rfl
  · exact fun v inV => Pc.inside_unique inV (.inl rfl)
  · intro other
    by_cases same : other = old
    · subst same
      exact .inr (.inr ⟨isQueue, Function.update_self _ _ _⟩)
    · exact .inl (Function.update_of_ne same _ _)
  · intro other member
    rcases List.mem_cons.mp member with rfl | before
    · right
      rw [Function.update_self]
      trivial
    · exact .inl before
  · refine ⟨places.edit_lag _ _ _ _ _, ?_⟩
    rw [Places.edit_waiting]
    exact isNext

/-- The sent buffer leaves the transmit queue. -/
theorem Inv.pushed_step (inv : sys.Inv places) (at_ : sys.pc task = .pushed u old next i)
    (taken : sys.run task ok = some sys') : ∃ places', sys'.Inv places' := by
  have inside : (sys.pc task).Inside u := by rw [at_]; exact .inl rfl
  have unitOk := inv.units u
  have chain := inv.tight_chain inside (by simp [at_, Pc.loose])
  have mine := inv.tasks task
  rw [at_] at mine
  obtain ⟨lag, isNext⟩ := mine
  have txtail := unitOk.txtail
  have queue := unitOk.queue
  rw [lag] at txtail queue
  simp only [run, at_, Option.some.injEq] at taken
  subst taken
  refine ⟨places.edit u places.place (places.free u) [] (places.waiting u), ?_⟩
  change (sys.edit task u (.xmit u next i) { sys.unit u with
    txhead := next, txtail := if next = none then none else (sys.unit u).txtail }
    (sys.queue u).tail sys.next sys.pushed).Inv _
  refine inv.inside_step inside ?_ ?_ ?_ rfl (fun _ => .inl rfl) (fun _ => .inl rfl)
    (fun _ => .inl) ?_
  · refine ⟨unitOk.free, unitOk.freeNodup, unitOk.freePlace, unitOk.waitingNodup,
      unitOk.waitingPlace, List.nil_prefix, fun _ => rfl, fun _ => chain, isNext, ?_, ?_⟩
    · cases list : places.waiting u with
      | nil =>
          rw [isNext, list]
          rfl
      | cons first rest =>
          rw [list] at txtail isNext
          simp [isNext, txtail]
    · rw [queue]
      rfl
  · rw [at_]
    rfl
  · exact fun v inV => Pc.inside_unique inV (.inl rfl)
  · exact isNext.trans (congrArg _ (places.edit_waiting _ _ _ _ _).symm)

/-- The end of the transmit queue is linked to the sent buffers. -/
theorem Inv.close_link_step (inv : sys.Inv places) (at_ : sys.pc task = .closeLink u)
    (taken : sys.run task ok = some sys') : ∃ places', sys'.Inv places' := by
  have inside : (sys.pc task).Inside u := by rw [at_]; exact .inr rfl
  have unitOk := inv.units u
  have chain := inv.tight_chain inside (by simp [at_, Pc.loose])
  have lag := inv.level_lag inside (by simp [at_, Pc.lags])
  have nonempty := inv.tasks task
  rw [at_] at nonempty
  have txhead := unitOk.txhead
  have txtail := unitOk.txtail
  have queue := unitOk.queue
  rw [lag] at txhead txtail queue
  obtain ⟨last, isLast⟩ : ∃ last, (places.waiting u).getLast? = some last :=
    ⟨_, List.getLast?_eq_some_getLast nonempty⟩
  have isQueue := (unitOk.waitingPlace last).mp (List.mem_of_getLast? isLast)
  have isTail := txtail.trans isLast
  simp only [run, at_, isTail, Option.map_some, Option.some.injEq] at taken
  subst taken
  refine ⟨places.edit u places.place (places.free u) [] (places.waiting u), ?_⟩
  have edited := sys.edit_unit task u (.closePush u)
    (update sys.next last (sys.unit u).freeiob) sys.pushed
  suffices after : (sys.edit task u (.closePush u) (sys.unit u) (sys.queue u)
      (update sys.next last (sys.unit u).freeiob) sys.pushed).Inv _ by
    rw [edited] at after
    exact after
  refine inv.inside_step inside ?_ ?_ ?_ rfl (fun _ => .inl rfl)
    (fun other => set_links isQueue _ other) (fun _ => .inl) ?_
  · exact ⟨unitOk.set_free isQueue _, unitOk.freeNodup, unitOk.freePlace, unitOk.waitingNodup,
      unitOk.waitingPlace, List.nil_prefix, fun _ => rfl, fun tight => absurd rfl tight, txhead,
      txtail, queue⟩
  · rw [at_]
    rfl
  · exact fun v inV => Pc.inside_unique inV (.inr rfl)
  · rw [Knows, Places.edit_waiting]
    exact ⟨nonempty, _, chain.set_last unitOk.waitingNodup isLast _⟩

/-- The transmit queue is put on the list of sent buffers. -/
theorem Inv.close_push_step (inv : sys.Inv places) (at_ : sys.pc task = .closePush u)
    (guarded : sys.Guarded (.run task ok)) (taken : sys.run task ok = some sys') :
    ∃ places', sys'.Inv places' := by
  have inside : (sys.pc task).Inside u := by rw [at_]; exact .inr rfl
  have unitOk := inv.units u
  have lag := inv.level_lag inside (by simp [at_, Pc.lags])
  have mine := inv.tasks task
  rw [at_] at mine
  obtain ⟨nonempty, stop, chain⟩ := mine
  have txhead := unitOk.txhead
  have txtail := unitOk.txtail
  have queue := unitOk.queue
  rw [lag, List.nil_append] at txhead txtail queue
  obtain ⟨last, isLast⟩ : ∃ last, (places.waiting u).getLast? = some last :=
    ⟨_, List.getLast?_eq_some_getLast nonempty⟩
  have linked : (sys.unit u).freeiob = stop := by
    have read : (sys.unit u).freeiob = (sys.unit u).txtail.bind sys.next := by
      simpa only [Guarded, GuardedAt, at_] using guarded
    rw [read, txtail, isLast]
    exact chain.stop_eq isLast
  have free := unitOk.free
  rw [linked] at free
  have moved : ∀ other ∈ places.waiting u,
      (if other ∈ places.waiting u then some (Place.free u) else places.place other) =
        some (.free u) := fun other member => if_pos member
  simp only [run, at_, Option.some.injEq] at taken
  subst taken
  refine ⟨places.edit u
    (fun other => if other ∈ places.waiting u then some (.free u) else places.place other)
    (places.waiting u ++ places.free u) (places.waiting u) [], ?_⟩
  have edited := sys.edit_queue task u (.closeClear u)
    { sys.unit u with freeiob := (sys.unit u).txhead } sys.next (sys.queue u ++ sys.pushed)
  suffices after : (sys.edit task u (.closeClear u)
      { sys.unit u with freeiob := (sys.unit u).txhead } (sys.queue u) sys.next
      (sys.queue u ++ sys.pushed)).Inv _ by
    rw [edited] at after
    exact after
  refine inv.inside_step inside ?_ ?_ ?_ rfl ?_ (fun _ => .inl rfl) ?_ ?_
  · constructor
    · exact txhead ▸ chain.append free
    · refine List.nodup_append.mpr ⟨unitOk.waitingNodup, unitOk.freeNodup, ?_⟩
      rintro other isQueue _ isFree rfl
      have before := (unitOk.waitingPlace other).mp isQueue
      rw [(unitOk.freePlace other).mp isFree] at before
      exact absurd before (by simp)
    · intro other
      rw [List.mem_append]
      by_cases isQueue : other ∈ places.waiting u
      · simp [isQueue]
      · simp [isQueue, unitOk.freePlace]
    · exact List.nodup_nil
    · intro other
      by_cases isQueue : other ∈ places.waiting u
      · simp [isQueue]
      · simp [isQueue, ← unitOk.waitingPlace]
    · exact List.prefix_append _ _
    · exact fun level => absurd rfl level
    · exact fun _ => rfl
    · rw [List.append_nil]
      exact txhead
    · rw [List.append_nil]
      exact txtail
    · rw [List.append_nil]
      exact queue
  · rw [at_]
    rfl
  · exact fun v inV => Pc.inside_unique inV (.inr rfl)
  · intro other
    by_cases isQueue : other ∈ places.waiting u
    · exact .inr (.inr ⟨(unitOk.waitingPlace other).mp isQueue, moved other isQueue⟩)
    · exact .inl (if_neg isQueue)
  · intro other member
    rcases List.mem_append.mp member with isQueue | before
    · right
      rw [moved other (queue ▸ isQueue)]
      trivial
    · exact .inl before
  · exact places.edit_waiting _ _ _ _ _

/-- The transmit queue is empty. -/
theorem Inv.close_clear_step (inv : sys.Inv places) (at_ : sys.pc task = .closeClear u)
    (taken : sys.run task ok = some sys') : ∃ places', sys'.Inv places' := by
  have inside : (sys.pc task).Inside u := by rw [at_]; exact .inr rfl
  have unitOk := inv.units u
  have empty := inv.tasks task
  rw [at_] at empty
  simp only [run, at_, Option.some.injEq] at taken
  subst taken
  refine ⟨places.edit u places.place (places.free u) [] [], ?_⟩
  change (sys.edit task u (.test 0 .returns) { sys.unit u with txhead := none, txtail := none }
    [] sys.next sys.pushed).Inv _
  refine inv.inside_step inside ?_ ?_ ?_ rfl (fun _ => .inl rfl) (fun _ => .inl rfl)
    (fun _ => .inl) trivial
  · refine ⟨unitOk.free, unitOk.freeNodup, unitOk.freePlace, List.nodup_nil, fun other => ?_,
      List.nil_prefix, fun _ => rfl, fun _ => rfl, rfl, rfl, rfl⟩
    rw [← unitOk.waitingPlace, empty]
  · rw [at_]
    rfl
  · rintro v (isHeld | isClosed)
    · exact absurd isHeld (by simp [Pc.holds])
    · exact absurd isClosed (by simp [Pc.closes])

/-- A task enters or leaves the critical section of a unit. -/
theorem Inv.cs_step (inv : sys.Inv places) {pc : Pc} {cs : Option Task}
    (ok : sys.Knows places task pc) (own : ∀ v, pc.holds = some v ↔ v = u ∧ cs = some task)
    (others : ∀ other, other ≠ task → ¬(sys.pc other).Inside u ∧ cs ≠ some other)
    (outside : ∀ v, v ≠ u → ¬(sys.pc task).Inside v) (open_ : pc.closes = none)
    (calm : (sys.pc task).calm) :
    ((sys.setUnit u fun pu => { pu with csxmit := cs }).goto task pc).Inv places := by
  have here : ((sys.setUnit u fun pu => { pu with csxmit := cs }).goto task pc).pc task = pc :=
    Function.update_self _ _ _
  have unitIs : ((sys.setUnit u fun pu => { pu with csxmit := cs }).goto task pc).unit u =
      { sys.unit u with csxmit := cs } := Function.update_self _ _ _
  have change : Change sys ((sys.setUnit u fun pu => { pu with csxmit := cs }).goto task pc)
      places places task u :=
    ⟨fun other ne => Function.update_of_ne ne _ _,
      fun v ne => ⟨Function.update_of_ne ne _ _, rfl⟩, fun _ _ => ⟨rfl, rfl, rfl⟩,
      fun _ => .inl rfl, fun _ => id, fun _ _ => .inl, fun _ => .inl rfl,
      fun _ _ _ => ⟨rfl, rfl, fun _ _ => rfl⟩, fun _ => id, outside⟩
  refine change.inv inv inv.unborn ?_ (here.symm ▸ ok) ?_ ?_ ?_
  · exact (inv.units u).same change.pc (Pc.loose_of_calm calm) (Pc.lags_of_calm calm)
      (by rw [unitIs]) (by rw [unitIs]) (by rw [unitIs]) rfl (fun _ => .inl rfl) (fun _ => Iff.rfl) (fun _ => Iff.rfl)
  · intro v inside
    rw [here] at inside
    rcases inside with isHeld | isClosed
    · obtain ⟨rfl, -⟩ := (own v).mp isHeld
      by_cases before : (sys.pc task).Inside v
      · exact .inl before
      · right
        intro other
        by_cases same : other = task
        · subst same
          exact before
        · exact (others other same).1
    · rw [open_] at isClosed
      exact absurd isClosed (by simp)
  · intro v t
    by_cases isTask : t = task
    · subst isTask
      rw [here, own]
      by_cases isUnit : v = u
      · subst isUnit
        simp [unitIs]
      · rw [(change.unit v isUnit).1, inv.csxmit]
        have away : (sys.pc t).holds ≠ some v := fun isHeld => outside v isUnit (.inl isHeld)
        simp [away, isUnit]
    · rw [change.pc t isTask]
      by_cases isUnit : v = u
      · subst isUnit
        obtain ⟨notInside, notHolder⟩ := others t isTask
        have away : (sys.pc t).holds ≠ some v := fun isHeld => notInside (.inl isHeld)
        simp [unitIs, notHolder, away]
      · rw [(change.unit v isUnit).1, inv.csxmit]
  · exact change.freed_same inv (fun _ _ => Iff.rfl) (fun _ => Iff.rfl) rfl rfl
      inv.freed.pushed (inv.calm_not_popper calm)

/-- `tty_freeiob` takes the first buffer from the list. -/
theorem Inv.store_step (inv : sys.Inv places) {after : After}
    (at_ : sys.pc task = .store u iob next after)
    (guarded : sys.Guarded (.run task ok)) (taken : sys.run task ok = some sys') :
    ∃ places', sys'.Inv places' := by
  have unitOk := inv.units u
  have mine := inv.tasks task
  rw [at_] at mine
  obtain ⟨isFirst, notSending⟩ : (sys.unit u).freeiob = some iob ∧
      (sys.unit u).txhead ≠ some iob := by simpa only [Guarded, GuardedAt, at_] using guarded
  obtain ⟨rest, list, links⟩ := unitOk.first_free isFirst
  have isFree := (unitOk.freePlace iob).mp (list ▸ List.mem_cons_self)
  obtain rfl := mine.2 isFree
  have lag : places.lag u = [] := by
    have front := unitOk.lag
    have txhead := unitOk.txhead
    rw [list] at front
    cases lag : places.lag u with
    | nil => rfl
    | cons first others =>
        rw [lag] at front txhead
        obtain rfl := (List.cons_prefix_cons.mp front).1
        exact absurd txhead notSending
  have distinct := unitOk.freeNodup
  have freePlace := unitOk.freePlace
  rw [list] at distinct freePlace
  have txhead := unitOk.txhead
  have txtail := unitOk.txtail
  have queue := unitOk.queue
  rw [lag] at txhead txtail queue
  simp only [run, at_, Option.some.injEq] at taken
  subst taken
  have placeIs : ∀ other, other ≠ iob →
      update places.place iob (some (.popper task)) other = places.place other :=
    fun other ne => Function.update_of_ne ne _ _
  have poppedIs : update places.place iob (some (Place.popper task)) iob = some (.popper task) :=
    Function.update_self _ _ _
  refine ⟨places.edit u (update places.place iob (some (.popper task))) rest []
    (places.waiting u), ?_⟩
  have here : ((sys.setUnit u fun pu => { pu with freeiob := sys.next iob }).goto task
      (.freeData u iob after)).pc task = .freeData u iob after := Function.update_self _ _ _
  have unitIs : ((sys.setUnit u fun pu => { pu with freeiob := sys.next iob }).goto task
      (.freeData u iob after)).unit u = { sys.unit u with freeiob := sys.next iob } :=
    Function.update_self _ _ _
  have change : Change sys ((sys.setUnit u fun pu => { pu with freeiob := sys.next iob }).goto task
      (.freeData u iob after)) places (places.edit u
        (update places.place iob (some (.popper task))) rest [] (places.waiting u)) task u := by
    constructor
    · exact fun other ne => Function.update_of_ne ne _ _
    · exact fun v ne => ⟨Function.update_of_ne ne _ _, rfl⟩
    · exact fun v ne => ⟨Function.update_of_ne ne _ _, Function.update_of_ne ne _ _,
        Function.update_of_ne ne _ _⟩
    · intro other
      by_cases same : other = iob
      · subst same
        exact .inr ⟨isFree ▸ rfl, (congrArg (Local u task) poppedIs).mpr rfl⟩
      · exact .inl (placeIs other same)
    · intro other sent
      by_cases same : other = iob
      · subst same
        exact (congrArg Sent poppedIs).mpr trivial
      · exact (congrArg Sent (placeIs other same)).mpr sent
    · intro other v isFree'
      by_cases same : other = iob
      · subst same
        exact absurd (poppedIs.symm.trans isFree') (by simp)
      · exact .inl ((placeIs other same).symm.trans isFree')
    · exact fun _ => .inl rfl
    · exact fun other _ _ => ⟨places.edit_waiting _ _ _ _ _,
        (places.edit_lag _ _ _ _ _).trans lag.symm, fun _ _ => rfl⟩
    · exact fun _ => id
    · intro v _ inside
      simp [at_, Pc.Inside, Pc.holds, Pc.closes] at inside
  have pcs : ∀ {mark : Pc → Option Nat}, mark (.store u iob (sys.next iob) after) = none →
      (∀ t, mark (((sys.setUnit u fun pu => { pu with freeiob := sys.next iob }).goto task
        (.freeData u iob after)).pc t) ≠ some u) → ∀ t, mark (sys.pc t) ≠ some u := by
    intro mark unmarked later t
    by_cases same : t = task
    · subst same
      rw [at_, unmarked]
      simp
    · rw [← change.pc t same]
      exact later t
  have holding : ∀ iob, places.place iob ≠ some (.popper task) :=
    inv.calm_not_popper (by rw [at_]; rfl)
  refine change.inv inv ?_ ?_ ?_ ?_ ?_ ?_
  · intro other unborn
    by_cases same : other = iob
    · subst same
      rw [inv.unborn other unborn] at isFree
      exact absurd isFree (by simp)
    · exact (placeIs other same).trans (inv.unborn other unborn)
  · refine (show UnitAfter u True (∀ t, (sys.pc t).loose ≠ some u) _ _ _ _ _ _ _ from ?_).ok
      (fun _ => trivial) (pcs rfl)
    · rw [unitIs]
      refine ⟨links, (List.nodup_cons.mp distinct).2, fun other => ?_, unitOk.waitingNodup,
        fun other => ?_, List.nil_prefix, fun _ => rfl, unitOk.chain, txhead, txtail, queue⟩
      · by_cases same : other = iob
        · subst same
          simp [(List.nodup_cons.mp distinct).1]
        · rw [placeIs other same, ← freePlace]
          simp [same]
      · rw [unitOk.waitingPlace]
        by_cases same : other = iob
        · subst same
          simp [isFree]
        · rw [placeIs other same]
  · rw [here]
    exact poppedIs
  · intro v inside
    rw [here] at inside
    simp [Pc.Inside, Pc.holds, Pc.closes] at inside
  · apply change.csxmit_same inv
    · intro v
      by_cases same : v = u
      · subst same
        rw [unitIs]
      · rw [(change.unit v same).1]
    · rw [here, at_]
      rfl
  · have goneIs : ∀ other, update places.place iob (some (.popper task)) other = some .gone ↔
        places.place other = some .gone := by
      intro other
      by_cases same : other = iob
      · subst same
        simp [isFree]
      · rw [placeIs other same]
    constructor
    · intro other t isPopper
      by_cases same : other = iob
      · subst same
        obtain rfl := Place.popper.inj (Option.some.inj (poppedIs.symm.trans isPopper))
        exact ⟨u, after, .inl here⟩
      · exact change.still_frees inv holding ((placeIs other same).symm.trans isPopper)
    · exact inv.freed.kfreedNodup
    · exact fun other member => (change.still_kfreed inv holding member).imp_left (goneIs other).mpr
    · exact fun other isGone => inv.freed.gone other ((goneIs other).mp isGone)
    · exact inv.freed.nearNodup
    · exact fun other => (inv.freed.nearFreed other).trans (goneIs other).symm
    · exact fun other member => change.sent other (inv.freed.pushed other member)

/-- The data of the buffer is freed. -/
theorem Inv.free_data_step (inv : sys.Inv places) {after : After}
    (at_ : sys.pc task = .freeData u iob after) :
    ({ sys with kfreed := iob :: sys.kfreed }.goto task (.freeIob u iob after)).Inv places := by
  have isPopper := inv.tasks task
  rw [at_] at isPopper
  have here : ({ sys with kfreed := iob :: sys.kfreed }.goto task (.freeIob u iob after)).pc task =
      .freeIob u iob after := Function.update_self _ _ _
  have change : Change sys ({ sys with kfreed := iob :: sys.kfreed }.goto task
      (.freeIob u iob after)) places places task u := by
    refine ⟨fun other ne => Function.update_of_ne ne _ _, fun _ _ => ⟨rfl, rfl⟩,
      fun _ _ => ⟨rfl, rfl, rfl⟩, fun _ => .inl rfl, fun _ => id, fun _ _ => .inl,
      fun _ => .inl rfl, fun _ _ _ => ⟨rfl, rfl, fun _ _ => rfl⟩,
      fun _ => List.mem_cons_of_mem _, fun v _ inside => ?_⟩
    simp [at_, Pc.Inside, Pc.holds, Pc.closes] at inside
  refine change.inv inv inv.unborn ?_ ?_ ?_ ?_ ?_
  · exact (inv.units u).same change.pc (at_ ▸ rfl) (at_ ▸ rfl) rfl rfl rfl rfl (fun _ => .inl rfl)
      (fun _ => Iff.rfl) (fun _ => Iff.rfl)
  · rw [here]
    exact ⟨isPopper, List.mem_cons_self⟩
  · intro v inside
    rw [here] at inside
    simp [Pc.Inside, Pc.holds, Pc.closes] at inside
  · apply change.csxmit_same inv (fun _ => rfl)
    rw [here, at_]
    rfl
  · constructor
    · intro other t held
      by_cases same : t = task
      · subst same
        obtain ⟨unit, after', isData | isIob⟩ := inv.freed.popper other t held
        · obtain ⟨rfl, rfl, rfl⟩ := Pc.freeData.inj (at_.symm.trans isData)
          exact ⟨u, after, .inr here⟩
        · exact absurd (at_.symm.trans isIob) (by simp)
      · rw [change.pc t same]
        exact inv.freed.popper other t held
    · refine List.nodup_cons.mpr ⟨fun member => ?_, inv.freed.kfreedNodup⟩
      rcases inv.freed.kfreed iob member with isGone | ⟨t, unit, after', isFreeing⟩
      · exact absurd (isPopper.symm.trans isGone) (by simp)
      · have held := inv.tasks t
        rw [isFreeing] at held
        obtain rfl := Place.popper.inj (Option.some.inj (isPopper.symm.trans held.1))
        exact absurd (at_.symm.trans isFreeing) (by simp)
    · intro other member
      rcases List.mem_cons.mp member with rfl | before
      · exact .inr ⟨task, u, after, here⟩
      · apply (inv.freed.kfreed other before).imp_right
        rintro ⟨t, unit, after', isFreeing⟩
        have ne : t ≠ task := by
          rintro rfl
          exact absurd (at_.symm.trans isFreeing) (by simp)
        exact ⟨t, unit, after', (change.pc t ne).trans isFreeing⟩
    · exact fun other isGone => List.mem_cons_of_mem _ (inv.freed.gone other isGone)
    · exact inv.freed.nearNodup
    · exact inv.freed.nearFreed
    · exact inv.freed.pushed

/-- The buffer is freed. -/
theorem Inv.free_iob_step (inv : sys.Inv places) {after : After}
    (at_ : sys.pc task = .freeIob u iob after) :
    ({ sys with nearFreed := iob :: sys.nearFreed }.goto task (.test u after)).Inv
      { places with place := update places.place iob (some .gone) } := by
  have mine := inv.tasks task
  rw [at_] at mine
  obtain ⟨isPopper, isFreed⟩ := mine
  have here : ({ sys with nearFreed := iob :: sys.nearFreed }.goto task (.test u after)).pc task =
      .test u after := Function.update_self _ _ _
  have placeIs : ∀ other, other ≠ iob →
      update places.place iob (some .gone) other = places.place other :=
    fun other ne => Function.update_of_ne ne _ _
  have goneIs : update places.place iob (some .gone) iob = some .gone := Function.update_self _ _ _
  have change : Change sys ({ sys with nearFreed := iob :: sys.nearFreed }.goto task
      (.test u after)) places { places with place := update places.place iob (some .gone) } task
      u := by
    refine ⟨fun other ne => Function.update_of_ne ne _ _, fun _ _ => ⟨rfl, rfl⟩,
      fun _ _ => ⟨rfl, rfl, rfl⟩, fun other => ?_, fun other sent => ?_, fun other v isFree => ?_,
      fun _ => .inl rfl, fun _ _ _ => ⟨rfl, rfl, fun _ _ => rfl⟩, fun _ => id,
      fun v _ inside => ?_⟩
    · by_cases same : other = iob
      · subst same
        exact .inr ⟨isPopper ▸ rfl, (congrArg (Local u task) goneIs).mpr trivial⟩
      · exact .inl (placeIs other same)
    · by_cases same : other = iob
      · subst same
        exact (congrArg Sent goneIs).mpr trivial
      · exact (congrArg Sent (placeIs other same)).mpr sent
    · by_cases same : other = iob
      · subst same
        exact absurd (goneIs.symm.trans isFree) (by simp)
      · exact .inl ((placeIs other same).symm.trans isFree)
    · simp [at_, Pc.Inside, Pc.holds, Pc.closes] at inside
  have elsewhere : ∀ {here : Place Task}, here ≠ .gone → here ≠ .popper task → ∀ other,
      update places.place iob (some .gone) other = some here ↔ places.place other = some here := by
    intro here notGone notPopper other
    by_cases same : other = iob
    · subst same
      rw [goneIs, isPopper]
      simp [notGone.symm, notPopper.symm]
    · rw [placeIs other same]
  have unique : ∀ other, places.place other = some (.popper task) → other = iob := by
    intro other held
    obtain ⟨unit, after', isData | isIob⟩ := inv.freed.popper other task held
    · exact absurd (at_.symm.trans isData) (by simp)
    · exact (Pc.freeIob.inj (at_.symm.trans isIob)).2.1.symm
  refine change.inv inv ?_ ?_ ?_ ?_ ?_ ?_
  · intro other unborn
    have none := inv.unborn other unborn
    by_cases same : other = iob
    · subst same
      exact absurd (isPopper.symm.trans none) (by simp)
    · exact (placeIs other same).trans none
  · exact (inv.units u).same change.pc (at_ ▸ rfl) (at_ ▸ rfl) rfl rfl rfl rfl (fun _ => .inl rfl)
      (elsewhere (by simp) (by simp)) (elsewhere (by simp) (by simp))
  · rw [here]
    trivial
  · intro v inside
    rw [here] at inside
    simp [Pc.Inside, Pc.holds, Pc.closes] at inside
  · apply change.csxmit_same inv (fun _ => rfl)
    rw [here, at_]
    rfl
  · constructor
    · intro other t held
      by_cases same : other = iob
      · subst same
        exact absurd (goneIs.symm.trans held) (by simp)
      · have before := (placeIs other same).symm.trans held
        have ne : t ≠ task := by
          rintro rfl
          exact same (unique other before)
        rw [change.pc t ne]
        exact inv.freed.popper other t before
    · exact inv.freed.kfreedNodup
    · intro other member
      by_cases same : other = iob
      · subst same
        exact .inl goneIs
      · refine (inv.freed.kfreed other member).imp (placeIs other same).trans ?_
        rintro ⟨t, unit, after', isFreeing⟩
        have ne : t ≠ task := by
          rintro rfl
          exact same (Pc.freeIob.inj (at_.symm.trans isFreeing)).2.1.symm
        exact ⟨t, unit, after', (change.pc t ne).trans isFreeing⟩
    · intro other isGone
      by_cases same : other = iob
      · subst same
        exact isFreed
      · exact inv.freed.gone other ((placeIs other same).symm.trans isGone)
    · refine List.nodup_cons.mpr ⟨fun member => ?_, inv.freed.nearNodup⟩
      exact absurd (isPopper.symm.trans ((inv.freed.nearFreed iob).mp member)) (by simp)
    · intro other
      by_cases same : other = iob
      · subst same
        exact ⟨fun _ => goneIs, fun _ => List.mem_cons_self⟩
      · refine Iff.trans ?_ (Eq.congr_left (placeIs other same)).symm
        rw [← inv.freed.nearFreed]
        exact ⟨fun member => (List.mem_cons.mp member).resolve_left same, List.mem_cons_of_mem _⟩
    · exact fun other member => change.sent other (inv.freed.pushed other member)

/-- A task enters the critical section of a unit that nobody closes. -/
theorem Inv.enter_step (inv : sys.Inv places) {pc : Pc} (ok : sys.Knows places task pc)
    (holds : pc.holds = some u) (open_ : pc.closes = none) (free : (sys.unit u).csxmit = none)
    (nobody : ∀ other, (sys.pc other).closes ≠ some u) (calm : (sys.pc task).calm)
    (outside : (sys.pc task).holds = none) :
    ((sys.setUnit u fun pu => { pu with csxmit := some task }).goto task pc).Inv places := by
  refine inv.cs_step ok ?_ ?_ ?_ open_ calm
  · intro v
    rw [holds]
    simp [eq_comm]
  · exact fun other ne => ⟨inv.none_inside free nobody other, by simp [Ne.symm ne]⟩
  · rintro v - (isHeld | isClosed)
    · rw [outside] at isHeld
      exact absurd isHeld (by simp)
    · rw [Pc.closes_of_calm calm] at isClosed
      exact absurd isClosed (by simp)

theorem Inv.leave_step (inv : sys.Inv places) (at_ : sys.pc task = .leave u) :
    ((sys.setUnit u fun pu => { pu with csxmit := none }).goto task .out).Inv places := by
  have inside : (sys.pc task).Inside u := by rw [at_]; exact .inl rfl
  refine inv.cs_step trivial ?_ ?_ ?_ rfl (by rw [at_]; rfl)
  · simp [Pc.holds]
  · exact fun other ne => ⟨inv.away inside ne, by simp⟩
  · exact fun v ne inV => ne (Pc.inside_unique inV inside)

/-- A step that changes no list. -/
theorem Inv.plain_step (inv : sys.Inv places) {pc pc' : Pc} (at_ : sys.pc task = pc)
    (ok : sys.Knows places task pc') (holds : pc'.holds = pc.holds) (open_ : pc'.closes = none)
    (calm : pc.calm) : (sys.goto task pc').Inv places := by
  subst at_
  refine inv.goto_step ok holds (fun v isClosed => ?_) calm
  rw [open_] at isClosed
  exact absurd isClosed (by simp)

/-- Every step of a task keeps the invariant. -/
theorem Inv.run_step (inv : sys.Inv places) (guarded : sys.Guarded (.run task ok))
    (taken : sys.run task ok = some sys') : ∃ places', sys'.Inv places' := by
  cases at_ : sys.pc task with
  | out => simp [run, at_] at taken
  | test unit after =>
      have goes : ∀ pc, some (sys.goto task pc) = some sys' → pc.holds = none →
          pc.closes = none → sys.Knows places task pc → ∃ places', sys'.Inv places' :=
        fun pc moved holds open_ ok =>
          ⟨places, Option.some.inj moved ▸ inv.plain_step at_ ok holds open_ rfl⟩
      simp only [run, at_] at taken
      split at taken
      case isTrue =>
        split at taken
        · exact goes _ taken rfl rfl trivial
        · exact goes _ taken rfl rfl trivial
      case isFalse =>
        cases after with
        | returns => exact goes _ taken rfl rfl trivial
        | write unit len =>
            simp only at taken
            split at taken
            · exact goes _ taken rfl rfl trivial
            · exact goes _ taken rfl rfl trivial
  | load unit after =>
      simp only [run, at_, Option.some.injEq] at taken
      exact ⟨places, taken ▸ inv.plain_step at_ (inv.load_ok after) rfl rfl rfl⟩
  | loadNext unit iob after =>
      have mine := inv.tasks task
      simp only [run, at_, Option.map_eq_some_iff] at taken
      obtain ⟨iob, rfl, rfl⟩ := taken
      rw [at_] at mine
      exact ⟨places, inv.plain_step at_ ⟨mine, fun _ => rfl⟩ rfl rfl rfl⟩
  | store unit iob next after => exact inv.store_step at_ guarded taken
  | freeData unit iob after =>
      simp only [run, at_, Option.some.injEq] at taken
      exact ⟨_, taken ▸ inv.free_data_step at_⟩
  | freeIob unit iob after =>
      simp only [run, at_, Option.some.injEq] at taken
      exact ⟨_, taken ▸ inv.free_iob_step at_⟩
  | cook unit len =>
      simp only [run, at_] at taken
      split at taken
      case isTrue =>
        obtain rfl := Option.some.inj taken
        have made := inv.create at_ (update sys.ptr sys.fresh 0) (update sys.size sys.fresh len)
        exact ⟨_, made.plain_step at_ ⟨Function.update_self _ _ _, Function.update_self _ _ _⟩ rfl
          rfl rfl⟩
      case isFalse =>
        obtain rfl := Option.some.inj taken
        exact ⟨places, inv.plain_step at_ trivial rfl rfl rfl⟩
  | enter unit iob =>
      have nobody : ∀ other, (sys.pc other).closes ≠ some unit := by
        simpa only [Guarded, GuardedAt, at_] using guarded
      have mine := inv.tasks task
      rw [at_] at mine
      simp only [run, at_] at taken
      split at taken
      case isTrue free =>
        obtain rfl := Option.some.inj taken
        exact ⟨_, inv.enter_step mine rfl rfl free nobody (at_ ▸ rfl) (at_ ▸ rfl)⟩
      case isFalse => simp at taken
  | append unit iob => exact inv.append_step at_ taken
  | enterIntr unit =>
      have nobody : ∀ other, (sys.pc other).closes ≠ some unit := by
        simpa only [Guarded, GuardedAt, at_] using guarded
      simp only [run, at_] at taken
      split at taken
      case isTrue free =>
        obtain rfl := Option.some.inj taken
        exact ⟨_, inv.enter_step trivial rfl rfl free nobody (at_ ▸ rfl) (at_ ▸ rfl)⟩
      case isFalse => simp at taken
  | leave unit =>
      simp only [run, at_, Option.some.injEq] at taken
      exact ⟨_, taken ▸ inv.leave_step at_⟩
  | begin unit =>
      have inside : (sys.pc task).Inside unit := by rw [at_]; exact .inl rfl
      have lag := inv.level_lag inside (by simp [at_, Pc.lags])
      have txhead := (inv.units unit).txhead
      rw [lag] at txhead
      simp only [run, at_] at taken
      split at taken
      · obtain rfl := Option.some.inj taken
        exact ⟨places, inv.plain_step at_ txhead rfl rfl rfl⟩
      · obtain rfl := Option.some.inj taken
        exact ⟨places, inv.plain_step at_ trivial rfl rfl rfl⟩
  | xmit unit iob i =>
      have isFirst := inv.tasks task
      rw [at_] at isFirst
      have leaves : (sys.goto task (.leave unit)).Inv places :=
        inv.plain_step at_ trivial rfl rfl rfl
      cases iob with
      | none =>
          simp only [run, at_, Option.some.injEq] at taken
          exact ⟨places, taken ▸ leaves⟩
      | some old =>
          simp only [run, at_] at taken
          split at taken
          case isFalse => exact ⟨places, Option.some.inj taken ▸ leaves⟩
          case isTrue =>
            obtain rfl := Option.some.inj taken
            rw [xmitStep]
            split
            · exact ⟨_, inv.link_step at_⟩
            · have sent := inv.set_ptr (update sys.ptr old (sys.ptr old + 1))
              exact ⟨places, sent.plain_step at_ isFirst rfl rfl rfl⟩
  | push unit old iob i => exact inv.push_step at_ guarded taken
  | pushed unit old iob i => exact inv.pushed_step at_ taken
  | closeTest unit =>
      have goes : ∀ pc, some (sys.goto task pc) = some sys' → pc.holds = none →
          pc.closes = none → sys.Knows places task pc → ∃ places', sys'.Inv places' :=
        fun pc moved holds open_ ok =>
          ⟨places, Option.some.inj moved ▸ inv.plain_step at_ ok holds open_ rfl⟩
      simp only [run, at_] at taken
      split at taken
      case isFalse => exact goes _ taken rfl rfl trivial
      case isTrue =>
        split at taken
        case isTrue => exact goes _ taken rfl rfl trivial
        case isFalse isOpen pending =>
          obtain rfl := Option.some.inj taken
          obtain ⟨free, nobody⟩ : (sys.unit unit).csxmit = none ∧
              ∀ other, (sys.pc other).closes ≠ some unit := by
            simp only [Guarded, GuardedAt, at_] at guarded
            exact guarded isOpen pending
          have outside := inv.none_inside free nobody
          refine ⟨places, inv.goto_step ?_ (at_ ▸ rfl) ?_ (at_ ▸ rfl)⟩
          · intro empty
            have level := (inv.units unit).noLag fun t lags => outside t (Pc.inside_of_lags lags)
            have txhead := (inv.units unit).txhead
            rw [level, empty] at txhead
            exact pending txhead
          · rintro v isClosed other
            obtain rfl := Option.some.inj isClosed
            exact outside other
  | closeLink unit => exact inv.close_link_step at_ taken
  | closePush unit => exact inv.close_push_step at_ guarded taken
  | closeClear unit => exact inv.close_clear_step at_ taken

/-- Every step keeps the invariant. -/
theorem Inv.step (inv : sys.Inv places) {action : TxAction Task} (guarded : sys.Guarded action)
    (taken : sys.step action = some sys') : ∃ places', sys'.Inv places' := by
  cases action with
  | run task ok => exact inv.run_step guarded taken
  | call task call =>
      simp only [Transmit.step] at taken
      split at taken
      case isFalse => simp at taken
      case isTrue at_ =>
        have goes : ∀ pc, pc.holds = none → pc.closes = none → sys.Knows places task pc →
            (sys.goto task pc).Inv places :=
          fun pc holds open_ ok => inv.plain_step at_ ok holds open_ rfl
        obtain rfl := Option.some.inj taken
        refine ⟨places, ?_⟩
        cases call with
        | read => exact goes _ rfl rfl trivial
        | write unit len => exact goes _ rfl rfl trivial
        | close unit =>
            rw [entry]
            split
            · exact goes _ rfl rfl trivial
            · exact goes _ rfl rfl trivial
        | intr unit =>
            rw [entry]
            split
            · exact goes _ rfl rfl trivial
            · exact goes _ rfl rfl trivial

theorem reached_inv {nUnits : Nat}
    (reached : Reached (· = start nUnits) (fun s a s' => s.step a = some s') Guarded sys) :
    ∃ places, sys.Inv places := by
  apply reached.invariant fun s => ∃ places, s.Inv places
  · rintro _ rfl
    exact ⟨_, start_inv nUnits⟩
  · rintro s s' a ⟨places, inv⟩ guarded taken
    exact inv.step guarded taken

/-- A task is about to free the buffer. -/
def Frees (sys : Transmit Task) (iob : Iob) : Prop :=
  ∃ task unit after, sys.pc task = .freeData unit iob after ∨ sys.pc task = .freeIob unit iob after

end Steps

section Runs

variable {n : Nat} (sys : Transmit (Fin n))

instance decidableGuardedAt (ok : Bool) : (pc : Pc) → Decidable (sys.GuardedAt ok pc)
  | .load _ _ => inferInstanceAs (Decidable (_ ≠ _))
  | .store _ _ _ _ => inferInstanceAs (Decidable (_ ∧ _))
  | .push _ _ _ _ => inferInstanceAs (Decidable (_ = _))
  | .closeTest _ => inferInstanceAs (Decidable (_ → _))
  | .closePush _ => inferInstanceAs (Decidable (_ = _))
  | .enter _ _ | .enterIntr _ => inferInstanceAs (Decidable (∀ _, _))
  | .out | .test _ _ | .loadNext _ _ _ | .freeData _ _ _ | .freeIob _ _ _ | .cook _ _
  | .append _ _ | .leave _ | .begin _ | .xmit _ _ _ | .pushed _ _ _ _ | .closeLink _
  | .closeClear _ => isTrue trivial

instance decidableGuarded : (action : TxAction (Fin n)) → Decidable (sys.Guarded action)
  | .call _ _ => isTrue trivial
  | .run task ok => sys.decidableGuardedAt ok (sys.pc task)

end Runs

/-- One task writes a character to the first unit and sends it, and then frees the
buffer. -/
def sentRun : List (TxAction (Fin 2)) :=
  .call 0 (.write 0 1) :: List.replicate 12 (.run 0 true) ++
    .call 0 .read :: List.replicate 8 (.run 0 true)

/-- Both tasks take the buffer from the list before one of them stores what is next. -/
def twiceRun : List (TxAction (Fin 2)) :=
  .call 0 (.write 0 1) :: List.replicate 12 (.run 0 true) ++
    .call 0 .read :: List.replicate 3 (.run 0 true) ++
    .call 1 .read :: List.replicate 6 (.run 1 true) ++ List.replicate 3 (.run 0 true)

end Transmit

end Pegasos.Kernel.Tty
