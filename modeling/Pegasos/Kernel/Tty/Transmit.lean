import Pegasos.Support.Ring
import Pegasos.Support.Tables

/-!
# Transmit buffers

The transmit queue and the list of sent buffers of every terminal, as `TTY.C` handles
them: `tty_freeiob`, `tty_xmit_intr` and the parts of `tty_read`, `tty_write`,
`tty_close` and `tty_intr` that use them.  A task can be interrupted between any two
of the steps.  A new buffer gets a new number, also where memory is reused.
-/

namespace Pegasos.Kernel.Tty

open Pegasos.Support
open Function (update)

/-- A pointer to a `tty_iob_t`. -/
abbrev Iob := Nat

/-- How many characters `tty_xmit_intr` sends at once. -/
def FIFO_SIZE : Nat := 16

/-- The parts of `tty_unit_t` for sending.  `csxmit` is the task in the critical
section. -/
structure TxUnit (Task : Type) where
  txhead : Option Iob
  txtail : Option Iob
  freeiob : Option Iob
  csxmit : Option Task

/-- What the caller of `tty_freeiob` does next. -/
inductive After where
  | returns
  | write (unit len : Nat)
  deriving DecidableEq, Repr

/-- Where a task is, with its local variables. -/
inductive Pc where
  | out
  /-- `tty_freeiob`: `while (pu->freeiob)` for a unit. -/
  | test (unit : Nat) (after : After)
  | load (unit : Nat) (after : After)
  | loadNext (unit : Nat) (iob : Option Iob) (after : After)
  | store (unit : Nat) (iob : Iob) (next : Option Iob) (after : After)
  | freeData (unit : Nat) (iob : Iob) (after : After)
  | freeIob (unit : Nat) (iob : Iob) (after : After)
  /-- `tty_write`, and `tty_intr` in its place. -/
  | cook (unit len : Nat)
  | enter (unit : Nat) (iob : Iob)
  | append (unit : Nat) (iob : Iob)
  | enterIntr (unit : Nat)
  | leave (unit : Nat)
  /-- `tty_xmit_intr`: the loop, and the push of a sent buffer, in three steps. -/
  | begin (unit : Nat)
  | xmit (unit : Nat) (iob : Option Iob) (i : Nat)
  | push (unit : Nat) (old : Iob) (iob : Option Iob) (i : Nat)
  | pushed (unit : Nat) (old : Iob) (iob : Option Iob) (i : Nat)
  /-- `tty_close`: the test of the queue, and its three steps. -/
  | closeTest (unit : Nat)
  | closeLink (unit : Nat)
  | closePush (unit : Nat)
  | closeClear (unit : Nat)
  deriving DecidableEq, Repr

/-- The calls of the driver. -/
inductive TtyCall where
  | read
  | write (unit len : Nat)
  | close (unit : Nat)
  | intr (unit : Nat)
  deriving DecidableEq, Repr

/-- The buffers, the units and the tasks, with the history: which buffers have been
appended to the transmit queue of a unit and have not left it, which have been put on
`freeiob`, and what has been passed to `kfree` and to `near_free`. -/
structure Transmit (Task : Type) where
  nUnits : Nat
  next : Iob → Option Iob
  ptr : Iob → Nat
  size : Iob → Nat
  fresh : Iob
  unit : Nat → TxUnit Task
  pc : Task → Pc
  queue : Nat → List Iob
  pushed : List Iob
  kfreed : List Iob
  nearFreed : List Iob

/-- A task calls the driver, or takes its next step.  `ok` is what the step depends on
beside the state: whether there is memory for a buffer, whether the transmitter is
ready, whether the unit to close is open. -/
inductive TxAction (Task : Type) where
  | call (task : Task) (call : TtyCall)
  | run (task : Task) (ok : Bool)

namespace Transmit

variable {Task : Type} [DecidableEq Task] (sys : Transmit Task)

def goto (task : Task) (pc : Pc) : Transmit Task :=
  { sys with pc := update sys.pc task pc }

def setUnit (unit : Nat) (edit : TxUnit Task → TxUnit Task) : Transmit Task :=
  { sys with unit := update sys.unit unit (edit (sys.unit unit)) }

def setNext (iob : Iob) (next : Option Iob) : Transmit Task :=
  { sys with next := update sys.next iob next }

/-- Where a call begins.  `tty_read` and `tty_write` look at their unit after
`tty_freeiob`. -/
def entry : TtyCall → Pc
  | .read => .test 0 .returns
  | .write unit len => .test 0 (.write unit len)
  | .close unit => if unit < sys.nUnits then .closeTest unit else .out
  | .intr unit => if unit < sys.nUnits then .enterIntr unit else .out

/-- `old = iob; iob = iob->next; old->next = pu->freeiob`, or a character is sent. -/
def xmitStep (task : Task) (unit : Nat) (old : Iob) (i : Nat) : Transmit Task :=
  if sys.ptr old = sys.size old then
    (sys.setNext old (sys.unit unit).freeiob).goto task (.push unit old (sys.next old) i)
  else
    { sys with ptr := update sys.ptr old (sys.ptr old + 1) }.goto task (.xmit unit old (i + 1))

/-- The next step of a task. -/
def run (task : Task) (ok : Bool) : Option (Transmit Task) :=
  match sys.pc task with
  | .out => none
  | .test unit after =>
      if unit < sys.nUnits then
        if (sys.unit unit).freeiob = none then some (sys.goto task (.test (unit + 1) after))
        else some (sys.goto task (.load unit after))
      else
        match after with
        | .returns => some (sys.goto task .out)
        | .write unit len =>
            if unit < sys.nUnits ∧ len ≠ 0 then some (sys.goto task (.cook unit len))
            else some (sys.goto task .out)
  | .load unit after => some (sys.goto task (.loadNext unit (sys.unit unit).freeiob after))
  | .loadNext unit iob after =>
      iob.map fun iob => sys.goto task (.store unit iob (sys.next iob) after)
  | .store unit iob next after =>
      some ((sys.setUnit unit fun pu => { pu with freeiob := next }).goto task
        (.freeData unit iob after))
  | .freeData unit iob after =>
      some ({ sys with kfreed := iob :: sys.kfreed }.goto task (.freeIob unit iob after))
  | .freeIob unit iob after =>
      some ({ sys with nearFreed := iob :: sys.nearFreed }.goto task (.test unit after))
  | .cook unit len =>
      if ok then
        some ({ sys with
          ptr := update sys.ptr sys.fresh 0
          size := update sys.size sys.fresh len
          next := update sys.next sys.fresh none
          fresh := sys.fresh + 1 }.goto task (.enter unit sys.fresh))
      else some (sys.goto task .out)
  | .enter unit iob =>
      if (sys.unit unit).csxmit = none then
        some ((sys.setUnit unit fun pu => { pu with csxmit := some task }).goto task
          (.append unit iob))
      else none
  | .append unit iob =>
      let sys := { sys with queue := update sys.queue unit (sys.queue unit ++ [iob]) }
      match (sys.unit unit).txhead, (sys.unit unit).txtail with
      | none, _ =>
          some ((sys.setUnit unit fun pu =>
            { pu with txhead := some iob, txtail := some iob }).goto task (.begin unit))
      | some _, none => none
      | some _, some last =>
          some (((sys.setNext last (some iob)).setUnit unit fun pu =>
            { pu with txtail := some iob }).goto task (.leave unit))
  | .enterIntr unit =>
      if (sys.unit unit).csxmit = none then
        some ((sys.setUnit unit fun pu => { pu with csxmit := some task }).goto task
          (.begin unit))
      else none
  | .leave unit =>
      some ((sys.setUnit unit fun pu => { pu with csxmit := none }).goto task .out)
  | .begin unit =>
      if (sys.unit unit).txhead ≠ none ∧ ok then
        some (sys.goto task (.xmit unit (sys.unit unit).txhead 0))
      else some (sys.goto task (.leave unit))
  | .xmit unit iob i =>
      match iob with
      | none => some (sys.goto task (.leave unit))
      | some old =>
          if i < FIFO_SIZE then some (sys.xmitStep task unit old i)
          else some (sys.goto task (.leave unit))
  | .push unit old iob i =>
      some ({ sys with pushed := old :: sys.pushed }.setUnit unit (fun pu =>
        { pu with freeiob := some old }) |>.goto task (.pushed unit old iob i))
  | .pushed unit _ iob i =>
      let sys := { sys with queue := update sys.queue unit (sys.queue unit).tail }
      some ((sys.setUnit unit fun pu =>
        { pu with txhead := iob, txtail := if iob = none then none else pu.txtail }).goto task
          (.xmit unit iob i))
  | .closeTest unit =>
      if ok then
        if (sys.unit unit).txhead = none then some (sys.goto task (.test 0 .returns))
        else some (sys.goto task (.closeLink unit))
      else some (sys.goto task .out)
  | .closeLink unit =>
      (sys.unit unit).txtail.map fun last =>
        (sys.setNext last (sys.unit unit).freeiob).goto task (.closePush unit)
  | .closePush unit =>
      some ({ sys with pushed := sys.queue unit ++ sys.pushed }.setUnit unit (fun pu =>
        { pu with freeiob := pu.txhead }) |>.goto task (.closeClear unit))
  | .closeClear unit =>
      some ({ sys with queue := update sys.queue unit [] }.setUnit unit (fun pu =>
        { pu with txhead := none, txtail := none }) |>.goto task (.test 0 .returns))

/-- One step. -/
def step : TxAction Task → Option (Transmit Task)
  | .call task call =>
      if sys.pc task = .out then some (sys.goto task (sys.entry call)) else none
  | .run task ok => sys.run task ok

/-- After `tty_init`, before any call. -/
def start (nUnits : Nat) : Transmit Task where
  nUnits := nUnits
  next := fun _ => none
  ptr := fun _ => 0
  size := fun _ => 0
  fresh := 0
  unit := fun _ => ⟨none, none, none, none⟩
  pc := fun _ => .out
  queue := fun _ => []
  pushed := []
  kfreed := []
  nearFreed := []

end Transmit

end Pegasos.Kernel.Tty
