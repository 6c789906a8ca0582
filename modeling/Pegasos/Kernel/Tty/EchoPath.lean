import Pegasos.Kernel.Sched.Grants
import Pegasos.Kernel.Tty.TtyCook
import Pegasos.Support.Counting

/-!
# The echo path of a terminal

`ttyc_putc`, `ttyc_echotask` and the critical sections of `tty_write` and `tty_intr`,
as tasks of the scheduler.  The driver is left between any two of its steps when an
interrupt or a tick makes another task run.  What happens inside of `csxmit` is left
to the model of the transmit buffers.
-/

namespace Pegasos.Kernel.Tty

open Pegasos.Support
open Pegasos.Kernel.Sched (Task Scheduler GrantSystem idleTask TASK_PRI_NORM MAX_TASK)
open Function (update)

/-- The two semaphores of the echo path. -/
def echocs : Nat := 0
def csxmit : Nat := 1

/-- The blocked queue of the echo task. -/
def blockq : Nat := 0

/-- `sizeof(writebuf)` in `ttyc_echotask`. -/
def WRITEBUF_SIZE : Nat := 16

namespace Ttycook

variable (pc : Ttycook)

/-- `ttyc_putc` up to the first `TTYC_ECHO`: the characters to echo, and whether a line
is complete.  `none` if it returns before. -/
def putcStore (ch : UInt8) : Option (Ttycook × List UInt8 × Bool) :=
  if isErase ch then
    if pc.head = pc.tail then none
    else
      some ({ pc with tail := Q_PREV pc.tail TTYC_LINE_SIZE }, [BACKSPACE, SPACE, BACKSPACE], false)
  else if pc.isFull ch then none
  else
    let ch := if ch = RETURN then NEWLINE else ch
    let pc := { pc with
      buf := update pc.buf pc.tail ch
      tail := Q_NEXT pc.tail TTYC_LINE_SIZE }
    if ch = NEWLINE then some (pc, [RETURN, NEWLINE], true)
    else if ch < 0x20 then some (pc, [CARET, ch ||| 0x40], false)
    else some (pc, [ch], false)

/-- `pc->crs++` for a complete line. -/
def countLine (line : Bool) : Ttycook :=
  if line then { pc with crs := int16 (pc.crs + 1) } else pc

/-- The loop of `ttyc_echotask` that empties the echo ring, with room for `fuel` more
characters: how many it takes. -/
def drain : Nat → Ttycook → Ttycook × Nat
  | 0, pc => (pc, 0)
  | fuel + 1, pc =>
      if pc.ehead = pc.etail then (pc, 0)
      else
        let (pc, got) := drain fuel { pc with ehead := Q_NEXT pc.ehead TTYC_ECHO_QUEUE }
        (pc, got + 1)

/-- The parts of `ttyc_putc` make up the whole. -/
theorem ttycPutc_parts (ch : UInt8) : pc.ttycPutc ch =
    match pc.putcStore ch with
    | none => (pc, false)
    | some (pc', chars, line) => ((pc'.echoAll chars).countLine line, true) := by
  unfold ttycPutc putcStore countLine
  split
  · split <;> rfl
  · split
    · rfl
    · dsimp only
      generalize (if ch = RETURN then NEWLINE else ch) = byte
      split
      · rfl
      · split <;> rfl

end Ttycook

/-- Where a task is in the driver, with its local variables. -/
inductive EchoPc where
  | out
  /-- `ttyc_putc`, and its `TTYC_ECHO` of the characters that are left. -/
  | putc (ch : UInt8)
  | echo (chars : List UInt8) (line : Bool)
  | echoing (ch : UInt8) (chars : List UInt8) (line : Bool)
  | echoed (chars : List UInt8) (line : Bool)
  | wake
  /-- `ttyc_echotask`: the test of the ring and the loop that empties it. -/
  | test
  | testing
  | tested (empty : Bool)
  | block
  | drain
  | draining
  | drained (got : Nat)
  /-- `tty_write`, and `tty_intr` for its transmitter. -/
  | write (size : Nat)
  | enter
  | sending
  deriving DecidableEq, Repr

/-- The calls of the driver by other tasks than the echo task. -/
inductive EchoCall where
  | putc (ch : UInt8)
  | write (size : Nat)
  | intr
  deriving DecidableEq, Repr

/-- The scheduler, the line buffer, the echo task, and where every task is. -/
structure EchoSystem where
  sched : GrantSystem
  cook : Ttycook
  echotask : Option Task
  pc : Task → EchoPc

/-- The running task calls the driver or takes its next step there; `ttyc_init` starts
the echo task; or the rest of the kernel does something.  `ok` says whether there is
memory for a transmit buffer. -/
inductive EchoAction where
  | call (call : EchoCall)
  | run (ok : Bool)
  | init (task : Task)
  | other (action : Sched.Action)

namespace EchoSystem

variable (sys : EchoSystem)

/-- The running task. -/
abbrev curtask : Task := sys.sched.curtask

/-- The running task goes on elsewhere. -/
def goto (pc : EchoPc) : EchoSystem :=
  { sys with pc := update sys.pc sys.curtask pc }

def setCook (cook : Ttycook) : EchoSystem :=
  { sys with cook := cook }

/-- The running task calls the scheduler, and goes on elsewhere when it runs again. -/
def schedule (call : Sched.Call) (pc : EchoPc) : Option EchoSystem :=
  (sys.sched.step (.call call)).map fun sched => { sys.goto pc with sched := sched }

/-- Where a task goes on after `tty_write`. -/
def back : EchoPc := if sys.echotask = some sys.curtask then .test else .out

/-- The next step of the running task. -/
def run (ok : Bool) : Option EchoSystem :=
  match sys.pc sys.curtask with
  | .out => none
  | .putc ch =>
      match sys.cook.putcStore ch with
      | none => some (sys.goto .out)
      | some (cook, chars, line) => some ((sys.setCook cook).goto (.echo chars line))
  | .echo [] line => some ((sys.setCook (sys.cook.countLine line)).goto .wake)
  | .echo (ch :: chars) line => sys.schedule (.semaDown echocs) (.echoing ch chars line)
  | .echoing ch chars line => some ((sys.setCook (sys.cook.echo ch)).goto (.echoed chars line))
  | .echoed chars line => sys.schedule (.semaUp echocs) (.echo chars line)
  | .wake => sys.schedule (.taskUnblock sys.echotask) .out
  | .test => sys.schedule (.semaDown echocs) .testing
  | .testing => some (sys.goto (.tested (sys.cook.ehead = sys.cook.etail)))
  | .tested empty => sys.schedule (.semaUp echocs) (if empty then .block else .drain)
  | .block => sys.schedule (.taskBlock blockq) .test
  | .drain => sys.schedule (.semaDown echocs) .draining
  | .draining =>
      let (cook, got) := Ttycook.drain WRITEBUF_SIZE sys.cook
      some ((sys.setCook cook).goto (.drained got))
  | .drained got => sys.schedule (.semaUp echocs) (.write got)
  | .write size => some (sys.goto (if size ≠ 0 ∧ ok then .enter else sys.back))
  | .enter => sys.schedule (.semaDown csxmit) .sending
  | .sending => sys.schedule (.semaUp csxmit) sys.back

def entry : EchoCall → EchoPc
  | .putc ch => .putc ch
  | .write size => .write size
  | .intr => .enter

/-- What the rest of the kernel may do: it leaves the two semaphores alone, and unblocks
no task that waits for a semaphore.  A task that calls is not in the driver. -/
def Foreign : Sched.Action → Prop
  | .call (.semaDown index) => sys.pc sys.curtask = .out ∧ 2 ≤ index
  | .call (.semaUp index) => sys.pc sys.curtask = .out ∧ 2 ≤ index ∧
      (sys.sched.hist.sys.sched.semas index).count < 0x7FFF
  | .call (.taskUnblock (some task)) => sys.pc sys.curtask = .out ∧
      Sched.SemaSystem.onSema (sys.sched.hist.sys.sched.links.owner task) = false
  | .call _ | .intrEnd _ => sys.pc sys.curtask = .out
  | .tick | .intr _ | .idlePick | .idleYield => True

instance decidableForeign (action : Sched.Action) : Decidable (sys.Foreign action) :=
  match action with
  | .call (.semaDown _) | .call (.semaUp _) | .call (.taskUnblock (some _)) =>
      inferInstanceAs (Decidable (_ ∧ _))
  | .call .taskAlloc | .call (.taskFree _) | .call (.taskStart _ _) | .call (.addHandler _ _)
  | .call (.schAsync _ _) | .call (.taskBlock _) | .call (.taskUnblock none)
  | .call (.taskSleep _) | .call .markFreeing | .call .taskExit | .intrEnd _ =>
      inferInstanceAs (Decidable (_ = _))
  | .tick | .intr _ | .idlePick | .idleYield => .isTrue trivial

/-- One step. -/
def step : EchoAction → Option EchoSystem
  | .call call =>
      if sys.curtask ≠ idleTask ∧ sys.pc sys.curtask = .out then some (sys.goto (entry call))
      else none
  | .run ok => sys.run ok
  | .init task =>
      if sys.echotask = none ∧ sys.pc sys.curtask = .out ∧ sys.pc task = .out then
        (sys.sched.step (.call (.schAsync task TASK_PRI_NORM))).map fun sched =>
          { sched := sched
            cook := sys.cook.ttycInit
            echotask := some task
            pc := update sys.pc task .test }
      else none
  | .other action =>
      if sys.Foreign action then
        (sys.sched.step action).map fun sched => { sys with sched := sched }
      else none

/-- Before the terminal is opened. -/
def start (cook : Ttycook) : EchoSystem where
  sched := .start fun _ => 1
  cook := cook
  echotask := none
  pc := fun _ => .out

end EchoSystem

end Pegasos.Kernel.Tty
