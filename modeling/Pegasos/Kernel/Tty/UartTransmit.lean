import Mathlib.Algebra.GroupWithZero.Nat
import Mathlib.Data.List.Basic
import Mathlib.Tactic.Common
import Pegasos.Kernel.Tty.Transmit
import Pegasos.Support.Transition

/-!
# The transmitter of a UART

`tty_write` and the transmit interrupt fill the transmit buffer of a UART in bursts of up to 16
bytes, once `LSR_TX_RDY` says that it is empty.  On a 16550A the buffer has 16 places, on an
8250 it has one.  `csxmit` keeps the two contexts apart; the device sends bytes at any time.
-/

namespace Pegasos.Kernel.Tty

open Pegasos.Support

/-- A `tty_iob_t`: `ptr` bytes have been sent. -/
structure OutIob where
  data : List UInt8
  ptr : Nat
  deriving DecidableEq, Repr

/-- The bytes to send. -/
def OutIob.left (iob : OutIob) : Nat := iob.data.length - iob.ptr

/-- `ttyc_cook_output`: a carriage return goes in front of each newline. -/
def ttycCookOutput : List UInt8 → List UInt8
  | [] => []
  | ch :: rest => if ch = 10 then 13 :: 10 :: ttycCookOutput rest else ch :: ttycCookOutput rest

/-- Where the holder of `csxmit` is in `tty_xmit_intr`. -/
inductive XmitPc where
  | out
  | begin
  | burst (i : Nat)
  deriving DecidableEq, Repr

/-- A unit with its device: `fill` bytes are in the transmit buffer, and `overrun` tells
whether a byte has been written to a full one. -/
structure Uart where
  is16550a : Bool
  queue : List OutIob
  pc : XmitPc
  fill : Nat
  overrun : Bool
  deriving DecidableEq, Repr

inductive UartAction where
  /-- `tty_write` enters `csxmit` with its bytes cooked. -/
  | write (buf : List UInt8)
  /-- `tty_intr` enters it. -/
  | intr
  /-- The holder of `csxmit` takes its next step. -/
  | run
  /-- The device sends a byte. -/
  | send
  deriving DecidableEq, Repr

namespace Uart

variable (sys : Uart)

/-- The places of the transmit buffer.  `tty_probe` and `tty_open` enable the FIFO. -/
def capacity : Nat := if sys.is16550a then 16 else 1

/-- `while (iob && iob->ptr == iob->size)`. -/
def skipSent : List OutIob → List OutIob
  | [] => []
  | iob :: rest => if iob.ptr = iob.data.length then skipSent rest else iob :: rest

/-- `outb(port + UART_XMIT, ..)`. -/
def outXmit : Uart :=
  { sys with
    fill := min (sys.fill + 1) sys.capacity
    overrun := sys.overrun || decide (sys.capacity ≤ sys.fill) }

/-- The steps of `tty_xmit_intr`. -/
def run : Option Uart :=
  match sys.pc with
  | .out => none
  | .begin =>
      if sys.queue = [] then some { sys with pc := .out }
      -- `LSR_TX_RDY`
      else if sys.fill ≠ 0 then some { sys with pc := .out }
      else some { sys with pc := .burst 0 }
  | .burst i =>
      if i < FIFO_SIZE then
        match skipSent sys.queue with
        | [] => some { sys with queue := [], pc := .out }
        | iob :: rest =>
            some { sys.outXmit with
              queue := { iob with ptr := iob.ptr + 1 } :: rest
              pc := .burst (i + 1) }
      else some { sys with pc := .out }

def step : UartAction → Option Uart
  | .write buf =>
      if sys.pc ≠ .out ∨ buf = [] then none
      else
        let iob : OutIob := ⟨ttycCookOutput buf, 0⟩
        if sys.queue = [] then some { sys with queue := [iob], pc := .begin }
        else some { sys with queue := sys.queue ++ [iob] }
  | .intr => if sys.pc = .out then some { sys with pc := .begin } else none
  | .run => sys.run
  | .send => if sys.fill = 0 then none else some { sys with fill := sys.fill - 1 }

/-- A unit of either type with nothing to send. -/
def Idle (sys : Uart) : Prop :=
  sys.queue = [] ∧ sys.pc = .out ∧ sys.fill = 0 ∧ sys.overrun = false

/-- The bytes in the transmit queue. -/
def queued : Nat := (sys.queue.map OutIob.left).sum

/-- No burst of more than one byte begins on a unit without a FIFO. -/
def FitsBuffer : UartAction → Prop
  | .run => sys.pc = .begin → sys.fill = 0 → sys.is16550a = true ∨ sys.queued ≤ 1
  | _ => True

instance : (action : UartAction) → Decidable (sys.FitsBuffer action)
  | .write _ => inferInstanceAs (Decidable True)
  | .intr => inferInstanceAs (Decidable True)
  | .run => inferInstanceAs (Decidable (_ → _ → _))
  | .send => inferInstanceAs (Decidable True)

/-! ## The invariant -/

/-- In a burst the buffer holds the bytes of this burst at most, and there are places for those
to come. -/
structure Inv : Prop where
  safe : sys.overrun = false
  sent : ∀ iob ∈ sys.queue, iob.ptr ≤ iob.data.length
  burst : ∀ i, sys.pc = .burst i → sys.fill ≤ i ∧ (sys.is16550a = true ∨ i + sys.queued ≤ 1)

variable {sys} {sys' : Uart}

/-- Finished buffers have no bytes to send. -/
theorem sum_skipSent (queue : List OutIob) :
    ((skipSent queue).map OutIob.left).sum = (queue.map OutIob.left).sum := by
  induction queue with
  | nil => rfl
  | cons iob rest ih =>
      rw [skipSent]
      split
      · rename_i finished
        have nothing : iob.left = 0 := by rw [OutIob.left, finished, Nat.sub_self]
        rw [ih, List.map_cons, List.sum_cons, nothing, Nat.zero_add]
      · rfl

theorem skipSent_cons {queue rest : List OutIob} {iob : OutIob}
    (left : skipSent queue = iob :: rest) :
    iob.ptr ≠ iob.data.length ∧ ∀ other ∈ iob :: rest, other ∈ queue := by
  induction queue with
  | nil => cases left
  | cons first queue ih =>
      rw [skipSent] at left
      split at left
      · obtain ⟨more, subset⟩ := ih left
        exact ⟨more, fun other member => List.mem_cons_of_mem _ (subset other member)⟩
      · rename_i more
        obtain ⟨rfl, rfl⟩ := List.cons.inj left
        exact ⟨more, fun other member => member⟩

theorem Idle.inv (idle : sys.Idle) : sys.Inv := by
  obtain ⟨queue, pc, fill, safe⟩ := idle
  refine ⟨safe, by simp [queue], fun i atBurst => ?_⟩
  rw [pc] at atBurst
  cases atBurst

/-- A step of `tty_xmit_intr`. -/
theorem Inv.run (inv : sys.Inv) (fits : sys.FitsBuffer .run) (taken : sys.run = some sys') :
    sys'.Inv := by
  rw [Uart.run] at taken
  cases pc : sys.pc with
  | out =>
      rw [pc] at taken
      cases taken
  | begin =>
      rw [pc] at taken
      dsimp only at taken
      by_cases empty : sys.queue = []
      · rw [if_pos empty] at taken
        obtain rfl := Option.some.inj taken
        exact ⟨inv.safe, inv.sent, fun i atBurst => nomatch atBurst⟩
      rw [if_neg empty] at taken
      by_cases busy : sys.fill ≠ 0
      · rw [if_pos busy] at taken
        obtain rfl := Option.some.inj taken
        exact ⟨inv.safe, inv.sent, fun i atBurst => nomatch atBurst⟩
      · rw [if_neg busy] at taken
        obtain rfl := Option.some.inj taken
        have ready : sys.fill = 0 := not_not.mp busy
        refine ⟨inv.safe, inv.sent, fun i atBurst => ?_⟩
        obtain rfl := XmitPc.burst.inj atBurst
        refine ⟨Nat.le_of_eq ready, (fits pc ready).imp_right fun few => ?_⟩
        rw [Nat.zero_add]
        exact few
  | burst i =>
      obtain ⟨filled, room⟩ := inv.burst i pc
      rw [pc] at taken
      dsimp only at taken
      by_cases more : i < FIFO_SIZE
      · rw [if_pos more] at taken
        cases left : skipSent sys.queue with
        | nil =>
            rw [left] at taken
            obtain rfl := Option.some.inj taken
            exact ⟨inv.safe, by simp, fun i atBurst => nomatch atBurst⟩
        | cons iob rest =>
            rw [left] at taken
            obtain rfl := Option.some.inj taken
            obtain ⟨unfinished, subset⟩ := skipSent_cons left
            have inside := inv.sent iob (subset iob List.mem_cons_self)
            have total : sys.queued = iob.left + (rest.map OutIob.left).sum := by
              rw [queued, ← sum_skipSent, left, List.map_cons, List.sum_cons]
            have positive : 0 < iob.left := by
              rw [OutIob.left]
              omega
            have place : sys.fill < sys.capacity := by
              rw [capacity]
              unfold FIFO_SIZE at more
              rcases room with isFifo | few
              · rw [if_pos isFifo]
                omega
              · split <;> omega
            refine ⟨?_, ?_, fun j atBurst => ?_⟩
            · simp only [outXmit, inv.safe, Bool.false_or, decide_eq_false_iff_not]
              omega
            · intro other member
              rcases List.mem_cons.mp member with rfl | behind
              · dsimp only
                omega
              · exact inv.sent other (subset other (List.mem_cons_of_mem _ behind))
            · obtain rfl := XmitPc.burst.inj atBurst
              refine ⟨?_, room.imp_right fun few => ?_⟩
              · show min (sys.fill + 1) sys.capacity ≤ i + 1
                omega
              · have less : (OutIob.mk iob.data (iob.ptr + 1)).left + 1 = iob.left := by
                  simp only [OutIob.left] at positive ⊢
                  omega
                show i + 1 + ((OutIob.mk iob.data (iob.ptr + 1) :: rest).map OutIob.left).sum ≤ 1
                rw [List.map_cons, List.sum_cons]
                omega
      · rw [if_neg more] at taken
        obtain rfl := Option.some.inj taken
        exact ⟨inv.safe, inv.sent, fun i atBurst => nomatch atBurst⟩

theorem Inv.step {action : UartAction} (inv : sys.Inv) (fits : sys.FitsBuffer action)
    (taken : sys.step action = some sys') : sys'.Inv := by
  cases action with
  | write buf =>
      rw [Uart.step] at taken
      by_cases refused : sys.pc ≠ .out ∨ buf = []
      · rw [if_pos refused] at taken
        cases taken
      rw [if_neg refused] at taken
      have out : sys.pc = .out := by
        by_contra inside
        exact refused (.inl inside)
      dsimp only at taken
      by_cases empty : sys.queue = []
      · rw [if_pos empty] at taken
        obtain rfl := Option.some.inj taken
        refine ⟨inv.safe, fun iob member => ?_, fun i atBurst => nomatch atBurst⟩
        obtain rfl := List.mem_singleton.mp member
        exact Nat.zero_le _
      · rw [if_neg empty] at taken
        obtain rfl := Option.some.inj taken
        refine ⟨inv.safe, fun iob member => ?_, fun i atBurst => ?_⟩
        · rcases List.mem_append.mp member with earlier | new
          · exact inv.sent iob earlier
          · obtain rfl := List.mem_singleton.mp new
            exact Nat.zero_le _
        · exact absurd (out.symm.trans atBurst) (by simp)
  | intr =>
      rw [Uart.step] at taken
      split at taken
      · obtain rfl := Option.some.inj taken
        exact ⟨inv.safe, inv.sent, fun i atBurst => nomatch atBurst⟩
      · cases taken
  | run => exact inv.run fits taken
  | send =>
      rw [Uart.step] at taken
      split at taken
      · cases taken
      · obtain rfl := Option.some.inj taken
        refine ⟨inv.safe, inv.sent, fun i atBurst => ?_⟩
        obtain ⟨filled, room⟩ := inv.burst i atBurst
        refine ⟨?_, room⟩
        dsimp only
        omega

/-- In every run in which no burst of more than one byte begins on a unit without a FIFO, no
byte is written to a full transmit buffer. -/
theorem tty_xmit_never_overruns
    (reached : Reached Idle (fun s a s' => s.step a = some s') FitsBuffer sys) :
    sys.overrun = false := by
  have inv : sys.Inv := reached.invariant Inv Idle.inv fun inv fits taken => inv.step fits taken
  exact inv.safe

def idle (is16550a : Bool) : Uart := ⟨is16550a, [], .out, 0, false⟩

theorem idle_idle (is16550a : Bool) : (idle is16550a).Idle := ⟨rfl, rfl, rfl, rfl⟩

/-- A line on a 16550A, with an interrupt before the device has sent it. -/
theorem tty_xmit_never_overruns_fifo : ∃ sys,
    runs step (idle true) [.write [97, 10], .run, .run, .run, .send, .run, .run, .intr, .run] =
      some sys ∧ sys.fill = 2 ∧ sys.overrun = false := by
  have ran : (runs step (idle true)
      [.write [97, 10], .run, .run, .run, .send, .run, .run, .intr, .run]).map fill = some 2 := by
    decide
  have fits : Along step FitsBuffer (idle true)
      [.write [97, 10], .run, .run, .run, .send, .run, .run, .intr, .run] := by
    decide
  obtain ⟨sys, ran, fill⟩ := Option.map_eq_some_iff.mp ran
  exact ⟨sys, ran, fill, tty_xmit_never_overruns (reached_of_runs (idle_idle true) fits ran)⟩

/-- Two letters on an 8250. -/
theorem tty_xmit_overruns_8250 : ∃ sys, Reachable Idle (fun s a s' => s.step a = some s') sys ∧
    sys.overrun = true := by
  have ran : (runs step (idle false) [.write [97, 98], .run, .run, .run]).map overrun =
      some true := by
    decide
  obtain ⟨sys, ran, overrun⟩ := Option.map_eq_some_iff.mp ran
  exact ⟨sys, reachable_of_runs (idle_idle false) ran, overrun⟩

end Uart

end Pegasos.Kernel.Tty
