import Mathlib.Data.List.Basic
import Mathlib.Data.UInt
import Mathlib.Tactic.Common

/-!
# The handshake with the floppy controller

`fdd_wait_for_rqm`, `fdd_send_command` and `fdd_read_bytes` of `FDD.C`, for any values of the
status register and of the ticks.  The wait returns the last status when it times out, and its
callers take 0 only for a time-out.
-/

namespace Pegasos.Kernel.Fdd

def FDD_STAT_RQM : UInt8 := 0x80
def FDD_STAT_DIO : UInt8 := 0x40

def FDD_CS_TIMEOUT : Nat := 0x0001
def FDD_CS_STATE : Nat := 0x0002

/-- A turn of the loop of `fdd_wait_for_rqm`: the status, and the ticks at its end. -/
structure Poll where
  msr : UInt8
  ticks : UInt32
  deriving DecidableEq, Repr

/-- What a wait can see: the ticks when it begins and ends, and its turns, as many as there
are time for.  Then the byte at the data port. -/
structure Wait where
  start : UInt32
  polls : List Poll
  stop : UInt32
  data : UInt8
  deriving DecidableEq, Repr

/-- An access to a port of the controller. -/
inductive Access where
  | status (msr : UInt8)
  | read (byte : UInt8)
  | write (byte : UInt8)
  deriving DecidableEq, Repr

/-- What a function returns, if it does, with its accesses and `ctrl_state`. -/
structure Run (α : Type) where
  rc : Option α
  accesses : List Access
  ctrlState : Nat
  deriving DecidableEq, Repr

/-- The loop of `fdd_wait_for_rqm`: the status it ends with, and all that it reads. -/
def rqmLoop (t : UInt32) : List Poll → Option UInt8 × List UInt8
  | [] => (none, [])
  | poll :: rest =>
      if poll.msr &&& FDD_STAT_RQM ≠ 0 then (some poll.msr, [poll.msr])
      else if poll.ticks ≤ t then
        let (msr, seen) := rqmLoop t rest
        (msr, poll.msr :: seen)
      else (some poll.msr, [poll.msr])

/-- `fdd_wait_for_rqm`. -/
def fddWaitForRqm (wait : Wait) (ctrlState : Nat) : Run UInt8 :=
  let t := wait.start + 2
  let (msr, seen) := rqmLoop t wait.polls
  let ctrlState :=
    if msr.isSome ∧ wait.stop ≥ t then ctrlState ||| FDD_CS_TIMEOUT else ctrlState
  ⟨msr, seen.map .status, ctrlState⟩

/-- The common loop of `fdd_send_command` and `fdd_read_bytes`, over the accesses it is to
make.  The direction bit must be `dio`, and `wrong` is set if it is not. -/
def fddBytes (dio : Bool) (wrong : Nat) : List (Wait → Access) → List Wait → Nat → Run Int
  | [], _, ctrlState => ⟨some 0, [], ctrlState⟩
  | _ :: _, [], ctrlState => ⟨none, [], ctrlState⟩
  | access :: rest, wait :: waits, ctrlState =>
      let waited := fddWaitForRqm wait ctrlState
      match waited.rc with
      | none => ⟨none, waited.accesses, waited.ctrlState⟩
      | some msr =>
          if msr = 0 then ⟨some (-1), waited.accesses, waited.ctrlState⟩
          else if decide (msr &&& FDD_STAT_DIO ≠ 0) ≠ dio then
            ⟨some (-1), waited.accesses, waited.ctrlState ||| wrong⟩
          else
            let run := fddBytes dio wrong rest waits waited.ctrlState
            ⟨run.rc, waited.accesses ++ access wait :: run.accesses, run.ctrlState⟩

/-- `fdd_send_command`. -/
def fddSendCommand (data : List UInt8) (waits : List Wait) (ctrlState : Nat) : Run Int :=
  fddBytes false FDD_CS_STATE (data.map fun byte _ => .write byte) waits ctrlState

/-- `fdd_read_bytes`. -/
def fddReadBytes (len : Nat) (waits : List Wait) (ctrlState : Nat) : Run Int :=
  fddBytes true 0 (List.replicate len fun wait => .read wait.data) waits ctrlState

/-! ## What it is for -/

/-- The byte of an access to the data port. -/
def Access.byte : Access → Option UInt8
  | status _ => none
  | read byte => some byte
  | write byte => some byte

/-- The controller is ready for a byte in one direction. -/
def Ready (dio : Bool) (msr : UInt8) : Prop :=
  msr &&& FDD_STAT_RQM ≠ 0 ∧ decide (msr &&& FDD_STAT_DIO ≠ 0) = dio

instance (dio : Bool) (msr : UInt8) : Decidable (Ready dio msr) :=
  inferInstanceAs (Decidable (_ ∧ _))

/-- Every access to the data port comes directly after a status with which the controller is
ready.  `last` is the status read just before. -/
def Handshaken (dio : Bool) : Option UInt8 → List Access → Prop
  | _, [] => True
  | _, .status msr :: rest => Handshaken dio (some msr) rest
  | last, _ :: rest => (∃ msr ∈ last, Ready dio msr) ∧ Handshaken dio none rest

/-- The bytes move under handshakes only, a time-out leads to -1, and a return of 0 means that
all of them have moved. -/
structure Run.Right (dio : Bool) (len : Nat) (run : Run Int) : Prop where
  handshaken : Handshaken dio none run.accesses
  timeOut : ∀ msr, run.accesses.getLast? = some (.status msr) → msr &&& FDD_STAT_RQM = 0 →
    ∀ rc ∈ run.rc, rc = -1
  complete : run.rc = some 0 → (run.accesses.filterMap Access.byte).length = len

/-- The loop goes on after a poll. -/
def Poll.Pending (t : UInt32) (poll : Poll) : Prop :=
  poll.msr &&& FDD_STAT_RQM = 0 ∧ poll.ticks ≤ t

/-- A wait ends with a status: with the first poll that the loop does not go on after. -/
def Wait.Ends (wait : Wait) (msr : UInt8) : Prop :=
  ∃ before poll after, wait.polls = before ++ poll :: after ∧
    (∀ other ∈ before, other.Pending (wait.start + 2)) ∧ ¬ poll.Pending (wait.start + 2) ∧
    poll.msr = msr

/-- No wait that the transfer comes to ends without `RQM` in a status that has the direction
bit for the transfer, and is not 0. -/
def Fits (dio : Bool) : Nat → List Wait → Prop
  | 0, _ => True
  | _ + 1, [] => True
  | len + 1, wait :: waits => ∀ msr, wait.Ends msr →
      (msr &&& FDD_STAT_RQM = 0 → msr = 0 ∨ decide (msr &&& FDD_STAT_DIO ≠ 0) ≠ dio) ∧
        (Ready dio msr → Fits dio len waits)

/-! ## Waits -/

/-- What a loop that ends has read: its last status is the one it ends with. -/
theorem rqmLoop_some {t : UInt32} {polls : List Poll} {msr : UInt8}
    (ends : (rqmLoop t polls).1 = some msr) :
    ∃ before poll after, polls = before ++ poll :: after ∧
      (∀ other ∈ before, other.Pending t) ∧ ¬ poll.Pending t ∧ poll.msr = msr ∧
      (rqmLoop t polls).2 = before.map Poll.msr ++ [msr] := by
  induction polls with
  | nil => cases ends
  | cons poll rest ih =>
      rw [rqmLoop] at ends ⊢
      by_cases clear : poll.msr &&& FDD_STAT_RQM = 0
      · rw [if_neg (not_not.mpr clear)] at ends ⊢
        by_cases early : poll.ticks ≤ t
        · rw [if_pos early] at ends ⊢
          obtain ⟨before, last, after, rfl, pending, stops, same, seen⟩ := ih ends
          refine ⟨poll :: before, last, after, rfl, ?_, stops, same, ?_⟩
          · intro other member
            obtain rfl | member := List.mem_cons.mp member
            · exact ⟨clear, early⟩
            · exact pending other member
          · exact congrArg (poll.msr :: ·) seen
        · rw [if_neg early] at ends ⊢
          obtain rfl := Option.some.inj ends
          exact ⟨[], poll, rest, rfl, fun _ member => (nomatch member),
            fun pending => early pending.2, rfl, rfl⟩
      · rw [if_pos clear] at ends ⊢
        obtain rfl := Option.some.inj ends
        exact ⟨[], poll, rest, rfl, fun _ member => (nomatch member),
          fun pending => clear pending.1, rfl, rfl⟩

theorem rqmLoop_of_pending {t : UInt32} {before after : List Poll} {poll : Poll}
    (pending : ∀ other ∈ before, other.Pending t) (stops : ¬ poll.Pending t) :
    (rqmLoop t (before ++ poll :: after)).1 = some poll.msr := by
  induction before with
  | nil =>
      rw [List.nil_append, rqmLoop]
      split
      · rfl
      · split
        · rename_i clear early
          exact absurd ⟨not_not.mp clear, early⟩ stops
        · rfl
  | cons first before ih =>
      obtain ⟨clear, early⟩ := pending first List.mem_cons_self
      rw [List.cons_append, rqmLoop, if_neg (not_not.mpr clear), if_pos early]
      exact ih fun other member => pending other (List.mem_cons_of_mem first member)

theorem Wait.ends_iff {wait : Wait} {msr : UInt8} :
    wait.Ends msr ↔ (rqmLoop (wait.start + 2) wait.polls).1 = some msr := by
  constructor
  · rintro ⟨before, poll, after, polls, pending, stops, rfl⟩
    rw [polls]
    exact rqmLoop_of_pending pending stops
  · intro ends
    obtain ⟨before, poll, after, polls, pending, stops, same, -⟩ := rqmLoop_some ends
    exact ⟨before, poll, after, polls, pending, stops, same⟩

/-- Statuses that are read between accesses: the last one counts. -/
theorem handshaken_statuses {dio : Bool} {last : Option UInt8} {before : List UInt8} {msr : UInt8}
    {rest : List Access} :
    Handshaken dio last ((before ++ [msr]).map .status ++ rest) ↔
      Handshaken dio (some msr) rest := by
  induction before generalizing last with
  | nil => rfl
  | cons first before ih => exact ih

theorem handshaken_only {dio : Bool} {last : Option UInt8} (seen : List UInt8) :
    Handshaken dio last (seen.map .status) := by
  induction seen generalizing last with
  | nil => trivial
  | cons first seen ih => exact ih

theorem handshaken_data {dio : Bool} {last : Option UInt8} {access : Access} {rest : List Access}
    (data : access.byte.isSome) : Handshaken dio last (access :: rest) ↔
      (∃ msr ∈ last, Ready dio msr) ∧ Handshaken dio none rest := by
  cases access with
  | status msr => cases data
  | read byte => rfl
  | write byte => rfl

/-! ## The loop over the bytes -/

section bytes

variable {dio : Bool} {wrong : Nat}

/-- The bytes move under handshakes exactly if no wait lets one through that times out. -/
theorem fddBytes_handshaken {todo : List (Wait → Access)}
    (data : ∀ access ∈ todo, ∀ wait, (access wait).byte.isSome) (waits : List Wait)
    (ctrlState : Nat) :
    Handshaken dio none (fddBytes dio wrong todo waits ctrlState).accesses ↔
      Fits dio todo.length waits := by
  induction todo generalizing waits ctrlState with
  | nil => exact Iff.rfl
  | cons access rest ih =>
      have here := data access List.mem_cons_self
      have later := fun other member => data other (List.mem_cons_of_mem access member)
      cases waits with
      | nil => exact Iff.rfl
      | cons wait waits =>
          rw [fddBytes, List.length_cons, Fits]
          simp only [Wait.ends_iff, fddWaitForRqm]
          cases ends : (rqmLoop (wait.start + 2) wait.polls).1 with
          | none => exact iff_of_true (handshaken_only _) nofun
          | some msr =>
              simp only [Option.some.injEq, forall_eq']
              by_cases zero : msr = 0
              · subst zero
                rw [if_pos rfl]
                refine iff_of_true (handshaken_only _) ⟨fun _ => .inl rfl, fun ready => ?_⟩
                exact absurd (by simp) ready.1
              rw [if_neg zero]
              by_cases direction : decide (msr &&& FDD_STAT_DIO ≠ 0) ≠ dio
              · rw [if_pos direction]
                exact iff_of_true (handshaken_only _)
                  ⟨fun _ => .inr direction, fun ready => absurd ready.2 direction⟩
              · rw [if_neg direction]
                obtain ⟨before, -, -, -, -, -, -, seen⟩ := rqmLoop_some ends
                rw [seen, handshaken_statuses, handshaken_data (here wait), ih later]
                have given : (∃ msr' ∈ some msr, Ready dio msr') ↔ Ready dio msr := by simp
                rw [given]
                constructor
                · rintro ⟨ready, fits⟩
                  exact ⟨fun clear => absurd clear ready.1, fun _ => fits⟩
                · rintro ⟨expired, fits⟩
                  have rqm : msr &&& FDD_STAT_RQM ≠ 0 := fun clear =>
                    (expired clear).elim zero direction
                  have ready : Ready dio msr := ⟨rqm, not_not.mp direction⟩
                  exact ⟨ready, fits ready⟩

theorem byte_statuses (seen : List UInt8) :
    (seen.map Access.status).filterMap Access.byte = [] := by
  induction seen with
  | nil => rfl
  | cons first seen ih => exact ih

/-- A loop that ends with a status returns -1, and one that returns 0 has moved all bytes. -/
theorem fddBytes_returns {todo : List (Wait → Access)}
    (data : ∀ access ∈ todo, ∀ wait, (access wait).byte.isSome) (waits : List Wait)
    (ctrlState : Nat) :
    (∀ msr, (fddBytes dio wrong todo waits ctrlState).accesses.getLast? = some (.status msr) →
      ∀ rc ∈ (fddBytes dio wrong todo waits ctrlState).rc, rc = -1) ∧
    ((fddBytes dio wrong todo waits ctrlState).rc = some 0 →
      ((fddBytes dio wrong todo waits ctrlState).accesses.filterMap Access.byte).length =
        todo.length) := by
  induction todo generalizing waits ctrlState with
  | nil => exact ⟨nofun, fun _ => rfl⟩
  | cons access rest ih =>
      have here := data access List.mem_cons_self
      have later := fun other member => data other (List.mem_cons_of_mem access member)
      cases waits with
      | nil => exact ⟨nofun, nofun⟩
      | cons wait waits =>
          have failed : ∀ msr : UInt8, ∀ rc ∈ some (-1 : Int), rc = -1 := by
            rintro _ _ ⟨⟩
            rfl
          rw [fddBytes]
          simp only [fddWaitForRqm]
          cases (rqmLoop (wait.start + 2) wait.polls).1 with
          | none => exact ⟨fun _ _ => nofun, nofun⟩
          | some msr =>
              dsimp only
              by_cases zero : msr = 0
              · rw [if_pos zero]
                exact ⟨fun msr _ => failed msr, by simp⟩
              rw [if_neg zero]
              by_cases direction : decide (msr &&& FDD_STAT_DIO ≠ 0) ≠ dio
              · rw [if_pos direction]
                exact ⟨fun msr _ => failed msr, by simp⟩
              · rw [if_neg direction]
                obtain ⟨timeOut, complete⟩ := ih later waits
                  (if (some msr).isSome = true ∧ wait.stop ≥ wait.start + 2 then
                    ctrlState ||| FDD_CS_TIMEOUT
                  else ctrlState)
                generalize fddBytes dio wrong rest waits _ = run at timeOut complete
                refine ⟨fun msr last => ?_, fun done => ?_⟩
                · cases ends : run.accesses.getLast? with
                  | none =>
                      have byte := here wait
                      simp only [List.getLast?_append, List.getLast?_cons, ends, Option.getD_none,
                        Option.some_or, Option.some.injEq] at last
                      rw [last] at byte
                      cases byte
                  | some access' =>
                      simp only [List.getLast?_append, List.getLast?_cons, ends, Option.getD_some,
                        Option.some_or, Option.some.injEq] at last
                      exact timeOut msr (last ▸ ends)
                · obtain ⟨byte, moved⟩ := Option.isSome_iff_exists.mp (here wait)
                  simp only [List.filterMap_append, byte_statuses, List.nil_append,
                    List.filterMap_cons, moved, List.length_cons, complete done]

end bytes

/-- A command is sent, and results are read, as they should be exactly if no wait that they
come to times out with a status that passes for one of their handshakes. -/
theorem handshake_right (data : List UInt8) (len : Nat) (waits : List Wait) (ctrlState : Nat) :
    ((fddSendCommand data waits ctrlState).Right false data.length ↔
      Fits false data.length waits) ∧
    ((fddReadBytes len waits ctrlState).Right true len ↔ Fits true len waits) := by
  have sends : ∀ access ∈ data.map fun byte (_ : Wait) => Access.write byte, ∀ wait,
      (access wait).byte.isSome := by
    simp [Access.byte]
  have reads : ∀ access ∈ List.replicate len fun wait : Wait => Access.read wait.data, ∀ wait,
      (access wait).byte.isSome := by
    intro access member wait
    rw [List.eq_of_mem_replicate member]
    rfl
  have written : (data.map fun byte (_ : Wait) => Access.write byte).length = data.length :=
    List.length_map _
  have read : (List.replicate len fun wait : Wait => Access.read wait.data).length = len :=
    List.length_replicate
  constructor
  · have under := @fddBytes_handshaken false FDD_CS_STATE _ sends waits ctrlState
    obtain ⟨timeOut, complete⟩ := @fddBytes_returns false FDD_CS_STATE _ sends waits ctrlState
    rw [written] at under complete
    exact ⟨fun right => under.mp right.handshaken,
      fun fits => ⟨under.mpr fits, fun msr last _ => timeOut msr last, complete⟩⟩
  · have under := @fddBytes_handshaken true 0 _ reads waits ctrlState
    obtain ⟨timeOut, complete⟩ := @fddBytes_returns true 0 _ reads waits ctrlState
    rw [read] at under complete
    exact ⟨fun right => under.mp right.handshaken,
      fun fits => ⟨under.mpr fits, fun msr last _ => timeOut msr last, complete⟩⟩

/-- A controller that stays busy gets a byte of a command. -/
theorem send_to_busy :
    ¬ (fddSendCommand [0x08] [⟨0, [⟨0x10, 3⟩], 3, 0⟩] 0).Right false 1 := by
  rintro ⟨⟨⟨msr, busy, ready⟩, -⟩, -, -⟩
  obtain rfl := Option.some.inj busy
  exact absurd ready (by decide)

end Pegasos.Kernel.Fdd
