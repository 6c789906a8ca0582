import Mathlib.Logic.Function.Basic
import Pegasos.Kernel.Fdd.FddOp

/-!
# The floppy driver at rest

The state of a unit, `FDD_CS_SEEKING` and the interrupt flag through `fdd_op`,
`fdd_recalibrate`, `fdd_seek` and the interrupt handler.  Whether commands can be sent and what
the interrupts bring is given.  `fdd_seldrive` takes and gives back a semaphore, which leaves
interrupts enabled, and so does a wait for an interrupt.
-/

namespace Pegasos.Kernel.Fdd

open Function (update)

/-- `fdd_state_t`. -/
inductive FddState where
  | idle
  | seeking
  | seekdone
  | io
  deriving DecidableEq, Repr

/-- `fddunit_t` without its motor. -/
structure DriveUnit extends FddUnit where
  state : FddState
  nexpresult : Nat
  nresult : Nat
  result : List Nat

/-- The static variables of the driver, with `FDD_CS_SEEKING` for `ctrl_state`, and the
interrupt flag. -/
structure Driver where
  nunits : Nat
  units : Nat → DriveUnit
  seeking : Bool
  iounit : Option Nat
  enabled : Bool

/-- An interrupt of the controller: whether the handler can send a command and read results,
and the bytes that it reads.  What it has read before a failure is not looked at. -/
structure Interrupt where
  sent : Bool
  got : Bool
  bytes : List Nat

/-- A try of `fdd_recalibrate`. -/
structure RecalTry where
  specified : Bool
  sent : Bool
  interrupts : List Interrupt

/-- A try of `fdd_op` at the operation. -/
structure OpTry where
  dma : Bool
  sent : Bool
  interrupts : List Interrupt

/-- A turn of the outer loop of `fdd_op`. -/
structure Attempt where
  specified : Bool
  recal : Nat → RecalTry
  seekSent : Bool
  seekInterrupts : List Interrupt
  op : Nat → OpTry

/-- The branches that a run takes. -/
inductive Mark where
  /-- `fdd_seldrive` fails. -/
  | unselected
  /-- `fdd_op` has selected the drive and made the unit idle. -/
  | selected
  /-- `fdd_recalibrate` cannot send its command. -/
  | recalUnsent
  /-- `fdd_seek` cannot send its command; whether a unit is seeking then. -/
  | seekUnsent (seeking : Bool)
  /-- `fdd_op` cannot send its command. -/
  | opUnsent
  /-- A wait is over; whether a unit counts as seeking then. -/
  | woken (seeking : Bool)
  /-- The operation has succeeded. -/
  | done
  deriving DecidableEq, Repr

/-- What a function returns, with its branches, the last one first.  `none` is a wait without
an end. -/
abbrev Returned := Option (Int × Driver × List Mark)

namespace Driver

variable (unit : Nat) (d : Driver)

def modify (edit : DriveUnit → DriveUnit) : Driver :=
  { d with units := update d.units unit (edit (d.units unit)) }

/-- `pu->state = state`. -/
def setState (state : FddState) : Driver := d.modify unit fun pu => { pu with state := state }

/-- `fdd_set_seeking`. -/
def setSeeking : Driver :=
  { d with seeking := (List.range d.nunits).any fun i => (d.units i).state = .seeking }

/-- `fdd_intr_seek`, with the unit whose waiter is unblocked. -/
def intrSeek (intr : Interrupt) : Option Nat × Driver :=
  if !intr.sent ∨ !intr.got then (none, d)
  else
    match (List.range d.nunits).find? fun i => intr.bytes.getD 0 0 % 4 = (d.units i).drive with
    | none => (none, d)
    | some i =>
        (some i,
          (d.modify i fun pu =>
            { pu with result := intr.bytes, nresult := 2, state := .seekdone }).setSeeking)

/-- `fdd_intr`, after the controller has been reset. -/
def fddIntr (intr : Interrupt) : Option Nat × Driver :=
  if d.seeking then d.intrSeek intr
  else
    match d.iounit with
    | none => (none, d)
    | some i =>
        let d := d.modify i fun pu =>
          if intr.got then { pu with result := intr.bytes, nresult := pu.nexpresult }
          else { pu with nresult := 0 }
        (some i, { d with iounit := none })

/-- `task_block(&pu->waiter)`: interrupts come until one of them unblocks the task. -/
def taskBlock : List Interrupt → Driver → Option Driver
  | [], _ => none
  | intr :: rest, d =>
      let (woken, d) := d.fddIntr intr
      if woken = some unit then some { d with enabled := true } else taskBlock rest d

/-- `fdd_seldrive`. -/
def seldrive (specified : Bool) : Int × Driver :=
  (if specified then 0 else -1, { d with enabled := true })

/-- The result of `fdd_recalibrate` is one of a recalibration to cylinder 0. -/
def RecalOk : Prop :=
  (d.units unit).nresult = 2 ∧ ((d.units unit).result.getD 0 0).testBit 5 = true ∧
    (d.units unit).result.getD 0 0 / 0x40 % 4 = 0 ∧ (d.units unit).result.getD 1 0 = 0

instance : Decidable (d.RecalOk unit) := inferInstanceAs (Decidable (_ ∧ _))

/-- The loop of `fdd_recalibrate`. -/
def recalLoop (tries : Nat → RecalTry) : (left i : Nat) → Driver → List Mark → Returned
  | 0, _, d, marks => some (-1, d, marks)
  | left + 1, i, d, marks =>
      let (rc, d) := d.seldrive (tries i).specified
      if rc ≠ 0 then recalLoop tries left (i + 1) d (.unselected :: marks)
      else
        let sti := d.enabled
        let d := { d.modify unit fun pu => { pu with state := .seeking, nexpresult := 2 } with
          enabled := false
          seeking := true }
        if !(tries i).sent then
          recalLoop tries left (i + 1) { d with enabled := sti } (.recalUnsent :: marks)
        else
          match d.taskBlock unit (tries i).interrupts with
          | none => none
          | some d =>
              let marks := .woken d.seeking :: marks
              if d.RecalOk unit then some (0, d, marks)
              else recalLoop tries left (i + 1) d marks

/-- `fdd_recalibrate`. -/
def fddRecalibrate (tries : Nat → RecalTry) (marks : List Mark) : Returned :=
  if (d.units unit).state ≠ .idle then some (-1, d, marks)
  else recalLoop unit tries 3 0 d marks

/-- `fdd_seek`. -/
def fddSeek (sent : Bool) (interrupts : List Interrupt) (marks : List Mark) : Returned :=
  let d := { d.setState unit .seeking with enabled := false, seeking := true }
  if !sent then
    let d := (d.setState unit .idle).setSeeking
    some (-1, d, .seekUnsent d.seeking :: marks)
  else
    match d.taskBlock unit interrupts with
    | none => none
    | some d => some (0, d, .woken d.seeking :: marks)

/-- The result of an operation is complete. -/
def OpAnswered : Prop := (d.units unit).nresult = (d.units unit).nexpresult

instance : Decidable (d.OpAnswered unit) := inferInstanceAs (Decidable (_ = _))

/-- `FDD_ST0_IC(pr->st0) == FDD_ST0_IC_OK`. -/
def OpOk : Prop := (d.units unit).result.getD 0 0 / 0x40 % 4 = 0

instance : Decidable (d.OpOk unit) := inferInstanceAs (Decidable (_ = _))

/-- `pr->st2 & FDD_ST2_WRONGCYL`. -/
def WrongCyl : Prop := ((d.units unit).result.getD 2 0).testBit 4 = true

instance : Decidable (d.WrongCyl unit) := inferInstanceAs (Decidable (_ = _))

/-- The inner loop of `fdd_op`.  The first result tells whether the drive has to be
recalibrated. -/
def opLoop (tries : Nat → OpTry) :
    (left i : Nat) → Driver → List Mark → Option (Bool × Int × Driver × List Mark)
  | 0, _, d, marks => some (false, -1, d, marks)
  | left + 1, i, d, marks =>
      if !(tries i).dma then opLoop tries left (i + 1) d marks
      else
        let sti := d.enabled
        let d := { d.modify unit fun pu => { pu with state := .io, nexpresult := 7 } with
          enabled := false
          iounit := some unit }
        if !(tries i).sent then
          opLoop tries left (i + 1) { d with enabled := sti } (.opUnsent :: marks)
        else
          match d.taskBlock unit (tries i).interrupts with
          | none => none
          | some d =>
              if ¬ d.OpAnswered unit then
                opLoop tries left (i + 1) d (.woken d.seeking :: marks)
              else if d.OpOk unit then
                some (false, 0, d.setState unit .idle, .done :: marks)
              else if d.WrongCyl unit then some (true, -1, d, .woken d.seeking :: marks)
              else opLoop tries left (i + 1) d (.woken d.seeking :: marks)

/-- The outer loop of `fdd_op`. -/
def seekLoop (attempts : Nat → Attempt) :
    (left k : Nat) → (needRecal : Bool) → Driver → List Mark → Returned
  | 0, _, _, d, marks => some (-1, d, marks)
  | left + 1, k, needRecal, d, marks =>
      let (rc, d) := d.seldrive (attempts k).specified
      if rc ≠ 0 then seekLoop attempts left (k + 1) needRecal d (.unselected :: marks)
      else
        let d := d.setState unit .idle
        let marks := .selected :: marks
        match
          if needRecal then d.fddRecalibrate unit (attempts k).recal marks
          else some (0, d, marks) with
        | none => none
        | some (rc, d, marks) =>
            if rc ≠ 0 then seekLoop attempts left (k + 1) needRecal d marks
            else
              match d.fddSeek unit (attempts k).seekSent (attempts k).seekInterrupts marks with
              | none => none
              | some (rc, d, marks) =>
                  if rc ≠ 0 then seekLoop attempts left (k + 1) false d marks
                  else
                    match opLoop unit (attempts k).op FDD_RETRY 0 d marks with
                    | none => none
                    | some (needRecal, rc, d, marks) =>
                        if rc ≠ 0 then seekLoop attempts left (k + 1) needRecal d marks
                        else some (0, d, marks)

/-- `fdd_op`, for a buffer, a block and a size. -/
def fddOp (attempts : Nat → Attempt) (buf blk : Nat) (size : Int) : Returned :=
  if size < 0 ∨ size.tmod FDD_SECTOR_SIZE ≠ 0 then some (-EINVAL, d, [])
  else if size = 0 then some (0, d, [])
  else if unit ≥ d.nunits then some (-ENODEV, d, [])
  else
    match secPerTrk (d.units unit).type with
    | none => some (- EIO, d, [])
    | some spt =>
        (seekLoop unit attempts FDD_RETRY 0 false d []).map fun (rc, d, marks) =>
          (if rc < 0 then rc else secs spt blk buf size.toNat * FDD_SECTOR_SIZE, d, marks)

/-! ## What it is for -/

/-- A unit is idle, no unit counts as seeking and interrupts are enabled. -/
structure Rest : Prop where
  idle : (d.units unit).state = .idle
  seeking : d.seeking = false
  enabled : d.enabled = true

end Driver

/-- `FDD_CS_SEEKING` after the branches of a run that begins with `first`. -/
def seekingAfter (first : Bool) : List Mark → Bool
  | [] => first
  | .recalUnsent :: _ => true
  | .seekUnsent seeking :: _ => seeking
  | .woken seeking :: _ => seeking
  | .done :: _ => false
  | .unselected :: marks => seekingAfter first marks
  | .selected :: marks => seekingAfter first marks
  | .opUnsent :: marks => seekingAfter first marks

/-- The runs after which the driver is at rest: the operation has succeeded, or the drive has
never been selected, or the last turn that selected it could not select it again for a
recalibration, or it could not seek and later turns could not select the drive, and in all but
the first case no unit counts as seeking. -/
def Settled (first : Bool) : List Mark → Prop
  | [] => first = false
  | .done :: _ => True
  | .selected :: marks => seekingAfter first marks = false
  | .unselected :: .seekUnsent seeking :: _ => seeking = false
  | .unselected :: marks => Settled first marks
  | _ => False

/-! ## Branches and states -/

/-- The last branch that sets the state of the unit makes it idle. -/
def IdleAfter : List Mark → Prop
  | [] => True
  | .unselected :: marks => IdleAfter marks
  | .selected :: _ => True
  | .seekUnsent _ :: _ => True
  | .done :: _ => True
  | _ => False

/-- The last branch leaves interrupts enabled. -/
def EnabledAfter : List Mark → Prop
  | .seekUnsent _ :: _ => False
  | _ => True

theorem settled_iff (first : Bool) (marks : List Mark) : Settled first marks ↔
    IdleAfter marks ∧ seekingAfter first marks = false ∧ EnabledAfter marks := by
  induction marks with
  | nil => simp [Settled, IdleAfter, seekingAfter, EnabledAfter]
  | cons mark marks ih =>
      cases mark with
      | unselected =>
          cases marks with
          | nil => simp [Settled, IdleAfter, seekingAfter, EnabledAfter]
          | cons last marks =>
              cases last <;>
                simp_all [Settled, IdleAfter, seekingAfter, EnabledAfter]
      | _ => simp [Settled, IdleAfter, seekingAfter, EnabledAfter]

namespace Driver

variable (unit : Nat) (d : Driver)

/-- The state is that of the branches taken. -/
structure Follows (first : Bool) (marks : List Mark) : Prop where
  idle : (d.units unit).state = .idle ↔ IdleAfter marks
  seeking : d.seeking = seekingAfter first marks
  enabled : d.enabled = true ↔ EnabledAfter marks

variable {unit} {d} {d' : Driver} {first : Bool} {marks marks' : List Mark} {rc : Int}

theorem Follows.rest_iff (follows : d.Follows unit first marks) :
    d.Rest unit ↔ Settled first marks := by
  rw [settled_iff, ← follows.idle, ← follows.seeking, ← follows.enabled]
  exact ⟨fun rest => ⟨rest.idle, rest.seeking, rest.enabled⟩, fun ⟨idle, seeking, enabled⟩ =>
    ⟨idle, seeking, enabled⟩⟩

theorem modify_unit (edit : DriveUnit → DriveUnit) :
    (d.modify unit edit).units unit = edit (d.units unit) :=
  Function.update_self unit _ d.units

theorem modify_other {other : Nat} (ne : unit ≠ other) (edit : DriveUnit → DriveUnit) :
    (d.modify other edit).units unit = d.units unit :=
  Function.update_of_ne ne _ d.units

theorem setState_state (state : FddState) : ((d.setState unit state).units unit).state = state := by
  rw [setState, modify_unit]

/-- A field that an edit keeps stays the same for all units. -/
theorem modify_keeps {α : Type} (field : DriveUnit → α) {edit : DriveUnit → DriveUnit}
    (keeps : ∀ pu, field (edit pu) = field pu) (other : Nat) :
    field ((d.modify other edit).units unit) = field (d.units unit) := by
  by_cases same : unit = other
  · subst same
    rw [modify_unit, keeps]
  · rw [modify_other same]

/-- What an interrupt leaves of a unit: it wakes it from a seek, or with the results of an
operation when no unit counts as seeking, or it only says that a seek is done. -/
theorem fddIntr_spec (intr : Interrupt) :
    (((d.fddIntr intr).2.units unit).state = (d.units unit).state ∨
      ((d.fddIntr intr).2.units unit).state = .seekdone) ∧
    ((d.fddIntr intr).2.units unit).nexpresult = (d.units unit).nexpresult ∧
    ((d.fddIntr intr).1 = some unit →
      ((d.fddIntr intr).2.units unit).nresult = 2 ∨ (d.fddIntr intr).2.seeking = false) := by
  rw [fddIntr]
  by_cases seeking : d.seeking = true
  · rw [if_pos seeking, intrSeek]
    split
    · exact ⟨.inl rfl, rfl, nofun⟩
    · cases (List.range d.nunits).find? _ with
      | none => exact ⟨.inl rfl, rfl, nofun⟩
      | some i =>
          have expected := @modify_keeps unit d Nat DriveUnit.nexpresult
            (fun pu => { pu with result := intr.bytes, nresult := 2, state := .seekdone })
            (fun _ => rfl) i
          by_cases same : unit = i
          · subst same
            have units := @modify_unit unit d fun pu =>
              { pu with result := intr.bytes, nresult := 2, state := .seekdone }
            exact ⟨.inr (congrArg DriveUnit.state units), expected,
              fun _ => .inl (congrArg DriveUnit.nresult units)⟩
          · have units := @modify_other unit d i same fun pu =>
              { pu with result := intr.bytes, nresult := 2, state := .seekdone }
            exact ⟨.inl (congrArg DriveUnit.state units), expected,
              fun woken => absurd (Option.some.inj woken).symm same⟩
  · rw [if_neg seeking]
    have clear : d.seeking = false := (Bool.not_eq_true _).mp seeking
    cases d.iounit with
    | none => exact ⟨.inl rfl, rfl, nofun⟩
    | some i =>
        have keeps : ∀ pu : DriveUnit,
            (if intr.got then { pu with result := intr.bytes, nresult := pu.nexpresult }
              else { pu with nresult := 0 } : DriveUnit).state = pu.state ∧
            (if intr.got then { pu with result := intr.bytes, nresult := pu.nexpresult }
              else { pu with nresult := 0 } : DriveUnit).nexpresult = pu.nexpresult := by
          intro pu
          split <;> exact ⟨rfl, rfl⟩
        exact ⟨.inl (modify_keeps DriveUnit.state (fun pu => (keeps pu).1) i),
          modify_keeps DriveUnit.nexpresult (fun pu => (keeps pu).2) i, fun _ => .inr clear⟩

/-- What a wait leaves of a unit. -/
theorem taskBlock_spec {interrupts : List Interrupt}
    (woken : d.taskBlock unit interrupts = some d') :
    d'.enabled = true ∧
    ((d'.units unit).state = (d.units unit).state ∨ (d'.units unit).state = .seekdone) ∧
    (d'.units unit).nexpresult = (d.units unit).nexpresult ∧
    ((d'.units unit).nresult = 2 ∨ d'.seeking = false) := by
  induction interrupts generalizing d with
  | nil => cases woken
  | cons intr rest ih =>
      obtain ⟨state, expected, result⟩ := @fddIntr_spec unit d intr
      rw [taskBlock] at woken
      obtain ⟨who, next, handled⟩ : ∃ who next, d.fddIntr intr = (who, next) := ⟨_, _, rfl⟩
      rw [handled] at state expected result woken
      dsimp only at state expected result woken
      split at woken
      · obtain rfl := Option.some.inj woken
        exact ⟨rfl, state, expected, result ‹_›⟩
      · obtain ⟨enabled, state', expected', result'⟩ := ih woken
        refine ⟨enabled, ?_, expected'.trans expected, result'⟩
        rcases state' with same | done
        · rw [same]
          exact state
        · exact .inr done

/-! ## The branches -/

theorem Follows.seldrive (follows : d.Follows unit first marks) :
    ({ d with enabled := true } : Driver).Follows unit first (.unselected :: marks) where
  idle := follows.idle
  seeking := follows.seeking
  enabled := iff_of_true rfl trivial

/-- The driver that a function returns. -/
theorem Follows.result {rc' : Int} (follows : d.Follows unit first marks)
    (ran : some (rc', d, marks) = some (rc, d', marks')) : d'.Follows unit first marks' := by
  cases ran
  exact follows

/-- A wait that does not end an operation well leaves the unit away from rest. -/
theorem follows_woken {interrupts : List Interrupt} (busy : (d.units unit).state ≠ .idle)
    (woken : d.taskBlock unit interrupts = some d') :
    d'.Follows unit first (.woken d'.seeking :: marks) := by
  obtain ⟨enabled, state, -⟩ := taskBlock_spec woken
  refine ⟨iff_of_false ?_ id, rfl, iff_of_true enabled trivial⟩
  rcases state with same | done
  · rw [same]
    exact busy
  · rw [done]
    decide

theorem recalLoop_follows {tries : Nat → RecalTry} {left i : Nat}
    (follows : d.Follows unit first marks)
    (ran : recalLoop unit tries left i d marks = some (rc, d', marks')) :
    d'.Follows unit first marks' := by
  induction left generalizing i d marks with
  | zero => exact follows.result ran
  | succ left ih =>
      rw [recalLoop, seldrive] at ran
      dsimp only at ran
      by_cases specified : (tries i).specified = true
      · rw [if_pos specified, if_neg (by decide)] at ran
        by_cases sent : (tries i).sent = true
        · rw [if_neg (by simp [sent])] at ran
          split at ran
          · cases ran
          · rename_i d'' woken
            have busy : d''.Follows unit first (.woken d''.seeking :: marks) := by
              refine follows_woken ?_ woken
              rw [modify_unit]
              exact (by decide : FddState.seeking ≠ .idle)
            split at ran
            · exact busy.result ran
            · exact ih busy ran
        · rw [if_pos (by simp [sent])] at ran
          refine ih ?_ ran
          refine ⟨iff_of_false ?_ id, rfl, iff_of_true rfl trivial⟩
          rw [modify_unit]
          exact (by decide : FddState.seeking ≠ .idle)
      · rw [if_neg specified, if_pos (by decide)] at ran
        exact ih follows.seldrive ran

theorem fddRecalibrate_follows {tries : Nat → RecalTry} (follows : d.Follows unit first marks)
    (ran : d.fddRecalibrate unit tries marks = some (rc, d', marks')) :
    d'.Follows unit first marks' := by
  rw [fddRecalibrate] at ran
  split at ran
  · exact follows.result ran
  · exact recalLoop_follows follows ran

/-- A seek that succeeds leaves interrupts enabled. -/
theorem fddSeek_follows {sent : Bool} {interrupts : List Interrupt}
    (ran : d.fddSeek unit sent interrupts marks = some (rc, d', marks')) :
    d'.Follows unit first marks' ∧ (rc = 0 → d'.enabled = true) := by
  rw [fddSeek] at ran
  dsimp only at ran
  by_cases able : sent = true
  · rw [if_neg (by simp [able])] at ran
    split at ran
    · cases ran
    · rename_i d'' woken
      obtain ⟨-, rfl, rfl⟩ : 0 = rc ∧ d'' = d' ∧ _ = marks' := by
        simpa only [Option.some.injEq, Prod.mk.injEq] using ran
      refine ⟨follows_woken ?_ woken, fun _ => (taskBlock_spec woken).1⟩
      rw [setState, modify_unit]
      exact (by decide : FddState.seeking ≠ .idle)
  · rw [if_pos (by simp [able])] at ran
    obtain ⟨rfl, rfl, rfl⟩ : -1 = rc ∧ _ = d' ∧ _ = marks' := by
      simpa only [Option.some.injEq, Prod.mk.injEq] using ran
    refine ⟨⟨iff_of_true ?_ trivial, rfl, iff_of_false nofun id⟩, nofun⟩
    exact setState_state .idle

theorem opLoop_follows {tries : Nat → OpTry} {left i : Nat} {needRecal : Bool}
    (follows : d.Follows unit first marks) (enabled : d.enabled = true)
    (ran : opLoop unit tries left i d marks = some (needRecal, rc, d', marks')) :
    d'.Follows unit first marks' := by
  induction left generalizing i d marks with
  | zero =>
      obtain ⟨-, -, rfl, rfl⟩ : _ ∧ -1 = rc ∧ d = d' ∧ marks = marks' := by
        simpa only [opLoop, Option.some.injEq, Prod.mk.injEq] using ran
      exact follows
  | succ left ih =>
      rw [opLoop] at ran
      dsimp only at ran
      by_cases dma : (tries i).dma = true
      · rw [if_neg (by simp [dma])] at ran
        by_cases sent : (tries i).sent = true
        · rw [if_neg (by simp [sent])] at ran
          split at ran
          · cases ran
          · rename_i d'' woken
            obtain ⟨on, -, expected, result⟩ := taskBlock_spec woken
            have busy : d''.Follows unit first (.woken d''.seeking :: marks) := by
              refine follows_woken ?_ woken
              rw [modify_unit]
              exact (by decide : FddState.io ≠ .idle)
            by_cases answered : d''.OpAnswered unit
            · rw [if_neg (not_not.mpr answered)] at ran
              by_cases ok : d''.OpOk unit
              · rw [if_pos ok] at ran
                obtain ⟨-, -, rfl, rfl⟩ : _ ∧ 0 = rc ∧ _ = d' ∧ _ = marks' := by
                  simpa only [Option.some.injEq, Prod.mk.injEq] using ran
                -- seven bytes come only from the handler for operations
                have seven : (d''.units unit).nexpresult = 7 := by
                  rw [expected, modify_unit]
                have clear : d''.seeking = false := by
                  refine result.resolve_left fun two => ?_
                  rw [OpAnswered, two, seven] at answered
                  exact absurd answered (by decide)
                exact ⟨iff_of_true (setState_state .idle) trivial, clear,
                  iff_of_true on trivial⟩
              · rw [if_neg ok] at ran
                split at ran
                · obtain ⟨-, -, rfl, rfl⟩ : _ ∧ -1 = rc ∧ d'' = d' ∧ _ = marks' := by
                    simpa only [Option.some.injEq, Prod.mk.injEq] using ran
                  exact busy
                · exact ih busy on ran
            · rw [if_pos answered] at ran
              exact ih busy on ran
        · rw [if_pos (by simp [sent])] at ran
          refine ih ?_ ?_ ran
          on_goal 2 => exact enabled
          refine ⟨iff_of_false ?_ id, follows.seeking, iff_of_true enabled trivial⟩
          rw [modify_unit]
          exact (by decide : FddState.io ≠ .idle)
      · rw [if_pos (by simp [dma])] at ran
        exact ih follows enabled ran

theorem seekLoop_follows {attempts : Nat → Attempt} {left k : Nat} {needRecal : Bool}
    (follows : d.Follows unit first marks)
    (ran : seekLoop unit attempts left k needRecal d marks = some (rc, d', marks')) :
    d'.Follows unit first marks' := by
  induction left generalizing k needRecal d marks with
  | zero => exact follows.result ran
  | succ left ih =>
      rw [seekLoop, seldrive] at ran
      dsimp only at ran
      by_cases specified : (attempts k).specified = true
      · rw [if_pos specified, if_neg (by decide)] at ran
        have selected : (({ d with enabled := true } : Driver).setState unit .idle).Follows unit
            first (.selected :: marks) :=
          ⟨iff_of_true (setState_state .idle) trivial, follows.seeking,
            iff_of_true rfl trivial⟩
        generalize ({ d with enabled := true } : Driver).setState unit .idle = d₁ at ran selected
        split at ran
        · cases ran
        · rename_i rc₂ d₂ marks₂ recalibrated
          have ready : d₂.Follows unit first marks₂ := by
            split at recalibrated
            · exact fddRecalibrate_follows selected recalibrated
            · exact selected.result recalibrated
          split at ran
          · exact ih ready ran
          · split at ran
            · cases ran
            · rename_i rc₃ d₃ marks₃ sought
              obtain ⟨there, enabled⟩ := @fddSeek_follows unit _ _ first _ _ _ _ _ sought
              split at ran
              · exact ih there ran
              · rename_i success
                split at ran
                · cases ran
                · rename_i needRecal₄ rc₄ d₄ marks₄ operated
                  have after := opLoop_follows there (enabled (not_not.mp success)) operated
                  split at ran
                  · exact ih after ran
                  · exact after.result ran
      · rw [if_neg specified, if_pos (by decide)] at ran
        exact ih follows.seldrive ran

/-- One drive, idle. -/
def oneDrive : Driver where
  nunits := 1
  units _ :=
    { drive := 0, type := .fdd1_44, state := .idle, nexpresult := 0, nresult := 0, result := [] }
  seeking := false
  iounit := none
  enabled := true

/-- The interrupt at the end of a seek to cylinder 0. -/
def seekInterrupt : Interrupt := ⟨true, true, [0x20, 0]⟩

/-- An attempt in which nothing fails. -/
def workingAttempt : Attempt where
  specified := true
  recal _ := ⟨true, true, [seekInterrupt]⟩
  seekSent := true
  seekInterrupts := [seekInterrupt]
  op _ := ⟨true, true, [⟨true, true, [0, 0, 0, 0, 0, 0, 2]⟩]⟩

end Driver

end Pegasos.Kernel.Fdd
