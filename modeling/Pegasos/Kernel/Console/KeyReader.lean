import Pegasos.Kernel.Console.Keyboard
import Pegasos.Support.RingBuffer

/-!
# Reading the keyboard

The interrupt of the keyboard puts scancodes on a queue, from which `con_descan_all` hands
them to `con_descan`, and `con_read` and `con_getch` take the keys that come out of it.  The
keys are those of a keyboard whose queue is emptied after every scancode.
-/

namespace Pegasos.Kernel.Console

open Pegasos.Support
open Function (update)

/-! ## A keyboard that is read at once -/

/-- What `con_descan` remembers. -/
structure Decoder where
  pending : UInt8
  metaBits : UInt16

namespace Decoder

variable (beyond : Scandef) (decoder : Decoder)

/-- With an empty queue. -/
def keyboard : Keyboard := ⟨decoder.pending, decoder.metaBits, fun _ => 0, 0, 0⟩

/-- What is remembered behind a scancode. -/
def next (sc : UInt8) : Decoder :=
  let after := (decoder.keyboard.conDescan beyond sc).1
  ⟨after.pending, after.metaBits⟩

/-- The key that a scancode makes, if any. -/
def key (sc : UInt8) : Option UInt8 :=
  (decoder.keyboard.conDescan beyond sc).1.takeKey.map (·.1)

/-- The keys of a list of scancodes, and what is remembered behind them. -/
def run : List UInt8 → Decoder → List UInt8 × Decoder
  | [], decoder => ([], decoder)
  | sc :: scancodes, decoder =>
      let (keys, last) := run scancodes (decoder.next beyond sc)
      ((decoder.key beyond sc).toList ++ keys, last)

end Decoder

def Keyboard.decoder (con : Keyboard) : Decoder := ⟨con.pending, con.metaBits⟩

/-! ## Both queues -/

/-- The queue of scancodes and the keyboard behind it.  Since the debugger has been entered
last, `arrived` are the scancodes that have been put on the queue, `handed` those that have
been taken from it, each with whether there was room for a key, and `taken` the keys that have
been read.  `begun` is what was remembered then. -/
structure KeyInput where
  con : Keyboard
  scqueue : Nat → UInt8
  qhead : Nat
  qtail : Nat
  begun : Decoder
  arrived : List UInt8
  handed : List (UInt8 × Bool)
  taken : List UInt8

/-- The scancode of the key that enters the debugger. -/
def SC_DEBUG : UInt8 := 0x3b

/-- An interrupt brings a scancode, a round of the loop in `con_descan_all` takes one, or a
key is read. -/
inductive InputAction where
  | kbdIntr (data : UInt8)
  | conDescanAll
  | take
  deriving DecidableEq, Repr

namespace KeyInput

variable (input : KeyInput)

/-- `kbd_intr`, for one byte of the keyboard. -/
def kbdIntr (data : UInt8) : KeyInput :=
  if data = SC_DEBUG then
    { con := { input.con with kqhead := 0, kqtail := 0 }
      scqueue := input.scqueue
      qhead := 0
      qtail := 0
      begun := input.con.decoder
      arrived := []
      handed := []
      taken := [] }
  else if (input.qtail + 1) % MAXQ = input.qhead then input
  else
    { input with
      scqueue := update input.scqueue input.qtail data
      qtail := (input.qtail + 1) % MAXQ
      arrived := input.arrived ++ [data] }

/-- A round of the loop in `con_descan_all`, which a byte of 0 ends. -/
def descanNext (beyond : Scandef) : Option KeyInput :=
  if input.qhead ≠ input.qtail then
    let sc := input.scqueue input.qhead
    some { input with
      con := if sc = 0 then input.con else (input.con.conDescan beyond sc).1
      qhead := (input.qhead + 1) % MAXQ
      handed := input.handed ++ [(sc, !input.con.full)] }
  else none

def step (beyond : Scandef) (input : KeyInput) : InputAction → Option KeyInput
  | .kbdIntr data => some (input.kbdIntr data)
  | .conDescanAll => input.descanNext beyond
  | .take => input.con.takeKey.map fun (key, con) =>
      { input with con := con, taken := input.taken ++ [key] }

/-- When the console starts. -/
def start (scqueue : Nat → UInt8) (keyqueue : Fin MAXQ → UInt8) : KeyInput where
  con := ⟨0, 0, keyqueue, 0, 0⟩
  scqueue := scqueue
  qhead := 0
  qtail := 0
  begun := ⟨0, 0⟩
  arrived := []
  handed := []
  taken := []

end KeyInput

/-- The scancodes that `con_descan` has not dropped. -/
def accepted (handed : List (UInt8 × Bool)) : List UInt8 :=
  (handed.filter fun entry => entry.2 && decide (entry.1 ≠ 0)).map (·.1)

variable {con con' : Keyboard} {psc beyond : Scandef} {ext up : Bool} {sc key : UInt8}
  {decoder : Decoder} {items waiting keys : List UInt8} {input input' : KeyInput}

/-! ## One scancode -/

namespace Keyboard

/-- The keys on the queue. -/
def Queued (con : Keyboard) (items : List UInt8) : Prop :=
  RingHolds MAXQ (fun i => con.keyqueue (Fin.ofNat MAXQ i)) con.kqhead con.kqtail items

/-- Something is remembered, and perhaps a key is stored. -/
def after (con : Keyboard) (decoder : Decoder) : Option UInt8 → Keyboard
  | none => { con with pending := decoder.pending, metaBits := decoder.metaBits }
  | some key =>
      { con with
        pending := decoder.pending
        metaBits := decoder.metaBits
        keyqueue := update con.keyqueue con.kqtail key
        kqtail := con.kqtail + 1 }

theorem keyOf_congr (same : con'.metaBits = con.metaBits) :
    con'.keyOf psc ext = con.keyOf psc ext := by
  simp only [keyOf, ctrlDown, numLock, capsLock, shiftDown, same]
  rfl

/-- Behind the access to the table, what `con_descan` does depends on `meta` only. -/
theorem descanKey_after (con : Keyboard) (psc : Scandef) (ext up : Bool) :
    ∃ bits key, ∀ con' : Keyboard, con'.metaBits = con.metaBits →
      con'.descanKey psc ext up = con'.after ⟨con'.pending, bits⟩ key := by
  unfold descanKey
  by_cases unknown : ext ∧ psc.flags &&& SC_E0 = 0
  · exact ⟨con.metaBits, none, fun con' same => by rw [if_pos unknown, ← same, after]⟩
  · by_cases isMeta : psc.flags &&& SC_META ≠ 0
    · refine ⟨metaAfter con.metaBits (metaBit psc ext) up, none, fun con' same => ?_⟩
      rw [if_neg unknown, if_pos isMeta, same, after]
    · cases up with
      | true =>
          refine ⟨con.metaBits, none, fun con' same => ?_⟩
          rw [if_neg unknown, if_neg isMeta, if_pos rfl, ← same, after]
      | false =>
          refine ⟨con.metaBits, some (if (con.keyOf psc ext).2 then (con.keyOf psc ext).1 ||| 0x80
            else (con.keyOf psc ext).1), fun con' same => ?_⟩
          rw [if_neg unknown, if_neg isMeta, if_neg Bool.false_ne_true, keyOf_congr same, putKey,
            after, ← same]

/-- What `con_descan` does with room on the queue depends on what it remembers only. -/
theorem conDescan_after (con : Keyboard) (beyond : Scandef) (sc : UInt8) :
    ∃ decoder key, ∀ con' : Keyboard, con'.decoder = con.decoder → con'.full = false →
      (con'.conDescan beyond sc).1 = con'.after decoder key := by
  obtain ⟨bits, key, does⟩ := descanKey_after { con with pending := 0 }
    (scascii[(if sc &&& SC_KEYUP ≠ 0 then sc &&& ~~~SC_KEYUP else sc).toNat]?.getD beyond)
    (con.pending = SC_EXT_PREFIX) (sc &&& SC_KEYUP ≠ 0)
  by_cases isPrefix : sc = SC_EXT_PREFIX
  · refine ⟨⟨SC_EXT_PREFIX, con.metaBits⟩, none, fun con' same room => ?_⟩
    have sameBits : con'.metaBits = con.metaBits := congrArg Decoder.metaBits same
    rw [conDescan, if_neg (by simp [room]), if_pos isPrefix, after, ← sameBits]
  · by_cases behind : (if sc &&& SC_KEYUP ≠ 0 then sc &&& ~~~SC_KEYUP else sc).toNat > nscascii
    · refine ⟨⟨0, con.metaBits⟩, none, fun con' same room => ?_⟩
      have sameBits : con'.metaBits = con.metaBits := congrArg Decoder.metaBits same
      rw [conDescan, if_neg (by simp [room]), if_neg isPrefix, after, ← sameBits]
      simp only [if_pos behind]
    · refine ⟨⟨0, bits⟩, key, fun con' same room => ?_⟩
      have samePending : con'.pending = con.pending := congrArg Decoder.pending same
      have sameBits : con'.metaBits = con.metaBits := congrArg Decoder.metaBits same
      have decoded := does { con' with pending := 0 } sameBits
      rw [conDescan, if_neg (by simp [room]), if_neg isPrefix]
      simp only [if_neg behind, samePending, decoded]
      cases key with
      | none => rfl
      | some key => rfl

/-- A scancode that finds room is decoded as on an empty queue. -/
theorem conDescan_spec (room : con.full = false) (beyond : Scandef) (sc : UInt8) :
    (con.conDescan beyond sc).1 =
      con.after (con.decoder.next beyond sc) (con.decoder.key beyond sc) := by
  obtain ⟨decoder, key, does⟩ := conDescan_after con beyond sc
  have empty := does con.decoder.keyboard rfl rfl
  rw [does con rfl room, Decoder.next, Decoder.key, empty]
  cases key with
  | none => rfl
  | some key => rfl

theorem Queued.full_iff (queued : con.Queued items) :
    con.full = true ↔ items.length + 1 = MAXQ := by
  have length := queued.length_eq
  have tail := con.kqtail.isLt
  have head := con.kqhead.isLt
  rw [full, decide_eq_true_eq, Fin.ext_iff, Fin.val_add]
  change (con.kqtail.val + 1) % 32 = con.kqhead.val ↔ items.length + 1 = 32
  simp only [MAXQ] at length tail head
  split at length <;> omega

theorem Queued.push (queued : con.Queued items) (room : con.full = false) :
    (con.after decoder (some key)).Queued (items ++ [key]) := by
  have notFull : items.length + 1 ≠ MAXQ := fun most => by
    rw [queued.full_iff.mpr most] at room
    exact Bool.noConfusion room
  have stored := RingHolds.push key queued (lt_of_le_of_ne queued.short notFull)
  refine ⟨stored.first, stored.short, stored.last, fun i item at? => ?_⟩
  rw [← stored.cells i item at?]
  have place : (con.kqhead.val + i) % MAXQ < MAXQ := Nat.mod_lt _ (by decide)
  have same : Fin.ofNat MAXQ ((con.kqhead.val + i) % MAXQ) = con.kqtail ↔
      (con.kqhead.val + i) % MAXQ = con.kqtail.val := by
    rw [Fin.ext_iff, Fin.val_ofNat, Nat.mod_eq_of_lt place]
  change update con.keyqueue con.kqtail key (Fin.ofNat MAXQ ((con.kqhead.val + i) % MAXQ)) = _
  simp only [Function.update_apply, same]

theorem Queued.pop (queued : con.Queued (key :: items)) :
    con.takeKey = some (key, { con with kqhead := con.kqhead + 1 }) ∧
      Queued { con with kqhead := con.kqhead + 1 } items := by
  obtain ⟨first, rest⟩ := RingHolds.pop queued
  have ne : con.kqhead ≠ con.kqtail := fun same => by
    have empty := queued.empty_iff.mp (congrArg Fin.val same)
    exact List.cons_ne_nil _ _ empty
  rw [Fin.ofNat_val_eq_self] at first
  exact ⟨by rw [takeKey, if_pos ne, first], rest⟩

end Keyboard

/-! ## Every run -/

theorem Decoder.run_append (beyond : Scandef) (first rest : List UInt8) (decoder : Decoder) :
    Decoder.run beyond (first ++ rest) decoder =
      ((Decoder.run beyond first decoder).1 ++
          (Decoder.run beyond rest (Decoder.run beyond first decoder).2).1,
        (Decoder.run beyond rest (Decoder.run beyond first decoder).2).2) := by
  induction first generalizing decoder with
  | nil => rfl
  | cons sc first ih => simp only [List.cons_append, Decoder.run, ih, List.append_assoc]

theorem accepted_append (handed : List (UInt8 × Bool)) (entry : UInt8 × Bool) :
    accepted (handed ++ [entry]) =
      accepted handed ++ if entry.2 && decide (entry.1 ≠ 0) then [entry.1] else [] := by
  unfold accepted
  rw [List.filter_append, List.map_append, List.filter_cons, List.filter_nil]
  split <;> rfl

theorem accepted_dropped (handed : List (UInt8 × Bool)) {full : Bool}
    (dropped : full = true ∨ sc = 0) : accepted (handed ++ [(sc, !full)]) = accepted handed := by
  rw [accepted_append, if_neg (by simpa [or_iff_not_imp_left] using dropped), List.append_nil]

theorem accepted_decoded (handed : List (UInt8 × Bool)) {full : Bool} (room : full = false)
    (nonzero : sc ≠ 0) : accepted (handed ++ [(sc, !full)]) = accepted handed ++ [sc] := by
  rw [accepted_append, if_pos (by simp [room, nonzero])]

namespace KeyInput

/-- What is on the queues.  No scancode is lost once it is on its queue, and the keys are those
that a keyboard which is read at once makes of the scancodes that were not dropped. -/
structure Holds (beyond : Scandef) (input : KeyInput) (waiting keys : List UInt8) : Prop where
  scancodes : RingHolds MAXQ input.scqueue input.qhead input.qtail waiting
  queued : input.con.Queued keys
  order : input.arrived = input.handed.map (·.1) ++ waiting
  decoded : Decoder.run beyond (accepted input.handed) input.begun =
    (input.taken ++ keys, input.con.decoder)

theorem start_holds (scqueue : Nat → UInt8) (keyqueue : Fin MAXQ → UInt8) :
    (start scqueue keyqueue).Holds beyond [] [] where
  scancodes := .nil (Nat.zero_lt_succ 31)
  queued := .nil (Nat.zero_lt_succ 31)
  order := rfl
  decoded := rfl

theorem Holds.kbdIntr (holds : input.Holds beyond waiting keys) (data : UInt8) :
    ∃ waiting keys, (input.kbdIntr data).Holds beyond waiting keys := by
  unfold KeyInput.kbdIntr
  split_ifs with debug full
  · exact ⟨[], [], .nil (Nat.zero_lt_succ 31), .nil (Nat.zero_lt_succ 31), rfl, rfl⟩
  · exact ⟨waiting, keys, holds⟩
  · have short := holds.scancodes.short
    have notFull : waiting.length + 1 ≠ MAXQ := fun most => by
      refine full ?_
      rw [holds.scancodes.last, Nat.mod_add_mod, Nat.add_assoc, most, Nat.add_mod_right,
        Nat.mod_eq_of_lt holds.scancodes.first]
    refine ⟨waiting ++ [data], keys, holds.scancodes.push data (by omega), holds.queued, ?_,
      holds.decoded⟩
    simp only [holds.order, List.append_assoc]

theorem Holds.descanNext (holds : input.Holds beyond waiting keys)
    (taken : input.descanNext beyond = some input') :
    ∃ waiting keys, input'.Holds beyond waiting keys := by
  obtain ⟨scancodes, queued, order, decoded⟩ := holds
  simp only [KeyInput.descanNext, Option.ite_none_right_eq_some, Option.some.injEq] at taken
  obtain ⟨some, rfl⟩ := taken
  cases waiting with
  | nil => exact absurd (scancodes.empty_iff.mpr rfl) some
  | cons sc waiting =>
      obtain ⟨first, rest⟩ := scancodes.pop
      have ordered : input.arrived =
          (input.handed ++ [(input.scqueue input.qhead, !input.con.full)]).map (·.1) ++
            waiting := by
        rw [order, first, List.map_append, List.append_assoc]
        rfl
      by_cases dropped : input.con.full = true ∨ sc = 0
      · have same : (if sc = 0 then input.con else (input.con.conDescan beyond sc).1) =
            input.con := by
          split_ifs with zero
          · rfl
          · rw [Keyboard.conDescan, if_pos (dropped.resolve_right zero)]
        refine ⟨waiting, keys, rest, ?_, ordered, ?_⟩
        · simp only [first, same]
          exact queued
        · simp only [first, same, accepted_dropped _ dropped]
          exact decoded
      · rw [not_or, Bool.not_eq_true] at dropped
        obtain ⟨room, nonzero⟩ := dropped
        have spec : (if sc = 0 then input.con else (input.con.conDescan beyond sc).1) =
            input.con.after (input.con.decoder.next beyond sc)
              (input.con.decoder.key beyond sc) := by
          rw [if_neg nonzero, Keyboard.conDescan_spec room]
        refine ⟨waiting, keys ++ (input.con.decoder.key beyond sc).toList, rest, ?_, ordered, ?_⟩
        · simp only [first, spec]
          cases input.con.decoder.key beyond sc with
          | none =>
              rw [Option.toList_none, List.append_nil]
              exact queued
          | some key => exact queued.push room
        · simp only [first, spec, accepted_decoded _ room nonzero, Decoder.run_append, decoded,
            Decoder.run, List.append_nil, List.append_assoc, Prod.mk.injEq, true_and]
          cases input.con.decoder.key beyond sc with
          | none => rfl
          | some key => rfl

theorem Holds.take (holds : input.Holds beyond waiting keys)
    (taken : input.step beyond .take = some input') :
    ∃ waiting keys, input'.Holds beyond waiting keys := by
  obtain ⟨scancodes, queued, order, decoded⟩ := holds
  cases keys with
  | nil =>
      have empty : input.con.kqhead = input.con.kqtail := Fin.ext (queued.empty_iff.mpr rfl)
      simp only [step, Keyboard.takeKey, empty, ne_eq, not_true_eq_false, if_false,
        Option.map_none, reduceCtorEq] at taken
  | cons key keys =>
      obtain ⟨took, rest⟩ := queued.pop
      simp only [step, took, Option.map_some, Option.some.injEq] at taken
      subst taken
      refine ⟨waiting, keys, scancodes, rest, order, ?_⟩
      rw [List.append_assoc]
      exact decoded

theorem Holds.step (holds : input.Holds beyond waiting keys) {action : InputAction}
    (taken : input.step beyond action = some input') :
    ∃ waiting keys, input'.Holds beyond waiting keys := by
  cases action with
  | kbdIntr data =>
      obtain rfl := Option.some.inj taken
      exact holds.kbdIntr data
  | conDescanAll => exact holds.descanNext taken
  | take => exact holds.take taken

end KeyInput

end Pegasos.Kernel.Console
