import Pegasos.Kernel.Tty.EchoPath

/-!
# The echo of a terminal

`ttyc_putc` puts the echo of a character into a ring of 32 places, and the echo task takes up to
16 bytes from it for one write.  Nothing keeps `ttyc_putc` from running ahead: `TTYC_ECHO` does
not look whether there is a free place.
-/

namespace Pegasos.Kernel.Tty

open Pegasos.Support
open Function (update)

namespace Ttycook

variable (pc : Ttycook)

/-- The loop of `ttyc_echotask` that fills `writebuf`, with room for `fuel` more bytes. -/
def fillWritebuf : Nat → Ttycook → Ttycook × List UInt8
  | 0, pc => (pc, [])
  | fuel + 1, pc =>
      if pc.ehead = pc.etail then (pc, [])
      else
        let ch := pc.echobuf pc.ehead
        let (pc, rest) := fillWritebuf fuel { pc with ehead := Q_NEXT pc.ehead TTYC_ECHO_QUEUE }
        (pc, ch :: rest)

/-- The number of bytes in the echo ring. -/
def echoCount : Nat := (pc.etail + TTYC_ECHO_QUEUE - pc.ehead) % TTYC_ECHO_QUEUE

/-- The bytes in the echo ring. -/
def echoes : List UInt8 :=
  (List.range pc.echoCount).map fun i => pc.echobuf ((pc.ehead + i) % TTYC_ECHO_QUEUE)

/-- `ttyc_putc` does something with a character. -/
def Accepts (ch : UInt8) : Prop :=
  if isErase ch then pc.head ≠ pc.tail else pc.isFull ch = false

instance (ch : UInt8) : Decidable (pc.Accepts ch) := by
  unfold Accepts
  infer_instance

abbrev HoldsEcho (items : List UInt8) : Prop :=
  RingHolds TTYC_ECHO_QUEUE pc.echobuf pc.ehead pc.etail items

end Ttycook

/-- What is shown for a character that is accepted. -/
def echoOf (ch : UInt8) : List UInt8 :=
  if ch = BACKSPACE ∨ ch = DEL then [BACKSPACE, SPACE, BACKSPACE]
  else if ch = RETURN ∨ ch = NEWLINE then [RETURN, NEWLINE]
  else if ch < 0x20 then [CARET, ch ||| 0x40]
  else [ch]

namespace Ttycook

variable {pc pc' : Ttycook} {ch : UInt8} {items : List UInt8}

/-- The loop that counts the bytes is the loop that takes them. -/
theorem drain_eq (fuel : Nat) (pc : Ttycook) :
    pc.drain fuel = ((pc.fillWritebuf fuel).1, (pc.fillWritebuf fuel).2.length) := by
  induction fuel generalizing pc with
  | zero => rfl
  | succ fuel ih =>
      rw [drain, fillWritebuf]
      split
      · rfl
      · rw [ih]
        rfl

theorem HoldsEcho.echoCount_eq (holds : pc.HoldsEcho items) : pc.echoCount = items.length := by
  have length := holds.length_eq
  have first := holds.first
  have last := holds.tail_lt
  have short := holds.short
  simp only [echoCount, TTYC_ECHO_QUEUE] at *
  split at length <;> omega

theorem HoldsEcho.echoes_eq (holds : pc.HoldsEcho items) : pc.echoes = items := by
  apply List.ext_getElem?
  intro i
  rw [echoes, holds.echoCount_eq, List.getElem?_map]
  by_cases inside : i < items.length
  · rw [List.getElem?_range inside, List.getElem?_eq_getElem inside]
    exact congrArg some (holds.cells i _ (List.getElem?_eq_getElem inside))
  · rw [List.getElem?_eq_none (by simpa using inside), List.getElem?_eq_none (by omega)]
    rfl

theorem next_echo (x : Nat) : Q_NEXT x TTYC_ECHO_QUEUE = (x + 1) % TTYC_ECHO_QUEUE :=
  Nat.and_two_pow_sub_one_eq_mod (x + 1) 5

/-- `TTYC_ECHO` for some characters, with places for all of them. -/
theorem HoldsEcho.echoAll {chars : List UInt8} (holds : pc.HoldsEcho items)
    (room : items.length + chars.length < TTYC_ECHO_QUEUE) :
    (pc.echoAll chars).HoldsEcho (items ++ chars) := by
  induction chars generalizing pc items with
  | nil =>
      rw [List.append_nil]
      exact holds
  | cons ch chars ih =>
      rw [List.length_cons] at room
      have pushed := holds.push ch (by omega)
      rw [← next_echo] at pushed
      have more := @ih (pc.echo ch) (items ++ [ch]) pushed
        (by rw [List.length_append, List.length_singleton]; omega)
      rwa [List.append_assoc, List.singleton_append] at more

/-- The part of `ttyc_putc` in front of the echo leaves the echo ring alone and chooses the
characters to echo. -/
theorem putcStore_some {chars : List UInt8} {line : Bool}
    (stored : pc.putcStore ch = some (pc', chars, line)) :
    pc.Accepts ch ∧ chars = echoOf ch ∧ (pc'.HoldsEcho items ↔ pc.HoldsEcho items) := by
  rw [putcStore] at stored
  rw [Accepts, echoOf]
  by_cases erase : isErase ch = true
  · have isErase' : ch = BACKSPACE ∨ ch = DEL := by simpa [isErase] using erase
    rw [if_pos erase] at stored
    rw [if_pos erase, if_pos isErase']
    split at stored
    · cases stored
    · obtain ⟨rfl, rfl, rfl⟩ := by simpa only [Option.some.injEq, Prod.mk.injEq] using stored
      exact ⟨‹_›, rfl, Iff.rfl⟩
  · have normal : ¬(ch = BACKSPACE ∨ ch = DEL) := by simpa [isErase] using erase
    rw [if_neg erase] at stored
    rw [if_neg erase, if_neg normal]
    by_cases full : pc.isFull ch = true
    · rw [if_pos full] at stored
      cases stored
    · rw [if_neg full] at stored
      refine ⟨by simpa using full, ?_⟩
      by_cases isReturn : ch = RETURN
      · simp only [isReturn, if_true, Option.some.injEq, Prod.mk.injEq] at stored
        obtain ⟨rfl, rfl, rfl⟩ := stored
        exact ⟨by rw [if_pos (.inl isReturn)], Iff.rfl⟩
      by_cases isLine : ch = NEWLINE
      · have notReturn : NEWLINE ≠ RETURN := by decide
        simp only [isLine, notReturn, if_true, if_false, Option.some.injEq, Prod.mk.injEq] at stored
        obtain ⟨rfl, rfl, rfl⟩ := stored
        exact ⟨by rw [if_pos (.inr isLine)], Iff.rfl⟩
      · rw [if_neg (not_or.mpr ⟨isReturn, isLine⟩)]
        simp only [isReturn, isLine, if_false] at stored
        by_cases control : ch < 0x20
        · rw [if_pos control] at stored
          obtain ⟨rfl, rfl, rfl⟩ := by simpa only [Option.some.injEq, Prod.mk.injEq] using stored
          exact ⟨(if_pos control).symm, Iff.rfl⟩
        · rw [if_neg control] at stored
          obtain ⟨rfl, rfl, rfl⟩ := by simpa only [Option.some.injEq, Prod.mk.injEq] using stored
          exact ⟨(if_neg control).symm, Iff.rfl⟩

theorem putcStore_none (refused : pc.putcStore ch = none) : ¬pc.Accepts ch := by
  rw [putcStore] at refused
  rw [Accepts]
  split at refused
  · rename_i erase
    rw [if_pos erase]
    split at refused
    · exact not_not.mpr ‹_›
    · cases refused
  · rename_i normal
    rw [if_neg normal]
    split at refused
    · simpa using ‹pc.isFull ch = true›
    · dsimp only at refused
      generalize (if ch = RETURN then NEWLINE else ch) = byte at refused
      by_cases isLine : byte = NEWLINE
      · rw [if_pos isLine] at refused
        cases refused
      · rw [if_neg isLine] at refused
        by_cases control : byte < 0x20
        · rw [if_pos control] at refused
          cases refused
        · rw [if_neg control] at refused
          cases refused

/-- `ttyc_putc` on the echo ring. -/
theorem HoldsEcho.putc (holds : pc.HoldsEcho items)
    (room : pc.Accepts ch → items.length + (echoOf ch).length < TTYC_ECHO_QUEUE) :
    (pc.ttycPutc ch).1.HoldsEcho (items ++ if pc.Accepts ch then echoOf ch else []) := by
  rw [ttycPutc_parts]
  cases stored : pc.putcStore ch with
  | none =>
      rw [if_neg (putcStore_none stored), List.append_nil]
      exact holds
  | some result =>
      obtain ⟨pc', chars, line⟩ := result
      obtain ⟨accepts, rfl, same⟩ := putcStore_some stored
      rw [if_pos accepts]
      have echoed := (same.mpr holds).echoAll (room accepts)
      cases line
      · exact echoed
      · exact echoed

/-- The bytes for one write are the first ones of the ring. -/
theorem HoldsEcho.fillWritebuf (holds : pc.HoldsEcho items) (fuel : Nat) :
    ∃ rest, items = (pc.fillWritebuf fuel).2 ++ rest ∧ (pc.fillWritebuf fuel).1.HoldsEcho rest := by
  induction fuel generalizing pc items with
  | zero => exact ⟨items, rfl, holds⟩
  | succ fuel ih =>
      rw [Ttycook.fillWritebuf]
      by_cases empty : pc.ehead = pc.etail
      · rw [if_pos empty]
        exact ⟨items, rfl, holds⟩
      · rw [if_neg empty]
        cases items with
        | nil => exact absurd (holds.empty_iff.mpr rfl) empty
        | cons ch items =>
            obtain ⟨isFirst, popped⟩ := holds.pop
            rw [← next_echo] at popped
            obtain ⟨rest, split, after⟩ :=
              @ih { pc with ehead := Q_NEXT pc.ehead TTYC_ECHO_QUEUE } items popped
            refine ⟨rest, ?_, after⟩
            rw [isFirst]
            exact congrArg (ch :: ·) split

/-- Reading does not touch the echo ring. -/
theorem ttycReadLoop_echo {fuel : Nat} {size : Int} {bytes : List UInt8}
    (ran : ttycReadLoop fuel size pc = .ok (bytes, pc')) :
    pc'.HoldsEcho items ↔ pc.HoldsEcho items := by
  induction fuel generalizing pc size bytes with
  | zero => cases ran
  | succ fuel ih =>
      rw [ttycReadLoop] at ran
      split at ran
      · dsimp only at ran
        split at ran
        · obtain ⟨-, rfl⟩ := Prod.mk.inj (Outcome.ok.inj ran)
          exact Iff.rfl
        · split at ran
          · obtain ⟨-, rfl⟩ := Prod.mk.inj (Outcome.ok.inj ran)
            exact Iff.rfl
          · obtain ⟨⟨rest, after⟩, ran', result⟩ := Outcome.bind_eq_ok.mp ran
            obtain ⟨-, rfl⟩ := Prod.mk.inj (Outcome.ok.inj result)
            exact Iff.trans (ih ran') Iff.rfl
      · obtain ⟨-, rfl⟩ := Prod.mk.inj (Outcome.ok.inj ran)
        exact Iff.rfl

end Ttycook

/-! ## Runs -/

/-- A line buffer with what has been passed to `write`, and the echo of all characters that
have been accepted. -/
structure EchoRing where
  cook : Ttycook
  written : List UInt8
  echoed : List UInt8

/-- A character arrives, a reader reads, or the echo task empties the ring into one write. -/
inductive EchoStep where
  | putc (ch : UInt8)
  | read (size : Int)
  | drain
  deriving DecidableEq, Repr

namespace EchoRing

variable (sys : EchoRing)

def step : EchoStep → Option EchoRing
  | .putc ch =>
      some { sys with
        cook := (sys.cook.ttycPutc ch).1
        echoed := sys.echoed ++ if sys.cook.Accepts ch then echoOf ch else [] }
  | .read size => (sys.cook.ttycRead size).value?.map fun (_, cook) => { sys with cook := cook }
  | .drain =>
      if sys.cook.ehead = sys.cook.etail then none
      else
        let (cook, writebuf) := sys.cook.fillWritebuf WRITEBUF_SIZE
        some { sys with cook := cook, written := sys.written ++ writebuf }

/-- The state behind the first `ttyc_init`. -/
def Start (sys : EchoRing) : Prop :=
  ∃ cook : Ttycook, cook.echotask = false ∧ sys = ⟨cook.ttycInit, [], []⟩

/-- There are places in the echo ring for the echo of a character that is accepted. -/
def HasRoom : EchoStep → Prop
  | .putc ch => sys.cook.Accepts ch →
      sys.cook.echoCount + (echoOf ch).length < TTYC_ECHO_QUEUE
  | _ => True

instance : (action : EchoStep) → Decidable (sys.HasRoom action)
  | .putc _ => inferInstanceAs (Decidable (_ → _))
  | .read _ => inferInstanceAs (Decidable True)
  | .drain => inferInstanceAs (Decidable True)

/-- Nothing of the echo is lost: it has been written, or it is in the ring. -/
def Echoes : Prop := sys.written ++ sys.cook.echoes = sys.echoed

structure Inv (items : List UInt8) : Prop where
  holds : sys.cook.HoldsEcho items
  echoed : sys.written ++ items = sys.echoed

variable {sys} {sys' : EchoRing} {items : List UInt8}

theorem Start.inv (start : sys.Start) : sys.Inv [] := by
  obtain ⟨cook, none, rfl⟩ := start
  refine ⟨?_, rfl⟩
  simp only [Ttycook.HoldsEcho, Ttycook.ttycInit, none, Bool.false_eq_true, if_false]
  exact RingHolds.nil (by decide)

theorem Inv.step {action : EchoStep} (inv : sys.Inv items) (room : sys.HasRoom action)
    (taken : sys.step action = some sys') : ∃ items', sys'.Inv items' := by
  cases action with
  | putc ch =>
      obtain rfl := Option.some.inj taken
      refine ⟨_, inv.holds.putc fun accepts => ?_, ?_⟩
      · rw [← inv.holds.echoCount_eq]
        exact room accepts
      · rw [← List.append_assoc, inv.echoed]
  | read size =>
      obtain ⟨⟨bytes, cook⟩, isValue, rfl⟩ := Option.map_eq_some_iff.mp taken
      have ran := Outcome.value?_eq_some.mp isValue
      refine ⟨items, ?_, inv.echoed⟩
      rw [Ttycook.ttycRead] at ran
      split at ran
      · obtain ⟨-, rfl⟩ := Prod.mk.inj (Outcome.ok.inj ran)
        exact inv.holds
      · exact (Ttycook.ttycReadLoop_echo ran).mpr inv.holds
  | drain =>
      rw [EchoRing.step] at taken
      split at taken
      · cases taken
      · obtain ⟨rest, rfl, after⟩ := inv.holds.fillWritebuf WRITEBUF_SIZE
        have echoed := inv.echoed
        generalize sys.cook.fillWritebuf WRITEBUF_SIZE = filled at taken after echoed
        obtain rfl := Option.some.inj taken
        refine ⟨rest, after, ?_⟩
        rw [List.append_assoc, echoed]

/-- In every run in which each echo finds room in the ring, nothing of it is lost. -/
theorem echo_loses_nothing
    (reached : Reached Start (fun s a s' => s.step a = some s') HasRoom sys) : sys.Echoes := by
  obtain ⟨items, inv⟩ := reached.invariant (fun sys => ∃ items, sys.Inv items)
    (fun start => ⟨[], start.inv⟩)
    (fun ⟨items, inv⟩ room taken => inv.step room taken)
  rw [Echoes, inv.holds.echoes_eq]
  exact inv.echoed

/-- A ring before it is used. -/
def unusedRing : EchoRing :=
  ⟨Ttycook.ttycInit ⟨fun _ => 0, fun _ => 0, 0, 0, 0, 0, 0, false⟩, [], []⟩

theorem unusedRing_start : unusedRing.Start := ⟨_, rfl, rfl⟩

/-- A control character, an erase and a line end. -/
theorem echo_loses_nothing_line : ∃ sys,
    runs step unusedRing [.putc 1, .putc DEL, .drain, .putc RETURN] = some sys ∧
      sys.written = [CARET, 65, BACKSPACE, SPACE, BACKSPACE] ∧ sys.Echoes := by
  have ran : (runs step unusedRing [.putc 1, .putc DEL, .drain, .putc RETURN]).map written =
      some [CARET, 65, BACKSPACE, SPACE, BACKSPACE] := by
    decide +kernel
  have room : Along step HasRoom unusedRing [.putc 1, .putc DEL, .drain, .putc RETURN] := by
    decide +kernel
  obtain ⟨sys, ran, written⟩ := Option.map_eq_some_iff.mp ran
  exact ⟨sys, ran, written, echo_loses_nothing (reached_of_runs unusedRing_start room ran)⟩

/-- The echo of 32 letters in a row: the ring is empty again. -/
theorem echo_overruns :
    ∃ sys, Reachable Start (fun s a s' => s.step a = some s') sys ∧ ¬sys.Echoes := by
  have ran : (runs step unusedRing (List.replicate 32 (.putc 97))).map
      (fun sys => (sys.written, sys.cook.echoes, sys.echoed.length)) = some ([], [], 32) := by
    decide +kernel
  obtain ⟨sys, ran, same⟩ := Option.map_eq_some_iff.mp ran
  obtain ⟨written, echoes, length⟩ := by simpa only [Prod.mk.injEq] using same
  refine ⟨sys, reachable_of_runs unusedRing_start ran, fun whole => ?_⟩
  rw [Echoes, written, echoes] at whole
  rw [← whole] at length
  simp at length

end EchoRing

end Pegasos.Kernel.Tty
