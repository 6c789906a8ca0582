import Pegasos.Support.Outcome
import Pegasos.Support.RingBuffer

/-!
# The line buffer of a terminal

`TTYCOOK.C`: characters that arrive are stored in a ring, with backspace and DEL
taking the last one back, and are echoed through a second ring.  A reader gets
bytes only once a line is complete.  `crs` counts the complete lines.  The blocked
queue of the echo task belongs to the scheduler.
-/

namespace Pegasos.Kernel.Tty

open Pegasos.Support
open Function (update)

abbrev TTYC_LINE_SIZE : Nat := 128
abbrev TTYC_ECHO_QUEUE : Nat := 32

def Q_NEXT (x sz : Nat) : Nat := (x + 1) &&& (sz - 1)

def Q_PREV (x sz : Nat) : Nat := (x + sz - 1) &&& (sz - 1)

def BACKSPACE : UInt8 := 8
def NEWLINE : UInt8 := 10
def RETURN : UInt8 := 13
def SPACE : UInt8 := 32
def CARET : UInt8 := 94
def DEL : UInt8 := 127

/-- A 16-bit `int`. -/
def int16 (value : Int) : Int := value.bmod 0x10000

/-- `ttycook_t`; `echotask` says whether the task has been reserved. -/
structure Ttycook where
  buf : Nat → UInt8
  echobuf : Nat → UInt8
  tail : Nat
  head : Nat
  ehead : Nat
  etail : Nat
  crs : Int
  echotask : Bool

namespace Ttycook

variable (pc : Ttycook)

/-- `ttyc_init`. -/
def ttycInit : Ttycook :=
  let pc := { pc with head := 0, tail := 0, crs := 0 }
  if pc.echotask then pc else { pc with ehead := 0, etail := 0, echotask := true }

/-- `TTYC_ECHO` between entering and leaving `echocs`. -/
def echo (ch : UInt8) : Ttycook :=
  { pc with
    echobuf := update pc.echobuf pc.etail ch
    etail := Q_NEXT pc.etail TTYC_ECHO_QUEUE }

def echoAll (chars : List UInt8) : Ttycook := chars.foldl echo pc

def isErase (ch : UInt8) : Bool := ch = BACKSPACE ∨ ch = DEL

/-- The variable `left` of `ttyc_putc`. -/
def left : Nat :=
  if pc.head ≤ pc.tail then TTYC_LINE_SIZE - pc.tail + pc.head - 1 else pc.head - pc.tail

/-- There is no room for a character. -/
def isFull (ch : UInt8) : Bool :=
  pc.left ≤ 1 ∨ pc.left ≤ 2 ∧ ch ≠ RETURN ∧ ch ≠ NEWLINE

/-- `ttyc_putc`, and whether it gets to waking the echo task. -/
def ttycPutc (ch : UInt8) : Ttycook × Bool :=
  if isErase ch then
    if pc.head = pc.tail then (pc, false)
    else
      let pc := { pc with tail := Q_PREV pc.tail TTYC_LINE_SIZE }
      (pc.echoAll [BACKSPACE, SPACE, BACKSPACE], true)
  else if pc.isFull ch then (pc, false)
  else
    let ch := if ch = RETURN then NEWLINE else ch
    let pc := { pc with
      buf := update pc.buf pc.tail ch
      tail := Q_NEXT pc.tail TTYC_LINE_SIZE }
    if ch = NEWLINE then
      let pc := pc.echoAll [RETURN, NEWLINE]
      ({ pc with crs := int16 (pc.crs + 1) }, true)
    else if ch < 0x20 then (pc.echoAll [CARET, ch ||| 0x40], true)
    else (pc.echo ch, true)

/-- The loop of `ttyc_read` with `size - got` bytes to go: the bytes that it copies. -/
def ttycReadLoop : Nat → Int → Ttycook → Outcome (List UInt8 × Ttycook)
  | 0, _, _ => .hang
  | fuel + 1, size, pc =>
      if pc.crs ≠ 0 ∧ 0 < size then
        let ch := pc.buf pc.head
        let pc := { pc with head := Q_NEXT pc.head TTYC_LINE_SIZE }
        if ch = NEWLINE then .ok ([ch], { pc with crs := int16 (pc.crs - 1) })
        else if pc.head = pc.tail then .ok ([ch], pc)
        else (ttycReadLoop fuel (size - 1) pc).bind fun (rest, pc) => .ok (ch :: rest, pc)
      else .ok ([], pc)

/-- `ttyc_read`: the bytes that it returns. -/
def ttycRead (size : Int) : Outcome (List UInt8 × Ttycook) :=
  if pc.crs = 0 ∨ pc.head = pc.tail then .ok ([], pc) else ttycReadLoop TTYC_LINE_SIZE size pc

/-- The bytes between `head` and `tail`. -/
def stored : List UInt8 :=
  (List.range ((pc.tail + TTYC_LINE_SIZE - pc.head) % TTYC_LINE_SIZE)).map fun i =>
    pc.buf ((pc.head + i) % TTYC_LINE_SIZE)

/-- The ring holds these bytes. -/
abbrev Holds (items : List UInt8) : Prop := RingHolds TTYC_LINE_SIZE pc.buf pc.head pc.tail items

/-! ## What the routines do to the stored bytes -/

variable {pc} {ch : UInt8} {items : List UInt8} {size : Int}

theorem next_line (x : Nat) : Q_NEXT x TTYC_LINE_SIZE = (x + 1) % TTYC_LINE_SIZE :=
  Nat.and_two_pow_sub_one_eq_mod (x + 1) 7

theorem prev_line (x : Nat) : Q_PREV x TTYC_LINE_SIZE = (x + TTYC_LINE_SIZE - 1) % TTYC_LINE_SIZE :=
  Nat.and_two_pow_sub_one_eq_mod (x + TTYC_LINE_SIZE - 1) 7

theorem Holds.stored_eq (holds : pc.Holds items) : pc.stored = items := by
  have length := holds.length_eq
  have first := holds.first
  have last := holds.tail_lt
  have short := holds.short
  have count : (pc.tail + TTYC_LINE_SIZE - pc.head) % TTYC_LINE_SIZE = items.length := by
    simp only [TTYC_LINE_SIZE] at *
    split at length <;> omega
  apply List.ext_getElem?
  intro i
  rw [stored, count, List.getElem?_map]
  by_cases inside : i < items.length
  · rw [List.getElem?_range inside, List.getElem?_eq_getElem inside]
    exact congrArg some (holds.cells i _ (List.getElem?_eq_getElem inside))
  · rw [List.getElem?_eq_none (by simpa using inside), List.getElem?_eq_none (by omega)]
    rfl

theorem echoAll_line (pc : Ttycook) (chars : List UInt8) : (pc.echoAll chars).buf = pc.buf ∧
    (pc.echoAll chars).head = pc.head ∧ (pc.echoAll chars).tail = pc.tail ∧
    (pc.echoAll chars).crs = pc.crs := by
  induction chars generalizing pc with
  | nil => exact ⟨rfl, rfl, rfl, rfl⟩
  | cons ch rest ih => exact ih _

theorem Holds.echoAll (holds : pc.Holds items) (chars : List UInt8) :
    (pc.echoAll chars).Holds items := by
  obtain ⟨buf, head, tail, -⟩ := echoAll_line pc chars
  rwa [Holds, buf, head, tail]

/-- A character that is not stored for want of room. -/
theorem ttycPutc_full (normal : isErase ch = false) (full : pc.isFull ch = true) :
    pc.ttycPutc ch = (pc, false) := by
  simp [ttycPutc, normal, full]

/-- Backspace and DEL take the last byte back, whatever it is. -/
theorem ttycPutc_erase (holds : pc.Holds items) (erase : isErase ch = true) :
    (pc.ttycPutc ch).1.Holds items.dropLast ∧ (pc.ttycPutc ch).1.crs = pc.crs := by
  simp only [ttycPutc, erase, if_true]
  by_cases empty : pc.head = pc.tail
  · obtain rfl := holds.empty_iff.mp empty
    rw [if_pos empty]
    exact ⟨holds, rfl⟩
  · have nonempty := mt holds.empty_iff.mpr empty
    rw [← List.dropLast_concat_getLast nonempty] at holds
    simp only [empty, if_false]
    constructor
    · apply Holds.echoAll
      have back := holds.unpush.2
      rwa [← prev_line] at back
    · exact (echoAll_line _ _).2.2.2

/-- The ring is full only if it holds 125 bytes or more. -/
theorem Holds.room (holds : pc.Holds items) (room : pc.isFull ch = false) :
    items.length + 1 < TTYC_LINE_SIZE := by
  have length := holds.length_eq
  have first := holds.first
  have last := holds.tail_lt
  have wide : ¬pc.left ≤ 1 := by
    intro small
    simp [isFull, small] at room
  simp only [left, TTYC_LINE_SIZE] at *
  split at length <;> split at wide <;> omega

/-- A character is stored behind the others, a carriage return as a newline. -/
theorem ttycPutc_store (holds : pc.Holds items) (normal : isErase ch = false)
    (room : pc.isFull ch = false) :
    (pc.ttycPutc ch).1.Holds (items ++ [if ch = RETURN then NEWLINE else ch]) ∧
      (pc.ttycPutc ch).1.crs =
        if ch = RETURN ∨ ch = NEWLINE then int16 (pc.crs + 1) else pc.crs := by
  have pushed := holds.push (if ch = RETURN then NEWLINE else ch) (holds.room room)
  rw [← next_line] at pushed
  have newline : (if ch = RETURN then NEWLINE else ch) = NEWLINE ↔ ch = RETURN ∨ ch = NEWLINE := by
    split <;> simp_all
  simp only [ttycPutc, normal, room, Bool.false_eq_true, if_false, newline]
  generalize (if ch = RETURN then NEWLINE else ch) = byte at pushed
  by_cases isLine : ch = RETURN ∨ ch = NEWLINE
  · simp only [isLine, if_true]
    constructor
    · exact Holds.echoAll pushed [RETURN, NEWLINE]
    · exact congrArg (fun crs => int16 (crs + 1)) (echoAll_line _ _).2.2.2
  · simp only [isLine, if_false]
    by_cases control : byte < 0x20
    · simp only [control, if_true]
      exact ⟨Holds.echoAll pushed _, (echoAll_line _ _).2.2.2⟩
    · simp only [control, if_false]
      exact ⟨Holds.echoAll pushed [byte], rfl⟩

/-- Bytes that a read takes from a line: all that it asks for, or the line to its end. -/
def LinePart (size : Int) (bytes : List UInt8) : Prop :=
  (NEWLINE ∉ bytes ∧ bytes.length = size.toNat) ∨
    ∃ line, bytes = line ++ [NEWLINE] ∧ NEWLINE ∉ line ∧ bytes.length ≤ size.toNat

theorem LinePart.cons {bytes : List UInt8} (part : LinePart (size - 1) bytes) (positive : 0 < size)
    (notLine : ch ≠ NEWLINE) : LinePart size (ch :: bytes) := by
  rcases part with ⟨absent, length⟩ | ⟨line, rfl, absent, length⟩
  · left
    constructor
    · simpa [notLine.symm] using absent
    · rw [List.length_cons, length]
      omega
  · right
    refine ⟨ch :: line, rfl, by simpa [notLine.symm] using absent, ?_⟩
    rw [List.length_cons]
    omega

theorem LinePart.count {bytes : List UInt8} (part : LinePart size bytes) :
    bytes.count NEWLINE = if NEWLINE ∈ bytes then 1 else 0 := by
  rcases part with ⟨absent, -⟩ | ⟨line, rfl, absent, -⟩
  · rw [if_neg absent, List.count_eq_zero.mpr absent]
  · rw [List.count_append, List.count_eq_zero.mpr absent]
    simp

/-- The loop of `ttyc_read` when a line is complete. -/
theorem ttycReadLoop_spec (size : Int) {fuel : Nat} (holds : pc.Holds items)
    (complete : NEWLINE ∈ items) (counted : pc.crs ≠ 0) (enough : items.length ≤ fuel) :
    ∃ bytes rest pc', ttycReadLoop fuel size pc = .ok (bytes, pc') ∧ items = bytes ++ rest ∧
      pc'.Holds rest ∧ LinePart size bytes ∧
      pc'.crs = if NEWLINE ∈ bytes then int16 (pc.crs - 1) else pc.crs := by
  induction fuel generalizing pc items size with
  | zero =>
      rw [List.length_eq_zero_iff.mp (Nat.le_zero.mp enough)] at complete
      simp at complete
  | succ fuel ih =>
      by_cases more : 0 < size
      · cases items with
        | nil => simp at complete
        | cons first items =>
            obtain ⟨isFirst, popped⟩ := holds.pop
            rw [← next_line] at popped
            simp only [ttycReadLoop, counted, more, ne_eq, not_false_eq_true, true_and, if_true,
              isFirst]
            by_cases isLine : first = NEWLINE
            · subst isLine
              simp only [if_true]
              refine ⟨[NEWLINE], items, _, rfl, rfl, popped, .inr ⟨[], rfl, by simp, ?_⟩, ?_⟩
              · simp only [List.length_singleton]
                omega
              · simp
            · have complete : NEWLINE ∈ items := by simpa [Ne.symm isLine] using complete
              have nonempty : ¬Q_NEXT pc.head TTYC_LINE_SIZE = pc.tail := by
                intro same
                rw [popped.empty_iff.mp same] at complete
                simp at complete
              simp only [isLine, nonempty, if_false]
              obtain ⟨bytes, rest, pc', ran, rfl, holds', part, crs⟩ :=
                @ih { pc with head := Q_NEXT pc.head TTYC_LINE_SIZE } items (size - 1) popped complete
                  counted (by simpa using enough)
              rw [ran]
              refine ⟨first :: bytes, rest, pc', rfl, rfl, holds', part.cons more isLine, ?_⟩
              rw [crs]
              simp [Ne.symm isLine]
      · refine ⟨[], items, pc, ?_, rfl, holds, .inl ⟨by simp, ?_⟩, by simp⟩
        · simp [ttycReadLoop, more]
        · rw [List.length_nil]
          omega

end Ttycook

end Pegasos.Kernel.Tty
