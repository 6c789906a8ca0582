import Pegasos.Kernel.Tty.LineDiscipline

/-!
# Room in the line buffer

`ttyc_putc` computes the free places in one way for a ring that is wrapped and in another for
one that is not.  Either way the last place that it gives away goes to a newline, so a reader
that waits for a line gets one.  A newline that is erased is still counted in `crs`.
-/

namespace Pegasos.Kernel.Tty

open Pegasos.Support

namespace Ttycook

variable {pc pc' : Ttycook} {ch byte : UInt8} {items : List UInt8} {lines : Nat} {size : Int}

/-! ## Free places -/

/-- A byte more takes one place at most. -/
theorem left_push (first : pc.head < TTYC_LINE_SIZE) (last : pc.tail < TTYC_LINE_SIZE)
    (room : 2 ≤ pc.left) (head : pc'.head = pc.head)
    (tail : pc'.tail = (pc.tail + 1) % TTYC_LINE_SIZE) : pc.left ≤ pc'.left + 1 := by
  simp only [left, head, tail, TTYC_LINE_SIZE] at *
  split_ifs at * <;> omega

/-- A byte that is taken back gives back no place less than none. -/
theorem left_unpush (first : pc.head < TTYC_LINE_SIZE) (last : pc.tail < TTYC_LINE_SIZE)
    (nonempty : pc.head ≠ pc.tail) (head : pc'.head = pc.head)
    (tail : pc'.tail = (pc.tail + TTYC_LINE_SIZE - 1) % TTYC_LINE_SIZE) : pc.left ≤ pc'.left := by
  simp only [left, head, tail, TTYC_LINE_SIZE] at *
  split_ifs <;> omega

theorem left_pop (first : pc.head < TTYC_LINE_SIZE) (last : pc.tail < TTYC_LINE_SIZE)
    (nonempty : pc.head ≠ pc.tail) (head : pc'.head = (pc.head + 1) % TTYC_LINE_SIZE)
    (tail : pc'.tail = pc.tail) : pc.left ≤ pc'.left := by
  simp only [left, head, tail, TTYC_LINE_SIZE] at *
  split_ifs <;> omega

/-! ## The counter of lines -/

theorem int16_add (value more : Int) : int16 (int16 value + more) = int16 (value + more) := by
  simp only [int16, Int.bmod_def]
  omega

theorem int16_eq_zero_iff (small : lines < 0x10000) : int16 lines = 0 ↔ lines = 0 := by
  rw [int16, Int.bmod_def]
  split <;> omega

theorem int16_eq_neg_one (last : lines + 1 = 0x10000) :
    int16 lines = -1 := by
  rw [int16, Int.bmod_def]
  split <;> omega

/-! ## The invariant -/

/-- The ring holds `items`, and `crs` counts the newlines in it, and perhaps more.  If one place
only is left, a newline took the one before, or a newline has been erased. -/
structure Room (pc : Ttycook) (items : List UInt8) (lines : Nat) : Prop where
  holds : pc.Holds items
  counted : pc.crs = int16 lines
  enough : items.count NEWLINE ≤ lines
  small : lines < 0x10000
  room : 1 ≤ pc.left
  full : pc.left = 1 → items.getLast? = some NEWLINE ∨ items.count NEWLINE < lines

theorem ttycInit_room (pc : Ttycook) : pc.ttycInit.Room [] 0 := by
  have line : pc.ttycInit.head = 0 ∧ pc.ttycInit.tail = 0 ∧ pc.ttycInit.crs = 0 := by
    rw [ttycInit]
    split <;> exact ⟨rfl, rfl, rfl⟩
  obtain ⟨head, tail, crs⟩ := line
  have places : pc.ttycInit.left = 127 := by
    rw [left, head, tail]
    rfl
  refine ⟨?_, crs, Nat.le_refl _, by decide, by omega, fun last => by omega⟩
  rw [Holds, head, tail]
  exact RingHolds.nil (by decide)

/-- Where `ttyc_putc` leaves the indices when it takes a byte back. -/
theorem erase_indices (erase : isErase ch = true) (nonempty : pc.head ≠ pc.tail) :
    (pc.ttycPutc ch).1.head = pc.head ∧
      (pc.ttycPutc ch).1.tail = (pc.tail + TTYC_LINE_SIZE - 1) % TTYC_LINE_SIZE := by
  rw [← prev_line]
  simp only [ttycPutc, erase, nonempty, if_true, if_false]
  exact ⟨(echoAll_line _ _).2.1, (echoAll_line _ _).2.2.1⟩

/-- Where `ttyc_putc` leaves the indices when it stores a byte. -/
theorem store_indices (normal : isErase ch = false) (room : pc.isFull ch = false) :
    (pc.ttycPutc ch).1.head = pc.head ∧
      (pc.ttycPutc ch).1.tail = (pc.tail + 1) % TTYC_LINE_SIZE := by
  rw [← next_line]
  simp only [ttycPutc, normal, room, Bool.false_eq_true, if_false]
  split_ifs <;> exact ⟨rfl, rfl⟩

theorem Room.erase (room : pc.Room items lines) (erase : isErase ch = true) :
    (pc.ttycPutc ch).1.Room items.dropLast lines := by
  obtain ⟨holds, crs⟩ := ttycPutc_erase room.holds erase
  have fewer : items.dropLast.count NEWLINE ≤ items.count NEWLINE :=
    (List.dropLast_sublist items).count_le NEWLINE
  by_cases empty : pc.head = pc.tail
  · have same : (pc.ttycPutc ch).1 = pc := by simp [ttycPutc, erase, empty]
    obtain rfl := room.holds.empty_iff.mp empty
    rwa [same]
  · obtain ⟨head, tail⟩ := erase_indices erase empty
    have places := left_unpush room.holds.first room.holds.tail_lt empty head tail
    have before := room.room
    refine ⟨holds, crs.trans room.counted, Nat.le_trans fewer room.enough, room.small,
      Nat.le_trans before places, fun last => .inr ?_⟩
    rcases room.full (by omega) with newline | erased
    · -- the newline itself is erased
      obtain ⟨front, rfl⟩ := List.getLast?_eq_some_iff.mp newline
      have enough := room.enough
      rw [List.count_append, List.count_singleton_self] at enough
      rw [List.dropLast_concat]
      omega
    · omega

theorem isFull_eq_false : pc.isFull ch = false ↔
    2 ≤ pc.left ∧ (pc.left = 2 → ch = RETURN ∨ ch = NEWLINE) := by
  by_cases isReturn : ch = RETURN <;> by_cases isLine : ch = NEWLINE <;>
    simp [isFull, isReturn, isLine] <;> omega

theorem Room.store (room : pc.Room items lines) (normal : isErase ch = false)
    (places : pc.isFull ch = false) (notLast : ch = RETURN ∨ ch = NEWLINE → pc.crs ≠ -1) :
    ∃ lines', (pc.ttycPutc ch).1.Room (items ++ [if ch = RETURN then NEWLINE else ch]) lines' := by
  obtain ⟨holds, crs⟩ := ttycPutc_store room.holds normal places
  obtain ⟨head, tail⟩ := store_indices normal places
  obtain ⟨two, threshold⟩ := isFull_eq_false.mp places
  have taken := left_push room.holds.first room.holds.tail_lt two head tail
  have small := room.small
  have enough := room.enough
  by_cases isLine : ch = RETURN ∨ ch = NEWLINE
  · have byte : (if ch = RETURN then NEWLINE else ch) = NEWLINE := by
      split <;> simp_all
    have more : lines + 1 ≠ 0x10000 := fun last =>
      notLast isLine (room.counted.trans (int16_eq_neg_one last))
    rw [byte] at holds ⊢
    refine ⟨lines + 1, holds, ?_, ?_, by omega, by omega, fun _ => .inl List.getLast?_concat⟩
    · rw [crs, if_pos isLine, room.counted, int16_add]
      rfl
    · rw [List.count_append, List.count_singleton_self]
      omega
  · have notReturn : ch ≠ RETURN := fun same => isLine (.inl same)
    have notNewline : ch ≠ NEWLINE := fun same => isLine (.inr same)
    have three : pc.left ≠ 2 := fun same => isLine (threshold same)
    rw [if_neg notReturn] at holds ⊢
    refine ⟨lines, holds, ?_, ?_, small, by omega, fun last => by omega⟩
    · rw [crs, if_neg isLine, room.counted]
    · rw [List.count_append, List.count_singleton]
      simpa [notNewline] using enough

/-- A byte is read. -/
theorem Room.pop (room : pc.Room (byte :: items) lines) :
    ∃ lines', Room { pc with
      head := Q_NEXT pc.head TTYC_LINE_SIZE
      crs := if byte = NEWLINE then int16 (pc.crs - 1) else pc.crs } items lines' := by
  obtain ⟨-, popped⟩ := room.holds.pop
  have nonempty : pc.head ≠ pc.tail := fun same => by
    have empty := room.holds.empty_iff.mp same
    simp at empty
  rw [← next_line] at popped
  have places := @left_pop pc { pc with
    head := Q_NEXT pc.head TTYC_LINE_SIZE
    crs := if byte = NEWLINE then int16 (pc.crs - 1) else pc.crs }
    room.holds.first room.holds.tail_lt nonempty (next_line pc.head) rfl
  have before := room.room
  have small := room.small
  have enough := room.enough
  have count : (byte :: items).count NEWLINE =
      items.count NEWLINE + if byte = NEWLINE then 1 else 0 := by
    rw [List.count_cons]
    simp only [beq_iff_eq]
  rw [count] at enough
  refine ⟨lines - if byte = NEWLINE then 1 else 0, popped, ?_, by omega, by omega,
    Nat.le_trans before places, fun last => ?_⟩
  · by_cases isLine : byte = NEWLINE
    · rw [if_pos isLine] at enough
      have cast : ((lines - 1 : Nat) : Int) = (lines : Int) - 1 := by omega
      rw [if_pos isLine, if_pos isLine, cast, room.counted, Int.sub_eq_add_neg, int16_add,
        ← Int.sub_eq_add_neg]
    · simp only [isLine, if_false, room.counted, Nat.sub_zero]
  · rcases room.full (by omega) with newline | erased
    · cases items with
      | nil =>
          -- one place is left in a ring of two bytes or more
          have length := room.holds.length_eq
          have first := room.holds.first
          have end' := room.holds.tail_lt
          have one := show pc.left = 1 by omega
          simp only [left, List.length_singleton, TTYC_LINE_SIZE] at *
          split_ifs at length one <;> omega
      | cons next items => exact .inl (by rwa [List.getLast?_cons_cons] at newline)
    · rw [count] at erased
      exact .inr (by omega)

/-- The loop of `ttyc_read` reads bytes from the front. -/
theorem Room.readLoop {fuel : Nat} (room : pc.Room items lines) (nonempty : items ≠ [])
    (counted : pc.crs ≠ 0) (enough : items.length ≤ fuel) (size : Int) :
    ∃ bytes rest pc' lines', ttycReadLoop fuel size pc = .ok (bytes, pc') ∧
      items = bytes ++ rest ∧ pc'.Room rest lines' := by
  induction fuel generalizing pc items lines size with
  | zero => exact absurd (List.length_eq_zero_iff.mp (Nat.le_zero.mp enough)) nonempty
  | succ fuel ih =>
      by_cases more : 0 < size
      · cases items with
        | nil => exact absurd rfl nonempty
        | cons first items =>
            obtain ⟨isFirst, popped⟩ := room.holds.pop
            obtain ⟨lines', popRoom⟩ := room.pop
            rw [← next_line] at popped
            simp only [ttycReadLoop, counted, more, ne_eq, not_false_eq_true, true_and, if_true,
              isFirst]
            by_cases isLine : first = NEWLINE
            · simp only [isLine, if_true] at popRoom ⊢
              exact ⟨[NEWLINE], items, _, lines', rfl, rfl, popRoom⟩
            · simp only [isLine, if_false] at popRoom ⊢
              by_cases empty : Q_NEXT pc.head TTYC_LINE_SIZE = pc.tail
              · rw [if_pos empty]
                exact ⟨[first], items, _, lines', rfl, rfl, popRoom⟩
              · rw [if_neg empty]
                obtain ⟨bytes, rest, pc', lines'', ran, rfl, restRoom⟩ :=
                  ih popRoom (mt popped.empty_iff.mpr empty) counted (by simpa using enough)
                    (size - 1)
                rw [ran]
                exact ⟨first :: bytes, rest, pc', lines'', rfl, rfl, restRoom⟩
      · refine ⟨[], items, pc, lines, ?_, rfl, room⟩
        simp [ttycReadLoop, more]

theorem Room.read (room : pc.Room items lines) (size : Int) :
    ∃ bytes rest pc' lines', pc.ttycRead size = .ok (bytes, pc') ∧
      items = bytes ++ rest ∧ pc'.Room rest lines' := by
  rw [ttycRead]
  by_cases nothing : pc.crs = 0 ∨ pc.head = pc.tail
  · rw [if_pos nothing]
    exact ⟨[], items, pc, lines, rfl, rfl, room⟩
  · rw [if_neg nothing]
    rw [not_or] at nothing
    exact room.readLoop (mt room.holds.empty_iff.mpr nothing.2) nothing.1
      (Nat.le_of_lt room.holds.short) size

/-! ## Runs -/

/-- A character arrives, or a reader reads. -/
def lineStep (pc : Ttycook) : LineAction → Option Ttycook
  | .putc ch => some (pc.ttycPutc ch).1
  | .read size => (pc.ttycRead size).value?.map Prod.snd

/-- `crs` does not wrap around: no line end arrives while it is -1. -/
def Counts (pc : Ttycook) : LineAction → Prop
  | .putc ch => ch = RETURN ∨ ch = NEWLINE → pc.crs ≠ -1
  | .read _ => True

/-- What holds of the line buffer between two calls. -/
structure Roomy (pc : Ttycook) : Prop where
  indices : pc.head < TTYC_LINE_SIZE ∧ pc.tail < TTYC_LINE_SIZE
  count : pc.stored.length ≤ 127
  putc : ∀ ch, (pc.ttycPutc ch).1.stored =
    if isErase ch then pc.stored.dropLast
    else if pc.isFull ch then pc.stored
    else pc.stored ++ [if ch = RETURN then NEWLINE else ch]
  read : ∀ size, ∃ bytes pc', pc.ttycRead size = .ok (bytes, pc') ∧ pc.stored = bytes ++ pc'.stored
  line : pc.crs = 0 → ∀ ch, ch = RETURN ∨ ch = NEWLINE →
    (pc.ttycPutc ch).1.stored = pc.stored ++ [NEWLINE] ∧ (pc.ttycPutc ch).1.crs = 1

theorem Room.step (room : pc.Room items lines) {action : LineAction} (counts : pc.Counts action)
    (taken : pc.lineStep action = some pc') : ∃ items' lines', pc'.Room items' lines' := by
  cases action with
  | putc ch =>
      obtain rfl := Option.some.inj taken
      by_cases erase : isErase ch = true
      · exact ⟨_, _, room.erase erase⟩
      have normal : isErase ch = false := by simpa using erase
      by_cases full : pc.isFull ch = true
      · rw [ttycPutc_full normal full]
        exact ⟨_, _, room⟩
      · exact ⟨_, room.store normal (by simpa using full) counts⟩
  | read size =>
      obtain ⟨bytes, rest, cook, lines', ran, -, restRoom⟩ := room.read size
      simp only [lineStep, ran, Outcome.value?_ok, Option.map_some, Option.some.injEq] at taken
      exact ⟨rest, lines', taken ▸ restRoom⟩

theorem not_erase_line (isLine : ch = RETURN ∨ ch = NEWLINE) : isErase ch = false := by
  rcases isLine with rfl | rfl <;> decide

theorem Room.roomy (room : pc.Room items lines) : pc.Roomy where
  indices := ⟨room.holds.first, room.holds.tail_lt⟩
  count := by
    rw [room.holds.stored_eq]
    exact Nat.le_of_lt_succ room.holds.short
  putc ch := by
    rw [room.holds.stored_eq]
    by_cases erase : isErase ch = true
    · rw [if_pos erase, (ttycPutc_erase room.holds erase).1.stored_eq]
    have normal : isErase ch = false := by simpa using erase
    rw [if_neg erase]
    by_cases full : pc.isFull ch = true
    · rw [if_pos full, ttycPutc_full normal full, room.holds.stored_eq]
    · rw [if_neg full]
      exact (ttycPutc_store room.holds normal (by simpa using full)).1.stored_eq
  read size := by
    obtain ⟨bytes, rest, pc', lines', ran, split, restRoom⟩ := room.read size
    refine ⟨bytes, pc', ran, ?_⟩
    rw [room.holds.stored_eq, restRoom.holds.stored_eq, split]
  line zero ch isLine := by
    have none : lines = 0 := (int16_eq_zero_iff room.small).mp (room.counted.symm.trans zero)
    have enough := room.enough
    have two : pc.left ≠ 1 := by
      intro one
      rcases room.full one with last | erased
      · have positive := List.count_pos_iff.mpr (List.mem_of_getLast? last)
        omega
      · omega
    have before := room.room
    have places : pc.isFull ch = false := isFull_eq_false.mpr ⟨by omega, fun _ => isLine⟩
    obtain ⟨holds, crs⟩ := ttycPutc_store room.holds (not_erase_line isLine) places
    have byte : (if ch = RETURN then NEWLINE else ch) = NEWLINE := by
      split <;> simp_all
    rw [byte] at holds
    rw [holds.stored_eq, room.holds.stored_eq]
    refine ⟨rfl, ?_⟩
    rw [crs, if_pos isLine, zero]
    decide

/-- In every run in which `crs` does not wrap around, no byte is overwritten, each byte stored,
erased or read counts for one, and where no line is complete the next line end is taken. -/
theorem ttyc_line_room (reached : Reached (fun pc => ∃ cook, pc = ttycInit cook)
    (fun pc action pc' => pc.lineStep action = some pc') Counts pc) : pc.Roomy := by
  obtain ⟨items, lines, room⟩ := reached.invariant
    (fun pc => ∃ items lines, pc.Room items lines)
    (by rintro _ ⟨cook, rfl⟩; exact ⟨[], 0, ttycInit_room cook⟩)
    (fun ⟨items, lines, room⟩ counts taken => room.step counts taken)
  exact room.roomy

instance (pc : Ttycook) : (action : LineAction) → Decidable (pc.Counts action)
  | .putc _ => inferInstanceAs (Decidable (_ → _))
  | .read _ => inferInstanceAs (Decidable True)

/-- A line is typed and read, and the next one is begun. -/
theorem ttyc_line_room_typed : ∃ pc, runs lineStep LineSystem.unused.ttycInit
    [.putc 97, .putc RETURN, .read 9, .putc 98] = some pc ∧ pc.stored = [98] ∧ pc.Roomy := by
  have ran : (runs lineStep LineSystem.unused.ttycInit
      [.putc 97, .putc RETURN, .read 9, .putc 98]).map stored = some [98] := by
    decide +kernel
  have counts : Along lineStep Counts LineSystem.unused.ttycInit
      [.putc 97, .putc RETURN, .read 9, .putc 98] := by
    decide +kernel
  obtain ⟨pc, ran, stored⟩ := Option.map_eq_some_iff.mp ran
  exact ⟨pc, ran, stored, ttyc_line_room (reached_of_runs ⟨_, rfl⟩ counts ran)⟩

/-! ## A counter that wraps around -/

abbrev LineReachable : Ttycook → Prop :=
  Reachable (fun pc => ∃ cook, pc = ttycInit cook) fun pc action pc' => pc.lineStep action = some pc'

theorem LineReachable.putc (reached : LineReachable pc) (ch : UInt8) :
    LineReachable (pc.ttycPutc ch).1 := by
  have taken : pc.lineStep (.putc ch) = some (pc.ttycPutc ch).1 := rfl
  exact .step reached trivial taken

/-- What storing a byte does to an unwrapped ring. -/
theorem store_unwrapped (head : pc.head = 0) (normal : isErase ch = false)
    (room : pc.tail ≤ 124 ∨ pc.tail = 125 ∧ ch = NEWLINE) :
    (pc.ttycPutc ch).1.head = 0 ∧ (pc.ttycPutc ch).1.tail = pc.tail + 1 ∧
      (ch = NEWLINE → (pc.ttycPutc ch).1.crs = int16 (pc.crs + 1)) ∧
      (ch ≠ NEWLINE ∧ ch ≠ RETURN → (pc.ttycPutc ch).1.crs = pc.crs) := by
  have left : pc.left = 127 - pc.tail := by
    simp only [left, head, TTYC_LINE_SIZE]
    split <;> omega
  have places : pc.isFull ch = false := by
    rw [isFull_eq_false]
    rcases room with small | ⟨isLast, rfl⟩
    · exact ⟨by omega, fun two => by omega⟩
    · exact ⟨by omega, fun _ => .inr rfl⟩
  obtain ⟨sameHead, tail⟩ := store_indices normal places
  refine ⟨sameHead.trans head, ?_, ?_, ?_⟩
  · rw [tail]
    simp only [TTYC_LINE_SIZE]
    omega
  · rintro rfl
    simp only [ttycPutc, normal, places, Bool.false_eq_true, if_false]
    rfl
  · rintro ⟨notNewline, notReturn⟩
    simp only [ttycPutc, normal, places, notReturn, notNewline, Bool.false_eq_true, if_false]
    split
    · exact (echoAll_line _ _).2.2.2
    · rfl

/-- A newline that is typed and erased counts. -/
theorem reached_counting (n : Nat) :
    ∃ pc, LineReachable pc ∧ pc.head = 0 ∧ pc.tail = 0 ∧ pc.crs = int16 n := by
  induction n with
  | zero =>
      have room := ttycInit_room LineSystem.unused
      exact ⟨_, .start ⟨LineSystem.unused, rfl⟩, rfl, rfl, room.counted⟩
  | succ n ih =>
      obtain ⟨pc, reached, head, tail, crs⟩ := ih
      obtain ⟨head', tail', crs', -⟩ :=
        @store_unwrapped pc NEWLINE head (by decide) (.inl (by omega))
      have nonempty : (pc.ttycPutc NEWLINE).1.head ≠ (pc.ttycPutc NEWLINE).1.tail := by omega
      have erase : isErase DEL = true := by decide
      obtain ⟨head'', tail''⟩ := erase_indices erase nonempty
      refine ⟨_, (reached.putc NEWLINE).putc DEL, head''.trans head', ?_, ?_⟩
      · rw [tail'', tail', tail]
        rfl
      · have same : ((pc.ttycPutc NEWLINE).1.ttycPutc DEL).1.crs = (pc.ttycPutc NEWLINE).1.crs := by
          rw [ttycPutc]
          simp only [erase, nonempty, if_true, if_false]
          exact (echoAll_line _ _).2.2.2
        rw [same, crs' rfl, crs, int16_add]
        rfl

theorem reached_typing (n : Nat) (few : n ≤ 125) :
    ∃ pc, LineReachable pc ∧ pc.head = 0 ∧ pc.tail = n ∧ pc.crs = -1 := by
  induction n with
  | zero =>
      obtain ⟨pc, reached, head, tail, crs⟩ := reached_counting 65535
      exact ⟨pc, reached, head, tail, crs.trans (int16_eq_neg_one rfl)⟩
  | succ n ih =>
      obtain ⟨pc, reached, head, tail, crs⟩ := ih (by omega)
      obtain ⟨head', tail', -, crs'⟩ := @store_unwrapped pc 97 head (by decide) (.inl (by omega))
      exact ⟨_, reached.putc 97, head', by rw [tail', tail], (crs' (by decide)).trans crs⟩

/-- After 65535 newlines that are erased, 125 letters and a newline, `crs` is 0 and the ring
has no room for a newline. -/
theorem ttyc_crs_wraps : ∃ pc, LineReachable pc ∧ ¬pc.Roomy := by
  obtain ⟨pc, reached, head, tail, crs⟩ := reached_typing 125 (Nat.le_refl _)
  obtain ⟨head', tail', crs', -⟩ := @store_unwrapped pc NEWLINE head (by decide) (.inr ⟨tail, rfl⟩)
  refine ⟨_, reached.putc NEWLINE, fun roomy => ?_⟩
  have zero : (pc.ttycPutc NEWLINE).1.crs = 0 := by
    rw [crs' rfl, crs]
    decide
  have one : (pc.ttycPutc NEWLINE).1.left = 1 := by
    rw [left, head', tail', tail]
    rfl
  have full : (pc.ttycPutc NEWLINE).1.isFull NEWLINE = true := by
    simp [isFull, one]
  have taken := (roomy.line zero NEWLINE (.inr rfl)).1
  rw [ttycPutc_full (by decide) full] at taken
  simp at taken

end Ttycook

end Pegasos.Kernel.Tty
