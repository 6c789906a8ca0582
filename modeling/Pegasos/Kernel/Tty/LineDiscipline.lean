import Pegasos.Kernel.Tty.TtyCook
import Pegasos.Support.Transition
import Pegasos.Support.Tables

/-!
# The line discipline

Characters arrive and readers read in any order.  `Editor` says what a terminal line
is: a list of finished lines and one that is being typed.  As long as no backspace
arrives right behind a finished line that is still in the ring, the bytes that are
read are those of the finished lines.
-/

namespace Pegasos.Kernel.Tty

open Pegasos.Support

/-! ## A line editor -/

/-- What has been typed: the finished lines and the unfinished one. -/
structure Editor where
  finished : List UInt8
  line : List UInt8

namespace Editor

/-- A character is typed. -/
def key (editor : Editor) (ch : UInt8) : Editor :=
  if Ttycook.isErase ch then { editor with line := editor.line.dropLast }
  else if ch = RETURN ∨ ch = NEWLINE then
    { finished := editor.finished ++ (editor.line ++ [NEWLINE]), line := [] }
  else { editor with line := editor.line ++ [ch] }

/-- What a list of characters comes to. -/
def edit (chars : List UInt8) : Editor := chars.foldl key ⟨[], []⟩

theorem edit_concat (chars : List UInt8) (ch : UInt8) :
    edit (chars ++ [ch]) = (edit chars).key ch := by
  simp [edit]

theorem key_line {editor : Editor} (absent : NEWLINE ∉ editor.line) (ch : UInt8) :
    NEWLINE ∉ (editor.key ch).line := by
  rw [key]
  split
  · exact fun member => absent ((List.dropLast_sublist _).subset member)
  · split
    · simp
    · rename_i normal
      rw [not_or] at normal
      simpa [Ne.symm normal.2] using absent

theorem newline_not_mem_line (chars : List UInt8) : NEWLINE ∉ (edit chars).line := by
  have every : ∀ editor : Editor, NEWLINE ∉ editor.line → NEWLINE ∉ (chars.foldl key editor).line := by
    induction chars with
    | nil => exact fun editor absent => absent
    | cons ch rest ih => exact fun editor absent => ih _ (key_line absent ch)
  apply every
  simp

end Editor

/-! ## The terminal -/

/-- A line buffer with the characters that it has accepted and the bytes that it has
returned. -/
structure LineSystem where
  cook : Ttycook
  accepted : List UInt8
  returned : List UInt8

inductive LineAction where
  | putc (ch : UInt8)
  | read (size : Int)
  deriving DecidableEq, Repr

namespace LineSystem

variable (sys : LineSystem)

def step : LineAction → Option LineSystem
  | .putc ch =>
      let refused := !Ttycook.isErase ch && sys.cook.isFull ch
      some { sys with
        cook := (sys.cook.ttycPutc ch).1
        accepted := if refused then sys.accepted else sys.accepted ++ [ch] }
  | .read size =>
      (sys.cook.ttycRead size).value?.map fun (bytes, cook) =>
        { sys with cook := cook, returned := sys.returned ++ bytes }

/-- The state behind `ttyc_init`. -/
def start (cook : Ttycook) : LineSystem := ⟨cook.ttycInit, [], []⟩

/-- The condition under which the discipline holds: no backspace or DEL arrives when
the last byte in the ring is a newline. -/
def Guarded : LineAction → Prop
  | .putc ch => Ttycook.isErase ch = true → sys.cook.head = sys.cook.tail ∨
      sys.cook.buf (Q_PREV sys.cook.tail TTYC_LINE_SIZE) ≠ NEWLINE
  | .read _ => True

instance : (action : LineAction) → Decidable (sys.Guarded action)
  | .putc _ => inferInstanceAs (Decidable (_ → _))
  | .read _ => inferInstanceAs (Decidable True)

/-- `crs` is the number of newlines in the ring. -/
def Counted : Prop := sys.cook.crs = sys.cook.stored.count NEWLINE

/-- A backspace takes back the last byte of the unfinished line, if there is one. -/
def ErasesUnfinished : Prop :=
  ∀ ch, Ttycook.isErase ch = true → sys.Guarded (.putc ch) →
    (sys.cook.ttycPutc ch).1.stored = sys.cook.stored ∨
      ∃ byte, byte ≠ NEWLINE ∧ sys.cook.stored = (sys.cook.ttycPutc ch).1.stored ++ [byte]

/-- What has been returned is the beginning of the finished lines of the editor. -/
def InOrder : Prop := sys.returned <+: (Editor.edit sys.accepted).finished

/-- A read returns bytes of one finished line, to its newline at most. -/
def ReadsLine : Prop :=
  ∀ size, ∃ bytes cook, sys.cook.ttycRead size = .ok (bytes, cook) ∧
    (if sys.cook.crs = 0 then bytes = [] else Ttycook.LinePart size bytes) ∧
    sys.cook.stored = bytes ++ cook.stored ∧
    sys.returned ++ bytes <+: (Editor.edit sys.accepted).finished

/-! ## The invariant -/

/-- The ring holds the finished lines that have not been returned and the unfinished
line. -/
structure Inv (pending : List UInt8) : Prop where
  holds : sys.cook.Holds (pending ++ (Editor.edit sys.accepted).line)
  finished : sys.returned ++ pending = (Editor.edit sys.accepted).finished
  counted : sys.cook.crs = pending.count NEWLINE
  ends : pending ≠ [] → pending.getLast? = some NEWLINE

variable {sys} {sys' : LineSystem} {pending : List UInt8}

theorem start_inv (cook : Ttycook) : (start cook).Inv [] where
  holds := by
    simp only [start, Ttycook.ttycInit]
    split <;> exact RingHolds.nil (Nat.zero_lt_succ 127)
  finished := rfl
  counted := by
    simp only [start, Ttycook.ttycInit]
    split <;> rfl
  ends := by simp

theorem Inv.counted_stored (inv : sys.Inv pending) : sys.Counted := by
  have absent := List.count_eq_zero.mpr (Editor.newline_not_mem_line sys.accepted)
  rw [Counted, inv.holds.stored_eq, List.count_append, absent, inv.counted, Nat.add_zero]

theorem Inv.crs_range (inv : sys.Inv pending) : 0 ≤ sys.cook.crs ∧ sys.cook.crs < 128 := by
  have short := inv.holds.short
  have small := List.count_le_length (a := NEWLINE) (l := pending)
  rw [List.length_append, TTYC_LINE_SIZE] at short
  rw [inv.counted]
  constructor <;> omega

theorem int16_eq {value : Int} (low : -1 ≤ value) (high : value ≤ 128) : int16 value = value := by
  unfold int16
  rw [Int.bmod_def]
  split <;> omega

/-- The byte that a guarded backspace takes back belongs to the unfinished line. -/
theorem Inv.erased (inv : sys.Inv pending) {ch : UInt8} (erase : Ttycook.isErase ch = true)
    (guarded : sys.Guarded (.putc ch)) (empty : (Editor.edit sys.accepted).line = []) :
    pending = [] := by
  by_contra nonempty
  have holds := inv.holds
  rw [empty, List.append_nil] at holds
  have last := inv.ends nonempty
  obtain ⟨front, rfl⟩ := List.getLast?_eq_some_iff.mp last
  rcases guarded erase with same | other
  · have none := holds.empty_iff.mp same
    simp at none
  · rw [Ttycook.prev_line] at other
    exact other holds.unpush.1

theorem Inv.putc_step (inv : sys.Inv pending) {ch : UInt8} (guarded : sys.Guarded (.putc ch))
    (taken : sys.step (.putc ch) = some sys') : ∃ pending', sys'.Inv pending' := by
  simp only [step, Option.some.injEq] at taken
  subst taken
  by_cases erase : Ttycook.isErase ch = true
  · obtain ⟨holds, crs⟩ := Ttycook.ttycPutc_erase inv.holds erase
    have edited : Editor.edit (sys.accepted ++ [ch]) = { Editor.edit sys.accepted with
        line := (Editor.edit sys.accepted).line.dropLast } := by
      rw [Editor.edit_concat, Editor.key, if_pos erase]
    refine ⟨pending, ?_, ?_, ?_, inv.ends⟩
    · simp only [erase, Bool.not_true, Bool.false_and, Bool.false_eq_true, if_false, edited]
      by_cases empty : (Editor.edit sys.accepted).line = []
      · obtain rfl := inv.erased erase guarded empty
        simpa only [List.nil_append] using holds
      · rwa [List.dropLast_append_of_ne_nil empty] at holds
    · simp only [erase, Bool.not_true, Bool.false_and, Bool.false_eq_true, if_false, edited]
      exact inv.finished
    · exact crs.trans inv.counted
  · have normal : Ttycook.isErase ch = false := by simpa using erase
    by_cases full : sys.cook.isFull ch = true
    · refine ⟨pending, ?_⟩
      simp only [normal, full, Bool.not_false, Bool.and_self, if_true,
        Ttycook.ttycPutc_full normal full]
      exact ⟨inv.holds, inv.finished, inv.counted, inv.ends⟩
    · have room : sys.cook.isFull ch = false := by simpa using full
      obtain ⟨holds, crs⟩ := Ttycook.ttycPutc_store inv.holds normal room
      have range := inv.crs_range
      simp only [normal, room, Bool.not_false, Bool.and_false, Bool.false_eq_true, if_false]
      by_cases isLine : ch = RETURN ∨ ch = NEWLINE
      · have byte : (if ch = RETURN then NEWLINE else ch) = NEWLINE := by
          split <;> simp_all
        rw [byte] at holds
        rw [if_pos isLine] at crs
        have edited : Editor.edit (sys.accepted ++ [ch]) =
            ⟨(Editor.edit sys.accepted).finished ++ ((Editor.edit sys.accepted).line ++ [NEWLINE]),
              []⟩ := by
          rw [Editor.edit_concat, Editor.key, if_neg erase, if_pos isLine]
        refine ⟨pending ++ ((Editor.edit sys.accepted).line ++ [NEWLINE]), ?_, ?_, ?_, ?_⟩
        · simpa only [edited, List.append_nil, List.append_assoc] using holds
        · rw [edited, ← List.append_assoc, inv.finished]
        · have absent := List.count_eq_zero.mpr (Editor.newline_not_mem_line sys.accepted)
          rw [crs, int16_eq (by omega) (by omega), inv.counted]
          simp [List.count_append, absent]
        · intro nonempty
          rw [← List.append_assoc, List.getLast?_concat]
      · have notReturn : ch ≠ RETURN := fun same => isLine (.inl same)
        rw [if_neg notReturn] at holds
        rw [if_neg isLine] at crs
        have edited : Editor.edit (sys.accepted ++ [ch]) = { Editor.edit sys.accepted with
            line := (Editor.edit sys.accepted).line ++ [ch] } := by
          rw [Editor.edit_concat, Editor.key, if_neg erase, if_neg isLine]
        refine ⟨pending, ?_, ?_, crs.trans inv.counted, inv.ends⟩
        · simpa only [edited, List.append_assoc] using holds
        · rw [edited]
          exact inv.finished

/-- Bytes of one line from a ring that begins with finished lines are bytes of these. -/
theorem finished_part {bytes rest line : List UInt8} {size : Int}
    (part : Ttycook.LinePart size bytes) (ends : pending.getLast? = some NEWLINE)
    (absent : NEWLINE ∉ line) (split : pending ++ line = bytes ++ rest) :
    ∃ later, pending = bytes ++ later ∧ rest = later ++ line := by
  have member : NEWLINE ∈ pending := List.mem_of_getLast? ends
  rcases List.append_eq_append_iff.mp split with ⟨extra, rfl, rfl⟩ | ⟨later, rfl, rfl⟩
  · rcases part with ⟨noLine, -⟩ | ⟨front, isBytes, noLine, -⟩
    · exact absurd (List.mem_append_left _ member) noLine
    · have last := congrArg List.getLast? isBytes
      rw [List.getLast?_append, List.getLast?_concat] at last
      cases extra with
      | nil => exact ⟨[], by simp⟩
      | cons first others =>
          rw [List.getLast?_cons, Option.some_or, Option.some.injEq] at last
          refine absurd ?_ absent
          exact List.mem_append_left _ (List.mem_of_getLast? (by rw [List.getLast?_cons, last]))
  · exact ⟨later, rfl, rfl⟩

/-- What a read does: bytes of the first pending line leave the ring. -/
theorem Inv.read_spec (inv : sys.Inv pending) (size : Int) :
    ∃ bytes rest cook, sys.cook.ttycRead size = .ok (bytes, cook) ∧ pending = bytes ++ rest ∧
      (if sys.cook.crs = 0 then bytes = [] else Ttycook.LinePart size bytes) ∧
      { sys with cook := cook, returned := sys.returned ++ bytes }.Inv rest := by
  by_cases none : pending = []
  · subst none
    have counted : sys.cook.crs = 0 := inv.counted
    refine ⟨[], [], sys.cook, ?_, rfl, by rw [if_pos counted], ?_⟩
    · rw [Ttycook.ttycRead, if_pos (.inl counted)]
    · simpa only [List.append_nil] using inv
  · have complete : NEWLINE ∈ pending := List.mem_of_getLast? (inv.ends none)
    have some : sys.cook.crs ≠ 0 := by
      have positive := List.count_pos_iff.mpr complete
      rw [inv.counted]
      omega
    have nonempty : sys.cook.head ≠ sys.cook.tail := by
      intro same
      have empty := inv.holds.empty_iff.mp same
      exact none (List.append_eq_nil_iff.mp empty).1
    obtain ⟨bytes, left, cook, ran, split, holds, part, crs⟩ :=
      Ttycook.ttycReadLoop_spec size inv.holds (List.mem_append_left _ complete) some
        (Nat.le_of_lt inv.holds.short)
    obtain ⟨rest, isPending, rfl⟩ := finished_part part (inv.ends none)
      (Editor.newline_not_mem_line sys.accepted) split
    refine ⟨bytes, rest, cook, ?_, isPending, by rwa [if_neg some], holds, ?_, ?_, ?_⟩
    · rw [Ttycook.ttycRead, if_neg (not_or.mpr ⟨some, nonempty⟩), ran]
    · rw [List.append_assoc, ← isPending]
      exact inv.finished
    · have range := inv.crs_range
      have counted := inv.counted
      have count := part.count
      rw [isPending, List.count_append] at counted
      rw [crs]
      split at count <;> rename_i member
      · rw [if_pos member, int16_eq (by omega) (by omega)]
        omega
      · rw [if_neg member]
        omega
    · intro more
      have last := inv.ends none
      obtain ⟨byte, isLast⟩ := Option.ne_none_iff_exists'.mp (mt List.getLast?_eq_none_iff.mp more)
      rw [isPending, List.getLast?_append, isLast, Option.some_or] at last
      rw [isLast, last]

theorem Inv.step {action : LineAction} (inv : sys.Inv pending) (guarded : sys.Guarded action)
    (taken : sys.step action = some sys') : ∃ pending', sys'.Inv pending' := by
  cases action with
  | putc ch => exact inv.putc_step guarded taken
  | read size =>
      obtain ⟨bytes, rest, cook, ran, -, -, inv'⟩ := inv.read_spec size
      simp only [LineSystem.step, ran, Outcome.value?_ok, Option.map_some, Option.some.injEq] at taken
      exact ⟨rest, taken ▸ inv'⟩

/-! ## What the invariant says -/

theorem Inv.erasesUnfinished (inv : sys.Inv pending) : sys.ErasesUnfinished := by
  intro ch erase guarded
  have holds := inv.holds
  rw [holds.stored_eq, (Ttycook.ttycPutc_erase holds erase).1.stored_eq]
  by_cases empty : (Editor.edit sys.accepted).line = []
  · obtain rfl := inv.erased erase guarded empty
    left
    rw [empty]
    rfl
  · right
    refine ⟨(Editor.edit sys.accepted).line.getLast empty, fun isLine => ?_, ?_⟩
    · apply Editor.newline_not_mem_line sys.accepted
      exact isLine ▸ List.getLast_mem empty
    · rw [List.dropLast_append_of_ne_nil empty, List.append_assoc, List.dropLast_concat_getLast]

theorem Inv.readsLine (inv : sys.Inv pending) : sys.ReadsLine := by
  intro size
  obtain ⟨bytes, rest, cook, ran, isPending, part, inv'⟩ := inv.read_spec size
  refine ⟨bytes, cook, ran, part, ?_, ⟨rest, inv'.finished⟩⟩
  rw [inv.holds.stored_eq, inv'.holds.stored_eq, isPending, List.append_assoc]

/-- In every run whose steps meet the condition, `crs` counts the newlines in the ring,
a backspace takes back bytes of the unfinished line only, what has been read is the
beginning of the lines of the editor, and every read returns part of one line. -/
theorem tty_line_discipline {cook : Ttycook} {sys : LineSystem}
    (reached : Reached (· = start cook) (fun s a s' => s.step a = some s') Guarded sys) :
    sys.Counted ∧ sys.ErasesUnfinished ∧ sys.InOrder ∧ sys.ReadsLine := by
  obtain ⟨pending, inv⟩ := reached.invariant (fun sys => ∃ pending, sys.Inv pending)
    (by rintro _ rfl; exact ⟨[], start_inv cook⟩)
    (fun ⟨pending, inv⟩ guarded taken => inv.step guarded taken)
  exact ⟨inv.counted_stored, inv.erasesUnfinished, ⟨pending, inv.finished⟩, inv.readsLine⟩

/-- A ring before it is used. -/
def unused : Ttycook := ⟨fun _ => 0, fun _ => 0, 0, 0, 0, 0, 0, false⟩

/-- A line with a correction is typed and read in two pieces. -/
theorem tty_line_discipline_correction :
    ∃ sys, runs step (start unused)
        [.putc 97, .putc 98, .putc DEL, .putc 99, .putc RETURN, .read 2, .putc 100, .read 9] =
          some sys ∧
      sys.returned = [97, 99, NEWLINE] ∧ sys.Counted ∧ sys.ErasesUnfinished ∧ sys.InOrder ∧
        sys.ReadsLine := by
  have ran : (runs step (start unused)
      [.putc 97, .putc 98, .putc DEL, .putc 99, .putc RETURN, .read 2, .putc 100, .read 9]).map
        (·.returned) = some [97, 99, NEWLINE] := by
    decide +kernel
  have guarded : Along step Guarded (start unused)
      [.putc 97, .putc 98, .putc DEL, .putc 99, .putc RETURN, .read 2, .putc 100, .read 9] := by
    decide +kernel
  obtain ⟨sys, ran, returned⟩ := Option.map_eq_some_iff.mp ran
  exact ⟨sys, ran, returned, tty_line_discipline (reached_of_runs rfl guarded ran)⟩

/-- A backspace behind a finished line takes its newline back, and `crs` keeps
counting it. -/
theorem ttyc_putc_erases_newline :
    ∃ sys, Reachable (· = start unused) (fun s a s' => s.step a = some s') sys ∧ ¬sys.Counted := by
  have ran : (runs step (start unused) [.putc NEWLINE, .putc DEL]).map
      (fun sys => (sys.cook.crs, sys.cook.stored)) = some (1, []) := by
    decide +kernel
  obtain ⟨sys, ran, same⟩ := Option.map_eq_some_iff.mp ran
  obtain ⟨crs, stored⟩ := by simpa only [Prod.mk.injEq] using same
  refine ⟨sys, reachable_of_runs rfl ran, fun counted => ?_⟩
  rw [Counted, crs, stored] at counted
  simp at counted

end LineSystem

end Pegasos.Kernel.Tty
