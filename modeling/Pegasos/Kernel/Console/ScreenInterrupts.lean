import Pegasos.Kernel.Console.Screen

/-!
# The interrupt flag across the calls of the console

`con_enter_cs` and `con_leave_cs` count how deep the functions are.  `con_left` returns
without `con_leave_cs` from the first column of the screen: after a backspace there,
interrupts stay disabled, and all calls that follow are counted as nested ones.
-/

namespace Pegasos.Kernel.Console

open Pegasos.Support
open Function (update)

namespace Screen

/-- Interrupts are disabled, and `con_enter_cs` has been called so many times more than
`con_leave_cs`. -/
structure Depth (s : Screen) (depth : Nat) (sti : Bool) : Prop where
  counter : s.csReenter = int16 depth
  disabled : s.interrupts = false
  saved : s.csSti = sti

/-- A byte that `con_left` is called for in the first column. -/
def Edge (x : Int) (by' : UInt8) : Prop := by' = BS ∧ x = 0

instance (x : Int) (by' : UInt8) : Decidable (Edge x by') := inferInstanceAs (Decidable (_ ∧ _))

/-- The column of the cursor behind a byte. -/
def column (x : Int) (by' : UInt8) : Int :=
  if by' = CR then 0
  else if by' = LF then x
  else if by' = BS then int16 (x - 1)
  else if int16 (x + 1) = scrX then 0
  else int16 (x + 1)

/-- No backspace is output in the first column. -/
def ClearBytes : Int → List UInt8 → Prop
  | _, [] => True
  | x, by' :: buf => ¬Edge x by' ∧ ClearBytes (column x by') buf

/-- The condition on a call, in the state before it. -/
def Clear (s : Screen) : ConCall → Prop
  | .conChar by' => ClearBytes s.pg.cursX [by']
  | .conWrite unit buf => unit = 0 → ClearBytes s.pg.cursX buf.val
  | _ => True

/-- A call leaves no function of the console, and the interrupt flag, behind as it was. -/
def Restores (s : Screen) (next : ConCall) : Prop :=
  (s.call next).csReenter = 0 ∧ (s.call next).interrupts = s.interrupts

/-- A condition on every call of a run, in the state before it. -/
def EachCall (Condition : Screen → ConCall → Prop) : Screen → List ConCall → Prop
  | _, [] => True
  | s, next :: calls => Condition s next ∧ EachCall Condition (s.call next) calls

variable {s t : Screen} {pg : ConPage} {cell : ConCell} {count depth : Nat} {sti : Bool} {i : Int}
  {by' : UInt8}

theorem int16_succ (depth : Nat) : int16 (int16 depth + 1) = int16 (depth + 1 : Nat) := by
  unfold int16
  rw [Int.bmod_add_bmod]
  rfl

theorem int16_pred (depth : Nat) : int16 (int16 (depth + 1 : Nat) - 1) = int16 depth := by
  unfold int16
  rw [Int.bmod_sub_bmod]
  congr 1
  omega

theorem int16_ne_zero (deep : 0 < depth) (less : depth < 0x10000) : int16 depth ≠ 0 := by
  rw [int16, Int.bmod_def]
  omega

/-! ## Nested functions -/

theorem enter_depth (inside : Depth s depth sti) (deep : 0 < depth) (less : depth < 0x10000) :
    Depth s.conEnterCs (depth + 1) sti where
  counter := by
    change int16 (s.csReenter + 1) = _
    rw [inside.counter, int16_succ]
  disabled := rfl
  saved := by
    have nested : s.csReenter ≠ 0 := by
      rw [inside.counter]
      exact int16_ne_zero deep less
    exact (if_neg nested).trans inside.saved

theorem leave_depth (inside : Depth s (depth + 1) sti) (deep : 0 < depth)
    (less : depth < 0x10000) : Depth s.conLeaveCs depth sti := by
  have counter : int16 (s.csReenter - 1) = int16 depth := by rw [inside.counter, int16_pred]
  refine ⟨counter, ?_, inside.saved⟩
  have nested : int16 (s.csReenter - 1) ≠ 0 := by
    rw [counter]
    exact int16_ne_zero deep less
  exact (if_neg nested).trans inside.disabled

/-- The first `con_enter_cs`. -/
theorem enter_outside (outside : s.csReenter = 0) : Depth s.conEnterCs 1 s.interrupts where
  counter := by
    change int16 (s.csReenter + 1) = _
    rw [outside]
    rfl
  disabled := rfl
  saved := if_pos outside

/-- The last `con_leave_cs` restores the interrupt flag, unless one has been left out. -/
theorem leave_outside (inside : Depth s (depth + 1) sti) (less : depth < 0x10000) :
    (s.conLeaveCs.csReenter = 0 ∧ s.conLeaveCs.interrupts = sti) ↔ depth = 0 := by
  have counter : s.conLeaveCs.csReenter = int16 depth := by
    change int16 (s.csReenter - 1) = _
    rw [inside.counter, int16_pred]
  constructor
  · rintro ⟨outside, -⟩
    by_contra deep
    exact int16_ne_zero (Nat.pos_of_ne_zero deep) less (counter.symm.trans outside)
  · rintro rfl
    refine ⟨counter, ?_⟩
    have outside : int16 (s.csReenter - 1) = 0 := counter
    exact (if_pos outside).trans inside.saved

/-- What the functions do before `con_leave_cs`. -/
theorem Depth.same (inside : Depth s depth sti) (counter : t.csReenter = s.csReenter)
    (interrupts : t.interrupts = s.interrupts) (saved : t.csSti = s.csSti) : Depth t depth sti :=
  ⟨counter.trans inside.counter, interrupts.trans inside.disabled, saved.trans inside.saved⟩

theorem Depth.setPg (inside : Depth s depth sti) : Depth (s.setPg pg) depth sti :=
  inside.same rfl rfl rfl

theorem Depth.conCursync (inside : Depth s depth sti) : Depth s.conCursync depth sti :=
  inside.same rfl rfl rfl

theorem Depth.fill (inside : Depth s depth sti) : Depth (Screen.fill cell count i s) depth sti :=
  inside.same (fill_look fun _ _ => rfl) (fill_look fun _ _ => rfl) (fill_look fun _ _ => rfl)

theorem conScroll_depth (inside : Depth s depth sti) (deep : 0 < depth)
    (less : depth + 1 < 0x10000) : Depth s.conScroll depth sti := by
  have entered := enter_depth inside deep (by omega)
  have moved : Depth s.scrolled (depth + 1) sti := entered.same rfl rfl rfl
  rw [conScroll_eq]
  exact leave_depth moved.fill.conCursync deep (by omega)

theorem lineDown_depth (inside : Depth s depth sti) (deep : 0 < depth)
    (less : depth + 1 < 0x10000) : Depth s.lineDown depth sti := by
  unfold lineDown
  dsimp only
  split_ifs
  · exact conScroll_depth inside.setPg deep less
  · exact inside.setPg

theorem conRight_depth (inside : Depth s depth sti) (deep : 0 < depth)
    (less : depth + 2 < 0x10000) : Depth s.conRight depth sti := by
  have entered := enter_depth inside deep (by omega)
  refine leave_depth (Depth.conCursync ?_) deep (by omega)
  split_ifs
  · exact lineDown_depth entered.setPg (by omega) (by omega)
  · exact entered.setPg

/-- One `con_leave_cs` is left out in the first column. -/
theorem conLeft_depth (inside : Depth s depth sti) (deep : 0 < depth)
    (less : depth + 1 < 0x10000) :
    Depth s.conLeft (depth + if s.pg.cursX = 0 then 1 else 0) sti := by
  have entered := enter_depth inside deep (by omega)
  unfold conLeft
  by_cases first : s.pg.cursX = 0
  · by_cases top : s.pg.cursY = 0
    · simpa only [conEnterCs_pg, first, top, if_true] using entered
    · simpa only [conEnterCs_pg, first, top, if_true, if_false] using entered.setPg
  · simp only [conEnterCs_pg, first, if_false, add_zero]
    exact leave_depth entered.setPg.conCursync deep (by omega)

theorem switchChar_depth (inside : Depth s depth sti) (deep : 0 < depth)
    (less : depth + 2 < 0x10000) (by' : UInt8) :
    Depth (s.switchChar by') (depth + if Edge s.pg.cursX by' then 1 else 0) sti := by
  unfold switchChar
  by_cases isBs : by' = BS
  · subst isBs
    have same : (if Edge s.pg.cursX BS then 1 else 0) = if s.pg.cursX = 0 then 1 else 0 := by
      by_cases first : s.pg.cursX = 0 <;> simp [Edge, first]
    rw [if_neg (by decide), if_neg (by decide), if_pos rfl, same]
    exact conLeft_depth inside deep (by omega)
  · rw [if_neg (c := Edge s.pg.cursX by') fun edge => isBs edge.1]
    split_ifs
    · exact inside.setPg
    · exact lineDown_depth inside deep (by omega)
    · have stored : Depth (s.store (s.pg.cursY * scrX + s.pg.cursX)
          { data := by', attr := defattr }) depth sti := inside.same rfl rfl rfl
      exact conRight_depth stored deep less

theorem conChar_depth (inside : Depth s depth sti) (deep : 0 < depth)
    (less : depth + 3 < 0x10000) (by' : UInt8) :
    Depth (s.conChar by') (depth + if Edge s.pg.cursX by' then 1 else 0) sti := by
  have entered := enter_depth inside deep (by omega)
  have switched := switchChar_depth entered (by omega) (by omega) by'
  rw [conEnterCs_pg, add_right_comm] at switched
  exact leave_depth switched (by omega) (by split_ifs <;> omega)

/-- The column behind a byte that is not output in vain. -/
theorem conChar_column (noEdge : ¬Edge s.pg.cursX by') :
    (s.conChar by').pg.cursX = column s.pg.cursX by' := by
  rw [(conChar_moved s by').pg_eq]
  unfold ConPage.typed column
  split_ifs with isCr isLf isBs
  · rfl
  · rfl
  · rw [ConPage.left, if_neg fun first => noEdge ⟨isBs, first⟩]
  · rw [ConPage.right, if_pos (by assumption)]
    rfl
  · rw [ConPage.right, if_neg (by assumption)]

/-- For every backspace in the first column, one `con_leave_cs` is left out. -/
theorem foldl_depth (buf : List UInt8) (inside : Depth s depth sti) (deep : 0 < depth)
    (less : depth + buf.length + 3 < 0x10000) :
    ∃ missed ≤ buf.length, Depth (buf.foldl conChar s) (depth + missed) sti ∧
      (missed = 0 ↔ ClearBytes s.pg.cursX buf) := by
  induction buf generalizing s depth with
  | nil => exact ⟨0, le_refl 0, inside, by simp [ClearBytes]⟩
  | cons by' buf ih =>
      have first := conChar_depth inside deep (by omega) by'
      rw [List.length_cons] at less
      obtain ⟨missed, few, last, clear⟩ := ih first (by omega) (by split_ifs <;> omega)
      rw [add_assoc] at last
      refine ⟨_, ?_, last, ?_⟩
      · rw [List.length_cons]
        split_ifs <;> omega
      · by_cases edge : Edge s.pg.cursX by'
        · simp [ClearBytes, edge]
        · rw [conChar_column edge] at clear
          simpa [ClearBytes, edge] using clear

/-! ## Calls -/

/-- What a function does between its own `con_enter_cs` and `con_leave_cs`. -/
theorem between_restores (outside : s.csReenter = 0) (inner : Screen → Screen)
    (kept : Depth s.conEnterCs 1 s.interrupts → Depth (inner s.conEnterCs) 1 s.interrupts) :
    (inner s.conEnterCs).conLeaveCs.csReenter = 0 ∧
      (inner s.conEnterCs).conLeaveCs.interrupts = s.interrupts :=
  (leave_outside (kept (enter_outside outside)) (by decide)).mpr rfl

/-- Characters that are output between `con_enter_cs` and `con_leave_cs`. -/
theorem buffer_restores (outside : s.csReenter = 0) (buf : List UInt8)
    (less : buf.length < 0x8000) :
    ((buf.foldl conChar s.conEnterCs).conLeaveCs.csReenter = 0 ∧
      (buf.foldl conChar s.conEnterCs).conLeaveCs.interrupts = s.interrupts) ↔
      ClearBytes s.pg.cursX buf := by
  obtain ⟨missed, few, last, clear⟩ :=
    foldl_depth buf (enter_outside outside) (by decide) (by omega)
  rw [add_comm] at last
  rw [leave_outside last (by omega), clear, conEnterCs_pg]

/-- A character at the outermost level. -/
theorem conChar_restores (outside : s.csReenter = 0) (by' : UInt8) :
    ((s.conChar by').csReenter = 0 ∧ (s.conChar by').interrupts = s.interrupts) ↔
      ClearBytes s.pg.cursX [by'] := by
  have switched := switchChar_depth (enter_outside outside) (by decide) (by decide) by'
  rw [conEnterCs_pg, add_comm] at switched
  refine (leave_outside switched (by split_ifs <;> decide)).trans ?_
  simp [ClearBytes]

theorem conStputc_depth (inside : Depth s depth sti) (deep : 0 < depth)
    (less : depth + 1 < 0x10000) (ch : Int) : Depth (s.conStputc ch) depth sti := by
  unfold conStputc
  split_ifs
  · exact inside
  · have entered := enter_depth inside deep (by omega)
    refine leave_depth ?_ deep (by omega)
    exact entered.same rfl rfl rfl

theorem conStatus_depth (text : List Int) (inside : Depth s depth sti) (deep : 0 < depth)
    (less : depth + 1 < 0x10000) : Depth (text.foldl conStputc s) depth sti := by
  induction text generalizing s with
  | nil => exact inside
  | cons ch text ih => exact ih (conStputc_depth inside deep less ch)

theorem conClrscr_restores (outside : s.csReenter = 0) :
    s.conClrscr.csReenter = 0 ∧ s.conClrscr.interrupts = s.interrupts := by
  let clear := fun t : Screen => ((
    if t.page = 0 then
      Screen.fill { space with attr := 0x1f } scrX (scrCells - scrX : Nat)
        (Screen.fill space (scrCells - scrX) 0 t)
    else Screen.fill space scrCells 0 t).setPg ⟨0, 0⟩).conCursync
  refine between_restores outside clear fun entered => ?_
  refine (Depth.setPg ?_).conCursync
  split_ifs
  · exact entered.fill.fill
  · exact entered.fill

theorem conClreol_restores (outside : s.csReenter = 0) :
    s.conClreol.csReenter = 0 ∧ s.conClreol.interrupts = s.interrupts :=
  between_restores outside (fun t => Screen.fill space (scrX - t.pg.cursX).toNat
    (t.pg.cursY * scrX + t.pg.cursX) t) Depth.fill

/-- A call restores the counter and the interrupt flag exactly if it does not output a
backspace in the first column. -/
theorem restores_iff (outside : s.csReenter = 0) (next : ConCall) :
    Restores s next ↔ Clear s next := by
  cases next with
  | conChar by' => exact conChar_restores outside by'
  | conWrite unit buf =>
      change ((s.conWrite unit buf.val).2.csReenter = 0 ∧
        (s.conWrite unit buf.val).2.interrupts = s.interrupts) ↔ (unit = 0 → _)
      unfold conWrite
      by_cases console : unit = 0
      · rw [if_neg (not_not.mpr console)]
        simpa only [console, true_implies] using buffer_restores outside buf.val buf.property
      · simp [console, outside]
  | conGotoxy x y =>
      refine iff_of_true ?_ trivial
      exact between_restores outside
        (fun t => (t.setPg { cursX := clamp x scrX, cursY := clamp y t.maxy }).conCursync)
        fun entered => entered.setPg.conCursync
  | conClrscr => exact iff_of_true (conClrscr_restores outside) trivial
  | conClreol => exact iff_of_true (conClreol_restores outside) trivial
  | conSetpage newpage =>
      refine iff_of_true ?_ trivial
      change (s.conSetpage newpage).csReenter = 0 ∧ (s.conSetpage newpage).interrupts = s.interrupts
      unfold conSetpage
      split_ifs <;> exact ⟨outside, rfl⟩
  | conStatus col text =>
      refine iff_of_true ?_ trivial
      refine between_restores outside
        (fun t => text.foldl conStputc { t with conStcol := col }) fun entered => ?_
      exact conStatus_depth text (entered.same rfl rfl rfl) (by decide) (by decide)

/-! ## Runs -/

/-- All calls of a run restore the counter and the interrupt flag exactly if no backspace is
output in the first column. -/
theorem console_restores (outside : s.csReenter = 0) (calls : List ConCall) :
    EachCall Restores s calls ↔ EachCall Clear s calls := by
  induction calls generalizing s with
  | nil => exact Iff.rfl
  | cons next calls ih =>
      refine (and_congr_right fun restores => ih restores.1).trans ?_
      exact and_congr_left fun _ => restores_iff outside next

/-- A screen with interrupts enabled. -/
def dark : Screen := initial (fun _ => space) (fun _ => 0) true

/-- A word with its last character deleted, on another page. -/
theorem console_restores_word :
    EachCall Restores dark [.conSetpage 1, .conWrite 0 ⟨[104, 105, BS], by decide⟩] :=
  (console_restores rfl _).mpr ⟨trivial, fun _ => ⟨by decide, by decide, by decide, trivial⟩, trivial⟩

/-- A backspace at the beginning leaves interrupts disabled. -/
theorem console_backspace : dark.csReenter = 0 ∧ ¬EachCall Restores dark [.conChar BS] ∧
    (dark.conChar BS).csReenter = 1 ∧ (dark.conChar BS).interrupts = false := by
  refine ⟨rfl, fun restores => ?_, rfl, rfl⟩
  exact absurd (restores.1.1 : (dark.conChar BS).csReenter = 0) (by decide)

end Screen

end Pegasos.Kernel.Console
