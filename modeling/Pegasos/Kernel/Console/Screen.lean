import Mathlib.Data.UInt
import Mathlib.Logic.Function.Basic
import Mathlib.Tactic.Common
import Pegasos.Support.CInt

/-!
# The screen of the console

The functions of `SCREEN.C`: characters are stored in the memory of the screen from
`b800:0000` on, where the four pages lie behind each other, and the cursor of every page is
moved.  The functions run with interrupts disabled; nested ones count how deep they are.
-/

namespace Pegasos.Kernel.Console

open Pegasos.Support
open Function (update)

/-- `concell_t`. -/
structure ConCell where
  data : UInt8
  attr : UInt8
  deriving DecidableEq, Repr

/-- `con_page_t`. -/
structure ConPage where
  cursX : Int
  cursY : Int
  deriving DecidableEq, Repr

abbrev PAGES : Nat := 4
abbrev scrX : Nat := 80
abbrev scrY : Nat := 25
abbrev scrCells : Nat := 80 * 25

def defattr : UInt8 := 0x0a

/-- A blank in the default colours. -/
def space : ConCell := { data := 32, attr := defattr }

def CRT_IDX_START_H : Nat := 12
def CRT_IDX_START_L : Nat := 13
def CRT_IDX_CURSOR_H : Nat := 14
def CRT_IDX_CURSOR_L : Nat := 15

def ENODEV : Int := 19

/-- The static variables, the memory and the registers of the screen, and the interrupt
flag.  `scrram` is the number of the cell to which the pointer of that name points.
`stored` are the cells that have been stored to, the last one first. -/
structure Screen where
  page : Fin PAGES
  pages : Fin PAGES → ConPage
  ram : Nat → ConCell
  scrram : Nat
  conStcol : Int
  crtc : Nat → UInt8
  csSti : Bool
  csReenter : Int
  interrupts : Bool
  stored : List Nat

namespace Screen

variable (s : Screen)

/-- The static variables as they are at the beginning. -/
def initial (ram : Nat → ConCell) (crtc : Nat → UInt8) (interrupts : Bool) : Screen where
  page := 0
  pages _ := ⟨0, 0⟩
  ram := ram
  scrram := 0
  conStcol := 0
  crtc := crtc
  csSti := false
  csReenter := 0
  interrupts := interrupts
  stored := []

/-- The rows of a page that the cursor may be in. -/
def rows (page : Fin PAGES) : Int := if page = 0 then scrY - 1 else scrY

/-- `MAXY`. -/
def maxy : Int := rows s.page

/-- `pages[page]`. -/
def pg : ConPage := s.pages s.page

def setPg (pg : ConPage) : Screen := { s with pages := update s.pages s.page pg }

/-- A store through a pointer at a distance from `b800:0000`, in a segment of 64 KiB. -/
def storeAt (offs : Int) (edit : ConCell → ConCell) : Screen :=
  let i := (offs % 0x8000).toNat
  { s with ram := update s.ram i (edit (s.ram i)), stored := i :: s.stored }

/-- `scrram[i] = cell`. -/
def store (i : Int) (cell : ConCell) : Screen := s.storeAt (s.scrram + i) fun _ => cell

/-- The loops that store a cell at `p++`. -/
def fill (cell : ConCell) : Nat → Int → Screen → Screen
  | 0, _, s => s
  | count + 1, i, s => fill cell count (i + 1) (s.store i cell)

/-- `_fmemmove` of so many cells to `scrram` from the row below. -/
def moveUp (count : Nat) : Screen :=
  { s with
    ram := fun i =>
      if s.scrram ≤ i ∧ i < s.scrram + count then s.ram (i + scrX) else s.ram i
    stored := (List.range count).map (s.scrram + ·) ++ s.stored }

/-- `con_enter_cs`. -/
def conEnterCs : Screen :=
  { s with
    interrupts := false
    csReenter := int16 (s.csReenter + 1)
    csSti := if s.csReenter = 0 then s.interrupts else s.csSti }

/-- `con_leave_cs`. -/
def conLeaveCs : Screen :=
  { s with
    csReenter := int16 (s.csReenter - 1)
    interrupts := if int16 (s.csReenter - 1) = 0 then s.csSti else s.interrupts }

/-- The two bytes of a word in registers of the screen. -/
def outWord (high low : Nat) (value : Int) : Screen :=
  { s with
    crtc := update (update s.crtc high (UInt8.ofNat (value % 0x10000 / 0x100).toNat)) low
      (UInt8.ofNat (value % 0x100).toNat) }

/-- `con_cursync`, which restores the interrupt flag. -/
def conCursync : Screen :=
  let sti := s.interrupts
  let s := { s with interrupts := false }
  let s := s.outWord CRT_IDX_CURSOR_H CRT_IDX_CURSOR_L
    (s.page.val * scrCells + s.pg.cursY * scrX + s.pg.cursX)
  { s with interrupts := sti }

/-- `con_clrscr`. -/
def conClrscr : Screen :=
  let s := s.conEnterCs
  let s :=
    if s.page = 0 then
      fill { space with attr := 0x1f } scrX (scrCells - scrX : Nat)
        (fill space (scrCells - scrX) 0 s)
    else fill space scrCells 0 s
  (s.setPg ⟨0, 0⟩).conCursync.conLeaveCs

/-- `con_clreol`. -/
def conClreol : Screen :=
  let s := s.conEnterCs
  (fill space (scrX - s.pg.cursX).toNat (s.pg.cursY * scrX + s.pg.cursX) s).conLeaveCs

/-- `con_stputc`. -/
def conStputc (ch : Int) : Screen :=
  if ch < 32 ∨ 126 < ch ∨ scrX ≤ s.conStcol then s
  else
    let s := s.conEnterCs
    let s := s.storeAt ((scrCells - scrX : Nat) + s.conStcol) fun cell =>
      { cell with data := UInt8.ofNat ch.toNat }
    { s with conStcol := int16 (s.conStcol + 1) }.conLeaveCs

/-- `con_status`, with the characters that `vprintf` hands to `con_stputc`. -/
def conStatus (col : Int) (text : List Int) : Screen :=
  let s := s.conEnterCs
  (text.foldl conStputc { s with conStcol := col }).conLeaveCs

/-- `con_scroll`. -/
def conScroll : Screen :=
  let lastrow := s.maxy - 1
  let s := s.conEnterCs
  let s := s.moveUp (lastrow * scrX).toNat
  let s := s.setPg { s.pg with cursY := int16 (s.pg.cursY - 1) }
  (fill space scrX (lastrow * scrX) s).conCursync.conLeaveCs

/-- `++pg->curs_y`, with a scroll at the end of the page. -/
def lineDown : Screen :=
  let y := int16 (s.pg.cursY + 1)
  let s := s.setPg { s.pg with cursY := y }
  if y = s.maxy then s.conScroll else s

/-- `con_right`. -/
def conRight : Screen :=
  let s := s.conEnterCs
  let x := int16 (s.pg.cursX + 1)
  let s :=
    if x = scrX then (s.setPg { s.pg with cursX := 0 }).lineDown
    else s.setPg { s.pg with cursX := x }
  s.conCursync.conLeaveCs

/-- `con_left`.  In the first column it returns without `con_leave_cs`. -/
def conLeft : Screen :=
  let s := s.conEnterCs
  if s.pg.cursX = 0 then
    if s.pg.cursY = 0 then s
    else s.setPg { cursX := scrX - 1, cursY := int16 (s.pg.cursY - 1) }
  else (s.setPg { s.pg with cursX := int16 (s.pg.cursX - 1) }).conCursync.conLeaveCs

/-- A coordinate that is moved into its range. -/
def clamp (value max : Int) : Int := if value < 0 then 0 else if max ≤ value then max - 1 else value

/-- `con_gotoxy`. -/
def conGotoxy (x y : Int) : Screen :=
  let s := s.conEnterCs
  (s.setPg { cursX := clamp x scrX, cursY := clamp y s.maxy }).conCursync.conLeaveCs

def CR : UInt8 := 13
def LF : UInt8 := 10
def BS : UInt8 := 8

/-- The switch of `con_char`. -/
def switchChar (by' : UInt8) : Screen :=
  if by' = CR then s.setPg { s.pg with cursX := 0 }
  else if by' = LF then s.lineDown
  else if by' = BS then s.conLeft
  else (s.store (s.pg.cursY * scrX + s.pg.cursX) { data := by', attr := defattr }).conRight

/-- `con_char`. -/
def conChar (by' : UInt8) : Screen := (s.conEnterCs.switchChar by').conLeaveCs

/-- `con_setpage`, which restores the interrupt flag. -/
def conSetpage (newpage : Int) : Screen :=
  if inside : 0 ≤ newpage ∧ newpage.toNat < PAGES then
    let sti := s.interrupts
    let s := { s with interrupts := false, page := ⟨newpage.toNat, inside.2⟩ }
    let base := s.page.val * scrCells
    let s := (s.outWord CRT_IDX_START_H CRT_IDX_START_L base).conCursync
    { s with scrram := base, interrupts := sti }
  else s

/-- `con_write`. -/
def conWrite (unit : Int) (buf : List UInt8) : Int × Screen :=
  if unit ≠ 0 then (-ENODEV, s) else (0, (buf.foldl conChar s.conEnterCs).conLeaveCs)

end Screen

/-- The bytes that `con_write` is given, whose number is an `int`. -/
abbrev Buffer : Type := { bytes : List UInt8 // bytes.length < 0x8000 }

/-- The calls of the console. -/
inductive ConCall where
  | conChar (by' : UInt8)
  | conWrite (unit : Int) (buf : Buffer)
  | conGotoxy (x y : Int)
  | conClrscr
  | conClreol
  | conSetpage (newpage : Int)
  | conStatus (col : Int) (text : List Int)
  deriving DecidableEq

namespace Screen

def call (s : Screen) : ConCall → Screen
  | .conChar by' => s.conChar by'
  | .conWrite unit buf => (s.conWrite unit buf.val).2
  | .conGotoxy x y => s.conGotoxy x y
  | .conClrscr => s.conClrscr
  | .conClreol => s.conClreol
  | .conSetpage newpage => s.conSetpage newpage
  | .conStatus col text => s.conStatus col text

/-- The state after a list of calls. -/
def run (s : Screen) (calls : List ConCall) : Screen := calls.foldl call s

end Screen

/-! ## The cursor -/

namespace ConPage

variable (pg : ConPage) (max : Int)

/-- The cursor in the next row, or in the last one of the page. -/
def down : ConPage :=
  { pg with cursY := if int16 (pg.cursY + 1) = max then int16 (max - 1) else int16 (pg.cursY + 1) }

/-- The cursor behind a character. -/
def right : ConPage :=
  if int16 (pg.cursX + 1) = scrX then { pg with cursX := 0 }.down max
  else { pg with cursX := int16 (pg.cursX + 1) }

/-- The cursor in front of a character. -/
def left : ConPage :=
  if pg.cursX = 0 then
    if pg.cursY = 0 then pg else { cursX := scrX - 1, cursY := int16 (pg.cursY - 1) }
  else { pg with cursX := int16 (pg.cursX - 1) }

/-- The cursor behind any byte. -/
def typed (by' : UInt8) : ConPage :=
  if by' = Screen.CR then { pg with cursX := 0 }
  else if by' = Screen.LF then pg.down max
  else if by' = Screen.BS then pg.left
  else pg.right max

end ConPage

namespace Screen

/-- The cursor of the current page has been moved, and no other. -/
structure Moved (before after : Screen) (pg : ConPage) : Prop where
  page : after.page = before.page
  pages : after.pages = update before.pages before.page pg
  scrram : after.scrram = before.scrram

variable {s t : Screen} {pg next : ConPage} {cell : ConCell} {count : Nat} {i : Int}
  {by' : UInt8}

namespace Moved

theorem pg_eq (moved : Moved s t pg) : t.pg = pg := by
  rw [Screen.pg, moved.pages, moved.page, Function.update_self]

theorem maxy_eq (moved : Moved s t pg) : t.maxy = s.maxy := by rw [maxy, moved.page, maxy]

theorem setPg (moved : Moved s t pg) : Moved s (t.setPg next) next where
  page := moved.page
  pages := by
    change update t.pages t.page next = _
    rw [moved.pages, moved.page, Function.update_idem]
  scrram := moved.scrram

/-- What the functions do besides moving the cursor. -/
theorem leave (moved : Moved s t pg) : Moved s t.conCursync.conLeaveCs pg :=
  ⟨moved.page, moved.pages, moved.scrram⟩

end Moved

/-- What a store does not change, the loops do not change either. -/
theorem fill_look {Look : Type} {look : Screen → Look}
    (same : ∀ s i, look (store s i cell) = look s) : look (fill cell count i s) = look s := by
  induction count generalizing i s with
  | zero => rfl
  | succ count ih => exact (ih).trans (same s i)

theorem Moved.fill (moved : Moved s t pg) : Moved s (Screen.fill cell count i t) pg where
  page := (fill_look fun _ _ => rfl).trans moved.page
  pages := (fill_look fun _ _ => rfl).trans moved.pages
  scrram := (fill_look fun _ _ => rfl).trans moved.scrram

theorem enter_moved (s : Screen) : Moved s s.conEnterCs s.pg :=
  ⟨rfl, (Function.update_eq_self _ _).symm, rfl⟩

@[simp] theorem conEnterCs_pg : s.conEnterCs.pg = s.pg := rfl

@[simp] theorem conEnterCs_maxy : s.conEnterCs.maxy = s.maxy := rfl

@[simp] theorem setPg_pg : (s.setPg pg).pg = pg := Function.update_self ..

@[simp] theorem setPg_maxy : (s.setPg pg).maxy = s.maxy := rfl

/-- The rows as `con_scroll` has moved them up, with the cursor in the last one. -/
def scrolled (s : Screen) : Screen :=
  (s.conEnterCs.moveUp ((s.maxy - 1) * scrX).toNat).setPg
    { s.pg with cursY := int16 (s.pg.cursY - 1) }

theorem conScroll_eq (s : Screen) : s.conScroll =
    (Screen.fill space scrX ((s.maxy - 1) * scrX) s.scrolled).conCursync.conLeaveCs := rfl

theorem Moved.conScroll (moved : Moved s t pg) :
    Moved s t.conScroll { pg with cursY := int16 (pg.cursY - 1) } := by
  have up : Moved s (t.conEnterCs.moveUp ((t.maxy - 1) * scrX).toNat) pg :=
    ⟨moved.page, moved.pages, moved.scrram⟩
  rw [conScroll_eq, scrolled, moved.pg_eq]
  exact up.setPg.fill.leave

theorem Moved.lineDown (moved : Moved s t pg) : Moved s t.lineDown (pg.down s.maxy) := by
  rw [← moved.maxy_eq, ← moved.pg_eq]
  have below : Moved s (t.setPg { t.pg with cursY := int16 (t.pg.cursY + 1) })
      { t.pg with cursY := int16 (t.pg.cursY + 1) } := moved.setPg
  unfold Screen.lineDown ConPage.down
  by_cases last : int16 (t.pg.cursY + 1) = t.maxy
  · simpa only [setPg_maxy, last, if_pos] using below.conScroll
  · simpa only [setPg_maxy, last, if_false] using below

theorem Moved.conRight (moved : Moved s t pg) : Moved s t.conRight (pg.right s.maxy) := by
  rw [← moved.pg_eq]
  have entered : Moved s t.conEnterCs t.pg := ⟨moved.page, moved.pg_eq ▸ moved.pages, moved.scrram⟩
  unfold Screen.conRight ConPage.right
  by_cases wraps : int16 (t.pg.cursX + 1) = scrX
  · simp only [conEnterCs_pg, wraps, if_true]
    exact entered.setPg.lineDown.leave
  · simp only [conEnterCs_pg, wraps, if_false]
    exact entered.setPg.leave

theorem conLeft_moved (s : Screen) : Moved s s.conLeft s.pg.left := by
  unfold conLeft ConPage.left
  by_cases first : s.pg.cursX = 0
  · by_cases top : s.pg.cursY = 0
    · simpa only [conEnterCs_pg, first, top, if_true] using enter_moved s
    · simpa only [conEnterCs_pg, first, top, if_true, if_false] using (enter_moved s).setPg
  · simpa only [conEnterCs_pg, first, if_false] using (enter_moved s).setPg.leave

theorem switchChar_moved (s : Screen) (by' : UInt8) :
    Moved s (s.switchChar by') (s.pg.typed s.maxy by') := by
  have same : Moved s s s.pg := ⟨rfl, (Function.update_eq_self _ _).symm, rfl⟩
  unfold switchChar ConPage.typed
  split_ifs
  · exact same.setPg
  · exact same.lineDown
  · exact conLeft_moved s
  · have stored : Moved s (s.store (s.pg.cursY * scrX + s.pg.cursX) ⟨by', defattr⟩) s.pg :=
      ⟨rfl, same.pages, rfl⟩
    exact stored.conRight

/-- A character moves the cursor of the current page. -/
theorem conChar_moved (s : Screen) (by' : UInt8) :
    Moved s (s.conChar by') (s.pg.typed s.maxy by') := by
  obtain ⟨page, pages, scrram⟩ := switchChar_moved s.conEnterCs by'
  exact ⟨page, pages, scrram⟩

end Screen

end Pegasos.Kernel.Console
