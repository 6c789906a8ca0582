import Pegasos.Kernel.Console.ScreenBounds

/-!
# The screen as a terminal

What the console is for: four pages of text with rows and columns, each with a cursor, and
a row for the status below the first page.  The functions of `SCREEN.C`, which store to
cells of one memory by their offsets, show such a terminal in every run.
-/

namespace Pegasos.Kernel.Console

open Pegasos.Support
open Function (update)

/-! ## A terminal -/

/-- A page: what is in its rows and columns, and where the cursor is. -/
structure Pane where
  text : Nat → Nat → ConCell
  x : Nat
  y : Nat

namespace Pane

variable (pane : Pane) (height : Nat)

/-- A cell in place of that at the cursor. -/
def put (cell : ConCell) : Pane :=
  { pane with
    text := fun row col => if row = pane.y ∧ col = pane.x then cell else pane.text row col }

/-- The rows move up, and the last one is blank. -/
def scroll : Pane :=
  { pane with text := fun row => if row + 1 < height then pane.text (row + 1) else fun _ => space }

def down : Pane :=
  if pane.y + 1 = height then pane.scroll height else { pane with y := pane.y + 1 }

def right : Pane :=
  if pane.x + 1 = scrX then { pane with x := 0 }.down height else { pane with x := pane.x + 1 }

def left : Pane :=
  if pane.x = 0 then
    if pane.y = 0 then pane else { pane with x := scrX - 1, y := pane.y - 1 }
  else { pane with x := pane.x - 1 }

/-- A byte is typed. -/
def key (by' : UInt8) : Pane :=
  if by' = Screen.CR then { pane with x := 0 }
  else if by' = Screen.LF then pane.down height
  else if by' = Screen.BS then pane.left
  else (pane.put { data := by', attr := defattr }).right height

/-- The cursor is on a page of so many rows. -/
structure On : Prop where
  column : pane.x < scrX
  row : pane.y < height

/-- Everything is blank, with the cursor in the corner. -/
def blank : Pane := ⟨fun _ _ => space, 0, 0⟩

/-- The row of the cursor is blank from the cursor on. -/
def clearLine : Pane :=
  { pane with
    text := fun row col => if row = pane.y ∧ pane.x ≤ col then space else pane.text row col }

/-- The cursor moves to a place, or to the nearest one on the page. -/
def goto (x y : Int) : Pane :=
  { pane with x := (min x (scrX - 1)).toNat, y := (min y (height - 1)).toNat }

namespace On

variable {pane : Pane} {height : Nat}

theorem down (on : pane.On height) : (pane.down height).On height := by
  have row := on.row
  unfold Pane.down
  split_ifs
  · exact ⟨on.column, row⟩
  · exact ⟨on.column, by simp only; omega⟩

theorem right (on : pane.On height) : (pane.right height).On height := by
  have column := on.column
  unfold Pane.right
  split_ifs
  · exact (On.mk (Nat.zero_lt_succ 79) on.row : { pane with x := 0 }.On height).down
  · exact ⟨by simp only [scrX] at *; omega, on.row⟩

theorem left (on : pane.On height) : pane.left.On height := by
  have column := on.column
  have row := on.row
  unfold Pane.left
  split_ifs
  · exact on
  · exact ⟨Nat.lt_succ_self 79, by simp only; omega⟩
  · exact ⟨by simp only; omega, row⟩

theorem key (on : pane.On height) (by' : UInt8) : (pane.key height by').On height := by
  unfold Pane.key
  split_ifs
  · exact ⟨Nat.zero_lt_succ 79, on.row⟩
  · exact on.down
  · exact on.left
  · exact (On.mk on.column on.row : (pane.put _).On height).right

end On

end Pane

/-- The pages, the current one, and the row of the status. -/
structure Terminal where
  current : Fin PAGES
  panes : Fin PAGES → Pane
  status : Nat → ConCell

namespace Terminal

variable (t : Terminal)

/-- The first page is one row shorter. -/
def height (page : Fin PAGES) : Nat := if page.val = 0 then scrY - 1 else scrY

/-- The current page changes. -/
def edit (change : Pane → Nat → Pane) : Terminal :=
  { t with panes := update t.panes t.current (change (t.panes t.current) (height t.current)) }

def type (by' : UInt8) : Terminal := t.edit fun pane height => pane.key height by'

/-- Clearing the first page clears the status. -/
def clear : Terminal :=
  { t.edit fun _ _ => .blank with
    status := if t.current.val = 0 then fun _ => { space with attr := 0x1f } else t.status }

/-- A printable character replaces that of the status in a column, as long as there is one. -/
def putStatus : List Int → Nat → (Nat → ConCell) → Nat → ConCell
  | [], _, status => status
  | ch :: text, col, status =>
      if ch < 32 ∨ 126 < ch ∨ scrX ≤ col then putStatus text col status
      else
        putStatus text (col + 1)
          (update status col { status col with data := UInt8.ofNat ch.toNat })

def call : ConCall → Terminal
  | .conChar by' => t.type by'
  | .conWrite unit buf => if unit ≠ 0 then t else buf.val.foldl type t
  | .conGotoxy x y => t.edit fun pane height => pane.goto height x y
  | .conClrscr => t.clear
  | .conClreol => t.edit fun pane _ => pane.clearLine
  | .conSetpage newpage =>
      if inside : newpage.toNat < PAGES ∧ 0 ≤ newpage then
        { t with current := ⟨newpage.toNat, inside.1⟩ }
      else t
  | .conStatus col text => { t with status := putStatus text col.toNat t.status }

/-- The terminal after a list of calls. -/
def run (calls : List ConCall) : Terminal := calls.foldl call t

theorem first_page : 0 < PAGES := by decide

/-- What is in the memory of the screen when the console starts. -/
def initial (ram : Nat → ConCell) : Terminal where
  current := ⟨0, first_page⟩
  panes page := ⟨fun row col => ram (page.val * scrCells + row * scrX + col), 0, 0⟩
  status col := ram (24 * scrX + col)

end Terminal

/-! ## The screen shows a terminal -/

namespace Screen

/-- The memory has a text in the rows of a page. -/
def TextIs (page : Fin PAGES) (s : Screen) (pane : Pane) : Prop :=
  ∀ row col, row < Terminal.height page → col < scrX →
    s.ram (page.val * scrCells + row * scrX + col) = pane.text row col

/-- The memory has a row of the status. -/
def BottomIs (s : Screen) (status : Nat → ConCell) : Prop :=
  ∀ col < scrX, s.ram (24 * scrX + col) = status col

/-- The memory has the text of the terminal in its rows, and the cursors are where they are
there. -/
structure Shows (s : Screen) (t : Terminal) : Prop where
  current : s.page = t.current
  base : s.scrram = s.page * scrCells
  cursor : ∀ page, s.pages page = ⟨(t.panes page).x, (t.panes page).y⟩
  on : ∀ page, (t.panes page).On (Terminal.height page)
  text : ∀ page, TextIs page s (t.panes page)
  bottom : BottomIs s t.status

/-- The condition on a call: the status begins in a column. -/
def StatusFits : ConCall → Prop
  | .conStatus col _ => 0 ≤ col
  | _ => True

variable {s s' : Screen} {t : Terminal} {pane : Pane} {cell : ConCell} {count : Nat} {i : Int}
  {status : Nat → ConCell} {height : Nat}

theorem height_range (page : Fin PAGES) :
    24 ≤ Terminal.height page ∧ Terminal.height page ≤ 25 := by
  unfold Terminal.height
  split_ifs <;> decide

theorem rows_eq (page : Fin PAGES) : rows page = Terminal.height page := by
  unfold rows Terminal.height
  simp only [Fin.val_eq_zero_iff]
  split_ifs <;> rfl

/-- The row of the status is not in the text of a page. -/
theorem text_apart {page : Fin PAGES} {row col last : Nat} (inRow : row < Terminal.height page)
    (inCol : col < scrX) (inLast : last < scrX) :
    page.val * scrCells + row * scrX + col ≠ 24 * scrX + last := by
  simp only [scrX, scrCells] at inCol inLast ⊢
  by_cases first : page.val = 0
  · have size : Terminal.height page = 24 := if_pos first
    omega
  · omega

/-- What is shown depends on the page, the cursors and the memory. -/
theorem Shows.same (shows : Shows s t) (page : s'.page = s.page) (pages : s'.pages = s.pages)
    (scrram : s'.scrram = s.scrram) (ram : s'.ram = s.ram) : Shows s' t where
  current := page.trans shows.current
  base := by rw [scrram, page, shows.base]
  cursor := by rw [pages]; exact shows.cursor
  on := shows.on
  text := by unfold TextIs; rw [ram]; exact shows.text
  bottom := by rw [BottomIs, ram]; exact shows.bottom

theorem Shows.pg (shows : Shows s t) :
    s.pg = ⟨(t.panes t.current).x, (t.panes t.current).y⟩ := by
  rw [Screen.pg, shows.cursor, shows.current]

theorem Shows.maxy (shows : Shows s t) : s.maxy = Terminal.height t.current := by
  rw [Screen.maxy, rows_eq, shows.current]

/-- The current page is edited. -/
theorem Shows.edited (shows : Shows s t) (moved : Moved s s' ⟨pane.x, pane.y⟩)
    (on : pane.On (Terminal.height t.current)) (writes : Writes (pageCells s.page) s s')
    (text : TextIs t.current s' pane) (bottom : BottomIs s' status) :
    Shows s' { t with panes := update t.panes t.current pane, status := status } where
  current := moved.page.trans shows.current
  base := by rw [moved.scrram, moved.page, shows.base]
  cursor page := by
    rw [moved.pages, shows.current]
    by_cases current : page = t.current
    · subst current
      simp
    · simp [Function.update_of_ne current, shows.cursor]
  on := (Function.forall_update_iff t.panes fun page pane => pane.On (Terminal.height page)).mpr
    ⟨on, fun page _ => shows.on page⟩
  text := by
    refine (Function.forall_update_iff t.panes fun page pane => TextIs page s' pane).mpr
      ⟨text, fun page other => ?_⟩
    obtain ⟨cells, -, inside, kept⟩ := writes
    intro row col inRow inCol
    rw [← shows.text page row col inRow inCol]
    refine kept _ fun member => ?_
    have apart : page.val ≠ t.current.val := fun same => other (Fin.ext same)
    have size := height_range page
    have inPage := inside _ member
    rw [pageCells, shows.current, Set.mem_ofPred_eq] at inPage
    simp only [scrX, scrCells] at inCol inPage
    omega
  bottom := bottom

/-- Stores to the text leave the row of the status as it is. -/
theorem Shows.bottom_kept (shows : Shows s t) (writes : Writes (textCells s.page) s s') :
    BottomIs s' t.status := by
  intro col inCol
  obtain ⟨cells, -, inside, kept⟩ := writes
  rw [← shows.bottom col inCol]
  refine kept _ fun member => ?_
  have outside := textCells_status (i := ((24 * scrX + col : Nat) : Int)) (inside _ member)
  refine outside ?_
  rw [Int.toNat_natCast, statusRow, Set.mem_ofPred_eq]
  simp only [scrX, scrCells] at inCol ⊢
  omega

/-! ## Stores -/

theorem fill_ram (low : 0 ≤ (s.scrram : Int) + i) (high : s.scrram + i + count ≤ 0x8000) (j : Nat) :
    (fill cell count i s).ram j =
      if s.scrram + i ≤ j ∧ (j : Int) < s.scrram + i + count then cell else s.ram j := by
  induction count generalizing i s with
  | zero => rw [fill, if_neg (by omega)]
  | succ count ih =>
      have place : ((s.scrram : Int) + i) % 0x8000 = s.scrram + i :=
        Int.emod_eq_of_lt low (by omega)
      have kept : (s.store i cell).scrram = s.scrram := rfl
      rw [fill, ih (by rw [kept]; omega) (by rw [kept]; push_cast at high; omega), kept]
      have ram : (s.store i cell).ram j = if (s.scrram : Int) + i = j then cell else s.ram j := by
        change update s.ram _ cell j = _
        rw [place, Function.update_apply]
        split_ifs <;> first | rfl | omega
      rw [ram]
      push_cast
      split_ifs <;> first | rfl | omega

/-- What a scroll leaves in the rows of the page. -/
theorem conScroll_ram (base : s.scrram = s.page * scrCells) {row col : Nat}
    (inRow : row < Terminal.height s.page) (inCol : col < scrX) :
    s.conScroll.ram (s.page.val * scrCells + row * scrX + col) =
      if row + 1 < Terminal.height s.page then
        s.ram (s.page.val * scrCells + (row + 1) * scrX + col)
      else space := by
  have size := height_range s.page
  have place := s.page.isLt
  have maxy : s.maxy = Terminal.height s.page := rows_eq s.page
  have up (j : Nat) : s.scrolled.ram j =
      if s.scrram ≤ j ∧ j < s.scrram + ((s.maxy - 1) * scrX).toNat then s.ram (j + scrX)
      else s.ram j := rfl
  have scrram : s.scrolled.scrram = s.scrram := rfl
  have filled : ∀ j, s.conScroll.ram j = (fill space scrX ((s.maxy - 1) * scrX) s.scrolled).ram j :=
    fun j => by rw [conScroll_eq]; rfl
  rw [maxy] at filled up
  simp only [PAGES, scrX, scrCells] at place inCol base filled up ⊢
  rw [filled, fill_ram (by rw [scrram]; omega) (by rw [scrram]; omega), up, scrram, base]
  by_cases last : row + 1 < Terminal.height s.page
  · rw [if_neg (by omega), if_pos (by omega), if_pos last]
    exact congrArg s.ram (by omega)
  · rw [if_pos (by omega), if_neg last]

/-! ## Moves of the cursor and characters -/

theorem down_cursor (pane : Pane) (low : pane.y < height) (high : height ≤ 25) :
    (⟨(pane.down height).x, (pane.down height).y⟩ : ConPage) =
      (⟨pane.x, pane.y⟩ : ConPage).down height := by
  have next : int16 ((pane.y : Int) + 1) = pane.y + 1 := int16_eq (by omega) (by omega)
  have last : int16 ((height : Int) - 1) = height - 1 := int16_eq (by omega) (by omega)
  unfold Pane.down ConPage.down
  simp only [next, last]
  by_cases scrolls : pane.y + 1 = height
  · rw [if_pos scrolls, if_pos (by omega)]
    simp only [Pane.scroll, ConPage.mk.injEq, true_and]
    omega
  · rw [if_neg scrolls, if_neg (by omega)]
    simp

theorem right_cursor (pane : Pane) (column : pane.x < scrX) (low : pane.y < height)
    (high : height ≤ 25) :
    (⟨(pane.right height).x, (pane.right height).y⟩ : ConPage) =
      (⟨pane.x, pane.y⟩ : ConPage).right height := by
  have next : int16 ((pane.x : Int) + 1) = pane.x + 1 := by
    simp only [scrX] at column
    exact int16_eq (by omega) (by omega)
  unfold Pane.right ConPage.right
  simp only [next]
  by_cases wraps : pane.x + 1 = scrX
  · rw [if_pos wraps, if_pos (by exact_mod_cast wraps)]
    exact down_cursor { pane with x := 0 } low high
  · rw [if_neg wraps, if_neg (by exact_mod_cast wraps)]
    simp

theorem left_cursor (column : pane.x < scrX) (row : pane.y < 25) :
    (⟨pane.left.x, pane.left.y⟩ : ConPage) = (⟨pane.x, pane.y⟩ : ConPage).left := by
  simp only [scrX] at column
  have before : int16 ((pane.x : Int) - 1) = pane.x - 1 := int16_eq (by omega) (by omega)
  have above : int16 ((pane.y : Int) - 1) = pane.y - 1 := int16_eq (by omega) (by omega)
  unfold Pane.left ConPage.left
  simp only [before, above, Int.natCast_eq_zero]
  split_ifs
  · rfl
  · simp only [scrX, ConPage.mk.injEq]
    omega
  · simp only [ConPage.mk.injEq, and_true]
    omega

theorem key_cursor (on : pane.On height) (high : height ≤ 25) (by' : UInt8) :
    (⟨(pane.key height by').x, (pane.key height by').y⟩ : ConPage) =
      (⟨pane.x, pane.y⟩ : ConPage).typed height by' := by
  have low := on.row
  unfold Pane.key ConPage.typed
  split_ifs
  · rfl
  · exact down_cursor pane low high
  · exact left_cursor on.column (by omega)
  · exact right_cursor (pane.put _) on.column low high

/-- The text after the cursor has moved down. -/
theorem lineDown_text (pane : Pane) (base : s.scrram = s.page * scrCells)
    (cursor : s.pg = ⟨pane.x, pane.y⟩) (low : pane.y < Terminal.height s.page)
    (text : TextIs s.page s pane) :
    TextIs s.page s.lineDown (pane.down (Terminal.height s.page)) := by
  have size := height_range s.page
  have maxy : s.maxy = Terminal.height s.page := rows_eq s.page
  have next : int16 ((pane.y : Int) + 1) = pane.y + 1 := int16_eq (by omega) (by omega)
  unfold lineDown Pane.down
  simp only [cursor, next, setPg_maxy, maxy]
  by_cases last : pane.y + 1 = Terminal.height s.page
  · rw [if_pos (by omega), if_pos last]
    intro row col inRow inCol
    have moved : (s.setPg ⟨pane.x, pane.y + 1⟩).conScroll.ram
        (s.page.val * scrCells + row * scrX + col) =
          if row + 1 < Terminal.height s.page then
            s.ram (s.page.val * scrCells + (row + 1) * scrX + col)
          else space := conScroll_ram (s := s.setPg _) base inRow inCol
    rw [moved]
    simp only [Pane.scroll]
    by_cases above : row + 1 < Terminal.height s.page
    · rw [if_pos above, if_pos above]
      exact text (row + 1) col above inCol
    · rw [if_neg above, if_neg above]
  · rw [if_neg (by omega), if_neg last]
    exact text

theorem conRight_text (pane : Pane) (base : s.scrram = s.page * scrCells)
    (cursor : s.pg = ⟨pane.x, pane.y⟩) (on : pane.On (Terminal.height s.page))
    (text : TextIs s.page s pane) :
    TextIs s.page s.conRight (pane.right (Terminal.height s.page)) := by
  have column := on.column
  simp only [scrX] at column
  have next : int16 ((pane.x : Int) + 1) = pane.x + 1 := int16_eq (by omega) (by omega)
  unfold conRight Pane.right
  simp only [conEnterCs_pg, cursor, next, scrX]
  by_cases wraps : pane.x + 1 = 80
  · rw [if_pos (by omega), if_pos wraps]
    exact lineDown_text (s := s.conEnterCs.setPg ⟨0, pane.y⟩) { pane with x := 0 } base
      setPg_pg on.row text
  · rw [if_neg (by omega), if_neg wraps]
    exact text

/-- A cell is stored at the cursor. -/
theorem store_text (base : s.scrram = s.page * scrCells) (cursor : s.pg = ⟨pane.x, pane.y⟩)
    (on : pane.On (Terminal.height s.page)) (text : TextIs s.page s pane) :
    TextIs s.page (s.store (s.pg.cursY * scrX + s.pg.cursX) cell) (pane.put cell) := by
  intro row col inRow inCol
  have column := on.column
  have line := on.row
  have size := height_range s.page
  have place := s.page.isLt
  have index : (((s.scrram : Int) + (s.pg.cursY * scrX + s.pg.cursX)) % 0x8000).toNat =
      s.page.val * scrCells + pane.y * scrX + pane.x := by
    rw [cursor, base]
    simp only [PAGES, scrX, scrCells] at place column ⊢
    omega
  change update s.ram _ cell _ = (pane.put cell).text row col
  rw [index, Function.update_apply]
  simp only [Pane.put]
  by_cases here : row = pane.y ∧ col = pane.x
  · rw [if_pos (by rw [here.1, here.2]), if_pos here]
  · simp only [scrX] at column inCol
    rw [if_neg (by simp only [scrX, scrCells]; omega), if_neg here]
    exact text row col inRow inCol

/-- The text after a byte. -/
theorem conChar_text (base : s.scrram = s.page * scrCells) (cursor : s.pg = ⟨pane.x, pane.y⟩)
    (on : pane.On (Terminal.height s.page)) (text : TextIs s.page s pane) (by' : UInt8) :
    TextIs s.page (s.conChar by') (pane.key (Terminal.height s.page) by') := by
  change TextIs s.page (s.conEnterCs.switchChar by') _
  unfold switchChar Pane.key
  split_ifs
  · exact text
  · exact lineDown_text (s := s.conEnterCs) pane base cursor on.row text
  · unfold conLeft Pane.left
    dsimp only
    split_ifs <;> exact text
  · exact conRight_text (s := s.conEnterCs.store _ _) (pane.put _) base cursor
      ⟨on.column, on.row⟩ (store_text (s := s.conEnterCs) base cursor on text)

/-! ## Calls -/

theorem Shows.bounded (shows : Shows s t) : Bounded s where
  cursor page := by
    have column := (shows.on page).column
    have row := (shows.on page).row
    rw [shows.cursor, rows_eq]
    exact ⟨Int.natCast_nonneg _, Int.ofNat_lt.mpr column, Int.natCast_nonneg _,
      Int.ofNat_lt.mpr row⟩
  base := shows.base

theorem Shows.conChar (shows : Shows s t) (by' : UInt8) : Shows (s.conChar by') (t.type by') := by
  have on := shows.on t.current
  have writes := conChar_writes shows.bounded by'
  have moved := conChar_moved s by'
  have text := conChar_text shows.base shows.pg (shows.current ▸ on)
    (shows.current ▸ shows.text t.current) by'
  rw [shows.pg, shows.maxy, ← key_cursor on (height_range _).2] at moved
  rw [shows.current] at text
  exact shows.edited moved (on.key by') (writes.mono textCells_subset) text
    (shows.bottom_kept writes)

theorem Shows.foldl (shows : Shows s t) (buf : List UInt8) :
    Shows (buf.foldl Screen.conChar s) (buf.foldl Terminal.type t) := by
  induction buf generalizing s t with
  | nil => exact shows
  | cons by' buf ih => exact ih (shows.conChar by')

theorem clamp_eq (value : Int) {max : Nat} (some : 0 < max) :
    clamp value max = ((min value (max - 1)).toNat : Nat) := by
  unfold clamp
  split_ifs <;> omega

theorem Shows.conGotoxy (shows : Shows s t) (x y : Int) :
    Shows (s.conGotoxy x y) (t.edit fun pane height => pane.goto height x y) := by
  have size := height_range t.current
  have place : (⟨clamp x scrX, clamp y s.maxy⟩ : ConPage) =
      ⟨((t.panes t.current).goto (Terminal.height t.current) x y).x,
        ((t.panes t.current).goto (Terminal.height t.current) x y).y⟩ := by
    rw [shows.maxy, clamp_eq x (by decide), clamp_eq y (by omega)]
    rfl
  have moved : Moved s (s.conGotoxy x y) ⟨clamp x scrX, clamp y s.maxy⟩ :=
    (enter_moved s).setPg.leave
  rw [place] at moved
  refine shows.edited moved ⟨?_, ?_⟩ (Writes.none rfl rfl) (shows.text t.current) shows.bottom
  · simp only [Pane.goto, scrX]
    omega
  · simp only [Pane.goto]
    omega

theorem Shows.conClreol (shows : Shows s t) :
    Shows s.conClreol (t.edit fun pane _ => pane.clearLine) := by
  have on := shows.on t.current
  have writes := conClreol_writes shows.bounded
  have moved := conClreol_moved s
  rw [shows.pg] at moved
  have kept : (t.panes t.current).clearLine.On (Terminal.height t.current) :=
    ⟨on.column, on.row⟩
  refine shows.edited moved kept (writes.mono textCells_subset) ?_ (shows.bottom_kept writes)
  intro row col inRow inCol
  have column := on.column
  have line := on.row
  have size := height_range t.current
  have place := t.current.isLt
  have base : s.scrram = t.current * scrCells := by rw [shows.base, shows.current]
  have filled : ∀ j, s.conClreol.ram j = (fill space (scrX - s.pg.cursX).toNat
      (s.pg.cursY * scrX + s.pg.cursX) s.conEnterCs).ram j := fun _ => rfl
  have entered : s.conEnterCs.scrram = s.scrram := rfl
  simp only [PAGES, scrX, scrCells] at place column inCol base filled ⊢
  rw [filled, shows.pg, fill_ram (by rw [entered]; simp only; omega)
    (by rw [entered]; simp only; omega), entered, base]
  simp only [Pane.clearLine]
  by_cases behind : row = (t.panes t.current).y ∧ (t.panes t.current).x ≤ col
  · rw [if_pos (by omega), if_pos behind]
  · rw [if_neg (by omega), if_neg behind]
    exact shows.text t.current row col inRow inCol

/-- What a clear leaves in the page. -/
theorem conClrscr_ram (base : s.scrram = s.page * scrCells) {j : Nat} (inPage : j < scrCells) :
    s.conClrscr.ram (s.page.val * scrCells + j) =
      if s.page.val = 0 ∧ 24 * scrX ≤ j then { space with attr := 0x1f } else space := by
  have place := s.page.isLt
  have entered : s.conEnterCs.scrram = s.scrram := rfl
  have filled : s.conClrscr.ram =
      (if s.page = 0 then
        fill { space with attr := 0x1f } scrX (scrCells - scrX : Nat)
          (fill space (scrCells - scrX) 0 s.conEnterCs)
      else fill space scrCells 0 s.conEnterCs).ram := rfl
  have kept : (fill space (scrCells - scrX) 0 s.conEnterCs).scrram = s.scrram :=
    fill_look fun _ _ => rfl
  simp only [PAGES, scrX, scrCells] at place base inPage filled kept ⊢
  rw [filled]
  by_cases first : s.page.val = 0
  · rw [if_pos (Fin.val_eq_zero_iff.mp first), fill_ram (by rw [kept]; omega) (by rw [kept]; omega),
      fill_ram (by rw [entered]; omega) (by rw [entered]; omega), kept, entered, base, first]
    by_cases last : 24 * 80 ≤ j
    · rw [if_pos (by omega), if_pos ⟨rfl, last⟩]
    · rw [if_neg (by omega), if_pos (by omega), if_neg fun both => last both.2]
  · rw [if_neg fun same => first (Fin.val_eq_zero_iff.mpr same), fill_ram (by rw [entered]; omega) (by rw [entered]; omega), entered, base,
      if_pos (by omega), if_neg fun both => first both.1]

theorem Shows.conClrscr (shows : Shows s t) : Shows s.conClrscr t.clear := by
  have size := height_range t.current
  have ram : ∀ j < scrCells, s.conClrscr.ram (t.current.val * scrCells + j) =
      if t.current.val = 0 ∧ 24 * scrX ≤ j then { space with attr := 0x1f } else space := by
    rw [← shows.current]
    exact fun j => conClrscr_ram shows.base
  obtain ⟨u, same, moved, writes⟩ := conClrscr_clears shows.base
  have home : Moved s s.conClrscr ⟨0, 0⟩ := by
    rw [same]
    exact moved.setPg.leave
  have cleared : Writes (pageCells s.page) s s.conClrscr := by
    rw [same]
    exact Writes.leave writes
  have corner : Pane.blank.On (Terminal.height t.current) :=
    ⟨Nat.zero_lt_succ 79, by simp only [Pane.blank]; omega⟩
  refine shows.edited home corner cleared ?_ ?_
  · intro row col inRow inCol
    simp only [scrX, scrCells] at ram inCol ⊢
    rw [add_assoc, ram _ (by omega)]
    refine if_neg fun both => ?_
    have size : Terminal.height t.current = 24 := if_pos both.1
    omega
  · intro col inCol
    simp only [scrX] at inCol ⊢
    by_cases first : t.current.val = 0
    · have same := ram (24 * scrX + col) (by simp only [scrX, scrCells]; omega)
      rw [first, zero_mul, zero_add, if_pos ⟨rfl, Nat.le_add_right _ _⟩] at same
      rw [if_pos first]
      exact same
    · obtain ⟨cells, -, inside, kept⟩ := cleared
      rw [if_neg first, ← shows.bottom col inCol]
      refine kept _ fun member => ?_
      have inPage := inside _ member
      rw [pageCells, shows.current, Set.mem_ofPred_eq] at inPage
      simp only [scrCells] at inPage
      omega

theorem Shows.conSetpage (shows : Shows s t) (newpage : Int) :
    Shows (s.conSetpage newpage) (t.call (.conSetpage newpage)) := by
  unfold Screen.conSetpage Terminal.call
  by_cases inside : 0 ≤ newpage ∧ newpage.toNat < PAGES
  · simp only [dif_pos inside, dif_pos inside.symm]
    exact ⟨rfl, rfl, shows.cursor, shows.on, shows.text, shows.bottom⟩
  · simpa only [dif_neg inside, dif_neg fun both => inside (And.symm both)] using shows

/-- A character of the status. -/
theorem Shows.conStputc (shows : Shows s t) {col : Nat} (column : s.conStcol = col) {ch : Int}
    (shown : ¬(ch < 32 ∨ 126 < ch ∨ scrX ≤ col)) :
    (s.conStputc ch).conStcol = (col + 1 : Nat) ∧
      Shows (s.conStputc ch) { t with
        status := update t.status col { t.status col with data := UInt8.ofNat ch.toNat } } := by
  have inLast : col < 80 := by
    simp only [scrX] at shown
    omega
  have ends : int16 ((col : Int) + 1) = (col + 1 : Nat) := int16_eq (by omega) (by omega)
  have same : s.conStputc ch = { s.conEnterCs.storeAt ((scrCells - scrX : Nat) + s.conStcol)
      fun cell => { cell with data := UInt8.ofNat ch.toNat } with
        conStcol := int16 (s.conStcol + 1) }.conLeaveCs :=
    if_neg (by rw [column]; exact_mod_cast shown)
  have index : ((((scrCells - scrX : Nat) : Int) + col) % 0x8000).toNat = 24 * scrX + col := by
    simp only [scrX, scrCells]
    omega
  have ram : (s.conStputc ch).ram = update s.ram (24 * scrX + col)
      { t.status col with data := UInt8.ofNat ch.toNat } := by
    rw [same, column, ← shows.bottom col inLast]
    change update s.ram _ _ = _
    rw [index]
    rfl
  rw [column, ends] at same
  refine ⟨by rw [same]; rfl, ?_⟩
  obtain ⟨page, pages, scrram⟩ := conStputc_kept s ch
  refine ⟨page.trans shows.current, by rw [scrram, page, shows.base],
    by rw [pages]; exact shows.cursor, shows.on, ?_, ?_⟩
  · intro page row place inText inCol
    rw [ram, Function.update_of_ne (text_apart inText inCol inLast)]
    exact shows.text page row place inText inCol
  · intro place inCol
    rw [ram]
    by_cases here : place = col
    · subst here
      simp
    · rw [Function.update_of_ne (by omega)]
      simpa only [Function.update_of_ne here] using shows.bottom place inCol

theorem Shows.putStatus (shows : Shows s t) {col : Nat} (column : s.conStcol = col)
    (text : List Int) : Shows (text.foldl Screen.conStputc s)
      { t with status := Terminal.putStatus text col t.status } := by
  induction text generalizing s t col with
  | nil => exact shows
  | cons ch text ih =>
      rw [List.foldl_cons, Terminal.putStatus]
      by_cases skipped : ch < 32 ∨ 126 < ch ∨ scrX ≤ col
      · have same : s.conStputc ch = s := if_pos (by rw [column]; exact_mod_cast skipped)
        rw [if_pos skipped, same]
        exact ih shows column
      · obtain ⟨next, stored⟩ := shows.conStputc column skipped
        rw [if_neg skipped]
        exact ih stored next

theorem Shows.call (shows : Shows s t) {next : ConCall} (fits : StatusFits next) :
    Shows (s.call next) (t.call next) := by
  cases next with
  | conChar by' => exact shows.conChar by'
  | conWrite unit buf =>
      change Shows (s.conWrite unit buf.val).2 (t.call (.conWrite unit buf))
      unfold Screen.conWrite Terminal.call
      dsimp only
      split_ifs
      · exact shows
      · exact (Shows.foldl (s := s.conEnterCs) (shows.same rfl rfl rfl rfl) buf.val).same rfl rfl
          rfl rfl
  | conGotoxy x y => exact shows.conGotoxy x y
  | conClrscr => exact shows.conClrscr
  | conClreol => exact shows.conClreol
  | conSetpage newpage => exact shows.conSetpage newpage
  | conStatus col text =>
      have entered : Shows { s.conEnterCs with conStcol := col } t := shows.same rfl rfl rfl rfl
      exact (entered.putStatus (Int.toNat_of_nonneg fits).symm text).same rfl rfl rfl rfl

/-- At the start the screen shows the pages that are in the memory. -/
theorem initial_shows (ram : Nat → ConCell) (crtc : Nat → UInt8) (interrupts : Bool) :
    Shows (initial ram crtc interrupts) (Terminal.initial ram) where
  current := rfl
  base := by simp [initial]
  cursor _ := rfl
  on page := by
    have size := height_range page
    exact ⟨Nat.zero_lt_succ 79, by simp only [Terminal.initial]; omega⟩
  text _ _ _ _ _ := rfl
  bottom _ _ := rfl

/-- In every run the screen shows the terminal that has been given the same calls. -/
theorem run_shows (ram : Nat → ConCell) (crtc : Nat → UInt8) (interrupts : Bool)
    (calls : List ConCall) (fits : ∀ next ∈ calls, StatusFits next) :
    Shows (run (initial ram crtc interrupts) calls) ((Terminal.initial ram).run calls) := by
  have kept : ∀ s t, Shows s t → Shows (run s calls) (t.run calls) := by
    induction calls with
    | nil => exact fun _ _ shows => shows
    | cons next calls ih =>
        intro s t shows
        exact ih (fun later member => fits later (List.mem_cons_of_mem _ member)) _ _
          (shows.call (fits next List.mem_cons_self))
  exact kept _ _ (initial_shows ram crtc interrupts)

/-- Two lines, a page that is cleared, and the status. -/
theorem run_shows_status : Shows
    (run (initial (fun _ => space) (fun _ => 0) true)
      [.conChar 65, .conChar 10, .conChar 66, .conSetpage 1, .conClrscr, .conStatus 79 [88, 89]])
    ((Terminal.initial fun _ => space).run
      [.conChar 65, .conChar 10, .conChar 66, .conSetpage 1, .conClrscr, .conStatus 79 [88, 89]]) :=
  run_shows (fun _ => space) (fun _ => 0) true _ (by simp [StatusFits])

end Screen

end Pegasos.Kernel.Console
