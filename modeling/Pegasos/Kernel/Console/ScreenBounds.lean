import Pegasos.Kernel.Console.Screen

/-!
# The bounds of the screen

In every run the cursors stay on their pages, and every cell that is stored to lies on the
current page.  The row of the status, below the text of page 0, is changed by `con_clrscr`
and `con_status` only.
-/

namespace Pegasos.Kernel.Console

open Pegasos.Support
open Function (update)

/-- The cursor is in one of the rows of its page. -/
structure ConPage.On (pg : ConPage) (rows : Int) : Prop where
  lowX : 0 ≤ pg.cursX
  highX : pg.cursX < scrX
  lowY : 0 ≤ pg.cursY
  highY : pg.cursY < rows

namespace Screen

/-- The cells of a page. -/
def pageCells (page : Fin PAGES) : Set Nat :=
  {cell | page.val * scrCells ≤ cell ∧ cell < (page.val + 1) * scrCells}

/-- The cells of a page that the cursor can be at. -/
def textCells (page : Fin PAGES) : Set Nat :=
  {cell | page.val * scrCells ≤ cell ∧ (cell : Int) < page.val * scrCells + rows page * scrX}

/-- Row 24 of page 0. -/
def statusRow : Set Nat := {cell | 24 * scrX ≤ cell ∧ cell < scrCells}

/-- Between two states, cells of a set have been stored to, and no other cell is changed. -/
def Writes (allowed : Set Nat) (before after : Screen) : Prop :=
  ∃ cells, after.stored = cells ++ before.stored ∧ (∀ cell ∈ cells, cell ∈ allowed) ∧
    ∀ cell ∉ cells, after.ram cell = before.ram cell

/-- The cursors are on their pages, and `scrram` points to the current page. -/
structure Bounded (s : Screen) : Prop where
  cursor : ∀ page, (s.pages page).On (rows page)
  base : s.scrram = s.page * scrCells

variable {s t u : Screen} {allowed : Set Nat} {cell : ConCell} {count : Nat} {i : Int}
  {page : Fin PAGES} {pg : ConPage} {by' : UInt8}

theorem rows_range (page : Fin PAGES) : 24 ≤ rows page ∧ rows page ≤ 25 := by
  unfold rows
  split_ifs <;> decide

theorem textCells_subset : textCells page ⊆ pageCells page := by
  intro cell inText
  have range := rows_range page
  simp only [textCells, pageCells, Set.mem_ofPred_eq, scrCells, scrX] at inText ⊢
  omega

/-- The text of no page has cells in the row of the status. -/
theorem textCells_status (inText : i.toNat ∈ textCells page) : i.toNat ∉ statusRow := by
  simp only [textCells, statusRow, rows, Set.mem_ofPred_eq, scrCells, scrX, scrY] at inText ⊢
  split_ifs at inText with first
  · subst first
    simp at inText
    omega
  · have : 1 ≤ page.val := Nat.one_le_iff_ne_zero.mpr fun zero => first (Fin.ext zero)
    omega

/-! ## Stores -/

theorem Writes.none (stored : t.stored = s.stored) (ram : t.ram = s.ram) : Writes allowed s t :=
  ⟨[], stored, by simp, fun _ _ => congrFun ram _⟩

theorem Writes.trans (first : Writes allowed s t) (second : Writes allowed t u) :
    Writes allowed s u := by
  obtain ⟨cells, stored, inside, ram⟩ := first
  obtain ⟨more, storedMore, insideMore, ramMore⟩ := second
  refine ⟨more ++ cells, by rw [storedMore, stored, List.append_assoc], ?_, ?_⟩
  · simpa [or_imp, forall_and] using ⟨insideMore, inside⟩
  · intro cell outside
    rw [List.mem_append, not_or] at outside
    exact (ramMore cell outside.1).trans (ram cell outside.2)

theorem Writes.mono {more : Set Nat} (writes : Writes allowed s t) (subset : allowed ⊆ more) :
    Writes more s t := by
  obtain ⟨cells, stored, inside, ram⟩ := writes
  exact ⟨cells, stored, fun cell member => subset (inside cell member), ram⟩

theorem Writes.enter (writes : Writes allowed s.conEnterCs t) : Writes allowed s t := writes

/-- What the functions do at their end. -/
theorem Writes.leave (writes : Writes allowed s t) :
    Writes allowed s t.conCursync.conLeaveCs := by
  obtain ⟨cells, stored, inside, ram⟩ := writes
  exact ⟨cells, stored, inside, ram⟩

theorem store_writes (low : 0 ≤ s.scrram + i) (high : s.scrram + i < 0x8000)
    (inside : (s.scrram + i).toNat ∈ allowed) : Writes allowed s (s.store i cell) := by
  refine ⟨[((s.scrram + i) % 0x8000).toNat], rfl, ?_, ?_⟩
  · rw [Int.emod_eq_of_lt low high]
    simpa using inside
  · intro other outside
    exact Function.update_of_ne (by simpa using outside) _ _

theorem fill_writes (low : 0 ≤ s.scrram + i) (high : s.scrram + i + count ≤ 0x8000)
    (inside : ∀ j < count, (s.scrram + i + j).toNat ∈ allowed) :
    Writes allowed s (fill cell count i s) := by
  induction count generalizing i s with
  | zero => exact Writes.none rfl rfl
  | succ count ih =>
      have first : Writes allowed s (s.store i cell) :=
        store_writes low (by omega) (by simpa using inside 0 (by omega))
      refine first.trans (ih (s := s.store i cell) (i := i + 1) ?_ ?_ ?_)
      · change 0 ≤ (s.scrram : Int) + (i + 1)
        omega
      · change (s.scrram : Int) + (i + 1) + count ≤ 0x8000
        push_cast at high
        omega
      · intro j less
        have next := inside (j + 1) (by omega)
        have same : (s.scrram : Int) + i + ((j + 1 : Nat) : Int) = s.scrram + (i + 1) + j := by
          omega
        rw [same] at next
        exact next

theorem moveUp_writes (inside : ∀ j < count, s.scrram + j ∈ allowed) :
    Writes allowed s (s.moveUp count) := by
  refine ⟨(List.range count).map (s.scrram + ·), rfl, ?_, ?_⟩
  · intro cell member
    obtain ⟨j, less, rfl⟩ := List.mem_map.mp member
    exact inside j (List.mem_range.mp less)
  · intro cell outside
    refine if_neg fun inMoved => outside ?_
    exact List.mem_map.mpr ⟨cell - s.scrram, List.mem_range.mpr (by omega), by omega⟩

end Screen

/-! ## Cursors -/

namespace ConPage.On

variable {pg : ConPage} {rows : Int}

theorem firstColumn (on : pg.On rows) : ({ pg with cursX := 0 } : ConPage).On rows :=
  ⟨le_refl (0 : Int), (by decide : (0 : Int) < 80), on.lowY, on.highY⟩

theorem down (on : pg.On rows) (range : 24 ≤ rows ∧ rows ≤ 25) : (pg.down rows).On rows := by
  obtain ⟨lowX, highX, lowY, highY⟩ := on
  have below : int16 (pg.cursY + 1) = pg.cursY + 1 := int16_eq (by omega) (by omega)
  have last : int16 (rows - 1) = rows - 1 := int16_eq (by omega) (by omega)
  refine ⟨lowX, highX, ?_, ?_⟩
  all_goals
    simp only [ConPage.down, below, last]
    split_ifs <;> omega

theorem right (on : pg.On rows) (range : 24 ≤ rows ∧ rows ≤ 25) : (pg.right rows).On rows := by
  have lowX := on.lowX
  have highX := on.highX
  simp only [scrX] at highX
  have next : int16 (pg.cursX + 1) = pg.cursX + 1 := int16_eq (by omega) (by omega)
  unfold ConPage.right
  rw [next]
  split_ifs with wraps
  · exact on.firstColumn.down range
  · simp only [scrX] at wraps
    exact ⟨by simp only; omega, by simp only [scrX]; omega, on.lowY, on.highY⟩

theorem left (on : pg.On rows) (range : rows ≤ 25) : pg.left.On rows := by
  obtain ⟨lowX, highX, lowY, highY⟩ := on
  simp only [scrX] at highX
  have before : int16 (pg.cursX - 1) = pg.cursX - 1 := int16_eq (by omega) (by omega)
  have above : int16 (pg.cursY - 1) = pg.cursY - 1 := int16_eq (by omega) (by omega)
  unfold ConPage.left
  rw [before, above]
  split_ifs with first atTop
  · exact ⟨lowX, highX, lowY, highY⟩
  · exact ⟨(by decide : (0 : Int) ≤ 80 - 1), (by decide : (80 : Int) - 1 < 80),
      by simp only; omega, by simp only; omega⟩
  · exact ⟨by simp only; omega, by simp only [scrX]; omega, lowY, highY⟩

theorem typed (on : pg.On rows) (range : 24 ≤ rows ∧ rows ≤ 25) (by' : UInt8) :
    (pg.typed rows by').On rows := by
  unfold ConPage.typed
  split_ifs
  · exact on.firstColumn
  · exact on.down range
  · exact on.left range.2
  · exact on.right range

end ConPage.On

namespace Screen

variable {s t : Screen} {pg : ConPage} {page : Fin PAGES}

theorem clamp_range (value : Int) {max : Int} (some : 0 < max) :
    0 ≤ clamp value max ∧ clamp value max < max := by
  unfold clamp
  split_ifs <;> omega

theorem rows_pos (page : Fin PAGES) : 0 < rows page := by
  have range := rows_range page
  omega

/-- A cursor that is moved onto its page. -/
theorem Bounded.moved (bounded : Bounded s) (moved : Moved s t pg) (on : pg.On s.maxy) :
    Bounded t where
  cursor page := by
    rw [moved.pages]
    by_cases current : page = s.page
    · subst current
      rwa [Function.update_self]
    · rw [Function.update_of_ne current]
      exact bounded.cursor page
  base := by rw [moved.scrram, moved.page, bounded.base]

theorem Bounded.conChar (bounded : Bounded s) (by' : UInt8) : Bounded (s.conChar by') :=
  bounded.moved (conChar_moved s by')
    ((bounded.cursor s.page).typed (rows_range s.page) by')

/-! ## Calls -/

theorem mem_textCells (page : Fin PAGES) {x y : Int} (low : 0 ≤ x) (high : x < scrX) (top : 0 ≤ y)
    (bottom : y < rows page) :
    ((page.val * scrCells : Nat) + (y * scrX + x)).toNat ∈ textCells page := by
  simp only [textCells, Set.mem_ofPred_eq, scrCells, scrX] at high ⊢
  omega

theorem base_le (page : Fin PAGES) : page.val * scrCells + scrCells ≤ 8000 := by
  have := page.isLt
  simp only [PAGES, scrCells] at this ⊢
  omega

/-- The cells from the cursor to the end of a row. -/
theorem fillRow_writes (cell : ConCell) (base : s.scrram = s.page * scrCells) {x y : Int} (low : 0 ≤ x)
    (high : x ≤ scrX) (top : 0 ≤ y) (bottom : y < s.maxy) :
    Writes (textCells s.page) s (fill cell (scrX - x).toNat (y * scrX + x) s) := by
  have range := rows_range s.page
  have place := base_le s.page
  unfold maxy at bottom
  simp only [scrX, scrCells] at high place base ⊢
  refine fill_writes ?_ ?_ fun j less => ?_
  · omega
  · omega
  · have inText := mem_textCells s.page (x := x + j) (y := y) (by omega)
      (by simp only [scrX]; omega) top bottom
    rw [base]
    simpa only [add_assoc] using inText

/-- The rows below the first one are moved up, and the last one is cleared. -/
theorem conScroll_writes (base : s.scrram = s.page * scrCells) :
    Writes (textCells s.page) s s.conScroll := by
  have range := rows_range s.page
  have moved : Writes (textCells s.page) s s.scrolled := by
    refine moveUp_writes (s := s.conEnterCs) fun j less => ?_
    change s.scrram + j ∈ textCells s.page
    rw [base]
    simp only [textCells, Set.mem_ofPred_eq, scrCells, scrX, maxy] at less ⊢
    omega
  have cleared := fillRow_writes space (x := 0) (y := s.maxy - 1) (s := s.scrolled) base
    (le_refl 0) (by decide) (by unfold maxy; omega) (by change s.maxy - 1 < s.maxy; omega)
  rw [add_zero, sub_zero, Int.toNat_natCast] at cleared
  rw [conScroll_eq]
  exact (moved.trans cleared).leave

theorem lineDown_writes (base : s.scrram = s.page * scrCells) :
    Writes (textCells s.page) s s.lineDown := by
  unfold lineDown
  dsimp only
  split_ifs
  · exact conScroll_writes (s := s.setPg { s.pg with cursY := int16 (s.pg.cursY + 1) }) base
  · exact Writes.none rfl rfl

theorem conRight_writes (base : s.scrram = s.page * scrCells) :
    Writes (textCells s.page) s s.conRight := by
  refine Writes.leave ?_
  split_ifs
  · exact lineDown_writes (s := s.conEnterCs.setPg { s.pg with cursX := 0 }) base
  · exact Writes.none rfl rfl

theorem conLeft_writes : Writes allowed s s.conLeft := by
  unfold conLeft
  dsimp only
  split_ifs <;> exact Writes.none rfl rfl

theorem conChar_writes (bounded : Bounded s) (by' : UInt8) :
    Writes (textCells s.page) s (s.conChar by') := by
  change Writes (textCells s.page) s.conEnterCs (s.conEnterCs.switchChar by')
  unfold switchChar
  split_ifs
  · exact Writes.none rfl rfl
  · exact lineDown_writes (s := s.conEnterCs) bounded.base
  · exact conLeft_writes
  · have on := bounded.cursor s.page
    have inText := mem_textCells s.page on.lowX on.highX on.lowY on.highY
    have place := base_le s.page
    have range := rows_range s.page
    have lowX := on.lowX
    have highX := on.highX
    have lowY := on.lowY
    have highY := on.highY
    have base := bounded.base
    simp only [scrCells, scrX] at place highX base
    refine Writes.trans (store_writes (s := s.conEnterCs) ?_ ?_ ?_)
      (conRight_writes (s := s.conEnterCs.store _ _) bounded.base)
    · change 0 ≤ (s.scrram : Int) + (s.pg.cursY * scrX + s.pg.cursX)
      simp only [pg, scrX]
      omega
    · change (s.scrram : Int) + (s.pg.cursY * scrX + s.pg.cursX) < 0x8000
      simp only [pg, scrX]
      omega
    · change ((s.scrram : Int) + (s.pg.cursY * scrX + s.pg.cursX)).toNat ∈ textCells s.page
      rw [base]
      exact inText

/-- The characters of a buffer. -/
theorem foldl_writes (bounded : Bounded s) (buf : List UInt8) :
    Bounded (buf.foldl Screen.conChar s) ∧ (buf.foldl Screen.conChar s).page = s.page ∧
      Writes (textCells s.page) s (buf.foldl Screen.conChar s) := by
  induction buf generalizing s with
  | nil => exact ⟨bounded, rfl, Writes.none rfl rfl⟩
  | cons by' buf ih =>
      have samePage := (conChar_moved s by').page
      obtain ⟨last, page, writes⟩ := ih (bounded.conChar by')
      rw [samePage] at page writes
      exact ⟨last, page, (conChar_writes bounded by').trans writes⟩

theorem conClreol_moved (s : Screen) : Moved s s.conClreol s.pg := by
  have moved : Moved s (Screen.fill space (scrX - s.pg.cursX).toNat
      (s.pg.cursY * scrX + s.pg.cursX) s.conEnterCs) s.pg := (enter_moved s).fill
  exact ⟨moved.page, moved.pages, moved.scrram⟩

theorem conClreol_writes (bounded : Bounded s) : Writes (textCells s.page) s s.conClreol := by
  have on := bounded.cursor s.page
  obtain ⟨cells, stored, inside, ram⟩ := (fillRow_writes (s := s.conEnterCs) space
    bounded.base on.lowX (le_of_lt on.highX) on.lowY on.highY).enter
  exact ⟨cells, stored, inside, ram⟩

/-- Cells of a page. -/
theorem fillPage_writes (cell : ConCell) (count : Nat) (base : s.scrram = s.page * scrCells) (low : 0 ≤ i)
    (high : i + count ≤ scrCells) : Writes (pageCells s.page) s (fill cell count i s) := by
  have place := base_le s.page
  simp only [scrCells] at base place high
  refine fill_writes (by omega) (by omega) fun j less => ?_
  simp only [pageCells, Set.mem_ofPred_eq, scrCells]
  omega

theorem conClrscr_clears (base : s.scrram = s.page * scrCells) :
    ∃ t, s.conClrscr = (t.setPg ⟨0, 0⟩).conCursync.conLeaveCs ∧ Moved s t s.pg ∧
      Writes (pageCells s.page) s t := by
  let home := fun t : Screen => (t.setPg ⟨0, 0⟩).conCursync.conLeaveCs
  have entered : s.conEnterCs.scrram = s.conEnterCs.page * scrCells := base
  by_cases first : s.page = 0
  · have moved : Moved s (Screen.fill space (scrCells - scrX) 0 s.conEnterCs) s.pg :=
      (enter_moved s).fill
    have writes := (fillPage_writes space (scrCells - scrX) entered
      (le_refl 0) (by simp)).enter
    have status := fillPage_writes { space with attr := 0x1f } scrX
      (i := (scrCells - scrX : Nat)) (by rw [moved.scrram, moved.page, base]) (by decide)
      (by decide)
    rw [moved.page] at status
    exact ⟨_, congrArg home (if_pos first), moved.fill, writes.trans status⟩
  · exact ⟨_, congrArg home (if_neg first), (enter_moved s).fill,
      (fillPage_writes _ _ entered (le_refl 0) (by simp)).enter⟩

theorem conStputc_kept (s : Screen) (ch : Int) : (s.conStputc ch).page = s.page ∧
    (s.conStputc ch).pages = s.pages ∧ (s.conStputc ch).scrram = s.scrram := by
  unfold conStputc
  split_ifs <;> exact ⟨rfl, rfl, rfl⟩

theorem Bounded.conStatus (bounded : Bounded s) (col : Int) (text : List Int) :
    Bounded (s.conStatus col text) := by
  have kept : ∀ (text : List Int) (t : Screen), Bounded t → Bounded (text.foldl conStputc t) := by
    intro text
    induction text with
    | nil => exact fun _ bounded => bounded
    | cons ch text ih =>
        intro t bounded
        obtain ⟨page, pages, scrram⟩ := conStputc_kept t ch
        exact ih _ ⟨by rw [pages]; exact bounded.cursor, by rw [page, scrram]; exact bounded.base⟩
  have last := kept text { s.conEnterCs with conStcol := col } ⟨bounded.cursor, bounded.base⟩
  exact ⟨last.cursor, last.base⟩

theorem Bounded.call (bounded : Bounded s) (next : ConCall) : Bounded (s.call next) := by
  cases next with
  | conChar by' => exact bounded.conChar by'
  | conWrite unit buf =>
      change Bounded (s.conWrite unit buf.val).2
      unfold conWrite
      split_ifs
      · exact bounded
      · have entered : Bounded s.conEnterCs := ⟨bounded.cursor, bounded.base⟩
        have last := (foldl_writes entered buf.val).1
        exact ⟨last.cursor, last.base⟩
  | conGotoxy x y =>
      have moved : Moved s (s.conEnterCs.setPg ⟨clamp x scrX, clamp y s.maxy⟩)
          ⟨clamp x scrX, clamp y s.maxy⟩ := (enter_moved s).setPg
      have inX := clamp_range x (show (0 : Int) < scrX by decide)
      have inY := clamp_range y (rows_pos s.page)
      exact bounded.moved moved.leave ⟨inX.1, inX.2, inY.1, inY.2⟩
  | conClrscr =>
      obtain ⟨t, same, moved, -⟩ := conClrscr_clears bounded.base
      change Bounded s.conClrscr
      rw [same]
      exact bounded.moved moved.setPg.leave
        ⟨le_refl (0 : Int), (by decide : (0 : Int) < 80), le_refl (0 : Int), rows_pos s.page⟩
  | conClreol =>
      exact bounded.moved (conClreol_moved s) (bounded.cursor s.page)
  | conSetpage newpage =>
      change Bounded (s.conSetpage newpage)
      unfold conSetpage
      split_ifs
      · exact ⟨bounded.cursor, rfl⟩
      · exact bounded
  | conStatus col text => exact bounded.conStatus col text

/-- Besides `con_clrscr` and `con_status`, a call stores to the text of the current page. -/
theorem call_text (bounded : Bounded s) (next : ConCall) (noClear : next ≠ .conClrscr)
    (noStatus : ∀ col text, next ≠ .conStatus col text) :
    Writes (textCells (s.call next).page) s (s.call next) := by
  cases next with
  | conChar by' =>
      change Writes (textCells (s.conChar by').page) s (s.conChar by')
      rw [(conChar_moved s by').page]
      exact conChar_writes bounded by'
  | conWrite unit buf =>
      change Writes (textCells (s.conWrite unit buf.val).2.page) s (s.conWrite unit buf.val).2
      unfold conWrite
      split_ifs
      · exact Writes.none rfl rfl
      · have entered : Bounded s.conEnterCs := ⟨bounded.cursor, bounded.base⟩
        obtain ⟨-, page, writes⟩ := foldl_writes entered buf.val
        rw [← page] at writes
        exact writes
  | conGotoxy x y => exact Writes.none rfl rfl
  | conClrscr => exact absurd rfl noClear
  | conClreol =>
      change Writes (textCells s.conClreol.page) s s.conClreol
      rw [(conClreol_moved s).page]
      exact conClreol_writes bounded
  | conSetpage newpage =>
      change Writes _ s (s.conSetpage newpage)
      unfold conSetpage
      split_ifs <;> exact Writes.none rfl rfl
  | conStatus col text => exact absurd rfl (noStatus col text)

/-- Besides `con_status`, a call stores to the current page. -/
theorem call_page (bounded : Bounded s) (next : ConCall)
    (noStatus : ∀ col text, next ≠ .conStatus col text) :
    Writes (pageCells (s.call next).page) s (s.call next) := by
  by_cases clear : next = .conClrscr
  · subst clear
    obtain ⟨t, same, moved, writes⟩ := conClrscr_clears bounded.base
    have home : Writes (pageCells s.page) s (t.setPg ⟨0, 0⟩) := writes
    change Writes (pageCells s.conClrscr.page) s s.conClrscr
    rw [same, moved.setPg.leave.page]
    exact home.leave
  · exact (call_text bounded next clear noStatus).mono textCells_subset

theorem initial_bounded (ram : Nat → ConCell) (crtc : Nat → UInt8) (interrupts : Bool) :
    Bounded (initial ram crtc interrupts) where
  cursor page := by
    have some := rows_pos page
    constructor <;> simp [initial, some]
  base := by simp [initial]

/-- In every state of a run the cursors are on their pages.  The next call stores to cells
of the current page only, and to none of the row of the status, unless it is `con_clrscr` or
`con_status`. -/
theorem screen_bounds (ram : Nat → ConCell) (crtc : Nat → UInt8) (interrupts : Bool)
    (calls : List ConCall) :
    let s := run (initial ram crtc interrupts) calls
    (∀ page, (s.pages page).On (rows page)) ∧
      ∀ next, (∀ col text, next ≠ .conStatus col text) →
        Writes (pageCells (s.call next).page) s (s.call next) ∧
          (next ≠ .conClrscr → Writes {cell | cell ∉ statusRow} s (s.call next)) := by
  have bounded : Bounded (run (initial ram crtc interrupts) calls) := by
    have kept : ∀ s, Bounded s → Bounded (run s calls) := by
      induction calls with
      | nil => exact fun _ bounded => bounded
      | cons next calls ih => exact fun s bounded => ih _ (bounded.call next)
    exact kept _ (initial_bounded ram crtc interrupts)
  refine ⟨bounded.cursor, fun next noStatus => ⟨call_page bounded next noStatus, ?_⟩⟩
  intro noClear
  exact (call_text bounded next noClear noStatus).mono fun cell inText =>
    textCells_status (i := (cell : Int)) inText

end Screen

end Pegasos.Kernel.Console
