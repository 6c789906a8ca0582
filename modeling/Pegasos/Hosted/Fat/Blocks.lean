import Mathlib.Data.List.Nodup
import Pegasos.Fat.Dirent
import Pegasos.Hosted.BlkCache
import Pegasos.Support.Program

/-!
# Blocks for the hosted FAT code

The functions of the hosted FAT code get blocks of one unit from the cache and put them
back.  Here the cache is what they can see of it: the contents of every block, and the
blocks that are in use.  A pointer to a block that is in use is the number of that block.
-/

namespace Pegasos.Hosted

open Pegasos.Support
open Fat (Sector)
open Function (update)

/-- The unit, with the number of its blocks and of the buffers of the cache, and what the
next transfers return.  Those behind them succeed. -/
structure Blocks where
  data : Nat → Sector
  inuse : List Nat
  blocks : Nat
  buffers : Nat
  transfers : List Int

/-- A program that uses the cache. -/
abbrev BlockM := Program Blocks

namespace Blocks

variable (unit : Blocks)

def setData (blkno : Nat) (sector : Sector) : Blocks :=
  { unit with data := update unit.data blkno sector }

/-- The blocks in use after a block has been got. -/
def hold (blkno : Nat) : Blocks := { unit with inuse := unit.inuse.insert blkno }

/-- The blocks in use after a block has been put back. -/
def release (blkno : Nat) : Blocks := { unit with inuse := unit.inuse.erase blkno }

/-- What the next transfer returns, and the unit behind it. -/
def transfer : Int × Blocks :=
  match unit.transfers with
  | [] => (0, unit)
  | result :: later => (result, { unit with transfers := later })

end Blocks

/-- `bc_get`.  A block that is not to be read (`F_BCGET_OVERW`) is replaced as a whole by
those who get it, so its contents stay here until then. -/
def bcGet (blkno : Nat) (overw : Bool) : BlockM Unit := fun unit =>
  if blkno ∉ unit.inuse ∧ unit.buffers ≤ unit.inuse.length then .err (-ENOMEM) unit
  else if overw = false ∧ unit.blocks ≤ blkno then .err (-EINVAL) unit
  else if unit.transfer.1 ≠ 0 then .err unit.transfer.1 unit.transfer.2
  else .ok () (unit.transfer.2.hold blkno)

/-- `bc_put`. -/
def bcPut (blkno : Nat) : BlockM Unit := fun unit =>
  if blkno ∈ unit.inuse then .ok () (unit.release blkno) else .err (-EINVAL) unit

/-- `blk->data[i]`, which must be a byte of the block. -/
def readByte (blkno i : Nat) : BlockM UInt8 := fun unit =>
  if i < BLKSIZE then .ok (unit.data blkno i) unit else .fault

/-- `blk->data[i] = byte` and `blk->dirty = 1`. -/
def writeByte (blkno i : Nat) (byte : UInt8) : BlockM Unit := fun unit =>
  if i < BLKSIZE then .ok () (unit.setData blkno (update (unit.data blkno) i byte)) else .fault

/-- A whole block as it is. -/
def readBlock (blkno : Nat) : BlockM Sector := .peek fun unit => unit.data blkno

/-- Replace the contents of a block, with `blk->dirty = 1`. -/
def writeBlock (blkno : Nat) (edit : Sector → Sector) : BlockM Unit :=
  .change fun unit => unit.setData blkno (edit (unit.data blkno))

/-! ## What the functions do -/

namespace Blocks

variable {unit : Blocks} {blkno i : Nat}

/-- So many other blocks can be got, and all transfers succeed. -/
structure Room (unit : Blocks) (more : Nat) : Prop where
  free : unit.inuse.length + more ≤ unit.buffers
  succeed : unit.transfers = []

theorem Room.mono {more fewer : Nat} (room : unit.Room more) (le : fewer ≤ more) :
    unit.Room fewer := ⟨Nat.le_trans (Nat.add_le_add_left le _) room.free, room.succeed⟩

/-- No block has been taken into use for good. -/
structure Kept (before after : Blocks) : Prop where
  inuse : after.inuse.Sublist before.inuse
  blocks : after.blocks = before.blocks
  buffers : after.buffers = before.buffers
  transfers : after.transfers = before.transfers

variable {unit' unit'' : Blocks} {more : Nat}

theorem Kept.refl (unit : Blocks) : unit.Kept unit := ⟨List.Sublist.refl _, rfl, rfl, rfl⟩

theorem Kept.trans (first : unit.Kept unit') (second : unit'.Kept unit'') : unit.Kept unit'' where
  inuse := second.inuse.trans first.inuse
  blocks := second.blocks.trans first.blocks
  buffers := second.buffers.trans first.buffers
  transfers := second.transfers.trans first.transfers

theorem Kept.room (kept : unit.Kept unit') (room : unit.Room more) : unit'.Room more := by
  have shorter := kept.inuse.length_le
  have before := room.free
  refine ⟨?_, kept.transfers.trans room.succeed⟩
  rw [kept.buffers]
  omega

/-- A block that is got, changed and put back. -/
theorem Kept.bracket (unit : Blocks) (data : Nat → Sector) (blkno : Nat) :
    unit.Kept ({ unit.hold blkno with data := data }.release blkno) := by
  refine ⟨?_, rfl, rfl, rfl⟩
  change (List.erase (List.insert blkno unit.inuse) blkno).Sublist unit.inuse
  by_cases held : blkno ∈ unit.inuse
  · rw [List.insert_of_mem held]
    exact List.erase_sublist
  · rw [List.insert_of_not_mem held, List.erase_cons_head]

theorem bcGet_ok (room : unit.Room 1) (onUnit : blkno < unit.blocks) (overw : Bool) :
    bcGet blkno overw unit = .ok () (unit.hold blkno) := by
  have free : ¬(blkno ∉ unit.inuse ∧ unit.buffers ≤ unit.inuse.length) := fun full => by
    have some := room.free
    omega
  have inside : ¬(overw = false ∧ unit.blocks ≤ blkno) := fun beyond => by omega
  have succeeds : unit.transfer = (0, unit) := by rw [transfer, room.succeed]
  rw [bcGet, if_neg free, if_neg inside, succeeds, if_neg (not_not.mpr rfl)]

theorem bcPut_ok (held : blkno ∈ unit.inuse) : bcPut blkno unit = .ok () (unit.release blkno) :=
  if_pos held

theorem readByte_ok (inside : i < BLKSIZE) :
    readByte blkno i unit = .ok (unit.data blkno i) unit := if_pos inside

theorem writeByte_ok (inside : i < BLKSIZE) (byte : UInt8) : writeByte blkno i byte unit =
    .ok () (unit.setData blkno (update (unit.data blkno) i byte)) := if_pos inside

/-- A block that is in use already. -/
theorem hold_of_mem (held : blkno ∈ unit.inuse) : unit.hold blkno = unit := by
  rw [hold, List.insert_of_mem held]

theorem Room.hold {more : Nat} (room : unit.Room (more + 1)) : (unit.hold blkno).Room more := by
  have longer : (unit.inuse.insert blkno).length ≤ unit.inuse.length + 1 := by
    by_cases held : blkno ∈ unit.inuse
    · rw [List.insert_of_mem held]
      exact Nat.le_succ _
    · rw [List.insert_of_not_mem held, List.length_cons]
  have before := room.free
  refine ⟨?_, room.succeed⟩
  change (unit.inuse.insert blkno).length + more ≤ unit.buffers
  omega

theorem readBlock_ok : readBlock blkno unit = .ok (unit.data blkno) unit := rfl

theorem writeBlock_ok (edit : Sector → Sector) : writeBlock blkno edit unit =
    .ok () (unit.setData blkno (edit (unit.data blkno))) := rfl

/-- A block that is got and put back. -/
theorem Kept.cycle (unit : Blocks) (blkno : Nat) :
    unit.Kept ((unit.hold blkno).release blkno) := Kept.bracket unit unit.data blkno

/-- No block has been taken into use for good.  Some transfers may have failed. -/
structure Freed (before after : Blocks) : Prop where
  inuse : after.inuse.Sublist before.inuse
  blocks : after.blocks = before.blocks
  buffers : after.buffers = before.buffers
  transfers : after.transfers <:+ before.transfers

theorem Kept.freed (kept : unit.Kept unit') : unit.Freed unit' :=
  ⟨kept.inuse, kept.blocks, kept.buffers, kept.transfers ▸ List.suffix_refl _⟩

theorem Freed.trans (first : unit.Freed unit') (second : unit'.Freed unit'') :
    unit.Freed unit'' where
  inuse := second.inuse.trans first.inuse
  blocks := second.blocks.trans first.blocks
  buffers := second.buffers.trans first.buffers
  transfers := second.transfers.trans first.transfers

theorem transfer_freed (unit : Blocks) :
    unit.Freed unit.transfer.2 ∧ unit.transfer.2.data = unit.data ∧
      (unit.transfer.1 ≠ 0 → unit.transfer.1 ∈ unit.transfers) := by
  obtain ⟨data, inuse, blocks, buffers, transfers⟩ := unit
  cases transfers with
  | nil => exact ⟨(Kept.refl _).freed, rfl, fun failed => absurd rfl failed⟩
  | cons result later =>
      exact ⟨⟨List.Sublist.refl _, rfl, rfl, List.suffix_cons result later⟩, rfl,
        fun _ => List.mem_cons_self⟩

/-- Every block can be got, and all transfers succeed. -/
structure Fine (unit : Blocks) : Prop where
  room : unit.Room 1
  blocks : 0x100000000 ≤ unit.blocks

theorem exists_fine (data : Nat → Sector) : ∃ unit : Blocks, unit.data = data ∧ unit.Fine :=
  ⟨{ data := data, inuse := [], blocks := 0x100000000, buffers := 1, transfers := [] }, rfl,
    ⟨Nat.le_refl 1, rfl⟩, Nat.le_refl _⟩

theorem Freed.fine (freed : unit.Freed unit') (fine : unit.Fine) : unit'.Fine := by
  have shorter := freed.inuse.length_le
  have before := fine.room.free
  refine ⟨⟨?_, ?_⟩, ?_⟩
  · rw [freed.buffers]
    omega
  · have later := freed.transfers
    rw [fine.room.succeed] at later
    exact List.suffix_nil.mp later
  · rw [freed.blocks]
    exact fine.blocks

/-- The errors of `bc_get`. -/
structure GetError (unit : Blocks) (code : Int) : Prop where
  source : code = -ENOMEM ∨ code = -EINVAL ∨ code ≠ 0 ∧ code ∈ unit.transfers
  notFine : ¬unit.Fine

theorem GetError.ne_zero {code : Int} (error : unit.GetError code) : code ≠ 0 := by
  rcases error.source with rfl | rfl | transfer
  · decide
  · decide
  · exact transfer.1

theorem Freed.getError {code : Int} (freed : unit.Freed unit') (error : unit'.GetError code) :
    unit.GetError code where
  source := error.source.imp_right (Or.imp_right (And.imp_right (freed.transfers.subset ·)))
  notFine fine := error.notFine (freed.fine fine)

/-- `bc_get`, whatever its transfer does. -/
theorem bcGet_ends (unit : Blocks) (blkno : Nat) (overw : Bool) (few : blkno < 0x100000000) :
    Program.Ends (bcGet blkno overw) unit
      (fun _ after => ∃ unit', unit.Freed unit' ∧ unit'.data = unit.data ∧ after = unit'.hold blkno)
      fun code after => unit.Freed after ∧ after.data = unit.data ∧ unit.GetError code := by
  obtain ⟨freed, same, error⟩ := transfer_freed unit
  have untouched : unit.Freed unit := (Kept.refl unit).freed
  by_cases full : blkno ∉ unit.inuse ∧ unit.buffers ≤ unit.inuse.length
  · refine .of_err (by rw [bcGet, if_pos full]) ⟨untouched, rfl, .inl rfl, fun fine => ?_⟩
    have free := fine.room.free
    omega
  by_cases beyond : overw = false ∧ unit.blocks ≤ blkno
  · refine .of_err (by rw [bcGet, if_neg full, if_pos beyond])
      ⟨untouched, rfl, .inr (.inl rfl), fun fine => ?_⟩
    have blocks := fine.blocks
    omega
  by_cases failed : unit.transfer.1 ≠ 0
  · refine .of_err (by rw [bcGet, if_neg full, if_neg beyond, if_pos failed])
      ⟨freed, same, .inr (.inr ⟨failed, error failed⟩), fun fine => ?_⟩
    rw [fine.room.succeed] at error
    exact List.not_mem_nil (error failed)
  · exact .of_ok (by rw [bcGet, if_neg full, if_neg beyond, if_neg failed]) ⟨_, freed, same, rfl⟩

/-- `bc_get`, and then the rest of the program. -/
theorem get_ends {α : Type} {overw : Bool} {rest : Unit → BlockM α} {post : α → Blocks → Prop}
    {failed : Int → Blocks → Prop} (few : blkno < 0x100000000)
    (next : ∀ unit', unit.Freed unit' → unit'.data = unit.data →
      Program.Ends (rest ()) (unit'.hold blkno) post failed)
    (error : ∀ code unit', unit.Freed unit' → unit.GetError code → failed code unit') :
    Program.Ends (bcGet blkno overw >>= rest) unit post failed := by
  refine ((bcGet_ends unit blkno overw few).mono (fun _ _ got => got)
    fun code unit' failed => error code unit' failed.1 failed.2.2).seq ?_
  rintro ⟨⟩ after ⟨unit', freed, same, rfl⟩
  exact next unit' freed same

@[simp] theorem mem_hold : blkno ∈ (unit.hold blkno).inuse := List.mem_insert_self

@[simp] theorem hold_data : (unit.hold blkno).data = unit.data := rfl

@[simp] theorem release_data : (unit.release blkno).data = unit.data := rfl

@[simp] theorem setData_inuse (sector : Sector) : (unit.setData blkno sector).inuse = unit.inuse :=
  rfl

@[simp] theorem setData_data (sector : Sector) :
    (unit.setData blkno sector).data = update unit.data blkno sector := rfl

@[simp] theorem setData_setData (sector sector' : Sector) :
    (unit.setData blkno sector).setData blkno sector' = unit.setData blkno sector' := by
  simp [setData]

end Blocks

/-! ## Specifications -/

variable {α β : Type} {program : BlockM α} {next : α → BlockM β} {unit unit' : Blocks}
variable {value : α} {result : β} {data data' : Nat → Sector}

/-- The program returns `value` and leaves `data` on the unit, and it takes no block into
use for good. -/
def Does (program : BlockM α) (unit : Blocks) (value : α) (data : Nat → Sector) : Prop :=
  Program.Gives program unit fun returned after =>
    returned = value ∧ unit.Kept after ∧ after.data = data

namespace Does

theorem of_eq (ran : program unit = .ok value unit') (kept : unit.Kept unit') :
    Does program unit value unit'.data := ⟨value, unit', ran, rfl, kept, rfl⟩

theorem pure (unit : Blocks) (value : α) : Does (Pure.pure value) unit value unit.data :=
  of_eq rfl (.refl unit)

/-- The unit behind the program. -/
theorem run (does : Does program unit value data) :
    ∃ unit', program unit = .ok value unit' ∧ unit.Kept unit' ∧ unit'.data = data := by
  obtain ⟨_, unit', ran, rfl, kept, left⟩ := does
  exact ⟨unit', ran, kept, left⟩

theorem seq (first : Does program unit value data)
    (rest : ∀ unit', unit.Kept unit' → unit'.data = data → Does (next value) unit' result data') :
    Does (program >>= next) unit result data' := by
  obtain ⟨middle, ran, kept, left⟩ := first.run
  obtain ⟨after, ran', kept', left'⟩ := (rest middle kept left).run
  exact ⟨result, after, (Program.bind_ok ran).trans ran', rfl, kept.trans kept', left'⟩

theorem attempt (does : Does program unit value data) :
    Does (Program.attempt program) unit (.ok value) data := by
  obtain ⟨after, ran, kept, left⟩ := does.run
  exact ⟨_, after, Program.attempt_ok ran, rfl, kept, left⟩

/-- A block that is in use is changed and put back. -/
theorem store (unit : Blocks) (blkno : Nat) (edit : Sector → Sector) :
    ∃ unit', (writeBlock blkno edit >>= fun _ => bcPut blkno) (unit.hold blkno) = .ok () unit' ∧
      unit.Kept unit' ∧ unit'.data = update unit.data blkno (edit (unit.data blkno)) := by
  have kept := Blocks.Kept.bracket unit (update unit.data blkno (edit (unit.data blkno))) blkno
  refine ⟨_, ?_, kept, rfl⟩
  rw [Program.bind_ok (Blocks.writeBlock_ok edit)]
  exact Blocks.bcPut_ok (by simp)

/-- The program runs on a unit that has been kept. -/
theorem after (kept : unit.Kept unit') (does : Does program unit' value data) :
    ∃ unit'', program unit' = .ok value unit'' ∧ unit.Kept unit'' ∧ unit''.data = data := by
  obtain ⟨last, ran, kept', left⟩ := does.run
  exact ⟨last, ran, kept.trans kept', left⟩

end Does

/-! ## Programs that change nothing -/

/-- Whatever it returns, the program leaves the contents of the unit. -/
structure Quiet (program : BlockM α) : Prop where
  ok : ∀ unit value after, program unit = .ok value after → after.data = unit.data
  err : ∀ unit code after, program unit = .err code after → after.data = unit.data

namespace Quiet

theorem pure (value : α) : Quiet (Pure.pure value : BlockM α) :=
  ⟨fun _ _ _ ran => (Result.ok.inj ran).2 ▸ rfl, nofun⟩

theorem throw (code : Int) : Quiet (Program.throw code : BlockM α) :=
  ⟨nofun, fun _ _ _ ran => (Result.err.inj ran).2 ▸ rfl⟩

theorem hang : Quiet (Program.hang : BlockM α) :=
  ⟨nofun, nofun⟩

theorem bind (first : Quiet program) (rest : ∀ value, Quiet (next value)) :
    Quiet (program >>= next) where
  ok unit value after ran := by
    obtain ⟨middle, between, ran, ran'⟩ := Program.of_bind_ok ran
    exact ((rest middle).ok _ _ _ ran').trans (first.ok _ _ _ ran)
  err unit code after ran := by
    cases result : program unit with
    | ok value between =>
        rw [Program.bind_ok result] at ran
        exact ((rest value).err _ _ _ ran).trans (first.ok _ _ _ result)
    | err code' between =>
        rw [Program.bind_err result] at ran
        obtain ⟨rfl, rfl⟩ := Result.err.inj ran
        exact first.err _ _ _ result
    | fault => exact nomatch (Program.bind_fault result).symm.trans ran
    | hang => exact nomatch (Program.bind_hang result).symm.trans ran

theorem attempt (quiet : Quiet program) : Quiet (Program.attempt program) where
  ok unit value after ran := by
    cases result : program unit with
    | ok value between =>
        rw [Program.attempt_ok result] at ran
        obtain ⟨rfl, rfl⟩ := Result.ok.inj ran
        exact quiet.ok _ _ _ result
    | err code between =>
        rw [Program.attempt_err result] at ran
        obtain ⟨rfl, rfl⟩ := Result.ok.inj ran
        exact quiet.err _ _ _ result
    | fault => exact nomatch (Program.attempt_fault result).symm.trans ran
    | hang => exact nomatch (Program.attempt_hang result).symm.trans ran
  err unit code after ran := by
    cases result : program unit with
    | ok value between => exact nomatch (Program.attempt_ok result).symm.trans ran
    | err code between => exact nomatch (Program.attempt_err result).symm.trans ran
    | fault => exact nomatch (Program.attempt_fault result).symm.trans ran
    | hang => exact nomatch (Program.attempt_hang result).symm.trans ran

theorem ite {p : Prop} [Decidable p] {other : BlockM α} (first : Quiet program) (second : Quiet other) :
    Quiet (if p then program else other) := by
  split
  · exact first
  · exact second

theorem bcGet (blkno : Nat) (overw : Bool) : Quiet (bcGet blkno overw) := by
  have same (unit : Blocks) : unit.transfer.2.data = unit.data := (Blocks.transfer_freed unit).2.1
  constructor
  · intro unit value after ran
    unfold Hosted.bcGet at ran
    split_ifs at ran
    obtain rfl := (Result.ok.inj ran).2
    exact same unit
  · intro unit code after ran
    unfold Hosted.bcGet at ran
    split_ifs at ran
    · obtain rfl := (Result.err.inj ran).2
      rfl
    · obtain rfl := (Result.err.inj ran).2
      rfl
    · obtain rfl := (Result.err.inj ran).2
      exact same unit

theorem bcPut (blkno : Nat) : Quiet (bcPut blkno) := by
  constructor
  · intro unit value after ran
    unfold Hosted.bcPut at ran
    split_ifs at ran
    obtain rfl := (Result.ok.inj ran).2
    rfl
  · intro unit code after ran
    unfold Hosted.bcPut at ran
    split_ifs at ran
    obtain rfl := (Result.err.inj ran).2
    rfl

theorem readByte (blkno i : Nat) : Quiet (readByte blkno i) := by
  constructor
  · intro unit value after ran
    unfold Hosted.readByte at ran
    split_ifs at ran
    obtain rfl := (Result.ok.inj ran).2
    rfl
  · intro unit code after ran
    unfold Hosted.readByte at ran
    split_ifs at ran

theorem readBlock (blkno : Nat) : Quiet (readBlock blkno) :=
  ⟨fun _ _ _ ran => (Result.ok.inj ran).2 ▸ rfl, nofun⟩

end Quiet

end Pegasos.Hosted
