import Pegasos.Hosted.Fat.EntryUpdates

/-!
# The choice of a free cluster

`clus_alloc` on any volume, with transfers that may fail.  It takes the least cluster that
is free.  When no cluster is free it returns without putting back the block that it has read
last; and it cannot store the entry of a cluster from 341 on.
-/

namespace Pegasos.Hosted

open Pegasos.Support
open Fat (Sector)

namespace FatVol

/-- No cluster is free. -/
def NoneFree (fv : FatVol) (data : Nat → Sector) : Prop :=
  ∀ c, 2 ≤ c → c < fv.nClus → fv.entryOf data 0 c ≠ 0

/-- `clus_alloc` returns the least cluster that is free.  It returns `-ENOSPC` when there is
none, and has changed nothing then.  All blocks that it has got are put back. -/
def Chooses (fv : FatVol) (unit : Blocks) : Prop :=
  Program.Ends fv.clusAlloc unit
    (fun taken after => fv.LeastFree unit.data taken ∧ unit.Freed after)
    fun code after => unit.Freed after ∧
      (code = -ENOSPC → fv.NoneFree unit.data ∧ after.data = unit.data) ∧
      (fv.NoneFree unit.data → fv.FirstCopy unit.blocks → unit.Room 1 → code = -ENOSPC)

variable {fv : FatVol} {data : Nat → Sector} {unit base : Blocks} {c cluster next : Nat}

theorem LeastFree.notNone (least : fv.LeastFree data c) : ¬fv.NoneFree data :=
  fun none => none c least.first least.exist least.isFree

/-- There is a least one among the free clusters. -/
theorem leastFree_of_not_none (some : ¬fv.NoneFree data) : ∃ c, fv.LeastFree data c := by
  have exist : ∃ c, 2 ≤ c ∧ c < fv.nClus ∧ fv.entryOf data 0 c = 0 := by
    simpa [NoneFree] using some
  obtain ⟨first, inRange, isFree⟩ := Nat.find_spec exist
  refine ⟨Nat.find exist, first, inRange, isFree, fun d low less free => ?_⟩
  exact Nat.find_min exist less ⟨low, less.trans inRange, free⟩

section Turns

variable {post : Nat → Blocks → Prop} {failed : Int → Blocks → Prop}

/-- An entry is read while the block of its first byte is in use. -/
theorem readEntry_ends (base : Blocks) {sec0 sec1 low high : Nat} (rest : Nat → BlockM Nat)
    (lowByte : low < BLKSIZE) (highByte : high < BLKSIZE) (few : sec1 < 0x100000000)
    (next : ∀ base', base.Freed base' → base'.data = base.data →
      Program.Ends (rest (unpack12 c (base.data sec0 low) (base.data sec1 high)))
        (base'.hold sec1) post failed)
    (error : ∀ code base', base.Freed base' → base.GetError code → failed code base') :
    Program.Ends (do
      let first ← readByte sec0 low
      if sec1 ≠ sec0 then
        bcPut sec0
        bcGet sec1 false
      let second ← readByte sec1 high
      rest (unpack12 c first second) : BlockM Nat) (base.hold sec0) post failed := by
  refine Program.Ends.congr (Program.bind_ok (Blocks.readByte_ok lowByte)) ?_
  by_cases one : sec1 = sec0
  · subst one
    simp only [ne_eq, not_true_eq_false, if_false]
    refine Program.Ends.congr (Program.bind_ok (Blocks.readByte_ok highByte)) ?_
    exact next base (Blocks.Kept.refl base).freed rfl
  · have put := (Blocks.Kept.cycle base sec0).freed
    simp only [ne_eq, one, not_false_eq_true, if_true]
    refine Program.Ends.congr (Program.bind_ok (Blocks.bcPut_ok Blocks.mem_hold)) ?_
    refine Blocks.get_ends few (fun base' freed same => ?_)
      fun code base' freed failed => error code base' (put.trans freed) (put.getError failed)
    refine Program.Ends.congr (Program.bind_ok (Blocks.readByte_ok highByte)) ?_
    simp only [Blocks.hold_data, same, Blocks.release_data]
    exact next base' (put.trans freed) same

/-- One turn of the loop of `clus_alloc`, whatever the transfers do. -/
theorem clusAllocLoop_turn_ends (geometry : fv.Geometry) (inFat : fv.InFat c) (left : Nat)
    (blk : Option Nat)
    (next : ∀ base', base.Freed base' → base'.data = base.data →
      Program.Ends (fv.allocEntry left c (fv.fatSec (offset12 c + 1)) (fv.entryOf base.data 0 c))
        (base'.hold (fv.fatSec (offset12 c + 1))) post failed)
    (error : ∀ code base', base.Freed base' → base.GetError code → failed code base') :
    Program.Ends (fv.clusAllocLoop (left + 1) c blk) (holding base blk) post failed := by
  have lowByte : offset12 c % BLKSIZE < BLKSIZE := Nat.mod_lt _ (by decide)
  have highByte : (offset12 c + 1) % BLKSIZE < BLKSIZE := Nat.mod_lt _ (by decide)
  have lowFew := fv.fatSec_few (offset12 c)
  have highFew := fv.fatSec_few (offset12 c + 1)
  rw [entryOf_first geometry inFat] at next
  rw [clusAllocLoop]
  simp only [fatOffs_eq inFat, geometry.blksize]
  generalize fv.fatSec (offset12 c) = sec0 at *
  generalize fv.fatSec (offset12 c + 1) = sec1 at *
  by_cases same : blk = some sec0
  · subst same
    simp only [ne_eq, not_true_eq_false, if_false]
    exact readEntry_ends base (fv.allocEntry left c sec1) lowByte highByte highFew next error
  · simp only [ne_eq, same, not_false_eq_true, if_true]
    cases blk with
    | none =>
        refine Blocks.get_ends lowFew (fun base' freed same => ?_) error
        refine readEntry_ends base' (fv.allocEntry left c sec1) lowByte highByte highFew
          (fun base'' freed' same' => ?_)
          fun code base'' freed' failed => error code base'' (freed.trans freed')
            (freed.getError failed)
        rw [same]
        exact next base'' (freed.trans freed') (same'.trans same)
    | some blkno =>
        have put := (Blocks.Kept.cycle base blkno).freed
        refine Program.Ends.congr (Program.bind_ok (Blocks.bcPut_ok Blocks.mem_hold)) ?_
        refine Blocks.get_ends lowFew (fun base' freed same => ?_)
          fun code base' freed failed => error code base' (put.trans freed) (put.getError failed)
        refine readEntry_ends base' (fv.allocEntry left c sec1) lowByte highByte highFew
          (fun base'' freed' same' => ?_)
          fun code base'' freed' failed => error code base'' ((put.trans freed).trans freed')
            ((put.trans freed).getError failed)
        rw [same]
        exact next base'' ((put.trans freed).trans freed') (same'.trans same)

end Turns

/-- `clus_set_next`, for the entries that it can store. -/
theorem clusSetNext_stores (geometry : fv.Geometry) (inFat : fv.InFat cluster)
    (stores : fv.fatCount = 0 ∨ cluster ≤ 340) (unit : Blocks) :
    Program.Ends (fv.clusSetNext cluster next) unit
      (fun _ after => unit.Freed after ∧ after.data = fv.fatStore unit.data cluster next)
      fun code after => unit.Freed after ∧ unit.GetError code := by
  by_cases none : fv.fatCount = 0
  · have same : fv.fatStore unit.data cluster next = unit.data := by
      funext blkno
      refine if_neg ?_
      rintro ⟨copy, isCopy, -⟩
      omega
    rw [clusSetNext, none, same]
    exact ⟨(Blocks.Kept.refl unit).freed, rfl⟩
  · exact clusSetNext_ends geometry inFat (stores.resolve_left none) unit

/-- The loop of `clus_alloc` ends at the least cluster that is free. -/
theorem clusAllocLoop_ends {free : Nat} (geometry : fv.Geometry) (inFat : fv.InFat free)
    (least : fv.LeastFree unit.data free) (stores : fv.fatCount = 0 ∨ free ≤ 340) :
    ∀ left c base blk, 2 ≤ c → c ≤ free → free < c + left → unit.Freed base →
      base.data = unit.data →
        Program.Ends (fv.clusAllocLoop left c blk) (holding base blk)
          (fun taken after => taken = free ∧ unit.Freed after ∧
            after.data = fv.fatStore unit.data free 0xfff)
          fun code after => unit.Freed after ∧ unit.GetError code := by
  intro left
  induction left with
  | zero => intro c base blk _ before behind; omega
  | succ left ih =>
      intro c base blk first before behind freed same
      have inFat' : fv.InFat c := by
        unfold InFat offset12 at *
        omega
      refine clusAllocLoop_turn_ends geometry inFat' left blk (fun base' freed' same' => ?_)
        fun code base' freed' error => ⟨freed.trans freed', freed.getError error⟩
      have sofar := freed.trans freed'
      rw [same, allocEntry]
      by_cases here : c = free
      · subst here
        have put := sofar.trans (Blocks.Kept.cycle base' (fv.fatSec (offset12 c + 1))).freed
        rw [if_pos least.isFree]
        refine Program.Ends.congr (Program.bind_ok (Blocks.bcPut_ok Blocks.mem_hold)) ?_
        refine ((clusSetNext_stores geometry inFat stores _).mono (fun _ _ left => left)
          fun code after failed => ⟨put.trans failed.1, put.getError failed.2⟩).seq ?_
        intro _ after left
        refine ⟨rfl, put.trans left.1, left.2.trans ?_⟩
        simp [same', same]
      · rw [if_neg (least.taken c first (by omega))]
        exact ih (c + 1) base' _ (by omega) (by omega) (by omega) sofar (same'.trans same)

theorem readByte_value {i : Nat} {byte : UInt8} {after : Blocks}
    (ran : readByte blkno i unit = .ok byte after) : byte = unit.data blkno i ∧ after = unit := by
  unfold readByte at ran
  split_ifs at ran
  obtain ⟨rfl, rfl⟩ := Result.ok.inj ran
  exact ⟨rfl, rfl⟩

/-- An entry is read, where the program behind it returns. -/
theorem readEntry_ok {sec0 sec1 low high value : Nat} {after : Blocks} (rest : Nat → BlockM Nat)
    (ran : (do
      let first ← readByte sec0 low
      if sec1 ≠ sec0 then
        bcPut sec0
        bcGet sec1 false
      let second ← readByte sec1 high
      rest (unpack12 c first second) : BlockM Nat) unit = .ok value after) :
    ∃ unit' : Blocks, unit'.data = unit.data ∧
      rest (unpack12 c (unit.data sec0 low) (unit.data sec1 high)) unit' = .ok value after := by
  obtain ⟨first, unit1, ran1, ran⟩ := Program.of_bind_ok ran
  obtain ⟨rfl, rfl⟩ := readByte_value ran1
  by_cases one : sec1 = sec0
  · simp only [ne_eq, one, not_true_eq_false, if_false] at ran
    obtain ⟨second, unit2, ran2, ran⟩ := Program.of_bind_ok ran
    obtain ⟨rfl, rfl⟩ := readByte_value ran2
    rw [one]
    exact ⟨_, rfl, ran⟩
  · simp only [ne_eq, one, not_false_eq_true, if_true] at ran
    obtain ⟨⟨⟩, unit2, ran2, ran⟩ := Program.of_bind_ok ran
    obtain ⟨⟨⟩, unit3, ran3, ran⟩ := Program.of_bind_ok ran
    obtain ⟨second, unit4, ran4, ran⟩ := Program.of_bind_ok ran
    obtain ⟨rfl, rfl⟩ := readByte_value ran4
    have same := ((Quiet.bcGet _ _).ok _ _ _ ran3).trans ((Quiet.bcPut _).ok _ _ _ ran2)
    rw [same] at ran
    exact ⟨unit4, same, ran⟩

/-- What `clus_alloc` returns is a free cluster whose entry it has stored. -/
theorem clusAllocLoop_ok (left : Nat) : ∀ c blk unit value after,
    fv.clusAllocLoop left c blk unit = .ok value after →
      c ≤ value ∧ value < c + left ∧ fv.nextOf unit.data value = 0 ∧
        ∃ before : Blocks, before.data = unit.data ∧ fv.clusSetNext value 0xfff before = .ok () after := by
  induction left with
  | zero => exact fun c blk unit value after ran => nomatch ran
  | succ left ih =>
      intro c blk unit value after ran
      have entry : ∃ unit' : Blocks, unit'.data = unit.data ∧
          fv.allocEntry left c (fv.fatSec (fatOffs c + 1)) (fv.nextOf unit.data c) unit' =
            .ok value after := by
        rw [clusAllocLoop] at ran
        dsimp only at ran
        by_cases same : blk = some (fv.fatSec (fatOffs c))
        · simp only [ne_eq, same, not_true_eq_false, if_false] at ran
          exact readEntry_ok (fv.allocEntry left c (fv.fatSec (fatOffs c + 1))) ran
        · simp only [ne_eq, same, not_false_eq_true, if_true] at ran
          cases blk with
          | none =>
              obtain ⟨⟨⟩, unit1, ran1, ran⟩ := Program.of_bind_ok ran
              have same1 := (Quiet.bcGet _ _).ok _ _ _ ran1
              obtain ⟨unit2, same2, ran⟩ :=
                readEntry_ok (fv.allocEntry left c (fv.fatSec (fatOffs c + 1))) ran
              rw [same1] at same2 ran
              exact ⟨unit2, same2, ran⟩
          | some blkno =>
              obtain ⟨⟨⟩, unit0, ran0, ran⟩ := Program.of_bind_ok ran
              obtain ⟨⟨⟩, unit1, ran1, ran⟩ := Program.of_bind_ok ran
              have same1 := ((Quiet.bcGet _ _).ok _ _ _ ran1).trans ((Quiet.bcPut _).ok _ _ _ ran0)
              obtain ⟨unit2, same2, ran⟩ :=
                readEntry_ok (fv.allocEntry left c (fv.fatSec (fatOffs c + 1))) ran
              rw [same1] at same2 ran
              exact ⟨unit2, same2, ran⟩
      obtain ⟨unit', same, ran⟩ := entry
      unfold allocEntry at ran
      split_ifs at ran with isFree
      · obtain ⟨⟨⟩, unit1, ran1, ran⟩ := Program.of_bind_ok ran
        obtain ⟨⟨⟩, unit2, ran2, ran⟩ := Program.of_bind_ok ran
        obtain ⟨rfl, rfl⟩ := Result.ok.inj ran
        exact ⟨Nat.le_refl _, by omega, isFree, unit1, ((Quiet.bcPut _).ok _ _ _ ran1).trans same, ran2⟩
      · obtain ⟨first, last, free, before, same', ran⟩ := ih _ _ _ _ _ ran
        rw [same] at free same'
        exact ⟨by omega, by omega, free, before, same', ran⟩

theorem getError_ne {code : Int} (error : unit.GetError code)
    (device : -ENOSPC ∉ unit.transfers) : code ≠ -ENOSPC := by
  rintro rfl
  rcases error.source with memory | argument | transfer
  · exact absurd memory (by decide)
  · exact absurd argument (by decide)
  · exact device transfer.2

/-- Without a free cluster, the last block that has been read stays in use. -/
theorem not_chooses_of_full (firstCopy : fv.FirstCopy unit.blocks) (room : unit.Room 1)
    (entries : ∀ c, 2 ≤ c → c < fv.nClus → fv.InFat c) (some : 2 < fv.nClus)
    (isFull : fv.NoneFree unit.data) (unused : unit.inuse = []) : ¬fv.Chooses unit := by
  obtain ⟨base, blk, -, -, got, ran⟩ := clusAllocLoop_pass 0 (fv.nClus - 2) 2 unit none firstCopy
    room fun i less => ⟨entries _ (Nat.le_add_right 2 i) (by omega),
      isFull _ (Nat.le_add_right 2 i) (by omega)⟩
  cases blk with
  | none => exact absurd (got rfl).2 (by omega)
  | some blkno =>
      intro chooses
      have ended : fv.clusAlloc unit = .err (-ENOSPC) (base.hold blkno) := by
        rw [clusAlloc, ← Nat.zero_add (fv.nClus - 2)]
        exact ran
      rw [Chooses, Program.Ends, ended] at chooses
      have held := chooses.1.inuse.subset Blocks.mem_hold
      rw [unused] at held
      exact List.not_mem_nil held

/-- `clus_alloc` is right exactly if there are no clusters to look at, or the least free one
is one whose entry `clus_set_next` can store. -/
theorem clus_alloc_right (geometry : fv.Geometry)
    (entries : ∀ c, 2 ≤ c → c < fv.nClus → fv.InFat c) (data : Nat → Sector) :
    (∀ unit, unit.data = data → -ENOSPC ∉ unit.transfers → fv.Chooses unit) ↔
      fv.nClus ≤ 2 ∨ ∃ free, fv.LeastFree data free ∧ (fv.fatCount = 0 ∨ free ≤ 340) := by
  constructor
  · intro right
    by_contra wrong
    rw [not_or, Nat.not_le] at wrong
    obtain ⟨some, wrong⟩ := wrong
    let unit : Blocks :=
      { data := data, inuse := [], blocks := 0x100000000, buffers := 1, transfers := [] }
    have firstCopy : fv.FirstCopy unit.blocks := ⟨geometry, Nat.le_of_lt geometry.first⟩
    have room : unit.Room 1 := ⟨Nat.le_refl 1, rfl⟩
    have chooses := right unit rfl List.not_mem_nil
    by_cases isFull : fv.NoneFree data
    · exact not_chooses_of_full firstCopy room entries some isFull rfl chooses
    · obtain ⟨free, least⟩ := leastFree_of_not_none isFull
      have high := not_or.mp fun stores => wrong ⟨free, least, stores⟩
      have inFat := entries free least.first least.exist
      obtain ⟨base, kept, -, ran⟩ := clusAlloc_reach firstCopy room least inFat
      refine Program.not_ends_of_fault (ran.trans (Program.bind_fault ?_)) chooses
      exact clusSetNext_fault inFat (Nat.lt_of_not_le high.2) (Nat.pos_of_ne_zero high.1)
        (kept.blocks ▸ firstCopy) (kept.room room)
  · rintro (few | ⟨free, least, stores⟩) unit rfl device
    · have left : fv.nClus - 2 = 0 := by omega
      have none : fv.NoneFree unit.data := fun c first inRange => absurd inRange (by omega)
      rw [Chooses, clusAlloc, left]
      exact ⟨(Blocks.Kept.refl unit).freed, fun _ => ⟨none, rfl⟩, fun _ _ _ => rfl⟩
    · have first := least.first
      have exist := least.exist
      have ends := clusAllocLoop_ends geometry (entries free first exist) least stores
        (fv.nClus - 2) 2 unit none (Nat.le_refl 2) first (by omega) (Blocks.Kept.refl unit).freed rfl
      refine Program.Ends.mono ends (fun taken after found => ⟨found.1 ▸ least, found.2.1⟩) ?_
      intro code after failed
      refine ⟨failed.1, fun full => absurd full (getError_ne failed.2 device), fun none => ?_⟩
      exact absurd none least.notNone

/-- A floppy disk with all clusters free but the first one. -/
def oneTaken : Nat → Sector := fun blkno i => if blkno = 1 ∧ i = 3 then 0xff else 0

theorem floppy_entries (c : Nat) (inRange : c < floppy.nClus) : floppy.InFat c := by
  have few : c < 356 := inRange
  change c * 3 / 2 + 1 < 2 * 512
  omega

theorem clus_alloc_right_second : floppy.Chooses { blank with data := oneTaken } := by
  refine (clus_alloc_right floppy_geometry (fun c _ => floppy_entries c) oneTaken).mpr ?_ _ rfl
    List.not_mem_nil
  refine .inr ⟨3, ⟨by decide, by decide, by decide, ?_⟩, .inr (by decide)⟩
  intro d low less
  obtain rfl : d = 2 := by omega
  decide

/-- A floppy disk without a free cluster. -/
def full : Blocks :=
  { data := fun _ _ => 0xff, inuse := [], blocks := 720, buffers := 8, transfers := [] }

theorem full_noneFree : floppy.NoneFree full.data := by
  intro c _ _
  change unpack12 c 0xff 0xff ≠ 0
  unfold unpack12
  split <;> decide

/-- `clus_alloc` keeps a block when the disk is full. -/
theorem clus_alloc_keeps_block : ¬floppy.Chooses full :=
  not_chooses_of_full ⟨floppy_geometry, by decide⟩ ⟨by decide, rfl⟩ (fun c _ => floppy_entries c)
    (by decide) full_noneFree rfl

end FatVol

end Pegasos.Hosted
