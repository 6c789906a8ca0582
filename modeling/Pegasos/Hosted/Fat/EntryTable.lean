import Pegasos.Hosted.Fat.ClusterChoice

/-!
# The FAT as a function

The functions of `cluster.c` on a volume all copies of whose FAT show the same numbers.
Transfers may fail; on a unit on which they do not, the functions return what they are for.
-/

namespace Pegasos.Hosted

open Pegasos.Support
open Fat (Sector)
open Function (update)

namespace FatVol

/-- All copies of the FAT have these entries. -/
def Shows (fv : FatVol) (data : Nat → Sector) (next : Nat → Nat) : Prop :=
  ∀ copy < fv.fatCount, ∀ c, fv.InFat c → fv.entryOf data copy c = next c

/-- The free clusters. -/
def frees (fv : FatVol) (next : Nat → Nat) : List Nat :=
  (List.range fv.nClus).filter fun c => 2 ≤ c ∧ next c = 0

/-- A FAT of 12-bit entries with an entry for each cluster. -/
structure Table (fv : FatVol) : Prop extends Geometry fv where
  some : 0 < fv.fatCount
  few : fv.nClus ≤ 0xff0
  entries : ∀ c < fv.nClus, fv.InFat c

/-- The sectors of the FAT. -/
def InTable (fv : FatVol) (blkno : Nat) : Prop :=
  fv.fat0sec ≤ blkno ∧ blkno < fv.fat0sec + fv.fatCount * fv.secPerFat

/-- What the functions change: the FAT, to these entries. -/
structure Changes (fv : FatVol) (next : Nat → Nat) (before after : Blocks) : Prop where
  shows : fv.Shows after.data next
  apart : ∀ blkno, ¬fv.InTable blkno → after.data blkno = before.data blkno
  freed : before.Freed after

variable {fv : FatVol} {data : Nat → Sector} {unit unit' : Blocks} {next next' : Nat → Nat}
  {c free value : Nat} {more : List Nat}

/-- The entries of the FAT depend on its own sectors only. -/
theorem entryOf_congr {data' : Nat → Sector} {copy : Nat}
    (same : ∀ blkno, fv.InTable blkno → data' blkno = data blkno) (isCopy : copy < fv.fatCount)
    (inFat : fv.InFat c) : fv.entryOf data' copy c = fv.entryOf data copy c := by
  have inside : ∀ i < fv.secPerFat * BLKSIZE, fv.fatBytes data' copy i = fv.fatBytes data copy i := by
    intro i small
    have row : i / BLKSIZE < fv.secPerFat := Nat.div_lt_of_lt_mul (by rwa [Nat.mul_comm])
    have rows : (copy + 1) * fv.secPerFat ≤ fv.fatCount * fv.secPerFat :=
      Nat.mul_le_mul_right _ isCopy
    rw [Nat.succ_mul] at rows
    rw [fatBytes, fatBytes]
    generalize i / BLKSIZE = sector at row
    rw [same _ ⟨by omega, by omega⟩]
  exact get12_congr (inside _ (Nat.lt_of_succ_lt inFat)) (inside _ inFat)

theorem entryOf_apart {blkno copy : Nat} (outside : ¬fv.InTable blkno) (isCopy : copy < fv.fatCount)
    (inFat : fv.InFat c) (sector : Sector) :
    fv.entryOf (update data blkno sector) copy c = fv.entryOf data copy c := by
  refine entryOf_congr (fun blkno' inTable => Function.update_of_ne ?_ _ _) isCopy inFat
  rintro rfl
  exact outside inTable

theorem mem_frees : c ∈ fv.frees next ↔ c < fv.nClus ∧ 2 ≤ c ∧ next c = 0 := by
  simp [frees]

/-- The first one of the free clusters is the least one. -/
theorem frees_cons (first : fv.frees next = free :: more) :
    2 ≤ free ∧ free < fv.nClus ∧ next free = 0 ∧ ∀ d, 2 ≤ d → d < free → next d ≠ 0 := by
  have member : free ∈ fv.frees next := first ▸ List.mem_cons_self
  obtain ⟨inRange, low, isFree⟩ := mem_frees.mp member
  refine ⟨low, inRange, isFree, fun d low' less isFree' => ?_⟩
  have other : d ∈ fv.frees next := mem_frees.mpr ⟨less.trans inRange, low', isFree'⟩
  have sorted : (fv.frees next).Pairwise (· < ·) := List.pairwise_lt_range.filter _
  rw [first] at other sorted
  rcases List.mem_cons.mp other with rfl | later
  · exact Nat.lt_irrefl _ less
  · exact Nat.lt_asymm less ((List.pairwise_cons.mp sorted).1 d later)

/-- A cluster is taken off the free ones. -/
theorem frees_update (first : fv.frees next = free :: more) (taken : value ≠ 0) :
    fv.frees (update next free value) = more := by
  have nodup : (fv.frees next).Nodup := List.nodup_range.filter _
  have same : fv.frees (update next free value) = (fv.frees next).filter (· ≠ free) := by
    rw [frees, frees, List.filter_filter]
    refine List.filter_congr fun c _ => ?_
    by_cases isFree : c = free
    · subst isFree
      simp [taken]
    · simp [isFree]
  rw [same, first, List.filter_cons_of_neg (by simp)]
  rw [first] at nodup
  refine List.filter_eq_self.mpr fun d member => ?_
  have apart : d ≠ free := fun same => (List.nodup_cons.mp nodup).1 (same ▸ member)
  simpa using apart

namespace Changes

theorem refl (shows : fv.Shows unit.data next) : fv.Changes next unit unit :=
  ⟨shows, fun _ _ => rfl, (Blocks.Kept.refl unit).freed⟩

theorem trans {last : Blocks} (first : fv.Changes next unit unit')
    (second : fv.Changes next' unit' last) : fv.Changes next' unit last where
  shows := second.shows
  apart blkno outside := (second.apart blkno outside).trans (first.apart blkno outside)
  freed := first.freed.trans second.freed

/-- The FAT is not changed. -/
theorem of_freed (shows : fv.Shows unit.data next) (freed : unit.Freed unit')
    (same : unit'.data = unit.data) : fv.Changes next unit unit' :=
  ⟨by rwa [same], fun blkno _ => by rw [same], freed⟩

end Changes

/-- How the functions fail. -/
def Fails (unit : Blocks) (code : Int) (after : Blocks) : Prop :=
  unit.Freed after ∧ code ≠ 0 ∧ ¬unit.Fine

theorem Fails.of_error {code : Int} (failed : unit.Freed unit' ∧ unit.GetError code) :
    Fails unit code unit' := ⟨failed.1, failed.2.ne_zero, failed.2.notFine⟩

theorem Fails.after {code : Int} {last : Blocks} (freed : unit.Freed unit')
    (fails : Fails unit' code last) : Fails unit code last :=
  ⟨freed.trans fails.1, fails.2.1, fun fine => fails.2.2 (freed.fine fine)⟩

/-- On a unit without failing transfers, the functions return. -/
theorem run_fine {α : Type} {program : BlockM α} {post : α → Blocks → Prop}
    (ends : Program.Ends program unit post (Fails unit)) (fine : unit.Fine) :
    ∃ value after, program unit = .ok value after ∧ post value after := by
  unfold Program.Ends at ends
  split at ends
  · next value after ran => exact ⟨value, after, ran, ends⟩
  · exact absurd fine ends.2.2
  · exact ends.elim
  · exact ends.elim

/-! ## The functions -/

theorem clusGetNext_table (table : fv.Table) (shows : fv.Shows unit.data next)
    (inRange : c < fv.nClus) :
    Program.Ends (fv.clusGetNext c) unit
      (fun value after => value = next c ∧ fv.Changes next unit after) (Fails unit) := by
  have inFat := table.entries c inRange
  refine (clusGetNext_ends table.toGeometry inFat unit).mono (fun value after read => ?_)
    fun code after failed => .of_error failed
  exact ⟨read.1.trans (shows 0 table.some c inFat), .of_freed shows read.2.1 read.2.2⟩

/-- Storing an entry in all copies. -/
theorem Shows.store (shows : fv.Shows data next) (low : c ≤ 340) (small : value < 0x1000) :
    fv.Shows (fv.fatStore data c value) (update next c value) := by
  intro copy isCopy d inFat
  rw [entryOf_fatStore isCopy low small inFat]
  by_cases same : d = c
  · subst same
    rw [if_pos rfl, Function.update_self]
  · rw [if_neg same, Function.update_of_ne same]
    exact shows copy isCopy d inFat

theorem fatStore_outside {blkno : Nat} (inFat : fv.InFat c) (outside : ¬fv.InTable blkno) :
    fv.fatStore data c value blkno = data blkno := by
  refine if_neg ?_
  rintro ⟨copy, isCopy, rfl⟩
  have rows : (copy + 1) * fv.secPerFat ≤ fv.fatCount * fv.secPerFat :=
    Nat.mul_le_mul_right _ isCopy
  have some : 0 < fv.secPerFat := Nat.pos_of_mul_pos_right (Nat.zero_lt_of_lt inFat)
  rw [Nat.succ_mul] at rows
  exact outside ⟨by omega, by omega⟩

theorem clusSetNext_table (table : fv.Table) (shows : fv.Shows unit.data next)
    (inRange : c < fv.nClus) (low : c ≤ 340) (small : value < 0x1000) :
    Program.Ends (fv.clusSetNext c value) unit
      (fun _ after => fv.Changes (update next c value) unit after) (Fails unit) := by
  have inFat := table.entries c inRange
  refine (clusSetNext_ends table.toGeometry inFat low unit).mono (fun _ after left => ?_)
    fun code after failed => .of_error failed
  refine ⟨left.2 ▸ shows.store low small, fun blkno outside => ?_, left.1⟩
  rw [left.2]
  exact fatStore_outside inFat outside

/-- The FAT is on a unit all of whose blocks can be got. -/
theorem Table.firstCopy (table : fv.Table) (fine : unit.Fine) : fv.FirstCopy unit.blocks :=
  ⟨table.toGeometry, (Nat.le_of_lt table.first).trans fine.blocks⟩

/-- On a unit without failing transfers, `clus_set_next` leaves the buffer for the other
entries. -/
theorem clusSetNext_table_fault (table : fv.Table) (fine : unit.Fine) (inRange : c < fv.nClus)
    (high : 340 < c) : fv.clusSetNext c value unit = .fault := by
  have firstCopy := table.firstCopy fine
  exact clusSetNext_fault (table.entries c inRange) high table.some firstCopy fine.room

/-- The first one of the free clusters is the one that `clus_alloc` looks for. -/
theorem leastFree_of_frees (table : fv.Table) (shows : fv.Shows data next)
    (first : fv.frees next = free :: more) : fv.LeastFree data free := by
  obtain ⟨low, inRange, isFree, taken⟩ := frees_cons first
  refine ⟨low, inRange, ?_, fun d low' less => ?_⟩
  · rw [shows 0 table.some free (table.entries free inRange)]
    exact isFree
  · rw [shows 0 table.some d (table.entries d (less.trans inRange))]
    exact taken d low' less

theorem clusAlloc_table (table : fv.Table) (shows : fv.Shows unit.data next)
    (first : fv.frees next = free :: more) (low : free ≤ 340) :
    Program.Ends fv.clusAlloc unit
      (fun taken after => taken = free ∧ fv.Changes (update next free 0xfff) unit after)
      (Fails unit) := by
  have least := leastFree_of_frees table shows first
  have exist := least.exist
  have inFat := table.entries free exist
  refine (clusAllocLoop_ends table.toGeometry inFat least (.inr low) (fv.nClus - 2) 2 unit none
    (Nat.le_refl 2) least.first (by omega) (Blocks.Kept.refl unit).freed rfl).mono
      (fun taken after left => ⟨left.1, ?_, fun blkno outside => ?_, left.2.1⟩)
      fun code after failed => .of_error failed
  · rw [left.2.2]
    exact shows.store low (by decide)
  · rw [left.2.2]
    exact fatStore_outside inFat outside

theorem clusAlloc_table_fault (table : fv.Table) (shows : fv.Shows unit.data next)
    (first : fv.frees next = free :: more) (fine : unit.Fine) (high : 340 < free) :
    fv.clusAlloc unit = .fault := by
  have least := leastFree_of_frees table shows first
  have firstCopy := table.firstCopy fine
  obtain ⟨base, kept, -, ran⟩ :=
    clusAlloc_reach firstCopy fine.room least (table.entries free least.exist)
  exact ran.trans (Program.bind_fault
    (clusSetNext_table_fault table (kept.freed.fine fine) least.exist high))

/-- What `clus_alloc` returns, and what it stores. -/
theorem clusAlloc_ok (table : fv.Table) {after : Blocks} (ran : fv.clusAlloc unit = .ok c after) :
    2 ≤ c ∧ c < fv.nClus ∧ c ≤ 340 ∧ fv.entryOf unit.data 0 c = 0 ∧
      after.data = fv.fatStore unit.data c 0xfff := by
  obtain ⟨low, less, isFree, before, same, ran'⟩ := clusAllocLoop_ok _ _ _ _ _ _ ran
  have inRange : c < fv.nClus := by omega
  have inFat := table.entries c inRange
  rw [nextOf_eq table.toGeometry inFat] at isFree
  obtain ⟨first, stored⟩ := clusSetNext_ok table.toGeometry inFat table.some ran'
  exact ⟨low, inRange, first, isFree, by rw [stored, same]⟩

end FatVol

end Pegasos.Hosted
