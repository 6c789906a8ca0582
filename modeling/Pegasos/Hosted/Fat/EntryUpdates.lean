import Pegasos.Hosted.Fat.Entries

/-!
# Updates of an entry of the FAT

`clus_set_next` on any volume, with transfers that may fail.  It takes the offset of an
entry in the FAT for an offset in a sector: from cluster 341 on, it leaves the buffer of
the sector.
-/

namespace Pegasos.Hosted

open Pegasos.Support
open Fat (Sector direntAt)
open Function (update)

namespace FatVol

/-- The bytes of the entry of a cluster, in all copies of the FAT. -/
def EntryByte (fv : FatVol) (cluster blkno i : Nat) : Prop :=
  ∃ copy < fv.fatCount, ∃ offs, (offs = offset12 cluster ∨ offs = offset12 cluster + 1) ∧
    blkno = fv.fat0sec + copy * fv.secPerFat + offs / BLKSIZE ∧ i = offs % BLKSIZE

/-- All copies of the FAT have the number in the entry of the cluster, and nothing else is
changed. -/
structure Updated (fv : FatVol) (cluster next : Nat) (before after : Nat → Sector) : Prop where
  stored : ∀ copy < fv.fatCount, fv.entryOf after copy cluster = next
  others : ∀ copy < fv.fatCount, ∀ c, fv.InFat c → c ≠ cluster →
    fv.entryOf after copy c = fv.entryOf before copy c
  bytes : ∀ blkno i, ¬fv.EntryByte cluster blkno i → after blkno i = before blkno i

/-- `clus_set_next` stays in its buffers, and if it returns 0, the entry is updated and
`clus_get_next` returns it. -/
def SetsNext (fv : FatVol) (cluster next : Nat) (unit : Blocks) : Prop :=
  Program.Ends (fv.clusSetNext cluster next) unit
    (fun _ after => fv.Updated cluster next unit.data after.data ∧
      (0 < fv.fatCount → Program.Ends (fv.clusGetNext cluster) after
        (fun value _ => value = next) fun _ _ => True))
    fun _ _ => True

variable {fv : FatVol} {data : Nat → Sector} {unit : Blocks} {cluster next : Nat}

theorem fatStore_updated (data : Nat → Sector) (low : cluster ≤ 340) (small : next < 0x1000)
    (inFat : fv.InFat cluster) :
    fv.Updated cluster next data (fv.fatStore data cluster next) where
  stored copy isCopy := by rw [entryOf_fatStore isCopy low small inFat, if_pos rfl]
  others copy isCopy c inFat' other := by
    rw [entryOf_fatStore isCopy low small inFat', if_neg other]
  bytes blkno i apart := by
    unfold fatStore
    split
    · next isCopy =>
        obtain ⟨copy, isCopy, rfl⟩ := isCopy
        have highByte := low_offset low
        refine set12_apart ⟨fun first => apart ?_, fun second => apart ?_⟩
        · refine ⟨copy, isCopy, _, .inl rfl, ?_, ?_⟩
          · rw [Nat.div_eq_of_lt (Nat.lt_of_succ_lt highByte), Nat.add_zero]
          · rw [Nat.mod_eq_of_lt (Nat.lt_of_succ_lt highByte), first]
        · refine ⟨copy, isCopy, _, .inr rfl, ?_, ?_⟩
          · rw [Nat.div_eq_of_lt highByte, Nat.add_zero]
          · rw [Nat.mod_eq_of_lt highByte, second]
    · rfl

/-- The loop of `clus_set_next`, for an entry in the first sector of the FAT. -/
theorem clusSetNextLoop_ends (inFat : fv.InFat cluster) (low : cluster ≤ 340) :
    ∀ copies sec unit, sec + copies * fv.secPerFat < 0x100000000 →
      Program.Ends (fv.clusSetNextLoop cluster next copies sec sec) unit
        (fun _ after => unit.Freed after ∧
          after.data = fv.fatStoreFrom unit.data cluster next copies sec)
        fun code after => unit.Freed after ∧ unit.GetError code := by
  have rows : 0 < fv.secPerFat := Nat.pos_of_mul_pos_right (Nat.zero_lt_of_lt inFat)
  intro copies
  induction copies with
  | zero =>
      intro sec unit _
      exact ⟨(Blocks.Kept.refl unit).freed, (fatStoreFrom_zero sec).symm⟩
  | succ copies ih =>
      intro sec unit inside
      rw [Nat.succ_mul] at inside
      have step : word (sec + fv.secPerFat) = sec + fv.secPerFat := Nat.mod_eq_of_lt (by omega)
      simp only [clusSetNextLoop, fatOffs_eq inFat, ne_eq, not_true_eq_false, if_false, step]
      refine Blocks.get_ends (by omega) (fun unit' freed same => ?_)
        fun _ _ freed error => ⟨freed, error⟩
      refine Program.Ends.congr
        (setBytes_ran (fv.clusSetNextLoop cluster next copies _ _) low unit') ?_
      have put := freed.trans
        (Blocks.Kept.bracket unit' (stored12 unit'.data sec cluster next) sec).freed
      refine (ih (sec + fv.secPerFat) _ (by omega)).mono (fun _ after left => ?_)
        fun code after failed => ⟨put.trans failed.1, put.getError failed.2⟩
      refine ⟨put.trans left.1, left.2.trans ?_⟩
      rw [← fatStoreFrom_succ rows, ← same]
      rfl

/-- `clus_set_next`, for an entry in the first sector of the FAT. -/
theorem clusSetNext_ends (geometry : fv.Geometry) (inFat : fv.InFat cluster) (low : cluster ≤ 340)
    (unit : Blocks) :
    Program.Ends (fv.clusSetNext cluster next) unit
      (fun _ after => unit.Freed after ∧ after.data = fv.fatStore unit.data cluster next)
      fun code after => unit.Freed after ∧ unit.GetError code := by
  have highByte := low_offset low
  rw [clusSetNext, fatOffs_eq inFat, geometry.fatSec_eq inFat,
    geometry.fatSec_eq (Nat.lt_of_succ_lt inFat), Nat.div_eq_of_lt highByte,
    Nat.div_eq_of_lt (Nat.lt_of_succ_lt highByte)]
  exact clusSetNextLoop_ends inFat low _ _ unit geometry.copies

/-- Where `clus_set_next` returns 0, it has found the bytes of the entry in the first sector. -/
theorem clusSetNext_ok (geometry : fv.Geometry) (inFat : fv.InFat cluster) (copies : 0 < fv.fatCount)
    {after : Blocks} (ran : fv.clusSetNext cluster next unit = .ok () after) :
    cluster ≤ 340 ∧ after.data = fv.fatStore unit.data cluster next := by
  have low : cluster ≤ 340 := by
    obtain ⟨rest, count⟩ := Nat.exists_eq_add_of_lt copies
    rw [clusSetNext, count, Nat.zero_add, clusSetNextLoop, fatOffs_eq inFat] at ran
    obtain ⟨⟨⟩, unit1, -, ran⟩ := Program.of_bind_ok ran
    obtain ⟨first, unit2, -, ran⟩ := Program.of_bind_ok ran
    obtain ⟨⟨⟩, unit3, -, ran⟩ := Program.of_bind_ok ran
    have inside : ∃ sec unit4 second unit5,
        readByte sec (offset12 cluster + 1) unit4 = .ok second unit5 := by
      by_cases one : fv.fatSec (offset12 cluster + 1) = fv.fatSec (offset12 cluster)
      · simp only [ne_eq, one, not_true_eq_false, if_false] at ran
        obtain ⟨second, unit4, ran, -⟩ := Program.of_bind_ok ran
        exact ⟨_, unit3, second, unit4, ran⟩
      · simp only [ne_eq, one, not_false_eq_true, if_true] at ran
        obtain ⟨⟨⟩, unit4, -, ran⟩ := Program.of_bind_ok ran
        obtain ⟨⟨⟩, unit5, -, ran⟩ := Program.of_bind_ok ran
        obtain ⟨second, unit6, ran, -⟩ := Program.of_bind_ok ran
        exact ⟨_, unit5, second, unit6, ran⟩
    obtain ⟨sec, unit4, second, unit5, ran⟩ := inside
    unfold readByte at ran
    split_ifs at ran with less
    unfold offset12 BLKSIZE at less
    omega
  have ends : Program.Ends (fv.clusSetNext cluster next) unit _ _ :=
    clusSetNext_ends geometry inFat low unit
  rw [Program.Ends, ran] at ends
  exact ⟨low, ends.2⟩

theorem fatSec_few (fv : FatVol) (i : Nat) : fv.fatSec i < 0x100000000 := Nat.mod_lt _ (by decide)

/-- What `clus_get_next` reads for any cluster number. -/
def nextOf (fv : FatVol) (data : Nat → Sector) (c : Nat) : Nat :=
  unpack12 c (data (fv.fatSec (fatOffs c)) (fatOffs c % fv.blksize))
    (data (fv.fatSec (fatOffs c + 1)) ((fatOffs c + 1) % fv.blksize))

/-- `clus_get_next`, for any cluster number. -/
theorem clusGetNext_reads (sized : fv.blksize = BLKSIZE) (c : Nat) (unit : Blocks) :
    Program.Ends (fv.clusGetNext c) unit
      (fun value after => value = fv.nextOf unit.data c ∧ unit.Freed after ∧ after.data = unit.data)
      fun code after => unit.Freed after ∧ unit.GetError code := by
  have lowByte : fatOffs c % BLKSIZE < BLKSIZE := Nat.mod_lt _ (by decide)
  have highByte : (fatOffs c + 1) % BLKSIZE < BLKSIZE := Nat.mod_lt _ (by decide)
  have lowFew := fv.fatSec_few (fatOffs c)
  have highFew := fv.fatSec_few (fatOffs c + 1)
  simp only [clusGetNext, nextOf, sized]
  generalize fv.fatSec (fatOffs c) = sec0 at *
  generalize fv.fatSec (fatOffs c + 1) = sec1 at *
  refine Blocks.get_ends lowFew (fun unit' freed same => ?_) fun _ _ freed error => ⟨freed, error⟩
  have put := freed.trans (Blocks.Kept.cycle unit' sec0).freed
  refine Program.Ends.congr (Program.bind_ok (Blocks.readByte_ok lowByte)) ?_
  by_cases one : sec1 = sec0
  · subst one
    simp only [ne_eq, not_true_eq_false, if_false]
    refine Program.Ends.congr (Program.bind_ok (Blocks.readByte_ok highByte)) ?_
    refine Program.Ends.congr (Program.bind_ok (Blocks.bcPut_ok Blocks.mem_hold)) ?_
    exact ⟨by simp [same], put, same⟩
  · simp only [ne_eq, one, not_false_eq_true, if_true]
    refine Program.Ends.congr (Program.bind_ok (Blocks.bcPut_ok Blocks.mem_hold)) ?_
    refine Blocks.get_ends highFew (fun unit'' freed' same' => ?_)
      fun _ _ freed' error => ⟨put.trans freed', put.getError error⟩
    refine Program.Ends.congr (Program.bind_ok (Blocks.readByte_ok highByte)) ?_
    refine Program.Ends.congr (Program.bind_ok (Blocks.bcPut_ok Blocks.mem_hold)) ?_
    exact ⟨by simp [same, same'],
      put.trans (freed'.trans (Blocks.Kept.cycle unit'' sec1).freed), by simp [same, same']⟩

/-- What is read for a cluster with an entry. -/
theorem nextOf_eq (geometry : fv.Geometry) (inFat : fv.InFat c) (data : Nat → Sector) :
    fv.nextOf data c = fv.entryOf data 0 c := by
  rw [nextOf, entryOf_first geometry inFat, fatOffs_eq inFat, geometry.blksize]

/-- `clus_get_next`, for any entry. -/
theorem clusGetNext_ends (geometry : fv.Geometry) (inFat : fv.InFat cluster) (unit : Blocks) :
    Program.Ends (fv.clusGetNext cluster) unit
      (fun value after => value = fv.entryOf unit.data 0 cluster ∧ unit.Freed after ∧
        after.data = unit.data)
      fun code after => unit.Freed after ∧ unit.GetError code := by
  rw [← nextOf_eq geometry inFat]
  exact clusGetNext_reads geometry.blksize cluster unit

/-- From cluster 341 on, `clus_set_next` leaves the buffer of a sector. -/
theorem clusSetNext_fault (inFat : fv.InFat cluster) (high : 340 < cluster)
    (copies : 0 < fv.fatCount) (firstCopy : fv.FirstCopy unit.blocks) (room : unit.Room 1) :
    fv.clusSetNext cluster next unit = .fault := by
  have beyond : ¬offset12 cluster + 1 < BLKSIZE := by
    unfold offset12 BLKSIZE
    omega
  obtain ⟨later, count⟩ : ∃ later, fv.fatCount = later + 1 := ⟨_, (Nat.succ_pred copies.ne').symm⟩
  have lowOn := firstCopy.fatSec_lt (Nat.lt_of_succ_lt inFat)
  have highOn := firstCopy.fatSec_lt inFat
  have outside : ∀ unit', readByte (fv.fatSec (offset12 cluster + 1)) (offset12 cluster + 1) unit' =
      .fault := fun _ => if_neg beyond
  simp only [clusSetNext, count, clusSetNextLoop, fatOffs_eq inFat]
  rw [Program.bind_ok (Blocks.bcGet_ok room lowOn _)]
  by_cases low : offset12 cluster < BLKSIZE
  · -- the second byte lies in the second sector, at an offset of 512
    have apart : fv.fatSec (offset12 cluster + 1) ≠ fv.fatSec (offset12 cluster) := by
      rw [firstCopy.fatSec_eq inFat, firstCopy.fatSec_eq (Nat.lt_of_succ_lt inFat)]
      have last : offset12 cluster = 511 := by
        unfold BLKSIZE at low beyond
        omega
      rw [last]
      unfold BLKSIZE
      omega
    rw [Program.bind_ok (Blocks.readByte_ok low), Program.bind_ok (Blocks.writeByte_ok low _)]
    simp only [ne_eq, apart, not_false_eq_true, if_true]
    refine (Program.bind_ok (Blocks.bcPut_ok (by simp))).trans ?_
    have again : Blocks.Room (((unit.hold (fv.fatSec (offset12 cluster))).setData
        (fv.fatSec (offset12 cluster)) (update (unit.data (fv.fatSec (offset12 cluster)))
          (offset12 cluster) (packLow12 cluster next
            (unit.data (fv.fatSec (offset12 cluster)) (offset12 cluster))))).release
        (fv.fatSec (offset12 cluster))) 1 := (Blocks.Kept.bracket unit _ _).room room
    refine (Program.bind_ok (Blocks.bcGet_ok again highOn _)).trans ?_
    exact Program.bind_fault (if_neg beyond)
  · exact Program.bind_fault (if_neg low)

/-- `clus_set_next` is right exactly for the entries in the first sector of the FAT. -/
theorem clus_set_next_right (geometry : fv.Geometry) (inFat : fv.InFat cluster) :
    (∀ next < 0x1000, ∀ unit, fv.SetsNext cluster next unit) ↔
      fv.fatCount = 0 ∨ cluster ≤ 340 := by
  constructor
  · intro right
    by_contra wrong
    rw [not_or, Nat.not_le] at wrong
    let unit : Blocks :=
      { data := fun _ _ => 0, inuse := [], blocks := 0x100000000, buffers := 1, transfers := [] }
    have firstCopy : fv.FirstCopy unit.blocks := ⟨geometry, Nat.le_of_lt geometry.first⟩
    exact Program.not_ends_of_fault (clusSetNext_fault inFat wrong.2 (Nat.pos_of_ne_zero wrong.1)
      firstCopy ⟨Nat.le_refl 1, rfl⟩) (right 0 (by decide) unit)
  · intro low next small unit
    by_cases none : fv.fatCount = 0
    · rw [SetsNext, clusSetNext, none]
      refine ⟨⟨?_, ?_, fun _ _ _ => rfl⟩, fun some => absurd some (Nat.lt_irrefl 0)⟩
      · exact fun copy isCopy => absurd isCopy (by omega)
      · exact fun copy isCopy => absurd isCopy (by omega)
    · have inFirst := low.resolve_left none
      refine (clusSetNext_ends geometry inFat inFirst unit).mono (fun _ after left => ?_)
        fun _ _ _ => trivial
      have updated := fatStore_updated unit.data inFirst small inFat
      rw [← left.2] at updated
      refine ⟨updated, fun copies => (clusGetNext_ends geometry inFat after).mono
        (fun value _ read => ?_) fun _ _ _ => trivial⟩
      rw [read.1]
      exact updated.stored 0 copies

/-- A floppy disk of 360 KB. -/
def floppy : FatVol where
  bpb :=
    { bytesPerSector := 512, sectorPerCluster := 2, reservedSectors := 1, fatCount := 2,
      rootEntries := 112, totalSectors := 720, sectorsPerFat := 2, hiddenSectors := 0 }
  fat0sec := 1
  rootdirsec := 5
  datasec := 12
  nClus := 356
  openfiles _ := ⟨false, 0, ⟨0, 0, direntAt (fun _ => 0) 0⟩, 0⟩

theorem floppy_geometry : floppy.Geometry := ⟨by decide, by decide, by decide⟩

/-- A blank unit of 720 blocks. -/
def blank : Blocks :=
  { data := fun _ _ => 0, inuse := [], blocks := 720, buffers := 8, transfers := [] }

theorem clus_set_next_right_first : floppy.SetsNext 340 0xfff blank :=
  have inFat : floppy.InFat 340 := (by decide : offset12 340 + 1 < 2 * BLKSIZE)
  (clus_set_next_right floppy_geometry inFat).mpr (.inr (by decide)) 0xfff (by decide) blank

/-- The entry of cluster 341 of a floppy disk. -/
theorem clus_set_next_fault : ¬floppy.SetsNext 341 0xfff blank :=
  Program.not_ends_of_fault (clusSetNext_fault (by decide : _ < _) (by decide) (by decide)
    ⟨floppy_geometry, by decide⟩ ⟨by decide, rfl⟩)

end FatVol

end Pegasos.Hosted
