import Pegasos.Kernel.Fat.Dir
import Pegasos.Kernel.Fat.Mount
import Pegasos.Kernel.Fat.SectorWalk
import Pegasos.Support.FirstStop

/-!
# Searching a directory

The loop of `dir_find_ent` visits the slots of one cluster after the other.  It ends unless
the chain of the directory leads around, and no cluster of it holds what is looked for.
-/

namespace Pegasos.Kernel.Fat

open Pegasos.Support
open Pegasos.Fat (Sector Dirent direntAt Slot Scan scan slotAt slotsFrom slotAt_succ entryCount pred16 pred16_eq isFound
  entryCount_pos entryCount_le entryCount_mod
  pathParseFn)
open Cache (BlkPtr)

/-- What `dir_find_ent` returns for a slot. -/
def infoAt (data : Nat → Sector) (slot : Slot) : FileInfo where
  ino := fatIno slot.sec slot.offs
  dir := slot.dirent data

theorem infoAt_dir (data : Nat → Sector) (slot : Slot) : (infoAt data slot).dir = slot.dirent data := rfl

namespace FatVol

variable {fv : FatVol} {data : Nat → Sector} {base : BlkPtr → Nat} {disk : Disk} {b : BlkPtr}
  {key : Option (Fin 11 → UInt8)}

/-- A block has been got. -/
structure Holds (fv : FatVol) (data : Nat → Sector) (base : BlkPtr → Nat) (disk : Disk)
    (b : BlkPtr) (blkno : Nat) : Prop where
  serves : Serves fv.dev fv.unit data base disk [b]
  tag : (disk.cache.blocks b).tag = fv.tag blkno
  bytes : (disk.cache.blocks b).data = data blkno

theorem get_holds (others : Others base) (serves : Serves fv.dev fv.unit data base disk [])
    (blkno : Nat) : ∃ b after, bcGet (fv.tag blkno) disk = .ok b after ∧
      fv.Holds data base after b blkno ∧ Leaves fv.dev fv.unit data base disk [b] after ∧
      after.gets ≤ disk.gets + 1 := by
  obtain ⟨b, after, ran, tag, bytes, got⟩ := serves.gets others (Nat.zero_le 1) blkno
  exact ⟨b, after, ran, ⟨got.serves, tag, bytes⟩, got, Asks.bcGet _ _ _ _ ran⟩

/-- How the search of some slots, which gets so many blocks at most, ends. -/
inductive Searched (fv : FatVol) (data : Nat → Sector) (base : BlkPtr → Nat) (disk : Disk)
    (gets : Nat) (behind : DiskM FileInfo) (ran : Result Disk FileInfo) :
    Scan → Prop where
  | found {slot : Slot} {after : Disk} (eq : ran = .ok (infoAt data slot) after)
      (leaves : Leaves fv.dev fv.unit data base disk [] after)
      (few : after.gets ≤ disk.gets + gets) : Searched fv data base disk gets behind ran (.found slot)
  | ended {after : Disk} (eq : ran = .err (-ENOENT) after)
      (few : after.gets ≤ disk.gets + gets) : Searched fv data base disk gets behind ran .ended
  | through {after : Disk} (eq : ran = behind after)
      (leaves : Leaves fv.dev fv.unit data base disk [] after)
      (few : after.gets ≤ disk.gets + gets) : Searched fv data base disk gets behind ran .through

/-- What `dir_find_ent` does behind the last slot of a cluster. -/
def behindCluster (fv : FatVol) (key : Option (Fin 11 → UInt8)) (fuel cluster : Nat) :
    DiskM FileInfo :=
  if cluster = 0 then .throw (-ENOENT)
  else do
    let next ← fv.clusGetNext cluster
    if 0xff0 ≤ next then .throw (-ENOENT)
    else
      let blk ← bcGet (fv.tag (fv.clusSector next))
      fv.dirFindEntLoop key fuel next blk (fv.clusSector next) 0 fv.clusEntries

/-- The search of slots on a disk that is left by something in front of it. -/
theorem Searched.behind {disk' : Disk} {held : List BlkPtr} {gets gets' : Nat}
    {behind : DiskM FileInfo} {ran : Result Disk FileInfo} {result : Scan}
    (left : Leaves fv.dev fv.unit data base disk held disk')
    (searched : fv.Searched data base disk' gets' behind ran result)
    (few : disk'.gets + gets' ≤ disk.gets + gets) :
    fv.Searched data base disk gets behind ran result := by
  cases searched with
  | found eq leaves few' => exact .found eq (left.trans leaves) (few'.trans few)
  | ended eq few' => exact .ended eq (few'.trans few)
  | through eq leaves few' => exact .through eq (left.trans leaves) (few'.trans few)

/-- What the loop of `dir_find_ent` does in one turn, with `m` slots behind this one. -/
inductive Turn (fv : FatVol) (data : Nat → Sector) (base : BlkPtr → Nat)
    (key : Option (Fin 11 → UInt8)) (start fuel cluster m j : Nat) (disk : Disk)
    (ran : Result Disk FileInfo) : Prop where
  | ended (empty : key ≠ none ∧ ((slotAt start j).dirent data).name 0 = 0)
      (eq : ran = .err (-ENOENT) disk) : Turn fv data base key start fuel cluster m j disk ran
  | found {after : Disk} (more : ¬(key ≠ none ∧ ((slotAt start j).dirent data).name 0 = 0))
      (here : isFound key ((slotAt start j).dirent data) = true)
      (eq : ran = .ok (infoAt data (slotAt start j)) after)
      (leaves : Leaves fv.dev fv.unit data base disk [] after) (few : after.gets ≤ disk.gets) :
      Turn fv data base key start fuel cluster m j disk ran
  | last {after : Disk} (more : ¬(key ≠ none ∧ ((slotAt start j).dirent data).name 0 = 0))
      (other : ¬isFound key ((slotAt start j).dirent data) = true) (none : m = 0)
      (eq : ran = fv.behindCluster key fuel cluster after)
      (leaves : Leaves fv.dev fv.unit data base disk [] after) (few : after.gets ≤ disk.gets) :
      Turn fv data base key start fuel cluster m j disk ran
  | next {b : BlkPtr} {after : Disk} {held : List BlkPtr}
      (more : ¬(key ≠ none ∧ ((slotAt start j).dirent data).name 0 = 0))
      (other : ¬isFound key ((slotAt start j).dirent data) = true) (some : 0 < m)
      (eq : ran = fv.dirFindEntLoop key fuel cluster b (slotAt start (j + 1)).sec
        (slotAt start (j + 1)).offs (m % 0x10000) after)
      (holds : fv.Holds data base after b (slotAt start (j + 1)).sec)
      (leaves : Leaves fv.dev fv.unit data base disk held after)
      (few : after.gets ≤ disk.gets + (j % 16 + 1) / 16) :
      Turn fv data base key start fuel cluster m j disk ran

theorem dirFindEntLoop_turn (sized : fv.blksize = BLOCK_SIZE) (others : Others base)
    (start fuel cluster m j : Nat) (few : m < 0x10000)
    (key : Option (Fin 11 → UInt8)) (holds : fv.Holds data base disk b (slotAt start j).sec) :
    fv.Turn data base key start fuel cluster m j disk
      (fv.dirFindEntLoop key (fuel + 1) cluster b (slotAt start j).sec (slotAt start j).offs
        ((m + 1) % 0x10000) disk) := by
  have block : readBlock b disk = .ok (data (slotAt start j).sec) disk := by
    rw [← holds.bytes]
    rfl
  have number : readBlkno b disk = .ok (slotAt start j).sec disk := by
    rw [readBlkno, Program.peek_apply, holds.tag]
    rfl
  have small : m % 0x10000 = m := Nat.mod_eq_of_lt few
  have sector : (slotAt start j).offs + direntSize = fv.blksize ↔ j % 16 = 15 := by
    rw [sized]
    change j % 16 * 32 + 32 = 512 ↔ _
    omega
  rw [dirFindEntLoop, Program.bind_ok block, pred16_eq (Nat.succ_pos m) few, Nat.succ_sub_one, small]
  change fv.Turn _ _ _ _ _ _ _ _ _ ((if key ≠ none ∧ ((slotAt start j).dirent data).name 0 = 0 then
    _ else if isFound key ((slotAt start j).dirent data) then _ else _ : DiskM FileInfo) disk)
  by_cases ended : key ≠ none ∧ ((slotAt start j).dirent data).name 0 = 0
  · rw [if_pos ended]
    exact .ended ended rfl
  rw [if_neg ended]
  obtain ⟨⟨⟩, disk1, ran1, put⟩ := holds.serves.puts others (Nat.zero_le 1)
  have same := Asks.bcPut b _ _ _ ran1
  by_cases found : isFound key ((slotAt start j).dirent data) = true
  · rw [if_pos found, Program.bind_ok number, Program.bind_ok ran1]
    exact .found ended found rfl put same
  rw [if_neg found]
  by_cases last : m = 0
  · rw [if_pos last, Program.bind_ok ran1]
    exact .last ended found last rfl put same
  rw [if_neg last]
  by_cases row : j % 16 = 15
  · obtain ⟨b', disk2, ran2, holds2, got, more⟩ :=
      get_holds others put.serves (word ((slotAt start j).sec + 1))
    have behind := (slotAt_succ start j).1 row
    rw [if_pos (sector.mpr row), Program.bind_ok ran1, Program.bind_ok ran2]
    have holds' : fv.Holds data base disk2 b' (slotAt start (j + 1)).sec := by
      rw [behind]
      exact holds2
    refine .next ended found (Nat.pos_of_ne_zero last) ?_ holds' (put.trans got) (by omega)
    rw [behind, small]
  · have behind := (slotAt_succ start j).2 row
    rw [if_neg (mt sector.mp row)]
    have holds' : fv.Holds data base disk b (slotAt start (j + 1)).sec := by
      rw [behind]
      exact holds
    refine .next ended found (Nat.pos_of_ne_zero last) ?_ holds' holds.serves.leaves
      (Nat.le_add_right _ _)
    rw [behind, small]

/-- The loop of `dir_find_ent` on the slots of one cluster. -/
theorem dirFindEntLoop_runs (sized : fv.blksize = BLOCK_SIZE) (others : Others base)
    (key : Option (Fin 11 → UInt8)) (start fuel cluster : Nat) : ∀ m j b disk, 0 < m → m ≤ 0x10000 →
      fv.Holds data base disk b (slotAt start j).sec →
        fv.Searched data base disk ((j % 16 + m - 1) / 16) (fv.behindCluster key fuel cluster)
          (fv.dirFindEntLoop key (fuel + m) cluster b (slotAt start j).sec (slotAt start j).offs
            (m % 0x10000) disk)
          (scan data key ((List.range' j m).map (slotAt start))) := by
  intro m
  induction m with
  | zero => exact fun j b disk some => absurd some (Nat.lt_irrefl 0)
  | succ m ih =>
      intro j b disk _ most holds
      rw [List.range'_succ, List.map_cons, scan, ← Nat.add_assoc fuel m 1]
      cases dirFindEntLoop_turn sized others start (fuel + m) cluster m j most key holds with
      | ended empty eq =>
          rw [if_pos empty]
          exact .ended eq (Nat.le_add_right _ _)
      | found more here eq leaves few =>
          rw [if_neg more, if_pos here]
          exact .found eq leaves (by omega)
      | last more other none eq leaves few =>
          rw [if_neg more, if_neg other]
          subst none
          exact .through eq leaves (by omega)
      | next more other some eq holds' leaves few =>
          rw [if_neg more, if_neg other, eq]
          exact (ih (j + 1) _ _ some (Nat.le_of_succ_le most) holds').behind leaves (by omega)

/-- With fewer turns than there are slots the loop does not end, if it finds nothing. -/
theorem dirFindEntLoop_hangs (sized : fv.blksize = BLOCK_SIZE) (others : Others base)
    (key : Option (Fin 11 → UInt8)) (start cluster : Nat) : ∀ fuel m j b disk, fuel < m → m ≤ 0x10000 →
      fv.Holds data base disk b (slotAt start j).sec →
        scan data key ((List.range' j m).map (slotAt start)) = .through →
          fv.dirFindEntLoop key fuel cluster b (slotAt start j).sec (slotAt start j).offs
            (m % 0x10000) disk = .hang := by
  intro fuel
  induction fuel with
  | zero => exact fun m j b disk less most holds through => rfl
  | succ fuel ih =>
      intro m j b disk less most holds through
      obtain ⟨m, rfl⟩ := Nat.exists_eq_succ_of_ne_zero (Nat.ne_zero_of_lt less)
      rw [List.range'_succ, List.map_cons, scan] at through
      cases dirFindEntLoop_turn sized others start fuel cluster m j most key holds with
      | ended empty eq =>
          rw [if_pos empty] at through
          cases through
      | found more here eq leaves few =>
          rw [if_neg more, if_pos here] at through
          cases through
      | last more other none eq leaves few => omega
      | next more other some eq holds' leaves few =>
          rw [if_neg more, if_neg other] at through
          rw [eq]
          exact ih m (j + 1) _ _ (Nat.lt_of_succ_lt_succ less) (Nat.le_of_succ_le most) holds' through

/-! ## From cluster to cluster -/

/-- The slots of a cluster. -/
def clusterSlots (fv : FatVol) (c : Nat) : List Slot :=
  slotsFrom (fv.clusSector c) (entryCount fv.clusEntries)

/-- The blocks that are got for a cluster of a directory. -/
def clusterGets (fv : FatVol) : Nat := (entryCount fv.clusEntries - 1) / 16 + 3

/-- The search of a directory ends with this cluster. -/
def Stops (fv : FatVol) (data : Nat → Sector) (key : Option (Fin 11 → UInt8)) (c : Nat) : Prop :=
  scan data key (fv.clusterSlots c) ≠ .through ∨ c = 0 ∨ 0xff0 ≤ fv.nextOf data c

/-- How the search of a directory, which gets so many blocks at most, ends. -/
inductive Ended (fv : FatVol) (data : Nat → Sector) (base : BlkPtr → Nat) (disk : Disk)
    (gets : Nat) (ran : Result Disk FileInfo) : Scan → Prop where
  | found {slot : Slot} {after : Disk} (eq : ran = .ok (infoAt data slot) after)
      (leaves : Leaves fv.dev fv.unit data base disk [] after)
      (few : after.gets ≤ disk.gets + gets) : Ended fv data base disk gets ran (.found slot)
  | missing {result : Scan} {after : Disk} (none : ∀ slot, result ≠ .found slot)
      (eq : ran = .err (-ENOENT) after) (few : after.gets ≤ disk.gets + gets) :
      Ended fv data base disk gets ran result

theorem Ended.behind {disk' : Disk} {held : List BlkPtr} {gets gets' : Nat}
    {ran : Result Disk FileInfo} {result : Scan}
    (left : Leaves fv.dev fv.unit data base disk held disk')
    (ended : fv.Ended data base disk' gets' ran result)
    (few : disk'.gets + gets' ≤ disk.gets + gets) : fv.Ended data base disk gets ran result := by
  cases ended with
  | found eq leaves few' => exact .found eq (left.trans leaves) (few'.trans few)
  | missing none eq few' => exact .missing none eq (few'.trans few)

theorem asks_clusGetNext (c : Nat) : Asks 2 (fv.clusGetNext c) := by
  unfold clusGetNext
  refine (Asks.bcGet _).bind (m := 1) fun blk => ?_
  refine ((Asks.readByte _ _).bind (m := 1) fun low => ?_).mono (by decide)
  split
  · refine ((Asks.bcPut _).bind (m := 1) fun _ => ?_).mono (by decide)
    refine ((Asks.bcGet _).bind (m := 0) fun blk => ?_).mono (by decide)
    refine ((Asks.readByte _ _).bind (m := 0) fun high => ?_).mono (by decide)
    exact ((Asks.bcPut _).bind fun _ => .pure _).mono (by decide)
  · refine ((Asks.readByte _ _).bind (m := 0) fun high => ?_).mono (by decide)
    exact ((Asks.bcPut _).bind fun _ => .pure _).mono (by decide)

/-- Behind the last cluster of a directory. -/
theorem behindCluster_last (key : Option (Fin 11 → UInt8)) (sized : fv.blksize = BLOCK_SIZE) (others : Others base)
    (serves : Serves fv.dev fv.unit data base disk []) (fuel c : Nat)
    (last : c = 0 ∨ 0xff0 ≤ fv.nextOf data c) : ∃ after,
      fv.behindCluster key fuel c disk = .err (-ENOENT) after ∧ after.gets ≤ disk.gets + 2 := by
  rw [behindCluster]
  by_cases root : c = 0
  · rw [if_pos root]
    exact ⟨disk, rfl, Nat.le_add_right _ _⟩
  have none : ([] : List BlkPtr).length ≤ 1 := Nat.zero_le 1
  obtain ⟨value, after, ran, rfl, left⟩ := clusGetNext_gives sized others none serves c
  rw [if_neg root, Program.bind_ok ran, if_pos (last.resolve_left root)]
  exact ⟨after, rfl, asks_clusGetNext c _ _ _ ran⟩

/-- Behind another cluster of a directory. -/
theorem behindCluster_next (key : Option (Fin 11 → UInt8)) (sized : fv.blksize = BLOCK_SIZE) (others : Others base)
    (serves : Serves fv.dev fv.unit data base disk []) (fuel c : Nat) (some : c ≠ 0)
    (more : ¬0xff0 ≤ fv.nextOf data c) : ∃ b after,
      fv.behindCluster key fuel c disk = fv.dirFindEntLoop key fuel (fv.nextOf data c) b
          (fv.clusSector (fv.nextOf data c)) 0 fv.clusEntries after ∧
        fv.Holds data base after b (fv.clusSector (fv.nextOf data c)) ∧
        Leaves fv.dev fv.unit data base disk [b] after ∧ after.gets ≤ disk.gets + 3 := by
  have none : ([] : List BlkPtr).length ≤ 1 := Nat.zero_le 1
  obtain ⟨value, middle, ran, rfl, left⟩ := clusGetNext_gives sized others none serves c
  obtain ⟨b, after, ran', holds, got, few⟩ :=
    get_holds others left.serves (fv.clusSector (fv.nextOf data c))
  have few' := asks_clusGetNext c _ _ _ ran
  refine ⟨b, after, ?_, holds, left.trans got, by omega⟩
  rw [behindCluster, if_neg some, Program.bind_ok ran, if_neg more, Program.bind_ok ran']

theorem clusEntries_lt (fv : FatVol) : fv.clusEntries < 0x10000 := by
  unfold clusEntries direntSize
  omega

/-- The loop of `dir_find_ent` from the first slot of a cluster, or of the root directory, on. -/
theorem dirFindEntLoop_segment (sized : fv.blksize = BLOCK_SIZE) (others : Others base)
    (key : Option (Fin 11 → UInt8)) (fuel c : Nat) {start entleft : Nat} (sector : word start = start)
    (small : entleft < 0x10000) (holds : fv.Holds data base disk b start) :
    fv.Searched data base disk ((entryCount entleft - 1) / 16) (fv.behindCluster key fuel c)
      (fv.dirFindEntLoop key (fuel + entryCount entleft) c b start 0 entleft disk)
      (scan data key (slotsFrom start (entryCount entleft))) := by
  have first : slotAt start 0 = ⟨start, 0⟩ := by
    rw [slotAt, Nat.zero_div, Nat.add_zero, sector]
  have runs := dirFindEntLoop_runs sized others key start fuel c (entryCount entleft) 0 b disk
    (entryCount_pos _) (entryCount_le small) (by rw [first]; exact holds)
  rw [first, entryCount_mod small, ← List.range_eq_range', Nat.zero_mod, Nat.zero_add] at runs
  exact runs

/-- The loop of `dir_find_ent` from a cluster on, up to the first one that it stops at. -/
theorem dirFindEntLoop_ends (sized : fv.blksize = BLOCK_SIZE) (others : Others base)
    (key : Option (Fin 11 → UInt8)) (fuel : Nat) : ∀ k c b disk,
      fv.Holds data base disk b (fv.clusSector c) →
        fv.Stops data key ((fv.nextOf data)^[k] c) →
          (∀ i < k, ¬fv.Stops data key ((fv.nextOf data)^[i] c)) →
            fv.Ended data base disk ((k + 1) * fv.clusterGets)
              (fv.dirFindEntLoop key (fuel + (k + 1) * entryCount fv.clusEntries) c b
                (fv.clusSector c) 0 fv.clusEntries disk)
              (scan data key (fv.clusterSlots ((fv.nextOf data)^[k] c))) := by
  intro k
  induction k with
  | zero =>
      intro c b disk holds stops _
      have gets : (entryCount fv.clusEntries - 1) / 16 + 2 ≤ (0 + 1) * fv.clusterGets := by
        unfold clusterGets
        omega
      rw [Function.iterate_zero_apply] at stops ⊢
      rw [Nat.zero_add, Nat.one_mul (entryCount _)]
      have searched := dirFindEntLoop_segment sized others key fuel c (word_clusSector c)
        fv.clusEntries_lt holds
      change fv.Searched _ _ _ _ _ _ (scan data key (fv.clusterSlots c)) at searched
      rw [Stops] at stops
      generalize scan data key (fv.clusterSlots c) = result at searched stops ⊢
      cases searched with
      | found eq leaves few => exact .found eq leaves (by omega)
      | ended eq few => exact .missing (fun slot => nofun) eq (by omega)
      | @through after eq leaves few =>
          obtain ⟨last, ran, few'⟩ := behindCluster_last key sized others leaves.serves fuel c
            (stops.resolve_left (not_not.mpr rfl))
          exact .missing (fun slot => nofun) (eq.trans ran) (by omega)
  | succ k ih =>
      intro c b disk holds stops first
      have here := first 0 (Nat.succ_pos k)
      rw [Function.iterate_zero_apply, Stops, not_or, not_not, not_or] at here
      obtain ⟨through, some, more⟩ := here
      have turns : fuel + (k + 1 + 1) * entryCount fv.clusEntries =
          fuel + (k + 1) * entryCount fv.clusEntries + entryCount fv.clusEntries := by
        rw [Nat.succ_mul (k + 1), Nat.add_assoc]
      have gets : (k + 1 + 1) * fv.clusterGets = (k + 1) * fv.clusterGets + fv.clusterGets :=
        Nat.succ_mul _ _
      have own : (entryCount fv.clusEntries - 1) / 16 + 3 = fv.clusterGets := rfl
      have searched := dirFindEntLoop_segment sized others key
        (fuel + (k + 1) * entryCount fv.clusEntries) c (word_clusSector c) fv.clusEntries_lt holds
      change fv.Searched _ _ _ _ _ _ (scan data key (fv.clusterSlots c)) at searched
      rw [through] at searched
      rw [turns]
      rw [Function.iterate_succ_apply] at stops ⊢
      cases searched with
      | through eq leaves few =>
          obtain ⟨b', after, ran, holds', got, few'⟩ := behindCluster_next key sized others
            leaves.serves (fuel + (k + 1) * entryCount fv.clusEntries) c some more
          rw [eq, ran]
          refine (ih _ b' after holds' stops fun i less => ?_).behind (leaves.trans got) (by omega)
          rw [← Function.iterate_succ_apply]
          exact first (i + 1) (Nat.succ_lt_succ less)

/-- Where the search of no cluster ends, the loop does not. -/
theorem dirFindEntLoop_loops (sized : fv.blksize = BLOCK_SIZE) (others : Others base)
    (key : Option (Fin 11 → UInt8)) (fuel : Nat) : ∀ c b disk,
      fv.Holds data base disk b (fv.clusSector c) →
        (∀ i, ¬fv.Stops data key ((fv.nextOf data)^[i] c)) →
          fv.dirFindEntLoop key fuel c b (fv.clusSector c) 0 fv.clusEntries disk = .hang := by
  induction fuel using Nat.strongRecOn with
  | ind fuel ih =>
      intro c b disk holds none
      have here := none 0
      rw [Function.iterate_zero_apply, Stops, not_or, not_not, not_or] at here
      obtain ⟨through, some, more⟩ := here
      have turns := entryCount_pos fv.clusEntries
      rcases Nat.lt_or_ge fuel (entryCount fv.clusEntries) with short | long
      · have first : slotAt (fv.clusSector c) 0 = ⟨fv.clusSector c, 0⟩ := by
          rw [slotAt, Nat.zero_div, Nat.add_zero, word_clusSector]
        have hangs := dirFindEntLoop_hangs sized others key (fv.clusSector c) c fuel
          (entryCount fv.clusEntries) 0 b disk short (entryCount_le fv.clusEntries_lt)
          (by rw [first]; exact holds) (by rw [← List.range_eq_range']; exact through)
        rwa [first, entryCount_mod fv.clusEntries_lt] at hangs
      · obtain ⟨rest, rfl⟩ := Nat.exists_eq_add_of_le' long
        have searched := dirFindEntLoop_segment sized others key rest c (word_clusSector c)
          fv.clusEntries_lt holds
        change fv.Searched _ _ _ _ _ _ (scan data key (fv.clusterSlots c)) at searched
        rw [through] at searched
        cases searched with
        | through eq leaves few =>
            obtain ⟨b', after, ran, holds', got, few'⟩ :=
              behindCluster_next key sized others leaves.serves rest c some more
            rw [eq, ran]
            refine ih rest (by omega) _ b' after holds' fun i => ?_
            rw [← Function.iterate_succ_apply]
            exact none (i + 1)

/-! ## `dir_find_ent` -/

/-- The slots of the root directory. -/
def rootSlots (fv : FatVol) : List Slot := slotsFrom fv.rootdirsec (entryCount fv.rootEntries)

theorem rootEntries_lt (fv : FatVol) : fv.rootEntries < 0x10000 := fv.bpb.rootEntries.toNat_lt

/-- The search of the root directory. -/
theorem dirFindKey_root (sized : fv.blksize = BLOCK_SIZE) (root : fv.rootdirsec < 0x100000000)
    (others : Others base) (serves : Serves fv.dev fv.unit data base disk [])
    (key : Option (Fin 11 → UInt8)) :
    fv.Ended data base disk (1 + (entryCount fv.rootEntries - 1) / 16) (fv.dirFindKey key 0 disk)
      (scan data key fv.rootSlots) := by
  obtain ⟨b, middle, ran, holds, got, few⟩ := get_holds others serves (fv.dirSector 0)
  have sector : word fv.rootdirsec = fv.rootdirsec := Nat.mod_eq_of_lt root
  obtain ⟨rest, turns⟩ : ∃ rest, dirFuel = rest + entryCount fv.rootEntries :=
    Nat.exists_eq_add_of_le' ((entryCount_le fv.rootEntries_lt).trans (by decide))
  have searched := dirFindEntLoop_segment sized others key rest 0 sector fv.rootEntries_lt holds
  rw [dirFindKey, Program.bind_ok ran, turns]
  refine Ended.behind got ?_ (Nat.add_le_add_right few ((entryCount fv.rootEntries - 1) / 16) |>.trans
    (Nat.add_assoc _ _ _).le)
  change fv.Ended _ _ _ _ (fv.dirFindEntLoop key (rest + entryCount fv.rootEntries) 0 b fv.rootdirsec 0
    fv.rootEntries middle) _
  rw [rootSlots]
  generalize scan data key (slotsFrom fv.rootdirsec (entryCount fv.rootEntries)) = result
    at searched ⊢
  cases searched with
  | found eq leaves few => exact .found eq leaves few
  | ended eq few => exact .missing (fun slot => nofun) eq few
  | through eq leaves few => exact .missing (fun slot => nofun) (eq.trans (by rfl)) few

/-- The search of another directory, up to the first cluster that it stops at. -/
theorem dirFindKey_ends (sized : fv.blksize = BLOCK_SIZE) (others : Others base)
    (serves : Serves fv.dev fv.unit data base disk []) (key : Option (Fin 11 → UInt8))
    {c k : Nat} (some : c ≠ 0) (stops : fv.Stops data key ((fv.nextOf data)^[k] c))
    (first : ∀ i < k, ¬fv.Stops data key ((fv.nextOf data)^[i] c)) :
    fv.Ended data base disk (1 + 0xff1 * fv.clusterGets) (fv.dirFindKey key c disk)
      (scan data key (fv.clusterSlots ((fv.nextOf data)^[k] c))) := by
  have most : k ≤ 0xff0 := by
    have inside : ∀ d, ¬fv.Stops data key d → fv.nextOf data d ∈ Finset.range 0xff0 := by
      intro d more
      rw [Stops, not_or, not_or, Nat.not_le] at more
      exact Finset.mem_range.mpr more.2.2
    exact (first_stop_le (Finset.range 0xff0) inside stops first).trans_eq (Finset.card_range _)
  obtain ⟨b, middle, ran, holds, got, few⟩ := get_holds others serves (fv.dirSector c)
  have enough : (k + 1) * entryCount fv.clusEntries ≤ dirFuel :=
    (Nat.mul_le_mul (Nat.succ_le_succ most) (entryCount_le fv.clusEntries_lt)).trans (by decide)
  obtain ⟨rest, turns⟩ : ∃ rest, dirFuel = rest + (k + 1) * entryCount fv.clusEntries :=
    Nat.exists_eq_add_of_le' enough
  have sector : fv.dirSector c = fv.clusSector c := if_neg some
  have entries : fv.dirEntries c = fv.clusEntries := if_neg some
  rw [sector] at ran holds
  rw [dirFindKey, sector, entries, Program.bind_ok ran, turns]
  refine (dirFindEntLoop_ends sized others key rest k c b middle holds stops first).behind got ?_
  have gets : (k + 1) * fv.clusterGets ≤ 0xff1 * fv.clusterGets :=
    Nat.mul_le_mul_right fv.clusterGets (Nat.succ_le_succ most)
  omega

theorem dirFindKey_loops (sized : fv.blksize = BLOCK_SIZE) (others : Others base)
    (serves : Serves fv.dev fv.unit data base disk []) (key : Option (Fin 11 → UInt8))
    {c : Nat} (some : c ≠ 0) (none : ∀ i, ¬fv.Stops data key ((fv.nextOf data)^[i] c)) :
    fv.dirFindKey key c disk = .hang := by
  obtain ⟨b, middle, ran, holds, got, few⟩ := get_holds others serves (fv.dirSector c)
  have sector : fv.dirSector c = fv.clusSector c := if_neg some
  have entries : fv.dirEntries c = fv.clusEntries := if_neg some
  rw [sector] at ran holds
  rw [dirFindKey, sector, entries, Program.bind_ok ran]
  exact dirFindEntLoop_loops sized others key dirFuel c b middle holds none

/-! ## When the search ends -/

/-- The blocks that are got at most: those of the root directory, or those of as many clusters
as the FAT has entries for. -/
def searchGets (fv : FatVol) : Nat :=
  1 + (entryCount fv.rootEntries - 1) / 16 + 0xff1 * fv.clusterGets

/-- `dir_find_ent` returns, and has got as many blocks at most. -/
structure Terminates (fv : FatVol) (path : Option ((Nat → UInt8) × Nat)) (cluster : Nat)
    (disk : Disk) : Prop where
  ends : Program.Ends (fv.dirFindEnt path cluster) disk
    (fun _ after => after.gets ≤ disk.gets + fv.searchGets)
    fun _ after => after.gets ≤ disk.gets + fv.searchGets

/-- The directory is the root, or its chain comes to a cluster that the search stops at. -/
def Bounded (fv : FatVol) (data : Nat → Sector) (key : Option (Fin 11 → UInt8)) (c : Nat) : Prop :=
  c = 0 ∨ ∃ k, fv.Stops data key ((fv.nextOf data)^[k] c)

/-- The name is not legal, or the search for it is bounded. -/
def SearchEnds (fv : FatVol) (data : Nat → Sector) (path : Option ((Nat → UInt8) × Nat)) (c : Nat) :
    Prop :=
  match path with
  | none => fv.Bounded data none c
  | some (src, len) => ∀ ele, pathParseFn src len = some ele → fv.Bounded data (some ele) c

theorem Ended.ends {gets : Nat} {result : Scan} {program : DiskM FileInfo}
    (ended : fv.Ended data base disk gets (program disk) result) (le : gets ≤ fv.searchGets) :
    Program.Ends program disk (fun _ after => after.gets ≤ disk.gets + fv.searchGets)
      fun _ after => after.gets ≤ disk.gets + fv.searchGets := by
  cases ended with
  | found eq leaves few => exact .of_ok eq (few.trans (Nat.add_le_add_left le _))
  | missing none eq few => exact .of_err eq (few.trans (Nat.add_le_add_left le _))

theorem dirFindKey_terminates (sized : fv.blksize = BLOCK_SIZE) (root : fv.rootdirsec < 0x100000000)
    (others : Others base) (serves : Serves fv.dev fv.unit data base disk [])
    (key : Option (Fin 11 → UInt8)) (c : Nat) :
    Program.Ends (fv.dirFindKey key c) disk (fun _ after => after.gets ≤ disk.gets + fv.searchGets)
      (fun _ after => after.gets ≤ disk.gets + fv.searchGets) ↔ fv.Bounded data key c := by
  by_cases some : c = 0
  · subst some
    refine ⟨fun _ => .inl rfl, fun _ => ?_⟩
    exact (dirFindKey_root sized root others serves key).ends (Nat.le_add_right _ _)
  constructor
  · intro ends
    by_contra unbounded
    rw [Bounded, not_or, not_exists] at unbounded
    have hangs := dirFindKey_loops sized others serves key some unbounded.2
    rw [Program.Ends, hangs] at ends
    exact ends
  · intro bounded
    obtain ⟨k, stops, first⟩ := exists_first_stop (bounded.resolve_left some)
    refine (dirFindKey_ends sized others serves key some stops first).ends ?_
    unfold searchGets
    omega

/-- `dir_find_ent` returns, after so many reads, exactly if the search is bounded. -/
theorem dir_find_ent_terminates (sized : fv.blksize = BLOCK_SIZE)
    (root : fv.rootdirsec < 0x100000000) (others : Others base)
    (serves : Serves fv.dev fv.unit data base disk []) (path : Option ((Nat → UInt8) × Nat))
    (cluster : Nat) : fv.Terminates path cluster disk ↔ fv.SearchEnds data path cluster := by
  have same : fv.Terminates path cluster disk ↔ Program.Ends (fv.dirFindEnt path cluster) disk
      (fun _ after => after.gets ≤ disk.gets + fv.searchGets)
      fun _ after => after.gets ≤ disk.gets + fv.searchGets := ⟨fun holds => holds.ends, .mk⟩
  rw [same]
  cases path with
  | none => exact dirFindKey_terminates sized root others serves none cluster
  | some element =>
      obtain ⟨src, len⟩ := element
      rw [dirFindEnt, SearchEnds]
      cases parsed : pathParseFn src len with
      | none =>
          exact ⟨fun _ ele same => absurd same.symm (Option.some_ne_none ele),
            fun _ => .of_err rfl (Nat.le_add_right _ _)⟩
      | some ele =>
          rw [dirFindKey_terminates sized root others serves (some ele) cluster]
          exact ⟨fun bounded ele' same => Option.some.inj same ▸ bounded, fun all => all ele rfl⟩

/-- The search goes around. -/
theorem not_terminates (sized : fv.blksize = BLOCK_SIZE) (others : Others base)
    (serves : Serves fv.dev fv.unit data base disk []) {c : Nat} (some : c ≠ 0)
    (more : ∀ i, ¬fv.Stops data none ((fv.nextOf data)^[i] c)) : ¬fv.Terminates none c disk := by
  intro terminates
  have ends := terminates.ends
  rw [Program.Ends, dirFindEnt, dirFindKey_loops sized others serves none some more] at ends
  exact ends

/-- On an empty floppy disk the search for a free slot in cluster 2 ends. -/
theorem dir_find_ent_terminates_empty :
    (ofBpb 0 0 .floppy).Terminates none 2 (.idle fun _ _ => 0) := by
  have root : (ofBpb 0 0 .floppy).rootdirsec < 0x100000000 := by decide
  have stops : (ofBpb 0 0 .floppy).Stops (fun _ _ => 0) none 2 := by
    refine .inl ?_
    decide
  apply (dir_find_ent_terminates rfl root .none (.idle 0 0 fun _ _ => 0) none 2).mpr
  exact .inr ⟨0, stops⟩

/-- A floppy disk on which every entry of the FAT is 0x111, and no slot is free. -/
def loopData : Nat → Sector := fun sec => if sec = 0 then floppySector else fun _ => 0x11

theorem loopData_next : (ofBpb 0 0 .floppy).nextOf loopData 0x111 = 0x111 := by decide

theorem loopData_more : ¬(ofBpb 0 0 .floppy).Stops loopData none 0x111 := by
  rw [Stops, loopData_next]
  decide

/-- The chain of cluster 0x111 leads to itself, and the search for a free slot goes around. -/
theorem dir_find_ent_goes_around : ¬(ofBpb 0 0 .floppy).Terminates none 0x111 (.idle loopData) := by
  apply not_terminates rfl .none (.idle 0 0 loopData) (by decide)
  intro i
  rw [Function.iterate_fixed loopData_next]
  exact loopData_more

end FatVol

end Pegasos.Kernel.Fat
