import Pegasos.Hosted.Fat.DirSearch
import Pegasos.Hosted.Fat.EntryTable

/-!
# Making entries

`fobj_create` of the hosted FAT code stores the name, the attributes and the time of a new
entry in the first free slot of a directory.  Some members keep what the slot held before.
-/

namespace Pegasos.Hosted

open Pegasos.Support
open Fat (Sector Dirent direntAt storeDirent direntAt_storeDirent direntAt_congr storeDirent_kept Slot
  Dirs slotAt slotsFrom entryCount elements pathParseFn stringAt clusterOfInt FA_DIR)
open Function (update)

namespace FatVol

/-- The directory that a new entry is made in: the root directory for a path without a
backslash, else what the path in front of the last one resolves to. -/
inductive ParentIs (fv : FatVol) (data : Nat → Sector) (fn : List UInt8) : Nat → Prop where
  | root (none : (pathSplit fn).1 = []) : ParentIs fv data fn 0
  | sub {slot : Slot} (resolves : fv.Resolves data (pathSplit fn).1 slot)
      (isDir : (slot.dirent data).attr &&& FA_DIR ≠ 0) :
      ParentIs fv data fn (clusterOfInt (slot.dirent data).cluster0)

/-- The FAT, the root directory and the data area lie behind each other, the numbers of the sectors
do not become too large, and the clusters of all directories that paths lead to are in the data
area. -/
structure Consistent (fv : FatVol) (data : Nat → Sector) : Prop extends Table fv where
  fatArea : fv.fat0sec + fv.fatCount * fv.secPerFat ≤ fv.rootdirsec
  rootArea : fv.rootdirsec ≤ fv.datasec
  dataArea : fv.datasec + (fv.nClus - 2) * fv.secPerClus ≤ 0xfffff000
  clusters : ∀ c, (fv.dirs data).DirCluster data c → 2 ≤ c ∧ c < fv.nClus

/-- The new entry holds its name and its attributes and is empty, and nothing else is changed. -/
structure StartsEmpty (fv : FatVol) (fn : List UInt8) (attr : UInt8) (before after : Nat → Sector)
    (info : FileInfo) : Prop where
  name : pathParseFn (stringAt (pathSplit fn).2 0) (pathSplit fn).2.length = some info.dir.name
  attr : info.dir.attr = attr
  size : info.dir.size = 0
  cluster0 : info.dir.cluster0 = 0
  major : info.dir.major = 0
  minor : info.dir.minor = 0
  slot : direntAt (after info.sector) info.secoffs = info.dir
  others : ∀ sec offs, 32 ∣ offs → (sec ≠ info.sector ∨ offs ≠ info.secoffs) →
    direntAt (after sec) offs = direntAt (before sec) offs
  fat : ∀ copy < fv.fatCount, ∀ c, fv.InFat c → fv.entryOf after copy c = fv.entryOf before copy c

/-- `fobj_create` returns 0. -/
structure Creates (fv : FatVol) (fn : List UInt8) (attr : UInt8) (tm : Tm) (info : FileInfo)
    (unit : Blocks) : Prop where
  ran : ∃ result after, fv.fobjCreate fn attr tm info unit = .ok result after

/-- What `fobj_create` makes, where it returns 0, starts empty. -/
structure CreatesEmpty (fv : FatVol) (fn : List UInt8) (attr : UInt8) (tm : Tm) (info : FileInfo)
    (unit : Blocks) : Prop where
  empty : ∀ result after, fv.fobjCreate fn attr tm info unit = .ok result after →
    fv.StartsEmpty fn attr unit.data after.data result

variable {fv : FatVol} {data : Nat → Sector} {fn : List UInt8} {attr : UInt8} {tm : Tm}
  {info result : FileInfo} {unit after : Blocks} {clus c blkno copy : Nat} {slot : Slot}
  {key : Option (Fin 11 → UInt8)}

/-! ## Where slots are -/

/-- The first sector of a cluster in the data area. -/
theorem Consistent.clusSector (consistent : fv.Consistent data) (first : 2 ≤ c) (last : c < fv.nClus) :
    fv.clusSector c = fv.datasec + (c - 2) * fv.secPerClus ∧
      fv.datasec + (c - 2) * fv.secPerClus ≤ 0xfffff000 := by
  have area := consistent.dataArea
  have few := consistent.few
  have rows : (c - 2) * fv.secPerClus ≤ (fv.nClus - 2) * fv.secPerClus :=
    Nat.mul_le_mul_right _ (by omega)
  have number : word (c + 0x100000000 - 2) = c - 2 := by
    unfold word
    omega
  rw [FatVol.clusSector, number]
  exact ⟨Nat.mod_eq_of_lt (by omega), by omega⟩

/-- The slots of directories are behind the FAT, at multiples of the size of an entry. -/
theorem Consistent.inside (consistent : fv.Consistent data)
    (directory : (fv.dirs data).Directory data c) (found : (fv.dirs data).FoundIn data key c slot) :
    fv.rootdirsec ≤ slot.sec ∧ slot.offs < 512 ∧ 32 ∣ slot.offs := by
  have rootArea := consistent.rootArea
  have dataArea := consistent.dataArea
  rcases found.inCluster directory with member | ⟨d, cluster, member⟩
  · have entries := Fat.entryCount_le fv.rootEntries_lt
    have inside := Fat.slotsFrom_inside (by omega) member
    exact ⟨inside.1, inside.2.2⟩
  · obtain ⟨first, last⟩ := consistent.clusters d cluster
    obtain ⟨sector, fits⟩ := consistent.clusSector first last
    have entries := Fat.entryCount_le fv.clusEntries_lt
    have inside := Fat.slotsFrom_inside (by omega) member
    exact ⟨by omega, inside.2.2⟩

theorem Consistent.outside (consistent : fv.Consistent data)
    (directory : (fv.dirs data).Directory data c) (found : (fv.dirs data).FoundIn data key c slot) :
    ¬fv.InTable slot.sec := by
  have behind := (consistent.inside directory found).1
  have fat := consistent.fatArea
  unfold InTable
  omega

theorem Consistent.rootWord (consistent : fv.Consistent data) : word fv.rootdirsec = fv.rootdirsec := by
  have rootArea := consistent.rootArea
  have dataArea := consistent.dataArea
  exact Nat.mod_eq_of_lt (by omega)

theorem ParentIs.directory (parent : fv.ParentIs data fn clus) : (fv.dirs data).Directory data clus := by
  cases parent with
  | root none => exact .root
  | sub resolves isDir =>
      obtain ⟨ele, rest, split, found⟩ := resolves
      exact found.directory .root isDir

/-! ## What is stored -/

/-- What `fobj_create` does in a directory. -/
def createIn (fv : FatVol) (name : List UInt8) (ele : Fin 11 → UInt8) (attr : UInt8) (tm : Tm)
    (clus : Nat) : BlockM FileInfo := do
  match ← Program.attempt (fv.dirFindEnt (stringAt name 0) name.length clus) with
  | .ok _ => .throw (-EEXIST)
  | .error rc =>
      if rc ≠ -ENOENT then .throw rc
      else
        let info ← fv.dirFindFree clus
        bcGet info.sector false
        let ent := newDirent ele attr tm (direntAt (← readBlock info.sector) info.secoffs)
        writeBlock info.sector (storeDirent info.secoffs ent)
        bcPut info.sector
        return { info with dir := ent }

/-- `fobj_create` makes the entry in the directory that is meant. -/
theorem fobjCreate_cases (sized : fv.blksize = BLKSIZE) (root : word fv.rootdirsec = fv.rootdirsec)
    (parent : fv.ParentIs unit.data fn clus)
    (ran : fv.fobjCreate fn attr tm info unit = .ok result after) : ∃ ele middle,
      pathParseFn (stringAt (pathSplit fn).2 0) (pathSplit fn).2.length = some ele ∧
      middle.data = unit.data ∧ fv.createIn (pathSplit fn).2 ele attr tm clus middle = .ok result after := by
  rw [fobjCreate] at ran
  by_cases long : F_MAX_PATH < fn.length
  · rw [if_pos long] at ran
    exact nomatch ran
  rw [if_neg long] at ran
  cases parsed : pathParseFn (stringAt (pathSplit fn).2 0) (pathSplit fn).2.length with
  | none =>
      simp only [parsed] at ran
      exact nomatch ran
  | some ele =>
      simp only [parsed] at ran
      cases parent with
      | root none =>
          simp only [none, if_true] at ran
          exact ⟨ele, unit, rfl, rfl, ran⟩
      | @sub slot resolves isDir =>
          obtain ⟨first, rest, split, found⟩ := resolves
          have some : elements isSeparator (pathSplit fn).1 ≠ [] := by rw [split]; nofun
          have nonempty : (pathSplit fn).1 ≠ [] := fun empty => some (by rw [empty, Fat.elements_nil])
          simp only [nonempty, if_false] at ran
          obtain ⟨info', middle, ran1, ran⟩ := Program.of_bind_ok ran
          have same := (quiet_dirFindPath _ _).ok _ _ _ ran1
          obtain ⟨slot', resolves', rfl⟩ := dirFindPath_resolves sized root some ran1
          obtain rfl := resolves'.unique ⟨first, rest, split, found⟩
          rw [infoAt_dir, if_neg fun both => isDir both.2] at ran
          exact ⟨ele, middle, rfl, same, ran⟩

/-- What `fobj_create` stores where it returns 0. -/
theorem createIn_ok (sized : fv.blksize = BLKSIZE) (root : word fv.rootdirsec = fv.rootdirsec)
    {name : List UInt8} {ele : Fin 11 → UInt8}
    (ran : fv.createIn name ele attr tm clus unit = .ok result after) : ∃ slot,
      (fv.dirs unit.data).FoundIn unit.data none clus slot ∧
      result = { infoAt unit.data slot with dir := newDirent ele attr tm (slot.dirent unit.data) } ∧
      after.data = update unit.data slot.sec (storeDirent slot.offs
        (newDirent ele attr tm (slot.dirent unit.data)) (unit.data slot.sec)) := by
  obtain ⟨search, unit1, ran1, ran⟩ := Program.of_bind_ok ran
  have same1 := (quiet_dirFindEnt _ _ _).attempt.ok _ _ _ ran1
  cases search with
  | ok _ => exact nomatch ran
  | error rc =>
      change (if rc ≠ -ENOENT then _ else _ : BlockM FileInfo) unit1 = _ at ran
      by_cases missing : rc ≠ -ENOENT
      · rw [if_pos missing] at ran
        exact nomatch ran
      rw [if_neg missing] at ran
      obtain ⟨info, unit2, ran2, ran⟩ := Program.of_bind_ok ran
      obtain ⟨slot, found, rfl, same2⟩ := dirFindKey_found sized root ran2
      obtain ⟨⟨⟩, unit3, ran3, ran⟩ := Program.of_bind_ok ran
      have same3 := (Quiet.bcGet _ _).ok _ _ _ ran3
      rw [Program.bind_ok Blocks.readBlock_ok, Program.bind_ok (Blocks.writeBlock_ok _)] at ran
      obtain ⟨⟨⟩, unit4, ran4, ran⟩ := Program.of_bind_ok ran
      have same4 := (Quiet.bcPut _).ok _ _ _ ran4
      obtain ⟨rfl, rfl⟩ := Result.ok.inj ran
      have data3 : unit3.data = unit.data := same3.trans (same2.trans same1)
      rw [same1] at found
      refine ⟨slot, found, ?_, same4.trans ?_⟩
      · rw [same1, data3]
        rfl
      · rw [Blocks.setData_data, data3]
        rfl

theorem fobjCreate_ok (sized : fv.blksize = BLKSIZE) (root : word fv.rootdirsec = fv.rootdirsec)
    (parent : fv.ParentIs unit.data fn clus)
    (ran : fv.fobjCreate fn attr tm info unit = .ok result after) :
    ∃ ele slot, pathParseFn (stringAt (pathSplit fn).2 0) (pathSplit fn).2.length = some ele ∧
      (fv.dirs unit.data).FoundIn unit.data none clus slot ∧
      result = { infoAt unit.data slot with dir := newDirent ele attr tm (slot.dirent unit.data) } ∧
      after.data = update unit.data slot.sec (storeDirent slot.offs
        (newDirent ele attr tm (slot.dirent unit.data)) (unit.data slot.sec)) := by
  obtain ⟨ele, middle, parsed, same, ran'⟩ := fobjCreate_cases sized root parent ran
  obtain ⟨slot, found⟩ := createIn_ok sized root ran'
  rw [same] at found
  exact ⟨ele, slot, parsed, found⟩

/-- The slot holds the new entry. -/
theorem direntAt_newDirent (ele : Fin 11 → UInt8) (sector : Sector) (offs : Nat) :
    direntAt (storeDirent offs (newDirent ele attr tm (direntAt sector offs)) sector) offs =
      newDirent ele attr tm (direntAt sector offs) := direntAt_storeDirent

/-- The other slots stay as they are. -/
theorem direntAt_apart {ent : Dirent} {sec offs : Nat} (aligned : 32 ∣ slot.offs) (aligned' : 32 ∣ offs)
    (apart : sec ≠ slot.sec ∨ offs ≠ slot.offs) :
    direntAt (update data slot.sec (storeDirent slot.offs ent (data slot.sec)) sec) offs =
      direntAt (data sec) offs := by
  by_cases other : sec = slot.sec
  · subst other
    rw [Function.update_self]
    refine direntAt_congr fun i less => storeDirent_kept ?_
    have apart : offs ≠ slot.offs := apart.resolve_left fun ne => ne rfl
    omega
  · rw [Function.update_of_ne other]

/-- What is stale in a slot that `fobj_create` does not clear. -/
def Cleared (dirent : Dirent) : Prop :=
  dirent.size = 0 ∧ dirent.cluster0 = 0 ∧ dirent.major = 0 ∧ dirent.minor = 0

theorem startsEmpty_iff (consistent : fv.Consistent unit.data) (parent : fv.ParentIs unit.data fn clus)
    (found : (fv.dirs unit.data).FoundIn unit.data none clus slot)
    (ran : fv.fobjCreate fn attr tm info unit = .ok result after) :
    fv.StartsEmpty fn attr unit.data after.data result ↔ Cleared (slot.dirent unit.data) := by
  obtain ⟨ele, slot', parsed, found', rfl, stored⟩ :=
    fobjCreate_ok consistent.blksize consistent.rootWord parent ran
  obtain rfl := found.unique found'
  obtain ⟨-, small, aligned⟩ := consistent.inside parent.directory found
  constructor
  · exact fun starts => ⟨starts.size, starts.cluster0, starts.major, starts.minor⟩
  · rintro ⟨size, cluster0, major, minor⟩
    rw [stored]
    refine ⟨parsed, rfl, size, cluster0, major, minor, ?_, fun sec offs aligned' apart =>
      direntAt_apart aligned aligned' apart, fun copy isCopy c inFat =>
        entryOf_apart (consistent.outside parent.directory found) isCopy inFat _⟩
    change direntAt (update unit.data slot.sec _ slot.sec) slot.offs = _
    rw [Function.update_self]
    exact direntAt_newDirent ele _ _

/-- A new entry starts empty exactly if the slot that is used for it is cleared. -/
theorem fobj_create_starts_empty (consistent : fv.Consistent unit.data)
    (parent : fv.ParentIs unit.data fn clus) (creates : fv.Creates fn attr tm info unit) :
    fv.CreatesEmpty fn attr tm info unit ↔
      ∀ slot, (fv.dirs unit.data).FoundIn unit.data none clus slot → Cleared (slot.dirent unit.data) := by
  constructor
  · intro empty slot found
    obtain ⟨result, after, ran⟩ := creates.ran
    exact (startsEmpty_iff consistent parent found ran).mp (empty.empty _ _ ran)
  · refine fun cleared => ⟨fun result after ran => ?_⟩
    obtain ⟨ele, slot, -, found, -⟩ := fobjCreate_ok consistent.blksize consistent.rootWord parent ran
    exact (startsEmpty_iff consistent parent found ran).mpr (cleared slot found)

theorem floppy_table : floppy.Table := ⟨floppy_geometry, by decide, by decide, floppy_entries⟩

theorem floppy_consistent (flat : ∀ slot ∈ (floppy.dirs data).rootSlots,
    (slot.dirent data).attr &&& FA_DIR = 0) : floppy.Consistent data where
  toTable := floppy_table
  fatArea := by decide
  rootArea := by decide
  dataArea := by decide
  clusters c cluster := absurd cluster (Dirs.not_dirCluster flat c)

/-- The program returns a value. -/
def returns {α : Type} : Result Blocks α → Bool
  | .ok _ _ => true
  | _ => false

theorem creates_of_returns (ran : returns (fv.fobjCreate fn attr tm info unit) = true) :
    fv.Creates fn attr tm info unit := by
  cases result : fv.fobjCreate fn attr tm info unit with
  | ok value after => exact ⟨value, after, result⟩
  | err code after => exact nomatch result ▸ ran
  | fault => exact nomatch result ▸ ran
  | hang => exact nomatch result ▸ ran

def newYear : Tm := ⟨80, 0, 1, 0, 0, 0⟩

def noInfo : FileInfo := ⟨0, 0, direntAt (fun _ => 0) 0⟩

theorem blank_dirent (slot : Slot) : slot.dirent blank.data = direntAt (fun _ => 0) 0 := rfl

theorem blank_consistent : floppy.Consistent blank.data := by
  refine floppy_consistent fun slot _ => ?_
  rw [blank_dirent]
  decide

theorem fobj_create_starts_empty_blank : floppy.CreatesEmpty [97] 0 newYear noInfo blank := by
  have creates : floppy.Creates [97] 0 newYear noInfo blank := creates_of_returns (by decide)
  apply (fobj_create_starts_empty blank_consistent (.root rfl) creates).mpr
  intro slot _
  rw [blank_dirent, Cleared]
  decide

/-- The first entry of the root directory has been deleted; it had cluster 5 and 100 bytes. -/
def deleted : Blocks :=
  { blank with data := fun sec i =>
      if sec = 5 then if i = 0 then 0xe5 else if i = 26 then 5 else if i = 28 then 100 else 0
      else 0 }

/-- The new file has the cluster and the size of the deleted one. -/
theorem fobj_create_keeps_cluster :
    floppy.Consistent deleted.data ∧ floppy.ParentIs deleted.data [97] 0 ∧
      ¬floppy.CreatesEmpty [97] 0 newYear noInfo deleted := by
  have consistent : floppy.Consistent deleted.data := by
    refine floppy_consistent fun slot member => ?_
    obtain ⟨j, -, rfl⟩ := Fat.mem_slotsFrom.mp member
    have attr : deleted.data (slotAt floppy.rootdirsec j).sec (j % 16 * 32 + 11) = 0 := by
      change (if _ then if _ then _ else if _ then _ else if _ then _ else _ else _) = _
      rw [if_neg (by omega : ¬j % 16 * 32 + 11 = 0), if_neg (by omega : ¬j % 16 * 32 + 11 = 26),
        if_neg (by omega : ¬j % 16 * 32 + 11 = 28), ite_self]
    change deleted.data (slotAt floppy.rootdirsec j).sec (j % 16 * 32 + 11) &&& FA_DIR = 0
    rw [attr]
    rfl
  have creates : floppy.Creates [97] 0 newYear noInfo deleted := creates_of_returns (by decide)
  have found : (floppy.dirs deleted.data).FoundIn deleted.data none 0 ⟨5, 0⟩ := by
    refine Dirs.foundIn_root.mpr ?_
    decide
  refine ⟨consistent, .root rfl, fun empty => ?_⟩
  obtain ⟨result, after, ran⟩ := creates.ran
  have cleared := (startsEmpty_iff consistent (.root rfl) found ran).mp (empty.empty _ _ ran)
  exact absurd cleared.1 (by decide)

end FatVol

end Pegasos.Hosted
