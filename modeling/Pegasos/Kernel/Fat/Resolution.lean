import Pegasos.Fat.Paths
import Pegasos.Fat.Search
import Pegasos.Kernel.Fat.DirSearch

/-!
# What paths resolve to

`dir_find_path` on any volume, also one with wild chains: the slot that it comes to, if it
returns an entry.
-/

namespace Pegasos.Kernel.Fat

open Pegasos.Support
open Pegasos.Fat (Sector Dirs Slot Scan scan slotAt pathParseFn stringAt clusterOfInt FA_DIR SLASH
  SPACE InMemory nextEle elements pathParseFn_congr nextEle_cons nextEle_none inMemory_stringAt)
open Cache (BlkPtr)

namespace FatVol

/-- The directories of a volume. -/
def dirs (fv : FatVol) (data : Nat → Sector) : Dirs where
  rootSlots := fv.rootSlots
  clusterSlots := fv.clusterSlots
  next := fv.nextOf data

/-- What a path resolves to: the root directory, which has no slot, or the slot of an entry. -/
inductive Resolves (fv : FatVol) (data : Nat → Sector) (path : List UInt8) : Option Slot → Prop where
  | root (empty : elements (· = SLASH) path = []) (nonempty : path ≠ []) : Resolves fv data path none
  | entry {ele : List UInt8} {rest : List (List UInt8)} {slot : Slot}
      (split : elements (· = SLASH) path = ele :: rest) (found : (fv.dirs data).ResolvesFrom data 0 ele rest slot) :
      Resolves fv data path (some slot)

/-- What `dir_find_path` returns where a path resolves to this. -/
def entryInfo (data : Nat → Sector) : Option Slot → FileInfo
  | none => { ino := 0, dir := rootDirent }
  | some slot => infoAt data slot

variable {fv : FatVol} {data : Nat → Sector} {base : BlkPtr → Nat} {disk : Disk}
  {key : Option (Fin 11 → UInt8)} {c : Nat} {slot slot' : Slot} {ele : List UInt8}
  {rest : List (List UInt8)} {info : FileInfo} {after : Disk}

theorem Resolves.unique {path : List UInt8} (resolves : fv.Resolves data path (some slot))
    (resolves' : fv.Resolves data path (some slot')) : slot = slot' := by
  cases resolves with
  | entry split found =>
      cases resolves' with
      | entry split' found' =>
          obtain ⟨rfl, rfl⟩ := List.cons.inj (split.symm.trans split')
          exact found.unique found'

theorem found_inside (finds : (fv.dirs data).FoundIn data key c slot) :
    slot.offs < 512 ∧ 32 ∣ slot.offs := by
  have member : ∃ start n, slot ∈ Fat.slotsFrom start n := by
    rcases finds.spec.1 with member | ⟨d, -, member⟩
    · rw [Dirs.slotsAt] at member
      split at member
      · exact ⟨_, _, member⟩
      · exact ⟨_, _, member⟩
    · exact ⟨_, _, member⟩
  obtain ⟨start, n, member⟩ := member
  obtain ⟨j, -, rfl⟩ := Fat.mem_slotsFrom.mp member
  change j % 16 * 32 < 512 ∧ 32 ∣ j % 16 * 32
  exact ⟨by omega, Nat.dvd_mul_left 32 (j % 16)⟩

theorem resolved_inside (found : (fv.dirs data).ResolvesFrom data c ele rest slot) :
    slot.offs < 512 ∧ 32 ∣ slot.offs := by
  induction found with
  | last found => exact found.elim fun name both => found_inside both.2
  | more found isDir behind ih => exact ih

theorem Resolves.inside {path : List UInt8} (resolves : fv.Resolves data path (some slot)) :
    slot.offs < 512 ∧ 32 ∣ slot.offs := by
  cases resolves with
  | entry split found => exact resolved_inside found

/-! ## The searches -/

section Runs

variable (sized : fv.blksize = BLOCK_SIZE) (root : fv.rootdirsec < 0x100000000) (others : Others base)
include sized root others

/-- A search that returns an entry comes to its slot. -/
theorem dirFindKey_found (serves : Serves fv.dev fv.unit data base disk [])
    (ran : fv.dirFindKey key c disk = .ok info after) : ∃ slot, (fv.dirs data).FoundIn data key c slot ∧
      info = infoAt data slot ∧ Leaves fv.dev fv.unit data base disk [] after := by
  have ended : ∃ gets result, fv.Ended data base disk gets (fv.dirFindKey key c disk) result ∧
      ∀ slot, result = .found slot → (fv.dirs data).FoundIn data key c slot := by
    by_cases some : c = 0
    · subst some
      exact ⟨_, _, dirFindKey_root sized root others serves key, fun slot found =>
        Dirs.foundIn_root.mpr found⟩
    · by_cases bounded : ∃ k, fv.Stops data key ((fv.nextOf data)^[k] c)
      · obtain ⟨k, stops, first⟩ := exists_first_stop bounded
        exact ⟨_, _, dirFindKey_ends sized others serves key some stops first,
          fun slot found => (Dirs.foundIn_iff some).mpr ⟨k, first, found⟩⟩
      · have hangs := dirFindKey_loops sized others serves key some (not_exists.mp bounded)
        exact nomatch hangs.symm.trans ran
  obtain ⟨gets, result, ended, here⟩ := ended
  cases ended with
  | @found slot after' eq leaves few =>
      obtain ⟨rfl, rfl⟩ := Result.ok.inj (eq.symm.trans ran)
      exact ⟨slot, here slot rfl, rfl, leaves⟩
  | missing none eq few => exact nomatch eq.symm.trans ran

/-- A search returns the entry of the slot that it comes to. -/
theorem dirFindKey_runs (serves : Serves fv.dev fv.unit data base disk [])
    (found : (fv.dirs data).FoundIn data key c slot) : ∃ after,
      fv.dirFindKey key c disk = .ok (infoAt data slot) after ∧
      Leaves fv.dev fv.unit data base disk [] after := by
  have ended : ∃ gets, fv.Ended data base disk gets (fv.dirFindKey key c disk) (.found slot) := by
    by_cases some : c = 0
    · subst some
      rw [← Dirs.foundIn_root.mp found]
      exact ⟨_, dirFindKey_root sized root others serves key⟩
    · obtain ⟨k, first, found⟩ := (Dirs.foundIn_iff some).mp found
      change scan data key (fv.clusterSlots ((fv.nextOf data)^[k] c)) = _ at found
      have stops : fv.Stops data key ((fv.nextOf data)^[k] c) := .inl (by rw [found]; nofun)
      rw [← found]
      exact ⟨_, dirFindKey_ends sized others serves key some stops first⟩
  obtain ⟨gets, ended⟩ := ended
  cases ended with
  | found eq leaves few => exact ⟨_, eq, leaves⟩
  | missing none eq few => exact absurd rfl (none slot)

variable {src : Nat → UInt8} (inMemory : InMemory src ele)
include inMemory

theorem dirFindEnt_found (serves : Serves fv.dev fv.unit data base disk [])
    (ran : fv.dirFindEnt (some (src, ele.length)) c disk = .ok info after) :
    ∃ slot, (fv.dirs data).EleIn data c ele slot ∧ info = infoAt data slot ∧
      Leaves fv.dev fv.unit data base disk [] after := by
  have same := pathParseFn_congr inMemory (inMemory_stringAt ele)
  cases parsed : pathParseFn src ele.length with
  | none =>
      rw [dirFindEnt, parsed] at ran
      cases ran
  | some name =>
      rw [dirFindEnt, parsed] at ran
      obtain ⟨slot, found, rest⟩ := dirFindKey_found sized root others serves ran
      exact ⟨slot, ⟨name, same.symm.trans parsed, found⟩, rest⟩

theorem dirFindEnt_runs (serves : Serves fv.dev fv.unit data base disk [])
    (found : (fv.dirs data).EleIn data c ele slot) : ∃ after,
      fv.dirFindEnt (some (src, ele.length)) c disk = .ok (infoAt data slot) after ∧
      Leaves fv.dev fv.unit data base disk [] after := by
  obtain ⟨name, parsed, found⟩ := found
  rw [dirFindEnt, pathParseFn_congr inMemory (inMemory_stringAt ele), parsed]
  exact dirFindKey_runs sized root others serves found

end Runs

/-! ## Paths -/

theorem pathNextDirEle_eq (fn : List UInt8) (start : Nat) :
    pathNextDirEle fn start = nextEle (· = SLASH) fn start := by
  simp [pathNextDirEle, nextEle]

/-- A path without elements that is not empty begins with a separator. -/
theorem head?_of_elements {path : List UInt8} (empty : elements (· = SLASH) path = [])
    (nonempty : path ≠ []) : path.head? = some SLASH := by
  have last := nextEle_none (show elements (· = SLASH) (path.drop 0) = [] from empty)
  rw [← pathNextDirEle_eq] at last
  cases path with
  | nil => exact absurd rfl nonempty
  | cons ch path =>
      by_contra other
      have char : ¬ch = SLASH := fun same => other (congrArg some same)
      simp [pathNextDirEle, char] at last

section Loop

variable {fn : List UInt8} {start fuel : Nat} {ele' : List UInt8} {found : FileInfo}

theorem nextIs (split : elements (· = SLASH) (fn.drop start) = ele :: rest) :
    Fat.NextIs (· = SLASH) fn start ele rest :=
  nextEle_cons (fun _ is => .inl (of_decide_eq_true is)) split

/-- The loop of `dir_find_path` at the last element. -/
theorem pathLoop_last (split : elements (· = SLASH) (fn.drop start) = [ele])
    (ran : fv.dirFindEnt (some (stringAt fn (pathNextDirEle fn start).start, ele.length)) c disk =
      .ok found after) :
    fv.dirFindPathLoop fn (fuel + 2) (pathNextDirEle fn start) c info disk = .ok found after := by
  have next := nextIs split
  have last := nextEle_none next.behind
  rw [next.length] at ran
  rw [pathNextDirEle_eq] at ran ⊢
  rw [dirFindPathLoop, if_neg next.some, Program.bind_ok ran, pathNextDirEle_eq,
    if_neg fun both => both.1 last, dirFindPathLoop, if_pos last]
  rfl

/-- The loop of `dir_find_path` at another element. -/
theorem pathLoop_more (info : FileInfo) (fuel : Nat)
    (split : elements (· = SLASH) (fn.drop start) = ele :: ele' :: rest)
    (ran : fv.dirFindEnt (some (stringAt fn (pathNextDirEle fn start).start, ele.length)) c disk =
      .ok found after) : ∃ stop,
    start < stop ∧ elements (· = SLASH) (fn.drop stop) = ele' :: rest ∧
      fv.dirFindPathLoop fn (fuel + 1) (pathNextDirEle fn start) c info disk =
        if found.dir.attr &&& FA_DIR = 0 then .err (-ENOENT) after
        else fv.dirFindPathLoop fn fuel (pathNextDirEle fn stop)
          (clusterOfInt found.dir.cluster0) found after := by
  have next := nextIs split
  have more := (nextIs next.behind).some
  rw [next.length] at ran
  rw [pathNextDirEle_eq] at ran ⊢
  refine ⟨_, next.later, next.behind, ?_⟩
  rw [dirFindPathLoop, if_neg next.some, Program.bind_ok ran]
  by_cases isDir : found.dir.attr &&& FA_DIR = 0
  · rw [if_pos isDir, if_pos ⟨by rwa [pathNextDirEle_eq], isDir⟩]
    rfl
  · rw [if_neg isDir, if_neg fun both => isDir both.2]

end Loop

section Runs

variable (sized : fv.blksize = BLOCK_SIZE) (root : fv.rootdirsec < 0x100000000) (others : Others base)
include sized root others

/-- The loop of `dir_find_path`, where it returns an entry. -/
theorem dirFindPathLoop_resolves (fn : List UInt8) : ∀ fuel start c info disk ele rest result after,
    Serves fv.dev fv.unit data base disk [] → elements (· = SLASH) (fn.drop start) = ele :: rest →
      fn.length < start + fuel →
      fv.dirFindPathLoop fn fuel (pathNextDirEle fn start) c info disk = .ok result after →
        ∃ slot, (fv.dirs data).ResolvesFrom data c ele rest slot ∧ result = infoAt data slot ∧
          Leaves fv.dev fv.unit data base disk [] after := by
  intro fuel
  induction fuel with
  | zero => exact fun start c info disk ele rest result after serves split enough ran => nomatch ran
  | succ fuel ih =>
      intro start c info disk ele rest result after serves split enough ran
      have next := nextIs split
      have ran' := ran
      rw [pathNextDirEle_eq, dirFindPathLoop, if_neg next.some, ← next.length] at ran'
      obtain ⟨_, middle, first, -⟩ := Program.of_bind_ok ran'
      obtain ⟨slot, found, rfl, left⟩ := dirFindEnt_found sized root others next.inMemory serves first
      rw [← pathNextDirEle_eq] at first
      cases rest with
      | nil =>
          have last := next.later
          have inside := next.inside
          obtain ⟨fuel, rfl⟩ := Nat.exists_eq_succ_of_ne_zero (n := fuel) (by omega)
          rw [pathLoop_last split first] at ran
          obtain ⟨rfl, rfl⟩ := Result.ok.inj ran
          exact ⟨slot, .last found, rfl, left⟩
      | cons ele' rest =>
          obtain ⟨stop, later, behind, eq⟩ := pathLoop_more info fuel split first
          rw [eq, infoAt_dir] at ran
          by_cases isDir : (slot.dirent data).attr &&& FA_DIR = 0
          · rw [if_pos isDir] at ran
            exact nomatch ran
          · rw [if_neg isDir] at ran
            obtain ⟨slot', resolves, rfl, left'⟩ :=
              ih stop _ _ middle ele' rest result after left.serves behind (by omega) ran
            exact ⟨slot', .more found isDir resolves, rfl, left.trans left'⟩

/-- A path that `dir_find_path` returns an entry for resolves to it. -/
theorem dirFindPath_resolves {path : List UInt8} (serves : Serves fv.dev fv.unit data base disk [])
    (ran : fv.dirFindPath path disk = .ok info after) : ∃ entry, fv.Resolves data path entry ∧
      info = entryInfo data entry ∧ Leaves fv.dev fv.unit data base disk [] after := by
  cases split : elements (· = SLASH) path with
  | nil =>
      have last : (pathNextDirEle path 0).len = 0 := by
        rw [pathNextDirEle_eq]
        exact nextEle_none split
      by_cases nonempty : path = []
      · subst nonempty
        exact nomatch ran
      · simp only [dirFindPath, last, if_true, head?_of_elements split nonempty] at ran
        obtain ⟨rfl, rfl⟩ := Result.ok.inj ran
        exact ⟨none, .root split nonempty, rfl, serves.leaves⟩
  | cons ele rest =>
      have some : ¬(pathNextDirEle path 0).len = 0 := by
        rw [pathNextDirEle_eq]
        exact (nextIs (show elements (· = SLASH) (path.drop 0) = _ from split)).some
      simp only [dirFindPath, some, if_false] at ran
      obtain ⟨slot, resolves, rfl, left⟩ := dirFindPathLoop_resolves sized root others path _ 0 0 _
        disk ele rest _ _ serves split (by omega) ran
      exact ⟨slot, .entry split resolves, rfl, left⟩

/-- The loop of `dir_find_path` for elements that resolve to a slot. -/
theorem dirFindPathLoop_runs (fn : List UInt8) (resolves : (fv.dirs data).ResolvesFrom data c ele rest slot) :
    ∀ fuel start info disk, Serves fv.dev fv.unit data base disk [] →
      elements (· = SLASH) (fn.drop start) = ele :: rest → fn.length < start + fuel →
        ∃ after, fv.dirFindPathLoop fn fuel (pathNextDirEle fn start) c info disk =
          .ok (infoAt data slot) after ∧ Leaves fv.dev fv.unit data base disk [] after := by
  induction resolves with
  | last found =>
      intro fuel start info disk serves split enough
      have next := nextIs split
      have inside := next.later.trans_le next.inside
      obtain ⟨fuel, rfl⟩ : ∃ rest, fuel = rest + 2 := Nat.exists_eq_add_of_le' (by omega)
      obtain ⟨after, ran, left⟩ := dirFindEnt_runs sized root others next.inMemory serves found
      rw [← pathNextDirEle_eq] at ran
      exact ⟨after, pathLoop_last split ran, left⟩
  | @more c ele ele' rest slot slot' found isDir behind ih =>
      intro fuel start info disk serves split enough
      have next := nextIs split
      have inside := next.later.trans_le next.inside
      obtain ⟨fuel, rfl⟩ : ∃ rest, fuel = rest + 1 := Nat.exists_eq_add_of_le' (by omega)
      obtain ⟨middle, ran, left⟩ := dirFindEnt_runs sized root others next.inMemory serves found
      rw [← pathNextDirEle_eq] at ran
      obtain ⟨stop, later, split', eq⟩ := pathLoop_more _ fuel split ran
      obtain ⟨after, ran', left'⟩ :=
        ih fuel stop (infoAt data slot) middle left.serves split' (by omega)
      rw [eq, infoAt_dir, if_neg isDir]
      exact ⟨after, ran', left.trans left'⟩

/-- `dir_find_path` of a path that resolves to an entry. -/
theorem Resolves.runs {path : List UInt8} {entry : Option Slot} (resolves : fv.Resolves data path entry)
    (serves : Serves fv.dev fv.unit data base disk []) : ∃ after,
      fv.dirFindPath path disk = .ok (entryInfo data entry) after ∧
        Leaves fv.dev fv.unit data base disk [] after := by
  cases resolves with
  | root empty nonempty =>
      have last : (pathNextDirEle path 0).len = 0 := by
        rw [pathNextDirEle_eq]
        exact nextEle_none empty
      simp only [dirFindPath, last, if_true, head?_of_elements empty nonempty]
      exact ⟨disk, rfl, serves.leaves⟩
  | entry split found =>
      have some : ¬(pathNextDirEle path 0).len = 0 := by
        rw [pathNextDirEle_eq]
        exact (nextIs (show elements (· = SLASH) (path.drop 0) = _ from split)).some
      simp only [dirFindPath, some, if_false]
      exact dirFindPathLoop_runs sized root others path found _ 0 _ disk serves split (by omega)

end Runs

/-- A floppy disk with a file `A`. -/
def fileData : Nat → Sector := fun sec =>
  if sec = 0 then floppySector
  else fun i => if i = 0 then 65 else if i < 11 then SPACE else 0

theorem fileData_resolves : (ofBpb 0 0 .floppy).Resolves fileData [SLASH, 97] (some ⟨19, 0⟩) := by
  have split : elements (· = SLASH) [SLASH, 97] = [[97]] := by decide
  refine .entry split (.last ⟨_, rfl, Dirs.foundIn_root.mpr ?_⟩)
  decide

end FatVol

end Pegasos.Kernel.Fat
