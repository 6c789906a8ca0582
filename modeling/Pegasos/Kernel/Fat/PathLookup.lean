import Pegasos.Kernel.Fat.Resolution
import Pegasos.Support.Links

/-!
# Looking up paths

A path is looked up from directory to directory, in the slots of each one in their order.
`dir_find_path` does this on a volume whose directories have chains that end.
-/

namespace Pegasos.Kernel.Fat

open Pegasos.Support
open Pegasos.Fat (Sector Dirent Slot Scan scan slotAt slotsFrom entryCount pathParseFn stringAt
  clusterOfInt FA_DIR SLASH InMemory elements pathParseFn_congr nextEle_none inMemory_stringAt
  scan_append)
open Cache (BlkPtr)

/-! ## The lookup -/

/-- The first slot with the name, in front of the end of the directory. -/
def findIn (data : Nat → Sector) (slots : List Slot) (ele : Fin 11 → UInt8) : Option Slot :=
  (slots.takeWhile fun slot => (slot.dirent data).name 0 ≠ 0).find? fun slot =>
    (slot.dirent data).name = ele

namespace FatVol

/-- The slots of so many sectors and less, from one on. -/
def slotsOfArea (start n : Nat) : List Slot :=
  (List.range n).map fun j => ⟨start + j / 16, j % 16 * 32⟩

/-- The slots of a directory in their order, where `chain` is what clusters it has. -/
def slotsOf (fv : FatVol) (chain : Nat → List Nat) (c : Nat) : List Slot :=
  if c = 0 then slotsOfArea fv.rootdirsec fv.rootEntries
  else (chain c).flatMap fun d => slotsOfArea (fv.datasec + (d - 2) * fv.secPerClus) (16 * fv.secPerClus)

variable (fv : FatVol) (data : Nat → Sector) (chain : Nat → List Nat)

/-- The slot of an element in a directory. -/
def lookupEle (c : Nat) (ele : List UInt8) : Option Slot :=
  (pathParseFn (stringAt ele 0) ele.length).bind (findIn data (fv.slotsOf chain c))

/-- The slot of the last one of some elements, from a directory on. -/
def resolve : Nat → List UInt8 → List (List UInt8) → Option Slot
  | c, ele, [] => fv.lookupEle data chain c ele
  | c, ele, ele' :: rest => do
      let slot ← fv.lookupEle data chain c ele
      if (slot.dirent data).attr &&& FA_DIR = 0 then none
      else resolve (slot.dirent data).cluster0.toNat ele' rest

/-- The lookup of a path. -/
def lookup (path : List UInt8) : Option FileInfo :=
  match elements (· = SLASH) path with
  | [] => if path = [] then none else some { ino := 0, dir := rootDirent }
  | ele :: rest => (fv.resolve data chain 0 ele rest).map (infoAt data)

/-- A volume with sectors of 512 bytes, clusters of 32 KB at most and a root directory, whose
sectors have numbers of 32 bits. -/
structure Volume : Prop where
  blksize : fv.blksize = BLOCK_SIZE
  some : 0 < fv.secPerClus
  most : fv.secPerClus ≤ 64
  root : 0 < fv.rootEntries
  rootArea : fv.rootdirsec + (fv.rootEntries + 15) / 16 ≤ 0x100000000
  dataArea : fv.datasec + (fv.nClus - 2) * fv.secPerClus ≤ 0x100000000

/-- A directory that a lookup comes to. -/
inductive Directory : Nat → Prop where
  | root : Directory 0
  | sub {c : Nat} {ele : List UInt8} {slot : Slot} (directory : Directory c)
      (found : fv.lookupEle data chain c ele = some slot)
      (isDir : (slot.dirent data).attr &&& FA_DIR ≠ 0) : Directory (slot.dirent data).cluster0.toNat

/-- The chain of a directory: its clusters are in the data area, and an end mark is behind the
last one. -/
structure Chained (c : Nat) : Prop where
  links : ∃ rest, chain c = c :: rest ∧ Links (fv.nextOf data) (0xff0 ≤ ·) c rest
  inside : ∀ d ∈ chain c, 2 ≤ d ∧ d < fv.nClus ∧ d < 0xff0

/-- The chains of the directories end, and are in the data area. -/
def Chains : Prop := ∀ c, fv.Directory data chain c → c ≠ 0 → fv.Chained data chain c

end FatVol

/-! ## What the code does -/

/-- The scan for a name finds the first slot with it. -/
theorem scan_eq_findIn (data : Nat → Sector) (slots : List Slot) (ele : Fin 11 → UInt8) (slot : Slot) :
    scan data (some ele) slots = .found slot ↔ findIn data slots ele = some slot := by
  induction slots with
  | nil => simp [scan, findIn]
  | cons first slots ih =>
      rw [scan, findIn]
      by_cases ended : (first.dirent data).name 0 = 0
      · rw [if_pos ⟨by simp, ended⟩, List.takeWhile_cons_of_neg (by simpa using ended)]
        simp
      · rw [if_neg fun both => ended both.2, List.takeWhile_cons_of_pos (by simpa using ended)]
        by_cases same : (first.dirent data).name = ele
        · have found : Fat.isFound (some ele) (first.dirent data) = true := decide_eq_true same
          rw [if_pos found, List.find?_cons_of_pos (by simpa using same)]
          simp
        · have other : ¬Fat.isFound (some ele) (first.dirent data) = true := by
            simpa [Fat.isFound] using same
          rw [if_neg other, List.find?_cons_of_neg (by simpa using same)]
          exact ih

namespace FatVol

variable {fv : FatVol} {data : Nat → Sector} {base : BlkPtr → Nat} {disk : Disk}
  {chain : Nat → List Nat} {c : Nat} {key : Option (Fin 11 → UInt8)}

/-- The slots of an area whose sectors have numbers of 32 bits. -/
theorem slotsOfArea_eq {start n : Nat} (fits : start + (n + 15) / 16 ≤ 0x100000000) :
    slotsOfArea start n = slotsFrom start n := by
  refine List.map_congr_left fun j less => ?_
  rw [List.mem_range] at less
  have sector : word (start + j / 16) = start + j / 16 := Nat.mod_eq_of_lt (by omega)
  rw [slotAt, sector]

theorem entryCount_eq {entleft : Nat} (some : 0 < entleft) : entryCount entleft = entleft :=
  if_neg some.ne'

theorem Volume.clusEntries (volume : fv.Volume) : fv.clusEntries = 16 * fv.secPerClus := by
  have most := volume.most
  rw [FatVol.clusEntries, volume.blksize]
  unfold BLOCK_SIZE direntSize
  omega

/-- The first sector of a cluster in the data area. -/
theorem Volume.clusSector (volume : fv.Volume) (first : 2 ≤ c) (last : c < fv.nClus) :
    fv.clusSector c = fv.datasec + (c - 2) * fv.secPerClus ∧
      fv.datasec + (c - 2) * fv.secPerClus + fv.secPerClus ≤ 0x100000000 := by
  have area := volume.dataArea
  have some := volume.some
  have rows : (c - 2 + 1) * fv.secPerClus ≤ (fv.nClus - 2) * fv.secPerClus :=
    Nat.mul_le_mul_right _ (by omega)
  rw [Nat.succ_mul] at rows
  have number : word (c + 0x100000000 - 2) = c - 2 := by
    have small : c - 2 ≤ (c - 2) * fv.secPerClus := Nat.le_mul_of_pos_right _ some
    unfold word
    omega
  rw [FatVol.clusSector, number]
  exact ⟨Nat.mod_eq_of_lt (by omega), by omega⟩

theorem Volume.rootSlots (volume : fv.Volume) : fv.rootSlots = fv.slotsOf chain 0 := by
  rw [slotsOf, if_pos rfl, slotsOfArea_eq volume.rootArea, FatVol.rootSlots,
    entryCount_eq volume.root]

theorem Volume.clusterSlots (volume : fv.Volume) (first : 2 ≤ c) (last : c < fv.nClus) :
    fv.clusterSlots c = slotsOfArea (fv.datasec + (c - 2) * fv.secPerClus) (16 * fv.secPerClus) := by
  obtain ⟨sector, fits⟩ := volume.clusSector first last
  have some : 0 < 16 * fv.secPerClus := Nat.mul_pos (by decide) volume.some
  rw [FatVol.clusterSlots, volume.clusEntries, entryCount_eq some, sector, slotsOfArea_eq (by omega)]

/-- The search of a chain ends at one of its clusters, with what the search of all their slots
gives. -/
theorem scan_chain {rest : List Nat} (links : Links (fv.nextOf data) (0xff0 ≤ ·) c rest)
    (inside : ∀ d ∈ c :: rest, d ≠ 0 ∧ d < 0xff0) :
    ∃ k, fv.Stops data key ((fv.nextOf data)^[k] c) ∧
      (∀ i < k, ¬fv.Stops data key ((fv.nextOf data)^[i] c)) ∧
      scan data key ((c :: rest).flatMap fv.clusterSlots) =
        scan data key (fv.clusterSlots ((fv.nextOf data)^[k] c)) := by
  induction rest generalizing c with
  | nil =>
      refine ⟨0, .inr (.inr links), fun i less => absurd less (Nat.not_lt_zero i), ?_⟩
      rw [List.flatMap_cons, List.flatMap_nil, List.append_nil]
      rfl
  | cons d rest ih =>
      by_cases through : scan data key (fv.clusterSlots c) = .through
      · obtain ⟨k, stops, first, same⟩ := ih links.2 fun e member => inside e (List.mem_cons_of_mem c member)
        have some := (inside c List.mem_cons_self).1
        have more := (inside d (List.mem_cons_of_mem c List.mem_cons_self)).2
        have next : fv.nextOf data c = d := links.1
        refine ⟨k + 1, by rwa [Function.iterate_succ_apply, next], fun i less => ?_, ?_⟩
        · cases i with
          | zero =>
              rw [Function.iterate_zero_apply, Stops, not_or, not_not, not_or, next]
              exact ⟨through, some, Nat.not_le_of_lt more⟩
          | succ i =>
              rw [Function.iterate_succ_apply, next]
              exact first i (Nat.lt_of_succ_lt_succ less)
        · rw [List.flatMap_cons, Fat.scan_append_through through, same, Function.iterate_succ_apply, next]
      · refine ⟨0, .inl through, fun i less => absurd less (Nat.not_lt_zero i), ?_⟩
        rw [List.flatMap_cons, scan_append, Function.iterate_zero_apply]
        generalize scan data key (fv.clusterSlots c) = result at through ⊢
        cases result with
        | found slot => rfl
        | ended => rfl
        | through => exact absurd rfl through

/-- How the lookup of an element or of a path ends, where this is what it should give. -/
inductive Answers (fv : FatVol) (data : Nat → Sector) (base : BlkPtr → Nat) (disk : Disk)
    (ran : Result Disk FileInfo) : Option FileInfo → Prop where
  | found {info : FileInfo} {after : Disk} (eq : ran = .ok info after)
      (leaves : Leaves fv.dev fv.unit data base disk [] after) :
      Answers fv data base disk ran (some info)
  | missing {after : Disk} (eq : ran = .err (-ENOENT) after) : Answers fv data base disk ran none

theorem Answers.behind {disk' : Disk} {held : List BlkPtr} {ran : Result Disk FileInfo}
    {result : Option FileInfo} (left : Leaves fv.dev fv.unit data base disk held disk')
    (answers : fv.Answers data base disk' ran result) : fv.Answers data base disk ran result := by
  cases answers with
  | found eq leaves => exact .found eq (left.trans leaves)
  | missing eq => exact .missing eq

/-- The search of all the slots gives the first one with the name. -/
theorem Ended.answers {gets : Nat} {ran : Result Disk FileInfo} {slots : List Slot}
    {ele : Fin 11 → UInt8} (ended : fv.Ended data base disk gets ran (scan data (some ele) slots)) :
    fv.Answers data base disk ran ((findIn data slots ele).map (infoAt data)) := by
  have same := scan_eq_findIn data slots ele
  generalize scan data (some ele) slots = result at ended same
  cases ended with
  | @found slot after eq leaves few =>
      rw [(same slot).mp rfl]
      exact .found eq leaves
  | missing none eq few =>
      cases search : findIn data slots ele with
      | none => exact .missing eq
      | some slot => exact absurd ((same slot).mpr search) (none slot)

/-- `dir_find_ent` of an element in a directory. -/
theorem dirFindEnt_answers (volume : fv.Volume) (chains : fv.Chains data chain)
    (others : Others base) (serves : Serves fv.dev fv.unit data base disk [])
    (directory : fv.Directory data chain c) {src : Nat → UInt8} {ele : List UInt8}
    (inMemory : InMemory src ele) :
    fv.Answers data base disk (fv.dirFindEnt (some (src, ele.length)) c disk)
      ((fv.lookupEle data chain c ele).map (infoAt data)) := by
  have same := pathParseFn_congr inMemory (inMemory_stringAt ele)
  rw [dirFindEnt, lookupEle, ← same]
  cases pathParseFn src ele.length with
  | none => exact .missing rfl
  | some name =>
      by_cases root : c = 0
      · subst root
        have ended := dirFindKey_root volume.blksize (by have := volume.rootArea; have := volume.root; omega)
          others serves (some name)
        rw [volume.rootSlots] at ended
        exact ended.answers
      · obtain ⟨⟨rest, clusters, links⟩, inside⟩ := chains c directory root
        rw [clusters] at inside
        obtain ⟨k, stops, first, scanned⟩ := @scan_chain fv data _ (some name) _ links fun d member =>
          ⟨fun zero => by simpa [zero] using (inside d member).1, (inside d member).2.2⟩
        have ended := dirFindKey_ends volume.blksize others serves (some name) root stops first
        have slots : (c :: rest).flatMap fv.clusterSlots = fv.slotsOf chain c := by
          rw [slotsOf, if_neg root, clusters]
          exact List.flatMap_congr fun d member =>
            volume.clusterSlots (inside d member).1 (inside d member).2.1
        rw [← scanned, slots] at ended
        exact ended.answers

/-- The cluster of a directory as an `int`. -/
theorem clusterOfInt_directory (chains : fv.Chains data chain) {dirent : Dirent}
    (directory : fv.Directory data chain dirent.cluster0.toNat) :
    clusterOfInt dirent.cluster0 = dirent.cluster0.toNat := by
  have small : dirent.cluster0.toNat < 0x8000 := by
    by_cases root : dirent.cluster0.toNat = 0
    · rw [root]
      decide
    · obtain ⟨⟨rest, clusters, links⟩, inside⟩ := chains _ directory root
      rw [clusters] at inside
      exact (inside _ List.mem_cons_self).2.2.trans (by decide)
  exact if_pos (UInt16.lt_iff_toNat_lt.mpr small)

/-- The loop of `dir_find_path` at an element of the path. -/
theorem dirFindPathLoop_answers (volume : fv.Volume) (chains : fv.Chains data chain)
    (others : Others base) (fn : List UInt8) : ∀ fuel start c info disk ele rest,
      Serves fv.dev fv.unit data base disk [] → fv.Directory data chain c →
        fn.length < start + fuel → elements (· = SLASH) (fn.drop start) = ele :: rest →
          fv.Answers data base disk
            (fv.dirFindPathLoop fn fuel (pathNextDirEle fn start) c info disk)
            ((fv.resolve data chain c ele rest).map (infoAt data)) := by
  intro fuel
  induction fuel with
  | zero =>
      intro start c info disk ele rest serves directory enough split
      have beyond : fn.length ≤ start := Nat.le_of_lt enough
      rw [List.drop_eq_nil_of_le beyond, Fat.elements_nil] at split
      exact nomatch split
  | succ fuel ih =>
      intro start c info disk ele rest serves directory enough split
      have next := nextIs split
      have found := dirFindEnt_answers volume chains others serves directory next.inMemory
      rw [← pathNextDirEle_eq] at found
      cases result : fv.lookupEle data chain c ele with
      | none =>
          rw [result] at found
          cases found with
          | missing eq =>
              have none : fv.resolve data chain c ele rest = .none := by
                cases rest with
                | nil => exact result
                | cons ele' rest => rw [resolve, result]; rfl
              rw [next.length] at eq
              rw [pathNextDirEle_eq] at eq ⊢
              rw [dirFindPathLoop, if_neg next.some, Program.bind_err eq, none]
              exact .missing rfl
      | some slot =>
          rw [result] at found
          cases found with
          | @found _ after eq leaves =>
              cases rest with
              | nil =>
                  have inside := next.later.trans_le next.inside
                  obtain ⟨fuel, rfl⟩ := Nat.exists_eq_succ_of_ne_zero (n := fuel) (by omega)
                  rw [pathLoop_last split eq, resolve, result]
                  exact .found rfl leaves
              | cons ele' rest =>
                  obtain ⟨stop, later, behind, more⟩ := pathLoop_more info fuel split eq
                  rw [more, infoAt_dir, resolve, result]
                  change fv.Answers data base disk _ (Option.map (infoAt data) (if _ then _ else _))
                  by_cases isDir : (slot.dirent data).attr &&& FA_DIR = 0
                  · rw [if_pos isDir, if_pos isDir]
                    exact .missing rfl
                  · have directory' := Directory.sub directory result isDir
                    rw [if_neg isDir, if_neg isDir, clusterOfInt_directory chains directory']
                    exact (ih stop _ (infoAt data slot) after ele' rest leaves.serves directory' (by omega)
                      behind).behind leaves

theorem lookupEle_mem {ele : List UInt8} {slot : Slot}
    (found : fv.lookupEle data chain c ele = some slot) : slot ∈ fv.slotsOf chain c := by
  obtain ⟨name, -, search⟩ := Option.bind_eq_some_iff.mp found
  exact (List.takeWhile_sublist _).subset (List.mem_of_find?_eq_some search)

/-- No slot of the root directory is that of a directory. -/
theorem fileData_attr {slot : Slot} (member : slot ∈ (ofBpb 0 0 .floppy).slotsOf chain 0) :
    (slot.dirent fileData).attr = 0 := by
  obtain ⟨j, -, rfl⟩ := List.mem_map.mp member
  have behind : (ofBpb 0 0 .floppy).rootdirsec + j / 16 ≠ 0 := by
    rw [show (ofBpb 0 0 .floppy).rootdirsec = 19 by decide]
    omega
  change fileData ((ofBpb 0 0 .floppy).rootdirsec + j / 16) (j % 16 * 32 + 11) = 0
  rw [fileData, if_neg behind, if_neg (by omega), if_neg (by omega)]

example : (ofBpb 0 0 .floppy).lookupEle fileData (fun _ => []) 0 [97] = some ⟨19, 0⟩ := by decide

end FatVol

end Pegasos.Kernel.Fat
