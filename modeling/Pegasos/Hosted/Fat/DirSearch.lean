import Pegasos.Fat.Paths
import Pegasos.Fat.Search
import Pegasos.Hosted.Fat.EntryUpdates
import Pegasos.Hosted.Fat.FileObj

/-!
# Searching directories

`dir_find_ent` and `dir_find_path` of the hosted FAT code change nothing on the unit, and what
they return is in the slot that the search comes to.
-/

namespace Pegasos.Hosted

open Pegasos.Support
open Fat (Sector Dirent direntAt Slot Scan Dirs scan slotAt slotsFrom entryCount pred16 isFound
  entryCount_pos entryCount_le entryCount_mod pathParseFn stringAt clusterOfInt FA_DIR InMemory
  nextEle elements pathParseFn_congr nextEle_cons nextEle_none inMemory_stringAt)

namespace FatVol

variable {fv : FatVol}

theorem quiet_clusGetNext (c : Nat) : Quiet (fv.clusGetNext c) := by
  unfold clusGetNext
  refine (Quiet.bcGet _ _).bind fun _ => (Quiet.readByte _ _).bind fun low => ?_
  have rest (sec : Nat) (i : Nat) : Quiet (readByte sec i >>= fun high => bcPut sec >>= fun _ =>
      (Pure.pure (unpack12 c low high) : BlockM Nat)) :=
    (Quiet.readByte _ _).bind fun high => (Quiet.bcPut _).bind fun _ => .pure _
  exact .ite ((Quiet.bcPut _).bind fun _ => (Quiet.bcGet _ _).bind fun _ => rest _ _) (rest _ _)

theorem quiet_dirFindEntLoop (key : Option (Fin 11 → UInt8)) (fuel : Nat) : ∀ c sec offs entleft,
    Quiet (fv.dirFindEntLoop key fuel c sec offs entleft) := by
  induction fuel with
  | zero => exact fun c sec offs entleft => .hang
  | succ fuel ih =>
      intro c sec offs entleft
      unfold dirFindEntLoop
      refine (Quiet.readBlock _).bind fun sector => .ite (.throw _) ?_
      refine .ite ((Quiet.bcPut _).bind fun _ => .pure _) (.ite (.ite ?_ ?_) (.ite ?_ (ih _ _ _ _)))
      · exact (Quiet.bcPut _).bind fun _ => .throw _
      · refine (quiet_clusGetNext c).attempt.bind fun result => ?_
        cases result with
        | error rc => exact (Quiet.bcPut _).attempt.bind fun _ => .throw _
        | ok next =>
            exact .ite (.throw _) ((Quiet.bcPut _).bind fun _ => (Quiet.bcGet _ _).bind fun _ => ih _ _ _ _)
      · exact (Quiet.bcPut _).bind fun _ => (Quiet.bcGet _ _).bind fun _ => ih _ _ _ _

theorem quiet_dirFindKey (key : Option (Fin 11 → UInt8)) (c : Nat) : Quiet (fv.dirFindKey key c) :=
  (Quiet.bcGet _ _).bind fun _ => quiet_dirFindEntLoop key dirFuel _ _ _ _

theorem quiet_dirFindEnt (path : Nat → UInt8) (len c : Nat) : Quiet (fv.dirFindEnt path len c) := by
  unfold dirFindEnt
  cases pathParseFn path len with
  | none => exact .throw _
  | some ele => exact quiet_dirFindKey _ _

theorem quiet_dirFindPath (fn : List UInt8) (info : FileInfo) : Quiet (fv.dirFindPath fn info) := by
  unfold dirFindPath
  generalize fn.length + 1 = fuel
  generalize pathNextDirEle fn 0 = ss
  generalize 0 = cluster
  induction fuel generalizing ss cluster info with
  | zero => exact .hang
  | succ fuel ih =>
      unfold dirFindPathLoop
      refine .ite (.pure _) ((quiet_dirFindEnt _ _ _).bind fun info => .ite (.throw _) (ih _ _ _))

/-! ## What is found -/

/-- What `dir_find_ent` returns for a slot. -/
def infoAt (data : Nat → Sector) (slot : Slot) : FileInfo where
  sector := slot.sec
  secoffs := slot.offs
  dir := slot.dirent data

theorem infoAt_dir (data : Nat → Sector) (slot : Slot) : (infoAt data slot).dir = slot.dirent data := rfl

theorem pathNextDirEle_eq (fn : List UInt8) (start : Nat) :
    pathNextDirEle fn start = nextEle isSeparator fn start := rfl

/-- The directories of a volume. -/
def dirs (fv : FatVol) (data : Nat → Sector) : Dirs where
  rootSlots := slotsFrom fv.rootdirsec (entryCount fv.rootEntries)
  clusterSlots c := slotsFrom (fv.clusSector c) (entryCount fv.clusEntries)
  next := fv.nextOf data

variable {data : Nat → Sector} {key : Option (Fin 11 → UInt8)} {unit after : Blocks}
  {info : FileInfo} {c value : Nat} {ele : List UInt8} {rest : List (List UInt8)} {slot : Slot}

theorem clusGetNext_value (sized : fv.blksize = BLKSIZE)
    (ran : fv.clusGetNext c unit = .ok value after) :
    value = fv.nextOf unit.data c ∧ after.data = unit.data := by
  have ends := clusGetNext_reads sized c unit
  rw [Program.Ends, ran] at ends
  exact ⟨ends.1, ends.2.2⟩

theorem clusEntries_lt (fv : FatVol) : fv.clusEntries < 0x10000 := by
  unfold clusEntries direntSize
  omega

theorem rootEntries_lt (fv : FatVol) : fv.rootEntries < 0x10000 := fv.bpb.rootEntries.toNat_lt

theorem slotAt_zero {start : Nat} (sector : word start = start) : slotAt start 0 = ⟨start, 0⟩ := by
  rw [slotAt, Nat.zero_div, Nat.add_zero, sector]

theorem word_clusSector (c : Nat) : word (fv.clusSector c) = fv.clusSector c := Nat.mod_mod _ _

theorem dirFindEntLoop_found (sized : fv.blksize = BLKSIZE) (fuel : Nat) :
    ∀ c start j m unit info after, m < 0x10000 →
      fv.dirFindEntLoop key fuel c (slotAt start j).sec (slotAt start j).offs ((m + 1) % 0x10000)
        unit = .ok info after →
      ∃ slot, (fv.dirs unit.data).Finds unit.data key c ((List.range' j (m + 1)).map (slotAt start)) slot ∧
        info = infoAt unit.data slot := by
  induction fuel with
  | zero =>
      intro c start j m unit info after few ran
      cases ran
  | succ fuel ih =>
      intro c start j m unit info after few ran
      have small : m % 0x10000 = m := Nat.mod_eq_of_lt few
      have sector : (slotAt start j).offs + direntSize = fv.blksize ↔ j % 16 = 15 := by
        rw [sized]
        change j % 16 * 32 + 32 = 512 ↔ _
        omega
      rw [dirFindEntLoop, Program.bind_ok Blocks.readBlock_ok, Fat.pred16_eq (Nat.succ_pos m) few,
        Nat.succ_sub_one, small] at ran
      rw [List.range'_succ, List.map_cons]
      change (if key ≠ none ∧ ((slotAt start j).dirent unit.data).name 0 = 0 then _
        else if isFound key ((slotAt start j).dirent unit.data) then _ else _ : BlockM FileInfo)
          unit = _ at ran
      by_cases ended : key ≠ none ∧ ((slotAt start j).dirent unit.data).name 0 = 0
      · rw [if_pos ended] at ran
        cases ran
      rw [if_neg ended] at ran
      by_cases found : isFound key ((slotAt start j).dirent unit.data) = true
      · rw [if_pos found] at ran
        obtain ⟨⟨⟩, middle, -, ran⟩ := Program.of_bind_ok ran
        obtain ⟨rfl, -⟩ := Result.ok.inj ran
        refine ⟨slotAt start j, .here ?_, rfl⟩
        rw [scan, if_neg ended, if_pos found]
      rw [if_neg found] at ran
      by_cases last : m = 0
      · subst last
        rw [if_pos rfl] at ran
        by_cases root : c = 0
        · rw [if_pos root] at ran
          obtain ⟨⟨⟩, middle, -, ran⟩ := Program.of_bind_ok ran
          cases ran
        rw [if_neg root] at ran
        obtain ⟨result, unit1, ran1, ran⟩ := Program.of_bind_ok ran
        have same1 := (quiet_clusGetNext c).attempt.ok _ _ _ ran1
        cases result with
        | error rc =>
            obtain ⟨_, _, -, ran⟩ := Program.of_bind_ok ran
            cases ran
        | ok next =>
            obtain ⟨rfl, -⟩ := clusGetNext_value sized (Program.of_attempt_ok ran1)
            change (if 0xff0 ≤ fv.nextOf unit.data c then _ else _ : BlockM FileInfo) unit1 = _ at ran
            by_cases stop : 0xff0 ≤ fv.nextOf unit.data c
            · rw [if_pos stop] at ran
              cases ran
            rw [if_neg stop] at ran
            obtain ⟨⟨⟩, unit2, ran2, ran⟩ := Program.of_bind_ok ran
            obtain ⟨⟨⟩, unit3, ran3, ran⟩ := Program.of_bind_ok ran
            have same := ((Quiet.bcGet _ _).ok _ _ _ ran3).trans
              (((Quiet.bcPut _).ok _ _ _ ran2).trans same1)
            have again := ih (fv.nextOf unit.data c) (fv.clusSector (fv.nextOf unit.data c)) 0
              (entryCount fv.clusEntries - 1) unit3 info after
              (Nat.sub_one_lt_of_le (entryCount_pos _) (entryCount_le fv.clusEntries_lt))
            rw [slotAt_zero (word_clusSector _), Nat.sub_add_cancel (entryCount_pos _),
              entryCount_mod fv.clusEntries_lt, same, ← List.range_eq_range'] at again
            obtain ⟨slot, finds, eq⟩ := again ran
            refine ⟨slot, .next ?_ root (Nat.not_le.mp stop) finds, eq⟩
            rw [List.range'_zero, List.map_nil, scan, if_neg ended, if_neg found, scan]
      rw [if_neg last] at ran
      obtain ⟨m, rfl⟩ := Nat.exists_eq_succ_of_ne_zero last
      by_cases row : j % 16 = 15
      · rw [if_pos (sector.mpr row)] at ran
        obtain ⟨⟨⟩, unit1, ran1, ran⟩ := Program.of_bind_ok ran
        obtain ⟨⟨⟩, unit2, ran2, ran⟩ := Program.of_bind_ok ran
        have same := ((Quiet.bcGet _ _).ok _ _ _ ran2).trans ((Quiet.bcPut _).ok _ _ _ ran1)
        have behind := (Fat.slotAt_succ start j).1 row
        have again := ih c start (j + 1) m unit2 info after (by omega)
        rw [behind, Nat.mod_eq_of_lt few, same] at again
        obtain ⟨slot, finds, eq⟩ := again ran
        exact ⟨slot, .cons ended found finds, eq⟩
      · rw [if_neg (mt sector.mp row)] at ran
        have behind := (Fat.slotAt_succ start j).2 row
        have again := ih c start (j + 1) m unit info after (by omega)
        rw [behind, Nat.mod_eq_of_lt few] at again
        obtain ⟨slot, finds, eq⟩ := again ran
        exact ⟨slot, .cons ended found finds, eq⟩

/-- A search that returns an entry comes to its slot. -/
theorem dirFindKey_found (sized : fv.blksize = BLKSIZE) (root : word fv.rootdirsec = fv.rootdirsec)
    (ran : fv.dirFindKey key c unit = .ok info after) :
    ∃ slot, (fv.dirs unit.data).FoundIn unit.data key c slot ∧ info = infoAt unit.data slot ∧
      after.data = unit.data := by
  have kept := (quiet_dirFindKey key c).ok _ _ _ ran
  obtain ⟨⟨⟩, middle, ran1, ran⟩ := Program.of_bind_ok ran
  have same := (Quiet.bcGet _ _).ok _ _ _ ran1
  have start : ∃ start n, word start = start ∧ n < 0x10000 ∧
      (if c = 0 then fv.rootdirsec else fv.clusSector c) = start ∧
      (if c = 0 then fv.rootEntries else fv.clusEntries) = n ∧
      (fv.dirs unit.data).slotsAt c = slotsFrom start (entryCount n) := by
    rw [Dirs.slotsAt]
    split
    · exact ⟨_, _, root, fv.rootEntries_lt, rfl, rfl, rfl⟩
    · exact ⟨_, _, word_clusSector c, fv.clusEntries_lt, rfl, rfl, rfl⟩
  obtain ⟨start, n, sector, few, first, count, slots⟩ := start
  rw [first, count] at ran
  have found := @dirFindEntLoop_found fv key sized dirFuel c start 0 (entryCount n - 1) middle info
    after (Nat.sub_one_lt_of_le (entryCount_pos _) (entryCount_le few))
  rw [slotAt_zero sector, Nat.sub_add_cancel (entryCount_pos _), entryCount_mod few, same,
    ← List.range_eq_range'] at found
  obtain ⟨slot, finds, eq⟩ := found ran
  refine ⟨slot, ?_, eq, kept⟩
  rw [Dirs.FoundIn, slots]
  exact finds

theorem dirFindEnt_found (sized : fv.blksize = BLKSIZE) (root : word fv.rootdirsec = fv.rootdirsec)
    {src : Nat → UInt8} (inMemory : InMemory src ele)
    (ran : fv.dirFindEnt src ele.length c unit = .ok info after) :
    ∃ slot, (fv.dirs unit.data).EleIn unit.data c ele slot ∧ info = infoAt unit.data slot ∧
      after.data = unit.data := by
  have same := pathParseFn_congr inMemory (inMemory_stringAt ele)
  cases parsed : pathParseFn src ele.length with
  | none =>
      rw [dirFindEnt, parsed] at ran
      cases ran
  | some name =>
      rw [dirFindEnt, parsed] at ran
      obtain ⟨slot, found, rest⟩ := dirFindKey_found sized root ran
      exact ⟨slot, ⟨name, same.symm.trans parsed, found⟩, rest⟩

theorem nextIs {fn : List UInt8} {start : Nat} (split : elements isSeparator (fn.drop start) = ele :: rest) :
    Fat.NextIs isSeparator fn start ele rest :=
  nextEle_cons (fun _ is => Or.comm.mp (of_decide_eq_true is)) split

section Loop

variable {fn : List UInt8} {start fuel : Nat} {ele' : List UInt8} {found : FileInfo}

/-- The loop of `dir_find_path` at the last element. -/
theorem pathLoop_last (split : elements isSeparator (fn.drop start) = [ele])
    (ran : fv.dirFindEnt (stringAt fn (pathNextDirEle fn start).start) ele.length c unit =
      .ok found after) :
    fv.dirFindPathLoop fn (fuel + 2) (pathNextDirEle fn start) c info unit = .ok found after := by
  have next := nextIs split
  have last := nextEle_none next.behind
  rw [next.length] at ran
  rw [pathNextDirEle_eq] at ran ⊢
  rw [dirFindPathLoop, if_neg next.some, Program.bind_ok ran, pathNextDirEle_eq,
    if_neg fun both => both.1 last, dirFindPathLoop, if_pos last]
  rfl

/-- The loop of `dir_find_path` at another element. -/
theorem pathLoop_more (info : FileInfo) (fuel : Nat)
    (split : elements isSeparator (fn.drop start) = ele :: ele' :: rest)
    (ran : fv.dirFindEnt (stringAt fn (pathNextDirEle fn start).start) ele.length c unit =
      .ok found after) : ∃ stop,
    start < stop ∧ elements isSeparator (fn.drop stop) = ele' :: rest ∧
      fv.dirFindPathLoop fn (fuel + 1) (pathNextDirEle fn start) c info unit =
        if found.dir.attr &&& FA_DIR = 0 then .err (-ENOENT) after
        else fv.dirFindPathLoop fn fuel (pathNextDirEle fn stop)
          (clusterOfInt found.dir.cluster0) found after := by
  have next := nextIs split
  have more := (nextIs next.behind).some
  rw [next.length] at ran
  rw [pathNextDirEle_eq] at ran ⊢
  refine ⟨_, next.later, next.behind, ?_⟩
  rw [dirFindPathLoop, if_neg next.some, Program.bind_ok ran]
  by_cases isDir : found.dir.attr &&& FA_DIR = 0
  · rw [if_pos isDir, if_pos ⟨by rwa [pathNextDirEle_eq], isDir⟩]
    rfl
  · rw [if_neg isDir, if_neg fun both => isDir both.2]

end Loop

/-- The loop of `dir_find_path`, where it returns an entry. -/
theorem dirFindPathLoop_resolves (sized : fv.blksize = BLKSIZE)
    (root : word fv.rootdirsec = fv.rootdirsec) (fn : List UInt8) :
    ∀ fuel start c info unit ele rest result after,
      elements isSeparator (fn.drop start) = ele :: rest → fn.length < start + fuel →
        fv.dirFindPathLoop fn fuel (pathNextDirEle fn start) c info unit = .ok result after →
          ∃ slot, (fv.dirs unit.data).ResolvesFrom unit.data c ele rest slot ∧
            result = infoAt unit.data slot := by
  intro fuel
  induction fuel with
  | zero => exact fun start c info unit ele rest result after split enough ran => nomatch ran
  | succ fuel ih =>
      intro start c info unit ele rest result after split enough ran
      have next := nextIs split
      have ran' := ran
      rw [pathNextDirEle_eq, dirFindPathLoop, if_neg next.some, ← next.length] at ran'
      obtain ⟨_, middle, first, -⟩ := Program.of_bind_ok ran'
      obtain ⟨slot, found, rfl, same⟩ := dirFindEnt_found sized root next.inMemory first
      rw [← pathNextDirEle_eq] at first
      cases rest with
      | nil =>
          have inside := next.later.trans_le next.inside
          obtain ⟨fuel, rfl⟩ := Nat.exists_eq_succ_of_ne_zero (n := fuel) (by omega)
          rw [pathLoop_last split first] at ran
          obtain ⟨rfl, -⟩ := Result.ok.inj ran
          exact ⟨slot, .last found, rfl⟩
      | cons ele' rest =>
          obtain ⟨stop, later, behind, eq⟩ := pathLoop_more info fuel split first
          rw [eq, infoAt_dir] at ran
          by_cases isDir : (slot.dirent unit.data).attr &&& FA_DIR = 0
          · rw [if_pos isDir] at ran
            exact nomatch ran
          · rw [if_neg isDir] at ran
            have again := ih stop _ _ middle ele' rest result after behind (by omega) ran
            rw [same] at again
            obtain ⟨slot', resolves, rfl⟩ := again
            exact ⟨slot', .more found isDir resolves, rfl⟩

/-- What a path with elements resolves to. -/
def Resolves (fv : FatVol) (data : Nat → Sector) (path : List UInt8) (slot : Slot) : Prop :=
  ∃ ele rest, elements isSeparator path = ele :: rest ∧
    (fv.dirs data).ResolvesFrom data 0 ele rest slot

theorem Resolves.unique {path : List UInt8} {slot' : Slot} (resolves : fv.Resolves data path slot)
    (resolves' : fv.Resolves data path slot') : slot = slot' := by
  obtain ⟨ele, rest, split, found⟩ := resolves
  obtain ⟨ele', rest', split', found'⟩ := resolves'
  obtain ⟨rfl, rfl⟩ := List.cons.inj (split.symm.trans split')
  exact found.unique found'

/-- `dir_find_path` of a path with elements comes to the slot that it resolves to. -/
theorem dirFindPath_resolves (sized : fv.blksize = BLKSIZE)
    (root : word fv.rootdirsec = fv.rootdirsec) {path : List UInt8} {info' : FileInfo}
    (some : elements isSeparator path ≠ [])
    (ran : fv.dirFindPath path info unit = .ok info' after) :
    ∃ slot, fv.Resolves unit.data path slot ∧ info' = infoAt unit.data slot := by
  obtain ⟨ele, rest, split⟩ := List.exists_cons_of_ne_nil some
  obtain ⟨slot, resolves, eq⟩ := dirFindPathLoop_resolves sized root path _ 0 0 info unit ele rest
    info' after split (by omega) ran
  exact ⟨slot, ⟨ele, rest, split, resolves⟩, eq⟩

end FatVol

end Pegasos.Hosted
