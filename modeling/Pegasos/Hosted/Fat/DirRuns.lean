import Pegasos.Hosted.Fat.Create
import Pegasos.Support.FirstStop

/-!
# Searches that return

`dir_find_ent` and `dir_find_path` of the hosted FAT code return the slot that a search comes to,
on a unit that has the sectors of the volume and buffers to spare.
-/

namespace Pegasos.Hosted

open Pegasos.Support
open Fat (Sector direntAt Slot Scan Dirs scan slotAt slotsFrom entryCount isFound
  entryCount_pos entryCount_le entryCount_mod pathParseFn stringAt clusterOfInt FA_DIR InMemory
  elements pathParseFn_congr inMemory_stringAt)

/-! ## Blocks in use -/

/-- At most so many more blocks are in use, where all transfers succeed. -/
structure Blocks.Grown (before after : Blocks) (more : Int) : Prop where
  inuse : (after.inuse.length : Int) ≤ before.inuse.length + more
  blocks : after.blocks = before.blocks
  buffers : after.buffers = before.buffers
  transfers : after.transfers = []

/-- Where all transfers succeed, the program takes at most `more` blocks into use if it returns a
value, and `failed` if it returns an error. -/
structure Grows {α : Type} (program : BlockM α) (more failed : Int) : Prop where
  ok : ∀ unit value after, unit.transfers = [] → program unit = .ok value after →
    unit.Grown after more
  err : ∀ unit code after, unit.transfers = [] → program unit = .err code after →
    unit.Grown after failed

section Rules

variable {α β : Type} {program other : BlockM α} {next : α → BlockM β} {unit unit' unit'' : Blocks}
  {more more' failed failed' f e : Int}

theorem Blocks.Grown.mono (grown : unit.Grown unit' more) (le : more ≤ more') :
    unit.Grown unit' more' := { grown with inuse := by have := grown.inuse; omega }

theorem Blocks.Grown.trans (grown : unit.Grown unit' more) (grown' : unit'.Grown unit'' more') :
    unit.Grown unit'' (more + more') where
  inuse := by
    have := grown.inuse
    have := grown'.inuse
    omega
  blocks := grown'.blocks.trans grown.blocks
  buffers := grown'.buffers.trans grown.buffers
  transfers := grown'.transfers

theorem Blocks.Grown.refl (succeed : unit.transfers = []) : unit.Grown unit 0 :=
  ⟨by omega, rfl, rfl, succeed⟩

theorem Blocks.Freed.grown (freed : unit.Freed unit') (succeed : unit.transfers = []) :
    unit.Grown unit' 0 where
  inuse := by
    have shorter := freed.inuse.length_le
    omega
  blocks := freed.blocks
  buffers := freed.buffers
  transfers := List.suffix_nil.mp (succeed ▸ freed.transfers)

theorem Blocks.Grown.room {n m : Nat} (grown : unit.Grown unit' more) (room : unit.Room n)
    (le : more + m ≤ n) : unit'.Room m := by
  have before := room.free
  have after := grown.inuse
  refine ⟨?_, grown.transfers⟩
  rw [grown.buffers]
  omega

namespace Grows

theorem mono (grows : Grows program more failed) (le : more ≤ more') (le' : failed ≤ failed') :
    Grows program more' failed' where
  ok unit value after succeed ran := (grows.ok unit value after succeed ran).mono le
  err unit code after succeed ran := (grows.err unit code after succeed ran).mono le'

theorem pure (value : α) : Grows (Pure.pure value : BlockM α) 0 failed :=
  ⟨fun _ _ _ succeed ran => (Result.ok.inj ran).2 ▸ .refl succeed, nofun⟩

theorem throw (code : Int) : Grows (Program.throw code : BlockM α) more 0 :=
  ⟨nofun, fun _ _ _ succeed ran => (Result.err.inj ran).2 ▸ .refl succeed⟩

theorem hang : Grows (Program.hang : BlockM α) more failed := ⟨nofun, nofun⟩

theorem bind (here : Grows program f e)
    (rest : ∀ value, Grows (next value) (more - f) (failed - f)) (le : e ≤ failed) :
    Grows (program >>= next) more failed where
  ok unit value after succeed ran := by
    obtain ⟨middle, between, ran, ran'⟩ := Program.of_bind_ok ran
    have grown := here.ok _ _ _ succeed ran
    exact (grown.trans ((rest middle).ok _ _ _ grown.transfers ran')).mono (by omega)
  err unit code after succeed ran := by
    cases result : program unit with
    | ok value between =>
        rw [Program.bind_ok result] at ran
        have grown := here.ok _ _ _ succeed result
        exact (grown.trans ((rest value).err _ _ _ grown.transfers ran)).mono (by omega)
    | err code' between =>
        rw [Program.bind_err result] at ran
        obtain ⟨rfl, rfl⟩ := Result.err.inj ran
        exact (here.err _ _ _ succeed result).mono le
    | fault => exact nomatch (Program.bind_fault result).symm.trans ran
    | hang => exact nomatch (Program.bind_hang result).symm.trans ran

theorem attempt (grows : Grows program more more) : Grows (Program.attempt program) more failed where
  ok unit value after succeed ran := by
    cases result : program unit with
    | ok value between =>
        rw [Program.attempt_ok result] at ran
        obtain ⟨rfl, rfl⟩ := Result.ok.inj ran
        exact grows.ok _ _ _ succeed result
    | err code between =>
        rw [Program.attempt_err result] at ran
        obtain ⟨rfl, rfl⟩ := Result.ok.inj ran
        exact grows.err _ _ _ succeed result
    | fault => exact nomatch (Program.attempt_fault result).symm.trans ran
    | hang => exact nomatch (Program.attempt_hang result).symm.trans ran
  err unit code after succeed ran := by
    cases result : program unit with
    | ok value between => exact nomatch (Program.attempt_ok result).symm.trans ran
    | err code between => exact nomatch (Program.attempt_err result).symm.trans ran
    | fault => exact nomatch (Program.attempt_fault result).symm.trans ran
    | hang => exact nomatch (Program.attempt_hang result).symm.trans ran

theorem ite {p : Prop} [Decidable p] (yes : Grows program more failed)
    (no : Grows other more failed) : Grows (if p then program else other) more failed := by
  split
  · exact yes
  · exact no

theorem bcGet (blkno : Nat) (overw : Bool) : Grows (bcGet blkno overw) 1 0 where
  ok unit value after succeed ran := by
    have here : unit.transfer = (0, unit) := by rw [Blocks.transfer, succeed]
    unfold Hosted.bcGet at ran
    rw [here] at ran
    split_ifs at ran
    obtain rfl := (Result.ok.inj ran).2
    refine ⟨?_, rfl, rfl, succeed⟩
    change ((unit.inuse.insert blkno).length : Int) ≤ _
    by_cases held : blkno ∈ unit.inuse
    · rw [List.insert_of_mem held]
      omega
    · rw [List.insert_of_not_mem held, List.length_cons]
      omega
  err unit code after succeed ran := by
    have here : unit.transfer = (0, unit) := by rw [Blocks.transfer, succeed]
    unfold Hosted.bcGet at ran
    rw [here] at ran
    split_ifs at ran
    all_goals
      obtain rfl := (Result.err.inj ran).2
      exact .refl succeed

theorem bcPut (blkno : Nat) : Grows (bcPut blkno) (-1) 0 where
  ok unit value after succeed ran := by
    unfold Hosted.bcPut at ran
    split_ifs at ran with held
    obtain rfl := (Result.ok.inj ran).2
    have shorter := List.length_erase_add_one held
    refine ⟨?_, rfl, rfl, succeed⟩
    change ((unit.inuse.erase blkno).length : Int) ≤ _
    omega
  err unit code after succeed ran := by
    unfold Hosted.bcPut at ran
    split_ifs at ran
    obtain rfl := (Result.err.inj ran).2
    exact .refl succeed

theorem readByte (blkno i : Nat) : Grows (readByte blkno i) 0 failed where
  ok unit value after succeed ran := by
    unfold Hosted.readByte at ran
    split_ifs at ran
    obtain rfl := (Result.ok.inj ran).2
    exact .refl succeed
  err unit code after succeed ran := by
    unfold Hosted.readByte at ran
    split_ifs at ran

theorem readBlock (blkno : Nat) : Grows (readBlock blkno) 0 failed :=
  ⟨fun _ _ _ succeed ran => (Result.ok.inj ran).2 ▸ .refl succeed, nofun⟩

theorem writeBlock (blkno : Nat) (edit : Sector → Sector) :
    Grows (writeBlock blkno edit) 0 failed :=
  ⟨fun _ _ _ succeed ran => (Result.ok.inj ran).2 ▸ ⟨by simp, rfl, rfl, succeed⟩, nofun⟩

end Grows

end Rules

namespace FatVol

variable {fv : FatVol} {key : Option (Fin 11 → UInt8)} {unit unit' after : Blocks} {info : FileInfo}
  {c m : Nat} {slot : Slot} {data : Nat → Sector}

theorem grows_clusGetNext (sized : fv.blksize = BLKSIZE) (c : Nat) : Grows (fv.clusGetNext c) 0 0 where
  ok unit value after succeed ran := by
    have ends := clusGetNext_reads sized c unit
    rw [Program.Ends, ran] at ends
    exact ends.2.1.grown succeed
  err unit code after succeed ran := by
    have ends := clusGetNext_reads sized c unit
    rw [Program.Ends, ran] at ends
    exact ends.1.grown succeed

/-- The loop of `dir_find_ent` puts its block back if it finds a slot. -/
theorem grows_dirFindEntLoop (sized : fv.blksize = BLKSIZE) (key : Option (Fin 11 → UInt8))
    (fuel : Nat) : ∀ c sec offs entleft,
      Grows (fv.dirFindEntLoop key fuel c sec offs entleft) (-1) 0 := by
  induction fuel with
  | zero => exact fun c sec offs entleft => .hang
  | succ fuel ih =>
      intro c sec offs entleft
      unfold dirFindEntLoop
      refine (Grows.readBlock _).bind (e := 0) (fun sector => ?_) le_rfl
      refine .ite (.throw _) (.ite ?_ (.ite (.ite ?_ ?_) (.ite ?_ ?_)))
      · exact (Grows.bcPut _).bind (fun _ => .pure _) le_rfl
      · exact (Grows.bcPut _).bind (fun _ => (Grows.throw _).mono le_rfl (by decide)) le_rfl
      · refine (grows_clusGetNext sized c).attempt.bind (e := 0) (fun result => ?_) le_rfl
        cases result with
        | error rc =>
            refine ((Grows.bcPut _).mono (by decide) le_rfl).attempt.bind (f := 0) (e := 0)
              (fun _ => .throw _) le_rfl
        | ok next =>
            refine .ite (.throw _) ((Grows.bcPut _).bind (fun _ => ?_) le_rfl)
            refine (Grows.bcGet _ _).bind (fun _ => ?_) (by decide)
            exact (ih _ _ _ _).mono (by decide) (by decide)
      · refine (Grows.bcPut _).bind (fun _ => (Grows.bcGet _ _).bind (fun _ => ?_) ?_) le_rfl
        · exact (ih _ _ _ _).mono (by decide) (by decide)
        · decide
      · exact ih _ _ _ _

theorem grows_dirFindKey (sized : fv.blksize = BLKSIZE) (key : Option (Fin 11 → UInt8)) (c : Nat) :
    Grows (fv.dirFindKey key c) 0 1 :=
  (Grows.bcGet _ _).bind (fun _ => (grows_dirFindEntLoop sized key dirFuel _ _ _ _).mono (by decide)
    (by decide)) (by decide)

theorem grows_dirFindEnt (sized : fv.blksize = BLKSIZE) (path : Nat → UInt8) (len c : Nat) :
    Grows (fv.dirFindEnt path len c) 0 1 := by
  unfold dirFindEnt
  cases pathParseFn path len with
  | none => exact (Grows.throw _).mono le_rfl (by decide)
  | some ele => exact grows_dirFindKey sized _ _

theorem grows_dirFindPath (sized : fv.blksize = BLKSIZE) (fn : List UInt8) (info : FileInfo) :
    Grows (fv.dirFindPath fn info) 0 1 := by
  unfold dirFindPath
  generalize fn.length + 1 = fuel
  generalize pathNextDirEle fn 0 = ss
  generalize 0 = cluster
  induction fuel generalizing ss cluster info with
  | zero => exact .hang
  | succ fuel ih =>
      unfold dirFindPathLoop
      refine .ite (.pure _) ((grows_dirFindEnt sized _ _ _).bind (fun info => ?_) le_rfl)
      exact .ite ((Grows.throw _).mono le_rfl (by decide)) (ih _ _ _)

theorem grows_createIn (sized : fv.blksize = BLKSIZE) (name : List UInt8) (ele : Fin 11 → UInt8)
    (attr : UInt8) (tm : Tm) (clus : Nat) : Grows (fv.createIn name ele attr tm clus) 1 2 := by
  have search : Grows (fv.dirFindEnt (stringAt name 0) name.length clus) 1 1 :=
    (grows_dirFindEnt sized _ _ _).mono (by decide) le_rfl
  refine search.attempt.bind (e := 0) (fun result => ?_) (by decide)
  cases result with
  | ok _ => exact (Grows.throw _).mono le_rfl (by decide)
  | error rc =>
      refine .ite ((Grows.throw _).mono le_rfl (by decide)) ?_
      refine (grows_dirFindKey sized none _).bind (fun info => ?_) (by decide)
      refine (Grows.bcGet _ _).bind (fun _ => ?_) (by decide)
      refine (Grows.readBlock _).bind (e := 0) (fun sector => ?_) (by decide)
      refine (Grows.writeBlock _ _).bind (e := 0) (fun _ => ?_) (by decide)
      exact (Grows.bcPut _).bind (fun _ => (Grows.pure _).mono (by decide) le_rfl) (by decide)

/-- One block may be left in use by `fobj_create`, that of the end of the directory. -/
theorem grows_fobjCreate (sized : fv.blksize = BLKSIZE) (fn : List UInt8) (attr : UInt8) (tm : Tm)
    (info : FileInfo) : Grows (fv.fobjCreate fn attr tm info) 1 2 := by
  unfold fobjCreate
  refine .ite ((Grows.throw _).mono le_rfl (by decide)) ?_
  dsimp only
  split
  · exact (Grows.throw _).mono le_rfl (by decide)
  · have rest := fun clus => grows_createIn sized (pathSplit fn).2 ‹Fin 11 → UInt8› attr tm clus
    have missing : Grows (Program.throw (-ENOENT) : BlockM FileInfo) 1 2 :=
      (Grows.throw _).mono le_rfl (by decide)
    refine .ite ((Grows.pure _).bind (e := 0) (fun info => .ite missing (rest _)) (by decide)) ?_
    exact (grows_dirFindPath sized _ _).bind (fun info => .ite missing (rest _)) (by decide)

end FatVol

end Pegasos.Hosted
