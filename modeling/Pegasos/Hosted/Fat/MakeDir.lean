import Pegasos.Hosted.Fat.Create

/-!
# Making directories

`f_mkdir` and `create_dot_dirs` of `fileops.c`.  The names of the entries for the directory
itself and for its parent are padded with spaces, those that are looked up with NULs.
-/

namespace Pegasos.Hosted

open Pegasos.Support
open Fat (Sector Dirent direntAt setWord16 setWord32 setWord16_apart Slot Scan Dirs scan slotAt
  slotsFrom entryCount pathParseFn stringAt clusterOfInt FA_DIR DELETE_FLAG DOT SPACE)
open Function (update)

/-- `create_dot_dirs`. -/
def createDotDirs (curr parent : Nat) (modtime moddate : UInt16) (sector : Sector) : Sector :=
  let dot : Sector := fun i =>
    if i < 11 then if i = 0 then DOT else SPACE
    else if i = 11 then FA_DIR
    else setWord16 22 modtime (setWord16 24 moddate
      (setWord16 26 (UInt16.ofNat curr) (setWord32 28 0 sector))) i
  let dots : Sector := fun i => if 32 ≤ i ∧ i < 64 then dot (i - 32) else dot i
  setWord16 58 (UInt16.ofNat parent) (update dots 33 DOT)

namespace FatVol

variable (fv : FatVol)

/-- The loop of `f_mkdir` over the sectors of the new cluster.  Both `sec` and `i` are counted
up, and the sector is their sum. -/
def mkdirLoop (info : FileInfo) (entclus : Nat) : Nat → Nat → Nat → BlockM Unit
  | 0, _, _ => return
  | left + 1, i, sec => do
      let dirblk := word (sec + i)
      bcGet dirblk false
      writeBlock dirblk fun sector j => if j < fv.blksize then 0 else sector j
      if i = 0 then
        let ent := direntAt (← readBlock info.sector) info.secoffs
        writeBlock dirblk (createDotDirs entclus info.dir.cluster0.toNat ent.modtime ent.moddate)
      bcPut dirblk
      mkdirLoop info entclus left (i + 1) (word (sec + 1))

/-- `f_mkdir`.  What `info` holds before is not defined. -/
def fMkdir (fn : List UInt8) (tm : Tm) (info : FileInfo) : BlockM Unit := do
  let info ← fv.fobjCreate fn FA_DIR tm info
  bcGet info.sector false
  let made ← Program.attempt (do
    let entclus ← fv.clusAlloc
    fv.mkdirLoop info entclus fv.secPerClus 0 (fv.clusSector entclus)
    return entclus)
  match made with
  | .ok entclus =>
      writeBlock info.sector (setWord16 (info.secoffs + 26) (UInt16.ofNat entclus))
      bcPut info.sector
  | .error rc =>
      writeBlock info.sector fun sector => update sector info.secoffs DELETE_FLAG
      let _ ← Program.attempt (bcPut info.sector)
      .throw rc

/-- An element in a directory resolves to an entry with this cluster. -/
def EleLeads (fv : FatVol) (data : Nat → Sector) (c : Nat) (ele : List UInt8) (target : Nat) : Prop :=
  ∃ slot, (fv.dirs data).EleIn data c ele slot ∧ clusterOfInt (slot.dirent data).cluster0 = target

/-- What a new directory with the cluster `cl` in the directory `parent` is meant to be. -/
structure IsNewDirectory (fv : FatVol) (fn : List UInt8) (before after : Nat → Sector) (parent : Nat)
    (slot : Slot) (cl : Nat) : Prop where
  resolves : fv.Resolves after fn slot
  isDir : (slot.dirent after).attr &&& FA_DIR ≠ 0
  cluster0 : clusterOfInt (slot.dirent after).cluster0 = cl
  inRange : 2 ≤ cl ∧ cl < fv.nClus
  free : fv.entryOf before 0 cl = 0
  taken : fv.entryOf after 0 cl ≠ 0
  dot : fv.EleLeads after cl [DOT] cl
  dots : fv.EleLeads after cl [DOT, DOT] parent
  clear : ∀ i < fv.secPerClus, ∀ j < fv.blksize, 0 < i ∨ 64 ≤ j → after (fv.clusSector cl + i) j = 0
  nothing : ∀ ele, ele ≠ [DOT] → ele ≠ [DOT, DOT] → ∀ slot, ¬(fv.dirs after).EleIn after cl ele slot
  frame : ∀ blkno, (∀ i < fv.secPerClus, blkno ≠ fv.clusSector cl + i) → ¬fv.InTable blkno →
    ∀ j, (blkno ≠ slot.sec ∨ j < slot.offs ∨ slot.offs + 32 ≤ j) → after blkno j = before blkno j

/-- `f_mkdir` returns 0. -/
structure MakesDir (fv : FatVol) (fn : List UInt8) (tm : Tm) (info : FileInfo) (unit : Blocks) : Prop where
  ran : ∃ after, fv.fMkdir fn tm info unit = .ok () after

/-- What `f_mkdir` makes, where it returns 0, is a new directory. -/
structure MakesWell (fv : FatVol) (fn : List UInt8) (tm : Tm) (info : FileInfo) (unit : Blocks)
    (parent : Nat) : Prop where
  made : ∀ after, fv.fMkdir fn tm info unit = .ok () after →
    ∃ slot cl, fv.IsNewDirectory fn unit.data after.data parent slot cl

/-! ## What is made -/

/-- The first sector of a new directory, as far as the search for a dot name reads it. -/
structure DotSector (sector : Sector) : Prop where
  dot : sector 1 = SPACE
  dots : sector 33 = DOT
  stop : sector 64 = 0

variable {fv : FatVol} {info : FileInfo} {unit after : Blocks} {curr parent : Nat} {sector : Sector}

theorem createDotDirs_dotSector (modtime moddate : UInt16) (clear : sector 64 = 0) :
    DotSector (createDotDirs curr parent modtime moddate sector) := by
  refine ⟨?_, ?_, ?_⟩
  · rw [createDotDirs, setWord16_apart _ (by decide)]
    rfl
  · rw [createDotDirs, setWord16_apart _ (by decide), Function.update_self]
  · rw [createDotDirs, setWord16_apart _ (by decide), Function.update_of_ne (by decide)]
    change setWord16 22 modtime (setWord16 24 moddate (setWord16 26 (UInt16.ofNat curr)
      (setWord32 28 0 sector))) 64 = 0
    rw [setWord16_apart _ (by decide), setWord16_apart _ (by decide), setWord16_apart _ (by decide),
      setWord32, setWord16_apart _ (by decide), setWord16_apart _ (by decide)]
    exact clear

/-- Storing `cluster0` in a slot keeps it. -/
theorem DotSector.setCluster (made : DotSector sector) {offs : Nat} (aligned : 32 ∣ offs)
    (value : UInt16) : DotSector (setWord16 (offs + 26) value sector) := by
  refine ⟨?_, ?_, ?_⟩
  · rw [setWord16_apart _ (by omega)]
    exact made.dot
  · rw [setWord16_apart _ (by omega)]
    exact made.dots
  · rw [setWord16_apart _ (by omega)]
    exact made.stop

/-- One turn of the loop. -/
theorem mkdirLoop_succ {entclus left i sec : Nat} (sized : fv.blksize = BLKSIZE)
    (ran : fv.mkdirLoop info entclus (left + 1) i sec unit = .ok () after) : ∃ made middle,
      (i = 0 → DotSector made) ∧ middle.data = update unit.data (word (sec + i)) made ∧
        fv.mkdirLoop info entclus left (i + 1) (word (sec + 1)) middle = .ok () after := by
  rw [mkdirLoop] at ran
  obtain ⟨⟨⟩, unit1, ran1, ran⟩ := Program.of_bind_ok ran
  have same1 := (Quiet.bcGet _ _).ok _ _ _ ran1
  rw [Program.bind_ok (Blocks.writeBlock_ok _)] at ran
  by_cases first : i = 0
  · rw [if_pos first, Program.bind_ok Blocks.readBlock_ok, Program.bind_ok (Blocks.writeBlock_ok _)] at ran
    obtain ⟨⟨⟩, unit2, ran2, ran⟩ := Program.of_bind_ok ran
    have same2 := (Quiet.bcPut _).ok _ _ _ ran2
    rw [Blocks.setData_setData, Blocks.setData_data, same1] at same2
    refine ⟨_, unit2, fun _ => createDotDirs_dotSector _ _ ?_, same2, ran⟩
    rw [Blocks.setData_data, Function.update_self]
    exact if_pos (by rw [sized]; decide)
  · rw [if_neg first] at ran
    obtain ⟨⟨⟩, unit2, ran2, ran⟩ := Program.of_bind_ok ran
    have same2 := (Quiet.bcPut _).ok _ _ _ ran2
    rw [Blocks.setData_data, same1] at same2
    exact ⟨_, unit2, fun zero => absurd zero first, same2, ran⟩

/-- The loop changes every other sector from the one that it begins with on. -/
theorem mkdirLoop_apart (sized : fv.blksize = BLKSIZE) {entclus blkno : Nat} (left : Nat) :
    ∀ i sec unit, fv.mkdirLoop info entclus left i sec unit = .ok () after →
      (∀ j < left, blkno ≠ word (sec + i + 2 * j)) → after.data blkno = unit.data blkno := by
  induction left with
  | zero =>
      intro i sec unit ran apart
      obtain ⟨-, rfl⟩ := Result.ok.inj ran
      rfl
  | succ left ih =>
      intro i sec unit ran apart
      obtain ⟨made, middle, -, stored, ran⟩ := mkdirLoop_succ sized ran
      have here : blkno ≠ word (sec + i) := apart 0 (Nat.succ_pos _)
      rw [ih _ _ _ ran fun j less => ?_, stored, Function.update_of_ne here]
      have later := apart (j + 1) (Nat.succ_lt_succ less)
      rw [Nat.add_assoc, word_word_add]
      have same : sec + 1 + (i + 1 + 2 * j) = sec + i + 2 * (j + 1) := by omega
      rwa [same]

/-- The first sector of the cluster keeps the dot names. -/
theorem mkdirLoop_first (sized : fv.blksize = BLKSIZE) {entclus sec : Nat}
    (some : 0 < fv.secPerClus) (sector : word sec = sec)
    (ran : fv.mkdirLoop info entclus fv.secPerClus 0 sec unit = .ok () after) :
    DotSector (after.data sec) := by
  have few : fv.secPerClus < 0x100 := fv.bpb.sectorPerCluster.toNat_lt
  obtain ⟨left, count⟩ := Nat.exists_eq_succ_of_ne_zero some.ne'
  rw [count] at ran few
  obtain ⟨made, middle, dots, stored, ran⟩ := mkdirLoop_succ sized ran
  have kept : after.data sec = middle.data sec := mkdirLoop_apart sized left _ _ _ ran fun j less => ?_
  · rw [kept, stored, Nat.add_zero, sector, Function.update_self]
    exact dots rfl
  · rw [Nat.add_assoc, word_word_add]
    unfold word at sector ⊢
    omega

variable {fn : List UInt8} {tm : Tm} {clus : Nat}

/-- What `f_mkdir` leaves where it returns 0: a cluster has been taken, and its first sector has
the dot names. -/
theorem fMkdir_ok (consistent : fv.Consistent unit.data) (some : 0 < fv.secPerClus)
    (inParent : fv.ParentIs unit.data fn clus) (ran : fv.fMkdir fn tm info unit = .ok () after) :
    ∃ entclus, 2 ≤ entclus ∧ entclus < fv.nClus ∧ DotSector (after.data (fv.clusSector entclus)) ∧
      ∀ c, fv.InFat c →
        fv.entryOf after.data 0 c = if c = entclus then 0xfff else fv.entryOf unit.data 0 c := by
  have table := consistent.toTable
  have sized := consistent.blksize
  obtain ⟨result, unit1, ran1, ran⟩ := Program.of_bind_ok ran
  obtain ⟨ele, slot, -, found, rfl, same1⟩ := fobjCreate_ok sized consistent.rootWord inParent ran1
  obtain ⟨-, -, aligned⟩ := consistent.inside inParent.directory found
  have outside := consistent.outside inParent.directory found
  obtain ⟨⟨⟩, unit2, ran2, ran⟩ := Program.of_bind_ok ran
  have same2 := (Quiet.bcGet _ _).ok _ _ _ ran2
  obtain ⟨made, unit4, ran4, ran⟩ := Program.of_bind_ok ran
  cases made with
  | error rc =>
      obtain ⟨⟨⟩, _, -, ran⟩ := Program.of_bind_ok ran
      obtain ⟨_, _, -, ran⟩ := Program.of_bind_ok ran
      exact nomatch ran
  | ok entclus =>
      obtain ⟨entclus', unit3, ran3, ran4⟩ := Program.of_bind_ok (Program.of_attempt_ok ran4)
      obtain ⟨⟨⟩, unit4', looped, returned⟩ := Program.of_bind_ok ran4
      obtain ⟨rfl, rfl⟩ := Result.ok.inj returned
      obtain ⟨first, last, low, -, same3⟩ := clusAlloc_ok table ran3
      obtain ⟨sector, fits⟩ := consistent.clusSector first last
      change (writeBlock slot.sec (setWord16 (slot.offs + 26) (UInt16.ofNat entclus')) >>= fun _ =>
        bcPut slot.sec) unit4' = _ at ran
      rw [Program.bind_ok (Blocks.writeBlock_ok _)] at ran
      have same5 := (Quiet.bcPut _).ok _ _ _ ran
      have number : word (fv.clusSector entclus') = fv.clusSector entclus' := word_clusSector _
      refine ⟨entclus', first, last, ?_, fun c inFat => ?_⟩
      · have dots := mkdirLoop_first sized some number looped
        rw [same5, Blocks.setData_data]
        by_cases here : fv.clusSector entclus' = slot.sec
        · rw [here, Function.update_self, ← here]
          exact dots.setCluster aligned _
        · rw [Function.update_of_ne here]
          exact dots
      · rw [same5, Blocks.setData_data, entryOf_apart outside table.some inFat,
          @entryOf_congr fv unit3.data _ unit4'.data 0 (fun blkno inTable => ?_) table.some inFat, same3,
          entryOf_fatStore table.some low (by decide) inFat, same2, same1,
          entryOf_apart outside table.some inFat]
        refine mkdirLoop_apart sized _ _ _ _ looped fun j less => ?_
        have few : fv.secPerClus < 0x100 := fv.bpb.sectorPerCluster.toNat_lt
        have inside := inTable.2
        have fatArea := consistent.fatArea
        have rootArea := consistent.rootArea
        unfold word
        omega

/-- The search for a name with a NUL behind its first byte ends at the third slot. -/
theorem scan_dots {data : Nat → Sector} {start n : Nat} {name : Fin 11 → UInt8}
    (dots : DotSector (data start)) (number : word start = start) (second : name 1 = 0) (many : 3 ≤ n) :
    scan data (some name) (slotsFrom start n) = .ended := by
  obtain ⟨more, rfl⟩ := Nat.exists_eq_add_of_le' many
  have slots : slotsFrom start (more + 3) =
      slotAt start 0 :: slotAt start 1 :: slotAt start 2 :: (List.range' 3 more).map (slotAt start) := by
    rw [slotsFrom, List.range_eq_range', List.range'_succ, List.range'_succ, List.range'_succ]
    rfl
  have sec (j : Nat) (less : j < 16) : (slotAt start j).sec = start := by
    rw [slotAt, Nat.div_eq_of_lt less, Nat.add_zero, number]
  have passed {slot : Slot} {ch : UInt8} (there : (slot.dirent data).name 1 = ch) (ne : ch ≠ 0) :
      ¬Fat.isFound (some name) (slot.dirent data) = true := by
    intro found
    have same : (slot.dirent data).name = name := of_decide_eq_true found
    exact ne (by rw [← there, same, second])
  have first : ((slotAt start 0).dirent data).name 1 = SPACE := by
    change data (slotAt start 0).sec 1 = SPACE
    rw [sec 0 (by decide), dots.dot]
  have other : ((slotAt start 1).dirent data).name 1 = DOT := by
    change data (slotAt start 1).sec 33 = DOT
    rw [sec 1 (by decide), dots.dots]
  have third : ((slotAt start 2).dirent data).name 0 = 0 := by
    change data (slotAt start 2).sec 64 = 0
    rw [sec 2 (by decide), dots.stop]
  rw [slots, scan]
  split
  · rfl
  · rw [if_neg (passed first (by decide)), scan]
    split
    · rfl
    · rw [if_neg (passed other (by decide)), scan, if_pos ⟨Option.some_ne_none name, third⟩]

theorem clusEntries_many (sized : fv.blksize = BLKSIZE) : 3 ≤ entryCount fv.clusEntries := by
  have few : fv.secPerClus < 0x100 := fv.bpb.sectorPerCluster.toNat_lt
  rw [entryCount, clusEntries, sized]
  simp only [BLKSIZE, direntSize]
  split <;> omega

/-- The name `.` is not in a directory that has been made. -/
theorem not_eleIn_dot {data : Nat → Sector} {c : Nat} {slot : Slot} (sized : fv.blksize = BLKSIZE)
    (sub : c ≠ 0) (dots : DotSector (data (fv.clusSector c))) :
    ¬(fv.dirs data).EleIn data c [DOT] slot := by
  rintro ⟨name, parsed, found⟩
  have second : name 1 = 0 := by
    obtain rfl := Option.some.inj parsed
    rfl
  have ended := scan_dots dots (word_clusSector c) second (clusEntries_many sized)
  rw [Dirs.FoundIn, Dirs.slotsAt, if_neg sub] at found
  cases found with
  | here found => cases ended.symm.trans found
  | next through => cases ended.symm.trans through

theorem not_isNewDirectory {slot : Slot} {cl : Nat} (consistent : fv.Consistent unit.data)
    (some : 0 < fv.secPerClus) (inParent : fv.ParentIs unit.data fn clus)
    (ran : fv.fMkdir fn tm info unit = .ok () after) :
    ¬fv.IsNewDirectory fn unit.data after.data clus slot cl := by
  intro isNew
  obtain ⟨entclus, first, -, dots, entries⟩ := fMkdir_ok consistent some inParent ran
  have inFat := consistent.entries cl isNew.inRange.2
  -- only one entry of the FAT is not free any more
  have same : cl = entclus := by
    by_contra other
    exact isNew.taken (by rw [entries cl inFat, if_neg other, isNew.free])
  subst same
  obtain ⟨slot', eleIn, -⟩ := isNew.dot
  exact not_eleIn_dot consistent.blksize (Nat.ne_zero_of_lt first) dots eleIn

/-- A directory that `f_mkdir` makes cannot be found by the name `.` inside. -/
theorem mkdir_dot_missing (consistent : fv.Consistent unit.data) (some : 0 < fv.secPerClus)
    (inParent : fv.ParentIs unit.data fn clus) (makes : fv.MakesDir fn tm info unit) :
    ¬fv.MakesWell fn tm info unit clus := by
  intro well
  obtain ⟨after, ran⟩ := makes.ran
  obtain ⟨slot, cl, isNew⟩ := well.made after ran
  exact not_isNewDirectory consistent some inParent ran isNew

theorem makesDir_of_returns (ran : returns (fv.fMkdir fn tm info unit) = true) :
    fv.MakesDir fn tm info unit := by
  cases result : fv.fMkdir fn tm info unit with
  | ok value after => exact ⟨after, result⟩
  | err code after => exact nomatch result ▸ ran
  | fault => exact nomatch result ▸ ran
  | hang => exact nomatch result ▸ ran

theorem blank_makesDir : floppy.MakesDir [97] newYear noInfo blank := makesDir_of_returns (by decide)

theorem mkdir_dot_missing_blank : ¬floppy.MakesWell [97] newYear noInfo blank 0 :=
  mkdir_dot_missing blank_consistent (by decide) (.root rfl) blank_makesDir

theorem mkdir_blank :
    floppy.Consistent blank.data ∧ floppy.ParentIs blank.data [97] 0 ∧
      floppy.MakesDir [97] newYear noInfo blank ∧ ¬floppy.MakesWell [97] newYear noInfo blank 0 := by
  refine ⟨blank_consistent, .root rfl, blank_makesDir, fun well => ?_⟩
  obtain ⟨after, ran⟩ := blank_makesDir.ran
  obtain ⟨slot, cl, isNew⟩ := well.made after ran
  exact not_isNewDirectory blank_consistent (by decide) (.root rfl) ran isNew

end FatVol

end Pegasos.Hosted
