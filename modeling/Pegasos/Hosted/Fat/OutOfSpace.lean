import Pegasos.Hosted.Fat.FileOps
import Pegasos.Hosted.Fat.Resize

/-!
# Running out of space

`fobj_trunc` and `f_write` for lengths that need more clusters than are free.  The clusters
that have been taken before the last one is missing are not given back.
-/

namespace Pegasos.Hosted

open Pegasos.Support
open Fat (Sector direntAt)
open Function (update)

namespace FatVol

/-- No entry of the FAT and nothing outside of the FAT is changed. -/
structure Untouched (fv : FatVol) (before after : Nat → Sector) : Prop where
  fat : ∀ copy < fv.fatCount, ∀ c, fv.InFat c → fv.entryOf after copy c = fv.entryOf before copy c
  others : ∀ blkno, ¬fv.InTable blkno → after blkno = before blkno

/-- `fobj_trunc` returns `-ENOSPC` and changes nothing. -/
structure TruncIntact (fv : FatVol) (info : FileInfo) (length : Nat) (unit : Blocks) : Prop where
  ran : ∃ after, fv.fobjTrunc info length unit = .ok (-ENOSPC, info) after ∧
    fv.Untouched unit.data after.data

/-- `f_write` returns `-ENOSPC` and changes nothing, also none of the open files. -/
structure WriteIntact (fv : FatVol) (fd : Int) (buffer : List UInt8) (unit : Blocks) : Prop where
  ran : ∃ after, fv.fWrite fd buffer unit = .ok (-ENOSPC, fv) after ∧
    fv.Untouched unit.data after.data

/-- The code computes the number of clusters of a length of 32 bits. -/
def CountFits (fv : FatVol) (length : Nat) : Prop :=
  fv.secPerClus < 64 ∧ length + (fv.clusterBytes - 1) < 0x100000000 ∨
    fv.secPerClus = 64 ∧ length ≤ 0x8000

/-- The length needs more clusters than the file has and are free. -/
def Exceeds (fv : FatVol) (next : Nat → Nat) (chain : List Nat) (length : Nat) : Prop :=
  chain.length + (fv.frees next).length < fv.clusterCount length

variable {fv : FatVol} {next : Nat → Nat} {data : Nat → Sector} {unit after : Blocks}
  {info : FileInfo} {chain : List Nat} {length c p : Nat} {cl0 : UInt16}

/-! ## The number of clusters -/

theorem Fat12.regular (fat12 : fv.Fat12) (few : fv.secPerClus < 64) : fv.Regular := by
  obtain ⟨k, -, sectors⟩ := fat12.sectors
  exact ⟨sectors ▸ Nat.two_pow_pos k, few⟩

theorem byPerClus_ne (fat12 : fv.Fat12) (sectors : fv.secPerClus ≠ 128) : fv.byPerClus ≠ 0 := by
  rcases fat12.sectors_cases with few | even | many
  · have positive := clusterBytes_pos (fat12.regular few)
    rw [byPerClus_eq fat12.blksize (fat12.regular few)]
    omega
  · rw [byPerClus, fat12.blksize, even]
    decide
  · exact absurd many sectors

theorem CountFits.target (fat12 : fv.Fat12) (fits : fv.CountFits length) :
    fv.byPerClus ≠ 0 ∧ fv.clustersFor length = fv.clusterCount length := by
  rcases fits with ⟨few, sum⟩ | ⟨even, small⟩
  · exact ⟨byPerClus_ne fat12 (by omega), clustersFor_of_sum fat12.blksize (fat12.regular few) sum⟩
  · refine ⟨byPerClus_ne fat12 (by omega), ?_⟩
    rw [clustersFor_negative fat12.blksize even (by omega), clusterCount, clusterBytes_even even]
    split_ifs <;> omega

/-- Else the code divides by zero or comes to no cluster at all. -/
theorem target_of_not_fits (fat12 : fv.Fat12) (small : length < 0x100000000)
    (wrong : ¬fv.CountFits length) :
    fv.byPerClus = 0 ∨ fv.byPerClus ≠ 0 ∧ fv.clustersFor length = 0 := by
  rw [CountFits, not_or, not_and, not_and] at wrong
  rcases fat12.sectors_cases with few | even | many
  · exact .inr ⟨byPerClus_ne fat12 (by omega), clustersFor_wraps fat12.blksize (fat12.regular few)
      small (Nat.not_lt.mp (wrong.1 few))⟩
  · refine .inr ⟨byPerClus_ne fat12 (by omega), ?_⟩
    rw [clustersFor_negative fat12.blksize even small]
    exact if_neg fun both => wrong.2 even both.2
  · exact .inl (byPerClus_zero fat12.blksize many)

/-- The file has to get longer. -/
theorem Exceeds.longer (file : fv.IsFile next info chain)
    (exceeds : fv.Exceeds next chain length) : info.dir.size.toNat < length := by
  by_contra shorter
  have count := file.count
  have less : fv.clusterCount length ≤ fv.clusterCount info.dir.size.toNat :=
    Nat.div_le_div_right (by omega)
  unfold Exceeds at exceeds
  omega

/-! ## What is read before -/

theorem truncWalk_does (table : fv.Table) (left : Nat) {rest : List Nat}
    (links : Links next IsMark c rest) (shows : fv.Shows unit.data next)
    (inRange : ∀ d ∈ c :: rest, d < fv.nClus) (firstCopy : fv.FirstCopy unit.blocks)
    (room : unit.Room 1) :
    Does (fv.truncWalk left p c) unit (walkEnd next left p c rest) unit.data := by
  induction left generalizing p c rest unit with
  | zero =>
      cases rest with
      | nil => exact .pure unit (p, c, 0)
      | cons d rest => exact .pure unit (p, c, 0)
  | succ left ih =>
      have small := inRange c List.mem_cons_self
      have few := table.few
      have inFat := table.entries c small
      have value : fv.entryOf unit.data 0 c = next c := shows 0 table.some c inFat
      rw [truncWalk, if_pos (by omega)]
      refine (clusGetNext_does firstCopy inFat room).seq fun unit' kept same => ?_
      rw [value]
      cases rest with
      | nil =>
          cases left with
          | zero => exact same ▸ .pure unit' _
          | succ left =>
              have mark : 0xff8 ≤ next c := links
              rw [truncWalk, if_neg (by omega)]
              exact same ▸ .pure unit' _
      | cons d rest =>
          rw [links.1, ← same]
          exact ih links.2 (same ▸ shows) (fun e member => inRange e (List.mem_cons_of_mem c member))
            (kept.blocks ▸ firstCopy) (kept.room room)

/-- The first loop of `fobj_trunc` passes the whole chain. -/
theorem truncChain_reach (table : fv.Table) (isChain : fv.Chain next cl0.toNat chain)
    (shows : fv.Shows unit.data next) (firstCopy : fv.FirstCopy unit.blocks) (room : unit.Room 1)
    (left : Nat) : ∃ c unit', unit.Kept unit' ∧ unit'.data = unit.data ∧
      fv.truncChain (left + chain.length) cl0 unit =
        fv.truncEdit cl0 (chain.getLastD 0) c left unit' := by
  cases chain with
  | nil =>
      obtain rfl := isChain.cluster0_nil
      exact ⟨0, unit, .refl unit, rfl, rfl⟩
  | cons c rest =>
      obtain ⟨same, nonzero⟩ := isChain.cluster0_cons
      obtain ⟨unit', ran, kept, data⟩ := (truncWalk_does (p := 0) table (left + (c :: rest).length)
        isChain.linked.2 shows (fun d member => (isChain.clusters d member).2) firstCopy room).run
      refine ⟨next (rest.getLastD c), unit', kept, data, ?_⟩
      rw [truncChain, if_neg nonzero, same]
      refine (Program.bind_ok (Program.attempt_ok ran)).trans ?_
      rw [walkEnd_behind, List.getLastD_cons]

/-- Without a free cluster, `clus_alloc` changes nothing. -/
theorem clusAlloc_none (table : fv.Table) (shows : fv.Shows unit.data next)
    (firstCopy : fv.FirstCopy unit.blocks) (room : unit.Room 1) (none : fv.frees next = []) :
    ∃ after, fv.clusAlloc unit = .err (-ENOSPC) after ∧ after.data = unit.data := by
  have used (i : Nat) (less : i < fv.nClus - 2) :
      fv.InFat (2 + i) ∧ fv.entryOf unit.data 0 (2 + i) ≠ 0 := by
    have inRange : 2 + i < fv.nClus := by omega
    have inFat := table.entries _ inRange
    refine ⟨inFat, fun free => ?_⟩
    rw [shows 0 table.some _ inFat] at free
    have member : 2 + i ∈ fv.frees next := mem_frees.mpr ⟨inRange, by omega, free⟩
    rw [none] at member
    exact List.not_mem_nil member
  obtain ⟨base, blk, -, same, -, ran⟩ :=
    clusAllocLoop_pass 0 (fv.nClus - 2) 2 unit Option.none firstCopy room used
  rw [Nat.zero_add] at ran
  refine ⟨holding base blk, ran, ?_⟩
  cases blk with
  | none => exact same
  | some blkno => exact same

/-- `fobj_trunc` without a free cluster. -/
theorem truncIntact_of_none (fat12 : fv.Fat12) (shows : fv.Shows unit.data next)
    (file : fv.IsFile next info chain) (exceeds : fv.Exceeds next chain length)
    (firstCopy : fv.FirstCopy unit.blocks) (room : unit.Room 1) (fits : fv.CountFits length)
    (none : fv.frees next = []) : fv.TruncIntact info length unit := by
  obtain ⟨nonzero, target⟩ := fits.target fat12
  have missing : fv.clusterCount length = fv.clusterCount length - chain.length + chain.length := by
    unfold Exceeds at exceeds
    omega
  have positive : fv.clusterCount length - chain.length ≠ 0 := by
    unfold Exceeds at exceeds
    omega
  generalize fv.clusterCount length - chain.length = left at missing positive
  obtain ⟨left, rfl⟩ := Nat.exists_eq_succ_of_ne_zero positive
  obtain ⟨c, unit', kept, same, ran⟩ :=
    truncChain_reach fat12.toTable file.isChain shows firstCopy room (left + 1)
  obtain ⟨after, failed, same'⟩ := clusAlloc_none fat12.toTable (same ▸ shows)
    (kept.blocks ▸ firstCopy) (kept.room room) none
  have kept' : after.data = unit.data := same'.trans same
  refine ⟨after, ?_, fun _ _ _ _ => by rw [kept'], fun _ _ => by rw [kept']⟩
  have grown : fv.truncGrow (left + 1) (chain.getLastD 0) info.dir.cluster0 unit' =
      .ok (-ENOSPC, info.dir.cluster0, chain.getLastD 0) after := by
    rw [truncGrow]
    exact Program.bind_ok (Program.attempt_err failed)
  have edited : fv.truncEdit info.dir.cluster0 (chain.getLastD 0) c (left + 1) unit' =
      .ok (-ENOSPC, info.dir.cluster0) after := by
    rw [truncEdit, if_pos positive]
    exact Program.bind_ok grown
  rw [fobjTrunc, if_neg nonzero, target, missing]
  exact Program.bind_ok (ran.trans edited)

/-! ## What is taken before -/

/-- The entries that are not zero stay so, and those of the free clusters are not zero either. -/
structure AllTaken (fv : FatVol) (next next' : Nat → Nat) : Prop where
  used : ∀ c, next c ≠ 0 → next' c ≠ 0
  free : ∀ c ∈ fv.frees next, next' c ≠ 0

/-- The loop that adds clusters takes all of them before one is missing. -/
theorem truncGrow_short (table : fv.Table) (left : Nat) {value : Int × UInt16 × Nat}
    (shows : fv.Shows unit.data next) (fine : unit.Fine) (place : p = 0 ∨ p < fv.nClus ∧ next p ≠ 0)
    (short : (fv.frees next).length < left) (ran : fv.truncGrow left p cl0 unit = .ok value after) :
    value.1 = -ENOSPC ∧ ∃ next', fv.Shows after.data next' ∧ fv.AllTaken next next' := by
  induction left generalizing p cl0 unit next with
  | zero => exact absurd short (Nat.not_lt_zero _)
  | succ left ih =>
      cases free : fv.frees next with
      | nil =>
          have firstCopy := table.firstCopy fine
          obtain ⟨full, failed, same⟩ := clusAlloc_none table shows firstCopy fine.room free
          rw [truncGrow, Program.bind_ok (Program.attempt_err failed)] at ran
          obtain ⟨rfl, rfl⟩ := Result.ok.inj ran
          refine ⟨rfl, next, same ▸ shows, fun _ used => used, fun c member => ?_⟩
          rw [free] at member
          exact absurd member List.not_mem_nil
      | cons a more =>
          obtain ⟨positive, inRange, isFree, -⟩ := frees_cons free
          have few := table.few
          have fewer := frees_update free (show 0xfff ≠ 0 by decide)
          rw [free, List.length_cons] at short
          rw [truncGrow] at ran
          by_cases high : 340 < a
          · rw [Program.bind_fault (Program.attempt_fault
              (clusAlloc_table_fault table shows free fine high))] at ran
            cases ran
          obtain ⟨taken, unit', ran', rfl, changes⟩ :=
            run_fine (clusAlloc_table table shows free (Nat.not_lt.mp high)) fine
          have fine' := changes.freed.fine fine
          rw [Program.bind_ok (Program.attempt_ok ran')] at ran
          have stays : ∀ c, next c ≠ 0 → update next taken 0xfff c ≠ 0 := by
            intro c used
            by_cases same : c = taken
            · rw [same, Function.update_self]
              decide
            · rwa [Function.update_of_ne same]
          have here : update next taken 0xfff taken ≠ 0 := by
            rw [Function.update_self]
            decide
          change (if p = 0 then _ else _ : BlockM (Int × UInt16 × Nat)) unit' = _ at ran
          by_cases first : p = 0
          · rw [if_pos first] at ran
            obtain ⟨code, next', shows', all⟩ :=
              ih changes.shows fine' (.inr ⟨inRange, here⟩) (by rw [fewer]; omega) ran
            refine ⟨code, next', shows', fun c used => all.used c (stays c used), fun c member => ?_⟩
            rw [free] at member
            rcases List.mem_cons.mp member with rfl | later
            · exact all.used c here
            · exact all.free c (fewer ▸ later)
          rw [if_neg first] at ran
          obtain ⟨cluster, used⟩ := place.resolve_left first
          by_cases high' : 340 < p
          · rw [Program.bind_fault (Program.attempt_fault
              (clusSetNext_table_fault table fine' cluster high'))] at ran
            cases ran
          obtain ⟨_, unit'', ran'', linked⟩ := run_fine (clusSetNext_table table changes.shows
            cluster (Nat.not_lt.mp high') (show taken < 0x1000 by omega)) fine'
          rw [Program.bind_ok (Program.attempt_ok ran'')] at ran
          have stays' : ∀ c, update next taken 0xfff c ≠ 0 →
              update (update next taken 0xfff) p taken c ≠ 0 := by
            intro c used
            by_cases same : c = p
            · rw [same, Function.update_self]
              omega
            · rwa [Function.update_of_ne same]
          have fewer' : fv.frees (update (update next taken 0xfff) p taken) = more :=
            (frees_used (stays p used) (by omega)).trans fewer
          obtain ⟨code, next', shows', all⟩ := ih linked.shows (linked.freed.fine fine')
            (.inr ⟨inRange, stays' taken here⟩) (by rw [fewer']; omega) ran
          refine ⟨code, next', shows', fun c used => all.used c (stays' c (stays c used)),
            fun c member => ?_⟩
          rw [free] at member
          rcases List.mem_cons.mp member with rfl | later
          · exact all.used c (stays' c here)
          · exact all.free c (fewer' ▸ later)

/-- A target of zero: the whole chain is cut off, and the length is stored. -/
theorem fobjTrunc_wraps (table : fv.Table) (shows : fv.Shows unit.data next) (fine : unit.Fine)
    (file : fv.IsFile next info chain) (nonzero : fv.byPerClus ≠ 0) (target : fv.clustersFor length = 0)
    {value : Int × FileInfo} (ran : fv.fobjTrunc info length unit = .ok value after) :
    value.1 = 0 ∧ value.2.dir.size = UInt32.ofNat length := by
  by_cases low : ∀ c ∈ chain, c ≤ 340
  · have edits := truncChain_none table file.isChain shows low
    rw [← target] at edits
    obtain ⟨info', after', ran', _, _, -, rfl, -⟩ :=
      (fobjTrunc_returns nonzero file.sector edits fun _ _ ended => ended.2.freed).run_fine fine
    obtain ⟨rfl, -⟩ := Result.ok.inj (ran'.symm.trans ran)
    exact ⟨rfl, rfl⟩
  · have high : ∃ c ∈ chain, 340 < c := by simpa using low
    have faults := truncChain_none_fault table file.isChain shows fine high
    rw [← target] at faults
    exact nomatch (fobjTrunc_fault nonzero faults).symm.trans ran

/-- With a free cluster, `fobj_trunc` does not give it back, and with a wrong target it sees no
lack of clusters. -/
theorem fobjTrunc_spends (fat12 : fv.Fat12) (shows : fv.Shows unit.data next) (fine : unit.Fine)
    (file : fv.IsFile next info chain) (exceeds : fv.Exceeds next chain length)
    (small : length < 0x100000000) (wrong : ¬(fv.CountFits length ∧ fv.frees next = []))
    {value : Int × FileInfo} (ran : fv.fobjTrunc info length unit = .ok value after) :
    value.1 = -ENOSPC ∧ ¬fv.Untouched unit.data after.data ∨
      value.1 = 0 ∧ value.2.dir.size = UInt32.ofNat length := by
  have table := fat12.toTable
  by_cases fits : fv.CountFits length
  · obtain ⟨nonzero, target⟩ := fits.target fat12
    obtain ⟨a, more, free⟩ := List.exists_cons_of_ne_nil fun none => wrong ⟨fits, none⟩
    have firstCopy := table.firstCopy fine
    unfold Exceeds at exceeds
    have missing : fv.clusterCount length = fv.clusterCount length - chain.length + chain.length := by
      omega
    have short : (fv.frees next).length < fv.clusterCount length - chain.length := by omega
    generalize fv.clusterCount length - chain.length = left at missing short
    obtain ⟨c, unit', kept, same, reached⟩ :=
      truncChain_reach table file.isChain shows firstCopy fine.room left
    rw [fobjTrunc, if_neg nonzero, target, missing] at ran
    obtain ⟨⟨rc, cluster0⟩, unit1, ran1, ran⟩ := Program.of_bind_ok ran
    rw [reached, truncEdit, if_pos (by omega)] at ran1
    obtain ⟨grown, unit2, ran2, ran1⟩ := Program.of_bind_ok ran1
    have place : chain.getLastD 0 = 0 ∨ chain.getLastD 0 < fv.nClus ∧ next (chain.getLastD 0) ≠ 0 := by
      cases chain with
      | nil => exact .inl rfl
      | cons d rest =>
          have member : (d :: rest).getLastD 0 ∈ d :: rest := by
            rw [List.getLastD_cons]
            exact List.getLastD_mem_cons
          exact .inr ⟨(file.isChain.clusters _ member).2, file.isChain.used member⟩
    obtain ⟨code, next', shows', all⟩ := truncGrow_short table left (same ▸ shows)
      (kept.freed.fine fine) place short ran2
    obtain ⟨rc', cluster0', p⟩ := grown
    obtain rfl : rc' = -ENOSPC := code
    obtain ⟨same1, rfl⟩ := Result.ok.inj ran1
    obtain ⟨rfl, rfl⟩ := Prod.mk.inj same1
    obtain ⟨rfl, rfl⟩ := Result.ok.inj ran
    refine .inl ⟨rfl, fun untouched => ?_⟩
    have member : a ∈ fv.frees next := free ▸ List.mem_cons_self
    obtain ⟨inRange, -, isFree⟩ := mem_frees.mp member
    have inFat := table.entries a inRange
    have entry := untouched.fat 0 table.some a inFat
    rw [shows 0 table.some a inFat, shows' 0 table.some a inFat, isFree] at entry
    exact all.free a member entry
  · rcases target_of_not_fits fat12 small fits with zero | ⟨nonzero, target⟩
    · rw [fobjTrunc, if_pos zero] at ran
      cases ran
    · exact .inr (fobjTrunc_wraps table shows fine file nonzero target ran)

theorem truncIntact_iff (fat12 : fv.Fat12) (shows : fv.Shows data next)
    (file : fv.IsFile next info chain) (small : length < 0x100000000)
    (exceeds : fv.Exceeds next chain length) :
    (∀ unit, unit.data = data → fv.FirstCopy unit.blocks → unit.Room 1 →
      fv.TruncIntact info length unit) ↔ fv.CountFits length ∧ fv.frees next = [] := by
  constructor
  · intro intact
    by_contra wrong
    obtain ⟨unit, rfl, fine⟩ := Blocks.exists_fine data
    have firstCopy := fat12.firstCopy fine
    obtain ⟨after, ran, untouched⟩ := (intact unit rfl firstCopy fine.room).ran
    rcases fobjTrunc_spends fat12 shows fine file exceeds small wrong ran with spent | wraps
    · exact spent.2 untouched
    · exact absurd (show -ENOSPC = 0 from wraps.1) (by decide)
  · rintro ⟨fits, none⟩ unit rfl firstCopy room
    exact truncIntact_of_none fat12 shows file exceeds firstCopy room fits none

/-! ## Writing -/

theorem setFile_self (i : Fin MAX_OPENFILES) : fv.setFile i (fv.openfiles i) = fv := by
  rw [setFile, Function.update_eq_self]

/-- A turn of the loop of `f_write` changes the offset only. -/
theorem fWriteTurn_info {of : OpenFile} {buffer : List UInt8}
    {result : (OpenFile × List UInt8) ⊕ (Int × OpenFile)}
    (ran : fv.fWriteTurn (of, buffer) unit = .ok result after) :
    result.elim (fun next => next.1.info = of.info) fun last => last.2.info = of.info := by
  rw [fWriteTurn] at ran
  by_cases done : buffer = []
  · rw [if_pos done] at ran
    obtain ⟨rfl, -⟩ := Result.ok.inj ran
    rfl
  · rw [if_neg done] at ran
    generalize fv.writeSector _ _ _ _ = write at ran
    obtain ⟨written, unit', -, ran⟩ := Program.of_bind_ok ran
    cases written with
    | error rc =>
        obtain ⟨rfl, -⟩ := Result.ok.inj ran
        rfl
    | ok _ =>
        obtain ⟨rfl, -⟩ := Result.ok.inj ran
        rfl

/-- The loop of `f_write` changes the offset only. -/
theorem fWriteLoop_info {of : OpenFile} {buffer : List UInt8} {fuel : Nat} {result : Int × OpenFile}
    (ran : Program.loop fv.fWriteTurn fuel (of, buffer) unit = .ok result after) :
    result.2.info = of.info := by
  have keeps : ∀ (value : OpenFile × List UInt8) unit
      (turned : (OpenFile × List UInt8) ⊕ (Int × OpenFile)) after, value.1.info = of.info →
      fv.fWriteTurn value unit = .ok turned after →
        turned.elim (fun next => next.1.info = of.info) fun last => last.2.info = of.info := by
    intro value unit turned after same ran
    have kept := fWriteTurn_info ran
    rwa [same] at kept
  exact Program.loop_ok keeps rfl ran

variable {fd : Int} {i : Fin MAX_OPENFILES} {buffer : List UInt8}

theorem writeIntact_of_none (fat12 : fv.Fat12) (shows : fv.Shows unit.data next)
    (isOpen : fv.openfileByFd fd = some i) (file : fv.IsFile next (fv.openfiles i).info chain)
    (exceeds : fv.Exceeds next chain ((fv.openfiles i).offset + buffer.length))
    (firstCopy : fv.FirstCopy unit.blocks) (room : unit.Room 1)
    (fits : fv.CountFits ((fv.openfiles i).offset + buffer.length)) (none : fv.frees next = []) :
    fv.WriteIntact fd buffer unit := by
  obtain ⟨after, ran, untouched⟩ :=
    (truncIntact_of_none fat12 shows file exceeds firstCopy room fits none).ran
  have longer := exceeds.longer file
  have inside : ¬word ((fv.openfiles i).offset + buffer.length) < (fv.openfiles i).offset := by
    have small : (fv.openfiles i).offset + buffer.length < 0x100000000 := by
      rcases fits with fits | fits <;> omega
    unfold word
    omega
  refine ⟨after, ?_, untouched⟩
  simp only [fWrite, isOpen, inside, longer, if_true, if_false]
  rw [Program.bind_ok ran]
  change Result.ok (-ENOSPC, fv.setFile i (fv.openfiles i)) after = _
  rw [setFile_self]

theorem not_writeIntact (fat12 : fv.Fat12) (shows : fv.Shows unit.data next) (fine : unit.Fine)
    (isOpen : fv.openfileByFd fd = some i) (file : fv.IsFile next (fv.openfiles i).info chain)
    (offset : (fv.openfiles i).offset < 0x100000000) (size : buffer.length < 0x10000)
    (exceeds : fv.Exceeds next chain ((fv.openfiles i).offset + buffer.length))
    (wrong : ¬(fv.CountFits ((fv.openfiles i).offset + buffer.length) ∧ fv.frees next = [])) :
    ¬fv.WriteIntact fd buffer unit := by
  rintro ⟨after, ran, untouched⟩
  have longer := exceeds.longer file
  simp only [fWrite, isOpen, longer, if_true] at ran
  split_ifs at ran with wraps
  · obtain ⟨same, -⟩ := Result.ok.inj ran
    exact absurd (Prod.mk.inj same).1 (by decide)
  have small : (fv.openfiles i).offset + buffer.length < 0x100000000 := by
    unfold word at wraps
    omega
  generalize trunc : fv.fobjTrunc _ _ = program at ran
  obtain ⟨⟨rc, info'⟩, unit1, ran1, ran⟩ := Program.of_bind_ok ran
  rw [← trunc] at ran1
  have spends := fobjTrunc_spends fat12 shows fine file exceeds small wrong ran1
  by_cases failed : rc ≠ 0
  · simp only [failed, ne_eq, not_false_eq_true, if_true] at ran
    obtain ⟨-, rfl⟩ := Result.ok.inj ran
    exact spends.elim (fun spent => spent.2 untouched) fun ended => failed ended.1
  · -- the size of the open file is the new one then
    simp only [failed, if_false] at ran
    obtain ⟨⟨code, of⟩, unit2, ran2, ran⟩ := Program.of_bind_ok ran
    obtain ⟨same, -⟩ := Result.ok.inj ran
    have file' : of.info = info' := fWriteLoop_info ran2
    have stored : fv.openfiles i = of := by
      rw [← (Prod.mk.inj same).2]
      exact Function.update_self ..
    have length := spends.elim
      (fun spent => absurd (spent.1.symm.trans (not_not.mp failed)) (by decide)) And.right
    rw [stored, file', length, ← stored, UInt32.toNat_ofNat_of_lt' small] at longer
    exact Nat.lt_irrefl _ longer

theorem writeIntact_iff (fat12 : fv.Fat12) (shows : fv.Shows data next)
    (isOpen : fv.openfileByFd fd = some i) (file : fv.IsFile next (fv.openfiles i).info chain)
    (offset : (fv.openfiles i).offset < 0x100000000) (size : buffer.length < 0x10000)
    (exceeds : fv.Exceeds next chain ((fv.openfiles i).offset + buffer.length)) :
    (∀ unit, unit.data = data → fv.FirstCopy unit.blocks → unit.Room 1 →
      fv.WriteIntact fd buffer unit) ↔
        fv.CountFits ((fv.openfiles i).offset + buffer.length) ∧ fv.frees next = [] := by
  constructor
  · intro intact
    by_contra wrong
    obtain ⟨unit, rfl, fine⟩ := Blocks.exists_fine data
    exact not_writeIntact fat12 shows fine isOpen file offset size exceeds wrong
      (intact unit rfl (fat12.firstCopy fine) fine.room)
  · rintro ⟨fits, none⟩ unit rfl firstCopy room
    exact writeIntact_of_none fat12 shows isOpen file exceeds firstCopy room fits none

/-- A growing file that needs more clusters than are free leaves the volume as it is exactly if
no cluster is free at all and the number of clusters is computed rightly. -/
theorem out_of_space_intact (fat12 : fv.Fat12) (shows : fv.Shows data next) :
    (∀ info chain length, fv.IsFile next info chain → length < 0x100000000 →
      fv.Exceeds next chain length →
        ((∀ unit, unit.data = data → fv.FirstCopy unit.blocks → unit.Room 1 →
          fv.TruncIntact info length unit) ↔ fv.CountFits length ∧ fv.frees next = [])) ∧
    ∀ fd i (buffer : List UInt8) chain, fv.openfileByFd fd = some i →
      fv.IsFile next (fv.openfiles i).info chain → (fv.openfiles i).offset < 0x100000000 →
      buffer.length < 0x10000 →
      fv.Exceeds next chain ((fv.openfiles i).offset + buffer.length) →
        ((∀ unit, unit.data = data → fv.FirstCopy unit.blocks → unit.Room 1 →
          fv.WriteIntact fd buffer unit) ↔
            fv.CountFits ((fv.openfiles i).offset + buffer.length) ∧ fv.frees next = []) :=
  ⟨fun _ _ _ file small exceeds => truncIntact_iff fat12 shows file small exceeds,
    fun _ _ _ _ isOpen file offset size exceeds =>
      writeIntact_iff fat12 shows isOpen file offset size exceeds⟩

theorem Fat12.setFile (fat12 : fv.Fat12) (of : OpenFile) : (fv.setFile i of).Fat12 where
  blksize := fat12.blksize
  copies := fat12.copies
  first := fat12.first
  some := fat12.some
  few := fat12.few
  entries := fat12.entries
  sectors := fat12.sectors

/-- The floppy disk with an empty file that is open. -/
def opened : FatVol :=
  floppy.setFile 0 { isOpen := true, flags := O_RDWR, info := emptyFile, offset := 0 }

theorem opened_fat12 : opened.Fat12 := floppy_fat12.setFile _

theorem opened_isFile (next : Nat → Nat) : opened.IsFile next emptyFile [] where
  isChain := ⟨fun c member => absurd member List.not_mem_nil, List.nodup_nil, rfl⟩
  count := by decide
  sector := by decide
  outside := (emptyFile_isFile next).outside
  slot := by decide

theorem full_shows : opened.Shows full.data fun _ => 0xfff := by
  intro copy _ c _
  change unpack12 c 0xff 0xff = 0xfff
  unfold unpack12
  split <;> rfl

theorem out_of_space_intact_full :
    opened.TruncIntact emptyFile 2000 full ∧ opened.WriteIntact 0 [1] full := by
  have firstCopy : opened.FirstCopy full.blocks := ⟨opened_fat12.toGeometry, by decide⟩
  have room : full.Room 1 := ⟨by decide, rfl⟩
  have none : opened.frees (fun _ => 0xfff) = [] := by decide +kernel
  have exceeds (length : Nat) (some : 0 < opened.clusterCount length) :
      opened.Exceeds (fun _ => 0xfff) [] length := by
    rwa [Exceeds, none]
  constructor
  · exact ((out_of_space_intact opened_fat12 full_shows).1 emptyFile [] 2000 (opened_isFile _)
      (by decide) (exceeds 2000 (by decide))).mpr ⟨.inl (by decide), none⟩ full rfl firstCopy room
  · exact ((out_of_space_intact opened_fat12 full_shows).2 0 0 [1] [] rfl (opened_isFile _)
      (by decide) (by decide) (exceeds 1 (by decide))).mpr ⟨.inl (by decide), none⟩ full rfl
        firstCopy room

/-- A floppy disk with one free cluster. -/
def nearlyFull : Blocks :=
  { full with data := fun blkno i =>
      if (blkno = 1 ∨ blkno = 3) ∧ i = 3 then 0
      else if (blkno = 1 ∨ blkno = 3) ∧ i = 4 then 0xf0
      else 0xff }

theorem nearlyFull_shows : opened.Shows nearlyFull.data (opened.entryOf nearlyFull.data 0) := by
  have copies : nearlyFull.data 3 = nearlyFull.data 1 ∧ nearlyFull.data 4 = nearlyFull.data 2 := by
    constructor <;> (funext i; simp [nearlyFull])
  have second (i : Nat) (inside : i < 1024) :
      opened.fatBytes nearlyFull.data 1 i = opened.fatBytes nearlyFull.data 0 i := by
    obtain row | row : i / BLKSIZE = 0 ∨ i / BLKSIZE = 1 := by
      unfold BLKSIZE
      omega
    · rw [fatBytes, fatBytes, row]
      exact congrFun copies.1 _
    · rw [fatBytes, fatBytes, row]
      exact congrFun copies.2 _
  intro copy isCopy c inFat
  have few : offset12 c + 1 < 1024 := inFat
  obtain rfl | rfl : copy = 0 ∨ copy = 1 := by
    change copy < 2 at isCopy
    omega
  · rfl
  · exact get12_congr (second _ (by omega)) (second _ few)

/-- The entry of cluster 2 is not zero behind the program. -/
def keepsLast {α : Type} : Result Blocks α → Bool
  | .ok _ after => opened.entryOf after.data 0 2 ≠ 0
  | _ => true

/-- The only free cluster is taken and not given back. -/
theorem write_takes_last :
    opened.Fat12 ∧ opened.Shows nearlyFull.data (opened.entryOf nearlyFull.data 0) ∧
      opened.IsFile (opened.entryOf nearlyFull.data 0) emptyFile [] ∧
      opened.frees (opened.entryOf nearlyFull.data 0) = [2] ∧
      opened.Exceeds (opened.entryOf nearlyFull.data 0) [] (0 + (List.replicate 2000 1).length) ∧
      ¬opened.WriteIntact 0 (List.replicate 2000 1) nearlyFull := by
  have free : opened.frees (opened.entryOf nearlyFull.data 0) = [2] := by decide +kernel
  refine ⟨opened_fat12, nearlyFull_shows, opened_isFile _, free, ?_, fun intact => ?_⟩
  · rw [Exceeds, free]
    decide +kernel
  · obtain ⟨after, ran, untouched⟩ := intact.ran
    have taken : keepsLast (opened.fWrite 0 (List.replicate 2000 1) nearlyFull) = true := by
      decide +kernel
    rw [ran] at taken
    have entry := untouched.fat 0 (by decide) 2 (opened_fat12.entries 2 (by decide))
    exact of_decide_eq_true taken (entry.trans (by decide +kernel))

end FatVol

end Pegasos.Hosted
