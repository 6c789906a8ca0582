import Pegasos.Kernel.Fdd.FddOp

/-!
# The sectors that are moved

What `fdd_op` has moved when it returns a size: whatever goes wrong before, the attempt that
succeeds moves what the command and the DMA range say.  These are right unless the cylinder
does not fit into its byte, or the work buffer is used for more than the sector it holds.
-/

namespace Pegasos.Kernel.Fdd

universe u

variable {Byte : Type u}

/-! ## What it is for -/

/-- Where a block is. -/
def chsOf (spt blk : Nat) : Chs := ⟨blk / spt / 2, blk / spt % 2, blk % spt + 1⟩

/-- The first bytes of the buffer are those of the blocks, and nothing else has changed but
for the work buffer. -/
def Moves (spt blk buf work n : Nat) (doread : Bool) (m m' : Machine Byte) : Prop :=
  if doread then
    (∀ i < n, m'.memory (buf + i) = m.disk (chsOf spt (blk + i / 512)) (i % 512)) ∧
      (∀ a, ¬ (buf ≤ a ∧ a < buf + n) → ¬ (work ≤ a ∧ a < work + 512) →
        m'.memory a = m.memory a) ∧
      m'.disk = m.disk
  else
    (∀ i < n, m'.disk (chsOf spt (blk + i / 512)) (i % 512) = m.memory (buf + i)) ∧
      (∀ chs, (∀ k < n / 512, chs ≠ chsOf spt (blk + k)) → m'.disk chs = m.disk chs) ∧
      ∀ a, ¬ (work ≤ a ∧ a < work + 512) → m'.memory a = m.memory a

/-- A transfer of `n` bytes is the first part of the one that has been asked for. -/
structure Transferred (parm : FddBiosparm) (drive spt work buf blk size : Nat) (doread : Bool)
    (m : Machine Byte) (n : Nat) (m' : Machine Byte) : Prop where
  fits : blk / spt / 2 < 0x100
  low : 512 ≤ n
  high : n ≤ size
  whole : 512 ∣ n
  command : ∀ chs, chs = commandChs (opbuf parm drive (geometry spt blk) doread) →
    (chs.cyl * 2 + chs.head) * spt + chs.sec - 1 = blk ∧ chs.sec - 1 + n / 512 ≤ spt
  page : buflin work buf / 0x10000 = (buflin work buf + n - 1) / 0x10000
  inside : (buf ≤ buflin work buf ∧ buflin work buf + n ≤ buf + size) ∨
    (work ≤ buflin work buf ∧ buflin work buf + n ≤ work + 512)
  moves : Moves spt blk buf work n doread m m'

/-! ## The attempts -/

namespace Op

variable {op : Op} {m m₀ : Machine Byte}

theorem store_store (left bytes : Nat → Byte) :
    op.store (op.store m left) bytes = op.store m bytes := by
  unfold store
  by_cases doread : op.doread = true
  · simp only [if_pos doread]
    congr 1
    funext a
    by_cases inRange : op.dma.Covers a
    · simp only [if_pos inRange]
    · simp only [if_neg inRange]
  · simp only [if_neg doread]
    congr 1
    funext chs j
    by_cases target : op.Targets chs ∧ j < FDD_SECTOR_SIZE
    · simp only [if_pos target]
    · simp only [if_neg target]

/-- What is stored is on the other side of the transfer. -/
theorem source_store (bytes : Nat → Byte) : op.source (op.store m bytes) = op.source m := by
  funext i
  unfold source store
  by_cases doread : op.doread = true
  · simp only [if_pos doread]
  · simp only [if_neg doread]

/-- Attempts have failed, if any. -/
def Touched (op : Op) (m₀ m : Machine Byte) : Prop := m = m₀ ∨ ∃ left, m = op.store m₀ left

theorem Touched.store (touched : op.Touched m₀ m) (bytes : Nat → Byte) :
    op.store m bytes = op.store m₀ bytes := by
  rcases touched with rfl | ⟨left, rfl⟩
  · rfl
  · exact store_store left bytes

theorem Touched.source (touched : op.Touched m₀ m) : op.source m = op.source m₀ := by
  rcases touched with rfl | ⟨left, rfl⟩
  · rfl
  · exact source_store left

theorem Touched.failed (touched : op.Touched m₀ m) (left : Nat → Byte) :
    op.Touched m₀ (op.store m left) := .inr ⟨left, touched.store left⟩

end Op

section Loops

variable {hw : Controller Byte} {command : List Nat} {linaddr size : Nat} {doread : Bool}
variable {dma : Dma} {m m₀ : Machine Byte}

/-- The inner loop moves the data, or attempts have failed. -/
theorem opLoop_spec (setup : dmaSetup linaddr size = some dma) {seekRetry left opRetry : Nat}
    (touched : Op.Touched ⟨command, dma, doread⟩ m₀ m) {rc : Int} {needRecal : Bool}
    {m' : Machine Byte}
    (ran : opLoop hw command linaddr size doread seekRetry left opRetry m = (rc, needRecal, m')) :
    (rc = 0 ∧ m' = Op.store ⟨command, dma, doread⟩ m₀ (Op.source ⟨command, dma, doread⟩ m₀)) ∨
      (rc = -1 ∧ Op.Touched ⟨command, dma, doread⟩ m₀ m') := by
  induction left generalizing opRetry m with
  | zero =>
      obtain ⟨rfl, -, rfl⟩ : -1 = rc ∧ _ = needRecal ∧ m = m' := by
        simpa only [opLoop, Prod.mk.injEq] using ran
      exact .inr ⟨rfl, touched⟩
  | succ left ih =>
      rw [opLoop, setup] at ran
      dsimp only at ran
      by_cases sent : hw.send seekRetry opRetry ≠ 0
      · rw [if_pos sent] at ran
        exact ih touched ran
      rw [if_neg sent] at ran
      by_cases silent : (!(hw.io seekRetry opRetry).answered) = true
      · rw [if_pos silent] at ran
        exact ih (touched.failed _) ran
      rw [if_neg silent] at ran
      by_cases done : (hw.io seekRetry opRetry).Ok
      · rw [if_pos done] at ran
        obtain ⟨rfl, -, rfl⟩ : 0 = rc ∧ _ = needRecal ∧ _ = m' := by
          simpa only [Prod.mk.injEq] using ran
        exact .inl ⟨rfl, by rw [touched.store, touched.source]⟩
      rw [if_neg done] at ran
      by_cases wrongCyl : (hw.io seekRetry opRetry).st2.testBit 4 = true
      · rw [if_pos wrongCyl] at ran
        obtain ⟨rfl, -, rfl⟩ : -1 = rc ∧ _ = needRecal ∧ _ = m' := by
          simpa only [Prod.mk.injEq] using ran
        exact .inr ⟨rfl, touched.failed _⟩
      · rw [if_neg wrongCyl] at ran
        exact ih (touched.failed _) ran

theorem seekLoop_spec (setup : dmaSetup linaddr size = some dma) {left seekRetry : Nat}
    {needRecal : Bool} (touched : Op.Touched ⟨command, dma, doread⟩ m₀ m) {rc : Int}
    {m' : Machine Byte}
    (ran : seekLoop hw command linaddr size doread left seekRetry needRecal m = (rc, m')) :
    (rc = 0 ∧ m' = Op.store ⟨command, dma, doread⟩ m₀ (Op.source ⟨command, dma, doread⟩ m₀)) ∨
      rc = -1 := by
  induction left generalizing seekRetry needRecal m with
  | zero =>
      obtain ⟨rfl, -⟩ : -1 = rc ∧ m = m' := by
        simpa only [seekLoop, Prod.mk.injEq] using ran
      exact .inr rfl
  | succ left ih =>
      rw [seekLoop] at ran
      by_cases selected : hw.seldrive seekRetry ≠ 0
      · rw [if_pos selected] at ran
        exact ih touched ran
      rw [if_neg selected] at ran
      by_cases recal : needRecal ∧ hw.recalibrate seekRetry ≠ 0
      · rw [if_pos recal] at ran
        exact ih touched ran
      rw [if_neg recal] at ran
      by_cases sought : hw.seek seekRetry ≠ 0
      · rw [if_pos sought] at ran
        exact ih touched ran
      rw [if_neg sought] at ran
      obtain ⟨⟨rc', needRecal', m''⟩, attempted⟩ : ∃ result,
        opLoop hw command linaddr size doread seekRetry FDD_RETRY 0 m = result := ⟨_, rfl⟩
      rw [attempted] at ran
      dsimp only at ran
      rcases opLoop_spec setup touched attempted with ⟨rfl, moved⟩ | ⟨rfl, touched⟩
      · obtain ⟨rfl, rfl⟩ : 0 = rc ∧ m'' = m' := by
          simpa only [ne_eq, not_true_eq_false, if_false, Prod.mk.injEq] using ran
        exact .inl ⟨rfl, moved⟩
      · rw [if_pos (by decide)] at ran
        exact ih touched ran

/-- A controller without any failure. -/
def workingController (byte : Byte) : Controller Byte :=
  ⟨fun _ => 0, fun _ => 0, fun _ => 0, fun _ _ => 0, fun _ _ => ⟨true, 0, 0, fun _ => byte⟩⟩

theorem seekLoop_working (byte : Byte) (setup : dmaSetup linaddr size = some dma) :
    (seekLoop (workingController byte) command linaddr size doread FDD_RETRY 0 false m).1 = 0 := by
  simp [seekLoop, opLoop, setup, workingController, IoResult.Ok]

end Loops

/-! ## The numbers -/

section Numbers

variable {spt blk buf work size n : Nat}

theorem secPerTrk_bounds {type : CmosFdd} (supported : secPerTrk type = some spt) :
    0 < spt ∧ spt ≤ 18 := by
  cases type <;> simp only [secPerTrk, Option.some.injEq, reduceCtorEq] at supported <;> omega

theorem nextpage_eq (buf : Nat) : nextpage buf = (buf / 0x10000 + 1) * 0x10000 := by
  have high : (buf ||| 0xFFFF) / 2 ^ 16 = buf / 2 ^ 16 ||| 0xFFFF / 2 ^ 16 := Nat.or_div_two_pow
  have low : (buf ||| 0xFFFF) % 2 ^ 16 = buf % 2 ^ 16 ||| 0xFFFF % 2 ^ 16 := Nat.or_mod_two_pow
  have ones : 0xFFFF ≤ buf % 2 ^ 16 ||| 0xFFFF := Nat.right_le_or
  simp only [Nat.reducePow, Nat.reduceDiv, Nat.reduceMod, Nat.or_zero] at high low ones
  unfold nextpage
  omega

theorem pageSecs_eq (buf : Nat) : pageSecs buf = (0x10000 - buf % 0x10000) / 512 := by
  rw [pageSecs, nextpage_eq]
  simp only [FDD_SECTOR_SIZE]
  omega

theorem geometry_eq (few : spt ≤ 18) (some : 0 < spt) : geometry spt blk =
    ⟨blk / spt / 2 % 0x10000, blk / spt % 2, blk % spt + 1⟩ := by
  have inTrack := Nat.mod_lt blk some
  have fits : (1 + blk % spt) % 0x10000 = blk % spt + 1 := by omega
  rw [geometry, fits]

/-- The sectors that are moved lie on the track and in the request, and in the page unless the
work buffer is used. -/
structure SecsBounds (spt blk buf size secs : Nat) : Prop where
  some : 1 ≤ secs
  request : secs * 512 ≤ size
  track : blk % spt + secs ≤ spt
  page : ¬ UseWb buf → buf % 0x10000 + secs * 512 ≤ 0x10000

theorem secs_bounds (blk buf : Nat) (few : spt ≤ 18) (some : 0 < spt) (asked : 512 ≤ size) :
    SecsBounds spt blk buf size (secs spt blk buf size) := by
  have inTrack := Nat.mod_lt blk some
  have fits := pageSecs_eq buf
  unfold secs
  rw [geometry_eq few some]
  dsimp only [FDD_SECTOR_SIZE]
  by_cases useWb : UseWb buf
  · rw [if_pos useWb]
    exact ⟨by omega, by omega, by omega, absurd useWb⟩
  · rw [if_neg useWb]
    unfold UseWb at useWb
    exact ⟨by omega, by omega, by omega, fun _ => by omega⟩

/-- The blocks behind one on its track. -/
theorem chsOf_add {k : Nat} (onTrack : blk % spt + k < spt) : chsOf spt (blk + k) =
    { chsOf spt blk with sec := blk % spt + 1 + k } := by
  have split := Nat.div_add_mod blk spt
  have sum : blk + k = spt * (blk / spt) + (blk % spt + k) := by omega
  have positive : 0 < spt := by omega
  have div : (blk + k) / spt = blk / spt := by
    rw [sum, Nat.mul_add_div positive, Nat.div_eq_of_lt onTrack, Nat.add_zero]
  have mod : (blk + k) % spt = blk % spt + k := by
    rw [sum, Nat.mul_add_mod, Nat.mod_eq_of_lt onTrack]
  rw [chsOf, chsOf, div, mod]
  dsimp only
  congr 1
  omega

/-- Two places on a track. -/
theorem chsOf_add_eq {k : Nat} (onTrack : blk % spt + k < spt) (chs : Chs) :
    chs = chsOf spt (blk + k) ↔ chs.cyl = blk / spt / 2 ∧ chs.head = blk / spt % 2 ∧
      chs.sec = blk % spt + 1 + k := by
  rw [chsOf_add onTrack]
  obtain ⟨cyl, head, sec⟩ := chs
  simp only [chsOf, Chs.mk.injEq]

theorem dmaSetup_eq {linaddr : Nat} (inRam : linaddr < 0x100000) (few : n ≤ 0x10000) (some : 0 < n) :
    dmaSetup linaddr n = Option.some ⟨linaddr / 0x10000, linaddr % 0x10000, n - 1⟩ := by
  have page : linaddr / 0x10000 % 0x10 = linaddr / 0x10000 := by omega
  have count : (n - 1) % 0x10000 = n - 1 := by omega
  rw [dmaSetup, if_neg (by omega), if_neg (by omega), page, count]

end Numbers

namespace Dma

variable {linaddr n : Nat}

/-- A range in a page. -/
theorem covers_iff (some : 0 < n) (inPage : linaddr % 0x10000 + n ≤ 0x10000) (a : Nat) :
    Covers ⟨linaddr / 0x10000, linaddr % 0x10000, n - 1⟩ a ↔ linaddr ≤ a ∧ a < linaddr + n := by
  unfold Covers index
  dsimp only
  constructor <;> intro inRange <;> omega

theorem index_add {i : Nat} (inRange : i < n) (inPage : linaddr % 0x10000 + n ≤ 0x10000) :
    index ⟨linaddr / 0x10000, linaddr % 0x10000, n - 1⟩ (linaddr + i) = i := by
  unfold index
  dsimp only
  omega

theorem address_eq {i : Nat} (inRange : i < n) (inPage : linaddr % 0x10000 + n ≤ 0x10000) :
    address ⟨linaddr / 0x10000, linaddr % 0x10000, n - 1⟩ i = linaddr + i := by
  unfold address
  dsimp only
  omega

end Dma

/-! ## The attempt that succeeds -/

section Success

variable {parm : FddBiosparm} {drive spt work buf blk size linaddr k : Nat} {doread : Bool}
variable {m m' : Machine Byte}

theorem commandChs_opbuf (parm : FddBiosparm) (drive blk : Nat) (doread : Bool) (few : spt ≤ 18)
    (some : 0 < spt) :
    commandChs (opbuf parm drive (geometry spt blk) doread) =
      ⟨blk / spt / 2 % 0x100, blk / spt % 2, blk % spt + 1⟩ := by
  have inTrack := Nat.mod_lt blk some
  have head : blk / spt % 2 % 0x100 = blk / spt % 2 := by omega
  have sec : (blk % spt + 1) % 0x100 = blk % spt + 1 := by omega
  have cyl : blk / spt / 2 % 0x10000 % 0x100 = blk / spt / 2 % 0x100 := by omega
  rw [geometry_eq few some]
  simp only [commandChs, opbuf, List.getElem?_cons_succ, List.getElem?_cons_zero, Option.getD_some,
    head, sec, cyl]

/-- A command for sectors of one track, and a DMA range for them in one page. -/
def sectorOp (parm : FddBiosparm) (drive spt blk linaddr k : Nat) (doread : Bool) : Op :=
  ⟨opbuf parm drive (geometry spt blk) doread,
    ⟨linaddr / 0x10000, linaddr % 0x10000, k * 512 - 1⟩, doread⟩

theorem sectorOp_chs (few : spt ≤ 18) (some : 0 < spt) (fits : blk / spt / 2 < 0x100) :
    (sectorOp parm drive spt blk linaddr k doread).chs = chsOf spt blk := by
  rw [Op.chs, sectorOp, commandChs_opbuf _ _ _ _ few some, Nat.mod_eq_of_lt fits]
  rfl

theorem sectorOp_targets (few : spt ≤ 18) (some : 0 < spt) (fits : blk / spt / 2 < 0x100)
    (moved : 0 < k) (onTrack : blk % spt + k ≤ spt) (chs : Chs) :
    (sectorOp parm drive spt blk linaddr k doread).Targets chs ↔
      ∃ j < k, chs = chsOf spt (blk + j) := by
  rw [Op.Targets, sectorOp_chs few some fits]
  change chs.cyl = blk / spt / 2 ∧ chs.head = blk / spt % 2 ∧ blk % spt + 1 ≤ chs.sec ∧
    (chs.sec - (blk % spt + 1)) * 512 ≤ k * 512 - 1 ↔ _
  constructor
  · rintro ⟨cyl, head, low, high⟩
    have inRange : chs.sec - (blk % spt + 1) < k := by omega
    refine ⟨chs.sec - (blk % spt + 1), inRange, ?_⟩
    exact (chsOf_add_eq (by omega) chs).mpr ⟨cyl, head, by omega⟩
  · rintro ⟨j, inRange, rfl⟩
    obtain ⟨cyl, head, sec⟩ := (chsOf_add_eq (by omega) _).mp (Eq.refl (chsOf spt (blk + j)))
    exact ⟨cyl, head, by omega, by omega⟩

theorem sectorOp_moves (few : spt ≤ 18) (some : 0 < spt) (fits : blk / spt / 2 < 0x100)
    (moved : 0 < k) (onTrack : blk % spt + k ≤ spt) (inPage : linaddr % 0x10000 + k * 512 ≤ 0x10000)
    (op : Op) (isOp : op = sectorOp parm drive spt blk linaddr k doread) (work : Nat) :
    Moves spt blk linaddr work (k * 512) doread m (op.store m (op.source m)) := by
  have chs : op.chs = chsOf spt blk := isOp ▸ sectorOp_chs few some fits
  have direction : op.doread = doread := by rw [isOp]; rfl
  have dma : op.dma = ⟨linaddr / 0x10000, linaddr % 0x10000, k * 512 - 1⟩ := by rw [isOp]; rfl
  have place : ∀ i < k * 512, { op.chs with sec := op.chs.sec + i / 512 } =
      chsOf spt (blk + i / 512) := by
    intro i inRange
    rw [chs]
    refine (chsOf_add_eq (by omega) _).mpr ⟨rfl, rfl, rfl⟩
  cases doread with
  | true =>
      rw [Moves, if_pos rfl]
      refine ⟨fun i inRange => ?_, fun a outside _ => ?_, ?_⟩
      · have covers : op.dma.Covers (linaddr + i) := by
          rw [dma]
          exact (Dma.covers_iff (by omega) inPage _).mpr ⟨by omega, by omega⟩
        simp only [Op.store, direction, if_true, if_pos covers]
        rw [dma, Dma.index_add inRange inPage, Op.source, direction, if_pos rfl, place i inRange]
      · have missed : ¬ op.dma.Covers a := by
          rw [dma]
          exact fun covers => outside ((Dma.covers_iff (by omega) inPage a).mp covers)
        simp only [Op.store, direction, if_true, if_neg missed]
      · simp only [Op.store, direction, if_true]
  | false =>
      have targets : ∀ c, op.Targets c ↔ ∃ j < k, c = chsOf spt (blk + j) := by
        intro c
        rw [isOp]
        exact sectorOp_targets few some fits moved onTrack c
      rw [Moves, if_neg Bool.false_ne_true]
      refine ⟨fun i inRange => ?_, fun c outside => ?_, fun a _ => ?_⟩
      · have target : op.Targets (chsOf spt (blk + i / 512)) ∧ i % 512 < FDD_SECTOR_SIZE :=
          ⟨(targets _).mpr ⟨i / 512, by omega, rfl⟩, Nat.mod_lt i (by decide)⟩
        simp only [Op.store, direction, Bool.false_eq_true, if_false, if_pos target]
        have sec : (chsOf spt (blk + i / 512)).sec = op.chs.sec + i / 512 := by
          rw [← place i inRange]
        have whole : ((chsOf spt (blk + i / 512)).sec - op.chs.sec) * FDD_SECTOR_SIZE + i % 512 =
            i := by
          rw [sec]
          simp only [FDD_SECTOR_SIZE]
          omega
        rw [whole, Op.source, direction, if_neg Bool.false_ne_true, dma,
          Dma.address_eq inRange inPage]
      · have missed : ¬ op.Targets c := by
          rw [targets]
          rintro ⟨j, inRange, rfl⟩
          exact outside j (by omega) rfl
        funext j
        have notTarget : ¬ (op.Targets c ∧ j < FDD_SECTOR_SIZE) := fun both => missed both.1
        simp only [Op.store, direction, Bool.false_eq_true, if_false, if_neg notTarget]
      · simp only [Op.store, direction, Bool.false_eq_true, if_false]

/-- One sector through the work buffer. -/
theorem moves_work
    (moves : Moves spt blk work work 512 doread (if !doread then copySector m work buf else m) m') :
    Moves spt blk buf work 512 doread m (if doread then copySector m' buf work else m') := by
  cases doread with
  | true =>
      simp only [Bool.not_true, Bool.false_eq_true, if_false] at moves
      rw [Moves, if_pos rfl] at moves ⊢
      obtain ⟨sector, others, disk⟩ := moves
      simp only [if_true]
      refine ⟨fun i inRange => ?_, fun a notBuf notWork => ?_, disk⟩
      · have inBuf : buf ≤ buf + i ∧ buf + i < buf + FDD_SECTOR_SIZE := ⟨by omega, by
          simp only [FDD_SECTOR_SIZE]
          omega⟩
        simp only [copySector, if_pos inBuf]
        have same : work + (buf + i - buf) = work + i := by omega
        rw [same]
        exact sector i inRange
      · simp only [copySector, FDD_SECTOR_SIZE, if_neg notBuf]
        exact others a notWork notWork
  | false =>
      simp only [Bool.not_false, if_true] at moves
      rw [Moves, if_neg Bool.false_ne_true] at moves ⊢
      obtain ⟨sector, others, memory⟩ := moves
      simp only [Bool.false_eq_true, if_false]
      refine ⟨fun i inRange => ?_, others, fun a notWork => ?_⟩
      · have inWork : work ≤ work + i ∧ work + i < work + FDD_SECTOR_SIZE := ⟨by omega, by
          simp only [FDD_SECTOR_SIZE]
          omega⟩
        rw [sector i inRange]
        simp only [copySector, if_pos inWork]
        congr 1
        omega
      · rw [memory a notWork]
        simp only [copySector, FDD_SECTOR_SIZE, if_neg notWork]

/-! ## `fdd_op` -/

/-- The address for the DMA controller, and that the range is in a page. -/
theorem buflin_page (bounds : SecsBounds spt blk buf size k) (inRam : buf < 0x100000)
    (workInRam : work < 0x100000) (workInPage : work / 0x10000 = (work + 511) / 0x10000)
    (one : UseWb buf → k = 1) :
    buflin work buf < 0x100000 ∧ buflin work buf % 0x10000 + k * 512 ≤ 0x10000 := by
  unfold buflin
  by_cases useWb : UseWb buf
  · rw [if_pos useWb, one useWb]
    exact ⟨workInRam, by omega⟩
  · rw [if_neg useWb]
    exact ⟨inRam, bounds.page useWb⟩

/-- When the attempts have ended well, the blocks have been moved. -/
theorem moves_done (few : spt ≤ 18) (some : 0 < spt) (fits : blk / spt / 2 < 0x100)
    (bounds : SecsBounds spt blk buf size k) (one : UseWb buf → k = 1)
    (inPage : buflin work buf % 0x10000 + k * 512 ≤ 0x10000) {m₁ : Machine Byte}
    (copied : m₁ = if !doread ∧ UseWb buf then copySector m work buf else m)
    (done : m' = Op.store (sectorOp parm drive spt blk (buflin work buf) k doread) m₁
      (Op.source (sectorOp parm drive spt blk (buflin work buf) k doread) m₁)) :
    Moves spt blk buf work (k * 512) doread m
      (if doread ∧ UseWb buf then copySector m' buf work else m') := by
  have moves := sectorOp_moves (m := m₁) few some fits bounds.some bounds.track inPage _
    (Eq.refl (sectorOp parm drive spt blk (buflin work buf) k doread)) work
  rw [← done] at moves
  by_cases useWb : UseWb buf
  · simp only [useWb, and_true] at copied ⊢
    rw [buflin, if_pos useWb] at moves
    rw [one useWb] at moves ⊢
    exact moves_work (copied ▸ moves)
  · simp only [useWb, and_false, if_false] at copied ⊢
    rw [buflin, if_neg useWb] at moves
    exact copied ▸ moves

/-- A transfer that returns a size has moved what has been asked for. -/
theorem transfer_done (few : spt ≤ 18) (some : 0 < spt) (fits : blk / spt / 2 < 0x100)
    (asked : 512 ≤ size) (inRam : buf < 0x100000) (workInRam : work < 0x100000)
    (workInPage : work / 0x10000 = (work + 511) / 0x10000)
    (one : UseWb buf → secs spt blk buf size = 1) {hw : Controller Byte} {n : Nat}
    (ran : transfer parm work hw drive spt buf blk size doread m = ((n : Int), m')) :
    Transferred parm drive spt work buf blk size doread m n m' := by
  have bounds := secs_bounds blk buf few some asked
  obtain ⟨linInRam, inPage⟩ := buflin_page bounds inRam workInRam workInPage one
  have chs := commandChs_opbuf parm drive blk doread few some
  generalize isSecs : secs spt blk buf size = k at *
  have track := bounds.track
  have request := bounds.request
  have positive := bounds.some
  have setup := dmaSetup_eq (n := k * 512) linInRam (by omega) (by omega)
  rw [transfer, isSecs] at ran
  dsimp only [FDD_SECTOR_SIZE] at ran
  obtain ⟨m₁, copied⟩ : ∃ m₁, m₁ = if !doread ∧ UseWb buf then copySector m work buf else m :=
    ⟨_, rfl⟩
  rw [← copied] at ran
  obtain ⟨⟨rc, m₂⟩, attempted⟩ : ∃ result, seekLoop hw (opbuf parm drive (geometry spt blk) doread)
    (buflin work buf) (k * 512) doread FDD_RETRY 0 false m₁ = result := ⟨_, rfl⟩
  rw [attempted] at ran
  dsimp only at ran
  rcases seekLoop_spec setup (.inl rfl) attempted with ⟨rfl, done⟩ | rfl
  · rw [if_neg (by decide)] at ran
    obtain ⟨count, rfl⟩ := Prod.mk.injEq _ _ _ _ ▸ ran
    obtain rfl : n = k * 512 := by omega
    have moves := moves_done few some fits bounds one inPage copied done
    refine ⟨fits, by omega, request, ⟨k, Nat.mul_comm _ _⟩, ?_, by omega, ?_, moves⟩
    · rintro _ rfl
      rw [chs, Nat.mod_eq_of_lt fits]
      have split := Nat.div_add_mod blk spt
      have whole : blk / spt / 2 * 2 + blk / spt % 2 = blk / spt := by omega
      dsimp only
      rw [whole, Nat.mul_comm]
      exact ⟨by omega, by omega⟩
    · unfold buflin
      by_cases useWb : UseWb buf
      · rw [if_pos useWb]
        have single := one useWb
        exact .inr ⟨Nat.le_refl _, by omega⟩
      · rw [if_neg useWb]
        exact .inl ⟨Nat.le_refl _, by omega⟩
  · rw [if_pos (by decide)] at ran
    have negative := congrArg Prod.fst ran
    dsimp only at negative
    omega

end Success

section Op

variable {units : List FddUnit} {unit : Nat} {pu : FddUnit} {spt work buf blk size : Nat}
variable {doread : Bool}

/-- A working controller carries out a transfer. -/
theorem transfer_working (parm : FddBiosparm) (drive blk : Nat) (doread : Bool) (few : spt ≤ 18)
    (some : 0 < spt) (asked : 512 ≤ size) (inRam : buf < 0x100000) (workInRam : work < 0x100000)
    (byte : Byte) (m : Machine Byte) :
    ∃ m', transfer parm work (workingController byte) drive spt buf blk size doread m =
      (((secs spt blk buf size * 512 : Nat) : Int), m') := by
  have bounds := secs_bounds blk buf few some asked
  generalize isSecs : secs spt blk buf size = k at *
  have track := bounds.track
  have positive := bounds.some
  have linInRam : buflin work buf < 0x100000 := by
    unfold buflin
    split
    · exact workInRam
    · exact inRam
  have setup := dmaSetup_eq (n := k * 512) linInRam (by omega) (by omega)
  rw [transfer, isSecs]
  dsimp only [FDD_SECTOR_SIZE]
  rw [if_neg (by rw [seekLoop_working byte setup]; decide)]
  exact ⟨_, rfl⟩

/-- A request for whole sectors of a supported drive is carried out. -/
theorem fddOp_transfer (isUnit : units[unit]? = some pu) (supported : secPerTrk pu.type = some spt)
    (positive : 0 < size) (whole : 512 ∣ size) (parm : FddBiosparm) (hw : Controller Byte)
    (m : Machine Byte) : fddOp units parm work hw unit buf blk size doread m =
      transfer parm work hw pu.drive spt buf blk size doread m := by
  have sectors : (size : Int).tmod FDD_SECTOR_SIZE = 0 :=
    Int.tmod_eq_zero_of_dvd (Int.natCast_dvd_natCast.mpr whole)
  rw [fddOp, if_neg (by omega), if_neg (by omega), isUnit]
  simp only [supported, Int.toNat_natCast]

/-- `fdd_op` moves the first part of what it has been asked for, whatever the controller does,
if and only if the cylinder fits into its byte, and the buffer does not cross a page within
its first sector unless only that sector is moved. -/
theorem fdd_op_moves_requested (isUnit : units[unit]? = some pu)
    (supported : secPerTrk pu.type = some spt) (parm : FddBiosparm) (doread : Bool) (blk : Nat)
    (positive : 0 < size) (whole : 512 ∣ size) (inRam : buf < 0x100000) (workInRam : work < 0x100000)
    (workInPage : work / 0x10000 = (work + 511) / 0x10000)
    (apart : work + 512 ≤ buf ∨ buf + size ≤ work) :
    (∀ (hw : Controller UInt8) (m m' : Machine UInt8) (n : Nat),
      fddOp units parm work hw unit buf blk size doread m = ((n : Int), m') →
        Transferred parm pu.drive spt work buf blk size doread m n m') ↔
      blk / spt / 2 < 0x100 ∧ (512 ≤ 0x10000 - buf % 0x10000 ∨ secs spt blk buf size = 1) := by
  obtain ⟨some, few⟩ := secPerTrk_bounds supported
  have asked : 512 ≤ size := Nat.le_of_dvd positive whole
  have useWb : UseWb buf ↔ ¬ 512 ≤ 0x10000 - buf % 0x10000 := by
    rw [UseWb, pageSecs_eq]
    omega
  constructor
  · intro right
    obtain ⟨m', ran⟩ := transfer_working parm pu.drive blk doread few some asked inRam workInRam
      (0 : UInt8) ⟨fun _ => 0, fun _ _ => 0⟩
    have done := right _ _ _ _ ((fddOp_transfer isUnit supported positive whole _ _ _).trans ran)
    refine ⟨done.fits, ?_⟩
    by_cases crosses : UseWb buf
    · right
      have least := (secs_bounds blk buf few some asked).some
      have inside := done.inside
      rw [buflin, if_pos crosses] at inside
      omega
    · exact .inl (Decidable.not_not.mp fun near => crosses (useWb.mpr near))
  · rintro ⟨fits, one⟩ hw m m' n ran
    rw [fddOp_transfer isUnit supported positive whole] at ran
    exact transfer_done few some fits asked inRam workInRam workInPage
      (fun crosses => one.resolve_left (useWb.mp crosses)) ran

end Op

/-- One drive for disks of 18 sectors on a track. -/
def oneUnit : List FddUnit := [⟨0, .fdd1_44⟩]

def someParm : FddBiosparm := ⟨2, 18, 0x1B, 0xFF⟩

def blankMachine : Machine UInt8 := ⟨fun _ => 0, fun _ _ => 0⟩

/-- Two sectors for a buffer are carried out by a working controller. -/
theorem oneUnit_working (buf : Nat) (inRam : buf < 0x100000) : ∃ m',
    fddOp oneUnit someParm 0x10000 (workingController 0) 0 buf 0 (1024 : Nat) true blankMachine =
      (((secs 18 0 buf 1024 * 512 : Nat) : Int), m') := by
  have isUnit : oneUnit[0]? = some ⟨0, .fdd1_44⟩ := rfl
  rw [fddOp_transfer isUnit rfl (by decide) (by decide)]
  exact transfer_working someParm 0 0 true (by decide) (by decide) (by decide) inRam (by decide) 0 _

theorem fdd_op_moves_requested_first : ∃ m',
    fddOp oneUnit someParm 0x10000 (workingController 0) 0 0x2000 0 (1024 : Nat) true blankMachine =
        ((1024 : Int), m') ∧
      Transferred someParm 0 18 0x10000 0x2000 0 1024 true blankMachine 1024 m' := by
  have isUnit : oneUnit[0]? = some ⟨0, .fdd1_44⟩ := rfl
  obtain ⟨m', ran⟩ := oneUnit_working 0x2000 (by decide)
  refine ⟨m', ran, (fdd_op_moves_requested isUnit rfl someParm true 0 ?_ ?_ ?_ ?_ ?_ ?_).mpr
    ⟨?_, .inl ?_⟩ _ _ _ _ ran⟩ <;> decide

/-- Two sectors into a buffer that crosses a page behind its first 256 bytes: 1024 bytes are
moved to the work buffer of 512. -/
theorem fdd_op_overruns_work : ¬ ∀ (hw : Controller UInt8) (m m' : Machine UInt8) (n : Nat),
    fddOp oneUnit someParm 0x10000 hw 0 0x2FF00 0 (1024 : Nat) true m = ((n : Int), m') →
      Transferred someParm 0 18 0x10000 0x2FF00 0 1024 true m n m' := by
  intro right
  obtain ⟨m', ran⟩ := oneUnit_working 0x2FF00 (by decide)
  have inside := (right _ _ _ _ ran).inside
  exact absurd inside (by decide)

end Pegasos.Kernel.Fdd
