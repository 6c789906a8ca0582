import Pegasos.Fat.Bpb
import Pegasos.Fat.Dirent
import Pegasos.Kernel.Cache.BlkCache
import Pegasos.Support.Program

/-!
# The disk as the FAT code of the kernel sees it

The functions of the FAT code get blocks from the block cache, look at their bytes, copy
some of them into a buffer, and put the blocks back.  A cache without dirty blocks serves
them with the blocks of the unit.
-/

namespace Pegasos.Kernel.Fat

open Pegasos.Support
open Pegasos.Fat (Sector)
open Cache (Access BlkCache BlkPtr MAX_BLOCK Tag)
open Function (update)

def EIO : Int := 4
def EINVAL : Int := 5

abbrev BLOCK_SIZE : Nat := 512

/-- The cache, the devices behind it, and how the transfers of the next calls go; those
behind them succeed.  `buf` is the buffer that is read into.  `source` is the history of it, the
block that each of its bytes has been copied from, and `gets` is how often a block has been got. -/
structure Disk where
  cache : BlkCache Sector
  device : Tag → Sector
  reads : List (Access Sector)
  writes : List (Access Unit)
  buf : Nat → UInt8
  source : Nat → Option Nat
  gets : Nat

abbrev DiskM := Program Disk

/-- `bc_get`.  A stop of the machine is a fault. -/
def bcGet (tag : Tag) : DiskM BlkPtr := fun disk =>
  match disk.cache.bcGet tag (disk.device tag) (disk.reads.headD .done) with
  | .ok (rc, b, cache) =>
      let disk := { disk with
        cache := cache, reads := disk.reads.tail, gets := disk.gets + 1 }
      if rc = 0 then .ok b disk else .err rc disk
  | .panic _ => .fault
  | .hang => .hang

/-- `bc_put`. -/
def bcPut (b : BlkPtr) : DiskM Unit := fun disk =>
  let tag := (disk.cache.blocks b).tag
  match disk.cache.bcPut b (disk.device tag) (disk.writes.headD .done) with
  | .ok (rc, cache, sector) =>
      let disk := { disk with
        cache := cache, device := update disk.device tag sector, writes := disk.writes.tail }
      if rc = 0 then .ok () disk else .err rc disk
  | .panic _ => .fault
  | .hang => .hang

/-- `blk->data[i]`, which must be a byte of the block. -/
def readByte (b : BlkPtr) (i : Nat) : DiskM UInt8 := fun disk =>
  if i < BLOCK_SIZE then .ok ((disk.cache.blocks b).data i) disk else .fault

/-- A whole block as it is. -/
def readBlock (b : BlkPtr) : DiskM Sector := .peek fun disk => (disk.cache.blocks b).data

/-- A buffer once so many values are stored from `got` on. -/
def stored {β : Type} (old : Nat → β) (got len : Nat) (value : Nat → β) : Nat → β := fun i =>
  if got ≤ i ∧ i < got + len then value (i - got) else old i

/-- `_fmemcpy(buf, blk->data + offs, len)`, where so many bytes have been copied already. -/
def copyOut (got : Nat) (b : BlkPtr) (offs len : Nat) : DiskM Unit := fun disk =>
  if offs + len ≤ BLOCK_SIZE then
    .ok () { disk with
      buf := stored disk.buf got len fun k => (disk.cache.blocks b).data (offs + k)
      source := stored disk.source got len fun _ => some (disk.cache.blocks b).tag.blkno }
  else .fault

section Stored

variable {β : Type} {old value value' : Nat → β} {got len more : Nat}

theorem stored_zero : stored old got 0 value = old := by
  funext i
  exact if_neg (by omega)

theorem stored_congr (same : ∀ k < len, value k = value' k) :
    stored old got len value = stored old got len value' := by
  funext i
  by_cases among : got ≤ i ∧ i < got + len
  · rw [stored, stored, if_pos among, if_pos among, same (i - got) (by omega)]
  · rw [stored, stored, if_neg among, if_neg among]

theorem stored_append :
    stored (stored old got len value) (got + len) more (fun k => value (len + k)) =
      stored old got (len + more) value := by
  funext i
  unfold stored
  by_cases later : got + len ≤ i
  · have sum : len + (i - (got + len)) = i - got := by omega
    have outside : ¬(got ≤ i ∧ i < got + len) := by omega
    have same : got ≤ i ∧ i < got + (len + more) ↔ got + len ≤ i ∧ i < got + len + more := by omega
    simp only [sum, outside, same, if_false]
  · have outside : ¬(got + len ≤ i ∧ i < got + len + more) := by omega
    have same : got ≤ i ∧ i < got + (len + more) ↔ got ≤ i ∧ i < got + len := by omega
    simp only [outside, same, if_false]

end Stored

/-! ## What they do -/

/-- The blocks that others hold: they leave two blocks, and their numbers fit. -/
structure Others (base : BlkPtr → Nat) : Prop where
  free : ∃ b b', b ≠ b' ∧ base b = 0 ∧ base b' = 0
  few : ∀ b, base b < 0x7ffd

/-- The cache and the device hold `data` on a unit, no block is dirty, and the blocks in
`held` are in use besides those of the others. -/
structure Serves (dev unit : Int) (data : Nat → Sector) (base : BlkPtr → Nat) (disk : Disk)
    (held : List BlkPtr) : Prop where
  circular : ∃ order, disk.cache.Circular order
  inuse : ∀ b, (disk.cache.blocks b).inuse = base b + held.count b
  clean : ∀ b, (disk.cache.blocks b).dirty = false
  device : ∀ blkno, disk.device ⟨dev, unit, blkno⟩ = data blkno
  cached : ∀ b blkno, (disk.cache.blocks b).tag = ⟨dev, unit, blkno⟩ →
    (disk.cache.blocks b).data = data blkno
  reads : disk.reads = []

/-- The disk behind a part of a program that copies nothing. -/
structure Leaves (dev unit : Int) (data : Nat → Sector) (base : BlkPtr → Nat) (before : Disk)
    (held : List BlkPtr) (after : Disk) : Prop where
  serves : Serves dev unit data base after held
  buf : after.buf = before.buf
  source : after.source = before.source

variable {dev unit : Int} {data : Nat → Sector} {base : BlkPtr → Nat} {disk disk' : Disk}
  {held held' : List BlkPtr} {b : BlkPtr} {blkno i : Nat}

theorem Leaves.trans {last : Disk} (first : Leaves dev unit data base disk held disk')
    (second : Leaves dev unit data base disk' held' last) :
    Leaves dev unit data base disk held' last :=
  ⟨second.serves, second.buf.trans first.buf, second.source.trans first.source⟩

theorem Serves.leaves (serves : Serves dev unit data base disk held) :
    Leaves dev unit data base disk held disk := ⟨serves, rfl, rfl⟩

/-- A block that is not in use. -/
theorem Serves.exists_free (serves : Serves dev unit data base disk held) (others : Others base)
    (one : held.length ≤ 1) : ∃ b, (disk.cache.blocks b).inuse = 0 := by
  obtain ⟨b, b', apart, free, free'⟩ := others.free
  have outside : b ∉ held ∨ b' ∉ held := by
    by_contra both
    push Not at both
    match held, one with
    | [], _ => exact List.not_mem_nil both.1
    | [c], _ => exact apart ((List.mem_singleton.mp both.1).trans (List.mem_singleton.mp both.2).symm)
  rcases outside with outside | outside
  · refine ⟨b, ?_⟩
    rw [serves.inuse, free, List.count_eq_zero_of_not_mem outside]
    rfl
  · refine ⟨b', ?_⟩
    rw [serves.inuse, free', List.count_eq_zero_of_not_mem outside]
    rfl

/-- A 16-bit count that has not become too large. -/
theorem int16_count (count : Nat) (small : count < 0x8000) : Cache.int16 count = count := by
  rw [Cache.int16, Int.bmod_def]
  omega

/-- Only the count of a block changes. -/
theorem Serves.setInuse (serves : Serves dev unit data base disk held) (count : Int → Int)
    (cache : disk'.cache = disk.cache.modify b fun block =>
      { block with inuse := count block.inuse })
    (device : disk'.device = disk.device) (reads : disk'.reads = [])
    (own : count (disk.cache.blocks b).inuse = base b + held'.count b)
    (others : ∀ c ≠ b, held'.count c = held.count c) :
    Serves dev unit data base disk' held' := by
  obtain ⟨order, circular⟩ := serves.circular
  have blocks : ∀ c, disk'.cache.blocks c =
      { disk.cache.blocks c with
        inuse := if c = b then count (disk.cache.blocks b).inuse
          else (disk.cache.blocks c).inuse } := by
    intro c
    rw [cache, BlkCache.modify_blocks]
    by_cases same : c = b
    · subst same
      simp
    · simp [same]
  refine ⟨⟨order, circular.congr (fun c => by rw [blocks]) (fun c => by rw [blocks])
    (by rw [cache]; rfl)⟩, fun c => ?_, fun c => ?_, fun blkno => ?_, fun c blkno => ?_, reads⟩
  · rw [blocks]
    by_cases same : c = b
    · subst same
      simpa using own
    · simpa [same, others c same] using serves.inuse c
  · rw [blocks]
    exact serves.clean c
  · rw [device]
    exact serves.device blkno
  · rw [blocks]
    exact serves.cached c blkno

theorem bcGet_ok {tag : Tag} {cache : BlkCache Sector} (reads : disk.reads = [])
    (ran : disk.cache.bcGet tag (disk.device tag) .done = .ok (0, b, cache)) :
    bcGet tag disk = .ok b { disk with cache := cache, reads := [], gets := disk.gets + 1 } := by
  simp only [bcGet, reads, List.headD_nil, List.tail_nil, ran, if_true]

theorem Serves.gets (serves : Serves dev unit data base disk held) (others : Others base)
    (one : held.length ≤ 1) (blkno : Nat) :
    Program.Gives (bcGet ⟨dev, unit, blkno⟩) disk fun b after =>
      (after.cache.blocks b).tag = ⟨dev, unit, blkno⟩ ∧
        (after.cache.blocks b).data = data blkno ∧
        Leaves dev unit data base disk (b :: held) after := by
  obtain ⟨order, circular⟩ := serves.circular
  rcases BlkCache.bcGet_cases circular ⟨dev, unit, blkno⟩ (disk.device ⟨dev, unit, blkno⟩) .done
    with ⟨b, tag, ran⟩ | ⟨missing, ⟨full, -⟩ | ⟨b, unused, -, ran⟩⟩
  · refine ⟨b, _, bcGet_ok serves.reads ran, ?_, ?_, ?_, rfl, rfl⟩
    · simp [BlkCache.modify_blocks, tag]
    · simpa [BlkCache.modify_blocks] using serves.cached b blkno tag
    · have bound := List.count_le_length (a := b) (l := held)
      have few := others.few b
      refine serves.setInuse (fun inuse => Cache.int16 (inuse + 1)) rfl rfl rfl ?_
        fun c apart => List.count_cons_of_ne apart.symm
      have longer : (b :: held).count b = held.count b + 1 := List.count_cons_self
      have sum : (disk.cache.blocks b).inuse + 1 = (base b + (b :: held).count b : Nat) := by
        rw [serves.inuse, longer]
        omega
      rw [sum, int16_count _ (by omega), Nat.cast_add]
  · obtain ⟨b, unused⟩ := serves.exists_free others one
    exact absurd unused (full b)
  · have zero : base b = 0 ∧ List.count b held = 0 := by
      have sum := serves.inuse b
      rw [unused] at sum
      omega
    refine ⟨b, _, bcGet_ok serves.reads ran, ?_, ?_, ?_, rfl, rfl⟩
    · simp [BlkCache.refill]
    · simpa [BlkCache.refill] using serves.device blkno
    · refine ⟨circular.refill b _ _ 1, fun c => ?_, fun c => ?_, serves.device,
        fun c blkno' => ?_, rfl⟩
      · by_cases same : c = b
        · subst same
          simp [BlkCache.refill, zero.1, zero.2]
        · simpa [BlkCache.refill, same, List.count_cons_of_ne (Ne.symm same)] using serves.inuse c
      · by_cases same : c = b
        · subst same
          simpa [BlkCache.refill] using serves.clean c
        · simpa [BlkCache.refill, same] using serves.clean c
      · by_cases same : c = b
        · subst same
          intro tag
          have number : blkno = blkno' := by simpa [BlkCache.refill] using tag
          subst number
          simpa [BlkCache.refill] using serves.device blkno
        · simpa [BlkCache.refill, same] using serves.cached c blkno'

theorem Serves.puts (serves : Serves dev unit data base disk (b :: held)) (others : Others base)
    (one : held.length ≤ 1) :
    Program.Gives (bcPut b) disk fun _ after => Leaves dev unit data base disk held after := by
  obtain ⟨order, circular⟩ := serves.circular
  have bound := List.count_le_length (a := b) (l := held)
  have few := others.few b
  have sum : (disk.cache.blocks b).inuse = (base b + held.count b + 1 : Nat) := by
    rw [serves.inuse, List.count_cons_self]
    rfl
  have used : (disk.cache.blocks b).inuse ≠ 0 := by omega
  rcases BlkCache.bcPut_cases circular b (disk.device (disk.cache.blocks b).tag)
    (disk.writes.headD .done) used with ⟨-, ran⟩ | ⟨-, dirty, -⟩
  · have returned : bcPut b disk = .ok () { disk with
        cache := disk.cache.modify b fun block =>
          { block with inuse := Cache.int16 (block.inuse - 1) }
        writes := disk.writes.tail } := by
      simp only [bcPut, ran, if_true, Function.update_eq_self]
    refine ⟨(), _, returned, ?_, rfl, rfl⟩
    refine serves.setInuse (fun inuse => Cache.int16 (inuse - 1)) rfl rfl serves.reads ?_
      fun c apart => ?_
    · have less : (disk.cache.blocks b).inuse - 1 = (base b + held.count b : Nat) := by omega
      rw [less, int16_count _ (by omega), Nat.cast_add]
    · rw [List.count_cons_of_ne apart.symm]
  · rw [serves.clean b] at dirty
    exact Bool.noConfusion dirty

theorem readByte_gives (inside : i < BLOCK_SIZE) :
    Program.Gives (readByte b i) disk fun value after =>
      value = (disk.cache.blocks b).data i ∧ after = disk :=
  ⟨_, disk, if_pos inside, rfl, rfl⟩

/-- Copying reads a block, and changes the buffer only. -/
theorem Serves.copiesOut (serves : Serves dev unit data base disk held) (b : BlkPtr)
    (got offs len : Nat) (inside : offs + len ≤ BLOCK_SIZE) :
    Program.Gives (copyOut got b offs len) disk fun _ after =>
      Serves dev unit data base after held ∧
        after.buf = stored disk.buf got len (fun k => (disk.cache.blocks b).data (offs + k)) ∧
        after.source = stored disk.source got len fun _ => some (disk.cache.blocks b).tag.blkno :=
  ⟨(), _, if_pos inside, ⟨serves.circular, serves.inuse, serves.clean, serves.device,
    serves.cached, serves.reads⟩, rfl, rfl⟩

theorem readBlock_gives (b : BlkPtr) :
    Program.Gives (readBlock b) disk fun value after =>
      value = (disk.cache.blocks b).data ∧ after = disk :=
  ⟨_, disk, rfl, rfl, rfl⟩

/-! ## How often blocks are got -/

/-- A program that returns has got so many blocks at most. -/
def Asks {α : Type} (n : Nat) (program : DiskM α) : Prop :=
  ∀ disk value after, program disk = .ok value after → after.gets ≤ disk.gets + n

namespace Asks

variable {α β : Type} {program : DiskM α} {next : α → DiskM β} {n m : Nat}

theorem pure (value : α) : Asks 0 (Pure.pure value : DiskM α) := by
  intro disk value' after ran
  cases ran
  exact Nat.le_refl _

theorem bind (first : Asks n program) (rest : ∀ value, Asks m (next value)) :
    Asks (n + m) (program >>= next) := by
  intro disk value after ran
  obtain ⟨value', middle, ran', ran''⟩ := Program.of_bind_ok ran
  have before := first disk value' middle ran'
  have behind := rest value' middle value after ran''
  omega

theorem mono (asks : Asks n program) (le : n ≤ m) : Asks m program :=
  fun disk value after ran => (asks disk value after ran).trans (Nat.add_le_add_left le _)

theorem bcGet (tag : Tag) : Asks 1 (bcGet tag) := by
  intro disk b after ran
  unfold Fat.bcGet at ran
  split at ran
  · dsimp only at ran
    split at ran
    · cases ran
      exact Nat.le_refl _
    · exact nomatch ran
  · exact nomatch ran
  · exact nomatch ran

theorem bcPut (b : BlkPtr) : Asks 0 (bcPut b) := by
  intro disk value after ran
  unfold Fat.bcPut at ran
  dsimp only at ran
  split at ran
  · split at ran
    · cases ran
      exact Nat.le_refl _
    · exact nomatch ran
  · exact nomatch ran
  · exact nomatch ran

theorem readByte (b : BlkPtr) (i : Nat) : Asks 0 (readByte b i) := by
  intro disk value after ran
  unfold Fat.readByte at ran
  split at ran
  · cases ran
    exact Nat.le_refl _
  · exact nomatch ran

end Asks

/-- The cache after `bc_init`. -/
def Disk.idle (data : Nat → Sector) : Disk where
  cache := .bcInit fun _ => data 0
  device tag := data tag.blkno
  reads := []
  writes := []
  buf := fun _ => 0
  source := fun _ => none
  gets := 0

/-- No other has a block in use. -/
theorem Others.none : Others fun _ => 0 := ⟨⟨0, 1, by decide, rfl, rfl⟩, fun _ => by decide⟩

theorem Serves.idle (dev unit : Int) (data : Nat → Sector) :
    Serves dev unit data (fun _ => 0) (.idle data) [] := by
  have block := BlkCache.bcInit_block fun _ => data 0
  refine ⟨BlkCache.bcInit_circular _, fun b => ?_, fun b => ?_, fun _ => rfl,
    fun b blkno tag => ?_, rfl⟩
  · exact (block b).1
  · exact (block b).2.2
  · have zero : blkno = 0 := congrArg Tag.blkno (tag.symm.trans (block b).2.1)
    rw [zero]
    exact BlkCache.bcInit_data (fun _ => data 0) b

end Pegasos.Kernel.Fat
