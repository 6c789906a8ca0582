import Pegasos.Hosted.BlkCache
import Pegasos.Support.Transition

/-!
# Write-back of the hosted cache

The cache with its devices and the history: the last modification of every block, the
blocks that callers have got and not put back, and whether a call has returned an
error.  While no device write fails and no caller modifies a block that has been
reused under its hands, every modification is on its device or in a dirty block.
-/

namespace Pegasos.Hosted

open Pegasos.Support
open Function (update)

universe u

variable {Data : Type u}

/-- A unit and a block number on it. -/
abbrev Tag := Nat × Nat

structure CacheSystem (Data : Type u) where
  cache : BlkCache Data
  disks : Disks Data
  getUnits : BlkDev → Nat
  last : Tag → Option Data
  held : List (BlkPtr × Tag)
  error : Bool

/-- The calls.  `modify` is a caller that changes the contents of a block that it has
got for a tag, and sets `dirty`. -/
inductive CacheAction (Data : Type u) where
  | bcGet (dev : Int) (tag : Tag) (overw : Bool) (write read : Transfer Data)
  | modify (b : BlkPtr) (tag : Tag) (data : Data)
  | bcPut (b : BlkPtr) (tag : Tag)
  | bcSync (writes : BlkPtr → Transfer Data)

namespace CacheSystem

variable (sys : CacheSystem Data)

/-- The unit and the number that a block is used for. -/
def tag (b : BlkPtr) : Tag := ((sys.cache.blocks b).unit, (sys.cache.blocks b).blkno)

/-- What the devices hold for a tag, if there is such a unit. -/
def onDisk (tag : Tag) : Option Data :=
  (getDevice sys.getUnits tag.1).map fun d => sys.disks d tag.2

def step : CacheAction Data → Option (CacheSystem Data)
  | .bcGet dev tag overw write read =>
      let (rc, block, cache, disks) :=
        sys.cache.bcGet sys.getUnits sys.disks dev tag.1 tag.2 overw write read
      some { sys with
        cache := cache
        disks := disks
        held := if rc = 0 then (block.map fun b => (b, tag)).toList ++ sys.held else sys.held
        error := sys.error || rc ≠ 0 }
  | .modify b tag data =>
      if (b, tag) ∈ sys.held then some { sys with
        cache := sys.cache.modify b fun block => { block with data := data, dirty := true }
        last := update sys.last tag (some data) }
      else none
  | .bcPut b tag =>
      if (b, tag) ∈ sys.held then
        let (rc, cache) := sys.cache.bcPut b
        some { sys with
          cache := cache
          held := sys.held.erase (b, tag)
          error := sys.error || rc ≠ 0 }
      else none
  | .bcSync writes =>
      let (rc, cache, disks) := sys.cache.bcSync sys.getUnits sys.disks writes
      some { sys with cache := cache, disks := disks, error := sys.error || rc ≠ 0 }

/-- The state behind `bc_init`. -/
def start (linear : Nat) (memory : BlkPtr → Data) (disks : Disks Data)
    (getUnits : BlkDev → Nat) : CacheSystem Data :=
  ⟨.bcInit linear memory, disks, getUnits, fun _ => none, [], false⟩

/-- The condition under which nothing is lost: the devices do what they are asked to
write, no caller asks for the block number that marks an empty block, and a caller
modifies a block only while it is used for what the caller got it for. -/
def Guarded : CacheAction Data → Prop
  | .bcGet _ tag _ write _ => write = .done ∧ tag.2 ≠ INVALID_BLOCK
  | .modify b tag _ => sys.tag b = tag
  | .bcPut _ _ => True
  | .bcSync writes => ∀ b, writes b = .done

instance [DecidableEq Data] (action : CacheAction Data) : Decidable (sys.Guarded action) := by
  unfold Guarded
  split <;> infer_instance

/-- Every modification is on its device, or in a dirty block from which `bc_sync`
writes it. -/
def Kept : Prop :=
  ∀ tag data, sys.last tag = some data → sys.onDisk tag = some data ∨
    ∃ b ∈ sys.cache.ring, sys.tag b = tag ∧ (sys.cache.blocks b).dirty = true ∧
      (sys.cache.blocks b).data = data

/-- Every modification is on its device. -/
def Written : Prop := ∀ tag data, sys.last tag = some data → sys.onDisk tag = some data

/-! ## The invariant -/

structure Inv (sys : CacheSystem Data) : Prop where
  held : ∀ b tag, (b, tag) ∈ sys.held → b ∈ sys.cache.ring ∧ tag.2 ≠ INVALID_BLOCK
  unique : ∀ b ∈ sys.cache.ring, ∀ c ∈ sys.cache.ring, (sys.tag b).2 ≠ INVALID_BLOCK →
    sys.tag b = sys.tag c → b = c
  exists_device : ∀ b ∈ sys.cache.ring, (sys.tag b).2 ≠ INVALID_BLOCK →
    ∃ d, getDevice sys.getUnits (sys.tag b).1 = some d
  used : ∀ b ∈ sys.cache.ring, (sys.cache.blocks b).dirty = true → (sys.tag b).2 ≠ INVALID_BLOCK
  dirty : ∀ b ∈ sys.cache.ring, (sys.cache.blocks b).dirty = true →
    sys.last (sys.tag b) = some (sys.cache.blocks b).data
  saved : ∀ tag data, sys.last tag = some data →
    (∀ b ∈ sys.cache.ring, (sys.cache.blocks b).dirty = true → sys.tag b ≠ tag) →
      sys.onDisk tag = some data

variable {sys} {sys' : CacheSystem Data} {b c : BlkPtr}

/-- Every modification is accounted for. -/
theorem Inv.kept (inv : sys.Inv) : sys.Kept := by
  intro tag data isLast
  by_cases dirty : ∃ b ∈ sys.cache.ring, (sys.cache.blocks b).dirty = true ∧ sys.tag b = tag
  · obtain ⟨b, member, isDirty, rfl⟩ := dirty
    right
    refine ⟨b, member, rfl, isDirty, ?_⟩
    exact Option.some.inj ((inv.dirty b member isDirty).symm.trans isLast)
  · left
    apply inv.saved tag data isLast
    exact fun b member isDirty same => dirty ⟨b, member, isDirty, same⟩

theorem mem_bcInitBlock (linear : Nat) (cache : BlkCache Data) (b c : BlkPtr) :
    c ∈ (BlkCache.bcInitBlock linear cache b).ring → c = b ∨ c ∈ cache.ring := by
  simp only [BlkCache.bcInitBlock]
  split
  · exact .inr
  · cases cache.ring with
    | nil => simp
    | cons first rest =>
        simp only [List.mem_cons]
        tauto

/-- After `bc_init` the blocks on the list are empty. -/
theorem bcInit_blocks (linear : Nat) (memory : BlkPtr → Data) (b : BlkPtr)
    (member : b ∈ (BlkCache.bcInit linear memory).ring) :
    ((BlkCache.bcInit linear memory).blocks b).blkno = INVALID_BLOCK ∧
      ((BlkCache.bcInit linear memory).blocks b).dirty = false := by
  have every : ∀ (blocks : List BlkPtr) (cache : BlkCache Data),
      (∀ b ∈ cache.ring, (cache.blocks b).blkno = INVALID_BLOCK) →
      (∀ b, (cache.blocks b).dirty = false) →
      (∀ b ∈ (blocks.foldl (BlkCache.bcInitBlock linear) cache).ring,
        ((blocks.foldl (BlkCache.bcInitBlock linear) cache).blocks b).blkno = INVALID_BLOCK) ∧
        ∀ b, ((blocks.foldl (BlkCache.bcInitBlock linear) cache).blocks b).dirty = false := by
    intro blocks
    induction blocks with
    | nil => exact fun cache invalid clean => ⟨invalid, clean⟩
    | cons block blocks ih =>
        intro cache invalid clean
        apply ih
        · intro b inRing
          have before := mem_bcInitBlock linear cache block b inRing
          simp only [BlkCache.bcInitBlock]
          split
          · rename_i crosses
            simp only [BlkCache.bcInitBlock] at inRing
            rw [if_pos crosses] at inRing
            exact invalid b inRing
          · by_cases same : b = block
            · simp [BlkCache.modify_blocks, same]
            · simpa [BlkCache.modify_blocks, same] using invalid b (before.resolve_left same)
        · intro b
          simp only [BlkCache.bcInitBlock]
          split
          · exact clean b
          · simp only [BlkCache.modify_blocks]
            split <;> exact clean b
  obtain ⟨invalid, clean⟩ := every (List.finRange (MAX_BLOCK + 1))
    { blocks := fun b => ⟨false, false, 0, 0, 0, memory b⟩, ring := [] } (by simp) (by simp)
  exact ⟨invalid b member, clean b⟩

theorem start_inv (linear : Nat) (memory : BlkPtr → Data) (disks : Disks Data)
    (getUnits : BlkDev → Nat) : (start linear memory disks getUnits).Inv := by
  have blocks := bcInit_blocks linear memory
  refine ⟨?_, ?_, ?_, ?_, ?_, ?_⟩
  · simp [start]
  · exact fun b member c _ valid => absurd (blocks b member).1 valid
  · exact fun b member valid => absurd (blocks b member).1 valid
  · exact fun b member dirty => by simp [start, (blocks b member).2] at dirty
  · exact fun b member dirty => by simp [start, (blocks b member).2] at dirty
  · simp [start]

/-! ## The steps -/

/-- Changes that leave alone what blocks are used for, what they hold and whether they
are dirty. -/
theorem Inv.congr (inv : sys.Inv) {cache : BlkCache Data}
    (ring : ∀ c, c ∈ cache.ring ↔ c ∈ sys.cache.ring)
    (unit : ∀ c, (cache.blocks c).unit = (sys.cache.blocks c).unit)
    (blkno : ∀ c, (cache.blocks c).blkno = (sys.cache.blocks c).blkno)
    (dirty : ∀ c, (cache.blocks c).dirty = (sys.cache.blocks c).dirty)
    (data : ∀ c, (cache.blocks c).data = (sys.cache.blocks c).data) :
    { sys with cache := cache }.Inv := by
  have tag : ∀ c, { sys with cache := cache }.tag c = sys.tag c := fun c => by
    rw [CacheSystem.tag, CacheSystem.tag, unit, blkno]
  constructor
  · exact fun b tag member => (inv.held b tag member).imp_left (ring b).mpr
  · simpa only [ring, tag] using inv.unique
  · simpa only [ring, tag] using inv.exists_device
  · simpa only [ring, tag, dirty] using inv.used
  · simpa only [ring, tag, dirty, data] using inv.dirty
  · intro other data isLast away
    apply inv.saved other data isLast
    simpa only [ring, tag, dirty] using away

/-- A clean block is used for something else, or for nothing. -/
theorem Inv.retag (inv : sys.Inv) (member : b ∈ sys.cache.ring)
    (clean : (sys.cache.blocks b).dirty = false) (block : Block Data) (stays : block.dirty = false)
    (fresh : block.blkno ≠ INVALID_BLOCK → (∃ d, getDevice sys.getUnits block.unit = some d) ∧
      ∀ c ∈ sys.cache.ring, sys.tag c ≠ (block.unit, block.blkno)) :
    { sys with cache := sys.cache.modify b fun _ => block }.Inv := by
  have tag : ∀ c, { sys with cache := sys.cache.modify b fun _ => block }.tag c =
      if c = b then (block.unit, block.blkno) else sys.tag c := by
    intro c
    simp only [CacheSystem.tag, BlkCache.modify_blocks]
    split <;> rfl
  have notDirty : ∀ {c}, ((sys.cache.modify b fun _ => block).blocks c).dirty = true →
      c ≠ b ∧ (sys.cache.blocks c).dirty = true := by
    intro c isDirty
    rw [BlkCache.modify_blocks] at isDirty
    split at isDirty
    · simp [stays] at isDirty
    · exact ⟨‹_›, isDirty⟩
  constructor
  · exact inv.held
  · intro c inRing c' inRing' valid same
    simp only [tag] at valid same
    by_cases first : c = b <;> by_cases second : c' = b
    · rw [first, second]
    · rw [if_pos first] at valid same
      rw [if_neg second] at same
      exact absurd same.symm ((fresh valid).2 c' inRing')
    · rw [if_neg first] at valid same
      rw [if_pos second] at same
      exact absurd same ((fresh (by rwa [same] at valid)).2 c inRing)
    · rw [if_neg first] at valid same
      rw [if_neg second] at same
      exact inv.unique c inRing c' inRing' valid same
  · intro c inRing valid
    simp only [tag] at valid ⊢
    by_cases same : c = b
    · rw [if_pos same] at valid ⊢
      exact (fresh valid).1
    · rw [if_neg same] at valid ⊢
      exact inv.exists_device c inRing valid
  · intro c inRing isDirty
    obtain ⟨ne, isDirty⟩ := notDirty isDirty
    simp only [tag, if_neg ne]
    exact inv.used c inRing isDirty
  · intro c inRing isDirty
    obtain ⟨ne, isDirty⟩ := notDirty isDirty
    simp only [tag, BlkCache.modify_blocks, if_neg ne]
    exact inv.dirty c inRing isDirty
  · intro other data isLast away
    apply inv.saved other data isLast
    intro c inRing isDirty
    have ne : c ≠ b := by
      rintro rfl
      simp [clean] at isDirty
    have notOther := away c inRing (by rwa [BlkCache.modify_blocks, if_neg ne])
    rwa [tag, if_neg ne] at notOther

/-- What a write of the block of a tag does to the devices. -/
theorem onDisk_write {d : Device} {tag : Tag} (device : getDevice sys.getUnits tag.1 = some d)
    (data : Data) (other : Tag) :
    { sys with disks := update sys.disks d (update (sys.disks d) tag.2 data) }.onDisk other =
      if other = tag then some data else sys.onDisk other := by
  by_cases same : other = tag
  · subst same
    simp [onDisk, device]
  · rw [if_neg same, onDisk, onDisk]
    cases found : getDevice sys.getUnits other.1 with
    | none => rfl
    | some d' =>
        simp only [Option.map_some]
        by_cases sameDevice : d' = d
        · subst sameDevice
          have unit := BlkCache.getDevice_inj found device
          have blkno : other.2 ≠ tag.2 := fun equal => same (Prod.ext unit equal)
          simp [blkno]
        · simp [sameDevice]

/-- A block is clean once what it holds has been written. -/
theorem Inv.write (inv : sys.Inv) {d : Device}
    (device : getDevice sys.getUnits (sys.tag b).1 = some d)
    (isLast : sys.last (sys.tag b) = some (sys.cache.blocks b).data) :
    { sys with
      cache := sys.cache.modify b fun block => { block with dirty := false }
      disks := update sys.disks d
        (update (sys.disks d) (sys.tag b).2 (sys.cache.blocks b).data) }.Inv := by
  have blocks : ∀ c, (sys.cache.modify b fun block => { block with dirty := false }).blocks c =
      { sys.cache.blocks c with dirty := if c = b then false else (sys.cache.blocks c).dirty } := by
    intro c
    rw [BlkCache.modify_blocks]
    split <;> rfl
  have tag : ∀ c, { sys with
      cache := sys.cache.modify b fun block => { block with dirty := false }
      disks := update sys.disks d
        (update (sys.disks d) (sys.tag b).2 (sys.cache.blocks b).data) }.tag c = sys.tag c := by
    intro c
    simp only [CacheSystem.tag, blocks]
  have notDirty : ∀ c,
      ((sys.cache.modify b fun block => { block with dirty := false }).blocks c).dirty = true →
        c ≠ b ∧ (sys.cache.blocks c).dirty = true := by
    intro c isDirty
    rw [blocks] at isDirty
    by_cases here : c = b
    · simp [here] at isDirty
    · exact ⟨here, by simpa [here] using isDirty⟩
  constructor
  · exact inv.held
  · simpa only [tag, BlkCache.modify_ring] using inv.unique
  · simpa only [tag, BlkCache.modify_ring] using inv.exists_device
  · intro c inRing isDirty
    rw [tag]
    exact inv.used c inRing (notDirty c isDirty).2
  · intro c inRing isDirty
    rw [tag, blocks]
    exact inv.dirty c inRing (notDirty c isDirty).2
  · intro other data isOther away
    refine (onDisk_write device _ other).trans ?_
    by_cases here : other = sys.tag b
    · rw [if_pos here, ← isLast, ← here, isOther]
    · rw [if_neg here]
      apply inv.saved other data isOther
      intro c inRing isDirty same
      by_cases isBlock : c = b
      · exact here (isBlock ▸ same.symm)
      · refine away c inRing ?_ ((tag c).trans same)
        simpa [blocks, isBlock] using isDirty

/-- A block is written back. -/
theorem Inv.flush (inv : sys.Inv) (member : b ∈ sys.cache.ring) :
    ∃ cache disks, sys.cache.flushBlock sys.getUnits sys.disks b .done = (0, cache, disks) ∧
      { sys with cache := cache, disks := disks }.Inv ∧ cache.ring = sys.cache.ring ∧
      ∀ c, cache.blocks c = { sys.cache.blocks c with
        dirty := if c = b then false else (sys.cache.blocks c).dirty } := by
  cases isDirty : (sys.cache.blocks b).dirty with
  | false =>
      refine ⟨sys.cache, sys.disks, ?_, inv, rfl, fun c => ?_⟩
      · simp [BlkCache.flushBlock, isDirty]
      · split
        · rename_i same
          rw [same, ← isDirty]
        · rfl
  | true =>
      obtain ⟨d, device⟩ := inv.exists_device b member (inv.used b member isDirty)
      have isLast := inv.dirty b member isDirty
      refine ⟨sys.cache.modify b fun block => { block with dirty := false },
        update sys.disks d (update (sys.disks d) (sys.tag b).2 (sys.cache.blocks b).data), ?_, ?_, rfl,
        fun c => ?_⟩
      · have device : getDevice sys.getUnits (sys.cache.blocks b).unit = some d := device
        simp only [BlkCache.flushBlock, isDirty, device, Transfer.run, Bool.not_true, Bool.false_eq_true,
          if_false]
        rfl
      · exact inv.write device isLast
      · rw [BlkCache.modify_blocks]
        split <;> rfl

/-- The blocks of a list are written back one after the other. -/
theorem Inv.flushAll (inv : sys.Inv) {writes : BlkPtr → Transfer Data}
    (done : ∀ b, writes b = .done) (blocks : List BlkPtr) (inRing : ∀ b ∈ blocks, b ∈ sys.cache.ring) :
    ∃ cache disks, blocks.foldl (fun (cache, disks) b =>
        (cache.flushBlock sys.getUnits disks b (writes b)).2) (sys.cache, sys.disks) = (cache, disks) ∧
      { sys with cache := cache, disks := disks }.Inv ∧ cache.ring = sys.cache.ring ∧
      ∀ b, (cache.blocks b).dirty = true → b ∉ blocks ∧ (sys.cache.blocks b).dirty = true := by
  induction blocks generalizing sys with
  | nil => exact ⟨sys.cache, sys.disks, rfl, inv, rfl, fun b isDirty => ⟨by simp, isDirty⟩⟩
  | cons block blocks ih =>
      obtain ⟨cache, disks, ran, inv', ring, changed⟩ := inv.flush (inRing block List.mem_cons_self)
      obtain ⟨cache', disks', ran', inv'', ring', clean⟩ := ih inv' fun b member => by
        rw [ring]
        exact inRing b (List.mem_cons_of_mem block member)
      refine ⟨cache', disks', ?_, inv'', ring'.trans ring, fun b isDirty => ?_⟩
      · rw [List.foldl_cons, done block]
        dsimp only
        rw [ran]
        exact ran'
      · obtain ⟨away, before⟩ := clean b isDirty
        rw [changed] at before
        by_cases same : b = block
        · simp [same] at before
        · exact ⟨by simp [same, away], by simpa [same] using before⟩

/-- `bc_sync`, when no write fails. -/
theorem Inv.bcSync_step (inv : sys.Inv) {writes : BlkPtr → Transfer Data}
    (guarded : sys.Guarded (.bcSync writes)) (taken : sys.step (.bcSync writes) = some sys') :
    sys'.Inv ∧ sys'.Written := by
  obtain ⟨cache, disks, ran, inv', ring, clean⟩ := inv.flushAll guarded sys.cache.ring fun _ => id
  simp only [step, BlkCache.bcSync, ran, Option.some.injEq] at taken
  subst taken
  have inv'' : { sys with cache := cache, disks := disks, error := sys.error || false }.Inv :=
    ⟨inv'.held, inv'.unique, inv'.exists_device, inv'.used, inv'.dirty, inv'.saved⟩
  refine ⟨by simpa using inv'', fun tag data isLast => ?_⟩
  apply inv'.saved tag data isLast
  intro b member isDirty
  rw [ring] at member
  exact absurd member (clean b isDirty).1

/-- A modification by a caller that holds the block. -/
theorem Inv.modify_step (inv : sys.Inv) {tag : Tag} {data : Data}
    (guarded : sys.Guarded (.modify b tag data))
    (taken : sys.step (.modify b tag data) = some sys') : sys'.Inv := by
  have isTag : sys.tag b = tag := guarded
  subst isTag
  simp only [step, Option.ite_none_right_eq_some, Option.some.injEq] at taken
  obtain ⟨isHeld, rfl⟩ := taken
  obtain ⟨member, valid⟩ := inv.held b _ isHeld
  have blocks : ∀ c, (sys.cache.modify b fun block => { block with data := data, dirty := true }).blocks
      c = { sys.cache.blocks c with
        data := if c = b then data else (sys.cache.blocks c).data
        dirty := if c = b then true else (sys.cache.blocks c).dirty } := by
    intro c
    rw [BlkCache.modify_blocks]
    split <;> rfl
  have tag : ∀ c, { sys with
      cache := sys.cache.modify b fun block => { block with data := data, dirty := true }
      last := update sys.last (sys.tag b) (some data) }.tag c = sys.tag c := by
    intro c
    simp only [CacheSystem.tag, blocks]
  have apart : ∀ c ∈ sys.cache.ring, c ≠ b → sys.tag c ≠ sys.tag b := fun c inRing ne same =>
    ne (inv.unique b member c inRing valid same.symm).symm
  constructor
  · exact inv.held
  · simpa only [tag, BlkCache.modify_ring] using inv.unique
  · simpa only [tag, BlkCache.modify_ring] using inv.exists_device
  · intro c inRing isDirty
    rw [tag]
    by_cases here : c = b
    · rwa [here]
    · rw [blocks] at isDirty
      exact inv.used c inRing (by simpa [here] using isDirty)
  · intro c inRing isDirty
    rw [tag, blocks]
    by_cases here : c = b
    · simp [here]
    · rw [blocks] at isDirty
      simpa [here, apart c inRing here] using inv.dirty c inRing (by simpa [here] using isDirty)
  · intro other value isLast away
    have notHere : other ≠ sys.tag b := by
      rintro rfl
      refine away b member ?_ (tag b)
      simp [blocks]
    dsimp only at isLast
    rw [Function.update_of_ne notHere] at isLast
    apply inv.saved other value isLast
    intro c inRing isDirty same
    refine away c inRing ?_ ((tag c).trans same)
    have ne : c ≠ b := by
      rintro rfl
      exact notHere same.symm
    simpa [blocks, ne] using isDirty

/-- What callers hold and have been told plays no part but for the blocks they hold. -/
theorem Inv.rehold (inv : sys.Inv) {held : List (BlkPtr × Tag)} {error : Bool}
    (inRing : ∀ b tag, (b, tag) ∈ held → b ∈ sys.cache.ring ∧ tag.2 ≠ INVALID_BLOCK) :
    { sys with held := held, error := error }.Inv :=
  ⟨inRing, inv.unique, inv.exists_device, inv.used, inv.dirty, inv.saved⟩

/-- A block is marked as used or unused. -/
theorem Inv.setInuse (inv : sys.Inv) (b : BlkPtr) (inuse : Bool) :
    { sys with cache := sys.cache.modify b fun block => { block with inuse := inuse } }.Inv := by
  have blocks : ∀ c, (sys.cache.modify b fun block => { block with inuse := inuse }).blocks c =
      { sys.cache.blocks c with inuse := if c = b then inuse else (sys.cache.blocks c).inuse } := by
    intro c
    rw [BlkCache.modify_blocks]
    split <;> rfl
  exact inv.congr (fun c => by rw [BlkCache.modify_ring]) (fun c => by rw [blocks])
    (fun c => by rw [blocks]) (fun c => by rw [blocks]) fun c => by rw [blocks]

theorem Inv.bcPut_step (inv : sys.Inv) {tag : Tag} (taken : sys.step (.bcPut b tag) = some sys') :
    sys'.Inv := by
  simp only [step, Option.ite_none_right_eq_some, Option.some.injEq] at taken
  obtain ⟨-, rfl⟩ := taken
  have fewer : ∀ c other, (c, other) ∈ sys.held.erase (b, tag) →
      c ∈ sys.cache.ring ∧ other.2 ≠ INVALID_BLOCK :=
    fun c other member => inv.held c other (List.mem_of_mem_erase member)
  by_cases refused : b ∉ sys.cache.ring ∨ (sys.cache.blocks b).inuse = false
  · simp only [BlkCache.bcPut, if_pos refused]
    exact inv.rehold fewer
  · simp only [BlkCache.bcPut, if_neg refused]
    exact (inv.setInuse b false).rehold fewer

/-- A block that is written back, gets a new tag and is read into. -/
theorem Inv.reuse (inv : sys.Inv) (member : b ∈ sys.cache.ring) {tag : Tag}
    (absent : ∀ c ∈ sys.cache.ring, sys.tag c ≠ tag) {d : Device}
    (device : getDevice sys.getUnits tag.1 = some d) :
    ∃ cache disks, sys.cache.flushBlock sys.getUnits sys.disks b .done = (0, cache, disks) ∧
      (∀ c, c ∈ (cache.startAfter b).ring ↔ c ∈ sys.cache.ring) ∧
      ∀ (dev : Int) (data : Data) (inuse failed : Bool), { sys with
        cache := (cache.startAfter b).modify b fun block =>
          { inuse := inuse, dirty := block.dirty, dev := dev, unit := tag.1
            blkno := if failed then INVALID_BLOCK else tag.2, data := data }
        disks := disks }.Inv := by
  obtain ⟨cache, disks, ran, inv', ring, changed⟩ := inv.flush member
  refine ⟨cache, disks, ran, fun c => ?_, fun dev data inuse failed => ?_⟩
  · rw [← ring]
    exact BlkCache.mem_startAfter (ring ▸ member)
  have inRing : b ∈ cache.ring := ring ▸ member
  have started := inv'.congr (fun c => BlkCache.mem_startAfter inRing) (fun _ => rfl) (fun _ => rfl)
    (fun _ => rfl) fun _ => rfl
  have clean : (cache.blocks b).dirty = false := by
    rw [changed]
    simp
  refine started.retag ((BlkCache.mem_startAfter inRing).mpr inRing) clean _ clean fun valid => ?_
  have stays : failed = false := by
    cases failed with
    | false => rfl
    | true => exact absurd rfl valid
  subst stays
  refine ⟨⟨d, device⟩, fun c isBlock same => ?_⟩
  have before := (BlkCache.mem_startAfter inRing).mp isBlock
  rw [ring] at before
  apply absent c before
  refine Eq.trans ?_ same
  simp only [CacheSystem.tag, BlkCache.startAfter, changed]

/-- `bc_get`, when the write-back does not fail. -/
theorem Inv.bcGet_spec (inv : sys.Inv) (dev : Int) (tag : Tag) (overw : Bool)
    (read : Transfer Data) :
    ∃ rc block cache disks,
      sys.cache.bcGet sys.getUnits sys.disks dev tag.1 tag.2 overw .done read =
        (rc, block, cache, disks) ∧
      { sys with cache := cache, disks := disks }.Inv ∧
      (rc = 0 → ∀ b, block = some b → b ∈ cache.ring) ∧
      ∀ b, b ∈ cache.ring ↔ b ∈ sys.cache.ring := by
  simp only [BlkCache.bcGet]
  cases device : getDevice sys.getUnits tag.1 with
  | none => exact ⟨_, _, _, _, rfl, inv, by simp, fun _ => Iff.rfl⟩
  | some d =>
      dsimp only
      cases hit : sys.cache.ring.find? fun b =>
          (sys.cache.blocks b).unit = tag.1 ∧ (sys.cache.blocks b).blkno = tag.2 with
      | some b =>
          refine ⟨_, _, _, _, rfl, inv.setInuse b true, fun _ c isBlock => ?_, fun _ => Iff.rfl⟩
          obtain rfl := Option.some.inj isBlock
          exact List.mem_of_find?_eq_some hit
      | none =>
          have absent : ∀ c ∈ sys.cache.ring, sys.tag c ≠ tag := by
            intro c member same
            have notFound := List.find?_eq_none.mp hit c member
            rw [← same] at notFound
            simp [CacheSystem.tag] at notFound
          cases unused : sys.cache.ring.find? fun b => !(sys.cache.blocks b).inuse with
          | none => exact ⟨_, _, _, _, rfl, inv, by simp [ENOMEM], fun _ => Iff.rfl⟩
          | some b =>
              have member := List.mem_of_find?_eq_some unused
              obtain ⟨cache, disks, ran, ring, reused⟩ := inv.reuse member absent device
              have inRing : ∀ c, some b = some c → c ∈ (cache.startAfter b).ring := by
                intro c isBlock
                rw [ring, ← Option.some.inj isBlock]
                exact member
              simp only [ran, BlkCache.modify_modify]
              cases overw with
              | true =>
                  refine ⟨_, _, _, _, rfl, ?_, fun _ => inRing, ring⟩
                  exact reused dev (((cache.startAfter b).modify b _).blocks b).data true false
              | false =>
                  cases read with
                  | done =>
                      refine ⟨_, _, _, _, rfl, ?_, fun _ => inRing, ring⟩
                      exact reused dev (disks d tag.2) true false
                  | failed code left =>
                      refine ⟨_, _, _, _, rfl, ?_, fun _ => inRing, ring⟩
                      exact reused dev left ((cache.startAfter b).blocks b).inuse true

theorem Inv.bcGet_step (inv : sys.Inv) {dev : Int} {tag : Tag} {overw : Bool}
    {write read : Transfer Data} (guarded : sys.Guarded (.bcGet dev tag overw write read))
    (taken : sys.step (.bcGet dev tag overw write read) = some sys') : sys'.Inv := by
  obtain ⟨rfl, valid⟩ := guarded
  obtain ⟨rc, block, cache, disks, ran, inv', got, ring⟩ := inv.bcGet_spec dev tag overw read
  simp only [step, ran, Option.some.injEq] at taken
  subst taken
  apply inv'.rehold
  intro b other member
  dsimp only at member ⊢
  by_cases done : rc = 0
  · rw [if_pos done, List.mem_append] at member
    rcases member with isNew | isOld
    · cases block with
      | none => simp at isNew
      | some c =>
          obtain ⟨rfl, rfl⟩ : b = c ∧ other = tag := by simpa using isNew
          exact ⟨got done b rfl, valid⟩
    · rw [ring]
      exact inv.held b other isOld
  · rw [if_neg done] at member
    rw [ring]
    exact inv.held b other member

theorem Inv.step {action : CacheAction Data} (inv : sys.Inv) (guarded : sys.Guarded action)
    (taken : sys.step action = some sys') : sys'.Inv := by
  cases action with
  | bcGet dev tag overw write read => exact inv.bcGet_step guarded taken
  | modify b tag data => exact inv.modify_step guarded taken
  | bcPut b tag => exact inv.bcPut_step taken
  | bcSync writes => exact (inv.bcSync_step guarded taken).1

/-! ## Every run -/

/-- In every run whose steps meet the condition, every modification is on its device or
in a dirty block, and all of them are on their devices after `bc_sync`. -/
theorem bc_sync_writes_back {linear : Nat} {memory : BlkPtr → Data} {disks : Disks Data}
    {getUnits : BlkDev → Nat} {sys : CacheSystem Data}
    (reached : Reached (· = start linear memory disks getUnits) (fun s a s' => s.step a = some s')
      Guarded sys) :
    sys.Kept ∧ ∀ writes sys', sys.Guarded (.bcSync writes) →
      sys.step (.bcSync writes) = some sys' → sys'.Written := by
  have inv : sys.Inv := reached.invariant Inv
    (by rintro _ rfl; exact start_inv linear memory disks getUnits)
    fun inv guarded taken => inv.step guarded taken
  exact ⟨inv.kept, fun writes sys' guarded taken => (inv.bcSync_step guarded taken).2⟩

/-- One floppy drive and nothing else. -/
def oneFloppy : BlkDev → Nat
  | .fdd => 1
  | _ => 0

/-- The calls by which a block is got, modified and put back. -/
def rewrite (data : Nat) : List (CacheAction Nat) :=
  [.bcGet 0 (0, 5) false .done .done, .modify 0 (0, 5) data, .bcPut 0 (0, 5)]

theorem bc_sync_writes_back_block :
    ∃ sys, runs step (start 0x20000 (fun _ => 0) (fun _ _ => 1) oneFloppy) (rewrite 7) = some sys ∧
      sys.last (0, 5) = some 7 ∧ sys.Kept ∧ ∀ writes sys', sys.Guarded (.bcSync writes) →
        sys.step (.bcSync writes) = some sys' → sys'.Written := by
  have ran : (runs step (start 0x20000 (fun _ => 0) (fun _ _ => 1) oneFloppy) (rewrite 7)).map
      (·.last (0, 5)) = some (some 7) := by
    decide +kernel
  have guarded : Along step Guarded (start 0x20000 (fun _ => 0) (fun _ _ => 1) oneFloppy)
      (rewrite 7) := by
    decide +kernel
  obtain ⟨sys, ran, last⟩ := Option.map_eq_some_iff.mp ran
  exact ⟨sys, ran, last, bc_sync_writes_back (reached_of_runs rfl guarded ran)⟩

/-- A write that fails in `bc_sync` is not reported, and the block is not dirty any
more: the modification is lost. -/
theorem bc_sync_loses_failed_write :
    ∃ sys, Reachable (· = start 0x20000 (fun _ => 0) (fun _ _ => 1) oneFloppy)
        (fun s a s' => s.step a = some s') sys ∧
      sys.error = false ∧ ¬sys.Written ∧ ¬sys.Kept := by
  have ran : (runs step (start 0x20000 (fun _ => 0) (fun _ _ => 1) oneFloppy)
      (rewrite 7 ++ [.bcSync fun _ => .failed 0 1])).map (fun sys =>
        (sys.error, sys.last (0, 5), sys.onDisk (0, 5),
          sys.cache.ring.any fun b => (sys.cache.blocks b).dirty)) =
        some (false, some 7, some 1, false) := by
    decide +kernel
  obtain ⟨sys, ran, same⟩ := Option.map_eq_some_iff.mp ran
  obtain ⟨error, last, disk, clean⟩ := by simpa only [Prod.mk.injEq] using same
  have lost : ¬sys.Written := fun written => by
    have stored := written (0, 5) 7 last
    rw [disk] at stored
    simp at stored
  refine ⟨sys, reachable_of_runs rfl ran, error, lost, fun kept => ?_⟩
  rcases kept (0, 5) 7 last with stored | ⟨b, member, -, dirty, -⟩
  · rw [disk] at stored
    simp at stored
  · rw [List.any_eq_false] at clean
    exact clean b member dirty

end CacheSystem

end Pegasos.Hosted
