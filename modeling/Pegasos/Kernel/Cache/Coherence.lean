import Pegasos.Kernel.Cache.BlkCache
import Pegasos.Support.Transition

/-!
# Coherence of the block cache

The cache with the devices behind it and the history that coherence is about:
what every block of a device should hold by the modifications made so far, which
buffers were filled by a read that succeeded, and for which modifications
`bc_put` has returned an error.
-/

namespace Pegasos.Kernel.Cache

open Pegasos.Support
open Function (update)

universe u

variable {Data : Type u}

/-- The cache and the devices.  `logical`, `filled` and `reported` record the
history: the last modification of every block or else the contents of the device,
whether the last transfer into a buffer succeeded, and whether `bc_put` has
returned a negative result since the last modification. -/
structure CacheSystem (Data : Type u) where
  cache : BlkCache Data
  device : Tag → Data
  logical : Tag → Data
  filled : BlkPtr → Bool
  reported : Tag → Bool

/-- The calls of the holders of blocks.  `modify` changes the contents of a block
in use and sets its dirty flag. -/
inductive CacheAction (Data : Type u) where
  | bcGet (tag : Tag) (access : Access Data)
  | modify (block : BlkPtr) (data : Data)
  | bcPut (block : BlkPtr) (access : Access Unit)

namespace CacheSystem

variable (sys : CacheSystem Data)

/-- The block with the tag is in the cache. -/
def IsCached (tag : Tag) : Prop := ∃ b, (sys.cache.blocks b).tag = tag

instance (tag : Tag) : Decidable (sys.IsCached tag) :=
  inferInstanceAs (Decidable (∃ b, (sys.cache.blocks b).tag = tag))

/-- One call.  Devices have indices from 0 on. -/
def step : CacheAction Data → Option (CacheSystem Data)
  | .bcGet tag access =>
      if tag.dev < 0 then none
      else
        (sys.cache.bcGet tag (sys.device tag) access).value?.map fun (rc, b, cache) =>
          { sys with
            cache := cache
            filled := if sys.IsCached tag then sys.filled else update sys.filled b (rc = 0) }
  | .modify block data =>
      if (sys.cache.blocks block).inuse = 0 then none
      else some { sys with
        cache := sys.cache.modify block fun b => { b with data := data, dirty := true }
        logical := update sys.logical (sys.cache.blocks block).tag data
        reported := update sys.reported (sys.cache.blocks block).tag false }
  | .bcPut block access =>
      (sys.cache.bcPut block (sys.device (sys.cache.blocks block).tag) access).value?.map
        fun (rc, cache, sector) =>
          { sys with
            cache := cache
            device := update sys.device (sys.cache.blocks block).tag sector
            reported := update sys.reported (sys.cache.blocks block).tag
              (sys.reported (sys.cache.blocks block).tag || rc < 0) }

/-- The cache after `bc_init`, with any contents of the buffers and the devices. -/
def start (memory : BlkPtr → Data) (device : Tag → Data) : CacheSystem Data where
  cache := .bcInit memory
  device := device
  logical := device
  filled := fun _ => false
  reported := fun _ => false

/-! ## What the claim of coherence says -/

/-- Whenever `bc_get` returns 0 for a block of a device that meets `guard`, the data
are those of the last modification or of the device. -/
def Coherent (guard : CacheAction Data → Prop) : Prop :=
  ∀ tag access b cache', 0 ≤ tag.dev → guard (.bcGet tag access) →
    sys.cache.bcGet tag (sys.device tag) access = .ok (0, b, cache') →
    (cache'.blocks b).data = sys.logical tag

/-- Whenever `bc_get` returns 0, the block has been read from the device, now or
by the last transfer into its buffer. -/
def Genuine (guard : CacheAction Data → Prop) : Prop :=
  ∀ tag access b cache', 0 ≤ tag.dev → guard (.bcGet tag access) →
    sys.cache.bcGet tag (sys.device tag) access = .ok (0, b, cache') →
    sys.filled b = true ∨ (cache'.blocks b).data = sys.device tag

/-- Every modification is on the device or in the cache, or `bc_put` has returned
an error for it. -/
def Accounted : Prop :=
  ∀ tag, sys.device tag = sys.logical tag ∨
    (∃ b, sys.filled b = true ∧ (sys.cache.blocks b).tag = tag ∧
      (sys.cache.blocks b).data = sys.logical tag) ∨
    sys.reported tag = true

/-- `bc_get` does not find a block whose fill failed, nor one with 32767 references. -/
def FindsFilled : CacheAction Data → Prop
  | .bcGet tag _ => ∀ b, (sys.cache.blocks b).tag = tag →
      sys.filled b = true ∧ (sys.cache.blocks b).inuse < 0x7FFF
  | _ => True

/-- `bc_get` does not reuse the buffer of a block with contents that are not on
the device. -/
def ReusesSaved : CacheAction Data → Prop
  | .bcGet tag _ => ∀ b,
      sys.cache.bcSearch tag (MAX_BLOCK + 1) sys.cache.blocklist none = .ok (.inr (some b)) →
        sys.filled b = true →
          sys.device (sys.cache.blocks b).tag = (sys.cache.blocks b).data
  | _ => True

instance (action : CacheAction Data) : Decidable (sys.FindsFilled action) := by
  unfold FindsFilled
  split <;> infer_instance

instance [DecidableEq Data] (action : CacheAction Data) : Decidable (sys.ReusesSaved action) := by
  unfold ReusesSaved
  split <;> infer_instance

/-! ## The invariant -/

/-- The invariant of the cache while no failed block is found. -/
structure Inv (sys : CacheSystem Data) : Prop where
  circular : ∃ order, sys.cache.Circular order
  unique : ∀ b b', 0 ≤ (sys.cache.blocks b).tag.dev →
    (sys.cache.blocks b).tag = (sys.cache.blocks b').tag → b = b'
  exists_dev : ∀ b, sys.filled b = true → 0 ≤ (sys.cache.blocks b).tag.dev
  inuse : ∀ b, 0 ≤ (sys.cache.blocks b).inuse ∧ (sys.cache.blocks b).inuse ≤ 0x7FFF
  unfilled : ∀ b, sys.filled b = false → (sys.cache.blocks b).inuse = 0
  kept : ∀ b, sys.filled b = true →
    (sys.cache.blocks b).data = sys.logical (sys.cache.blocks b).tag ∨
      sys.reported (sys.cache.blocks b).tag = true
  saved : ∀ b, sys.filled b = true → (sys.cache.blocks b).inuse = 0 →
    sys.device (sys.cache.blocks b).tag = (sys.cache.blocks b).data ∨
      sys.reported (sys.cache.blocks b).tag = true
  written : ∀ b, sys.filled b = true → (sys.cache.blocks b).dirty = true ∨
    sys.device (sys.cache.blocks b).tag = (sys.cache.blocks b).data
  absent : ∀ tag, (∀ b, sys.filled b = true → (sys.cache.blocks b).tag ≠ tag) →
    sys.device tag = sys.logical tag ∨ sys.reported tag = true

/-- What holds in addition while no unsaved block is dropped. -/
structure Unlost (sys : CacheSystem Data) : Prop where
  kept : ∀ b, sys.filled b = true →
    (sys.cache.blocks b).data = sys.logical (sys.cache.blocks b).tag
  absent : ∀ tag, (∀ b, sys.filled b = true → (sys.cache.blocks b).tag ≠ tag) →
    sys.device tag = sys.logical tag

variable {sys} {sys' : CacheSystem Data}

/-- Every modification is accounted for. -/
theorem Inv.accounted (inv : sys.Inv) : sys.Accounted := by
  intro tag
  by_cases cached : ∃ b, sys.filled b = true ∧ (sys.cache.blocks b).tag = tag
  · obtain ⟨b, filled, rfl⟩ := cached
    rcases inv.kept b filled with same | reported
    · exact .inr (.inl ⟨b, filled, rfl, same⟩)
    · exact .inr (.inr reported)
  · rcases inv.absent tag fun b filled same => cached ⟨b, filled, same⟩ with same | reported
    · exact .inl same
    · exact .inr (.inr reported)

theorem start_inv (memory : BlkPtr → Data) (device : Tag → Data) : (start memory device).Inv := by
  have block := BlkCache.bcInit_block memory
  refine ⟨BlkCache.bcInit_circular memory, fun b b' dev _ => ?_, ?_, fun b => ?_, fun b _ => ?_, ?_,
    ?_, ?_, fun _ _ => .inl rfl⟩
  · simp [start, (block b).2.1] at dev
  · simp [start]
  · simp [start, (block b).1]
  · simp [start, (block b).1]
  · simp [start]
  · simp [start]
  · simp [start]

theorem start_unlost (memory : BlkPtr → Data) (device : Tag → Data) :
    (start memory device).Unlost :=
  ⟨by simp [start], fun _ _ => rfl⟩

/-! ## What the steps change -/

theorem int16_eq {value : Int} (low : -0x8000 ≤ value) (high : value < 0x8000) :
    int16 value = value := by
  rw [int16, Int.bmod_def]
  omega

variable {block : BlkPtr}

/-- A block of a device that is filled is the only one with its tag. -/
theorem Inv.tag_unique (inv : sys.Inv) (filled : sys.filled block = true) {b : BlkPtr}
    (same : (sys.cache.blocks b).tag = (sys.cache.blocks block).tag) : b = block :=
  (inv.unique block b (inv.exists_dev block filled) same.symm).symm

theorem Inv.filled_of_used (inv : sys.Inv) (used : (sys.cache.blocks block).inuse ≠ 0) :
    sys.filled block = true := by
  cases isFilled : sys.filled block with
  | true => rfl
  | false => exact absurd (inv.unfilled block isFilled) used

/-- Counting references, when the last one is put on a block that is saved. -/
theorem Inv.setInuse (inv : sys.Inv) (block : BlkPtr) (count : Int → Int)
    (bounds : 0 ≤ count (sys.cache.blocks block).inuse ∧
      count (sys.cache.blocks block).inuse ≤ 0x7FFF)
    (filled : sys.filled block = true)
    (saved : count (sys.cache.blocks block).inuse = 0 →
      sys.device (sys.cache.blocks block).tag = (sys.cache.blocks block).data ∨
        sys.reported (sys.cache.blocks block).tag = true) :
    { sys with
      cache := sys.cache.modify block fun b => { b with inuse := count b.inuse } }.Inv := by
  have same : ∀ b, ((sys.cache.modify block fun b => { b with inuse := count b.inuse }).blocks b) =
      { sys.cache.blocks b with
        inuse := if b = block then count (sys.cache.blocks b).inuse
          else (sys.cache.blocks b).inuse } := by
    intro b
    rw [BlkCache.modify_blocks]
    split
    · rename_i isBlock
      rw [isBlock]
    · rfl
  obtain ⟨order, circular⟩ := inv.circular
  constructor <;> simp only [same]
  · exact ⟨order, circular.congr (fun b => by rw [same]) (fun b => by rw [same]) rfl⟩
  · exact inv.unique
  · exact inv.exists_dev
  · intro b
    by_cases isBlock : b = block
    · subst isBlock
      simpa using bounds
    · simpa [isBlock] using inv.inuse b
  · intro b unfilled
    have ne : b ≠ block := by
      rintro rfl
      simp [filled] at unfilled
    simpa [ne] using inv.unfilled b unfilled
  · exact inv.kept
  · intro b isFilled unused
    by_cases isBlock : b = block
    · subst isBlock
      exact saved (by simpa using unused)
    · exact inv.saved b isFilled (by simpa [isBlock] using unused)
  · exact inv.written
  · exact inv.absent

/-- A filled block is written to its place on the device. -/
theorem Inv.write (inv : sys.Inv) (filled : sys.filled block = true) :
    { sys with
      device := update sys.device (sys.cache.blocks block).tag
        (sys.cache.blocks block).data }.Inv := by
  have agrees : ∀ b, sys.filled b = true →
      sys.device (sys.cache.blocks b).tag = (sys.cache.blocks b).data ∨ b = block →
      update sys.device (sys.cache.blocks block).tag (sys.cache.blocks block).data
        (sys.cache.blocks b).tag = (sys.cache.blocks b).data := by
    intro b isFilled saved
    by_cases isBlock : b = block
    · rw [isBlock, Function.update_self]
    · rw [Function.update_of_ne fun same => isBlock (inv.tag_unique filled same)]
      exact saved.resolve_right isBlock
  refine { inv with
    saved := fun b isFilled unused => ?_
    written := fun b isFilled => ?_
    absent := fun tag noBlock => ?_ }
  · exact (inv.saved b isFilled unused).imp_left fun saved => agrees b isFilled (.inl saved)
  · exact (inv.written b isFilled).imp_right fun saved => agrees b isFilled (.inl saved)
  · have ne : tag ≠ (sys.cache.blocks block).tag := (noBlock block filled).symm
    exact (inv.absent tag noBlock).imp_left (Function.update_of_ne ne _ _).trans

/-- An error has been returned for a block. -/
theorem Inv.report (inv : sys.Inv) (tag : Tag) :
    { sys with reported := update sys.reported tag true }.Inv := by
  have more : ∀ {other}, sys.reported other = true → update sys.reported tag true other = true := by
    intro other reported
    by_cases same : other = tag
    · rw [same, Function.update_self]
    · rwa [Function.update_of_ne same]
  refine { inv with
    kept := fun b filled => ?_
    saved := fun b filled unused => ?_
    absent := fun other noBlock => ?_ }
  · exact (inv.kept b filled).imp_right more
  · exact (inv.saved b filled unused).imp_right more
  · exact (inv.absent other noBlock).imp_right more

/-- A block that is not in the cache is read into a buffer that is not in use. -/
theorem Inv.refill (inv : sys.Inv) {tag : Tag} {data : Data} (dev : 0 ≤ tag.dev)
    (missing : ∀ b, (sys.cache.blocks b).tag ≠ tag) (unused : (sys.cache.blocks block).inuse = 0)
    (filled : Bool) (count : Int) (bounds : 0 ≤ count ∧ count ≤ 0x7FFF)
    (read : filled = true → data = sys.device tag) (unread : filled = false → count = 0) :
    { sys with
      cache := sys.cache.refill block tag data count
      filled := update sys.filled block filled }.Inv := by
  have self : (sys.cache.refill block tag data count).blocks block =
      { sys.cache.blocks block with tag := tag, data := data, inuse := count } :=
    Function.update_self _ _ _
  have others : ∀ {b}, b ≠ block →
      (sys.cache.refill block tag data count).blocks b = sys.cache.blocks b :=
    fun ne => Function.update_of_ne ne _ _
  obtain ⟨order, circular⟩ := inv.circular
  -- nothing is filled with the new tag before, and nothing with the old one after
  have onDevice := inv.absent tag fun b _ => missing b
  constructor
  · exact circular.refill block tag data count
  · intro b b' isDev same
    by_cases first : b = block <;> by_cases second : b' = block
    · rw [first, second]
    · simp only [first, self, others second] at same
      exact absurd same.symm (missing b')
    · simp only [second, self, others first] at same
      exact absurd same (missing b)
    · simp only [others first, others second] at same isDev
      exact inv.unique b b' isDev same
  · intro b isFilled
    by_cases isBlock : b = block
    · simpa only [isBlock, self] using dev
    · simp only [others isBlock, Function.update_of_ne isBlock] at isFilled ⊢
      exact inv.exists_dev b isFilled
  · intro b
    by_cases isBlock : b = block
    · simpa only [isBlock, self] using bounds
    · simpa only [others isBlock] using inv.inuse b
  · intro b isUnfilled
    by_cases isBlock : b = block
    · subst isBlock
      simp only [Function.update_self, self] at isUnfilled ⊢
      exact unread isUnfilled
    · simp only [others isBlock, Function.update_of_ne isBlock] at isUnfilled ⊢
      exact inv.unfilled b isUnfilled
  · intro b isFilled
    by_cases isBlock : b = block
    · subst isBlock
      simp only [Function.update_self, self] at isFilled ⊢
      rwa [read isFilled]
    · simp only [others isBlock, Function.update_of_ne isBlock] at isFilled ⊢
      exact inv.kept b isFilled
  · intro b isFilled notUsed
    by_cases isBlock : b = block
    · subst isBlock
      simp only [Function.update_self, self] at isFilled ⊢
      exact .inl (read isFilled).symm
    · simp only [others isBlock, Function.update_of_ne isBlock] at isFilled notUsed ⊢
      exact inv.saved b isFilled notUsed
  · intro b isFilled
    by_cases isBlock : b = block
    · subst isBlock
      simp only [Function.update_self, self] at isFilled ⊢
      exact .inr (read isFilled).symm
    · simp only [others isBlock, Function.update_of_ne isBlock] at isFilled ⊢
      exact inv.written b isFilled
  · intro other noBlock
    by_cases old : sys.filled block = true ∧ (sys.cache.blocks block).tag = other
    · obtain ⟨wasFilled, rfl⟩ := old
      rcases inv.saved block wasFilled unused with saved | reported
      · exact (inv.kept block wasFilled).imp_left saved.trans
      · exact .inr reported
    · refine inv.absent other fun b isFilled same => ?_
      by_cases isBlock : b = block
      · exact old ⟨isBlock ▸ isFilled, isBlock ▸ same⟩
      · have now := noBlock b
        simp only [others isBlock, Function.update_of_ne isBlock] at now
        exact now isFilled same

/-- A holder changes a block. -/
theorem Inv.modify (inv : sys.Inv) (used : (sys.cache.blocks block).inuse ≠ 0) (data : Data) :
    { sys with
      cache := sys.cache.modify block fun b => { b with data := data, dirty := true }
      logical := update sys.logical (sys.cache.blocks block).tag data
      reported := update sys.reported (sys.cache.blocks block).tag false }.Inv := by
  have filled := inv.filled_of_used used
  have same : ∀ b, (sys.cache.modify block fun b => { b with data := data, dirty := true }).blocks b =
      { sys.cache.blocks b with
        data := if b = block then data else (sys.cache.blocks b).data
        dirty := if b = block then true else (sys.cache.blocks b).dirty } := by
    intro b
    rw [BlkCache.modify_blocks]
    split
    · rename_i isBlock
      rw [isBlock]
    · rfl
  have otherTag : ∀ b, b ≠ block → (sys.cache.blocks b).tag ≠ (sys.cache.blocks block).tag :=
    fun b ne isTag => ne (inv.tag_unique filled isTag)
  obtain ⟨order, circular⟩ := inv.circular
  constructor <;> simp only [same]
  · exact ⟨order, circular.congr (fun b => by rw [same]) (fun b => by rw [same]) rfl⟩
  · exact inv.unique
  · exact inv.exists_dev
  · exact inv.inuse
  · exact inv.unfilled
  · intro b isFilled
    by_cases isBlock : b = block
    · simp [isBlock]
    · simpa [isBlock, otherTag b isBlock] using inv.kept b isFilled
  · intro b isFilled unused
    by_cases isBlock : b = block
    · exact absurd (isBlock ▸ unused) used
    · simpa [isBlock, otherTag b isBlock] using inv.saved b isFilled unused
  · intro b isFilled
    by_cases isBlock : b = block
    · simp [isBlock]
    · simpa [isBlock] using inv.written b isFilled
  · intro tag noBlock
    have ne : tag ≠ (sys.cache.blocks block).tag := (noBlock block filled).symm
    simpa [ne] using inv.absent tag noBlock

theorem Unlost.congr (unlost : sys.Unlost) {cache' : BlkCache Data}
    (same : ∀ b, (cache'.blocks b).tag = (sys.cache.blocks b).tag ∧
      (cache'.blocks b).data = (sys.cache.blocks b).data) :
    { sys with cache := cache' }.Unlost where
  kept b filled := by
    simp only [same]
    exact unlost.kept b filled
  absent tag noBlock := unlost.absent tag fun b filled => by
    rw [← (same b).1]
    exact noBlock b filled

/-- Reusing a buffer loses nothing when its contents are on the device. -/
theorem Unlost.refill (unlost : sys.Unlost) {tag : Tag} {data : Data}
    (missing : ∀ b, (sys.cache.blocks b).tag ≠ tag)
    (saved : sys.filled block = true →
      sys.device (sys.cache.blocks block).tag = (sys.cache.blocks block).data)
    (count : Int) (filled : Bool) (read : filled = true → data = sys.device tag) :
    { sys with
      cache := sys.cache.refill block tag data count
      filled := update sys.filled block filled }.Unlost := by
  have self : (sys.cache.refill block tag data count).blocks block =
      { sys.cache.blocks block with tag := tag, data := data, inuse := count } :=
    Function.update_self _ _ _
  have others : ∀ {b}, b ≠ block →
      (sys.cache.refill block tag data count).blocks b = sys.cache.blocks b :=
    fun ne => Function.update_of_ne ne _ _
  constructor
  · intro b isFilled
    by_cases isBlock : b = block
    · subst isBlock
      simp only [Function.update_self, self] at isFilled ⊢
      rw [read isFilled]
      exact unlost.absent tag fun b _ => missing b
    · simp only [others isBlock, Function.update_of_ne isBlock] at isFilled ⊢
      exact unlost.kept b isFilled
  · intro other noBlock
    by_cases old : sys.filled block = true ∧ (sys.cache.blocks block).tag = other
    · obtain ⟨wasFilled, rfl⟩ := old
      exact (saved wasFilled).trans (unlost.kept block wasFilled)
    · refine unlost.absent other fun b isFilled same => ?_
      by_cases isBlock : b = block
      · exact old ⟨isBlock ▸ isFilled, isBlock ▸ same⟩
      · have now := noBlock b
        simp only [others isBlock, Function.update_of_ne isBlock] at now
        exact now isFilled same

/-- A modification is what the block holds now. -/
theorem Unlost.modify (unlost : sys.Unlost) (inv : sys.Inv)
    (used : (sys.cache.blocks block).inuse ≠ 0) (data : Data) :
    { sys with
      cache := sys.cache.modify block fun b => { b with data := data, dirty := true }
      logical := update sys.logical (sys.cache.blocks block).tag data
      reported := update sys.reported (sys.cache.blocks block).tag false }.Unlost := by
  have filled := inv.filled_of_used used
  have sameTag : ∀ b, ((sys.cache.modify block fun b => { b with data := data, dirty := true }).blocks
      b).tag = (sys.cache.blocks b).tag := by
    intro b
    rw [BlkCache.modify_blocks]
    split <;> simp_all
  constructor
  · intro b isFilled
    by_cases isBlock : b = block
    · subst isBlock
      simp [BlkCache.modify]
    · have otherTag : (sys.cache.blocks b).tag ≠ (sys.cache.blocks block).tag :=
        fun isTag => isBlock (inv.tag_unique filled isTag)
      simpa [BlkCache.modify, isBlock, otherTag] using unlost.kept b isFilled
  · intro tag noBlock
    simp only [sameTag] at noBlock
    have ne : tag ≠ (sys.cache.blocks block).tag := (noBlock block filled).symm
    exact (unlost.absent tag noBlock).trans (Function.update_of_ne ne _ _).symm

/-! ## One call -/

/-- What `bc_get` does while it finds no failed block. -/
theorem Inv.bcGet_cases (inv : sys.Inv) {tag : Tag} {access : Access Data}
    (finds : sys.FindsFilled (.bcGet tag access)) {rc : Int} {cache' : BlkCache Data}
    (ran : sys.cache.bcGet tag (sys.device tag) access = .ok (rc, block, cache')) :
    (rc = 0 ∧ (sys.cache.blocks block).tag = tag ∧ sys.filled block = true ∧
      (sys.cache.blocks block).inuse < 0x7FFF ∧
      cache' = sys.cache.modify block fun b => { b with inuse := int16 (b.inuse + 1) }) ∨
    ((∀ b, (sys.cache.blocks b).tag ≠ tag) ∧ (sys.cache.blocks block).inuse = 0 ∧
      sys.cache.bcSearch tag (MAX_BLOCK + 1) sys.cache.blocklist none =
        .ok (.inr (some block)) ∧
      (rc = 0 ∧ cache' = sys.cache.refill block tag (sys.device tag) 1 ∨
        rc ≠ 0 ∧ ∃ left, cache' = sys.cache.refill block tag left 0)) := by
  obtain ⟨order, circular⟩ := inv.circular
  rcases BlkCache.bcGet_cases circular tag (sys.device tag) access with
    ⟨b, found, result⟩ | ⟨missing, full | ⟨b, unused, searched, result⟩⟩
  · rw [result] at ran
    obtain ⟨rfl, rfl, rfl⟩ : 0 = rc ∧ b = block ∧ _ = cache' := by
      simpa only [Outcome.ok.injEq, Prod.mk.injEq] using ran
    exact .inl ⟨rfl, found, (finds b found).1, (finds b found).2, rfl⟩
  · rw [full.2] at ran
    simp at ran
  · rw [result] at ran
    cases access with
    | done =>
        obtain ⟨rfl, rfl, rfl⟩ : 0 = rc ∧ b = block ∧ _ = cache' := by
          simpa only [Outcome.ok.injEq, Prod.mk.injEq] using ran
        exact .inr ⟨missing, unused, searched, .inl ⟨rfl, rfl⟩⟩
    | failed code left =>
        obtain ⟨rfl, rfl, rfl⟩ : -((code : Int) + 1) = rc ∧ b = block ∧ _ = cache' := by
          simpa only [Outcome.ok.injEq, Prod.mk.injEq] using ran
        exact .inr ⟨missing, unused, searched, .inr ⟨by omega, left, rfl⟩⟩

theorem Inv.bcGet_step (inv : sys.Inv) {tag : Tag} {access : Access Data}
    (finds : sys.FindsFilled (.bcGet tag access))
    (taken : sys.step (.bcGet tag access) = some sys') : sys'.Inv := by
  simp only [step, Option.ite_none_left_eq_some, Option.map_eq_some_iff,
    Outcome.value?_eq_some] at taken
  obtain ⟨dev, ⟨rc, b, cache'⟩, ran, rfl⟩ := taken
  rcases inv.bcGet_cases finds ran with ⟨rfl, rfl, filled, few, rfl⟩ |
    ⟨missing, unused, -, ⟨rfl, rfl⟩ | ⟨failed, left, rfl⟩⟩
  · have cached : sys.IsCached (sys.cache.blocks b).tag := ⟨b, rfl⟩
    have low := (inv.inuse b).1
    simp only [cached, if_true]
    refine inv.setInuse b (fun count => int16 (count + 1)) ?_ filled fun zero => ?_ <;>
      · rw [int16_eq (by omega) (by omega)] at *
        omega
  · have absent : ¬sys.IsCached tag := fun ⟨b, same⟩ => missing b same
    simp only [absent, if_false, decide_true]
    exact inv.refill (not_lt.mp dev) missing unused true 1 (by decide) (fun _ => rfl) (by simp)
  · have absent : ¬sys.IsCached tag := fun ⟨b, same⟩ => missing b same
    simp only [absent, if_false, failed, decide_false]
    exact inv.refill (not_lt.mp dev) missing unused false 0 (by decide) (by simp) fun _ => rfl

/-- What `bc_put` does: it counts down, and writes the block or returns an error when
the last reference to a dirty block is put. -/
theorem Inv.bcPut_cases (inv : sys.Inv) {access : Access Unit} {rc : Int}
    {cache' : BlkCache Data} {sector : Data}
    (ran : sys.cache.bcPut block (sys.device (sys.cache.blocks block).tag) access =
      .ok (rc, cache', sector)) :
    sys.filled block = true ∧ 0 < (sys.cache.blocks block).inuse ∧
      (cache' = sys.cache.modify block fun b => { b with inuse := b.inuse - 1 }) ∧
      (rc = 0 ∧ sector = sys.device (sys.cache.blocks block).tag ∧
          ¬((sys.cache.blocks block).inuse - 1 = 0 ∧ (sys.cache.blocks block).dirty = true) ∨
        0 < rc ∧ sector = (sys.cache.blocks block).data ∨
        rc < 0 ∧ sector = sys.device (sys.cache.blocks block).tag) := by
  obtain ⟨order, circular⟩ := inv.circular
  have bounds := inv.inuse block
  by_cases unused : (sys.cache.blocks block).inuse = 0
  · rw [BlkCache.bcPut_unused circular block _ access unused] at ran
    simp at ran
  have filled := inv.filled_of_used unused
  have counted : int16 ((sys.cache.blocks block).inuse - 1) = (sys.cache.blocks block).inuse - 1 :=
    int16_eq (by omega) (by omega)
  have sameEdit : (sys.cache.modify block fun b => { b with inuse := int16 (b.inuse - 1) }) =
      sys.cache.modify block fun b => { b with inuse := b.inuse - 1 } := by
    simp only [BlkCache.modify, counted]
  refine ⟨filled, by omega, ?_⟩
  rcases BlkCache.bcPut_cases circular block (sys.device (sys.cache.blocks block).tag) access unused
    with ⟨notLast, result⟩ | ⟨-, -, result, -⟩
  · rw [result] at ran
    obtain ⟨rfl, rfl, rfl⟩ : 0 = rc ∧ _ = cache' ∧ _ = sector := by
      simpa only [Outcome.ok.injEq, Prod.mk.injEq] using ran
    rw [counted] at notLast
    exact ⟨sameEdit, .inl ⟨rfl, rfl, notLast⟩⟩
  · rw [result] at ran
    obtain ⟨rfl, rfl, rfl⟩ : _ = rc ∧ _ = cache' ∧ _ = sector := by
      simpa only [Outcome.ok.injEq, Prod.mk.injEq] using ran
    refine ⟨sameEdit, .inr ?_⟩
    cases access with
    | done => exact .inl ⟨by simp [fddWrite, BLKSIZE], rfl⟩
    | failed code left =>
        refine .inr ⟨?_, rfl⟩
        simp only [fddWrite]
        omega

theorem Inv.bcPut_step (inv : sys.Inv) {access : Access Unit}
    (taken : sys.step (.bcPut block access) = some sys') : sys'.Inv := by
  simp only [step, Option.map_eq_some_iff, Outcome.value?_eq_some] at taken
  obtain ⟨⟨rc, cache', sector⟩, ran, rfl⟩ := taken
  obtain ⟨filled, used, rfl, result⟩ := inv.bcPut_cases ran
  have fewer : 0 ≤ (sys.cache.blocks block).inuse - 1 ∧
      (sys.cache.blocks block).inuse - 1 ≤ 0x7FFF := by
    have bounds := inv.inuse block
    omega
  rcases result with notLast | written | failed
  · obtain ⟨rfl, rfl, notLast⟩ := notLast
    simp only [lt_irrefl, decide_false, Bool.or_false, Function.update_eq_self]
    refine inv.setInuse block (· - 1) fewer filled fun zero => ?_
    have clean : (sys.cache.blocks block).dirty ≠ true := fun dirty => notLast ⟨zero, dirty⟩
    exact .inl ((inv.written block filled).resolve_left clean)
  · obtain ⟨positive, rfl⟩ := written
    simp only [not_lt_of_gt positive, decide_false, Bool.or_false, Function.update_eq_self]
    refine (inv.write filled).setInuse block (· - 1) fewer filled fun _ => ?_
    exact .inl (Function.update_self _ _ _)
  · obtain ⟨negative, rfl⟩ := failed
    simp only [negative, decide_true, Bool.or_true, Function.update_eq_self]
    refine (inv.report _).setInuse block (· - 1) fewer filled fun _ => ?_
    exact .inr (Function.update_self _ _ _)

/-- Every call that finds no failed block keeps the invariant. -/
theorem Inv.step (inv : sys.Inv) {action : CacheAction Data} (finds : sys.FindsFilled action)
    (taken : sys.step action = some sys') : sys'.Inv := by
  cases action with
  | bcGet tag access => exact inv.bcGet_step finds taken
  | modify block data =>
      simp only [CacheSystem.step, Option.ite_none_left_eq_some, Option.some.injEq] at taken
      obtain ⟨used, rfl⟩ := taken
      exact inv.modify used data
  | bcPut block access => exact inv.bcPut_step taken

/-- While no unsaved block is dropped either, nothing is lost. -/
theorem Unlost.step (unlost : sys.Unlost) (inv : sys.Inv) {action : CacheAction Data}
    (finds : sys.FindsFilled action) (reuses : sys.ReusesSaved action)
    (taken : sys.step action = some sys') : sys'.Unlost := by
  cases action with
  | bcGet tag access =>
      simp only [CacheSystem.step, Option.ite_none_left_eq_some, Option.map_eq_some_iff,
        Outcome.value?_eq_some] at taken
      obtain ⟨dev, ⟨rc, block, cache'⟩, ran, rfl⟩ := taken
      rcases inv.bcGet_cases finds ran with ⟨rfl, rfl, filled, few, rfl⟩ |
        ⟨missing, unused, searched, result⟩
      · have cached : sys.IsCached (sys.cache.blocks block).tag := ⟨block, rfl⟩
        simp only [cached, if_true]
        exact unlost.congr (fun b => by rw [BlkCache.modify_blocks]; split <;> simp_all)
      · have absent : ¬sys.IsCached tag := fun ⟨b, same⟩ => missing b same
        simp only [absent, if_false]
        have saved := reuses block searched
        rcases result with ⟨rfl, rfl⟩ | ⟨failed, left, rfl⟩
        · simpa using unlost.refill missing saved 1 true fun _ => rfl
        · simpa [failed] using unlost.refill missing saved 0 false fun isFilled => by simp at isFilled
  | modify block data =>
      simp only [CacheSystem.step, Option.ite_none_left_eq_some, Option.some.injEq] at taken
      obtain ⟨used, rfl⟩ := taken
      exact unlost.modify inv used data
  | bcPut block access =>
      simp only [CacheSystem.step, Option.map_eq_some_iff, Outcome.value?_eq_some] at taken
      obtain ⟨⟨rc, cache', sector⟩, ran, rfl⟩ := taken
      obtain ⟨filled, -, rfl, result⟩ := inv.bcPut_cases ran
      have same : ∀ b, ((sys.cache.modify block fun b => { b with inuse := b.inuse - 1 }).blocks
          b).tag = (sys.cache.blocks b).tag ∧
          ((sys.cache.modify block fun b => { b with inuse := b.inuse - 1 }).blocks b).data =
            (sys.cache.blocks b).data := by
        intro b
        rw [BlkCache.modify_blocks]
        split <;> simp_all
      obtain ⟨kept, absent⟩ := unlost.congr same
      rcases result with ⟨-, rfl, -⟩ | ⟨-, rfl⟩ | ⟨-, rfl⟩
      · simp only [Function.update_eq_self]
        exact ⟨kept, absent⟩
      · refine ⟨kept, fun tag noBlock => ?_⟩
        have ne : tag ≠ (sys.cache.blocks block).tag := fun isTag =>
          noBlock block filled ((same block).1.trans isTag.symm)
        exact (Function.update_of_ne ne _ _).trans (absent tag noBlock)
      · simp only [Function.update_eq_self]
        exact ⟨kept, absent⟩

/-! ## Every run -/

/-- In every run whose calls of `bc_get` find no block with a failed fill, every
modification is accounted for and every block that is returned has been read from
the device.  If no buffer with unsaved contents is reused either, `bc_get` returns
the last modification, or the contents of the device. -/
theorem bc_get_bc_put_coherent {memory : BlkPtr → Data} {device : Tag → Data} :
    (Reached (· = start memory device) (fun s a s' => s.step a = some s') FindsFilled sys →
      sys.Accounted ∧ sys.Genuine sys.FindsFilled) ∧
    (Reached (· = start memory device) (fun s a s' => s.step a = some s')
        (fun s a => s.FindsFilled a ∧ s.ReusesSaved a) sys →
      sys.Coherent sys.FindsFilled) := by
  constructor
  · intro reached
    have inv : sys.Inv := reached.invariant Inv
      (by rintro _ rfl; exact start_inv memory device)
      (fun inv finds taken => inv.step finds taken)
    refine ⟨inv.accounted, fun tag access b cache' dev finds ran => ?_⟩
    rcases inv.bcGet_cases finds ran with ⟨-, -, filled, -⟩ | ⟨-, -, -, ⟨-, rfl⟩ | ⟨failed, -⟩⟩
    · exact .inl filled
    · exact .inr (by simp [BlkCache.refill])
    · exact absurd rfl failed
  · intro reached
    obtain ⟨inv, unlost⟩ := reached.invariant (fun sys => sys.Inv ∧ sys.Unlost)
      (by rintro _ rfl; exact ⟨start_inv memory device, start_unlost memory device⟩)
      (fun both guarded taken => ⟨both.1.step guarded.1 taken,
        both.2.step both.1 guarded.1 guarded.2 taken⟩)
    intro tag access b cache' dev finds ran
    rcases inv.bcGet_cases finds ran with
      ⟨-, rfl, filled, -, rfl⟩ | ⟨missing, -, -, ⟨-, rfl⟩ | ⟨failed, -⟩⟩
    · rw [BlkCache.modify_blocks, if_pos rfl]
      exact unlost.kept b filled
    · have read : ((sys.cache.refill b tag (sys.device tag) 1).blocks b).data = sys.device tag := by
        simp [BlkCache.refill]
      rw [read]
      exact unlost.absent tag fun b _ => missing b
    · exact absurd rfl failed

/-- A block is modified and put, and then taken again. -/
theorem bc_get_bc_put_coherent_again :
    ∃ sys, runs step (start (fun _ => 0) fun _ => (1 : Nat))
        [.bcGet ⟨0, 0, 5⟩ .done, .modify 0 7, .bcPut 0 .done, .bcGet ⟨0, 0, 6⟩ .done] =
          some sys ∧
      sys.logical ⟨0, 0, 5⟩ = 7 ∧ sys.Accounted ∧ sys.Coherent sys.FindsFilled := by
  have ran : (runs step (start (fun _ => 0) fun _ => (1 : Nat))
      [.bcGet ⟨0, 0, 5⟩ .done, .modify 0 7, .bcPut 0 .done, .bcGet ⟨0, 0, 6⟩ .done]).map
        (·.logical ⟨0, 0, 5⟩) = some 7 := by
    decide +kernel
  have guarded : Along step (fun s a => FindsFilled s a ∧ ReusesSaved s a)
      (start (fun _ => 0) fun _ => (1 : Nat))
      [.bcGet ⟨0, 0, 5⟩ .done, .modify 0 7, .bcPut 0 .done, .bcGet ⟨0, 0, 6⟩ .done] := by
    decide +kernel
  obtain ⟨sys, ran, logical⟩ := Option.map_eq_some_iff.mp ran
  have reached : Reached (· = start (fun _ => 0) fun _ => (1 : Nat)) _ _ sys :=
    reached_of_runs rfl guarded ran
  refine ⟨sys, ran, logical, ?_, bc_get_bc_put_coherent.2 reached⟩
  exact (bc_get_bc_put_coherent.1 (reached.mono fun both => both.1)).1

/-- After a read that failed, the same block is found in the cache: `bc_get` returns
0 and whatever the failed transfer left in the buffer. -/
theorem bc_get_returns_failed_read :
    ∃ sys, Reachable (· = start (fun _ => 0) fun _ => (1 : Nat)) (fun s a s' => s.step a = some s') sys ∧
      ¬sys.Coherent (fun _ => True) ∧ ¬sys.Genuine (fun _ => True) := by
  have ran : (runs step (start (fun _ => 0) fun _ => (1 : Nat))
      [.bcGet ⟨0, 0, 5⟩ (.failed 0 7)]).map (fun sys =>
        (sys.logical ⟨0, 0, 5⟩, sys.device ⟨0, 0, 5⟩, sys.filled 0)) = some (1, 1, false) := by
    decide +kernel
  have again : (runs step (start (fun _ => 0) fun _ => (1 : Nat))
      [.bcGet ⟨0, 0, 5⟩ (.failed 0 7)]).bind (fun sys =>
        (sys.cache.bcGet ⟨0, 0, 5⟩ (sys.device ⟨0, 0, 5⟩) .done).value?.map
          fun (rc, b, cache) => (rc, b, (cache.blocks b).data)) = some (0, 0, 7) := by
    decide +kernel
  obtain ⟨sys, ran, values⟩ := Option.map_eq_some_iff.mp ran
  rw [ran, Option.bind_some] at again
  obtain ⟨logical, device, filled⟩ := by simpa only [Prod.mk.injEq] using values
  obtain ⟨⟨rc, b, cache⟩, returned, same⟩ := Option.map_eq_some_iff.mp again
  obtain ⟨rfl, rfl, data⟩ := by simpa only [Prod.mk.injEq] using same
  rw [Outcome.value?_eq_some] at returned
  refine ⟨sys, reachable_of_runs rfl ran, fun coherent => ?_, fun genuine => ?_⟩
  · have wrong := coherent ⟨0, 0, 5⟩ .done 0 cache (by decide) trivial returned
    rw [data, logical] at wrong
    simp at wrong
  · rcases genuine ⟨0, 0, 5⟩ .done 0 cache (by decide) trivial returned with isFilled | read
    · simp [filled] at isFilled
    · rw [data, device] at read
      simp at read

end CacheSystem

end Pegasos.Kernel.Cache
