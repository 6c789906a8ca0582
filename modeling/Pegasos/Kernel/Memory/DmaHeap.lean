import Pegasos.Kernel.Memory.FarHeap

/-!
# The DMA heap

`mem_dma_alloc` and `mem_dma_free` manage the memory from 0050:0000 up to the kernel.  Their
headers are those of the far heap, but a block is named by its 16-bit offset and the list ends
with `DMANULL`.  Seen by segments it is a far heap, and so the facts about that one apply.
-/

namespace Pegasos.Kernel.Memory

open Pegasos.Support

def DMA_START : Nat := 0x0050
def DMANULL : Nat := 0xffff

/-- The DMA heap: `dmap offs` is the header found at `DMA_START:offs`. -/
structure DmaHeap where
  dmap : Nat → MemHdr
  dmaheap : Nat

namespace DmaHeap

/-- Store into the header at an offset. -/
def modify (heap : DmaHeap) (offs : Nat) (store : MemHdr → MemHdr) : DmaHeap :=
  { heap with dmap := fun other => if other = offs then store (heap.dmap offs) else heap.dmap other }

/-- The header view that the loops walk, with sizes in bytes. -/
def headers (heap : DmaHeap) : Headers where
  next offs := (heap.dmap offs).next
  size offs := PARASIZE * (heap.dmap offs).para
  used offs := lowBit (heap.dmap offs).flags

end DmaHeap

/-- The DMA part of `mem_init`: one free block from `DMA_START` to `dmaend`. -/
def memInitDma (dmap : Nat → MemHdr) (dmaend : Nat) : DmaHeap :=
  DmaHeap.modify ⟨dmap, 0⟩ 0 fun _ =>
    { next := DMANULL, para := sub16 (sub16 dmaend DMA_START) 1, flags := 0 }

/-- The test with which `mem_dma_alloc` leaves its search. -/
def memDmaFits (heap : DmaHeap) (sz offs : Nat) : Bool :=
  (heap.dmap offs).flags &&& BLK_INUSE = 0 ∧ (heap.dmap offs).para ≥ sz

/-- The stores with which `mem_dma_alloc` splits the block at `boffs`. -/
def memDmaSplit (heap : DmaHeap) (boffs noffs sz : Nat) : DmaHeap :=
  let heap := heap.modify noffs fun nh => { nh with next := (heap.dmap boffs).next }
  let heap := heap.modify boffs fun h => { h with next := noffs }
  let heap := heap.modify noffs fun nh =>
    { nh with para := sub16 (sub16 (heap.dmap boffs).para 1) sz }
  let heap := heap.modify boffs fun h => { h with para := sz }
  heap.modify noffs fun nh => { nh with flags := nh.flags &&& 0xfffe }

/-- What `mem_dma_alloc` does to the block that it has found. -/
def memDmaCommit (heap : DmaHeap) (sz boffs : Nat) : DmaHeap :=
  let heap := heap.modify boffs fun h => { h with flags := h.flags ||| BLK_INUSE }
  if (heap.dmap boffs).para > (sz + 1) % 0x10000 then
    memDmaSplit heap boffs ((boffs + ((sz + 1) <<< PARASHIFT) % 0x10000) % 0x10000) sz
  else heap

/-- `mem_dma_alloc`. -/
def memDmaAlloc (heap : DmaHeap) (size : Nat) : Outcome (DmaHeap × Option FarPtr) :=
  if size > 0xfff0 then .ok (heap, none)
  else
    let sz := ((size + PARASIZE - 1) % 0x10000) >>> PARASHIFT
    match walk (fun offs => (heap.dmap offs).next) DMANULL (memDmaFits heap sz) walkFuel DMANULL
        heap.dmaheap with
    | none => .hang
    | some none => .ok (heap, none)
    | some (some (_, boffs)) =>
        .ok (memDmaCommit heap sz boffs, some ⟨DMA_START, (boffs + PARASIZE) % 0x10000⟩)

/-- The part of `mem_dma_free` that merges the block at `boffs` into a free block at `poffs`. -/
def memDmaMergePrev (heap : DmaHeap) (poffs boffs : Nat) : DmaHeap × Nat :=
  if poffs ≠ DMANULL ∧ (heap.dmap poffs).flags &&& BLK_INUSE = 0 then
    let heap := heap.modify poffs fun prev =>
      { prev with para := (prev.para + 1 + (heap.dmap boffs).para) % 0x10000 }
    let heap := heap.modify poffs fun prev => { prev with next := (heap.dmap boffs).next }
    (heap, poffs)
  else (heap, boffs)

/-- The part that merges a free successor into the block at `boffs`. -/
def memDmaMergeNext (heap : DmaHeap) (boffs : Nat) : DmaHeap :=
  let next := (heap.dmap boffs).next
  if next ≠ DMANULL ∧ (heap.dmap next).flags &&& BLK_INUSE = 0 then
    let heap := heap.modify boffs fun curr =>
      { curr with para := (curr.para + 1 + (heap.dmap next).para) % 0x10000 }
    heap.modify boffs fun curr => { curr with next := (heap.dmap next).next }
  else heap

/-- `mem_dma_free`. -/
def memDmaFree (heap : DmaHeap) (ptr : FarPtr) : Outcome DmaHeap :=
  if ptr.seg ≠ DMA_START then .panic "mem_dma_free: pointer is not in DMA segment"
  else
    let offs := sub16 ptr.offs PARASIZE
    match walk (fun offs => (heap.dmap offs).next) DMANULL (fun boffs => boffs = offs) walkFuel
        DMANULL heap.dmaheap with
    | none => .hang
    | some none => .panic "mem_dma_free: pointer is not a valid DMA block"
    | some (some (poffs, boffs)) =>
        let (heap, boffs) := memDmaMergePrev heap poffs boffs
        let heap := memDmaMergeNext heap boffs
        .ok (heap.modify boffs fun curr => { curr with flags := curr.flags &&& 0xfffe })

/-! ## The view by segments -/

/-- The segment of a header.  An offset within a paragraph gets a number that is no segment. -/
def link (offs : Nat) : Nat :=
  if offs = DMANULL then 0
  else if offs % 16 = 0 ∧ offs < 0x10000 then DMA_START + offs / 16
  else 0x10000 + offs

/-- The offset of the header at a segment. -/
def unlink (seg : Nat) : Option Nat :=
  if 0x10000 ≤ seg then (if link (seg - 0x10000) = seg then some (seg - 0x10000) else none)
  else if DMA_START ≤ seg ∧ seg < DMA_START + 0x1000 then some (16 * (seg - DMA_START))
  else none

/-- A header with the segment of its successor. -/
def farHdr (h : MemHdr) : MemHdr := { h with next := link h.next }

/-- The DMA heap as a far heap. -/
def DmaHeap.far (heap : DmaHeap) : FarHeap where
  fmap seg := ((unlink seg).map fun offs => farHdr (heap.dmap offs)).getD ⟨0, 0, 0⟩
  farheap := link heap.dmaheap

theorem link_eq_zero (offs : Nat) : link offs = 0 ↔ offs = DMANULL := by
  unfold link DMA_START
  split_ifs with isNull aligned
  · exact iff_of_true rfl isNull
  · exact iff_of_false (by omega) isNull
  · exact iff_of_false (by omega) isNull

theorem link_paras {k : Nat} (small : k < 0x1000) : link (16 * k) = DMA_START + k := by
  have notNull : 16 * k ≠ DMANULL := by
    unfold DMANULL
    omega
  rw [link, if_neg notNull, if_pos ⟨by omega, by omega⟩]
  omega

theorem unlink_link {offs : Nat} (proper : offs ≠ DMANULL) : unlink (link offs) = some offs := by
  unfold unlink
  by_cases aligned : offs % 16 = 0 ∧ offs < 0x10000
  · have isSeg : link offs = DMA_START + offs / 16 := by rw [link, if_neg proper, if_pos aligned]
    have low : ¬ 0x10000 ≤ link offs := by
      rw [isSeg]
      unfold DMA_START
      omega
    rw [if_neg low, isSeg, if_pos ⟨by omega, by omega⟩]
    congr 1
    omega
  · have isOther : link offs = 0x10000 + offs := by rw [link, if_neg proper, if_neg aligned]
    rw [isOther, if_pos (by omega)]
    have back : 0x10000 + offs - 0x10000 = offs := by omega
    rw [back, if_pos isOther]

theorem link_unlink {seg offs : Nat} (isOffs : unlink seg = some offs) : link offs = seg := by
  unfold unlink at isOffs
  split_ifs at isOffs with high same low
  · obtain rfl := Option.some.inj isOffs
    exact same
  · obtain rfl := Option.some.inj isOffs
    rw [link_paras (by omega)]
    omega

theorem far_fmap (heap : DmaHeap) {offs : Nat} (proper : offs ≠ DMANULL) :
    heap.far.fmap (link offs) = farHdr (heap.dmap offs) := by
  simp only [DmaHeap.far, unlink_link proper, Option.map_some, Option.getD_some]

/-- Stores into headers. -/
theorem far_modify (heap : DmaHeap) {offs : Nat} (proper : offs ≠ DMANULL)
    {store store' : MemHdr → MemHdr} (same : ∀ h, farHdr (store h) = store' (farHdr h)) :
    (heap.modify offs store).far = heap.far.modify (link offs) store' := by
  unfold FarHeap.modify
  rw [far_fmap heap proper]
  simp only [DmaHeap.far, DmaHeap.modify, FarHeap.mk.injEq, and_true]
  funext seg
  by_cases isOffs : seg = link offs
  · rw [if_pos isOffs, isOffs, unlink_link proper]
    simp only [Option.map_some, Option.getD_some, if_true, same]
  · rw [if_neg isOffs]
    cases other : unlink seg with
    | none => rfl
    | some a =>
        have ne : a ≠ offs := by
          rintro rfl
          exact isOffs (link_unlink other).symm
        simp only [Option.map_some, Option.getD_some, if_neg ne]

theorem far_modify_of {heap : DmaHeap} {view : FarHeap} (isView : heap.far = view) {offs : Nat}
    (proper : offs ≠ DMANULL) {store store' : MemHdr → MemHdr}
    (same : ∀ h, farHdr (store h) = store' (farHdr h)) :
    (heap.modify offs store).far = view.modify (link offs) store' :=
  isView ▸ far_modify heap proper same

/-! ## The routines in this view -/

section View

variable {heap : DmaHeap} {boffs noffs poffs : Nat}

theorem memDmaSplit_far (isBlock : boffs ≠ DMANULL) (isNew : noffs ≠ DMANULL) (sz : Nat) :
    (memDmaSplit heap boffs noffs sz).far =
      kmallocSplit heap.far (link boffs) (link noffs) sz := by
  have moved : (heap.modify noffs fun nh => { nh with next := (heap.dmap boffs).next }).far =
      heap.far.modify (link noffs) fun nh =>
        { nh with next := (heap.far.fmap (link boffs)).next } := by
    refine far_modify heap isNew fun h => ?_
    rw [far_fmap heap isBlock]
    rfl
  simp only [memDmaSplit, kmallocSplit]
  rw [← moved]
  obtain ⟨heap, isHeap⟩ : ∃ heap' : DmaHeap, heap' =
    heap.modify noffs fun nh => { nh with next := (heap.dmap boffs).next } := ⟨_, rfl⟩
  rw [← isHeap]
  have linked : (heap.modify boffs fun h => { h with next := noffs }).far =
      heap.far.modify (link boffs) fun h => { h with next := link noffs } :=
    far_modify heap isBlock fun h => rfl
  rw [← linked]
  obtain ⟨heap, isHeap⟩ : ∃ heap' : DmaHeap, heap' =
    heap.modify boffs fun h => { h with next := noffs } := ⟨_, rfl⟩
  rw [← isHeap]
  have left : (heap.modify noffs fun nh =>
      { nh with para := sub16 (sub16 (heap.dmap boffs).para 1) sz }).far =
      heap.far.modify (link noffs) fun nh =>
        { nh with para := sub16 (sub16 (heap.far.fmap (link boffs)).para 1) sz } := by
    refine far_modify heap isNew fun h => ?_
    rw [far_fmap heap isBlock]
    rfl
  rw [← left]
  obtain ⟨heap, isHeap⟩ : ∃ heap' : DmaHeap, heap' = heap.modify noffs fun nh =>
    { nh with para := sub16 (sub16 (heap.dmap boffs).para 1) sz } := ⟨_, rfl⟩
  rw [← isHeap]
  have kept : (heap.modify boffs fun h => { h with para := sz }).far =
      heap.far.modify (link boffs) fun h => { h with para := sz } :=
    far_modify heap isBlock fun h => rfl
  rw [← kept]
  exact far_modify _ isNew fun h => rfl

theorem memDmaCommit_far {sz : Nat} (isBlock : boffs ≠ DMANULL)
    (isNew : (heap.dmap boffs).para > (sz + 1) % 0x10000 →
      (boffs + ((sz + 1) <<< PARASHIFT) % 0x10000) % 0x10000 ≠ DMANULL ∧
        link ((boffs + ((sz + 1) <<< PARASHIFT) % 0x10000) % 0x10000) =
          (link boffs + sz + 1) % 0x10000) {size : Nat} (isSz : roundToPara size % 0x10000 = sz) :
    (memDmaCommit heap sz boffs).far = (kmallocCommit heap.far size (link boffs)).1 := by
  have taken : (heap.modify boffs fun h => { h with flags := h.flags ||| BLK_INUSE }).far =
      heap.far.modify (link boffs) fun h => { h with flags := h.flags ||| BLK_INUSE } :=
    far_modify_of rfl isBlock fun h => rfl
  have para : ((heap.modify boffs fun h => { h with flags := h.flags ||| BLK_INUSE }).dmap
      boffs).para = (heap.dmap boffs).para := by
    simp only [DmaHeap.modify, if_true]
  have para' : ((heap.far.modify (link boffs) fun h =>
      { h with flags := h.flags ||| BLK_INUSE }).fmap (link boffs)).para =
        (heap.dmap boffs).para := by
    rw [← taken, far_fmap _ isBlock, ← para]
    rfl
  unfold memDmaCommit kmallocCommit
  simp only [isSz, para, para']
  by_cases larger : (heap.dmap boffs).para > (sz + 1) % 0x10000
  · obtain ⟨notNull, named⟩ := isNew larger
    rw [if_pos larger, if_pos larger, memDmaSplit_far isBlock notNull, taken, named]
  · rw [if_neg larger, if_neg larger, taken]

theorem memDmaMergePrev_dmaheap (heap : DmaHeap) (poffs boffs : Nat) :
    (memDmaMergePrev heap poffs boffs).1.dmaheap = heap.dmaheap := by
  unfold memDmaMergePrev
  split <;> rfl

theorem memDmaMergeNext_dmaheap (heap : DmaHeap) (boffs : Nat) :
    (memDmaMergeNext heap boffs).dmaheap = heap.dmaheap := by
  unfold memDmaMergeNext
  dsimp only
  split <;> rfl

theorem memDmaMergePrev_far (heap : DmaHeap) (poffs : Nat) (isBlock : boffs ≠ DMANULL) :
    (memDmaMergePrev heap poffs boffs).1.far =
        (kfreeMergePrev heap.far (link poffs) (link boffs)).1 ∧
      link (memDmaMergePrev heap poffs boffs).2 =
        (kfreeMergePrev heap.far (link poffs) (link boffs)).2 ∧
      (memDmaMergePrev heap poffs boffs).2 ≠ DMANULL := by
  unfold memDmaMergePrev kfreeMergePrev
  by_cases isNull : poffs = DMANULL
  · have none := (link_eq_zero poffs).mpr isNull
    rw [if_neg (fun both => both.1 isNull), if_neg (fun both => both.1 none)]
    exact ⟨rfl, rfl, isBlock⟩
  · have some := mt (link_eq_zero poffs).mp isNull
    have flags : (heap.far.fmap (link poffs)).flags = (heap.dmap poffs).flags := by
      rw [far_fmap heap isNull]
      rfl
    rw [flags]
    by_cases free : (heap.dmap poffs).flags &&& BLK_INUSE = 0
    · rw [if_pos ⟨isNull, free⟩, if_pos ⟨some, free⟩]
      have grown : (heap.modify poffs fun prev =>
          { prev with para := (prev.para + 1 + (heap.dmap boffs).para) % 0x10000 }).far =
          heap.far.modify (link poffs) fun prev =>
            { prev with
              para := (prev.para + 1 + (heap.far.fmap (link boffs)).para) % 0x10000 } := by
        refine far_modify_of rfl isNull fun h => ?_
        rw [far_fmap heap isBlock]
        rfl
      refine ⟨?_, rfl, isNull⟩
      dsimp only
      refine far_modify_of grown isNull fun h => ?_
      rw [← grown, far_fmap _ isBlock]
      rfl
    · rw [if_neg (fun both => free both.2), if_neg (fun both => free both.2)]
      exact ⟨rfl, rfl, isBlock⟩

theorem memDmaMergeNext_far (isBlock : boffs ≠ DMANULL) :
    (memDmaMergeNext heap boffs).far = kfreeMergeNext heap.far (link boffs) := by
  unfold memDmaMergeNext kfreeMergeNext
  have next : (heap.far.fmap (link boffs)).next = link (heap.dmap boffs).next := by
    rw [far_fmap heap isBlock]
    rfl
  simp only [next]
  by_cases isNull : (heap.dmap boffs).next = DMANULL
  · have none := (link_eq_zero _).mpr isNull
    rw [if_neg (fun both => both.1 isNull), if_neg (fun both => both.1 none)]
  · have some := mt (link_eq_zero _).mp isNull
    have flags : (heap.far.fmap (link (heap.dmap boffs).next)).flags =
        (heap.dmap (heap.dmap boffs).next).flags := by
      rw [far_fmap heap isNull]
      rfl
    rw [flags]
    by_cases free : (heap.dmap (heap.dmap boffs).next).flags &&& BLK_INUSE = 0
    · rw [if_pos ⟨isNull, free⟩, if_pos ⟨some, free⟩]
      have grown : (heap.modify boffs fun curr =>
          { curr with
            para := (curr.para + 1 + (heap.dmap (heap.dmap boffs).next).para) % 0x10000 }).far =
          heap.far.modify (link boffs) fun curr =>
            { curr with para := (curr.para + 1 +
              (heap.far.fmap (link (heap.dmap boffs).next)).para) % 0x10000 } := by
        refine far_modify_of rfl isBlock fun h => ?_
        rw [far_fmap heap isNull]
        rfl
      refine far_modify_of grown isBlock fun h => ?_
      rw [← grown, far_fmap _ isNull]
      rfl
    · rw [if_neg (fun both => free both.2), if_neg (fun both => free both.2)]

/-- The walks go through the same headers. -/
theorem walk_far (heap : DmaHeap) (found found' : Nat → Bool)
    (founds : ∀ offs, offs ≠ DMANULL → found' (link offs) = found offs) :
    walk (fun seg => (heap.far.fmap seg).next) 0 found' walkFuel 0 heap.far.farheap =
      (walk (fun offs => (heap.dmap offs).next) DMANULL found walkFuel DMANULL
        heap.dmaheap).map (Option.map (Prod.map link link)) := by
  have null : link DMANULL = 0 := (link_eq_zero DMANULL).mpr rfl
  have named : ∀ next next' : Nat → Nat,
      (∀ offs, offs ≠ DMANULL → next' (link offs) = link (next offs)) →
      walk next' 0 found' walkFuel (link DMANULL) (link heap.dmaheap) =
        (walk next DMANULL found walkFuel DMANULL heap.dmaheap).map
          (Option.map (Prod.map link link)) := fun next next' nexts =>
    walk_map link link_eq_zero nexts founds walkFuel DMANULL heap.dmaheap
  rw [null] at named
  refine named _ _ fun offs proper => ?_
  rw [far_fmap heap proper]
  rfl

end View

/-! ## Well-formed DMA heaps -/

/-- A pointer of the DMA heap and its bytes, as the far heap has them. -/
def farEntry (entry : FarPtr × Nat) : FarPtr × Nat :=
  (⟨link (entry.1.offs - PARASIZE), PARASIZE⟩, entry.2)

/-- A DMA heap with the pointers in `live` handed out.  The blocks are those of the far view. -/
structure DmaHeap.WellFormed (heap : DmaHeap) (dmaend : Nat) (blocks : List Block)
    (live : List (FarPtr × Nat)) : Prop where
  view : heap.far.WellFormed dmaend blocks (live.map farEntry)
  starts : heap.dmaheap = 0
  small : dmaend ≤ 0x1000
  pointers : ∀ entry ∈ live, entry.1.seg = DMA_START ∧ entry.1.offs % PARASIZE = 0 ∧
    PARASIZE ≤ entry.1.offs ∧ entry.1.offs ≤ 0xfff0

theorem offs_of_link {seg offs : Nat} (named : link offs = seg) (low : DMA_START ≤ seg)
    (high : seg < 0x1000) : offs = 16 * (seg - DMA_START) := by
  have proper : offs ≠ DMANULL := fun isNull => by
    have null := (link_eq_zero offs).mpr isNull
    unfold DMA_START at low
    omega
  have back := unlink_link proper
  rw [named, unlink, if_neg (by omega), if_pos ⟨low, by omega⟩] at back
  exact (Option.some.inj back).symm

theorem DmaHeap.far_farheap {heap : DmaHeap} (starts : heap.dmaheap = 0) :
    heap.far.farheap = DMA_START := by
  show link heap.dmaheap = DMA_START
  rw [starts]
  exact link_paras (by decide : 0 < 0x1000)

namespace DmaHeap.WellFormed

variable {heap : DmaHeap} {dmaend size : Nat} {front rest blocks : List Block} {block : Block}
variable {live remaining : List (FarPtr × Nat)} {entry : FarPtr × Nat}

theorem addr_bounds (wellFormed : heap.WellFormed dmaend blocks live) (member : block ∈ blocks) :
    DMA_START ≤ block.addr ∧ block.addr + 1 + block.size ≤ 0x1000 := by
  have inside := wellFormed.view.tiles.bounds member
  have small := wellFormed.small
  rw [far_farheap wellFormed.starts] at inside
  omega

/-- The offset of the header of a block. -/
theorem link_offs (wellFormed : heap.WellFormed dmaend blocks live) (member : block ∈ blocks) :
    link (16 * (block.addr - DMA_START)) = block.addr := by
  obtain ⟨low, high⟩ := wellFormed.addr_bounds member
  rw [link_paras (by omega)]
  omega

/-- The block of a pointer that has been handed out. -/
theorem owner (wellFormed : heap.WellFormed dmaend blocks live) (member : entry ∈ live) :
    ∃ block ∈ blocks, block.used = true ∧
      entry.1.offs = PARASIZE * (block.addr - DMA_START) + PARASIZE ∧
      entry.2 ≤ PARASIZE * block.size := by
  obtain ⟨-, -, low, -⟩ := wellFormed.pointers entry member
  obtain ⟨block, inBlocks, used, address, room⟩ := wellFormed.view.owned.roomy _
    (List.mem_map_of_mem (f := payloadOf) (List.mem_map_of_mem (f := farEntry) member))
  have named : link (entry.1.offs - PARASIZE) = block.addr := (Nat.add_right_cancel address).symm
  obtain ⟨start, stop⟩ := wellFormed.addr_bounds inBlocks
  have isOffs := offs_of_link named start (by omega)
  refine ⟨block, inBlocks, used, ?_, room⟩
  unfold PARASIZE at *
  omega

theorem klinear_eq (wellFormed : heap.WellFormed dmaend blocks live) (member : entry ∈ live) :
    klinear entry.1 = 16 * DMA_START + entry.1.offs := by
  rw [klinear, (wellFormed.pointers entry member).1, Nat.shiftLeft_eq]
  omega

/-- Both names of a pointer lead to the same address. -/
theorem klinear_farEntry (wellFormed : heap.WellFormed dmaend blocks live)
    (member : entry ∈ live) : klinear (farEntry entry).1 = klinear entry.1 := by
  obtain ⟨block, inBlocks, -, isOffs, -⟩ := wellFormed.owner member
  have bounds := wellFormed.addr_bounds inBlocks
  have named := wellFormed.link_offs inBlocks
  have back : entry.1.offs - PARASIZE = 16 * (block.addr - DMA_START) := by
    rw [isOffs, Nat.add_sub_cancel]
    rfl
  have linear : klinear (farEntry entry).1 = 16 * block.addr + PARASIZE := by
    rw [farEntry, back, named]
    simp only [klinear, Nat.shiftLeft_eq]
    omega
  rw [wellFormed.klinear_eq member, isOffs, linear]
  unfold PARASIZE
  omega

end DmaHeap.WellFormed

/-! ## Allocation and release -/

section Spec

variable {heap : DmaHeap} {dmaend size : Nat} {front rest blocks : List Block} {block : Block}
variable {live remaining : List (FarPtr × Nat)} {entry : FarPtr × Nat}

/-- The search of `mem_dma_alloc` is that of `kmalloc`. -/
theorem kmallocSearch_far (heap : DmaHeap) (small : size ≤ 0xFFFF0) : kmallocSearch heap.far size =
    match walk (fun offs => (heap.dmap offs).next) DMANULL
      (memDmaFits heap (roundToPara size % 0x10000)) walkFuel DMANULL heap.dmaheap with
    | none => .hang
    | some found => .ok (found.map (link ∘ Prod.snd)) := by
  have same := walk_far heap (memDmaFits heap (roundToPara size % 0x10000))
    (kmallocFits heap.far (roundToPara size % 0x10000)) fun offs proper => by
      rw [kmallocFits, far_fmap heap proper]
      rfl
  rw [kmallocSearch, if_neg (Nat.not_lt_of_le small), same]
  cases walk (fun offs => (heap.dmap offs).next) DMANULL
    (memDmaFits heap (roundToPara size % 0x10000)) walkFuel DMANULL heap.dmaheap with
  | none => rfl
  | some found => cases found <;> rfl

/-- What `mem_dma_alloc` does to a free block that is large enough. -/
theorem memDmaCommit_spec (wellFormed : heap.WellFormed dmaend (front ++ block :: rest) live)
    (small : size ≤ 0xFFFF0) (free : block.used = false)
    (enough : roundToPara size % 0x10000 ≤ block.size) :
    ∃ blocks', (memDmaCommit heap (roundToPara size % 0x10000)
        (16 * (block.addr - DMA_START))).WellFormed dmaend blocks'
      ((⟨DMA_START, (16 * (block.addr - DMA_START) + PARASIZE) % 0x10000⟩, size) :: live) := by
  have member : block ∈ front ++ block :: rest := List.mem_append_cons_self
  obtain ⟨low, high⟩ := wellFormed.addr_bounds member
  have named := wellFormed.link_offs member
  obtain ⟨boffs, isOffs⟩ : ∃ boffs, boffs = 16 * (block.addr - DMA_START) := ⟨_, rfl⟩
  obtain ⟨sz, isSz⟩ : ∃ sz, sz = roundToPara size % 0x10000 := ⟨_, rfl⟩
  rw [← isOffs] at named ⊢
  obtain ⟨blocks', after, farheap⟩ := kmallocCommit_spec wellFormed.view small free enough
  rw [← isSz] at enough ⊢
  have start : DMA_START = 0x50 := rfl
  have isBlock : boffs ≠ DMANULL := by
    unfold DMANULL
    omega
  have para : (heap.dmap boffs).para = block.size := by
    rw [← (wellFormed.view.fields member).1, ← named, far_fmap heap isBlock]
    rfl
  have committed : (memDmaCommit heap sz boffs).far =
      (kmallocCommit heap.far size (link boffs)).1 := by
    refine memDmaCommit_far isBlock (fun larger => ?_) isSz.symm
    rw [para] at larger
    have noWrap : (boffs + ((sz + 1) <<< PARASHIFT) % 0x10000) % 0x10000 =
        16 * (block.addr - DMA_START + sz + 1) := by
      rw [PARASHIFT, Nat.shiftLeft_eq]
      omega
    rw [noWrap, link_paras (by omega), named]
    unfold DMANULL
    omega
  rw [named] at committed
  have starts : (memDmaCommit heap sz boffs).dmaheap = heap.dmaheap := by
    unfold memDmaCommit
    dsimp only
    split <;> rfl
  refine ⟨blocks', ?_, starts.trans wellFormed.starts, wellFormed.small, ?_⟩
  · rw [committed]
    have entry : farEntry (⟨DMA_START, (boffs + PARASIZE) % 0x10000⟩, size) =
        ((kmallocCommit heap.far size block.addr).2, size) := by
      have back : (boffs + PARASIZE) % 0x10000 - PARASIZE = boffs := by
        unfold PARASIZE
        omega
      simp only [farEntry, back, named, kmallocCommit]
    rw [List.map_cons, entry]
    exact after
  · intro entry isEntry
    rcases List.mem_cons.mp isEntry with rfl | earlier
    · simp only [PARASIZE, true_and]
      omega
    · exact wellFormed.pointers entry earlier

/-- `mem_dma_alloc` on a well-formed heap: it hands out a block and leaves a well-formed heap,
or it returns NULL because nothing is large enough. -/
theorem memDmaAlloc_spec (wellFormed : heap.WellFormed dmaend blocks live) (size : Nat) :
    (∃ heap' ptr blocks', memDmaAlloc heap size = .ok (heap', some ptr) ∧
        heap'.WellFormed dmaend blocks' ((ptr, size) :: live)) ∨
      memDmaAlloc heap size = .ok (heap, none) ∧
        (0xfff0 < size ∨ ∀ block ∈ blocks, block.used = true ∨ 16 * block.size < size) := by
  by_cases huge : size > 0xfff0
  · exact .inr ⟨by rw [memDmaAlloc, if_pos huge], .inl huge⟩
  have small : size ≤ 0xFFFF0 := by omega
  have paras : ((size + PARASIZE - 1) % 0x10000) >>> PARASHIFT = roundToPara size % 0x10000 := by
    rw [roundToPara_eq small, PARASHIFT, PARASIZE, Nat.shiftRight_eq_div_pow]
    omega
  have searched := kmallocSearch_far heap small
  rw [memDmaAlloc, if_neg huge]
  simp only [paras]
  rcases kmallocSearch_spec wellFormed.view.toRepresents small with
    ⟨front, block, rest, rfl, free, enough, found⟩ | ⟨missed, full⟩
  · left
    rw [found] at searched
    split at searched
    · cases searched
    · rename_i search searchIs
      obtain ⟨⟨poffs, boffs⟩, rfl, named⟩ : ∃ pair : Nat × Nat, search = some pair ∧
          link pair.2 = block.addr := by
        cases search with
        | none => cases searched
        | some pair =>
            simp only [Option.map_some, Outcome.ok.injEq, Option.some.injEq] at searched
            exact ⟨pair, rfl, searched.symm⟩
      dsimp only at named
      rw [searchIs]
      dsimp only
      have member : block ∈ front ++ block :: rest := List.mem_append_cons_self
      obtain ⟨low, high⟩ := wellFormed.addr_bounds member
      have isOffs := offs_of_link named low (by omega)
      obtain ⟨blocks', after⟩ := memDmaCommit_spec wellFormed small free
        (roundToPara_eq small ▸ enough)
      rw [← isOffs] at after
      exact ⟨_, _, blocks', rfl, after⟩
  · right
    rw [missed] at searched
    split at searched
    · cases searched
    · rename_i search searchIs
      cases search with
      | none =>
          rw [searchIs]
          exact ⟨rfl, .inr full⟩
      | some pair => cases searched

theorem link_injective {offs other : Nat} (proper : offs ≠ DMANULL) (otherProper : other ≠ DMANULL)
    (same : link offs = link other) : offs = other := by
  have names := unlink_link proper
  rw [same, unlink_link otherProper] at names
  exact (Option.some.inj names).symm

/-- `mem_dma_free` of a pointer into the heap is `kfree` of the same pointer. -/
theorem memDmaFree_far {boffs : Nat} (low : boffs % 16 = 0) (high : boffs ≤ 0xffe0)
    {view : FarHeap} (freed : kfree heap.far ⟨link boffs, PARASIZE⟩ = .ok view) :
    ∃ heap', memDmaFree heap ⟨DMA_START, boffs + PARASIZE⟩ = .ok heap' ∧ heap'.far = view ∧
      heap'.dmaheap = heap.dmaheap := by
  have isBlock : boffs ≠ DMANULL := by
    unfold DMANULL
    omega
  have isSeg : link boffs < 0x10000 := by
    rw [link, if_neg isBlock, if_pos ⟨low, by omega⟩]
    unfold DMA_START
    omega
  obtain ⟨seg, aligned⟩ := kfree_segment isSeg
  have back : sub16 (boffs + PARASIZE) PARASIZE = boffs := by
    unfold PARASIZE
    rw [sub16_of_le (by omega) (by omega)]
    omega
  have same := walk_far heap (fun offs => offs = boffs) (fun bseg => bseg = link boffs) fun offs proper => by
      exact decide_eq_decide.mpr ⟨link_injective proper isBlock, congrArg link⟩
  rw [kfree_parts, kfreeSearch] at freed
  simp only [seg, aligned, ne_eq, not_true_eq_false, if_false] at freed
  rw [same] at freed
  rw [memDmaFree, if_neg (by simp)]
  simp only [back]
  cases search : walk (fun offs => (heap.dmap offs).next) DMANULL (fun offs => offs = boffs)
    walkFuel DMANULL heap.dmaheap with
  | none =>
      rw [search] at freed
      cases freed
  | some result =>
      cases result with
      | none =>
          rw [search] at freed
          cases freed
      | some pair =>
          obtain ⟨poffs, found⟩ := pair
          obtain ⟨notNull, isFound⟩ := walk_stops search
          rw [search] at freed
          simp only [Option.map_some, Prod.map, Outcome.bind_ok, Outcome.ok.injEq] at freed
          obtain ⟨merged, named, proper⟩ := memDmaMergePrev_far heap poffs notNull
          refine ⟨_, rfl, ?_, ?_⟩
          · rw [← freed, kfreeCommit]
            dsimp only
            rw [← named, ← merged, ← memDmaMergeNext_far proper]
            exact far_modify _ proper fun h => rfl
          · show (memDmaMergeNext (memDmaMergePrev heap poffs found).1
              (memDmaMergePrev heap poffs found).2).dmaheap = heap.dmaheap
            rw [memDmaMergeNext_dmaheap, memDmaMergePrev_dmaheap]

/-- `mem_dma_free` of a live pointer succeeds and leaves a well-formed heap. -/
theorem memDmaFree_spec (wellFormed : heap.WellFormed dmaend blocks live)
    (returned : live.Perm (entry :: remaining)) :
    ∃ heap' blocks', memDmaFree heap entry.1 = .ok heap' ∧
      heap'.WellFormed dmaend blocks' remaining := by
  obtain ⟨isSeg, aligned, low, high⟩ :=
    wellFormed.pointers entry (returned.symm.subset List.mem_cons_self)
  simp only [PARASIZE] at aligned low
  have inView : (live.map farEntry).Perm (farEntry entry :: remaining.map farEntry) :=
    returned.map farEntry
  obtain ⟨view, blocks', freed, after, -⟩ := kfree_spec wellFormed.view inView
  obtain ⟨heap', result, isView, starts⟩ :=
    memDmaFree_far (by unfold PARASIZE; omega) (by unfold PARASIZE; omega) freed
  have pointer : entry.1 = ⟨DMA_START, entry.1.offs - PARASIZE + PARASIZE⟩ := by
    have back := Nat.sub_add_cancel low
    unfold PARASIZE
    rw [← isSeg, back]
  rw [pointer]
  exact ⟨heap', blocks', result, isView ▸ after, starts.trans wellFormed.starts,
    wellFormed.small, fun other member =>
      wellFormed.pointers other (returned.symm.subset (List.mem_cons_of_mem _ member))⟩

end Spec

/-! ## Blocks by offset -/

/-- A block of the view, with the offset of its header and its size in bytes. -/
def offsBlock (block : Block) : Block :=
  ⟨PARASIZE * (block.addr - DMA_START), PARASIZE * block.size, block.used⟩

theorem linked_offs {heap : DmaHeap} {blocks : List Block} {offs : Nat}
    (inside : ∀ block ∈ blocks, DMA_START ≤ block.addr ∧ block.addr < 0x1000)
    (linked : Linked heap.far.headers (link offs) blocks 0) :
    Linked heap.headers offs (blocks.map offsBlock) DMANULL := by
  induction blocks generalizing offs with
  | nil => exact (link_eq_zero offs).mp linked
  | cons block rest ih =>
      obtain ⟨addr, size, used, after⟩ := linked
      obtain ⟨low, high⟩ := inside block List.mem_cons_self
      have proper : offs ≠ DMANULL := fun isNull => by
        rw [(link_eq_zero offs).mpr isNull] at addr
        unfold DMA_START at low
        omega
      simp only [FarHeap.headers, far_fmap heap proper] at size used after
      refine ⟨(offs_of_link addr.symm low high).symm, congrArg (PARASIZE * ·) size, used, ?_⟩
      exact ih (fun other member => inside other (List.mem_cons_of_mem _ member)) after

theorem tiles_offs {blocks : List Block} {start stop : Nat} (low : DMA_START ≤ start)
    (tiles : Tiles 1 start blocks stop) :
    Tiles PARASIZE (PARASIZE * (start - DMA_START)) (blocks.map offsBlock)
      (PARASIZE * (stop - DMA_START)) := by
  induction blocks generalizing start with
  | nil => exact congrArg (fun seg => PARASIZE * (seg - DMA_START)) tiles
  | cons block rest ih =>
      obtain ⟨rfl, after⟩ := tiles
      refine ⟨rfl, ?_⟩
      have next : (offsBlock block).addr + PARASIZE + (offsBlock block).size =
          PARASIZE * (block.addr + 1 + block.size - DMA_START) := by
        simp only [offsBlock, PARASIZE]
        omega
      rw [next]
      exact ih (by omega) after

theorem coalesced_offs {blocks : List Block} (coalesced : Coalesced blocks) :
    Coalesced (blocks.map offsBlock) :=
  (List.isChain_map offsBlock).mpr coalesced

/-! ## Runs of the DMA heap -/

/-- The DMA heap after `bytes` bytes from an offset on have been stored into.  The headers that
are then found where a store reached are `contents`. -/
def DmaHeap.store (heap : DmaHeap) (first bytes : Nat) (contents : Nat → MemHdr) : DmaHeap :=
  { heap with dmap := fun offs =>
      if offs < first + bytes ∧ first < offs + PARASIZE then contents offs else heap.dmap offs }

/-- The DMA heap together with the pointers its callers hold. -/
structure DmaSystem where
  heap : DmaHeap
  live : List (FarPtr × Nat)

/-- What callers do: allocate, free a pointer they hold, or store into a payload they hold. -/
inductive DmaAction where
  | alloc (size : Nat)
  | free (entry : FarPtr × Nat)
  | store (entry : FarPtr × Nat) (first bytes : Nat) (contents : Nat → MemHdr)

namespace DmaSystem

/-- `mem_init` with no pointer handed out. -/
def start (dmap : Nat → MemHdr) (dmaend : Nat) : DmaSystem := ⟨memInitDma dmap dmaend, []⟩

def step (system : DmaSystem) : DmaAction → Option DmaSystem
  | .alloc size =>
      (memDmaAlloc system.heap size).value?.map fun (heap, result) =>
        ⟨heap, result.elim system.live fun ptr => (ptr, size) :: system.live⟩
  | .free entry =>
      if entry ∈ system.live then
        (memDmaFree system.heap entry.1).value?.map fun heap => ⟨heap, system.live.erase entry⟩
      else none
  | .store entry first bytes contents =>
      if entry ∈ system.live ∧ entry.1.offs ≤ first ∧ first + bytes ≤ entry.1.offs + entry.2 then
        some { system with heap := system.heap.store first bytes contents }
      else none

/-- Free pointers one after the other. -/
def freeAll (heap : DmaHeap) : List FarPtr → Outcome DmaHeap
  | [] => .ok heap
  | ptr :: rest => (memDmaFree heap ptr).bind fun heap => freeAll heap rest

/-- What the callers of the DMA heap rely on.  The block list is the header list of the heap: it
tiles the bytes up to `dmaend`, no two neighbours are free, and every live pointer is the payload
of an allocated block with enough bytes, all of them in one physical page of 64K. -/
structure Correct (system : DmaSystem) (dmaend : Nat) : Prop where
  headerList : ∃ blocks,
    Linked system.heap.headers system.heap.dmaheap blocks DMANULL ∧
      Tiles PARASIZE 0 blocks (PARASIZE * (dmaend - DMA_START)) ∧ Coalesced blocks ∧
      (∀ entry ∈ system.live, klinear entry.1 % PARASIZE = 0 ∧
        (∃ block ∈ blocks, block.used = true ∧
          klinear entry.1 = PARASIZE * DMA_START + block.addr + PARASIZE ∧
          entry.2 ≤ block.size) ∧
        klinear entry.1 + entry.2 ≤ PARASIZE * dmaend ∧
        klinear entry.1 / 0x10000 = (klinear entry.1 + (entry.2 - 1)) / 0x10000) ∧
      (∀ size, ∃ heap result, memDmaAlloc system.heap size = .ok (heap, result) ∧
        (result = none → 0xfff0 < size ∨ ∀ block ∈ blocks, block.used = true ∨ block.size < size))
  disjoint : system.live.Pairwise fun entry other =>
    klinear entry.1 + entry.2 + PARASIZE ≤ klinear other.1 ∨
      klinear other.1 + other.2 + PARASIZE ≤ klinear entry.1
  free : ∀ entry ∈ system.live, ∃ heap, memDmaFree system.heap entry.1 = .ok heap
  freeAll : ∀ order : List (FarPtr × Nat), order.Perm system.live →
    ∃ heap, DmaSystem.freeAll system.heap (order.map Prod.fst) = .ok heap ∧
      Linked heap.headers heap.dmaheap
        [⟨0, PARASIZE * (dmaend - DMA_START - 1), false⟩] DMANULL

variable {system system' : DmaSystem} {dmap : Nat → MemHdr} {dmaend : Nat}
variable {blocks : List Block}

theorem start_wellFormed (proper : 0x0052 ≤ dmaend) (small : dmaend ≤ 0x1000) :
    (start dmap dmaend).heap.WellFormed dmaend [⟨DMA_START, dmaend - DMA_START - 1, false⟩]
      [] where
  view := by
    have named : link 0 = DMA_START := link_paras (by decide : 0 < 0x1000)
    have para : sub16 (sub16 dmaend DMA_START) 1 = sub16 dmaend (DMA_START + 1) := by
      unfold sub16 DMA_START
      omega
    have view : (start dmap dmaend).heap.far =
        memInit (DmaHeap.far ⟨dmap, 0⟩).fmap DMA_START dmaend := by
      have stored : (memInitDma dmap dmaend).far = (DmaHeap.far ⟨dmap, 0⟩).modify (link 0)
          fun _ => ⟨0, sub16 dmaend (DMA_START + 1), 0⟩ := by
        refine far_modify ⟨dmap, 0⟩ (by decide) fun h => ?_
        rw [← para]
        rfl
      have whole : FarHeap.mk (DmaHeap.far ⟨dmap, 0⟩).fmap DMA_START = DmaHeap.far ⟨dmap, 0⟩ := by
        rw [← named]
        rfl
      rw [memInit, whole, ← named]
      exact stored
    rw [view]
    exact FarSystem.start_wellFormed (by decide) (by unfold DMA_START; omega) (by omega)
  starts := rfl
  small := small
  pointers := by simp

/-- A store into a held payload touches no header. -/
theorem store_wellFormed (wellFormed : system.heap.WellFormed dmaend blocks system.live)
    {entry : FarPtr × Nat} (member : entry ∈ system.live) {first bytes : Nat}
    (low : entry.1.offs ≤ first) (high : first + bytes ≤ entry.1.offs + entry.2)
    (contents : Nat → MemHdr) :
    (system.heap.store first bytes contents).WellFormed dmaend blocks system.live := by
  obtain ⟨owner, ownerIn, -, isOffs, room⟩ := wellFormed.owner member
  have ownerBounds := wellFormed.addr_bounds ownerIn
  refine ⟨⟨⟨?_, wellFormed.view.tiles, wellFormed.view.positive, wellFormed.view.bounded⟩,
    wellFormed.view.coalesced, wellFormed.view.owned, wellFormed.view.aligned,
    wellFormed.view.proper⟩, wellFormed.starts, wellFormed.small, wellFormed.pointers⟩
  refine wellFormed.view.linked.congr fun block inBlocks => ?_
  have named := wellFormed.link_offs inBlocks
  have bounds := wellFormed.addr_bounds inBlocks
  obtain ⟨offs, isBlock⟩ : ∃ offs, offs = 16 * (block.addr - DMA_START) := ⟨_, rfl⟩
  rw [← isBlock] at named
  have outside : ¬(offs < first + bytes ∧ first < offs + PARASIZE) := by
    unfold PARASIZE at *
    by_cases same : block = owner
    · subst same
      omega
    · rcases wellFormed.view.tiles.apart inBlocks ownerIn same with before | after <;> omega
  have proper : offs ≠ DMANULL := by
    unfold DMANULL
    omega
  have kept : (system.heap.store first bytes contents).far.fmap block.addr =
      system.heap.far.fmap block.addr := by
    rw [← named, far_fmap _ proper, far_fmap _ proper, DmaHeap.store]
    simp only [if_neg outside]
  simp only [Headers.AgreeAt, FarHeap.headers, kept, and_self]

/-- Every step keeps the DMA heap well formed, over the same region. -/
theorem step_wellFormed (wellFormed : system.heap.WellFormed dmaend blocks system.live)
    {action : DmaAction} (taken : system.step action = some system') :
    ∃ blocks', system'.heap.WellFormed dmaend blocks' system'.live := by
  cases action with
  | alloc size =>
      rcases memDmaAlloc_spec wellFormed size with
        ⟨heap, ptr, blocks', result, after⟩ | ⟨result, -⟩
      · simp only [step, result, Outcome.value?_ok, Option.map_some, Option.elim_some,
          Option.some.injEq] at taken
        subst taken
        exact ⟨blocks', after⟩
      · simp only [step, result, Outcome.value?_ok, Option.map_some, Option.elim_none,
          Option.some.injEq] at taken
        subst taken
        exact ⟨blocks, wellFormed⟩
  | free entry =>
      by_cases member : entry ∈ system.live
      · obtain ⟨heap, blocks', result, after⟩ :=
          memDmaFree_spec wellFormed (List.perm_cons_erase member)
        simp only [step, member, if_true, result, Outcome.value?_ok, Option.map_some,
          Option.some.injEq] at taken
        subst taken
        exact ⟨blocks', after⟩
      · simp [step, member] at taken
  | store entry first bytes contents =>
      rw [step] at taken
      split_ifs at taken with allowed
      · obtain rfl := Option.some.inj taken
        exact ⟨blocks, store_wellFormed wellFormed allowed.1 allowed.2.1 allowed.2.2 contents⟩

/-- The header list by offset. -/
theorem linked_of_wellFormed {heap : DmaHeap} {live : List (FarPtr × Nat)}
    (wellFormed : heap.WellFormed dmaend blocks live) :
    Linked heap.headers heap.dmaheap (blocks.map offsBlock) DMANULL := by
  refine linked_offs (fun block member => ?_) wellFormed.view.linked
  have bounds := wellFormed.addr_bounds member
  exact ⟨bounds.1, by omega⟩

/-- Freeing all held pointers, in the order of the list, leaves one free block. -/
theorem freeAll_spec {heap : DmaHeap} {live : List (FarPtr × Nat)}
    (wellFormed : heap.WellFormed dmaend blocks live) :
    ∃ heap', DmaSystem.freeAll heap (live.map Prod.fst) = .ok heap' ∧
      Linked heap'.headers heap'.dmaheap
        [⟨0, PARASIZE * (dmaend - DMA_START - 1), false⟩] DMANULL := by
  induction live generalizing heap blocks with
  | nil =>
      have single := wellFormed.view.integrity.eq_single wellFormed.view.proper
      have linked := linked_of_wellFormed wellFormed
      rw [single, DmaHeap.far_farheap wellFormed.starts] at linked
      exact ⟨heap, rfl, linked⟩
  | cons entry live ih =>
      obtain ⟨heap', blocks', result, after⟩ :=
        memDmaFree_spec wellFormed (List.Perm.refl (entry :: live))
      obtain ⟨last, freed, linked⟩ := ih after
      refine ⟨last, ?_, linked⟩
      simp only [List.map_cons, DmaSystem.freeAll, result, Outcome.bind_ok, freed]

theorem WellFormed.perm {heap : DmaHeap} {live order : List (FarPtr × Nat)}
    (wellFormed : heap.WellFormed dmaend blocks live) (perm : order.Perm live) :
    heap.WellFormed dmaend blocks order where
  view := FarSystem.WellFormed.perm wellFormed.view (perm.map farEntry)
  starts := wellFormed.starts
  small := wellFormed.small
  pointers := fun entry member => wellFormed.pointers entry (perm.subset member)

/-- A well-formed DMA heap serves its callers correctly. -/
theorem correct_of_wellFormed (wellFormed : system.heap.WellFormed dmaend blocks system.live) :
    system.Correct dmaend where
  headerList := by
    refine ⟨blocks.map offsBlock, linked_of_wellFormed wellFormed, ?_,
      coalesced_offs wellFormed.view.coalesced, ?_, ?_⟩
    · have tiles := wellFormed.view.tiles
      rw [DmaHeap.far_farheap wellFormed.starts] at tiles
      have shifted := tiles_offs le_rfl tiles
      rwa [Nat.sub_self, Nat.mul_zero] at shifted
    · intro entry member
      obtain ⟨isSeg, aligned, -, -⟩ := wellFormed.pointers entry member
      obtain ⟨block, inBlocks, used, isOffs, room⟩ := wellFormed.owner member
      have bounds := wellFormed.addr_bounds inBlocks
      have stop := (wellFormed.view.tiles.bounds inBlocks).2
      have linear := wellFormed.klinear_eq member
      simp only [PARASIZE, DMA_START] at *
      refine ⟨by omega, ⟨_, List.mem_map_of_mem inBlocks, used, ?_, room⟩, by omega, by omega⟩
      simp only [offsBlock, PARASIZE, DMA_START]
      omega
    · intro size
      rcases memDmaAlloc_spec wellFormed size with
        ⟨heap, ptr, blocks', result, -⟩ | ⟨result, full⟩
      · exact ⟨heap, some ptr, result, by simp⟩
      · refine ⟨system.heap, none, result, fun _ => full.imp_right fun full block member => ?_⟩
        obtain ⟨inView, isIn, rfl⟩ := List.mem_map.mp member
        exact full inView isIn
  disjoint := by
    have apart : FarSystem.Correct ⟨system.heap.far, system.live.map farEntry⟩ dmaend :=
      FarSystem.correct_of_wellFormed wellFormed.view
    refine (List.pairwise_map.mp apart.disjoint).imp_of_mem ?_
    intro entry other member otherMember disjoint
    rw [wellFormed.klinear_farEntry member, wellFormed.klinear_farEntry otherMember] at disjoint
    exact disjoint
  free := by
    intro entry member
    obtain ⟨heap, -, result, -⟩ := memDmaFree_spec wellFormed (List.perm_cons_erase member)
    exact ⟨heap, result⟩
  freeAll := fun order perm => freeAll_spec (WellFormed.perm wellFormed perm)

/-- DMA heap correctness: over every run of `mem_dma_alloc`, `mem_dma_free` of held pointers and
stores by the holders, from the heap that `mem_init` makes. -/
theorem mem_dma_correct (proper : 0x0052 ≤ dmaend) (small : dmaend ≤ 0x1000)
    (reached : Reachable (· = start dmap dmaend)
      (fun system action system' => system.step action = some system') system) :
    system.Correct dmaend := by
  have kept : ∃ blocks, system.heap.WellFormed dmaend blocks system.live := by
    refine reached.invariant (fun system => ∃ blocks,
      system.heap.WellFormed dmaend blocks system.live) ?_ ?_
    · rintro system rfl
      exact ⟨_, start_wellFormed proper small⟩
    · rintro system system' action ⟨blocks, wellFormed⟩ - taken
      exact step_wellFormed wellFormed taken
  obtain ⟨blocks, wellFormed⟩ := kept
  exact correct_of_wellFormed wellFormed

/-- The theorem applies after two allocations of which the first is freed. -/
theorem mem_dma_correct_after_free :
    ∃ system, runs step (start (fun _ => ⟨0, 0, 0⟩) 0x1000)
        [.alloc 100, .alloc 40, .free (⟨0x0050, 16⟩, 100)] = some system ∧
      system.live = [(⟨0x0050, 144⟩, 40)] ∧ system.Correct 0x1000 := by
  have lives : (runs step (start (fun _ => ⟨0, 0, 0⟩) 0x1000)
      [.alloc 100, .alloc 40, .free (⟨0x0050, 16⟩, 100)]).map DmaSystem.live =
        some [(⟨0x0050, 144⟩, 40)] := by
    decide +kernel
  obtain ⟨system, ran, live⟩ := Option.map_eq_some_iff.mp lives
  refine ⟨system, ran, live, ?_⟩
  exact mem_dma_correct (by decide) (by decide) (reachable_of_runs rfl ran)

end DmaSystem

end Pegasos.Kernel.Memory
