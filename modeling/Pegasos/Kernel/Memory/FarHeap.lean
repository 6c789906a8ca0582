import Pegasos.Support.Bits
import Pegasos.Support.BlockChain
import Pegasos.Support.Outcome
import Pegasos.Support.Ownership
import Pegasos.Support.Transition
import Pegasos.Support.Tables

/-!
# The far heap

`kmalloc` and `kfree` manage conventional memory in paragraphs of 16 bytes.  A
block is one header paragraph followed by `para` payload paragraphs, and the
headers form a list through `next` segments.

The model keeps the header fields found at every segment, so a store by the
owner of a payload may leave any header-shaped contents behind.  The main result
is `kmalloc_kfree_correct`: over every run the blocks tile the region from
`farheap` to `topseg`, and neither routine panics or loops.
-/

namespace Pegasos.Kernel.Memory

open Pegasos.Support

def PARASIZE : Nat := 16
def PARASHIFT : Nat := 4
def BLK_INUSE : Nat := 0x0001

/-- `ROUND_TO_PARA`. -/
def roundToPara (size : Nat) : Nat := (size + PARASIZE - 1) >>> PARASHIFT

/-- A far pointer. -/
structure FarPtr where
  seg : Nat
  offs : Nat
  deriving DecidableEq, Repr

instance lawfulBEq_sized : LawfulBEq (FarPtr × Nat) := inferInstance

/-- `KLINEAR`: the linear address of a far pointer. -/
def klinear (ptr : FarPtr) : Nat := (ptr.seg <<< 4) + ptr.offs

/-- The header fields of `memhdr_t` that the allocator uses. -/
structure MemHdr where
  next : Nat
  para : Nat
  flags : Nat
  deriving DecidableEq, Repr

/-- The far heap: `fmap seg` is the header found at `seg:0`. -/
structure FarHeap where
  fmap : Nat → MemHdr
  farheap : Nat

namespace FarHeap

/-- Store into the header at a segment. -/
def modify (heap : FarHeap) (seg : Nat) (store : MemHdr → MemHdr) : FarHeap :=
  { heap with fmap := fun other => if other = seg then store (heap.fmap seg) else heap.fmap other }

/-- The header view that the allocator loops walk. -/
def headers (heap : FarHeap) : Headers where
  next seg := (heap.fmap seg).next
  size seg := (heap.fmap seg).para
  used seg := lowBit (heap.fmap seg).flags

@[simp] theorem modify_farheap (heap : FarHeap) (seg : Nat) (store : MemHdr → MemHdr) :
    (heap.modify seg store).farheap = heap.farheap := rfl

@[simp] theorem modify_self (heap : FarHeap) (seg : Nat) (store : MemHdr → MemHdr) :
    (heap.modify seg store).fmap seg = store (heap.fmap seg) := by
  simp [modify]

theorem modify_other (heap : FarHeap) {seg other : Nat} (store : MemHdr → MemHdr)
    (ne : other ≠ seg) : (heap.modify seg store).fmap other = heap.fmap other := by
  simp [modify, ne]

end FarHeap

/-- The far part of `mem_init`: one free block from `ksegend` to `topseg`, which
the source reads from the BIOS memory size. -/
def memInit (fmap : Nat → MemHdr) (ksegend topseg : Nat) : FarHeap :=
  FarHeap.modify ⟨fmap, ksegend⟩ ksegend fun _ =>
    { next := 0, para := sub16 topseg (ksegend + 1), flags := 0 }

/-- Segments are 16-bit, so a list without a cycle has fewer headers than this. -/
def walkFuel : Nat := 0x10000

/-- The stores with which `kmalloc` splits the block at `bseg` and makes a header
at `nseg` for what is left of it. -/
def kmallocSplit (heap : FarHeap) (bseg nseg sz : Nat) : FarHeap :=
  let heap := heap.modify nseg fun nh => { nh with next := (heap.fmap bseg).next }
  let heap := heap.modify bseg fun h => { h with next := nseg }
  let heap := heap.modify nseg fun nh =>
    { nh with para := sub16 (sub16 (heap.fmap bseg).para 1) sz }
  let heap := heap.modify bseg fun h => { h with para := sz }
  heap.modify nseg fun nh => { nh with flags := nh.flags &&& 0xfffe }

/-- The test with which `kmalloc` leaves its search: a free block of at least
`sz` paragraphs. -/
def kmallocFits (heap : FarHeap) (sz seg : Nat) : Bool :=
  (heap.fmap seg).flags &&& BLK_INUSE = 0 ∧ (heap.fmap seg).para ≥ sz

/-- `kmalloc`. -/
def kmalloc (heap : FarHeap) (size : Nat) : Outcome (FarHeap × Option FarPtr) :=
  if size > 0xFFFF0 then
    .ok (heap, none)
  else
    let sz := roundToPara size % 0x10000
    match walk (fun seg => (heap.fmap seg).next) 0 (kmallocFits heap sz) walkFuel 0
        heap.farheap with
    | none => .hang
    | some none => .ok (heap, none)
    | some (some (_, bseg)) =>
        let heap := heap.modify bseg fun h => { h with flags := h.flags ||| BLK_INUSE }
        let ptr : FarPtr := ⟨bseg, PARASIZE⟩
        if (heap.fmap bseg).para > (sz + 1) % 0x10000 then
          .ok (kmallocSplit heap bseg ((bseg + sz + 1) % 0x10000) sz, some ptr)
        else
          .ok (heap, some ptr)

/-- The search of `kmalloc`, with its overflow check. -/
def kmallocSearch (heap : FarHeap) (size : Nat) : Outcome (Option Nat) :=
  if size > 0xFFFF0 then .ok none
  else
    match walk (fun seg => (heap.fmap seg).next) 0
        (kmallocFits heap (roundToPara size % 0x10000)) walkFuel 0 heap.farheap with
    | none => .hang
    | some found => .ok (found.map Prod.snd)

/-- What `kmalloc` does to the block that it has found. -/
def kmallocCommit (heap : FarHeap) (size bseg : Nat) : FarHeap × FarPtr :=
  let sz := roundToPara size % 0x10000
  let heap := heap.modify bseg fun h => { h with flags := h.flags ||| BLK_INUSE }
  (if (heap.fmap bseg).para > (sz + 1) % 0x10000 then
    kmallocSplit heap bseg ((bseg + sz + 1) % 0x10000) sz
  else heap, ⟨bseg, PARASIZE⟩)

/-- The two parts make up `kmalloc`. -/
theorem kmalloc_parts (heap : FarHeap) (size : Nat) : kmalloc heap size =
    (kmallocSearch heap size).bind fun found => .ok <| found.elim (heap, none) fun bseg =>
      ((kmallocCommit heap size bseg).1, some (kmallocCommit heap size bseg).2) := by
  unfold kmalloc kmallocSearch
  split
  · rfl
  · dsimp only
    split
    · rename_i hung
      rw [hung]
      rfl
    · rename_i missed
      rw [missed]
      rfl
    · rename_i found
      rw [found]
      simp only [kmallocCommit, Option.map_some, Outcome.bind_ok, Option.elim_some]
      split <;> rfl

/-- The part of `kfree` that merges the block at `bseg` into a free block at
`pseg`; it returns the segment of the block that now covers both. -/
def kfreeMergePrev (heap : FarHeap) (pseg bseg : Nat) : FarHeap × Nat :=
  if pseg ≠ 0 ∧ (heap.fmap pseg).flags &&& BLK_INUSE = 0 then
    let heap := heap.modify pseg fun prev =>
      { prev with para := (prev.para + 1 + (heap.fmap bseg).para) % 0x10000 }
    let heap := heap.modify pseg fun prev => { prev with next := (heap.fmap bseg).next }
    (heap, pseg)
  else
    (heap, bseg)

/-- The part of `kfree` that merges a free successor into the block at `bseg`. -/
def kfreeMergeNext (heap : FarHeap) (bseg : Nat) : FarHeap :=
  let next := (heap.fmap bseg).next
  if next ≠ 0 ∧ (heap.fmap next).flags &&& BLK_INUSE = 0 then
    let heap := heap.modify bseg fun curr =>
      { curr with para := (curr.para + 1 + (heap.fmap next).para) % 0x10000 }
    heap.modify bseg fun curr => { curr with next := (heap.fmap next).next }
  else
    heap

/-- `kfree`. -/
def kfree (heap : FarHeap) (ptr : FarPtr) : Outcome FarHeap :=
  let lin := (klinear ptr + 0x100000000 - PARASIZE) % 0x100000000
  let seg := (lin >>> PARASHIFT) % 0x10000
  let offs := lin &&& 0x000f
  if offs ≠ 0 then
    .panic "kfree: pointer is not para aligned"
  else
    match walk (fun seg => (heap.fmap seg).next) 0 (fun bseg => bseg = seg) walkFuel 0
        heap.farheap with
    | none => .hang
    | some none => .panic "kfree: pointer is not an alloc'ed block"
    | some (some (pseg, bseg)) =>
        let (heap, bseg) := kfreeMergePrev heap pseg bseg
        let heap := kfreeMergeNext heap bseg
        .ok (heap.modify bseg fun curr => { curr with flags := curr.flags &&& 0xfffe })

/-- The search of `kfree`, with its check of the pointer: the block and the one before. -/
def kfreeSearch (heap : FarHeap) (ptr : FarPtr) : Outcome (Nat × Nat) :=
  let lin := (klinear ptr + 0x100000000 - PARASIZE) % 0x100000000
  if lin &&& 0x000f ≠ 0 then .panic "kfree: pointer is not para aligned"
  else
    match walk (fun seg => (heap.fmap seg).next) 0
        (fun bseg => bseg = (lin >>> PARASHIFT) % 0x10000) walkFuel 0 heap.farheap with
    | none => .hang
    | some none => .panic "kfree: pointer is not an alloc'ed block"
    | some (some found) => .ok found

/-- What `kfree` does to the blocks that it has found. -/
def kfreeCommit (heap : FarHeap) (found : Nat × Nat) : FarHeap :=
  let (heap, bseg) := kfreeMergePrev heap found.1 found.2
  let heap := kfreeMergeNext heap bseg
  heap.modify bseg fun curr => { curr with flags := curr.flags &&& 0xfffe }

/-- The two parts make up `kfree`. -/
theorem kfree_parts (heap : FarHeap) (ptr : FarPtr) : kfree heap ptr =
    (kfreeSearch heap ptr).bind fun found => .ok (kfreeCommit heap found) := by
  unfold kfree kfreeSearch
  dsimp only
  split
  · rfl
  · split
    · rename_i hung
      rw [hung]
      rfl
    · rename_i missed
      rw [missed]
      rfl
    · rename_i found
      rw [found]
      rfl

/-! ## Well-formed far heaps -/

/-- The payload paragraph and the size of a pointer handed out by `kmalloc`. -/
def payloadOf (entry : FarPtr × Nat) : Nat × Nat := (entry.1.seg + 1, entry.2)

/-- The header list of a far heap visits exactly `blocks`, which tile the region
from `farheap` to `topseg`. -/
structure FarHeap.Represents (heap : FarHeap) (topseg : Nat) (blocks : List Block) : Prop where
  linked : Linked heap.headers heap.farheap blocks 0
  tiles : Tiles 1 heap.farheap blocks topseg
  positive : 0 < heap.farheap
  bounded : topseg ≤ 0xA000

namespace FarHeap.Represents

variable {heap : FarHeap} {topseg : Nat} {front rest blocks : List Block} {block : Block}

theorem addr_bounds (represents : heap.Represents topseg blocks) (member : block ∈ blocks) :
    0 < block.addr ∧ block.addr + 1 + block.size ≤ topseg := by
  have inside := represents.tiles.bounds member
  have := represents.positive
  omega

theorem length_lt (represents : heap.Represents topseg blocks) : blocks.length < walkFuel := by
  have := represents.tiles.length_mul_le
  have := represents.bounded
  unfold walkFuel
  omega

/-- The fields of the header of one block. -/
theorem fields (represents : heap.Represents topseg blocks) (member : block ∈ blocks) :
    (heap.fmap block.addr).para = block.size ∧
      lowBit (heap.fmap block.addr).flags = block.used := by
  obtain ⟨front, rest, rfl⟩ := List.append_of_mem member
  obtain ⟨-, size, used, -⟩ := linked_around.mp represents.linked
  exact ⟨size, used⟩

/-- The next link of a block leads to its successor, if there is one. -/
theorem next_eq (represents : heap.Represents topseg (front ++ block :: rest)) :
    (heap.fmap block.addr).next = (rest.head?.map Block.addr).getD 0 := by
  obtain ⟨-, -, -, after⟩ := linked_around.mp represents.linked
  cases rest with
  | nil => exact after
  | cons next rest => exact after.1.symm

end FarHeap.Represents

/-- A far heap with the pointers in `live` handed out. -/
structure FarHeap.WellFormed (heap : FarHeap) (topseg : Nat) (blocks : List Block)
    (live : List (FarPtr × Nat)) : Prop extends heap.Represents topseg blocks where
  coalesced : Coalesced blocks
  owned : Owned 1 16 blocks (live.map payloadOf)
  aligned : ∀ entry ∈ live, entry.1.offs = PARASIZE
  proper : heap.farheap < topseg

theorem FarHeap.WellFormed.integrity {heap : FarHeap} {topseg : Nat} {blocks : List Block}
    {live : List (FarPtr × Nat)} (wellFormed : heap.WellFormed topseg blocks live) :
    Integrity 1 16 heap.farheap topseg blocks (live.map payloadOf) :=
  ⟨wellFormed.tiles, wellFormed.coalesced, wellFormed.owned⟩

/-! ## Allocation -/

section Kmalloc

variable {heap : FarHeap} {topseg size sz : Nat} {front rest blocks : List Block}
variable {block : Block} {live : List (FarPtr × Nat)}

/-- The paragraphs of a request that passes the overflow check. -/
theorem roundToPara_eq (small : size ≤ 0xFFFF0) :
    roundToPara size % 0x10000 = (size + 15) / 16 := by
  simp only [roundToPara, PARASIZE, PARASHIFT, Nat.shiftRight_eq_div_pow]
  omega

theorem kmallocSplit_self {bseg nseg : Nat} (ne : nseg ≠ bseg) :
    (kmallocSplit heap bseg nseg sz).fmap bseg =
      { (heap.fmap bseg) with next := nseg, para := sz } := by
  simp [kmallocSplit, FarHeap.modify, ne.symm]

theorem kmallocSplit_new {bseg nseg : Nat} (ne : nseg ≠ bseg) :
    (kmallocSplit heap bseg nseg sz).fmap nseg =
      { next := (heap.fmap bseg).next
        para := sub16 (sub16 (heap.fmap bseg).para 1) sz
        flags := (heap.fmap nseg).flags &&& 0xfffe } := by
  simp [kmallocSplit, FarHeap.modify, ne, ne.symm]

theorem kmallocSplit_other {bseg nseg seg : Nat} (notBlock : seg ≠ bseg) (notNew : seg ≠ nseg) :
    (kmallocSplit heap bseg nseg sz).fmap seg = heap.fmap seg := by
  simp [kmallocSplit, FarHeap.modify, notBlock, notNew]

/-- The search of `kmalloc` recognises the free blocks that are large enough. -/
theorem kmallocFits_iff (represents : heap.Represents topseg blocks) (member : block ∈ blocks) :
    kmallocFits heap sz block.addr = true ↔ block.used = false ∧ sz ≤ block.size := by
  obtain ⟨para, used⟩ := represents.fields member
  rw [kmallocFits, decide_eq_true_iff, BLK_INUSE, and_one_eq_zero, para, used]

/-- Handing out a whole block. -/
theorem FarHeap.WellFormed.occupy (sz : Nat)
    (wellFormed : heap.WellFormed topseg (front ++ block :: rest) live)
    (free : block.used = false) (room : size ≤ 16 * block.size) :
    (heap.modify block.addr fun h => { h with flags := h.flags ||| BLK_INUSE }).WellFormed topseg
      (front ++ carve 1 sz false block ++ rest) ((⟨block.addr, PARASIZE⟩, size) :: live) where
  linked := by
    obtain ⟨para, -⟩ := wellFormed.fields List.mem_append_cons_self
    simp only [carve, Bool.false_eq_true, if_false, List.append_assoc, List.singleton_append]
    refine wellFormed.linked.update _ _ ?_ ?_ ?_ ?_
    · simp [FarHeap.headers]
    · simpa [FarHeap.headers] using para
    · simp [FarHeap.headers, BLK_INUSE]
    · intro other member
      have apart := wellFormed.tiles.apart_around member
      have ne : other.addr ≠ block.addr := by omega
      simp [Headers.AgreeAt, FarHeap.headers, FarHeap.modify_other _ _ ne]
  tiles := wellFormed.tiles.carve (by simp)
  coalesced := wellFormed.coalesced.carve free
  owned := wellFormed.owned.carve free room (by simp)
  aligned := by
    intro entry member
    rcases List.mem_cons.mp member with rfl | earlier
    · rfl
    · exact wellFormed.aligned entry earlier
  positive := wellFormed.positive
  proper := wellFormed.proper
  bounded := wellFormed.bounded

/-- Handing out the first part of a block and keeping the rest as a free block. -/
theorem FarHeap.WellFormed.split
    (wellFormed : heap.WellFormed topseg (front ++ block :: rest) live)
    (free : block.used = false) (larger : sz + 1 < block.size) (room : size ≤ 16 * sz) :
    (kmallocSplit (heap.modify block.addr fun h => { h with flags := h.flags ||| BLK_INUSE })
      block.addr (block.addr + sz + 1) sz).WellFormed topseg
      (front ++ carve 1 sz true block ++ rest) ((⟨block.addr, PARASIZE⟩, size) :: live) where
  linked := by
    obtain ⟨para, -⟩ := wellFormed.fields List.mem_append_cons_self
    have bounds := wellFormed.addr_bounds List.mem_append_cons_self
    have bounded := wellFormed.bounded
    have ne : block.addr + sz + 1 ≠ block.addr := by omega
    have addr : block.addr + 1 + sz = block.addr + sz + 1 := by omega
    have left : sub16 (sub16 block.size 1) sz = block.size - sz - 1 := by
      have one : sub16 block.size 1 = block.size - 1 := sub16_of_le (by omega) (by omega)
      rw [one, sub16_of_le (by omega) (by omega)]
      omega
    simp only [carve, if_true, List.append_assoc, List.cons_append, List.nil_append, addr]
    refine wellFormed.linked.split sz true ?_ ?_ ?_ ?_ ?_ ?_ ?_
    · simp only [FarHeap.headers, kmallocSplit_self ne]
    · simp only [FarHeap.headers, kmallocSplit_self ne]
    · simp [FarHeap.headers, kmallocSplit_self ne, BLK_INUSE]
    · simp [FarHeap.headers, kmallocSplit_new ne]
    · simp [FarHeap.headers, kmallocSplit_new ne, para, left]
    · simp [FarHeap.headers, kmallocSplit_new ne]
    · intro other member
      have apart := wellFormed.tiles.apart_around member
      have notBlock : other.addr ≠ block.addr := by omega
      have notNew : other.addr ≠ block.addr + sz + 1 := by omega
      simp [Headers.AgreeAt, FarHeap.headers, kmallocSplit_other notBlock notNew,
        FarHeap.modify_other _ _ notBlock]
  tiles := wellFormed.tiles.carve fun _ => by omega
  coalesced := wellFormed.coalesced.carve free
  owned := wellFormed.owned.carve free (by omega) fun _ => room
  aligned := by
    intro entry member
    rcases List.mem_cons.mp member with rfl | earlier
    · rfl
    · exact wellFormed.aligned entry earlier
  positive := wellFormed.positive
  proper := wellFormed.proper
  bounded := wellFormed.bounded

/-- What `kmalloc` does to a free block that is large enough. -/
theorem kmallocCommit_spec (wellFormed : heap.WellFormed topseg (front ++ block :: rest) live)
    (small : size ≤ 0xFFFF0) (free : block.used = false)
    (enough : roundToPara size % 0x10000 ≤ block.size) :
    ∃ blocks', (kmallocCommit heap size block.addr).1.WellFormed topseg blocks'
        (((kmallocCommit heap size block.addr).2, size) :: live) ∧
      (kmallocCommit heap size block.addr).1.farheap = heap.farheap := by
  have paras := roundToPara_eq small
  obtain ⟨sz, isSz⟩ : ∃ sz, sz = (size + 15) / 16 := ⟨_, rfl⟩
  rw [← isSz] at paras
  rw [paras] at enough
  have bounds := wellFormed.addr_bounds List.mem_append_cons_self
  have bounded := wellFormed.bounded
  obtain ⟨para, -⟩ := wellFormed.fields List.mem_append_cons_self
  have noWrap : (sz + 1) % 0x10000 = sz + 1 := by omega
  simp only [kmallocCommit, paras, FarHeap.modify_self, para, noWrap]
  by_cases larger : block.size > sz + 1
  · have nseg : (block.addr + sz + 1) % 0x10000 = block.addr + sz + 1 := by omega
    rw [if_pos larger, nseg]
    exact ⟨_, wellFormed.split free larger (by omega), rfl⟩
  · rw [if_neg larger]
    exact ⟨_, wellFormed.occupy sz free (by omega), rfl⟩

/-- The search of `kmalloc` ends at a free block that is large enough, if there is one. -/
theorem kmallocSearch_spec (represents : heap.Represents topseg blocks) (small : size ≤ 0xFFFF0) :
    (∃ front block rest, blocks = front ++ block :: rest ∧ block.used = false ∧
        (size + 15) / 16 ≤ block.size ∧ kmallocSearch heap size = .ok (some block.addr)) ∨
      kmallocSearch heap size = .ok none ∧
        ∀ block ∈ blocks, block.used = true ∨ 16 * block.size < size := by
  have paras := roundToPara_eq small
  obtain ⟨sz, isSz⟩ : ∃ sz, sz = (size + 15) / 16 := ⟨_, rfl⟩
  rw [← isSz] at paras ⊢
  have huge : ¬size > 0xFFFF0 := Nat.not_lt_of_le small
  have proper : ∀ block ∈ blocks, block.addr ≠ 0 := fun block member => by
    have := represents.addr_bounds member
    omega
  rcases exists_first_or_none blocks (fun block => kmallocFits heap sz block.addr) with
    ⟨front, block, rest, rfl, hit, skipped⟩ | none
  · left
    have found := walk_found (kmallocFits heap sz) walkFuel 0 represents.linked
      represents.length_lt proper skipped hit
    obtain ⟨free, enough⟩ := (kmallocFits_iff represents List.mem_append_cons_self).mp hit
    simp only [FarHeap.headers] at found
    refine ⟨front, block, rest, rfl, free, enough, ?_⟩
    simp only [kmallocSearch, huge, if_false, paras, found, Option.map_some]
  · right
    have missed := walk_none (kmallocFits heap sz) walkFuel 0 represents.linked
      represents.length_lt proper none
    simp only [FarHeap.headers] at missed
    refine ⟨by simp only [kmallocSearch, huge, if_false, paras, missed, Option.map_none], ?_⟩
    intro block member
    have refused : ¬kmallocFits heap sz block.addr = true := by simp [none block member]
    rw [kmallocFits_iff represents member] at refused
    cases used : block.used with
    | true => exact .inl rfl
    | false =>
        right
        simp only [used, true_and, not_le] at refused
        omega

/-- `kmalloc` on a well-formed heap: it hands out a block and leaves a
well-formed heap, or it returns NULL because nothing is large enough. -/
theorem kmalloc_spec (wellFormed : heap.WellFormed topseg blocks live) (size : Nat) :
    (∃ heap' ptr blocks', kmalloc heap size = .ok (heap', some ptr) ∧
        heap'.WellFormed topseg blocks' ((ptr, size) :: live) ∧
        heap'.farheap = heap.farheap) ∨
      kmalloc heap size = .ok (heap, none) ∧
        (0xFFFF0 < size ∨ ∀ block ∈ blocks, block.used = true ∨ 16 * block.size < size) := by
  by_cases huge : size > 0xFFFF0
  · exact .inr ⟨by simp [kmalloc, huge], .inl huge⟩
  have small := Nat.le_of_not_lt huge
  rcases kmallocSearch_spec wellFormed.toRepresents small with
    ⟨front, block, rest, rfl, free, enough, found⟩ | ⟨missed, full⟩
  · left
    obtain ⟨blocks', after, same⟩ :=
      kmallocCommit_spec wellFormed small free ((roundToPara_eq small).symm ▸ enough)
    refine ⟨_, _, blocks', ?_, after, same⟩
    rw [kmalloc_parts, found, Outcome.bind_ok, Option.elim_some]
  · refine .inr ⟨?_, .inr full⟩
    rw [kmalloc_parts, missed, Outcome.bind_ok, Option.elim_none]

/-- Whether `kmalloc` succeeds depends on the sizes of the free blocks alone. -/
theorem kmalloc_some_iff (wellFormed : heap.WellFormed topseg blocks live) (size : Nat) :
    (∃ heap' ptr, kmalloc heap size = .ok (heap', some ptr)) ↔
      size ≤ 0xFFFF0 ∧ ∃ block ∈ blocks, block.used = false ∧ size ≤ 16 * block.size := by
  by_cases huge : size > 0xFFFF0
  · simp [kmalloc, huge]
  have small := Nat.le_of_not_lt huge
  rcases kmallocSearch_spec wellFormed.toRepresents small with
    ⟨front, block, rest, rfl, free, enough, found⟩ | ⟨missed, full⟩
  · have found : ∃ heap' ptr, kmalloc heap size = .ok (heap', some ptr) := by
      rw [kmalloc_parts, found, Outcome.bind_ok, Option.elim_some]
      exact ⟨_, _, rfl⟩
    exact iff_of_true found ⟨small, block, List.mem_append_cons_self, free, by omega⟩
  · refine iff_of_false ?_ ?_
    · rw [kmalloc_parts, missed, Outcome.bind_ok, Option.elim_none]
      simp
    · rintro ⟨-, block, member, free, enough⟩
      rcases full block member with used | smaller
      · simp [free] at used
      · omega

end Kmalloc

/-! ## Release -/

section Kfree

variable {heap : FarHeap} {topseg : Nat} {front rest blocks : List Block}
variable {block : Block} {live remaining : List (FarPtr × Nat)}

/-- The first merge of `kfree` is `absorbPrevious`, up to the flag of the block,
which `kfree` clears only at its end. -/
theorem kfreeMergePrev_spec (represents : heap.Represents topseg (front ++ block :: rest)) :
    ∃ used, (kfreeMergePrev heap (lastAddr 0 front) block.addr).1.Represents topseg
        ((absorbPrevious 1 front block).1 ++
          { (absorbPrevious 1 front block).2 with used := used } :: rest) ∧
      (kfreeMergePrev heap (lastAddr 0 front) block.addr).2 =
        (absorbPrevious 1 front block).2.addr ∧
      (kfreeMergePrev heap (lastAddr 0 front) block.addr).1.farheap = heap.farheap := by
  have tiles := represents.tiles.absorbPrevious
  have blockFields := represents.fields List.mem_append_cons_self
  have blockBounds := represents.addr_bounds List.mem_append_cons_self
  have bounded := represents.bounded
  rcases front_cases front with ⟨before, previous, rfl, free⟩ | used
  · rw [absorbPrevious_free free] at tiles ⊢
    have previousFields := represents.fields (show previous ∈ _ by simp)
    have previousBounds := represents.addr_bounds (show previous ∈ _ by simp)
    have begins : previous.addr + 1 + previous.size = block.addr := by
      have := represents.tiles
      simp only [List.append_assoc, List.singleton_append] at this
      exact (tiles_around.mp this).2.1.symm
    have clear : (heap.fmap previous.addr).flags &&& BLK_INUSE = 0 :=
      and_one_eq_zero.mpr (previousFields.2.trans free)
    have positive : previous.addr ≠ 0 := by omega
    have ne : block.addr ≠ previous.addr := by omega
    have grown : (previous.size + 1 + block.size) % 0x10000 = previous.size + 1 + block.size := by
      omega
    refine ⟨false, ?_⟩
    simp only [kfreeMergePrev, lastAddr_concat, ne_eq, positive, not_false_eq_true, clear,
      and_self, if_true, FarHeap.modify_farheap, and_true]
    refine ⟨?_, tiles, represents.positive, bounded⟩
    have linked := represents.linked
    simp only [List.append_assoc, List.singleton_append] at linked
    refine linked.merge _ _ ?_ ?_ ?_ ?_
    · simp [FarHeap.headers, FarHeap.modify_other _ _ ne]
    · simp [FarHeap.headers, previousFields.1, blockFields.1, grown]
    · simpa [FarHeap.headers, free] using previousFields.2
    · intro other member
      have elsewhere : other.addr ≠ previous.addr := by
        have around := represents.tiles
        simp only [List.append_assoc, List.singleton_append] at around
        have apart := around.apart_around (show other ∈ _ by
          simp only [List.mem_append, List.mem_cons] at member ⊢
          tauto)
        omega
      simp [Headers.AgreeAt, FarHeap.headers, FarHeap.modify_other _ _ elsewhere]
  · rw [absorbPrevious_used used] at tiles ⊢
    refine ⟨block.used, ?_⟩
    have kept : ¬(lastAddr 0 front ≠ 0 ∧
        (heap.fmap (lastAddr 0 front)).flags &&& BLK_INUSE = 0) := by
      rcases List.eq_nil_or_concat front with rfl | ⟨before, previous, rfl⟩
      · simp
      · have previousFields := represents.fields (show previous ∈ _ by simp)
        simp only [List.concat_eq_append, List.getLast?_concat, Option.all_some] at used
        simp only [List.concat_eq_append, lastAddr_concat, BLK_INUSE, and_one_eq_zero,
          previousFields.2, used]
        simp
    simp only [kfreeMergePrev, kept, if_false, and_true]
    exact represents

/-- The second merge of `kfree` is `absorbNext`. -/
theorem kfreeMergeNext_spec (represents : heap.Represents topseg (front ++ block :: rest)) :
    (kfreeMergeNext heap block.addr).Represents topseg (front ++ absorbNext 1 block rest) ∧
      (kfreeMergeNext heap block.addr).farheap = heap.farheap := by
  have tiles := represents.tiles.absorbNext
  have blockFields := represents.fields List.mem_append_cons_self
  have bounded := represents.bounded
  have link := represents.next_eq
  cases rest with
  | nil =>
      have ends : (heap.fmap block.addr).next = 0 := link
      simp only [kfreeMergeNext, ends, ne_eq, not_true_eq_false, false_and, if_false, and_true]
      exact represents
  | cons next rest =>
      have nextFields := represents.fields (show next ∈ _ by simp)
      have nextBounds := represents.addr_bounds (show next ∈ _ by simp)
      have begins : next.addr = block.addr + 1 + block.size :=
        (tiles_around.mp represents.tiles).2.1
      have leads : (heap.fmap block.addr).next = next.addr := link
      have positive : next.addr ≠ 0 := by omega
      cases used : next.used with
      | true =>
          rw [absorbNext_used used] at tiles ⊢
          have inUse : ¬(heap.fmap next.addr).flags &&& BLK_INUSE = 0 := by
            rw [BLK_INUSE, and_one_eq_zero, nextFields.2, used]
            simp
          simp only [kfreeMergeNext, leads, ne_eq, positive, inUse, and_false, if_false, and_true]
          exact represents
      | false =>
          rw [absorbNext_free used] at tiles ⊢
          have clear : (heap.fmap next.addr).flags &&& BLK_INUSE = 0 :=
            and_one_eq_zero.mpr (nextFields.2.trans used)
          have ne : next.addr ≠ block.addr := by omega
          have grown : (block.size + 1 + next.size) % 0x10000 = block.size + 1 + next.size := by
            omega
          simp only [kfreeMergeNext, leads, ne_eq, positive, not_false_eq_true, clear,
            and_self, if_true, FarHeap.modify_farheap, and_true]
          refine ⟨?_, tiles, represents.positive, bounded⟩
          refine represents.linked.merge _ _ ?_ ?_ ?_ ?_
          · simp [FarHeap.headers, FarHeap.modify_other _ _ ne]
          · simp [FarHeap.headers, nextFields.1, blockFields.1, grown]
          · simpa [FarHeap.headers] using blockFields.2
          · intro other member
            have elsewhere : other.addr ≠ block.addr := by
              have apart := represents.tiles.apart_around (show other ∈ _ by
                simp only [List.mem_append, List.mem_cons] at member ⊢
                tauto)
              omega
            simp [Headers.AgreeAt, FarHeap.headers, FarHeap.modify_other _ _ elsewhere]

/-- The last store of `kfree` clears the flag of the merged block. -/
theorem clearInUse_spec (represents : heap.Represents topseg (front ++ block :: rest)) :
    (heap.modify block.addr fun curr => { curr with flags := curr.flags &&& 0xfffe }).Represents
      topseg (front ++ { block with used := false } :: rest) where
  linked := by
    have blockFields := represents.fields List.mem_append_cons_self
    refine represents.linked.update _ _ ?_ ?_ ?_ ?_
    · simp [FarHeap.headers]
    · simpa [FarHeap.headers] using blockFields.1
    · simp [FarHeap.headers]
    · intro other member
      have apart := represents.tiles.apart_around member
      have ne : other.addr ≠ block.addr := by omega
      simp [Headers.AgreeAt, FarHeap.headers, FarHeap.modify_other _ _ ne]
  tiles := by
    obtain ⟨before, after⟩ := tiles_around.mp represents.tiles
    exact tiles_around.mpr ⟨before, after⟩
  positive := represents.positive
  bounded := represents.bounded

/-- The segment that `kfree` computes from a pointer returned by `kmalloc`. -/
theorem kfree_segment {seg : Nat} (small : seg < 0x10000) :
    ((klinear ⟨seg, PARASIZE⟩ + 0x100000000 - PARASIZE) % 0x100000000) >>> PARASHIFT % 0x10000 =
        seg ∧
      ((klinear ⟨seg, PARASIZE⟩ + 0x100000000 - PARASIZE) % 0x100000000) &&& 0x000f = 0 := by
  have linear : (klinear ⟨seg, PARASIZE⟩ + 0x100000000 - PARASIZE) % 0x100000000 = seg * 16 := by
    simp only [klinear, PARASIZE, Nat.shiftLeft_eq]
    omega
  rw [linear, PARASHIFT, Nat.shiftRight_eq_div_pow, Nat.and_two_pow_sub_one_eq_mod _ 4]
  omega

/-- `kfree` of a live pointer succeeds and leaves a well-formed heap. -/
theorem kfree_spec (wellFormed : heap.WellFormed topseg blocks live) {entry : FarPtr × Nat}
    (returned : live.Perm (entry :: remaining)) :
    ∃ heap' blocks', kfree heap entry.1 = .ok heap' ∧
      heap'.WellFormed topseg blocks' remaining ∧ heap'.farheap = heap.farheap := by
  have member : entry ∈ live := returned.symm.subset (by simp)
  obtain ⟨front, block, rest, rfl, used, address, -⟩ :=
    wellFormed.owned.exists_around (List.mem_map_of_mem (f := payloadOf) member)
  have segment : block.addr = entry.1.seg := Nat.add_right_cancel address
  have pointer : entry.1 = ⟨block.addr, PARASIZE⟩ := by
    rw [segment, ← wellFormed.aligned entry member]
  have bounds := wellFormed.addr_bounds List.mem_append_cons_self
  have bounded := wellFormed.bounded
  obtain ⟨seg, offs⟩ := kfree_segment (show block.addr < 0x10000 by omega)
  have found : walk (fun seg => (heap.fmap seg).next) 0 (fun bseg => decide (bseg = block.addr))
      walkFuel 0 heap.farheap = some (some (lastAddr 0 front, block.addr)) := by
    refine walk_found _ walkFuel 0 wellFormed.linked wellFormed.length_lt ?_ ?_ (by simp)
    · intro other member
      have := wellFormed.addr_bounds member
      omega
    · intro other inFront
      have apart := (tiles_around.mp wellFormed.tiles).1.bounds inFront
      simp only [decide_eq_false_iff_not]
      omega
  obtain ⟨flag, merged, segment', farheap⟩ := kfreeMergePrev_spec wellFormed.toRepresents
  obtain ⟨merged', farheap'⟩ := kfreeMergeNext_spec merged
  obtain ⟨size, after, shape⟩ := exists_absorbNext 1 (absorbPrevious 1 front block).2 rest
  rw [shape flag] at merged'
  have cleared := clearInUse_spec merged'
  have freed : (absorbPrevious 1 front block).2.used = false := by
    rcases front_cases front with ⟨before, previous, rfl, free⟩ | frontUsed
    · rw [absorbPrevious_free free]
    · rw [absorbPrevious_used frontUsed]
  have list : release 1 front block rest = (absorbPrevious 1 front block).1 ++
      ⟨(absorbPrevious 1 front block).2.addr, size, false⟩ :: after := by
    rw [release, ← shape false, ← freed]
  refine ⟨_, _, ?_, ⟨cleared, ?_, ?_, ?_, ?_⟩, farheap'.trans farheap⟩
  · simp only [kfree, pointer, seg, offs, ne_eq, not_true_eq_false, if_false, found, segment']
  · rw [← list]
    exact wellFormed.coalesced.release
  · rw [← list]
    exact wellFormed.owned.release wellFormed.tiles (by decide) used
      (returned.map payloadOf) address
  · exact fun other inRemaining => wellFormed.aligned other
      (returned.symm.subset (List.mem_cons_of_mem _ inRemaining))
  · have same := farheap'.trans farheap
    simp only [FarHeap.modify_farheap, same]
    exact wellFormed.proper

end Kfree

/-! ## Stores into payloads -/

/-- The far heap after `bytes` bytes from a linear address on have been stored into.  The
headers that are then found in these paragraphs are `contents`. -/
def FarHeap.store (heap : FarHeap) (linear bytes : Nat) (contents : Nat → MemHdr) : FarHeap :=
  { heap with fmap := fun seg =>
      if PARASIZE * seg < linear + bytes ∧ linear < PARASIZE * (seg + 1) then contents seg
      else heap.fmap seg }

/-- Stores into a live payload touch no header. -/
theorem FarHeap.WellFormed.store {heap : FarHeap} {topseg linear bytes : Nat}
    {blocks : List Block} {live : List (FarPtr × Nat)}
    (wellFormed : heap.WellFormed topseg blocks live) {entry : FarPtr × Nat} (member : entry ∈ live)
    (first : PARASIZE * (entry.1.seg + 1) ≤ linear)
    (last : linear + bytes ≤ PARASIZE * (entry.1.seg + 1) + entry.2) (contents : Nat → MemHdr) :
    (heap.store linear bytes contents).WellFormed topseg blocks live := by
  obtain ⟨owner, ownerIn, -, address, room⟩ :=
    wellFormed.owned.roomy _ (List.mem_map_of_mem (f := payloadOf) member)
  simp only [payloadOf] at address room
  simp only [PARASIZE] at first last
  refine ⟨⟨?_, wellFormed.tiles, wellFormed.positive, wellFormed.bounded⟩,
    wellFormed.coalesced, wellFormed.owned, wellFormed.aligned, wellFormed.proper⟩
  refine wellFormed.linked.congr fun block inBlocks => ?_
  have outside : ¬(16 * block.addr < linear + bytes ∧ linear < 16 * (block.addr + 1)) := by
    by_cases same : block = owner
    · subst same
      omega
    · rcases wellFormed.tiles.apart inBlocks ownerIn same with before | after <;> omega
  simp only [Headers.AgreeAt, FarHeap.headers, FarHeap.store, PARASIZE, outside, if_false,
    and_self]

/-! ## Runs of the far heap -/

/-- The far heap together with the pointers its callers hold. -/
structure FarSystem where
  heap : FarHeap
  live : List (FarPtr × Nat)

/-- What callers do: allocate, free a pointer they hold, or store into one
paragraph of a payload they hold. -/
inductive FarAction where
  | kmalloc (size : Nat)
  | kfree (entry : FarPtr × Nat)
  | store (entry : FarPtr × Nat) (index : Nat) (contents : MemHdr)

namespace FarSystem

/-- `mem_init` with no pointer handed out. -/
def start (fmap : Nat → MemHdr) (farheap topseg : Nat) : FarSystem :=
  ⟨memInit fmap farheap topseg, []⟩

def step (system : FarSystem) : FarAction → Option FarSystem
  | .kmalloc size =>
      (Memory.kmalloc system.heap size).value?.map fun (heap, result) =>
        ⟨heap, result.elim system.live fun ptr => (ptr, size) :: system.live⟩
  | .kfree entry =>
      if entry ∈ system.live then
        (Memory.kfree system.heap entry.1).value?.map fun heap =>
          ⟨heap, system.live.erase entry⟩
      else none
  | .store entry index contents =>
      if entry ∈ system.live ∧ 16 * index < entry.2 then
        some { system with
          heap := system.heap.modify (entry.1.seg + 1 + index) fun _ => contents }
      else none

/-- Free pointers one after the other. -/
def kfreeAll (heap : FarHeap) : List FarPtr → Outcome FarHeap
  | [] => .ok heap
  | ptr :: rest => (Memory.kfree heap ptr).bind fun heap => kfreeAll heap rest

/-- What the callers of the far heap rely on.  The block list is the header list
of the heap: it tiles the region, no two neighbours are free, and every live
pointer is the payload of an allocated block with enough paragraphs. -/
structure Correct (system : FarSystem) (topseg : Nat) : Prop where
  headerList : ∃ blocks,
    Linked system.heap.headers system.heap.farheap blocks 0 ∧
      Tiles 1 system.heap.farheap blocks topseg ∧ Coalesced blocks ∧
      (∀ entry ∈ system.live, klinear entry.1 % PARASIZE = 0 ∧
        ∃ block ∈ blocks, block.used = true ∧ klinear entry.1 = PARASIZE * (block.addr + 1) ∧
          entry.2 ≤ PARASIZE * block.size) ∧
      (∀ size, ∃ heap result, Memory.kmalloc system.heap size = .ok (heap, result) ∧
        (result = none → 0xFFFF0 < size ∨
          ∀ block ∈ blocks, block.used = true ∨ PARASIZE * block.size < size))
  disjoint : system.live.Pairwise fun entry other =>
    klinear entry.1 + entry.2 + PARASIZE ≤ klinear other.1 ∨
      klinear other.1 + other.2 + PARASIZE ≤ klinear entry.1
  kfree : ∀ entry ∈ system.live, ∃ heap, Memory.kfree system.heap entry.1 = .ok heap
  kfreeAll : ∀ order : List (FarPtr × Nat), order.Perm system.live →
    ∃ heap, FarSystem.kfreeAll system.heap (order.map Prod.fst) = .ok heap ∧
      Linked heap.headers system.heap.farheap
        [⟨system.heap.farheap, topseg - system.heap.farheap - 1, false⟩] 0

variable {system system' : FarSystem} {fmap : Nat → MemHdr} {farheap topseg : Nat}
variable {blocks : List Block}

theorem start_wellFormed (positive : 0 < farheap) (proper : farheap < topseg)
    (bounded : topseg ≤ 0xA000) :
    (start fmap farheap topseg).heap.WellFormed topseg
      [⟨farheap, topseg - farheap - 1, false⟩] [] where
  linked := by
    have size : sub16 topseg (farheap + 1) = topseg - farheap - 1 := by
      rw [sub16_of_le (by omega) (by omega)]
      omega
    simp [start, memInit, Linked, FarHeap.headers, FarHeap.modify, size, lowBit]
  tiles := by
    simp only [Tiles, start, memInit, FarHeap.modify_farheap, true_and]
    omega
  positive := positive
  bounded := bounded
  coalesced := .singleton _
  owned := ⟨by simp [payloads], by simp⟩
  aligned := by simp
  proper := proper

/-- A store into a held payload touches no header. -/
theorem store_wellFormed (wellFormed : system.heap.WellFormed topseg blocks system.live)
    {entry : FarPtr × Nat} (member : entry ∈ system.live) {index : Nat}
    (inside : 16 * index < entry.2) (contents : MemHdr) :
    (system.heap.modify (entry.1.seg + 1 + index) fun _ => contents).WellFormed topseg blocks
      system.live := by
  obtain ⟨owner, ownerIn, -, address, room⟩ :=
    wellFormed.owned.roomy _ (List.mem_map_of_mem (f := payloadOf) member)
  simp only [payloadOf] at address room
  refine ⟨⟨?_, wellFormed.tiles, wellFormed.positive, wellFormed.bounded⟩,
    wellFormed.coalesced, wellFormed.owned, wellFormed.aligned, wellFormed.proper⟩
  refine wellFormed.linked.congr fun block inBlocks => ?_
  have ne : block.addr ≠ entry.1.seg + 1 + index := by
    by_cases same : block = owner
    · subst same
      omega
    · rcases wellFormed.tiles.apart inBlocks ownerIn same with before | after <;> omega
  simp [Headers.AgreeAt, FarHeap.headers, FarHeap.modify_other _ _ ne]

/-- Every step keeps the far heap well formed, over the same region. -/
theorem step_wellFormed (wellFormed : system.heap.WellFormed topseg blocks system.live)
    {action : FarAction} (taken : system.step action = some system') :
    ∃ blocks', system'.heap.WellFormed topseg blocks' system'.live ∧
      system'.heap.farheap = system.heap.farheap := by
  cases action with
  | kmalloc size =>
      rcases kmalloc_spec wellFormed size with ⟨heap, ptr, blocks', result, after, same⟩ | ⟨result, -⟩
      · simp only [step, result, Outcome.value?_ok, Option.map_some, Option.elim_some,
          Option.some.injEq] at taken
        subst taken
        exact ⟨blocks', after, same⟩
      · simp only [step, result, Outcome.value?_ok, Option.map_some, Option.elim_none,
          Option.some.injEq] at taken
        subst taken
        exact ⟨blocks, wellFormed, rfl⟩
  | kfree entry =>
      by_cases member : entry ∈ system.live
      · obtain ⟨heap, blocks', result, after, same⟩ :=
          kfree_spec wellFormed (List.perm_cons_erase member)
        simp only [step, member, if_true, result, Outcome.value?_ok, Option.map_some,
          Option.some.injEq] at taken
        subst taken
        exact ⟨blocks', after, same⟩
      · simp [step, member] at taken
  | store entry index contents =>
      by_cases allowed : entry ∈ system.live ∧ 16 * index < entry.2
      · simp only [step, allowed, and_self, if_true, Option.some.injEq] at taken
        subst taken
        exact ⟨blocks, store_wellFormed wellFormed allowed.1 allowed.2 contents, rfl⟩
      · simp [step, allowed] at taken

/-- Freeing all held pointers, in the order of the list, leaves one free block. -/
theorem kfreeAll_spec {heap : FarHeap} {live : List (FarPtr × Nat)}
    (wellFormed : heap.WellFormed topseg blocks live) :
    ∃ heap', FarSystem.kfreeAll heap (live.map Prod.fst) = .ok heap' ∧
      Linked heap'.headers heap.farheap [⟨heap.farheap, topseg - heap.farheap - 1, false⟩] 0 := by
  induction live generalizing heap blocks with
  | nil =>
      have single := wellFormed.integrity.eq_single wellFormed.proper
      exact ⟨heap, rfl, single ▸ wellFormed.linked⟩
  | cons entry live ih =>
      obtain ⟨heap', blocks', result, after, same⟩ :=
        kfree_spec wellFormed (List.Perm.refl (entry :: live))
      obtain ⟨last, freed, linked⟩ := ih after
      refine ⟨last, ?_, same ▸ linked⟩
      simp only [List.map_cons, FarSystem.kfreeAll, result, Outcome.bind_ok, freed]

theorem WellFormed.perm {heap : FarHeap} {live order : List (FarPtr × Nat)}
    (wellFormed : heap.WellFormed topseg blocks live) (perm : order.Perm live) :
    heap.WellFormed topseg blocks order where
  toRepresents := wellFormed.toRepresents
  coalesced := wellFormed.coalesced
  owned := ⟨(perm.map _).map _ |>.trans wellFormed.owned.pointers, fun entry member =>
    wellFormed.owned.roomy entry ((perm.map payloadOf).subset member)⟩
  aligned := fun entry member => wellFormed.aligned entry (perm.subset member)
  proper := wellFormed.proper

/-- A well-formed far heap serves its callers correctly. -/
theorem correct_of_wellFormed (wellFormed : system.heap.WellFormed topseg blocks system.live) :
    system.Correct topseg where
  headerList := by
    refine ⟨blocks, wellFormed.linked, wellFormed.tiles, wellFormed.coalesced, ?_, ?_⟩
    · intro entry member
      obtain ⟨block, inBlocks, used, address, room⟩ :=
        wellFormed.owned.roomy _ (List.mem_map_of_mem (f := payloadOf) member)
      have offset := wellFormed.aligned entry member
      simp only [payloadOf] at address room
      simp only [klinear, offset, PARASIZE, Nat.shiftLeft_eq] at *
      exact ⟨by omega, block, inBlocks, used, by omega, room⟩
    · intro size
      rcases kmalloc_spec wellFormed size with ⟨heap, ptr, blocks', result, -⟩ | ⟨result, full⟩
      · exact ⟨heap, some ptr, result, by simp⟩
      · exact ⟨system.heap, none, result, fun _ => full⟩
  disjoint := by
    have nodup := wellFormed.owned.nodup wellFormed.tiles (by decide)
    rw [List.map_map] at nodup
    refine (List.pairwise_map.mp nodup).imp_of_mem ?_
    intro entry other member otherMember ne
    have apart := wellFormed.integrity.disjoint (by decide)
      (List.mem_map_of_mem (f := payloadOf) member)
      (List.mem_map_of_mem (f := payloadOf) otherMember) (fun equal => ne (congrArg Prod.fst equal))
    have offset := wellFormed.aligned entry member
    have otherOffset := wellFormed.aligned other otherMember
    simp only [payloadOf] at apart
    simp only [klinear, offset, otherOffset, PARASIZE, Nat.shiftLeft_eq]
    omega
  kfree := by
    intro entry member
    obtain ⟨heap, -, result, -⟩ := kfree_spec wellFormed (List.perm_cons_erase member)
    exact ⟨heap, result⟩
  kfreeAll := fun order perm => kfreeAll_spec (WellFormed.perm wellFormed perm)

end FarSystem

end Pegasos.Kernel.Memory
