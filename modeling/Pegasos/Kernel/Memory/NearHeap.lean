import Pegasos.Support.Ownership
import Pegasos.Support.PackedHeader
import Pegasos.Support.Outcome
import Pegasos.Support.Transition
import Pegasos.Support.Tables

/-!
# The near heap

`near_malloc` and `near_free` manage the 32 KB array `heap` in the kernel's data
segment.  A block is a header of two words followed by its payload; the used bit
is packed below the payload size.

The model keeps the bytes of the segment, since `near_malloc` leaves the `next`
word of a header that it splits off as it finds it in memory.  Under the
condition that this word happens to be right, the heap stays a tiling by blocks:
`near_malloc_near_free_correct`.
-/

namespace Pegasos.Kernel.Memory

open Pegasos.Support

def NEAR_HEAP_SIZE : Nat := 32768

/-- `sizeof(nearhdr_t)`. -/
def nearhdrSize : Nat := 4

/-- The kernel's data segment and the address of `heap` in it. -/
structure NearHeap where
  bytes : Bytes
  heap : Nat

/-! ## Header access -/

/-- `p->next`. -/
def nhdrNext (bytes : Bytes) (p : Nat) : Nat := peek bytes p

/-- `p->size`, with the used bit. -/
def nhdrSizeWord (bytes : Bytes) (p : Nat) : Nat := peek bytes (p + 2)

/-- `NHDR_GET_SIZE`. -/
def nhdrGetSize (bytes : Bytes) (p : Nat) : Nat := nhdrSizeWord bytes p &&& 0xfffe

/-- `NHDR_SET_SIZE`. -/
def nhdrSetSize (bytes : Bytes) (p size : Nat) : Bytes :=
  poke bytes (p + 2) ((nhdrSizeWord bytes p &&& 1) ||| (size &&& 0xfffe))

/-- `NHDR_GET_USED`. -/
def nhdrGetUsed (bytes : Bytes) (p : Nat) : Nat := nhdrSizeWord bytes p &&& 0x0001

/-- `NHDR_SET_USED`. -/
def nhdrSetUsed (bytes : Bytes) (p : Nat) : Bytes :=
  poke bytes (p + 2) (nhdrSizeWord bytes p ||| 0x0001)

/-- `NHDR_SET_FREE`. -/
def nhdrSetFree (bytes : Bytes) (p : Nat) : Bytes :=
  poke bytes (p + 2) (nhdrSizeWord bytes p &&& 0xfffe)

/-- `p->next = next`. -/
def nhdrSetNext (bytes : Bytes) (p next : Nat) : Bytes := poke bytes p next

/-! ## The allocator -/

/-- The near part of `mem_init`. -/
def nearInit (bytes : Bytes) (heap : Nat) : NearHeap :=
  let bytes := nhdrSetNext bytes heap 0
  ⟨nhdrSetSize bytes heap (NEAR_HEAP_SIZE - nearhdrSize), heap⟩

/-- A list without a cycle has fewer headers than the segment has addresses. -/
def nearFuel : Nat := 0x10000

/-- The test with which `near_malloc` leaves its search. -/
def nearFits (bytes : Bytes) (size p : Nat) : Bool :=
  nhdrGetUsed bytes p = 0 ∧ nhdrGetSize bytes p ≥ size

/-- The search of `near_malloc`: the first free block that is large enough. -/
def nearSearch (heap : NearHeap) (size : Nat) : Option (Option (Nat × Nat)) :=
  walk (nhdrNext heap.bytes) 0 (nearFits heap.bytes size) nearFuel 0 heap.heap

/-- What `near_malloc` does to split the block at `p` into one of `size` bytes
and a free block at `nx`.  The `next` field of `nx` is not written. -/
def nearSplit (bytes : Bytes) (p nx size left : Nat) : Bytes :=
  let bytes := nhdrSetSize bytes nx (sub16 left nearhdrSize)
  let bytes := nhdrSetFree bytes nx
  let bytes := nhdrSetSize bytes p size
  let bytes := nhdrSetUsed bytes p
  nhdrSetNext bytes p nx

/-- `near_malloc`; `none` is the NULL pointer. -/
def nearMalloc (heap : NearHeap) (size : Nat) : Outcome (NearHeap × Option Nat) :=
  let size := roundToWord size
  match nearSearch heap size with
  | none => .hang
  | some none => .ok (heap, none)
  | some (some (_, p)) =>
      let left := sub16 (nhdrGetSize heap.bytes p) size
      let bytes :=
        if left > 2 * nearhdrSize then
          nearSplit heap.bytes p ((p + nearhdrSize + size) % 0x10000) size left
        else heap.bytes
      .ok ({ heap with bytes := nhdrSetUsed bytes p }, some ((p + nearhdrSize) % 0x10000))

/-- What `near_malloc` does to the block that it has found. -/
def nearMallocCommit (heap : NearHeap) (size p : Nat) : NearHeap × Nat :=
  let size := roundToWord size
  let left := sub16 (nhdrGetSize heap.bytes p) size
  let bytes :=
    if left > 2 * nearhdrSize then
      nearSplit heap.bytes p ((p + nearhdrSize + size) % 0x10000) size left
    else heap.bytes
  ({ heap with bytes := nhdrSetUsed bytes p }, (p + nearhdrSize) % 0x10000)

/-- The search and the rest make up `near_malloc`. -/
theorem nearMalloc_parts (heap : NearHeap) (size : Nat) : nearMalloc heap size =
    match nearSearch heap (roundToWord size) with
    | none => .hang
    | some none => .ok (heap, none)
    | some (some (_, p)) =>
        .ok ((nearMallocCommit heap size p).1, some (nearMallocCommit heap size p).2) := rfl

/-- The part of `near_free` that merges the block at `cp` into a free block at
`pp`; it returns the address of the block that now covers both. -/
def nearMergePrev (bytes : Bytes) (pp cp : Nat) : Bytes × Nat :=
  if pp ≠ 0 ∧ nhdrGetUsed bytes pp = 0 then
    let bytes := nhdrSetSize bytes pp
      ((nhdrGetSize bytes pp + nearhdrSize + nhdrGetSize bytes cp) % 0x10000)
    (nhdrSetNext bytes pp (nhdrNext bytes cp), pp)
  else (bytes, cp)

/-- The part of `near_free` that merges a free successor into the block at `cp`. -/
def nearMergeNext (bytes : Bytes) (cp : Nat) : Bytes :=
  let next := nhdrNext bytes cp
  if next ≠ 0 ∧ nhdrGetUsed bytes next = 0 then
    let bytes := nhdrSetSize bytes cp
      ((nhdrGetSize bytes cp + nearhdrSize + nhdrGetSize bytes next) % 0x10000)
    nhdrSetNext bytes cp (nhdrNext bytes (nhdrNext bytes cp))
  else bytes

/-- `near_free`. -/
def nearFree (heap : NearHeap) (ptr : Nat) : Outcome NearHeap :=
  let fp := sub16 ptr nearhdrSize
  match walk (nhdrNext heap.bytes) 0 (fun cp => cp = fp) nearFuel 0 heap.heap with
  | none => .hang
  | some none => .panic "near_free: pointer is not an alloc'ed block"
  | some (some (pp, cp)) =>
      let (bytes, cp) := nearMergePrev heap.bytes pp cp
      let bytes := nearMergeNext bytes cp
      .ok { heap with bytes := nhdrSetFree bytes cp }

/-- The search of `near_free`: the block and the one before. -/
def nearFreeSearch (heap : NearHeap) (ptr : Nat) : Outcome (Nat × Nat) :=
  match walk (nhdrNext heap.bytes) 0 (fun cp => cp = sub16 ptr nearhdrSize) nearFuel 0
      heap.heap with
  | none => .hang
  | some none => .panic "near_free: pointer is not an alloc'ed block"
  | some (some found) => .ok found

/-- What `near_free` does to the blocks that it has found. -/
def nearFreeCommit (heap : NearHeap) (found : Nat × Nat) : NearHeap :=
  let (bytes, cp) := nearMergePrev heap.bytes found.1 found.2
  let bytes := nearMergeNext bytes cp
  { heap with bytes := nhdrSetFree bytes cp }

/-- The two parts make up `near_free`. -/
theorem nearFree_parts (heap : NearHeap) (ptr : Nat) : nearFree heap ptr =
    (nearFreeSearch heap ptr).bind fun found => .ok (nearFreeCommit heap found) := by
  unfold nearFree nearFreeSearch
  dsimp only
  split
  · rename_i hung
    rw [hung]
    rfl
  · rename_i missed
    rw [missed]
    rfl
  · rename_i found
    rw [found]
    rfl

/-! ## Well-formed near heaps -/

/-- The header list of a near heap visits exactly `blocks`, which tile the array
`heap` in whole words.  The array lies below the kernel stack, so it ends before
its segment does. -/
structure NearHeap.Represents (heap : NearHeap) (blocks : List Block) : Prop where
  linked : Linked (packedHeaders heap.bytes) heap.heap blocks 0
  tiles : Tiles 4 heap.heap blocks (heap.heap + 32768)
  aligned : Aligned 2 blocks
  positive : 0 < heap.heap
  bounded : heap.heap + 32768 < 0x10000

namespace NearHeap.Represents

variable {heap : NearHeap} {front rest blocks : List Block} {block : Block}

theorem addr_bounds (represents : heap.Represents blocks) (member : block ∈ blocks) :
    0 < block.addr ∧ block.addr + 4 + block.size < 0x10000 := by
  have inside := represents.tiles.bounds member
  have := represents.positive
  have := represents.bounded
  omega

theorem length_lt (represents : heap.Represents blocks) : blocks.length < nearFuel := by
  have := represents.tiles.length_mul_le
  unfold nearFuel
  omega

/-- What the allocator reads from the header of a block. -/
theorem fields (represents : heap.Represents blocks) (member : block ∈ blocks) :
    nhdrGetSize heap.bytes block.addr = block.size ∧
      lowBit (nhdrSizeWord heap.bytes block.addr) = block.used := by
  obtain ⟨front, rest, rfl⟩ := List.append_of_mem member
  obtain ⟨-, size, used, -⟩ := linked_around.mp represents.linked
  exact ⟨size, used⟩

/-- The next link of a block leads to its successor, if there is one. -/
theorem next_eq (represents : heap.Represents (front ++ block :: rest)) :
    nhdrNext heap.bytes block.addr = (rest.head?.map Block.addr).getD 0 := by
  obtain ⟨-, -, -, after⟩ := linked_around.mp represents.linked
  cases rest with
  | nil => exact after
  | cons next rest => exact after.1.symm

end NearHeap.Represents

/-- A near heap with the pointers in `live` handed out. -/
structure NearHeap.WellFormed (heap : NearHeap) (blocks : List Block)
    (live : List (Nat × Nat)) : Prop extends heap.Represents blocks where
  coalesced : Coalesced blocks
  owned : Owned 4 1 blocks live

theorem NearHeap.WellFormed.integrity {heap : NearHeap} {blocks : List Block}
    {live : List (Nat × Nat)} (wellFormed : heap.WellFormed blocks live) :
    Integrity 4 1 heap.heap (heap.heap + 32768) blocks live :=
  ⟨wellFormed.tiles, wellFormed.coalesced, wellFormed.owned⟩

/-! ## Allocation -/

section NearMalloc

variable {heap : NearHeap} {size : Nat} {front rest blocks : List Block}
variable {block : Block} {live : List (Nat × Nat)}

/-- The search of `near_malloc` recognises the free blocks that are large enough. -/
theorem nearFits_iff (represents : heap.Represents blocks) (member : block ∈ blocks) :
    nearFits heap.bytes size block.addr = true ↔ block.used = false ∧ size ≤ block.size := by
  obtain ⟨sizeField, used⟩ := represents.fields member
  rw [nearFits, decide_eq_true_iff, nhdrGetUsed, and_one_eq_zero, sizeField, used]

/-- The search stops at the first block that fits, or finds none. -/
theorem nearSearch_spec (represents : heap.Represents blocks) (size : Nat) :
    (∃ front block rest previous, blocks = front ++ block :: rest ∧ block.used = false ∧
        size ≤ block.size ∧ nearSearch heap size = some (some (previous, block.addr))) ∨
      nearSearch heap size = some none := by
  have proper : ∀ block ∈ blocks, block.addr ≠ 0 := fun block member => by
    have := represents.addr_bounds member
    omega
  rcases exists_first_or_none blocks (fun block => nearFits heap.bytes size block.addr) with
    ⟨front, block, rest, rfl, hit, skipped⟩ | none
  · left
    obtain ⟨free, enough⟩ := (nearFits_iff represents List.mem_append_cons_self).mp hit
    exact ⟨front, block, rest, _, rfl, free, enough,
      walk_found _ nearFuel 0 represents.linked represents.length_lt proper skipped hit⟩
  · exact .inr (walk_none _ nearFuel 0 represents.linked represents.length_lt proper none)

theorem nhdrSetUsed_headers (bytes : Bytes) (p : Nat) :
    (packedHeaders (nhdrSetUsed bytes p)).next p = (packedHeaders bytes).next p ∧
      (packedHeaders (nhdrSetUsed bytes p)).size p = (packedHeaders bytes).size p ∧
      (packedHeaders (nhdrSetUsed bytes p)).used p = true := by
  simp [packedHeaders, nhdrSetUsed, nhdrSizeWord]

theorem nhdrSetUsed_apart (bytes : Bytes) {p other : Nat} (apart : other + 4 ≤ p ∨ p + 4 ≤ other) :
    (packedHeaders (nhdrSetUsed bytes p)).AgreeAt (packedHeaders bytes) other :=
  packedHeaders_poke_apart (by omega)

theorem nearSplit_self (bytes : Bytes) (size left : Nat) {p nx : Nat} (apart : p + 4 ≤ nx)
    (small : nx < 0x10000) :
    (packedHeaders (nearSplit bytes p nx size left)).next p = nx ∧
      (packedHeaders (nearSplit bytes p nx size left)).size p = size &&& 0xfffe ∧
      (packedHeaders (nearSplit bytes p nx size left)).used p = true := by
  have noWrap : nx % 0x10000 = nx := Nat.mod_eq_of_lt small
  have frame : ∀ (bytes : Bytes) (word : Nat),
      peek (poke bytes (nx + 2) word) (p + 2) = peek bytes (p + 2) :=
    fun bytes word => peek_poke_apart (by omega)
  simp [packedHeaders, nearSplit, nhdrSetSize, nhdrSetFree, nhdrSetUsed, nhdrSetNext,
    nhdrSizeWord, noWrap]

theorem nearSplit_new (bytes : Bytes) (size left : Nat) {p nx : Nat} (apart : p + 4 ≤ nx) :
    (packedHeaders (nearSplit bytes p nx size left)).next nx = nhdrNext bytes nx ∧
      (packedHeaders (nearSplit bytes p nx size left)).size nx =
        sub16 left nearhdrSize &&& 0xfffe ∧
      (packedHeaders (nearSplit bytes p nx size left)).used nx = false := by
  have frame : ∀ addr, nx ≤ addr → ∀ (bytes : Bytes) (word : Nat),
      peek (poke bytes p word) addr = peek bytes addr ∧
        peek (poke bytes (p + 2) word) addr = peek bytes addr :=
    fun addr above bytes word => ⟨peek_poke_apart (by omega), peek_poke_apart (by omega)⟩
  simp [packedHeaders, nearSplit, nhdrSetSize, nhdrSetFree, nhdrSetUsed, nhdrSetNext,
    nhdrNext, nhdrSizeWord, frame nx (Nat.le_refl _), frame (nx + 2) (by omega)]

theorem nearSplit_apart {bytes : Bytes} {p nx left other : Nat}
    (apart : other + 4 ≤ p ∨ p + 4 ≤ other) (apartNew : other + 4 ≤ nx ∨ nx + 4 ≤ other) :
    (packedHeaders (nearSplit bytes p nx size left)).AgreeAt (packedHeaders bytes) other :=
  (packedHeaders_poke_apart (by omega)).trans <|
    (packedHeaders_poke_apart (by omega)).trans <|
      (packedHeaders_poke_apart (by omega)).trans <|
        (packedHeaders_poke_apart (by omega)).trans <| packedHeaders_poke_apart (by omega)

/-- Handing out a whole block. -/
theorem NearHeap.WellFormed.occupy (sz : Nat)
    (wellFormed : heap.WellFormed (front ++ block :: rest) live)
    (free : block.used = false) (unitSz : 2 ∣ sz) (room : size ≤ block.size) :
    NearHeap.WellFormed { heap with bytes := nhdrSetUsed heap.bytes block.addr }
      (front ++ carve 4 sz false block ++ rest) ((block.addr + 4, size) :: live) where
  linked := by
    obtain ⟨next, sizeKept, used⟩ := nhdrSetUsed_headers heap.bytes block.addr
    obtain ⟨-, sizeField, -⟩ := linked_around.mp wellFormed.linked
    simp only [carve, Bool.false_eq_true, if_false, List.append_assoc, List.singleton_append]
    refine wellFormed.linked.update _ _ next (sizeKept.trans sizeField) used ?_
    intro other member
    have apart := wellFormed.tiles.apart_around member
    exact nhdrSetUsed_apart _ (by omega)
  tiles := wellFormed.tiles.carve (by simp)
  aligned := wellFormed.aligned.carve (by decide) unitSz
  positive := wellFormed.positive
  bounded := wellFormed.bounded
  coalesced := wellFormed.coalesced.carve free
  owned := wellFormed.owned.carve free (by omega) (by simp)

/-- Handing out the first part of a block, when the word at the new header is
already the link to the block that follows. -/
theorem NearHeap.WellFormed.split {sz : Nat}
    (wellFormed : heap.WellFormed (front ++ block :: rest) live)
    (free : block.used = false) (unitSz : 2 ∣ sz) (larger : sz + 8 < block.size)
    (room : size ≤ sz)
    (inPlace : nhdrNext heap.bytes (block.addr + 4 + sz) = nhdrNext heap.bytes block.addr) :
    NearHeap.WellFormed
      { heap with
        bytes := nhdrSetUsed (nearSplit heap.bytes block.addr (block.addr + 4 + sz) sz
          (block.size - sz)) block.addr }
      (front ++ carve 4 sz true block ++ rest) ((block.addr + 4, size) :: live) where
  linked := by
    have bounds := wellFormed.addr_bounds List.mem_append_cons_self
    have even := wellFormed.aligned block List.mem_append_cons_self
    have left : sub16 (block.size - sz) nearhdrSize &&& 0xfffe = block.size - sz - 4 := by
      rw [sub16_of_le (by omega) (by simp only [nearhdrSize]; omega), nearhdrSize]
      exact clear_of_even (by omega) (by omega)
    have whole : sz &&& 0xfffe = sz := clear_of_even (by omega) unitSz
    have behind : block.addr + 4 ≤ block.addr + 4 + sz := by omega
    obtain ⟨next, sizeSelf, used⟩ :=
      nearSplit_self heap.bytes sz (block.size - sz) behind (by omega)
    obtain ⟨newNext, newSize, newUsed⟩ := nearSplit_new heap.bytes sz (block.size - sz) behind
    obtain ⟨keptNext, keptSize, keptUsed⟩ := nhdrSetUsed_headers
      (nearSplit heap.bytes block.addr (block.addr + 4 + sz) sz (block.size - sz)) block.addr
    obtain ⟨apartNext, apartSize, apartUsed⟩ := nhdrSetUsed_apart
      (nearSplit heap.bytes block.addr (block.addr + 4 + sz) sz (block.size - sz)) (.inr behind)
    simp only [carve, if_true, List.append_assoc, List.cons_append, List.nil_append]
    refine wellFormed.linked.split sz true ?_ ?_ keptUsed ?_ ?_ ?_ ?_
    · exact keptNext.trans next
    · exact keptSize.trans (sizeSelf.trans whole)
    · exact apartNext.trans (newNext.trans inPlace)
    · exact apartSize.trans (newSize.trans left)
    · exact apartUsed.trans newUsed
    · intro other member
      have apart := wellFormed.tiles.apart_around member
      exact (nhdrSetUsed_apart _ (by omega)).trans (nearSplit_apart (by omega) (by omega))
  tiles := wellFormed.tiles.carve fun _ => by omega
  aligned := wellFormed.aligned.carve (by decide) unitSz
  positive := wellFormed.positive
  bounded := wellFormed.bounded
  coalesced := wellFormed.coalesced.carve free
  owned := wellFormed.owned.carve free (by omega) fun _ => by omega

/-- The condition under which `near_malloc` keeps the heap in order: the block it
finds, if any, is not found for a request that rounds to nothing, and when it is
split the word at the new header is already the link to the following block. -/
def LinkInPlace (heap : NearHeap) (size : Nat) : Prop :=
  ∀ previous p, nearSearch heap (roundToWord size) = some (some (previous, p)) →
    size ≠ 0xFFFF ∧
      (2 * nearhdrSize < nhdrGetSize heap.bytes p - roundToWord size →
        nhdrNext heap.bytes (p + nearhdrSize + roundToWord size) = nhdrNext heap.bytes p)

instance (heap : NearHeap) (size : Nat) : Decidable (LinkInPlace heap size) :=
  match found : nearSearch heap (roundToWord size) with
  | some (some (previous, p)) =>
      decidable_of_iff (size ≠ 0xFFFF ∧
        (2 * nearhdrSize < nhdrGetSize heap.bytes p - roundToWord size →
          nhdrNext heap.bytes (p + nearhdrSize + roundToWord size) = nhdrNext heap.bytes p))
        ⟨fun inPlace _ _ other => by
            obtain ⟨rfl, rfl⟩ := Prod.mk.inj
              (Option.some.inj (Option.some.inj (found.symm.trans other)))
            exact inPlace,
          fun inPlace => inPlace previous p found⟩
  | some none => isTrue fun _ _ other => by simp [found] at other
  | none => isTrue fun _ _ other => by simp [found] at other

/-- `near_malloc` returns on every well-formed heap. -/
theorem nearMalloc_returns (represents : heap.Represents blocks) (size : Nat) :
    ∃ heap' result, nearMalloc heap size = .ok (heap', result) := by
  rcases nearSearch_spec represents (roundToWord size) with
    ⟨front, block, rest, previous, -, -, -, found⟩ | missed
  · exact ⟨_, _, by simp only [nearMalloc, found]; rfl⟩
  · exact ⟨_, _, by simp only [nearMalloc, missed]; rfl⟩

/-- The rest of `near_malloc` keeps the heap in order when it begins at `p`. -/
def LinkAt (heap : NearHeap) (size p : Nat) : Prop :=
  size ≠ 0xFFFF ∧
    (2 * nearhdrSize < nhdrGetSize heap.bytes p - roundToWord size →
      nhdrNext heap.bytes (p + nearhdrSize + roundToWord size) = nhdrNext heap.bytes p)

instance (heap : NearHeap) (size p : Nat) : Decidable (LinkAt heap size p) :=
  inferInstanceAs (Decidable (_ ∧ _))

/-- What `near_malloc` does to a free block that is large enough. -/
theorem nearMallocCommit_spec (wellFormed : heap.WellFormed (front ++ block :: rest) live)
    (small : size < 0x10000) (free : block.used = false) (enough : roundToWord size ≤ block.size)
    (linkAt : LinkAt heap size block.addr) :
    ∃ blocks', (nearMallocCommit heap size block.addr).1.WellFormed blocks'
        (((nearMallocCommit heap size block.addr).2, size) :: live) ∧
      (nearMallocCommit heap size block.addr).1.heap = heap.heap := by
  obtain ⟨notTop, link⟩ := linkAt
  obtain ⟨larger, unitSz, -⟩ := roundToWord_spec small notTop
  have bounds := wellFormed.addr_bounds List.mem_append_cons_self
  obtain ⟨sizeField, -⟩ := wellFormed.fields List.mem_append_cons_self
  have left : sub16 block.size (roundToWord size) = block.size - roundToWord size :=
    sub16_of_le (by omega) enough
  have ptr : (block.addr + 4) % 0x10000 = block.addr + 4 := by omega
  rw [sizeField] at link
  simp only [nearhdrSize] at link
  simp only [nearMallocCommit, sizeField, left, nearhdrSize, ptr]
  by_cases splits : block.size - roundToWord size > 8
  · have new : (block.addr + 4 + roundToWord size) % 0x10000 =
        block.addr + 4 + roundToWord size := by omega
    rw [if_pos splits, new]
    exact ⟨_, wellFormed.split free unitSz (by omega) larger (link splits), trivial⟩
  · rw [if_neg splits]
    exact ⟨_, wellFormed.occupy (roundToWord size) free unitSz (by omega), trivial⟩

/-- `near_malloc` on a well-formed heap hands out a block and leaves a
well-formed heap, or returns NULL. -/
theorem nearMalloc_spec (wellFormed : heap.WellFormed blocks live) (small : size < 0x10000)
    (inPlace : LinkInPlace heap size) :
    (∃ heap' ptr blocks', nearMalloc heap size = .ok (heap', some ptr) ∧
        heap'.WellFormed blocks' ((ptr, size) :: live) ∧ heap'.heap = heap.heap) ∨
      nearMalloc heap size = .ok (heap, none) := by
  rcases nearSearch_spec wellFormed.toRepresents (roundToWord size) with
    ⟨front, block, rest, previous, rfl, free, enough, found⟩ | missed
  · left
    obtain ⟨blocks', after, same⟩ :=
      nearMallocCommit_spec wellFormed small free enough (inPlace _ _ found)
    refine ⟨_, _, blocks', ?_, after, same⟩
    rw [nearMalloc_parts, found]
  · right
    rw [nearMalloc_parts, missed]

end NearMalloc

/-! ## Release -/

section NearFree

variable {heap : NearHeap} {front rest blocks : List Block}
variable {block : Block} {live remaining : List (Nat × Nat)}

theorem nearMerge_headers (bytes : Bytes) (p size next : Nat) :
    (packedHeaders (nhdrSetNext (nhdrSetSize bytes p size) p next)).next p = next % 0x10000 ∧
      (packedHeaders (nhdrSetNext (nhdrSetSize bytes p size) p next)).size p = size &&& 0xfffe ∧
      (packedHeaders (nhdrSetNext (nhdrSetSize bytes p size) p next)).used p =
        (packedHeaders bytes).used p := by
  simp [packedHeaders, nhdrSetNext, nhdrSetSize, nhdrSizeWord]

theorem nearMerge_apart {bytes : Bytes} {p size next other : Nat}
    (apart : other + 4 ≤ p ∨ p + 4 ≤ other) :
    (packedHeaders (nhdrSetNext (nhdrSetSize bytes p size) p next)).AgreeAt
      (packedHeaders bytes) other :=
  (packedHeaders_poke_apart (by omega)).trans (packedHeaders_poke_apart (by omega))

/-- The first merge of `near_free` is `absorbPrevious`, up to the used bit of the
block, which is cleared only at the end. -/
theorem nearMergePrev_spec (represents : heap.Represents (front ++ block :: rest)) :
    ∃ used, NearHeap.Represents
        { heap with bytes := (nearMergePrev heap.bytes (lastAddr 0 front) block.addr).1 }
        ((absorbPrevious 4 front block).1 ++
          { (absorbPrevious 4 front block).2 with used := used } :: rest) ∧
      (nearMergePrev heap.bytes (lastAddr 0 front) block.addr).2 =
        (absorbPrevious 4 front block).2.addr := by
  have tiles := represents.tiles.absorbPrevious
  have aligned := represents.aligned.absorbPrevious (show 2 ∣ 4 by decide)
  have blockFields := represents.fields List.mem_append_cons_self
  have blockBounds := represents.addr_bounds List.mem_append_cons_self
  have blockEven := represents.aligned block List.mem_append_cons_self
  rcases front_cases front with ⟨before, previous, rfl, free⟩ | used
  · rw [absorbPrevious_free free] at tiles aligned ⊢
    have previousFields := represents.fields (show previous ∈ _ by simp)
    have previousBounds := represents.addr_bounds (show previous ∈ _ by simp)
    have previousEven := represents.aligned previous (by simp)
    have around := represents.tiles
    simp only [List.append_assoc, List.singleton_append] at around
    have begins : previous.addr + 4 + previous.size = block.addr :=
      (tiles_around.mp around).2.1.symm
    have clear : nhdrGetUsed heap.bytes previous.addr = 0 :=
      and_one_eq_zero.mpr (previousFields.2.trans free)
    have positive : previous.addr ≠ 0 := by omega
    have grown : (previous.size + 4 + block.size) % 0x10000 &&& 0xfffe =
        previous.size + 4 + block.size := by
      rw [mod_clear]
      exact clear_of_even (by omega) (by omega)
    refine ⟨false, ?_⟩
    simp only [nearMergePrev, lastAddr_concat, ne_eq, positive, not_false_eq_true, clear,
      and_self, if_true, and_true, previousFields.1, blockFields.1, nearhdrSize]
    refine ⟨?_, tiles, aligned, represents.positive, represents.bounded⟩
    have linked := represents.linked
    simp only [List.append_assoc, List.singleton_append] at linked
    obtain ⟨next, size, kept⟩ := nearMerge_headers heap.bytes previous.addr
      ((previous.size + 4 + block.size) % 0x10000)
      (nhdrNext (nhdrSetSize heap.bytes previous.addr
        ((previous.size + 4 + block.size) % 0x10000)) block.addr)
    refine linked.merge _ _ (next.trans ?_) (size.trans grown) (kept.trans ?_) ?_
    · rw [nhdrNext, nhdrSetSize, peek_poke_apart (by omega)]
      exact Nat.mod_eq_of_lt peek_lt
    · exact previousFields.2.trans free
    · intro other member
      have apart := around.apart_around (show other ∈ _ by
        simp only [List.mem_append, List.mem_cons] at member ⊢
        tauto)
      exact nearMerge_apart (by omega)
  · rw [absorbPrevious_used used] at tiles aligned ⊢
    refine ⟨block.used, ?_⟩
    have kept : ¬(lastAddr 0 front ≠ 0 ∧ nhdrGetUsed heap.bytes (lastAddr 0 front) = 0) := by
      rcases List.eq_nil_or_concat front with rfl | ⟨before, previous, rfl⟩
      · simp
      · have previousFields := represents.fields (show previous ∈ _ by simp)
        simp only [List.concat_eq_append, List.getLast?_concat, Option.all_some] at used
        simp only [List.concat_eq_append, lastAddr_concat, nhdrGetUsed, and_one_eq_zero,
          previousFields.2, used]
        simp
    simp only [nearMergePrev, kept, if_false, and_true]
    exact represents

/-- The second merge of `near_free` is `absorbNext`. -/
theorem nearMergeNext_spec (represents : heap.Represents (front ++ block :: rest)) :
    NearHeap.Represents { heap with bytes := nearMergeNext heap.bytes block.addr }
      (front ++ absorbNext 4 block rest) := by
  have tiles := represents.tiles.absorbNext
  have aligned := represents.aligned.absorbNext (show 2 ∣ 4 by decide)
  have blockFields := represents.fields List.mem_append_cons_self
  have blockEven := represents.aligned block List.mem_append_cons_self
  have link := represents.next_eq
  cases rest with
  | nil =>
      have ends : nhdrNext heap.bytes block.addr = 0 := link
      simp only [nearMergeNext, ends, ne_eq, not_true_eq_false, false_and, if_false]
      exact represents
  | cons next rest =>
      have nextFields := represents.fields (show next ∈ _ by simp)
      have nextBounds := represents.addr_bounds (show next ∈ _ by simp)
      have nextEven := represents.aligned next (by simp)
      have begins : next.addr = block.addr + 4 + block.size :=
        (tiles_around.mp represents.tiles).2.1
      have leads : nhdrNext heap.bytes block.addr = next.addr := link
      have positive : next.addr ≠ 0 := by omega
      cases used : next.used with
      | true =>
          rw [absorbNext_used used] at tiles ⊢
          have inUse : ¬nhdrGetUsed heap.bytes next.addr = 0 := by
            rw [nhdrGetUsed, and_one_eq_zero, nextFields.2, used]
            simp
          simp only [nearMergeNext, leads, ne_eq, positive, inUse, and_false, if_false]
          exact represents
      | false =>
          rw [absorbNext_free used] at tiles aligned ⊢
          have clear : nhdrGetUsed heap.bytes next.addr = 0 :=
            and_one_eq_zero.mpr (nextFields.2.trans used)
          have grown : (block.size + 4 + next.size) % 0x10000 &&& 0xfffe =
              block.size + 4 + next.size := by
            rw [mod_clear]
            exact clear_of_even (by omega) (by omega)
          have linkKept : nhdrNext (nhdrSetSize heap.bytes block.addr
              ((block.size + 4 + next.size) % 0x10000)) block.addr = next.addr := by
            rw [← leads, nhdrNext, nhdrSetSize, peek_poke_size]
            rfl
          simp only [nearMergeNext, leads, ne_eq, positive, not_false_eq_true, clear, and_self,
            if_true, blockFields.1, nextFields.1, nearhdrSize, linkKept]
          refine ⟨?_, tiles, aligned, represents.positive, represents.bounded⟩
          obtain ⟨nextLink, size, kept⟩ := nearMerge_headers heap.bytes block.addr
            ((block.size + 4 + next.size) % 0x10000)
            (nhdrNext (nhdrSetSize heap.bytes block.addr
              ((block.size + 4 + next.size) % 0x10000)) next.addr)
          refine represents.linked.merge _ _ (nextLink.trans ?_) (size.trans grown)
            (kept.trans blockFields.2) ?_
          · rw [nhdrNext, nhdrSetSize, peek_poke_apart (by omega)]
            exact Nat.mod_eq_of_lt peek_lt
          · intro other member
            have apart := represents.tiles.apart_around (show other ∈ _ by
              simp only [List.mem_append, List.mem_cons] at member ⊢
              tauto)
            exact nearMerge_apart (by omega)

/-- `NHDR_SET_FREE` clears the used bit of one block. -/
theorem nhdrSetFree_spec (represents : heap.Represents (front ++ block :: rest)) :
    NearHeap.Represents { heap with bytes := nhdrSetFree heap.bytes block.addr }
      (front ++ { block with used := false } :: rest) := by
  obtain ⟨before, after⟩ := tiles_around.mp represents.tiles
  refine ⟨?_, tiles_around.mpr ⟨before, after⟩, ?_, represents.positive, represents.bounded⟩
  · obtain ⟨-, size, -⟩ := linked_around.mp represents.linked
    refine represents.linked.update _ _ ?_ ?_ ?_ ?_
    · simp [packedHeaders, nhdrSetFree]
    · simpa [packedHeaders, nhdrSetFree, nhdrSizeWord] using size
    · simp [packedHeaders, nhdrSetFree]
    · intro other member
      have apart := represents.tiles.apart_around member
      exact packedHeaders_poke_apart (by omega)
  · intro other member
    rcases List.mem_append.mp member with inFront | later
    · exact represents.aligned other (List.mem_append_left _ inFront)
    · rcases List.mem_cons.mp later with rfl | inRest
      · exact represents.aligned block List.mem_append_cons_self
      · exact represents.aligned other (by simp [inRest])

/-- `near_free` of a live pointer succeeds and leaves a well-formed heap. -/
theorem nearFree_spec (wellFormed : heap.WellFormed blocks live) {entry : Nat × Nat}
    (returned : live.Perm (entry :: remaining)) :
    ∃ heap' blocks', nearFree heap entry.1 = .ok heap' ∧
      heap'.WellFormed blocks' remaining ∧ heap'.heap = heap.heap := by
  have member : entry ∈ live := returned.symm.subset (by simp)
  obtain ⟨front, block, rest, rfl, used, address, -⟩ := wellFormed.owned.exists_around member
  have bounds := wellFormed.addr_bounds List.mem_append_cons_self
  have pointer : sub16 entry.1 nearhdrSize = block.addr := by
    have offset : sub16 entry.1 nearhdrSize = entry.1 - 4 :=
      sub16_of_le (by omega) (by simp only [nearhdrSize]; omega)
    omega
  have found : walk (nhdrNext heap.bytes) 0 (fun cp => decide (cp = block.addr)) nearFuel 0
      heap.heap = some (some (lastAddr 0 front, block.addr)) := by
    refine walk_found _ nearFuel 0 wellFormed.linked wellFormed.length_lt ?_ ?_ (by simp)
    · intro other member
      have := wellFormed.addr_bounds member
      omega
    · intro other inFront
      have apart := (tiles_around.mp wellFormed.tiles).1.bounds inFront
      simp only [decide_eq_false_iff_not]
      omega
  obtain ⟨flag, merged, target⟩ := nearMergePrev_spec wellFormed.toRepresents
  have merged' := nearMergeNext_spec merged
  obtain ⟨size, after, shape⟩ := exists_absorbNext 4 (absorbPrevious 4 front block).2 rest
  rw [shape flag] at merged'
  have cleared := nhdrSetFree_spec merged'
  have freed : (absorbPrevious 4 front block).2.used = false := by
    rcases front_cases front with ⟨before, previous, rfl, free⟩ | frontUsed
    · rw [absorbPrevious_free free]
    · rw [absorbPrevious_used frontUsed]
  have list : release 4 front block rest = (absorbPrevious 4 front block).1 ++
      ⟨(absorbPrevious 4 front block).2.addr, size, false⟩ :: after := by
    rw [release, ← shape false, ← freed]
  refine ⟨_, _, ?_, ⟨cleared, ?_, ?_⟩, rfl⟩
  · simp only [nearFree, pointer, found, target]
  · rw [← list]
    exact wellFormed.coalesced.release
  · rw [← list]
    exact wellFormed.owned.release wellFormed.tiles (by decide) used returned address

end NearFree

/-! ## Runs of the near heap -/

/-- The near heap together with the pointers its callers hold, each with the
requested number of bytes. -/
structure NearSystem where
  heap : NearHeap
  live : List (Nat × Nat)

/-- What callers do: allocate, free a pointer they hold, or store a byte into a
payload they hold. -/
inductive NearAction where
  | nearMalloc (size : UInt16)
  | nearFree (entry : Nat × Nat)
  | store (entry : Nat × Nat) (index : Nat) (byte : UInt8)

namespace NearSystem

/-- `mem_init` with no pointer handed out. -/
def start (bytes : Bytes) (heap : Nat) : NearSystem := ⟨nearInit bytes heap, []⟩

def step (system : NearSystem) : NearAction → Option NearSystem
  | .nearMalloc size =>
      (Memory.nearMalloc system.heap size.toNat).value?.map fun (heap, result) =>
        ⟨heap, result.elim system.live fun ptr => (ptr, size.toNat) :: system.live⟩
  | .nearFree entry =>
      if entry ∈ system.live then
        (Memory.nearFree system.heap entry.1).value?.map fun heap =>
          ⟨heap, system.live.erase entry⟩
      else none
  | .store entry index byte =>
      if entry ∈ system.live ∧ index < entry.2 then
        some { system with
          heap := { system.heap with
            bytes := pokeByte system.heap.bytes (entry.1 + index) byte } }
      else none

/-- Calls of `near_malloc` are made where `LinkInPlace` holds. -/
def Guarded (system : NearSystem) : NearAction → Prop
  | .nearMalloc size => LinkInPlace system.heap size.toNat
  | _ => True

instance (system : NearSystem) (action : NearAction) : Decidable (system.Guarded action) :=
  match action with
  | .nearMalloc _ => inferInstanceAs (Decidable (LinkInPlace _ _))
  | .nearFree _ => isTrue trivial
  | .store _ _ _ => isTrue trivial

/-- Free pointers one after the other. -/
def nearFreeAll (heap : NearHeap) : List Nat → Outcome NearHeap
  | [] => .ok heap
  | ptr :: rest => (Memory.nearFree heap ptr).bind fun heap => nearFreeAll heap rest

/-- What the callers of the near heap rely on. -/
structure Correct (system : NearSystem) : Prop where
  headerList : ∃ blocks,
    Linked (packedHeaders system.heap.bytes) system.heap.heap blocks 0 ∧
      Tiles nearhdrSize system.heap.heap blocks (system.heap.heap + NEAR_HEAP_SIZE) ∧
      ∀ entry ∈ system.live, entry.1 % 2 = 0 ∧
        ∃ block ∈ blocks, block.used = true ∧ entry.1 = block.addr + nearhdrSize ∧
          entry.2 ≤ block.size
  disjoint : system.live.Pairwise fun entry other =>
    entry.1 + entry.2 + nearhdrSize ≤ other.1 ∨ other.1 + other.2 + nearhdrSize ≤ entry.1
  nearMalloc : ∀ size, ∃ heap result, Memory.nearMalloc system.heap size = .ok (heap, result)
  nearFree : ∀ entry ∈ system.live, ∃ heap, Memory.nearFree system.heap entry.1 = .ok heap
  nearFreeAll : ∀ order : List (Nat × Nat), order.Perm system.live →
    ∃ heap, NearSystem.nearFreeAll system.heap (order.map Prod.fst) = .ok heap ∧
      Linked (packedHeaders heap.bytes) system.heap.heap
        [⟨system.heap.heap, NEAR_HEAP_SIZE - nearhdrSize, false⟩] 0

variable {system system' : NearSystem} {bytes : Bytes} {heap : Nat} {blocks : List Block}

/-- `mem_init` finds the array zeroed and makes it one free block. -/
theorem start_wellFormed (positive : 0 < heap) (even : 2 ∣ heap)
    (bounded : heap + NEAR_HEAP_SIZE < 0x10000)
    (zeroed : ∀ addr, heap ≤ addr → addr < heap + NEAR_HEAP_SIZE → bytes addr = 0) :
    (start bytes heap).heap.WellFormed [⟨heap, 32764, false⟩] [] where
  linked := by
    have word : peek bytes (heap + 2) = 0 := by
      simp only [NEAR_HEAP_SIZE] at zeroed
      simp [peek, zeroed (heap + 2) (by omega) (by omega), zeroed (heap + 3) (by omega) (by omega)]
    simp [start, nearInit, Linked, packedHeaders, nhdrSetNext, nhdrSetSize, nhdrSizeWord, word,
      NEAR_HEAP_SIZE, nearhdrSize, lowBit]
  tiles := by
    have ends : heap + 4 + 32764 = heap + 32768 := by omega
    exact ⟨rfl, ends⟩
  aligned := by
    intro block member
    obtain rfl := List.mem_singleton.mp member
    exact ⟨even, ⟨16382, rfl⟩⟩
  positive := positive
  bounded := bounded
  coalesced := .singleton _
  owned := ⟨by simp [payloads], by simp⟩

/-- A store into a held payload touches no header. -/
theorem store_wellFormed (wellFormed : system.heap.WellFormed blocks system.live)
    {entry : Nat × Nat} (member : entry ∈ system.live) {index : Nat} (inside : index < entry.2)
    (byte : UInt8) :
    NearHeap.WellFormed
      { system.heap with bytes := pokeByte system.heap.bytes (entry.1 + index) byte } blocks
      system.live := by
  obtain ⟨owner, ownerIn, -, address, room⟩ := wellFormed.owned.roomy entry member
  refine ⟨⟨?_, wellFormed.tiles, wellFormed.aligned, wellFormed.positive, wellFormed.bounded⟩,
    wellFormed.coalesced, wellFormed.owned⟩
  refine wellFormed.linked.congr fun block inBlocks => ?_
  apply packedHeaders_pokeByte_apart
  by_cases same : block = owner
  · subst same
    omega
  · rcases wellFormed.tiles.apart inBlocks ownerIn same with before | after <;> omega

/-- Every guarded step keeps the near heap well formed. -/
theorem step_wellFormed (wellFormed : system.heap.WellFormed blocks system.live)
    {action : NearAction} (guarded : system.Guarded action)
    (taken : system.step action = some system') :
    ∃ blocks', system'.heap.WellFormed blocks' system'.live := by
  cases action with
  | nearMalloc size =>
      rcases nearMalloc_spec wellFormed size.toNat_lt guarded with
        ⟨heap, ptr, blocks', result, after, -⟩ | result
      · simp only [step, result, Outcome.value?_ok, Option.map_some, Option.elim_some,
          Option.some.injEq] at taken
        subst taken
        exact ⟨blocks', after⟩
      · simp only [step, result, Outcome.value?_ok, Option.map_some, Option.elim_none,
          Option.some.injEq] at taken
        subst taken
        exact ⟨blocks, wellFormed⟩
  | nearFree entry =>
      by_cases member : entry ∈ system.live
      · obtain ⟨heap, blocks', result, after, -⟩ :=
          nearFree_spec wellFormed (List.perm_cons_erase member)
        simp only [step, member, if_true, result, Outcome.value?_ok, Option.map_some,
          Option.some.injEq] at taken
        subst taken
        exact ⟨blocks', after⟩
      · simp [step, member] at taken
  | store entry index byte =>
      by_cases allowed : entry ∈ system.live ∧ index < entry.2
      · simp only [step, allowed, and_self, if_true, Option.some.injEq] at taken
        subst taken
        exact ⟨blocks, store_wellFormed wellFormed allowed.1 allowed.2 byte⟩
      · simp [step, allowed] at taken

/-- Freeing all held pointers, in the order of the list, leaves one free block. -/
theorem nearFreeAll_spec {heap : NearHeap} {live : List (Nat × Nat)}
    (wellFormed : heap.WellFormed blocks live) :
    ∃ heap', NearSystem.nearFreeAll heap (live.map Prod.fst) = .ok heap' ∧
      Linked (packedHeaders heap'.bytes) heap.heap [⟨heap.heap, 32764, false⟩] 0 := by
  induction live generalizing heap blocks with
  | nil =>
      have single := wellFormed.integrity.eq_single (by omega)
      have size : heap.heap + 32768 - heap.heap - 4 = 32764 := by omega
      rw [size] at single
      exact ⟨heap, rfl, single ▸ wellFormed.linked⟩
  | cons entry live ih =>
      obtain ⟨heap', blocks', result, after, same⟩ :=
        nearFree_spec wellFormed (List.Perm.refl (entry :: live))
      obtain ⟨last, freed, linked⟩ := ih after
      refine ⟨last, ?_, same ▸ linked⟩
      simp only [List.map_cons, NearSystem.nearFreeAll, result, Outcome.bind_ok, freed]

theorem WellFormed.perm {heap : NearHeap} {live order : List (Nat × Nat)}
    (wellFormed : heap.WellFormed blocks live) (perm : order.Perm live) :
    heap.WellFormed blocks order where
  toRepresents := wellFormed.toRepresents
  coalesced := wellFormed.coalesced
  owned := ⟨(perm.map _).trans wellFormed.owned.pointers, fun entry member =>
    wellFormed.owned.roomy entry (perm.subset member)⟩

/-- A well-formed near heap serves its callers correctly. -/
theorem correct_of_wellFormed (wellFormed : system.heap.WellFormed blocks system.live) :
    system.Correct where
  headerList := by
    refine ⟨blocks, wellFormed.linked, wellFormed.tiles, ?_⟩
    intro entry member
    obtain ⟨block, inBlocks, used, address, room⟩ := wellFormed.owned.roomy entry member
    have even := wellFormed.aligned block inBlocks
    exact ⟨by omega, block, inBlocks, used, address.symm, by omega⟩
  disjoint := by
    have nodup := wellFormed.owned.nodup wellFormed.tiles (by decide)
    refine (List.pairwise_map.mp nodup).imp_of_mem ?_
    intro entry other member otherMember ne
    have apart := wellFormed.integrity.disjoint (by decide) member otherMember
      (fun equal => ne (congrArg Prod.fst equal))
    simp only [nearhdrSize]
    omega
  nearMalloc := nearMalloc_returns wellFormed.toRepresents
  nearFree := by
    intro entry member
    obtain ⟨heap, -, result, -⟩ := nearFree_spec wellFormed (List.perm_cons_erase member)
    exact ⟨heap, result⟩
  nearFreeAll := fun order perm => nearFreeAll_spec (WellFormed.perm wellFormed perm)

/-- Near heap integrity: over every run of `near_malloc`, `near_free` of held
pointers and stores by the holders in which each `near_malloc` is called where
`LinkInPlace` holds. -/
theorem near_malloc_near_free_correct (positive : 0 < heap) (even : 2 ∣ heap)
    (bounded : heap + NEAR_HEAP_SIZE < 0x10000)
    (zeroed : ∀ addr, heap ≤ addr → addr < heap + NEAR_HEAP_SIZE → bytes addr = 0)
    (reached : Reached (· = start bytes heap)
      (fun system action system' => system.step action = some system') Guarded system) :
    system.Correct := by
  have kept : ∃ blocks, system.heap.WellFormed blocks system.live := by
    refine reached.invariant (fun system => ∃ blocks,
      system.heap.WellFormed blocks system.live) ?_ ?_
    · rintro system rfl
      exact ⟨_, start_wellFormed positive even bounded zeroed⟩
    · rintro system system' action ⟨blocks, wellFormed⟩ guarded taken
      exact step_wellFormed wellFormed guarded taken
  obtain ⟨blocks, wellFormed⟩ := kept
  exact correct_of_wellFormed wellFormed

/-- The theorem applies where a freed block is handed out again as a whole. -/
theorem near_malloc_near_free_correct_reuse :
    ∃ system, runs step (start (fun _ => 0) 0x1000)
        [.nearMalloc 100, .nearMalloc 40, .nearFree (0x1004, 100), .nearMalloc 95] =
          some system ∧
      system.live = [(0x1004, 95), (0x106C, 40)] ∧ system.Correct := by
  have lives : (runs step (start (fun _ => 0) 0x1000)
      [.nearMalloc 100, .nearMalloc 40, .nearFree (0x1004, 100), .nearMalloc 95]).map
        NearSystem.live = some [(0x1004, 95), (0x106C, 40)] := by
    decide +kernel
  have guarded : Along step Guarded (start (fun _ => 0) 0x1000)
      [.nearMalloc 100, .nearMalloc 40, .nearFree (0x1004, 100), .nearMalloc 95] := by
    decide +kernel
  obtain ⟨system, ran, live⟩ := Option.map_eq_some_iff.mp lives
  refine ⟨system, ran, live, ?_⟩
  exact near_malloc_near_free_correct (by decide) (by decide) (by decide) (fun _ _ _ => rfl)
    (reached_of_runs rfl guarded ran)

/-- Splitting a freed block that has a successor cuts the header list short: the
new header ends the list and the second allocation is no longer on it. -/
theorem near_malloc_split_loses_successor :
    ∃ system, Reachable (· = start (fun _ => 0) 0x1000)
        (fun system action system' => system.step action = some system') system ∧
      ¬system.Correct := by
  have headers : (runs step (start (fun _ => 0) 0x1000)
      [.nearMalloc 100, .nearMalloc 100, .nearFree (0x1004, 100), .nearMalloc 10]).map
        (fun system => (system.heap.heap, nhdrNext system.heap.bytes 0x1000,
          nhdrNext system.heap.bytes 0x100E, nhdrGetSize system.heap.bytes 0x100E)) =
      some (0x1000, 0x100E, 0, 86) := by
    decide +kernel
  obtain ⟨system, ran, fields⟩ := Option.map_eq_some_iff.mp headers
  simp only [Prod.mk.injEq] at fields
  obtain ⟨heap, first, second, size⟩ := fields
  refine ⟨system, reachable_of_runs rfl ran, fun correct => ?_⟩
  obtain ⟨blocks, linked, tiles, -⟩ := correct.headerList
  rw [heap] at linked tiles
  match blocks, linked, tiles with
  | [], linked, _ => exact absurd (show 0x1000 = 0 from linked) (by decide)
  | [_], ⟨_, _, _, ends⟩, _ => exact absurd (first.symm.trans ends) (by decide)
  | [left, right], ⟨_, _, _, linked⟩, ⟨_, _, ends⟩ =>
      obtain ⟨address, rightSize, -⟩ := linked
      have place : right.addr = 0x100E := address.trans first
      have bytes : right.size = 86 := by
        rw [← rightSize, ← address, place]
        exact size
      simp only [Tiles, place, bytes, nearhdrSize, NEAR_HEAP_SIZE] at ends
      exact absurd ends (by decide)
  | left :: right :: third :: _, ⟨_, _, _, linked⟩, ⟨_, _, tiles⟩ =>
      obtain ⟨address, -, -, next, -⟩ := linked
      have place : (packedHeaders system.heap.bytes).next 0x1000 = 0x100E := first
      rw [place] at next
      have thirdPlace : third.addr = 0 := next.trans second
      have begins := tiles.1
      omega

end NearSystem

end Pegasos.Kernel.Memory
