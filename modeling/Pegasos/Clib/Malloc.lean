import Pegasos.Support.Ownership
import Pegasos.Support.PackedHeader
import Pegasos.Support.Outcome
import Pegasos.Support.Transition
import Pegasos.Support.Tables

/-!
# The user heap

`malloc` and `free` of the C library manage the rest of a program's data segment
behind its stack.  The headers form a circular list that starts at `_heap`; the
in-use flag is the lowest bit of `bytes`.  The start-up code makes the heap one
free block.

`malloc` decides whether to split a block by the size of the whole block and not
by what would be left of it.  `malloc_free_correct` is about the runs in which
this makes no difference.
-/

namespace Pegasos.Clib

open Pegasos.Support

/-- `sizeof(hbhdr_t)`. -/
def hbhdrSize : Nat := 4

def INUSE : Nat := 0x0001

/-- The data segment of a program and its variable `_heap`. -/
structure UserHeap where
  bytes : Bytes
  heap : Nat

/-- `pb->next`. -/
def hbNext (bytes : Bytes) (pb : Nat) : Nat := peek bytes pb

/-- `pb->bytes`, with the in-use flag. -/
def hbBytes (bytes : Bytes) (pb : Nat) : Nat := peek bytes (pb + 2)

def hbSetNext (bytes : Bytes) (pb next : Nat) : Bytes := poke bytes pb next

def hbSetBytes (bytes : Bytes) (pb count : Nat) : Bytes := poke bytes (pb + 2) count

/-! ## Start-up -/

/-- The paragraphs that the start-up code finds for the heap (`si` at `fits`),
entered with `palloc` paragraphs allocated for the program. -/
def heapPara (cs ds sp palloc : Nat) : Nat :=
  let bx := ((sp + 15) % 0x10000) >>> 4
  let ax := (sub16 ds cs + bx) % 0x10000
  let si := sub16 palloc ax
  -- the carry of `add ax, si` is taken as not fitting
  if bx + si ≥ 0x10000 then sub16 4096 bx else si

/-- The heap set-up of the start-up code; `none` is the exit `noheap`. -/
def heapSetup (bytes : Bytes) (cs ds sp palloc : Nat) : Option UserHeap :=
  let si := heapPara cs ds sp palloc
  if si ≤ 1 then none
  else
    let count := sub16 ((si <<< 4) % 0x10000) hbhdrSize
    some ⟨hbSetBytes (hbSetNext bytes sp sp) sp count, sp⟩

/-! ## The allocator -/

/-- A list without a cycle has fewer headers than the segment has addresses. -/
def heapFuel : Nat := 0x10000

/-- The test with which `malloc` leaves its search. -/
def mallocFits (bytes : Bytes) (count pb : Nat) : Bool :=
  hbBytes bytes pb &&& INUSE = 0 ∧ hbBytes bytes pb ≥ count

/-- The search of `malloc`: the first free block that is large enough. -/
def mallocSearch (heap : UserHeap) (count : Nat) : Option (Option Nat) :=
  walkAround (hbNext heap.bytes) heap.heap (mallocFits heap.bytes count) heapFuel heap.heap

/-- What `malloc` does to split the block at `blk` and make a free block at `pb`. -/
def mallocSplit (bytes : Bytes) (blk pb count : Nat) : Bytes :=
  let bytes := hbSetNext bytes pb (hbNext bytes blk)
  let bytes := hbSetBytes bytes pb (sub16 (sub16 (hbBytes bytes blk) count) hbhdrSize)
  let bytes := hbSetNext bytes blk pb
  hbSetBytes bytes blk count

/-- `blk->bytes |= INUSE`. -/
def hbSetInUse (bytes : Bytes) (blk : Nat) : Bytes :=
  hbSetBytes bytes blk (hbBytes bytes blk ||| INUSE)

/-- `malloc`; the result 0 is the NULL pointer. -/
def malloc (heap : UserHeap) (count : Nat) : Outcome (UserHeap × Nat) :=
  let count := roundToWord count
  match mallocSearch heap count with
  | none => .hang
  | some none => .ok (heap, 0)
  | some (some blk) =>
      let pub := (blk + hbhdrSize) % 0x10000
      let bytes :=
        if hbBytes heap.bytes blk ≥ 2 * hbhdrSize then
          mallocSplit heap.bytes blk ((pub + count) % 0x10000) count
        else heap.bytes
      .ok ({ heap with bytes := hbSetInUse bytes blk }, pub)

/-- The loop of `free` that looks for the block before `curr`; it ends at `_heap`
when there is none. -/
def freeSearch (heap : UserHeap) (curr : Nat) : Option Nat :=
  (walkAround (hbNext heap.bytes) heap.heap (fun prev => hbNext heap.bytes prev = curr)
    heapFuel heap.heap).map (·.getD heap.heap)

/-- The part of `free` that merges the block at `curr` into a free block at
`prev` before it. -/
def freeMergePrev (bytes : Bytes) (prev curr : Nat) : Bytes × Nat :=
  if prev < curr ∧ hbBytes bytes prev &&& INUSE = 0 then
    let bytes := hbSetNext bytes prev (hbNext bytes curr)
    (hbSetBytes bytes prev
      ((hbBytes bytes prev + (hbhdrSize + hbBytes bytes curr)) % 0x10000), prev)
  else (bytes, curr)

/-- The part of `free` that merges a free successor into the block at `curr`. -/
def freeMergeNext (bytes : Bytes) (curr : Nat) : Bytes :=
  let next := hbNext bytes curr
  if curr < next ∧ hbBytes bytes next &&& INUSE = 0 then
    let bytes := hbSetNext bytes curr (hbNext bytes next)
    hbSetBytes bytes curr ((hbBytes bytes curr + (hbhdrSize + hbBytes bytes next)) % 0x10000)
  else bytes

/-- `free`. -/
def free (heap : UserHeap) (p : Nat) : Outcome UserHeap :=
  let curr := sub16 p hbhdrSize
  if p = 0 then .ok heap
  else
    match freeSearch heap curr with
    | none => .hang
    | some prev =>
        if hbNext heap.bytes prev ≠ curr ∨ hbBytes heap.bytes curr &&& INUSE = 0 then .ok heap
        else
          let bytes := hbSetBytes heap.bytes curr (hbBytes heap.bytes curr &&& 0xfffe)
          let (bytes, curr) := freeMergePrev bytes prev curr
          .ok { heap with bytes := freeMergeNext bytes curr }

/-! ## Well-formed user heaps -/

/-- The circular header list of a user heap visits exactly `blocks`, which tile
the region of one header and `total` bytes behind it in whole words. -/
structure UserHeap.Represents (heap : UserHeap) (total : Nat) (blocks : List Block) : Prop where
  linked : Linked (packedHeaders heap.bytes) heap.heap blocks heap.heap
  tiles : Tiles 4 heap.heap blocks (heap.heap + 4 + total)
  aligned : Aligned 2 blocks
  positive : 0 < heap.heap
  bounded : heap.heap + 4 + total ≤ 0x10000

namespace UserHeap.Represents

variable {heap : UserHeap} {total : Nat} {front rest blocks : List Block} {block : Block}

theorem addr_bounds (represents : heap.Represents total blocks) (member : block ∈ blocks) :
    heap.heap ≤ block.addr ∧ block.addr + 4 + block.size ≤ 0x10000 := by
  have inside := represents.tiles.bounds member
  have := represents.bounded
  omega

theorem length_lt (represents : heap.Represents total blocks) : blocks.length < heapFuel := by
  have := represents.tiles.length_mul_le
  have := represents.bounded
  have := represents.positive
  unfold heapFuel
  omega

theorem nonempty (represents : heap.Represents total blocks) : blocks ≠ [] := by
  rintro rfl
  have := represents.tiles
  simp only [Tiles] at this
  omega

/-- The first block is at `_heap` and no other block is. -/
theorem tail_addr (represents : heap.Represents total blocks) (member : block ∈ blocks.tail) :
    block.addr ≠ heap.heap := by
  obtain ⟨first, rest, rfl⟩ := List.exists_cons_of_ne_nil represents.nonempty
  obtain ⟨begins, after⟩ := represents.tiles
  have := (after.bounds member).1
  omega

/-- What the allocator reads from the header of a block. -/
theorem fields (represents : heap.Represents total blocks) (member : block ∈ blocks) :
    hbBytes heap.bytes block.addr &&& 0xfffe = block.size ∧
      lowBit (hbBytes heap.bytes block.addr) = block.used := by
  obtain ⟨front, rest, rfl⟩ := List.append_of_mem member
  obtain ⟨-, size, used, -⟩ := linked_around.mp represents.linked
  exact ⟨size, used⟩

theorem hbBytes_free (represents : heap.Represents total blocks) (member : block ∈ blocks)
    (free : block.used = false) : hbBytes heap.bytes block.addr = block.size := by
  obtain ⟨size, used⟩ := represents.fields member
  rw [← size]
  exact (clear_of_lowBit peek_lt (used.trans free)).symm

/-- The next link of a block leads to its successor, or from the last block back
to `_heap`. -/
theorem next_eq (represents : heap.Represents total (front ++ block :: rest)) :
    hbNext heap.bytes block.addr = (rest.head?.map Block.addr).getD heap.heap := by
  obtain ⟨-, -, -, after⟩ := linked_around.mp represents.linked
  cases rest with
  | nil => exact after
  | cons next rest => exact after.1.symm

end UserHeap.Represents

/-- A user heap with the pointers in `live` handed out. -/
structure UserHeap.WellFormed (heap : UserHeap) (total : Nat) (blocks : List Block)
    (live : List (Nat × Nat)) : Prop extends heap.Represents total blocks where
  coalesced : Coalesced blocks
  owned : Owned 4 1 blocks live
  addressed : ∀ entry ∈ live, entry.1 < 0x10000

/-- The same without the order among the free blocks: two of them may be neighbours. -/
structure UserHeap.Holds (heap : UserHeap) (total : Nat) (blocks : List Block)
    (live : List (Nat × Nat)) : Prop extends heap.Represents total blocks where
  owned : Owned 4 1 blocks live
  addressed : ∀ entry ∈ live, entry.1 < 0x10000

theorem UserHeap.WellFormed.holds {heap : UserHeap} {total : Nat} {blocks : List Block}
    {live : List (Nat × Nat)} (wellFormed : heap.WellFormed total blocks live) :
    heap.Holds total blocks live :=
  ⟨wellFormed.toRepresents, wellFormed.owned, wellFormed.addressed⟩

theorem UserHeap.Holds.wellFormed {heap : UserHeap} {total : Nat} {blocks : List Block}
    {live : List (Nat × Nat)} (holds : heap.Holds total blocks live)
    (coalesced : Coalesced blocks) : heap.WellFormed total blocks live :=
  ⟨holds.toRepresents, coalesced, holds.owned, holds.addressed⟩

theorem UserHeap.WellFormed.integrity {heap : UserHeap} {total : Nat} {blocks : List Block}
    {live : List (Nat × Nat)} (wellFormed : heap.WellFormed total blocks live) :
    Integrity 4 1 heap.heap (heap.heap + 4 + total) blocks live :=
  ⟨wellFormed.tiles, wellFormed.coalesced, wellFormed.owned⟩

theorem hbSetBytes_headers (bytes : Bytes) (pb count : Nat) :
    (packedHeaders (hbSetBytes bytes pb count)).next pb = (packedHeaders bytes).next pb ∧
      (packedHeaders (hbSetBytes bytes pb count)).size pb = count &&& 0xfffe ∧
      (packedHeaders (hbSetBytes bytes pb count)).used pb = lowBit count := by
  simp [packedHeaders, hbSetBytes]

theorem hbSetBytes_apart (bytes : Bytes) (count : Nat) {pb other : Nat}
    (apart : other + 4 ≤ pb ∨ pb + 4 ≤ other) :
    (packedHeaders (hbSetBytes bytes pb count)).AgreeAt (packedHeaders bytes) other :=
  packedHeaders_poke_apart (by omega)

/-! ## Allocation -/

section Malloc

variable {heap : UserHeap} {total count : Nat} {front rest blocks : List Block}
variable {block : Block} {live : List (Nat × Nat)}

/-- The search of `malloc` recognises the free blocks that are large enough. -/
theorem mallocFits_iff (represents : heap.Represents total blocks) (member : block ∈ blocks) :
    mallocFits heap.bytes count block.addr = true ↔ block.used = false ∧ count ≤ block.size := by
  obtain ⟨-, used⟩ := represents.fields member
  rw [mallocFits, decide_eq_true_iff, INUSE, and_one_eq_zero, used]
  constructor
  · rintro ⟨free, enough⟩
    exact ⟨free, represents.hbBytes_free member free ▸ enough⟩
  · rintro ⟨free, enough⟩
    exact ⟨free, (represents.hbBytes_free member free).symm ▸ enough⟩

/-- The search stops at the first block that fits, or finds none. -/
theorem mallocSearch_spec (represents : heap.Represents total blocks) (count : Nat) :
    (∃ front block rest, blocks = front ++ block :: rest ∧ block.used = false ∧
        count ≤ block.size ∧ mallocSearch heap count = some (some block.addr)) ∨
      mallocSearch heap count = some none := by
  rcases exists_first_or_none blocks (fun block => mallocFits heap.bytes count block.addr) with
    ⟨front, block, rest, rfl, hit, skipped⟩ | none
  · left
    obtain ⟨free, enough⟩ := (mallocFits_iff represents List.mem_append_cons_self).mp hit
    exact ⟨front, block, rest, rfl, free, enough, walkAround_found _ heapFuel represents.linked
      represents.length_lt (fun _ member => represents.tail_addr member) skipped hit⟩
  · exact .inr (walkAround_none _ heapFuel represents.linked represents.nonempty
      represents.length_lt (fun _ member => represents.tail_addr member) none)

theorem mallocSplit_self (bytes : Bytes) (blk count : Nat) {pb : Nat} (small : pb < 0x10000) :
    (packedHeaders (mallocSplit bytes blk pb count)).next blk = pb ∧
      hbBytes (mallocSplit bytes blk pb count) blk = count % 0x10000 := by
  have noWrap : pb % 0x10000 = pb := Nat.mod_eq_of_lt small
  simp [packedHeaders, mallocSplit, hbSetNext, hbSetBytes, hbBytes, noWrap]

theorem mallocSplit_new (bytes : Bytes) (count : Nat) {blk pb : Nat} (apart : blk + 4 ≤ pb) :
    (packedHeaders (mallocSplit bytes blk pb count)).next pb = hbNext bytes blk ∧
      (packedHeaders (mallocSplit bytes blk pb count)).size pb =
        sub16 (sub16 (hbBytes bytes blk) count) hbhdrSize &&& 0xfffe ∧
      (packedHeaders (mallocSplit bytes blk pb count)).used pb =
        lowBit (sub16 (sub16 (hbBytes bytes blk) count) hbhdrSize) := by
  have frame : ∀ addr, pb ≤ addr → ∀ (bytes : Bytes) (word : Nat),
      peek (poke bytes blk word) addr = peek bytes addr ∧
        peek (poke bytes (blk + 2) word) addr = peek bytes addr :=
    fun addr above bytes word => ⟨peek_poke_apart (by omega), peek_poke_apart (by omega)⟩
  have size : ∀ word, peek (poke bytes pb word) (blk + 2) = peek bytes (blk + 2) :=
    fun word => peek_poke_apart (by omega)
  have link : peek bytes blk % 0x10000 = peek bytes blk := Nat.mod_eq_of_lt peek_lt
  simp [packedHeaders, mallocSplit, hbSetNext, hbSetBytes, hbNext, hbBytes,
    frame pb (Nat.le_refl _), frame (pb + 2) (by omega), size, link]

theorem mallocSplit_apart (bytes : Bytes) {blk pb other : Nat}
    (apart : other + 4 ≤ blk ∨ blk + 4 ≤ other) (apartNew : other + 4 ≤ pb ∨ pb + 4 ≤ other) :
    (packedHeaders (mallocSplit bytes blk pb count)).AgreeAt (packedHeaders bytes) other :=
  (packedHeaders_poke_apart (by omega)).trans <|
    (packedHeaders_poke_apart (by omega)).trans <|
      (packedHeaders_poke_apart (by omega)).trans <| packedHeaders_poke_apart (by omega)

theorem addressed_cons (holds : heap.Holds total blocks live) {addr : Nat}
    (inSegment : addr + 4 < 0x10000) :
    ∀ entry ∈ (addr + 4, count) :: live, entry.1 < 0x10000 := by
  intro entry member
  rcases List.mem_cons.mp member with rfl | earlier
  · exact inSegment
  · exact holds.addressed entry earlier

/-- Handing out a whole block. -/
theorem UserHeap.Holds.occupy (sz : Nat)
    (holds : heap.Holds total (front ++ block :: rest) live)
    (free : block.used = false) (unitSz : 2 ∣ sz) (room : count ≤ block.size)
    (inSegment : block.addr + 4 < 0x10000) :
    UserHeap.Holds { heap with bytes := hbSetInUse heap.bytes block.addr } total
      (front ++ carve 4 sz false block ++ rest) ((block.addr + 4, count) :: live) where
  linked := by
    obtain ⟨next, size, used⟩ := hbSetBytes_headers heap.bytes block.addr
      (hbBytes heap.bytes block.addr ||| INUSE)
    obtain ⟨sizeField, -⟩ := holds.fields List.mem_append_cons_self
    simp only [carve, Bool.false_eq_true, if_false, List.append_assoc, List.singleton_append]
    refine holds.linked.update _ _ next (size.trans ?_) (used.trans ?_) ?_
    · rw [INUSE, or_one_clear, sizeField]
    · rw [INUSE, lowBit_or_one]
    · intro other member
      have apart := holds.tiles.apart_around member
      exact hbSetBytes_apart _ _ (by omega)
  tiles := holds.tiles.carve (by simp)
  aligned := holds.aligned.carve (by decide) unitSz
  positive := holds.positive
  bounded := holds.bounded
  owned := holds.owned.carve free (by omega) (by simp)
  addressed := addressed_cons holds inSegment

/-- Handing out the first part of a block that has room for another header. -/
theorem UserHeap.Holds.split {sz : Nat}
    (holds : heap.Holds total (front ++ block :: rest) live)
    (free : block.used = false) (unitSz : 2 ∣ sz) (larger : sz + 4 ≤ block.size)
    (room : count ≤ sz) (inSegment : block.addr + 4 + sz < 0x10000) :
    UserHeap.Holds
      { heap with
        bytes := hbSetInUse (mallocSplit heap.bytes block.addr (block.addr + 4 + sz) sz)
          block.addr } total
      (front ++ carve 4 sz true block ++ rest) ((block.addr + 4, count) :: live) where
  linked := by
    have bounds := holds.addr_bounds List.mem_append_cons_self
    have even := holds.aligned block List.mem_append_cons_self
    have word := holds.hbBytes_free List.mem_append_cons_self free
    have behind : block.addr + 4 ≤ block.addr + 4 + sz := by omega
    have left : sub16 (sub16 block.size sz) hbhdrSize = block.size - sz - 4 := by
      have first : sub16 block.size sz = block.size - sz := sub16_of_le (by omega) (by omega)
      rw [first, hbhdrSize]
      exact sub16_of_le (by omega) (by omega)
    have leftEven : block.size - sz - 4 &&& 0xfffe = block.size - sz - 4 :=
      clear_of_even (by omega) (by omega)
    have leftFree : lowBit (block.size - sz - 4) = false := by
      rw [← leftEven, lowBit_clear]
    have whole : sz &&& 0xfffe = sz := clear_of_even (by omega) unitSz
    have small : sz % 0x10000 = sz := Nat.mod_eq_of_lt (by omega)
    obtain ⟨next, selfBytes⟩ := mallocSplit_self heap.bytes block.addr sz inSegment
    obtain ⟨newNext, newSize, newUsed⟩ := mallocSplit_new heap.bytes sz behind
    obtain ⟨keptNext, size, used⟩ := hbSetBytes_headers
      (mallocSplit heap.bytes block.addr (block.addr + 4 + sz) sz) block.addr (sz ||| INUSE)
    obtain ⟨apartNext, apartSize, apartUsed⟩ := hbSetBytes_apart
      (mallocSplit heap.bytes block.addr (block.addr + 4 + sz) sz) (sz ||| INUSE) (.inr behind)
    rw [word, left] at newSize newUsed
    simp only [carve, if_true, List.append_assoc, List.cons_append, List.nil_append, hbSetInUse,
      selfBytes, small]
    refine holds.linked.split sz true (keptNext.trans next) (size.trans ?_) (used.trans ?_)
      (apartNext.trans newNext) (apartSize.trans (newSize.trans leftEven))
      (apartUsed.trans (newUsed.trans leftFree)) ?_
    · rw [INUSE, or_one_clear, whole]
    · rw [INUSE, lowBit_or_one]
    · intro other member
      have apart := holds.tiles.apart_around member
      exact (hbSetBytes_apart _ _ (by omega)).trans (mallocSplit_apart _ (by omega) (by omega))
  tiles := holds.tiles.carve fun _ => by omega
  aligned := holds.aligned.carve (by decide) unitSz
  positive := holds.positive
  bounded := holds.bounded
  owned := holds.owned.carve free (by omega) fun _ => by omega
  addressed := addressed_cons holds (by omega)

/-- The condition under which `malloc` keeps the heap in order: the block it
finds, if any, is not found for a request that rounds to nothing, its payload
begins inside the segment, and when it is split there is room for the request and
another header. -/
def SplitFits (heap : UserHeap) (count : Nat) : Prop :=
  ∀ blk, mallocSearch heap (roundToWord count) = some (some blk) →
    count ≠ 0xFFFF ∧ blk + hbhdrSize < 0x10000 ∧
      (2 * hbhdrSize ≤ hbBytes heap.bytes blk →
        roundToWord count + hbhdrSize ≤ hbBytes heap.bytes blk)

instance (heap : UserHeap) (count : Nat) : Decidable (SplitFits heap count) :=
  match found : mallocSearch heap (roundToWord count) with
  | some (some blk) =>
      decidable_of_iff (count ≠ 0xFFFF ∧ blk + hbhdrSize < 0x10000 ∧
        (2 * hbhdrSize ≤ hbBytes heap.bytes blk →
          roundToWord count + hbhdrSize ≤ hbBytes heap.bytes blk))
        ⟨fun fits _ other => by
            obtain rfl := Option.some.inj (Option.some.inj (found.symm.trans other))
            exact fits,
          fun fits => fits blk found⟩
  | some none => isTrue fun _ other => by simp [found] at other
  | none => isTrue fun _ other => by simp [found] at other

/-- `malloc` returns on every well-formed heap. -/
theorem malloc_returns (represents : heap.Represents total blocks) (count : Nat) :
    ∃ heap' result, malloc heap count = .ok (heap', result) := by
  rcases mallocSearch_spec represents (roundToWord count) with
    ⟨front, block, rest, -, -, -, found⟩ | missed
  · exact ⟨_, _, by simp only [malloc, found]; rfl⟩
  · exact ⟨_, _, by simp only [malloc, missed]; rfl⟩

theorem hbSetBytes_frame {bytes : Bytes} {pb word addr : Nat} (apart : addr < pb ∨ pb + 4 ≤ addr) :
    hbSetBytes bytes pb word addr = bytes addr :=
  poke_apart (by omega)

theorem hbSetNext_frame {bytes : Bytes} {pb word addr : Nat} (apart : addr < pb ∨ pb + 4 ≤ addr) :
    hbSetNext bytes pb word addr = bytes addr :=
  poke_apart (by omega)

/-- A split stores into the two headers. -/
theorem mallocSplit_frame {bytes : Bytes} {blk pb addr : Nat}
    (apart : addr < blk ∨ blk + 4 ≤ addr) (apartNew : addr < pb ∨ pb + 4 ≤ addr) :
    mallocSplit bytes blk pb count addr = bytes addr := by
  unfold mallocSplit
  rw [hbSetBytes_frame apart, hbSetNext_frame apart, hbSetBytes_frame apartNew,
    hbSetNext_frame apartNew]

/-- `malloc` takes a free block, or the first part of it, and stores into that block alone; or
it returns NULL. -/
theorem malloc_holds (holds : heap.Holds total blocks live) (small : count < 0x10000)
    (fits : SplitFits heap count) :
    (∃ heap' split front block rest, blocks = front ++ block :: rest ∧ block.used = false ∧
        roundToWord count ≤ block.size ∧ malloc heap count = .ok (heap', block.addr + 4) ∧
        heap'.Holds total (front ++ carve 4 (roundToWord count) split block ++ rest)
          ((block.addr + 4, count) :: live) ∧ heap'.heap = heap.heap ∧
        ∀ addr, addr < block.addr ∨ block.addr + 4 + block.size ≤ addr →
          heap'.bytes addr = heap.bytes addr) ∨
      malloc heap count = .ok (heap, 0) := by
  rcases mallocSearch_spec holds.toRepresents (roundToWord count) with
    ⟨front, block, rest, rfl, free, enough, found⟩ | missed
  · left
    obtain ⟨notTop, inSegment, splitRoom⟩ := fits _ found
    obtain ⟨larger, unitSz, -⟩ := roundToWord_spec small notTop
    have bounds := holds.addr_bounds List.mem_append_cons_self
    have word := holds.hbBytes_free List.mem_append_cons_self free
    rw [word] at splitRoom
    simp only [hbhdrSize] at inSegment splitRoom
    have pub : (block.addr + 4) % 0x10000 = block.addr + 4 := by omega
    by_cases splits : block.size ≥ 8
    · have fitsBoth := splitRoom splits
      have new : (block.addr + 4 + roundToWord count) % 0x10000 =
          block.addr + 4 + roundToWord count := by omega
      refine ⟨_, true, front, block, rest, rfl, free, enough, ?_,
        holds.split free unitSz fitsBoth (by omega) (by omega), rfl, fun addr outside => ?_⟩
      · simp only [malloc, found, word, hbhdrSize, Nat.reduceMul, splits, if_true, pub, new]
      · exact (hbSetBytes_frame (by omega)).trans (mallocSplit_frame (by omega) (by omega))
    · refine ⟨_, false, front, block, rest, rfl, free, enough, ?_,
        holds.occupy (roundToWord count) free unitSz (by omega) inSegment, rfl,
        fun addr outside => hbSetBytes_frame (by omega)⟩
      simp only [malloc, found, word, hbhdrSize, Nat.reduceMul, splits, if_false, pub]
  · right
    simp only [malloc, missed]

/-- `malloc` on a well-formed heap hands out a block and leaves a well-formed
heap, or returns NULL. -/
theorem malloc_spec (wellFormed : heap.WellFormed total blocks live) (small : count < 0x10000)
    (fits : SplitFits heap count) :
    (∃ heap' ptr blocks', malloc heap count = .ok (heap', ptr) ∧ ptr ≠ 0 ∧
        heap'.WellFormed total blocks' ((ptr, count) :: live) ∧ heap'.heap = heap.heap) ∨
      malloc heap count = .ok (heap, 0) := by
  rcases malloc_holds wellFormed.holds small fits with
    ⟨heap', split, front, block, rest, rfl, free, -, result, after, same, -⟩ | missed
  · left
    exact ⟨heap', block.addr + 4, _, result, by omega,
      after.wellFormed (wellFormed.coalesced.carve free), same⟩
  · exact .inr missed

end Malloc

/-! ## Release -/

section Free

variable {heap : UserHeap} {total : Nat} {front rest blocks : List Block}
variable {block other : Block} {live remaining : List (Nat × Nat)}

/-- The links before a block lead forward, at most to that block. -/
theorem next_bounds (represents : heap.Represents total (front ++ block :: rest))
    (member : other ∈ front) :
    other.addr < hbNext heap.bytes other.addr ∧ hbNext heap.bytes other.addr ≤ block.addr := by
  obtain ⟨before, after, rfl⟩ := List.append_of_mem member
  simp only [List.append_assoc, List.cons_append] at represents
  have link := represents.next_eq
  have behind := (tiles_around.mp represents.tiles).2
  rw [link]
  cases after with
  | nil =>
      have begins : block.addr = other.addr + 4 + other.size := behind.1
      simp only [List.nil_append, List.head?_cons, Option.map_some, Option.getD_some]
      omega
  | cons next after =>
      have begins : next.addr = other.addr + 4 + other.size := behind.1
      have inside := (behind.2.bounds (show block ∈ after ++ block :: rest by simp)).1
      simp only [List.cons_append, List.head?_cons, Option.map_some, Option.getD_some]
      omega

/-- The search of `free` finds the block before `block`, which for the first
block is the last one of the heap. -/
theorem freeSearch_spec (represents : heap.Represents total (front ++ block :: rest)) :
    freeSearch heap block.addr = some (lastAddr (lastAddr block.addr rest) front) ∧
      hbNext heap.bytes (lastAddr (lastAddr block.addr rest) front) = block.addr := by
  have search : ∀ {pre : List Block} {prev : Block} {post : List Block},
      heap.Represents total (pre ++ prev :: post) → hbNext heap.bytes prev.addr = block.addr →
      (∀ other ∈ pre, hbNext heap.bytes other.addr ≠ block.addr) →
      freeSearch heap block.addr = some prev.addr := by
    intro pre prev post around link skipped
    have found : walkAround (hbNext heap.bytes) heap.heap
        (fun prev => decide (hbNext heap.bytes prev = block.addr)) heapFuel heap.heap =
          some (some prev.addr) :=
      walkAround_found _ heapFuel around.linked around.length_lt
        (fun _ member => around.tail_addr member) (by simpa using skipped) (by simpa using link)
    simp only [freeSearch, found, Option.map_some, Option.getD_some]
  rcases List.eq_nil_or_concat front with rfl | ⟨before, previous, rfl⟩
  · have begins : block.addr = heap.heap := represents.tiles.1
    simp only [lastAddr_nil]
    rcases List.eq_nil_or_concat rest with rfl | ⟨middle, final, rfl⟩
    · have link : hbNext heap.bytes block.addr = block.addr := by
        rw [represents.next_eq]
        exact begins.symm
      exact ⟨search represents link (by simp), link⟩
    · simp only [List.concat_eq_append, List.nil_append, lastAddr_concat] at represents ⊢
      have around : heap.Represents total ((block :: middle) ++ final :: []) := represents
      have link : hbNext heap.bytes final.addr = block.addr := by
        rw [around.next_eq]
        exact begins.symm
      refine ⟨search around link fun other member => ?_, link⟩
      have forward := (next_bounds around member).1
      have := (around.addr_bounds (List.mem_append_left _ member)).1
      omega
  · simp only [List.concat_eq_append, lastAddr_concat, List.append_assoc,
      List.singleton_append] at represents ⊢
    have link : hbNext heap.bytes previous.addr = block.addr := represents.next_eq
    have behind : block.addr = previous.addr + 4 + previous.size :=
      (tiles_around.mp represents.tiles).2.1
    refine ⟨search represents link fun other member => ?_, link⟩
    have backward := (next_bounds represents member).2
    omega

/-- Clearing the flag of one block. -/
theorem clearInUse_spec (represents : heap.Represents total (front ++ block :: rest)) :
    UserHeap.Represents
      { heap with
        bytes := hbSetBytes heap.bytes block.addr (hbBytes heap.bytes block.addr &&& 0xfffe) }
      total (front ++ { block with used := false } :: rest) := by
  obtain ⟨before, after⟩ := tiles_around.mp represents.tiles
  refine ⟨?_, tiles_around.mpr ⟨before, after⟩, ?_, represents.positive, represents.bounded⟩
  · obtain ⟨sizeField, -⟩ := represents.fields List.mem_append_cons_self
    obtain ⟨next, size, used⟩ := hbSetBytes_headers heap.bytes block.addr
      (hbBytes heap.bytes block.addr &&& 0xfffe)
    refine represents.linked.update _ _ next (size.trans ?_) (used.trans ?_) ?_
    · rw [clear_clear, sizeField]
    · rw [lowBit_clear]
    · intro other member
      have apart := represents.tiles.apart_around member
      exact hbSetBytes_apart _ _ (by omega)
  · intro other member
    rcases List.mem_append.mp member with inFront | later
    · exact represents.aligned other (List.mem_append_left _ inFront)
    · rcases List.mem_cons.mp later with rfl | inRest
      · exact represents.aligned block List.mem_append_cons_self
      · exact represents.aligned other (by simp [inRest])

theorem freeMerge_headers (bytes : Bytes) (prev next count : Nat) :
    (packedHeaders (hbSetBytes (hbSetNext bytes prev next) prev count)).next prev =
        next % 0x10000 ∧
      (packedHeaders (hbSetBytes (hbSetNext bytes prev next) prev count)).size prev =
        count &&& 0xfffe ∧
      (packedHeaders (hbSetBytes (hbSetNext bytes prev next) prev count)).used prev =
        lowBit count := by
  simp [packedHeaders, hbSetNext, hbSetBytes]

theorem freeMerge_apart {bytes : Bytes} {prev next count other : Nat}
    (apart : other + 4 ≤ prev ∨ prev + 4 ≤ other) :
    (packedHeaders (hbSetBytes (hbSetNext bytes prev next) prev count)).AgreeAt
      (packedHeaders bytes) other :=
  (packedHeaders_poke_apart (by omega)).trans (packedHeaders_poke_apart (by omega))

/-- Merging two adjacent free blocks, as both parts of `free` do it. -/
theorem freeMerge_spec {left right : Block}
    (represents : heap.Represents total (front ++ left :: right :: rest))
    (leftFree : left.used = false) (rightFree : right.used = false) :
    Linked (packedHeaders
        (hbSetBytes (hbSetNext heap.bytes left.addr (hbNext heap.bytes right.addr)) left.addr
          ((hbBytes (hbSetNext heap.bytes left.addr (hbNext heap.bytes right.addr)) left.addr +
            (hbhdrSize + hbBytes
              (hbSetNext heap.bytes left.addr (hbNext heap.bytes right.addr)) right.addr)) %
            0x10000)))
      heap.heap (front ++ ⟨left.addr, left.size + 4 + right.size, false⟩ :: rest) heap.heap := by
  have leftBytes := represents.hbBytes_free List.mem_append_cons_self leftFree
  have rightBytes := represents.hbBytes_free (show right ∈ _ by simp) rightFree
  have leftEven := represents.aligned left List.mem_append_cons_self
  have rightEven := represents.aligned right (by simp)
  have rightBounds := represents.addr_bounds (show right ∈ _ by simp)
  have positive := represents.positive
  have leftBounds := represents.addr_bounds (show left ∈ _ by simp)
  have begins : right.addr = left.addr + 4 + left.size :=
    (tiles_around.mp represents.tiles).2.1
  have leftKept : hbBytes (hbSetNext heap.bytes left.addr (hbNext heap.bytes right.addr))
      left.addr = left.size := by
    rw [← leftBytes, hbBytes, hbSetNext, peek_poke_next, hbBytes]
  have rightKept : hbBytes (hbSetNext heap.bytes left.addr (hbNext heap.bytes right.addr))
      right.addr = right.size := by
    rw [← rightBytes, hbBytes, hbSetNext, peek_poke_apart (by omega), hbBytes]
  have whole : (left.size + (hbhdrSize + right.size)) % 0x10000 = left.size + 4 + right.size := by
    simp only [hbhdrSize]
    omega
  have even : left.size + 4 + right.size &&& 0xfffe = left.size + 4 + right.size :=
    clear_of_even (by omega) (by omega)
  rw [leftKept, rightKept, whole]
  obtain ⟨next, size, used⟩ := freeMerge_headers heap.bytes left.addr
    (hbNext heap.bytes right.addr) (left.size + 4 + right.size)
  refine represents.linked.merge _ _ (next.trans ?_) (size.trans even) (used.trans ?_) ?_
  · exact Nat.mod_eq_of_lt peek_lt
  · rw [← even, lowBit_clear]
  · intro other member
    have apart := represents.tiles.apart_around (show other ∈ front ++ right :: rest by
      simp only [List.mem_append, List.mem_cons] at member ⊢
      tauto)
    exact freeMerge_apart (by omega)

/-- The first merge of `free` is `absorbPrevious`. -/
theorem freeMergePrev_spec (represents : heap.Represents total (front ++ block :: rest))
    (free : block.used = false) :
    UserHeap.Represents
        { heap with
          bytes := (freeMergePrev heap.bytes (lastAddr (lastAddr block.addr rest) front)
            block.addr).1 } total
        ((absorbPrevious 4 front block).1 ++ (absorbPrevious 4 front block).2 :: rest) ∧
      (freeMergePrev heap.bytes (lastAddr (lastAddr block.addr rest) front) block.addr).2 =
        (absorbPrevious 4 front block).2.addr := by
  have tiles := represents.tiles.absorbPrevious
  have aligned := represents.aligned.absorbPrevious (show 2 ∣ 4 by decide)
  rcases front_cases front with ⟨before, previous, rfl, previousFree⟩ | used
  · rw [absorbPrevious_free previousFree] at tiles aligned ⊢
    simp only [List.append_assoc, List.singleton_append] at represents
    have begins : block.addr = previous.addr + 4 + previous.size :=
      (tiles_around.mp represents.tiles).2.1
    have before' : previous.addr < block.addr := by omega
    have clear : hbBytes heap.bytes previous.addr &&& INUSE = 0 :=
      and_one_eq_zero.mpr ((represents.fields List.mem_append_cons_self).2.trans previousFree)
    simp only [freeMergePrev, lastAddr_concat, before', clear, and_self, if_true, and_true]
    exact ⟨freeMerge_spec represents previousFree free, tiles, aligned, represents.positive,
      represents.bounded⟩
  · rw [absorbPrevious_used used] at tiles aligned ⊢
    have kept : ¬(lastAddr (lastAddr block.addr rest) front < block.addr ∧
        hbBytes heap.bytes (lastAddr (lastAddr block.addr rest) front) &&& INUSE = 0) := by
      rcases List.eq_nil_or_concat front with rfl | ⟨before, previous, rfl⟩
      · have begins : block.addr = heap.heap := represents.tiles.1
        rcases List.eq_nil_or_concat rest with rfl | ⟨middle, final, rfl⟩
        · simp
        · have := (represents.addr_bounds (show final ∈ _ by simp)).1
          simp only [List.concat_eq_append, lastAddr_nil, lastAddr_concat]
          omega
      · have previousFields := represents.fields (show previous ∈ _ by simp)
        simp only [List.concat_eq_append, List.getLast?_concat, Option.all_some] at used
        simp only [List.concat_eq_append, lastAddr_concat, INUSE, and_one_eq_zero,
          previousFields.2, used]
        simp
    have same : { block with used := false } = block := by rw [← free]
    simp only [freeMergePrev, kept, if_false, and_true, same]
    exact represents

/-- The second merge of `free` is `absorbNext`. -/
theorem freeMergeNext_spec (represents : heap.Represents total (front ++ block :: rest))
    (free : block.used = false) :
    UserHeap.Represents { heap with bytes := freeMergeNext heap.bytes block.addr } total
      (front ++ absorbNext 4 block rest) := by
  have tiles := represents.tiles.absorbNext
  have aligned := represents.aligned.absorbNext (show 2 ∣ 4 by decide)
  have link := represents.next_eq
  cases rest with
  | nil =>
      have ends : hbNext heap.bytes block.addr = heap.heap := link
      have notAfter : ¬block.addr < heap.heap := by
        have := (represents.addr_bounds List.mem_append_cons_self).1
        omega
      simp only [freeMergeNext, ends, notAfter, false_and, if_false]
      exact represents
  | cons next rest =>
      have leads : hbNext heap.bytes block.addr = next.addr := link
      have begins : next.addr = block.addr + 4 + block.size :=
        (tiles_around.mp represents.tiles).2.1
      have after : block.addr < next.addr := by omega
      have nextFields := represents.fields (show next ∈ _ by simp)
      cases used : next.used with
      | true =>
          rw [absorbNext_used used] at tiles ⊢
          have inUse : ¬hbBytes heap.bytes next.addr &&& INUSE = 0 := by
            rw [INUSE, and_one_eq_zero, nextFields.2, used]
            simp
          simp only [freeMergeNext, leads, inUse, and_false, if_false]
          exact represents
      | false =>
          rw [absorbNext_free used] at tiles aligned ⊢
          have clear : hbBytes heap.bytes next.addr &&& INUSE = 0 :=
            and_one_eq_zero.mpr (nextFields.2.trans used)
          simp only [freeMergeNext, leads, after, clear, and_self, if_true]
          rw [free] at tiles aligned ⊢
          exact ⟨freeMerge_spec represents free used, tiles, aligned, represents.positive,
            represents.bounded⟩

theorem freeMergePrev_frame {bytes : Bytes} {prev curr addr : Nat}
    (apart : addr < prev ∨ prev + 4 ≤ addr) :
    (freeMergePrev bytes prev curr).1 addr = bytes addr := by
  unfold freeMergePrev
  split
  · exact (hbSetBytes_frame apart).trans (hbSetNext_frame apart)
  · rfl

theorem freeMergeNext_frame {bytes : Bytes} {curr addr : Nat}
    (apart : addr < curr ∨ curr + 4 ≤ addr) : freeMergeNext bytes curr addr = bytes addr := by
  unfold freeMergeNext
  dsimp only
  split
  · exact (hbSetBytes_frame apart).trans (hbSetNext_frame apart)
  · rfl

/-- `free` of a live pointer releases its block, and stores into headers alone. -/
theorem free_holds (holds : heap.Holds total blocks live) {entry : Nat × Nat}
    (returned : live.Perm (entry :: remaining)) :
    ∃ heap' front block rest, blocks = front ++ block :: rest ∧ block.used = true ∧
      block.addr + 4 = entry.1 ∧ free heap entry.1 = .ok heap' ∧
      heap'.Holds total (release 4 front block rest) remaining ∧ heap'.heap = heap.heap ∧
      ∀ addr, (∀ other ∈ blocks, addr < other.addr ∨ other.addr + 4 ≤ addr) →
        heap'.bytes addr = heap.bytes addr := by
  have member : entry ∈ live := returned.symm.subset (by simp)
  obtain ⟨front, block, rest, rfl, used, address, -⟩ := holds.owned.exists_around member
  have inSegment := holds.addressed entry member
  have notNull : entry.1 ≠ 0 := by omega
  have pointer : sub16 entry.1 hbhdrSize = block.addr := by
    have offset : sub16 entry.1 hbhdrSize = entry.1 - 4 :=
      sub16_of_le inSegment (by simp only [hbhdrSize]; omega)
    omega
  obtain ⟨found, linkBack⟩ := freeSearch_spec holds.toRepresents
  have inUse : ¬hbBytes heap.bytes block.addr &&& INUSE = 0 := by
    rw [INUSE, and_one_eq_zero, (holds.fields List.mem_append_cons_self).2, used]
    simp
  have cleared := clearInUse_spec holds.toRepresents
  obtain ⟨merged, target⟩ := freeMergePrev_spec cleared rfl
  have sameAbsorb : absorbPrevious 4 front { block with used := false } =
      absorbPrevious 4 front block := rfl
  rw [sameAbsorb] at merged target
  have freed : (absorbPrevious 4 front block).2.used = false := by
    rcases front_cases front with ⟨before, previous, rfl, free⟩ | frontUsed
    · rw [absorbPrevious_free free]
    · rw [absorbPrevious_used frontUsed]
  have merged' := freeMergeNext_spec merged freed
  have result : free heap entry.1 = .ok { heap with
      bytes := freeMergeNext
        (freeMergePrev
          (hbSetBytes heap.bytes block.addr (hbBytes heap.bytes block.addr &&& 0xfffe))
          (lastAddr (lastAddr block.addr rest) front) block.addr).1
        (absorbPrevious 4 front block).2.addr } := by
    rw [← target]
    unfold free
    rw [pointer, if_neg notNull, found]
    exact if_neg (by simp only [linkBack, ne_eq, not_true_eq_false, false_or, inUse,
      not_false_eq_true])
  refine ⟨_, front, block, rest, rfl, used, address, result, ⟨merged', ?_, ?_⟩, rfl, ?_⟩
  · exact holds.owned.release holds.tiles (by decide) used returned address
  · exact fun other inRemaining => holds.addressed other
      (returned.symm.subset (List.mem_cons_of_mem _ inRemaining))
  · intro addr apart
    have header := apart block List.mem_append_cons_self
    have atMerged : addr < (absorbPrevious 4 front block).2.addr ∨
        (absorbPrevious 4 front block).2.addr + 4 ≤ addr := by
      rcases front_cases front with ⟨before, previous, rfl, free⟩ | frontUsed
      · rw [absorbPrevious_free free]
        exact apart previous (by simp)
      · rw [absorbPrevious_used frontUsed]
        exact header
    have atPrev : addr < lastAddr (lastAddr block.addr rest) front ∨
        lastAddr (lastAddr block.addr rest) front + 4 ≤ addr := by
      rcases lastAddr_cases (lastAddr block.addr rest) front with same | ⟨other, inFront, same⟩
      · rcases lastAddr_cases block.addr rest with first | ⟨other, inRest, last⟩
        · rw [same, first]
          exact header
        · rw [same, last]
          exact apart other (by simp [inRest])
      · rw [same]
        exact apart other (by simp [inFront])
    exact (freeMergeNext_frame atMerged).trans <|
      (freeMergePrev_frame atPrev).trans (hbSetBytes_frame header)

/-- `free` of a live pointer leaves a well-formed heap without it. -/
theorem free_spec (wellFormed : heap.WellFormed total blocks live) {entry : Nat × Nat}
    (returned : live.Perm (entry :: remaining)) :
    ∃ heap' blocks', free heap entry.1 = .ok heap' ∧
      heap'.WellFormed total blocks' remaining ∧ heap'.heap = heap.heap := by
  obtain ⟨heap', front, block, rest, rfl, -, -, result, after, same, -⟩ :=
    free_holds wellFormed.holds returned
  exact ⟨heap', _, result, after.wellFormed wellFormed.coalesced.release, same⟩

end Free

/-! ## Runs of the user heap -/

/-- The user heap together with the pointers the program holds, each with the
requested number of bytes. -/
structure UserSystem where
  heap : UserHeap
  live : List (Nat × Nat)

/-- What a program does: allocate, free a pointer it holds, or store a byte into
a payload it holds. -/
inductive UserAction where
  | malloc (count : UInt16)
  | free (entry : Nat × Nat)
  | store (entry : Nat × Nat) (index : Nat) (byte : UInt8)

namespace UserSystem

def step (system : UserSystem) : UserAction → Option UserSystem
  | .malloc count =>
      (Clib.malloc system.heap count.toNat).value?.map fun (heap, ptr) =>
        ⟨heap, if ptr = 0 then system.live else (ptr, count.toNat) :: system.live⟩
  | .free entry =>
      if entry ∈ system.live then
        (Clib.free system.heap entry.1).value?.map fun heap => ⟨heap, system.live.erase entry⟩
      else none
  | .store entry index byte =>
      if entry ∈ system.live ∧ index < entry.2 then
        some { system with
          heap := { system.heap with
            bytes := pokeByte system.heap.bytes (entry.1 + index) byte } }
      else none

/-- Calls of `malloc` are made where `SplitFits` holds. -/
def Guarded (system : UserSystem) : UserAction → Prop
  | .malloc count => SplitFits system.heap count.toNat
  | _ => True

instance (system : UserSystem) (action : UserAction) : Decidable (system.Guarded action) :=
  match action with
  | .malloc _ => inferInstanceAs (Decidable (SplitFits _ _))
  | .free _ => isTrue trivial
  | .store _ _ _ => isTrue trivial

/-- Free pointers one after the other. -/
def freeAll (heap : UserHeap) : List Nat → Outcome UserHeap
  | [] => .ok heap
  | ptr :: rest => (Clib.free heap ptr).bind fun heap => freeAll heap rest

/-- What a program relies on, for a heap that was set up with a free block of
`total` bytes at `start`. -/
structure Correct (system : UserSystem) (start total : Nat) : Prop where
  headerList : ∃ blocks,
    Linked (packedHeaders system.heap.bytes) start blocks start ∧
      Tiles hbhdrSize start blocks (start + hbhdrSize + total) ∧
      (∀ block ∈ blocks, block.size ≤ total) ∧
      ∀ entry ∈ system.live, entry.1 % 2 = 0 ∧
        ∃ block ∈ blocks, block.used = true ∧ entry.1 = block.addr + hbhdrSize ∧
          entry.2 ≤ block.size
  disjoint : system.live.Pairwise fun entry other =>
    entry.1 + entry.2 + hbhdrSize ≤ other.1 ∨ other.1 + other.2 + hbhdrSize ≤ entry.1
  malloc : ∀ count, ∃ heap ptr, Clib.malloc system.heap count = .ok (heap, ptr)
  free : ∀ entry ∈ system.live, ∃ heap, Clib.free system.heap entry.1 = .ok heap
  freeAll : ∀ order : List (Nat × Nat), order.Perm system.live →
    ∃ heap, UserSystem.freeAll system.heap (order.map Prod.fst) = .ok heap ∧
      Linked (packedHeaders heap.bytes) start [⟨start, total, false⟩] start

variable {system system' : UserSystem} {bytes : Bytes} {heap : UserHeap}
variable {cs ds sp palloc total : Nat} {blocks : List Block}

/-- What the start-up code leaves behind: one free block at the top of the stack. -/
theorem heapSetup_spec (built : heapSetup bytes cs ds sp palloc = some heap)
    (small : sp < 0x10000) :
    heap.heap = sp ∧ hbNext heap.bytes sp = sp ∧ 2 ∣ hbBytes heap.bytes sp ∧
      lowBit (hbBytes heap.bytes sp) = false := by
  simp only [heapSetup] at built
  generalize heapPara cs ds sp palloc = si at built
  split at built
  · simp at built
  · obtain rfl := Option.some.inj built
    have even : 2 ∣ sub16 ((si <<< 4) % 0x10000) hbhdrSize := by
      simp only [sub16, hbhdrSize, Nat.shiftLeft_eq]
      omega
    generalize sub16 ((si <<< 4) % 0x10000) hbhdrSize = count at even
    have word : hbBytes (hbSetBytes (hbSetNext bytes sp sp) sp count) sp = count % 0x10000 := by
      rw [hbBytes, hbSetBytes, peek_poke_self]
    refine ⟨rfl, ?_, word ▸ by omega, ?_⟩
    · rw [hbNext, hbSetBytes, peek_poke_size, hbSetNext, peek_poke_self]
      exact Nat.mod_eq_of_lt small
    · rw [word, lowBit, Nat.testBit_zero, decide_eq_false_iff_not]
      omega

theorem start_wellFormed (built : heapSetup bytes cs ds sp palloc = some heap)
    (positive : 0 < sp) (even : 2 ∣ sp) (small : sp < 0x10000)
    (fits : sp + hbhdrSize + hbBytes heap.bytes sp ≤ 0x10000) :
    heap.WellFormed (hbBytes heap.bytes sp) [⟨sp, hbBytes heap.bytes sp, false⟩] [] := by
  obtain ⟨rfl, link, unit, clear⟩ := heapSetup_spec built small
  refine ⟨⟨?_, ⟨rfl, rfl⟩, ?_, positive, fits⟩, .singleton _, ⟨by simp [payloads], by simp⟩,
    by simp⟩
  · exact ⟨rfl, clear_of_lowBit peek_lt clear, clear, link⟩
  · intro block member
    obtain rfl := List.mem_singleton.mp member
    exact ⟨even, unit⟩

/-- A store into a held payload touches no header. -/
theorem store_wellFormed (wellFormed : system.heap.WellFormed total blocks system.live)
    {entry : Nat × Nat} (member : entry ∈ system.live) {index : Nat} (inside : index < entry.2)
    (byte : UInt8) :
    UserHeap.WellFormed
      { system.heap with bytes := pokeByte system.heap.bytes (entry.1 + index) byte } total blocks
      system.live := by
  obtain ⟨owner, ownerIn, -, address, room⟩ := wellFormed.owned.roomy entry member
  refine ⟨⟨?_, wellFormed.tiles, wellFormed.aligned, wellFormed.positive, wellFormed.bounded⟩,
    wellFormed.coalesced, wellFormed.owned, wellFormed.addressed⟩
  refine wellFormed.linked.congr fun block inBlocks => ?_
  apply packedHeaders_pokeByte_apart
  by_cases same : block = owner
  · subst same
    omega
  · rcases wellFormed.tiles.apart inBlocks ownerIn same with before | after <;> omega

/-- Every guarded step keeps the user heap well formed, at the same place. -/
theorem step_wellFormed (wellFormed : system.heap.WellFormed total blocks system.live)
    {action : UserAction} (guarded : system.Guarded action)
    (taken : system.step action = some system') :
    ∃ blocks', system'.heap.WellFormed total blocks' system'.live ∧
      system'.heap.heap = system.heap.heap := by
  cases action with
  | malloc count =>
      rcases malloc_spec wellFormed count.toNat_lt guarded with
        ⟨heap, ptr, blocks', result, notNull, after, same⟩ | result
      · simp only [step, result, Outcome.value?_ok, Option.map_some, notNull, if_false,
          Option.some.injEq] at taken
        subst taken
        exact ⟨blocks', after, same⟩
      · simp only [step, result, Outcome.value?_ok, Option.map_some, if_true,
          Option.some.injEq] at taken
        subst taken
        exact ⟨blocks, wellFormed, rfl⟩
  | free entry =>
      by_cases member : entry ∈ system.live
      · obtain ⟨heap, blocks', result, after, same⟩ :=
          free_spec wellFormed (List.perm_cons_erase member)
        simp only [step, member, if_true, result, Outcome.value?_ok, Option.map_some,
          Option.some.injEq] at taken
        subst taken
        exact ⟨blocks', after, same⟩
      · simp [step, member] at taken
  | store entry index byte =>
      by_cases allowed : entry ∈ system.live ∧ index < entry.2
      · simp only [step, allowed, and_self, if_true, Option.some.injEq] at taken
        subst taken
        exact ⟨blocks, store_wellFormed wellFormed allowed.1 allowed.2 byte, rfl⟩
      · simp [step, allowed] at taken

/-- Freeing all held pointers, in the order of the list, leaves one free block. -/
theorem freeAll_spec {heap : UserHeap} {live : List (Nat × Nat)}
    (wellFormed : heap.WellFormed total blocks live) :
    ∃ heap', UserSystem.freeAll heap (live.map Prod.fst) = .ok heap' ∧
      Linked (packedHeaders heap'.bytes) heap.heap [⟨heap.heap, total, false⟩] heap.heap := by
  induction live generalizing heap blocks with
  | nil =>
      have single := wellFormed.integrity.eq_single (by omega)
      have size : heap.heap + 4 + total - heap.heap - 4 = total := by omega
      rw [size] at single
      exact ⟨heap, rfl, single ▸ wellFormed.linked⟩
  | cons entry live ih =>
      obtain ⟨heap', blocks', result, after, same⟩ :=
        free_spec wellFormed (List.Perm.refl (entry :: live))
      obtain ⟨last, freed, linked⟩ := ih after
      refine ⟨last, ?_, same ▸ linked⟩
      simp only [List.map_cons, UserSystem.freeAll, result, Outcome.bind_ok, freed]

theorem WellFormed.perm {heap : UserHeap} {live order : List (Nat × Nat)}
    (wellFormed : heap.WellFormed total blocks live) (perm : order.Perm live) :
    heap.WellFormed total blocks order where
  toRepresents := wellFormed.toRepresents
  coalesced := wellFormed.coalesced
  owned := ⟨(perm.map _).trans wellFormed.owned.pointers, fun entry member =>
    wellFormed.owned.roomy entry (perm.subset member)⟩
  addressed := fun entry member => wellFormed.addressed entry (perm.subset member)

/-- A well-formed user heap serves its program correctly. -/
theorem correct_of_wellFormed (wellFormed : system.heap.WellFormed total blocks system.live) :
    system.Correct system.heap.heap total where
  headerList := by
    refine ⟨blocks, wellFormed.linked, wellFormed.tiles, ?_, ?_⟩
    · intro block member
      have := wellFormed.tiles.bounds member
      omega
    · intro entry member
      obtain ⟨block, inBlocks, used, address, room⟩ := wellFormed.owned.roomy entry member
      have even := wellFormed.aligned block inBlocks
      exact ⟨by omega, block, inBlocks, used, address.symm, by omega⟩
  disjoint := by
    have nodup := wellFormed.owned.nodup wellFormed.tiles (by decide)
    refine (List.pairwise_map.mp nodup).imp_of_mem ?_
    intro entry other member otherMember ne
    have apart := wellFormed.integrity.disjoint (by decide) member otherMember
      (fun equal => ne (congrArg Prod.fst equal))
    simp only [hbhdrSize]
    omega
  malloc := malloc_returns wellFormed.toRepresents
  free := by
    intro entry member
    obtain ⟨heap, -, result, -⟩ := free_spec wellFormed (List.perm_cons_erase member)
    exact ⟨heap, result⟩
  freeAll := fun order perm => freeAll_spec (WellFormed.perm wellFormed perm)

/-- User heap integrity: over every run of `malloc`, `free` of held pointers and
stores by the program, on a heap that the start-up code builds inside the data
segment and in which each `malloc` is called where `SplitFits` holds. -/
theorem malloc_free_correct (built : heapSetup bytes cs ds sp palloc = some heap)
    (positive : 0 < sp) (even : 2 ∣ sp) (small : sp < 0x10000)
    (fits : sp + hbhdrSize + hbBytes heap.bytes sp ≤ 0x10000)
    (reached : Reached (· = ⟨heap, []⟩)
      (fun system action system' => system.step action = some system') Guarded system) :
    system.Correct sp (hbBytes heap.bytes sp) := by
  have kept : ∃ blocks, system.heap.WellFormed (hbBytes heap.bytes sp) blocks system.live ∧
      system.heap.heap = sp := by
    refine reached.invariant (fun system => ∃ blocks,
      system.heap.WellFormed (hbBytes heap.bytes sp) blocks system.live ∧
        system.heap.heap = sp) ?_ ?_
    · rintro system rfl
      exact ⟨_, start_wellFormed built positive even small fits, (heapSetup_spec built small).1⟩
    · rintro system system' action ⟨blocks, wellFormed, place⟩ guarded taken
      obtain ⟨blocks', after, same⟩ := step_wellFormed wellFormed guarded taken
      exact ⟨blocks', after, same.trans place⟩
  obtain ⟨blocks, wellFormed, rfl⟩ := kept
  exact correct_of_wellFormed wellFormed

/-- The heap of a program with 256 bytes of code, 4096 bytes of data and stack,
and 64 paragraphs behind them. -/
def exampleHeap : UserHeap :=
  (heapSetup (fun _ => 0) 0x100 0x110 0x1000 0x150).getD ⟨fun _ => 0, 0⟩

/-- The theorem applies where a block in the middle of the heap is split. -/
theorem malloc_free_correct_split :
    ∃ system, runs step ⟨exampleHeap, []⟩
        [.malloc 100, .malloc 41, .free (0x1004, 100), .malloc 20] = some system ∧
      system.live = [(0x1004, 20), (0x106C, 41)] ∧ system.Correct 0x1000 1020 := by
  have lives : (runs step ⟨exampleHeap, []⟩
      [.malloc 100, .malloc 41, .free (0x1004, 100), .malloc 20]).map UserSystem.live =
        some [(0x1004, 20), (0x106C, 41)] := by
    decide +kernel
  have guarded : Along step Guarded ⟨exampleHeap, []⟩
      [.malloc 100, .malloc 41, .free (0x1004, 100), .malloc 20] := by
    decide +kernel
  have total : hbBytes exampleHeap.bytes 0x1000 = 1020 := by decide +kernel
  have built : heapSetup (fun _ => 0) 0x100 0x110 0x1000 0x150 = some exampleHeap := rfl
  obtain ⟨system, ran, live⟩ := Option.map_eq_some_iff.mp lives
  refine ⟨system, ran, live, ?_⟩
  rw [← total]
  exact malloc_free_correct built (by decide) (by decide) (by decide) (by rw [total]; decide)
    (reached_of_runs rfl guarded ran)

/-- An exact fit is split all the same: the header behind the heap records a
block of 65532 bytes. -/
theorem malloc_exact_fit_overruns :
    ∃ system : UserSystem, Reachable (· = ⟨exampleHeap, []⟩)
        (fun system action system' => system.step action = some system') system ∧
      ¬system.Correct 0x1000 (hbBytes exampleHeap.bytes 0x1000) := by
  have total : hbBytes exampleHeap.bytes 0x1000 = 1020 := by decide +kernel
  have headers : (runs step ⟨exampleHeap, []⟩ [.malloc 1020]).map
      (fun system => (hbNext system.heap.bytes 0x1000,
        (packedHeaders system.heap.bytes).size 0x1400)) = some (0x1400, 65532) := by
    decide +kernel
  obtain ⟨system, ran, fields⟩ := Option.map_eq_some_iff.mp headers
  simp only [Prod.mk.injEq] at fields
  obtain ⟨first, size⟩ := fields
  refine ⟨system, reachable_of_runs rfl ran, fun correct => ?_⟩
  obtain ⟨blocks, linked, tiles, bounded, -⟩ := correct.headerList
  rw [total] at bounded
  match blocks, linked, tiles, bounded with
  | [], _, tiles, _ =>
      simp only [Tiles, hbhdrSize] at tiles
      omega
  | [_], ⟨_, _, _, ends⟩, _, _ => exact absurd (first.symm.trans ends) (by decide)
  | left :: right :: _, ⟨_, _, _, linked⟩, _, bounded =>
      obtain ⟨address, rightSize, -⟩ := linked
      have place : right.addr = 0x1400 := address.trans first
      rw [← address, place, size] at rightSize
      have small := bounded right (by simp)
      omega

end UserSystem

end Pegasos.Clib
