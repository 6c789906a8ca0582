import Pegasos.Clib.Malloc

/-!
# Resizing blocks of the user heap

`realloc` cuts a block down, extends it into a free block behind it, or moves it.  Where
it extends a block and makes a free block of what is left, it links that block to the header of
the block it has just taken in instead of to the block behind.  `realloc_keeps` shows that the
heap and the contents are kept exactly where this does not happen.
-/

namespace Pegasos.Clib

open Pegasos.Support

/-- `memcpy` between ranges that do not overlap. -/
def memcpy (bytes : Bytes) (dst src count : Nat) : Bytes := fun addr =>
  if dst ≤ addr ∧ addr < dst + count then bytes (src + (addr - dst)) else bytes addr

/-- The stores with which `realloc` cuts the block at `curr` to `count` bytes and makes a free
block of `left` bytes at `next`. -/
def reallocCut (bytes : Bytes) (curr next count left : Nat) : Bytes :=
  let bytes := hbSetNext bytes next (hbNext bytes curr)
  let bytes := hbSetBytes bytes next left
  let bytes := hbSetNext bytes curr next
  hbSetBytes bytes curr (count ||| INUSE)

/-- The part of `realloc` that makes a block smaller. -/
def reallocShrink (bytes : Bytes) (p curr cursz count : Nat) : Bytes :=
  if sub16 cursz count ≥ 2 * hbhdrSize then
    reallocCut bytes curr ((p + count) % 0x10000) count (sub16 (sub16 cursz hbhdrSize) count)
  else bytes

/-- The test whether a block can be extended into the one behind it. -/
def reallocGrows (bytes : Bytes) (curr cursz count : Nat) : Bool :=
  let next := hbNext bytes curr
  next > curr ∧ hbBytes bytes next &&& INUSE = 0 ∧
    (cursz + hbhdrSize + hbBytes bytes next) % 0x10000 ≥ count

/-- The part of `realloc` that extends a block into the free block behind it. -/
def reallocGrow (bytes : Bytes) (p curr cursz count : Nat) : Bytes :=
  let next := hbNext bytes curr
  let left := sub16 ((cursz + hbhdrSize + hbBytes bytes next) % 0x10000) count
  if left > 2 * hbhdrSize then
    reallocCut bytes curr ((p + count) % 0x10000) count (sub16 left hbhdrSize)
  else
    let bytes := hbSetNext bytes curr (hbNext bytes next)
    hbSetBytes bytes curr ((cursz + hbhdrSize + hbBytes bytes next) % 0x10000 ||| INUSE)

/-- The slow path of `realloc`: a new block, to which the contents are copied. -/
def reallocMove (heap : UserHeap) (curr count : Nat) : Outcome (UserHeap × Nat) :=
  (malloc heap count).bind fun (heap, p) =>
    if p ≠ 0 then
      let old := (curr + hbhdrSize) % 0x10000
      let bytes := memcpy heap.bytes p old (hbBytes heap.bytes curr &&& 0xfffe)
      (free { heap with bytes := bytes } old).bind fun heap => .ok (heap, p)
    else .ok (heap, p)

/-- `realloc`; the result 0 is the NULL pointer. -/
def realloc (heap : UserHeap) (p count : Nat) : Outcome (UserHeap × Nat) :=
  if count = 0 then (free heap p).bind fun heap => .ok (heap, 0)
  else if p = 0 then malloc heap count
  else
    let count := roundToWord count
    -- `cursz` is still 0 in this test
    if count = 0 then .ok (heap, p)
    else
      let curr := sub16 p hbhdrSize
      let cursz := hbBytes heap.bytes curr &&& 0xfffe
      if count < cursz then
        .ok ({ heap with bytes := reallocShrink heap.bytes p curr cursz count }, p)
      else if reallocGrows heap.bytes curr cursz count then
        .ok ({ heap with bytes := reallocGrow heap.bytes p curr cursz count }, p)
      else reallocMove heap curr count

/-! ## Cutting a block -/

section Cut

variable {bytes : Bytes} {curr next count left addr : Nat}

theorem reallocCut_frame (apart : addr < curr ∨ curr + 4 ≤ addr)
    (apartNew : addr < next ∨ next + 4 ≤ addr) :
    reallocCut bytes curr next count left addr = bytes addr := by
  unfold reallocCut
  rw [hbSetBytes_frame apart, hbSetNext_frame apart, hbSetBytes_frame apartNew,
    hbSetNext_frame apartNew]

theorem reallocCut_self (bytes : Bytes) (curr count left : Nat) (small : next < 0x10000) :
    (packedHeaders (reallocCut bytes curr next count left)).next curr = next ∧
      (packedHeaders (reallocCut bytes curr next count left)).size curr = count &&& 0xfffe ∧
      (packedHeaders (reallocCut bytes curr next count left)).used curr = true := by
  have noWrap : next % 0x10000 = next := Nat.mod_eq_of_lt small
  simp [packedHeaders, reallocCut, hbSetNext, hbSetBytes, noWrap, INUSE]

theorem reallocCut_new (bytes : Bytes) (count left : Nat) (apart : curr + 4 ≤ next) :
    (packedHeaders (reallocCut bytes curr next count left)).next next = hbNext bytes curr ∧
      (packedHeaders (reallocCut bytes curr next count left)).size next = left &&& 0xfffe ∧
      (packedHeaders (reallocCut bytes curr next count left)).used next = lowBit left := by
  have frame : ∀ addr, next ≤ addr → ∀ (bytes : Bytes) (word : Nat),
      peek (poke bytes curr word) addr = peek bytes addr ∧
        peek (poke bytes (curr + 2) word) addr = peek bytes addr :=
    fun addr above bytes word => ⟨peek_poke_apart (by omega), peek_poke_apart (by omega)⟩
  have link : peek bytes curr % 0x10000 = peek bytes curr := Nat.mod_eq_of_lt peek_lt
  simp [packedHeaders, reallocCut, hbSetNext, hbSetBytes, hbNext,
    frame next (Nat.le_refl _), frame (next + 2) (by omega), link]

theorem reallocCut_apart {other : Nat} (apart : other + 4 ≤ curr ∨ curr + 4 ≤ other)
    (apartNew : other + 4 ≤ next ∨ next + 4 ≤ other) :
    (packedHeaders (reallocCut bytes curr next count left)).AgreeAt (packedHeaders bytes) other :=
  (packedHeaders_poke_apart (by omega)).trans <|
    (packedHeaders_poke_apart (by omega)).trans <|
      (packedHeaders_poke_apart (by omega)).trans <| packedHeaders_poke_apart (by omega)

end Cut

/-! ## What a call leaves -/

/-- What `realloc` is to leave of `heap` when it returns `q` for the pointer into `block`. -/
structure Resized (heap heap' : UserHeap) (total : Nat) (blocks : List Block) (block : Block)
    (remaining : List (Nat × Nat)) (count q : Nat) : Prop where
  notNull : q ≠ 0
  place : heap'.heap = heap.heap
  holds : ∃ blocks', heap'.Holds total blocks' ((q, count) :: remaining) ∧
    ∀ other ∈ blocks, other.used = true → other ≠ block → other ∈ blocks'
  contents : ∀ index < min block.size count,
    heap'.bytes (q + index) = heap.bytes (block.addr + hbhdrSize + index)
  others : ∀ other ∈ blocks, other.used = true → other ≠ block → ∀ index < other.size,
    heap'.bytes (other.addr + hbhdrSize + index) = heap.bytes (other.addr + hbhdrSize + index)

/-- `realloc(p, count)` returns NULL and changes nothing, or it returns a block with the
contents. -/
def ReallocKeeps (heap : UserHeap) (total : Nat) (blocks : List Block) (block : Block)
    (remaining : List (Nat × Nat)) (count : Nat) : Prop :=
  ∃ heap' q, realloc heap (block.addr + hbhdrSize) count = .ok (heap', q) ∧
    (q = 0 ∧ heap' = heap ∨ Resized heap heap' total blocks block remaining count q)

section Spec

variable {heap : UserHeap} {total count : Nat} {front rest blocks : List Block}
variable {block : Block} {live remaining : List (Nat × Nat)} {entry : Nat × Nat}

/-- A block is resized where it is. -/
theorem resized_in_place (holds : heap.Holds total (front ++ block :: rest) live)
    (used : block.used = true) (returned : live.Perm (entry :: remaining))
    (address : block.addr + 4 = entry.1) {bytes : Bytes} (size : Nat) (after : List Block)
    (linked : Linked (packedHeaders bytes) heap.heap (front ++ ⟨block.addr, size, true⟩ :: after)
      heap.heap)
    (tiles : Tiles 4 (block.addr + 4 + size) after (heap.heap + 4 + total))
    (unitSize : 2 ∣ size) (unitAfter : Aligned 2 after)
    (same : payloads 4 after = payloads 4 rest)
    (kept : ∀ other ∈ rest, other.used = true → other ∈ after) (room : count ≤ size)
    (contents : ∀ index < min block.size count,
      bytes (block.addr + 4 + index) = heap.bytes (block.addr + 4 + index))
    (frame : ∀ addr, addr < block.addr ∨ block.addr + 4 + block.size ≤ addr →
      bytes addr = heap.bytes addr) :
    Resized heap { heap with bytes := bytes } total (front ++ block :: rest) block remaining count
      (block.addr + 4) where
  notNull := by omega
  place := rfl
  holds := by
    refine ⟨_, ⟨⟨linked, ?_, ?_, holds.positive, holds.bounded⟩, ?_, ?_⟩, ?_⟩
    · exact tiles_around.mpr ⟨(tiles_around.mp holds.tiles).1, tiles⟩
    · have even := holds.aligned block List.mem_append_cons_self
      intro other member
      simp only [List.mem_append, List.mem_cons] at member
      rcases member with inFront | rfl | inAfter
      · exact holds.aligned other (List.mem_append_left _ inFront)
      · exact ⟨even.1, unitSize⟩
      · exact unitAfter other inAfter
    · rw [address]
      exact holds.owned.resize holds.tiles (by decide) used returned address same kept
        (by omega)
    · intro other member
      have inSegment := holds.addressed entry (returned.symm.subset List.mem_cons_self)
      rcases List.mem_cons.mp member with rfl | inRemaining
      · exact address ▸ inSegment
      · exact holds.addressed other (returned.symm.subset (List.mem_cons_of_mem _ inRemaining))
    · intro other member otherUsed ne
      simp only [List.mem_append, List.mem_cons] at member ⊢
      rcases member with inFront | isBlock | inRest
      · exact .inl inFront
      · exact absurd isBlock ne
      · exact .inr (.inr (kept other inRest otherUsed))
  contents := contents
  others := by
    intro other member otherUsed ne index inside
    refine frame _ ?_
    simp only [hbhdrSize]
    rcases holds.tiles.apart member List.mem_append_cons_self ne with before | after <;> omega

/-- Making a block smaller. -/
theorem shrink_resized (holds : heap.Holds total (front ++ block :: rest) live)
    (used : block.used = true) (returned : live.Perm (entry :: remaining))
    (address : block.addr + 4 = entry.1) {size : Nat} (unitSize : 2 ∣ size) (room : count ≤ size)
    (smaller : size < block.size) :
    Resized heap
      { heap with
        bytes := reallocShrink heap.bytes (block.addr + 4) block.addr block.size size } total
      (front ++ block :: rest) block remaining count (block.addr + 4) := by
  have bounds := holds.addr_bounds List.mem_append_cons_self
  have even := holds.aligned block List.mem_append_cons_self
  obtain ⟨before, behind⟩ := tiles_around.mp holds.tiles
  have gap : sub16 block.size size = block.size - size := sub16_of_le (by omega) (by omega)
  have whole : ⟨block.addr, block.size, true⟩ = block := by rw [← used]
  have unitRest : Aligned 2 rest := fun other member =>
    holds.aligned other (by simp [member])
  rw [reallocShrink, gap]
  by_cases worth : block.size - size ≥ 2 * hbhdrSize
  · rw [if_pos worth]
    simp only [hbhdrSize] at worth
    have new : (block.addr + 4 + size) % 0x10000 = block.addr + 4 + size := by omega
    have left : sub16 (sub16 block.size hbhdrSize) size = block.size - 4 - size := by
      have first : sub16 block.size hbhdrSize = block.size - 4 :=
        sub16_of_le (by omega) (by simp only [hbhdrSize]; omega)
      rw [first, sub16_of_le (by omega) (by omega)]
    have leftEven : block.size - 4 - size &&& 0xfffe = block.size - 4 - size :=
      clear_of_even (by omega) (by omega)
    have leftFree : lowBit (block.size - 4 - size) = false := by
      rw [← leftEven, lowBit_clear]
    have sizeEven : size &&& 0xfffe = size := clear_of_even (by omega) unitSize
    rw [new, left]
    obtain ⟨selfNext, selfSize, selfUsed⟩ := reallocCut_self heap.bytes block.addr size
      (block.size - 4 - size) (show block.addr + 4 + size < 0x10000 by omega)
    obtain ⟨newNext, newSize, newUsed⟩ := reallocCut_new heap.bytes size
      (block.size - 4 - size) (show block.addr + 4 ≤ block.addr + 4 + size by omega)
    refine resized_in_place holds used returned address size
      (⟨block.addr + 4 + size, block.size - 4 - size, false⟩ :: rest) ?_ ?_ unitSize ?_ ?_ ?_
      room ?_ ?_
    · refine holds.linked.split size true selfNext (selfSize.trans sizeEven) selfUsed newNext
        (newSize.trans leftEven) (newUsed.trans leftFree) fun other member => ?_
      have apart := holds.tiles.apart_around member
      exact reallocCut_apart (by omega) (by omega)
    · refine ⟨rfl, ?_⟩
      have stop : block.addr + 4 + size + 4 + (block.size - 4 - size) =
          block.addr + 4 + block.size := by omega
      exact stop.symm ▸ behind
    · intro other member
      rcases List.mem_cons.mp member with rfl | inRest
      · exact ⟨by dsimp only; omega, by dsimp only; omega⟩
      · exact unitRest other inRest
    · exact payloads_cons_free rfl
    · exact fun other member _ => List.mem_cons_of_mem _ member
    · intro index inside
      exact reallocCut_frame (by omega) (by omega)
    · intro addr outside
      exact reallocCut_frame (by omega) (by omega)
  · rw [if_neg worth]
    exact resized_in_place holds used returned address block.size rest
      (whole.symm ▸ holds.linked) behind even.2 unitRest rfl (fun other member _ => member)
      (by omega) (fun _ _ => rfl) fun _ _ => rfl

/-- A block can be extended if the one behind it is free and the two are large enough. -/
theorem reallocGrows_iff (holds : heap.Holds total (front ++ block :: rest) live) (size : Nat) :
    reallocGrows heap.bytes block.addr block.size size = true ↔
      ∃ next after, rest = next :: after ∧ next.used = false ∧
        size ≤ block.size + 4 + next.size := by
  have link := holds.next_eq
  rw [reallocGrows, decide_eq_true_iff]
  cases rest with
  | nil =>
      have ends : hbNext heap.bytes block.addr = heap.heap := link
      have low := (holds.addr_bounds List.mem_append_cons_self).1
      rw [ends]
      exact iff_of_false (fun grows => by omega) (by simp)
  | cons next after =>
      have leads : hbNext heap.bytes block.addr = next.addr := link
      have begins : next.addr = block.addr + 4 + block.size := (tiles_around.mp holds.tiles).2.1
      have bounds := holds.addr_bounds (show next ∈ _ by simp)
      have nextFields := holds.fields (show next ∈ _ by simp)
      rw [leads, INUSE, and_one_eq_zero, nextFields.2, hbhdrSize]
      constructor
      · rintro ⟨-, free, enough⟩
        rw [holds.hbBytes_free (show next ∈ _ by simp) free] at enough
        exact ⟨next, after, rfl, free, by omega⟩
      · rintro ⟨_, _, same, free, enough⟩
        obtain ⟨rfl, rfl⟩ := List.cons.inj same
        rw [holds.hbBytes_free (show next ∈ _ by simp) free]
        exact ⟨by omega, free, by omega⟩

/-- Taking in the free block behind. -/
theorem grow_resized {next : Block}
    (holds : heap.Holds total (front ++ block :: next :: rest) live)
    (used : block.used = true) (free : next.used = false)
    (returned : live.Perm (entry :: remaining)) (address : block.addr + 4 = entry.1) {size : Nat}
    (room : count ≤ size) (enough : size ≤ block.size + 4 + next.size)
    (little : block.size + 4 + next.size ≤ size + 8) :
    Resized heap
      { heap with
        bytes := reallocGrow heap.bytes (block.addr + 4) block.addr block.size size } total
      (front ++ block :: next :: rest) block remaining count (block.addr + 4) := by
  have leads : hbNext heap.bytes block.addr = next.addr := holds.next_eq
  have begins : next.addr = block.addr + 4 + block.size := (tiles_around.mp holds.tiles).2.1
  have bounds := holds.addr_bounds (show next ∈ _ by simp)
  have even := holds.aligned block List.mem_append_cons_self
  have nextEven := holds.aligned next (by simp)
  have nextBytes := holds.hbBytes_free (show next ∈ _ by simp) free
  have kept : hbBytes (hbSetNext heap.bytes block.addr (hbNext heap.bytes next.addr)) next.addr =
      next.size := by
    rw [← nextBytes]
    exact peek_poke_apart (by omega)
  have both : (block.size + hbhdrSize + next.size) % 0x10000 = block.size + 4 + next.size := by
    simp only [hbhdrSize]
    omega
  have gap : sub16 (block.size + 4 + next.size) size = block.size + 4 + next.size - size :=
    sub16_of_le (by omega) enough
  have bothEven : block.size + 4 + next.size &&& 0xfffe = block.size + 4 + next.size :=
    clear_of_even (by omega) (by omega)
  have notWorth : ¬block.size + 4 + next.size - size > 2 * hbhdrSize := by
    simp only [hbhdrSize]
    omega
  simp only [reallocGrow, leads, nextBytes, both, gap, if_neg notWorth, kept]
  obtain ⟨selfNext, selfSize, selfUsed⟩ := freeMerge_headers heap.bytes block.addr
    (hbNext heap.bytes next.addr) (block.size + 4 + next.size ||| INUSE)
  refine resized_in_place holds used returned address (block.size + 4 + next.size) rest
    ?_ ?_ ?_ ?_ ?_ ?_ ?_ ?_ ?_
  · refine holds.linked.merge (block.size + 4 + next.size) true (selfNext.trans ?_)
      (selfSize.trans ?_) (selfUsed.trans ?_) fun other member => ?_
    · exact Nat.mod_eq_of_lt peek_lt
    · rw [INUSE, or_one_clear, bothEven]
    · rw [INUSE, lowBit_or_one]
    · have apart := holds.tiles.apart_around (show other ∈ front ++ next :: rest by
        simp only [List.mem_append, List.mem_cons] at member ⊢
        tauto)
      exact freeMerge_apart (by omega)
  · have behind := (tiles_around.mp holds.tiles).2.2
    have stop : block.addr + 4 + (block.size + 4 + next.size) = next.addr + 4 + next.size := by
      omega
    exact stop.symm ▸ behind
  · omega
  · exact fun other member => holds.aligned other (by simp [member])
  · exact (payloads_cons_free free).symm
  · intro other member otherUsed
    rcases List.mem_cons.mp member with rfl | inRest
    · exact absurd otherUsed (by simp [free])
    · exact inRest
  · omega
  · exact fun index _ => (hbSetBytes_frame (by omega)).trans (hbSetNext_frame (by omega))
  · exact fun addr _ => (hbSetBytes_frame (by omega)).trans (hbSetNext_frame (by omega))

/-- Where a block is extended and something is left, the header behind it leads back. -/
theorem grow_breaks {next : Block} {size : Nat}
    (holds : heap.Holds total (front ++ block :: next :: rest) live) (free : next.used = false)
    (larger : block.size ≤ size) (more : size + 8 < block.size + 4 + next.size)
    {blocks' : List Block}
    (after : UserHeap.Holds
      { heap with
        bytes := reallocGrow heap.bytes (block.addr + 4) block.addr block.size size } total blocks'
      ((block.addr + 4, count) :: remaining)) : False := by
  have leads : hbNext heap.bytes block.addr = next.addr := holds.next_eq
  have begins : next.addr = block.addr + 4 + block.size := (tiles_around.mp holds.tiles).2.1
  have bounds := holds.addr_bounds (show next ∈ _ by simp)
  have blockBounds := holds.addr_bounds (show block ∈ _ by simp)
  have nextBytes := holds.hbBytes_free (show next ∈ _ by simp) free
  have both : (block.size + hbhdrSize + next.size) % 0x10000 = block.size + 4 + next.size := by
    simp only [hbhdrSize]
    omega
  have gap : sub16 (block.size + 4 + next.size) size = block.size + 4 + next.size - size :=
    sub16_of_le (by omega) (by omega)
  have worth : block.size + 4 + next.size - size > 2 * hbhdrSize := by
    simp only [hbhdrSize]
    omega
  have new : (block.addr + 4 + size) % 0x10000 = block.addr + 4 + size := by omega
  simp only [reallocGrow, leads, nextBytes, both, gap, if_pos worth, new] at after
  obtain ⟨selfNext, -⟩ := reallocCut_self heap.bytes block.addr size
    (sub16 (block.size + 4 + next.size - size) hbhdrSize)
    (show block.addr + 4 + size < 0x10000 by omega)
  obtain ⟨newNext, -⟩ := reallocCut_new heap.bytes size
    (sub16 (block.size + 4 + next.size - size) hbhdrSize)
    (show block.addr + 4 ≤ block.addr + 4 + size by omega)
  obtain ⟨front', owner, rest', rfl, -, address, -⟩ :=
    after.owned.exists_around List.mem_cons_self
  obtain ⟨addr, size', used'⟩ := owner
  obtain rfl : addr = block.addr := Nat.add_right_cancel address
  have link := after.next_eq
  have first : hbNext (reallocCut heap.bytes block.addr (block.addr + 4 + size) size
      (sub16 (block.size + 4 + next.size - size) hbhdrSize)) block.addr =
      block.addr + 4 + size := selfNext
  cases rest' with
  | nil =>
      have ends : block.addr + 4 + size = heap.heap := first.symm.trans link
      omega
  | cons cut rest' =>
      have isCut : cut.addr = block.addr + 4 + size := (first.symm.trans link).symm
      have around := after.toRepresents
      rw [List.append_cons] at around
      have back : next.addr = (rest'.head?.map Block.addr).getD heap.heap := by
        rw [← around.next_eq, isCut]
        exact (newNext.trans leads).symm
      cases rest' with
      | nil =>
          have ends : next.addr = heap.heap := back
          omega
      | cons last rest' =>
          have isLast : next.addr = last.addr := back
          have behind := (tiles_around.mp around.tiles).2.1
          omega

/-- Stores into the payload of a block touch no header. -/
theorem UserHeap.Holds.payload (holds : heap.Holds total blocks live) (member : block ∈ blocks)
    (bytes : Bytes)
    (frame : ∀ addr, addr < block.addr + 4 ∨ block.addr + 4 + block.size ≤ addr →
      bytes addr = heap.bytes addr) :
    UserHeap.Holds { heap with bytes := bytes } total blocks live := by
  refine ⟨⟨?_, holds.tiles, holds.aligned, holds.positive, holds.bounded⟩, holds.owned,
    holds.addressed⟩
  refine holds.linked.congr fun other inBlocks => ?_
  have kept : ∀ index < 4, bytes (other.addr + index) = heap.bytes (other.addr + index) := by
    intro index inside
    refine frame _ ?_
    by_cases same : block = other
    · exact .inl (by rw [same]; omega)
    · rcases holds.tiles.apart member inBlocks same with before | after <;> omega
  have next : peek bytes other.addr = peek heap.bytes other.addr := by
    rw [peek, peek, kept 1 (by decide), show bytes other.addr = _ from kept 0 (by decide)]
    rfl
  have size : peek bytes (other.addr + 2) = peek heap.bytes (other.addr + 2) := by
    rw [peek, peek, kept 2 (by decide), show bytes (other.addr + 2 + 1) = _ from kept 3 (by decide)]
  simp only [Headers.AgreeAt, packedHeaders, next, size, and_self]

theorem memcpy_copied (bytes : Bytes) (dst src : Nat) {size index : Nat} (inside : index < size) :
    memcpy bytes dst src size (dst + index) = bytes (src + index) := by
  rw [memcpy, if_pos ⟨by omega, by omega⟩, Nat.add_sub_cancel_left]

theorem memcpy_frame {bytes : Bytes} {dst src size addr : Nat}
    (outside : addr < dst ∨ dst + size ≤ addr) : memcpy bytes dst src size addr = bytes addr :=
  if_neg (by omega)

theorem roundToWord_even {size : Nat} (small : size < 0x10000) (even : 2 ∣ size) :
    roundToWord size = size := by
  rw [roundToWord, and_fffe_eq (Nat.mod_lt _ (by decide))]
  omega

/-- A block that is in use is none of those that `malloc` carves up. -/
theorem mem_carve_of_used {other : Block} {split : Bool} {size : Nat}
    (member : other ∈ front ++ block :: rest) (free : block.used = false)
    (used : other.used = true) : other ∈ front ++ carve 4 size split block ++ rest := by
  simp only [List.mem_append, List.mem_cons] at member ⊢
  rcases member with inFront | rfl | inRest
  · exact .inl (.inl inFront)
  · exact absurd used (by simp [free])
  · exact .inr inRest

/-- Moving a block. -/
theorem move_resized (holds : heap.Holds total blocks live) (member : block ∈ blocks)
    (used : block.used = true) (returned : live.Perm (entry :: remaining))
    (address : block.addr + 4 = entry.1) {size : Nat} (unitSize : 2 ∣ size)
    (small : size < 0x10000) (room : count ≤ size) (larger : block.size ≤ size)
    (fits : SplitFits heap size) :
    ∃ heap' q, reallocMove heap block.addr size = .ok (heap', q) ∧
      (q = 0 ∧ heap' = heap ∨ Resized heap heap' total blocks block remaining count q) := by
  have inSegment := holds.addressed entry (returned.symm.subset List.mem_cons_self)
  rcases malloc_holds holds small fits with
    ⟨heap₁, split, front, new, rest, rfl, free, enough, result, after, place, frame⟩ | missed
  · rw [roundToWord_even small unitSize] at after enough
    obtain ⟨blocks₁, isList⟩ : ∃ blocks₁, blocks₁ = front ++ carve 4 size split new ++ rest :=
      ⟨_, rfl⟩
    have kept : ∀ other ∈ front ++ new :: rest, other.used = true → other ∈ blocks₁ :=
      fun other inBlocks otherUsed => isList ▸ mem_carve_of_used inBlocks free otherUsed
    rw [← isList] at after
    have inAfter := kept block member used
    obtain ⟨taken, takenIn, -, takenAddr, takenRoom⟩ := after.owned.roomy _ List.mem_cons_self
    dsimp only at takenAddr takenRoom
    have cursz := (after.fields inAfter).1
    have old : (block.addr + hbhdrSize) % 0x10000 = block.addr + 4 :=
      Nat.mod_eq_of_lt (by simp only [hbhdrSize]; omega)
    have copied := after.payload takenIn (memcpy heap₁.bytes (new.addr + 4) (block.addr + 4)
      block.size) fun addr outside => memcpy_frame (by omega)
    have perm : ((new.addr + 4, size) :: live).Perm (entry :: (new.addr + 4, size) :: remaining) :=
      (returned.cons _).trans (List.Perm.swap _ _ _)
    obtain ⟨heap₃, before, freed, behind, split₁, freedUsed, freedAddr, freeing, final, place₃,
      frame₃⟩ := free_holds copied perm
    have isFreed : freed = block := after.tiles.eq_of_addr_eq (by decide)
      (split₁ ▸ List.mem_append_cons_self) inAfter (by omega)
    have apart : ∀ other ∈ front ++ new :: rest, other.used = true →
        other.addr + 4 + other.size ≤ new.addr ∨ new.addr + 4 + new.size ≤ other.addr :=
      fun other inBlocks otherUsed =>
        holds.tiles.apart inBlocks List.mem_append_cons_self fun same => by
          rw [same, free] at otherUsed
          cases otherUsed
    have notNull : new.addr + 4 ≠ 0 := by omega
    refine ⟨heap₃, new.addr + 4, ?_, .inr ⟨notNull, place₃.trans place,
      ⟨release 4 before freed behind, ?_, ?_⟩, ?_, ?_⟩⟩
    · rw [reallocMove, result, Outcome.bind_ok]
      rw [← address] at freeing
      simp only [old, cursz, if_pos notNull, freeing, Outcome.bind_ok]
    · exact ⟨final.toRepresents, final.owned.lower room, fun other inRemaining => by
        rcases List.mem_cons.mp inRemaining with rfl | later
        · exact final.addressed (new.addr + 4, size) List.mem_cons_self
        · exact final.addressed other (List.mem_cons_of_mem _ later)⟩
    · intro other inBlocks otherUsed ne
      refine mem_release_of_used otherUsed ?_
      have inBoth := kept other inBlocks otherUsed
      rw [split₁, List.mem_append, List.mem_cons] at inBoth
      rcases inBoth with inBefore | isBlock | inBehind
      · exact .inl inBefore
      · exact absurd (isBlock.trans isFreed) ne
      · exact .inr inBehind
    · intro index inside
      have blockApart := apart block member used
      have headers := frame₃ (new.addr + 4 + index) fun other inBlocks =>
        after.tiles.payload_apart takenIn inBlocks (by omega) (by omega)
      refine headers.trans ((memcpy_copied _ _ _ (by omega)).trans ?_)
      exact frame _ (by omega)
    · intro other inBlocks otherUsed ne index inside
      simp only [hbhdrSize]
      have otherApart := apart other inBlocks otherUsed
      have inBoth := kept other inBlocks otherUsed
      have headers := frame₃ (other.addr + 4 + index) fun another isBlock =>
        after.tiles.payload_apart inBoth isBlock (by omega) (by omega)
      have notTaken : other ≠ taken := by
        rintro rfl
        omega
      have outside := after.tiles.apart inBoth takenIn notTaken
      refine headers.trans ((memcpy_frame (by omega)).trans ?_)
      exact frame _ (by omega)
  · refine ⟨heap, 0, ?_, .inl ⟨rfl, rfl⟩⟩
    rw [reallocMove, missed, Outcome.bind_ok]
    exact if_neg (by simp)

/-- Whether `realloc` extends the block at `p` and makes a free block of what is left. -/
def GrowSplits (heap : UserHeap) (p count : Nat) : Prop :=
  let curr := sub16 p hbhdrSize
  let cursz := hbBytes heap.bytes curr &&& 0xfffe
  cursz ≤ roundToWord count ∧ reallocGrows heap.bytes curr cursz (roundToWord count) = true ∧
    roundToWord count + 2 * hbhdrSize <
      cursz + hbhdrSize + hbBytes heap.bytes (hbNext heap.bytes curr)

/-- Where `realloc` moves the block at `p`, `malloc` splits no block that has no room for
another header. -/
def MoveFits (heap : UserHeap) (p count : Nat) : Prop :=
  let curr := sub16 p hbhdrSize
  let cursz := hbBytes heap.bytes curr &&& 0xfffe
  cursz ≤ roundToWord count → reallocGrows heap.bytes curr cursz (roundToWord count) = false →
    ∀ blk, mallocSearch heap (roundToWord count) = some (some blk) →
      2 * hbhdrSize ≤ hbBytes heap.bytes blk →
        roundToWord count + hbhdrSize ≤ hbBytes heap.bytes blk

/-- What `realloc` does with a pointer into a block. -/
structure Calls (heap : UserHeap) (block : Block) (p count size : Nat) : Prop where
  isSize : roundToWord count = size
  room : count ≤ size
  unit : 2 ∣ size
  bounded : size < 0x10000
  curr : sub16 p hbhdrSize = block.addr
  cursz : hbBytes heap.bytes block.addr &&& 0xfffe = block.size
  call : realloc heap (block.addr + hbhdrSize) count =
    if size < block.size then
      .ok ({ heap with
        bytes := reallocShrink heap.bytes (block.addr + 4) block.addr block.size size },
        block.addr + 4)
    else if reallocGrows heap.bytes block.addr block.size size then
      .ok ({ heap with
        bytes := reallocGrow heap.bytes (block.addr + 4) block.addr block.size size },
        block.addr + 4)
    else reallocMove heap block.addr size

theorem realloc_calls (holds : heap.Holds total blocks live) (member : block ∈ blocks)
    (returned : live.Perm (entry :: remaining)) (address : block.addr + hbhdrSize = entry.1)
    (positive : 0 < count) (small : count ≤ 65534) :
    Calls heap block entry.1 count (roundToWord count) := by
  have inSegment := holds.addressed entry (returned.symm.subset List.mem_cons_self)
  have curr : sub16 entry.1 hbhdrSize = block.addr := by
    rw [← address, sub16_of_le (by omega) (by omega), Nat.add_sub_cancel]
  have cursz := (holds.fields member).1
  obtain ⟨room, unit, bounded⟩ := roundToWord_spec (show count < 0x10000 by omega) (by omega)
  refine ⟨rfl, room, unit, bounded, curr, cursz, ?_⟩
  rw [realloc, if_neg (by omega), if_neg (by simp only [hbhdrSize]; omega)]
  simp only [if_neg (show ¬roundToWord count = 0 by omega), address, curr, cursz]
  rw [← address]
  rfl

/-- A call that makes a free block of what is left of an extension breaks the list. -/
theorem growSplits_breaks (holds : heap.Holds total blocks live) (member : block ∈ blocks)
    (returned : live.Perm (entry :: remaining)) (address : block.addr + hbhdrSize = entry.1)
    (positive : 0 < count) (small : count ≤ 65534) (splits : GrowSplits heap entry.1 count) :
    ¬ReallocKeeps heap total blocks block remaining count := by
  have calls := realloc_calls holds member returned address positive small
  obtain ⟨larger, grows, more⟩ := splits
  rw [calls.curr, calls.cursz] at larger grows more
  obtain ⟨front, rest, rfl⟩ := List.append_of_mem member
  obtain ⟨next, after, rfl, free, enough⟩ := (reallocGrows_iff holds _).mp grows
  have leads : hbNext heap.bytes block.addr = next.addr := holds.next_eq
  rw [leads, holds.hbBytes_free (show next ∈ _ by simp) free] at more
  simp only [hbhdrSize] at more
  rintro ⟨heap', q, result, outcome⟩
  rw [calls.call, if_neg (by omega), if_pos grows] at result
  simp only [Outcome.ok.injEq, Prod.mk.injEq] at result
  obtain ⟨rfl, rfl⟩ := result
  rcases outcome with ⟨isNull, -⟩ | resized
  · omega
  · obtain ⟨blocks', after', -⟩ := resized.holds
    exact grow_breaks holds free larger (by omega) after'

/-- Every other call keeps the heap. -/
theorem keeps_of_not_growSplits (holds : heap.Holds total blocks live) (member : block ∈ blocks)
    (used : block.used = true) (returned : live.Perm (entry :: remaining))
    (address : block.addr + hbhdrSize = entry.1) (positive : 0 < count) (small : count ≤ 65534)
    (fits : MoveFits heap entry.1 count) (whole : ¬GrowSplits heap entry.1 count) :
    ReallocKeeps heap total blocks block remaining count := by
  have calls := realloc_calls holds member returned address positive small
  simp only [GrowSplits, MoveFits, calls.curr, calls.cursz] at fits whole
  obtain ⟨size, isSize⟩ : ∃ size, size = roundToWord count := ⟨_, rfl⟩
  rw [← isSize] at calls fits whole
  have atLeast := calls.room
  obtain ⟨front, rest, rfl⟩ := List.append_of_mem member
  unfold ReallocKeeps
  rw [calls.call]
  by_cases smaller : size < block.size
  · rw [if_pos smaller]
    exact ⟨_, _, rfl, .inr <|
      shrink_resized holds used returned address calls.unit calls.room smaller⟩
  rw [if_neg smaller]
  by_cases grows : reallocGrows heap.bytes block.addr block.size size = true
  · obtain ⟨next, after, rfl, free, enough⟩ := (reallocGrows_iff holds size).mp grows
    have leads : hbNext heap.bytes block.addr = next.addr := holds.next_eq
    rw [leads, holds.hbBytes_free (show next ∈ _ by simp) free] at whole
    simp only [grows, hbhdrSize, true_and, not_and] at whole
    have little := whole (by omega)
    rw [if_pos grows]
    exact ⟨_, _, rfl, .inr <|
      grow_resized holds used free returned address calls.room enough (by omega)⟩
  · rw [if_neg grows]
    refine move_resized holds member used returned address calls.unit calls.bounded calls.room
      (by omega) ?_
    intro blk found
    rw [roundToWord_even calls.bounded calls.unit] at found ⊢
    have split := fits (by omega) (by simpa using grows) blk found
    refine ⟨by have := calls.unit; omega, ?_, split⟩
    rcases mallocSearch_spec holds.toRepresents size with
      ⟨before, new, behind, same, -, enough, isNew⟩ | missed
    · obtain rfl := Option.some.inj (Option.some.inj (isNew.symm.trans found))
      have bounds := holds.addr_bounds (show new ∈ _ from same ▸ List.mem_append_cons_self)
      simp only [hbhdrSize]
      omega
    · cases missed.symm.trans found

/-- `realloc` keeps the heap and the contents of its blocks exactly where it does not make a free
block behind one that it extends; where it calls `malloc`, as far as `malloc` keeps the heap. -/
theorem realloc_keeps (holds : heap.Holds total blocks live) (member : block ∈ blocks)
    (used : block.used = true) (returned : live.Perm (entry :: remaining))
    (address : block.addr + hbhdrSize = entry.1) (positive : 0 < count) (small : count ≤ 65534)
    (fits : MoveFits heap entry.1 count) :
    ReallocKeeps heap total blocks block remaining count ↔ ¬GrowSplits heap entry.1 count :=
  ⟨fun keeps splits =>
      growSplits_breaks holds member returned address positive small splits keeps,
    keeps_of_not_growSplits holds member used returned address positive small fits⟩

end Spec

namespace UserSystem

/-- A heap that a run leaves. -/
theorem exists_holds {system : UserSystem} {actions : List UserAction}
    (guarded : Along step Guarded ⟨exampleHeap, []⟩ actions)
    (ran : runs step ⟨exampleHeap, []⟩ actions = some system) :
    ∃ blocks, system.heap.Holds 1020 blocks system.live := by
  have total : hbBytes exampleHeap.bytes 0x1000 = 1020 := by decide +kernel
  have built : heapSetup (fun _ => 0) 0x100 0x110 0x1000 0x150 = some exampleHeap := rfl
  have reached : Reached (· = ⟨exampleHeap, []⟩)
      (fun system action system' => step system action = some system') Guarded system :=
    reached_of_runs rfl guarded ran
  have kept : ∃ blocks, system.heap.WellFormed 1020 blocks system.live := by
    refine reached.invariant (fun system => ∃ blocks,
      system.heap.WellFormed 1020 blocks system.live) ?_ ?_
    · rintro system rfl
      have first := start_wellFormed built (by decide) (by decide) (by decide)
        (by rw [total]; decide)
      rw [total] at first
      exact ⟨_, first⟩
    · rintro system system' action ⟨blocks, wellFormed⟩ guarded taken
      obtain ⟨blocks', after, -⟩ := step_wellFormed wellFormed guarded taken
      exact ⟨blocks', after⟩
  obtain ⟨blocks, wellFormed⟩ := kept
  exact ⟨blocks, wellFormed.holds⟩

/-- The theorem applies to a block that has to be moved. -/
theorem realloc_keeps_moved :
    ∃ system block blocks, runs step ⟨exampleHeap, []⟩ [.malloc 100, .malloc 41] = some system ∧
      block.addr + hbhdrSize = 0x1004 ∧
      ReallocKeeps system.heap 1020 blocks block [(0x106C, 41)] 200 := by
  have facts : (runs step ⟨exampleHeap, []⟩ [.malloc 100, .malloc 41]).map (fun system =>
      (system.live, mallocSearch system.heap 200, hbBytes system.heap.bytes 0x1096,
        reallocGrows system.heap.bytes 0x1000 100 200,
        hbBytes system.heap.bytes 0x1000 &&& 0xfffe)) =
      some ([(0x106C, 41), (0x1004, 100)], some (some 0x1096), 870, false, 100) := by
    decide +kernel
  obtain ⟨system, ran, fields⟩ := Option.map_eq_some_iff.mp facts
  simp only [Prod.mk.injEq] at fields
  obtain ⟨live, search, large, grows, cursz⟩ := fields
  obtain ⟨blocks, holds⟩ := exists_holds (by decide +kernel) ran
  obtain ⟨block, member, used, address, -⟩ :=
    holds.owned.roomy (0x1004, 100) (by rw [live]; decide)
  have curr : sub16 0x1004 hbhdrSize = 0x1000 := by decide
  have rounded : roundToWord 200 = 200 := by decide
  refine ⟨system, block, blocks, ran, address, ?_⟩
  refine (realloc_keeps holds member used ?_ address (by decide) (by decide) ?_).mpr ?_
  · rw [live]
    exact List.Perm.swap _ _ _
  · intro _ _ blk found worth
    simp only [rounded] at found
    rw [search] at found
    obtain rfl := Option.some.inj (Option.some.inj found)
    rw [large]
    decide
  · intro splits
    have refused := splits.2.1
    simp only [curr, cursz, rounded, grows] at refused
    cases refused

/-- Making the last block larger links the free block behind it to the middle of the block. -/
theorem realloc_last_block_breaks :
    ∃ system block blocks, runs step ⟨exampleHeap, []⟩ [.malloc 100] = some system ∧
      system.heap.Holds 1020 blocks [(0x1004, 100)] ∧ block ∈ blocks ∧ block.used = true ∧
      block.addr + hbhdrSize = 0x1004 ∧
      ¬ReallocKeeps system.heap 1020 blocks block [] 200 := by
  have facts : (runs step ⟨exampleHeap, []⟩ [.malloc 100]).map (fun system =>
      (system.live, hbNext system.heap.bytes 0x1000, hbBytes system.heap.bytes 0x1068,
        reallocGrows system.heap.bytes 0x1000 100 200,
        hbBytes system.heap.bytes 0x1000 &&& 0xfffe)) =
      some ([(0x1004, 100)], 0x1068, 916, true, 100) := by
    decide +kernel
  obtain ⟨system, ran, fields⟩ := Option.map_eq_some_iff.mp facts
  simp only [Prod.mk.injEq] at fields
  obtain ⟨live, next, large, grows, cursz⟩ := fields
  obtain ⟨blocks, holds⟩ := exists_holds (by decide +kernel) ran
  rw [live] at holds
  obtain ⟨block, member, used, address, -⟩ := holds.owned.roomy (0x1004, 100) (by decide)
  have curr : sub16 0x1004 hbhdrSize = 0x1000 := by decide
  have rounded : roundToWord 200 = 200 := by decide
  refine ⟨system, block, blocks, ran, holds, member, used, address, ?_⟩
  refine growSplits_breaks holds member (List.Perm.refl _) address (by decide) (by decide) ?_
  refine ⟨?_, ?_, ?_⟩
  · simp only [curr, cursz, rounded]
    decide
  · simp only [curr, cursz, rounded, grows]
  · simp only [curr, cursz, rounded, next, large]
    decide

end UserSystem

end Pegasos.Clib
