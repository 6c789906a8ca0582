import Mathlib.Data.List.Nodup
import Pegasos.Support.Tiling

/-!
# Allocated blocks and the pointers of their owners

The callers of an allocator hold pointers to payloads together with the number
of bytes they asked for.  `Owned` states that these pointers are exactly the
payloads of the allocated blocks, each once, and that every payload is large
enough.  `Integrity` bundles it with the tiling invariants; carving and
releasing preserve it.
-/

namespace Pegasos.Support

/-- The payload addresses of the allocated blocks, in address order. -/
def payloads (header : Nat) (blocks : List Block) : List Nat :=
  (blocks.filter (·.used)).map (·.addr + header)

/-- `live` lists the pointers handed out and not yet returned, each with the
requested number of bytes.  A payload unit is `unit` bytes. -/
structure Owned (header unit : Nat) (blocks : List Block) (live : List (Nat × Nat)) : Prop where
  pointers : (live.map Prod.fst).Perm (payloads header blocks)
  roomy : ∀ entry ∈ live, ∃ block ∈ blocks,
    block.used = true ∧ block.addr + header = entry.1 ∧ entry.2 ≤ unit * block.size

/-- The integrity of a heap over the range `[start, stop)`. -/
structure Integrity (header unit start stop : Nat) (blocks : List Block)
    (live : List (Nat × Nat)) : Prop where
  tiles : Tiles header start blocks stop
  coalesced : Coalesced blocks
  owned : Owned header unit blocks live

variable {header unit start stop size bytes : Nat} {split : Bool}
variable {front rest blocks : List Block} {block : Block} {live : List (Nat × Nat)}

@[simp] theorem payloads_append :
    payloads header (front ++ rest) = payloads header front ++ payloads header rest := by
  simp [payloads]

theorem payloads_cons_used (used : block.used = true) :
    payloads header (block :: rest) = (block.addr + header) :: payloads header rest := by
  simp [payloads, used]

theorem payloads_cons_free (free : block.used = false) :
    payloads header (block :: rest) = payloads header rest := by
  simp [payloads, free]

theorem payloads_carve :
    payloads header (carve header size split block) = [block.addr + header] := by
  cases split <;> rfl

theorem payloads_release :
    payloads header (release header front block rest) =
      payloads header front ++ payloads header rest := by
  have after : ∀ (merged : Block), merged.used = false →
      payloads header (absorbNext header merged rest) = payloads header rest := by
    intro merged free
    cases rest with
    | nil => exact payloads_cons_free free
    | cons next rest =>
        cases used : next.used with
        | true => rw [absorbNext_used used, payloads_cons_free free]
        | false =>
            rw [absorbNext_free used, payloads_cons_free used]
            exact payloads_cons_free free
  unfold release
  rcases front_cases front with ⟨front, previous, rfl, free⟩ | used
  · rw [absorbPrevious_free free, payloads_append, after _ rfl, payloads_append,
      payloads_cons_free free]
    simp [payloads]
  · rw [absorbPrevious_used used, payloads_append, after _ rfl]

/-- Releasing a block keeps every other allocated block. -/
theorem mem_release_of_used {other : Block} (used : other.used = true)
    (member : other ∈ front ∨ other ∈ rest) : other ∈ release header front block rest := by
  have after : ∀ (merged : Block), other ∈ rest → other ∈ absorbNext header merged rest := by
    intro merged inRest
    cases rest with
    | nil => simp at inRest
    | cons next rest =>
        cases nextUsed : next.used with
        | true =>
            rw [absorbNext_used nextUsed]
            exact List.mem_cons_of_mem _ inRest
        | false =>
            rw [absorbNext_free nextUsed]
            rcases List.mem_cons.mp inRest with rfl | later
            · simp [used] at nextUsed
            · exact List.mem_cons_of_mem _ later
  unfold release
  rw [List.mem_append]
  rcases member with inFront | inRest
  · left
    rcases front_cases front with ⟨before, previous, rfl, free⟩ | frontUsed
    · rw [absorbPrevious_free free]
      rcases List.mem_append.mp inFront with inBefore | isPrevious
      · exact inBefore
      · rw [List.mem_singleton.mp isPrevious, free] at used
        simp at used
    · rwa [absorbPrevious_used frontUsed]
  · exact .inr (after _ inRest)

/-- Allocated payloads of a tiling are pairwise distinct. -/
theorem Tiles.payloads_nodup (tiles : Tiles header start blocks stop) (positive : 0 < header) :
    (payloads header blocks).Nodup := by
  have distinct : blocks.Pairwise fun left right => left.addr + header ≠ right.addr + header :=
    tiles.ordered.imp fun apart equal => by omega
  exact List.pairwise_map.mpr (distinct.filter _)

namespace Owned

theorem nodup (owned : Owned header unit blocks live) (tiles : Tiles header start blocks stop)
    (positive : 0 < header) : (live.map Prod.fst).Nodup :=
  owned.pointers.nodup_iff.mpr (tiles.payloads_nodup positive)

/-- Every owned pointer is the payload of an allocated block of the list. -/
theorem exists_around (owned : Owned header unit blocks live) {entry : Nat × Nat}
    (member : entry ∈ live) :
    ∃ front block rest, blocks = front ++ block :: rest ∧ block.used = true ∧
      block.addr + header = entry.1 ∧ entry.2 ≤ unit * block.size := by
  obtain ⟨block, inBlocks, used, address, room⟩ := owned.roomy entry member
  obtain ⟨front, rest, rfl⟩ := List.append_of_mem inBlocks
  exact ⟨front, block, rest, rfl, used, address, room⟩

theorem carve (owned : Owned header unit (front ++ block :: rest) live)
    (free : block.used = false) (room : bytes ≤ unit * block.size)
    (splitRoom : split = true → bytes ≤ unit * size) :
    Owned header unit (front ++ Support.carve header size split block ++ rest)
      ((block.addr + header, bytes) :: live) := by
  constructor
  · have before := owned.pointers
    rw [payloads_append, payloads_cons_free free] at before
    rw [payloads_append, payloads_append, payloads_carve, List.map_cons]
    refine (List.Perm.cons _ before).trans ?_
    simpa using List.perm_middle.symm
  · intro entry member
    rcases List.mem_cons.mp member with rfl | earlier
    · cases split with
      | false => exact ⟨{ block with used := true }, by simp [Support.carve], rfl, rfl, room⟩
      | true =>
          exact ⟨⟨block.addr, size, true⟩, by simp [Support.carve], rfl, rfl, splitRoom rfl⟩
    · obtain ⟨other, inBlocks, used, address, fits⟩ := owned.roomy entry earlier
      refine ⟨other, ?_, used, address, fits⟩
      simp only [List.mem_append, List.mem_cons] at inBlocks ⊢
      rcases inBlocks with inFront | rfl | inRest
      · exact .inl (.inl inFront)
      · simp [free] at used
      · exact .inr inRest

theorem release (owned : Owned header unit (front ++ block :: rest) live)
    (tiles : Tiles header start (front ++ block :: rest) stop) (positive : 0 < header)
    (used : block.used = true) {entry : Nat × Nat} {remaining : List (Nat × Nat)}
    (returned : live.Perm (entry :: remaining)) (address : block.addr + header = entry.1) :
    Owned header unit (Support.release header front block rest) remaining := by
  have distinct := (returned.map Prod.fst).nodup_iff.mp (owned.nodup tiles positive)
  rw [List.map_cons, List.nodup_cons] at distinct
  constructor
  · have before := owned.pointers
    rw [payloads_append, payloads_cons_used used] at before
    have moved := ((returned.map Prod.fst).symm.trans before).trans List.perm_middle
    rw [List.map_cons, address] at moved
    rw [payloads_release]
    exact moved.cons_inv
  · intro other otherMember
    have ne : other.1 ≠ entry.1 := by
      intro equal
      exact distinct.1 (equal ▸ List.mem_map_of_mem otherMember)
    obtain ⟨owner, inBlocks, ownerUsed, ownerAddress, fits⟩ :=
      owned.roomy other (returned.symm.subset (List.mem_cons_of_mem _ otherMember))
    refine ⟨owner, mem_release_of_used ownerUsed ?_, ownerUsed, ownerAddress, fits⟩
    simp only [List.mem_append, List.mem_cons] at inBlocks
    rcases inBlocks with inFront | rfl | inRest
    · exact .inl inFront
    · exact absurd (ownerAddress.symm.trans address) ne
    · exact .inr inRest

/-- The block of one pointer has another size, and blocks behind it have changed that are all
free. -/
theorem resize (owned : Owned header unit (front ++ block :: rest) live)
    (tiles : Tiles header start (front ++ block :: rest) stop) (positive : 0 < header)
    (used : block.used = true) {entry : Nat × Nat} {remaining : List (Nat × Nat)}
    (returned : live.Perm (entry :: remaining)) (address : block.addr + header = entry.1)
    {after : List Block} (same : payloads header after = payloads header rest)
    (kept : ∀ other ∈ rest, other.used = true → other ∈ after) (room : bytes ≤ unit * size) :
    Owned header unit (front ++ ⟨block.addr, size, true⟩ :: after)
      ((entry.1, bytes) :: remaining) := by
  have distinct := (returned.map Prod.fst).nodup_iff.mp (owned.nodup tiles positive)
  rw [List.map_cons, List.nodup_cons] at distinct
  constructor
  · have before := owned.pointers
    rw [payloads_append, payloads_cons_used used] at before
    rw [payloads_append, payloads_cons_used rfl, same]
    exact (returned.map Prod.fst).symm.trans before
  · intro other member
    rcases List.mem_cons.mp member with rfl | otherMember
    · exact ⟨⟨block.addr, size, true⟩, by simp, rfl, address, room⟩
    · have ne : other.1 ≠ entry.1 := by
        intro equal
        exact distinct.1 (equal ▸ List.mem_map_of_mem otherMember)
      obtain ⟨owner, inBlocks, ownerUsed, ownerAddress, fits⟩ :=
        owned.roomy other (returned.symm.subset (List.mem_cons_of_mem _ otherMember))
      refine ⟨owner, ?_, ownerUsed, ownerAddress, fits⟩
      simp only [List.mem_append, List.mem_cons] at inBlocks ⊢
      rcases inBlocks with inFront | rfl | inRest
      · exact .inl inFront
      · exact absurd (ownerAddress.symm.trans address) ne
      · exact .inr (.inr (kept owner inRest ownerUsed))

/-- An owner may ask for less. -/
theorem lower {pointer count : Nat} (owned : Owned header unit blocks ((pointer, bytes) :: live))
    (less : count ≤ bytes) : Owned header unit blocks ((pointer, count) :: live) := by
  refine ⟨owned.pointers, fun entry member => ?_⟩
  rcases List.mem_cons.mp member with rfl | earlier
  · obtain ⟨owner, inBlocks, used, address, fits⟩ := owned.roomy _ List.mem_cons_self
    exact ⟨owner, inBlocks, used, address, less.trans fits⟩
  · exact owned.roomy entry (List.mem_cons_of_mem _ earlier)

end Owned

namespace Integrity

theorem carve (integrity : Integrity header unit start stop (front ++ block :: rest) live)
    (free : block.used = false) (room : bytes ≤ unit * block.size)
    (splitRoom : split = true → size + header ≤ block.size ∧ bytes ≤ unit * size) :
    Integrity header unit start stop (front ++ Support.carve header size split block ++ rest)
      ((block.addr + header, bytes) :: live) where
  tiles := integrity.tiles.carve fun isSplit => (splitRoom isSplit).1
  coalesced := integrity.coalesced.carve free
  owned := integrity.owned.carve free room fun isSplit => (splitRoom isSplit).2

theorem release (integrity : Integrity header unit start stop (front ++ block :: rest) live)
    (positive : 0 < header) (used : block.used = true) {entry : Nat × Nat}
    {remaining : List (Nat × Nat)} (returned : live.Perm (entry :: remaining))
    (address : block.addr + header = entry.1) :
    Integrity header unit start stop (Support.release header front block rest) remaining where
  tiles := integrity.tiles.release
  coalesced := integrity.coalesced.release
  owned := integrity.owned.release integrity.tiles positive used returned address

/-- Once every pointer has been returned the heap is one free block. -/
theorem eq_single (integrity : Integrity header unit start stop blocks [])
    (proper : start < stop) : blocks = [⟨start, stop - start - header, false⟩] := by
  refine integrity.tiles.eq_single integrity.coalesced proper ?_
  intro block member
  cases used : block.used with
  | false => rfl
  | true =>
      have inPayloads : block.addr + header ∈ payloads header blocks :=
        List.mem_map_of_mem (List.mem_filter.mpr ⟨member, used⟩)
      have := integrity.owned.pointers.symm.subset inPayloads
      simp at this

/-- The byte ranges of two distinct owned pointers do not meet. -/
theorem disjoint (integrity : Integrity header unit start stop blocks live)
    (positive : 0 < header) {entry other : Nat × Nat} (member : entry ∈ live)
    (otherMember : other ∈ live) (ne : entry ≠ other) :
    unit * entry.1 + entry.2 + unit * header ≤ unit * other.1 ∨
      unit * other.1 + other.2 + unit * header ≤ unit * entry.1 := by
  obtain ⟨block, inBlocks, -, address, fits⟩ := integrity.owned.roomy entry member
  obtain ⟨owner, ownerIn, -, ownerAddress, ownerFits⟩ := integrity.owned.roomy other otherMember
  have distinct : block ≠ owner := by
    rintro rfl
    exact ne (List.inj_on_of_nodup_map
      (integrity.owned.nodup integrity.tiles positive) member otherMember
      (address.symm.trans ownerAddress))
  rw [← address, ← ownerAddress]
  rcases integrity.tiles.apart inBlocks ownerIn distinct with before | after
  · have scaled := Nat.mul_le_mul_left unit before
    simp only [Nat.mul_add] at scaled ⊢
    omega
  · have scaled := Nat.mul_le_mul_left unit after
    simp only [Nat.mul_add] at scaled ⊢
    omega

end Integrity

end Pegasos.Support
