import Mathlib.Data.List.Chain
import Mathlib.Data.List.Perm.Basic
import Mathlib.Tactic.Common

/-!
# Heaps as tilings by blocks

A boundary-tag heap divides an address range into blocks, each a header of fixed
width followed by its payload.  The abstract state of such a heap is the list of
its blocks.  This module defines when a block list tiles a range, the two edits
an allocator makes to it (carving an allocation out of a free block, releasing a
block and merging it with free neighbours), and the relation between blocks and
the pointers handed out to callers.

`Linked` ties a block list to the headers found in a memory by following next
links, so that an allocator working on raw memory can be compared with the edits
on block lists.
-/

namespace Pegasos.Support

/-- One block of a heap: the address of its header, the length of its payload
and whether the payload is allocated. -/
structure Block where
  addr : Nat
  size : Nat
  used : Bool
  deriving DecidableEq, Repr

/-- `blocks` cover `[start, stop)` without gap or overlap: every header is
followed by its payload and the payload by the next header. -/
def Tiles (header : Nat) : Nat → List Block → Nat → Prop
  | start, [], stop => start = stop
  | start, block :: rest, stop =>
      block.addr = start ∧ Tiles header (block.addr + header + block.size) rest stop

/-- No two adjacent blocks are both free. -/
def Coalesced (blocks : List Block) : Prop :=
  blocks.IsChain fun left right => left.used = true ∨ right.used = true

section Tiles

variable {header start stop : Nat} {front rest blocks : List Block} {block other : Block}

theorem tiles_append :
    Tiles header start (front ++ rest) stop ↔
      ∃ middle, Tiles header start front middle ∧ Tiles header middle rest stop := by
  induction front generalizing start with
  | nil => simp [Tiles]
  | cons first front ih =>
      simp only [List.cons_append, Tiles, ih]
      constructor
      · rintro ⟨begins, middle, covered, after⟩
        exact ⟨middle, ⟨begins, covered⟩, after⟩
      · rintro ⟨middle, ⟨begins, covered⟩, after⟩
        exact ⟨begins, middle, covered, after⟩

theorem Tiles.start_le_stop (tiles : Tiles header start blocks stop) : start ≤ stop := by
  induction blocks generalizing start with
  | nil => exact Nat.le_of_eq tiles
  | cons block rest ih =>
      have after := ih tiles.2
      have begins := tiles.1
      omega

/-- Every block of a tiling lies inside the tiled range. -/
theorem Tiles.bounds (tiles : Tiles header start blocks stop) (member : block ∈ blocks) :
    start ≤ block.addr ∧ block.addr + header + block.size ≤ stop := by
  induction blocks generalizing start with
  | nil => simp at member
  | cons first rest ih =>
      have begins := tiles.1
      rcases List.mem_cons.mp member with rfl | later
      · have after := tiles.2.start_le_stop
        omega
      · have inside := ih tiles.2 later
        omega

/-- Blocks of a tiling are listed in address order and do not overlap. -/
theorem Tiles.ordered (tiles : Tiles header start blocks stop) :
    blocks.Pairwise fun left right => left.addr + header + left.size ≤ right.addr := by
  induction blocks generalizing start with
  | nil => exact .nil
  | cons first rest ih =>
      refine List.Pairwise.cons ?_ (ih tiles.2)
      intro later member
      exact (tiles.2.bounds member).1

/-- With a non-empty header two blocks of a tiling are equal when their
addresses are. -/
theorem Tiles.eq_of_addr_eq (tiles : Tiles header start blocks stop) (positive : 0 < header)
    (member : block ∈ blocks) (otherMember : other ∈ blocks) (equal : block.addr = other.addr) :
    block = other := by
  induction blocks generalizing start with
  | nil => simp at member
  | cons first rest ih =>
      rcases List.mem_cons.mp member with rfl | later <;>
        rcases List.mem_cons.mp otherMember with rfl | otherLater
      · rfl
      · have := (tiles.2.bounds otherLater).1
        omega
      · have := (tiles.2.bounds later).1
        omega
      · exact ih tiles.2 later otherLater

/-- Distinct blocks of a tiling are disjoint, headers included. -/
theorem Tiles.apart (tiles : Tiles header start blocks stop) (member : block ∈ blocks)
    (otherMember : other ∈ blocks) (ne : block ≠ other) :
    block.addr + header + block.size ≤ other.addr ∨
      other.addr + header + other.size ≤ block.addr := by
  induction blocks generalizing start with
  | nil => simp at member
  | cons first rest ih =>
      rcases List.mem_cons.mp member with rfl | later <;>
        rcases List.mem_cons.mp otherMember with rfl | otherLater
      · exact absurd rfl ne
      · exact .inl (tiles.2.bounds otherLater).1
      · exact .inr (tiles.2.bounds later).1
      · exact ih tiles.2 later otherLater

/-- What is in the payload of a block is in no header. -/
theorem Tiles.payload_apart (tiles : Tiles header start blocks stop) (member : block ∈ blocks)
    (otherMember : other ∈ blocks) {addr : Nat} (low : block.addr + header ≤ addr)
    (high : addr < block.addr + header + block.size) :
    addr < other.addr ∨ other.addr + header ≤ addr := by
  by_cases same : block = other
  · exact .inr (same ▸ low)
  · rcases tiles.apart member otherMember same with before | after <;> omega

theorem Tiles.length_mul_le (tiles : Tiles header start blocks stop) :
    start + blocks.length * header ≤ stop := by
  induction blocks generalizing start with
  | nil => simpa [Tiles] using Nat.le_of_eq tiles
  | cons first rest ih =>
      have after := ih tiles.2
      have begins := tiles.1
      simp only [List.length_cons, Nat.add_mul]
      omega

/-- A tiling around one block, seen from that block. -/
theorem tiles_around :
    Tiles header start (front ++ block :: rest) stop ↔
      Tiles header start front block.addr ∧
        Tiles header (block.addr + header + block.size) rest stop := by
  rw [tiles_append]
  constructor
  · rintro ⟨middle, before, begins, after⟩
    exact ⟨begins ▸ before, after⟩
  · rintro ⟨before, after⟩
    exact ⟨block.addr, before, rfl, after⟩

/-- The other blocks of a tiling lie before or behind a given block. -/
theorem Tiles.apart_around (tiles : Tiles header start (front ++ block :: rest) stop)
    (member : other ∈ front ++ rest) :
    other.addr + header + other.size ≤ block.addr ∨
      block.addr + header + block.size ≤ other.addr := by
  obtain ⟨before, after⟩ := tiles_around.mp tiles
  rcases List.mem_append.mp member with inFront | inRest
  · exact .inl (before.bounds inFront).2
  · exact .inr (after.bounds inRest).1

/-- A coalesced tiling without allocated blocks is a single free block. -/
theorem Tiles.eq_single (tiles : Tiles header start blocks stop)
    (coalesced : Coalesced blocks) (proper : start < stop)
    (free : ∀ block ∈ blocks, block.used = false) :
    blocks = [⟨start, stop - start - header, false⟩] := by
  match blocks, tiles, coalesced, free with
  | [], tiles, _, _ =>
      simp only [Tiles] at tiles
      omega
  | [⟨addr, size, used⟩], tiles, _, free =>
      obtain ⟨begins, ends⟩ := tiles
      simp only [Tiles] at begins ends
      have unused : used = false := free ⟨addr, size, used⟩ (by simp)
      have length : size = stop - start - header := by omega
      simp only [begins, length, unused]
  | first :: second :: _, _, coalesced, free =>
      have conflict := (List.isChain_cons_cons.mp coalesced).1
      simp [free first (by simp), free second (by simp)] at conflict

end Tiles

/-! ## Carving an allocation out of a free block -/

/-- The blocks that replace a free block when `size` units of it are allocated.
Without a split the whole block is handed out. -/
def carve (header size : Nat) (split : Bool) (block : Block) : List Block :=
  if split then
    [⟨block.addr, size, true⟩,
      ⟨block.addr + header + size, block.size - size - header, false⟩]
  else
    [{ block with used := true }]

section Carve

variable {header size start stop : Nat} {split : Bool}
variable {front rest : List Block} {block : Block}

theorem Tiles.carve (tiles : Tiles header start (front ++ block :: rest) stop)
    (room : split = true → size + header ≤ block.size) :
    Tiles header start (front ++ Support.carve header size split block ++ rest) stop := by
  obtain ⟨before, after⟩ := tiles_around.mp tiles
  cases split with
  | false =>
      simp only [Support.carve, Bool.false_eq_true, if_false, List.append_assoc,
        List.singleton_append]
      exact tiles_around.mpr ⟨before, after⟩
  | true =>
      have enough := room rfl
      simp only [Support.carve, if_true, List.append_assoc, List.cons_append, List.nil_append]
      refine tiles_around.mpr ⟨before, rfl, ?_⟩
      have ends : block.addr + header + size + header + (block.size - size - header) =
          block.addr + header + block.size := by omega
      simpa only [ends] using after

theorem Coalesced.carve (coalesced : Coalesced (front ++ block :: rest))
    (free : block.used = false) :
    Coalesced (front ++ Support.carve header size split block ++ rest) := by
  have halves := List.isChain_append.mp coalesced
  have tailChain := halves.2.1
  cases split with
  | false =>
      simp only [Support.carve, Bool.false_eq_true, if_false, List.append_assoc,
        List.singleton_append]
      refine List.isChain_append.mpr ⟨halves.1, ?_, ?_⟩
      · cases rest with
        | nil => exact .singleton _
        | cons next rest =>
            exact List.isChain_cons_cons.mpr ⟨.inl rfl, (List.isChain_cons_cons.mp tailChain).2⟩
      · intro left _ right isHead
        simp only [List.head?_cons, Option.mem_some] at isHead
        exact .inr (by rw [← isHead])
  | true =>
      simp only [Support.carve, if_true, List.append_assoc, List.cons_append, List.nil_append]
      refine List.isChain_append.mpr ⟨halves.1, ?_, ?_⟩
      · refine List.isChain_cons_cons.mpr ⟨.inl rfl, ?_⟩
        cases rest with
        | nil => exact .singleton _
        | cons next rest =>
            have split := List.isChain_cons_cons.mp tailChain
            refine List.isChain_cons_cons.mpr ⟨.inr ?_, split.2⟩
            simpa [free] using split.1
      · intro left _ right isHead
        simp only [List.head?_cons, Option.mem_some] at isHead
        exact .inr (by rw [← isHead])

end Carve

/-! ## Releasing a block -/

/-- Merge a block that becomes free with a free predecessor. -/
def absorbPrevious (header : Nat) (front : List Block) (block : Block) : List Block × Block :=
  match front.getLast? with
  | some previous =>
      if previous.used then (front, { block with used := false })
      else (front.dropLast, ⟨previous.addr, previous.size + header + block.size, false⟩)
  | none => (front, { block with used := false })

/-- Merge a free block with a free successor. -/
def absorbNext (header : Nat) (block : Block) : List Block → List Block
  | [] => [block]
  | next :: rest =>
      if next.used then block :: next :: rest
      else ⟨block.addr, block.size + header + next.size, block.used⟩ :: rest

/-- The block list after `block` is freed and merged with its free neighbours. -/
def release (header : Nat) (front : List Block) (block : Block) (rest : List Block) :
    List Block :=
  (absorbPrevious header front block).1 ++
    absorbNext header (absorbPrevious header front block).2 rest

section Release

variable {header start stop : Nat} {front rest : List Block} {block previous : Block}

theorem absorbPrevious_used (used : front.getLast?.all (·.used) = true) :
    absorbPrevious header front block = (front, { block with used := false }) := by
  unfold absorbPrevious
  split
  next previous isLast => simp [isLast] at used; simp [used]
  next => rfl

theorem absorbPrevious_free (free : previous.used = false) :
    absorbPrevious header (front ++ [previous]) block =
      (front, ⟨previous.addr, previous.size + header + block.size, false⟩) := by
  simp [absorbPrevious, free]

@[simp] theorem absorbNext_nil : absorbNext header block [] = [block] := rfl

theorem absorbNext_used {next : Block} (used : next.used = true) :
    absorbNext header block (next :: rest) = block :: next :: rest := by
  simp [absorbNext, used]

theorem absorbNext_free {next : Block} (free : next.used = false) :
    absorbNext header block (next :: rest) =
      ⟨block.addr, block.size + header + next.size, block.used⟩ :: rest := by
  simp [absorbNext, free]

/-- Whether and what `absorbNext` merges does not depend on the flag of the
block that grows. -/
theorem exists_absorbNext (header : Nat) (block : Block) (rest : List Block) :
    ∃ size after, ∀ used, absorbNext header { block with used := used } rest =
      ⟨block.addr, size, used⟩ :: after := by
  cases rest with
  | nil => exact ⟨block.size, [], fun _ => rfl⟩
  | cons next rest =>
      cases used : next.used with
      | true => exact ⟨block.size, next :: rest, fun _ => absorbNext_used used⟩
      | false =>
          exact ⟨block.size + header + next.size, rest, fun _ => absorbNext_free used⟩

/-- Either the block list before a block ends in a free block, or it does not
and the block keeps its place. -/
theorem front_cases (front : List Block) :
    (∃ before previous, front = before ++ [previous] ∧ previous.used = false) ∨
      front.getLast?.all (·.used) = true := by
  rcases List.eq_nil_or_concat front with rfl | ⟨before, previous, rfl⟩
  · exact .inr rfl
  · cases used : previous.used with
    | false => exact .inl ⟨before, previous, by simp, used⟩
    | true => exact .inr (by simp [used])

theorem Tiles.absorbPrevious (tiles : Tiles header start (front ++ block :: rest) stop) :
    Tiles header start
      ((absorbPrevious header front block).1 ++ (absorbPrevious header front block).2 :: rest)
      stop := by
  obtain ⟨before, after⟩ := tiles_around.mp tiles
  rcases front_cases front with ⟨front, previous, rfl, free⟩ | used
  · rw [absorbPrevious_free free]
    obtain ⟨middle, earlier, begins, meets⟩ := tiles_append.mp before
    simp only [Tiles] at meets
    refine tiles_around.mpr ⟨begins ▸ earlier, ?_⟩
    have ends : previous.addr + header + (previous.size + header + block.size) =
        block.addr + header + block.size := by omega
    simpa only [ends] using after
  · rw [absorbPrevious_used used]
    exact tiles_around.mpr ⟨before, after⟩

theorem Tiles.absorbNext (tiles : Tiles header start (front ++ block :: rest) stop) :
    Tiles header start (front ++ Support.absorbNext header block rest) stop := by
  obtain ⟨before, after⟩ := tiles_around.mp tiles
  cases rest with
  | nil => exact tiles
  | cons next rest =>
      cases used : next.used with
      | true => rwa [absorbNext_used used]
      | false =>
          rw [absorbNext_free used]
          refine tiles_around.mpr ⟨before, ?_⟩
          have begins := after.1
          have ends : block.addr + header + (block.size + header + next.size) =
              next.addr + header + next.size := by omega
          simpa only [ends] using after.2

theorem Tiles.release (tiles : Tiles header start (front ++ block :: rest) stop) :
    Tiles header start (Support.release header front block rest) stop :=
  tiles.absorbPrevious.absorbNext

theorem Coalesced.absorbNext (before : Coalesced front) (after : Coalesced rest)
    (used : front.getLast?.all (·.used) = true) :
    Coalesced (front ++ Support.absorbNext header block rest) := by
  have seam : ∀ left ∈ front.getLast?, left.used = true := by
    intro left isLast
    rw [Option.mem_def] at isLast
    simpa [isLast] using used
  cases rest with
  | nil =>
      refine List.isChain_append.mpr ⟨before, .singleton _, ?_⟩
      exact fun left isLast right _ => .inl (seam left isLast)
  | cons next rest =>
      cases nextUsed : next.used with
      | true =>
          rw [absorbNext_used nextUsed]
          refine List.isChain_append.mpr ⟨before, ?_, ?_⟩
          · exact List.isChain_cons_cons.mpr ⟨.inr nextUsed, after⟩
          · exact fun left isLast right _ => .inl (seam left isLast)
      | false =>
          rw [absorbNext_free nextUsed]
          refine List.isChain_append.mpr ⟨before, ?_, ?_⟩
          · cases rest with
            | nil => exact .singleton _
            | cons later rest =>
                have split := List.isChain_cons_cons.mp after
                refine List.isChain_cons_cons.mpr ⟨.inr ?_, split.2⟩
                simpa [nextUsed] using split.1
          · exact fun left isLast right _ => .inl (seam left isLast)

theorem Coalesced.release (coalesced : Coalesced (front ++ block :: rest)) :
    Coalesced (Support.release header front block rest) := by
  have halves := List.isChain_append.mp coalesced
  have after : Coalesced rest := halves.2.1.tail
  unfold Support.release
  rcases front_cases front with ⟨front, previous, rfl, free⟩ | used
  · rw [absorbPrevious_free free]
    have earlier := List.isChain_append.mp halves.1
    refine Coalesced.absorbNext earlier.1 after ?_
    cases isLast : front.getLast? with
    | none => rfl
    | some left =>
        have := earlier.2.2 left isLast previous rfl
        simpa [free] using this
  · rw [absorbPrevious_used used]
    exact Coalesced.absorbNext halves.1 after used

end Release

/-! ## Alignment -/

/-- The addresses and sizes of all blocks are multiples of `unit`. -/
def Aligned (unit : Nat) (blocks : List Block) : Prop :=
  ∀ block ∈ blocks, unit ∣ block.addr ∧ unit ∣ block.size

section Aligned

variable {unit header size : Nat} {split : Bool}
variable {front rest : List Block} {block : Block}

theorem Aligned.carve (aligned : Aligned unit (front ++ block :: rest))
    (unitHeader : unit ∣ header) (unitSize : unit ∣ size) :
    Aligned unit (front ++ Support.carve header size split block ++ rest) := by
  obtain ⟨unitAddr, unitBlock⟩ := aligned block List.mem_append_cons_self
  intro other member
  simp only [List.mem_append] at member
  rcases member with (inFront | carved) | inRest
  · exact aligned other (List.mem_append_left _ inFront)
  · cases split with
    | false =>
        simp only [Support.carve, Bool.false_eq_true, if_false, List.mem_singleton] at carved
        subst carved
        exact ⟨unitAddr, unitBlock⟩
    | true =>
        simp only [Support.carve, if_true, List.mem_cons, List.not_mem_nil, or_false] at carved
        rcases carved with rfl | rfl
        · exact ⟨unitAddr, unitSize⟩
        · exact ⟨Nat.dvd_add (Nat.dvd_add unitAddr unitHeader) unitSize,
            Nat.dvd_sub (Nat.dvd_sub unitBlock unitSize) unitHeader⟩
  · exact aligned other (List.mem_append_right _ (List.mem_cons_of_mem _ inRest))

theorem Aligned.absorbPrevious (aligned : Aligned unit (front ++ block :: rest))
    (unitHeader : unit ∣ header) :
    Aligned unit ((Support.absorbPrevious header front block).1 ++
      (Support.absorbPrevious header front block).2 :: rest) := by
  obtain ⟨unitAddr, unitBlock⟩ := aligned block List.mem_append_cons_self
  rcases front_cases front with ⟨before, previous, rfl, free⟩ | used
  · rw [absorbPrevious_free free]
    obtain ⟨previousAddr, previousSize⟩ := aligned previous (by simp)
    intro other member
    rcases List.mem_append.mp member with inFront | later
    · exact aligned other (by simp [inFront])
    · rcases List.mem_cons.mp later with rfl | inRest
      · exact ⟨previousAddr, Nat.dvd_add (Nat.dvd_add previousSize unitHeader) unitBlock⟩
      · exact aligned other (by simp [inRest])
  · rw [absorbPrevious_used used]
    intro other member
    rcases List.mem_append.mp member with inFront | later
    · exact aligned other (List.mem_append_left _ inFront)
    · rcases List.mem_cons.mp later with rfl | inRest
      · exact ⟨unitAddr, unitBlock⟩
      · exact aligned other (by simp [inRest])

theorem Aligned.absorbNext (aligned : Aligned unit (front ++ block :: rest))
    (unitHeader : unit ∣ header) :
    Aligned unit (front ++ Support.absorbNext header block rest) := by
  cases rest with
  | nil => exact aligned
  | cons next rest =>
      cases used : next.used with
      | true => rwa [absorbNext_used used]
      | false =>
          rw [absorbNext_free used]
          obtain ⟨unitAddr, unitBlock⟩ := aligned block List.mem_append_cons_self
          obtain ⟨-, unitNext⟩ := aligned next (by simp)
          intro other member
          rcases List.mem_append.mp member with inFront | later
          · exact aligned other (List.mem_append_left _ inFront)
          · rcases List.mem_cons.mp later with rfl | inRest
            · exact ⟨unitAddr, Nat.dvd_add (Nat.dvd_add unitBlock unitHeader) unitNext⟩
            · exact aligned other (by simp [inRest])

end Aligned

end Pegasos.Support
