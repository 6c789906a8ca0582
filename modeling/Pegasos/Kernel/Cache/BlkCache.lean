import Pegasos.Support.Outcome
import Pegasos.Support.Ring
import Mathlib.Data.Fintype.Card
import Mathlib.Data.List.FinRange
import Mathlib.Tactic.FinCases
import Pegasos.Support.Tables

/-!
# The kernel block cache

`bc_init`, `bc_get` and `bc_put` of `blkcache.c` on the 32 blocks of the cache.
The blocks form a circular list, `blocklist` points at the one that is searched
and reused first.  The critical section makes every call one step; the statistics
are left out.
-/

namespace Pegasos.Kernel.Cache

open Pegasos.Support
open Function (update)

universe u

abbrev MAX_BLOCK : Nat := 32

def BLKSIZE : Int := 512

/-- A pointer to one of the blocks. -/
abbrev BlkPtr := Fin MAX_BLOCK

/-- The members `dev`, `unit` and `blkno` of a block. -/
structure Tag where
  dev : Int
  unit : Int
  blkno : Nat
  deriving DecidableEq, Repr

/-- `block_t`, for contents of any type. -/
structure Block (Data : Type u) where
  next : BlkPtr
  prev : BlkPtr
  inuse : Int
  dirty : Bool
  tag : Tag
  data : Data

structure BlkCache (Data : Type u) where
  blocks : BlkPtr → Block Data
  blocklist : BlkPtr

/-- How a transfer goes.  A failed read leaves something in the buffer. -/
inductive Access (Left : Type u) where
  | done
  | failed (code : Nat) (left : Left)
  deriving DecidableEq

/-- A 16-bit `int`. -/
def int16 (value : Int) : Int := value.bmod 0x10000

variable {Data : Type u}

/-- `fdd_read` of one sector: the number of bytes read or an error, and what the
buffer holds then. -/
def fddRead (sector : Data) : Access Data → Int × Data
  | .done => (BLKSIZE, sector)
  | .failed code left => (-(code + 1), left)

/-- `fdd_write` of one sector: the number of bytes written or an error, and what
the sector holds then. -/
def fddWrite (sector data : Data) : Access Unit → Int × Data
  | .done => (BLKSIZE, data)
  | .failed code _ => (-(code + 1), sector)

namespace BlkCache

variable (cache : BlkCache Data)

def modify (block : BlkPtr) (edit : Block Data → Block Data) : BlkCache Data :=
  { cache with blocks := update cache.blocks block (edit (cache.blocks block)) }

def setNext (block next : BlkPtr) : BlkCache Data :=
  cache.modify block fun b => { b with next := next }

def setPrev (block prev : BlkPtr) : BlkCache Data :=
  cache.modify block fun b => { b with prev := prev }

/-- The part of the loop of `bc_init` that links a block in behind `blocklist`. -/
def linkBehind (block : BlkPtr) : BlkCache Data :=
  let cache := cache.setPrev block cache.blocklist
  let cache := cache.setNext block (cache.blocks cache.blocklist).next
  let cache := cache.setPrev (cache.blocks cache.blocklist).next block
  cache.setNext cache.blocklist block

/-- `bc_init`, given what the memory of the buffers holds. -/
def bcInit (memory : BlkPtr → Data) : BlkCache Data :=
  -- the first block is alone on the list, the others are added behind it
  (List.finRange MAX_BLOCK).tail.foldl linkBehind
    { blocks := fun b =>
        { next := b, prev := b, inuse := 0, dirty := false, tag := ⟨-1, -1, 0⟩, data := memory b }
      blocklist := 0 }

/-- The search of `bc_get` from `b` on: the block with the tag, or else `*block`,
the first one that is not in use. -/
def bcSearch (tag : Tag) : Nat → BlkPtr → Option BlkPtr → Outcome (BlkPtr ⊕ Option BlkPtr)
  | 0, _, _ => .hang
  | fuel + 1, b, block =>
      if (cache.blocks b).tag = tag then .ok (.inl b)
      else
        let block := if block = none ∧ (cache.blocks b).inuse = 0 then some b else block
        let b := (cache.blocks b).next
        if b ≠ cache.blocklist then bcSearch tag fuel b block else .ok (.inr block)

/-- `bc_get` for an existing device, of which `sector` is the block that is asked
for: the result, `*block` and the cache. -/
def bcGet (tag : Tag) (sector : Data) (access : Access Data) :
    Outcome (Int × BlkPtr × BlkCache Data) :=
  (cache.bcSearch tag (MAX_BLOCK + 1) cache.blocklist none).bind fun
    | .inl b => .ok (0, b, cache.modify b fun block => { block with inuse := int16 (block.inuse + 1) })
    | .inr none => .panic "bc_get: all blocks are in use!"
    | .inr (some b) =>
        let cache := { cache with blocklist := (cache.blocks b).next }
        let cache := cache.modify b fun block => { block with tag := tag }
        let (rc, data) := fddRead sector access
        let cache := cache.modify b fun block => { block with data := data }
        if rc ≠ BLKSIZE then .ok (rc, b, cache)
        else
          let cache := cache.modify b fun block => { block with inuse := int16 (block.inuse + 1) }
          .ok (0, b, { cache with blocklist := (cache.blocks b).next })

/-- The loop of `bc_put` that looks for the block in the list. -/
def bcFind (block : BlkPtr) : Nat → BlkPtr → Outcome Bool
  | 0, _ => .hang
  | fuel + 1, b =>
      if b = block then .ok true
      else
        let b := (cache.blocks b).next
        if b ≠ cache.blocklist then bcFind block fuel b else .ok (b = block)

/-- `bc_put`, where `sector` is the block of the device that the block is a copy
of: the result, the cache and the block of the device. -/
def bcPut (block : BlkPtr) (sector : Data) (access : Access Unit) :
    Outcome (Int × BlkCache Data × Data) :=
  (cache.bcFind block (MAX_BLOCK + 1) cache.blocklist).bind fun found =>
    if !found ∨ (cache.blocks block).inuse = 0 then .panic "bc: invalid block in bc_put"
    else
      let cache := cache.modify block fun b => { b with inuse := int16 (b.inuse - 1) }
      let b := cache.blocks block
      if b.inuse = 0 ∧ b.dirty then
        let (rc, sector) := fddWrite sector b.data access
        if rc ≠ 0 then .ok (rc, cache, sector)
        else .ok (0, cache.modify block fun b => { b with dirty := false }, sector)
      else .ok (0, cache, sector)

@[simp] theorem modify_blocklist (block : BlkPtr) (edit : Block Data → Block Data) :
    (cache.modify block edit).blocklist = cache.blocklist := rfl

theorem modify_blocks (block b : BlkPtr) (edit : Block Data → Block Data) :
    (cache.modify block edit).blocks b =
      if b = block then edit (cache.blocks block) else cache.blocks b :=
  Function.update_apply _ _ _ _

/-! ## The circular list -/

/-- The blocks form one circular list, whose order from `blocklist` on is `order`. -/
structure Circular (cache : BlkCache Data) (order : List BlkPtr) : Prop where
  ring : LinkRing (fun b => some (cache.blocks b).next) (fun b => some (cache.blocks b).prev) order
  head : order.head? = some cache.blocklist
  nodup : order.Nodup
  complete : ∀ b, b ∈ order

variable {cache} {cache' : BlkCache Data} {order front rest : List BlkPtr} {block : BlkPtr}

/-- Editing members other than the links. -/
theorem Circular.congr (circular : cache.Circular order)
    (sameNext : ∀ b, (cache'.blocks b).next = (cache.blocks b).next)
    (samePrev : ∀ b, (cache'.blocks b).prev = (cache.blocks b).prev)
    (sameStart : cache'.blocklist = cache.blocklist) : cache'.Circular order where
  ring := circular.ring.congr (fun b _ => by rw [sameNext]) fun b _ => by rw [samePrev]
  head := sameStart ▸ circular.head
  nodup := circular.nodup
  complete := circular.complete

/-- Reading the list from the block behind some block. -/
theorem Circular.start_after (circular : cache.Circular (front ++ block :: rest)) :
    { cache with blocklist := (cache.blocks block).next }.Circular (rest ++ front ++ [block]) := by
  have ring := ring_append_comm.mp circular.ring
  have perm : (front ++ block :: rest).Perm (rest ++ front ++ [block]) := by
    rw [List.append_assoc, ← List.append_assoc]
    refine (List.perm_append_comm.trans ?_)
    rw [List.cons_append]
    exact (List.perm_append_singleton _ _).symm.trans (by rw [List.append_assoc])
  exact {
    ring := ring_rotate.mp ring
    head := ring.next_first.symm
    nodup := perm.nodup_iff.mp circular.nodup
    complete := fun b => perm.mem_iff.mp (circular.complete b) }

theorem Circular.length_le (circular : cache.Circular order) : order.length ≤ MAX_BLOCK := by
  have bound := circular.nodup.length_le_card
  rwa [Fintype.card_fin] at bound

/-! ## Initialization -/

section LinkBehind

variable (cache) (block) (b value : BlkPtr)

@[simp] theorem setNext_blocklist : (cache.setNext block value).blocklist = cache.blocklist := rfl

@[simp] theorem setPrev_blocklist : (cache.setPrev block value).blocklist = cache.blocklist := rfl

@[simp] theorem setNext_blocks : (cache.setNext block value).blocks b =
    { cache.blocks b with next := if b = block then value else (cache.blocks b).next } := by
  by_cases same : b = block
  · subst same
    simp [setNext, modify]
  · simp [setNext, modify, same]

@[simp] theorem setPrev_blocks : (cache.setPrev block value).blocks b =
    { cache.blocks b with prev := if b = block then value else (cache.blocks b).prev } := by
  by_cases same : b = block
  · subst same
    simp [setPrev, modify]
  · simp [setPrev, modify, same]

theorem linkBehind_next : ((cache.linkBehind block).blocks b).next =
    if b = cache.blocklist then block
    else if b = block then (cache.blocks cache.blocklist).next else (cache.blocks b).next := by
  simp [linkBehind]

theorem linkBehind_prev (ne : block ≠ cache.blocklist) :
    ((cache.linkBehind block).blocks b).prev =
      if b = (cache.blocks cache.blocklist).next then block
      else if b = block then cache.blocklist else (cache.blocks b).prev := by
  simp [linkBehind, ne.symm]

end LinkBehind

/-- Linking a block in behind the first one. -/
theorem linkBehind_ring {nodes : List BlkPtr} (fresh : block ∉ cache.blocklist :: nodes)
    (distinct : (cache.blocklist :: nodes).Nodup)
    (ring : LinkRing (fun b => some (cache.blocks b).next) (fun b => some (cache.blocks b).prev)
      (cache.blocklist :: nodes)) :
    LinkRing (fun b => some ((cache.linkBehind block).blocks b).next)
      (fun b => some ((cache.linkBehind block).blocks b).prev)
      (cache.blocklist :: block :: nodes) := by
  have notFirst : block ≠ cache.blocklist := fun same => fresh (same ▸ List.mem_cons_self)
  have after := ring.next_first
  rw [ring_rotate] at ring
  have rotated : (nodes ++ [cache.blocklist]).Nodup :=
    (List.perm_append_singleton _ _).nodup_iff.mpr distinct
  have inRing : ∀ b, b ∈ nodes ++ [cache.blocklist] → b ≠ block := by
    rintro b member rfl
    exact fresh ((List.perm_append_singleton _ _).mem_iff.mp member)
  have isLast : (nodes ++ [cache.blocklist]).getLast? = some cache.blocklist :=
    List.getLast?_concat
  obtain ⟨first, tail, split⟩ : ∃ first tail, nodes ++ [cache.blocklist] = first :: tail :=
    List.exists_cons_of_ne_nil (by simp)
  rw [split, List.head?_cons, Option.some.injEq] at after
  rw [split] at ring rotated inRing isLast
  have firstIn : first ≠ block := inRing first List.mem_cons_self
  have inserted : LinkRing (fun b => some ((cache.linkBehind block).blocks b).next)
      (fun b => some ((cache.linkBehind block).blocks b).prev) (first :: tail ++ [block]) := by
    refine ring.insert rotated isLast ?_ ?_ ?_ ?_ ?_ ?_
    · simp [linkBehind_next]
    · simp [linkBehind_prev cache block _ notFirst, after, firstIn.symm]
    · simp [linkBehind_next, notFirst, after]
    · simp [linkBehind_prev cache block _ notFirst, after]
    · intro other member ne
      simp [linkBehind_next, ne, inRing other member]
    · intro other member ne
      simp [linkBehind_prev cache block _ notFirst, after, ne, inRing other member]
  rw [← split, List.append_assoc] at inserted
  exact ring_append_comm.mp inserted

/-- The links, and only the links, change while the list is made. -/
theorem linkBehind_blocklist (cache : BlkCache Data) (blocks : List BlkPtr) :
    (blocks.foldl linkBehind cache).blocklist = cache.blocklist := by
  induction blocks generalizing cache with
  | nil => rfl
  | cons block blocks ih => exact ih _

theorem linkBehind_frame (cache : BlkCache Data) (blocks : List BlkPtr) (b : BlkPtr) :
    ((blocks.foldl linkBehind cache).blocks b).inuse = (cache.blocks b).inuse ∧
      ((blocks.foldl linkBehind cache).blocks b).tag = (cache.blocks b).tag ∧
      ((blocks.foldl linkBehind cache).blocks b).dirty = (cache.blocks b).dirty := by
  induction blocks generalizing cache with
  | nil => exact ⟨rfl, rfl, rfl⟩
  | cons block blocks ih =>
      obtain ⟨inuse, tag, dirty⟩ := ih (cache.linkBehind block)
      refine ⟨inuse.trans ?_, tag.trans ?_, dirty.trans ?_⟩ <;> simp [linkBehind]

theorem linkBehind_data (cache : BlkCache Data) (blocks : List BlkPtr) (b : BlkPtr) :
    ((blocks.foldl linkBehind cache).blocks b).data = (cache.blocks b).data := by
  induction blocks generalizing cache with
  | nil => rfl
  | cons block blocks ih => exact (ih (cache.linkBehind block)).trans (by simp [linkBehind])

theorem linkBehind_all {blocks nodes : List BlkPtr}
    (distinct : (blocks ++ cache.blocklist :: nodes).Nodup)
    (ring : LinkRing (fun b => some (cache.blocks b).next) (fun b => some (cache.blocks b).prev)
      (cache.blocklist :: nodes)) :
    LinkRing (fun b => some ((blocks.foldl linkBehind cache).blocks b).next)
      (fun b => some ((blocks.foldl linkBehind cache).blocks b).prev)
      (cache.blocklist :: (blocks.reverse ++ nodes)) := by
  induction blocks generalizing cache nodes with
  | nil => exact ring
  | cons block blocks ih =>
      rw [List.cons_append, List.nodup_cons, List.mem_append, not_or] at distinct
      obtain ⟨fresh, distinct⟩ := distinct
      have linked := linkBehind_ring fresh.2 (List.nodup_append.mp distinct).2.1 ring
      have moved : (blocks ++ cache.blocklist :: block :: nodes).Perm
          (block :: (blocks ++ cache.blocklist :: nodes)) := by
        rw [← List.cons_append]
        exact (List.Perm.append_left blocks (.swap _ _ _)).trans List.perm_middle
      have next := @ih (cache.linkBehind block) (block :: nodes)
        (moved.nodup_iff.mpr (List.nodup_cons.mpr ⟨?_, distinct⟩)) linked
      · have same : (cache.linkBehind block).blocklist = cache.blocklist := rfl
        simpa [same] using next
      · rw [List.mem_append, not_or]
        exact fresh

/-- `bc_init` makes one circular list of all blocks, none of them in use. -/
theorem bcInit_circular (memory : BlkPtr → Data) :
    ∃ order, (bcInit memory).Circular order := by
  refine ⟨0 :: ((List.finRange MAX_BLOCK).tail.reverse ++ []), ?_, ?_, by decide, by decide⟩
  · exact linkBehind_all (show ((List.finRange MAX_BLOCK).tail ++ (0 : BlkPtr) :: []).Nodup by decide)
      ⟨rfl, rfl⟩
  · rw [bcInit, linkBehind_blocklist]
    rfl

theorem bcInit_block (memory : BlkPtr → Data) (b : BlkPtr) :
    ((bcInit memory).blocks b).inuse = 0 ∧ ((bcInit memory).blocks b).tag = ⟨-1, -1, 0⟩ ∧
      ((bcInit memory).blocks b).dirty = false :=
  linkBehind_frame _ _ _

theorem bcInit_data (memory : BlkPtr → Data) (b : BlkPtr) :
    ((bcInit memory).blocks b).data = memory b :=
  linkBehind_data _ _ _

/-! ## What `bc_get` and `bc_put` do -/

/-- The search visits the blocks in their order. -/
theorem bcSearch_path {tag : Tag} {fuel : Nat} {found : Option BlkPtr}
    (path : LinkPath (fun b => some (cache.blocks b).next) (fun b => some (cache.blocks b).prev)
      block rest cache.blocklist)
    (proper : cache.blocklist ∉ rest) (enough : rest.length < fuel) :
    cache.bcSearch tag fuel block found =
      match (block :: rest).find? fun b => (cache.blocks b).tag = tag with
      | some b => .ok (.inl b)
      | none => .ok (.inr (found.or ((block :: rest).find? fun b => (cache.blocks b).inuse = 0))) := by
  induction rest generalizing block fuel found with
  | nil =>
      obtain ⟨fuel, rfl⟩ := Nat.exists_eq_succ_of_ne_zero (Nat.ne_zero_of_lt enough)
      have ends : (cache.blocks block).next = cache.blocklist := Option.some.inj path.1
      by_cases hit : (cache.blocks block).tag = tag
      · simp [bcSearch, hit]
      · by_cases unused : (cache.blocks block).inuse = 0 <;> cases found <;>
          simp [bcSearch, hit, ends, unused]
  | cons second rest ih =>
      obtain ⟨fuel, rfl⟩ := Nat.exists_eq_succ_of_ne_zero (Nat.ne_zero_of_lt enough)
      obtain ⟨⟨next, -⟩, path⟩ := path
      have next : (cache.blocks block).next = second := Option.some.inj next
      rw [List.mem_cons, not_or] at proper
      have goesOn : (cache.blocks block).next ≠ cache.blocklist := next ▸ Ne.symm proper.1
      by_cases hit : (cache.blocks block).tag = tag
      · simp [bcSearch, hit]
      · have enough := Nat.lt_of_succ_lt_succ enough
        have skip : (block :: second :: rest).find? (fun b => (cache.blocks b).tag = tag) =
            (second :: rest).find? fun b => (cache.blocks b).tag = tag :=
          List.find?_cons_of_neg (by simpa using hit)
        rw [bcSearch, if_neg hit, if_pos goesOn, next, ih path proper.2 enough, skip]
        split
        · rfl
        · by_cases unused : (cache.blocks block).inuse = 0 <;> cases found <;> simp [unused]

/-- What the search of `bc_get` finds. -/
theorem bcSearch_spec (circular : cache.Circular order) (tag : Tag) :
    cache.bcSearch tag (MAX_BLOCK + 1) cache.blocklist none =
      match order.find? fun b => (cache.blocks b).tag = tag with
      | some b => .ok (.inl b)
      | none => .ok (.inr (order.find? fun b => (cache.blocks b).inuse = 0)) := by
  have long := circular.length_le
  obtain ⟨rest, rfl⟩ := List.head?_eq_some_iff.mp circular.head
  have proper := (List.nodup_cons.mp circular.nodup).1
  rw [bcSearch_path circular.ring proper (by simp only [List.length_cons] at long; omega)]
  rfl

/-- A block is given a new tag and new contents. -/
def refill (cache : BlkCache Data) (block : BlkPtr) (tag : Tag) (data : Data) (inuse : Int) :
    BlkCache Data where
  blocks := update cache.blocks block
    { cache.blocks block with tag := tag, data := data, inuse := inuse }
  blocklist := (cache.blocks block).next

theorem Circular.refill (circular : cache.Circular order) (block : BlkPtr) (tag : Tag) (data : Data)
    (inuse : Int) : ∃ order', (cache.refill block tag data inuse).Circular order' := by
  obtain ⟨front, rest, rfl⟩ := List.append_of_mem (circular.complete block)
  refine ⟨_, circular.start_after.congr (fun b => ?_) (fun b => ?_) rfl⟩ <;>
    by_cases same : b = block <;> simp [BlkCache.refill, same]

/-- `bc_get` finds the block, or refills the first one that is not in use. -/
theorem bcGet_cases (circular : cache.Circular order) (tag : Tag) (sector : Data)
    (access : Access Data) :
    (∃ b, (cache.blocks b).tag = tag ∧ cache.bcGet tag sector access =
      .ok (0, b, cache.modify b fun block => { block with inuse := int16 (block.inuse + 1) })) ∨
    ((∀ b, (cache.blocks b).tag ≠ tag) ∧
      ((∀ b, (cache.blocks b).inuse ≠ 0) ∧
          cache.bcGet tag sector access = .panic "bc_get: all blocks are in use!" ∨
        ∃ b, (cache.blocks b).inuse = 0 ∧
          cache.bcSearch tag (MAX_BLOCK + 1) cache.blocklist none = .ok (.inr (some b)) ∧
          cache.bcGet tag sector access = match access with
            | .done => .ok (0, b, cache.refill b tag sector 1)
            | .failed code left => .ok (-(code + 1), b, cache.refill b tag left 0))) := by
  have searched := bcSearch_spec circular tag
  cases hit : order.find? fun b => (cache.blocks b).tag = tag with
  | some b =>
      rw [hit] at searched
      refine .inl ⟨b, by simpa using List.find?_some hit, ?_⟩
      rw [bcGet, searched, Outcome.bind_ok]
  | none =>
      rw [hit] at searched
      rw [List.find?_eq_none] at hit
      refine .inr ⟨fun b same => hit b (circular.complete b) (by simpa using same), ?_⟩
      cases unused : order.find? fun b => (cache.blocks b).inuse = 0 with
      | none =>
          rw [unused] at searched
          rw [List.find?_eq_none] at unused
          refine .inl ⟨fun b same => unused b (circular.complete b) (by simpa using same), ?_⟩
          rw [bcGet, searched, Outcome.bind_ok]
      | some b =>
          rw [unused] at searched
          have zero : (cache.blocks b).inuse = 0 := by simpa using List.find?_some unused
          refine .inr ⟨b, zero, searched, ?_⟩
          rw [bcGet, searched, Outcome.bind_ok]
          cases access with
          | done => simp [fddRead, BLKSIZE, modify, refill, zero, int16]
          | failed code left =>
              have failed : (-((code : Int) + 1)) ≠ BLKSIZE := by
                rw [BLKSIZE]
                omega
              simp only [fddRead, if_pos failed, modify, refill, zero, Function.update_self,
                Function.update_idem]

theorem bcFind_path {b : BlkPtr} {fuel : Nat}
    (path : LinkPath (fun b => some (cache.blocks b).next) (fun b => some (cache.blocks b).prev)
      b rest cache.blocklist)
    (proper : cache.blocklist ∉ rest) (enough : rest.length < fuel) (member : block ∈ b :: rest) :
    cache.bcFind block fuel b = .ok true := by
  induction rest generalizing b fuel with
  | nil =>
      obtain ⟨fuel, rfl⟩ := Nat.exists_eq_succ_of_ne_zero (Nat.ne_zero_of_lt enough)
      simp [bcFind, List.mem_singleton.mp member]
  | cons second rest ih =>
      obtain ⟨fuel, rfl⟩ := Nat.exists_eq_succ_of_ne_zero (Nat.ne_zero_of_lt enough)
      obtain ⟨⟨next, -⟩, path⟩ := path
      have next : (cache.blocks b).next = second := Option.some.inj next
      rw [List.mem_cons, not_or] at proper
      have goesOn : (cache.blocks b).next ≠ cache.blocklist := next ▸ Ne.symm proper.1
      by_cases found : b = block
      · simp [bcFind, found]
      · rw [bcFind, if_neg found, if_pos goesOn, next]
        refine ih path proper.2 (Nat.lt_of_succ_lt_succ enough) ?_
        exact (List.mem_cons.mp member).resolve_left fun same => found same.symm

theorem bcFind_spec (circular : cache.Circular order) (block : BlkPtr) :
    cache.bcFind block (MAX_BLOCK + 1) cache.blocklist = .ok true := by
  have long := circular.length_le
  have member := circular.complete block
  obtain ⟨rest, rfl⟩ := List.head?_eq_some_iff.mp circular.head
  have proper := (List.nodup_cons.mp circular.nodup).1
  exact bcFind_path circular.ring proper (by simp only [List.length_cons] at long; omega) member

/-- `bc_put` of a block that is not in use stops the machine. -/
theorem bcPut_unused (circular : cache.Circular order) (block : BlkPtr) (sector : Data)
    (access : Access Unit) (unused : (cache.blocks block).inuse = 0) :
    cache.bcPut block sector access = .panic "bc: invalid block in bc_put" := by
  rw [bcPut, bcFind_spec circular block, Outcome.bind_ok, if_pos (.inr unused)]

/-- `bc_put` of a block in use: when the last reference to a dirty block is put it
is written, and the number of bytes written is returned as an error. -/
theorem bcPut_cases (circular : cache.Circular order) (block : BlkPtr) (sector : Data)
    (access : Access Unit) (used : (cache.blocks block).inuse ≠ 0) :
    (¬(int16 ((cache.blocks block).inuse - 1) = 0 ∧ (cache.blocks block).dirty = true) ∧
      cache.bcPut block sector access = .ok (0, cache.modify block fun b =>
        { b with inuse := int16 (b.inuse - 1) }, sector)) ∨
    (int16 ((cache.blocks block).inuse - 1) = 0 ∧ (cache.blocks block).dirty = true ∧
      cache.bcPut block sector access =
        .ok ((fddWrite sector (cache.blocks block).data access).1, cache.modify block fun b =>
          { b with inuse := int16 (b.inuse - 1) },
          (fddWrite sector (cache.blocks block).data access).2) ∧
      (fddWrite sector (cache.blocks block).data access).1 ≠ 0) := by
  have found := bcFind_spec circular block
  have failed : (fddWrite sector (cache.blocks block).data access).1 ≠ 0 := by
    cases access with
    | done => simp [fddWrite, BLKSIZE]
    | failed code left =>
        simp only [fddWrite]
        omega
  by_cases last : int16 ((cache.blocks block).inuse - 1) = 0 ∧ (cache.blocks block).dirty = true
  · refine .inr ⟨last.1, last.2, ?_, failed⟩
    rw [bcPut, found, Outcome.bind_ok]
    simp [used, modify, last, failed]
  · refine .inl ⟨last, ?_⟩
    rw [bcPut, found, Outcome.bind_ok]
    simp [used, modify, last]

end BlkCache

end Pegasos.Kernel.Cache
