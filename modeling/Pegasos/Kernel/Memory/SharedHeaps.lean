import Pegasos.Kernel.Memory.FarHeap
import Pegasos.Kernel.Memory.NearHeap
import Pegasos.Support.SearchCommit

/-!
# The kernel heaps under preemption

`kmalloc`, `kfree`, `near_malloc` and `near_free` run with interrupts enabled, so that
another task may use the same heap between the search of a call and the change it makes.
-/

namespace Pegasos.Kernel.Memory

open Pegasos.Support

/-- `kmalloc` and `kfree`.  A write stores into one paragraph of a payload. -/
def farAllocator : Allocator FarHeap Nat (FarPtr × Nat) Nat (Nat × Nat) (Nat × MemHdr) where
  mallocSearch := kmallocSearch
  mallocCommit heap size bseg :=
    ((kmallocCommit heap size bseg).1, (kmallocCommit heap size bseg).2, size)
  freeSearch heap entry := kfreeSearch heap entry.1
  freeCommit := kfreeCommit
  write heap entry value :=
    if 16 * value.1 < entry.2 then
      some (heap.modify (entry.1.seg + 1 + value.1) fun _ => value.2)
    else none

/-- `near_malloc` and `near_free`.  A write stores one byte into a payload. -/
def nearAllocator : Allocator NearHeap UInt16 (Nat × Nat) Nat (Nat × Nat) (Nat × UInt8) where
  mallocSearch heap size :=
    match nearSearch heap (roundToWord size.toNat) with
    | none => .hang
    | some found => .ok (found.map Prod.snd)
  mallocCommit heap size p :=
    ((nearMallocCommit heap size.toNat p).1, (nearMallocCommit heap size.toNat p).2, size.toNat)
  freeSearch heap entry := nearFreeSearch heap entry.1
  freeCommit := nearFreeCommit
  write heap entry value :=
    if value.1 < entry.2 then
      some { heap with bytes := pokeByte heap.bytes (entry.1 + value.1) value.2 }
    else none

/-- The block that `kmalloc` has found is still on the list, free and large enough. -/
def KmallocReady (heap : FarHeap) (size bseg : Nat) : Prop :=
  walk (fun seg => (heap.fmap seg).next) 0 (fun seg => seg = bseg) walkFuel 0 heap.farheap ≠
      some none ∧
    kmallocFits heap (roundToPara size % 0x10000) bseg = true

/-- The same for `near_malloc`, which in addition needs the word at a new header to be the
link to the following block. -/
def NearMallocReady (heap : NearHeap) (size : UInt16) (p : Nat) : Prop :=
  walk (nhdrNext heap.bytes) 0 (fun cp => cp = p) nearFuel 0 heap.heap ≠ some none ∧
    nearFits heap.bytes (roundToWord size.toNat) p = true ∧ LinkAt heap size.toNat p

instance (heap : FarHeap) (size bseg : Nat) : Decidable (KmallocReady heap size bseg) :=
  inferInstanceAs (Decidable (_ ∧ _))

instance (heap : NearHeap) (size : UInt16) (p : Nat) : Decidable (NearMallocReady heap size p) :=
  inferInstanceAs (Decidable (_ ∧ _))

/-- An address that a walk stops at is that of a block. -/
theorem exists_block {headers : Headers} {start last addr fuel : Nat} {blocks : List Block}
    (linked : Linked headers start blocks last) (enough : blocks.length < fuel)
    (proper : ∀ block ∈ blocks, block.addr ≠ last)
    (stops : walk headers.next last (fun cur => cur = addr) fuel 0 start ≠ some none) :
    ∃ front block rest, blocks = front ++ block :: rest ∧ block.addr = addr := by
  rcases exists_first_or_none blocks (fun block => decide (block.addr = addr)) with
    ⟨front, block, rest, rfl, hit, -⟩ | none
  · exact ⟨front, block, rest, rfl, of_decide_eq_true hit⟩
  · exact absurd (walk_none _ fuel 0 linked enough proper none) stops

/-- The far heap is as `kmalloc` and `kfree` leave it. -/
def FarGood (farheap topseg : Nat) (heap : FarHeap) (live : List (FarPtr × Nat)) : Prop :=
  heap.farheap = farheap ∧ ∃ blocks, heap.WellFormed topseg blocks live

theorem farAllocator_sound (farheap topseg : Nat) :
    SharedHeap.Sound farAllocator KmallocReady (· ≤ 0xFFFF0) (FarGood farheap topseg) where
  nodup := by
    rintro heap live ⟨-, blocks, wellFormed⟩
    have nodup := wellFormed.owned.nodup wellFormed.tiles (by decide)
    rw [List.map_map] at nodup
    exact nodup.of_map
  perm := by
    rintro heap live order ⟨same, blocks, wellFormed⟩ perm
    exact ⟨same, blocks, FarSystem.WellFormed.perm wellFormed perm⟩
  passed := by
    intro heap size site found
    by_contra huge
    simp [farAllocator, kmallocSearch, Nat.lt_of_not_le huge] at found
  malloc := by
    rintro heap live size bseg ⟨same, blocks, wellFormed⟩ small ⟨stops, fits⟩
    have proper : ∀ block ∈ blocks, block.addr ≠ 0 := fun block member => by
      have := wellFormed.addr_bounds member
      omega
    obtain ⟨front, block, rest, rfl, rfl⟩ :=
      exists_block wellFormed.linked wellFormed.length_lt proper stops
    obtain ⟨free, enough⟩ :=
      (kmallocFits_iff wellFormed.toRepresents List.mem_append_cons_self).mp fits
    obtain ⟨blocks', after, kept⟩ := kmallocCommit_spec wellFormed small free enough
    exact ⟨kept.trans same, blocks', after⟩
  free := by
    rintro heap live entry rest ⟨same, blocks, wellFormed⟩ returned
    obtain ⟨heap', blocks', freed, after, kept⟩ := kfree_spec wellFormed returned
    rw [kfree_parts, Outcome.bind_eq_ok] at freed
    obtain ⟨link, found, isHeap⟩ := freed
    obtain rfl := Outcome.ok.inj isHeap
    exact ⟨link, found, kept.trans same, blocks', after⟩
  write := by
    rintro heap heap' live entry value ⟨same, blocks, wellFormed⟩ member written
    simp only [farAllocator, Option.ite_none_right_eq_some, Option.some.injEq] at written
    obtain ⟨inside, rfl⟩ := written
    let system : FarSystem := ⟨heap, live⟩
    have wellFormed : system.heap.WellFormed topseg blocks system.live := wellFormed
    exact ⟨same, blocks, FarSystem.store_wellFormed wellFormed member inside value.2⟩

/-- The near heap is as `near_malloc` and `near_free` leave it. -/
def NearGood (heap : NearHeap) (live : List (Nat × Nat)) : Prop :=
  ∃ blocks, heap.WellFormed blocks live

theorem nearAllocator_sound :
    SharedHeap.Sound nearAllocator NearMallocReady (fun _ => True) NearGood where
  nodup := by
    rintro heap live ⟨blocks, wellFormed⟩
    exact (wellFormed.owned.nodup wellFormed.tiles (by decide)).of_map
  perm := by
    rintro heap live order ⟨blocks, wellFormed⟩ perm
    exact ⟨blocks, NearSystem.WellFormed.perm wellFormed perm⟩
  passed := fun _ => trivial
  malloc := by
    rintro heap live size p ⟨blocks, wellFormed⟩ - ⟨stops, fits, linkAt⟩
    have proper : ∀ block ∈ blocks, block.addr ≠ 0 := fun block member => by
      have := wellFormed.addr_bounds member
      omega
    obtain ⟨front, block, rest, rfl, rfl⟩ :=
      exists_block wellFormed.linked wellFormed.length_lt proper stops
    obtain ⟨free, enough⟩ :=
      (nearFits_iff wellFormed.toRepresents List.mem_append_cons_self).mp fits
    obtain ⟨blocks', after, -⟩ :=
      nearMallocCommit_spec wellFormed size.toNat_lt free enough linkAt
    exact ⟨blocks', after⟩
  free := by
    rintro heap live entry rest ⟨blocks, wellFormed⟩ returned
    obtain ⟨heap', blocks', freed, after, -⟩ := nearFree_spec wellFormed returned
    rw [nearFree_parts, Outcome.bind_eq_ok] at freed
    obtain ⟨link, found, isHeap⟩ := freed
    obtain rfl := Outcome.ok.inj isHeap
    exact ⟨link, found, blocks', after⟩
  write := by
    rintro heap heap' live entry value ⟨blocks, wellFormed⟩ member written
    simp only [nearAllocator, Option.ite_none_right_eq_some, Option.some.injEq] at written
    obtain ⟨inside, rfl⟩ := written
    let system : NearSystem := ⟨heap, live⟩
    have wellFormed : system.heap.WellFormed blocks system.live := wellFormed
    exact ⟨blocks, NearSystem.store_wellFormed wellFormed member inside value.2⟩

/-! ## Both heaps -/

/-- The two heaps with the tasks that use them. -/
structure KernelHeaps (Task : Type) where
  far : SharedHeap Task FarHeap Nat (FarPtr × Nat) Nat (Nat × Nat)
  near : SharedHeap Task NearHeap UInt16 (Nat × Nat) Nat (Nat × Nat)

/-- A step on one of the heaps. -/
inductive HeapAction (Task : Type) where
  | far (action : SharedAction Task Nat (FarPtr × Nat) (Nat × MemHdr))
  | near (action : SharedAction Task UInt16 (Nat × Nat) (Nat × UInt8))

namespace KernelHeaps

variable {Task : Type} {sys sys' : KernelHeaps Task}

section Step

variable [DecidableEq Task] (sys : KernelHeaps Task)

/-- A call begins where the task is in no call of the other heap. -/
def step : HeapAction Task → Option (KernelHeaps Task)
  | .far action =>
      if action.begins.all fun task => sys.near.pc task = .idle then
        (sys.far.step farAllocator action).map fun far => { sys with far := far }
      else none
  | .near action =>
      if action.begins.all fun task => sys.far.pc task = .idle then
        (sys.near.step nearAllocator action).map fun near => { sys with near := near }
      else none

end Step

/-- Every change of a heap is made where what the search has found still holds. -/
def Guarded (sys : KernelHeaps Task) : HeapAction Task → Prop
  | .far action => sys.far.Guarded farAllocator KmallocReady action
  | .near action => sys.near.Guarded nearAllocator NearMallocReady action

/-- `mem_init`. -/
def start (fmap : Nat → MemHdr) (farheap topseg : Nat) (bytes : Bytes) (heap : Nat) :
    KernelHeaps Task :=
  ⟨.start (memInit fmap farheap topseg), .start (nearInit bytes heap)⟩

variable [DecidableEq Task]

/-- A run on both heaps is a run on each of them. -/
theorem reached_each {initial : KernelHeaps Task}
    (reached : Reached (· = initial) (fun s a s' => s.step a = some s') Guarded sys) :
    Reached (· = initial.far) (fun s a s' => s.step farAllocator a = some s')
        (SharedHeap.Guarded farAllocator KmallocReady) sys.far ∧
      Reached (· = initial.near) (fun s a s' => s.step nearAllocator a = some s')
        (SharedHeap.Guarded nearAllocator NearMallocReady) sys.near := by
  induction reached with
  | start isStart => exact isStart ▸ ⟨.start rfl, .start rfl⟩
  | @step _ _ action _ guarded taken ih =>
      cases action with
      | far action =>
          simp only [step, Option.ite_none_right_eq_some] at taken
          obtain ⟨far, ran, rfl⟩ := Option.map_eq_some_iff.mp taken.2
          exact ⟨.step ih.1 guarded ran, ih.2⟩
      | near action =>
          simp only [step, Option.ite_none_right_eq_some] at taken
          obtain ⟨near, ran, rfl⟩ := Option.map_eq_some_iff.mp taken.2
          exact ⟨ih.1, .step ih.2 guarded ran⟩

instance decidableGuarded (sys : KernelHeaps Task) :
    (action : HeapAction Task) → Decidable (sys.Guarded action)
  | .far action => sys.far.decidableGuarded farAllocator KmallocReady action
  | .near action => sys.near.decidableGuarded nearAllocator NearMallocReady action

/-- Two tasks allocate, and one of them frees while the other one allocates again. -/
def overlappingRun : List (HeapAction (Fin 2)) :=
  [.far (.malloc 0 100), .far (.commit 0), .near (.malloc 1 10), .near (.commit 1),
    .far (.write (⟨0x0800, 16⟩, 100) (0, ⟨1, 2, 3⟩)), .far (.free 0 (⟨0x0800, 16⟩, 100)),
    .far (.malloc 1 40), .near (.write (0x1004, 10) (9, 255)), .far (.commit 1), .far (.commit 0)]

/-- Two tasks find the same block before one of them marks it. -/
def sameBlockRun : List (HeapAction (Fin 2)) :=
  [.far (.malloc 0 16), .far (.malloc 1 16), .far (.commit 0), .far (.commit 1)]

/-- The state before the kernel has used its heaps. -/
def fresh : KernelHeaps (Fin 2) := start (fun _ => ⟨0, 0, 0⟩) 0x0800 0xA000 (fun _ => 0) 0x1000

end KernelHeaps

end Pegasos.Kernel.Memory
