import Pegasos.Kernel.Memory.FarHeap

/-!
# Bytes in the far heap

`read_image` stores the bytes of a file through far pointers.  What it stores into a header
paragraph is what the allocator finds there afterwards.
-/

namespace Pegasos.Kernel.Exec

open Pegasos.Support
open Pegasos.Kernel.Memory

/-- A `__huge` pointer `n` bytes further on. -/
def hugeAdd (ptr : FarPtr) (n : Nat) : FarPtr :=
  ⟨(ptr.seg + 0x1000 * ((ptr.offs + n) / 0x10000)) % 0x10000, (ptr.offs + n) % 0x10000⟩

theorem klinear_hugeAdd {ptr : FarPtr} {n : Nat} (inside : klinear ptr + n < 0x100000) :
    klinear (hugeAdd ptr n) = klinear ptr + n := by
  simp only [klinear, hugeAdd, Nat.shiftLeft_eq] at inside ⊢
  omega

/-- A word of a header after stores to its bytes. -/
def mixWord (old : Nat) (low high : Option UInt8) : Nat :=
  match low, high with
  | none, none => old
  | some low, none => low.toNat + 0x100 * (old / 0x100 % 0x100)
  | none, some high => old % 0x100 + 0x100 * high.toNat
  | some low, some high => low.toNat + 0x100 * high.toNat

/-- A header after stores to its bytes. -/
def mixHdr (h : MemHdr) (byte : Nat → Option UInt8) : MemHdr where
  next := mixWord h.next (byte 0) (byte 1)
  para := mixWord h.para (byte 2) (byte 3)
  flags := mixWord h.flags (byte 4) (byte 5)

theorem mixWord_mixWord (old : Nat) (low high low' high' : Option UInt8) :
    mixWord (mixWord old low high) low' high' = mixWord old (low'.or low) (high'.or high) := by
  have bound : ∀ byte : Option UInt8, ∀ value ∈ byte, value.toNat < 0x100 :=
    fun _ value _ => value.toNat_lt
  have lowBound := bound low
  have highBound := bound high
  cases low <;> cases high <;> cases low' <;> cases high' <;>
    simp only [mixWord, Option.or, Option.mem_some_iff, forall_eq'] at lowBound highBound ⊢ <;>
    omega

theorem mixHdr_mixHdr (h : MemHdr) (byte byte' : Nat → Option UInt8) :
    mixHdr (mixHdr h byte) byte' = mixHdr h fun i => (byte' i).or (byte i) := by
  simp only [mixHdr, mixWord_mixWord]

/-- Conventional memory: the far heap, and the bytes that have been stored in its payloads. -/
structure FarMemory where
  heap : FarHeap
  bytes : Nat → UInt8

/-- What a store of `n` bytes from a linear address on leaves at an address. -/
def stored (linear n : Nat) (value : Nat → UInt8) (addr : Nat) : Option UInt8 :=
  if linear ≤ addr ∧ addr < linear + n then some (value (addr - linear)) else none

/-- Store `n` bytes from a linear address on. -/
def FarMemory.store (memory : FarMemory) (linear n : Nat) (value : Nat → UInt8) : FarMemory :=
  { heap :=
      { memory.heap with
        fmap := fun seg =>
          mixHdr (memory.heap.fmap seg) fun i => stored linear n value (PARASIZE * seg + i) }
    bytes := fun addr => (stored linear n value addr).getD (memory.bytes addr) }

theorem stored_append {linear n more : Nat} {value value' : Nat → UInt8}
    (same : ∀ i < more, value' i = value (n + i)) (addr : Nat) :
    (stored (linear + n) more value' addr).or (stored linear n value addr) =
      stored linear (n + more) value addr := by
  by_cases last : linear + n ≤ addr ∧ addr < linear + n + more
  · have both : linear ≤ addr ∧ addr < linear + (n + more) := by omega
    have index : n + (addr - (linear + n)) = addr - linear := by omega
    rw [stored, if_pos last, stored, stored, if_pos both, same _ (by omega), index, Option.some_or]
  · rw [stored, if_neg last, Option.none_or, stored, stored]
    congr 1
    apply propext
    omega

/-- Storing bytes in two parts. -/
theorem FarMemory.store_store (memory : FarMemory) (linear n more : Nat)
    {value value' : Nat → UInt8}
    (same : ∀ i < more, value' i = value (n + i)) :
    (memory.store linear n value).store (linear + n) more value' =
      memory.store linear (n + more) value := by
  simp only [store, mixHdr_mixHdr, stored_append same]
  congr 1
  funext addr
  rw [← stored_append same addr]
  cases stored (linear + n) more value' addr <;> rfl

theorem stored_outside {linear n addr : Nat} (value : Nat → UInt8)
    (outside : addr < linear ∨ linear + n ≤ addr) : stored linear n value addr = none :=
  if_neg (by omega)

/-- A header keeps the fields that no store reaches. -/
theorem FarMemory.store_fmap {memory : FarMemory} {linear n seg : Nat} (value : Nat → UInt8)
    (outside : PARASIZE * seg + 6 ≤ linear ∨ linear + n ≤ PARASIZE * seg) :
    (memory.store linear n value).heap.fmap seg = memory.heap.fmap seg := by
  have none : ∀ i < 6, stored linear n value (PARASIZE * seg + i) = none :=
    fun i small => stored_outside value (by omega)
  simp only [store, mixHdr, none 0 (by decide), none 1 (by decide), none 2 (by decide),
    none 3 (by decide), none 4 (by decide), none 5 (by decide), mixWord]

theorem FarMemory.store_zero (memory : FarMemory) (linear : Nat) (value : Nat → UInt8) :
    memory.store linear 0 value = memory := by
  have none : ∀ addr, stored linear 0 value addr = none :=
    fun addr => stored_outside value (by omega)
  simp only [store, none]
  rfl

theorem FarMemory.store_inside {memory : FarMemory} {linear n i : Nat} (value : Nat → UInt8)
    (inside : i < n) : (memory.store linear n value).bytes (linear + i) = value i := by
  simp only [store, stored, Nat.le_add_right, Nat.add_lt_add_left inside, and_self, if_true,
    Option.getD_some, Nat.add_sub_cancel_left]

theorem FarMemory.store_outside {memory : FarMemory} {linear n addr : Nat} (value : Nat → UInt8)
    (outside : addr < linear ∨ linear + n ≤ addr) :
    (memory.store linear n value).bytes addr = memory.bytes addr := by
  simp only [store, stored_outside value outside, Option.getD_none]

/-- Stores into a live payload keep the heap well formed. -/
theorem store_payload {memory : FarMemory} {topseg linear n : Nat} {blocks : List Block}
    {live : List (FarPtr × Nat)} (wellFormed : memory.heap.WellFormed topseg blocks live)
    {entry : FarPtr × Nat} (member : entry ∈ live)
    (first : PARASIZE * (entry.1.seg + 1) ≤ linear)
    (last : linear + n ≤ PARASIZE * (entry.1.seg + 1) + entry.2) (value : Nat → UInt8) :
    (memory.store linear n value).heap.WellFormed topseg blocks live := by
  have kept := wellFormed.store member first last fun seg =>
    (memory.store linear n value).heap.fmap seg
  have same : memory.heap.store linear n (memory.store linear n value).heap.fmap =
      (memory.store linear n value).heap := by
    have maps : (memory.heap.store linear n (memory.store linear n value).heap.fmap).fmap =
        (memory.store linear n value).heap.fmap := by
      funext seg
      simp only [FarHeap.store]
      split
      · rfl
      · refine (FarMemory.store_fmap value ?_).symm
        unfold PARASIZE at *
        omega
    exact congrArg (FarHeap.mk · memory.heap.farheap) maps
  exact same ▸ kept

/-! ## Files -/

/-- An open file with its contents. -/
structure ExeFile where
  bytes : Nat → UInt8
  length : Nat
  offset : Nat

/-- `kseek(fd, offset, SEEK_SET)`. -/
def ExeFile.kseek (file : ExeFile) (offset : Nat) : ExeFile := { file with offset := offset }

/-- What `kread(fd, buf, size)` returns: the bytes that the file still has, at most `size`. -/
def ExeFile.got (file : ExeFile) (size : Nat) : Nat := min size (file.length - file.offset)

/-- `kread(fd, buf, size)`. -/
def kread (memory : FarMemory) (file : ExeFile) (buf : FarPtr) (size : Nat) :
    Nat × FarMemory × ExeFile :=
  let got := file.got size
  (got, memory.store (klinear buf) got fun i => file.bytes (file.offset + i),
    { file with offset := file.offset + got })

end Pegasos.Kernel.Exec
