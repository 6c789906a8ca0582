import Pegasos.Kernel.Exec.FarMemory
import Pegasos.Kernel.Fat.Disk
import Pegasos.Kernel.Files.FileIo

/-!
# Reading the image of a program

`read_image` computes the size of an image from the fields of an MZ header.  The products and
shifts among them have 16 bits, and a size below zero is a large unsigned number.
`read_image_right` says for which headers this makes a difference.
-/

namespace Pegasos.Kernel.Exec

open Pegasos.Support
open Pegasos.Kernel.Memory
open Pegasos.Kernel.Files (ENOMEM)
open Pegasos.Kernel

def MZ_PAGE_SIZE : Nat := 512
def NEAR_HEAP : Nat := 4096
def READ_SIZE : Nat := 16384

/-- The fields of `exehdr_t` that the loader uses. -/
structure ExeHdr where
  extra : UInt16
  pages : UInt16
  nreloc : UInt16
  hdrpara : UInt16
  minaloc : UInt16
  reloc : UInt16
  deriving DecidableEq, Repr

namespace ExeHdr

variable (hdr : ExeHdr)

/-- `hdrsize`; the shift is done in 16 bits. -/
def hdrsize : Nat := (hdr.hdrpara.toNat <<< PARASHIFT) % 0x10000

/-- `size`, a `uint32_t`; the product is one of 16 bits. -/
def size : Nat :=
  let size := (MZ_PAGE_SIZE * hdr.pages.toNat) % 0x10000
  let size :=
    if hdr.extra ≠ 0 then (size + 0x100000000 - MZ_PAGE_SIZE + hdr.extra.toNat) % 0x100000000
    else size
  (size + 0x100000000 - hdr.hdrsize) % 0x100000000

/-- `alloc`, a `uint32_t`. -/
def alloc : Nat :=
  (((hdr.size + PARASIZE - 1) % 0x100000000 &&& 0xfffffff0) +
    (hdr.minaloc.toNat <<< PARASHIFT) % 0x10000 + NEAR_HEAP) % 0x100000000

end ExeHdr

/-- What `read_image` returns and leaves behind. -/
structure ImageResult where
  data : Option FarPtr
  err : Int
  palloc : Nat
  memory : FarMemory
  file : ExeFile

/-- The loop of `read_image`; its result tells whether all bytes have been read. -/
def readLoop (data : FarPtr) : Nat → Nat → Nat → FarMemory → ExeFile →
    Outcome (Bool × FarMemory × ExeFile)
  | 0, _, _, _, _ => .hang
  | fuel + 1, sofar, size, memory, file =>
      if size = 0 then .ok (true, memory, file)
      else
        let toread := min READ_SIZE size
        let (got, memory, file) := kread memory file (hugeAdd data sofar) toread
        if got ≠ toread then .ok (false, memory, file)
        else readLoop data fuel ((sofar + toread) % 0x100000000) (size - toread) memory file

/-- `read_image` once the sizes are known and the file is at the start of the image. -/
def loadImage (memory : FarMemory) (file : ExeFile) (size alloc : Nat) : Outcome ImageResult :=
  (kmalloc memory.heap alloc).bind fun (heap, ptr) =>
    let palloc := (alloc >>> PARASHIFT) % 0x10000
    let memory := { memory with heap := heap }
    match ptr with
    | none => .ok ⟨none, -ENOMEM, palloc, memory, file⟩
    | some ptr =>
        let data : FarPtr := ⟨(ptr.seg + ptr.offs >>> PARASHIFT) % 0x10000, 0⟩
        (readLoop data (size + 1) 0 size memory file).bind fun (done, memory, file) =>
          if done then .ok ⟨some data, 0, palloc, memory, file⟩
          else
            (kfree memory.heap data).bind fun heap =>
              .ok ⟨none, - Fat.EIO, palloc, { memory with heap := heap }, file⟩

/-- `read_image`. -/
def readImage (memory : FarMemory) (file : ExeFile) (hdr : ExeHdr) : Outcome ImageResult :=
  loadImage memory (file.kseek hdr.hdrsize) hdr.size hdr.alloc

/-! ## The sizes over the integers -/

namespace ExeHdr

variable (hdr : ExeHdr)

/-- The correction of the size for the bytes on the last page. -/
def lastPage : Int := if hdr.extra = 0 then 0 else hdr.extra.toNat - 512

/-- The size of the image. -/
def fullSize : Int := 512 * hdr.pages.toNat + hdr.lastPage - 16 * hdr.hdrpara.toNat

/-- The size that 16-bit products and shifts leave of it. -/
def wrappedSize : Int :=
  (512 * hdr.pages.toNat % 0x10000 : Nat) + hdr.lastPage - (16 * hdr.hdrpara.toNat % 0x10000 : Nat)

/-- The bytes that are asked for with that size. -/
def wrappedAlloc : Int :=
  16 * ((hdr.wrappedSize + 15) / 16) + (16 * hdr.minaloc.toNat % 0x10000 : Nat) + 4096

/-- The headers that `read_image` is right for: the products and shifts do not overflow, or they
do for an image of no bytes with enough memory; or the sum for `kmalloc` is below zero, and
then it is too large for it. -/
def Fits : Prop :=
  if 0 ≤ hdr.wrappedSize then
    (hdr.pages.toNat < 128 ∧ hdr.hdrpara.toNat < 4096 ∧ hdr.minaloc.toNat < 4096) ∨
      hdr.fullSize = 0 ∧ 0x10000 * (hdr.minaloc.toNat / 4096) ≤ hdr.wrappedSize
  else hdr.wrappedAlloc < 0

instance : Decidable hdr.Fits := inferInstanceAs (Decidable (ite _ _ _))

theorem hdrsize_eq : hdr.hdrsize = 16 * hdr.hdrpara.toNat % 0x10000 := by
  rw [hdrsize, PARASHIFT, Nat.shiftLeft_eq]
  omega

theorem lastPage_bounds : -511 ≤ hdr.lastPage ∧ hdr.lastPage < 0x10000 := by
  have small := hdr.extra.toNat_lt
  unfold lastPage
  split
  · omega
  · rename_i some
    have positive : hdr.extra.toNat ≠ 0 := fun zero => some (UInt16.toNat_inj.mp zero)
    omega

theorem size_eq : (hdr.size : Int) = hdr.wrappedSize % 0x100000000 := by
  have small := hdr.extra.toNat_lt
  unfold size wrappedSize lastPage MZ_PAGE_SIZE
  rw [hdrsize_eq]
  by_cases none : hdr.extra = 0
  · simp only [none, ne_eq, not_true_eq_false, if_false, if_true]
    omega
  · simp only [none, ne_eq, not_false_eq_true, if_false, if_true]
    omega

theorem and_fffffff0 {value : Nat} (small : value < 0x100000000) :
    value &&& 0xfffffff0 = value / 16 * 16 := by
  apply Nat.eq_of_testBit_eq
  intro index
  have mask : (0xfffffff0 : Nat) = (2 ^ 28 - 1) * 2 ^ 4 := by decide
  have sixteen : (16 : Nat) = 2 ^ 4 := by decide
  rw [Nat.testBit_and, mask, Nat.testBit_mul_two_pow, Nat.testBit_two_pow_sub_one, sixteen,
    Nat.testBit_mul_two_pow, Nat.testBit_div_two_pow]
  by_cases low : 4 ≤ index
  · rw [Nat.sub_add_cancel low]
    by_cases high : index - 4 < 28
    · simp [low, high]
    · have tall : value.testBit index = false := by
        apply Nat.testBit_lt_two_pow
        calc value < 2 ^ 32 := small
          _ ≤ 2 ^ index := Nat.pow_le_pow_right (by decide) (by omega)
      simp [tall]
  · simp [low]

theorem alloc_eq : (hdr.alloc : Int) = hdr.wrappedAlloc % 0x100000000 := by
  have sizes := hdr.size_eq
  rw [alloc, and_fffffff0 (Nat.mod_lt _ (by decide))]
  simp only [PARASIZE, PARASHIFT, Nat.shiftLeft_eq, NEAR_HEAP, wrappedAlloc]
  omega

end ExeHdr

/-! ## The loop -/

/-- The loop stores what the file has of the image, and tells whether that is all of it. -/
theorem readLoop_spec {data : FarPtr} {fuel sofar size : Nat} {memory : FarMemory}
    {file : ExeFile} (enough : size < fuel)
    (inside : klinear data + sofar + file.got size < 0x100000) :
    readLoop data fuel sofar size memory file =
      .ok (decide (file.got size = size),
        memory.store (klinear data + sofar) (file.got size) fun i => file.bytes (file.offset + i),
        { file with offset := file.offset + file.got size }) := by
  induction fuel generalizing sofar size memory file with
  | zero => omega
  | succ fuel ih =>
      rw [readLoop]
      by_cases isZero : size = 0
      · have nothing : file.got size = 0 := by
          rw [isZero]
          exact Nat.zero_min _
        rw [if_pos isZero, nothing, FarMemory.store_zero, isZero]
        rfl
      rw [if_neg isZero]
      obtain ⟨toread, isToread⟩ : ∃ toread, toread = min READ_SIZE size := ⟨_, rfl⟩
      have positive : READ_SIZE = 16384 := rfl
      simp only [← isToread, kread]
      have place : klinear (hugeAdd data sofar) = klinear data + sofar :=
        klinear_hugeAdd (by omega)
      rw [place]
      unfold ExeFile.got at inside ⊢
      by_cases short : min toread (file.length - file.offset) ≠ toread
      · have all : min size (file.length - file.offset) =
            min toread (file.length - file.offset) := by omega
        have notAll : min toread (file.length - file.offset) ≠ size := by omega
        rw [if_pos short, all, decide_eq_false notAll]
      · have whole : min toread (file.length - file.offset) = toread := not_not.mp short
        rw [if_neg short, whole]
        have noWrap : (sofar + toread) % 0x100000000 = sofar + toread := by omega
        obtain ⟨rest, isRest⟩ : ∃ rest, rest =
          min (size - toread) (file.length - (file.offset + toread)) := ⟨_, rfl⟩
        have total : min size (file.length - file.offset) = toread + rest := by omega
        rw [noWrap, ih (by omega) (by unfold ExeFile.got; dsimp only; omega)]
        simp only [ExeFile.got, ← isRest, total, ← Nat.add_assoc]
        rw [FarMemory.store_store _ _ _ _ fun i _ => by rw [← Nat.add_assoc]]
        have ends : rest = size - toread ↔ toread + rest = size := by omega
        rw [decide_eq_decide.mpr ends]

/-! ## What a call is for -/

/-- What `read_image` is to leave when it returns an image. -/
structure Loaded (hdr : ExeHdr) (memory : FarMemory) (file : ExeFile) (topseg : Nat)
    (live : List (FarPtr × Nat)) (result : ImageResult) (data : FarPtr) : Prop where
  size : 0 ≤ hdr.fullSize
  allocated : ∃ ptr blocks, klinear ptr = klinear data ∧
    result.memory.heap.WellFormed topseg blocks ((ptr, hdr.alloc) :: live) ∧
    ∃ block ∈ blocks, block.used = true ∧ klinear data = PARASIZE * (block.addr + 1) ∧
      hdr.fullSize + PARASIZE * hdr.minaloc.toNat + NEAR_HEAP ≤ (PARASIZE * block.size : Nat) ∧
      ∀ addr, addr < klinear data ∨ klinear data + PARASIZE * block.size ≤ addr →
        result.memory.bytes addr = memory.bytes addr
  palloc : result.palloc = roundToPara hdr.alloc
  contents : ∀ i : Nat, i < hdr.fullSize →
    PARASIZE * hdr.hdrpara.toNat + i < file.length ∧
      result.memory.bytes (klinear data + i) = file.bytes (PARASIZE * hdr.hdrpara.toNat + i)

/-- What `read_image` is to leave when it returns NULL. -/
structure NotLoaded (topseg : Nat) (live : List (FarPtr × Nat)) (result : ImageResult) :
    Prop where
  err : result.err < 0
  heap : ∃ blocks, result.memory.heap.WellFormed topseg blocks live

/-- `read_image` does right by a header, whatever file it is on and whatever the state of the
far heap. -/
def ReadsRight (hdr : ExeHdr) : Prop :=
  ∀ memory file topseg blocks live, FarHeap.WellFormed memory.heap topseg blocks live →
    ∃ result, readImage memory file hdr = .ok result ∧
      match result.data with
      | some data => Loaded hdr memory file topseg live result data
      | none => NotLoaded topseg live result

section Right

variable {hdr : ExeHdr} {memory : FarMemory} {file : ExeFile} {topseg : Nat}
variable {blocks : List Block} {live : List (FarPtr × Nat)}

/-- The memory after the loop of `read_image`, for a block at `seg`. -/
def readInto (memory : FarMemory) (heap : FarHeap) (file : ExeFile) (size seg : Nat) : FarMemory :=
  FarMemory.store ⟨heap, memory.bytes⟩ (16 * (seg + 1)) (file.got size) fun i =>
    file.bytes (file.offset + i)

/-- `kfree` goes by the linear address. -/
theorem kfree_congr {heap : FarHeap} {ptr other : FarPtr} (same : klinear ptr = klinear other) :
    kfree heap ptr = kfree heap other := by
  simp only [kfree, same]

/-- `read_image` after a successful `kmalloc`. -/
theorem loadImage_eq {heap : FarHeap} {seg alloc : Nat} (file : ExeFile) (size : Nat)
    (allocated : kmalloc memory.heap alloc = .ok (heap, some ⟨seg, PARASIZE⟩))
    (inside : 16 * (seg + 1) + file.got size < 0x100000) :
    ∃ file', loadImage memory file size alloc =
      if file.got size = size then
        .ok ⟨some ⟨seg + 1, 0⟩, 0, (alloc >>> PARASHIFT) % 0x10000,
          readInto memory heap file size seg, file'⟩
      else
        (kfree (readInto memory heap file size seg).heap ⟨seg, PARASIZE⟩).bind fun heap' =>
          .ok ⟨none, - Fat.EIO, (alloc >>> PARASHIFT) % 0x10000,
            { readInto memory heap file size seg with heap := heap' }, file'⟩ := by
  have data : (seg + PARASIZE >>> PARASHIFT) % 0x10000 = seg + 1 := by
    have one : PARASIZE >>> PARASHIFT = 1 := by decide
    rw [one]
    omega
  have linear : klinear ⟨seg + 1, 0⟩ = 16 * (seg + 1) := by
    simp only [klinear, Nat.shiftLeft_eq]
    omega
  have same : klinear ⟨seg + 1, 0⟩ = klinear ⟨seg, PARASIZE⟩ := by
    rw [linear]
    simp only [klinear, Nat.shiftLeft_eq, PARASIZE]
    omega
  have loop : readLoop ⟨seg + 1, 0⟩ (size + 1) 0 size ⟨heap, memory.bytes⟩ file =
      .ok (decide (file.got size = size), readInto memory heap file size seg,
        { file with offset := file.offset + file.got size }) := by
    rw [readLoop_spec (by omega) (by rw [linear]; exact inside), linear]
    rfl
  refine ⟨{ file with offset := file.offset + file.got size }, ?_⟩
  simp only [loadImage, allocated, Outcome.bind_ok, data, loop, decide_eq_true_eq]
  rw [kfree_congr same]

/-- `kmalloc` hands out a block of the heap. -/
theorem owner_of_wellFormed {heap : FarHeap} {ptr : FarPtr} {bytes : Nat}
    (wellFormed : heap.WellFormed topseg blocks ((ptr, bytes) :: live)) :
    ptr = ⟨ptr.seg, PARASIZE⟩ ∧ ∃ block ∈ blocks, block.used = true ∧ block.addr = ptr.seg ∧
      bytes ≤ 16 * block.size := by
  obtain ⟨block, member, used, address, room⟩ := wellFormed.owned.roomy _ List.mem_cons_self
  have offs := wellFormed.aligned _ List.mem_cons_self
  dsimp only at offs
  exact ⟨by rw [← offs], block, member, used, Nat.add_right_cancel address, room⟩

/-- A block of enough bytes: either the file has all bytes of the image, or the block is
returned. -/
theorem loadImage_some {heap : FarHeap} {ptr : FarPtr} {blocks : List Block} {size alloc : Nat}
    (file : ExeFile)
    (allocated : kmalloc memory.heap alloc = .ok (heap, some ptr))
    (wellFormed : heap.WellFormed topseg blocks ((ptr, alloc) :: live)) (enough : size ≤ alloc) :
    (∃ result block, loadImage memory file size alloc = .ok result ∧ file.got size = size ∧
      block ∈ blocks ∧ block.used = true ∧ alloc ≤ 16 * block.size ∧
      result.data = some ⟨block.addr + 1, 0⟩ ∧ klinear ptr = 16 * (block.addr + 1) ∧
      result.palloc = alloc / 16 ∧ result.memory = readInto memory heap file size block.addr ∧
      result.memory.heap.WellFormed topseg blocks ((ptr, alloc) :: live)) ∨
    ∃ result, loadImage memory file size alloc = .ok result ∧ result.data = none ∧
      NotLoaded topseg live result := by
  obtain ⟨isPtr, block, member, used, address, room⟩ := owner_of_wellFormed wellFormed
  have bounds := wellFormed.addr_bounds member
  have bounded := wellFormed.bounded
  rw [← address] at isPtr
  subst isPtr
  have most : file.got size ≤ size := Nat.min_le_left _ _
  obtain ⟨file', result⟩ := loadImage_eq file size allocated (by omega)
  rw [result]
  have kept : (readInto memory heap file size block.addr).heap.WellFormed topseg blocks
      ((⟨block.addr, PARASIZE⟩, alloc) :: live) := by
    have before : (FarMemory.mk heap memory.bytes).heap.WellFormed topseg blocks
        ((⟨block.addr, PARASIZE⟩, alloc) :: live) := wellFormed
    refine store_payload before List.mem_cons_self le_rfl ?_ _
    simp only [PARASIZE]
    omega
  by_cases all : file.got size = size
  · rw [if_pos all]
    refine .inl ⟨_, block, rfl, all, member, used, room, rfl, ?_, ?_, rfl, kept⟩
    · simp only [klinear, Nat.shiftLeft_eq, PARASIZE]
      omega
    · simp only [PARASHIFT, Nat.shiftRight_eq_div_pow]
      omega
  · rw [if_neg all]
    obtain ⟨heap', blocks', freed, after, -⟩ := kfree_spec kept (List.Perm.refl _)
    rw [freed, Outcome.bind_ok]
    exact .inr ⟨_, rfl, rfl, (by decide : - Fat.EIO < 0), blocks', after⟩

/-- Without a block nothing has changed. -/
theorem loadImage_none {size alloc : Nat} (file : ExeFile)
    (wellFormed : memory.heap.WellFormed topseg blocks live)
    (refused : kmalloc memory.heap alloc = .ok (memory.heap, none)) :
    ∃ result, loadImage memory file size alloc = .ok result ∧ result.data = none ∧
      NotLoaded topseg live result := by
  refine ⟨⟨none, -ENOMEM, (alloc >>> PARASHIFT) % 0x10000, memory, file⟩, ?_, rfl,
    (by decide : -ENOMEM < 0), blocks, wellFormed⟩
  simp only [loadImage, refused, Outcome.bind_ok]

/-- What the sizes of a header come to where none of them is below zero. -/
theorem sizes_eq (nonneg : 0 ≤ hdr.wrappedSize) :
    (hdr.size : Int) = hdr.wrappedSize ∧ (hdr.alloc : Int) = hdr.wrappedAlloc ∧
      hdr.size ≤ hdr.alloc := by
  have sizes := hdr.size_eq
  have allocs := hdr.alloc_eq
  have lastPage := hdr.lastPage_bounds
  unfold ExeHdr.wrappedAlloc at allocs ⊢
  unfold ExeHdr.wrappedSize at *
  omega

theorem readsRight_of_fits (fits : hdr.Fits) : ReadsRight hdr := by
  intro memory file topseg blocks live wellFormed
  have lastPage := hdr.lastPage_bounds
  have notLoaded : ∀ result, result.data = none → NotLoaded topseg live result →
      match result.data with
      | some data => Loaded hdr memory file topseg live result data
      | none => NotLoaded topseg live result := by
    intro result isNone failed
    rw [isNone]
    exact failed
  by_cases nonneg : 0 ≤ hdr.wrappedSize
  · obtain ⟨isSize, isAlloc, enough⟩ := sizes_eq nonneg
    rw [ExeHdr.Fits, if_pos nonneg] at fits
    rcases kmalloc_spec wellFormed hdr.alloc with
      ⟨heap, ptr, blocks', allocated, after, -⟩ | ⟨refused, -⟩
    · rcases loadImage_some (file.kseek hdr.hdrsize) allocated after enough with
        ⟨result, block, ran, all, member, used, room, isData, linear, palloc, isMemory, kept⟩ |
        ⟨result, ran, isNone, failed⟩
      · refine ⟨result, ran, ?_⟩
        rw [isData]
        have data : klinear ⟨block.addr + 1, 0⟩ = 16 * (block.addr + 1) := by
          simp only [klinear, Nat.shiftLeft_eq]
          omega
        have place := hdr.hdrsize_eq
        have most : (file.kseek hdr.hdrsize).got hdr.size ≤ hdr.size := Nat.min_le_left _ _
        unfold ExeHdr.wrappedAlloc at isAlloc
        refine ⟨?_, ⟨ptr, blocks', ?_, kept, block, member, used, ?_, ?_, ?_⟩, ?_, ?_⟩
        · unfold ExeHdr.fullSize ExeHdr.wrappedSize at *
          omega
        · rw [linear, data]
        · rw [data]
          rfl
        · unfold ExeHdr.fullSize ExeHdr.wrappedSize PARASIZE NEAR_HEAP at *
          omega
        · intro addr outside
          rw [data] at outside
          rw [isMemory]
          unfold PARASIZE at outside
          exact FarMemory.store_outside _ (by omega)
        · rw [palloc, roundToPara, PARASHIFT, PARASIZE, Nat.shiftRight_eq_div_pow]
          omega
        · intro i inside
          obtain ⟨pages, hdrpara, minaloc⟩ | ⟨empty, -⟩ := fits
          · have isFull : hdr.fullSize = hdr.wrappedSize := by
              unfold ExeHdr.fullSize ExeHdr.wrappedSize
              omega
            have header : hdr.hdrsize = PARASIZE * hdr.hdrpara.toNat := by
              unfold PARASIZE
              omega
            have small : i < hdr.size := by omega
            rw [← header, isMemory, data]
            refine ⟨?_, ?_⟩
            · unfold ExeFile.got ExeFile.kseek at all
              dsimp only at all
              omega
            · exact FarMemory.store_inside _ (by rw [all]; exact small)
          · omega
      · exact ⟨result, ran, notLoaded result isNone failed⟩
    · obtain ⟨result, ran, isNone, failed⟩ := loadImage_none (file.kseek hdr.hdrsize) wellFormed refused
      exact ⟨result, ran, notLoaded result isNone failed⟩
  · rw [ExeHdr.Fits, if_neg nonneg] at fits
    have huge : hdr.alloc > 0xFFFF0 := by
      have allocs := hdr.alloc_eq
      unfold ExeHdr.wrappedAlloc ExeHdr.wrappedSize at *
      omega
    have refused : kmalloc memory.heap hdr.alloc = .ok (memory.heap, none) := by
      rw [kmalloc, if_pos huge]
    obtain ⟨result, ran, isNone, failed⟩ :=
      loadImage_none (file.kseek hdr.hdrsize) wellFormed refused
    exact ⟨result, ran, notLoaded result isNone failed⟩

end Right

/-! ## Headers that do not fit -/

/-- The memory after start-up, with the kernel below segment 0x0800 and nothing allocated. -/
def freshMemory : FarMemory := ⟨memInit (fun _ => ⟨0, 0, 0⟩) 0x0800 0xA000, fun _ => 0⟩

theorem freshMemory_wellFormed :
    freshMemory.heap.WellFormed 0xA000 [⟨0x0800, 38911, false⟩] [] :=
  FarSystem.start_wellFormed (by decide) (by decide) (by decide)

/-- The first block is at the bottom, and the rest stays free. -/
theorem freshMemory_kmalloc {alloc : Nat} (small : alloc ≤ 0x40000) :
    ∃ heap, kmalloc freshMemory.heap alloc = .ok (heap, some ⟨0x0800, PARASIZE⟩) ∧
      heap.farheap = 0x0800 ∧ heap.WellFormed 0xA000
        [⟨0x0800, (alloc + 15) / 16, true⟩, ⟨0x0801 + (alloc + 15) / 16,
          38910 - (alloc + 15) / 16, false⟩] [(⟨0x0800, PARASIZE⟩, alloc)] := by
  have wellFormed := freshMemory_wellFormed
  rcases kmallocSearch_spec wellFormed.toRepresents (show alloc ≤ 0xFFFF0 by omega) with
    ⟨front, block, rest, isList, free, enough, found⟩ | ⟨-, full⟩
  · have isBlock : front = [] ∧ ⟨0x0800, 38911, false⟩ = block ∧ [] = rest := by
      cases front with
      | nil => exact ⟨rfl, List.cons.inj isList⟩
      | cons first front => simp at isList
    obtain ⟨rfl, rfl, rfl⟩ := isBlock
    have paras := roundToPara_eq (show alloc ≤ 0xFFFF0 by omega)
    obtain ⟨sz, isSz⟩ : ∃ sz, sz = (alloc + 15) / 16 := ⟨_, rfl⟩
    rw [← isSz] at paras ⊢
    have larger : 38911 > (sz + 1) % 0x10000 := by omega
    have noWrap : (0x0800 + sz + 1) % 0x10000 = 0x0800 + sz + 1 := by omega
    have para := (wellFormed.fields List.mem_cons_self).1
    have split : (freshMemory.heap.WellFormed 0xA000 ([] ++ ⟨0x0800, 38911, false⟩ :: []) []) :=
      wellFormed
    have room : alloc ≤ 16 * sz := by omega
    have after := split.split rfl (show sz + 1 < 38911 by omega) room
    refine ⟨kmallocSplit
      (freshMemory.heap.modify 0x0800 fun h => { h with flags := h.flags ||| BLK_INUSE }) 0x0800
      (0x0800 + sz + 1) sz, ?_, rfl, ?_⟩
    · rw [kmalloc_parts, found, Outcome.bind_ok, Option.elim_some, kmallocCommit]
      simp only [paras, FarHeap.modify_self, para, if_pos larger, noWrap]
    · have blocks : [] ++ carve 1 sz true ⟨0x0800, 38911, false⟩ ++ [] =
          [⟨0x0800, sz, true⟩, ⟨0x0801 + sz, 38910 - sz, false⟩] := by
        simp only [carve, if_true, List.nil_append, List.append_nil, List.cons.injEq,
          Block.mk.injEq, and_true, true_and]
        omega
      rw [← blocks]
      exact after
  · rcases full _ List.mem_cons_self with used | short
    · cases used
    · dsimp only at short
      omega

/-- A file of zeros but for one byte. -/
def markedFile (place length : Nat) : ExeFile :=
  ⟨fun i => if i = place then 1 else 0, length, 0⟩

theorem got_of_le {file : ExeFile} {size : Nat} (long : file.offset + size ≤ file.length) :
    file.got size = size := by
  unfold ExeFile.got
  omega

theorem got_of_length {file : ExeFile} {size n : Nat} (short : n ≤ size)
    (length : file.length = file.offset + n) : file.got size = n := by
  unfold ExeFile.got
  omega

/-- A size that is not below zero, but that is not the size of the image. -/
theorem not_readsRight_of_nonneg {hdr : ExeHdr} (nonneg : 0 ≤ hdr.wrappedSize)
    (misfit : ¬hdr.Fits) : ¬ReadsRight hdr := by
  intro right
  have pages := hdr.pages.toNat_lt
  have hdrpara := hdr.hdrpara.toNat_lt
  have minaloc := hdr.minaloc.toNat_lt
  have lastPage := hdr.lastPage_bounds
  have place := hdr.hdrsize_eq
  obtain ⟨isSize, isAlloc, -⟩ := sizes_eq nonneg
  unfold ExeHdr.wrappedAlloc at isAlloc
  rw [ExeHdr.Fits, if_pos nonneg] at misfit
  obtain ⟨k, isK⟩ : ∃ k, k = if 4096 ≤ hdr.hdrpara.toNat then 0 else hdr.size := ⟨_, rfl⟩
  obtain ⟨file, isFile⟩ : ∃ file, file = markedFile (16 * hdr.hdrpara.toNat + k) 0x400000 :=
    ⟨_, rfl⟩
  have small : hdr.size < 0x20000 := by
    unfold ExeHdr.wrappedSize at isSize
    omega
  have got : (file.kseek hdr.hdrsize).got hdr.size = hdr.size := by
    have long : hdr.hdrsize + hdr.size ≤ 0x400000 := by omega
    rw [isFile]
    exact got_of_le long
  obtain ⟨heap, allocated, farheap, wellFormed⟩ :=
    freshMemory_kmalloc (show hdr.alloc ≤ 0x40000 by omega)
  obtain ⟨file', ran⟩ := loadImage_eq (file.kseek hdr.hdrsize) hdr.size allocated (by omega)
  rw [if_pos got] at ran
  obtain ⟨result, ran', outcome⟩ := right freshMemory file 0xA000 _ [] freshMemory_wellFormed
  obtain rfl := Outcome.ok.inj (ran'.symm.trans ran)
  dsimp only at outcome
  have data : klinear ⟨0x0800 + 1, 0⟩ = 0x8010 := by decide
  obtain ⟨full, ⟨ptr, blocks, -, after, block, member, -, linear, room, -⟩, -, contents⟩ := outcome
  rw [data] at linear contents
  have isAddr : block.addr = 0x0800 := by
    unfold PARASIZE at linear
    omega
  have header : (readInto freshMemory heap (file.kseek hdr.hdrsize) hdr.size 0x0800).heap.fmap
      0x0800 = heap.fmap 0x0800 := FarMemory.store_fmap _ (.inl (by decide))
  have capacity : block.size = (hdr.alloc + 15) / 16 := by
    rw [← (after.fields member).1, isAddr, header]
    exact (wellFormed.fields List.mem_cons_self).1
  rw [capacity] at room
  -- the byte at `k` is one that the loop does not read, or reads from elsewhere
  have unread : k < hdr.fullSize → False := by
    intro inside
    obtain ⟨-, same⟩ := contents k inside
    have mark : file.bytes (PARASIZE * hdr.hdrpara.toNat + k) = 1 := by
      rw [isFile]
      exact if_pos rfl
    have zero : (readInto freshMemory heap (file.kseek hdr.hdrsize) hdr.size 0x0800).bytes
        (0x8010 + k) = 0 := by
      by_cases early : k < hdr.size
      · refine (FarMemory.store_inside _ (by rw [got]; exact early)).trans ?_
        rw [isFile]
        refine if_neg ?_
        show hdr.hdrsize + k ≠ _
        split_ifs at isK <;> omega
      · exact FarMemory.store_outside _ (.inr (by rw [got]; omega))
    rw [mark, zero] at same
    exact absurd same (by decide)
  have read : ¬(k : Int) < hdr.fullSize := unread
  clear unread contents
  unfold ExeHdr.fullSize ExeHdr.wrappedSize PARASIZE NEAR_HEAP at *
  by_cases wide : 4096 ≤ hdr.hdrpara.toNat
  · rw [if_pos wide] at isK
    omega
  · rw [if_neg wide] at isK
    omega

/-- A block in use whose header follows the first one, and no pointer to it. -/
theorem not_wellFormed_of_next {heap : FarHeap} {topseg seg : Nat} {blocks : List Block}
    (starts : heap.farheap ≠ 0) (next : (heap.fmap heap.farheap).next = seg) (notNull : seg ≠ 0)
    (inUse : lowBit (heap.fmap seg).flags = true) : ¬heap.WellFormed topseg blocks [] := by
  intro wellFormed
  have linked := wellFormed.linked
  match blocks, linked with
  | [], linked => exact starts linked
  | [_], ⟨_, _, _, ends⟩ => exact notNull (next.symm.trans ends)
  | first :: second :: rest, ⟨_, _, _, addr, _, used, _⟩ =>
      have isUsed : second.used = true := by
        rw [← used]
        show lowBit (heap.fmap (heap.fmap heap.farheap).next).flags = true
        rw [next]
        exact inUse
      have inPayloads : second.addr + 1 ∈ payloads 1 (first :: second :: rest) :=
        List.mem_map_of_mem (List.mem_filter.mpr ⟨by simp, isUsed⟩)
      have := wellFormed.owned.pointers.symm.subset inPayloads
      simp at this

/-- `kfree` of the first block, with a block in use behind it. -/
theorem kfree_first {heap : FarHeap} {seg : Nat} (starts : heap.farheap = 0x0800)
    (next : (heap.fmap 0x0800).next = seg) (inUse : (heap.fmap seg).flags = 1) :
    kfree heap ⟨0x0800, PARASIZE⟩ =
      .ok (heap.modify 0x0800 fun curr => { curr with flags := curr.flags &&& 0xfffe }) := by
  obtain ⟨segment, aligned⟩ := kfree_segment (show 0x0800 < 0x10000 by decide)
  have found : walk (fun seg => (heap.fmap seg).next) 0 (fun bseg => decide (bseg = 0x0800))
      walkFuel 0 heap.farheap = some (some (0, 0x0800)) := by
    rw [starts, show walkFuel = 0xffff + 1 from rfl, walk, if_neg (by decide), if_pos (by decide)]
  have used : ¬(heap.fmap seg).flags &&& BLK_INUSE = 0 := by
    rw [inUse]
    decide
  rw [kfree_parts, kfreeSearch]
  simp only [segment, aligned, ne_eq, not_true_eq_false, if_false, found, Outcome.bind_ok,
    kfreeCommit, kfreeMergePrev, false_and, kfreeMergeNext, next, used, and_false]

/-- A size below zero: the file is read over the header behind the block. -/
theorem not_readsRight_of_neg {hdr : ExeHdr} (neg : hdr.wrappedSize < 0) (misfit : ¬hdr.Fits) :
    ¬ReadsRight hdr := by
  intro right
  have lastPage := hdr.lastPage_bounds
  have place := hdr.hdrsize_eq
  have sizes := hdr.size_eq
  have allocs := hdr.alloc_eq
  rw [ExeHdr.Fits, if_neg (by omega)] at misfit
  have isAlloc : (hdr.alloc : Int) = hdr.wrappedAlloc := by
    unfold ExeHdr.wrappedAlloc at *
    omega
  have para : hdr.alloc = 16 * ((hdr.alloc + 15) / 16) := by
    unfold ExeHdr.wrappedAlloc at isAlloc
    omega
  have small : hdr.alloc ≤ 0x20000 := by
    unfold ExeHdr.wrappedAlloc at isAlloc
    omega
  have large : 0x80000000 ≤ hdr.size := by
    unfold ExeHdr.wrappedSize at *
    omega
  obtain ⟨sz, isSz⟩ : ∃ sz, sz = (hdr.alloc + 15) / 16 := ⟨_, rfl⟩
  obtain ⟨file, isFile⟩ : ∃ file,
      file = markedFile (hdr.hdrsize + hdr.alloc + 4) (hdr.hdrsize + hdr.alloc + 16) := ⟨_, rfl⟩
  have got : (file.kseek hdr.hdrsize).got hdr.size = hdr.alloc + 16 := by
    have short : hdr.alloc + 16 ≤ hdr.size := by omega
    rw [isFile]
    exact got_of_length short (Nat.add_assoc _ _ _)
  obtain ⟨heap, allocated, farheap, wellFormed⟩ :=
    freshMemory_kmalloc (show hdr.alloc ≤ 0x40000 by omega)
  rw [← isSz] at wellFormed para
  obtain ⟨file', ran⟩ := loadImage_eq (file.kseek hdr.hdrsize) hdr.size allocated (by omega)
  rw [if_neg (by omega)] at ran
  obtain ⟨memory, isMemory⟩ : ∃ memory, memory =
    readInto freshMemory heap (file.kseek hdr.hdrsize) hdr.size 0x0800 := ⟨_, rfl⟩
  rw [← isMemory] at ran
  have first : memory.heap.fmap 0x0800 = heap.fmap 0x0800 :=
    isMemory ▸ FarMemory.store_fmap _ (.inl (by decide))
  have second : (memory.heap.fmap (0x0801 + sz)).flags = 1 := by
    have byte : ∀ i < 6, stored (16 * (0x0800 + 1)) (hdr.alloc + 16)
        (fun i => file.bytes (hdr.hdrsize + i)) (PARASIZE * (0x0801 + sz) + i) =
          some (if i = 4 then 1 else 0) := by
      intro i inside
      have index : PARASIZE * (0x0801 + sz) + i - 16 * (0x0800 + 1) = hdr.alloc + i := by
        unfold PARASIZE
        omega
      rw [stored, if_pos (by unfold PARASIZE; omega), index, isFile]
      have atMark : hdr.hdrsize + (hdr.alloc + i) = hdr.hdrsize + hdr.alloc + 4 ↔ i = 4 := by
        omega
      simp only [markedFile, atMark]
    rw [isMemory, readInto, got]
    show mixWord (heap.fmap (0x0801 + sz)).flags
      (stored (16 * (0x0800 + 1)) (hdr.alloc + 16) (fun i => file.bytes (hdr.hdrsize + i))
        (PARASIZE * (0x0801 + sz) + 4))
      (stored (16 * (0x0800 + 1)) (hdr.alloc + 16) (fun i => file.bytes (hdr.hdrsize + i))
        (PARASIZE * (0x0801 + sz) + 5)) = 1
    rw [byte 4 (by decide), byte 5 (by decide)]
    rfl
  have next : (memory.heap.fmap 0x0800).next = 0x0801 + sz := by
    have around : heap.Represents 0xA000
      ([] ++ ⟨0x0800, sz, true⟩ :: [⟨0x0801 + sz, 38910 - sz, false⟩]) := wellFormed.toRepresents
    rw [first]
    exact around.next_eq
  have starts : memory.heap.farheap = 0x0800 := isMemory ▸ farheap
  have freed : kfree memory.heap ⟨0x0800, PARASIZE⟩ =
      .ok (memory.heap.modify 0x0800 fun curr => { curr with flags := curr.flags &&& 0xfffe }) :=
    kfree_first starts next second
  rw [freed, Outcome.bind_ok] at ran
  obtain ⟨result, ran', outcome⟩ := right freshMemory file 0xA000 _ [] freshMemory_wellFormed
  obtain rfl := Outcome.ok.inj (ran'.symm.trans ran)
  obtain ⟨-, blocks, after⟩ := outcome
  have isLast : (memory.heap.modify 0x0800 fun curr =>
      { curr with flags := curr.flags &&& 0xfffe }).WellFormed 0xA000 blocks [] := after
  refine not_wellFormed_of_next ?_ ?_ (show 0x0801 + sz ≠ 0 by omega) ?_ isLast
  · rw [FarHeap.modify_farheap, starts]
    decide
  · rw [FarHeap.modify_farheap, starts, FarHeap.modify_self]
    exact next
  · rw [FarHeap.modify_other _ _ (by omega), second]
    decide

theorem fits_of_readsRight {hdr : ExeHdr} (right : ReadsRight hdr) : hdr.Fits := by
  by_contra misfit
  by_cases nonneg : 0 ≤ hdr.wrappedSize
  · exact not_readsRight_of_nonneg nonneg misfit right
  · exact not_readsRight_of_neg (by omega) misfit right

end Pegasos.Kernel.Exec
