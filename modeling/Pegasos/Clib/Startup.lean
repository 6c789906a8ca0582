import Pegasos.Clib.Malloc

/-!
# The heap of a new program

The start-up code moves the stack into the data segment and makes a heap of the paragraphs behind
it.  It computes the paragraphs in 16 bits and looks for the end of the segment in a carry.
-/

namespace Pegasos.Clib

open Pegasos.Support

/-- What a program is entered with: its segments, its stack pointer and the paragraphs that are
allocated for it from `cs` on, in which all of them are. -/
structure Image where
  cs : Nat
  ds : Nat
  ss : Nat
  sp : Nat
  palloc : Nat
  code : cs ≤ ds
  data : ds ≤ ss
  segment : ss < 0x10000
  words : palloc < 0x10000
  stack : 16 * (ss - ds) + sp < 0x10000
  inside : 16 * (ss - cs) + sp ≤ 16 * palloc

namespace Image

variable (image : Image)

/-- The stack pointer after `SS` became `DS`. -/
def top : Nat := (image.sp + (sub16 image.ss image.ds <<< 4) % 0x10000) % 0x10000

/-- The paragraphs from the end of the stack to the end of the allocation. -/
def left : Nat := image.palloc - (image.ds - image.cs) - (image.top + 15) / 16

/-- The start-up code makes a heap, or leaves `__heap` zero. -/
def start (bytes : Bytes) : Option UserHeap :=
  heapSetup bytes image.cs image.ds image.top image.palloc

theorem top_eq : image.top = 16 * (image.ss - image.ds) + image.sp := by
  have stack := image.stack
  rw [top, sub16_of_le image.segment image.data, Nat.shiftLeft_eq]
  omega

theorem top_lt : image.top < 0x10000 := by
  rw [top_eq]
  exact image.stack

theorem top_inside : 16 * (image.ds - image.cs) + image.top ≤ 16 * image.palloc := by
  have inside := image.inside
  have code := image.code
  have data := image.data
  rw [top_eq]
  omega

theorem segment_sub : sub16 image.ds image.cs = image.ds - image.cs :=
  sub16_of_le (Nat.lt_of_le_of_lt image.data image.segment) image.code

/-- The carry never comes: all the paragraphs of the program are counted in 16 bits. -/
theorem heapPara_eq (low : image.top ≤ 0xfff0) :
    heapPara image.cs image.ds image.top image.palloc = image.left := by
  have inside := image.top_inside
  have words := image.words
  have paras : ((image.top + 15) % 0x10000) >>> 4 = (image.top + 15) / 16 := by
    rw [Nat.shiftRight_eq_div_pow]
    omega
  have data : (image.ds - image.cs + (image.top + 15) / 16) % 0x10000 =
      image.ds - image.cs + (image.top + 15) / 16 := Nat.mod_eq_of_lt (by omega)
  rw [heapPara, paras, image.segment_sub, data, sub16_of_le words (by omega), left,
    if_neg (by omega)]
  omega

/-- A stack that ends in the last paragraph of the segment is counted as no paragraph. -/
theorem heapPara_full (high : 0xfff0 < image.top) :
    heapPara image.cs image.ds image.top image.palloc = image.palloc - (image.ds - image.cs) ∧
      4096 ≤ image.palloc - (image.ds - image.cs) := by
  have inside := image.top_inside
  have small := image.top_lt
  have words := image.words
  have paras : ((image.top + 15) % 0x10000) >>> 4 = 0 := by
    rw [Nat.shiftRight_eq_div_pow]
    omega
  have data : (image.ds - image.cs + 0) % 0x10000 = image.ds - image.cs :=
    Nat.mod_eq_of_lt (by omega)
  rw [heapPara, paras, image.segment_sub, data, sub16_of_le words (by omega), if_neg (by omega)]
  exact ⟨rfl, by omega⟩

/-- The block of a heap of some paragraphs. -/
theorem start_eq (bytes : Bytes) {si : Nat}
    (para : heapPara image.cs image.ds image.top image.palloc = si) :
    if si ≤ 1 then image.start bytes = none
    else ∃ heap, image.start bytes = some heap ∧ heap.heap = image.top ∧
      hbBytes heap.bytes heap.heap = if si % 4096 = 0 then 0xfffc else 16 * (si % 4096) - 4 := by
  subst para
  rw [start, heapSetup]
  dsimp only
  generalize heapPara image.cs image.ds image.top image.palloc = si
  split_ifs with few whole
  · rfl
  all_goals
    refine ⟨_, rfl, rfl, ?_⟩
    rw [hbBytes, hbSetBytes, peek_poke_self, sub16, hbhdrSize, Nat.shiftLeft_eq]
    omega

end Image

/-- What is asked of the heap of a new program: a block is at the stack pointer and inside of the
segment and of the program's paragraphs, and there is none if there is no room for a header and a
word. -/
def HeapFits (image : Image) (started : Option UserHeap) : Prop :=
  (∀ heap, started = some heap → heap.heap = image.top ∧
    image.top + hbhdrSize + hbBytes heap.bytes heap.heap ≤ 0x10000 ∧
    16 * (image.ds - image.cs) + (image.top + hbhdrSize + hbBytes heap.bytes heap.heap) ≤
      16 * image.palloc) ∧
  (min 0x10000 (16 * (image.palloc - (image.ds - image.cs))) < image.top + hbhdrSize + 2 →
    started = none)

/-- The heap of a new program fits if and only if the stack does not end in the last paragraph of
the segment, and the paragraphs behind it are none or one, or end in the segment. -/
theorem heap_fits (image : Image) (bytes : Bytes) :
    HeapFits image (image.start bytes) ↔
      image.top ≤ 0xfff0 ∧ (image.left ≤ 1 ∨ image.top = 0 ∨
        (image.left % 4096 ≠ 0 ∧ image.top + 16 * (image.left % 4096) ≤ 0x10000)) := by
  have inside := image.top_inside
  have small := image.top_lt
  by_cases low : image.top ≤ 0xfff0
  · have started := image.start_eq bytes (image.heapPara_eq low)
    have ends : 16 * (image.ds - image.cs) + image.top + 16 * image.left ≤ 16 * image.palloc := by
      rw [Image.left]
      omega
    by_cases few : image.left ≤ 1
    · rw [if_pos few] at started
      refine ⟨fun _ => ⟨low, .inl few⟩, fun _ => ⟨fun heap built => ?_, fun _ => started⟩⟩
      rw [started] at built
      cases built
    · rw [if_neg few] at started
      obtain ⟨heap, built, place, count⟩ := started
      have room : ¬ min 0x10000 (16 * (image.palloc - (image.ds - image.cs))) <
          image.top + hbhdrSize + 2 := by
        rw [hbhdrSize]
        omega
      constructor
      · intro fits
        have within := (fits.1 heap built).2.1
        rw [count, hbhdrSize] at within
        refine ⟨low, .inr ?_⟩
        split_ifs at within <;> omega
      · rintro ⟨-, fits⟩
        refine ⟨fun other same => ?_, fun none => absurd none room⟩
        rw [built] at same
        cases same
        rw [count, hbhdrSize]
        refine ⟨place, ?_, ?_⟩ <;> split_ifs <;> omega
  · have started := image.start_eq bytes (image.heapPara_full (by omega)).1
    have many := (image.heapPara_full (by omega)).2
    rw [if_neg (by omega)] at started
    obtain ⟨heap, built, place, count⟩ := started
    refine ⟨fun fits => ?_, fun fits => absurd fits.1 low⟩
    have within := (fits.1 heap built).2.1
    rw [count, hbhdrSize] at within
    split_ifs at within <;> omega

/-- A program with 256 bytes of code and 62 K of data and stack, loaded with the 4 K that the
kernel adds. -/
def wideImage : Image :=
  ⟨0x100, 0x110, 0x110, 0xf800, 0x1090, by decide, by decide, by decide, by decide, by decide,
    by decide⟩

/-- Its heap ends 2 K behind the segment. -/
theorem heap_leaves_segment :
    ¬ ∀ (image : Image) (bytes : Bytes), HeapFits image (image.start bytes) := by
  intro claim
  have started := wideImage.start_eq (fun _ => 0) (by decide : _ = 0x100)
  rw [if_neg (by decide)] at started
  obtain ⟨heap, built, place, count⟩ := started
  have within := ((claim wideImage (fun _ => 0)).1 heap built).2.1
  rw [count] at within
  exact absurd within (by decide)

end Pegasos.Clib
