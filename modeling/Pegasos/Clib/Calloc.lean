import Pegasos.Clib.Malloc

/-!
# Cleared blocks of the user heap

`calloc` forms the size of the block in 16 bits, so its check for an overflow never finds one.
`calloc_safe` shows for which requests the block is large enough all the same.
-/

namespace Pegasos.Clib

open Pegasos.Support

/-- `memset`; the addresses wrap at the end of the segment. -/
def memset (bytes : Bytes) (p : Nat) (value : UInt8) (count : Nat) : Bytes := fun addr =>
  if addr < 0x10000 ∧ sub16 addr p < count then value else bytes addr

/-- `calloc`; the result 0 is the NULL pointer. -/
def calloc (heap : UserHeap) (n size : UInt16) : Outcome (UserHeap × Nat) :=
  -- the operands are 16-bit, and so is their product
  let sz32 := (n * size).toUInt32
  if sz32 &&& 0xffff0000 ≠ 0 then .ok (heap, 0)
  else
    let size := (sz32 &&& 0xffff).toNat
    (malloc heap size).bind fun (heap, p) =>
      if p ≠ 0 then .ok ({ heap with bytes := memset heap.bytes p 0 size }, p)
      else .ok (heap, p)

section

variable {heap heap' : UserHeap} {bytes : Bytes} {p addr count total : Nat} {blocks : List Block}
variable {front rest : List Block} {block : Block} {live : List (Nat × Nat)}

theorem memset_inside (fits : p + count ≤ 0x10000) (low : p ≤ addr) (high : addr < p + count)
    (value : UInt8) : memset bytes p value count addr = value := by
  have place : sub16 addr p = addr - p := sub16_of_le (by omega) low
  rw [memset, place, if_pos (by omega)]

theorem memset_apart (fits : p + count ≤ 0x10000) (apart : addr < p ∨ p + count ≤ addr)
    (value : UInt8) : memset bytes p value count addr = bytes addr := by
  have out : ¬ (addr < 0x10000 ∧ sub16 addr p < count) := by
    rw [sub16]
    omega
  rw [memset, if_neg out]

/-- No 16-bit product is found to be too large. -/
theorem calloc_eq (heap : UserHeap) (n size : UInt16) :
    calloc heap n size = (malloc heap (n * size).toNat).bind fun (heap, p) =>
      if p ≠ 0 then .ok ({ heap with bytes := memset heap.bytes p 0 (n * size).toNat }, p)
      else .ok (heap, p) := by
  have small := (n * size).toNat_lt
  have word : (n * size).toNat &&& 0xffff = (n * size).toNat := by
    rw [Nat.and_two_pow_sub_one_eq_mod _ 16]
    exact Nat.mod_eq_of_lt small
  have high : (n * size).toUInt32 &&& 0xffff0000 = 0 := by
    have zero : (n * size).toNat &&& 0xffff0000 = 0 := by
      rw [← word, Nat.and_assoc]
      exact Nat.and_zero _
    apply UInt32.toNat_inj.mp
    rw [UInt32.toNat_and, UInt16.toNat_toUInt32]
    exact zero
  have low : ((n * size).toUInt32 &&& 0xffff).toNat = (n * size).toNat := by
    rw [UInt32.toNat_and, UInt16.toNat_toUInt32]
    exact word
  rw [calloc, high, low]
  exact if_neg (not_not.mpr rfl)

theorem dvd_roundToWord (count : Nat) : 2 ∣ roundToWord count := by
  rw [roundToWord, and_fffe_eq (Nat.mod_lt _ (by decide))]
  exact Nat.dvd_mul_left _ _

/-- What `malloc` does with the block that it finds, also where the split goes wrong: it marks the
block and stores into two headers alone. -/
theorem malloc_takes (represents : heap.Represents total blocks) (member : block ∈ blocks)
    (free : block.used = false) (enough : roundToWord count ≤ block.size)
    (found : mallocSearch heap (roundToWord count) = some (some block.addr)) :
    ∃ bytes, malloc heap count =
        .ok ({ heap with bytes }, (block.addr + 4) % 0x10000) ∧
      lowBit (hbBytes bytes block.addr) = true ∧
      roundToWord count ≤ hbBytes bytes block.addr &&& 0xfffe ∧
      ∀ addr, (addr < block.addr ∨ block.addr + 4 ≤ addr) →
        (addr < (block.addr + 4 + roundToWord count) % 0x10000 ∨
          (block.addr + 4 + roundToWord count) % 0x10000 + 4 ≤ addr) →
        bytes addr = heap.bytes addr := by
  have bounds := represents.addr_bounds member
  have word := represents.hbBytes_free member free
  have size := (represents.fields member).1
  have even := dvd_roundToWord count
  have place : ((block.addr + 4) % 0x10000 + roundToWord count) % 0x10000 =
      (block.addr + 4 + roundToWord count) % 0x10000 := by omega
  have marked (bytes : Bytes) (pb : Nat) : lowBit (hbBytes (hbSetInUse bytes pb) pb) = true ∧
      hbBytes (hbSetInUse bytes pb) pb &&& 0xfffe = hbBytes bytes pb &&& 0xfffe := by
    rw [hbSetInUse, hbSetBytes, hbBytes, peek_poke_self, lowBit_mod, mod_clear, INUSE]
    exact ⟨lowBit_or_one _, or_one_clear _⟩
  by_cases splits : block.size ≥ 8
  · obtain ⟨-, self⟩ := mallocSplit_self heap.bytes block.addr (roundToWord count)
      (Nat.mod_lt (block.addr + 4 + roundToWord count) (by decide : 0 < 0x10000))
    refine ⟨hbSetInUse (mallocSplit heap.bytes block.addr
      ((block.addr + 4 + roundToWord count) % 0x10000) (roundToWord count)) block.addr, ?_,
      (marked _ _).1, ?_, fun addr apart apartNew => ?_⟩
    · simp only [malloc, found, word, hbhdrSize, Nat.reduceMul, splits, if_true, place]
    · rw [(marked _ _).2, self, mod_clear, clear_of_even (by omega) even]
    · exact (hbSetBytes_frame apart).trans (mallocSplit_frame apart apartNew)
  · refine ⟨hbSetInUse heap.bytes block.addr, ?_, (marked _ _).1, ?_,
      fun addr apart _ => hbSetBytes_frame apart⟩
    · simp only [malloc, found, word, hbhdrSize, Nat.reduceMul, splits, if_false]
    · rw [(marked _ _).2, size]
      exact enough

/-- The block of `want` zero bytes that `calloc` promises at `p`: it was free, its header says that
it is in use and large enough, and what the program holds elsewhere is as it was. -/
structure Cleared (heap heap' : UserHeap) (blocks : List Block) (live : List (Nat × Nat))
    (want p : Nat) : Prop where
  block : ∃ block ∈ blocks, block.used = false ∧ p = block.addr + hbhdrSize ∧
    want ≤ block.size ∧ lowBit (hbBytes heap'.bytes block.addr) = true ∧
    want ≤ hbBytes heap'.bytes block.addr &&& 0xfffe
  fresh : ∀ entry ∈ live, entry.1 ≠ p
  zero : ∀ i < want, heap'.bytes (p + i) = 0
  kept : ∀ entry ∈ live, ∀ i < entry.2, heap'.bytes (entry.1 + i) = heap.bytes (entry.1 + i)

/-- A held payload is apart from a free block, and from the header behind it. -/
theorem live_apart (holds : heap.Holds total blocks live) (member : block ∈ blocks)
    (free : block.used = false) {entry : Nat × Nat} (held : entry ∈ live) :
    heap.heap + 4 ≤ entry.1 ∧ (entry.1 + entry.2 ≤ block.addr ∨
      block.addr + 4 + block.size + 4 ≤ entry.1) := by
  obtain ⟨owner, ownerIn, used, address, room⟩ := holds.owned.roomy entry held
  have low := (holds.addr_bounds ownerIn).1
  have apart : block ≠ owner := by
    rintro rfl
    rw [free] at used
    cases used
  rcases holds.tiles.apart member ownerIn apart with before | after <;> omega

/-- A product that fits is cleared. -/
theorem calloc_cleared (holds : heap.Holds total blocks live) {n size : UInt16}
    (fits : n.toNat * size.toNat < 0xffff) (member : block ∈ blocks) (free : block.used = false)
    (enough : roundToWord (n * size).toNat ≤ block.size) (inSegment : block.addr + 4 < 0x10000)
    (found : mallocSearch heap (roundToWord (n * size).toNat) = some (some block.addr)) :
    ∃ heap', calloc heap n size = .ok (heap', block.addr + 4) ∧
      Cleared heap heap' blocks live (n.toNat * size.toNat) (block.addr + 4) := by
  have product : (n * size).toNat = n.toNat * size.toNat := by
    rw [UInt16.toNat_mul]
    exact Nat.mod_eq_of_lt (by omega)
  obtain ⟨bytes, ran, used, large, frame⟩ :=
    malloc_takes holds.toRepresents member free enough found
  rw [product] at enough ran large frame
  have room := (roundToWord_spec (by omega) (by omega : n.toNat * size.toNat ≠ 0xffff)).1
  have bounds := holds.addr_bounds member
  have positive := holds.positive
  have pub : (block.addr + 4) % 0x10000 = block.addr + 4 := Nat.mod_eq_of_lt inSegment
  have inside : block.addr + 4 + n.toNat * size.toNat ≤ 0x10000 := by omega
  have header : hbBytes (memset bytes (block.addr + 4) 0 (n.toNat * size.toNat)) block.addr =
      hbBytes bytes block.addr := by
    rw [hbBytes, hbBytes, peek, peek, memset_apart inside (by omega),
      memset_apart inside (by omega)]
  refine ⟨{ heap with bytes := memset bytes (block.addr + 4) 0 (n.toNat * size.toNat) }, ?_,
    ⟨⟨block, member, free, rfl, by omega, ?_⟩, fun entry held same => ?_, fun i low => ?_,
      fun entry held i low => ?_⟩⟩
  · rw [calloc_eq, product, ran, Outcome.bind_ok, pub]
    exact if_pos (by omega)
  · rw [header]
    exact ⟨used, by omega⟩
  · have apart := (live_apart holds member free held).2
    omega
  · exact memset_inside inside (by omega) (by omega) 0
  · obtain ⟨low, apart⟩ := live_apart holds member free held
    exact (memset_apart inside (by omega) 0).trans (frame _ (by omega) (by omega))

/-- `calloc` keeps its promise if and only if no block is found for the request, or the product is
at most 65534 and the block that is found begins inside of the segment. -/
theorem calloc_safe (holds : heap.Holds total blocks live) (n size : UInt16) :
    (∃ heap' p, calloc heap n size = .ok (heap', p) ∧
      ((p = 0 ∧ heap' = heap) ∨
        (p ≠ 0 ∧ Cleared heap heap' blocks live (n.toNat * size.toNat) p))) ↔
    ∀ blk, mallocSearch heap (roundToWord (n * size).toNat) = some (some blk) →
      n.toNat * size.toNat < 0xffff ∧ blk + hbhdrSize < 0x10000 := by
  rcases mallocSearch_spec holds.toRepresents (roundToWord (n * size).toNat) with
    ⟨front, block, rest, rfl, free, enough, found⟩ | missed
  · have member : block ∈ front ++ block :: rest := List.mem_append_cons_self
    have bounds := holds.addr_bounds member
    constructor
    · rintro ⟨heap', p, ran, promised⟩ blk same
      rw [found] at same
      cases same
      obtain ⟨bytes, took, used, -⟩ := malloc_takes holds.toRepresents member free enough found
      rw [calloc_eq, took, Outcome.bind_ok] at ran
      dsimp only at ran
      by_cases null : (block.addr + 4) % 0x10000 = 0
      · rw [if_neg (not_not.mpr null), null] at ran
        cases ran
        rcases promised with ⟨-, unchanged⟩ | ⟨notNull, -⟩
        · have clear := (holds.fields member).2
          rw [← unchanged, used, free] at clear
          cases clear
        · exact absurd rfl notNull
      · rw [if_pos null] at ran
        cases ran
        rcases promised with ⟨isNull, -⟩ | ⟨-, cleared⟩
        · exact absurd isNull null
        · obtain ⟨other, otherIn, -, -, large, -⟩ := cleared.block
          have inside := (holds.addr_bounds otherIn).2
          rw [hbhdrSize]
          omega
    · intro condition
      obtain ⟨fits, inSegment⟩ := condition _ found
      obtain ⟨heap', ran, cleared⟩ := calloc_cleared holds fits member free enough inSegment found
      exact ⟨heap', _, ran, .inr ⟨by omega, cleared⟩⟩
  · constructor
    · intro _ blk found
      rw [missed] at found
      cases found
    · intro _
      refine ⟨heap, 0, ?_, .inl ⟨rfl, rfl⟩⟩
      rw [calloc_eq, malloc, missed]
      rfl

end

open UserSystem (exampleHeap)

theorem exampleHeap_wellFormed :
    exampleHeap.WellFormed (hbBytes exampleHeap.bytes 0x1000)
      [⟨0x1000, hbBytes exampleHeap.bytes 0x1000, false⟩] [] := by
  have built : heapSetup (fun _ => 0) 0x100 0x110 0x1000 0x150 = some exampleHeap := rfl
  have total : hbBytes exampleHeap.bytes 0x1000 = 1020 := by decide +kernel
  exact UserSystem.start_wellFormed built (by decide) (by decide) (by decide)
    (by rw [total]; decide)

theorem calloc_safe_array :
    ∃ heap' p, calloc exampleHeap 16 16 = .ok (heap', p) ∧
      ((p = 0 ∧ heap' = exampleHeap) ∨
        (p ≠ 0 ∧ Cleared exampleHeap heap' [⟨0x1000, hbBytes exampleHeap.bytes 0x1000, false⟩] []
          ((16 : UInt16).toNat * (16 : UInt16).toNat) p)) := by
  refine (calloc_safe exampleHeap_wellFormed.holds 16 16).mpr fun blk found => ?_
  have first : mallocSearch exampleHeap (roundToWord ((16 : UInt16) * 16).toNat) =
      some (some 0x1000) := by
    decide +kernel
  rw [first] at found
  cases found
  decide

/-- An array of 256 elements of 256 bytes is given a block of no bytes. -/
theorem calloc_wraps :
    ¬ ∀ (heap : UserHeap) (total : Nat) (blocks : List Block) (live : List (Nat × Nat)),
      heap.WellFormed total blocks live → ∀ n size : UInt16, ∃ heap' p,
        calloc heap n size = .ok (heap', p) ∧
          ((p = 0 ∧ heap' = heap) ∨
            (p ≠ 0 ∧ Cleared heap heap' blocks live (n.toNat * size.toNat) p)) := by
  intro claim
  obtain ⟨heap', p, ran, promised⟩ := claim _ _ _ _ exampleHeap_wellFormed 256 256
  have place : (calloc exampleHeap 256 256).value?.map Prod.snd = some 0x1004 := by
    decide +kernel
  have total : hbBytes exampleHeap.bytes 0x1000 = 1020 := by decide +kernel
  rw [ran] at place
  rcases promised with ⟨null, -⟩ | ⟨-, cleared⟩
  · rw [null] at place
    cases place
  · obtain ⟨block, member, -, -, large, -⟩ := cleared.block
    rw [List.mem_singleton.mp member, total] at large
    exact absurd large (by decide)

end Pegasos.Clib
