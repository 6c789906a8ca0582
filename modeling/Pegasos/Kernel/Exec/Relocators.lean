import Pegasos.Kernel.Exec.Relocate

/-!
# Two relocators

The boot loader finds the kernel behind its MZ header in memory and relocates it there.  Its
loop tests the number of entries only after the first one, so a header without relocations has
65536 of them.  `relocators_right_iff` says for which tables this loop and `relocate` both add
the load segment to the words that the table names, and to no others.
-/

namespace Pegasos.Kernel.Exec

open Pegasos.Support
open Pegasos.Kernel.Memory

/-! ## The fix-up loop of the boot loader -/

namespace Exehdr

/-- The offsets of the fields of `exehdr`. -/
def nreloc : Nat := 6
def hdrpara : Nat := 8
def reloc : Nat := 24

end Exehdr

/-- Load a word. -/
def loadWord (bytes : Bytes) (ptr : FarPtr) : Outcome Nat :=
  (wordAddr ptr).bind fun addr => .ok (peek bytes addr)

/-- `fixup`.  The instruction `loop` counts `cx` down and then tests it. -/
def fixupLoop (ds bx dx : Nat) : Nat → Nat → Nat → Bytes → Outcome Bytes
  | 0, _, _, _ => .hang
  | fuel + 1, cx, si, bytes =>
      (loadWord bytes ⟨ds, si⟩).bind fun di =>
      (loadWord bytes ⟨ds, (si + 2) % 0x10000⟩).bind fun ax =>
        let es := (ax + bx) % 0x10000
        (wordAddr ⟨es, di⟩).bind fun addr =>
          let bytes := poke bytes addr (peek bytes addr + dx)
          let cx := sub16 cx 1
          if cx = 0 then .ok bytes else fixupLoop ds bx dx fuel cx ((si + 4) % 0x10000) bytes

/-- The relocation of the kernel, with the header at `ds:0` and the load segment in `dx`. -/
def fixup (ds dx : Nat) (bytes : Bytes) : Outcome Bytes :=
  (loadWord bytes ⟨ds, Exehdr.hdrpara⟩).bind fun hdrpara =>
  (loadWord bytes ⟨ds, Exehdr.nreloc⟩).bind fun cx =>
  (loadWord bytes ⟨ds, Exehdr.reloc⟩).bind fun si =>
    fixupLoop ds ((ds + hdrpara) % 0x10000) dx 0x10000 cx si bytes

section Loop

variable {ds bx dx si cx fuel : Nat} {bytes : Bytes} {entry : RelocEntry}
variable {entries : List RelocEntry}

theorem klinear_eq (seg offs : Nat) : klinear ⟨seg, offs⟩ = PARASIZE * seg + offs := by
  rw [klinear, Nat.shiftLeft_eq, PARASIZE, Nat.mul_comm]

theorem loadWord_eq {offs : Nat} (small : offs < 0xffff) :
    loadWord bytes ⟨ds, offs⟩ = .ok (peek bytes (PARASIZE * ds + offs)) := by
  rw [loadWord, wordAddr, if_neg small.ne, Outcome.bind_ok, klinear_eq]

/-- One turn, for an entry of the table. -/
theorem fixupLoop_turn (offs : peek bytes (PARASIZE * ds + si) = entry.offs.toNat)
    (seg : peek bytes (PARASIZE * ds + si + 2) = entry.seg.toNat) (segment : si + 4 ≤ 0x10000)
    (inside : PARASIZE * bx + entry.target < 0x100000) :
    fixupLoop ds bx dx (fuel + 1) cx si bytes =
      if entry.offs = 0xffff then .panic "exception 13"
      else
        if sub16 cx 1 = 0 then .ok (addAt dx bytes (PARASIZE * bx + entry.target))
        else fixupLoop ds bx dx fuel (sub16 cx 1) ((si + 4) % 0x10000)
          (addAt dx bytes (PARASIZE * bx + entry.target)) := by
  have next : (si + 2) % 0x10000 = si + 2 := Nat.mod_eq_of_lt (by omega)
  have linear : klinear ⟨(entry.seg.toNat + bx) % 0x10000, entry.offs.toNat⟩ =
      PARASIZE * bx + entry.target := by
    rw [klinear_eq]
    unfold RelocEntry.target PARASIZE at *
    omega
  have last : entry.offs.toNat = 0xffff ↔ entry.offs = 0xffff :=
    @UInt16.toNat_inj entry.offs 0xffff
  rw [fixupLoop, loadWord_eq (by omega), next, loadWord_eq (by omega), Outcome.bind_ok,
    Outcome.bind_ok, ← Nat.add_assoc, offs, seg]
  simp only [wordAddr, last, linear]
  split
  · rfl
  · rw [Outcome.bind_ok, ← addAt]

/-- One turn, for a word at the end of a segment. -/
theorem fixupLoop_last (behind : peek bytes (PARASIZE * ds + si) = 0xffff) (low : si < 0xfffd)
    (enough : 0 < fuel) : fixupLoop ds bx dx fuel cx si bytes = .panic "exception 13" := by
  obtain ⟨fuel, rfl⟩ : ∃ more, fuel = more + 1 := ⟨fuel - 1, by omega⟩
  have next : (si + 2) % 0x10000 = si + 2 := Nat.mod_eq_of_lt (by omega)
  rw [fixupLoop, loadWord_eq (by omega), next, loadWord_eq (by omega), behind]
  rfl

/-- The loop stops at a word at the end of a segment; otherwise it makes all additions. -/
theorem fixupLoop_spec (some : entries ≠ []) (short : entries.length < 0x10000)
    (enough : entries.length ≤ fuel) (table : TableAt bytes (PARASIZE * ds + si) entries)
    (segment : si + 4 * entries.length ≤ 0x10000)
    (inside : ∀ entry ∈ entries, PARASIZE * bx + entry.target < 0x100000)
    (behind : ∀ entry ∈ entries,
      PARASIZE * ds + si + 4 * entries.length ≤ PARASIZE * bx + entry.target) :
    (∃ entry ∈ entries, entry.offs = 0xffff) ∧
        fixupLoop ds bx dx fuel entries.length si bytes = .panic "exception 13" ∨
      (∀ entry ∈ entries, entry.offs ≠ 0xffff) ∧
        fixupLoop ds bx dx fuel entries.length si bytes =
          .ok (addAll dx bytes (entries.map fun entry => PARASIZE * bx + entry.target)) := by
  induction entries generalizing fuel si bytes with
  | nil => exact absurd rfl some
  | cons entry entries ih =>
      obtain ⟨offs, seg, rest⟩ := table
      rw [List.length_cons] at *
      obtain ⟨fuel, rfl⟩ : ∃ more, fuel = more + 1 := ⟨fuel - 1, by omega⟩
      have left : sub16 (entries.length + 1) 1 = entries.length := by
        rw [sub16_of_le (by omega) (by omega)]
        omega
      rw [fixupLoop_turn offs seg (by omega) (inside entry List.mem_cons_self), left]
      by_cases last : entry.offs = 0xffff
      · exact .inl ⟨⟨entry, List.mem_cons_self, last⟩, if_pos last⟩
      rw [if_neg last, List.map_cons, addAll_cons]
      by_cases isNil : entries = []
      · subst isNil
        refine .inr ⟨?_, rfl⟩
        intro other member
        rwa [List.mem_singleton.mp member]
      have more : entries.length ≠ 0 := fun zero => isNil (List.length_eq_zero_iff.mp zero)
      have next : (si + 4) % 0x10000 = si + 4 := Nat.mod_eq_of_lt (by omega)
      have away := behind entry List.mem_cons_self
      rw [if_neg more, next]
      have further := @ih (si + 4) fuel (addAt dx bytes (PARASIZE * bx + entry.target)) isNil
        (by omega) (by omega)
        (by
          rw [← Nat.add_assoc]
          exact rest.copy fun i small => addAt_apart (by omega))
        (by omega) (fun later member => inside later (List.mem_cons_of_mem _ member))
        fun later member => by
          have := behind later (List.mem_cons_of_mem _ member)
          omega
      rcases further with ⟨⟨other, member, ends⟩, stops⟩ | ⟨none, ran⟩
      · exact .inl ⟨⟨other, List.mem_cons_of_mem _ member, ends⟩, stops⟩
      · exact .inr ⟨List.forall_mem_cons.mpr ⟨last, none⟩, ran⟩

end Loop

/-! ## What the relocators are for -/

/-- An image as the boot loader finds it: the header of `paras` paragraphs at `ds:0`, the table
in the same segment, and the image behind the header. -/
structure BootImage (bytes : Bytes) (ds paras start size : Nat) (entries : List RelocEntry) :
    Prop where
  nreloc : peek bytes (PARASIZE * ds + Exehdr.nreloc) = entries.length
  hdrpara : peek bytes (PARASIZE * ds + Exehdr.hdrpara) = paras
  reloc : peek bytes (PARASIZE * ds + Exehdr.reloc) = start
  table : TableAt bytes (PARASIZE * ds + start) entries
  header : start + 4 * entries.length ≤ PARASIZE * paras
  segment : start + 4 * entries.length ≤ 0x10000
  conventional : PARASIZE * (ds + paras) + size ≤ 0x100000

/-- An image as `exec` leaves it for `relocate`: the image in a block of the far heap with room
for the buffer next to it, and the table in the file. -/
structure ExecImage (memory : FarMemory) (exe : ExeFile) (hdr : ExeHdr) (ptr : FarPtr)
    (topseg size : Nat) (blocks : List Block) (live : List (FarPtr × Nat))
    (entries : List RelocEntry) : Prop where
  heap : memory.heap.WellFormed topseg blocks live
  block : ∃ alloc, (ptr, alloc) ∈ live ∧ size ≤ alloc
  room : ∃ heap buffer, kmalloc memory.heap (RELOC_BUF * 2 * 2) = .ok (heap, some buffer)
  nreloc : hdr.nreloc.toNat = entries.length
  table : TableAt exe.bytes hdr.reloc.toNat entries
  file : hdr.reloc.toNat + 4 * entries.length ≤ exe.length

/-- `fixup` adds the load segment to the words of a table, wherever the image is. -/
def FixupRight (entries : List RelocEntry) (size : Nat) : Prop :=
  ∀ bytes ds dx paras start, BootImage bytes ds paras start size entries →
    fixup ds dx bytes = .ok (addAll dx bytes
      (entries.map fun entry => PARASIZE * (ds + paras) + entry.target))

/-- `relocate` adds the load segment to the words of a table, wherever the image is. -/
def RelocateRight (entries : List RelocEntry) (size : Nat) : Prop :=
  ∀ memory exe hdr ptr topseg blocks live,
    ExecImage memory exe hdr ptr topseg size blocks live entries →
    ∃ result blocks', relocate memory exe hdr ⟨ptr.seg + 1, 0⟩ = .ok result ∧ result.err = 0 ∧
      result.memory.heap.WellFormed topseg blocks' live ∧
      ∀ owner ∈ live, ∀ i < owner.2, result.memory.bytes (klinear owner.1 + i) =
        addAll (ptr.seg + 1) memory.bytes (entries.map fun entry => klinear ptr + entry.target)
          (klinear owner.1 + i)

/-- Both relocators do what the table says. -/
def RelocatorsRight (entries : List RelocEntry) (size : Nat) : Prop :=
  RelocateRight entries size ∧ FixupRight entries size

/-- An entry that both relocators add to where it says. -/
def RelocEntry.Reached (entry : RelocEntry) : Prop :=
  entry.seg < 0x1000 ∧ entry.target % 0x10000 ≠ 0xffff ∧ entry.offs ≠ 0xffff

instance (entry : RelocEntry) : Decidable entry.Reached :=
  inferInstanceAs (Decidable (_ ∧ _ ∧ _))

theorem RelocEntry.lin_mod (entry : RelocEntry) :
    entry.lin % 0x10000 = entry.target % 0x10000 := by
  simp only [lin, target, PARASHIFT, PARASIZE, Nat.shiftLeft_eq]
  omega

/-! ## The two relocators on their images -/

section Images

variable {ds dx paras start size topseg : Nat} {bytes : Bytes} {entries : List RelocEntry}
variable {memory : FarMemory} {exe : ExeFile} {hdr : ExeHdr} {ptr : FarPtr}
variable {blocks : List Block} {live : List (FarPtr × Nat)}

/-- The loader's image, for a table that is not empty. -/
theorem fixup_spec (image : BootImage bytes ds paras start size entries) (some : entries ≠ [])
    (inside : ∀ entry ∈ entries, entry.target + 2 ≤ size) (short : entries.length < 0x10000) :
    (∃ entry ∈ entries, entry.offs = 0xffff) ∧ fixup ds dx bytes = .panic "exception 13" ∨
      (∀ entry ∈ entries, entry.offs ≠ 0xffff) ∧ fixup ds dx bytes = .ok (addAll dx bytes
        (entries.map fun entry => PARASIZE * (ds + paras) + entry.target)) := by
  have conventional := image.conventional
  have header := image.header
  have bx : (ds + paras) % 0x10000 = ds + paras := by
    obtain ⟨entry, member⟩ := List.exists_mem_of_ne_nil _ some
    have := inside entry member
    unfold PARASIZE at conventional
    omega
  rw [fixup, loadWord_eq (by decide), loadWord_eq (by decide), loadWord_eq (by decide),
    image.hdrpara, image.nreloc, image.reloc]
  simp only [Outcome.bind_ok, bx]
  refine fixupLoop_spec some short short.le image.table image.segment ?_ ?_
  · intro entry member
    have := inside entry member
    omega
  · intro entry member
    rw [Nat.mul_add]
    omega

/-- An image without relocations is searched for the first one. -/
theorem fixup_empty (image : BootImage bytes ds paras start size [])
    (behind : peek bytes (PARASIZE * ds + start) = 0xffff) (low : start < 0xfffd) :
    fixup ds dx bytes = .panic "exception 13" := by
  rw [fixup, loadWord_eq (by decide), loadWord_eq (by decide), loadWord_eq (by decide),
    image.hdrpara, image.nreloc, image.reloc, Outcome.bind_ok, Outcome.bind_ok, Outcome.bind_ok]
  exact fixupLoop_last behind low (by omega)

/-- The kernel's image. -/
theorem relocate_image (image : ExecImage memory exe hdr ptr topseg size blocks live entries)
    (inside : ∀ entry ∈ entries, entry.target + 2 ≤ size) :
    (∃ entry ∈ entries, entry.Straddles) ∧
        relocate memory exe hdr ⟨ptr.seg + 1, 0⟩ = .panic "exception 13" ∨
      (∀ entry ∈ entries, ¬entry.Straddles) ∧ ∃ result blocks',
        relocate memory exe hdr ⟨ptr.seg + 1, 0⟩ = .ok result ∧ result.err = 0 ∧
        result.memory.heap.WellFormed topseg blocks' live ∧
        ∀ owner ∈ live, ∀ i < owner.2, result.memory.bytes (klinear owner.1 + i) =
          addAll (ptr.seg + 1) memory.bytes (entries.map fun entry => klinear ptr + entry.lin)
            (klinear owner.1 + i) := by
  obtain ⟨alloc, member, enough⟩ := image.block
  have linear := klinear_live image.heap member
  have data : klinear ⟨ptr.seg + 1, 0⟩ = klinear ptr := by
    rw [klinear_eq]
    exact linear.symm
  have words : WordsInside ⟨ptr.seg + 1, 0⟩ (ptr, alloc) entries := by
    intro entry inEntries
    have := inside entry inEntries
    have := entry.lin_le_target
    unfold RelocEntry.place
    rw [data]
    dsimp only at linear ⊢
    omega
  have spec := relocate_spec rfl image.heap member image.room words image.nreloc image.table
    image.file
  simpa only [RelocEntry.place, data] using spec

end Images

/-! ## Images for any table -/

/-- A table laid out in a memory. -/
def layTable (bytes : Bytes) : Nat → List RelocEntry → Bytes
  | _, [] => bytes
  | addr, entry :: entries =>
      poke (poke (layTable bytes (addr + 4) entries) addr entry.offs.toNat) (addr + 2)
        entry.seg.toNat

/-- The size of an MZ header without its table. -/
def MZ_HEADER : Nat := 28

/-- The paragraphs of a header with a table. -/
def headerParas (entries : List RelocEntry) : Nat := roundToPara (MZ_HEADER + 4 * entries.length)

/-- A memory that begins with a header and a table. -/
def bootBytes (bytes : Bytes) (entries : List RelocEntry) : Bytes :=
  layTable
    (poke (poke (poke bytes Exehdr.nreloc entries.length) Exehdr.hdrpara (headerParas entries))
      Exehdr.reloc MZ_HEADER) MZ_HEADER entries

/-- A header for a table behind it. -/
def tableHdr (entries : List RelocEntry) : ExeHdr where
  extra := 0
  pages := 0
  nreloc := UInt16.ofNat entries.length
  hdrpara := UInt16.ofNat (headerParas entries)
  minaloc := 0
  reloc := UInt16.ofNat MZ_HEADER

/-- A file with a table. -/
def tableFile (entries : List RelocEntry) : ExeFile where
  bytes := layTable (fun _ => 0) MZ_HEADER entries
  length := MZ_HEADER + 4 * entries.length
  offset := 0

section Instances

variable {bytes : Bytes} {addr other size : Nat} {entries : List RelocEntry}

theorem layTable_before (before : other < addr) :
    layTable bytes addr entries other = bytes other := by
  induction entries generalizing addr with
  | nil => rfl
  | cons entry entries ih =>
      rw [layTable, poke_apart (by omega), poke_apart (by omega), ih (by omega)]

theorem peek_layTable (before : other + 1 < addr) :
    peek (layTable bytes addr entries) other = peek bytes other := by
  rw [peek, peek, layTable_before (by omega), layTable_before before]

theorem layTable_table : TableAt (layTable bytes addr entries) addr entries := by
  induction entries generalizing addr with
  | nil => trivial
  | cons entry entries ih =>
      refine ⟨?_, ?_, (@ih (addr + 4)).copy fun i _ => ?_⟩
      · rw [layTable, peek_poke_apart (by omega), peek_poke_self,
          Nat.mod_eq_of_lt entry.offs.toNat_lt]
      · rw [layTable, peek_poke_self, Nat.mod_eq_of_lt entry.seg.toNat_lt]
      · rw [layTable, poke_apart (by omega), poke_apart (by omega)]

theorem headerParas_eq : headerParas entries = (43 + 4 * entries.length) / 16 := by
  rw [headerParas, roundToPara, PARASIZE, PARASHIFT, Nat.shiftRight_eq_div_pow, MZ_HEADER]
  omega

/-- There is an image for the loader with any table and any size. -/
theorem bootImage (fits : size ≤ 0x9E000) (short : MZ_HEADER + 4 * entries.length ≤ 0x10000) :
    BootImage (bootBytes bytes entries) 0 (headerParas entries) MZ_HEADER size entries := by
  have paras : headerParas entries = (43 + 4 * entries.length) / 16 := headerParas_eq
  have header : MZ_HEADER = 28 := rfl
  have count : entries.length % 0x10000 = entries.length := Nat.mod_eq_of_lt (by omega)
  refine ⟨?_, ?_, ?_, ?_, ?_, short, ?_⟩
  · rw [bootBytes, peek_layTable (by decide), Nat.mul_zero, Nat.zero_add,
      peek_poke_apart (by decide), peek_poke_apart (by decide), peek_poke_self, count]
  · rw [bootBytes, peek_layTable (by decide), Nat.mul_zero, Nat.zero_add,
      peek_poke_apart (by decide), peek_poke_self]
    omega
  · rw [bootBytes, peek_layTable (by decide), Nat.mul_zero, Nat.zero_add, peek_poke_self]
    rfl
  · rw [Nat.mul_zero, Nat.zero_add]
    exact layTable_table
  · unfold PARASIZE
    omega
  · unfold PARASIZE
    omega

/-- A heap with a block of any size at the segment 0x0100 and room behind it. -/
theorem exists_heap (fits : size ≤ 0x9E000) : ∃ (heap : FarHeap) (blocks : List Block),
    heap.WellFormed 0xA000 blocks [(⟨0x0100, PARASIZE⟩, size)] ∧
      ∃ block ∈ blocks, block.used = false ∧ RELOC_BUF * 2 * 2 ≤ 16 * block.size := by
  have start : (memInit (fun _ => ⟨0, 0, 0⟩) 0x0100 0xA000).WellFormed 0xA000
      ([] ++ ⟨0x0100, 0xA000 - 0x0100 - 1, false⟩ :: []) [] :=
    FarSystem.start_wellFormed (by decide) (by decide) (by decide)
  have larger : (size + 15) / 16 + 1 < 0xA000 - 0x0100 - 1 := by omega
  have split := start.split rfl larger (show size ≤ 16 * ((size + 15) / 16) by omega)
  refine ⟨_, _, split, _, List.mem_append_left _ (List.mem_cons_of_mem _ List.mem_cons_self),
    rfl, ?_⟩
  unfold RELOC_BUF
  dsimp only
  omega

/-- There is an image for the kernel with any table, any size and any contents, and the load
segment 0x0101. -/
theorem exists_execImage (fits : size ≤ 0x9E000)
    (short : MZ_HEADER + 4 * entries.length ≤ 0x10000) (bytes : Bytes) :
    ∃ memory exe hdr topseg blocks live,
      ExecImage memory exe hdr ⟨0x0100, PARASIZE⟩ topseg size blocks live entries ∧
        memory.bytes = bytes ∧ (⟨0x0100, PARASIZE⟩, size) ∈ live := by
  have header : MZ_HEADER = 28 := rfl
  obtain ⟨heap, blocks, wellFormed, block, member, free, room⟩ := exists_heap fits
  refine ⟨⟨heap, bytes⟩, tableFile entries, tableHdr entries, 0xA000, blocks, _,
    ⟨wellFormed, ⟨size, List.mem_cons_self, le_rfl⟩, ?_, ?_, layTable_table, le_rfl⟩, rfl,
    List.mem_cons_self⟩
  · exact (kmalloc_some_iff wellFormed _).mpr ⟨by decide, block, member, free, room⟩
  · rw [tableHdr, UInt16.toNat_ofNat']
    omega

end Instances

/-! ## The tables that both relocators are right for -/

section Right

variable {entries : List RelocEntry} {size : Nat}

theorem RelocEntry.lin_eq_target_iff (entry : RelocEntry) :
    entry.lin = entry.target ↔ entry.seg < 0x1000 := by
  have le := entry.lin_le_target
  have lt := entry.lin_lt_target_iff
  rw [UInt16.lt_iff_toNat_lt, show (0x1000 : UInt16).toNat = 0x1000 from rfl]
  omega

theorem relocateRight_of_reached (inside : ∀ entry ∈ entries, entry.target + 2 ≤ size)
    (reached : ∀ entry ∈ entries, entry.Reached) : RelocateRight entries size := by
  intro memory exe hdr ptr topseg blocks live image
  rcases relocate_image image inside with ⟨⟨entry, member, ends⟩, -⟩ | ⟨-, spec⟩
  · exact absurd (entry.lin_mod.symm.trans ends) (reached entry member).2.1
  · have same : entries.map (fun entry => klinear ptr + entry.lin) =
        entries.map fun entry => klinear ptr + entry.target :=
      List.map_congr_left fun entry member => by
        rw [entry.lin_eq_target_iff.mpr (reached entry member).1]
    rwa [same] at spec

/-- A memory that tells the positions of the words from those that `relocate` computes. -/
theorem reached_of_relocateRight (inside : ∀ entry ∈ entries, entry.target + 2 ≤ size)
    (fits : size ≤ 0x9E000) (short : MZ_HEADER + 4 * entries.length ≤ 0x10000)
    (right : RelocateRight entries size) :
    ∀ entry ∈ entries, entry.seg < 0x1000 ∧ entry.target % 0x10000 ≠ 0xffff := by
  -- whatever the contents of the image are, there is no exception
  have runs : ∀ bytes : Bytes, (∀ entry ∈ entries, ¬entry.Straddles) ∧ ∀ i < size,
      addAll 0x0101 bytes (entries.map fun entry => 0x1010 + entry.target) (0x1010 + i) =
        addAll 0x0101 bytes (entries.map fun entry => 0x1010 + entry.lin) (0x1010 + i) := by
    intro bytes
    obtain ⟨memory, exe, hdr, topseg, blocks, live, image, rfl, member⟩ :=
      exists_execImage fits short bytes
    obtain ⟨result, blocks', ran, -, -, wanted⟩ := right _ _ _ _ _ _ _ image
    rcases relocate_image image inside with ⟨-, stops⟩ | ⟨none, result', -, ran', -, -, found⟩
    · rw [stops] at ran
      exact nomatch ran
    · rw [ran'] at ran
      obtain rfl := Outcome.ok.inj ran
      exact ⟨none, fun i small => (wanted _ member i small).symm.trans (found _ member i small)⟩
  have low : ∀ entry ∈ entries, entry.seg < 0x1000 := by
    by_contra high
    simp only [not_forall] at high
    obtain ⟨entry, member, isHigh⟩ := high
    obtain ⟨bytes, place, isPlace, differs⟩ := @exists_addAll_ne
      (entries.map fun entry => (0x1010 + entry.target, 0x1010 + entry.lin))
      (by
        have header : MZ_HEADER = 28 := rfl
        rw [List.length_map]
        omega)
      (by
        intro move inMoves
        obtain ⟨entry, -, rfl⟩ := List.mem_map.mp inMoves
        exact Nat.add_le_add_left entry.lin_le_target _)
      (by
        refine ⟨_, List.mem_map_of_mem member, ?_⟩
        have := entry.lin_le_target
        have : entry.lin ≠ entry.target := fun same => isHigh (entry.lin_eq_target_iff.mp same)
        dsimp only
        omega)
    simp only [List.map_map] at isPlace differs
    obtain ⟨other, inEntries, rfl⟩ := List.mem_map.mp isPlace
    have small := inside other inEntries
    exact differs ((runs bytes).2 (other.target + 1) (by omega))
  exact fun entry member => ⟨low entry member, fun ends =>
    (runs fun _ => 0).1 entry member (entry.lin_mod.trans ends)⟩

theorem fixupRight_of_reached (inside : ∀ entry ∈ entries, entry.target + 2 ≤ size)
    (short : MZ_HEADER + 4 * entries.length ≤ 0x10000) (some : entries ≠ [])
    (reached : ∀ entry ∈ entries, entry.Reached) : FixupRight entries size := by
  intro bytes ds dx paras start image
  have header : MZ_HEADER = 28 := rfl
  rcases @fixup_spec ds dx _ _ _ _ _ image some inside (by omega) with
    ⟨⟨entry, member, ends⟩, -⟩ | ⟨-, ran⟩
  · exact absurd ends (reached entry member).2.2
  · exact ran

theorem not_fixupRight_nil (fits : size ≤ 0x9E000) : ¬FixupRight [] size := by
  intro right
  have image := @bootImage (fun _ => 0xff) size [] fits (by decide)
  have stops := @fixup_empty 0 0 _ _ _ _ image (by decide) (by decide)
  have ran := right _ _ 0 _ _ image
  rw [stops] at ran
  exact nomatch ran

theorem reached_of_fixupRight (inside : ∀ entry ∈ entries, entry.target + 2 ≤ size)
    (fits : size ≤ 0x9E000) (short : MZ_HEADER + 4 * entries.length ≤ 0x10000)
    (right : FixupRight entries size) :
    entries ≠ [] ∧ ∀ entry ∈ entries, entry.offs ≠ 0xffff := by
  have some : entries ≠ [] := by
    rintro rfl
    exact not_fixupRight_nil fits right
  refine ⟨some, ?_⟩
  have header : MZ_HEADER = 28 := rfl
  have image := @bootImage (fun _ => 0) size entries fits short
  rcases @fixup_spec 0 0 _ _ _ _ _ image some inside (by omega) with ⟨-, stops⟩ | ⟨none, -⟩
  · have ran := right _ _ 0 _ _ image
    rw [stops] at ran
    exact nomatch ran
  · exact none

/-- Both relocators are right for the tables with an entry at least whose segments are below
0x1000 and whose words are not at the end of a segment.  The kernel is loaded at 0x0200:0, so
no image has more bytes than there are from there to the end of conventional memory. -/
theorem relocators_right_iff (inside : ∀ entry ∈ entries, entry.target + 2 ≤ size)
    (fits : size ≤ 0x9E000) (short : MZ_HEADER + 4 * entries.length ≤ 0x10000) :
    RelocatorsRight entries size ↔ entries ≠ [] ∧ ∀ entry ∈ entries, entry.Reached := by
  constructor
  · rintro ⟨kernel, loader⟩
    have low := reached_of_relocateRight inside fits short kernel
    obtain ⟨some, whole⟩ := reached_of_fixupRight inside fits short loader
    exact ⟨some, fun entry member =>
      ⟨(low entry member).1, (low entry member).2, whole entry member⟩⟩
  · rintro ⟨some, reached⟩
    exact ⟨relocateRight_of_reached inside reached,
      fixupRight_of_reached inside short some reached⟩

/-- The word at the beginning of the second 64K of an image, named twice. -/
theorem relocators_right_iff_twice :
    RelocatorsRight [⟨0x0010, 0x0fff⟩, ⟨0x0010, 0x0fff⟩] 0x10010 ↔
      ([⟨0x0010, 0x0fff⟩, ⟨0x0010, 0x0fff⟩] : List RelocEntry) ≠ [] ∧
        ∀ entry ∈ ([⟨0x0010, 0x0fff⟩, ⟨0x0010, 0x0fff⟩] : List RelocEntry), entry.Reached :=
  relocators_right_iff (by decide) (by decide) (by decide)

/-- The loader fails on a table without entries, and the kernel on the same word of the second
64K with another segment. -/
theorem relocators_wrong :
    ¬RelocatorsRight [] 0x10010 ∧ ¬RelocatorsRight [⟨0x0000, 0x1000⟩] 0x10010 := by
  constructor
  · rintro ⟨-, loader⟩
    exact not_fixupRight_nil (by decide) loader
  · rintro ⟨kernel, -⟩
    have low := reached_of_relocateRight (by decide) (by decide) (by decide) kernel
    exact absurd (low _ List.mem_cons_self).1 (by decide)

end Right

end Pegasos.Kernel.Exec
