import Pegasos.Kernel.Exec.ReadImage
import Pegasos.Support.WordSums

/-!
# Relocating the image of a program

`relocate` reads the relocation table in buffers of 32 entries and adds the load segment to
the words that the entries name.  The position of a word is computed with a shift of 16 bits.
-/

namespace Pegasos.Kernel.Exec

open Pegasos.Support
open Pegasos.Kernel.Memory
open Pegasos.Kernel.Files (ENOMEM)
open Pegasos.Kernel

def RELOC_BUF : Nat := 32

/-! ## Words behind far pointers -/

/-- The address of a word.  A word at the last byte of a segment raises an exception, for
which there is no handler. -/
def wordAddr (ptr : FarPtr) : Outcome Nat :=
  if ptr.offs = 0xffff then .panic "exception 13" else .ok (klinear ptr)

/-- A `__far` pointer `n` bytes further on. -/
def farAdd (ptr : FarPtr) (n : Nat) : FarPtr := { ptr with offs := (ptr.offs + n) % 0x10000 }

namespace FarMemory

variable (memory : FarMemory)

/-- Load a word. -/
def word (ptr : FarPtr) : Outcome Nat :=
  (wordAddr ptr).bind fun addr => .ok (peek memory.bytes addr)

/-- Store a word at an address. -/
def storeWord (addr word : Nat) : FarMemory :=
  memory.store addr 2 fun i => if i = 0 then UInt8.ofNat word else UInt8.ofNat (word / 0x100)

/-- Add to a word. -/
def addWord (ptr : FarPtr) (word : Nat) : Outcome FarMemory :=
  (wordAddr ptr).bind fun addr => .ok (memory.storeWord addr (peek memory.bytes addr + word))

theorem storeWord_bytes (addr word : Nat) :
    (memory.storeWord addr word).bytes = poke memory.bytes addr word := by
  funext other
  simp only [storeWord, store, stored, poke]
  by_cases low : other = addr
  · simp [low]
  by_cases high : other = addr + 1
  · simp [high]
  · have outside : ¬(addr ≤ other ∧ other < addr + 2) := by omega
    simp only [outside, low, high, if_false, Option.getD_none]

end FarMemory

/-! ## The relocator -/

/-- The inner loop of `relocate`, from entry `i` of the buffer on. -/
def fixEntries (data reloc : FarPtr) : Nat → Nat → FarMemory → Outcome FarMemory
  | 0, _, memory => .ok memory
  | left + 1, i, memory =>
      (memory.word (farAdd reloc (2 * (2 * i)))).bind fun offs =>
      (memory.word (farAdd reloc (2 * (2 * i + 1)))).bind fun seg =>
        -- the segment is shifted before it is widened
        let lin := (seg <<< PARASHIFT) % 0x10000
        let lin := lin + offs
        (memory.addWord (hugeAdd data lin) data.seg).bind fun memory =>
          fixEntries data reloc left (i + 1) memory

/-- The outer loop of `relocate`; its result tells whether the table has been read. -/
def relocLoop (data reloc : FarPtr) : Nat → Nat → FarMemory → ExeFile →
    Outcome (Bool × FarMemory × ExeFile)
  | 0, _, _, _ => .hang
  | fuel + 1, left, memory, file =>
      if left = 0 then .ok (true, memory, file)
      else
        let nreloc := min RELOC_BUF left
        let sz := nreloc * 2 * 2
        let (got, memory, file) := kread memory file reloc sz
        if got ≠ sz then .ok (false, memory, file)
        else
          (fixEntries data reloc nreloc 0 memory).bind fun memory =>
            relocLoop data reloc fuel (left - nreloc) memory file

/-- What `relocate` returns and leaves behind. -/
structure RelocateResult where
  err : Int
  memory : FarMemory
  file : ExeFile

/-- `relocate`. -/
def relocate (memory : FarMemory) (file : ExeFile) (hdr : ExeHdr) (data : FarPtr) :
    Outcome RelocateResult :=
  (kmalloc memory.heap (RELOC_BUF * 2 * 2)).bind fun (heap, ptr) =>
    let memory := { memory with heap := heap }
    match ptr with
    | none => .ok ⟨-ENOMEM, memory, file⟩
    | some reloc =>
        (relocLoop data reloc (hdr.nreloc.toNat + 1) hdr.nreloc.toNat memory
            (file.kseek hdr.reloc.toNat)).bind fun (done, memory, file) =>
          (kfree memory.heap reloc).bind fun heap =>
            .ok ⟨if done then 0 else - Fat.EIO, { memory with heap := heap }, file⟩

/-! ## Relocation tables -/

/-- An entry of a relocation table. -/
structure RelocEntry where
  offs : UInt16
  seg : UInt16
  deriving DecidableEq, Repr

/-- The linear position of a word in the image. -/
def RelocEntry.target (entry : RelocEntry) : Nat :=
  PARASIZE * entry.seg.toNat + entry.offs.toNat

/-- The position that `relocate` computes. -/
def RelocEntry.lin (entry : RelocEntry) : Nat :=
  (entry.seg.toNat <<< PARASHIFT) % 0x10000 + entry.offs.toNat

/-- A table in a byte memory or in a file. -/
def TableAt (bytes : Bytes) : Nat → List RelocEntry → Prop
  | _, [] => True
  | addr, entry :: table =>
      peek bytes addr = entry.offs.toNat ∧ peek bytes (addr + 2) = entry.seg.toNat ∧
        TableAt bytes (addr + 4) table

theorem RelocEntry.lin_le_target (entry : RelocEntry) : entry.lin ≤ entry.target := by
  simp only [lin, target, PARASHIFT, PARASIZE, Nat.shiftLeft_eq]
  omega

theorem RelocEntry.lin_lt_target_iff (entry : RelocEntry) :
    entry.lin < entry.target ↔ 0x1000 ≤ entry.seg.toNat := by
  simp only [lin, target, PARASHIFT, PARASIZE, Nat.shiftLeft_eq]
  omega

theorem tableAt_append {bytes : Bytes} {addr : Nat} {front back : List RelocEntry} :
    TableAt bytes addr (front ++ back) ↔
      TableAt bytes addr front ∧ TableAt bytes (addr + 4 * front.length) back := by
  induction front generalizing addr with
  | nil => simp [TableAt]
  | cons entry front ih =>
      have next : addr + 4 + 4 * front.length = addr + 4 * (front.length + 1) := by omega
      simp only [List.cons_append, TableAt, ih, List.length_cons, next, and_assoc]

/-- A copy of a table. -/
theorem TableAt.copy {bytes bytes' : Bytes} {addr addr' : Nat} {table : List RelocEntry}
    (stands : TableAt bytes addr table)
    (same : ∀ i < 4 * table.length, bytes' (addr' + i) = bytes (addr + i)) :
    TableAt bytes' addr' table := by
  induction table generalizing addr addr' with
  | nil => trivial
  | cons entry table ih =>
      obtain ⟨offs, seg, rest⟩ := stands
      rw [List.length_cons] at same
      have word : ∀ i < 3, peek bytes' (addr' + i) = peek bytes (addr + i) := by
        intro i small
        have high : bytes' (addr' + i + 1) = bytes (addr + i + 1) := same (i + 1) (by omega)
        rw [peek, peek, high, same i (by omega)]
      refine ⟨(word 0 (by omega)).trans offs, (word 2 (by omega)).trans seg, ih rest ?_⟩
      intro i small
      have := same (4 + i) (by omega)
      simpa only [Nat.add_assoc] using this

/-! ## The inner loop -/

/-- Where `relocate` adds for an entry. -/
def RelocEntry.place (entry : RelocEntry) (data : FarPtr) : Nat := klinear data + entry.lin

/-- The word that `relocate` adds to is at the end of a segment. -/
def RelocEntry.Straddles (entry : RelocEntry) : Prop := entry.lin % 0x10000 = 0xffff

/-- The additions for the entries of a list. -/
def fixAll (data : FarPtr) : List RelocEntry → FarMemory → Outcome FarMemory
  | [], memory => .ok memory
  | entry :: entries, memory =>
      (memory.addWord (hugeAdd data entry.lin) data.seg).bind (fixAll data entries)

section Inner

variable {data reloc : FarPtr} {entry : RelocEntry} {entries : List RelocEntry}
variable {memory : FarMemory} {i : Nat}

theorem addWord_eq (normal : data.offs = 0) (inside : entry.place data < 0x100000) (word : Nat) :
    memory.addWord (hugeAdd data entry.lin) word =
      if entry.lin % 0x10000 = 0xffff then .panic "exception 13"
      else .ok (memory.storeWord (entry.place data)
        (peek memory.bytes (entry.place data) + word)) := by
  have offs : (hugeAdd data entry.lin).offs = entry.lin % 0x10000 := by
    rw [hugeAdd, normal, Nat.zero_add]
  have linear : klinear (hugeAdd data entry.lin) = entry.place data := klinear_hugeAdd inside
  rw [FarMemory.addWord, wordAddr, offs, linear]
  split <;> rfl

theorem word_farAdd {n : Nat} (small : reloc.offs + n < 0xffff) :
    memory.word (farAdd reloc n) = .ok (peek memory.bytes (klinear reloc + n)) := by
  have offs : (reloc.offs + n) % 0x10000 = reloc.offs + n := Nat.mod_eq_of_lt (by omega)
  have linear : klinear ⟨reloc.seg, reloc.offs + n⟩ = klinear reloc + n := by
    rw [klinear, klinear, Nat.add_assoc]
  rw [FarMemory.word, wordAddr, farAdd, offs, if_neg small.ne, linear, Outcome.bind_ok]

/-- The loop makes the additions for the entries in the buffer, which it does not touch. -/
theorem fixEntries_eq (normal : data.offs = 0)
    (table : TableAt memory.bytes (klinear reloc + 4 * i) entries)
    (fits : reloc.offs + 4 * (i + entries.length) ≤ 0x10000)
    (inside : ∀ entry ∈ entries, entry.place data < 0x100000)
    (apart : ∀ entry ∈ entries, entry.place data + 2 ≤ klinear reloc ∨
      klinear reloc + 4 * (i + entries.length) ≤ entry.place data) :
    fixEntries data reloc entries.length i memory = fixAll data entries memory := by
  induction entries generalizing i memory with
  | nil => rfl
  | cons entry entries ih =>
      obtain ⟨offs, seg, rest⟩ := table
      rw [List.length_cons] at fits apart
      have first : 2 * (2 * i) = 4 * i := by omega
      have second : 2 * (2 * i + 1) = 4 * i + 2 := by omega
      rw [List.length_cons, fixEntries, first, second, word_farAdd (by omega),
        word_farAdd (by omega), Outcome.bind_ok, Outcome.bind_ok, offs, ← Nat.add_assoc, seg]
      have lin : (entry.seg.toNat <<< PARASHIFT) % 0x10000 + entry.offs.toNat = entry.lin := rfl
      simp only [lin, fixAll, addWord_eq normal (inside entry List.mem_cons_self)]
      split
      · rfl
      · rw [Outcome.bind_ok, Outcome.bind_ok]
        have away := apart entry List.mem_cons_self
        refine ih ?_ (by omega) (fun later member => inside later (List.mem_cons_of_mem _ member))
          fun later member => ?_
        · refine (show TableAt memory.bytes (klinear reloc + 4 * (i + 1)) entries from rest).copy
            fun n small => ?_
          rw [FarMemory.storeWord_bytes, poke_apart (by omega)]
        · have := apart later (List.mem_cons_of_mem _ member)
          omega

/-- An addition at the end of a segment raises an exception. -/
theorem fixAll_panic (normal : data.offs = 0)
    (inside : ∀ entry ∈ entries, entry.place data < 0x100000)
    (straddles : ∃ entry ∈ entries, entry.Straddles) :
    fixAll data entries memory = .panic "exception 13" := by
  induction entries generalizing memory with
  | nil => simp at straddles
  | cons entry entries ih =>
      rw [fixAll, addWord_eq normal (inside entry List.mem_cons_self)]
      by_cases head : entry.lin % 0x10000 = 0xffff
      · rw [if_pos head]
        rfl
      · rw [if_neg head, Outcome.bind_ok]
        refine ih (fun later member => inside later (List.mem_cons_of_mem _ member)) ?_
        obtain ⟨other, member, ends⟩ := straddles
        rcases List.mem_cons.mp member with rfl | later
        · exact absurd ends head
        · exact ⟨other, later, ends⟩

variable {topseg : Nat} {blocks : List Block} {live : List (FarPtr × Nat)}
variable {owner : FarPtr × Nat}

/-- The words of a list of entries are inside a payload. -/
def WordsInside (data : FarPtr) (owner : FarPtr × Nat) (entries : List RelocEntry) : Prop :=
  ∀ entry ∈ entries, PARASIZE * (owner.1.seg + 1) ≤ entry.place data ∧
    entry.place data + 2 ≤ PARASIZE * (owner.1.seg + 1) + owner.2

/-- Payloads are in the first megabyte. -/
theorem WordsInside.linear (words : WordsInside data owner entries)
    (wellFormed : memory.heap.WellFormed topseg blocks live) (member : owner ∈ live)
    (inEntries : entry ∈ entries) : entry.place data < 0x100000 := by
  obtain ⟨block, inBlocks, -, address, room⟩ :=
    wellFormed.owned.roomy _ (List.mem_map_of_mem (f := payloadOf) member)
  have bounds := wellFormed.addr_bounds inBlocks
  have bounded := wellFormed.bounded
  have word := words entry inEntries
  simp only [payloadOf, PARASIZE] at address room word
  omega

/-- Other additions leave a well-formed heap. -/
theorem fixAll_ok (normal : data.offs = 0)
    (wellFormed : memory.heap.WellFormed topseg blocks live) (member : owner ∈ live)
    (words : WordsInside data owner entries) (none : ∀ entry ∈ entries, ¬entry.Straddles) :
    ∃ memory', fixAll data entries memory = .ok memory' ∧
      memory'.heap.WellFormed topseg blocks live ∧
      memory'.bytes = addAll data.seg memory.bytes (entries.map fun entry => entry.place data) := by
  induction entries generalizing memory with
  | nil => exact ⟨memory, rfl, wellFormed, rfl⟩
  | cons entry entries ih =>
      obtain ⟨first, last⟩ := words entry List.mem_cons_self
      have linear := words.linear wellFormed member List.mem_cons_self
      have kept := store_payload wellFormed member first last fun i =>
        let word := peek memory.bytes (entry.place data) + data.seg
        if i = 0 then UInt8.ofNat word else UInt8.ofNat (word / 0x100)
      obtain ⟨memory', ran, after, bytes⟩ := ih kept
        (fun later inEntries => words later (List.mem_cons_of_mem _ inEntries))
        (fun later inEntries => none later (List.mem_cons_of_mem _ inEntries))
      refine ⟨memory', ?_, after, ?_⟩
      · have apart : ¬entry.lin % 0x10000 = 0xffff := none entry List.mem_cons_self
        rw [fixAll, addWord_eq normal linear, if_neg apart, Outcome.bind_ok]
        exact ran
      · rw [bytes, List.map_cons, addAll_cons, addAt, ← FarMemory.storeWord_bytes]
        rfl

end Inner

/-! ## The outer loop -/

section Outer

variable {data reloc : FarPtr} {entries : List RelocEntry} {memory : FarMemory}
variable {topseg : Nat} {blocks : List Block} {live : List (FarPtr × Nat)}
variable {owner : FarPtr × Nat}

/-- A byte that is not in the buffer. -/
def OutsideBuffer (reloc : FarPtr) (addr : Nat) : Prop :=
  addr < klinear reloc ∨ klinear reloc + RELOC_BUF * 2 * 2 ≤ addr

/-- The linear address of a pointer from `kmalloc`. -/
theorem klinear_live {heap : FarHeap} (wellFormed : heap.WellFormed topseg blocks live)
    (member : owner ∈ live) : klinear owner.1 = PARASIZE * (owner.1.seg + 1) := by
  have offs := wellFormed.aligned owner member
  simp only [klinear, offs, Nat.shiftLeft_eq, PARASIZE]
  omega

/-- The payloads of two pointers are apart. -/
theorem payloads_apart {heap : FarHeap} {other : FarPtr × Nat}
    (wellFormed : heap.WellFormed topseg blocks live) (member : owner ∈ live)
    (otherMember : other ∈ live) (ne : owner ≠ other) :
    PARASIZE * (owner.1.seg + 1) + owner.2 ≤ klinear other.1 ∨
      klinear other.1 + other.2 ≤ PARASIZE * (owner.1.seg + 1) := by
  have distinct : payloadOf owner ≠ payloadOf other := by
    intro same
    simp only [payloadOf, Prod.mk.injEq, Nat.add_right_cancel_iff] at same
    have offs := (wellFormed.aligned owner member).trans (wellFormed.aligned other otherMember).symm
    obtain ⟨⟨seg, offset⟩, bytes⟩ := owner
    dsimp only at same offs
    rw [same.1, same.2, offs] at ne
    exact ne rfl
  have apart := wellFormed.integrity.disjoint (by decide)
    (List.mem_map_of_mem (f := payloadOf) member)
    (List.mem_map_of_mem (f := payloadOf) otherMember) distinct
  rw [klinear_live wellFormed otherMember]
  simp only [payloadOf, PARASIZE] at apart ⊢
  omega

/-- The outer loop panics for a word at the end of a segment; otherwise it makes all additions,
and no other byte changes but those of the buffer. -/
theorem relocLoop_spec {fuel : Nat} {file : ExeFile} (normal : data.offs = 0)
    (enough : entries.length < fuel) (wellFormed : memory.heap.WellFormed topseg blocks live)
    (buffer : (reloc, RELOC_BUF * 2 * 2) ∈ live) (member : owner ∈ live)
    (ne : owner ≠ (reloc, RELOC_BUF * 2 * 2)) (words : WordsInside data owner entries)
    (table : TableAt file.bytes file.offset entries)
    (long : file.offset + 4 * entries.length ≤ file.length) :
    (∃ entry ∈ entries, entry.Straddles) ∧
        relocLoop data reloc fuel entries.length memory file = .panic "exception 13" ∨
      (∀ entry ∈ entries, ¬entry.Straddles) ∧ ∃ memory' file',
        relocLoop data reloc fuel entries.length memory file = .ok (true, memory', file') ∧
        memory'.heap.WellFormed topseg blocks live ∧
        ∀ addr, OutsideBuffer reloc addr → memory'.bytes addr =
          addAll data.seg memory.bytes (entries.map fun entry => entry.place data) addr := by
  induction fuel generalizing entries memory file with
  | zero => omega
  | succ fuel ih =>
      rw [relocLoop]
      by_cases isNil : entries.length = 0
      · obtain rfl := List.length_eq_zero_iff.mp isNil
        exact .inr ⟨by simp, memory, file, rfl, wellFormed, fun _ _ => rfl⟩
      rw [if_neg isNil]
      have size : RELOC_BUF = 32 := rfl
      obtain ⟨nreloc, isCount⟩ : ∃ nreloc, nreloc = min RELOC_BUF entries.length := ⟨_, rfl⟩
      -- the entries of this buffer, and the others
      obtain ⟨front, back, rfl, count⟩ :
          ∃ front back, entries = front ++ back ∧ front.length = nreloc :=
        ⟨entries.take nreloc, entries.drop nreloc, (List.take_append_drop _ _).symm, by
          rw [List.length_take]
          omega⟩
      rw [List.length_append] at isNil isCount enough long
      obtain ⟨first, rest⟩ := tableAt_append.mp table
      have linear := klinear_live wellFormed buffer
      have all : file.got (nreloc * 2 * 2) = nreloc * 2 * 2 := Nat.min_eq_left (by omega)
      have left : (front ++ back).length - nreloc = back.length := by
        rw [List.length_append]
        omega
      rw [List.length_append] at left
      simp only [List.length_append, ← isCount, kread, all, ne_eq, not_true_eq_false, if_false,
        left]
      obtain ⟨read, isRead⟩ : ∃ read, read = memory.store (klinear reloc) (nreloc * 2 * 2)
        fun i => file.bytes (file.offset + i) := ⟨_, rfl⟩
      rw [← isRead]
      have filled : read.heap.WellFormed topseg blocks live := by
        rw [isRead]
        exact store_payload wellFormed buffer linear.ge (by rw [linear]; dsimp only; omega) _
      have apart : ∀ entry ∈ front ++ back, entry.place data + 2 ≤ klinear reloc ∨
          klinear reloc + RELOC_BUF * 2 * 2 ≤ entry.place data := by
        intro entry inEntries
        have word := words entry inEntries
        have := payloads_apart wellFormed member buffer ne
        dsimp only at this
        omega
      have wordsFront : WordsInside data owner front :=
        fun entry inFront => words entry (List.mem_append_left _ inFront)
      have wordsBack : WordsInside data owner back :=
        fun entry inBack => words entry (List.mem_append_right _ inBack)
      have inside : ∀ entry ∈ front, entry.place data < 0x100000 :=
        fun entry inFront => wordsFront.linear wellFormed member inFront
      have copied : TableAt read.bytes (klinear reloc + 4 * 0) front := by
        refine first.copy fun i small => ?_
        rw [isRead, Nat.mul_zero, Nat.add_zero]
        exact FarMemory.store_inside _ (by omega)
      have offs : reloc.offs = PARASIZE := wellFormed.aligned _ buffer
      have inner : fixEntries data reloc nreloc 0 read = fixAll data front read := by
        rw [← count]
        refine fixEntries_eq normal copied ?_ inside fun entry inFront => ?_
        · rw [offs]
          unfold PARASIZE
          omega
        · have := apart entry (List.mem_append_left _ inFront)
          omega
      rw [inner]
      by_cases straddles : ∃ entry ∈ front, entry.Straddles
      · obtain ⟨entry, inFront, ends⟩ := straddles
        refine .inl ⟨⟨entry, List.mem_append_left _ inFront, ends⟩, ?_⟩
        rw [fixAll_panic normal inside ⟨entry, inFront, ends⟩]
        rfl
      · have none : ∀ entry ∈ front, ¬entry.Straddles :=
          fun entry inFront ends => straddles ⟨entry, inFront, ends⟩
        obtain ⟨fixed, ran, after, bytes⟩ := fixAll_ok normal filled member wordsFront none
        rw [ran, Outcome.bind_ok]
        have further := @ih back fixed
          { file with offset := file.offset + nreloc * 2 * 2 } (by omega) after wordsBack
          (by
            have place : file.offset + 4 * front.length = file.offset + nreloc * 2 * 2 := by omega
            exact place ▸ rest)
          (by dsimp only; omega)
        rcases further with
          ⟨⟨entry, inBack, ends⟩, stops⟩ | ⟨noneBack, memory', file', ran', kept, same⟩
        · exact .inl ⟨⟨entry, List.mem_append_right _ inBack, ends⟩, stops⟩
        · refine .inr
            ⟨fun entry inEntries => ?_, memory', file', ran', kept, fun addr outside => ?_⟩
          · exact (List.mem_append.mp inEntries).elim (none entry) (noneBack entry)
          · rw [same addr outside, bytes, ← addAll_append, ← List.map_append]
            refine addAll_agree ?_ ?_ outside
            · intro place isPlace
              obtain ⟨entry, inEntries, rfl⟩ := List.mem_map.mp isPlace
              have := apart entry inEntries
              unfold OutsideBuffer
              omega
            · intro other away
              unfold OutsideBuffer at away
              rw [isRead]
              exact FarMemory.store_outside _ (by omega)

/-- A `relocate` that finds room for its buffer. -/
theorem relocate_spec {file : ExeFile} {hdr : ExeHdr} (normal : data.offs = 0)
    (wellFormed : memory.heap.WellFormed topseg blocks live) (member : owner ∈ live)
    (room : ∃ heap ptr, kmalloc memory.heap (RELOC_BUF * 2 * 2) = .ok (heap, some ptr))
    (words : WordsInside data owner entries) (count : hdr.nreloc.toNat = entries.length)
    (table : TableAt file.bytes hdr.reloc.toNat entries)
    (long : hdr.reloc.toNat + 4 * entries.length ≤ file.length) :
    (∃ entry ∈ entries, entry.Straddles) ∧
        relocate memory file hdr data = .panic "exception 13" ∨
      (∀ entry ∈ entries, ¬entry.Straddles) ∧ ∃ result blocks',
        relocate memory file hdr data = .ok result ∧ result.err = 0 ∧
        result.memory.heap.WellFormed topseg blocks' live ∧
        ∀ owner ∈ live, ∀ i < owner.2, result.memory.bytes (klinear owner.1 + i) =
          addAll data.seg memory.bytes (entries.map fun entry => entry.place data)
            (klinear owner.1 + i) := by
  obtain ⟨heap, ptr, allocated⟩ := room
  rcases kmalloc_spec wellFormed (RELOC_BUF * 2 * 2) with
    ⟨heap', reloc, blocks', result, after, -⟩ | ⟨refused, -⟩
  swap
  · simp [refused] at allocated
  have ne : ∀ owner ∈ live, owner ≠ (reloc, RELOC_BUF * 2 * 2) := by
    rintro owner inLive rfl
    have nodup := after.owned.nodup after.tiles (by decide)
    simp only [List.map_cons, List.map_map, List.nodup_cons, List.mem_map, not_exists,
      not_and] at nodup
    exact nodup.1 _ inLive rfl
  have loop := @relocLoop_spec data reloc entries ⟨heap', memory.bytes⟩ topseg blocks' _ owner
    (entries.length + 1) (file.kseek hdr.reloc.toNat) normal (Nat.lt_succ_self _) after
    List.mem_cons_self (List.mem_cons_of_mem _ member) (ne owner member) words table long
  simp only [relocate, result, Outcome.bind_ok, count]
  rcases loop with ⟨straddles, stops⟩ | ⟨none, memory', file', ran, kept, same⟩
  · exact .inl ⟨straddles, by rw [stops]; rfl⟩
  · obtain ⟨freed, blocks'', released, left, -⟩ := kfree_spec kept (List.Perm.refl _)
    refine .inr ⟨none, ⟨0, ⟨freed, memory'.bytes⟩, file'⟩, blocks'', ?_, rfl, left, ?_⟩
    · rw [ran, Outcome.bind_ok]
      dsimp only
      rw [released]
      rfl
    · intro owner inLive i small
      have apart := payloads_apart after (List.mem_cons_of_mem _ inLive) List.mem_cons_self
        (ne owner inLive)
      rw [klinear_live after (List.mem_cons_of_mem _ inLive)]
      refine same _ ?_
      unfold OutsideBuffer
      dsimp only at apart
      omega

end Outer

end Pegasos.Kernel.Exec
