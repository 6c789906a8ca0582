import Mathlib.Logic.Relation
import Pegasos.Kernel.Cache.BlkCache
import Pegasos.Support.CInt
import Mathlib.Algebra.Group.Nat.Defs

/-!
# Reading blocks from a device

The loop of `bc_device_read`, for any driver that reads a part of each request or fails.
The size of a request is an `int`, which 64 blocks do not fit into.
-/

namespace Pegasos.Kernel.Cache

open Pegasos.Support
open Relation (ReflTransGen)

universe u

variable {Byte : Type u}

def EIO : Int := 4

/-- The `read` of a block device for one unit.  Its n-th call gets a start block, the
address of a buffer and a size; it returns a number and stores bytes at addresses. -/
structure BlkDev (Byte : Type u) where
  read : (call start data : Nat) → (size : Int) → Int × (Nat → Option Byte)

/-- The variables of the loop of `bc_device_read`, the memory, and how often the driver has
been called. -/
structure ReadLoop (Byte : Type u) where
  call : Nat
  blks : Int
  start : Nat
  data : Nat
  memory : Nat → Byte

/-- How a turn of a loop ends. -/
inductive Turn (State : Type u) where
  | returns (rc : Int) (state : State)
  | again (state : State)

namespace ReadLoop

variable (dev : BlkDev Byte) (s : ReadLoop Byte)

/-- `blks * BLKSIZE`. -/
def size : Int := int16 (s.blks * BLKSIZE)

def bytes : Int := (dev.read s.call s.start s.data s.size).1

/-- The memory after the call of the driver. -/
def stored : Nat → Byte := fun a =>
  ((dev.read s.call s.start s.data s.size).2 a).getD (s.memory a)

/-- The variables after a part of the request has been read. -/
def next : ReadLoop Byte where
  call := s.call + 1
  blks := int16 (s.blks - (s.bytes dev).tdiv BLKSIZE)
  start := word (s.start + ((s.bytes dev).tdiv BLKSIZE).toNat)
  data := s.data + (s.bytes dev).toNat
  memory := s.stored dev

/-- One turn of the loop. -/
def turn : Turn (ReadLoop Byte) :=
  if s.blks = 0 then .returns 0 s
  else if s.bytes dev < 0 then .returns (s.bytes dev) { s with memory := s.stored dev }
  else if s.bytes dev = 0 then .returns (- EIO) { s with memory := s.stored dev }
  else .again (s.next dev)

/-- `bc_device_read`: the result and the variables at its end. -/
def bcDeviceRead (dev : BlkDev Byte) : Nat → ReadLoop Byte → Outcome (Int × ReadLoop Byte)
  | 0, _ => .hang
  | fuel + 1, s =>
      match s.turn dev with
      | .returns rc s => .ok (rc, s)
      | .again s => bcDeviceRead dev fuel s

/-- The variables come to other ones in some turns. -/
def Reaches (s s' : ReadLoop Byte) : Prop := ReflTransGen (fun s s' => s.turn dev = .again s') s s'

end ReadLoop

/-! ## What it is for -/

/-- A driver that reads a part of a request or fails, and stores nothing elsewhere. -/
structure BlkDev.Proper (dev : BlkDev Byte) (disk : Nat → Nat → Byte) : Prop where
  reads : ∀ (call start data : Nat) (size : Int), 0 < size → 512 ∣ size →
    (dev.read call start data size).1 ≤ 0 ∨ ∃ m : Nat, 0 < m ∧ (512 * m : Int) ≤ size ∧
      (dev.read call start data size).1 = 512 * m ∧ ∀ i < m, ∀ j < 512,
        (dev.read call start data size).2 (data + (512 * i + j)) = some (disk (word (start + i)) j)
  stores : ∀ (call start data : Nat) (size : Int), 0 < size → 512 ∣ size → ∀ a,
    (a < data ∨ (data : Int) + size ≤ a) → (dev.read call start data size).2 a = none

/-- The driver reads a number of blocks, in some parts one after the other. -/
inductive BlkDev.Serves (dev : BlkDev Byte) : (call start data blks : Nat) → Prop
  | none {call start data : Nat} : Serves dev call start data 0
  | part {call start data blks m : Nat} : 0 < m → m ≤ blks →
      (dev.read call start data (512 * blks)).1 = 512 * m →
      Serves dev (call + 1) (word (start + m)) (data + 512 * m) (blks - m) →
      Serves dev call start data blks

/-- The first blocks from an address on are those of the device. -/
def Holds (disk : Nat → Nat → Byte) (start data blks : Nat) (memory : Nat → Byte) : Prop :=
  ∀ i < blks, ∀ j < 512, memory (data + (512 * i + j)) = disk (word (start + i)) j

/-- A call of `bc_device_read` asks only for positive sizes, and stores only in the
buffer.  It ends, with 0 exactly when all blocks have been read, and the buffer then holds
them; otherwise with an error. -/
structure ReadLoop.Right (dev : BlkDev Byte) (disk : Nat → Nat → Byte) (s : ReadLoop Byte) :
    Prop where
  asks : ∀ s', s.Reaches dev s' → s'.blks ≠ 0 → 0 < s'.size
  stores : ∀ s', s.Reaches dev s' → s'.blks ≠ 0 → ∀ a,
    (a < s.data ∨ (s.data : Int) + 512 * s.blks ≤ a) → s'.stored dev a = s.memory a
  returns : ∃ fuel rc s', bcDeviceRead dev fuel s = .ok (rc, s') ∧
    (rc = 0 ↔ (s'.data : Int) = s.data + 512 * s.blks) ∧
    (rc = 0 → Holds disk s.start s.data s.blks.toNat s'.memory) ∧ (rc ≠ 0 → rc < 0)

/-- The first part, if there is anything to read. -/
theorem BlkDev.Serves.first {dev : BlkDev Byte} {call start data blks : Nat}
    (served : dev.Serves call start data blks) (some : 0 < blks) : ∃ m, 0 < m ∧ m ≤ blks ∧
      (dev.read call start data (512 * blks)).1 = 512 * m ∧
      dev.Serves (call + 1) (word (start + m)) (data + 512 * m) (blks - m) := by
  cases served with
  | none => omega
  | part positive inBlks read rest => exact ⟨_, positive, inBlks, read, rest⟩

/-! ## The size of a request -/

/-- The size that is asked for depends on the number of blocks modulo 128. -/
theorem int16_blocks {blks : Int} (low : -64 ≤ blks) (high : blks < 64) (base : Int) :
    int16 ((128 * base + blks) * BLKSIZE) = 512 * blks := by
  rw [int16, BLKSIZE, Int.bmod_def]
  omega

/-- Negative from 64 blocks on, and nothing at 128. -/
theorem size_nonpos {s : ReadLoop Byte} (large : s.blks % 128 = 0 ∨ 64 ≤ s.blks % 128) :
    s.size ≤ 0 := by
  by_cases zero : s.blks % 128 = 0
  · have sum : s.blks = 128 * (s.blks / 128) + 0 := by omega
    rw [ReadLoop.size, sum, int16_blocks (by omega) (by omega)]
    omega
  · have sum : s.blks = 128 * (s.blks / 128 + 1) + (s.blks % 128 - 128) := by omega
    rw [ReadLoop.size, sum, int16_blocks (by omega) (by omega)]
    omega

namespace ReadLoop

variable {dev : BlkDev Byte} {disk : Nat → Nat → Byte} {s s' : ReadLoop Byte}

/-! ## One turn -/

theorem turn_again (more : s.blks ≠ 0) (read : 0 < s.bytes dev) :
    s.turn dev = .again (s.next dev) := by
  rw [turn, if_neg more, if_neg (by omega), if_neg (by omega)]

theorem turn_fails (more : s.blks ≠ 0) (failed : s.bytes dev ≤ 0) :
    ∃ rc, s.turn dev = .returns rc { s with memory := s.stored dev } ∧ rc < 0 := by
  rw [turn, if_neg more]
  by_cases negative : s.bytes dev < 0
  · exact ⟨_, if_pos negative, negative⟩
  · rw [if_neg negative, if_pos (by omega)]
    exact ⟨_, rfl, by decide⟩

/-- The variables after `m` blocks have been read. -/
structure Moved (s : ReadLoop Byte) (m : Nat) (s' : ReadLoop Byte) : Prop where
  blks : s'.blks = s.blks - m
  start : s'.start = word (s.start + m)
  data : s'.data = s.data + 512 * m

theorem next_moved {m : Nat} (low : 0 ≤ s.blks) (high : s.blks ≤ 32767) (inBlks : (m : Int) ≤ s.blks)
    (read : s.bytes dev = 512 * m) : s.Moved m (s.next dev) := by
  have blocks : (512 * (m : Int)).tdiv BLKSIZE = m := Int.mul_tdiv_cancel_left _ (by decide)
  constructor
  · rw [next, read, blocks]
    exact int16_eq (by omega) (by omega)
  · rw [next, read, blocks, Int.toNat_natCast]
  · simp only [next, read]
    omega

/-! ## The loop -/

/-- The loop after `m` blocks of those for which the driver is asked have been read. -/
structure Inv (dev : BlkDev Byte) (disk : Nat → Nat → Byte) (s : ReadLoop Byte) (r m : Nat)
    (s' : ReadLoop Byte) : Prop extends Moved s m s' where
  inBlks : m ≤ r
  holds : Holds disk s.start s.data m s'.memory
  frame : ∀ a, (a < s.data ∨ s.data + 512 * r ≤ a) → s'.memory a = s.memory a
  serves : dev.Serves s.call s.start s.data r ↔ dev.Serves s'.call s'.start s'.data (r - m)

theorem inv_self (r : Nat) (inWord : s.start < 2 ^ 32) : s.Inv dev disk r 0 s where
  blks := by omega
  start := (Nat.mod_eq_of_lt inWord).symm
  data := rfl
  inBlks := Nat.zero_le r
  holds i inZero := absurd inZero (Nat.not_lt_zero i)
  frame _ _ := rfl
  serves := Iff.rfl

/-- What the driver is asked for while some of the blocks below 64 are left. -/
theorem Inv.size {r m : Nat} (inv : s.Inv dev disk r m s') {base : Int} (below : r < 64)
    (blks : s.blks = 128 * base + r) : s'.size = 512 * (r - m : Nat) := by
  have left : s'.blks = 128 * base + (r - m : Nat) := by
    have inBlks := inv.inBlks
    rw [inv.blks, blks]
    omega
  rw [ReadLoop.size, left]
  exact int16_blocks (by omega) (by omega) base

/-- The driver stores only in the rest of the buffer. -/
theorem Inv.stored_frame {r m : Nat} (inv : s.Inv dev disk r m s') (proper : dev.Proper disk)
    {base : Int} (below : r < 64) (blks : s.blks = 128 * base + r) (more : m < r) {a : Nat}
    (outside : a < s.data ∨ s.data + 512 * r ≤ a) : s'.stored dev a = s.memory a := by
  have size := inv.size below blks
  have data := inv.data
  have nothing := proper.stores s'.call s'.start s'.data s'.size (by omega) (by omega) a (by omega)
  rw [stored, nothing]
  exact inv.frame a outside

/-- Another part is read. -/
theorem Inv.next {r m : Nat} (inv : s.Inv dev disk r m s') (proper : dev.Proper disk)
    {base : Int} (below : r < 64) (blks : s.blks = 128 * base + r) (low : 0 ≤ base)
    (high : s.blks ≤ 32767) (more : m < r) (read : 0 < s'.bytes dev) :
    ∃ k : Nat, 0 < k ∧ s.Inv dev disk r (m + k) (s'.next dev) := by
  have size := inv.size below blks
  have positive : 0 < s'.size := by omega
  have whole : 512 ∣ s'.size := by omega
  rcases proper.reads s'.call s'.start s'.data s'.size positive whole with
    failed | ⟨k, some, inSize, bytes, sectors⟩
  · exact absurd read (by unfold bytes; omega)
  have inRest : k ≤ r - m := by omega
  have left := inv.blks
  have moved : s'.Moved k (s'.next dev) := next_moved (by omega) (by omega) (by omega) bytes
  have data := inv.data
  refine ⟨k, some, ⟨?_, ?_, ?_⟩, by omega, ?_, fun a outside => ?_, inv.serves.trans ?_⟩
  · rw [moved.blks, inv.blks]
    omega
  · rw [moved.start, inv.start, word_word_add, Nat.add_assoc]
  · rw [moved.data, inv.data]
    omega
  · intro i inRead j inSector
    change (_ : Option Byte).getD _ = _
    by_cases before : i < m
    · have nothing := proper.stores s'.call s'.start s'.data s'.size positive whole
        (s.data + (512 * i + j)) (by omega)
      rw [nothing]
      exact inv.holds i before j inSector
    · have now := sectors (i - m) (by omega) j inSector
      have sameAddress : s'.data + (512 * (i - m) + j) = s.data + (512 * i + j) := by omega
      have sameBlock : word (s'.start + (i - m)) = word (s.start + i) := by
        rw [inv.start, word_word_add]
        congr 1
        omega
      rw [sameAddress, sameBlock] at now
      rw [now]
      rfl
  · exact inv.stored_frame proper below blks more outside
  · rw [moved.start, moved.data]
    have rest : r - (m + k) = r - m - k := by omega
    rw [rest]
    have asked : (dev.read s'.call s'.start s'.data (512 * (r - m : Nat))).1 = 512 * k := by
      rw [← size]
      exact bytes
    constructor
    · intro served
      obtain ⟨k', -, -, asked', served⟩ := served.first (Nat.sub_pos_of_lt more)
      obtain rfl : k' = k := by
        have same := asked'.symm.trans asked
        omega
      exact served
    · exact .part some inRest asked

/-- As long as the driver does not fail, the loop goes on to where all blocks below 64 have
been read; a failure ends it. -/
theorem Inv.run {r m : Nat} (inv : s.Inv dev disk r m s') (proper : dev.Proper disk)
    {base : Int} (below : r < 64) (blks : s.blks = 128 * base + r) (low : 0 ≤ base)
    (high : s.blks ≤ 32767) :
    (∃ s'', s'.Reaches dev s'' ∧ s.Inv dev disk r r s'') ∨
      ∃ fuel rc k s'', bcDeviceRead dev fuel s' = .ok (rc, s'') ∧ rc < 0 ∧ k < r ∧
        s''.data = s.data + 512 * k ∧ ¬ dev.Serves s.call s.start s.data r := by
  obtain ⟨rest, total⟩ : ∃ rest, rest = r - m := ⟨_, rfl⟩
  induction rest using Nat.strong_induction_on generalizing m s' with
  | _ rest ih =>
      by_cases more : m < r
      · have left : s'.blks ≠ 0 := by
          have := inv.blks
          omega
        by_cases read : 0 < s'.bytes dev
        · obtain ⟨k, some, inv'⟩ := inv.next proper below blks low high more read
          have inBlks := inv'.inBlks
          have again := turn_again left read
          rcases ih (r - (m + k)) (by omega) inv' rfl with
            ⟨s'', reached, done⟩ | ⟨fuel, rc, k', s'', ran, failed⟩
          · exact .inl ⟨s'', .head again reached, done⟩
          · refine .inr ⟨fuel + 1, rc, k', s'', ?_, failed⟩
            rw [bcDeviceRead, again]
            exact ran
        · obtain ⟨rc, returned, negative⟩ := turn_fails left (not_lt.mp read)
          refine .inr ⟨1, rc, m, { s' with memory := s'.stored dev },
            by rw [bcDeviceRead, returned], negative, more, inv.data, ?_⟩
          intro served
          obtain ⟨k, some, -, asked, -⟩ := (inv.serves.mp served).first (Nat.sub_pos_of_lt more)
          rw [bytes, inv.size below blks, asked] at read
          omega
      · obtain rfl : m = r := by
          have inBlks := inv.inBlks
          omega
        exact .inl ⟨s', .refl, inv⟩

/-! ## The whole call -/

theorem Reaches.returns {rc : Int} {final : ReadLoop Byte} {fuel : Nat} (reached : s.Reaches dev s')
    (ran : bcDeviceRead dev fuel s' = .ok (rc, final)) :
    ∃ fuel, bcDeviceRead dev fuel s = .ok (rc, final) := by
  induction reached using ReflTransGen.head_induction_on with
  | refl => exact ⟨fuel, ran⟩
  | head again _ ih =>
      obtain ⟨fuel, ran⟩ := ih
      refine ⟨fuel + 1, ?_⟩
      rw [bcDeviceRead, again]
      exact ran

/-- In every turn before the blocks below 64 have been read the invariant holds. -/
theorem inv_reaches {r : Nat} (proper : dev.Proper disk) {base : Int} (below : r < 64)
    (blks : s.blks = 128 * base + r) (low : 0 ≤ base) (high : s.blks ≤ 32767)
    (inWord : s.start < 2 ^ 32)
    (ends : base = 0 ∨ ¬ dev.Serves s.call s.start s.data r) (reached : s.Reaches dev s') :
    ∃ m, s.Inv dev disk r m s' ∧ (s'.blks ≠ 0 → m < r) := by
  have unread : ∀ {s' m}, s.Inv dev disk r m s' → s'.blks ≠ 0 → m < r := by
    intro s' m inv left
    have inBlks := inv.inBlks
    have blks' := inv.blks
    refine lt_of_le_of_ne inBlks ?_
    rintro rfl
    rcases ends with whole | failed
    · omega
    · rw [inv.serves, Nat.sub_self] at failed
      exact failed .none
  induction reached with
  | refl => exact ⟨0, inv_self r inWord, unread (inv_self r inWord)⟩
  | @tail s₁ s₂ _ again ih =>
      obtain ⟨m, inv, more⟩ := ih
      have left : s₁.blks ≠ 0 := by
        intro zero
        rw [turn, if_pos zero] at again
        nomatch again
      have read : 0 < s₁.bytes dev := by
        by_contra failed
        obtain ⟨rc, returned, -⟩ := turn_fails left (not_lt.mp failed)
        rw [returned] at again
        nomatch again
      obtain rfl : s₁.next dev = s₂ := by
        rw [turn_again left read] at again
        exact Turn.again.inj again
      obtain ⟨k, -, inv'⟩ := inv.next proper below blks low high (more left) read
      exact ⟨m + k, inv', unread inv'⟩

theorem right_of {r : Nat} (proper : dev.Proper disk) {base : Int} (below : r < 64)
    (blks : s.blks = 128 * base + r) (low : 0 ≤ base) (high : s.blks ≤ 32767)
    (inWord : s.start < 2 ^ 32)
    (ends : base = 0 ∨ ¬ dev.Serves s.call s.start s.data r) : s.Right dev disk := by
  have every := fun s' (reached : s.Reaches dev s') =>
    inv_reaches proper below blks low high inWord ends reached
  refine ⟨fun s' reached left => ?_, fun s' reached left a outside => ?_, ?_⟩
  · obtain ⟨m, inv, more⟩ := every s' reached
    have unread := more left
    rw [inv.size below blks]
    omega
  · obtain ⟨m, inv, more⟩ := every s' reached
    exact inv.stored_frame proper below blks (more left) (by omega)
  · rcases (inv_self r inWord).run proper below blks low high with
      ⟨s', reached, done⟩ | ⟨fuel, rc, k, s', ran, negative, some, data, failed⟩
    · obtain rfl : base = 0 := by
        refine ends.resolve_right fun failed => ?_
        rw [done.serves, Nat.sub_self] at failed
        exact failed .none
      have empty : s'.blks = 0 := by
        rw [done.blks]
        omega
      have turned : s'.turn dev = .returns 0 s' := if_pos empty
      have last : bcDeviceRead dev 1 s' = .ok (0, s') := by rw [bcDeviceRead, turned]
      obtain ⟨fuel, ran⟩ := reached.returns last
      have data := done.data
      refine ⟨fuel, 0, s', ran, iff_of_true rfl (by omega), fun _ => ?_, absurd rfl⟩
      have all : s.blks.toNat = r := by omega
      rw [all]
      exact done.holds
    · exact ⟨fuel, rc, s', ran, by omega, by omega, fun _ => negative⟩

/-- `bc_device_read` is right if and only if there are fewer than 64 blocks, or the driver
fails while the blocks that the first request is for are read. -/
theorem bc_device_read_right (proper : dev.Proper disk) (low : 0 ≤ s.blks)
    (high : s.blks ≤ 32767) (inWord : s.start < 2 ^ 32) :
    s.Right dev disk ↔ s.blks < 64 ∨ 0 < s.blks % 128 ∧ s.blks % 128 < 64 ∧
      ¬ dev.Serves s.call s.start s.data (s.blks % 128).toNat := by
  constructor
  · intro right
    by_contra wrong
    rw [not_or] at wrong
    obtain ⟨many, served⟩ := wrong
    by_cases asked : 0 < s.blks % 128 ∧ s.blks % 128 < 64
    · have served : dev.Serves s.call s.start s.data (s.blks % 128).toNat := by
        by_contra failed
        exact served ⟨asked.1, asked.2, failed⟩
      -- then a multiple of 128 blocks is left
      have blks : s.blks = 128 * (s.blks / 128) + (s.blks % 128).toNat := by omega
      rcases (inv_self _ inWord).run proper (by omega) blks (by omega) high with
        ⟨s', reached, done⟩ | ⟨-, -, -, -, -, -, -, -, failed⟩
      · have positive := right.asks s' reached (by have left := done.blks; omega)
        rw [done.size (by omega) blks] at positive
        omega
      · exact failed served
    · have positive := right.asks s .refl (by omega)
      have nonpos := size_nonpos (s := s) (by omega)
      omega
  · rintro (few | ⟨some, below, failed⟩)
    · have blks : s.blks = 128 * 0 + s.blks.toNat := by omega
      exact right_of proper (by omega) blks le_rfl high inWord (.inl rfl)
    · have blks : s.blks = 128 * (s.blks / 128) + (s.blks % 128).toNat := by omega
      exact right_of proper (by omega) blks (by omega) high inWord (.inr failed)

/-- A device of zero bytes whose driver reads all that it is asked for. -/
def zeroDev : BlkDev Nat :=
  ⟨fun _ _ data size => (size, fun a => if data ≤ a ∧ (a : Int) < data + size then some 0 else none)⟩

theorem zeroDev_proper : zeroDev.Proper fun _ _ => 0 where
  reads call start data size positive whole := by
    obtain ⟨m, rfl⟩ := whole
    have size : (512 * m : Int) = 512 * (m.toNat : Int) := by omega
    refine .inr ⟨m.toNat, by omega, by omega, size, fun i read j inSector => ?_⟩
    exact if_pos ⟨by omega, by omega⟩
  stores call start data size _ _ a outside := if_neg (by omega)

/-- The loop at the start of a call, for blocks that are read to address 0. -/
def begin (blks : Int) : ReadLoop Nat := ⟨0, blks, 0, 0, fun _ => 1⟩

theorem bc_device_read_right_two : (begin 2).Right zeroDev fun _ _ => 0 :=
  (bc_device_read_right zeroDev_proper (by decide) (by decide) (by decide)).mpr (.inl (by decide))

/-- With 64 blocks the driver is asked for -32768 bytes. -/
theorem bc_device_read_negative :
    (begin 64).size = -32768 ∧ ¬ (begin 64).Right zeroDev fun _ _ => 0 := by
  refine ⟨by decide, fun right => ?_⟩
  have positive := right.asks _ .refl (by decide)
  exact absurd positive (by decide)

end ReadLoop

end Pegasos.Kernel.Cache
