import Mathlib.Data.List.FinRange
import Mathlib.Logic.Function.Basic
import Mathlib.Tactic.Common
import Pegasos.Support.Tables

/-!
# The block cache of the hosted utilities

`blkcache.c` of the utilities that run on the host.  A block that is reused, and
every block when the cache is synchronized, is written back if it is dirty.  The
circular list is kept as the list of its blocks from `blocklist` on.  Units are
BIOS drive numbers; what a transfer does is decided by the device.
-/

namespace Pegasos.Hosted

open Function (update)

universe u

abbrev MAX_BLOCK : Nat := 8
abbrev BLKSIZE : Nat := 512
abbrev LOOP_UNIT : Nat := 0x100
def INVALID_BLOCK : Nat := 0xFFFFFFFF
def ENODEV : Int := 19
def ENOMEM : Int := 12
def EINVAL : Int := 22

abbrev BlkPtr := Fin (MAX_BLOCK + 1)

/-- The three drivers. -/
inductive BlkDev where
  | fdd
  | hdd
  | loop
  deriving DecidableEq, Repr

/-- `device_t`. -/
structure Device where
  dev : BlkDev
  unit : Nat
  deriving DecidableEq, Repr

/-- `block_t` without its links. -/
structure Block (Data : Type u) where
  inuse : Bool
  dirty : Bool
  dev : Int
  unit : Nat
  blkno : Nat
  data : Data

/-- How a transfer goes.  One that fails leaves something in its target. -/
inductive Transfer (Data : Type u) where
  | done
  | failed (code : Nat) (left : Data)
  deriving DecidableEq

variable {Data : Type u}

/-- The result of a transfer, and what its target holds then. -/
def Transfer.run (source : Data) : Transfer Data → Int × Data
  | .done => (0, source)
  | .failed code left => (-(code + 1), left)

/-- What the devices hold. -/
abbrev Disks (Data : Type u) := Device → Nat → Data

/-- `get_device`, given what the `get_units` of the drivers return. -/
def getDevice (getUnits : BlkDev → Nat) (unit : Nat) : Option Device :=
  let device : Device :=
    if unit ≥ LOOP_UNIT then ⟨.loop, unit - LOOP_UNIT⟩
    else if unit &&& 0x80 ≠ 0 then ⟨.hdd, unit &&& 0x7F⟩
    else ⟨.fdd, unit⟩
  if device.unit ≥ getUnits device.dev then none else some device

/-- The blocks, and the list from `blocklist` on. -/
structure BlkCache (Data : Type u) where
  blocks : BlkPtr → Block Data
  ring : List BlkPtr

namespace BlkCache

variable (cache : BlkCache Data) (getUnits : BlkDev → Nat)

def modify (b : BlkPtr) (edit : Block Data → Block Data) : BlkCache Data :=
  { cache with blocks := update cache.blocks b (edit (cache.blocks b)) }

/-- `FP_TO_DMA_PAGE` of a linear address. -/
def dmaPage (linear : Nat) : Nat := linear / 0x10000 % 16

/-- The loop body of `bc_init`, with the buffers from the linear address on. -/
def bcInitBlock (linear : Nat) (cache : BlkCache Data) (b : BlkPtr) : BlkCache Data :=
  let p := linear + b * BLKSIZE
  if dmaPage p ≠ dmaPage (p + BLKSIZE - 1) then cache
  else
    { cache.modify b fun block => { block with blkno := INVALID_BLOCK } with
      ring := match cache.ring with
        | [] => [b]
        | first :: rest => first :: b :: rest }

/-- `bc_init`, once the drivers are initialized and the memory is allocated. -/
def bcInit (linear : Nat) (memory : BlkPtr → Data) : BlkCache Data :=
  (List.finRange (MAX_BLOCK + 1)).foldl (bcInitBlock linear)
    { blocks := fun b => ⟨false, false, 0, 0, 0, memory b⟩, ring := [] }

/-- `flush_block`. -/
def flushBlock (disks : Disks Data) (b : BlkPtr) (write : Transfer Data) :
    Int × BlkCache Data × Disks Data :=
  let blk := cache.blocks b
  if !blk.dirty then (0, cache, disks)
  else
    let cache := cache.modify b fun block => { block with dirty := false }
    match getDevice getUnits blk.unit with
    | none => (-ENODEV, cache, disks)
    | some d =>
        let (rc, sector) := write.run blk.data
        (rc, cache, update disks d (update (disks d) blk.blkno sector))

/-- `bc_sync`; the results of `flush_block` are not looked at. -/
def bcSync (disks : Disks Data) (writes : BlkPtr → Transfer Data) :
    Int × BlkCache Data × Disks Data :=
  let (cache, disks) := cache.ring.foldl
    (fun (cache, disks) b => (cache.flushBlock getUnits disks b (writes b)).2) (cache, disks)
  (0, cache, disks)

/-- `blocklist = b->next`. -/
def startAfter (b : BlkPtr) : BlkCache Data :=
  { cache with
    ring := (cache.ring.dropWhile (· ≠ b)).tail ++ cache.ring.takeWhile (· ≠ b) ++ [b] }

/-- `bc_get`: the result, `*block`, the cache and the devices. -/
def bcGet (disks : Disks Data) (dev : Int) (unit blkno : Nat) (overw : Bool)
    (write read : Transfer Data) : Int × Option BlkPtr × BlkCache Data × Disks Data :=
  match getDevice getUnits unit with
  | none => (-ENODEV, none, cache, disks)
  | some d =>
      match cache.ring.find? fun b => (cache.blocks b).unit = unit ∧ (cache.blocks b).blkno = blkno with
      | some b => (0, some b, cache.modify b fun block => { block with inuse := true }, disks)
      | none =>
          match cache.ring.find? fun b => !(cache.blocks b).inuse with
          | none => (-ENOMEM, none, cache, disks)
          | some b =>
              let (_, cache, disks) := cache.flushBlock getUnits disks b write
              let cache := cache.startAfter b
              let cache := cache.modify b fun block =>
                { block with dev := dev, unit := unit, blkno := blkno }
              let (rc, data) := if overw then (0, (cache.blocks b).data) else read.run (disks d blkno)
              let cache := cache.modify b fun block => { block with data := data }
              if rc ≠ 0 then
                (rc, some b, cache.modify b fun block => { block with blkno := INVALID_BLOCK }, disks)
              else (0, some b, cache.modify b fun block => { block with inuse := true }, disks)

/-- `bc_put`. -/
def bcPut (b : BlkPtr) : Int × BlkCache Data :=
  if b ∉ cache.ring ∨ (cache.blocks b).inuse = false then (-EINVAL, cache)
  else (0, cache.modify b fun block => { block with inuse := false })

/-! ## What the routines change -/

variable {cache getUnits} {b c : BlkPtr} {disks : Disks Data}

theorem modify_blocks (edit : Block Data → Block Data) : (cache.modify b edit).blocks c =
    if c = b then edit (cache.blocks c) else cache.blocks c := by
  by_cases same : c = b
  · subst same
    simp [modify]
  · simp [modify, same]

theorem modify_modify (edit edit' : Block Data → Block Data) :
    (cache.modify b edit).modify b edit' = cache.modify b fun block => edit' (edit block) := by
  simp [modify]

@[simp] theorem modify_ring (edit : Block Data → Block Data) :
    (cache.modify b edit).ring = cache.ring := rfl

/-- Reading the list from another block keeps its blocks. -/
theorem mem_startAfter (member : b ∈ cache.ring) :
    c ∈ (cache.startAfter b).ring ↔ c ∈ cache.ring := by
  obtain ⟨front, rest, split, fresh⟩ := List.eq_append_cons_of_mem member
  have apart : ∀ other ∈ front, decide (other ≠ b) = true := by
    intro other inFront
    apply decide_eq_true
    rintro rfl
    exact fresh inFront
  have taken : cache.ring.takeWhile (· ≠ b) = front := by
    rw [split, List.takeWhile_append_of_pos apart]
    simp
  have dropped : cache.ring.dropWhile (· ≠ b) = b :: rest := by
    rw [split, List.dropWhile_append_of_pos apart]
    simp
  simp only [startAfter, taken, dropped, List.tail_cons]
  rw [split]
  simp only [List.mem_append, List.mem_cons, List.not_mem_nil, or_false]
  tauto

theorem lowBits : ∀ unit, unit < 0x100 → (unit &&& 0x80 = 0 → unit < 0x80) ∧
    (unit &&& 0x80 ≠ 0 → unit = 0x80 + (unit &&& 0x7F)) := by
  decide +kernel

/-- Different drive numbers are different units of the drivers. -/
theorem getDevice_inj {unit unit' : Nat} {d : Device} (first : getDevice getUnits unit = some d)
    (second : getDevice getUnits unit' = some d) : unit = unit' := by
  simp only [getDevice, Option.ite_none_left_eq_some, Option.some.injEq] at first second
  obtain ⟨-, rfl⟩ := first
  have same := second.2
  by_cases loop : unit ≥ LOOP_UNIT <;> by_cases loop' : unit' ≥ LOOP_UNIT <;>
    simp only [loop, loop', if_true, if_false] at same
  · rw [Device.mk.injEq] at same
    omega
  · split at same <;> simp at same
  · split at same <;> simp at same
  · have low := lowBits unit (by simpa using loop)
    have low' := lowBits unit' (by simpa using loop')
    by_cases hard : unit &&& 0x80 = 0 <;> by_cases hard' : unit' &&& 0x80 = 0 <;>
      simp [hard, hard'] at same low low' <;> omega

end BlkCache

end Pegasos.Hosted
