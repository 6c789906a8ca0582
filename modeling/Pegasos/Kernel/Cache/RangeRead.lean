import Pegasos.Kernel.Cache.BlkCache
import Pegasos.Support.CInt

/-!
# Reading a range of blocks

`bc_read` with the critical section of the cache.  `bc_cache_get` leaves it only when it
finds nothing, and a block that is not in the cache is never passed.
-/

namespace Pegasos.Kernel.Cache

open Pegasos.Support
open Function (update)

universe u

variable {Data : Type u}

/-- The cache with the count of `block_cs`, the devices, how a write of each block goes, and
the caller's buffer block by block. -/
structure RangeRead (Data : Type u) where
  cache : BlkCache Data
  blockCs : Int
  device : Tag → Data
  writes : Tag → Access Unit
  buffer : Nat → Data

/-- The local variables of `bc_read`. -/
structure RangeVars where
  rc : Int
  blkno : Nat
  start : Nat
  data : Nat

namespace BlkCache

/-- The loop of `bc_cache_get`. -/
def bcCacheFind (cache : BlkCache Data) (tag : Tag) : Nat → BlkPtr → Outcome (Option BlkPtr)
  | 0, _ => .hang
  | fuel + 1, blk =>
      if (cache.blocks blk).tag = tag then .ok (some blk)
      else
        let blk := (cache.blocks blk).next
        if blk ≠ cache.blocklist then cache.bcCacheFind tag fuel blk else .ok none

end BlkCache

namespace RangeRead

variable (s : RangeRead Data)

/-- `CS_ENTER(&block_cs)`.  A task that has to wait for itself waits for ever. -/
def csEnter : Outcome (RangeRead Data) :=
  if s.blockCs - 1 < 0 then .hang else .ok { s with blockCs := s.blockCs - 1 }

/-- `CS_LEAVE(&block_cs)`. -/
def csLeave : RangeRead Data := { s with blockCs := s.blockCs + 1 }

/-- `bc_cache_get`. -/
def bcCacheGet (tag : Tag) : Outcome (Option BlkPtr × RangeRead Data) :=
  s.csEnter.bind fun s =>
    (s.cache.bcCacheFind tag (MAX_BLOCK + 1) s.cache.blocklist).bind fun
      | some blk => .ok (some blk, { s with
          cache := s.cache.modify blk fun b => { b with inuse := int16 (b.inuse + 1) } })
      | none => .ok (none, s.csLeave)

/-- `bc_put`. -/
def bcPut (blk : BlkPtr) : Outcome (Int × RangeRead Data) :=
  s.csEnter.bind fun s =>
    let tag := (s.cache.blocks blk).tag
    (s.cache.bcPut blk (s.device tag) (s.writes tag)).bind fun (rc, cache, sector) =>
      .ok (rc, { s with cache := cache, device := update s.device tag sector }.csLeave)

/-- The loop of `bc_read`, with the function for the gaps: an early result, or the variables
at its end. -/
def readLoop (gap : RangeRead Data → (blkno : Nat) → (blks : Int) → (data : Nat) →
    Outcome (Int × RangeRead Data)) (dev unit : Int) :
    Nat → RangeVars → RangeRead Data → Outcome ((Int ⊕ RangeVars) × RangeRead Data)
  | 0, v, s => .ok (.inr v, s)
  | left + 1, v, s =>
      (s.bcCacheGet ⟨dev, unit, v.blkno⟩).bind fun
        | (none, s) => readLoop gap dev unit left v s
        | (some blk, s) =>
            let before : Outcome ((Int ⊕ RangeVars) × RangeRead Data) :=
              if v.start < v.blkno then
                (gap s v.start (int16 (v.blkno - v.start : Nat)) v.data).bind fun (rc, s) =>
                  if rc ≠ 0 then (s.bcPut blk).bind fun (_, s) => .ok (.inl rc, s)
                  else .ok (.inr { v with
                    rc := rc, data := v.data + (v.blkno - v.start), start := v.blkno }, s)
              else .ok (.inr v, s)
            before.bind fun
              | (.inl rc, s) => .ok (.inl rc, s)
              | (.inr v, s) =>
                  let s := { s with buffer := update s.buffer v.data (s.cache.blocks blk).data }
                  let blkno := word (v.blkno + 1)
                  (s.bcPut blk).bind fun (rc, s) =>
                    if rc < 0 then .ok (.inl rc, s)
                    else readLoop gap dev unit left ⟨rc, blkno, blkno, v.data + 1⟩ s

/-- `bc_read`: the result and the state behind it. -/
def bcRead (dev unit : Int) : Nat → RangeRead Data → (blkno : Nat) → (blks : Int) → (data : Nat) →
    Outcome (Int × RangeRead Data)
  | 0, _, _, _, _ => .hang
  | fuel + 1, s, blkno, blks, data =>
      (readLoop (bcRead dev unit fuel) dev unit blks.toNat ⟨0, blkno, blkno, data⟩ s).bind fun
        | (.inl rc, s) => .ok (rc, s)
        | (.inr v, s) =>
            if v.start < v.blkno then
              bcRead dev unit fuel s v.start (int16 (v.blkno - v.start : Nat)) v.data
            else .ok (v.rc, s)

/-! ## What it is for -/

/-- The block is in the cache. -/
def Cached (tag : Tag) : Prop := ∃ b, (s.cache.blocks b).tag = tag

/-- What `bc_get` gives for a block: the contents of the buffer that its search finds, or
those of the device. -/
def wanted (tag : Tag) : Data :=
  match s.cache.bcSearch tag (MAX_BLOCK + 1) s.cache.blocklist none with
  | .ok (.inl b) => (s.cache.blocks b).data
  | _ => s.device tag

/-- Every block of a range is in the cache or can be read from the device. -/
def CanRead (readable : Tag → Prop) (dev unit : Int) (blkno n : Nat) : Prop :=
  ∀ i < n, s.Cached ⟨dev, unit, word (blkno + i)⟩ ∨ readable ⟨dev, unit, word (blkno + i)⟩

/-- The buffer holds the blocks of a range. -/
def HoldsWanted (dev unit : Int) (blkno n : Nat) (buffer : Nat → Data) : Prop :=
  ∀ i < n, buffer i = s.wanted ⟨dev, unit, word (blkno + i)⟩

/-- `bc_read` of a range ends; it gives what `bc_get` would give if that can be read, and
keeps the counts of uses and `block_cs`. -/
def ReadsLikeGet (readable : Tag → Prop) (dev unit : Int) (blkno n : Nat) : Prop :=
  ∃ fuel rc s', bcRead dev unit fuel s blkno n 0 = .ok (rc, s') ∧
    (s.CanRead readable dev unit blkno n → rc = 0 ∧ s.HoldsWanted dev unit blkno n s'.buffer) ∧
    (∀ b, (s'.cache.blocks b).inuse = (s.cache.blocks b).inuse) ∧ s'.blockCs = s.blockCs

/-! ## The search -/

variable {s} {tag : Tag} {order : List BlkPtr}

/-- It is that of `bc_get` without the block to be reused. -/
theorem bcCacheFind_eq (cache : BlkCache Data) (tag : Tag) (fuel : Nat) (blk : BlkPtr)
    (block : Option BlkPtr) : cache.bcCacheFind tag fuel blk =
      (cache.bcSearch tag fuel blk block).bind fun
        | .inl b => .ok (some b)
        | .inr _ => .ok none := by
  induction fuel generalizing blk block with
  | zero => rfl
  | succ fuel ih =>
      rw [BlkCache.bcCacheFind, BlkCache.bcSearch]
      by_cases hit : (cache.blocks blk).tag = tag
      · rw [if_pos hit, if_pos hit]
        rfl
      · rw [if_neg hit, if_neg hit]
        by_cases more : (cache.blocks blk).next ≠ cache.blocklist
        · simp only [if_pos more]
          exact ih _ _
        · simp only [if_neg more]
          rfl

theorem csEnter_free (free : s.blockCs = 1) : s.csEnter = .ok { s with blockCs := 0 } := by
  have enters : ¬ s.blockCs - 1 < 0 := by omega
  rw [csEnter, if_neg enters, free]
  rfl

/-- A block that is in the cache is found, and the critical section is kept. -/
theorem bcCacheGet_cached (circular : s.cache.Circular order) (free : s.blockCs = 1)
    (cached : s.Cached tag) : ∃ b s', s.bcCacheGet tag = .ok (some b, s') ∧ s'.blockCs = 0 := by
  have searched := BlkCache.bcSearch_spec circular tag
  obtain ⟨c, isTag⟩ := cached
  cases hit : order.find? fun b => (s.cache.blocks b).tag = tag with
  | none =>
      have missed := List.find?_eq_none.mp hit c (circular.complete c)
      simp [isTag] at missed
  | some b =>
      rw [hit] at searched
      refine ⟨b, { s with
        cache := s.cache.modify b fun b => { b with inuse := int16 (b.inuse + 1) }
        blockCs := 0 }, ?_, rfl⟩
      rw [bcCacheGet, csEnter_free free, Outcome.bind_ok]
      simp only [bcCacheFind_eq _ _ _ _ none, searched, Outcome.bind_ok]

/-- Otherwise nothing is found, and it is left. -/
theorem bcCacheGet_missed (circular : s.cache.Circular order) (free : s.blockCs = 1)
    (missed : ¬ s.Cached tag) : s.bcCacheGet tag = .ok (none, s) := by
  have searched := BlkCache.bcSearch_spec circular tag
  have hit : order.find? (fun b => (s.cache.blocks b).tag = tag) = none := by
    rw [List.find?_eq_none]
    intro b _ isTag
    exact missed ⟨b, by simpa using isTag⟩
  rw [hit] at searched
  rw [bcCacheGet, csEnter_free free, Outcome.bind_ok]
  simp only [bcCacheFind_eq _ _ _ _ none, searched, Outcome.bind_ok, csLeave, Int.zero_add, ← free]

/-! ## The loop -/

/-- `bc_put` does not return to the task that is in the critical section already. -/
theorem bcPut_held (held : s.blockCs = 0) (b : BlkPtr) : s.bcPut b = .hang := by
  have waits : s.csEnter = .hang := if_pos (by omega)
  rw [bcPut, waits]
  rfl

variable {gap : RangeRead Data → Nat → Int → Nat → Outcome (Int × RangeRead Data)}
variable {dev unit : Int} {v : RangeVars}

/-- At a block that is in the cache the loop ends. -/
theorem readLoop_cached (circular : s.cache.Circular order) (free : s.blockCs = 1)
    (cached : s.Cached ⟨dev, unit, v.blkno⟩) (together : v.start = v.blkno) (left : Nat) :
    readLoop gap dev unit (left + 1) v s = .hang := by
  obtain ⟨b, s', found, held⟩ := bcCacheGet_cached circular free cached
  have noGap : ¬ v.start < v.blkno := by omega
  rw [readLoop, found, Outcome.bind_ok]
  simp only [if_neg noGap, Outcome.bind_ok]
  rw [bcPut_held (by exact held)]
  rfl

/-- At one that is not, every turn finds the same. -/
theorem readLoop_missed (circular : s.cache.Circular order) (free : s.blockCs = 1)
    (missed : ¬ s.Cached ⟨dev, unit, v.blkno⟩) (left : Nat) :
    readLoop gap dev unit left v s = .ok (.inr v, s) := by
  induction left with
  | zero => rfl
  | succ left ih =>
      rw [readLoop, bcCacheGet_missed circular free missed, Outcome.bind_ok]
      exact ih

/-! ## `bc_read` -/

theorem bcRead_cached (circular : s.cache.Circular order) (free : s.blockCs = 1) {blkno n : Nat}
    (cached : s.Cached ⟨dev, unit, blkno⟩) (some : 0 < n) (fuel data : Nat) :
    bcRead dev unit fuel s blkno n data = .hang := by
  cases fuel with
  | zero => rfl
  | succ fuel =>
      obtain ⟨left, rfl⟩ := Nat.exists_eq_succ_of_ne_zero some.ne'
      rw [bcRead, Int.toNat_natCast, readLoop_cached circular free cached rfl]
      rfl

/-- Nothing is read, and the result is 0. -/
theorem bcRead_missed (circular : s.cache.Circular order) (free : s.blockCs = 1) {blkno n : Nat}
    (missed : ¬ s.Cached ⟨dev, unit, blkno⟩ ∨ n = 0) (fuel data : Nat) :
    bcRead dev unit (fuel + 1) s blkno n data = .ok (0, s) := by
  have passed : readLoop (bcRead dev unit fuel) dev unit n ⟨0, blkno, blkno, data⟩ s =
      .ok (.inr ⟨0, blkno, blkno, data⟩, s) := by
    rcases missed with missed | rfl
    · exact readLoop_missed circular free missed n
    · rfl
  rw [bcRead, Int.toNat_natCast, passed, Outcome.bind_ok]
  exact if_neg (Nat.lt_irrefl _)

/-- The cache after `bc_init`, for a device of blocks that are all 1. -/
def begin : RangeRead Nat where
  cache := .bcInit fun _ => 0
  blockCs := 1
  device _ := 1
  writes _ := .done
  buffer _ := 0

end RangeRead

end Pegasos.Kernel.Cache
