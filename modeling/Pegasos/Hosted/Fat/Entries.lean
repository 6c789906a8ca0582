import Pegasos.Hosted.Fat.Cluster

/-!
# The entries of the FAT

What the functions of `cluster.c` do to the FAT as an array of numbers of 12 bits: they
return the number of a cluster, store one in all copies, and take the first cluster whose
number is zero.  `clus_set_next` finds the bytes of an entry only in the first sector of a
copy, where the entries of the clusters up to 340 are.
-/

namespace Pegasos.Hosted

open Pegasos.Support
open Fat (Sector)
open Function (update)

namespace FatVol

/-- The sectors have 512 bytes, and those of the FAT have numbers. -/
structure Geometry (fv : FatVol) : Prop where
  blksize : fv.blksize = BLKSIZE
  copies : fv.fat0sec + fv.fatCount * fv.secPerFat < 0x100000000
  first : fv.fat0sec + fv.secPerFat < 0x100000000

/-- The first copy of the FAT lies on a unit of so many blocks. -/
structure FirstCopy (fv : FatVol) (blocks : Nat) : Prop extends Geometry fv where
  onUnit : fv.fat0sec + fv.secPerFat ≤ blocks

/-- The copies of the FAT, the root directory and the data area lie behind each other on a
unit of so many blocks. -/
structure Placed (fv : FatVol) (blocks : Nat) : Prop where
  blksize : fv.blksize = BLKSIZE
  copies : 0 < fv.fatCount
  rootdir : fv.fat0sec + fv.fatCount * fv.secPerFat ≤ fv.rootdirsec
  datasec : fv.rootdirsec ≤ fv.datasec
  onUnit : fv.datasec ≤ blocks
  blocks : blocks < 0x100000000

variable (fv : FatVol)

/-- A copy of the FAT. -/
def fatBytes (data : Nat → Sector) (copy : Nat) : Nat → UInt8 := fun i =>
  data (fv.fat0sec + copy * fv.secPerFat + i / BLKSIZE) (i % BLKSIZE)

/-- The entry of a cluster in a copy of the FAT. -/
def entryOf (data : Nat → Sector) (copy cluster : Nat) : Nat :=
  get12 (fv.fatBytes data copy) cluster

/-- The FAT has an entry for the cluster. -/
def InFat (cluster : Nat) : Prop := offset12 cluster + 1 < fv.secPerFat * BLKSIZE

/-- The first sector of a copy of the FAT. -/
def IsCopy (blkno : Nat) : Prop := ∃ copy < fv.fatCount, blkno = fv.fat0sec + copy * fv.secPerFat

instance (blkno : Nat) : Decidable (fv.IsCopy blkno) :=
  inferInstanceAs (Decidable (∃ copy < fv.fatCount, blkno = fv.fat0sec + copy * fv.secPerFat))

/-- The unit once the entry of a cluster is stored in all copies of the FAT. -/
def fatStore (data : Nat → Sector) (cluster next : Nat) : Nat → Sector := fun blkno =>
  if fv.IsCopy blkno then set12 (data blkno) cluster next else data blkno

/-- The unit once the entry is stored in so many copies, the first of them at `sec`. -/
def fatStoreFrom (data : Nat → Sector) (cluster next copies sec : Nat) : Nat → Sector :=
  fun blkno =>
    if ∃ copy < copies, blkno = sec + copy * fv.secPerFat then set12 (data blkno) cluster next
    else data blkno

variable {fv} {data : Nat → Sector} {unit : Blocks} {cluster next c copy i blocks : Nat}

/-- A copy of the FAT lies in front of the root directory. -/
theorem Placed.copy_le (placed : fv.Placed blocks) (isCopy : copy < fv.fatCount) :
    fv.fat0sec + copy * fv.secPerFat + fv.secPerFat ≤ fv.rootdirsec := by
  have rows : (copy + 1) * fv.secPerFat ≤ fv.fatCount * fv.secPerFat :=
    Nat.mul_le_mul_right _ isCopy
  rw [Nat.succ_mul] at rows
  have rootdir := placed.rootdir
  omega

theorem fatOffs_eq (inFat : fv.InFat cluster) : fatOffs cluster = offset12 cluster := by
  have rows : fv.secPerFat < 0x10000 := UInt16.toNat_lt _
  have few : cluster * 3 < 0x100000000 := by
    unfold InFat offset12 BLKSIZE at inFat
    omega
  rw [fatOffs, word, Nat.mod_eq_of_lt few, offset12]

theorem Placed.firstCopy (placed : fv.Placed blocks) : fv.FirstCopy blocks := by
  have first := placed.copy_le placed.copies
  have rootdir := placed.rootdir
  have datasec := placed.datasec
  have onUnit := placed.onUnit
  have few := placed.blocks
  exact ⟨⟨placed.blksize, by omega, by omega⟩, by omega⟩

/-- The sector of a byte of the first copy. -/
theorem Geometry.fatSec_eq (geometry : fv.Geometry) (inside : i < fv.secPerFat * BLKSIZE) :
    fv.fatSec i = fv.fat0sec + i / BLKSIZE := by
  have first := geometry.first
  have row : i / BLKSIZE < fv.secPerFat := Nat.div_lt_of_lt_mul (by rwa [Nat.mul_comm])
  rw [fatSec, geometry.blksize, word, Nat.mod_eq_of_lt (by omega)]

theorem FirstCopy.fatSec_lt (firstCopy : fv.FirstCopy blocks)
    (inside : i < fv.secPerFat * BLKSIZE) : fv.fatSec i < blocks := by
  have onUnit := firstCopy.onUnit
  have row : i / BLKSIZE < fv.secPerFat := Nat.div_lt_of_lt_mul (by rwa [Nat.mul_comm])
  rw [firstCopy.fatSec_eq inside]
  omega

/-- The bytes of an entry in the first copy. -/
theorem entryOf_first (geometry : fv.Geometry) (inFat : fv.InFat c) :
    fv.entryOf data 0 c = unpack12 c
      (data (fv.fatSec (offset12 c)) (offset12 c % BLKSIZE))
      (data (fv.fatSec (offset12 c + 1)) ((offset12 c + 1) % BLKSIZE)) := by
  rw [entryOf, get12, fatBytes, fatBytes, geometry.fatSec_eq inFat,
    geometry.fatSec_eq (Nat.lt_of_succ_lt inFat), Nat.zero_mul, Nat.add_zero]

/-- `clus_get_next` returns the entry in the first copy. -/
theorem clusGetNext_does (firstCopy : fv.FirstCopy unit.blocks) (inFat : fv.InFat cluster)
    (room : unit.Room 1) :
    Does (fv.clusGetNext cluster) unit (fv.entryOf unit.data 0 cluster) unit.data := by
  have lowOn := firstCopy.fatSec_lt (Nat.lt_of_succ_lt inFat)
  have highOn := firstCopy.fatSec_lt inFat
  have lowByte : offset12 cluster % BLKSIZE < BLKSIZE := Nat.mod_lt _ (by decide)
  have highByte : (offset12 cluster + 1) % BLKSIZE < BLKSIZE := Nat.mod_lt _ (by decide)
  rw [entryOf_first firstCopy.toGeometry inFat]
  simp only [clusGetNext, fatOffs_eq inFat, firstCopy.blksize]
  generalize fv.fatSec (offset12 cluster) = sec0 at *
  generalize fv.fatSec (offset12 cluster + 1) = sec1 at *
  by_cases same : sec1 = sec0
  · rw [same]
    simp only [ne_eq, not_true_eq_false, if_false]
    refine ⟨_, (unit.hold sec0).release sec0, ?_, rfl, Blocks.Kept.cycle unit _, rfl⟩
    rw [Program.bind_ok (Blocks.bcGet_ok room lowOn _),
      Program.bind_ok (Blocks.readByte_ok lowByte), Program.bind_ok (Blocks.readByte_ok highByte),
      Program.bind_ok (Blocks.bcPut_ok Blocks.mem_hold)]
    rfl
  · have kept := Blocks.Kept.cycle unit sec0
    simp only [ne_eq, same, not_false_eq_true, if_true]
    refine ⟨_, (((unit.hold sec0).release sec0).hold sec1).release sec1, ?_, rfl,
      kept.trans (Blocks.Kept.cycle _ sec1), rfl⟩
    rw [Program.bind_ok (Blocks.bcGet_ok room lowOn _),
      Program.bind_ok (Blocks.readByte_ok lowByte), Program.bind_ok (Blocks.bcPut_ok Blocks.mem_hold),
      Program.bind_ok (Blocks.bcGet_ok (kept.room room) highOn _),
      Program.bind_ok (Blocks.readByte_ok highByte), Program.bind_ok (Blocks.bcPut_ok Blocks.mem_hold)]
    rfl

/-! ## Storing an entry -/

/-- The entry lies in the first sector of a copy, where `clus_set_next` finds its bytes. -/
theorem low_offset (low : cluster ≤ 340) : offset12 cluster + 1 < BLKSIZE := by
  unfold offset12 BLKSIZE
  omega

/-- The sector of the entry once it is stored. -/
def stored12 (data : Nat → Sector) (sec cluster next : Nat) : Nat → Sector :=
  update data sec (set12 (data sec) cluster next)

theorem fatStoreFrom_zero (sec : Nat) : fv.fatStoreFrom data cluster next 0 sec = data := by
  funext blkno
  simp [fatStoreFrom]

theorem fatStoreFrom_succ (rows : 0 < fv.secPerFat) (copies sec : Nat) :
    fv.fatStoreFrom (stored12 data sec cluster next) cluster next copies (sec + fv.secPerFat) =
      fv.fatStoreFrom data cluster next (copies + 1) sec := by
  funext blkno
  simp only [fatStoreFrom, stored12, Nat.exists_lt_succ_left, Nat.zero_mul, Nat.add_zero,
    Nat.succ_mul, ← Nat.add_assoc, Nat.add_right_comm sec]
  by_cases first : blkno = sec
  · subst first
    have apart : ¬∃ copy < copies, blkno = blkno + fv.secPerFat + copy * fv.secPerFat := by
      rintro ⟨copy, -, same⟩
      omega
    simp [apart]
  · simp [first]

/-- The bytes of the entry in the sector that has been got. -/
def setBytes (sec cluster next : Nat) (rest : BlockM Unit) : BlockM Unit := do
  let low ← readByte sec (offset12 cluster)
  writeByte sec (offset12 cluster) (packLow12 cluster next low)
  let high ← readByte sec (offset12 cluster + 1)
  writeByte sec (offset12 cluster + 1) (packHigh12 cluster next high)
  bcPut sec
  rest

theorem setBytes_ran {sec : Nat} (rest : BlockM Unit) (low : cluster ≤ 340) (unit : Blocks) :
    setBytes sec cluster next rest (unit.hold sec) =
      rest ({ unit.hold sec with data := stored12 unit.data sec cluster next }.release sec) := by
  have highByte := low_offset low
  have lowByte : offset12 cluster < BLKSIZE := Nat.lt_of_succ_lt highByte
  rw [setBytes, Program.bind_ok (Blocks.readByte_ok lowByte),
    Program.bind_ok (Blocks.writeByte_ok lowByte _), Program.bind_ok (Blocks.readByte_ok highByte),
    Program.bind_ok (Blocks.writeByte_ok highByte _)]
  refine (Program.bind_ok (Blocks.bcPut_ok (by simp))).trans ?_
  simp [Blocks.setData, Blocks.hold, Blocks.release, set12, stored12]

/-- One turn of the loop of `clus_set_next`: the bytes of the entry in one copy. -/
theorem setOne_does {sec : Nat} {result : Unit} {data' : Nat → Sector} (rest : BlockM Unit)
    (low : cluster ≤ 340) (onUnit : sec < unit.blocks) (room : unit.Room 1)
    (does : ∀ unit', unit.Kept unit' → unit'.data = stored12 unit.data sec cluster next →
      Does rest unit' result data') :
    Does (do bcGet sec false; setBytes sec cluster next rest) unit result data' := by
  have kept := Blocks.Kept.bracket unit (stored12 unit.data sec cluster next) sec
  obtain ⟨after, ran, kept', left⟩ := (does _ kept rfl).after kept
  refine ⟨result, after, ?_, rfl, kept', left⟩
  rw [Program.bind_ok (Blocks.bcGet_ok room onUnit _), setBytes_ran rest low]
  exact ran

/-- The loop of `clus_set_next`, from the copy at `sec` on. -/
theorem clusSetNextLoop_does (inFat : fv.InFat cluster) (low : cluster ≤ 340) :
    ∀ copies sec unit, sec + copies * fv.secPerFat ≤ unit.blocks → unit.blocks < 0x100000000 →
      unit.Room 1 → Does (fv.clusSetNextLoop cluster next copies sec sec) unit ()
        (fv.fatStoreFrom unit.data cluster next copies sec) := by
  have rows : 0 < fv.secPerFat := Nat.pos_of_mul_pos_right (Nat.zero_lt_of_lt inFat)
  intro copies
  induction copies with
  | zero =>
      intro sec unit _ _ _
      rw [fatStoreFrom_zero]
      exact Does.pure unit ()
  | succ copies ih =>
      intro sec unit inside few room
      rw [Nat.succ_mul] at inside
      have step : word (sec + fv.secPerFat) = sec + fv.secPerFat := Nat.mod_eq_of_lt (by omega)
      simp only [clusSetNextLoop, fatOffs_eq inFat, ne_eq, not_true_eq_false, if_false, step]
      refine setOne_does (fv.clusSetNextLoop cluster next copies _ _) low (by omega) room
        fun unit' kept stored => ?_
      rw [← fatStoreFrom_succ rows, ← stored]
      exact ih (sec + fv.secPerFat) unit' (by rw [kept.blocks]; omega)
        (by rw [kept.blocks]; exact few) (kept.room room)

/-- `clus_set_next` stores the entry in all copies. -/
theorem clusSetNext_does (placed : fv.Placed unit.blocks) (inFat : fv.InFat cluster)
    (low : cluster ≤ 340) (room : unit.Room 1) :
    Does (fv.clusSetNext cluster next) unit () (fv.fatStore unit.data cluster next) := by
  have highByte := low_offset low
  have lowByte : offset12 cluster < BLKSIZE := Nat.lt_of_succ_lt highByte
  have first : fv.fatSec (fatOffs cluster) = fv.fat0sec := by
    rw [fatOffs_eq inFat, placed.firstCopy.fatSec_eq (Nat.lt_of_succ_lt inFat),
      Nat.div_eq_of_lt lowByte, Nat.add_zero]
  have second : fv.fatSec (fatOffs cluster + 1) = fv.fat0sec := by
    rw [fatOffs_eq inFat, placed.firstCopy.fatSec_eq inFat, Nat.div_eq_of_lt highByte,
      Nat.add_zero]
  rw [clusSetNext, first, second]
  refine clusSetNextLoop_does inFat low _ _ unit ?_ placed.blocks room
  exact placed.rootdir.trans (placed.datasec.trans placed.onUnit)

/-- The bytes of the first sector of a copy. -/
theorem fatBytes_first (first : i < BLKSIZE) :
    fv.fatBytes data copy i = data (fv.fat0sec + copy * fv.secPerFat) i := by
  rw [fatBytes, Nat.div_eq_of_lt first, Nat.mod_eq_of_lt first, Nat.add_zero]

/-- What is stored changes the two bytes of the entry in a copy. -/
theorem fatBytes_fatStore (isCopy : copy < fv.fatCount) (low : cluster ≤ 340)
    (inside : i < fv.secPerFat * BLKSIZE) :
    fv.fatBytes (fv.fatStore data cluster next) copy i =
      set12 (fv.fatBytes data copy) cluster next i := by
  have highByte := low_offset low
  by_cases first : i < BLKSIZE
  · have isFirst : fv.IsCopy (fv.fat0sec + copy * fv.secPerFat) := ⟨copy, isCopy, rfl⟩
    rw [fatBytes_first first, fatStore, if_pos isFirst]
    exact set12_congr (fatBytes_first (Nat.lt_of_succ_lt highByte)).symm
      (fatBytes_first highByte).symm (fatBytes_first first).symm
  · have row : i / BLKSIZE < fv.secPerFat := Nat.div_lt_of_lt_mul (by rwa [Nat.mul_comm])
    have later : 0 < i / BLKSIZE := Nat.div_pos (Nat.le_of_not_lt first) (by decide)
    have notFirst : ¬fv.IsCopy (fv.fat0sec + copy * fv.secPerFat + i / BLKSIZE) := by
      rintro ⟨other, -, same⟩
      have rows : copy * fv.secPerFat + i / BLKSIZE = other * fv.secPerFat := by omega
      have rest := congrArg (· % fv.secPerFat) rows
      simp only [Nat.mul_add_mod_self_right, Nat.mul_mod_left, Nat.mod_eq_of_lt row] at rest
      omega
    rw [fatBytes, fatStore, if_neg notFirst, set12_apart (by omega), fatBytes]

/-- An entry in a copy after one has been stored in all of them. -/
theorem entryOf_fatStore (isCopy : copy < fv.fatCount) (low : cluster ≤ 340)
    (small : next < 0x1000) (inFat : fv.InFat c) :
    fv.entryOf (fv.fatStore data cluster next) copy c =
      if c = cluster then next else fv.entryOf data copy c := by
  have stored : fv.entryOf (fv.fatStore data cluster next) copy c =
      get12 (set12 (fv.fatBytes data copy) cluster next) c :=
    get12_congr (fatBytes_fatStore isCopy low (Nat.lt_of_succ_lt inFat))
      (fatBytes_fatStore isCopy low inFat)
  rw [stored]
  split
  · next same =>
      rw [same]
      exact get12_set12_self small
  · next other => exact get12_set12_ne other

/-! ## Taking a free cluster -/

/-- The unit with the block that `clus_alloc` has got. -/
def holding (base : Blocks) : Option Nat → Blocks
  | none => base
  | some blkno => base.hold blkno

/-- What `clus_alloc` does with the entry of a cluster, of which it has got the second
sector. -/
def allocEntry (fv : FatVol) (left c sec1 entry : Nat) : BlockM Nat :=
  if entry = 0 then do
    bcPut sec1
    fv.clusSetNext c 0xfff
    return c
  else fv.clusAllocLoop left (c + 1) (some sec1)

/-- An entry is read while the block of its first byte is in use; that of the second byte
is in use then. -/
theorem readEntry (base : Blocks) {sec0 sec1 low high : Nat} (lowByte : low < BLKSIZE)
    (highByte : high < BLKSIZE) (onUnit : sec1 < base.blocks) (room : base.Room 1)
    (rest : Nat → BlockM Nat) :
    ∃ base', base.Kept base' ∧ base'.data = base.data ∧
      (do
        let first ← readByte sec0 low
        if sec1 ≠ sec0 then
          bcPut sec0
          bcGet sec1 false
        let second ← readByte sec1 high
        rest (unpack12 c first second) : BlockM Nat) (base.hold sec0) =
      rest (unpack12 c (base.data sec0 low) (base.data sec1 high)) (base'.hold sec1) := by
  by_cases same : sec1 = sec0
  · subst same
    refine ⟨base, .refl base, rfl, ?_⟩
    simp only [ne_eq, not_true_eq_false, if_false]
    rw [Program.bind_ok (Blocks.readByte_ok lowByte), Program.bind_ok (Blocks.readByte_ok highByte)]
    rfl
  · have kept := Blocks.Kept.cycle base sec0
    refine ⟨_, kept, rfl, ?_⟩
    simp only [ne_eq, same, not_false_eq_true, if_true]
    rw [Program.bind_ok (Blocks.readByte_ok lowByte), Program.bind_ok (Blocks.bcPut_ok Blocks.mem_hold),
      Program.bind_ok (Blocks.bcGet_ok (kept.room room) onUnit _),
      Program.bind_ok (Blocks.readByte_ok highByte)]
    rfl

/-- One turn of the loop of `clus_alloc` reads the entry of the cluster. -/
theorem clusAllocLoop_turn {base : Blocks} (left : Nat) (blk : Option Nat)
    (firstCopy : fv.FirstCopy base.blocks) (inFat : fv.InFat c) (room : base.Room 1) :
    ∃ base', base.Kept base' ∧ base'.data = base.data ∧
      fv.clusAllocLoop (left + 1) c blk (holding base blk) =
        fv.allocEntry left c (fv.fatSec (offset12 c + 1)) (fv.entryOf base.data 0 c)
          (base'.hold (fv.fatSec (offset12 c + 1))) := by
  have lowOn := firstCopy.fatSec_lt (Nat.lt_of_succ_lt inFat)
  have highOn := firstCopy.fatSec_lt inFat
  have lowByte : offset12 c % BLKSIZE < BLKSIZE := Nat.mod_lt _ (by decide)
  have highByte : (offset12 c + 1) % BLKSIZE < BLKSIZE := Nat.mod_lt _ (by decide)
  rw [entryOf_first firstCopy.toGeometry inFat, clusAllocLoop]
  simp only [fatOffs_eq inFat, firstCopy.blksize]
  generalize fv.fatSec (offset12 c) = sec0 at *
  generalize fv.fatSec (offset12 c + 1) = sec1 at *
  -- the block of the first byte is got unless it is the one that is in use
  by_cases same : blk = some sec0
  · subst same
    obtain ⟨base', kept, left', ran⟩ := readEntry base lowByte highByte highOn room
      (fv.allocEntry left c sec1)
    refine ⟨base', kept, left', ?_⟩
    simp only [ne_eq, not_true_eq_false, if_false]
    exact ran
  · simp only [ne_eq, same, not_false_eq_true, if_true]
    cases blk with
    | none =>
        obtain ⟨base', kept, left', ran⟩ := readEntry base lowByte highByte highOn room
          (fv.allocEntry left c sec1)
        refine ⟨base', kept, left', ?_⟩
        exact (Program.bind_ok (Blocks.bcGet_ok room lowOn _)).trans ran
    | some blkno =>
        have put := Blocks.Kept.cycle base blkno
        obtain ⟨base', kept, left', ran⟩ := readEntry ((base.hold blkno).release blkno) lowByte
          highByte highOn (put.room room) (fv.allocEntry left c sec1)
        refine ⟨base', put.trans kept, left', ?_⟩
        refine (Program.bind_ok (Blocks.bcPut_ok Blocks.mem_hold)).trans ?_
        exact (Program.bind_ok (Blocks.bcGet_ok (put.room room) lowOn _)).trans ran

/-- The loop of `clus_alloc` passes the clusters whose entries are not zero.  It has got a
block when it has read an entry. -/
theorem clusAllocLoop_pass (left : Nat) : ∀ n c (base : Blocks) blk, fv.FirstCopy base.blocks →
    base.Room 1 → (∀ i < n, fv.InFat (c + i) ∧ fv.entryOf base.data 0 (c + i) ≠ 0) →
      ∃ base' blk', base.Kept base' ∧ base'.data = base.data ∧ (blk' = none → blk = none ∧ n = 0) ∧
        fv.clusAllocLoop (left + n) c blk (holding base blk) =
          fv.clusAllocLoop left (c + n) blk' (holding base' blk') := by
  intro n
  induction n with
  | zero =>
      intro c base blk _ _ _
      exact ⟨base, blk, .refl base, rfl, fun none => ⟨none, rfl⟩, rfl⟩
  | succ n ih =>
      intro c base blk firstCopy room taken
      obtain ⟨inFat, used⟩ := taken 0 (Nat.succ_pos n)
      rw [Nat.add_zero] at inFat used
      obtain ⟨base', kept, same, ran⟩ :=
        clusAllocLoop_turn (left + n) blk firstCopy inFat room
      obtain ⟨base'', blk'', kept', same', got, ran'⟩ := ih (c + 1) base'
        (some (fv.fatSec (offset12 c + 1))) (kept.blocks ▸ firstCopy) (kept.room room)
        (fun i less => by
          rw [same, Nat.add_assoc, Nat.add_comm 1]
          exact taken (i + 1) (Nat.succ_lt_succ less))
      refine ⟨base'', blk'', kept.trans kept', same'.trans same, fun none => ?_, ?_⟩
      · exact absurd (got none).1 (Option.some_ne_none _)
      · rw [← Nat.add_assoc, ran, allocEntry, if_neg used]
        exact ran'.trans (by rw [Nat.add_assoc c, Nat.add_comm 1])

/-- The least cluster that is free. -/
structure LeastFree (fv : FatVol) (data : Nat → Sector) (free : Nat) : Prop where
  first : 2 ≤ free
  exist : free < fv.nClus
  isFree : fv.entryOf data 0 free = 0
  taken : ∀ d, 2 ≤ d → d < free → fv.entryOf data 0 d ≠ 0

/-- The first free cluster, one whose entry `clus_set_next` can store. -/
structure FirstFree (fv : FatVol) (data : Nat → Sector) (free : Nat) : Prop
    extends LeastFree fv data free where
  low : free ≤ 340
  inFat : fv.InFat free

/-- `clus_alloc` reads the entries up to the first one that is zero. -/
theorem clusAlloc_reach {free : Nat} (firstCopy : fv.FirstCopy unit.blocks) (room : unit.Room 1)
    (least : fv.LeastFree unit.data free) (inFat : fv.InFat free) :
    ∃ base, unit.Kept base ∧ base.data = unit.data ∧
      fv.clusAlloc unit = (do fv.clusSetNext free 0xfff; return free : BlockM Nat) base := by
  have first := least.first
  have exist := least.exist
  obtain ⟨base, blk, kept, same, -, ran⟩ := clusAllocLoop_pass (fv.nClus - free - 1 + 1) (free - 2)
    2 unit none firstCopy room fun i less => ⟨by unfold InFat offset12 at *; omega,
      least.taken (2 + i) (Nat.le_add_right 2 i) (by omega)⟩
  obtain ⟨base', kept', same', ran'⟩ := clusAllocLoop_turn (c := free) (fv.nClus - free - 1) blk
    (kept.blocks ▸ firstCopy) inFat (kept.room room)
  have put := Blocks.Kept.cycle base' (fv.fatSec (offset12 free + 1))
  refine ⟨_, kept.trans (kept'.trans put), same'.trans same, ?_⟩
  have whole : fv.nClus - 2 = fv.nClus - free - 1 + 1 + (free - 2) := by omega
  have behind : 2 + (free - 2) = free := by omega
  rw [behind, ran', same, least.isFree, allocEntry, if_pos rfl] at ran
  rw [clusAlloc, whole]
  exact ran.trans (Program.bind_ok (Blocks.bcPut_ok Blocks.mem_hold))

/-- `clus_alloc` takes the first free cluster. -/
theorem clusAlloc_does {free : Nat} (placed : fv.Placed unit.blocks) (room : unit.Room 1)
    (firstFree : fv.FirstFree unit.data free) :
    Does fv.clusAlloc unit free (fv.fatStore unit.data free 0xfff) := by
  obtain ⟨base, kept, same, ran⟩ :=
    clusAlloc_reach placed.firstCopy room firstFree.toLeastFree firstFree.inFat
  have does : Does (fv.clusSetNext free 0xfff) base () _ :=
    clusSetNext_does (kept.blocks ▸ placed) firstFree.inFat firstFree.low (kept.room room)
  obtain ⟨last, ran', kept', stored⟩ := does.run
  refine ⟨free, last, ran.trans (Program.bind_ok ran'), rfl, kept.trans kept', ?_⟩
  rw [stored, same]

end FatVol

end Pegasos.Hosted
