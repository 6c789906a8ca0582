import Pegasos.Kernel.Fat.SectorWalk

/-!
# The sectors of a file

Where `fobj_get_sec_at_offs` finds an offset and where `fat_read` begins, computed with an
`int` for the bytes of a cluster, and from it what the two functions do.
-/

namespace Pegasos.Kernel.Fat

open Pegasos.Support
open Pegasos.Fat (Sector direntAt)
open Cache (BlkPtr)

/-! ## Walks -/

section Walks

variable {next : Nat → Nat} {m n c d : Nat}

theorem walk_add : walk next (m + n) c = (walk next m c).bind (walk next n) := by
  induction m generalizing c with
  | zero => rw [Nat.zero_add]; rfl
  | succ m ih =>
      rw [Nat.succ_add, walk, walk]
      by_cases mark : 0xff0 ≤ next c
      · simp only [mark, if_true, Option.bind_none]
      · simp only [mark, if_false, ih]

/-- A walk that meets no mark follows the links. -/
theorem walk_eq_iterate (walked : walk next n c = some d) : d = next^[n] c := by
  induction n generalizing c with
  | zero => exact (Option.some.inj walked).symm
  | succ n ih =>
      rw [walk] at walked
      split at walked
      · cases walked
      · rw [Function.iterate_succ_apply]
        exact ih walked

end Walks

namespace FatVol

variable {fv : FatVol} {data : Nat → Sector} {base : BlkPtr → Nat} {disk : Disk}
  {held : List BlkPtr} {off size ino : Nat} {b : BlkPtr}

/-- The sectors have 512 bytes, and a cluster has as many of them as its bytes allow. -/
structure Sized (fv : FatVol) : Prop where
  blksize : fv.blksize = BLOCK_SIZE
  some : 0 < fv.secPerClus
  most : fv.secPerClus ≤ 64

/-- The bytes of a cluster. -/
def clusterBytes (fv : FatVol) : Nat := BLOCK_SIZE * fv.secPerClus

theorem bytesPerCluster_eq (sized : fv.Sized) (regular : fv.secPerClus < 64) :
    fv.bytesPerCluster = fv.clusterBytes := by
  rw [bytesPerCluster, sized.blksize, clusterBytes, Nat.cast_mul]
  apply int16_eq <;> (unfold BLOCK_SIZE; omega)

/-- The bytes of 64 sectors are a negative `int`. -/
theorem bytesPerCluster_even (sized : fv.Sized) (even : fv.secPerClus = 64) :
    fv.bytesPerCluster = -0x8000 := by
  rw [bytesPerCluster, sized.blksize, even]
  decide

theorem bytesPerCluster_ne_zero (sized : fv.Sized) : fv.bytesPerCluster ≠ 0 := by
  have some := sized.some
  rcases Nat.lt_or_ge fv.secPerClus 64 with regular | even
  · rw [bytesPerCluster_eq sized regular, clusterBytes]
    unfold BLOCK_SIZE
    omega
  · rw [bytesPerCluster_even sized (Nat.le_antisymm sized.most even)]
    decide

theorem clusterBytes_pos (sized : fv.Sized) : 0 < fv.clusterBytes :=
  Nat.mul_pos (by decide) sized.some

theorem clusOf_eq (sized : fv.Sized) (regular : fv.secPerClus < 64) (small : off < 0x80000000) :
    fv.clusOf off = off / fv.clusterBytes := by
  have less : off / fv.clusterBytes ≤ off := Nat.div_le_self _ _
  rw [clusOf, bytesPerCluster_eq sized regular, ← Int.ofNat_tdiv, wordOfInt]
  generalize off / fv.clusterBytes = row at *
  omega

theorem clusOf_even (sized : fv.Sized) (even : fv.secPerClus = 64) (small : off < 0x80000000) :
    fv.clusOf off = (0x100000000 - off / 0x8000) % 0x100000000 := by
  have row : (off : Int).tdiv 0x8000 = (off / 0x8000 : Nat) := (Int.ofNat_tdiv off 0x8000).symm
  rw [clusOf, bytesPerCluster_even sized even, Int.tdiv_neg, row, wordOfInt]
  omega

theorem offsIn_eq (sized : fv.Sized) (small : off < 0x80000000) :
    fv.offsIn off = (off % fv.clusterBytes : Nat) := by
  rw [offsIn]
  rcases Nat.lt_or_ge fv.secPerClus 64 with regular | most
  · have split := Nat.div_add_mod' off fv.clusterBytes
    have rest : (off : Int) - (off / fv.clusterBytes : Nat) * (fv.clusterBytes : Nat) =
        (off % fv.clusterBytes : Nat) := by
      rw [← Nat.cast_mul]
      omega
    rw [clusOf_eq sized regular small, bytesPerCluster_eq sized regular, rest]
    exact int32_eq (Nat.lt_of_le_of_lt (Nat.mod_le _ _) small)
  · have even := Nat.le_antisymm sized.most most
    have bytes : fv.clusterBytes = 0x8000 := by rw [clusterBytes, even]; decide
    rw [clusOf_even sized even small, bytesPerCluster_even sized even, bytes, int32, Int.bmod_def]
    omega

theorem secIn_eq (sized : fv.Sized) (small : off < 0x80000000) :
    fv.secIn off = off % fv.clusterBytes / BLOCK_SIZE := by
  have less : off % fv.clusterBytes / BLOCK_SIZE ≤ off :=
    (Nat.div_le_self _ _).trans (Nat.mod_le _ _)
  rw [secIn, offsIn_eq sized small, sized.blksize, ← Int.ofNat_tdiv, wordOfInt]
  generalize off % fv.clusterBytes / BLOCK_SIZE = row at *
  omega

/-- The sector that `fobj_get_sec_at_offs` finds behind so many links. -/
def sectorAt (fv : FatVol) (ci off : Nat) : Nat :=
  word (off % fv.clusterBytes / BLOCK_SIZE + fv.clusSector ci)

theorem fobjGetSecAtOffs_runs (sized : fv.Sized) (others : Others base) (one : held.length ≤ 1)
    (serves : Serves fv.dev fv.unit data base disk held) (small : off < 0x80000000) (c : Nat) :
    (walk (fv.nextOf data) (fv.clusOf off) c = none ∧
        ∃ after, fv.fobjGetSecAtOffs c off disk = .err (- EIO) after) ∨
      ∃ ci, walk (fv.nextOf data) (fv.clusOf off) c = some ci ∧
        ∃ b after, fv.fobjGetSecAtOffs c off disk = .ok b after ∧
          (after.cache.blocks b).tag = fv.tag (fv.sectorAt ci off) ∧
          (after.cache.blocks b).data = data (fv.sectorAt ci off) := by
  obtain ⟨middle, left, ran⟩ :=
    secAtLoop_runs sized.blksize others one serves (fv.clusOf off) c
  rw [fobjGetSecAtOffs, if_neg (bytesPerCluster_ne_zero sized), secIn_eq sized small]
  cases walked : walk (fv.nextOf data) (fv.clusOf off) c with
  | none =>
      rw [walked] at ran
      refine .inl ⟨rfl, middle, ?_⟩
      rw [Program.bind_err ran]
  | some ci =>
      rw [walked] at ran
      obtain ⟨b, after, got, tag, bytes, -⟩ := left.serves.gets others one (fv.sectorAt ci off)
      refine .inr ⟨ci, rfl, b, after, ?_, tag, bytes⟩
      rw [Program.bind_ok ran]
      exact got

theorem seqSector_first {ci t : Nat} (first : t / BLOCK_SIZE < fv.secPerClus) :
    fv.seqSector data ci t = word (t / BLOCK_SIZE + fv.clusSector ci) := by
  rw [seqSector, Nat.div_eq_of_lt first, Nat.mod_eq_of_lt first, Function.iterate_zero_apply,
    Nat.add_comm]

/-- The row of an offset behind another one. -/
theorem row_add (sized : fv.Sized) (off k : Nat) : (off + k) / fv.clusterBytes =
    off / fv.clusterBytes + (off % fv.clusterBytes + k) / fv.clusterBytes := by
  rw [← Nat.mul_add_div (clusterBytes_pos sized), ← Nat.add_assoc, Nat.div_add_mod]

/-- `fat_read` comes to the sector of an offset in the cluster behind so many links. -/
theorem seqSector_eq (data : Nat → Sector) (s off k : Nat) :
    fv.seqSector data s (off % fv.clusterBytes + k) = fv.sectorAt
      ((fv.nextOf data)^[(off % fv.clusterBytes + k) / fv.clusterBytes] s) (off + k) := by
  have split := Nat.div_add_mod' off fv.clusterBytes
  obtain ⟨t, isT⟩ : ∃ t, t = off % fv.clusterBytes + k := ⟨_, rfl⟩
  have sum : off + k = t + off / fv.clusterBytes * fv.clusterBytes := by omega
  have rest : (off + k) % fv.clusterBytes = t % fv.clusterBytes := by
    rw [sum, Nat.add_mul_mod_self_right]
  have place : t / BLOCK_SIZE % fv.secPerClus = t % fv.clusterBytes / BLOCK_SIZE :=
    (Nat.mod_mul_right_div_self t BLOCK_SIZE fv.secPerClus).symm
  rw [← isT, seqSector, sectorAt, Nat.div_div_eq_div_mul, ← clusterBytes, place, rest, Nat.add_comm]

/-- What `readChain` does: it follows the chain to the cluster of the offset, and copies. -/
theorem readChain_gives (sized : fv.Sized) (others : Others base) (one : held.length ≤ 1)
    (serves : Serves fv.dev fv.unit data base disk held) (small : off < 0x80000000)
    (few : size < 0x10000) (c : Nat) :
    Program.Gives (fv.readChain c off size) disk fun value after =>
      (walk (fv.nextOf data) (fv.clusOf off) c = none ∧
          value = (- EIO, 0) ∧ Leaves fv.dev fv.unit data base disk held after) ∨
        ∃ s, walk (fv.nextOf data) (fv.clusOf off) c = some s ∧ value = (0, size) ∧
          fv.Copied data base held s (off % fv.clusterBytes) size 0 disk after := by
  have start : off % fv.clusterBytes < fv.clusterBytes :=
    Nat.mod_lt _ (clusterBytes_pos sized)
  have few' : fv.secPerClus < 256 := fv.bpb.sectorPerCluster.toNat_lt
  have first : off % fv.clusterBytes / BLOCK_SIZE < fv.secPerClus :=
    Nat.div_lt_of_lt_mul start
  rw [readChain, if_neg (bytesPerCluster_ne_zero sized), secIn_eq sized small,
    offsIn_eq sized small]
  refine (walkLoop_gives sized.blksize others one serves (fv.clusOf off) c).seq ?_
  intro result middle walked
  rw [walked.1]
  have left := walked.2
  cases walk (fv.nextOf data) (fv.clusOf off) c with
  | none =>
      simp only [Option.elim_none]
      exact Program.Gives.pure (.inl ⟨trivial, rfl, left⟩)
  | some s =>
      have bytes : fv.clusterBytes ≤ 0x8000 := Nat.mul_le_mul_left BLOCK_SIZE sized.most
      have copied := copyLoop_gives sized.blksize sized.some others one s size
        (off % fv.clusterBytes) size 0 middle (Nat.le_refl _) (by omega) left.serves
      have secleft : word (fv.secPerClus + 0x100000000 - off % fv.clusterBytes / BLOCK_SIZE) =
          fv.secPerClus - off % fv.clusterBytes / BLOCK_SIZE := by
        generalize off % fv.clusterBytes / BLOCK_SIZE = row at *
        unfold word
        omega
      rw [seqSector_first first, Nat.div_eq_of_lt first, Nat.mod_eq_of_lt first,
        Function.iterate_zero_apply, Nat.zero_add] at copied
      simp only [Option.elim_some, secleft]
      refine copied.mono fun value after ended => .inr ⟨s, rfl, ended.1, ?_⟩
      exact .between left ended.2 ended.2.serves.leaves

theorem clampSize_lt (fileSize : UInt32) (off : Int) (few : size < 0x10000) :
    clampSize fileSize off size < 0x10000 := by
  unfold clampSize sizeT
  split <;> omega

theorem not_overflow (small : off + size < 0x80000000) :
    ¬int32 ((off : Int) + size) < off := by
  rw [← Nat.cast_add, int32_eq small]
  omega

/-- A sector that is held while the rest of the program runs. -/
theorem put_gives (others : Others base)
    (serves : Serves fv.dev fv.unit data base disk [b]) :
    Program.Gives (Program.attempt (bcPut b)) disk fun result after =>
      codeOf result = 0 ∧ Leaves fv.dev fv.unit data base disk [] after := by
  refine (serves.puts others (Nat.zero_le 1)).attempt.mono fun result after put => ?_
  obtain ⟨⟨⟩, rfl, left⟩ := put
  exact ⟨rfl, left⟩

/-- What `fat_read` does to a file, if `off + size` does not overflow. -/
theorem fatRead_gives (sized : fv.Sized) (others : Others base)
    (serves : Serves fv.dev fv.unit data base disk []) (isFile : ino ≠ 0)
    (few : size < 0x10000) (small : off + size < 0x80000000) :
    Program.Gives (fv.fatRead ino off size) disk fun value after =>
      let dir := direntAt (data (inoSec ino)) (inoOffs ino)
      (walk (fv.nextOf data) (fv.clusOf off) dir.cluster0.toNat = none ∧
          value = sizeT (- EIO) ∧ Leaves fv.dev fv.unit data base disk [] after) ∨
        ∃ s, walk (fv.nextOf data) (fv.clusOf off) dir.cluster0.toNat = some s ∧
          value = clampSize dir.size off size ∧
            fv.Copied data base [] s (off % fv.clusterBytes) (clampSize dir.size off size) 0 disk
              after := by
  have small' : off < 0x80000000 := Nat.lt_of_le_of_lt (Nat.le_add_right off size) small
  rw [fatRead, if_neg (not_overflow small), if_neg isFile]
  refine (serves.gets others (Nat.zero_le 1) (inoSec ino)).attempt.seq ?_
  rintro _ disk1 ⟨b, rfl, -, bytes, got⟩
  refine Program.Gives.seq (readBlock_gives b) ?_
  rintro _ _ ⟨rfl, rfl⟩
  rw [bytes]
  generalize direntAt (data (inoSec ino)) (inoOffs ino) = dir
  have single : [b].length ≤ 1 := Nat.le_refl 1
  have chain := readChain_gives sized others single got.serves small'
    (clampSize_lt dir.size off few) dir.cluster0.toNat
  refine chain.seq fun value disk2 ended => ?_
  rcases ended with ⟨walked, value_eq, left⟩ | ⟨s, walked, value_eq, copied⟩
  · rw [value_eq]
    refine (put_gives others left.serves).seq fun result disk3 put => ?_
    exact Program.Gives.pure (.inl ⟨walked, rfl, (got.trans left).trans put.2⟩)
  · rw [value_eq]
    refine (put_gives others copied.serves).seq fun result disk3 put => ?_
    simp only [put.1, ne_eq, not_true_eq_false, if_false]
    exact Program.Gives.pure (.inr ⟨s, walked, rfl, .between got copied put.2⟩)

end FatVol

end Pegasos.Kernel.Fat
