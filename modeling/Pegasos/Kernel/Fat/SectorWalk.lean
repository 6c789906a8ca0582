import Mathlib.Logic.Function.Iterate
import Pegasos.Kernel.Fat.FileRead

/-!
# Following a chain

What the loops of `fat_read` and of `fobj_get_sec_at_offs` do on a cache that serves them:
they follow the numbers in the FAT from cluster to cluster, and `fat_read` copies sector after
sector.
-/

namespace Pegasos.Kernel.Fat

open Pegasos.Support
open Pegasos.Fat (Sector)
open Cache (BlkPtr)

/-- The cluster so many links behind another one, if no mark is met. -/
def walk (next : Nat → Nat) : Nat → Nat → Option Nat
  | 0, c => some c
  | n + 1, c => if 0xff0 ≤ next c then none else walk next n (next c)

namespace FatVol

variable (fv : FatVol) (data : Nat → Sector)

/-- The entry of a cluster in the FAT. -/
def nextOf (c : Nat) : Nat :=
  unpack12 c (data (fv.fatSec (fatOffs c)) (fatOffs c % fv.blksize))
    (data (fv.fatSec (fatOffs c + 1)) ((fatOffs c + 1) % fv.blksize))

/-- The sector that `fat_read` comes to, so many bytes behind the beginning of a cluster. -/
def seqSector (ci t : Nat) : Nat :=
  word (fv.clusSector ((fv.nextOf data)^[t / BLOCK_SIZE / fv.secPerClus] ci) +
    t / BLOCK_SIZE % fv.secPerClus)

variable {fv data} {base : BlkPtr → Nat} {disk disk' : Disk} {held : List BlkPtr}
  {ci t size got : Nat} {b : BlkPtr} {α : Type}

theorem clusGetNext_gives (sized : fv.blksize = BLOCK_SIZE) (others : Others base)
    (one : held.length ≤ 1) (serves : Serves fv.dev fv.unit data base disk held) (c : Nat) :
    Program.Gives (fv.clusGetNext c) disk fun value after =>
      value = fv.nextOf data c ∧ Leaves fv.dev fv.unit data base disk held after := by
  have lowByte : fatOffs c % BLOCK_SIZE < BLOCK_SIZE := Nat.mod_lt _ (by decide)
  have highByte : (fatOffs c + 1) % BLOCK_SIZE < BLOCK_SIZE := Nat.mod_lt _ (by decide)
  rw [clusGetNext, nextOf, sized]
  generalize fv.fatSec (fatOffs c) = sec0
  generalize fv.fatSec (fatOffs c + 1) = sec1
  refine (serves.gets others one sec0).seq ?_
  rintro blk disk1 ⟨-, first, got⟩
  refine Program.Gives.seq (readByte_gives lowByte) ?_
  rintro _ _ ⟨rfl, rfl⟩
  rw [first]
  by_cases same : sec1 = sec0
  · subst same
    simp only [ne_eq, not_true_eq_false, if_false]
    refine Program.Gives.seq (readByte_gives highByte) ?_
    rintro _ _ ⟨rfl, rfl⟩
    rw [first]
    refine (got.serves.puts others one).seq fun _ disk2 put => ?_
    exact Program.Gives.pure ⟨rfl, got.trans put⟩
  · simp only [ne_eq, same, not_false_eq_true, if_true]
    refine (got.serves.puts others one).seq fun _ disk2 put => ?_
    refine (put.serves.gets others one sec1).seq ?_
    rintro blk' disk3 ⟨-, second, got'⟩
    refine Program.Gives.seq (readByte_gives highByte) ?_
    rintro _ _ ⟨rfl, rfl⟩
    rw [second]
    refine (got'.serves.puts others one).seq fun _ disk4 put' => ?_
    exact Program.Gives.pure ⟨rfl, ((got.trans put).trans got').trans put'⟩

theorem nextCluster_gives (sized : fv.blksize = BLOCK_SIZE) (others : Others base)
    (one : held.length ≤ 1) (serves : Serves fv.dev fv.unit data base disk held) (c : Nat) :
    Program.Gives (fv.nextCluster c) disk fun value after =>
      value = (0, fv.nextOf data c) ∧ Leaves fv.dev fv.unit data base disk held after := by
  refine (clusGetNext_gives sized others one serves c).attempt.seq ?_
  rintro _ after ⟨value, rfl, rfl, left⟩
  exact Program.Gives.pure ⟨rfl, left⟩

/-- The loop that follows the chain. -/
theorem walkLoop_gives (sized : fv.blksize = BLOCK_SIZE) (others : Others base)
    (one : held.length ≤ 1) (serves : Serves fv.dev fv.unit data base disk held) (n c : Nat) :
    Program.Gives (fv.walkLoop n c 0) disk fun result after =>
      result = ((walk (fv.nextOf data) n c).elim (.error (- EIO)) fun ci => .ok (0, ci)) ∧
        Leaves fv.dev fv.unit data base disk held after := by
  induction n generalizing c disk with
  | zero => exact Program.Gives.pure ⟨rfl, serves.leaves⟩
  | succ n ih =>
      rw [walkLoop, walk]
      refine (nextCluster_gives sized others one serves c).seq ?_
      rintro _ after ⟨rfl, left⟩
      by_cases mark : 0xff0 ≤ fv.nextOf data c
      · simp only [mark, if_true]
        exact Program.Gives.pure ⟨rfl, left⟩
      · simp only [mark, if_false]
        refine (ih left.serves (fv.nextOf data c)).mono fun result last ended => ?_
        exact ⟨ended.1, left.trans ended.2⟩

/-- The loop of `fobj_get_sec_at_offs`. -/
theorem secAtLoop_runs (sized : fv.blksize = BLOCK_SIZE) (others : Others base)
    (one : held.length ≤ 1) (serves : Serves fv.dev fv.unit data base disk held) (n c : Nat) :
    ∃ after, Leaves fv.dev fv.unit data base disk held after ∧
      fv.secAtLoop n c disk =
        (walk (fv.nextOf data) n c).elim (.err (- EIO) after) fun ci => .ok ci after := by
  induction n generalizing c disk with
  | zero => exact ⟨disk, serves.leaves, rfl⟩
  | succ n ih =>
      obtain ⟨value, after, ran, rfl, left⟩ := clusGetNext_gives sized others one serves c
      rw [secAtLoop, walk, Program.bind_ok ran]
      by_cases mark : 0xff0 ≤ fv.nextOf data c
      · simp only [mark, if_true]
        exact ⟨after, left, rfl⟩
      · simp only [mark, if_false]
        obtain ⟨last, left', ended⟩ := ih left.serves (fv.nextOf data c)
        exact ⟨last, left.trans left', ended⟩

/-! ## Copying -/

/-- The bytes from `got` on have been copied from the sectors behind the offset `t`. -/
structure Copied (fv : FatVol) (data : Nat → Sector) (base : BlkPtr → Nat) (held : List BlkPtr)
    (ci t size got : Nat) (before after : Disk) : Prop where
  serves : Serves fv.dev fv.unit data base after held
  buf : after.buf = stored before.buf got size fun k =>
    data (fv.seqSector data ci (t + k)) ((t + k) % BLOCK_SIZE)
  source : after.source = stored before.source got size fun k =>
    some (fv.seqSector data ci (t + k))

namespace Copied

theorem none (serves : Serves fv.dev fv.unit data base disk held) :
    fv.Copied data base held ci t 0 got disk disk :=
  ⟨serves, stored_zero.symm, stored_zero.symm⟩

theorem append {more : Nat} {last : Disk}
    (first : fv.Copied data base held ci t size got disk disk')
    (second : fv.Copied data base held ci (t + size) more (got + size) disk' last) :
    fv.Copied data base held ci t (size + more) got disk last := by
  refine ⟨second.serves, ?_, ?_⟩
  · rw [second.buf, first.buf, ← stored_append]
    simp only [Nat.add_assoc]
  · rw [second.source, first.source, ← stored_append]
    simp only [Nat.add_assoc]

/-- Parts that copy nothing, in front and behind. -/
theorem between {middle last : Disk} {held' : List BlkPtr}
    (first : Leaves fv.dev fv.unit data base disk held disk')
    (second : fv.Copied data base held ci t size got disk' middle)
    (third : Leaves fv.dev fv.unit data base middle held' last) :
    fv.Copied data base held' ci t size got disk last := by
  refine ⟨third.serves, ?_, ?_⟩
  · rw [third.buf, second.buf, first.buf]
  · rw [third.source, second.source, first.source]

end Copied

/-- A part of a sector is copied. -/
theorem copyOut_gives (serves : Serves fv.dev fv.unit data base disk (b :: held)) (len : Nat)
    (inside : t % BLOCK_SIZE + len ≤ BLOCK_SIZE)
    (tag : (disk.cache.blocks b).tag = fv.tag (fv.seqSector data ci t))
    (bytes : (disk.cache.blocks b).data = data (fv.seqSector data ci t)) :
    Program.Gives (copyOut got b (t % BLOCK_SIZE) len) disk fun _ after =>
      fv.Copied data base (b :: held) ci t len got disk after := by
  have sector : ∀ k < len, fv.seqSector data ci (t + k) = fv.seqSector data ci t ∧
      (t + k) % BLOCK_SIZE = t % BLOCK_SIZE + k := by
    intro k less
    have row : (t + k) / BLOCK_SIZE = t / BLOCK_SIZE := by
      unfold BLOCK_SIZE at *
      omega
    refine ⟨by rw [seqSector, seqSector, row], ?_⟩
    unfold BLOCK_SIZE at *
    omega
  have buf : stored disk.buf got len (fun k =>
      (disk.cache.blocks b).data (t % BLOCK_SIZE + k)) =
      stored disk.buf got len fun k =>
        data (fv.seqSector data ci (t + k)) ((t + k) % BLOCK_SIZE) :=
    stored_congr fun k less => by rw [bytes, (sector k less).1, (sector k less).2]
  have source : stored disk.source got len (fun _ => some (disk.cache.blocks b).tag.blkno) =
      stored disk.source got len fun k => some (fv.seqSector data ci (t + k)) :=
    stored_congr fun k less => by rw [tag, (sector k less).1]; rfl
  refine (serves.copiesOut b got (t % BLOCK_SIZE) len inside).mono ?_
  rintro ⟨⟩ after ⟨serves', buf', source'⟩
  exact ⟨serves', buf'.trans buf, source'.trans source⟩

/-- The sector behind another one, in the same cluster or in the next one. -/
theorem next_sector (some : 0 < fv.secPerClus) (q : Nat) :
    (q % fv.secPerClus + 1 < fv.secPerClus →
        (q + 1) / fv.secPerClus = q / fv.secPerClus ∧
          (q + 1) % fv.secPerClus = q % fv.secPerClus + 1) ∧
      (q % fv.secPerClus + 1 = fv.secPerClus →
        (q + 1) / fv.secPerClus = q / fv.secPerClus + 1 ∧ (q + 1) % fv.secPerClus = 0) := by
  have split := Nat.div_add_mod q fv.secPerClus
  refine ⟨fun within => ?_, fun last => ?_⟩
  · exact (Nat.div_mod_unique some).mpr ⟨by omega, within⟩
  · refine (Nat.div_mod_unique some).mpr ⟨?_, some⟩
    rw [Nat.mul_add_one]
    omega

/-- What is left behind a part is nothing or begins with a sector. -/
theorem next_row {len : Nat} (chunk : min (BLOCK_SIZE - t % BLOCK_SIZE) size = len)
    (more : size - len ≠ 0) : (t + len) / BLOCK_SIZE = t / BLOCK_SIZE + 1 := by
  unfold BLOCK_SIZE at *
  omega

theorem offset_eq (sized : fv.blksize = BLOCK_SIZE) (t : Nat) :
    sizeT (Int.tmod t fv.blksize) = t % BLOCK_SIZE := by
  rw [sized, sizeT, Int.tmod_eq_emod_of_nonneg (Int.natCast_nonneg t)]
  unfold BLOCK_SIZE
  omega

theorem int32_eq {value : Nat} (small : value < 0x80000000) : int32 value = value := by
  rw [int32, Int.bmod_def]
  omega

/-- `--secleft`. -/
theorem secleft_eq {spc row : Nat} (few : spc < 256) (less : row < spc) :
    word (spc - row + 0xffffffff) = spc - (row + 1) := by
  unfold word
  omega

theorem word_clusSector (c : Nat) : word (fv.clusSector c) = fv.clusSector c :=
  Nat.mod_mod _ _

theorem copyLoop_done (fuel ci sec secleft : Nat) (off rc : Int) :
    fv.copyLoop fuel ci sec secleft off 0 got rc = Pure.pure (rc, got) := by
  cases fuel <;> rfl

/-- The loop of `fat_read` that copies. -/
theorem copyLoop_gives (sized : fv.blksize = BLOCK_SIZE) (some : 0 < fv.secPerClus)
    (others : Others base) (one : held.length ≤ 1) (ci : Nat) :
    ∀ fuel t size got disk, size ≤ fuel → t + size < 0x80000000 →
      Serves fv.dev fv.unit data base disk held →
        Program.Gives (fv.copyLoop fuel
          ((fv.nextOf data)^[t / BLOCK_SIZE / fv.secPerClus] ci) (fv.seqSector data ci t)
          (fv.secPerClus - t / BLOCK_SIZE % fv.secPerClus) t size got 0) disk
          fun value after => value = (0, got + size) ∧
            fv.Copied data base held ci t size got disk after := by
  intro fuel
  induction fuel with
  | zero =>
      intro t size got disk enough small serves
      obtain rfl : size = 0 := by omega
      rw [copyLoop_done]
      exact Program.Gives.pure ⟨rfl, .none serves⟩
  | succ fuel ih =>
      intro t size got disk enough small serves
      by_cases done : size = 0
      · subst done
        rw [copyLoop_done]
        exact Program.Gives.pure ⟨rfl, .none serves⟩
      have offset : t % BLOCK_SIZE < BLOCK_SIZE := Nat.mod_lt _ (by decide)
      have few : fv.secPerClus < 256 := fv.bpb.sectorPerCluster.toNat_lt
      have row : t / BLOCK_SIZE % fv.secPerClus < fv.secPerClus := Nat.mod_lt _ some
      simp only [copyLoop, done, if_false, offset_eq sized]
      rw [sized]
      generalize chunk : min (BLOCK_SIZE - t % BLOCK_SIZE) size = len
      refine (serves.gets others one (fv.seqSector data ci t)).attempt.seq ?_
      rintro _ disk1 ⟨b, rfl, tag, bytes, got1⟩
      refine (copyOut_gives got1.serves len (by omega) tag bytes).seq ?_
      rintro ⟨⟩ disk2 copied
      refine (copied.serves.puts others one).attempt.seq ?_
      rintro _ disk3 ⟨⟨⟩, rfl, put⟩
      have part := Copied.between got1 copied put
      have part_le : len ≤ size := chunk ▸ Nat.min_le_right _ _
      have further : int32 ((t : Int) + len) = (t + len : Nat) :=
        int32_eq (Nat.lt_of_le_of_lt (Nat.add_le_add_left part_le t) small)
      have total : t + len + (size - len) = t + size := by omega
      have later := ih (t + len) (size - len) (got + len) disk3 (by omega)
        (total.symm ▸ small) part.serves
      have whole : ∀ value after, value = (0, got + len + (size - len)) ∧
          fv.Copied data base held ci (t + len) (size - len) (got + len) disk3 after →
            value = ((0 : Int), got + size) ∧
              fv.Copied data base held ci t size got disk after := by
        rintro _ after ⟨rfl, behind⟩
        have both := part.append behind
        have sum : got + len + (size - len) = got + size := by omega
        rw [show len + (size - len) = size by omega] at both
        exact ⟨by rw [sum], both⟩
      simp only [codeOf, Int.lt_irrefl, if_false, secleft_eq few row, further]
      by_cases within : t / BLOCK_SIZE % fv.secPerClus + 1 < fv.secPerClus
      · rw [if_pos (by omega)]
        refine Program.Gives.mono ?_ whole
        by_cases nothing : size - len = 0
        · rw [nothing, copyLoop_done] at later ⊢
          exact later
        obtain ⟨cluster, sector⟩ := (next_sector some (t / BLOCK_SIZE)).1 within
        rw [seqSector, next_row chunk nothing, cluster, sector] at later
        rw [seqSector, word_word_add]
        exact later
      · rw [if_neg (by omega)]
        refine (nextCluster_gives sized others one part.serves _).seq ?_
        rintro _ disk4 ⟨rfl, left⟩
        simp only [Int.lt_irrefl, if_false]
        have last : t / BLOCK_SIZE % fv.secPerClus + 1 = fv.secPerClus := by omega
        obtain ⟨cluster, sector⟩ := (next_sector some (t / BLOCK_SIZE)).2 last
        by_cases nothing : size - len = 0
        · obtain rfl : len = size := by omega
          rw [nothing, copyLoop_done]
          exact Program.Gives.pure ⟨rfl, .between serves.leaves part left⟩
        have later' := ih (t + len) (size - len) (got + len) disk4 (by omega)
          (total.symm ▸ small) left.serves
        rw [seqSector, next_row chunk nothing, cluster, sector, Function.iterate_succ_apply',
          Nat.add_zero, Nat.sub_zero, word_clusSector] at later'
        refine later'.mono fun value after ended => whole value after ⟨ended.1, ?_⟩
        exact .between left ended.2 ended.2.serves.leaves

end FatVol

end Pegasos.Kernel.Fat
