import Pegasos.Kernel.Fat.Mount
import Pegasos.Kernel.Fat.SectorWalk

/-!
# Reading the root directory

`read_root_dir` copies from the same place in each sector, since it computes that place from
an offset that it does not advance.
-/

namespace Pegasos.Kernel.Fat

open Pegasos.Support
open Pegasos.Fat (Sector)
open Cache (BlkPtr)

namespace FatVol

/-- The bytes of the root directory area. -/
def rootBytes (fv : FatVol) : Nat := (fv.datasec - fv.rootdirsec) * BLOCK_SIZE

/-- `read_root_dir` returns as many bytes as there are, and copies those of the area. -/
def RightSlice (fv : FatVol) (data : Nat → Sector) (disk : Disk) (off size : Nat) : Prop :=
  Program.Gives (fv.readRootDir off size) disk fun value after =>
    value = min size (fv.rootBytes - off) ∧
      after.buf = stored disk.buf 0 (min size (fv.rootBytes - off)) fun k =>
        data (fv.rootdirsec + (off + k) / BLOCK_SIZE) ((off + k) % BLOCK_SIZE)

/-- The bytes that are copied from a sector. -/
def rootChunk (off : Nat) : Nat := BLOCK_SIZE - off % BLOCK_SIZE

/-- The first sector that is read. -/
def rootSec (fv : FatVol) (off : Nat) : Nat := word (fv.rootdirsec + off / BLOCK_SIZE)

/-- Nothing is read, or what is read begins with a sector or ends with the first one. -/
def InPhase (fv : FatVol) (off size : Nat) : Prop :=
  size = 0 ∨ fv.datasec ≤ fv.rootSec off ∨
    fv.rootdirsec + off / BLOCK_SIZE < 0x100000000 ∧
      (off % BLOCK_SIZE = 0 ∨ size ≤ rootChunk off ∨
        fv.datasec = fv.rootdirsec + off / BLOCK_SIZE + 1)

variable {fv : FatVol} {data : Nat → Sector} {base : BlkPtr → Nat} {disk : Disk} {off size : Nat}

theorem rootChunk_pos (off : Nat) : 0 < rootChunk off :=
  Nat.sub_pos_of_lt (Nat.mod_lt off (by decide))

/-- The loop of `read_root_dir`. -/
theorem readRootDirLoop_gives (sized : fv.blksize = BLOCK_SIZE) (others : Others base)
    (off : Nat) : ∀ left sec0 size got disk, Serves fv.dev fv.unit data base disk [] →
      Program.Gives (fv.readRootDirLoop off left sec0 size got) disk fun value after =>
        value = got + min size (left * rootChunk off) ∧
          after.buf = stored disk.buf got (min size (left * rootChunk off)) fun k =>
            data (sec0 + k / rootChunk off) (off % BLOCK_SIZE + k % rootChunk off) := by
  intro left
  induction left with
  | zero =>
      intro sec0 size got disk serves
      rw [Nat.zero_mul, Nat.min_zero, stored_zero]
      exact Program.Gives.pure ⟨rfl, rfl⟩
  | succ left ih =>
      intro sec0 size got disk serves
      by_cases done : size = 0
      · subst done
        rw [readRootDirLoop, if_pos rfl, Nat.zero_min, stored_zero]
        exact Program.Gives.pure ⟨rfl, rfl⟩
      have positive := rootChunk_pos off
      have offset : off % BLOCK_SIZE + rootChunk off = BLOCK_SIZE :=
        Nat.add_sub_of_le (Nat.mod_lt off (by decide)).le
      simp only [readRootDirLoop, done, if_false, offset_eq sized]
      rw [sized]
      generalize chunk : min (BLOCK_SIZE - off % BLOCK_SIZE) size = len
      change min (rootChunk off) size = len at chunk
      have part_le : len ≤ rootChunk off := chunk ▸ Nat.min_le_left _ _
      refine (serves.gets others (Nat.zero_le 1) sec0).attempt.seq ?_
      rintro _ disk1 ⟨b, rfl, -, bytes, got1⟩
      refine (got1.serves.copiesOut b got (off % BLOCK_SIZE) len (by omega)).seq ?_
      rintro ⟨⟩ disk2 ⟨serves2, buf2, -⟩
      refine (serves2.puts others (Nat.zero_le 1)).attempt.seq ?_
      rintro _ disk3 ⟨⟨⟩, rfl, put⟩
      have total : len + min (size - len) (left * rootChunk off) =
          min size ((left + 1) * rootChunk off) := by
        rw [Nat.succ_mul]
        omega
      refine (ih (sec0 + 1) (size - len) (got + len) disk3 put.serves).mono ?_
      intro value after ended
      refine ⟨by rw [ended.1, ← total, Nat.add_assoc], ?_⟩
      rw [ended.2, put.buf, buf2, bytes, got1.buf, ← total, ← stored_append]
      have here : stored disk.buf got len (fun k => data sec0 (off % BLOCK_SIZE + k)) =
          stored disk.buf got len fun k =>
            data (sec0 + k / rootChunk off) (off % BLOCK_SIZE + k % rootChunk off) := by
        refine stored_congr fun k less => ?_
        have row : k < rootChunk off := Nat.lt_of_lt_of_le less part_le
        rw [Nat.div_eq_of_lt row, Nat.mod_eq_of_lt row, Nat.add_zero]
      rw [here]
      refine stored_congr fun k less => ?_
      have full : len = rootChunk off := by omega
      rw [full, Nat.add_div_left _ positive, Nat.add_mod_left, Nat.add_assoc, Nat.add_comm 1]

/-- What `read_root_dir` does. -/
theorem readRootDir_gives (sized : fv.blksize = BLOCK_SIZE) (others : Others base)
    (serves : Serves fv.dev fv.unit data base disk []) (small : off < 0x80000000) (size : Nat) :
    Program.Gives (fv.readRootDir off size) disk fun value after =>
      value = min size ((fv.datasec - fv.rootSec off) * rootChunk off) ∧
        after.buf = stored disk.buf 0 (min size ((fv.datasec - fv.rootSec off) * rootChunk off))
          fun k => data (fv.rootSec off + k / rootChunk off)
            (off % BLOCK_SIZE + k % rootChunk off) := by
  have row : wordOfInt ((off : Int).tdiv BLOCK_SIZE) = off / BLOCK_SIZE := by
    rw [← Int.ofNat_tdiv, wordOfInt]
    unfold BLOCK_SIZE
    omega
  have some : fv.blksize ≠ 0 := by rw [sized]; decide
  rw [readRootDir, if_neg some, sized, row]
  refine (readRootDirLoop_gives sized others off (fv.datasec - fv.rootSec off) (fv.rootSec off) size
    0 disk serves).mono fun value after ended => ⟨ended.1.trans (Nat.zero_add _), ended.2⟩

/-! ## When the slice is right -/

/-- Where there are no more bytes in the area. -/
theorem rootBytes_sub (off : Nat) : fv.rootBytes - off =
    if fv.datasec ≤ fv.rootdirsec + off / BLOCK_SIZE then 0
    else (fv.datasec - (fv.rootdirsec + off / BLOCK_SIZE)) * BLOCK_SIZE - off % BLOCK_SIZE := by
  unfold rootBytes BLOCK_SIZE
  split <;> omega

theorem rootSec_le (fv : FatVol) (off : Nat) :
    fv.rootSec off ≤ fv.rootdirsec + off / BLOCK_SIZE := Nat.mod_le _ _

theorem rootSec_eq (fits : fv.rootdirsec + off / BLOCK_SIZE < 0x100000000) :
    fv.rootSec off = fv.rootdirsec + off / BLOCK_SIZE := Nat.mod_eq_of_lt fits

/-- In phase, the number of bytes is right. -/
theorem InPhase.count (phase : fv.InPhase off size) :
    min size ((fv.datasec - fv.rootSec off) * rootChunk off) = min size (fv.rootBytes - off) := by
  have below := rootSec_le fv off
  rw [rootBytes_sub]
  rcases phase with rfl | past | ⟨fits, phase⟩
  · rw [Nat.zero_min, Nat.zero_min]
  · rw [Nat.sub_eq_zero_of_le past, Nat.zero_mul, if_pos (past.trans below)]
  · rw [rootSec_eq fits]
    generalize fv.rootdirsec + off / BLOCK_SIZE = sec at phase
    by_cases past : fv.datasec ≤ sec
    · rw [if_pos past, Nat.sub_eq_zero_of_le past, Nat.zero_mul]
    · rw [if_neg past]
      rcases phase with aligned | short | last
      · rw [rootChunk, aligned]
        rfl
      · have first : size ≤ (fv.datasec - sec) * rootChunk off :=
          short.trans (Nat.le_mul_of_pos_left _ (Nat.sub_pos_of_lt (Nat.lt_of_not_le past)))
        have whole : size ≤ (fv.datasec - sec) * BLOCK_SIZE - off % BLOCK_SIZE := by
          unfold rootChunk BLOCK_SIZE at *
          omega
        rw [Nat.min_eq_left first, Nat.min_eq_left whole]
      · rw [last, Nat.add_sub_cancel_left, Nat.one_mul, Nat.one_mul]
        rfl

/-- In phase, every byte is copied from its place. -/
theorem InPhase.place {k : Nat} (phase : fv.InPhase off size)
    (copied : k < min size ((fv.datasec - fv.rootSec off) * rootChunk off)) :
    fv.rootSec off + k / rootChunk off = fv.rootdirsec + (off + k) / BLOCK_SIZE ∧
      off % BLOCK_SIZE + k % rootChunk off = (off + k) % BLOCK_SIZE := by
  have offset : off % BLOCK_SIZE < BLOCK_SIZE := Nat.mod_lt off (by decide)
  have inFirst : ∀ {sec : Nat}, k < rootChunk off →
      sec + off / BLOCK_SIZE + k / rootChunk off = sec + (off + k) / BLOCK_SIZE ∧
        off % BLOCK_SIZE + k % rootChunk off = (off + k) % BLOCK_SIZE := by
    intro sec less
    rw [Nat.div_eq_of_lt less, Nat.mod_eq_of_lt less]
    unfold rootChunk BLOCK_SIZE at *
    omega
  rcases phase with rfl | past | ⟨fits, phase⟩
  · rw [Nat.zero_min] at copied
    exact absurd copied (Nat.not_lt_zero k)
  · rw [Nat.sub_eq_zero_of_le past, Nat.zero_mul, Nat.min_zero] at copied
    exact absurd copied (Nat.not_lt_zero k)
  · rw [rootSec_eq fits] at copied ⊢
    rcases phase with aligned | short | last
    · rw [rootChunk, aligned]
      unfold BLOCK_SIZE at *
      omega
    · exact inFirst (Nat.lt_of_lt_of_le copied ((Nat.min_le_left _ _).trans short))
    · rw [last, Nat.add_sub_cancel_left, Nat.one_mul] at copied
      exact inFirst (Nat.lt_of_lt_of_le copied (Nat.min_le_right _ _))

/-- A sector that begins with 1. -/
def marked : Sector := fun i => if i = 0 then 1 else 0

/-- Out of phase, bytes are read behind the end of the area or from a wrong place. -/
theorem not_rightSlice (sized : fv.blksize = BLOCK_SIZE) (area : fv.datasec < 0x100000000)
    (small : off < 0x80000000) (phase : ¬fv.InPhase off size) :
    ¬fv.RightSlice (fun _ => marked) (.idle fun _ => marked) off size := by
  intro right
  obtain ⟨value, after, -, ended, wanted⟩ :=
    (readRootDir_gives sized .none (.idle fv.dev fv.unit fun _ => marked) small size).and right
  simp only [InPhase, not_or, not_and, Nat.not_le] at phase
  obtain ⟨some, more, phase⟩ := phase
  have positive := rootChunk_pos off
  have counts := ended.1.symm.trans wanted.1
  have first : rootChunk off ≤ (fv.datasec - fv.rootSec off) * rootChunk off :=
    Nat.le_mul_of_pos_left _ (Nat.sub_pos_of_lt more)
  by_cases fits : fv.rootdirsec + off / BLOCK_SIZE < 0x100000000
  · obtain ⟨phased, long, further⟩ := phase fits
    rw [rootSec_eq fits] at *
    have second : 2 * rootChunk off ≤
        (fv.datasec - (fv.rootdirsec + off / BLOCK_SIZE)) * rootChunk off :=
      Nat.mul_le_mul_right _ (by omega)
    have next := congrFun (ended.2.symm.trans wanted.2) (rootChunk off)
    rw [← counts, stored, stored, if_pos (by omega), if_pos (by omega), Nat.sub_zero,
      Nat.mod_self] at next
    have start : (off + rootChunk off) % BLOCK_SIZE = 0 := by
      unfold rootChunk BLOCK_SIZE at *
      omega
    rw [start, marked, if_neg (by omega)] at next
    exact absurd next (by decide : (0 : UInt8) ≠ marked 0)
  · rw [rootBytes_sub, if_pos (by omega), Nat.min_zero] at counts
    omega

/-- `read_root_dir` returns the right slice, whatever the area holds, exactly in phase. -/
theorem read_root_dir_slice (sized : fv.blksize = BLOCK_SIZE)
    (area : fv.datasec < 0x100000000) (small : off < 0x80000000) :
    (∀ data base disk, Others base → Serves fv.dev fv.unit data base disk [] →
      fv.RightSlice data disk off size) ↔ fv.InPhase off size := by
  constructor
  · intro right
    by_contra phase
    exact not_rightSlice sized area small phase (right _ _ _ .none (.idle fv.dev fv.unit _))
  · intro phase data base disk others serves
    refine (readRootDir_gives sized others serves small size).mono fun value after ended => ?_
    refine ⟨ended.1.trans phase.count, ended.2.trans ?_⟩
    rw [← phase.count]
    refine stored_congr fun k copied => ?_
    rw [(phase.place copied).1, (phase.place copied).2]

theorem floppy_rootdirsec : (ofBpb 0 0 .floppy).rootdirsec = 19 := by decide

theorem floppy_datasec : (ofBpb 0 0 .floppy).datasec = 33 := by decide

theorem read_root_dir_slice_floppy :
    (ofBpb 0 0 .floppy).RightSlice (fun _ => marked) (.idle fun _ => marked) 100 32 := by
  have area : (ofBpb 0 0 .floppy).datasec < 0x100000000 := by
    rw [floppy_datasec]
    decide
  have phase : (ofBpb 0 0 .floppy).InPhase 100 32 := by
    rw [InPhase, floppy_rootdirsec]
    decide
  exact (@read_root_dir_slice (ofBpb 0 0 .floppy) 100 32 rfl area (by decide)).mpr phase _ _ _ .none
    (.idle 0 0 _)

/-- A read of 1000 bytes from 100 on takes byte 100 of the second sector for its first one. -/
theorem read_root_dir_repeats_offset :
    ¬(ofBpb 0 0 .floppy).RightSlice (fun _ => marked) (.idle fun _ => marked) 100 1000 := by
  apply not_rightSlice rfl
  · rw [floppy_datasec]
    decide
  · decide
  · rw [InPhase, rootSec, floppy_rootdirsec, floppy_datasec]
    decide

end FatVol

end Pegasos.Kernel.Fat
