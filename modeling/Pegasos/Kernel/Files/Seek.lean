import Pegasos.Kernel.Files.FileIo

/-!
# The position of an open file

`kseek` tests for an overflow by comparing the wrapped sum with the offset.  That is
right for moves forward and wrong for moves back.
-/

namespace Pegasos.Kernel.Files

open Pegasos.Support
open Function (update)

def EOVERFLOW : Int := 13

theorem EOVERFLOW_neg : -EOVERFLOW < 0 := by decide

def SEEK_SET : Int := 0
def SEEK_CUR : Int := 1
def SEEK_END : Int := 2

namespace OpenFiles

variable (files : OpenFiles) (inoStat : UInt32 → Int × Stat) (fd : Int)

/-- `kfstat`, with what `ino_stat` returns and stores for an inode.  Without a valid
descriptor nothing is stored. -/
def kfstat (st : Stat) : Int × Stat :=
  if files.Valid fd then inoStat (files.oft fd.toNat).ino else (-EINVAL, st)

/-- The assignment to the position. -/
def setOffset (offset : Int) : OpenFiles := files.modify fd.toNat fun f => { f with offset := offset }

/-- The end of `kseek`: the new position and the test for an overflow. -/
def seekFrom (base offset : Int) : Int × OpenFiles :=
  let newoffs := int32 (base + offset)
  if (offset < 0 ∧ newoffs > offset) ∨ (offset > 0 ∧ newoffs < offset) then (-EOVERFLOW, files)
  else (newoffs, files.setOffset fd newoffs)

/-- `kseek`.  The `st` on its stack has some contents when it is called, and the error
for a bad descriptor is an unsigned number. -/
def kseek (st : Stat) (offset whence : Int) : Int × OpenFiles :=
  if files.Valid fd then
    if whence = SEEK_SET then files.seekFrom fd 0 offset
    else if whence = SEEK_CUR then files.seekFrom fd (files.oft fd.toNat).offset offset
    else if whence = SEEK_END then
      let (err, st) := files.kfstat inoStat fd st
      if err < 0 then (err, files) else files.seekFrom fd (int32 st.stSize.toNat) offset
    else (-EINVAL, files)
  else (0x10000 - EINVAL, files)

/-! ## What it is for -/

/-- Where a seek starts: at the beginning, at the position or at the end of the file, if
its size is known. -/
def seekBase (whence : Int) : Option Int :=
  if whence = SEEK_SET then some 0
  else if whence = SEEK_CUR then some (files.oft fd.toNat).offset
  else if whence = SEEK_END then
    let (err, st) := inoStat (files.oft fd.toNat).ino
    if err < 0 then none else some st.stSize.toNat
  else none

/-- A position that an `off_t` can hold. -/
def Position (pos : Int) : Prop := 0 ≤ pos ∧ pos ≤ 2 ^ 31 - 1

instance (pos : Int) : Decidable (Position pos) := inferInstanceAs (Decidable (_ ∧ _))

/-- The file moves to the sum if that is a position, and stays where it is otherwise. -/
structure SeekRight (base : Option Int) (offset : Int) (result : Int × OpenFiles) : Prop where
  moves : ∀ b ∈ base, Position (b + offset) →
    result = (b + offset, files.setOffset fd (b + offset))
  stays : (∀ b ∈ base, ¬ Position (b + offset)) → result.1 < 0 ∧ result.2 = files

/-- The offsets that `kseek` is right for: from a base that an `off_t` can hold those
forward, and those back to before the start of the file unless the base is there. -/
def SeekFits (base offset : Int) : Prop :=
  if base < 2 ^ 31 then 0 ≤ offset ∨ 0 < base ∧ base + offset < 0 else 0 < offset

/-! ## The two ends of the arithmetic -/

variable {files} {fd} {inoStat}

theorem setOffset_offset (offset : Int) :
    ((files.setOffset fd offset).oft fd.toNat).offset = offset := by
  rw [setOffset, modify_oft, if_pos rfl]

/-- A new position that is negative is a change. -/
theorem setOffset_ne (start : 0 ≤ (files.oft fd.toNat).offset) {pos : Int} (negative : pos < 0) :
    files.setOffset fd pos ≠ files := by
  intro same
  have pos_eq : ((files.setOffset fd pos).oft fd.toNat).offset = pos := setOffset_offset pos
  rw [same] at pos_eq
  omega

/-- From a base that an `off_t` can hold. -/
theorem seekFrom_near (start : 0 ≤ (files.oft fd.toNat).offset) {base offset : Int}
    (low : 0 ≤ base) (high : base < 2 ^ 31) (least : -2 ^ 31 ≤ offset) (most : offset < 2 ^ 31) :
    files.SeekRight fd (some base) offset (files.seekFrom fd base offset) ↔
      0 ≤ offset ∨ 0 < base ∧ base + offset < 0 := by
  by_cases large : 2 ^ 31 ≤ base + offset
  · -- the sum wraps around to before the start
    have wraps : int32 (base + offset) = base + offset - 0x100000000 :=
      int32_above (by omega) (by omega)
    have overflow : files.seekFrom fd base offset = (-EOVERFLOW, files) := by
      rw [seekFrom, wraps]
      exact if_pos (.inr ⟨by omega, by omega⟩)
    rw [overflow]
    refine iff_of_true ⟨?_, fun _ => ⟨EOVERFLOW_neg, rfl⟩⟩ (.inl (by omega))
    rintro b ⟨⟩ position
    unfold Position at position
    omega
  · have exact_sum : int32 (base + offset) = base + offset := int32_eq (by omega) (by omega)
    by_cases back : offset < 0
    · by_cases atStart : base = 0
      · -- a negative position is stored
        have moved : files.seekFrom fd base offset =
            (base + offset, files.setOffset fd (base + offset)) := by
          rw [seekFrom, exact_sum]
          exact if_neg (by omega)
        rw [moved]
        refine iff_of_false (fun right => ?_) (by omega)
        have outside : ∀ b ∈ some base, ¬ Position (b + offset) := by
          rintro b ⟨⟩ position
          unfold Position at position
          omega
        exact setOffset_ne start (by omega) (right.stays outside).2
      · -- the sum is above the offset, whether it is a position or not
        have overflow : files.seekFrom fd base offset = (-EOVERFLOW, files) := by
          rw [seekFrom, exact_sum]
          exact if_pos (.inl ⟨back, by omega⟩)
        rw [overflow]
        constructor
        · intro right
          by_contra inside
          have moved := right.moves base rfl ⟨by omega, by omega⟩
          have rc : -EOVERFLOW = base + offset := congrArg Prod.fst moved
          unfold EOVERFLOW at rc
          omega
        · intro outside
          refine ⟨?_, fun _ => ⟨EOVERFLOW_neg, rfl⟩⟩
          rintro b ⟨⟩ position
          unfold Position at position
          omega
    · have moved : files.seekFrom fd base offset =
          (base + offset, files.setOffset fd (base + offset)) := by
        rw [seekFrom, exact_sum]
        exact if_neg (by omega)
      rw [moved]
      refine iff_of_true ⟨?_, fun outside => ?_⟩ (.inl (by omega))
      · rintro b ⟨⟩ -
        rfl
      · exact absurd ⟨by omega, by omega⟩ (outside base rfl)

/-- From the end of a file that is too large for an `off_t`. -/
theorem seekFrom_far (start : 0 ≤ (files.oft fd.toNat).offset) {base offset : Int}
    (low : 2 ^ 31 ≤ base) (high : base < 2 ^ 32) (least : -2 ^ 31 ≤ offset)
    (most : offset < 2 ^ 31) :
    files.SeekRight fd (some base) offset (files.seekFrom fd (int32 base) offset) ↔ 0 < offset := by
  have wraps : int32 base = base - 0x100000000 := int32_above (by omega) (by omega)
  rw [wraps]
  by_cases forward : 0 < offset
  · have exact_sum : int32 (base - 0x100000000 + offset) = base - 0x100000000 + offset :=
      int32_eq (by omega) (by omega)
    have overflow : files.seekFrom fd (base - 0x100000000) offset = (-EOVERFLOW, files) := by
      rw [seekFrom, exact_sum]
      exact if_pos (.inr ⟨forward, by omega⟩)
    rw [overflow]
    refine iff_of_true ⟨?_, fun _ => ⟨EOVERFLOW_neg, rfl⟩⟩ forward
    rintro b ⟨⟩ position
    unfold Position at position
    omega
  · refine iff_of_false (fun right => ?_) forward
    by_cases near : -2 ^ 31 ≤ base - 0x100000000 + offset
    · -- the sum is no position, and is stored
      have moved : files.seekFrom fd (base - 0x100000000) offset =
          (base - 0x100000000 + offset, files.setOffset fd (base - 0x100000000 + offset)) := by
        rw [seekFrom, int32_eq near (by omega)]
        exact if_neg (by omega)
      rw [moved] at right
      have outside : ∀ b ∈ some base, ¬ Position (b + offset) := by
        rintro b ⟨⟩ position
        unfold Position at position
        omega
      exact setOffset_ne start (by omega) (right.stays outside).2
    · -- the sum is one, and counts as an overflow
      have sum : int32 (base - 0x100000000 + offset) = base + offset := by
        rw [int32_below (by omega) (by omega)]
        omega
      have overflow : files.seekFrom fd (base - 0x100000000) offset = (-EOVERFLOW, files) := by
        rw [seekFrom, sum]
        exact if_pos (.inl ⟨by omega, by omega⟩)
      rw [overflow] at right
      have rc : -EOVERFLOW = base + offset :=
        congrArg Prod.fst (right.moves base rfl ⟨by omega, by omega⟩)
      unfold EOVERFLOW at rc
      omega

/-! ## `kseek` -/

/-- Without a base nothing moves. -/
theorem seekRight_none {rc offset : Int} (negative : rc < 0) :
    files.SeekRight fd none offset (rc, files) where
  moves _ base := nomatch base
  stays _ := ⟨negative, rfl⟩

/-- `kseek` moves the file to the sum exactly when that is a position if and only if the
offset is one that it is right for. -/
theorem kseek_right (opened : files.Valid fd) (start : 0 ≤ (files.oft fd.toNat).offset)
    (held : (files.oft fd.toNat).offset < 2 ^ 31) {offset : Int} (least : -2 ^ 31 ≤ offset)
    (most : offset < 2 ^ 31) (st : Stat) (whence : Int) :
    files.SeekRight fd (files.seekBase inoStat fd whence) offset
        (files.kseek inoStat fd st offset whence) ↔
      ∀ base ∈ files.seekBase inoStat fd whence, SeekFits base offset := by
  have near : ∀ base, 0 ≤ base → base < 2 ^ 31 →
      (files.SeekRight fd (some base) offset (files.seekFrom fd base offset) ↔
        ∀ b ∈ some base, SeekFits b offset) := by
    intro base low high
    rw [seekFrom_near start low high least most]
    simp only [Option.mem_some_iff, forall_eq', SeekFits, if_pos high]
  rw [kseek, if_pos opened, seekBase]
  by_cases set : whence = SEEK_SET
  · rw [if_pos set, if_pos set]
    exact near 0 (by omega) (by omega)
  · rw [if_neg set, if_neg set]
    by_cases cur : whence = SEEK_CUR
    · rw [if_pos cur, if_pos cur]
      exact near _ start held
    · rw [if_neg cur, if_neg cur]
      by_cases toEnd : whence = SEEK_END
      · rw [if_pos toEnd, if_pos toEnd, kfstat, if_pos opened]
        obtain ⟨err, st⟩ := inoStat (files.oft fd.toNat).ino
        dsimp only
        by_cases failed : err < 0
        · rw [if_pos failed, if_pos failed]
          exact iff_of_true (seekRight_none failed) nofun
        · rw [if_neg failed, if_neg failed]
          have below := st.stSize.toNat_lt
          by_cases fits : (st.stSize.toNat : Int) < 2 ^ 31
          · rw [int32_eq (by omega) (by omega)]
            exact near _ (by omega) fits
          · rw [seekFrom_far start (by omega) (by omega) least most]
            simp only [Option.mem_some_iff, forall_eq', SeekFits, if_neg fits]
      · rw [if_neg toEnd, if_neg toEnd]
        exact iff_of_true (seekRight_none (by decide)) nofun

/-- One file, at position 100. -/
def oneFile : OpenFiles :=
  ⟨fun fd => if fd = 0 then { unused with refcnt := 1, offset := 100 } else unused⟩

/-- The status of an empty file. -/
def emptyStat : Stat := ⟨0, 0, 0, 0⟩

/-- From there a file moves forward. -/
theorem kseek_right_forward :
    oneFile.SeekRight 0 (oneFile.seekBase (fun _ => (0, emptyStat)) 0 SEEK_CUR) 50
      (oneFile.kseek (fun _ => (0, emptyStat)) 0 emptyStat 50 SEEK_CUR) := by
  refine (kseek_right (by decide) (by decide) (by decide) (by decide) (by decide) _ _).mpr ?_
  rintro _ ⟨⟩
  exact .inl (by decide)

/-- It does not move back by 10. -/
theorem kseek_back :
    ¬ oneFile.SeekRight 0 (oneFile.seekBase (fun _ => (0, emptyStat)) 0 SEEK_CUR) (-10)
      (oneFile.kseek (fun _ => (0, emptyStat)) 0 emptyStat (-10) SEEK_CUR) := by
  intro right
  have rc := congrArg Prod.fst (right.moves 100 rfl (by decide))
  exact absurd rc (by decide)

end OpenFiles

end Pegasos.Kernel.Files
