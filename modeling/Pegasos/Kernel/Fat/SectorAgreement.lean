import Pegasos.Kernel.Fat.FileSlice
import Pegasos.Support.Cycles

/-!
# Two ways to a sector

`fobj_get_sec_at_offs` follows the chain from the first cluster for each offset, and looks for a
mark at every link.  `fat_read` does so for its first offset only, and then goes on from cluster
to cluster whatever their entries in the FAT say.
-/

namespace Pegasos.Kernel.Fat

open Pegasos.Support
open Pegasos.Fat (Sector direntAt)
open Cache (BlkPtr)

section Walks

variable {next : Nat → Nat} {m n c d : Nat}

/-- A walk comes to the cluster behind so many links, if none of them is a mark. -/
theorem walk_eq_some_iff :
    walk next n c = some d ↔ d = next^[n] c ∧ ∀ i < n, next^[i + 1] c < 0xff0 := by
  induction n generalizing c with
  | zero => simp [walk, eq_comm]
  | succ n ih =>
      rw [walk]
      by_cases mark : 0xff0 ≤ next c
      · rw [if_pos mark]
        refine iff_of_false (Option.some_ne_none d).symm fun both => ?_
        exact absurd mark (Nat.not_le_of_lt (both.2 0 (Nat.succ_pos n)))
      · rw [if_neg mark, ih, Function.iterate_succ_apply]
        refine and_congr_right fun _ => ⟨fun later i less => ?_, fun all i less => ?_⟩
        · cases i with
          | zero => exact Nat.lt_of_not_le mark
          | succ i =>
              rw [Function.iterate_succ_apply]
              exact later i (Nat.lt_of_succ_lt_succ less)
        · rw [← Function.iterate_succ_apply]
          exact all (i + 1) (Nat.succ_lt_succ less)

/-- A shorter walk meets no mark either. -/
theorem walk_shorter (walked : walk next n c = some d) (less : m ≤ n) :
    walk next m c = some (next^[m] c) :=
  walk_eq_some_iff.mpr ⟨rfl, fun i before =>
    (walk_eq_some_iff.mp walked).2 i (Nat.lt_of_lt_of_le before less)⟩

end Walks

namespace FatVol

/-- `fobj_get_sec_at_offs` selects a sector for an offset. -/
def Selects (fv : FatVol) (disk : Disk) (clus0 offs sec : Nat) : Prop :=
  ∃ b after, fv.fobjGetSecAtOffs clus0 offs disk = .ok b after ∧
    (after.cache.blocks b).tag = fv.tag sec

/-- `fobj_get_sec_at_offs` reports that the chain ends before an offset. -/
def Premature (fv : FatVol) (disk : Disk) (clus0 offs : Nat) : Prop :=
  ∃ after, fv.fobjGetSecAtOffs clus0 offs disk = .err (- EIO) after

/-- `fat_read` copies each byte from the sector that `fobj_get_sec_at_offs` selects for it; and
where that reports the end of the chain, `fat_read` does, and copies from no other sector. -/
def SameSectors (fv : FatVol) (data : Nat → Sector) (base : BlkPtr → Nat) (ino off size : Nat) :
    Prop :=
  ∀ disk, Serves fv.dev fv.unit data base disk [] →
    Program.Gives (fv.fatRead ino off size) disk fun value after =>
      ((∀ k < size, ∃ sec, fv.Selects disk (entryOf data ino).cluster0.toNat (off + k) sec) →
        ∀ k < size, ∃ sec, fv.Selects disk (entryOf data ino).cluster0.toNat (off + k) sec ∧
          after.buf k = data sec ((off + k) % BLOCK_SIZE) ∧ after.source k = some sec) ∧
      ((∃ k < size, fv.Premature disk (entryOf data ino).cluster0.toNat (off + k)) →
        value = sizeT (- EIO) ∧ ∀ k, after.source k = disk.source k ∨
          ∃ sec, fv.Selects disk (entryOf data ino).cluster0.toNat (off + k) sec ∧
            after.source k = some sec)

/-- From its first cluster on, a chain goes round in a loop of one cluster or two, without a
mark. -/
def Loops (next : Nat → Nat) (c : Nat) : Prop :=
  next c < 0xff0 ∧ next (next c) < 0xff0 ∧ next (next (next c)) = next c

/-- The ranges for which the two ways agree: the chain ends before the first offset; or it does
not end before the last one, where with clusters of 32 KB the range is in one of them or the
chain loops. -/
def Agrees (fv : FatVol) (next : Nat → Nat) (clus0 off size : Nat) : Prop :=
  ∀ c, walk next (fv.clusOf off) clus0 = some c →
    if fv.secPerClus < 64 then walk next (fv.clusOf (off + size - 1 : Nat)) clus0 ≠ none
    else off % fv.clusterBytes + size ≤ fv.clusterBytes ∨ Loops next c

variable {fv : FatVol} {data : Nat → Sector} {base : BlkPtr → Nat} {disk : Disk}
  {ino off size k s c clus0 sec : Nat}

/-! ## What is selected -/

section Selected

variable (sized : fv.Sized) (others : Others base)
  (serves : Serves fv.dev fv.unit data base disk []) (small : off < 0x80000000)
include sized others serves small

theorem selects_iff : fv.Selects disk clus0 off sec ↔
    ∃ ci, walk (fv.nextOf data) (fv.clusOf off) clus0 = some ci ∧ sec = fv.sectorAt ci off := by
  have one : ([] : List BlkPtr).length ≤ 1 := Nat.zero_le 1
  rcases fobjGetSecAtOffs_runs sized others one serves small clus0 with
    ⟨walked, after, ran⟩ | ⟨ci, walked, b, after, ran, tag, -⟩
  · refine iff_of_false ?_ ?_
    · rintro ⟨b, after', ran', -⟩
      exact nomatch ran.symm.trans ran'
    · rintro ⟨ci, walked', -⟩
      exact nomatch walked.symm.trans walked'
  · constructor
    · rintro ⟨b', after', ran', tag'⟩
      obtain ⟨rfl, rfl⟩ := Result.ok.inj (ran.symm.trans ran')
      exact ⟨ci, walked, congrArg Cache.Tag.blkno (tag'.symm.trans tag)⟩
    · rintro ⟨ci', walked', rfl⟩
      obtain rfl := Option.some.inj (walked.symm.trans walked')
      exact ⟨b, after, ran, tag⟩

theorem premature_iff :
    fv.Premature disk clus0 off ↔ walk (fv.nextOf data) (fv.clusOf off) clus0 = none := by
  have one : ([] : List BlkPtr).length ≤ 1 := Nat.zero_le 1
  rcases fobjGetSecAtOffs_runs sized others one serves small clus0 with
    ⟨walked, after, ran⟩ | ⟨ci, walked, b, after, ran, -⟩
  · exact iff_of_true ⟨after, ran⟩ walked
  · refine iff_of_false ?_ (by simp [walked])
    rintro ⟨after', ran'⟩
    exact nomatch ran.symm.trans ran'

end Selected

/-- What the two ways come to for an offset of the range. -/
def SameAt (fv : FatVol) (data : Nat → Sector) (clus0 off s k : Nat) : Prop :=
  ∃ ci, walk (fv.nextOf data) (fv.clusOf (off + k : Nat)) clus0 = some ci ∧
    fv.sectorAt ci (off + k) = fv.seqSector data s (off % fv.clusterBytes + k)

/-- The source of a byte tells where it has been copied from. -/
theorem sameSectors_iff (sized : fv.Sized) (others : Others base) (notRoot : ino ≠ 0)
    (few : size < 0x10000) (inside : off + size ≤ (entryOf data ino).size.toNat)
    (small : off + size < 0x80000000) (idle : Serves fv.dev fv.unit data base disk []) :
    fv.SameSectors data base ino off size ↔
      ∀ s, walk (fv.nextOf data) (fv.clusOf off) (entryOf data ino).cluster0.toNat = some s →
        ∀ k < size, fv.SameAt data (entryOf data ino).cluster0.toNat off s k := by
  have clamp : clampSize (entryOf data ino).size off size = size := by
    unfold clampSize wordOfInt
    exact if_neg (by omega)
  have phase : ∀ k, (off % fv.clusterBytes + k) % BLOCK_SIZE = (off + k) % BLOCK_SIZE := by
    intro k
    rw [Nat.add_mod, clusterBytes, Nat.mod_mul_right_mod, ← Nat.add_mod]
  constructor
  · intro same s walked k less
    -- a disk that remembers no source
    obtain ⟨fresh, serves, none⟩ : ∃ fresh, Serves fv.dev fv.unit data base fresh [] ∧
        fresh.source = fun _ => none :=
      ⟨{ disk with source := fun _ => none }, ⟨idle.circular, idle.inuse, idle.clean, idle.device,
        idle.cached, idle.reads⟩, rfl⟩
    obtain ⟨value, after, ran, selected, premature⟩ := same fresh serves
    obtain ⟨value', after', ran', ended⟩ := fatRead_gives sized others serves notRoot few small
    obtain ⟨rfl, rfl⟩ := Result.ok.inj (ran.symm.trans ran')
    rcases ended with ⟨walked', -⟩ | ⟨s', walked', -, copied⟩
    · cases walked.symm.trans walked'
    obtain rfl := Option.some.inj (walked.symm.trans walked')
    change fv.Copied data base [] s (off % fv.clusterBytes)
      (clampSize (entryOf data ino).size off size) 0 fresh after at copied
    rw [clamp] at copied
    have source : ∀ k < size,
        after.source k = some (fv.seqSector data s (off % fv.clusterBytes + k)) := by
      intro k less
      rw [copied.source, stored, if_pos (by omega), Nat.sub_zero]
    have all : ∀ k < size, ∃ sec,
        fv.Selects fresh (entryOf data ino).cluster0.toNat (off + k) sec := by
      by_contra missing
      simp only [not_forall] at missing
      obtain ⟨k, less, missing⟩ := missing
      have ends : walk (fv.nextOf data) (fv.clusOf (off + k : Nat))
          (entryOf data ino).cluster0.toNat = Option.none := by
        cases walked : walk (fv.nextOf data) (fv.clusOf (off + k : Nat))
          (entryOf data ino).cluster0.toNat with
        | none => rfl
        | some ci =>
            exact absurd ⟨_, (selects_iff sized others serves (by omega)).mpr ⟨ci, walked, rfl⟩⟩
              missing
      have early := (premature_iff sized others serves (by omega)).mpr ends
      rcases (premature ⟨k, less, early⟩).2 k with kept | ⟨sec, selects, -⟩
      · rw [source k less, none] at kept
        cases kept
      · exact missing ⟨sec, selects⟩
    obtain ⟨sec, selects, -, isSource⟩ := selected all k less
    obtain ⟨ci, walked, rfl⟩ := (selects_iff sized others serves (by omega)).mp selects
    exact ⟨ci, walked, Option.some.inj (isSource.symm.trans (source k less))⟩
  · intro same disk serves
    refine (fatRead_gives sized others serves notRoot few small).mono fun value after ended => ?_
    rcases ended with ⟨walked, isValue, left⟩ | ⟨s, walked, isValue, copied⟩
    · refine ⟨fun all k less => ?_, fun _ => ⟨isValue, fun k => .inl (by rw [left.source])⟩⟩
      have early := (premature_iff sized others serves (by omega)).mpr walked
      obtain ⟨sec, selects⟩ := all 0 (by omega)
      obtain ⟨ci, walked', -⟩ := (selects_iff sized others serves (by omega)).mp selects
      cases walked.symm.trans walked'
    · change fv.Copied data base [] s (off % fv.clusterBytes)
        (clampSize (entryOf data ino).size off size) 0 disk after at copied
      rw [clamp] at copied
      refine ⟨fun _ k less => ?_, ?_⟩
      · obtain ⟨ci, walked', sector⟩ := same s walked k less
        refine ⟨_, (selects_iff sized others serves (by omega)).mpr ⟨ci, walked', rfl⟩, ?_, ?_⟩
        · rw [copied.buf, stored, if_pos (by omega), Nat.sub_zero, sector, phase]
        · rw [copied.source, stored, if_pos (by omega), Nat.sub_zero, sector]
      · rintro ⟨k, less, early⟩
        obtain ⟨ci, walked', -⟩ := same s walked k less
        cases ((premature_iff sized others serves (by omega)).mp early).symm.trans walked'

/-! ## Clusters of less than 32 KB -/

section Regular

variable (sized : fv.Sized) (regular : fv.secPerClus < 64)
include sized regular

/-- The two ways come to the same, unless the chain ends. -/
theorem sameAt_regular (small : off + k < 0x80000000)
    (start : walk (fv.nextOf data) (fv.clusOf off) clus0 = some s) :
    fv.SameAt data clus0 off s k ↔
      walk (fv.nextOf data) (fv.clusOf (off + k : Nat)) clus0 ≠ none := by
  have first := clusOf_eq sized regular (show off < 0x80000000 by omega)
  have further : walk (fv.nextOf data) (fv.clusOf (off + k : Nat)) clus0 =
      walk (fv.nextOf data) ((off % fv.clusterBytes + k) / fv.clusterBytes) s := by
    rw [clusOf_eq sized regular small, row_add sized, walk_add, ← first, start, Option.bind_some]
  constructor
  · rintro ⟨ci, walked, -⟩
    rw [walked]
    nofun
  · intro some
    obtain ⟨ci, walked⟩ := Option.ne_none_iff_exists'.mp some
    refine ⟨ci, walked, ?_⟩
    rw [further] at walked
    rw [seqSector_eq, ← walk_eq_iterate walked]

theorem agrees_regular (small : off + size < 0x80000000)
    (start : walk (fv.nextOf data) (fv.clusOf off) clus0 = some s) :
    (∀ k < size, fv.SameAt data clus0 off s k) ↔
      walk (fv.nextOf data) (fv.clusOf (off + size - 1 : Nat)) clus0 ≠ none := by
  have shorter : ∀ {m n : Nat}, m ≤ n → walk (fv.nextOf data) n clus0 ≠ none →
      walk (fv.nextOf data) m clus0 ≠ none := by
    intro m n less some
    obtain ⟨ci, walked⟩ := Option.ne_none_iff_exists'.mp some
    rw [walk_shorter walked less]
    nofun
  constructor
  · intro same
    by_cases empty : size = 0
    · have before : fv.clusOf (off + size - 1 : Nat) ≤ fv.clusOf off := by
        rw [clusOf_eq sized regular (by omega), clusOf_eq sized regular (by omega)]
        exact Nat.div_le_div_right (by omega)
      exact shorter before (by rw [start]; nofun)
    · have last := (sameAt_regular sized regular (k := size - 1) (by omega) start).mp
        (same (size - 1) (by omega))
      rwa [show off + (size - 1) = off + size - 1 by omega] at last
  · intro last k less
    refine (sameAt_regular sized regular (by omega) start).mpr (shorter ?_ last)
    rw [clusOf_eq sized regular (by omega), clusOf_eq sized regular (by omega)]
    exact Nat.div_le_div_right (by omega)

end Regular

/-! ## Clusters of 32 KB -/

section Even

variable {next : Nat → Nat} {n : Nat}

theorem divisors_small {g : Nat} (few : g ≤ 0x1000) (divides : g ∣ 0xfffffffe) : g ∣ 2 := by
  have rows : ∀ a < 65, ∀ b < 64, 64 * a + b ∣ 0xfffffffe → 64 * a + b ∣ 2 := by decide +kernel
  have row := rows (g / 64) (by omega) (g % 64) (by omega)
  rw [Nat.div_add_mod] at row
  exact row divides

/-- Numbers of 12 bits come again behind 4096 links. -/
theorem exists_cycle (bits : ∀ c, next c < 0x1000) (c : Nat) : ∃ p, 0 < p ∧ p ≤ 0x1000 ∧
    ∀ m, 0x1000 ≤ m → next^[m + p] c = next^[m] c := by
  have inside : ∀ c, next c ∈ Finset.range 0x1000 := fun c => Finset.mem_range.mpr (bits c)
  have found := exists_period inside c
  rwa [Finset.card_range] at found

/-- In a loop every other number is the same. -/
theorem Loops.period (loops : Loops next c) : ∀ m, 1 ≤ m → next^[m + 2] c = next^[m] c := by
  intro m later
  obtain ⟨m, rfl⟩ := Nat.exists_eq_add_of_le later
  have again : next^[3] c = next^[1] c := loops.2.2
  have shifted := iterate_shift again m
  rwa [show 3 + m = 1 + m + 2 by omega] at shifted

/-- In the first cluster of a file: the next one is looked for behind 2^32 - 1 links. -/
theorem loops_first (bits : ∀ c, next c < 0x1000) :
    walk next 0xffffffff c = some (next c) ↔ Loops next c := by
  constructor
  · intro walked
    obtain ⟨again, inside⟩ := walk_eq_some_iff.mp walked
    obtain ⟨p, some, few, period⟩ := exists_cycle bits c
    have common := gcd_period period (a := 1) (d := 0xfffffffe) again.symm (by decide)
    have two := common.trans_dvd (divisors_small ((Nat.gcd_le_left _ some).trans few)
      (Nat.gcd_dvd_right p _))
    exact ⟨inside 0 (by decide), inside 1 (by decide), two⟩
  · intro loops
    have odd := fun times => period_mul loops.period times 1 le_rfl
    have even := fun times => period_mul loops.period times 2 (by decide)
    refine walk_eq_some_iff.mpr ⟨(odd 0x7fffffff).symm, fun i _ => ?_⟩
    rcases Nat.mod_two_eq_zero_or_one i with isEven | isOdd
    · have first := odd (i / 2)
      rw [show 1 + 2 * (i / 2) = i + 1 by omega] at first
      rw [first]
      exact loops.1
    · have second := even (i / 2)
      rw [show 2 + 2 * (i / 2) = i + 1 by omega] at second
      rw [second]
      exact loops.2.1

/-- In the cycle every other number is the same. -/
theorem Loops.cycle (bits : ∀ c, next c < 0x1000) (loops : Loops next (next^[n] c)) :
    ∀ m, 0x1000 ≤ m → next^[m + 2] c = next^[m] c := by
  obtain ⟨p, some, -, period⟩ := exists_cycle bits c
  have again : next^[n + 1 + 2] c = next^[n + 1] c := by
    have third : next^[3] (next^[n] c) = next^[1] (next^[n] c) := loops.2.2
    rwa [← Function.iterate_add_apply, ← Function.iterate_add_apply, Nat.add_comm 3,
      Nat.add_comm 1] at third
  exact period_of_again period some again

/-- In another one: the next one is looked for behind a link less. -/
theorem loops_later (bits : ∀ c, next c < 0x1000) (walked : walk next n c = some s)
    (far : 0x1002 ≤ n) : next^[n - 1] c = next s ↔ Loops next s := by
  obtain ⟨isLast, inside⟩ := walk_eq_some_iff.mp walked
  have behind : ∀ m, next^[m] s = next^[n + m] c := fun m => by
    rw [isLast, ← Function.iterate_add_apply, Nat.add_comm]
  constructor
  · intro same
    have again : next^[n - 1] c = next^[n + 1] c := same.trans (behind 1)
    have second : next^[n] c = next^[n + 2] c := by
      have shifted := iterate_shift again 1
      rwa [Nat.sub_add_cancel (by omega)] at shifted
    have third : next^[n + 1] c = next^[n + 3] c := iterate_shift second 1
    refine ⟨?_, ?_, ?_⟩
    · have small := inside (n - 2) (by omega)
      rw [show n - 2 + 1 = n - 1 by omega] at small
      rwa [same] at small
    · have small := inside (n - 1) (by omega)
      rw [Nat.sub_add_cancel (by omega), second, ← behind 2] at small
      exact small
    · exact (behind 3).trans (third.symm.trans (behind 1).symm)
  · intro loops
    rw [isLast] at loops
    have before := loops.cycle bits (n - 1) (by omega)
    rw [show n - 1 + 2 = n + 1 by omega] at before
    exact before.symm.trans (behind 1).symm

/-- The sectors tell the clusters apart. -/
theorem sectorAt_inj {d d' : Nat} (even : fv.secPerClus = 64) (small : d < 0x10000)
    (small' : d' < 0x10000) (same : fv.sectorAt d off = fv.sectorAt d' off) : d = d' := by
  simp only [sectorAt, clusSector, even] at same
  generalize off % fv.clusterBytes / BLOCK_SIZE = row at same
  unfold word at same
  omega

theorem nextOf_lt (c : Nat) : fv.nextOf data c < 0x1000 := unpack12_lt _ _

/-- The numbers of clusters are words. -/
theorem walk_lt (first : clus0 < 0x10000)
    (walked : walk (fv.nextOf data) n clus0 = some c) : c < 0x10000 := by
  rw [walk_eq_iterate walked]
  cases n with
  | zero => exact first
  | succ n =>
      rw [Function.iterate_succ_apply']
      exact (nextOf_lt _).trans (by decide)

variable (even : fv.secPerClus = 64) (first : clus0 < 0x10000)
include even first

theorem sameAt_even (start : walk (fv.nextOf data) (fv.clusOf off) clus0 = some s) :
    fv.SameAt data clus0 off s k ↔ walk (fv.nextOf data) (fv.clusOf (off + k : Nat)) clus0 =
      some ((fv.nextOf data)^[(off % fv.clusterBytes + k) / fv.clusterBytes] s) := by
  have further : (fv.nextOf data)^[(off % fv.clusterBytes + k) / fv.clusterBytes] s < 0x10000 := by
    cases (off % fv.clusterBytes + k) / fv.clusterBytes with
    | zero => exact walk_lt first start
    | succ j =>
        rw [Function.iterate_succ_apply']
        exact (nextOf_lt _).trans (by decide)
  rw [SameAt, seqSector_eq]
  constructor
  · rintro ⟨ci, walked, same⟩
    rw [walked, sectorAt_inj even (walk_lt first walked) further same]
  · intro walked
    exact ⟨_, walked, rfl⟩

theorem agrees_even (sized : fv.Sized) (few : size < 0x10000) (small : off + size < 0x80000000)
    (start : walk (fv.nextOf data) (fv.clusOf off) clus0 = some s) :
    (∀ k < size, fv.SameAt data clus0 off s k) ↔
      off % fv.clusterBytes + size ≤ fv.clusterBytes ∨ Loops (fv.nextOf data) s := by
  have bytes : fv.clusterBytes = 0x8000 := by rw [clusterBytes, even]; decide
  have links : ∀ {p : Nat}, p < 0x80000000 →
      fv.clusOf p = (0x100000000 - p / 0x8000) % 0x100000000 := fun less =>
    clusOf_even sized even less
  rw [bytes]
  constructor
  · intro same
    by_cases within : off % 0x8000 + size ≤ 0x8000
    · exact .inl within
    right
    -- the first offset of the next row
    have next := (sameAt_even even first start).mp
      (same (0x8000 - off % 0x8000) (by omega))
    rw [bytes, show (off % 0x8000 + (0x8000 - off % 0x8000)) / 0x8000 = 1 by omega,
      Function.iterate_one, links (by omega)] at next
    rw [links (by omega)] at start
    by_cases row : off / 0x8000 = 0
    · have zero : (0x100000000 - off / 0x8000) % 0x100000000 = 0 := by omega
      have last : (0x100000000 - (off + (0x8000 - off % 0x8000)) / 0x8000) % 0x100000000 =
          0xffffffff := by omega
      rw [zero] at start
      obtain rfl := Option.some.inj start
      rw [last] at next
      exact (loops_first nextOf_lt).mp next
    · refine (loops_later nextOf_lt start (by omega)).mp ?_
      rw [walk_eq_iterate next]
      congr 1
      omega
  · intro agrees k less
    rw [sameAt_even even first start, bytes, links (by omega)]
    have start' := start
    rw [links (by omega)] at start'
    by_cases within : off % 0x8000 + k < 0x8000
    · have row : (off + k) / 0x8000 = off / 0x8000 := by omega
      rw [Nat.div_eq_of_lt within, row, start']
      rfl
    have loops : Loops (fv.nextOf data) s := agrees.resolve_left (by omega)
    obtain ⟨j, isJ⟩ : ∃ j, j = (off % 0x8000 + k) / 0x8000 := ⟨_, rfl⟩
    have rows : (off + k) / 0x8000 = off / 0x8000 + j := by omega
    have two : j = 1 ∨ j = 2 := by omega
    rw [← isJ, rows]
    by_cases row : off / 0x8000 = 0
    · have zero : (0x100000000 - off / 0x8000) % 0x100000000 = 0 := by omega
      rw [zero] at start'
      obtain rfl := Option.some.inj start'
      have walked := (loops_first nextOf_lt).mpr loops
      rcases two with rfl | rfl
      · rw [show (0x100000000 - (off / 0x8000 + 1)) % 0x100000000 = 0xffffffff by omega]
        exact walked
      · rw [show (0x100000000 - (off / 0x8000 + 2)) % 0x100000000 = 0xfffffffe by omega,
          walk_shorter walked (by decide)]
        exact congrArg some (period_mul loops.period 0x7ffffffe 2 (by decide))
    · obtain ⟨n, isN⟩ : ∃ n, n = (0x100000000 - off / 0x8000) % 0x100000000 := ⟨_, rfl⟩
      rw [← isN] at start'
      have before := (loops_later nextOf_lt start' (by omega)).mpr loops
      rcases two with rfl | rfl
      · rw [show (0x100000000 - (off / 0x8000 + 1)) % 0x100000000 = n - 1 by omega,
          walk_shorter start' (by omega), before]
        rfl
      · rw [show (0x100000000 - (off / 0x8000 + 2)) % 0x100000000 = n - 2 by omega,
          walk_shorter start' (by omega)]
        have isLast := walk_eq_iterate start'
        rw [isLast] at loops
        have before := loops.cycle nextOf_lt (n - 2) (by omega)
        rw [Nat.sub_add_cancel (by omega)] at before
        rw [← before, isLast, ← Function.iterate_add_apply, Nat.add_comm]
        exact congrArg some (loops.cycle nextOf_lt n (by omega)).symm

end Even

/-- Where the two ways come to the same in the whole range. -/
theorem agrees_iff (sized : fv.Sized) (first : clus0 < 0x10000) (few : size < 0x10000)
    (small : off + size < 0x80000000) :
    (∀ s, walk (fv.nextOf data) (fv.clusOf off) clus0 = some s →
        ∀ k < size, fv.SameAt data clus0 off s k) ↔
      fv.Agrees (fv.nextOf data) clus0 off size := by
  refine forall₂_congr fun s start => ?_
  by_cases regular : fv.secPerClus < 64
  · rw [if_pos regular]
    exact agrees_regular sized regular small start
  · rw [if_neg regular]
    have even := Nat.le_antisymm sized.most (Nat.le_of_not_lt regular)
    exact agrees_even even first sized few small start

/-- The two ways agree for a range exactly if the chain does not end in it; in clusters of 32 KB
the range is in one of them, or the chain loops. -/
theorem sectors_agree_iff (sized : fv.Sized) (others : Others base)
    (serves : Serves fv.dev fv.unit data base disk []) (notRoot : ino ≠ 0)
    (few : size < 0x10000) (inside : off + size ≤ (entryOf data ino).size.toNat)
    (small : off + size < 0x80000000) :
    fv.SameSectors data base ino off size ↔
      fv.Agrees (fv.nextOf data) (entryOf data ino).cluster0.toNat off size :=
  (sameSectors_iff sized others notRoot few inside small serves).trans
    (agrees_iff sized (entryOf data ino).cluster0.toNat_lt few small)

/-- A floppy disk with one file of 1024 bytes from cluster 2 on, with the last bytes of its FAT
in front of an end mark. -/
def twoClusters (low high : UInt8) : Nat → Sector := fun sec i =>
  if sec = 1 then [0xf0, 0xff, 0xff, low, high, 0xff].getD i 0
  else if sec = 19 then if i = 26 then 2 else if i = 29 then 4 else 0
  else 7

theorem floppy_sized : (ofBpb 0 0 .floppy).Sized := floppy_volume.sized

/-- The chain has a second cluster. -/
theorem sectors_agree_iff_two :
    (ofBpb 0 0 .floppy).SameSectors (twoClusters 3 0xf0) (fun _ => 0) 304 100 900 := by
  refine (sectors_agree_iff floppy_sized .none (.idle 0 0 _) (by decide) (by decide) (by decide)
    (by decide)).mpr ?_
  intro c _
  rw [if_pos (by decide)]
  decide

/-- The chain has no second cluster, and `fat_read` takes the end mark for one. -/
theorem fat_read_misses_mark :
    ¬(ofBpb 0 0 .floppy).SameSectors (twoClusters 0xff 0xff) (fun _ => 0) 304 100 900 := by
  rw [sameSectors_iff floppy_sized .none (by decide) (by decide) (by decide) (by decide)
    (.idle 0 0 _)]
  intro same
  have start : walk ((ofBpb 0 0 .floppy).nextOf (twoClusters 0xff 0xff))
      ((ofBpb 0 0 .floppy).clusOf (100 : Nat))
      (entryOf (twoClusters 0xff 0xff) 304).cluster0.toNat = some 2 := by decide
  have last := (agrees_regular floppy_sized (by decide) (by decide) start).mp (same 2 start)
  exact last (by decide)

end FatVol

end Pegasos.Kernel.Fat
