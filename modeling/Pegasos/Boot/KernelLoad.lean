import Pegasos.Boot.BootSector
import Mathlib.Data.List.Basic
import Mathlib.Tactic.LinearCombination
import Mathlib.Tactic.Ring

/-!
# Loading the kernel

Where the root directory and the sectors of the kernel are on a floppy, and when the boot sector
reads them.  Behind the first sector of the directory it goes on with the `AX` of the BIOS, and the
size is rounded up in 16 bits.
-/

namespace Pegasos.Boot

open scoped UInt16.CommRing

namespace Floppy

variable (f : Floppy)

def rootStart : Nat := f.bpb.secfat.toNat * f.bpb.nfat.toNat + f.bpb.hidden.toNat +
  f.bpb.reserv.toNat

def rootSectors : Nat := f.bpb.rootent.toNat / 16

def dataStart : Nat := f.rootStart + f.rootSectors

/-- The sectors up to the end of the volume. -/
def total : Nat := f.bpb.hidden.toNat + f.bpb.totsec.toNat

/-- A floppy whose parameter block describes it: its sectors are addressed by cylinders, heads and
sectors of the BIOS, and can be read. -/
structure WellFormed : Prop where
  bysec : f.bpb.bysec = 512
  rootent : 16 ∣ f.bpb.rootent.toNat
  sectrk : 1 ≤ f.bpb.sectrk.toNat ∧ f.bpb.sectrk.toNat ≤ 63
  heads : 1 ≤ f.bpb.heads.toNat ∧ f.bpb.heads.toNat ≤ 255
  cylinders : f.total ≤ 1024 * (f.bpb.sectrk.toNat * f.bpb.heads.toNat)
  words : f.total ≤ 0x10000
  directory : f.dataStart ≤ f.total ∧ f.rootStart < f.total
  readable : ∀ lba < f.total, ∃ sector, f.disk lba = some sector

/-- A byte of the floppy. -/
def byte (lba offs : Nat) : UInt8 := ((f.disk lba).map fun sector => sector offs).getD 0

/-- A byte of an entry of the root directory. -/
def entry (k t : Nat) : UInt8 := f.byte (f.rootStart + k / 16) (32 * (k % 16) + t)

/-- An entry has the eleven bytes of the kernel's name. -/
def Named (k : Nat) : Prop := (List.range 11).map (f.entry k) = kernelName

instance (k : Nat) : Decidable (f.Named k) := inferInstanceAs (Decidable (_ = _))

def cluster (k : Nat) : Nat := (f.entry k 0x1a).toNat + 0x100 * (f.entry k 0x1b).toNat

def sizeLow (k : Nat) : Nat := (f.entry k 0x1c).toNat + 0x100 * (f.entry k 0x1d).toNat

def sizeHigh (k : Nat) : Nat := (f.entry k 0x1e).toNat + 0x100 * (f.entry k 0x1f).toNat

def size (k : Nat) : Nat := f.sizeLow k + 0x10000 * f.sizeHigh k

/-- The sectors of a file. -/
def sectors (k : Nat) : Nat := (f.size k + 511) / 512

/-- An entry for a kernel. -/
structure Kernel (k : Nat) : Prop where
  index : k < f.bpb.rootent.toNat
  named : f.Named k
  cluster : f.cluster k ≠ 0
  size : 1 ≤ f.size k ∧ f.size k ≤ 0xffff

/-- A sector of the file with the clusters `chain`; the clusters are counted from 2. -/
def fileSector (chain : Nat → Nat) (i : Nat) : Nat :=
  f.dataStart + chain (i / f.bpb.secclus.toNat) * f.bpb.secclus.toNat + i % f.bpb.secclus.toNat -
    2 * f.bpb.secclus.toNat

/-- The clusters of a file are contiguous and on the floppy. -/
structure OnDisk (k : Nat) (chain : Nat → Nat) : Prop where
  start : chain 0 = f.cluster k
  contiguous : ∀ i, (i + 1) * f.bpb.secclus.toNat < f.sectors k → chain (i + 1) = chain i + 1
  low : 2 * f.bpb.secclus.toNat ≤ f.dataStart + f.cluster k * f.bpb.secclus.toNat
  inside : ∀ i < f.sectors k, f.fileSector chain i < f.total

/-- The root directory was read up to an entry, then the sectors of its file, and the kernel was
entered. -/
structure Loads (k : Nat) (chain : Nat → Nat) (ended : Machine × Exit) : Prop where
  reads : ended.1.reads =
    (List.range (k / 16 + 1)).map (fun i => (f.rootStart + i, 0x7e00)) ++
      (List.range (f.sectors k)).map fun i => (f.fileSector chain i, 0x7e00 + 512 * i)
  exit : ended.2 = .kernel

/-- All of the root directory was read, and `fail` was reached. -/
structure GivesUp (ended : Machine × Exit) : Prop where
  reads : ended.1.reads = (List.range f.rootSectors).map fun i => (f.rootStart + i, 0x7e00)
  exit : ended.2 = .fail

end Floppy

variable {f : Floppy} {bios : Nat → UInt16} {mem : Nat → UInt8}

/-! ### Reading a sector -/

theorem cl_fields : ∀ high < 4, ∀ low < 64,
    ((UInt8.ofNat high <<< 6) ||| UInt8.ofNat low).toNat = 64 * high + low := by
  decide +kernel

theorem toUInt8_toNat {value : UInt16} (small : value.toNat < 256) :
    value.toUInt8.toNat = value.toNat := by
  rw [UInt16.toNat_toUInt8]
  exact Nat.mod_eq_of_lt small

/-- Cylinder, head and sector of `readsec` lead back to the sector. -/
theorem chs_inverse (lba heads sectrk : Nat) :
    (lba / (sectrk * heads) * heads + lba % (sectrk * heads) / sectrk) * sectrk +
      lba % (sectrk * heads) % sectrk = lba := by
  have whole := Nat.div_add_mod lba (sectrk * heads)
  have part := Nat.div_add_mod (lba % (sectrk * heads)) sectrk
  calc (lba / (sectrk * heads) * heads + lba % (sectrk * heads) / sectrk) * sectrk +
        lba % (sectrk * heads) % sectrk
      = sectrk * heads * (lba / (sectrk * heads)) +
          (sectrk * (lba % (sectrk * heads) / sectrk) + lba % (sectrk * heads) % sectrk) := by ring
    _ = lba := by rw [part, whole]

/-- `int 13h` is called for the sector in `AX`. -/
theorem int13_readsec (wf : f.WellFormed) {ax : UInt16} (inside : ax.toNat < f.total)
    {sector : Sector} (found : f.disk ax.toNat = some sector) :
    int13 f (ax / seccyl f).toUInt8
      (((ax / seccyl f) >>> 8).toUInt8 <<< 6 ||| ((ax % seccyl f % f.bpb.sectrk).toUInt8 + 1))
      (ax % seccyl f / f.bpb.sectrk).toUInt8 = some (ax.toNat, sector) := by
  have sectrk := wf.sectrk
  have heads := wf.heads
  have perCyl : (seccyl f).toNat = f.bpb.sectrk.toNat * f.bpb.heads.toNat := by
    rw [seccyl, UInt16.toNat_mul]
    exact Nat.mod_eq_of_lt (Nat.lt_of_le_of_lt (Nat.mul_le_mul sectrk.2 heads.2) (by decide))
  have positive : 0 < f.bpb.sectrk.toNat * f.bpb.heads.toNat := Nat.mul_pos sectrk.1 heads.1
  have cyl : (ax / seccyl f).toNat = ax.toNat / (f.bpb.sectrk.toNat * f.bpb.heads.toNat) := by
    rw [UInt16.toNat_div, perCyl]
  have left : (ax % seccyl f).toNat = ax.toNat % (f.bpb.sectrk.toNat * f.bpb.heads.toNat) := by
    rw [UInt16.toNat_mod, perCyl]
  have few : (ax / seccyl f).toNat < 1024 := by
    rw [cyl]
    refine Nat.div_lt_of_lt_mul ?_
    rw [Nat.mul_comm]
    exact Nat.lt_of_lt_of_le inside wf.cylinders
  have leftLow : (ax % seccyl f).toNat < f.bpb.sectrk.toNat * f.bpb.heads.toNat := by
    rw [left]
    exact Nat.mod_lt _ positive
  have headLow : (ax % seccyl f).toNat / f.bpb.sectrk.toNat < f.bpb.heads.toNat :=
    Nat.div_lt_of_lt_mul leftLow
  have secLow : (ax % seccyl f).toNat % f.bpb.sectrk.toNat < f.bpb.sectrk.toNat :=
    Nat.mod_lt _ sectrk.1
  have head : (ax % seccyl f / f.bpb.sectrk).toUInt8.toNat =
      (ax % seccyl f).toNat / f.bpb.sectrk.toNat := by
    have word : (ax % seccyl f / f.bpb.sectrk).toNat = (ax % seccyl f).toNat / f.bpb.sectrk.toNat :=
      UInt16.toNat_div ..
    rw [toUInt8_toNat (by omega), word]
  have sec : (ax % seccyl f % f.bpb.sectrk).toUInt8 + 1 =
      UInt8.ofNat ((ax % seccyl f).toNat % f.bpb.sectrk.toNat + 1) := by
    apply UInt8.toNat_inj.mp
    rw [UInt8.toNat_add, UInt16.toNat_toUInt8, UInt16.toNat_mod, UInt8.toNat_ofNat', Nat.mod_add_mod]
    rfl
  have high : ((ax / seccyl f) >>> 8).toUInt8 = UInt8.ofNat ((ax / seccyl f).toNat / 256) := by
    apply UInt8.toNat_inj.mp
    rw [UInt16.toNat_toUInt8, UInt16.toNat_shiftRight, UInt8.toNat_ofNat',
      Nat.shiftRight_eq_div_pow]
    rfl
  have cl : (((ax / seccyl f) >>> 8).toUInt8 <<< 6 |||
      ((ax % seccyl f % f.bpb.sectrk).toUInt8 + 1)).toNat =
        64 * ((ax / seccyl f).toNat / 256) + ((ax % seccyl f).toNat % f.bpb.sectrk.toNat + 1) := by
    rw [sec, high]
    exact cl_fields _ (by omega) _ (by omega)
  have ch : (ax / seccyl f).toUInt8.toNat = (ax / seccyl f).toNat % 256 := UInt16.toNat_toUInt8 _
  have place := chs_inverse ax.toNat f.bpb.heads.toNat f.bpb.sectrk.toNat
  rw [← cyl, ← left] at place
  have cylinder : (ax / seccyl f).toNat % 256 + 256 * ((64 * ((ax / seccyl f).toNat / 256) +
      ((ax % seccyl f).toNat % f.bpb.sectrk.toNat + 1)) / 64) = (ax / seccyl f).toNat := by omega
  have sector' : (64 * ((ax / seccyl f).toNat / 256) +
      ((ax % seccyl f).toNat % f.bpb.sectrk.toNat + 1)) % 64 =
        (ax % seccyl f).toNat % f.bpb.sectrk.toNat + 1 := by omega
  rw [int13, cl, ch, head, cylinder, sector', Nat.add_sub_cancel, place]
  dsimp only
  rw [found]
  exact if_pos ⟨by omega, by omega, headLow⟩

variable (bios) in
theorem readsec_reads (wf : f.WellFormed) (ax : UInt16) (inside : ax.toNat < f.total) (s : Machine)
    (es di : UInt16) : ∃ sector, f.disk ax.toNat = some sector ∧
      readsec f bios s ax es di =
        (⟨fill s.mem (linear es di) sector, s.reads ++ [(ax.toNat, linear es di)], s.calls + 1⟩,
          some (bios s.calls)) := by
  obtain ⟨sector, found⟩ := wf.readable ax.toNat inside
  have track : f.bpb.sectrk.toUInt8.toUInt16 = f.bpb.sectrk := by
    apply UInt16.toNat_inj.mp
    rw [UInt8.toNat_toUInt16, toUInt8_toNat (Nat.lt_of_le_of_lt wf.sectrk.2 (by decide))]
  refine ⟨sector, found, ?_⟩
  rw [readsec, track, int13_readsec wf inside found]

/-! ### A sector of the directory -/

theorem ofNat_add (left right : Nat) :
    UInt16.ofNat left + UInt16.ofNat right = UInt16.ofNat (left + right) :=
  (UInt16.ofNat_add left right).symm

theorem toNat_ofNat {value : Nat} (small : value < 0x10000) :
    (UInt16.ofNat value).toNat = value :=
  UInt16.toNat_ofNat_of_lt' small

theorem cmpsb_iff {bytes : List UInt8} {addr : Nat} (inside : addr + bytes.length ≤ 0x10000) :
    cmpsb mem bytes (UInt16.ofNat addr) = true ↔
      (List.range bytes.length).map (fun t => mem (addr + t)) = bytes := by
  induction bytes generalizing addr with
  | nil => exact iff_of_true rfl rfl
  | cons byte rest ih =>
      rw [List.length_cons] at inside
      have next : UInt16.ofNat addr + 1 = UInt16.ofNat (addr + 1) := ofNat_add addr 1
      have behind := @ih (addr + 1) (by omega)
      have shift : ((fun t => mem (addr + t)) ∘ Nat.succ) = fun t => mem (addr + 1 + t) := by
        funext t
        exact congrArg mem (by omega : addr + (t + 1) = addr + 1 + t)
      rw [cmpsb, toNat_ofNat (by omega), next, Bool.and_eq_true, behind, decide_eq_true_eq,
        List.length_cons, List.range_succ_eq_map, List.map_cons, List.map_map, shift,
        List.cons_eq_cons, Nat.add_zero]
      exact and_congr_left fun _ => eq_comm

/-- The loop at `dnext` finds the first name, or none. -/
theorem dnext_cases (mem : Nat → UInt8) {count addr : Nat} (inside : addr + 32 * count ≤ 0x10000) :
    (∃ j < count, cmpsb mem kernelName (UInt16.ofNat (addr + 32 * j)) = true ∧
        (∀ i < j, ¬ cmpsb mem kernelName (UInt16.ofNat (addr + 32 * i)) = true) ∧
        dnext mem count (UInt16.ofNat addr) = some (UInt16.ofNat (addr + 32 * j + 11))) ∨
      ((∀ j < count, ¬ cmpsb mem kernelName (UInt16.ofNat (addr + 32 * j)) = true) ∧
        dnext mem count (UInt16.ofNat addr) = none) := by
  induction count generalizing addr with
  | zero => exact .inr ⟨fun j none => absurd none (Nat.not_lt_zero j), rfl⟩
  | succ count ih =>
      have next : UInt16.ofNat addr + 0x20 = UInt16.ofNat (addr + 32) := ofNat_add addr 32
      have place (j : Nat) : addr + 32 * (j + 1) = addr + 32 + 32 * j := by omega
      rw [dnext]
      by_cases here : cmpsb mem kernelName (UInt16.ofNat addr) = true
      · rw [if_pos here]
        exact .inl ⟨0, Nat.succ_pos _, here, fun i none => absurd none (Nat.not_lt_zero i),
          congrArg some (ofNat_add addr 11)⟩
      · rw [if_neg here, next]
        rcases @ih (addr + 32) (by omega) with ⟨j, low, found, first, result⟩ | ⟨none, result⟩
        · refine .inl ⟨j + 1, Nat.succ_lt_succ low, place j ▸ found, fun i before => ?_,
            place j ▸ result⟩
          cases i with
          | zero => exact here
          | succ i => exact place i ▸ first i (Nat.lt_of_succ_lt_succ before)
        · refine .inr ⟨fun j low => ?_, result⟩
          cases j with
          | zero => exact here
          | succ j => exact place j ▸ none j (Nat.lt_of_succ_lt_succ low)

theorem word_toNat {si : Nat} (inside : si + 1 < 0x10000) :
    (word mem (UInt16.ofNat si)).toNat = (mem si).toNat + 0x100 * (mem (si + 1)).toNat := by
  have low := (mem si).toNat_lt
  have high := (mem (si + 1)).toNat_lt
  have next : UInt16.ofNat si + 1 = UInt16.ofNat (si + 1) := ofNat_add si 1
  have shifted : ((mem (si + 1)).toUInt16 <<< 8).toNat = (mem (si + 1)).toNat <<< 8 := by
    rw [UInt16.toNat_shiftLeft, UInt8.toNat_toUInt16, Nat.shiftLeft_eq, Nat.shiftLeft_eq]
    change (mem (si + 1)).toNat * 0x100 % 0x10000 = (mem (si + 1)).toNat * 0x100
    omega
  rw [word, next, toNat_ofNat inside, toNat_ofNat (by omega), UInt16.toNat_or, shifted,
    UInt8.toNat_toUInt16, Nat.or_comm, ← Nat.shiftLeft_add_eq_or_of_lt low, Nat.shiftLeft_eq]
  omega

/-! ### Reading the kernel -/

variable (bios) in
/-- The loop at `kread` on sectors that can be read. -/
theorem kread_reads (wf : f.WellFormed) {count base seg : Nat} (inside : base + count ≤ f.total)
    (room : seg + 32 * count ≤ 0x10000) (s : Machine) :
    ∃ s', kread f bios 32 count (UInt16.ofNat base) (UInt16.ofNat seg) s = (s', .kernel) ∧
      s'.reads = s.reads ++ (List.range count).map fun i => (base + i, 16 * seg + 512 * i) := by
  induction count generalizing base seg s with
  | zero => exact ⟨s, rfl, (List.append_nil _).symm⟩
  | succ count ih =>
      have words := wf.words
      have nextBase : UInt16.ofNat base + 1 = UInt16.ofNat (base + 1) := ofNat_add base 1
      have nextSeg : UInt16.ofNat seg + 32 = UInt16.ofNat (seg + 32) := ofNat_add seg 32
      obtain ⟨sector, -, read⟩ := readsec_reads bios wf (UInt16.ofNat base)
        (by rw [toNat_ofNat (by omega)]; omega) s (UInt16.ofNat seg) 0
      have addr : linear (UInt16.ofNat seg) 0 = 16 * seg := by
        rw [linear, toNat_ofNat (by omega)]
        rfl
      rw [toNat_ofNat (by omega), addr] at read
      obtain ⟨s', ran, reads⟩ := @ih (base + 1) (seg + 32) (by omega) (by omega)
        ⟨fill s.mem (16 * seg) sector, s.reads ++ [(base, 16 * seg)], s.calls + 1⟩
      refine ⟨s', ?_, ?_⟩
      · rw [kread, read]
        dsimp only
        rw [nextBase, nextSeg]
        exact ran
      · have shift : ((fun i => (base + i, 16 * seg + 512 * i)) ∘ Nat.succ) =
            fun i => (base + 1 + i, 16 * (seg + 32) + 512 * i) := by
          funext i
          exact Prod.ext (by dsimp only [Function.comp]; omega) (by dsimp only [Function.comp]; omega)
        rw [reads, List.range_succ_eq_map, List.map_cons, List.map_map, shift, List.append_assoc]
        rfl

/-- The loop at `kread` ends in the kernel only behind as many sectors as it has counted. -/
theorem kread_length {si ax bx : UInt16} {count : Nat} {s s' : Machine}
    (ended : kread f bios si count ax bx s = (s', .kernel)) :
    s'.reads.length = s.reads.length + count := by
  induction count generalizing ax bx s with
  | zero =>
      cases ended
      rfl
  | succ count ih =>
      rw [kread] at ended
      have grows (s : Machine) : ∀ s₁ value, readsec f bios s ax bx 0 = (s₁, some value) →
          s₁.reads.length = s.reads.length + 1 := by
        intro s₁ value ran
        rw [readsec] at ran
        split at ran
        · cases ran
        · cases ran
          exact List.length_append
      rcases ran : readsec f bios s ax bx 0 with ⟨s₁, none | value⟩
      · rw [ran] at ended
        cases ended
      · rw [ran] at ended
        rw [ih ended, grows s s₁ value ran, Nat.add_assoc, Nat.add_comm 1]

/-! ### The first sector of the root directory -/

theorem rootsec_toNat (wf : f.WellFormed) : (rootsec f).toNat = f.rootStart := by
  have inside := wf.directory.2
  have words := wf.words
  rw [Floppy.rootStart] at inside ⊢
  rw [rootsec, UInt16.toNat_add, UInt16.toNat_add, UInt16.toNat_mul, UInt8.toNat_toUInt16,
    UInt32.toNat_toUInt16]
  omega

theorem rootSectors_toNat (f : Floppy) : (f.bpb.rootent >>> (4 : UInt16)).toNat = f.rootSectors := by
  rw [UInt16.toNat_shiftRight, Nat.shiftRight_eq_div_pow, Floppy.rootSectors]
  rfl

/-- The memory has the first entries of the root directory. -/
def HasEntries (f : Floppy) (mem : Nat → UInt8) : Prop :=
  ∀ j < 16, ∀ t < 32, mem (0x7e00 + 32 * j + t) = f.entry j t

variable (bios) in
/-- The sector that `dirsec` reads first. -/
theorem first_sector (wf : f.WellFormed) (mem : Nat → UInt8) :
    ∃ s, readsec f bios ⟨mem, [], 0⟩ (rootsec f) 0 0x7e00 = (s, some (bios 0)) ∧
      s.reads = [(f.rootStart, 0x7e00)] ∧ HasEntries f s.mem := by
  obtain ⟨sector, found, read⟩ := readsec_reads bios wf (rootsec f)
    (by rw [rootsec_toNat wf]; exact wf.directory.2) ⟨mem, [], 0⟩ 0 0x7e00
  have addr : linear 0 0x7e00 = 0x7e00 := rfl
  rw [rootsec_toNat wf] at found read
  rw [addr] at read
  refine ⟨_, read, rfl, fun j low t few => ?_⟩
  have offs : 0x7e00 + 32 * j + t - 0x7e00 = 32 * j + t := by omega
  change (if 0x7e00 ≤ 0x7e00 + 32 * j + t ∧ 0x7e00 + 32 * j + t < 0x7e00 + 512 then
    sector (0x7e00 + 32 * j + t - 0x7e00) else mem (0x7e00 + 32 * j + t)) = _
  rw [if_pos (by omega), offs, Floppy.entry, Floppy.byte, Nat.div_eq_of_lt low,
    Nat.mod_eq_of_lt low, Nat.add_zero, found]
  rfl

theorem cmpsb_entry (has : HasEntries f mem) {j : Nat} (low : j < 16) :
    cmpsb mem kernelName (UInt16.ofNat (0x7e00 + 32 * j)) = true ↔ f.Named j := by
  have length : kernelName.length = 11 := rfl
  have same : (List.range 11).map (fun t => mem (0x7e00 + 32 * j + t)) =
      (List.range 11).map (f.entry j) := by
    refine List.map_congr_left fun t inside => has j low t ?_
    have := List.mem_range.mp inside
    omega
  rw [cmpsb_iff (by rw [length]; omega), length, same, Floppy.Named]

/-- What `foundk` does with one of the first entries. -/
theorem foundk_entry (wf : f.WellFormed) {s : Machine} (has : HasEntries f s.mem) {j : Nat}
    (low : j < 16) :
    foundk f bios s (UInt16.ofNat (0x7e00 + 32 * j + 11)) =
      if f.cluster j = 0 then (s, .fail)
      else if f.sizeHigh j ≠ 0 then (s, .fail)
      else kread f bios 32 (loopCount ((UInt16.ofNat (f.sizeLow j) + 512 - 1) / 512))
        (firstSector f (UInt16.ofNat (f.cluster j))) 0x07e0 s := by
  have field (t : Nat) (few : t + 1 < 32) : word s.mem (UInt16.ofNat (0x7e00 + 32 * j + t)) =
      UInt16.ofNat ((f.entry j t).toNat + 0x100 * (f.entry j (t + 1)).toNat) := by
    have one := (f.entry j t).toNat_lt
    have two := (f.entry j (t + 1)).toNat_lt
    apply UInt16.toNat_inj.mp
    rw [word_toNat (by omega), has j low t (by omega), Nat.add_assoc (0x7e00 + 32 * j),
      has j low (t + 1) few, toNat_ofNat (by omega)]
  have zero (value : Nat) (small : value < 0x10000) : UInt16.ofNat value = 0 ↔ value = 0 := by
    rw [← UInt16.toNat_inj, toNat_ofNat small]
    rfl
  have small (t : Nat) : (f.entry j t).toNat + 0x100 * (f.entry j (t + 1)).toNat < 0x10000 := by
    have one := (f.entry j t).toNat_lt
    have two := (f.entry j (t + 1)).toNat_lt
    omega
  have place (offs : Nat) : UInt16.ofNat (0x7e00 + 32 * j + 11) + (0x1a - 0x0b) +
      UInt16.ofNat offs = UInt16.ofNat (0x7e00 + 32 * j + (0x1a + offs)) := by
    have fifteen : (0x1a - 0x0b : UInt16) = UInt16.ofNat 15 := rfl
    rw [fifteen, ofNat_add, ofNat_add]
    exact congrArg UInt16.ofNat (by omega)
  have cluster : word s.mem (UInt16.ofNat (0x7e00 + 32 * j + 11) + (0x1a - 0x0b)) =
      UInt16.ofNat (f.cluster j) := by
    have at0 := place 0
    rw [show UInt16.ofNat 0 = 0 from rfl, UInt16.add_zero] at at0
    rw [at0]
    exact field 0x1a (by decide)
  have size : word s.mem (UInt16.ofNat (0x7e00 + 32 * j + 11) + (0x1a - 0x0b) + 2) =
      UInt16.ofNat (f.sizeLow j) := (congrArg (word s.mem) (place 2)).trans (field 0x1c (by decide))
  have high : word s.mem (UInt16.ofNat (0x7e00 + 32 * j + 11) + (0x1a - 0x0b) + 4) =
      UInt16.ofNat (f.sizeHigh j) := (congrArg (word s.mem) (place 4)).trans (field 0x1e (by decide))
  have shift : (512 : UInt16) >>> 4 = 32 := rfl
  have noCluster : UInt16.ofNat (f.cluster j) = 0 ↔ f.cluster j = 0 := zero _ (small 0x1a)
  have noHigh : UInt16.ofNat (f.sizeHigh j) = 0 ↔ f.sizeHigh j = 0 := zero _ (small 0x1e)
  rw [foundk, cluster, size, high, wf.bysec, shift]
  simp only [noCluster, noHigh, ne_eq]

/-! ### The kernel -/

/-- The sectors of a contiguous file follow each other. -/
theorem fileSector_eq {k : Nat} {chain : Nat → Nat} (onDisk : f.OnDisk k chain) {i : Nat}
    (low : i < f.sectors k) :
    f.fileSector chain i + 2 * f.bpb.secclus.toNat =
      f.dataStart + f.cluster k * f.bpb.secclus.toNat + i := by
  have chained : ∀ c, c * f.bpb.secclus.toNat < f.sectors k → chain c = f.cluster k + c := by
    intro c
    induction c with
    | zero => exact fun _ => onDisk.start
    | succ c ih =>
        intro inside
        have before : c * f.bpb.secclus.toNat ≤ (c + 1) * f.bpb.secclus.toNat :=
          Nat.mul_le_mul_right _ (Nat.le_succ c)
        rw [onDisk.contiguous c inside, ih (Nat.lt_of_le_of_lt before inside), Nat.add_assoc]
  have whole := Nat.div_add_mod i f.bpb.secclus.toNat
  have part : i / f.bpb.secclus.toNat * f.bpb.secclus.toNat ≤ i := Nat.div_mul_le_self i _
  rw [Nat.mul_comm] at whole
  have start := onDisk.low
  rw [Floppy.fileSector, chained _ (Nat.lt_of_le_of_lt part low), Nat.add_mul]
  omega

/-- The first sector is computed in words. -/
theorem firstSector_eq (wf : f.WellFormed) {k : Nat} {chain : Nat → Nat}
    (onDisk : f.OnDisk k chain) (some : 0 < f.sectors k) :
    firstSector f (UInt16.ofNat (f.cluster k)) = UInt16.ofNat (f.fileSector chain 0) := by
  have root : rootsec f = UInt16.ofNat f.rootStart := by
    rw [← rootsec_toNat wf, UInt16.ofNat_toNat]
  have entries : f.bpb.rootent >>> (4 : UInt16) = UInt16.ofNat f.rootSectors := by
    rw [← rootSectors_toNat f, UInt16.ofNat_toNat]
  have perCluster : f.bpb.secclus.toUInt16 = UInt16.ofNat f.bpb.secclus.toNat := by
    apply UInt16.toNat_inj.mp
    rw [UInt8.toNat_toUInt16, toNat_ofNat (Nat.lt_of_lt_of_le f.bpb.secclus.toNat_lt (by decide))]
  have sum := congrArg UInt16.ofNat (fileSector_eq onDisk some)
  rw [Nat.add_zero, Floppy.dataStart, UInt16.ofNat_add, UInt16.ofNat_mul, UInt16.ofNat_add,
    UInt16.ofNat_add, UInt16.ofNat_mul] at sum
  have two : (2 : UInt16) = UInt16.ofNat 2 := rfl
  rw [firstSector, root, entries, perCluster, two]
  generalize UInt16.ofNat 2 = two at *
  linear_combination -sum

/-! ### What was read stays read -/

theorem readsec_extends {s s' : Machine} {ax es di : UInt16} {value : Option UInt16}
    (ran : readsec f bios s ax es di = (s', value)) : s.reads <+: s'.reads := by
  rw [readsec] at ran
  split at ran
  · cases ran
    exact List.prefix_rfl
  · cases ran
    exact List.prefix_append _ _

theorem kread_extends {si ax bx : UInt16} {count : Nat} {s : Machine} :
    s.reads <+: (kread f bios si count ax bx s).1.reads := by
  induction count generalizing ax bx s with
  | zero => exact List.prefix_rfl
  | succ count ih =>
      rw [kread]
      rcases ran : readsec f bios s ax bx 0 with ⟨s', none | value⟩
      · exact readsec_extends ran
      · exact (readsec_extends ran).trans ih

theorem foundk_extends {s : Machine} {di : UInt16} :
    s.reads <+: (foundk f bios s di).1.reads := by
  rw [foundk]
  split_ifs
  · exact List.prefix_rfl
  · exact List.prefix_rfl
  · exact kread_extends

theorem dirsec_extends {count : Nat} {ax : UInt16} {s : Machine} :
    s.reads <+: (dirsec f bios count ax s).1.reads := by
  induction count generalizing ax s with
  | zero => exact List.prefix_rfl
  | succ count ih =>
      rw [dirsec]
      rcases ran : readsec f bios s ax 0 0x7e00 with ⟨s', none | value⟩
      · exact readsec_extends ran
      · dsimp only
        split
        · exact readsec_extends ran
        · exact (readsec_extends ran).trans ih

/-- What comes behind the scan of the directory. -/
def behind (f : Floppy) (bios : Nat → UInt16) : Machine × Option UInt16 → Machine × Exit
  | (s, none) => (s, .fail)
  | (s, some di) => foundk f bios s di

theorem behind_extends (scanned : Machine × Option UInt16) :
    scanned.1.reads <+: (behind f bios scanned).1.reads := by
  rcases scanned with ⟨s, none | di⟩
  · exact List.prefix_rfl
  · exact foundk_extends

/-! ### The boot sector -/

theorem loopCount_pos (cx : UInt16) : 0 < loopCount cx := by
  rw [loopCount]
  split_ifs with zero
  · decide
  · have apart : cx.toNat ≠ 0 := fun same => zero (UInt16.toNat_inj.mp same)
    omega

/-- The first sector of the directory is read; a name in it is found, or the scan goes on with
what the BIOS has returned. -/
theorem boot_cases (wf : f.WellFormed) (bios : Nat → UInt16) (mem : Nat → UInt8) :
    ∃ s : Machine, s.reads = [(f.rootStart, 0x7e00)] ∧ HasEntries f s.mem ∧
      ((∃ j < 16, f.Named j ∧ (∀ i < j, ¬ f.Named i) ∧
          boot f bios mem = foundk f bios s (UInt16.ofNat (0x7e00 + 32 * j + 11))) ∨
        ((∀ j < 16, ¬ f.Named j) ∧ boot f bios mem = behind f bios
          (dirsec f bios (loopCount (f.bpb.rootent >>> (4 : UInt16)) - 1) (bios 0 + 1) s))) := by
  obtain ⟨s, read, reads, has⟩ := first_sector bios wf mem
  refine ⟨s, reads, has, ?_⟩
  obtain ⟨count, some⟩ := Nat.exists_eq_succ_of_ne_zero
    (loopCount_pos (f.bpb.rootent >>> (4 : UInt16))).ne'
  have run : boot f bios mem = behind f bios
      (dirsec f bios (loopCount (f.bpb.rootent >>> (4 : UInt16))) (rootsec f) ⟨mem, [], 0⟩) := rfl
  rw [run, some, dirsec, read]
  dsimp only
  rcases @dnext_cases s.mem 16 0x7e00 (by decide) with
    ⟨j, low, found, first, result⟩ | ⟨none, result⟩
  · have scan : dnext s.mem 16 0x7e00 = Option.some (UInt16.ofNat (0x7e00 + 32 * j + 11)) := result
    rw [scan]
    exact .inl ⟨j, low, (cmpsb_entry has low).mp found, fun i before named =>
      first i before ((cmpsb_entry has (by omega)).mpr named), rfl⟩
  · have scan : dnext s.mem 16 0x7e00 = Option.none := result
    rw [scan]
    exact .inr ⟨fun j low named => none j low ((cmpsb_entry has low).mpr named), rfl⟩

/-- A BIOS with which the scan reads the first sector of the directory again. -/
theorem boot_again (wf : f.WellFormed) (mem : Nat → UInt8) (unnamed : ∀ j < 16, ¬ f.Named j)
    (more : 2 ≤ loopCount (f.bpb.rootent >>> (4 : UInt16))) :
    (boot f (fun _ => rootsec f - 1) mem).1.reads[1]? = some (f.rootStart, 0x7e00) := by
  obtain ⟨s, reads, -, ⟨j, low, named, -⟩ | ⟨-, run⟩⟩ :=
    boot_cases wf (fun _ => rootsec f - 1) mem
  · exact absurd named (unnamed j low)
  · obtain ⟨count, some⟩ := Nat.exists_eq_succ_of_ne_zero (Nat.sub_ne_zero_of_lt more)
    obtain ⟨s', read, grown⟩ : ∃ s', readsec f (fun _ => rootsec f - 1) s (rootsec f) 0 0x7e00 =
        (s', Option.some (rootsec f - 1)) ∧
          s'.reads = [(f.rootStart, 0x7e00), (f.rootStart, 0x7e00)] := by
      obtain ⟨sector, -, read⟩ := readsec_reads (fun _ => rootsec f - 1) wf
        (rootsec f) (by rw [rootsec_toNat wf]; exact wf.directory.2) s 0 0x7e00
      rw [rootsec_toNat wf, reads] at read
      exact ⟨_, read, rfl⟩
    have again : rootsec f - 1 + 1 = rootsec f := UInt16.sub_add_cancel _ _
    have before : s'.reads <+: (behind f (fun _ => rootsec f - 1)
        (dirsec f (fun _ => rootsec f - 1) (count + 1) (rootsec f) s)).1.reads := by
      refine List.IsPrefix.trans ?_ (behind_extends _)
      rw [dirsec, read]
      dsimp only
      split
      · exact List.prefix_rfl
      · exact dirsec_extends
    rw [run, again, some]
    rw [grown] at before
    exact List.prefix_iff_getElem?.mp before 1 (Nat.lt_succ_self 1)

/-- The size of a file of at most 64 K - 512 bytes is rounded up to its sectors, and no other. -/
theorem roundUp {size : Nat} (small : size ≤ 0xffff) :
    loopCount ((UInt16.ofNat size + 512 - 1) / 512) =
      if 1 ≤ size ∧ size ≤ 65024 then (size + 511) / 512 else 0x10000 := by
  have sectors : ((UInt16.ofNat size + 512 - 1) / 512).toNat = (size + 511) % 0x10000 / 512 := by
    have sum : UInt16.ofNat size + 512 - 1 = UInt16.ofNat (size + 511) := by
      rw [UInt16.ofNat_add, UInt16.sub_eq_add_neg, UInt16.add_assoc]
      rfl
    rw [UInt16.toNat_div, sum, UInt16.toNat_ofNat']
    rfl
  have zero : (UInt16.ofNat size + 512 - 1) / 512 = 0 ↔ (size + 511) % 0x10000 / 512 = 0 := by
    rw [← UInt16.toNat_inj, sectors]
    rfl
  rw [loopCount]
  split_ifs with none counted counted
  · have := zero.mp none
    omega
  · rfl
  · rw [sectors]
    omega
  · have some := mt zero.mpr none
    omega

/-- The kernel at an entry of the first sector. -/
theorem foundk_loads (wf : f.WellFormed) {s : Machine} (reads : s.reads = [(f.rootStart, 0x7e00)])
    (has : HasEntries f s.mem) {k : Nat} (low : k < 16) (kernel : f.Kernel k) {chain : Nat → Nat}
    (onDisk : f.OnDisk k chain) (small : f.size k ≤ 65024) :
    f.Loads k chain (foundk f bios s (UInt16.ofNat (0x7e00 + 32 * k + 11))) := by
  have size := kernel.size
  have whole : f.size k = f.sizeLow k := by
    have word := (f.entry k 0x1c).toNat_lt
    have word' := (f.entry k 0x1d).toNat_lt
    rw [Floppy.size] at size ⊢
    omega
  have noHigh : ¬ f.sizeHigh k ≠ 0 := by
    rw [Floppy.size] at size
    omega
  have count : loopCount ((UInt16.ofNat (f.sizeLow k) + 512 - 1) / 512) = f.sectors k := by
    rw [← whole, roundUp size.2, if_pos ⟨size.1, small⟩, Floppy.sectors]
  have some : 0 < f.sectors k := by
    rw [Floppy.sectors]
    omega
  have many : f.sectors k ≤ 128 := by
    rw [Floppy.sectors]
    omega
  have follow {i : Nat} (inside : i < f.sectors k) :
      f.fileSector chain i = f.fileSector chain 0 + i := by
    have first := fileSector_eq onDisk some
    have here := fileSector_eq onDisk inside
    omega
  have last : f.fileSector chain 0 + f.sectors k ≤ f.total := by
    have inside := onDisk.inside (f.sectors k - 1) (by omega)
    rw [follow (by omega)] at inside
    omega
  obtain ⟨s', ran, grown⟩ := @kread_reads f bios wf _ _ 0x07e0 last (by omega) s
  have entered : foundk f bios s (UInt16.ofNat (0x7e00 + 32 * k + 11)) = (s', .kernel) := by
    rw [foundk_entry wf has low, if_neg kernel.cluster, if_neg noHigh, count,
      firstSector_eq wf onDisk some]
    exact ran
  rw [entered]
  refine ⟨?_, rfl⟩
  have one : k / 16 + 1 = 1 := by omega
  rw [grown, reads, one]
  refine congrArg₂ _ rfl (List.map_congr_left fun i inside => ?_)
  rw [follow (List.mem_range.mp inside)]

/-- An entry with the name that is no kernel, or a size that is rounded to nothing, does not load. -/
theorem foundk_refuses (wf : f.WellFormed) {s : Machine}
    (reads : s.reads = [(f.rootStart, 0x7e00)]) (has : HasEntries f s.mem) {j k : Nat}
    (low : j < 16) (inside : k < f.bpb.rootent.toNat) (few : f.size k ≤ 0xffff)
    (bad : f.cluster j = 0 ∨ ¬ (1 ≤ f.size j ∧ f.size j ≤ 65024)) {chain : Nat → Nat} :
    ¬ f.Loads k chain (foundk f bios s (UInt16.ofNat (0x7e00 + 32 * j + 11))) := by
  intro loads
  have entries := f.bpb.rootent.toNat_lt
  have exit := loads.exit
  have length := congrArg List.length loads.reads
  rw [List.length_append, List.length_map, List.length_map, List.length_range, List.length_range,
    Floppy.sectors] at length
  rw [foundk_entry wf has low] at exit length
  split_ifs at exit length with noCluster high
  · have size : f.size j = f.sizeLow j := by
      rw [Floppy.size, not_not.mp high]
      omega
    have word : f.sizeLow j ≤ 0xffff := by
      have one := (f.entry j 0x1c).toNat_lt
      have two := (f.entry j 0x1d).toNat_lt
      rw [Floppy.sizeLow]
      omega
    rw [size] at bad
    rw [roundUp word, if_neg (bad.resolve_left noCluster)] at exit length
    rcases ran : kread f bios 32 0x10000 (firstSector f (UInt16.ofNat (f.cluster j))) 0x07e0 s with
      ⟨s', ended⟩
    rw [ran] at exit length
    cases exit
    rw [kread_length ran, reads, List.length_singleton] at length
    omega

/-- The boot sector loads the kernel, whatever the BIOS returns in `AX`, if and only if its entry
is in the first sector of the directory and the first with its name, and its size is at most 65024;
without an entry of the name it reaches `fail` as it should if and only if the directory is one
sector. -/
theorem boot_loads (wf : f.WellFormed) (mem : Nat → UInt8) :
    (∀ k chain, f.Kernel k → (∀ j < k, ¬ f.Kernel j) → f.OnDisk k chain →
      ((∀ bios, f.Loads k chain (boot f bios mem)) ↔
        k < 16 ∧ (∀ j < k, ¬ f.Named j) ∧ f.size k ≤ 65024)) ∧
    ((∀ k < f.bpb.rootent.toNat, ¬ f.Named k) →
      ((∀ bios, f.GivesUp (boot f bios mem)) ↔ f.rootSectors = 1)) := by
  have dvd := wf.rootent
  have sectors : f.bpb.rootent.toNat = 16 * f.rootSectors := by
    rw [Floppy.rootSectors]
    omega
  have count : loopCount (f.bpb.rootent >>> (4 : UInt16)) =
      if f.rootSectors = 0 then 0x10000 else f.rootSectors := by
    have zero : f.bpb.rootent >>> (4 : UInt16) = 0 ↔ f.rootSectors = 0 := by
      rw [← UInt16.toNat_inj, rootSectors_toNat]
      rfl
    rw [loopCount, rootSectors_toNat]
    simp only [zero]
  have turns : 1 ≤ f.rootSectors → f.rootSectors = 1 ∨
      2 ≤ loopCount (f.bpb.rootent >>> (4 : UInt16)) := by
    intro some
    rw [count, if_neg (by omega)]
    omega
  refine ⟨fun k chain kernel first onDisk => ⟨fun all => ?_, fun ⟨low, unique, small⟩ bios => ?_⟩,
    fun none => ⟨fun all => ?_, fun one bios => ?_⟩⟩
  · have loads := all fun _ => rootsec f - 1
    have index := kernel.index
    obtain ⟨s, reads, has, ⟨j, low, named, before, run⟩ | ⟨unnamed, -⟩⟩ :=
      boot_cases wf (fun _ => rootsec f - 1) mem
    · have refuses (bad : f.cluster j = 0 ∨ ¬ (1 ≤ f.size j ∧ f.size j ≤ 65024)) :
          ¬ f.Loads k chain (boot f (fun _ => rootsec f - 1) mem) := by
        rw [run]
        exact foundk_refuses wf reads has low index kernel.size.2 bad
      obtain ⟨cluster, size⟩ : f.cluster j ≠ 0 ∧ 1 ≤ f.size j ∧ f.size j ≤ 65024 := by
        by_contra bad
        refine refuses ?_ loads
        by_cases zero : f.cluster j = 0
        · exact .inl zero
        · exact .inr fun size => bad ⟨zero, size⟩
      have same : j = k := by
        rcases Nat.lt_trichotomy j k with earlier | same | later
        · exact absurd ⟨by omega, named, cluster, size.1, by omega⟩ (first j earlier)
        · exact same
        · exact absurd kernel.named (before k later)
      subst same
      exact ⟨low, before, size.2⟩
    · -- the scan reads the first sector a second time, where the second one is due
      have far : 16 ≤ k := not_lt.mp fun low => unnamed k low kernel.named
      have again := boot_again wf mem unnamed ((turns (by omega)).resolve_left (by omega))
      have second : (boot f (fun _ => rootsec f - 1) mem).1.reads[1]? =
          some (f.rootStart + 1, 0x7e00) := by
        rw [loads.reads, List.getElem?_append_left (by simp; omega), List.getElem?_map,
          List.getElem?_range (by omega)]
        rfl
      have differ := congrArg Prod.fst (Option.some.inj (again.symm.trans second))
      dsimp only at differ
      omega
  · obtain ⟨s, reads, has, ⟨j, inside, named, before, run⟩ | ⟨unnamed, -⟩⟩ := boot_cases wf bios mem
    · have same : j = k := by
        rcases Nat.lt_trichotomy j k with earlier | same | later
        · exact absurd named (unique j earlier)
        · exact same
        · exact absurd kernel.named (before k later)
      subst same
      rw [run]
      exact foundk_loads wf reads has low kernel onDisk small
    · exact absurd kernel.named (unnamed k low)
  · have gives := all fun _ => rootsec f - 1
    have read : [(f.rootStart, 0x7e00)] <+: (boot f (fun _ => rootsec f - 1) mem).1.reads := by
      obtain ⟨s, reads, -, ⟨j, -, -, -, run⟩ | ⟨-, run⟩⟩ :=
        boot_cases wf (fun _ => rootsec f - 1) mem
      · rw [run, ← reads]
        exact foundk_extends
      · rw [run, ← reads]
        exact dirsec_extends.trans (behind_extends _)
    have some : 1 ≤ f.rootSectors := by
      have length := read.length_le
      rw [gives.reads, List.length_map, List.length_range] at length
      exact length
    refine (turns some).resolve_right fun more => ?_
    have again := boot_again wf mem (fun j low => none j (by omega)) more
    rw [gives.reads, List.getElem?_map] at again
    obtain ⟨i, inside, pair⟩ := Option.map_eq_some_iff.mp again
    obtain ⟨few, rfl⟩ := List.getElem?_eq_some_iff.mp inside
    have differ := congrArg Prod.fst pair
    rw [List.getElem_range] at differ
    dsimp only at differ
    omega
  · obtain ⟨s, reads, -, ⟨j, low, named, -⟩ | ⟨-, run⟩⟩ := boot_cases wf bios mem
    · exact absurd named (none j (by omega))
    · rw [run, count, if_neg (by omega), one]
      refine ⟨?_, rfl⟩
      rw [one]
      exact reads

/-- A floppy of 1440 K with two sectors of root directory. -/
def bpb1440 : Bpb := ⟨512, 1, 1, 2, 32, 2880, 9, 18, 2, 0⟩

/-- A floppy with one entry in its root directory: the kernel, a file of the first cluster. -/
def floppy1440 (index : Nat) (sizeLow sizeHigh : UInt8) : Floppy where
  bpb := bpb1440
  disk lba :=
    if lba < 2880 then some fun offs =>
      if lba = 19 + index / 16 ∧ 32 * (index % 16) ≤ offs then
        (kernelName ++ List.replicate 15 0 ++ [2, 0, sizeLow, sizeHigh, 0, 0]).getD
          (offs - 32 * (index % 16)) 0
      else 0
    else none

theorem floppy1440_layout (index : Nat) (sizeLow sizeHigh : UInt8) :
    (floppy1440 index sizeLow sizeHigh).dataStart = 21 ∧
      (floppy1440 index sizeLow sizeHigh).total = 2880 :=
  (by decide : Floppy.dataStart ⟨bpb1440, fun _ => none⟩ = 21 ∧
    Floppy.total ⟨bpb1440, fun _ => none⟩ = 2880)

theorem floppy1440_wf (index : Nat) (sizeLow sizeHigh : UInt8) :
    (floppy1440 index sizeLow sizeHigh).WellFormed where
  bysec := rfl
  rootent := (by decide : 16 ∣ bpb1440.rootent.toNat)
  sectrk := (by decide : 1 ≤ bpb1440.sectrk.toNat ∧ bpb1440.sectrk.toNat ≤ 63)
  heads := (by decide : 1 ≤ bpb1440.heads.toNat ∧ bpb1440.heads.toNat ≤ 255)
  cylinders := (by decide : bpb1440.hidden.toNat + bpb1440.totsec.toNat ≤
    1024 * (bpb1440.sectrk.toNat * bpb1440.heads.toNat))
  words := (by decide : bpb1440.hidden.toNat + bpb1440.totsec.toNat ≤ 0x10000)
  directory := ⟨by
    rw [(floppy1440_layout ..).1, (floppy1440_layout ..).2]
    decide, by
    rw [(floppy1440_layout ..).2]
    exact (by decide : Floppy.rootStart ⟨bpb1440, fun _ => none⟩ < 2880)⟩
  readable lba inside := ⟨_, if_pos inside⟩

/-- An entry of the kernel that starts in the first cluster, with its clusters in order. -/
theorem floppy1440_onDisk {index : Nat} {sizeLow sizeHigh : UInt8}
    (start : (floppy1440 index sizeLow sizeHigh).cluster index = 2)
    (small : (floppy1440 index sizeLow sizeHigh).sectors index ≤ 128) :
    (floppy1440 index sizeLow sizeHigh).OnDisk index (· + 2) where
  start := start.symm
  contiguous i _ := rfl
  low := by
    rw [start]
    exact Nat.le_add_left _ _
  inside i low := by
    obtain ⟨data, total⟩ := floppy1440_layout index sizeLow sizeHigh
    have one : (floppy1440 index sizeLow sizeHigh).bpb.secclus.toNat = 1 := rfl
    rw [total, Floppy.fileSector, data, one]
    omega

/-- The kernel is the third entry, and has 512 bytes. -/
theorem boot_loads_third :
    (floppy1440 2 0 2).Loads 2 (· + 2) (boot (floppy1440 2 0 2) (fun _ => 1) fun _ => 0) :=
  ((boot_loads (floppy1440_wf 2 0 2) fun _ => 0).1 2 (· + 2)
    ⟨by decide +kernel, by decide +kernel, by decide +kernel, by decide +kernel⟩
    (by
      have unnamed : ∀ j < 2, ¬ (floppy1440 2 0 2).Named j := by decide +kernel
      exact fun j before kernel => unnamed j before kernel.named)
    (floppy1440_onDisk (by decide +kernel) (by decide +kernel))).mpr
    ⟨by decide, by decide +kernel, by decide +kernel⟩ fun _ => 1

/-- The kernel is the seventeenth entry, and the BIOS returns one in `AX`: the second sector that
is read for the directory is the sector 2, and `fail` is reached. -/
theorem boot_misses_seventeenth :
    (floppy1440 16 0 2).WellFormed ∧ (floppy1440 16 0 2).Kernel 16 ∧
      (∀ j < 16, ¬ (floppy1440 16 0 2).Kernel j) ∧ (floppy1440 16 0 2).OnDisk 16 (· + 2) ∧
      ¬ (floppy1440 16 0 2).Loads 16 (· + 2)
        (boot (floppy1440 16 0 2) (fun _ => 1) fun _ => 0) := by
  have unnamed : ∀ j < 16, ¬ (floppy1440 16 0 2).Named j := by decide +kernel
  have fails : (boot (floppy1440 16 0 2) (fun _ => 1) fun _ => 0).2 = .fail := by decide +kernel
  refine ⟨floppy1440_wf 16 0 2,
    ⟨by decide +kernel, by decide +kernel, by decide +kernel, by decide +kernel⟩,
    fun j before kernel => unnamed j before kernel.named,
    floppy1440_onDisk (by decide +kernel) (by decide +kernel), fun loads => ?_⟩
  have enters := loads.exit
  rw [fails] at enters
  cases enters

end Pegasos.Boot
