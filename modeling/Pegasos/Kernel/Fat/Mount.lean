import Pegasos.Kernel.Fat.FileRead

/-!
# Mounting a volume

`fat_mount` computes the places on a volume from the boot sector, whatever that says.
-/

namespace Pegasos.Kernel.Fat

open Pegasos.Support
open Pegasos.Fat (Sector Bpb bpbOf)
open Cache (BlkPtr)

/-- The volume with a BIOS parameter block. -/
def FatVol.ofBpb (dev unit : Int) (bpb : Bpb) : FatVol where
  dev := dev
  unit := unit
  bpb := bpb
  fat0sec := bpb.mount.fat0sec.toNat
  rootdirsec := bpb.mount.rootdirsec.toNat
  datasec := bpb.mount.datasec.toNat
  nClus := bpb.mount.nClus.toNat

/-- `fat_mount`. -/
def fatMount (dev unit : Int) : DiskM FatVol := do
  let blk ← bcGet ⟨dev, unit, 0⟩
  let bpb := bpbOf (← readBlock blk)
  bcPut blk
  -- a division by zero
  if bpb.sectorPerCluster = 0 then Program.fault else return .ofBpb dev unit bpb

variable {dev unit : Int} {data : Nat → Sector} {base : BlkPtr → Nat} {disk : Disk}

/-- What is read from the boot sector, and the division. -/
theorem fatMount_runs (others : Others base) (serves : Serves dev unit data base disk []) :
    ((bpbOf (data 0)).sectorPerCluster = 0 ∧ fatMount dev unit disk = .fault) ∨
      ((bpbOf (data 0)).sectorPerCluster ≠ 0 ∧ ∃ after,
        fatMount dev unit disk = .ok (.ofBpb dev unit (bpbOf (data 0))) after) := by
  obtain ⟨b, disk1, ran1, -, bytes, got⟩ := serves.gets others (Nat.zero_le 1) 0
  obtain ⟨⟨⟩, disk2, ran2, -⟩ := got.serves.puts others (Nat.zero_le 1)
  have block : readBlock b disk1 = .ok (data 0) disk1 := by
    rw [← bytes]
    rfl
  rw [fatMount, Program.bind_ok ran1, Program.bind_ok block, Program.bind_ok ran2]
  by_cases zero : (bpbOf (data 0)).sectorPerCluster = 0
  · exact .inl ⟨zero, by rw [if_pos zero]; rfl⟩
  · exact .inr ⟨zero, disk2, by rw [if_neg zero]; rfl⟩

/-- The boot sector describes a volume, and `fv` has its places. -/
structure Validated (bpb : Bpb) (fv : FatVol) : Prop where
  proper : bpb.Proper
  fat0sec : fv.fat0sec = bpb.hiddenSectors.toNat + bpb.reservedSectors.toNat
  rootdirsec : fv.rootdirsec =
    bpb.hiddenSectors.toNat + bpb.reservedSectors.toNat + bpb.fatSectors
  datasec : fv.datasec = bpb.dataStart
  nClus : fv.nClus = bpb.clusterEnd

/-- `fat_mount` divides by zero nowhere, and it returns a negative error unless it returns a
volume that the boot sector describes. -/
structure Validates (dev unit : Int) (data : Nat → Sector) (disk : Disk) : Prop where
  ends : Program.Ends (fatMount dev unit) disk (fun fv _ => Validated (bpbOf (data 0)) fv)
    fun code _ => code < 0

/-- The places of a proper volume are the exact ones if the bytes of the root directory fit
into a word. -/
theorem validated_iff (bpb : Bpb) :
    Validated bpb (.ofBpb dev unit bpb) ↔ bpb.Proper ∧ bpb.rootEntries.toNat < 2033 := by
  have total := bpb.totalSectors.toNat_lt
  constructor
  · intro validated
    have start : bpb.dataStart ≤ _ := validated.proper.inside
    unfold Bpb.dataStart at start
    exact ⟨validated.proper,
      (Bpb.datasec_toNat (by omega) (by omega)).mp validated.datasec⟩
  · rintro ⟨proper, entries⟩
    have start : bpb.dataStart ≤ _ := proper.inside
    unfold Bpb.dataStart at start
    have hidden : bpb.hiddenSectors.toNat < 0x10000 := by omega
    have inside : bpb.reservedSectors.toNat + bpb.fatSectors + bpb.rootSectors ≤
        bpb.totalSectors.toNat := by omega
    have reserved := bpb.reservedSectors.toNat_lt
    have fat0sec : bpb.mount.fat0sec = bpb.hiddenSectors + bpb.reservedSectors.toUInt32 := rfl
    refine ⟨proper, ?_, Bpb.rootdirsec_toNat hidden inside,
      (Bpb.datasec_toNat hidden inside).mpr entries,
      Bpb.nClus_toNat hidden inside entries proper.inside⟩
    change bpb.mount.fat0sec.toNat = _
    rw [fat0sec, UInt32.toNat_add, UInt16.toNat_toUInt32]
    exact Nat.mod_eq_of_lt (by omega)

/-- A boot sector with no sectors in a cluster, and `fat_mount` divides by zero. -/
theorem not_validates (others : Others base) (serves : Serves dev unit data base disk [])
    (zero : (bpbOf (data 0)).sectorPerCluster = 0) : ¬Validates dev unit data disk := by
  rcases fatMount_runs others serves with ⟨-, ran⟩ | ⟨some, -⟩
  · exact fun validates => Program.not_ends_of_fault ran validates.ends
  · exact absurd zero some

/-- `fat_mount` validates exactly the boot sectors of proper volumes whose root directory is
small enough, since it looks at nothing. -/
theorem fat_mount_validates (others : Others base) (serves : Serves dev unit data base disk []) :
    Validates dev unit data disk ↔
      (bpbOf (data 0)).Proper ∧ (bpbOf (data 0)).rootEntries.toNat < 2033 := by
  rcases fatMount_runs others serves with ⟨zero, -⟩ | ⟨some, after, ran⟩
  · refine ⟨fun validates => absurd validates (not_validates others serves zero), fun valid => ?_⟩
    exact absurd zero valid.1.clusters
  · rw [← validated_iff]
    constructor
    · intro validates
      have ends := validates.ends
      rwa [Program.Ends, ran] at ends
    · exact fun valid => ⟨.of_ok ran valid⟩

/-- The boot sector of a floppy disk. -/
def floppySector : Sector := fun i =>
  [0, 0, 0, 0, 0, 0, 0, 0, 0, 0, 0, 0, 2, 1, 1, 0, 2, 224, 0, 64, 11, 0xf0, 9].getD i 0

theorem bpbOf_floppySector : bpbOf floppySector = Bpb.floppy := by decide

theorem floppy_proper : Bpb.floppy.Proper := by
  refine ⟨rfl, by decide, by decide, fun c less => ?_⟩
  have clusters : Bpb.floppy.clusterEnd = 2849 := by decide
  rw [clusters] at less
  change c * 3 / 2 + 1 < 9 * 512
  omega

theorem fat_mount_validates_floppy :
    Validates 0 0 (fun _ => floppySector) (.idle fun _ => floppySector) := by
  have serves := Serves.idle 0 0 fun _ => floppySector
  apply (fat_mount_validates .none serves).mpr
  rw [bpbOf_floppySector]
  exact ⟨floppy_proper, by decide⟩

theorem fat_mount_divides_by_zero : ¬Validates 0 0 (fun _ _ => 0) (.idle fun _ _ => 0) :=
  not_validates .none (.idle 0 0 fun _ _ => 0) rfl

end Pegasos.Kernel.Fat
