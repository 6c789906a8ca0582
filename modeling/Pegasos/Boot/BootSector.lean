import Mathlib.Data.List.Range
import Mathlib.Data.UInt

/-!
# The boot sector

`bootsect.asm` from the computation of the root directory to the jump into the kernel, with the
registers as words.  The BIOS reads the sector that `int 13h` names and returns any value in `AX`.
-/

namespace Pegasos.Boot

/-- The parameter block of the boot sector. -/
structure Bpb where
  bysec : UInt16
  secclus : UInt8
  reserv : UInt16
  nfat : UInt8
  rootent : UInt16
  totsec : UInt16
  secfat : UInt16
  sectrk : UInt16
  heads : UInt16
  hidden : UInt32

/-- The bytes of a sector. -/
abbrev Sector := Nat → UInt8

/-- A floppy: its parameter block, and the sectors that can be read from it. -/
structure Floppy where
  bpb : Bpb
  disk : Nat → Option Sector

/-- The memory, the sectors that were read, with the addresses they were read to, and the calls of
the BIOS. -/
structure Machine where
  mem : Nat → UInt8
  reads : List (Nat × Nat)
  calls : Nat

/-- Where the program ends. -/
inductive Exit where
  | fail
  | kernel
  deriving DecidableEq

/-- `loop` with `cx` goes round once more often than it decrements to zero. -/
def loopCount (cx : UInt16) : Nat := if cx = 0 then 0x10000 else cx.toNat

/-- The linear address of `es:di`. -/
def linear (es di : UInt16) : Nat := 16 * es.toNat + di.toNat

/-- A sector in memory. -/
def fill (mem : Nat → UInt8) (addr : Nat) (sector : Sector) : Nat → UInt8 := fun other =>
  if addr ≤ other ∧ other < addr + 512 then sector (other - addr) else mem other

/-- `lodsw` -/
def word (mem : Nat → UInt8) (si : UInt16) : UInt16 :=
  (mem si.toNat).toUInt16 ||| (mem (si + 1).toNat).toUInt16 <<< 8

/-- The name of the kernel in a directory. -/
def kernelName : List UInt8 :=
  [0x4b, 0x45, 0x52, 0x4e, 0x45, 0x4c, 0x20, 0x20, 0x20, 0x20, 0x20]

/-- `repe cmpsb`: if all the bytes were equal. -/
def cmpsb (mem : Nat → UInt8) : List UInt8 → UInt16 → Bool
  | [], _ => true
  | byte :: rest, di => byte = mem di.toNat && cmpsb mem rest (di + 1)

/-- The loop at `dnext`, with `di` behind the name that was found. -/
def dnext (mem : Nat → UInt8) : Nat → UInt16 → Option UInt16
  | 0, _ => none
  | cx + 1, di =>
      if cmpsb mem kernelName di then some (di + 11) else dnext mem cx (di + 0x20)

section

variable (f : Floppy)

/-- `int 13h` with a sector to read. -/
def int13 (ch cl dh : UInt8) : Option (Nat × Sector) :=
  let cyl := ch.toNat + 256 * (cl.toNat / 64)
  let sec := cl.toNat % 64
  if 1 ≤ sec ∧ sec ≤ f.bpb.sectrk.toNat ∧ dh.toNat < f.bpb.heads.toNat then
    let lba := (cyl * f.bpb.heads.toNat + dh.toNat) * f.bpb.sectrk.toNat + (sec - 1)
    (f.disk lba).map fun sector => (lba, sector)
  else none

def seccyl : UInt16 := f.bpb.sectrk * f.bpb.heads

/-- The first sector of the root directory. -/
def rootsec : UInt16 :=
  f.bpb.secfat * f.bpb.nfat.toUInt16 + f.bpb.hidden.toUInt16 + f.bpb.reserv

-- what the BIOS returns in `AX`, call by call
variable (bios : Nat → UInt16)

/-- `readsec`, with the `AX` that it returns; there is none if it goes to `fail`. -/
def readsec (s : Machine) (ax es di : UInt16) : Machine × Option UInt16 :=
  let cyl := ax / seccyl f
  let dx := ax % seccyl f
  -- the divisor is the low byte of `sectrk`
  let sectrk := f.bpb.sectrk.toUInt8.toUInt16
  let head := (dx / sectrk).toUInt8
  let ah := (dx % sectrk).toUInt8 + 1
  let cl := (cyl >>> 8).toUInt8 <<< 6 ||| ah
  let ch := cyl.toUInt8
  match int13 f ch cl head with
  | none => ({ s with calls := s.calls + 1 }, none)
  | some (lba, sector) =>
      (⟨fill s.mem (linear es di) sector, s.reads ++ [(lba, linear es di)], s.calls + 1⟩,
        some (bios s.calls))

/-- The loop at `dirsec`; `AX` is what `readsec` has left in it. -/
def dirsec : Nat → UInt16 → Machine → Machine × Option UInt16
  | 0, _, s => (s, none)
  | cx + 1, ax, s =>
      match readsec f bios s ax 0 0x7e00 with
      | (s, none) => (s, none)
      | (s, some ax) =>
          match dnext s.mem 16 0x7e00 with
          | some di => (s, some di)
          | none => dirsec cx (ax + 1) s

/-- The loop at `kread`. -/
def kread (si : UInt16) : Nat → UInt16 → UInt16 → Machine → Machine × Exit
  | 0, _, _, s => (s, .kernel)
  | cx + 1, ax, bx, s =>
      match readsec f bios s ax bx 0 with
      | (s, none) => (s, .fail)
      | (s, some _) => kread si cx (ax + 1) (bx + si) s

/-- The first sector of the kernel. -/
def firstSector (cluster : UInt16) : UInt16 :=
  (cluster - 2) * f.bpb.secclus.toUInt16 + rootsec f + f.bpb.rootent >>> (4 : UInt16)

/-- `foundk`, with `di` behind the name. -/
def foundk (s : Machine) (di : UInt16) : Machine × Exit :=
  let si := di + (0x1a - 0x0b)
  let cluster := word s.mem si
  if cluster = 0 then (s, .fail)
  else
    let size := word s.mem (si + 2)
    if word s.mem (si + 4) ≠ 0 then (s, .fail)
    else
      let sectors := (size + f.bpb.bysec - 1) / f.bpb.bysec
      kread f bios (f.bpb.bysec >>> 4) (loopCount sectors) (firstSector f cluster) 0x07e0 s

/-- The boot sector, behind the reset of the disk. -/
def boot (mem : Nat → UInt8) : Machine × Exit :=
  match dirsec f bios (loopCount (f.bpb.rootent >>> 4)) (rootsec f) ⟨mem, [], 0⟩ with
  | (s, none) => (s, .fail)
  | (s, some di) => foundk f bios s di

end

end Pegasos.Boot
