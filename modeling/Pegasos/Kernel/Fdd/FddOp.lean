import Mathlib.Data.List.Basic
import Mathlib.Tactic.Common

/-!
# Floppy transfers

`fdd_op` of `FDD.C`: how many sectors it moves, the command and the DMA range for them, and
the attempts to carry them out.  What the controller does in each attempt is given, so is what
a failed one leaves behind.  Addresses are linear.
-/

namespace Pegasos.Kernel.Fdd

universe u

variable {Byte : Type u}

def EIO : Int := 4
def EINVAL : Int := 5
def ENODEV : Int := 1

abbrev FDD_SECTOR_SIZE : Nat := 512
abbrev FDD_RETRY : Nat := 3

def FDD_OP_MFM : Nat := 0x40
def FDD_CMD_WRITE_DATA : Nat := 0x05
def FDD_CMD_READ_DATA : Nat := 0x06

/-- The type of a drive, as the CMOS has it. -/
inductive CmosFdd where
  | fdd360
  | fdd1_2
  | fdd720
  | fdd1_44
  | unknown
  deriving DecidableEq, Repr

/-- The sectors on a track. -/
def secPerTrk : CmosFdd → Option Nat
  | .fdd360 => some 9
  | .fdd1_2 => some 15
  | .fdd720 => some 9
  | .fdd1_44 => some 18
  | .unknown => none

/-- `fddunit_t`, as far as `fdd_op` reads it. -/
structure FddUnit where
  drive : Nat
  type : CmosFdd

/-- The parameters of the BIOS that are part of a command. -/
structure FddBiosparm where
  byPerSec : Nat
  eot : Nat
  gap : Nat
  dtl : Nat

/-- A place on a disk. -/
structure Chs where
  cyl : Nat
  head : Nat
  sec : Nat
  deriving DecidableEq, Repr

/-- The memory and the disk in the drive. -/
structure Machine (Byte : Type u) where
  memory : Nat → Byte
  disk : Chs → Nat → Byte

/-! ## DMA -/

/-- What the DMA controller is programmed with. -/
structure Dma where
  page : Nat
  addr : Nat
  count : Nat
  deriving DecidableEq, Repr

/-- `dma_setup`, but for the mode.  A range that crosses a page is only reported. -/
def dmaSetup (linaddr count : Nat) : Option Dma :=
  if linaddr > 0xFFFFF then none
  else if count > 0x10000 then none
  else some ⟨linaddr / 0x10000 % 0x10, linaddr % 0x10000, (count - 1) % 0x10000⟩

namespace Dma

variable (dma : Dma)

/-- The i-th address.  The page stays the same. -/
def address (i : Nat) : Nat := dma.page * 0x10000 + (dma.addr + i) % 0x10000

/-- Which byte an address is, if it is in the page. -/
def index (a : Nat) : Nat := (a % 0x10000 + 0x10000 - dma.addr) % 0x10000

/-- The address is in the range. -/
def Covers (a : Nat) : Prop := a / 0x10000 = dma.page ∧ dma.index a ≤ dma.count

instance (a : Nat) : Decidable (dma.Covers a) := inferInstanceAs (Decidable (_ ∧ _))

end Dma

/-! ## What the controller does -/

/-- The cylinder, head and sector bytes of a command. -/
def commandChs (opbuf : List Nat) : Chs :=
  ⟨opbuf[2]?.getD 0, opbuf[3]?.getD 0, opbuf[4]?.getD 0⟩

/-- A command, its DMA range, and the direction. -/
structure Op where
  opbuf : List Nat
  dma : Dma
  doread : Bool

namespace Op

variable (op : Op)

/-- Where the command begins. -/
def chs : Chs := commandChs op.opbuf

/-- The sectors of the command: as many as the DMA range is for. -/
def Targets (chs : Chs) : Prop :=
  chs.cyl = op.chs.cyl ∧ chs.head = op.chs.head ∧ op.chs.sec ≤ chs.sec ∧
    (chs.sec - op.chs.sec) * FDD_SECTOR_SIZE ≤ op.dma.count

instance (chs : Chs) : Decidable (op.Targets chs) := inferInstanceAs (Decidable (_ ∧ _))

/-- The bytes that the command is to move. -/
def source (m : Machine Byte) (i : Nat) : Byte :=
  if op.doread then
    m.disk { op.chs with sec := op.chs.sec + i / FDD_SECTOR_SIZE } (i % FDD_SECTOR_SIZE)
  else m.memory (op.dma.address i)

/-- Bytes are stored where the command moves them to. -/
def store (m : Machine Byte) (bytes : Nat → Byte) : Machine Byte :=
  if op.doread then
    { m with memory := fun a => if op.dma.Covers a then bytes (op.dma.index a) else m.memory a }
  else
    { m with disk := fun chs j =>
        if op.Targets chs ∧ j < FDD_SECTOR_SIZE then
          bytes ((chs.sec - op.chs.sec) * FDD_SECTOR_SIZE + j)
        else m.disk chs j }

end Op

/-- The result of a command: whether there is one, two of its bytes, and the bytes that are
stored if the command has failed. -/
structure IoResult (Byte : Type u) where
  answered : Bool
  st0 : Nat
  st2 : Nat
  left : Nat → Byte

/-- `FDD_ST0_IC(st0) == FDD_ST0_IC_OK`. -/
def IoResult.Ok (result : IoResult Byte) : Prop := result.st0 / 0x40 % 4 = 0

instance (result : IoResult Byte) : Decidable result.Ok := inferInstanceAs (Decidable (_ = _))

/-- The results in each attempt to seek, and for each attempt to read or write in it. -/
structure Controller (Byte : Type u) where
  seldrive : Nat → Int
  recalibrate : Nat → Int
  seek : Nat → Int
  send : Nat → Nat → Int
  io : Nat → Nat → IoResult Byte

/-- The inner loop of `fdd_op`: the result, whether the drive has to be recalibrated, and what
is in the memory and on the disk. -/
def opLoop (hw : Controller Byte) (opbuf : List Nat) (linaddr size : Nat) (doread : Bool)
    (seekRetry : Nat) : (left opRetry : Nat) → Machine Byte → Int × Bool × Machine Byte
  | 0, _, m => (-1, false, m)
  | left + 1, opRetry, m =>
      match dmaSetup linaddr size with
      | none => opLoop hw opbuf linaddr size doread seekRetry left (opRetry + 1) m
      | some dma =>
          if hw.send seekRetry opRetry ≠ 0 then
            opLoop hw opbuf linaddr size doread seekRetry left (opRetry + 1) m
          else
            let op : Op := ⟨opbuf, dma, doread⟩
            let result := hw.io seekRetry opRetry
            if !result.answered then
              opLoop hw opbuf linaddr size doread seekRetry left (opRetry + 1)
                (op.store m result.left)
            else if result.Ok then (0, false, op.store m (op.source m))
            else if result.st2.testBit 4 then (-1, true, op.store m result.left)
            else
              opLoop hw opbuf linaddr size doread seekRetry left (opRetry + 1)
                (op.store m result.left)

/-- The outer loop of `fdd_op`. -/
def seekLoop (hw : Controller Byte) (opbuf : List Nat) (linaddr size : Nat) (doread : Bool) :
    (left seekRetry : Nat) → (needRecal : Bool) → Machine Byte → Int × Machine Byte
  | 0, _, _, m => (-1, m)
  | left + 1, seekRetry, needRecal, m =>
      if hw.seldrive seekRetry ≠ 0 then
        seekLoop hw opbuf linaddr size doread left (seekRetry + 1) needRecal m
      else if needRecal ∧ hw.recalibrate seekRetry ≠ 0 then
        seekLoop hw opbuf linaddr size doread left (seekRetry + 1) needRecal m
      else if hw.seek seekRetry ≠ 0 then
        seekLoop hw opbuf linaddr size doread left (seekRetry + 1) false m
      else
        let (rc, needRecal, m) := opLoop hw opbuf linaddr size doread seekRetry FDD_RETRY 0 m
        if rc ≠ 0 then seekLoop hw opbuf linaddr size doread left (seekRetry + 1) needRecal m
        else (rc, m)

/-! ## `fdd_op` -/

/-- The sector, head and cylinder variables of `fdd_op`. -/
def geometry (spt blk : Nat) : Chs where
  sec := (1 + blk % spt) % 0x10000
  head := blk / spt % 2
  cyl := blk / spt / 2 % 0x10000

/-- `1 + (buflin | 0xffff)`. -/
def nextpage (buflin : Nat) : Nat := 1 + (buflin ||| 0xFFFF)

/-- How many sectors fit before the next page. -/
def pageSecs (buf : Nat) : Nat := (nextpage buf - buf) / FDD_SECTOR_SIZE

/-- The work buffer is used. -/
def UseWb (buf : Nat) : Prop := pageSecs buf = 0

instance (buf : Nat) : Decidable (UseWb buf) := inferInstanceAs (Decidable (_ = _))

/-- `secs` at its end: up to the end of the track, and of the page unless the work buffer is
used.  Then it is `size` that is set. -/
def secs (spt blk buf size : Nat) : Nat :=
  let secs := min (size / FDD_SECTOR_SIZE) (spt - (geometry spt blk).sec + 1)
  if UseWb buf then secs else min secs (pageSecs buf)

/-- The address for the DMA controller. -/
def buflin (work buf : Nat) : Nat := if UseWb buf then work else buf

def opbuf (parm : FddBiosparm) (drive : Nat) (chs : Chs) (doread : Bool) : List Nat :=
  [FDD_OP_MFM ||| (if doread then FDD_CMD_READ_DATA else FDD_CMD_WRITE_DATA),
    (chs.head * 4 ||| drive % 4) % 0x100, chs.cyl % 0x100, chs.head % 0x100, chs.sec % 0x100,
    parm.byPerSec, parm.eot, parm.gap, parm.dtl]

/-- `_fmemcpy` of one sector. -/
def copySector (m : Machine Byte) (dst src : Nat) : Machine Byte :=
  { m with memory := fun a =>
      if dst ≤ a ∧ a < dst + FDD_SECTOR_SIZE then m.memory (src + (a - dst)) else m.memory a }

/-- `fdd_op` for a drive and a size that are in order. -/
def transfer (parm : FddBiosparm) (work : Nat) (hw : Controller Byte) (drive spt buf blk size : Nat)
    (doread : Bool) (m : Machine Byte) : Int × Machine Byte :=
  let size := secs spt blk buf size * FDD_SECTOR_SIZE
  let opbuf := opbuf parm drive (geometry spt blk) doread
  let m := if !doread ∧ UseWb buf then copySector m work buf else m
  let (rc, m) := seekLoop hw opbuf (buflin work buf) size doread FDD_RETRY 0 false m
  if rc < 0 then (rc, m)
  else (size, if doread ∧ UseWb buf then copySector m buf work else m)

/-- `fdd_op`. -/
def fddOp (units : List FddUnit) (parm : FddBiosparm) (work : Nat) (hw : Controller Byte)
    (unit buf blk : Nat) (size : Int) (doread : Bool) (m : Machine Byte) : Int × Machine Byte :=
  if size < 0 ∨ size.tmod FDD_SECTOR_SIZE ≠ 0 then (-EINVAL, m)
  else if size = 0 then (0, m)
  else
    match units[unit]? with
    | none => (-ENODEV, m)
    | some pu =>
        match secPerTrk pu.type with
        | none => (- EIO, m)
        | some spt => transfer parm work hw pu.drive spt buf blk size.toNat doread m

end Pegasos.Kernel.Fdd
