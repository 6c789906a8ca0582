import Mathlib.Tactic.IntervalCases
import Pegasos.Kernel.Fdd.FddOp
import Pegasos.Support.Outcome

/-!
# Programming the DMA controller

`dma_setup` checks a range and writes it to the ports of an 8-bit channel, byte after byte.  A
flip-flop in the controller tells the low byte of a register from the high one.  That a range
crosses a page is found, but only reported.
-/

namespace Pegasos.Kernel.Dma

open Pegasos.Support
open Function (update)

/-- A byte written to a port. -/
structure PortWrite where
  port : Nat
  value : UInt8
  deriving DecidableEq, Repr

def DMA8_START_PORT (chan : Nat) : Nat := (chan &&& 0x03) <<< 1
def DMA8_COUNT_PORT (chan : Nat) : Nat := DMA8_START_PORT chan + 1
def DMA8_1CHAN_MASK_PORT : Nat := 0x0a
def DMA16_1CHAN_MASK_PORT : Nat := 0xd4
def DMA8_MODE_PORT : Nat := 0x0b
def DMA8_FF_RESET_PORT : Nat := 0x0c
def DMA_1CHAN_UNMASK : Nat := 0x00
def MAX_ADDRESS : UInt32 := 0xfffff
def MAX_XFER : UInt32 := 0x10000

/-- `page_ports`. -/
def pagePorts (chan : Nat) : Nat :=
  [0x87, 0x83, 0x81, 0x82, 0x8f, 0x8b, 0x89, 0x8a].getD chan 0

def IS_16BIT_CHANNEL (chan : Nat) : Bool := chan > 3

def ADDR_PAGE (addr : UInt32) : Nat := (addr.toNat >>> 16) &&& 0x0f

/-- `dma_unmask_channel`. -/
def dmaUnmaskChannel (chan : Nat) : List PortWrite :=
  let port := if IS_16BIT_CHANNEL chan then DMA16_1CHAN_MASK_PORT else DMA8_1CHAN_MASK_PORT
  [⟨port, UInt8.ofNat (DMA_1CHAN_UNMASK ||| (chan &&& 3))⟩]

/-- The writes of `dma_setup` for an 8-bit channel, with `count` already one less. -/
def setupWrites (chan linaddr count page : Nat) (mode : UInt8) : List PortWrite :=
  [⟨DMA8_FF_RESET_PORT, 0xff⟩,
    ⟨DMA8_START_PORT chan, UInt8.ofNat (linaddr &&& 0xff)⟩,
    ⟨DMA8_START_PORT chan, UInt8.ofNat ((linaddr >>> 8) &&& 0xff)⟩,
    ⟨DMA8_FF_RESET_PORT, 0xff⟩,
    ⟨DMA8_COUNT_PORT chan, UInt8.ofNat (count &&& 0xff)⟩,
    ⟨DMA8_COUNT_PORT chan, UInt8.ofNat ((count >>> 8) &&& 0xff)⟩,
    ⟨pagePorts chan, UInt8.ofNat page⟩,
    ⟨DMA8_MODE_PORT, mode ||| UInt8.ofNat (chan &&& 0x03)⟩] ++ dmaUnmaskChannel chan

/-- `dma_setup`: what it returns, and what it writes to the ports of the controller. -/
def dmaSetup (chan : Nat) (linaddr count : UInt32) (mode : UInt8) :
    Outcome (Int × List PortWrite) :=
  if linaddr > MAX_ADDRESS then .ok (-1, [])
  else if count > MAX_XFER then .ok (-1, [])
  else
    let page := ADDR_PAGE linaddr
    -- a message is printed if the page of `linaddr + count - 1` is another one
    let count := count - 1
    if IS_16BIT_CHANNEL chan then .panic "16-bit DMA is not supported yet!"
    else .ok (0, setupWrites chan linaddr.toNat count.toNat page mode)

/-! ## The controller -/

/-- The registers of the 8-bit channels.  `high` is the flip-flop: the next byte is a high
one. -/
structure Controller where
  high : Bool
  addr : Nat → Nat
  count : Nat → Nat
  page : Nat → Nat

namespace Controller

variable (dma : Controller)

/-- A register after a byte of it has been written. -/
def setByte (register : Nat) (value : UInt8) : Nat :=
  if dma.high then register % 0x100 + 0x100 * value.toNat
  else 0x100 * (register / 0x100) + value.toNat

/-- A write to a port.  Other ports do not hold addresses. -/
def outb (write : PortWrite) : Controller :=
  if write.port = 0x0c then { dma with high := false }
  else if write.port < 8 then
    let chan := write.port / 2
    let dma' := { dma with high := !dma.high }
    if write.port % 2 = 0 then
      { dma' with addr := update dma.addr chan (dma.setByte (dma.addr chan) write.value) }
    else { dma' with count := update dma.count chan (dma.setByte (dma.count chan) write.value) }
  else if write.port = 0x87 then { dma with page := update dma.page 0 write.value.toNat }
  else if write.port = 0x83 then { dma with page := update dma.page 1 write.value.toNat }
  else if write.port = 0x81 then { dma with page := update dma.page 2 write.value.toNat }
  else if write.port = 0x82 then { dma with page := update dma.page 3 write.value.toNat }
  else dma

/-- The controller after some writes. -/
def outs (writes : List PortWrite) : Controller := writes.foldl outb dma

/-- The channel is set for a range. -/
def Holds (chan linaddr count : Nat) : Prop :=
  dma.addr chan = linaddr % 0x10000 ∧ dma.count chan = count - 1 ∧
    dma.page chan = linaddr / 0x10000

end Controller

/-- The range lies below 1M and inside one page of 64K. -/
def InPage (linaddr count : Nat) : Prop :=
  linaddr + count ≤ 0x100000 ∧ linaddr / 0x10000 = (linaddr + count - 1) / 0x10000

/-- `dma_setup` programs a range exactly, or refuses it, whatever the registers were. -/
def ExactOrRefused (chan : Nat) (linaddr count : UInt32) (mode : UInt8) : Prop :=
  (InPage linaddr.toNat count.toNat → ∃ writes, dmaSetup chan linaddr count mode = .ok (0, writes) ∧
    ∀ dma : Controller, (dma.outs writes).Holds chan linaddr.toNat count.toNat) ∧
  (¬InPage linaddr.toNat count.toNat → dmaSetup chan linaddr count mode = .ok (-1, []))

/-- The range passes the two checks, and runs over the end of its page. -/
def Crosses (linaddr count : UInt32) : Prop :=
  linaddr.toNat ≤ 0xfffff ∧ count.toNat ≤ 0x10000 ∧
    0x10000 < linaddr.toNat % 0x10000 + count.toNat

instance (linaddr count : UInt32) : Decidable (Crosses linaddr count) :=
  inferInstanceAs (Decidable (_ ∧ _))

variable {chan : Nat} {linaddr count : UInt32} {mode : UInt8}

/-- What the bytes written come to. -/
theorem outs_holds (eightBit : chan < 4) (inside : linaddr.toNat ≤ 0xfffff)
    (small : count.toNat ≤ 0x10000) (positive : 1 ≤ count.toNat) :
    ∃ writes, dmaSetup chan linaddr count mode = .ok (0, writes) ∧
      ∀ dma : Controller, (dma.outs writes).Holds chan linaddr.toNat count.toNat := by
  have first : ¬linaddr > MAX_ADDRESS := Nat.not_lt_of_le inside
  have second : ¬count > MAX_XFER := Nat.not_lt_of_le small
  have last : (count - 1).toNat = count.toNat - 1 := UInt32.toNat_sub_of_le _ _ positive
  have page : ADDR_PAGE linaddr = linaddr.toNat / 0x10000 := by
    rw [ADDR_PAGE, Nat.shiftRight_eq_div_pow, Nat.and_two_pow_sub_one_eq_mod _ 4]
    omega
  have low : ∀ n : Nat, (n &&& 0xff) % 0x100 = n % 0x100 := fun n => by
    rw [Nat.and_two_pow_sub_one_eq_mod n 8]
    omega
  refine ⟨setupWrites chan linaddr.toNat (count.toNat - 1) (linaddr.toNat / 0x10000) mode, ?_, ?_⟩
  · have notWide : ¬IS_16BIT_CHANNEL chan = true := by
      simp only [IS_16BIT_CHANNEL, decide_eq_true_eq]
      omega
    rw [dmaSetup, if_neg first, if_neg second]
    simp only [notWide, Bool.false_eq_true, if_false, last, page]
  · intro dma
    interval_cases chan <;>
      simp only [Controller.Holds, setupWrites, Controller.outs, List.cons_append, List.nil_append,
        List.foldl_cons, List.foldl_nil, dmaUnmaskChannel, IS_16BIT_CHANNEL,
        Controller.outb, Controller.setByte, DMA8_START_PORT, DMA8_COUNT_PORT, DMA8_FF_RESET_PORT,
        DMA8_MODE_PORT, DMA8_1CHAN_MASK_PORT, pagePorts, UInt8.toNat_ofNat', low] <;>
      simp <;> omega

/-- Every range is programmed exactly or refused, but for those that pass the two checks and
run over the end of their page. -/
theorem dma_setup_exact_or_refused (eightBit : chan < 4) (nonempty : 1 ≤ count) :
    ExactOrRefused chan linaddr count mode ↔ ¬Crosses linaddr count := by
  have positive : 1 ≤ count.toNat := nonempty
  by_cases first : linaddr.toNat ≤ 0xfffff ∧ count.toNat ≤ 0x10000
  · obtain ⟨writes, ran, holds⟩ := @outs_holds chan linaddr count mode eightBit first.1 first.2
      positive
    have inPage : InPage linaddr.toNat count.toNat ↔ ¬Crosses linaddr count := by
      unfold InPage Crosses
      omega
    rw [← inPage]
    constructor
    · intro exact
      by_contra outside
      have refused := exact.2 outside
      rw [ran] at refused
      simp at refused
    · exact fun inside => ⟨fun _ => ⟨writes, ran, holds⟩, fun outside => absurd inside outside⟩
  · have outside : ¬InPage linaddr.toNat count.toNat := by
      unfold InPage
      omega
    have notCrosses : ¬Crosses linaddr count := fun crosses => first ⟨crosses.1, crosses.2.1⟩
    refine iff_of_true ⟨fun inside => absurd inside outside, fun _ => ?_⟩ notCrosses
    rw [dmaSetup]
    by_cases high : linaddr > MAX_ADDRESS
    · exact if_pos high
    · have long : count > MAX_XFER := by
        have below : linaddr.toNat ≤ 0xfffff := Nat.le_of_not_lt high
        exact Nat.lt_of_not_le fun small => first ⟨below, small⟩
      rw [if_neg high, if_pos long]

/-- What the floppy driver takes `dma_setup` for. -/
theorem fdd_dmaSetup (eightBit : chan < 4) (positive : 1 ≤ count.toNat) :
    match Fdd.dmaSetup linaddr.toNat count.toNat with
    | none => dmaSetup chan linaddr count mode = .ok (-1, [])
    | some range => ∃ writes, dmaSetup chan linaddr count mode = .ok (0, writes) ∧
        ∀ dma : Controller, (dma.outs writes).addr chan = range.addr ∧
          (dma.outs writes).count chan = range.count ∧ (dma.outs writes).page chan = range.page := by
  by_cases high : linaddr.toNat > 0xfffff
  · rw [Fdd.dmaSetup, if_pos high]
    exact if_pos high
  by_cases long : count.toNat > 0x10000
  · rw [Fdd.dmaSetup, if_neg high, if_pos long]
    have below : ¬linaddr > MAX_ADDRESS := high
    rw [dmaSetup, if_neg below]
    exact if_pos long
  · rw [Fdd.dmaSetup, if_neg high, if_neg long]
    obtain ⟨writes, ran, holds⟩ := @outs_holds chan linaddr count mode eightBit
      (Nat.le_of_not_lt high) (Nat.le_of_not_lt long) positive
    refine ⟨writes, ran, fun dma => ?_⟩
    obtain ⟨addr, isCount, page⟩ := holds dma
    refine ⟨addr, ?_, ?_⟩
    · rw [isCount]
      dsimp only
      omega
    · rw [page]
      dsimp only
      omega

/-- A sector on a page of its own. -/
theorem dma_setup_sector : 2 < 4 ∧ (1 : UInt32) ≤ 512 ∧
    (ExactOrRefused 2 0x12000 512 0x46 ↔ ¬Crosses 0x12000 512) :=
  ⟨by decide, by decide, dma_setup_exact_or_refused (by decide) (by decide)⟩

/-- Two bytes at the end of a page are accepted. -/
theorem dma_setup_crosses : ¬ExactOrRefused 2 0x1ffff 2 0x46 := by
  intro exact
  have refused := exact.2 (by unfold InPage; decide)
  exact absurd refused (by decide)

end Pegasos.Kernel.Dma
