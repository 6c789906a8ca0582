import Mathlib.Algebra.Ring.Parity
import Pegasos.Support.Transition
import Pegasos.Support.Tables

/-!
# The keyboard of the console

`con_descan` turns the scancodes of the keyboard into keys on a bounded queue and
keeps track of the modifier keys; `con_read` takes keys from the queue.  The history
keeps the scancodes that have been decoded and the entries of the table that have
been looked at.
-/

namespace Pegasos.Kernel.Console

open Pegasos.Support
open Function (update)

def SC_EXT_PREFIX : UInt8 := 0xE0
def SC_KEYUP : UInt8 := 0x80

def SC_SHIFTS : UInt8 := 0x01
def SC_CAPSLOCK : UInt8 := 0x02
def SC_CTRL : UInt8 := 0x04
def SC_META : UInt8 := 0x08
def SC_EXT : UInt8 := 0x10
def SC_NUML : UInt8 := 0x20
def SC_E0 : UInt8 := 0x40

def SC_META_LSHIFT : UInt16 := 0x0001
def SC_META_LCTRL : UInt16 := 0x0002
def SC_META_LALT : UInt16 := 0x0004
def SC_META_RSHIFT : UInt16 := 0x0008
def SC_META_RALT : UInt16 := 0x0010
def SC_META_RCTRL : UInt16 := 0x0020
def SC_META_NUMLOCK : UInt16 := 0x0040
def SC_META_SCRLOCK : UInt16 := 0x0080
def SC_META_CAPSLOCK : UInt16 := 0x0100

def SC_EXT_F1 : UInt8 := 0x01
def SC_EXT_F2 : UInt8 := 0x02
def SC_EXT_F3 : UInt8 := 0x03
def SC_EXT_F4 : UInt8 := 0x04
def SC_EXT_F5 : UInt8 := 0x05
def SC_EXT_F6 : UInt8 := 0x06
def SC_EXT_F7 : UInt8 := 0x07
def SC_EXT_F8 : UInt8 := 0x08
def SC_EXT_F9 : UInt8 := 0x09
def SC_EXT_F10 : UInt8 := 0x0A
def SC_EXT_F11 : UInt8 := 0x0B
def SC_EXT_F12 : UInt8 := 0x0C

def SC_EXT_HOME : UInt8 := 0x20
def SC_EXT_END : UInt8 := 0x21
def SC_EXT_PGUP : UInt8 := 0x22
def SC_EXT_PGDN : UInt8 := 0x23
def SC_EXT_UP : UInt8 := 0x24
def SC_EXT_DOWN : UInt8 := 0x25
def SC_EXT_LEFT : UInt8 := 0x26
def SC_EXT_RIGHT : UInt8 := 0x27
def SC_EXT_INS : UInt8 := 0x28
def SC_EXT_DEL : UInt8 := 0x29
def SC_WINDOWS : UInt8 := 0x2A
def SC_CONTEXT : UInt8 := 0x2B

/-- `scandef_t`. -/
structure Scandef where
  ascii : UInt8
  shifted : UInt8
  flags : UInt8
  deriving DecidableEq, Repr

/-- `MKMETA`. -/
def mkmeta (mask : UInt16) (flags : UInt8) : Scandef :=
  ⟨(mask &&& 0xff).toUInt8, ((mask >>> (8 : UInt16)) &&& 0xff).toUInt8, SC_META ||| flags⟩

/-- `SC_GET_META`. -/
def Scandef.getMeta (sc : Scandef) : UInt16 :=
  (sc.shifted.toUInt16 <<< (8 : UInt16)) ||| sc.ascii.toUInt16

def typed (ascii shifted : Char) (flags : UInt8) : Scandef :=
  ⟨ascii.toNat.toUInt8, shifted.toNat.toUInt8, flags⟩

/-- The translation of the scancodes of a US keyboard. -/
def scascii : List Scandef := [
  -- 0x00
  ⟨0, 0, 0⟩,
  ⟨0x1b, 0, 0⟩,
  typed '1' '!' SC_SHIFTS,
  typed '2' '@' SC_SHIFTS,
  typed '3' '#' SC_SHIFTS,
  typed '4' '$' SC_SHIFTS,
  typed '5' '%' SC_SHIFTS,
  typed '6' '^' SC_SHIFTS,
  typed '7' '&' SC_SHIFTS,
  typed '8' '*' SC_SHIFTS,
  typed '9' '(' SC_SHIFTS,
  typed '0' ')' SC_SHIFTS,
  typed '-' '_' SC_SHIFTS,
  typed '=' '+' SC_SHIFTS,
  ⟨0x08, 0, 0⟩,
  ⟨0x09, 0, 0⟩,
  -- 0x10
  typed 'q' 'Q' (SC_SHIFTS ||| SC_CAPSLOCK ||| SC_CTRL),
  typed 'w' 'W' (SC_SHIFTS ||| SC_CAPSLOCK ||| SC_CTRL),
  typed 'e' 'E' (SC_SHIFTS ||| SC_CAPSLOCK ||| SC_CTRL),
  typed 'r' 'R' (SC_SHIFTS ||| SC_CAPSLOCK ||| SC_CTRL),
  typed 't' 'T' (SC_SHIFTS ||| SC_CAPSLOCK ||| SC_CTRL),
  typed 'y' 'Y' (SC_SHIFTS ||| SC_CAPSLOCK ||| SC_CTRL),
  typed 'u' 'U' (SC_SHIFTS ||| SC_CAPSLOCK ||| SC_CTRL),
  typed 'i' 'I' (SC_SHIFTS ||| SC_CAPSLOCK ||| SC_CTRL),
  typed 'o' 'O' (SC_SHIFTS ||| SC_CAPSLOCK ||| SC_CTRL),
  typed 'p' 'P' (SC_SHIFTS ||| SC_CAPSLOCK ||| SC_CTRL),
  ⟨0x5b, 0x7b, SC_SHIFTS ||| SC_CTRL⟩,
  ⟨0x5d, 0x7d, SC_SHIFTS ||| SC_CTRL⟩,
  ⟨0x0a, 0, SC_E0⟩,
  mkmeta SC_META_LCTRL SC_E0,
  typed 'a' 'A' (SC_SHIFTS ||| SC_CAPSLOCK ||| SC_CTRL),
  typed 's' 'S' (SC_SHIFTS ||| SC_CAPSLOCK ||| SC_CTRL),
  -- 0x20
  typed 'd' 'D' (SC_SHIFTS ||| SC_CAPSLOCK ||| SC_CTRL),
  typed 'f' 'F' (SC_SHIFTS ||| SC_CAPSLOCK ||| SC_CTRL),
  typed 'g' 'G' (SC_SHIFTS ||| SC_CAPSLOCK ||| SC_CTRL),
  typed 'h' 'H' (SC_SHIFTS ||| SC_CAPSLOCK ||| SC_CTRL),
  typed 'j' 'J' (SC_SHIFTS ||| SC_CAPSLOCK ||| SC_CTRL),
  typed 'k' 'K' (SC_SHIFTS ||| SC_CAPSLOCK ||| SC_CTRL),
  typed 'l' 'L' (SC_SHIFTS ||| SC_CAPSLOCK ||| SC_CTRL),
  typed ';' ':' SC_SHIFTS,
  ⟨0x27, 0x22, SC_SHIFTS⟩,
  ⟨0x60, 0x7e, SC_SHIFTS⟩,
  mkmeta SC_META_LSHIFT 0,
  ⟨0x5c, 0x7c, SC_SHIFTS ||| SC_CTRL⟩,
  typed 'z' 'Z' (SC_SHIFTS ||| SC_CAPSLOCK ||| SC_CTRL),
  typed 'x' 'X' (SC_SHIFTS ||| SC_CAPSLOCK ||| SC_CTRL),
  typed 'c' 'C' (SC_SHIFTS ||| SC_CAPSLOCK ||| SC_CTRL),
  typed 'v' 'V' (SC_SHIFTS ||| SC_CAPSLOCK ||| SC_CTRL),
  -- 0x30
  typed 'b' 'B' (SC_SHIFTS ||| SC_CAPSLOCK ||| SC_CTRL),
  typed 'n' 'N' (SC_SHIFTS ||| SC_CAPSLOCK ||| SC_CTRL),
  typed 'm' 'M' (SC_SHIFTS ||| SC_CAPSLOCK ||| SC_CTRL),
  typed ',' '<' SC_SHIFTS,
  typed '.' '>' SC_SHIFTS,
  typed '/' '?' (SC_SHIFTS ||| SC_E0),
  mkmeta SC_META_RSHIFT 0,
  ⟨0x2a, 0, 0⟩,
  mkmeta SC_META_LALT SC_E0,
  ⟨0x20, 0, 0⟩,
  mkmeta SC_META_CAPSLOCK 0,
  ⟨SC_EXT_F1, 0, SC_EXT⟩,
  ⟨SC_EXT_F2, 0, SC_EXT⟩,
  ⟨SC_EXT_F3, 0, SC_EXT⟩,
  ⟨SC_EXT_F4, 0, SC_EXT⟩,
  ⟨SC_EXT_F5, 0, SC_EXT⟩,
  -- 0x40
  ⟨SC_EXT_F6, 0, SC_EXT⟩,
  ⟨SC_EXT_F7, 0, SC_EXT⟩,
  ⟨SC_EXT_F8, 0, SC_EXT⟩,
  ⟨SC_EXT_F9, 0, SC_EXT⟩,
  ⟨SC_EXT_F10, 0, SC_EXT⟩,
  mkmeta SC_META_NUMLOCK 0,
  mkmeta SC_META_SCRLOCK 0,
  ⟨0x37, SC_EXT_HOME, SC_NUML ||| SC_E0⟩,
  ⟨0x38, SC_EXT_UP, SC_NUML ||| SC_E0⟩,
  ⟨0x39, SC_EXT_PGUP, SC_NUML ||| SC_E0⟩,
  ⟨0x2d, 0, 0⟩,
  ⟨0x34, SC_EXT_LEFT, SC_NUML ||| SC_E0⟩,
  ⟨0x35, 0, 0⟩,
  ⟨0x36, SC_EXT_RIGHT, SC_NUML ||| SC_E0⟩,
  ⟨0x2b, 0, 0⟩,
  ⟨0x31, SC_EXT_END, SC_NUML ||| SC_E0⟩,
  -- 0x50
  ⟨0x32, SC_EXT_DOWN, SC_NUML ||| SC_E0⟩,
  ⟨0x33, SC_EXT_PGDN, SC_NUML ||| SC_E0⟩,
  ⟨0x30, SC_EXT_INS, SC_NUML ||| SC_E0⟩,
  ⟨0x2e, SC_EXT_DEL, SC_NUML ||| SC_E0⟩,
  ⟨0, 0, 0⟩,
  ⟨0, 0, 0⟩,
  ⟨0, 0, 0⟩,
  ⟨SC_EXT_F11, 0, SC_EXT⟩,
  ⟨SC_EXT_F12, 0, SC_EXT⟩,
  ⟨0, 0, 0⟩,
  ⟨0, 0, 0⟩,
  ⟨SC_WINDOWS, 0, SC_E0⟩,
  ⟨SC_WINDOWS, 0, SC_E0⟩,
  ⟨SC_CONTEXT, 0, SC_E0⟩]

def nscascii : Nat := scascii.length

abbrev MAXQ : Nat := 32

def CTRLMASK : UInt8 := 0x1f

/-- The static variables of `con_descan` and the key queue.  `pending` is the variable
with the remembered extension code of the next key. -/
structure Keyboard where
  pending : UInt8
  metaBits : UInt16
  keyqueue : Fin MAXQ → UInt8
  kqhead : Fin MAXQ
  kqtail : Fin MAXQ

namespace Keyboard

variable (con : Keyboard)

/-- The test for a full key queue. -/
def full : Bool := con.kqtail + 1 = con.kqhead

def shiftDown : Bool := con.metaBits &&& (SC_META_LSHIFT ||| SC_META_RSHIFT) ≠ 0
def ctrlDown : Bool := con.metaBits &&& (SC_META_LCTRL ||| SC_META_RCTRL) ≠ 0
def capsLock : Bool := con.metaBits &&& SC_META_CAPSLOCK ≠ 0
def numLock : Bool := con.metaBits &&& SC_META_NUMLOCK ≠ 0

/-- `SHIFTLOCK`. -/
def shiftLock (mask : UInt16) : Bool :=
  mask &&& (SC_META_CAPSLOCK ||| SC_META_NUMLOCK ||| SC_META_SCRLOCK) ≠ 0

/-- The bit of a modifier key, which is another one for the keys on the right. -/
def metaBit (psc : Scandef) (ext : Bool) : UInt16 :=
  let metabit := psc.getMeta
  if ext then
    if metabit = SC_META_LCTRL then SC_META_RCTRL
    else if metabit = SC_META_LALT then SC_META_RALT
    else metabit
  else metabit

/-- What a modifier key does to `meta`. -/
def metaAfter (metaBits metabit : UInt16) (up : Bool) : UInt16 :=
  if shiftLock metabit then
    if up then metaBits else metaBits ^^^ metabit
  else if up then metaBits &&& ~~~metabit
  else metaBits ||| metabit

/-- The key for the reader, and whether it is marked as an extended one. -/
def keyOf (psc : Scandef) (ext : Bool) : UInt8 × Bool :=
  let exto := psc.flags &&& SC_EXT ≠ 0
  if psc.flags &&& SC_CTRL ≠ 0 ∧ con.ctrlDown then (psc.ascii &&& CTRLMASK, exto)
  else if psc.flags &&& SC_NUML ≠ 0 then
    if ext then (psc.shifted, true)
    else if con.numLock then (psc.ascii, exto)
    else (psc.shifted, true)
  else
    let shifted := con.capsLock && psc.flags &&& SC_CAPSLOCK ≠ 0
    let shifted := if con.shiftDown ∧ psc.flags &&& SC_SHIFTS ≠ 0 then !shifted else shifted
    (if shifted then psc.shifted else psc.ascii, exto)

/-- A key goes to the end of the key queue. -/
def putKey (key : UInt8) (exto : Bool) : Keyboard :=
  { con with
    keyqueue := update con.keyqueue con.kqtail (if exto then key ||| 0x80 else key)
    kqtail := con.kqtail + 1 }

/-- `con_descan` behind the access to the table. -/
def descanKey (psc : Scandef) (ext up : Bool) : Keyboard :=
  if ext ∧ psc.flags &&& SC_E0 = 0 then con
  else if psc.flags &&& SC_META ≠ 0 then
    { con with metaBits := metaAfter con.metaBits (metaBit psc ext) up }
  else if up then con
  else con.putKey (con.keyOf psc ext).1 (con.keyOf psc ext).2

/-- `con_descan`, and the index of the entry that it looks at.  What lies behind the
table is `beyond`. -/
def conDescan (beyond : Scandef) (sc : UInt8) : Keyboard × Option Nat :=
  if con.full then (con, none)
  else if sc = SC_EXT_PREFIX then ({ con with pending := SC_EXT_PREFIX }, none)
  else
    let ext := con.pending = SC_EXT_PREFIX
    let con := { con with pending := 0 }
    let up := sc &&& SC_KEYUP ≠ 0
    let sc := if up then sc &&& ~~~SC_KEYUP else sc
    if sc.toNat > nscascii then (con, none)
    else (con.descanKey (scascii[sc.toNat]?.getD beyond) ext up, some sc.toNat)

/-- A round of the loop in which `con_read` takes keys. -/
def takeKey : Option (UInt8 × Keyboard) :=
  if con.kqhead ≠ con.kqtail then
    some (con.keyqueue con.kqhead, { con with kqhead := con.kqhead + 1 })
  else none

end Keyboard

/-! ## What the scancodes say -/

/-- The modifier keys and the lock keys. -/
inductive Key where
  | lshift
  | lctrl
  | lalt
  | rshift
  | ralt
  | rctrl
  | numlock
  | scrlock
  | capslock
  deriving DecidableEq, Repr

namespace Key

/-- The bit of `meta` for a key. -/
def mask : Key → UInt16
  | lshift => SC_META_LSHIFT
  | lctrl => SC_META_LCTRL
  | lalt => SC_META_LALT
  | rshift => SC_META_RSHIFT
  | ralt => SC_META_RALT
  | rctrl => SC_META_RCTRL
  | numlock => SC_META_NUMLOCK
  | scrlock => SC_META_SCRLOCK
  | capslock => SC_META_CAPSLOCK

def index : Key → Nat
  | lshift => 0
  | lctrl => 1
  | lalt => 2
  | rshift => 3
  | ralt => 4
  | rctrl => 5
  | numlock => 6
  | scrlock => 7
  | capslock => 8

def isLock : Key → Bool
  | numlock | scrlock | capslock => true
  | _ => false

/-- The key that has a code, behind an extension code or not. -/
def ofCode : Bool → UInt8 → Option Key
  | false, 0x2A => some lshift
  | false, 0x36 => some rshift
  | false, 0x1D => some lctrl
  | true, 0x1D => some rctrl
  | false, 0x38 => some lalt
  | true, 0x38 => some ralt
  | false, 0x45 => some numlock
  | false, 0x46 => some scrlock
  | false, 0x3A => some capslock
  | _, _ => none

end Key

/-- A key goes down, or up. -/
structure KeyEvent where
  ext : Bool
  code : UInt8
  up : Bool
  deriving DecidableEq, Repr

def KeyEvent.key (event : KeyEvent) : Option Key := Key.ofCode event.ext event.code

/-- The last scancode announces an extended key. -/
def announced (scancodes : List UInt8) : Bool := scancodes.head? = some SC_EXT_PREFIX

/-- The event that a scancode stands for, behind others. -/
def eventOf (sc : UInt8) (before : List UInt8) : KeyEvent :=
  ⟨announced before, sc &&& 0x7f, sc &&& 0x80 ≠ 0⟩

/-- The events of a list of scancodes, the last one first in both. -/
def events : List UInt8 → List KeyEvent
  | [] => []
  | sc :: before =>
      if sc = SC_EXT_PREFIX then events before else eventOf sc before :: events before

/-- The most recent event of a key was a key-down. -/
def isDown (key : Key) : List KeyEvent → Bool
  | [] => false
  | event :: before => if event.key = some key then !event.up else isDown key before

/-- How often a key has gone down. -/
def presses (key : Key) (events : List KeyEvent) : Nat :=
  events.countP fun event => event.key = some key && !event.up

/-- The keyboard with the scancodes decoded so far, the last one first, and the entries
of the table that have been looked at. -/
structure KeyboardRun where
  con : Keyboard
  scancodes : List UInt8
  looked : List Nat

/-- A scancode is decoded, or a key is read. -/
inductive KeyAction where
  | descan (sc : UInt8)
  | take
  deriving DecidableEq, Repr

namespace KeyboardRun

/-- One step. -/
def step (beyond : Scandef) (run : KeyboardRun) : KeyAction → Option KeyboardRun
  | .descan sc =>
      let (con, index) := run.con.conDescan beyond sc
      some ⟨con, sc :: run.scancodes, index.toList ++ run.looked⟩
  | .take => run.con.takeKey.map fun (_, con) => { run with con := con }

/-- When the console starts. -/
def start (keyqueue : Fin MAXQ → UInt8) : KeyboardRun where
  con := ⟨0, 0, keyqueue, 0, 0⟩
  scancodes := []
  looked := []

variable (run : KeyboardRun)

/-- What happens to a key does not change the bits of `meta`: a key-up of a lock, or
the key is already there. -/
def Repeats (key : Key) (up : Bool) : Prop :=
  if key.isLock then up = true else isDown key (events run.scancodes) = !up

instance (key : Key) (up : Bool) : Decidable (run.Repeats key up) :=
  inferInstanceAs (Decidable (if key.isLock then up = true else _ = !up))

/-- A scancode may be dropped: it does not announce an extended key, unless that is
announced already, it is not itself announced, and it is a repeated event of its key
if that is a modifier. -/
def MayDrop (sc : UInt8) : Prop :=
  if sc = SC_EXT_PREFIX then announced run.scancodes = true
  else announced run.scancodes = false ∧
    ∀ key ∈ Key.ofCode false (sc &&& 0x7f), run.Repeats key (sc &&& 0x80 ≠ 0)

instance (sc : UInt8) : Decidable (run.MayDrop sc) :=
  inferInstanceAs (Decidable
    (if sc = SC_EXT_PREFIX then _ else _ ∧ ∀ key ∈ Key.ofCode _ _, _))

/-- The condition under which the bits are right: when the key queue is full the
scancode may be dropped, and otherwise its code is not the first one behind the
table. -/
def Guarded : KeyAction → Prop
  | .descan sc =>
      if run.con.full then run.MayDrop sc
      else sc = SC_EXT_PREFIX ∨ (sc &&& 0x7f).toNat ≠ nscascii
  | .take => True

instance : (action : KeyAction) → Decidable (run.Guarded action)
  | .descan sc => inferInstanceAs (Decidable (if run.con.full then run.MayDrop sc else _ ∨ _))
  | .take => inferInstanceAs (Decidable True)

/-- The bits of `meta` are those of the keys that are down and of the locks that have
been pressed an odd number of times. -/
def MetaRight : Prop :=
  (∀ key : Key, key.isLock = false →
    (run.con.metaBits &&& key.mask ≠ 0 ↔ isDown key (events run.scancodes) = true)) ∧
  (∀ key : Key, key.isLock = true →
    (run.con.metaBits &&& key.mask ≠ 0 ↔ Odd (presses key (events run.scancodes)))) ∧
  run.con.metaBits &&& 0xFE00 = 0

end KeyboardRun

/-! ## The bits of `meta` -/

/-- A bit of a word. -/
def bit (word : UInt16) (i : Nat) : Bool := word.toBitVec.getLsbD i

namespace Key

theorem mask_toBitVec (key : Key) : key.mask.toBitVec = BitVec.twoPow 16 key.index := by
  cases key <;> decide

theorem index_lt (key : Key) : key.index < 9 := by
  cases key <;> decide

theorem index_inj {key key' : Key} : key.index = key'.index ↔ key = key' := by
  cases key <;> cases key' <;> decide

theorem shiftLock_mask (key : Key) : Keyboard.shiftLock key.mask = key.isLock := by
  cases key <;> decide

/-- The mask of a key tests its bit. -/
theorem and_mask (key : Key) (word : UInt16) :
    word &&& key.mask ≠ 0 ↔ bit word key.index = true := by
  have small : key.index < 16 := Nat.lt_trans key.index_lt (by decide)
  have nonzero : BitVec.twoPow 16 key.index ≠ 0 := by
    cases key <;> decide
  rw [← UInt16.toBitVec_inj.ne, UInt16.toBitVec_and, mask_toBitVec, BitVec.and_twoPow, bit]
  cases word.toBitVec.getLsbD key.index
  · simp
  · simpa using nonzero

/-- The bits of `meta` after an event of a key. -/
theorem bit_metaAfter (key : Key) (word : UInt16) (up : Bool) {i : Nat} (small : i < 16) :
    bit (Keyboard.metaAfter word key.mask up) i =
      if i = key.index then
        if key.isLock then bit word i ^^ !up else !up
      else bit word i := by
  simp only [Keyboard.metaAfter, shiftLock_mask, bit]
  cases key.isLock <;> cases up <;>
    by_cases same : i = key.index <;> subst_vars <;>
    simp_all [mask_toBitVec]

end Key

/-! ## The table -/

/-- The codes behind the table belong to no modifier key. -/
theorem ofCode_behind : ∀ (ext : Bool) (code : Fin 0x80), nscascii < code.val →
    Key.ofCode ext code.val.toUInt8 = none := by
  decide +kernel

/-- What the table says about a code is what its key is. -/
theorem ofCode_entry : ∀ (ext : Bool) (code : Fin nscascii), let psc := scascii.get code
    (Key.ofCode ext code.val.toUInt8).map Key.mask =
      if ext ∧ psc.flags &&& SC_E0 = 0 then none
      else if psc.flags &&& SC_META ≠ 0 then some (Keyboard.metaBit psc ext)
      else none := by
  decide +kernel

namespace Keyboard

variable {con : Keyboard} {sc : UInt8}

theorem descanKey_pending (psc : Scandef) (ext up : Bool) :
    (con.descanKey psc ext up).pending = con.pending := by
  unfold descanKey
  split_ifs <;> rfl

/-- What a key of the table does to `meta`. -/
theorem descanKey_metaBits (con : Keyboard) (code : Fin nscascii) (ext up : Bool) :
    (con.descanKey (scascii.get code) ext up).metaBits =
      match Key.ofCode ext code.val.toUInt8 with
      | some key => metaAfter con.metaBits key.mask up
      | none => con.metaBits := by
  have entry := ofCode_entry ext code
  unfold descanKey
  dsimp only at entry
  split_ifs at entry ⊢ <;> cases found : Key.ofCode ext code.val.toUInt8 <;> simp_all [putKey]

/-- The code of a scancode is its lower seven bits. -/
theorem code_eq (sc : UInt8) :
    (if sc &&& SC_KEYUP ≠ 0 then sc &&& ~~~SC_KEYUP else sc) = sc &&& 0x7f := by
  obtain ⟨bits⟩ := sc
  revert bits
  decide +kernel

theorem code_lt (sc : UInt8) : (sc &&& 0x7f).toNat < 0x80 := by
  rw [UInt8.toNat_and]
  exact Nat.and_lt_two_pow (n := 7) _ (by decide)

/-- What `con_descan` does with a scancode that is neither dropped nor announces an
extended key. -/
theorem conDescan_event (beyond : Scandef) (room : con.full = false) (notExt : sc ≠ SC_EXT_PREFIX)
    (notFirst : (sc &&& 0x7f).toNat ≠ nscascii) :
    (con.conDescan beyond sc).1.pending = 0 ∧
    ((con.conDescan beyond sc).1.metaBits =
      match Key.ofCode (con.pending = SC_EXT_PREFIX) (sc &&& 0x7f) with
      | some key => metaAfter con.metaBits key.mask (sc &&& 0x80 ≠ 0)
      | none => con.metaBits) ∧
    ∀ i ∈ (con.conDescan beyond sc).2, i < nscascii := by
  have same : ((sc &&& 0x7f).toNat).toUInt8 = sc &&& 0x7f := UInt8.ofNat_toNat
  simp only [conDescan, room, if_neg notExt, code_eq, Bool.false_eq_true, if_false]
  by_cases behind : (sc &&& 0x7f).toNat > nscascii
  · have none := ofCode_behind (con.pending = SC_EXT_PREFIX) ⟨_, code_lt sc⟩ behind
    simp only [same] at none
    simp only [if_pos behind, none]
    exact ⟨trivial, trivial, by simp⟩
  · have inside : (sc &&& 0x7f).toNat < nscascii := by omega
    have entry : scascii[(sc &&& 0x7f).toNat]?.getD beyond = scascii.get ⟨_, inside⟩ := by
      rw [List.getElem?_eq_getElem inside, Option.getD_some]
      rfl
    have after := descanKey_metaBits { con with pending := 0 } ⟨_, inside⟩
      (con.pending = SC_EXT_PREFIX) (sc &&& SC_KEYUP ≠ 0)
    rw [same] at after
    simp only [if_neg behind, entry, descanKey_pending]
    exact ⟨trivial, after, fun i isCode => Option.some.inj isCode ▸ inside⟩

end Keyboard

namespace KeyboardRun

/-! ## The invariant -/

variable {run run' : KeyboardRun} {beyond : Scandef}

/-- What the bit of a key should be. -/
def bitOf (key : Key) (events : List KeyEvent) : Bool :=
  if key.isLock then presses key events % 2 = 1 else isDown key events

/-- The invariant of guarded runs. -/
structure Inv (run : KeyboardRun) : Prop where
  pending : run.con.pending = if announced run.scancodes then SC_EXT_PREFIX else 0
  bits : ∀ key : Key, bit run.con.metaBits key.index = bitOf key (events run.scancodes)
  rest : ∀ i, 9 ≤ i → i < 16 → bit run.con.metaBits i = false
  looked : ∀ i ∈ run.looked, i < nscascii

theorem start_inv (keyqueue : Fin MAXQ → UInt8) : (start keyqueue).Inv := by
  refine ⟨rfl, fun key => ?_, fun i _ _ => by simp [start, bit], by simp [start]⟩
  simp [start, bit, bitOf, events, isDown, presses]

theorem presses_cons (key : Key) (event : KeyEvent) (events : List KeyEvent) :
    presses key (event :: events) =
      presses key events + if event.key = some key && !event.up then 1 else 0 :=
  List.countP_cons

/-- What an event does to what the bits should be. -/
theorem bitOf_cons (key : Key) (event : KeyEvent) (events : List KeyEvent) :
    bitOf key (event :: events) =
      if event.key = some key then
        if key.isLock then bitOf key events ^^ !event.up else !event.up
      else bitOf key events := by
  have parity : ∀ n, decide ((n + 1) % 2 = 1) = !decide (n % 2 = 1) := by
    intro n
    rcases Nat.mod_two_eq_zero_or_one n with even | odd
    · simp [even, Nat.add_mod]
    · simp [odd, Nat.add_mod]
  simp only [bitOf, presses_cons, isDown]
  by_cases same : event.key = some key <;> cases key.isLock <;> cases event.up <;>
    simp [same, parity]

/-- An event that repeats what is there already changes no bit. -/
theorem bitOf_repeats {key : Key} {event : KeyEvent} (isKey : event.key = some key)
    (repeats : run.Repeats key event.up) (other : Key) :
    bitOf other (event :: events run.scancodes) = bitOf other (events run.scancodes) := by
  rw [bitOf_cons, isKey]
  by_cases same : key = other
  · subst same
    unfold Repeats at repeats
    cases lock : key.isLock <;> simp_all [bitOf]
  · simp [same]

theorem announced_cons (sc : UInt8) (before : List UInt8) :
    announced (sc :: before) = decide (sc = SC_EXT_PREFIX) := by
  simp [announced]

/-- A scancode that may be dropped changes neither what is announced nor a bit. -/
theorem mayDrop_spec {sc : UInt8} (drop : run.MayDrop sc) :
    announced (sc :: run.scancodes) = announced run.scancodes ∧
      ∀ key, bitOf key (events (sc :: run.scancodes)) = bitOf key (events run.scancodes) := by
  rw [announced_cons, events]
  by_cases isExt : sc = SC_EXT_PREFIX
  · simp only [MayDrop, if_pos isExt] at drop
    simp [isExt, drop]
  · simp only [MayDrop, if_neg isExt] at drop
    obtain ⟨plain, repeats⟩ := drop
    refine ⟨by simp [isExt, plain], fun key => ?_⟩
    rw [if_neg isExt]
    cases isKey : (eventOf sc run.scancodes).key with
    | none => simp [bitOf_cons, isKey]
    | some other =>
        refine bitOf_repeats isKey (repeats other ?_) key
        rw [Option.mem_def, ← isKey, KeyEvent.key, eventOf, plain]

/-- A scancode that `con_descan` takes. -/
theorem Inv.event_step (inv : run.Inv) {sc : UInt8} (room : run.con.full = false)
    (notExt : sc ≠ SC_EXT_PREFIX) (notFirst : (sc &&& 0x7f).toNat ≠ nscascii) :
    Inv ⟨(run.con.conDescan beyond sc).1, sc :: run.scancodes,
      (run.con.conDescan beyond sc).2.toList ++ run.looked⟩ := by
  obtain ⟨pending, metaBits, looked⟩ :=
    Keyboard.conDescan_event beyond room notExt notFirst
  have ext : decide (run.con.pending = SC_EXT_PREFIX) = announced run.scancodes := by
    rw [inv.pending]
    cases announced run.scancodes <;> decide
  rw [ext] at metaBits
  refine ⟨?_, fun key => ?_, fun i low high => ?_, fun i member => ?_⟩
  · rw [announced_cons]
    simpa [notExt] using pending
  · have small : key.index < 16 := Nat.lt_trans key.index_lt (by decide)
    have isKey : (eventOf sc run.scancodes).key =
      Key.ofCode (announced run.scancodes) (sc &&& 0x7f) := rfl
    rw [events, if_neg notExt, bitOf_cons, isKey, metaBits]
    cases found : Key.ofCode (announced run.scancodes) (sc &&& 0x7f) with
    | none => simpa [found] using inv.bits key
    | some other =>
        simp only [Key.bit_metaAfter other _ _ small, Key.index_inj, inv.bits key,
          Option.some.injEq]
        by_cases same : key = other
        · subst same
          simp [eventOf]
        · simp [same, Ne.symm same]
  · dsimp only
    rw [metaBits]
    cases found : Key.ofCode (announced run.scancodes) (sc &&& 0x7f) with
    | none => exact inv.rest i low high
    | some other =>
        have ne : i ≠ other.index := by
          have := other.index_lt
          omega
        simp only [Key.bit_metaAfter other _ _ high, if_neg ne]
        exact inv.rest i low high
  · rcases List.mem_append.mp member with isNew | isOld
    · exact looked i (by simpa using isNew)
    · exact inv.looked i isOld

/-- Every guarded step keeps the invariant. -/
theorem Inv.step (inv : run.Inv) {action : KeyAction} (guarded : run.Guarded action)
    (taken : run.step beyond action = some run') : run'.Inv := by
  cases action with
  | descan sc =>
      simp only [KeyboardRun.step, Option.some.injEq] at taken
      subst taken
      simp only [Guarded] at guarded
      cases room : run.con.full with
      | true =>
          rw [room, if_pos rfl] at guarded
          obtain ⟨same, bits⟩ := mayDrop_spec guarded
          simp only [Keyboard.conDescan, room, if_true]
          exact ⟨same ▸ inv.pending, fun key => (inv.bits key).trans (bits key).symm, inv.rest,
            inv.looked⟩
      | false =>
          simp only [room, Bool.false_eq_true, if_false] at guarded
          by_cases isExt : sc = SC_EXT_PREFIX
          · simp only [Keyboard.conDescan, room, if_pos isExt, Bool.false_eq_true, if_false]
            refine ⟨?_, fun key => ?_, inv.rest, inv.looked⟩
            · rw [announced_cons]
              simp [isExt]
            · rw [events, if_pos isExt]
              exact inv.bits key
          · exact inv.event_step room isExt (guarded.resolve_left isExt)
  | take =>
      obtain ⟨taking, took, rfl⟩ := Option.map_eq_some_iff.mp taken
      simp only [Keyboard.takeKey, Option.ite_none_right_eq_some, Option.some.injEq] at took
      obtain ⟨-, rfl⟩ := took
      exact ⟨inv.pending, inv.bits, inv.rest, inv.looked⟩

/-! ## Every run -/

/-- In every guarded run the bits of `meta` are right after every scancode, and
`con_descan` has looked at nothing but the entries of its table. -/
theorem modifiers_right {keyqueue : Fin MAXQ → UInt8}
    (reached : Reached (· = start keyqueue)
      (fun run action run' => run.step beyond action = some run') Guarded run) : run.MetaRight ∧ ∀ i ∈ run.looked, i < nscascii := by
  have inv : run.Inv := by
    refine reached.invariant Inv ?_ fun inv guarded taken => inv.step guarded taken
    rintro _ rfl
    exact start_inv keyqueue
  refine ⟨⟨fun key held => ?_, fun key lock => ?_, ?_⟩, inv.looked⟩
  · rw [key.and_mask, inv.bits, bitOf, if_neg (by simp [held])]
  · rw [key.and_mask, inv.bits, bitOf, if_pos lock, decide_eq_true_eq, Nat.odd_iff]
  · rw [← UInt16.toBitVec_inj, UInt16.toBitVec_and]
    refine BitVec.eq_of_getLsbD_eq fun i small => ?_
    rw [BitVec.getLsbD_and]
    by_cases low : i < 9
    · have clear : ∀ i : Fin 9, (0xFE00 : UInt16).toBitVec.getLsbD i = false := by decide
      exact (congrArg _ (clear ⟨i, low⟩)).trans (by simp)
    · have clear := inv.rest i (not_lt.mp low) small
      rw [bit] at clear
      simp [clear]

/-- The case of a control key on the right that goes down while the left one is held,
and of the left one that goes up again. -/
theorem modifiers_right_control : ∃ run, runs (step ⟨0, 0, 0⟩) (start fun _ => 0)
    [.descan 0x1D, .descan 0xE0, .descan 0x1D, .descan 0x1E, .take, .descan 0x9D] = some run ∧
      run.con.metaBits = SC_META_RCTRL ∧ run.MetaRight := by
  have along : Along (step ⟨0, 0, 0⟩) Guarded (start fun _ => 0)
      [.descan 0x1D, .descan 0xE0, .descan 0x1D, .descan 0x1E, .take, .descan 0x9D] := by
    decide +kernel
  have ran : (runs (step ⟨0, 0, 0⟩) (start fun _ => 0)
      [.descan 0x1D, .descan 0xE0, .descan 0x1D, .descan 0x1E, .take, .descan 0x9D]).map (·.con.metaBits) = some SC_META_RCTRL := by
    decide +kernel
  obtain ⟨run, ran, isRight⟩ := Option.map_eq_some_iff.mp ran
  exact ⟨run, ran, isRight, (modifiers_right (reached_of_runs rfl along ran)).1⟩

/-- A shift key that goes up when the key queue is full stays down, and the first code
behind the table is looked up all the same. -/
theorem full_queue_keeps_shift_down :
    (runs (step ⟨0, 0, 0⟩) (start fun _ => 0)
        (.descan 0x2A :: List.replicate 31 (.descan 0x1E) ++ [.descan 0xAA])).map (fun run =>
      (run.con.metaBits, isDown .lshift (events run.scancodes))) = some (SC_META_LSHIFT, false) ∧
    (runs (step ⟨0, 0, 0⟩) (start fun _ => 0) [.descan 0x5E]).map (fun run => run.looked) =
      some [nscascii] := by
  decide +kernel

end KeyboardRun

end Pegasos.Kernel.Console
