import Pegasos.Clib.StdioOutput

/-!
# Buffered input

`getc`, `fgets` and `fread` of the C library on one stream for reading.  They share its buffer,
but `fread` copies the wrong way between the buffer and the caller, and takes a result of 0 for
the end of the file.  For the standard input `_ffill` also flushes another stream, which does
not come into this.
-/

namespace Pegasos.Clib

open Pegasos.Support
open Function (update)

/-- Bytes in memory. -/
def bytesAt (memory : Nat → UInt8) (start n : Nat) : List UInt8 :=
  (List.range n).map fun i => memory (start + i)

/-- Memory with bytes stored in it. -/
def storeBytes (memory : Nat → UInt8) (start : Nat) (bytes : List UInt8) : Nat → UInt8 :=
  fun a => if start ≤ a then bytes.getD (a - start) (memory a) else memory a

/-- What a call delivers to its caller.  `tail` are bytes of the file behind it that are part
of an element of `size` bytes. -/
structure Delivery where
  bytes : List UInt8
  tail : List UInt8
  size : Nat
  deriving DecidableEq, Repr

/-- A stream for input: the bytes of the file that have not been read yet, the calls of `read`
made, the data segment but for the buffer of the stream, and what has been delivered. -/
structure Input where
  fp : File
  rest : List UInt8
  reads : Nat
  seg : Nat → UInt8
  given : List Delivery

/-- A call of a program. -/
inductive InputCall where
  | getc
  | fgets (s size : Nat)
  | fread (ptr size nmemb : Nat)
  deriving DecidableEq, Repr

namespace Input

variable (split : Nat → Nat) (inp : Input)

/-- What `read` returns for a size.  It is positive until nothing is left, and the choice of
`split` otherwise. -/
def readCount (n : Nat) : Nat := min n (min inp.rest.length (max 1 (split inp.reads)))

/-- `read`: the bytes, which are still to be stored. -/
def read (n : Nat) : List UInt8 × Input :=
  (inp.rest.take (inp.readCount split n),
    { inp with rest := inp.rest.drop (inp.readCount split n), reads := inp.reads + 1 })

/-- `*next++`, without the count. -/
def skip : Input := { inp with fp := { inp.fp with next := (inp.fp.next + 1) % 0x10000 } }

/-- `_ffill`. -/
def ffill : Int × Input :=
  if inp.fp.eof ∨ inp.fp.err then (EOF, inp)
  else
    let (bytes, inp) := inp.read split DEF_BUFSIZE
    let cnt : Int := bytes.length
    let fp : File :=
      { inp.fp with
        buf := storeBytes inp.fp.buf 0 bytes
        cnt := cnt
        next := 0
        eof := decide (cnt = 0)
        err := decide (cnt = -1) }
    let inp := { inp with fp := fp }
    if fp.eof ∨ fp.err then (EOF, inp)
    else (charOf (fp.buf fp.next), { inp with fp := fp.countDown }.skip)

/-- The macro `getc`. -/
def getc : Int × Input :=
  let inp := { inp with fp := inp.fp.countDown }
  if inp.fp.cnt ≥ 0 then ((inp.fp.buf inp.fp.next).toNat, inp.skip) else inp.ffill split

/-- `*p = ch`. -/
def poke (p : Nat) (ch : Int) : Input := { inp with seg := update inp.seg p (UInt8.ofInt ch) }

/-- The loop of `fgets`: where `p` gets to. -/
def fgetsLoop : Nat → Nat → Input → Nat × Input
  | 0, p, inp => (p, inp)
  | left + 1, p, inp =>
      let (ch, inp) := inp.getc split
      if ch = EOF then (p, inp)
      else
        let inp := inp.poke p ch
        if ch = 10 then (p + 1, inp) else fgetsLoop left (p + 1) inp

/-- `fgets`: the pointer it returns, or `none` for `NULL`, and the end of what it stores in
front of the zero. -/
def fgets (s size : Nat) : Option Nat × Nat × Input :=
  if size = 0 then (none, s, inp)
  else
    let (p, inp) := fgetsLoop split (size - 1) s inp
    (if (p + 1) % 0x10000 = s then none else some s, p, inp.poke p 0)

/-- `if (fp->cnt)` in `fread`, for a size to read. -/
def freadBuffered (ptr readsize : Nat) : Nat × Input :=
  if inp.fp.cnt ≠ 0 then
    let cnt := (inp.fp.cnt % 0x10000).toNat
    let copy := if cnt > readsize then readsize else cnt
    (copy,
      { inp with
        fp := { inp.fp with
          -- `memcpy(fp->next, pb, copy)`
          buf := storeBytes inp.fp.buf inp.fp.next (bytesAt inp.seg ptr copy)
          cnt := int16 (inp.fp.cnt - copy)
          next := (inp.fp.next + copy) % 0x10000 } })
  else (0, inp)

/-- `if (readsize)` in `fread`: how far `pb` gets from there. -/
def freadFile (pb readsize : Nat) : Nat × Input :=
  if readsize ≠ 0 then
    let (bytes, inp) := inp.read split readsize
    let inp := { inp with seg := storeBytes inp.seg pb bytes }
    if bytes.length = 0xffff then (0, { inp with fp := { inp.fp with err := true } })
    else (bytes.length, inp)
  else (0, inp)

/-- `fread`: what it returns, and how far `pb` gets.  `none` is a division by zero. -/
def fread (ptr size nmemb : Nat) : Option (Nat × Nat × Input) :=
  if inp.fp.eof ∨ inp.fp.err then some (0, 0, inp)
  else if size = 0 then none
  else
    let left := (0x10000 - ptr) / size
    let nmemb := if nmemb > left then left % 0x10000 else nmemb
    let readsize := nmemb * size % 0x10000
    let (copied, inp) := inp.freadBuffered ptr readsize
    let (moved, inp) := inp.freadFile split (ptr + copied) (readsize - copied)
    let got := (copied + moved) / size
    let eof := inp.fp.eof || decide (got = 0 ∧ inp.fp.err = false)
    some (got, copied + moved, { inp with fp := { inp.fp with eof := eof } })

/-- The state after a delivery. -/
def deliver (delivery : Delivery) : Input := { inp with given := inp.given ++ [delivery] }

def step : InputCall → Option Input
  | .getc =>
      let (ch, inp) := inp.getc split
      some (inp.deliver ⟨if ch = EOF then [] else [UInt8.ofInt ch], [], 1⟩)
  | .fgets s size =>
      let (_, p, inp) := inp.fgets split s size
      some (inp.deliver ⟨bytesAt inp.seg s (p - s), [], 1⟩)
  | .fread ptr size nmemb =>
      (inp.fread split ptr size nmemb).map fun (got, moved, inp) =>
        inp.deliver ⟨bytesAt inp.seg ptr (got * size),
          bytesAt inp.seg (ptr + got * size) (moved - got * size), size⟩

/-! ## What it is for -/

/-- What is left for the caller: the bytes in the buffer, and those not read yet. -/
def ahead : List UInt8 := bytesAt inp.fp.buf inp.fp.next inp.fp.cnt.toNat ++ inp.rest

/-- What has been delivered, with the parts of elements, is the file up to what is left, and
the end of the file is seen only when nothing is. -/
structure Right (content : List UInt8) : Prop where
  order : (inp.given.flatMap fun d => d.bytes ++ d.tail) ++ inp.ahead = content
  tails : ∀ d ∈ inp.given, d.tail = [] ∨ d.tail.length < d.size
  ended : inp.fp.eof = true → inp.ahead = []

/-- A call comes to its end, and stores only in the buffer of the stream and at the places
`covers`. -/
structure Stores (covers : Nat → Prop) (after : Option Input) : Prop where
  ends : after ≠ none
  seg : ∀ inp' ∈ after, ∀ a, ¬ covers a → inp'.seg a = inp.seg a
  buf : ∀ inp' ∈ after, ∀ a, DEF_BUFSIZE ≤ a → inp'.fp.buf a = inp.fp.buf a

/-- The caller's buffer. -/
def Covers : InputCall → Nat → Prop
  | .getc, _ => False
  | .fgets s size, a => s ≤ a ∧ a < s + size
  | .fread ptr size nmemb, a => ptr ≤ a ∧ a < ptr + size * nmemb

/-- The result for the end of the file comes exactly when nothing is left, for `fgets` if it
is to look for a byte at all. -/
def EndRight : InputCall → Prop
  | .getc => (inp.getc split).1 = EOF ↔ inp.ahead = []
  | .fgets s size => (inp.fgets split s size).1 = none ↔ 1 < size ∧ inp.ahead = []
  | .fread _ _ _ => True

/-- The buffers that a program may pass. -/
def Proper : InputCall → Prop
  | .getc => True
  | .fgets s size => 1 ≤ size ∧ size < 0x8000 ∧ s + size ≤ 0x10000
  | .fread ptr size nmemb => ptr + size * nmemb ≤ 0x10000

instance : (call : InputCall) → Decidable (Proper call)
  | .getc => inferInstanceAs (Decidable True)
  | .fgets _ _ => inferInstanceAs (Decidable (_ ∧ _))
  | .fread _ _ _ => inferInstanceAs (Decidable (_ ≤ _))

/-- The count can be counted down, and a buffer that is filled does not begin with the byte
that looks like `EOF`. -/
def CanGet : Prop :=
  inp.fp.cnt ≠ -0x8000 ∧
    (inp.fp.cnt ≤ 0 → inp.fp.eof = false → ∀ byte ∈ inp.rest.head?, byte ≠ 0xff)

/-- So it is whenever `fgets` gets a byte. -/
def CanGets : Nat → Nat → Input → Prop
  | 0, _, _ => True
  | left + 1, p, inp =>
      inp.CanGet ∧ ((inp.getc split).1 ≠ EOF → (inp.getc split).1 ≠ 10 →
        CanGets left (p + 1) ((inp.getc split).2.poke p (inp.getc split).1))

/-- The calls that keep to what the stream can do: `fgets` is not called at the end of the
file, and `fread` with an empty buffer, for elements of which it gets one if there is more. -/
def Fits : InputCall → Prop
  | .getc => inp.CanGet
  | .fgets s size => (1 < size → inp.ahead ≠ []) ∧ CanGets split (size - 1) s inp
  | .fread _ size nmemb =>
      inp.fp.eof = true ∨
        1 ≤ size ∧ size * nmemb < 0x10000 ∧ inp.fp.cnt = 0 ∧
          inp.readCount split (size * nmemb) ≠ 0xffff ∧
          (size ≤ inp.readCount split (size * nmemb) ∨
            inp.readCount split (size * nmemb) = inp.rest.length)

/-- A stream after `fopen` or `_init_stdio` on a file. -/
def Fresh (content : List UInt8) : Prop :=
  inp.fp.cnt = 0 ∧ inp.fp.eof = false ∧ inp.fp.err = false ∧ inp.rest = content ∧ inp.given = []

/-! ## Bytes in memory -/

section bytes

variable {memory : Nat → UInt8} {start n m : Nat} {bytes : List UInt8}

theorem bytesAt_length : (bytesAt memory start n).length = n := by
  rw [bytesAt, List.length_map, List.length_range]

theorem bytesAt_add :
    bytesAt memory start (n + m) = bytesAt memory start n ++ bytesAt memory (start + n) m := by
  simp only [bytesAt, List.range_add, List.map_append, List.map_map]
  congr 1
  refine List.map_congr_left fun i _ => ?_
  simp only [Function.comp_apply, Nat.add_assoc]

theorem bytesAt_succ :
    bytesAt memory start (n + 1) = memory start :: bytesAt memory (start + 1) n := by
  rw [Nat.add_comm, bytesAt_add]
  rfl

theorem bytesAt_congr {other : Nat → UInt8}
    (same : ∀ a, start ≤ a → a < start + n → other a = memory a) :
    bytesAt other start n = bytesAt memory start n := by
  refine List.map_congr_left fun i inside => ?_
  have := List.mem_range.mp inside
  exact same _ (by omega) (by omega)

theorem storeBytes_outside {a : Nat} (outside : a < start ∨ start + bytes.length ≤ a) :
    storeBytes memory start bytes a = memory a := by
  rw [storeBytes]
  split
  · rw [List.getD_eq_getElem?_getD, List.getElem?_eq_none (by omega), Option.getD_none]
  · rfl

theorem bytesAt_storeBytes :
    bytesAt (storeBytes memory start bytes) start bytes.length = bytes := by
  refine List.ext_getElem bytesAt_length fun i _ inside => ?_
  simp only [bytesAt, List.getElem_map, List.getElem_range, storeBytes]
  rw [if_pos (by omega), Nat.add_sub_cancel_left, List.getD_eq_getElem?_getD,
    List.getElem?_eq_getElem inside, Option.getD_some]

end bytes

/-! ## The invariant -/

/-- The bytes that the count is for are in the buffer, and it is negative only behind the end of
the file. -/
structure Inv : Prop where
  low : -0x8000 ≤ inp.fp.cnt
  high : inp.fp.cnt ≤ DEF_BUFSIZE
  room : 0 < inp.fp.cnt → inp.fp.next + inp.fp.cnt ≤ DEF_BUFSIZE
  negative : inp.fp.cnt < 0 → inp.fp.eof = true
  ended : inp.fp.eof = true → inp.rest = [] ∧ inp.fp.cnt ≤ 0
  clear : inp.fp.err = false

/-- What getting bytes leaves alone. -/
structure Frame (inp' : Input) : Prop where
  given : inp'.given = inp.given
  buf : ∀ a, DEF_BUFSIZE ≤ a → inp'.fp.buf a = inp.fp.buf a

variable {split} {inp} {inp' inp'' : Input}

theorem Frame.trans (first : inp.Frame inp') (second : inp'.Frame inp'') : inp.Frame inp'' where
  given := second.given.trans first.given
  buf a outside := (second.buf a outside).trans (first.buf a outside)

theorem Frame.poke (frame : inp.Frame inp') (p : Nat) (ch : Int) : inp.Frame (inp'.poke p ch) :=
  ⟨frame.given, frame.buf⟩

theorem Inv.ahead_nil (inv : inp.Inv) (eof : inp.fp.eof = true) : inp.ahead = [] := by
  obtain ⟨rest, cnt⟩ := inv.ended eof
  have none : inp.fp.cnt.toNat = 0 := Int.toNat_eq_zero.mpr cnt
  rw [ahead, rest, none]
  rfl

theorem readCount_le (n : Nat) : inp.readCount split n ≤ n := Nat.min_le_left _ _

theorem readCount_le_rest (n : Nat) : inp.readCount split n ≤ inp.rest.length :=
  Nat.le_trans (Nat.min_le_right _ _) (Nat.min_le_left _ _)

/-- `read` returns 0 only at the end of the file. -/
theorem readCount_pos {n : Nat} (some : 0 < n) (more : inp.rest ≠ []) :
    0 < inp.readCount split n := by
  have left : 0 < inp.rest.length := List.length_pos_iff.mpr more
  rw [readCount]
  omega

theorem ofInt_charOf (byte : UInt8) : UInt8.ofInt (charOf byte) = byte := by
  have high := byte.toNat_lt
  rw [← UInt8.toNat_inj, UInt8.ofInt, UInt8.toNat_ofNat', charOf]
  split <;> omega

theorem charOf_ne_eof {byte : UInt8} (ne : byte ≠ 0xff) : charOf byte ≠ EOF := by
  have high := byte.toNat_lt
  have value : byte.toNat ≠ 0xff := fun same => ne (UInt8.toNat_inj.mp same)
  rw [charOf, EOF]
  split <;> omega

/-- What `getc` does: it gives the next byte, or it is at the end. -/
structure Gets (inp : Input) (ch : Int) (inp' : Input) : Prop where
  inv : inp'.Inv
  frame : inp.Frame inp'
  seg : inp'.seg = inp.seg
  next : inp.ahead = [] ∧ ch = EOF ∧ inp'.ahead = [] ∨
    ∃ byte, inp.ahead = byte :: inp'.ahead ∧ ch ≠ EOF ∧ UInt8.ofInt ch = byte

/-- `getc` with a byte in the buffer. -/
theorem Inv.getc_buffered (inv : inp.Inv) (some : 0 < inp.fp.cnt) :
    Gets inp (inp.getc split).1 (inp.getc split).2 := by
  have size : (DEF_BUFSIZE : Int) = 128 := rfl
  have high := inv.high
  have room := inv.room some
  have down : inp.fp.countDown.cnt = inp.fp.cnt - 1 := int16_eq (by omega) (by omega)
  have next : (inp.fp.next + 1) % 0x10000 = inp.fp.next + 1 := Nat.mod_eq_of_lt (by omega)
  have fast : inp.fp.countDown.cnt ≥ 0 := by omega
  have more : inp.fp.cnt.toNat = (inp.fp.cnt - 1).toNat + 1 := by omega
  rw [Input.getc]
  simp only [if_pos fast]
  have cnt : ({ inp with fp := inp.fp.countDown }.skip).fp.cnt = inp.fp.cnt - 1 := down
  have place : ({ inp with fp := inp.fp.countDown }.skip).fp.next = inp.fp.next + 1 := next
  refine ⟨⟨?_, ?_, ?_, ?_, ?_, inv.clear⟩, ⟨rfl, fun _ _ => rfl⟩, rfl, .inr
    ⟨inp.fp.buf inp.fp.next, ?_, ?_, ?_⟩⟩
  · rw [cnt]
    omega
  · rw [cnt]
    omega
  · rw [cnt, place]
    omega
  · rw [cnt]
    omega
  · intro eof
    exact absurd some (by have := (inv.ended eof).2; omega)
  · rw [ahead, more, bytesAt_succ, ahead, cnt, place]
    rfl
  · rw [EOF]
    omega
  · have high := (inp.fp.buf inp.fp.next).toNat_lt
    rw [← UInt8.toNat_inj, UInt8.ofInt, UInt8.toNat_ofNat']
    exact (by omega : ((inp.fp.buf inp.fp.next).toNat % 2 ^ 8 : Int).toNat % 2 ^ 8 =
      (inp.fp.buf inp.fp.next).toNat)

/-- `_ffill` at the end of the file. -/
theorem ffill_end (eof : inp.fp.eof = false) (err : inp.fp.err = false) (rest : inp.rest = []) :
    inp.ffill split = (EOF,
      { inp with
        fp := { inp.fp with cnt := 0, next := 0, eof := true }
        reads := inp.reads + 1 }) := by
  have same : storeBytes inp.fp.buf 0 [] = inp.fp.buf := by
    funext a
    exact storeBytes_outside (.inr (Nat.zero_le a))
  rw [ffill, if_neg (by simp [eof, err])]
  simp [Input.read, rest, same, err]

/-- `_ffill` with bytes to read. -/
theorem ffill_more (eof : inp.fp.eof = false) (err : inp.fp.err = false) (more : inp.rest ≠ [])
    {k : Nat} (count : inp.readCount split DEF_BUFSIZE = k) :
    inp.ffill split = (charOf (storeBytes inp.fp.buf 0 (inp.rest.take k) 0),
      { inp with
        fp := { inp.fp with
          buf := storeBytes inp.fp.buf 0 (inp.rest.take k)
          cnt := k - 1
          next := 1 }
        rest := inp.rest.drop k
        reads := inp.reads + 1 }) := by
  have size : DEF_BUFSIZE = 128 := rfl
  have least : k ≤ DEF_BUFSIZE := count ▸ readCount_le DEF_BUFSIZE
  have most : k ≤ inp.rest.length := count ▸ readCount_le_rest DEF_BUFSIZE
  have positive : 0 < k := count ▸ readCount_pos (by decide) more
  have length : (inp.rest.take k).length = k := by
    rw [List.length_take]
    exact Nat.min_eq_left most
  have down : int16 ((k : Int) - 1) = k - 1 := int16_eq (by omega) (by omega)
  rw [ffill, if_neg (by simp [eof, err])]
  simp only [Input.read, count, length]
  rw [if_neg (by simp; omega)]
  simp only [File.countDown, skip, down, eof, err]
  have clear : decide ((k : Int) = 0) = false ∧ decide ((k : Int) = -1) = false := by
    constructor <;> exact decide_eq_false (by omega)
  rw [clear.1, clear.2]

/-- `getc` with an empty buffer. -/
theorem Inv.getc_empty (inv : inp.Inv) (can : inp.CanGet) (empty : inp.fp.cnt ≤ 0) :
    Gets inp (inp.getc split).1 (inp.getc split).2 := by
  have size : DEF_BUFSIZE = 128 := rfl
  have low := inv.low
  obtain ⟨lowest, marked⟩ := can
  have down : inp.fp.countDown.cnt = inp.fp.cnt - 1 := int16_eq (by omega) (by omega)
  have slow : ¬ inp.fp.countDown.cnt ≥ 0 := by omega
  have none : inp.fp.cnt.toNat = 0 := Int.toNat_eq_zero.mpr empty
  rw [Input.getc]
  simp only [if_neg slow]
  by_cases atEnd : inp.fp.eof = true
  · rw [ffill, if_pos (.inl atEnd)]
    have cnt : ({ inp with fp := inp.fp.countDown } : Input).fp.cnt = inp.fp.cnt - 1 := down
    have inv' : ({ inp with fp := inp.fp.countDown } : Input).Inv := by
      refine ⟨?_, ?_, ?_, fun _ => atEnd, fun _ => ⟨(inv.ended atEnd).1, ?_⟩, inv.clear⟩ <;>
        rw [cnt] <;> omega
    exact ⟨inv', ⟨rfl, fun _ _ => rfl⟩, rfl, .inl ⟨inv.ahead_nil atEnd, rfl, inv'.ahead_nil atEnd⟩⟩
  · have eof : inp.fp.eof = false := (Bool.not_eq_true _).mp atEnd
    have ahead : inp.ahead = inp.rest := by
      rw [Input.ahead, none]
      rfl
    by_cases rest : inp.rest = []
    · rw [@ffill_end split { inp with fp := inp.fp.countDown } eof inv.clear rest]
      have inv' : ({ inp with
          fp := { inp.fp.countDown with cnt := 0, next := 0, eof := true }
          reads := inp.reads + 1 } : Input).Inv :=
        ⟨(by decide : -0x8000 ≤ (0 : Int)), (by decide : (0 : Int) ≤ DEF_BUFSIZE), nofun,
          fun _ => rfl, fun _ => ⟨rest, Int.le_refl 0⟩, inv.clear⟩
      exact ⟨inv', ⟨rfl, fun _ _ => rfl⟩, rfl, .inl ⟨ahead.trans rest, rfl, inv'.ahead_nil rfl⟩⟩
    · obtain ⟨k, count⟩ : ∃ k, inp.readCount split DEF_BUFSIZE = k := ⟨_, rfl⟩
      rw [@ffill_more split { inp with fp := inp.fp.countDown } eof inv.clear rest k count]
      have least : k ≤ DEF_BUFSIZE := count ▸ readCount_le DEF_BUFSIZE
      have most : k ≤ inp.rest.length := count ▸ readCount_le_rest DEF_BUFSIZE
      have positive : 0 < k := count ▸ readCount_pos (by decide) rest
      have length : (inp.rest.take k).length = k := by
        rw [List.length_take]
        exact Nat.min_eq_left most
      -- the first of the bytes goes to the caller, the others stay in the buffer
      have stored : bytesAt (storeBytes inp.fp.buf 0 (inp.rest.take k)) 0 k = inp.rest.take k := by
        have all := @bytesAt_storeBytes inp.fp.buf 0 (inp.rest.take k)
        rwa [length] at all
      obtain ⟨later, rfl⟩ : ∃ later, k = later + 1 := ⟨k - 1, by omega⟩
      rw [bytesAt_succ] at stored
      have whole : inp.rest = storeBytes inp.fp.buf 0 (inp.rest.take (later + 1)) 0 ::
          (bytesAt (storeBytes inp.fp.buf 0 (inp.rest.take (later + 1))) 1 later ++
            inp.rest.drop (later + 1)) := by
        rw [← List.cons_append, stored, List.take_append_drop]
      have cnt : ((later + 1 : Nat) : Int) - 1 = later := by omega
      have inv' : ({ inp with
          fp := { inp.fp.countDown with
            buf := storeBytes inp.fp.buf 0 (inp.rest.take (later + 1))
            cnt := ((later + 1 : Nat) : Int) - 1
            next := 1 }
          rest := inp.rest.drop (later + 1)
          reads := inp.reads + 1 } : Input).Inv := by
        refine ⟨?_, ?_, ?_, ?_, fun set => absurd set atEnd, inv.clear⟩ <;>
          simp only [cnt] <;> omega
      refine ⟨inv', ⟨rfl, fun a outside => ?_⟩, rfl, .inr
        ⟨storeBytes inp.fp.buf 0 (inp.rest.take (later + 1)) 0, ?_, ?_, ofInt_charOf _⟩⟩
      · have beyond : 0 + (inp.rest.take (later + 1)).length ≤ a := by omega
        exact storeBytes_outside (.inr beyond)
      · rw [ahead]
        refine whole.trans ?_
        simp only [Input.ahead, cnt, Int.toNat_natCast]
        rfl
      · refine charOf_ne_eof (marked empty eof _ ?_)
        rw [whole]
        rfl

/-- `getc` gives the next byte, or it is at the end. -/
theorem Inv.getc (inv : inp.Inv) (can : inp.CanGet) :
    Gets inp (inp.getc split).1 (inp.getc split).2 := by
  by_cases some : 0 < inp.fp.cnt
  · exact inv.getc_buffered some
  · exact inv.getc_empty can (by omega)

/-! ## `fgets` -/

/-- Storing a byte for the caller changes nothing for the stream. -/
theorem Inv.poke (inv : inp.Inv) (p : Nat) (ch : Int) : (inp.poke p ch).Inv :=
  ⟨inv.low, inv.high, inv.room, inv.negative, inv.ended, inv.clear⟩

/-- The loop moves the next bytes to the caller. -/
theorem fgetsLoop_spec {left p : Nat} (inv : inp.Inv) (can : CanGets split left p inp) :
    ∃ n ≤ left, (fgetsLoop split left p inp).1 = p + n ∧ (fgetsLoop split left p inp).2.Inv ∧
      inp.Frame (fgetsLoop split left p inp).2 ∧
      (∀ a, a < p ∨ p + n ≤ a → (fgetsLoop split left p inp).2.seg a = inp.seg a) ∧
      inp.ahead = bytesAt (fgetsLoop split left p inp).2.seg p n ++
        (fgetsLoop split left p inp).2.ahead := by
  induction left generalizing p inp with
  | zero => exact ⟨0, Nat.le_refl 0, rfl, inv, ⟨rfl, fun _ _ => rfl⟩, fun _ _ => rfl, rfl⟩
  | succ left ih =>
      obtain ⟨canGet, more⟩ := can
      have gets := @Inv.getc split inp inv canGet
      rw [fgetsLoop]
      obtain ⟨ch, inp', got⟩ : ∃ ch inp', inp.getc split = (ch, inp') := ⟨_, _, rfl⟩
      rw [got] at gets more ⊢
      dsimp only at gets more ⊢
      by_cases eof : ch = EOF
      · rw [if_pos eof]
        obtain ⟨nothing, -, nothing'⟩ | ⟨_, -, notEof, -⟩ := gets.next
        · refine ⟨0, Nat.zero_le _, rfl, gets.inv, gets.frame, fun a _ => ?_, ?_⟩
          · rw [gets.seg]
          · rw [nothing, nothing']
            rfl
        · exact absurd eof notEof
      rw [if_neg eof]
      obtain ⟨-, isEof, -⟩ | ⟨byte, ahead, -, same⟩ := gets.next
      · exact absurd isEof eof
      have poked : (inp'.poke p ch).Inv := gets.inv.poke p ch
      have stored : (inp'.poke p ch).seg p = byte := by
        rw [Input.poke, same]
        exact Function.update_self p byte inp'.seg
      have others : ∀ a, a ≠ p → (inp'.poke p ch).seg a = inp.seg a := by
        intro a ne
        rw [← gets.seg]
        exact Function.update_of_ne ne _ _
      by_cases newline : ch = 10
      · rw [if_pos newline]
        refine ⟨1, by omega, rfl, poked, gets.frame.poke p ch, fun a outside => ?_, ?_⟩
        · exact others a (by omega)
        · rw [ahead, bytesAt_succ, stored]
          rfl
      · rw [if_neg newline]
        obtain ⟨n, few, place, inv', frame, outside, rest⟩ := ih poked (more eof newline)
        refine ⟨n + 1, by omega, by omega, inv',
          (gets.frame.poke p ch).trans frame, fun a beyond => ?_, ?_⟩
        · rw [outside a (by omega)]
          exact others a (by omega)
        · have first := outside p (.inl (Nat.lt_succ_self p))
          rw [bytesAt_succ, first, stored, List.cons_append, ← rest, ahead]
          rfl

/-- `fgets` moves the next bytes to the caller, and returns its buffer. -/
theorem fgets_spec {s size : Nat} (inv : inp.Inv) (proper : Proper (.fgets s size))
    (can : CanGets split (size - 1) s inp) :
    ∃ n, n + 1 ≤ size ∧ (inp.fgets split s size).1 = some s ∧
      (inp.fgets split s size).2.1 = s + n ∧ (inp.fgets split s size).2.2.Inv ∧
      inp.Frame (inp.fgets split s size).2.2 ∧
      (∀ a, ¬ Covers (.fgets s size) a → (inp.fgets split s size).2.2.seg a = inp.seg a) ∧
      inp.ahead = bytesAt (inp.fgets split s size).2.2.seg s n ++
        (inp.fgets split s size).2.2.ahead := by
  obtain ⟨least, most, inside⟩ := proper
  obtain ⟨n, few, place, inv', frame, outside, rest⟩ := fgetsLoop_spec inv can
  rw [fgets, if_neg (by omega)]
  obtain ⟨p, inp', looped⟩ : ∃ p inp', fgetsLoop split (size - 1) s inp = (p, inp') := ⟨_, _, rfl⟩
  rw [looped] at place inv' frame outside rest ⊢
  dsimp only at place inv' frame outside rest ⊢
  obtain rfl := place
  refine ⟨n, by omega, if_neg (by omega), rfl, inv'.poke _ 0, frame.poke _ 0, fun a beyond => ?_,
    ?_⟩
  · rw [Covers] at beyond
    refine (Function.update_of_ne (by omega) _ _).trans (outside a (by omega))
  · have kept : bytesAt (inp'.poke (s + n) 0).seg s n = bytesAt inp'.seg s n :=
      bytesAt_congr fun a _ below => Function.update_of_ne (by omega) _ _
    rw [kept]
    exact rest

/-! ## `fread` -/

/-- `fread` behind the end of the file. -/
theorem fread_ended {ptr size nmemb : Nat} (eof : inp.fp.eof = true) :
    inp.fread split ptr size nmemb = some (0, 0, inp) := by
  rw [fread, if_pos (.inl eof)]

/-- What the end of `fread` reads from the file. -/
theorem freadFile_spec {pb n k : Nat} (count : inp.readCount split n = k) (ne : k ≠ 0xffff) :
    ∃ reads, inp.freadFile split pb n =
      (k, { inp with
        seg := storeBytes inp.seg pb (inp.rest.take k)
        rest := inp.rest.drop k
        reads := reads }) := by
  have most : k ≤ inp.rest.length := count ▸ readCount_le_rest n
  have length : (inp.rest.take k).length = k := by
    rw [List.length_take]
    exact Nat.min_eq_left most
  rw [freadFile]
  by_cases some : n ≠ 0
  · rw [if_pos some]
    simp only [Input.read, count, length, if_neg ne]
    exact ⟨_, rfl⟩
  · have zero : k = 0 := Nat.le_zero.mp (not_not.mp some ▸ count ▸ readCount_le n)
    have same : storeBytes inp.seg pb [] = inp.seg := by
      funext a
      refine storeBytes_outside ?_
      rw [List.length_nil]
      omega
    rw [if_neg some, zero, List.take_zero, List.drop_zero, same]
    exact ⟨_, rfl⟩

/-- `fread` moves the next bytes to the caller. -/
theorem fread_spec {ptr size nmemb : Nat} (inv : inp.Inv) (proper : Proper (.fread ptr size nmemb))
    (fits : inp.Fits split (.fread ptr size nmemb)) (notEof : inp.fp.eof = false) :
    ∃ moved inp', inp.fread split ptr size nmemb = some (moved / size, moved, inp') ∧
      0 < size ∧ inp'.Inv ∧ inp.Frame inp' ∧
      (∀ a, ¬ Covers (.fread ptr size nmemb) a → inp'.seg a = inp.seg a) ∧
      inp.ahead = bytesAt inp'.seg ptr moved ++ inp'.ahead := by
  obtain ended | ⟨least, room, empty, ne, enough⟩ := fits
  · exact absurd (ended.symm.trans notEof) (by decide)
  rw [Proper] at proper
  have few : nmemb ≤ (0x10000 - ptr) / size := by
    rw [Nat.le_div_iff_mul_le least, Nat.mul_comm]
    omega
  have readsize : nmemb * size % 0x10000 = size * nmemb := by
    rw [Nat.mul_comm]
    exact Nat.mod_eq_of_lt room
  have flags : ¬ (inp.fp.eof = true ∨ inp.fp.err = true) := by simp [notEof, inv.clear]
  have le := @readCount_le split inp (size * nmemb)
  have le_rest := @readCount_le_rest split inp (size * nmemb)
  obtain ⟨reads, moved⟩ := @freadFile_spec split inp ptr (size * nmemb) _ rfl ne
  generalize inp.readCount split (size * nmemb) = k at *
  rw [fread, if_neg flags, if_neg (by omega)]
  have buffered : inp.freadBuffered ptr (size * nmemb) = (0, inp) := by
    rw [freadBuffered, if_neg (not_not.mpr empty)]
  simp only [if_neg (Nat.not_lt.mpr few), readsize, buffered, Nat.add_zero, Nat.sub_zero,
    Nat.zero_add, moved]
  have length : (inp.rest.take k).length = k := by
    rw [List.length_take]
    exact Nat.min_eq_left le_rest
  have cnt : inp.fp.cnt.toNat = 0 := by rw [empty]; rfl
  refine ⟨k, _, rfl, least, ⟨inv.low, inv.high, inv.room, ?_, ?_, inv.clear⟩, ⟨rfl, fun _ _ => rfl⟩,
    fun a outside => ?_, ?_⟩
  · exact fun negative => absurd negative (by simp [empty])
  · intro eof
    refine ⟨?_, Int.le_of_eq empty⟩
    have none : k / size = 0 := by simpa [notEof, inv.clear] using eof
    have below : k < size := (Nat.div_eq_zero_iff_lt least).mp none
    have all : k = inp.rest.length := enough.resolve_left (Nat.not_le.mpr below)
    rw [all, List.drop_length]
  · rw [Covers] at outside
    refine storeBytes_outside ?_
    rw [length]
    omega
  · have stored : bytesAt (storeBytes inp.seg ptr (inp.rest.take k)) ptr k = inp.rest.take k := by
      have all := @bytesAt_storeBytes inp.seg ptr (inp.rest.take k)
      rwa [length] at all
    simp only [Input.ahead, cnt, stored]
    exact (List.take_append_drop k inp.rest).symm

/-! ## Runs -/

/-- What holds between calls. -/
structure Good (content : List UInt8) (inp : Input) : Prop where
  inv : inp.Inv
  order : (inp.given.flatMap fun d => d.bytes ++ d.tail) ++ inp.ahead = content
  tails : ∀ d ∈ inp.given, d.tail = [] ∨ d.tail.length < d.size

variable {content : List UInt8}

theorem Fresh.good (fresh : inp.Fresh content) : inp.Good content := by
  obtain ⟨cnt, eof, err, rest, given⟩ := fresh
  refine ⟨⟨?_, ?_, ?_, ?_, ?_, err⟩, ?_, ?_⟩
  · simp [cnt]
  · simp [cnt]
  · simp [cnt]
  · simp [cnt]
  · simp [eof]
  · simp [given, ahead, cnt, rest, bytesAt]
  · simp [given]

/-- A delivery of the next bytes. -/
theorem Good.deliver (good : inp.Good content) (inv : inp'.Inv) (frame : inp.Frame inp')
    {d : Delivery} (next : inp.ahead = d.bytes ++ d.tail ++ inp'.ahead)
    (tail : d.tail = [] ∨ d.tail.length < d.size) : (inp'.deliver d).Good content := by
  refine ⟨⟨inv.low, inv.high, inv.room, inv.negative, inv.ended, inv.clear⟩, ?_, ?_⟩
  · have before := good.order
    rw [next] at before
    have given : (inp'.deliver d).given = inp.given ++ [d] := congrArg (· ++ [d]) frame.given
    have same : (inp'.deliver d).ahead = inp'.ahead := rfl
    rw [given, same, List.flatMap_append, List.flatMap_cons, List.flatMap_nil, List.append_nil,
      List.append_assoc]
    exact before
  · intro other member
    have given : (inp'.deliver d).given = inp.given ++ [d] := congrArg (· ++ [d]) frame.given
    rw [given, List.mem_append, List.mem_singleton] at member
    obtain old | rfl := member
    · exact good.tails other old
    · exact tail

/-- A call is taken, keeps what holds between calls, stores only where it may, and sees the end
of the file where it is. -/
structure Serves (split : Nat → Nat) (content : List UInt8) (inp : Input) (call : InputCall)
    (inp' : Input) : Prop where
  taken : inp.step split call = some inp'
  good : inp'.Good content
  seg : ∀ a, ¬ Covers call a → inp'.seg a = inp.seg a
  buf : ∀ a, DEF_BUFSIZE ≤ a → inp'.fp.buf a = inp.fp.buf a
  ended : inp.EndRight split call

theorem step_getc : inp.step split .getc = some ((inp.getc split).2.deliver
    ⟨if (inp.getc split).1 = EOF then [] else [UInt8.ofInt (inp.getc split).1], [], 1⟩) := rfl

theorem step_fgets {s size : Nat} : inp.step split (.fgets s size) =
    some ((inp.fgets split s size).2.2.deliver
      ⟨bytesAt (inp.fgets split s size).2.2.seg s ((inp.fgets split s size).2.1 - s), [], 1⟩) := rfl

theorem step_fread {ptr size nmemb got moved : Nat}
    (taken : inp.fread split ptr size nmemb = some (got, moved, inp')) :
    inp.step split (.fread ptr size nmemb) = some (inp'.deliver
      ⟨bytesAt inp'.seg ptr (got * size), bytesAt inp'.seg (ptr + got * size) (moved - got * size),
        size⟩) := by
  rw [step, taken]
  rfl

theorem Good.getc (good : inp.Good content) (fits : inp.Fits split .getc) :
    ∃ inp', Serves split content inp .getc inp' := by
  have gets := @Inv.getc split inp good.inv fits
  refine ⟨_, step_getc, ?_, fun a _ => congrFun gets.seg a, gets.frame.buf, ?_⟩
  · refine good.deliver gets.inv gets.frame ?_ (.inl rfl)
    obtain ⟨nothing, eof, nothing'⟩ | ⟨byte, ahead, ne, same⟩ := gets.next
    · rw [if_pos eof, nothing, nothing']
      rfl
    · rw [if_neg ne, ahead, same]
      rfl
  · obtain ⟨nothing, eof, -⟩ | ⟨byte, ahead, ne, -⟩ := gets.next
    · exact iff_of_true eof nothing
    · exact iff_of_false ne (by rw [ahead]; exact List.cons_ne_nil _ _)

theorem Good.fgets {s size : Nat} (good : inp.Good content) (proper : Proper (.fgets s size))
    (fits : inp.Fits split (.fgets s size)) :
    ∃ inp', Serves split content inp (.fgets s size) inp' := by
  obtain ⟨n, few, pointer, place, inv', frame, outside, rest⟩ := fgets_spec good.inv proper fits.2
  refine ⟨_, step_fgets, ?_, outside, frame.buf, ?_⟩
  · refine good.deliver inv' frame ?_ (.inl rfl)
    rw [place, Nat.add_sub_cancel_left, List.append_nil]
    exact rest
  · rw [EndRight, pointer]
    exact iff_of_false nofun fun atEnd => fits.1 atEnd.1 atEnd.2

theorem Good.fread {ptr size nmemb : Nat} (good : inp.Good content)
    (proper : Proper (.fread ptr size nmemb)) (fits : inp.Fits split (.fread ptr size nmemb)) :
    ∃ inp', Serves split content inp (.fread ptr size nmemb) inp' := by
  by_cases eof : inp.fp.eof = true
  · refine ⟨_, step_fread (fread_ended eof), ?_, fun _ _ => rfl, fun _ _ => rfl, trivial⟩
    refine good.deliver good.inv ⟨rfl, fun _ _ => rfl⟩ ?_ (.inl ?_)
    · rw [Nat.zero_mul]
      rfl
    · rw [Nat.zero_mul]
      rfl
  · obtain ⟨moved, inp', taken, positive, inv', frame, outside, rest⟩ :=
      fread_spec good.inv proper fits ((Bool.not_eq_true _).mp eof)
    refine ⟨_, step_fread taken, ?_, outside, frame.buf, trivial⟩
    refine good.deliver inv' frame ?_ (.inr ?_)
    · have part : moved / size * size ≤ moved := Nat.div_mul_le_self moved size
      rw [← bytesAt_add, Nat.add_sub_of_le part]
      exact rest
    · rw [bytesAt_length, Nat.mul_comm, ← Nat.mod_eq_sub_mul_div]
      exact Nat.mod_lt moved positive

theorem Good.step (good : inp.Good content) {call : InputCall} (proper : Proper call)
    (fits : inp.Fits split call) : ∃ inp', Serves split content inp call inp' := by
  cases call with
  | getc => exact good.getc fits
  | fgets s size => exact good.fgets proper fits
  | fread ptr size nmemb => exact good.fread proper fits

/-- In every run whose calls keep to what the stream can do, the file is delivered in order and
every next such call comes to its end, stores only where it may, and sees the end of the file
where it is. -/
theorem stdio_input_right
    (reached : Reached (fun inp => inp.Fresh content)
      (fun inp call inp' => inp.step split call = some inp')
      (fun inp call => Proper call ∧ inp.Fits split call) inp) :
    inp.Right content ∧ ∀ call, Proper call → inp.Fits split call →
      inp.Stores (Covers call) (inp.step split call) ∧ inp.EndRight split call := by
  have good : inp.Good content := by
    refine reached.invariant (Good content) Fresh.good ?_
    rintro inp inp' call good ⟨proper, fits⟩ taken
    obtain ⟨after, serves⟩ := good.step proper fits
    obtain rfl := Option.some.inj (serves.taken.symm.trans taken)
    exact serves.good
  refine ⟨⟨good.order, good.tails, good.inv.ahead_nil⟩, fun call proper fits => ?_⟩
  obtain ⟨after, serves⟩ := good.step proper fits
  refine ⟨?_, serves.ended⟩
  rw [serves.taken]
  refine ⟨nofun, ?_, ?_⟩
  · rintro _ ⟨⟩
    exact serves.seg
  · rintro _ ⟨⟩
    exact serves.buf

/-- A stream that has just been opened on a file. -/
def opened (content : List UInt8) : Input where
  fp := { fd := 3, buf := fun _ => 0, next := 0, cnt := 0, read := true, write := false,
          eof := false, err := false }
  rest := content
  reads := 0
  seg := fun _ => 0
  given := []

/-- A line of a file is delivered. -/
theorem stdio_input_right_line :
    ∃ inp, (opened [104, 10, 33]).step (fun _ => 3) (.fgets 0x100 80) = some inp ∧
      inp.Right [104, 10, 33] := by
  have fresh : (opened [104, 10, 33]).Fresh [104, 10, 33] := ⟨rfl, rfl, rfl, rfl, rfl⟩
  have fits : (opened [104, 10, 33]).Fits (fun _ => 3) (.fgets 0x100 80) := by
    refine ⟨fun _ => by decide, ⟨by decide, fun _ _ byte first => ?_⟩, fun _ _ =>
      ⟨⟨by decide, fun empty => absurd empty (by decide)⟩, fun _ ne => absurd rfl ne⟩⟩
    obtain rfl := Option.some.inj first
    decide
  exact ⟨_, rfl, (stdio_input_right (.step (.start fresh) ⟨by decide, fits⟩ rfl)).1⟩

/-- A byte in the buffer is lost to `fread`, and a size of 0 is divided by. -/
theorem fread_wrong :
    (∃ after, runs (step fun _ => 3) (opened [104, 105]) [.getc, .fread 0x100 1 1] = some after ∧
      ¬ after.Right [104, 105]) ∧
    (opened [104, 105]).step (fun _ => 3) (.fread 0x100 0 1) = none :=
  ⟨⟨_, rfl, fun right => absurd right.order (by decide)⟩, rfl⟩

end Input

end Pegasos.Clib
