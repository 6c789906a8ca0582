import Mathlib.Data.List.Basic
import Mathlib.Logic.Function.Basic
import Mathlib.Tactic.Common
import Pegasos.Support.CInt
import Pegasos.Support.Transition

/-!
# Buffered output

`putc`, `fputs` and `fflush` of the C library on one stream.  The macro `putc` counts down
before it looks at anything else, and `_fflush` leaves the count alone once the stream has an
error.
-/

namespace Pegasos.Clib

open Pegasos.Support
open Function (update)

abbrev DEF_BUFSIZE : Nat := 128

def EOF : Int := -1

/-- `FILE`, with its buffer.  `next` is relative to the start of the buffer, and `buf` is the
memory from there on.  The last four fields are bits of `flags`. -/
structure File where
  fd : Int
  buf : Nat → UInt8
  next : Nat
  cnt : Int
  read : Bool
  write : Bool
  eof : Bool
  err : Bool

/-- A stream for output with what has become of its bytes: those put, the buffers passed to
`write`, and the places of the stores through `next`. -/
structure Output where
  fp : File
  put : List UInt8
  writes : List (List UInt8)
  stores : List Nat

/-- A call of a program. -/
inductive OutputCall where
  | putc (ch : Int)
  | fputs (s : List UInt8)
  | fflush
  deriving DecidableEq, Repr

/-- A byte read through a `char *`. -/
def charOf (byte : UInt8) : Int := if byte.toNat < 0x80 then byte.toNat else byte.toNat - 0x100

namespace File

variable (fp : File)

/-- `cnt--`. -/
def countDown : File := { fp with cnt := int16 (fp.cnt - 1) }

/-- `*next++ = ch`. -/
def store (ch : Int) : File :=
  { fp with buf := update fp.buf fp.next (UInt8.ofInt ch), next := (fp.next + 1) % 0x10000 }

/-- `next = buf; cnt = DEF_BUFSIZE`. -/
def reset : File := { fp with next := 0, cnt := DEF_BUFSIZE }

/-- The bytes in the buffer before `next`. -/
def buffered : List UInt8 := (List.range fp.next).map fp.buf

end File

namespace Output

variable (results : Nat → Int) (out : Output)

/-- The store of a byte that is put. -/
def store (ch : Int) : Output :=
  { out with fp := out.fp.store ch, stores := out.stores ++ [out.fp.next] }

/-- `fflush`.  The result of the `i`-th `write` is `results i`. -/
def fflush : Int × Output :=
  if out.fp.eof ∨ out.fp.err then (EOF, out)
  else
    let cnt := int16 out.fp.next
    if out.fp.write ∧ cnt ≠ 0 then
      let wrote := results out.writes.length
      let err := decide (wrote < cnt)
      (if err then EOF else wrote,
        { out with
          fp := { out.fp.reset with err := err }
          writes := out.writes ++ [out.fp.buffered] })
    else (0, { out with fp := out.fp.reset })

/-- `_fflush`. -/
def flushPut (ch : Int) : Int × Output :=
  if out.fp.eof ∨ out.fp.err then (EOF, out)
  else
    let (_, out) := out.fflush results
    let out := out.store ch
    let out := { out with fp := out.fp.countDown }
    (if out.fp.err then EOF else ch, out)

/-- The macro `putc`. -/
def putc (ch : Int) : Int × Output :=
  let out := { out with fp := out.fp.countDown }
  let (rc, out) :=
    if out.fp.cnt ≥ 0 then (ch % 0x100, out.store ch) else out.flushPut results ch
  (rc, { out with put := out.put ++ [UInt8.ofInt ch] })

/-- `fputs`. -/
def fputs : List UInt8 → Output → Int × Output
  | [], out => (0, out)
  | byte :: s, out =>
      if byte = 0 then (0, out)
      else
        let (rc, out) := out.putc results (charOf byte)
        if rc = EOF then (EOF, out) else fputs s out

def step : OutputCall → Output
  | .putc ch => (out.putc results ch).2
  | .fputs s => (fputs results s out).2
  | .fflush => (out.fflush results).2

/-- A stream after `fopen` or `_init_stdio`. -/
def Fresh : Prop :=
  out.fp.next = 0 ∧ out.fp.cnt = 0 ∧ out.fp.write = true ∧ out.fp.eof = false ∧
    out.fp.err = false ∧ out.put = [] ∧ out.writes = [] ∧ out.stores = []

/-- The count can be counted down. -/
def CanPut : Prop := out.fp.cnt ≠ -0x8000

instance : Decidable out.CanPut := inferInstanceAs (Decidable (_ ≠ _))

/-- The count can be counted down whenever `fputs` puts a byte. -/
def CanPuts : List UInt8 → Output → Prop
  | [], _ => True
  | byte :: s, out =>
      byte ≠ 0 → out.CanPut ∧
        ((out.putc results (charOf byte)).1 ≠ EOF →
          CanPuts s (out.putc results (charOf byte)).2)

/-- The calls that count down only where that is possible. -/
def Fits : OutputCall → Prop
  | .putc _ => out.CanPut
  | .fputs s => CanPuts results s out
  | .fflush => True

/-! ## What it is for -/

/-- No `write` has failed or taken only a part of what it got. -/
def Whole : Prop := ∀ i, (more : i < out.writes.length) → (out.writes[i].length : Int) ≤ results i

/-- Stores are in the buffer, `next` is in it or at its end, and the bytes that are put are
those written and those in the buffer. -/
structure Right : Prop where
  stores : ∀ place ∈ out.stores, place < DEF_BUFSIZE
  next : out.fp.next ≤ DEF_BUFSIZE
  order : out.Whole results → out.writes.flatten ++ out.fp.buffered = out.put

/-! ## The invariant -/

/-- What does not depend on the count.  `more` are bytes that have been stored and are not yet
among those put. -/
structure Kept (more : List UInt8) : Prop where
  stores : ∀ place ∈ out.stores, place < DEF_BUFSIZE
  next : out.fp.next ≤ DEF_BUFSIZE
  write : out.fp.write = true
  eof : out.fp.eof = false
  failed : out.fp.err = true → ¬ out.Whole results
  order : out.Whole results → out.writes.flatten ++ out.fp.buffered = out.put ++ more

/-- A positive count is that of the places left, and only an error leaves a negative one. -/
structure Inv (more : List UInt8) : Prop extends out.Kept results more where
  low : -0x8000 ≤ out.fp.cnt
  high : out.fp.cnt ≤ DEF_BUFSIZE
  room : 0 < out.fp.cnt → out.fp.cnt + out.fp.next = DEF_BUFSIZE
  negative : out.fp.cnt < 0 → out.fp.err = true

variable {results} {out} {more : List UInt8}

theorem Fresh.inv (fresh : out.Fresh) : out.Inv results [] := by
  obtain ⟨next, cnt, write, eof, err, put, writes, stores⟩ := fresh
  refine ⟨?_, ?_, ?_, ?_, ?_⟩
  · constructor <;> simp [next, write, eof, err, put, writes, stores, File.buffered]
  all_goals simp [cnt]

/-- A store behind the bytes in the buffer. -/
theorem buffered_store {fp : File} (room : fp.next < 128) (ch : Int) :
    (fp.store ch).buffered = fp.buffered ++ [UInt8.ofInt ch] := by
  have next : (fp.next + 1) % 0x10000 = fp.next + 1 := Nat.mod_eq_of_lt (by omega)
  simp only [File.buffered, File.store, next, List.range_succ, List.map_append, List.map_cons,
    List.map_nil, Function.update_self]
  congr 1
  refine List.map_congr_left fun place before => ?_
  exact Function.update_of_ne (by have := List.mem_range.mp before; omega) _ _

/-- A byte that is stored in the buffer, and counted. -/
theorem Inv.store (inv : out.Inv results []) (room : 0 < out.fp.cnt) (ch : Int) :
    ({ out with fp := out.fp.countDown }.store ch).Inv results [UInt8.ofInt ch] := by
  have size : (DEF_BUFSIZE : Int) = 128 := rfl
  have places := inv.room room
  have high := inv.high
  have cnt : ({ out with fp := out.fp.countDown }.store ch).fp.cnt = out.fp.cnt - 1 :=
    int16_eq (by omega) (by omega)
  have inside : out.fp.next < 128 := by omega
  have next : ({ out with fp := out.fp.countDown }.store ch).fp.next = out.fp.next + 1 :=
    Nat.mod_eq_of_lt (Nat.lt_of_le_of_lt inside (by decide))
  refine ⟨⟨?_, ?_, inv.write, inv.eof, inv.failed, fun whole => ?_⟩, ?_, ?_, ?_, ?_⟩
  · intro place stored
    obtain old | new := List.mem_append.mp stored
    · exact inv.stores place old
    · exact (List.mem_singleton.mp new).symm ▸ inside
  · rw [next]
    omega
  · have kept := inv.order whole
    have stored : ({ out with fp := out.fp.countDown }.store ch).fp.buffered =
        out.fp.buffered ++ [UInt8.ofInt ch] := buffered_store inside ch
    rw [List.append_nil] at kept
    rw [stored, ← List.append_assoc]
    exact congrArg (· ++ [UInt8.ofInt ch]) kept
  · rw [cnt]
    omega
  · rw [cnt]
    omega
  · rw [cnt, next]
    omega
  · rw [cnt]
    omega

/-- What was whole before a further `write` of it. -/
theorem Whole.of_append {writes : List (List UInt8)} {last : List UInt8}
    (whole : { out with writes := writes ++ [last] }.Whole results) :
    { out with writes := writes }.Whole results ∧ (last.length : Int) ≤ results writes.length := by
  refine ⟨fun i more => ?_, ?_⟩
  · have took := whole i (by rw [List.length_append]; exact Nat.lt_add_right 1 more)
    rwa [List.getElem_append_left more] at took
  · have took := whole writes.length (by rw [List.length_append]; exact Nat.lt_succ_self _)
    rwa [List.getElem_concat_length rfl] at took

/-- An empty buffer with its count, once all that was put has been written. -/
theorem Kept.reset (kept : out.Kept results []) {err : Bool} {writes : List (List UInt8)}
    (failed : err = true → ¬ { out with writes := writes }.Whole results)
    (order : { out with writes := writes }.Whole results → writes.flatten = out.put) :
    { out with fp := { out.fp.reset with err := err }, writes := writes }.Inv results [] := by
  refine ⟨⟨kept.stores, Nat.zero_le _, kept.write, kept.eof, failed, fun whole => ?_⟩,
    ?_, ?_, ?_, ?_⟩
  · have written : writes.flatten = out.put := order whole
    simpa [File.buffered, File.reset] using written
  · exact (by decide : (-0x8000 : Int) ≤ DEF_BUFSIZE)
  · exact (Int.le_refl _ : (DEF_BUFSIZE : Int) ≤ DEF_BUFSIZE)
  · exact fun _ => (Int.add_zero _ : (DEF_BUFSIZE : Int) + 0 = DEF_BUFSIZE)
  · exact fun negative => absurd negative (by decide : ¬ ((DEF_BUFSIZE : Int) < 0))

/-- `fflush` of a stream without an error leaves an empty buffer. -/
theorem Kept.fflush (kept : out.Kept results []) (clear : out.fp.err = false) :
    (out.fflush results).2.Inv results [] ∧
      (out.fflush results).2.fp.cnt = DEF_BUFSIZE ∧ (out.fflush results).2.put = out.put := by
  have most := kept.next
  have next : int16 out.fp.next = out.fp.next :=
    int16_eq (by omega) (Int.ofNat_lt.mpr (Nat.lt_of_le_of_lt most (by decide)))
  rw [Output.fflush, if_neg (by simp [clear, kept.eof])]
  simp only [kept.write, next, true_and]
  by_cases none : out.fp.next = 0
  · rw [if_neg (by simp [none])]
    refine ⟨?_, rfl, rfl⟩
    refine kept.reset (fun failed => kept.failed failed) fun whole => ?_
    simpa [File.buffered, none] using kept.order whole
  · rw [if_pos (by omega)]
    refine ⟨?_, rfl, rfl⟩
    have length : out.fp.buffered.length = out.fp.next := by simp [File.buffered]
    refine kept.reset (fun failed whole => ?_) fun whole => ?_
    · have took := whole.of_append.2
      rw [length] at took
      simp only [decide_eq_true_eq] at failed
      omega
    · simpa using kept.order whole.of_append.1

/-- A stored byte joins those put. -/
theorem Inv.join {byte : UInt8} (inv : out.Inv results [byte]) :
    { out with put := out.put ++ [byte] }.Inv results [] where
  stores := inv.stores
  next := inv.next
  write := inv.write
  eof := inv.eof
  failed := inv.failed
  order whole := (inv.order whole).trans (List.append_nil _).symm
  low := inv.low
  high := inv.high
  room := inv.room
  negative := inv.negative

/-- `_fflush` on the way from a count that has come down to a negative one. -/
theorem Kept.flushPut (kept : out.Kept results []) (clear : out.fp.err = false) (ch : Int) :
    (out.flushPut results ch).2.Inv results [UInt8.ofInt ch] ∧
      (out.flushPut results ch).2.put = out.put := by
  obtain ⟨inv, cnt, put⟩ := kept.fflush clear
  rw [Output.flushPut, if_neg (by simp [clear, kept.eof])]
  refine ⟨?_, put⟩
  exact inv.store (by rw [cnt]; decide) ch

/-- `putc` keeps the invariant where the count can be counted down. -/
theorem Inv.putc (inv : out.Inv results []) (can : out.CanPut) (ch : Int) :
    (out.putc results ch).2.Inv results [] := by
  have low := inv.low
  have high := inv.high
  have size : (DEF_BUFSIZE : Int) = 128 := rfl
  unfold CanPut at can
  have down : out.fp.countDown.cnt = out.fp.cnt - 1 := int16_eq (by omega) (by omega)
  rw [Output.putc]
  by_cases room : 0 < out.fp.cnt
  · have fast : out.fp.countDown.cnt ≥ 0 := by omega
    simp only [if_pos fast]
    exact (inv.store room ch).join
  · have slow : ¬ out.fp.countDown.cnt ≥ 0 := by omega
    simp only [if_neg slow]
    have kept : { out with fp := out.fp.countDown }.Kept results [] :=
      ⟨inv.stores, inv.next, inv.write, inv.eof, inv.failed, inv.order⟩
    by_cases failed : out.fp.err = true
    · rw [Output.flushPut, if_pos (.inr failed)]
      refine ⟨⟨inv.stores, inv.next, inv.write, inv.eof, inv.failed, ?_⟩, ?_, ?_, ?_, ?_⟩
      · exact fun whole => absurd whole (inv.failed failed)
      · exact (by omega : -0x8000 ≤ out.fp.countDown.cnt)
      · exact (by omega : out.fp.countDown.cnt ≤ DEF_BUFSIZE)
      · exact fun positive => absurd positive (by omega : ¬ 0 < out.fp.countDown.cnt)
      · exact fun _ => failed
    · obtain ⟨inv, put⟩ := kept.flushPut ((Bool.not_eq_true _).mp failed) ch
      exact inv.join

/-- `fputs` keeps it as its bytes do. -/
theorem Inv.fputs {s : List UInt8} (inv : out.Inv results []) (can : CanPuts results s out) :
    (fputs results s out).2.Inv results [] := by
  induction s generalizing out with
  | nil => exact inv
  | cons byte s ih =>
      rw [Output.fputs]
      by_cases last : byte = 0
      · rw [if_pos last]
        exact inv
      · obtain ⟨can, more⟩ := can last
        have put := inv.putc can (charOf byte)
        simp only [if_neg last]
        split
        · exact put
        · exact ih put (more ‹_›)

theorem Inv.step (inv : out.Inv results []) {call : OutputCall} (fits : out.Fits results call) :
    (out.step results call).Inv results [] := by
  cases call with
  | putc ch => exact inv.putc fits ch
  | fputs s => exact inv.fputs fits
  | fflush =>
      by_cases failed : out.fp.err = true
      · rw [Output.step, Output.fflush, if_pos (.inr failed)]
        exact inv
      · exact (inv.toKept.fflush (by simpa using failed)).1

/-- In every run whose calls count down only where that is possible, stores stay in the buffer
and the bytes come out in order, whatever the results of `write` are. -/
theorem stdio_output_right {out : Output}
    (reached : Reached Fresh (fun out call out' => out.step results call = out')
      (fun out call => out.Fits results call) out) : out.Right results := by
  have inv : out.Inv results [] := by
    refine reached.invariant (fun out => out.Inv results []) Fresh.inv ?_
    rintro out _ call inv fits rfl
    exact inv.step fits
  refine ⟨inv.stores, inv.next, fun whole => ?_⟩
  rw [inv.order whole, List.append_nil]

/-- A stream that has just been opened. -/
def opened : Output where
  fp := { fd := 1, buf := fun _ => 0, next := 0, cnt := 0, read := false, write := true,
          eof := false, err := false }
  put := []
  writes := []
  stores := []

/-- Two bytes are put and written. -/
theorem stdio_output_right_two :
    ((opened.step (fun _ => 2) (.fputs [104, 105])).step (fun _ => 2) .fflush).Right
      fun _ => 2 := by
  have two : opened.Fits (fun _ => 2) (.fputs [104, 105]) :=
    fun _ => ⟨by decide, fun _ _ => ⟨by decide, fun _ => trivial⟩⟩
  have fresh : opened.Fresh := ⟨rfl, rfl, rfl, rfl, rfl, rfl, rfl, rfl⟩
  have flush : (opened.step (fun _ => 2) (.fputs [104, 105])).Fits (fun _ => 2) .fflush := trivial
  exact stdio_output_right (.step (.step (.start fresh) two rfl) flush rfl)

/-! ## Behind an error -/

/-- Bytes that are put on a stream with an error fill the buffer, and then count down. -/
theorem putc_failed (results : Nat → Int) (n : Nat) {out : Output} (failed : out.fp.err = true)
    (low : n ≤ out.fp.cnt + 0x8000) (high : out.fp.cnt ≤ 128)
    (room : out.fp.next + out.fp.cnt.toNat ≤ 128) (ch : Int) :
    let after := (List.replicate n (OutputCall.putc ch)).foldl (step results) out
    after.fp.err = true ∧ after.fp.cnt = out.fp.cnt - n ∧
      after.fp.next = out.fp.next + min n out.fp.cnt.toNat := by
  induction n generalizing out with
  | zero => simp [failed]
  | succ n ih =>
      have down : out.fp.countDown.cnt = out.fp.cnt - 1 := int16_eq (by omega) (by omega)
      have one : (out.step results (.putc ch)).fp.err = true ∧
          (out.step results (.putc ch)).fp.cnt = out.fp.cnt - 1 ∧
          (out.step results (.putc ch)).fp.next = out.fp.next + min 1 out.fp.cnt.toNat := by
        rw [Output.step, Output.putc]
        by_cases more : 0 < out.fp.cnt
        · simp only [if_pos (show out.fp.countDown.cnt ≥ 0 by omega)]
          refine ⟨failed, down, ?_⟩
          refine (Nat.mod_eq_of_lt (show out.fp.next + 1 < 0x10000 by omega)).trans ?_
          omega
        · simp only [if_neg (show ¬ out.fp.countDown.cnt ≥ 0 by omega)]
          rw [Output.flushPut, if_pos (.inr failed)]
          exact ⟨failed, down, (by omega : out.fp.next = _)⟩
      obtain ⟨failed', cnt, next⟩ := one
      obtain ⟨failed', cnt', next'⟩ :=
        ih failed' (by omega) (by omega) (by omega)
      rw [List.replicate_succ, List.foldl_cons]
      exact ⟨failed', by omega, by omega⟩

/-- The byte that comes when the count cannot be counted down is stored behind the buffer. -/
theorem putc_wraps {results : Nat → Int} {n : Nat} {out : Output} (failed : out.fp.err = true)
    (count : (n : Int) = out.fp.cnt + 0x8000) (low : 0 ≤ out.fp.cnt)
    (full : out.fp.next + out.fp.cnt = 128) (ch : Int) :
    ¬ ((List.replicate (n + 1) (OutputCall.putc ch)).foldl (step results) out).Right results := by
  intro right
  obtain ⟨-, cnt, next⟩ := putc_failed results n failed (by omega) (by omega) (by omega) ch
  rw [List.replicate_succ', List.foldl_append] at right
  generalize (List.replicate n (OutputCall.putc ch)).foldl _ _ = last at cnt next right
  have lowest : last.fp.cnt = -0x8000 := by omega
  have wraps : last.fp.countDown.cnt ≥ 0 := by
    rw [File.countDown, lowest]
    exact (by decide : int16 (-0x8000 - 1) ≥ 0)
  have stored : 128 ∈ (last.step results (.putc ch)).stores := by
    rw [Output.step, Output.putc]
    simp only [if_pos wraps]
    exact List.mem_append_right _ (List.mem_singleton.mpr (by omega : 128 = last.fp.next))
  exact absurd (right.stores 128 stored) (by decide)

/-- The stream when a byte could not be written. -/
def unwritten : Output := (opened.step (fun _ => -1) (.putc 97)).step (fun _ => -1) .fflush

/-- After it, bytes come to be stored behind the buffer. -/
theorem putc_leaves_buffer :
    ¬ ((List.replicate (32896 + 1) (OutputCall.putc 97)).foldl (step fun _ => -1) unwritten).Right
      fun _ => -1 := by
  have count : unwritten.fp.err = true ∧ unwritten.fp.cnt = 128 ∧ unwritten.fp.next = 0 := by decide
  obtain ⟨failed, cnt, next⟩ := count
  exact putc_wraps failed (by rw [cnt]; rfl) (by omega) (by omega) 97

end Output

end Pegasos.Clib
