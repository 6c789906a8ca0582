import Mathlib.Order.Lattice
import Pegasos.Support.CInt
import Mathlib.Algebra.Group.Nat.Defs

/-!
# Numbers of the print routines

`print_int` and `print_hex`, which the kernel and the C library have alike.  A number is
written backwards into a work buffer of 12 bytes, and the padding is put out before it.
-/

namespace Pegasos.Printf

open Pegasos.Support

abbrev FL_ZEROPAD : Nat := 0x0001
abbrev FL_SIGNED : Nat := 0x0002
abbrev FL_LONG : Nat := 0x0004
abbrev FL_PTR : Nat := 0x0008

/-- The code of a character. -/
def ascii (ch : Char) : UInt8 := UInt8.ofNat ch.toNat

/-- What is put out for a number, and the bytes of the work buffer from `p` on. -/
structure Printed where
  work : List UInt8
  out : List UInt8

/-- `while (val) { *--p = '0' + val % 10; val /= 10; }` -/
def storeDigits (val : Nat) (work : List UInt8) : List UInt8 :=
  if val = 0 then work
  else storeDigits (val / 10) ((ascii '0' + UInt8.ofNat (val % 10)) :: work)
termination_by val

/-- `for (; width > 0; width--) pc(ch);`: the width and the output behind the loop. -/
def putPadding (ch : UInt8) (width : Int) (out : List UInt8) : Int × List UInt8 :=
  if 0 < width then putPadding ch (width - 1) (out ++ [ch]) else (width, out)
termination_by width.toNat

/-- `while (*p) pc(*p++);` -/
def putWork (work out : List UInt8) : List UInt8 := out ++ work.takeWhile (· ≠ 0)

/-- `print_int`, as far as the padding: whether there is a minus sign, and the work buffer. -/
def intWork (val : UInt32) (flags : Nat) : Bool × List UInt8 :=
  if val = 0 then (false, [ascii '0', 0])
  else
    let minus : Bool := flags &&& FL_SIGNED ≠ 0 ∧ int32 val.toNat < 0
    let val := if minus then -val else val
    (minus, storeDigits val.toNat [0])

/-- `print_int` -/
def printInt (val : UInt32) (flags : Nat) (width : Int) : Printed :=
  let (minus, work) := intWork val flags
  let width := int16 (width - (work.length - 1))
  let (width, out) :=
    if flags &&& FL_ZEROPAD ≠ 0 then putPadding (ascii '0') width [] else (width, [])
  let (width, out) := if minus then (int16 (width - 1), out ++ [ascii '-']) else (width, out)
  let (_, out) := putPadding (ascii ' ') width out
  { work := work, out := putWork work out }

/-- `hexit` as a character. -/
def hexDigit (hexit : Nat) : UInt8 :=
  if hexit ≤ 9 then ascii '0' + UInt8.ofNat hexit else ascii 'A' + UInt8.ofNat hexit - 10

/-- `len` of `print_hex`. -/
def hexLen (flags : Nat) : Nat := if flags &&& FL_LONG ≠ 0 then 8 else 4

theorem hexLen_le (flags : Nat) : hexLen flags ≤ 8 := by
  rw [hexLen]
  split <;> decide

/-- The loop of `print_hex`; a long pointer has a colon between its halves. -/
def storeHex (flags val i : Nat) (work : List UInt8) : List UInt8 :=
  if val ≠ 0 ∨ (flags &&& FL_PTR ≠ 0 ∧ i < hexLen flags) then
    let work := hexDigit (val % 16) :: work
    let work :=
      if flags &&& FL_PTR ≠ 0 ∧ flags &&& FL_LONG ≠ 0 ∧ i + 1 = 4 then ascii ':' :: work
      else work
    storeHex flags (val / 16) (i + 1) work
  else work
termination_by val + (8 - i)
decreasing_by
  have small := hexLen_le flags
  omega

/-- The work buffer of `print_hex`. -/
def hexWork (val : UInt32) (flags : Nat) : List UInt8 :=
  if val = 0 then
    let work := [ascii '0', 0]
    if flags &&& FL_PTR ≠ 0 then
      let work := List.replicate 3 (ascii '0') ++ work
      if flags &&& FL_LONG ≠ 0 then List.replicate 4 (ascii '0') ++ ascii ':' :: work else work
    else work
  else storeHex flags val.toNat 0 [0]

/-- `print_hex` -/
def printHex (val : UInt32) (flags : Nat) (width : Int) : Printed :=
  let work := hexWork val flags
  let out :=
    if flags &&& FL_PTR = 0 then
      let ch := if flags &&& FL_ZEROPAD ≠ 0 then ascii '0' else ascii ' '
      (putPadding ch (int16 (width - (work.length - 1))) []).2
    else []
  { work := work, out := putWork work out }

/-- The number that is printed. -/
def valueOf (val : UInt32) (flags : Nat) : Int :=
  if flags &&& FL_SIGNED ≠ 0 then int32 val.toNat else val.toNat

/-- The decimal digits of a number. -/
def digits (value : Int) : List UInt8 := (Nat.toDigits 10 value.natAbs).map ascii

def sign (value : Int) : List UInt8 := if value < 0 then [ascii '-'] else []

/-- The plain decimal numeral. -/
def numeral (value : Int) : List UInt8 := sign value ++ digits value

variable {val : UInt32} {flags : Nat} {width : Int} {value : Int}

theorem digitChar_code {digit : Nat} (small : digit < 10) :
    ascii (Nat.digitChar digit) = ascii '0' + UInt8.ofNat digit := by
  revert small
  revert digit
  decide

theorem storeDigits_eq {val : Nat} (some : val ≠ 0) (work : List UInt8) :
    storeDigits val work = (Nat.toDigits 10 val).map ascii ++ work := by
  induction val using Nat.strong_induction_on generalizing work with
  | _ val ih =>
      rw [storeDigits, if_neg some, Nat.toDigits_eq_if (by decide),
        ← digitChar_code (Nat.mod_lt val (by decide))]
      by_cases small : val < 10
      · rw [if_pos small, Nat.div_eq_of_lt small, storeDigits, if_pos rfl, Nat.mod_eq_of_lt small]
        rfl
      · rw [if_neg small, ih (val / 10) (by omega) (by omega)]
        simp

theorem valueOf_zero (flags : Nat) : valueOf 0 flags = 0 := by
  have zero : int32 (0 : UInt32).toNat = 0 := by decide
  rw [valueOf, zero]
  split <;> rfl

/-- A number is negative when its highest bit is set. -/
theorem valueOf_eq (val : UInt32) (flags : Nat) :
    valueOf val flags =
      if flags &&& FL_SIGNED ≠ 0 ∧ int32 val.toNat < 0 then (val.toNat : Int) - 0x100000000
      else val.toNat := by
  have fits := val.toNat_lt
  rw [valueOf]
  by_cases isSigned : flags &&& FL_SIGNED ≠ 0
  · rw [if_pos isSigned]
    rcases Nat.lt_or_ge val.toNat 0x80000000 with low | high
    · rw [int32_eq (by omega) (by omega), if_neg (by omega)]
    · rw [int32_above (by omega) (by omega), if_pos ⟨isSigned, by omega⟩]
  · rw [if_neg isSigned, if_neg fun both => isSigned both.1]

/-- The work buffer holds the digits of the number and a NUL. -/
theorem intWork_eq (val : UInt32) (flags : Nat) :
    intWork val flags =
      (decide (valueOf val flags < 0), digits (valueOf val flags) ++ [0]) := by
  have fits := val.toNat_lt
  have value := valueOf_eq val flags
  by_cases none : val = 0
  · rw [none, intWork, if_pos rfl, valueOf_zero]
    rfl
  · have some : val.toNat ≠ 0 := fun zero => none (UInt32.toNat.inj zero)
    rw [intWork, if_neg none]
    by_cases negative : flags &&& FL_SIGNED ≠ 0 ∧ int32 val.toNat < 0
    · rw [if_pos negative] at value
      have negated : (-val).toNat = (valueOf val flags).natAbs := by
        rw [UInt32.toNat_neg, value, UInt32.size]
        omega
      rw [decide_eq_true negative, decide_eq_true (by omega : valueOf val flags < 0)]
      show (true, storeDigits (-val).toNat [0]) = _
      rw [negated, storeDigits_eq (by omega)]
      rfl
    · rw [if_neg negative] at value
      have same : val.toNat = (valueOf val flags).natAbs := by omega
      rw [decide_eq_false negative, decide_eq_false (by omega : ¬ valueOf val flags < 0)]
      show (false, storeDigits val.toNat [0]) = _
      rw [storeDigits_eq some, same]
      rfl

/-- A number of 32 bits has at most ten digits. -/
theorem digits_length (small : value.natAbs < 0x100000000) : (digits value).length ≤ 10 := by
  rw [digits, List.length_map, Nat.length_toDigits_le_iff (by decide) (by decide)]
  exact Nat.lt_trans small (by decide)

theorem digits_nonzero : ∀ ch ∈ digits value, ch ≠ 0 := by
  intro ch member
  obtain ⟨digit, inside, rfl⟩ := List.mem_map.mp member
  have isDigit := Nat.isDigit_of_mem_toDigits (by decide) (by decide) inside
  rw [Char.isDigit, Bool.and_eq_true, decide_eq_true_iff, decide_eq_true_iff] at isDigit
  have low : 48 ≤ digit.toNat := isDigit.1
  have high : digit.toNat ≤ 57 := isDigit.2
  intro zero
  have same : (ascii digit).toNat = digit.toNat := UInt8.toNat_ofNat_of_lt' (by
    show digit.toNat < 256
    omega)
  rw [zero] at same
  have none : (0 : UInt8).toNat = 0 := rfl
  omega

theorem putPadding_eq (ch : UInt8) (width : Int) (out : List UInt8) :
    putPadding ch width out = (min width 0, out ++ List.replicate width.toNat ch) := by
  fun_induction putPadding ch width out with
  | case1 width out more ih =>
      have one : width.toNat = (width - 1).toNat + 1 := by omega
      rw [ih, one, List.replicate_succ, List.append_assoc, List.singleton_append]
      congr 1
      omega
  | case2 width out none =>
      have zero : width.toNat = 0 := by omega
      rw [zero, List.replicate_zero, List.append_nil]
      congr 1
      omega

/-- The paddings of `print_int`: zeros before the sign, spaces behind it. -/
def zeros (flags : Nat) (value width : Int) : Nat :=
  if flags &&& FL_ZEROPAD ≠ 0 then (int16 (width - (digits value).length)).toNat else 0

def spaces (flags : Nat) (value width : Int) : Nat :=
  let left := int16 (width - (digits value).length)
  let left := if flags &&& FL_ZEROPAD ≠ 0 then min left 0 else left
  (if value < 0 then int16 (left - 1) else left).toNat

theorem printInt_eq (val : UInt32) (flags : Nat) (width : Int) :
    printInt val flags width =
      { work := digits (valueOf val flags) ++ [0]
        out := List.replicate (zeros flags (valueOf val flags) width) (ascii '0') ++
          sign (valueOf val flags) ++
          List.replicate (spaces flags (valueOf val flags) width) (ascii ' ') ++
          digits (valueOf val flags) } := by
  have whole : (digits (valueOf val flags) ++ [0]).takeWhile (· ≠ 0) =
      digits (valueOf val flags) := by
    rw [List.takeWhile_append_of_pos fun ch member => by simpa using digits_nonzero ch member]
    simp
  have length : (((digits (valueOf val flags) ++ [0]).length : Nat) : Int) - 1 =
      (digits (valueOf val flags)).length := by
    rw [List.length_append, List.length_singleton]
    omega
  rw [printInt, intWork_eq]
  simp only [putPadding_eq, length, putWork, whole, zeros, spaces, sign]
  generalize flags &&& FL_ZEROPAD = padded
  by_cases none : padded = 0 <;> by_cases negative : valueOf val flags < 0 <;>
    simp [none, negative]

theorem hexDigit_ne_zero {hexit : Nat} (small : hexit < 16) : hexDigit hexit ≠ 0 := by
  revert small
  revert hexit
  decide

/-- The digits of a number that is not a pointer. -/
theorem storeHex_digits (noPtr : flags &&& FL_PTR = 0) {count val : Nat}
    (small : val < 16 ^ count) (i : Nat) (work : List UInt8) :
    ∃ front, storeHex flags val i work = front ++ work ∧ front.length ≤ count ∧
      ∀ ch ∈ front, ch ≠ 0 := by
  induction count generalizing val i work with
  | zero =>
      have none : val = 0 := by omega
      refine ⟨[], ?_, le_refl _, by simp⟩
      rw [storeHex, if_neg (by simp [none, noPtr]), List.nil_append]
  | succ count ih =>
      by_cases none : val = 0
      · refine ⟨[], ?_, Nat.zero_le _, by simp⟩
        rw [storeHex, if_neg (by simp [none, noPtr]), List.nil_append]
      · rw [Nat.pow_succ] at small
        obtain ⟨front, digits, short, nonzero⟩ :=
          ih (show val / 16 < 16 ^ count by omega) (i + 1) (hexDigit (val % 16) :: work)
        refine ⟨front ++ [hexDigit (val % 16)], ?_, ?_, ?_⟩
        · rw [storeHex, if_pos (.inl none)]
          simp only [noPtr, ne_eq, not_true_eq_false, false_and, if_false]
          rw [digits, List.append_assoc, List.singleton_append]
        · rw [List.length_append, List.length_singleton]
          omega
        · intro ch member
          rcases List.mem_append.mp member with member | member
          · exact nonzero ch member
          · rw [List.mem_singleton.mp member]
            exact hexDigit_ne_zero (Nat.mod_lt _ (by decide))

/-- A hexadecimal number that fits its width takes exactly the width. -/
theorem printHex_length (noPtr : flags &&& FL_PTR = 0) {count : Nat} (one : 1 ≤ count)
    (few : count ≤ 8) (small : val.toNat < 16 ^ count) :
    (printHex val flags count).out.length = count := by
  obtain ⟨front, work, short, nonzero⟩ : ∃ front, hexWork val flags = front ++ [0] ∧
      front.length ≤ count ∧ ∀ ch ∈ front, ch ≠ 0 := by
    rw [hexWork]
    split
    · refine ⟨[ascii '0'], ?_, one, List.forall_mem_singleton.mpr (by decide)⟩
      simp [noPtr]
    · exact storeHex_digits noPtr small 0 [0]
  have shown : (front ++ [0]).takeWhile (· ≠ 0) = front := by
    rw [List.takeWhile_append_of_pos fun ch member =>
      decide_eq_true (nonzero ch member)]
    simp
  have long : (((front ++ [0]).length : Nat) : Int) - 1 = front.length := by
    rw [List.length_append, List.length_singleton]
    omega
  have left : int16 ((count : Int) - front.length) = (count : Int) - front.length :=
    int16_eq (by omega) (by omega)
  rw [printHex, work]
  simp only [noPtr, if_true, long, left, putPadding_eq, putWork, shown, List.nil_append]
  rw [List.length_append, List.length_replicate]
  omega

/-- What a formatted number should look like. -/
structure Formatted (flags : Nat) (width value : Int) (printed : Printed) : Prop where
  length : (printed.out.length : Int) = max width (numeral value).length
  shape :
    if flags &&& FL_ZEROPAD ≠ 0 then
      ∃ pad, printed.out = sign value ++ List.replicate pad (ascii '0') ++ digits value
    else ∃ pad, printed.out = List.replicate pad (ascii ' ') ++ numeral value
  room : printed.work.length ≤ 12

/-- No padding comes between the sign of a negative number and its digits, or before its sign,
and no subtraction from the width wraps. -/
structure PadsWell (flags : Nat) (width value : Int) : Prop where
  unwrapped : -0x8000 ≤ width - (numeral value).length
  unpadded : value < 0 →
    width ≤ (digits value).length + (if flags &&& FL_ZEROPAD ≠ 0 then 0 else 1)

theorem sign_length : (sign value).length = if value < 0 then 1 else 0 := by
  rw [sign]
  split <;> rfl

theorem valueOf_small (val : UInt32) (flags : Nat) :
    (valueOf val flags).natAbs < 0x100000000 := by
  have fits := val.toNat_lt
  rw [valueOf]
  split
  · rcases Nat.lt_or_ge val.toNat 0x80000000 with low | high
    · rw [int32_eq (by omega) (by omega)]
      omega
    · rw [int32_above (by omega) (by omega)]
      omega
  · omega

/-- The subtraction of the digits from the width wraps below the least `int`. -/
theorem int16_sub {taken : Nat} (low : -0x8000 ≤ width) (high : width < 0x8000)
    (few : taken ≤ 10) :
    int16 (width - taken) =
      if width - taken < -0x8000 then width - taken + 0x10000 else width - taken := by
  rw [int16, Int.bmod_def]
  split <;> split <;> omega

/-- And so does the one for the sign. -/
theorem int16_pred (low : -0x8000 ≤ width) (high : width < 0x8000) :
    int16 (width - 1) = if width = -0x8000 then 0x7fff else width - 1 := by
  rw [int16, Int.bmod_def]
  split <;> split <;> omega

/-- The condition in terms of the paddings. -/
theorem padsWell_iff (low : -0x8000 ≤ width) (high : width < 0x8000)
    (few : (digits value).length ≤ 10) :
    PadsWell flags width value ↔
      (zeros flags value width + spaces flags value width + (numeral value).length : Int) =
          max width (numeral value).length ∧
        (value < 0 → zeros flags value width = 0 ∧ spaces flags value width = 0) := by
  have left := int16_sub low high few
  have all : PadsWell flags width value ↔ _ ∧ _ :=
    ⟨fun well => ⟨well.unwrapped, well.unpadded⟩, fun both => ⟨both.1, both.2⟩⟩
  rw [all, numeral, List.length_append, sign_length, zeros, spaces]
  clear all
  generalize (digits value).length = count at *
  generalize int16 (width - count) = rest at *
  have bounds : -0x8000 ≤ rest ∧ rest < 0x8000 := by
    split at left <;> omega
  have pred := int16_pred bounds.1 bounds.2
  have predMin : int16 (min rest 0 - 1) =
      if min rest 0 = -0x8000 then 0x7fff else min rest 0 - 1 :=
    int16_pred (by omega) (by omega)
  by_cases padded : flags &&& FL_ZEROPAD = 0 <;> by_cases negative : value < 0
  all_goals
    simp only [padded, negative, ne_eq, not_true_eq_false, not_false_eq_true, if_true, if_false,
      true_imp_iff, false_imp_iff, true_and, and_true, pred, predMin]
  · split at left <;> split <;> omega
  · split at left <;> omega
  · split at left <;> split <;> omega
  · split at left <;> omega

/-- What is put out looks as it should if and only if no padding comes near a minus sign. -/
theorem formatted_iff {pad0 pad1 : Nat} {work : List UInt8} (room : work.length ≤ 12)
    (noZeros : flags &&& FL_ZEROPAD = 0 → pad0 = 0)
    (noSpaces : flags &&& FL_ZEROPAD ≠ 0 → ¬ value < 0 → pad1 = 0) :
    Formatted flags width value
        { work := work
          out := List.replicate pad0 (ascii '0') ++ sign value ++
            List.replicate pad1 (ascii ' ') ++ digits value } ↔
      (pad0 + pad1 + (numeral value).length : Int) = max width (numeral value).length ∧
        (value < 0 → pad0 = 0 ∧ pad1 = 0) := by
  have length : (List.replicate pad0 (ascii '0') ++ sign value ++
      List.replicate pad1 (ascii ' ') ++ digits value).length =
        pad0 + pad1 + (numeral value).length := by
    rw [numeral]
    simp only [List.length_append, List.length_replicate]
    omega
  constructor
  · rintro ⟨long, shape, -⟩
    refine ⟨by rw [← long, length]; omega, fun negative => ?_⟩
    have minus : sign value = [ascii '-'] := if_pos negative
    rw [numeral, minus] at shape
    by_cases padded : flags &&& FL_ZEROPAD = 0
    · rw [if_neg (not_not.mpr padded), noZeros padded] at shape
      obtain ⟨pad, same⟩ := shape
      refine ⟨noZeros padded, ?_⟩
      cases pad with
      | zero =>
          have long := congrArg List.length same
          simp at long
          exact long
      | succ pad =>
          -- the sign would have to be a space
          have first := congrArg List.head? same
          rw [List.replicate_succ] at first
          exact absurd (Option.some.inj first) (by decide)
    · rw [if_pos padded] at shape
      obtain ⟨pad, same⟩ := shape
      cases pad0 with
      | succ pad0 =>
          have first := congrArg List.head? same
          rw [List.replicate_succ] at first
          exact absurd (Option.some.inj first) (by decide)
      | zero =>
          refine ⟨rfl, ?_⟩
          cases pad1 with
          | zero => rfl
          | succ pad1 =>
              have long := congrArg List.length same
              have next := congrArg (fun out => out.tail.head?) same
              simp at long
              rw [← long] at next
              exact absurd (Option.some.inj next) (by decide)
  · rintro ⟨long, quiet⟩
    refine ⟨by rw [length]; omega, ?_, room⟩
    by_cases negative : value < 0
    · obtain ⟨rfl, rfl⟩ := quiet negative
      split
      · exact ⟨0, by simp⟩
      · exact ⟨0, by simp [numeral]⟩
    · have plus : sign value = [] := if_neg negative
      rw [numeral, plus]
      split
      · rename_i padded
        rw [noSpaces padded negative]
        exact ⟨pad0, by simp⟩
      · rename_i padded
        rw [noZeros (by omega)]
        exact ⟨pad1, by simp⟩

/-- `print_int` of the C library also returns the number of characters. -/
def Clib.printInt (val : UInt32) (flags : Nat) (width : Int) : Printed × Int :=
  let printed := Printf.printInt val flags width
  (printed, int16 printed.out.length)

/-- Both `print_int` format a number as they should if and only if no padding comes between its
sign and its digits. -/
theorem print_int_formats (low : -0x8000 ≤ width) (high : width < 0x8000) :
    (Formatted flags width (valueOf val flags) (printInt val flags width) ∧
      Formatted flags width (valueOf val flags) (Clib.printInt val flags width).1) ↔
        PadsWell flags width (valueOf val flags) := by
  have few := digits_length (valueOf_small val flags)
  have same : Formatted flags width (valueOf val flags) (printInt val flags width) ↔
      PadsWell flags width (valueOf val flags) := by
    rw [padsWell_iff low high few, printInt_eq]
    apply formatted_iff
    · rw [List.length_append, List.length_singleton]
      omega
    · intro none
      rw [zeros, if_neg (by omega)]
    · intro padded plus
      simp only [spaces, if_pos padded, if_neg plus]
      omega
  exact ⟨fun both => same.mp both.1, fun well => ⟨same.mpr well, same.mpr well⟩⟩

theorem print_int_formats_fits :
    Formatted FL_SIGNED 5 42 (printInt 42 FL_SIGNED 5) ∧
      Formatted FL_SIGNED 5 42 (Clib.printInt 42 FL_SIGNED 5).1 := by
  have value : valueOf 42 FL_SIGNED = 42 := by decide
  have both := @print_int_formats 42 FL_SIGNED 5 (by decide) (by decide)
  rw [value] at both
  exact both.mpr ⟨by decide, fun negative => absurd negative (by decide)⟩

/-- A width of 5 puts the sign of -5 before the padding. -/
theorem print_int_misplaces_sign :
    ¬ ∀ (val : UInt32) (flags : Nat) (width : Int), -0x8000 ≤ width → width < 0x8000 →
      Formatted flags width (valueOf val flags) (printInt val flags width) := by
  intro claim
  have formatted := claim 0xfffffffb FL_SIGNED 5 (by decide) (by decide)
  obtain ⟨pad, same⟩ := formatted.shape
  have out : (printInt 0xfffffffb FL_SIGNED 5).out =
      [ascii '-', ascii ' ', ascii ' ', ascii ' ', ascii '5'] := by
    decide +kernel
  have text : numeral (valueOf 0xfffffffb FL_SIGNED) = [ascii '-', ascii '5'] := by decide +kernel
  rw [out, text] at same
  cases pad with
  | zero => exact absurd (congrArg List.length same) (by decide)
  | succ pad =>
      have first := congrArg List.head? same
      rw [List.replicate_succ] at first
      exact absurd (Option.some.inj first) (by decide)

end Pegasos.Printf
