import Pegasos.Printf.Numbers
import Pegasos.Support.Strings

/-!
# Format strings

`vprintf` of the kernel and `printf` of the C library parse a format string alike.  The model
keeps the places of the format that are read, so that it can be said where the parsing stays.
-/

namespace Pegasos.Printf

open Pegasos.Support

/-- The arguments: their bytes, and the strings that near and far pointers lead to. -/
structure VaArgs where
  bytes : Nat → UInt8
  near : UInt16 → List UInt8
  far : UInt32 → List UInt8

namespace VaArgs

variable (args : VaArgs) (va : Nat)

def int : UInt16 := (args.bytes va).toUInt16 + (args.bytes (va + 1)).toUInt16 * 0x100

def long : UInt32 := (args.int va).toUInt32 + (args.int (va + 2)).toUInt32 * 0x10000

/-- The argument of a number and the place behind it; an `int` is extended by its sign. -/
def number (flags : Nat) : UInt32 × Nat :=
  if flags &&& FL_LONG ≠ 0 then (args.long va, va + 4)
  else if flags &&& FL_SIGNED ≠ 0 ∧ 0x8000 ≤ args.int va then
    ((args.int va).toUInt32 + 0xffff0000, va + 2)
  else ((args.int va).toUInt32, va + 2)

end VaArgs

/-- Where the parsing is: `p`, the places of the format that were read, the next argument, the
output and the number of characters that the C library counts. -/
structure State where
  p : Nat
  reads : List Nat
  va : Nat
  out : List UInt8
  wrote : Int

namespace State

variable (s : State)

/-- `*p` -/
def read : State := { s with reads := s.p :: s.reads }

/-- `*++p` -/
def next : State := { s with p := s.p + 1, reads := (s.p + 1) :: s.reads }

/-- `p++` -/
def step : State := { s with p := s.p + 1 }

/-- `pc(ch)` -/
def put (ch : UInt8) : State :=
  { s with out := s.out ++ [ch], wrote := int16 (s.wrote + 1) }

/-- The conversion of one argument. -/
def convert (args : VaArgs) (ch : UInt8) (flags : Nat) (width : Int) : State :=
  if ch = ascii 'd' ∨ ch = ascii 'u' ∨ ch = ascii 'x' ∨ ch = ascii 'p' then
    let (arg, va) := args.number s.va flags
    let printed :=
      if ch = ascii 'u' ∨ ch = ascii 'd' then printInt arg flags width
      else printHex arg (if ch = ascii 'p' then flags ||| FL_PTR else flags) width
    { s with
      va := va
      out := s.out ++ printed.out
      wrote := int16 (s.wrote + printed.out.length) }
  else if ch = ascii 's' then
    if flags &&& FL_LONG ≠ 0 then
      { s with va := s.va + 4, out := s.out ++ args.far (args.long s.va) }
    else { s with va := s.va + 2, out := s.out ++ args.near (args.int s.va) }
  else if ch = ascii 'c' then { s.put (args.bytes s.va) with va := s.va + 2 }
  else s.put ch

end State

def isDigit (ch : UInt8) : Bool := ascii '0' ≤ ch && ch ≤ ascii '9'

section

variable (args : VaArgs) (fmt : Nat → UInt8)

/-- The loop over the digits of a width; the `break` at the NUL only leaves this loop. -/
def widthLoop : Nat → State → Int → Outcome (State × Int)
  | 0, _, _ => .hang
  | fuel + 1, s, width =>
      if isDigit (fmt s.p) then
        let width := if width = -1 then 0 else int16 (width * 10)
        let width := int16 (width + ((fmt s.p).toNat - 0x30))
        let s := s.next
        if fmt s.p = 0 then .ok (s, width) else widthLoop fuel s width
      else .ok (s, width)

/-- A directive behind its width; without a conversion the outer loop is left. -/
def convertAt (s : State) (flags : Nat) (width : Int) : Bool × State :=
  let isLong := fmt s.p = ascii 'l'
  let flags := if isLong then flags ||| FL_LONG else flags
  let s := if isLong then s.next else s
  if isLong ∧ fmt s.p = 0 then (false, s)
  else
    let flags := if fmt s.p = ascii 'd' then flags ||| FL_SIGNED else flags
    (true, s.convert args (fmt s.p) flags width)

/-- The loop over the format. -/
def formatLoop : Nat → State → Outcome State
  | 0, _ => .hang
  | fuel + 1, s =>
      let s := s.read
      if fmt s.p = 0 then .ok s
      else if fmt s.p ≠ ascii '%' then formatLoop fuel (s.put (fmt s.p)).step
      else
        let s := s.next
        if fmt s.p = 0 then .ok s
        else
          let zero := fmt s.p = ascii '0'
          let s := if zero then s.next else s
          if zero ∧ fmt s.p = 0 then .ok s
          else
            (widthLoop fmt fuel s (-1)).bind fun (s, width) =>
              match convertAt args fmt s (if zero then FL_ZEROPAD else 0) width with
              | (true, s) => formatLoop fuel s.step
              | (false, s) => .ok s

end

/-- `vprintf` of the kernel. -/
def vprintf (fuel : Nat) (args : VaArgs) (fmt : Nat → UInt8) : Outcome State :=
  formatLoop args fmt fuel ⟨0, [], 0, [], 0⟩

/-- `printf` of the C library, which returns the number of characters. -/
def printf (fuel : Nat) (args : VaArgs) (fmt : Nat → UInt8) : Outcome (State × Int) :=
  (formatLoop args fmt fuel ⟨0, [], 0, [], 0⟩).bind fun s => .ok (s, s.wrote)

/-- A text behind a character that may stand in front of it. -/
def past (ch : Char) : List UInt8 → List UInt8
  | [] => []
  | first :: rest => if first = ascii ch then rest else first :: rest

theorem past_length (ch : Char) (text : List UInt8) : (past ch text).length ≤ text.length := by
  cases text with
  | nil => exact le_refl _
  | cons first rest =>
      rw [past]
      split
      · exact Nat.le_succ _
      · exact le_refl _

/-- A format that ends within the width of a directive. -/
def cutInWidth : List UInt8 → Bool
  | [] => false
  | ch :: rest =>
      if ch ≠ ascii '%' then cutInWidth rest
      else
        let width := past '0' rest
        if width.dropWhile isDigit = [] then width ≠ []
        else cutInWidth ((past 'l' (width.dropWhile isDigit)).drop 1)
termination_by text => text.length
decreasing_by
  · exact Nat.lt_succ_self _
  · have noZero := past_length '0' rest
    have noDigits := (List.dropWhile_suffix isDigit (l := past '0' rest)).length_le
    have noLong := past_length 'l' ((past '0' rest).dropWhile isDigit)
    rw [List.length_drop, List.length_cons]
    omega

variable {args : VaArgs} {fmt : Nat → UInt8} {s after : State} {bound fuel : Nat}
variable {rest : List UInt8}

@[simp] theorem State.put_p (ch : UInt8) : (s.put ch).p = s.p := rfl

@[simp] theorem State.put_reads (ch : UInt8) : (s.put ch).reads = s.reads := rfl

/-- A conversion reads nothing of the format. -/
@[simp] theorem State.convert_p (ch : UInt8) (flags : Nat) (width : Int) :
    (s.convert args ch flags width).p = s.p := by
  unfold State.convert
  split_ifs <;> rfl

@[simp] theorem State.convert_reads (ch : UInt8) (flags : Nat) (width : Int) :
    (s.convert args ch flags width).reads = s.reads := by
  unfold State.convert
  split_ifs <;> rfl

/-- What is read between two states lies up to `bound`. -/
structure ReadsTo (bound : Nat) (s after : State) : Prop where
  kept : s.reads ⊆ after.reads
  inside : ∀ a ∈ after.reads, a ∈ s.reads ∨ a ≤ bound

namespace ReadsTo

theorem of_eq (same : after.reads = s.reads) : ReadsTo bound s after where
  kept := by rw [same]; exact List.Subset.refl _
  inside := by
    intro a member
    rw [same] at member
    exact .inl member

theorem cons {place : Nat} (low : place ≤ bound) (same : after.reads = place :: s.reads) :
    ReadsTo bound s after where
  kept := by rw [same]; exact List.subset_cons_self _ _
  inside := by
    intro a member
    rw [same, List.mem_cons] at member
    rcases member with rfl | member
    · exact .inr low
    · exact .inl member

theorem trans {mid : State} (first : ReadsTo bound s mid) (second : ReadsTo bound mid after) :
    ReadsTo bound s after where
  kept := List.Subset.trans first.kept second.kept
  inside := by
    intro a member
    rcases second.inside a member with member | low
    · exact first.inside a member
    · exact .inr low

end ReadsTo

theorem isDigit_zero : isDigit 0 = false := by decide

/-- The digits of a width are passed, up to the NUL and no further. -/
theorem widthLoop_passes (string : StringAt fmt s.p rest) (enough : rest.length < fuel)
    (width : Int) :
    ∃ after next, widthLoop fmt fuel s width = .ok (after, next) ∧
      after.p = s.p + (rest.takeWhile isDigit).length ∧ ReadsTo after.p s after := by
  induction rest generalizing s fuel width with
  | nil =>
      obtain ⟨fuel, rfl⟩ := Nat.exists_eq_succ_of_ne_zero (by omega : fuel ≠ 0)
      have here : fmt s.p = 0 := string
      refine ⟨s, width, ?_, rfl, .of_eq rfl⟩
      rw [widthLoop, here, if_neg (by decide)]
  | cons ch rest ih =>
      obtain ⟨fuel, rfl⟩ := Nat.exists_eq_succ_of_ne_zero (by omega : fuel ≠ 0)
      obtain ⟨here, -, behind⟩ := string
      rw [widthLoop, here]
      by_cases digit : isDigit ch = true
      · rw [if_pos digit, List.takeWhile_cons_of_pos digit, List.length_cons]
        have read : ReadsTo (s.p + 1) s s.next := .cons (le_refl _) rfl
        cases rest with
        | nil =>
            have ended : fmt s.next.p = 0 := behind
            rw [if_pos ended]
            exact ⟨_, _, rfl, rfl, read⟩
        | cons next rest =>
            rw [if_neg (show fmt s.next.p ≠ 0 from behind.nonzero)]
            simp only [List.length_cons] at enough
            obtain ⟨after, width, run, place, reads⟩ :=
              ih (s := s.next) behind (by rw [List.length_cons]; omega : _ < fuel) _
            have ahead : s.next.p = s.p + 1 := rfl
            refine ⟨after, width, run, by omega, ?_⟩
            exact .trans (.cons (by omega) rfl) reads
      · rw [if_neg digit, List.takeWhile_cons_of_neg digit]
        exact ⟨s, width, rfl, rfl, .of_eq rfl⟩

theorem convertAt_plain (flags : Nat) (width : Int) (plain : fmt s.p ≠ ascii 'l') :
    convertAt args fmt s flags width =
      (true, s.convert args (fmt s.p)
        (if fmt s.p = ascii 'd' then flags ||| FL_SIGNED else flags) width) := by
  simp only [convertAt, plain, if_false, false_and]

theorem convertAt_long (flags : Nat) (width : Int) (long : fmt s.p = ascii 'l') :
    convertAt args fmt s flags width =
      if fmt s.next.p = 0 then (false, s.next)
      else (true, s.next.convert args (fmt s.next.p)
        (if fmt s.next.p = ascii 'd' then flags ||| FL_LONG ||| FL_SIGNED else flags ||| FL_LONG)
        width) := by
  simp only [convertAt, long, if_true, true_and]

/-- A directive with its conversion, or one that ends behind its `l`. -/
theorem convertAt_conversion {ch : UInt8} {more : List UInt8} (flags : Nat) (width : Int)
    (string : StringAt fmt s.p (ch :: more)) :
    ∃ after, convertAt args fmt s flags width =
        (decide (past 'l' (ch :: more) ≠ []), after) ∧
      StringAt fmt after.p (past 'l' (ch :: more)) ∧
      after.p + (past 'l' (ch :: more)).length = s.p + (ch :: more).length ∧
      ReadsTo after.p s after := by
  have here := string.1
  by_cases isLong : ch = ascii 'l'
  · have behind : StringAt fmt s.next.p more := string.2.2
    have ahead : s.next.p = s.p + 1 := rfl
    have read : ReadsTo s.next.p s s.next := .cons (le_refl _) rfl
    rw [convertAt_long flags width (here.trans isLong), past, if_pos isLong, List.length_cons]
    cases more with
    | nil =>
        rw [if_pos (show fmt s.next.p = 0 from behind)]
        exact ⟨_, rfl, behind, by rw [List.length_nil]; omega, read⟩
    | cons next more =>
        rw [if_neg behind.nonzero]
        refine ⟨_, rfl, ?_, ?_, ?_⟩
        · rwa [State.convert_p]
        · rw [State.convert_p]
          omega
        · rw [State.convert_p]
          exact .trans read (.of_eq (State.convert_reads ..))
  · rw [convertAt_plain flags width (by rwa [here]), past, if_neg isLong]
    refine ⟨_, rfl, ?_, ?_, ?_⟩
    · rwa [State.convert_p]
    · rw [State.convert_p]
    · exact .of_eq (State.convert_reads ..)

/-- One round of the loop over a format: it ends, it goes on with the rest of the format, or it
passes the NUL of a format that ends within a width. -/
inductive Round (args : VaArgs) (fmt : Nat → UInt8) (fuel : Nat) (s : State) (rest : List UInt8) :
    Prop where
  | ends {after : State} (run : formatLoop args fmt (fuel + 1) s = .ok after)
      (reads : ReadsTo (s.p + rest.length) s after) (whole : cutInWidth rest = false)
  | goesOn {after : State} {more : List UInt8}
      (run : formatLoop args fmt (fuel + 1) s = formatLoop args fmt fuel after)
      (reads : ReadsTo (s.p + rest.length) s after) (string : StringAt fmt after.p more)
      (place : after.p + more.length = s.p + rest.length) (shorter : more.length < rest.length)
      (same : cutInWidth rest = cutInWidth more)
  | passes {after : State}
      (run : formatLoop args fmt (fuel + 1) s = formatLoop args fmt fuel after)
      (place : after.p = s.p + rest.length + 1) (cut : cutInWidth rest = true)

theorem cutInWidth_char {ch : UInt8} {more : List UInt8} (plain : ch ≠ ascii '%') :
    cutInWidth (ch :: more) = cutInWidth more := by
  rw [cutInWidth, if_pos plain]

theorem cutInWidth_directive (more : List UInt8) :
    cutInWidth (ascii '%' :: more) =
      if (past '0' more).dropWhile isDigit = [] then decide (past '0' more ≠ [])
      else cutInWidth ((past 'l' ((past '0' more).dropWhile isDigit)).drop 1) := by
  rw [cutInWidth, if_neg (not_not.mpr rfl)]

/-- The state behind the percent sign and the flag of a directive. -/
def State.flagged (s : State) (fmt : Nat → UInt8) : State :=
  if fmt s.read.next.p = ascii '0' then s.read.next.next else s.read.next

/-- A directive from its width on. -/
theorem formatLoop_directive {more : List UInt8} (string : StringAt fmt s.p (ascii '%' :: more)) :
    ∃ flags, formatLoop args fmt (fuel + 1) s =
      if past '0' more = [] then .ok (s.flagged fmt)
      else (widthLoop fmt fuel (s.flagged fmt) (-1)).bind fun (s, width) =>
        match convertAt args fmt s flags width with
        | (true, s) => formatLoop args fmt fuel s.step
        | (false, s) => .ok s := by
  refine ⟨if fmt s.read.next.p = ascii '0' then FL_ZEROPAD else 0, ?_⟩
  have percent : fmt s.read.p = ascii '%' := string.1
  have behind : StringAt fmt s.read.next.p more := string.2.2
  rw [formatLoop]
  dsimp only
  rw [percent, if_neg (by decide), if_neg (by decide)]
  cases more with
  | nil =>
      have ended : fmt s.read.next.p = 0 := behind
      have same : s.flagged fmt = s.read.next := by
        rw [State.flagged, ended, if_neg (by decide)]
      rw [if_pos ended, past, if_pos rfl, same]
  | cons next more =>
      rw [if_neg behind.nonzero, past]
      by_cases zero : next = ascii '0'
      · have flag : fmt s.read.next.p = ascii '0' := behind.1.trans zero
        have same : s.flagged fmt = s.read.next.next := if_pos flag
        simp only [if_pos zero, flag, if_true, true_and, same]
        cases more with
        | nil => rw [if_pos (show fmt s.read.next.next.p = 0 from behind.2.2), if_pos rfl]
        | cons digit more =>
            have text : StringAt fmt s.read.next.next.p (digit :: more) := behind.2.2
            rw [if_neg text.nonzero, if_neg (List.cons_ne_nil _ _)]
      · have flag : ¬ fmt s.read.next.p = ascii '0' := by rwa [behind.1]
        have same : s.flagged fmt = s.read.next := if_neg flag
        simp only [if_neg zero, flag, if_false, false_and, same]
        rw [if_neg (List.cons_ne_nil _ _)]

theorem flagged_string {ch : UInt8} {more : List UInt8}
    (string : StringAt fmt s.p (ch :: more)) :
    StringAt fmt (s.flagged fmt).p (past '0' more) ∧
      (s.flagged fmt).p + (past '0' more).length = s.p + (ch :: more).length ∧
      ReadsTo (s.flagged fmt).p s (s.flagged fmt) := by
  have behind : StringAt fmt s.read.next.p more := string.2.2
  have first : ReadsTo s.read.next.p s s.read.next :=
    .trans (.cons (Nat.le_succ s.p) rfl) (.cons (le_refl _) rfl)
  have ahead : s.read.next.p = s.p + 1 := rfl
  rw [List.length_cons]
  cases more with
  | nil =>
      have ended : fmt s.read.next.p = 0 := behind
      rw [State.flagged, ended, if_neg (by decide)]
      exact ⟨behind, by rw [ahead, past, List.length_nil], first⟩
  | cons next more =>
      rw [State.flagged, past, behind.1]
      by_cases zero : next = ascii '0'
      · rw [if_pos zero, if_pos zero]
        refine ⟨behind.2.2, ?_, .trans ⟨first.kept, ?_⟩ (.cons (le_refl _) rfl)⟩
        · have place : s.read.next.next.p = s.p + 2 := rfl
          rw [place, List.length_cons]
          omega
        · intro a member
          exact (first.inside a member).imp id fun low => Nat.le_succ_of_le low
      · rw [if_neg zero, if_neg zero]
        exact ⟨behind, by rw [ahead]; omega, first⟩

theorem ReadsTo.mono {less : Nat} (reads : ReadsTo less s after) (le : less ≤ bound) :
    ReadsTo bound s after :=
  ⟨reads.kept, fun a member => (reads.inside a member).imp id fun low => Nat.le_trans low le⟩

theorem formatLoop_round_directive {more : List UInt8}
    (string : StringAt fmt s.p (ascii '%' :: more)) (enough : (ascii '%' :: more).length < fuel) :
    Round args fmt fuel s (ascii '%' :: more) := by
  obtain ⟨flags, run⟩ : ∃ flags, formatLoop args fmt (fuel + 1) s = _ :=
    formatLoop_directive string
  obtain ⟨body, place, reads⟩ := flagged_string string
  have cut := cutInWidth_directive more
  have moreLength : (ascii '%' :: more).length = more.length + 1 := List.length_cons
  have noLonger := past_length '0' more
  by_cases empty : past '0' more = []
  · rw [if_pos empty] at run
    rw [empty] at cut place
    rw [List.length_nil] at place
    exact .ends run (reads.mono (by omega)) cut
  · rw [if_neg empty] at run
    obtain ⟨wide, width, loop, moved, digits⟩ :=
      widthLoop_passes body (show (past '0' more).length < fuel by omega) (-1)
    have split : (past '0' more).takeWhile isDigit ++ (past '0' more).dropWhile isDigit =
      past '0' more := List.takeWhile_append_dropWhile
    have count := congrArg List.length split
    rw [List.length_append] at count
    have behind : StringAt fmt wide.p ((past '0' more).dropWhile isDigit) := by
      rw [moved]
      apply StringAt.drop
      rwa [split]
    rw [loop, Outcome.bind_ok] at run
    have far : ReadsTo (s.p + (ascii '%' :: more).length) s wide :=
      (reads.mono (by omega)).trans (digits.mono (by omega))
    cases tail : (past '0' more).dropWhile isDigit with
    | nil =>
        rw [tail] at behind cut count
        have ended : fmt wide.p = 0 := behind
        dsimp only at run
        rw [convertAt_plain flags width (by rw [ended]; decide)] at run
        refine .passes run ?_ (cut.trans (by rw [if_pos rfl, decide_eq_true empty]))
        show (State.convert ..).p + 1 = _
        rw [State.convert_p]
        rw [List.length_nil] at count
        omega
    | cons ch rest =>
        rw [tail] at behind cut count
        obtain ⟨last, conversion, left, lastPlace, seen⟩ :
            ∃ after, convertAt args fmt wide flags width = _ ∧ _ :=
          convertAt_conversion flags width behind
        dsimp only at run
        rw [conversion] at run
        rw [if_neg (List.cons_ne_nil _ _)] at cut
        have all : ReadsTo (s.p + (ascii '%' :: more).length) s last :=
          far.trans (seen.mono (by omega))
        cases word : past 'l' (ch :: rest) with
        | nil =>
            rw [word] at run cut
            exact .ends run all (cut.trans (by rw [List.drop_nil, cutInWidth]))
        | cons conversion later =>
            have noLong := past_length 'l' (ch :: rest)
            rw [word] at run cut left lastPlace noLong
            have next : last.step.p = last.p + 1 := rfl
            have behind : StringAt fmt last.step.p later := left.2.2
            rw [List.length_cons] at lastPlace noLong
            exact .goesOn run (all.trans (.of_eq rfl)) behind (by omega) (by omega) cut

theorem formatLoop_round (string : StringAt fmt s.p rest) (enough : rest.length < fuel) :
    Round args fmt fuel s rest := by
  cases rest with
  | nil =>
      have run : formatLoop args fmt (fuel + 1) s = .ok s.read := by
        rw [formatLoop]
        exact if_pos (show fmt s.read.p = 0 from string)
      exact .ends run (.cons (Nat.le_add_right _ _) rfl) (by rw [cutInWidth])
  | cons ch more =>
      by_cases percent : ch = ascii '%'
      · subst percent
        exact formatLoop_round_directive string enough
      · have run : formatLoop args fmt (fuel + 1) s =
            formatLoop args fmt fuel (s.read.put ch).step := by
          have here : fmt s.read.p = ch := string.1
          rw [formatLoop]
          dsimp only
          rw [here, if_neg string.2.1, if_pos percent]
        have ahead : (s.read.put ch).step.p = s.p + 1 := rfl
        have behind : StringAt fmt (s.read.put ch).step.p more := string.2.2
        refine .goesOn run (.cons (Nat.le_add_right _ _) rfl) behind ?_ (Nat.lt_succ_self _)
          (cutInWidth_char percent)
        rw [ahead, List.length_cons]
        omega

/-- A format that does not end within a width is read up to its NUL only. -/
theorem formatLoop_inside (string : StringAt fmt s.p rest) (enough : rest.length + 1 < fuel)
    (whole : cutInWidth rest = false) :
    ∃ after, formatLoop args fmt fuel s = .ok after ∧
      ReadsTo (s.p + rest.length) s after := by
  induction fuel generalizing s rest with
  | zero => omega
  | succ fuel ih =>
      cases (formatLoop_round string (by omega) : Round args fmt fuel s rest) with
      | ends run reads => exact ⟨_, run, reads⟩
      | goesOn run reads behind place shorter same =>
          obtain ⟨after, later, seen⟩ := ih behind (by omega) (same.symm.trans whole)
          rw [place] at seen
          exact ⟨after, run.trans later, reads.trans seen⟩
      | passes _ _ cut =>
          rw [whole] at cut
          cases cut

theorem widthLoop_reads {width last : Int}
    (run : widthLoop fmt fuel s width = .ok (after, last)) : s.reads ⊆ after.reads := by
  induction fuel generalizing s width with
  | zero => cases run
  | succ fuel ih =>
      have seen : s.reads ⊆ s.next.reads := List.subset_cons_self _ _
      rw [widthLoop] at run
      dsimp only at run
      by_cases digit : isDigit (fmt s.p) = true
      · rw [if_pos digit] at run
        by_cases ended : fmt s.next.p = 0
        · rw [if_pos ended] at run
          cases run
          exact seen
        · rw [if_neg ended] at run
          exact List.Subset.trans seen (ih run)
      · rw [if_neg digit] at run
        cases run
        exact List.Subset.refl _

theorem convertAt_reads {flags : Nat} {width : Int} {more : Bool}
    (run : convertAt args fmt s flags width = (more, after)) : s.reads ⊆ after.reads := by
  have seen : s.reads ⊆ s.next.reads := List.subset_cons_self _ _
  have same : (convertAt args fmt s flags width).2 = after := by rw [run]
  rw [← same]
  by_cases isLong : fmt s.p = ascii 'l'
  · rw [convertAt_long flags width isLong]
    split
    · exact seen
    · rwa [State.convert_reads]
  · rw [convertAt_plain flags width isLong, State.convert_reads]
    exact List.Subset.refl _

/-- What was read stays read, and every round reads the format at `p`. -/
theorem formatLoop_reads (run : formatLoop args fmt fuel s = .ok after) :
    s.p :: s.reads ⊆ after.reads := by
  induction fuel generalizing s with
  | zero => cases run
  | succ fuel ih =>
      have later (mid : State) (seen : s.read.reads ⊆ mid.reads)
          (run : formatLoop args fmt fuel mid = .ok after) : s.p :: s.reads ⊆ after.reads :=
        List.Subset.trans seen (List.Subset.trans (List.subset_cons_self _ _) (ih run))
      have next : s.read.reads ⊆ s.read.next.reads := List.subset_cons_self _ _
      have flagged : s.read.reads ⊆
          (if fmt s.read.next.p = ascii '0' then s.read.next.next else s.read.next).reads := by
        split
        · exact List.Subset.trans next (List.subset_cons_self _ _)
        · exact next
      rw [formatLoop] at run
      dsimp only at run
      by_cases ended : fmt s.read.p = 0
      · rw [if_pos ended] at run
        cases run
        exact List.Subset.refl _
      rw [if_neg ended] at run
      by_cases plain : fmt s.read.p ≠ ascii '%'
      · rw [if_pos plain] at run
        exact later (s.read.put _).step (List.Subset.refl _) run
      rw [if_neg plain] at run
      by_cases early : fmt s.read.next.p = 0
      · rw [if_pos early] at run
        cases run
        exact next
      rw [if_neg early] at run
      generalize (if fmt s.read.next.p = ascii '0' then s.read.next.next else s.read.next) = mid
        at run flagged
      split at run
      · cases run
        exact flagged
      · obtain ⟨⟨wide, width⟩, loop, run⟩ := Outcome.bind_eq_ok.mp run
        have digits := List.Subset.trans flagged (widthLoop_reads loop)
        dsimp only at run
        split at run
        all_goals
          rename_i last conversion
          have seen := List.Subset.trans digits (convertAt_reads conversion)
        · exact later last.step seen run
        · cases run
          exact seen

/-- A format that ends within a width is read behind its NUL. -/
theorem formatLoop_outside (string : StringAt fmt s.p rest) (enough : rest.length + 1 < fuel)
    (cut : cutInWidth rest = true) (run : formatLoop args fmt fuel s = .ok after) :
    s.p + rest.length + 1 ∈ after.reads := by
  induction fuel generalizing s rest with
  | zero => omega
  | succ fuel ih =>
      cases (formatLoop_round string (by omega) : Round args fmt fuel s rest) with
      | ends _ _ whole =>
          rw [whole] at cut
          cases cut
      | goesOn same _ behind place shorter still =>
          rw [← place]
          exact ih behind (by omega) (still.symm.trans cut) (same.symm.trans run)
      | passes same place =>
          rw [← place]
          exact formatLoop_reads (same.symm.trans run) List.mem_cons_self

/-- A run that returns and reads no place of the format behind `bound`. -/
def StaysInside (bound : Nat) (run : Outcome State) : Prop :=
  ∃ after, run = .ok after ∧ ∀ a ∈ after.reads, a ≤ bound

theorem staysInside_iff {text : List UInt8} {wrote : Int} {va : Nat} {out : List UInt8}
    (string : StringAt fmt 0 text) (enough : text.length + 1 < fuel) :
    StaysInside text.length (formatLoop args fmt fuel ⟨0, [], va, out, wrote⟩) ↔
      cutInWidth text = false := by
  have start : StringAt fmt (State.mk 0 [] va out wrote).p text := string
  constructor
  · rintro ⟨after, run, inside⟩
    cases cut : cutInWidth text with
    | false => rfl
    | true =>
        have outside := inside _ (formatLoop_outside start enough cut run)
        have first : (State.mk 0 [] va out wrote).p = 0 := rfl
        omega
  · intro whole
    obtain ⟨after, run, reads⟩ := formatLoop_inside start enough whole
    refine ⟨after, run, fun a member => ?_⟩
    rcases reads.inside a member with none | low
    · cases none
    · rwa [Nat.zero_add] at low

/-- `vprintf` and `printf` return and read nothing behind the NUL of a format, if and only if the
format does not end within the width of a directive. -/
theorem format_inside {text : List UInt8} (string : StringAt fmt 0 text)
    (enough : text.length + 1 < fuel) :
    (StaysInside text.length (vprintf fuel args fmt) ∧
      StaysInside text.length ((printf fuel args fmt).bind fun result => .ok result.1)) ↔
        cutInWidth text = false := by
  have same : ((printf fuel args fmt).bind fun result => .ok result.1) = vprintf fuel args fmt := by
    rw [printf, vprintf]
    cases formatLoop args fmt fuel ⟨0, [], 0, [], 0⟩ <;> rfl
  rw [same, and_self]
  exact staysInside_iff string enough

theorem format_inside_decimal :
    StaysInside 3 (vprintf 5 ⟨fun _ => 7, fun _ => [], fun _ => []⟩ fun a =>
        [ascii '%', ascii '5', ascii 'd'].getD a 0) ∧
      StaysInside 3 ((printf 5 ⟨fun _ => 7, fun _ => [], fun _ => []⟩ fun a =>
        [ascii '%', ascii '5', ascii 'd'].getD a 0).bind fun result => .ok result.1) :=
  (format_inside (show StringAt _ 0 [ascii '%', ascii '5', ascii 'd'] by decide)
    (by decide)).mpr (by decide +kernel)

/-- A format that is a percent sign and a digit is read behind its NUL. -/
theorem format_not_inside :
    ¬ ∀ (args : VaArgs) (fmt : Nat → UInt8) (text : List UInt8) (fuel : Nat),
      StringAt fmt 0 text → text.length + 1 < fuel →
        StaysInside text.length (vprintf fuel args fmt) := by
  intro claim
  have inside := claim ⟨fun _ => 0, fun _ => [], fun _ => []⟩
    (fun a => [ascii '%', ascii '5'].getD a 0) [ascii '%', ascii '5'] 4 (by decide) (by decide)
  have cut : cutInWidth [ascii '%', ascii '5'] = true := by decide +kernel
  rw [vprintf, staysInside_iff (by decide) (by decide), cut] at inside
  cases inside

end Pegasos.Printf
