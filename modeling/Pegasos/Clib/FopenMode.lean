import Mathlib.Data.List.Basic
import Mathlib.Tactic.Common

/-!
# Modes of fopen

`parse_mode` reads the mode string of `fopen` into a flag word, and `fopen` chooses the flags
for `open` from it.  The test behind the loop of `parse_mode` is meant for a plus sign on its
own, but it rejects every mode with a plus sign.
-/

namespace Pegasos.Clib

def FILE_READ : Nat := 0x01
def FILE_WRITE : Nat := 0x02
def FILE_APP : Nat := 0x04
def FILE_PLUS : Nat := 0x20

def O_RDONLY : Nat := 0
def O_WRONLY : Nat := 1
def O_RDWR : Nat := 2
def O_CREAT : Nat := 4
def O_TRUNC : Nat := 8

def ENOMEM : Nat := 2
def EINVAL : Nat := 5
def EMFILE : Nat := 11

/-- The loop of `parse_mode`; `none` is a return of 0 from it. -/
def parseLoop (flags : Nat) : List Char → Option Nat
  | [] => some flags
  | ch :: rest =>
      if ch = 'r' then if flags ≠ 0 then none else parseLoop (flags ||| FILE_READ) rest
      else if ch = 'w' then if flags ≠ 0 then none else parseLoop (flags ||| FILE_WRITE) rest
      else if ch = 'a' then if flags ≠ 0 then none else parseLoop (flags ||| FILE_APP) rest
      else if ch = 'b' then parseLoop flags rest
      else if ch = '+' then parseLoop (flags ||| FILE_PLUS) rest
      else none

/-- `parse_mode` on the characters of a string. -/
def parseMode (mode : List Char) : Nat :=
  match parseLoop 0 mode with
  | none => 0
  | some flags => if flags &&& FILE_PLUS = FILE_PLUS then 0 else flags

/-- What `fopen` finds: an empty entry of `_files`, memory for a buffer, and what `open`
returns for its flags. -/
structure FopenEnv where
  entry : Bool
  buffer : Bool
  openFile : Nat → Int

/-- What `fopen` leaves in the entry of a file. -/
structure OpenFile where
  fd : Int
  flags : Nat
  deriving DecidableEq, Repr

/-- What `fopen` does: the error it sets itself, the flags it calls `open` with, and the file
it returns. -/
structure FopenResult where
  errno : Nat
  calls : List Nat
  file : Option OpenFile
  deriving DecidableEq, Repr

/-- The `switch` of `fopen`: the flags of the file and those for `open`. -/
def fopenSwitch (flags : Nat) : Option (Nat × Nat) :=
  if flags = FILE_READ then some (flags, O_RDONLY)
  else if flags = FILE_READ ||| FILE_PLUS then some (flags ||| FILE_WRITE, O_RDWR)
  else if flags = FILE_WRITE then some (flags, O_WRONLY ||| O_CREAT ||| O_TRUNC)
  else if flags = FILE_WRITE ||| FILE_PLUS then
    some (flags ||| FILE_READ, O_RDWR ||| O_CREAT ||| O_TRUNC)
  else if flags = FILE_APP then some (flags ||| FILE_WRITE, O_WRONLY ||| O_CREAT)
  else if flags = FILE_APP ||| FILE_PLUS then
    some (flags ||| (FILE_READ ||| FILE_WRITE), O_RDWR ||| O_CREAT)
  else none

/-- `fopen`. -/
def fopen (env : FopenEnv) (mode : List Char) : FopenResult :=
  let flags := parseMode mode
  if flags = 0 then ⟨EINVAL, [], none⟩
  else if !env.entry then ⟨EMFILE, [], none⟩
  else if !env.buffer then ⟨ENOMEM, [], none⟩
  else
    match fopenSwitch flags with
    | none => ⟨0, [], none⟩
    | some (flags, oflags) =>
        let fd := env.openFile oflags
        if fd = -1 then ⟨0, [oflags], none⟩ else ⟨0, [oflags], some ⟨fd, flags⟩⟩

/-! ## The grammar of modes -/

/-- The letter that a mode begins with. -/
inductive ModeLetter where
  | r
  | w
  | a
  deriving DecidableEq, Repr

namespace ModeLetter

def char : ModeLetter → Char
  | .r => 'r'
  | .w => 'w'
  | .a => 'a'

def flag : ModeLetter → Nat
  | .r => FILE_READ
  | .w => FILE_WRITE
  | .a => FILE_APP

end ModeLetter

/-- A mode consists of a letter and plus signs, with letters b anywhere. -/
def Means (mode : List Char) (letter : ModeLetter) (plus : Bool) : Prop :=
  ∃ pluses, mode.filter (· ≠ 'b') = letter.char :: List.replicate pluses '+' ∧
    (plus = true ↔ 0 < pluses)

/-- The flags that `parse_mode` is to return. -/
def modeFlags (letter : ModeLetter) (plus : Bool) : Nat :=
  letter.flag ||| if plus then FILE_PLUS else 0

/-- The flags that `open` is to be called with. -/
def accessFlags (letter : ModeLetter) (plus : Bool) : Nat :=
  (if plus then O_RDWR else if letter = .r then O_RDONLY else O_WRONLY) |||
    (if letter = .r then 0 else O_CREAT) ||| if letter = .w then O_TRUNC else 0

/-- The flags of the file that is to be returned. -/
def fileFlags (letter : ModeLetter) (plus : Bool) : Nat :=
  modeFlags letter plus ||| (if letter = .r ∨ plus then FILE_READ else 0) |||
    if letter = .r ∧ plus = false then 0 else FILE_WRITE

/-- `parse_mode` does right by a mode string. -/
def ParsesRight (mode : List Char) : Prop :=
  (parseMode mode ≠ 0 ↔ ∃ letter plus, Means mode letter plus) ∧
    ∀ letter plus, Means mode letter plus → parseMode mode = modeFlags letter plus

/-- `fopen` does right by a mode string, whatever it finds. -/
def OpensRight (mode : List Char) : Prop :=
  ∀ env : FopenEnv,
    ((¬∃ letter plus, Means mode letter plus) → fopen env mode = ⟨EINVAL, [], none⟩) ∧
      ∀ letter plus, Means mode letter plus → env.entry = true → env.buffer = true →
        fopen env mode = ⟨0, [accessFlags letter plus],
          if env.openFile (accessFlags letter plus) = -1 then none
          else some ⟨env.openFile (accessFlags letter plus), fileFlags letter plus⟩⟩

/-! ## What parse_mode accepts -/

/-- Letters b make no difference. -/
theorem parseLoop_filter (flags : Nat) (mode : List Char) :
    parseLoop flags mode = parseLoop flags (mode.filter (· ≠ 'b')) := by
  induction mode generalizing flags with
  | nil => rfl
  | cons ch rest ih =>
      by_cases isB : ch = 'b'
      · subst isB
        rw [List.filter_cons_of_neg (by decide), ← ih]
        rfl
      · rw [List.filter_cons_of_pos (by simpa using isB), parseLoop, parseLoop]
        simp only [isB, if_false, ih]

/-- Behind the letter only plus signs are accepted. -/
theorem parseLoop_some {flags result : Nat} {mode : List Char} (noB : 'b' ∉ mode)
    (nonzero : flags ≠ 0) (parsed : parseLoop flags mode = some result) :
    mode = List.replicate mode.length '+' ∧
      result = if mode = [] then flags else flags ||| FILE_PLUS := by
  induction mode generalizing flags with
  | nil => exact ⟨rfl, (Option.some.inj parsed).symm⟩
  | cons ch rest ih =>
      rw [List.mem_cons, not_or] at noB
      by_cases isPlus : ch = '+'
      · subst isPlus
        have more : flags ||| FILE_PLUS ≠ 0 := by simp [nonzero]
        obtain ⟨pluses, isResult⟩ := ih noB.2 more parsed
        refine ⟨congrArg ('+' :: ·) pluses, ?_⟩
        rw [isResult, if_neg (List.cons_ne_nil _ _), Nat.or_assoc, Nat.or_self, ite_self]
      · simp only [parseLoop, isPlus, Ne.symm noB.1, nonzero, ne_eq, not_false_eq_true, if_true,
          if_false, ite_self, reduceCtorEq] at parsed

theorem parseLoop_replicate (flags pluses : Nat) :
    parseLoop flags (List.replicate pluses '+') =
      some (if pluses = 0 then flags else flags ||| FILE_PLUS) := by
  induction pluses generalizing flags with
  | zero => rfl
  | succ pluses ih =>
      have next : parseLoop flags (List.replicate (pluses + 1) '+') =
          parseLoop (flags ||| FILE_PLUS) (List.replicate pluses '+') := rfl
      rw [next, ih, Nat.or_assoc, Nat.or_self, ite_self]
      rfl

theorem parseLoop_letter (letter : ModeLetter) (rest : List Char) :
    parseLoop 0 (letter.char :: rest) = parseLoop letter.flag rest := by
  cases letter <;> rfl

/-- What `parse_mode` returns for the modes of the grammar. -/
theorem parseMode_of_means {mode : List Char} {letter : ModeLetter} {plus : Bool}
    (means : Means mode letter plus) :
    parseMode mode = if plus then 0 else letter.flag := by
  obtain ⟨pluses, letters, isPlus⟩ := means
  rw [parseMode, parseLoop_filter, letters, parseLoop_letter, parseLoop_replicate]
  cases plus
  · have none : pluses = 0 := by simpa using isPlus
    subst none
    cases letter <;> rfl
  · have some : pluses ≠ 0 := Nat.pos_iff_ne_zero.mp (isPlus.mp rfl)
    rw [if_neg some]
    cases letter <;> rfl

/-- A mode with a result is one of the grammar. -/
theorem means_of_parseMode {mode : List Char} (nonzero : parseMode mode ≠ 0) :
    ∃ letter plus, Means mode letter plus := by
  have noB : 'b' ∉ mode.filter (· ≠ 'b') := by simp
  rw [parseMode, parseLoop_filter] at nonzero
  cases letters : mode.filter (· ≠ 'b') with
  | nil =>
      rw [letters] at nonzero
      exact absurd rfl nonzero
  | cons ch rest =>
      rw [letters] at nonzero noB
      have behind : ∀ {letter : ModeLetter}, ch = letter.char →
          ∃ letter plus, Means mode letter plus := by
        intro letter isChar
        rw [isChar, parseLoop_letter] at nonzero
        have start : letter.flag ≠ 0 := by cases letter <;> decide
        cases parsed : parseLoop letter.flag rest with
        | none => simp [parsed] at nonzero
        | some result =>
            obtain ⟨pluses, -⟩ := parseLoop_some (mt (List.mem_cons_of_mem _) noB) start parsed
            refine ⟨letter, decide (0 < rest.length), rest.length, ?_, decide_eq_true_iff⟩
            rw [letters, isChar, ← pluses]
      by_cases isR : ch = 'r'
      · exact @behind .r isR
      by_cases isW : ch = 'w'
      · exact @behind .w isW
      by_cases isA : ch = 'a'
      · exact @behind .a isA
      by_cases isPlus : ch = '+'
      · subst isPlus
        exfalso
        cases parsed : parseLoop (0 ||| FILE_PLUS) rest with
        | none =>
            simp only [parseLoop, parsed] at nonzero
            exact nonzero rfl
        | some result =>
            obtain ⟨-, isResult⟩ :=
              parseLoop_some (mt (List.mem_cons_of_mem _) noB) (by decide) parsed
            have isPlus : result = FILE_PLUS := by
              rw [isResult]
              split <;> rfl
            simp only [parseLoop, parsed, isPlus] at nonzero
            exact nonzero rfl
      · have isB : ch ≠ 'b' := fun same => noB (same ▸ List.mem_cons_self)
        simp only [parseLoop, isR, isW, isA, isB, isPlus, if_false, ne_eq, not_true_eq_false]
          at nonzero

/-- A mode has one letter, and it has a plus sign or none. -/
theorem Means.unique {mode : List Char} {letter letter' : ModeLetter} {plus plus' : Bool}
    (means : Means mode letter plus) (means' : Means mode letter' plus') :
    letter = letter' ∧ plus = plus' := by
  obtain ⟨pluses, letters, isPlus⟩ := means
  obtain ⟨pluses', letters', isPlus'⟩ := means'
  have same := letters.symm.trans letters'
  rw [List.cons.injEq] at same
  have count : pluses = pluses' := by simpa using congrArg List.length same.2
  refine ⟨?_, Bool.eq_iff_iff.mpr (by rw [isPlus, isPlus', count])⟩
  cases letter <;> cases letter' <;> first | rfl | exact absurd same.1 (by decide)

/-- The mode strings that `parse_mode` and `fopen` do right by: those without a plus sign, and
those that the grammar does not have. -/
theorem fopen_mode_right (mode : List Char) :
    ParsesRight mode ∧ OpensRight mode ↔ ¬∃ letter, Means mode letter true := by
  constructor
  · rintro ⟨⟨accepts, -⟩, -⟩ ⟨letter, means⟩
    refine accepts.mpr ⟨letter, true, means⟩ ?_
    rw [parseMode_of_means means, if_pos rfl]
  · intro noPlus
    have plain : ∀ {letter plus}, Means mode letter plus → plus = false := by
      intro letter plus means
      cases plus
      · rfl
      · exact absurd ⟨letter, means⟩ noPlus
    have parsed : ∀ letter, Means mode letter false → parseMode mode = letter.flag := by
      intro letter means
      rw [parseMode_of_means means]
      rfl
    refine ⟨⟨⟨means_of_parseMode, ?_⟩, ?_⟩, fun env => ⟨?_, ?_⟩⟩
    · rintro ⟨letter, plus, means⟩
      obtain rfl := plain means
      rw [parsed letter means]
      cases letter <;> decide
    · intro letter plus means
      obtain rfl := plain means
      rw [parsed letter means]
      exact (Nat.or_zero _).symm
    · intro none
      have zero : parseMode mode = 0 := by
        by_contra nonzero
        exact none (means_of_parseMode nonzero)
      simp only [fopen, zero, if_true]
    · intro letter plus means entry buffer
      obtain rfl := plain means
      simp only [fopen, parsed letter means, entry, buffer]
      by_cases failed : env.openFile (accessFlags letter false) = -1
      · rw [if_pos failed]
        cases letter <;> exact if_pos failed
      · rw [if_neg failed]
        cases letter <;> exact if_neg failed

/-- The mode "r+" is refused. -/
theorem fopen_mode_r_plus : ¬(ParsesRight ['r', '+'] ∧ OpensRight ['r', '+']) :=
  fun right => right.1.1.mpr ⟨.r, true, 1, rfl, by decide⟩ rfl

/-- Of the six modes of the `switch`, only those without a plus sign are reached. -/
theorem mode_reached_iff (letter : ModeLetter) (plus : Bool) :
    (∃ mode, parseMode mode = modeFlags letter plus) ↔ plus = false := by
  constructor
  · rintro ⟨mode, parsed⟩
    have nonzero : parseMode mode ≠ 0 := by
      rw [parsed]
      cases letter <;> cases plus <;> decide
    obtain ⟨letter', plus', means⟩ := means_of_parseMode nonzero
    rw [parseMode_of_means means] at parsed
    cases plus
    · rfl
    · cases plus' <;> cases letter <;> cases letter' <;> exact absurd parsed (by decide)
  · rintro rfl
    exact ⟨[letter.char], by cases letter <;> rfl⟩

end Pegasos.Clib
