import Pegasos.Support.Strings

/-!
# Words of a shell line

`parse` of `MAIN.C` splits a line into words in place: the byte that ends a word becomes its
NUL.  The reference splitter works on the bytes of the line.
-/

namespace Pegasos.Shell

open Pegasos.Support
open Function (update)

def CT_SPACE : UInt8 := 0x01
def CT_LOWER : UInt8 := 0x02
def CT_UPPER : UInt8 := 0x04
def CT_DIGIT : UInt8 := 0x08
def CT_PRINT : UInt8 := 0x10
def CT_XDIGIT : UInt8 := 0x20
def CT_CNTRL : UInt8 := 0x40

/-- `_ct_attr`, the table of the C library. -/
def ctAttr (ch : UInt8) : UInt8 :=
  if ch < 0x20 then
    if 0x09 ≤ ch ∧ ch ≤ 0x0d then CT_CNTRL ||| CT_SPACE else CT_CNTRL
  else if ch = 0x20 then CT_SPACE
  else if 0x30 ≤ ch ∧ ch ≤ 0x39 then CT_PRINT ||| CT_DIGIT ||| CT_XDIGIT
  else if 0x41 ≤ ch ∧ ch ≤ 0x46 then CT_PRINT ||| CT_UPPER ||| CT_XDIGIT
  else if 0x47 ≤ ch ∧ ch ≤ 0x5a then CT_PRINT ||| CT_UPPER
  else if 0x61 ≤ ch ∧ ch ≤ 0x66 then CT_PRINT ||| CT_LOWER ||| CT_XDIGIT
  else if 0x67 ≤ ch ∧ ch ≤ 0x7a then CT_PRINT ||| CT_LOWER
  else if ch < 0x7f then CT_PRINT
  else if ch = 0x7f then CT_CNTRL
  else 0

def isspace (ch : UInt8) : Bool := ctAttr ch &&& CT_SPACE ≠ 0

/-- A single or a double quote. -/
def isQuote (ch : UInt8) : Bool := ch = 0x27 || ch = 0x22

/-- What `parse` has written: the memory of the line, the vector and the number of words. -/
structure Words where
  mem : Nat → UInt8
  argv : Nat → Option Nat
  arg : Nat

/-- `argv[arg++] = p;` -/
def Words.push (words : Words) (p : Nat) : Words :=
  { words with argv := update words.argv words.arg (some p), arg := words.arg + 1 }

/-- `*p = 0;` -/
def Words.cut (words : Words) (p : Nat) : Words := { words with mem := update words.mem p 0 }

/-- Whether the inner loop passes a byte of a word that began with `quote`, or without one. -/
def inWord (quote ch : UInt8) : Bool :=
  if quote ≠ 0 then ch ≠ 0 && ch ≠ quote else ch ≠ 0 && !isspace ch

/-- The loop of `parse`. -/
def parseLoop (maxargc : Nat) : Nat → Words → Nat → Outcome Words
  | 0, _, _ => .hang
  | fuel + 1, words, p =>
      if words.mem p = 0 then .ok words
      else
        (skip words.mem isspace fuel p).bind fun p =>
          if words.mem p = 0 then .ok words
          else
            let quote := if isQuote (words.mem p) then words.mem p else 0
            let p := if isQuote (words.mem p) then p + 1 else p
            let words := words.push p
            (skip words.mem (inWord quote) fuel p).bind fun p =>
              if words.mem p = 0 then .ok words
              else
                let words := words.cut p
                if words.arg = maxargc - 1 then .ok words
                else parseLoop maxargc fuel words (p + 1)

/-- `parse`: what it has written, with the number of words that it returns. -/
def parse (fuel : Nat) (mem : Nat → UInt8) (line maxargc : Nat) (argv : Nat → Option Nat) :
    Outcome Words :=
  (parseLoop maxargc fuel ⟨mem, argv, 0⟩ line).bind fun words =>
    .ok { words with argv := update words.argv words.arg none }

/-- The words of a line.  White space separates them; one that begins with a quote runs to the
next same quote, or to the end of the line, and the quotes do not belong to it. -/
def tokens (line : List UInt8) : List (List UInt8) :=
  match _found : line.dropWhile isspace with
  | [] => []
  | ch :: rest =>
      if isQuote ch then
        rest.takeWhile (· ≠ ch) :: tokens ((rest.dropWhile (· ≠ ch)).drop 1)
      else
        (ch :: rest.takeWhile (!isspace ·)) :: tokens (rest.dropWhile (!isspace ·))
termination_by line.length
decreasing_by
  all_goals
    have shorter := (List.dropWhile_suffix isspace (l := line)).length_le
    rw [_found, List.length_cons] at shorter
  · have dropped := (List.dropWhile_suffix (· ≠ ch) (l := rest)).length_le
    rw [List.length_drop]
    omega
  · have dropped := (List.dropWhile_suffix (!isspace ·) (l := rest)).length_le
    omega

variable {mem : Nat → UInt8} {p maxargc fuel : Nat} {rest : List UInt8} {words : Words}

theorem tokens_none (none : rest.dropWhile isspace = []) : tokens rest = [] := by
  rw [tokens]
  split
  · rfl
  · rename_i found
    rw [none] at found
    cases found

theorem tokens_quoted {ch : UInt8} {more : List UInt8} (found : rest.dropWhile isspace = ch :: more)
    (quoted : isQuote ch = true) :
    tokens rest = more.takeWhile (· ≠ ch) :: tokens ((more.dropWhile (· ≠ ch)).drop 1) := by
  rw [tokens]
  split
  · rename_i none
    rw [none] at found
    cases found
  · rename_i same
    rw [same] at found
    cases found
    rw [if_pos quoted]

theorem tokens_plain {ch : UInt8} {more : List UInt8} (found : rest.dropWhile isspace = ch :: more)
    (plain : isQuote ch = false) :
    tokens rest =
      (ch :: more.takeWhile (!isspace ·)) :: tokens (more.dropWhile (!isspace ·)) := by
  rw [tokens]
  split
  · rename_i none
    rw [none] at found
    cases found
  · rename_i same
    rw [same] at found
    cases found
    rw [if_neg (by rw [plain]; decide)]

theorem tokens_space {ch : UInt8} (space : isspace ch = true) :
    tokens (ch :: rest) = tokens rest := by
  have same : (ch :: rest).dropWhile isspace = rest.dropWhile isspace :=
    List.dropWhile_cons_of_pos space
  cases found : rest.dropWhile isspace with
  | nil => rw [tokens_none (same.trans found), tokens_none found]
  | cons next more =>
      cases kind : isQuote next with
      | true => rw [tokens_quoted (same.trans found) kind, tokens_quoted found kind]
      | false => rw [tokens_plain (same.trans found) kind, tokens_plain found kind]

/-- The white space that ended a word belongs to no word. -/
theorem tokens_behind :
    tokens ((rest.dropWhile (!isspace ·)).drop 1) = tokens (rest.dropWhile (!isspace ·)) := by
  have first := List.head?_dropWhile_not (!isspace ·) rest
  cases behind : rest.dropWhile (!isspace ·) with
  | nil => rfl
  | cons ch more =>
      rw [behind] at first
      have space : isspace ch = true := by simpa using first
      exact (tokens_space space).symm

theorem isspace_zero : isspace 0 = false := by decide

theorem inWord_zero (quote : UInt8) : inWord quote 0 = false := by
  unfold inWord
  split <;> rfl

/-- What the loop does behind the last byte of a word, at the rest `behind`. -/
def parseNext (maxargc fuel : Nat) (words : Words) (p : Nat) : List UInt8 → Outcome Words
  | [] => .ok words
  | _ :: _ =>
      if words.arg = maxargc - 1 then .ok (words.cut p)
      else parseLoop maxargc fuel (words.cut p) (p + 1)

/-- The next word of a rest: its bytes and what is behind them, where the byte behind a word
belongs to no word. -/
structure NextWord (mem : Nat → UInt8) (p : Nat) (rest : List UInt8) (start : Nat)
    (token behind : List UInt8) : Prop where
  string : StringAt mem start (token ++ behind)
  after : p ≤ start
  inside : start + (token ++ behind).length = p + rest.length
  tokens : tokens rest = token :: tokens (behind.drop 1)

/-- The end of a word of `parseLoop`, which passes its bytes and looks at the next one. -/
theorem parseLoop_word (words : Words) (maxargc : Nat) {quote : UInt8} {text : List UInt8}
    (string : StringAt words.mem p text) (enough : text.length < fuel) :
    ((skip words.mem (inWord quote) fuel p).bind fun p =>
      if words.mem p = 0 then .ok words
      else
        let words := words.cut p
        if words.arg = maxargc - 1 then .ok words else parseLoop maxargc fuel words (p + 1)) =
      parseNext maxargc fuel words (p + (text.takeWhile (inWord quote)).length)
        (text.dropWhile (inWord quote)) := by
  have behind : StringAt words.mem (p + (text.takeWhile (inWord quote)).length)
      (text.dropWhile (inWord quote)) := by
    apply StringAt.drop
    rwa [List.takeWhile_append_dropWhile]
  rw [string.skip (inWord_zero quote) enough, Outcome.bind_ok]
  cases found : text.dropWhile (inWord quote) with
  | nil =>
      rw [found] at behind
      rw [if_pos (show words.mem _ = 0 from behind)]
      rfl
  | cons ch more =>
      rw [found] at behind
      rw [if_neg behind.nonzero]
      rfl

/-- One round of the loop takes the next word. -/
theorem parseLoop_token (maxargc : Nat) {ch : UInt8} {more : List UInt8}
    (string : StringAt words.mem p rest) (enough : rest.length < fuel)
    (found : rest.dropWhile isspace = ch :: more) :
    ∃ start token behind, NextWord words.mem p rest start token behind ∧
      parseLoop maxargc (fuel + 1) words p =
        parseNext maxargc fuel (words.push start) (start + token.length) behind := by
  have split : rest.takeWhile isspace ++ ch :: more = rest := by
    rw [← found, List.takeWhile_append_dropWhile]
  have count : (rest.takeWhile isspace).length + (more.length + 1) = rest.length := by
    rw [← List.length_cons, ← List.length_append, split]
  have begins : StringAt words.mem (p + (rest.takeWhile isspace).length) (ch :: more) := by
    apply StringAt.drop
    rwa [split]
  have full : words.mem p ≠ 0 := by
    cases rest with
    | nil => cases found
    | cons _ _ => exact string.nonzero
  rw [parseLoop, if_neg full, string.skip isspace_zero enough, Outcome.bind_ok,
    if_neg begins.nonzero, begins.1]
  have text := begins.2.2
  cases kind : isQuote ch with
  | true =>
      have same : ∀ a, a ≠ 0 → inWord ch a = decide (a ≠ ch) := by
        intro a some
        simp [inWord, begins.2.1, some]
      refine ⟨_, more.takeWhile (inWord ch), more.dropWhile (inWord ch), ⟨?_, ?_, ?_, ?_⟩,
        parseLoop_word (words.push _) maxargc text (by omega)⟩
      · rwa [List.takeWhile_append_dropWhile]
      · rw [if_pos rfl]
        omega
      · rw [if_pos rfl, List.takeWhile_append_dropWhile]
        omega
      · rw [text.takeWhile_eq same, text.dropWhile_eq same]
        exact tokens_quoted found kind
  | false =>
      have same : ∀ a, a ≠ 0 → inWord 0 a = !isspace a := by
        intro a some
        simp [inWord, some]
      have visible : isspace ch = false := by
        have first := List.head?_dropWhile_not isspace rest
        rwa [found] at first
      have plain : inWord 0 ch = true := by
        rw [same ch begins.2.1, visible]
        rfl
      refine ⟨_, (ch :: more).takeWhile (inWord 0), (ch :: more).dropWhile (inWord 0),
        ⟨?_, ?_, ?_, ?_⟩, parseLoop_word (words.push _) maxargc begins (by simp; omega)⟩
      · rwa [List.takeWhile_append_dropWhile]
      · rw [if_neg (by decide)]
        omega
      · rw [if_neg (by decide), List.takeWhile_append_dropWhile, List.length_cons]
        omega
      · rw [List.takeWhile_cons_of_pos plain, List.dropWhile_cons_of_pos plain,
          text.takeWhile_eq same, text.dropWhile_eq same, tokens_plain found kind,
          tokens_behind]


/-- What the loop has written from the rest `rest` on. -/
structure Splits (maxargc : Nat) (before : Words) (p : Nat) (rest : List UInt8)
    (after : Words) : Prop where
  arg : after.arg = min (before.arg + (tokens rest).length) (maxargc - 1)
  strings : ∀ i (known : i < (tokens rest).length), before.arg + i < after.arg →
    ∃ start, after.argv (before.arg + i) = some start ∧ p ≤ start ∧
      start + (tokens rest)[i].length ≤ p + rest.length ∧
      StringAt after.mem start (tokens rest)[i]
  argv : ∀ i, i < before.arg ∨ maxargc - 1 ≤ i → after.argv i = before.argv i
  mem : ∀ a, a < p ∨ p + rest.length ≤ a → after.mem a = before.mem a

namespace Splits

/-- The line ends, or the vector is full. -/
theorem stop (stopped : tokens rest = [] ∨ words.arg = maxargc - 1)
    (room : words.arg ≤ maxargc - 1) : Splits maxargc words p rest words where
  arg := by
    rcases stopped with none | full
    · rw [none, List.length_nil]
      omega
    · omega
  strings := fun i _ written => by omega
  argv := fun _ _ => rfl
  mem := fun _ _ => rfl

/-- A word in front of the words of the rest behind it. -/
theorem cons {after : Words} {start q : Nat} {token behind more : List UInt8}
    (next : NextWord words.mem p rest start token behind) (room : words.arg < maxargc - 1)
    (same : tokens (behind.drop 1) = tokens more) (inside : q + more.length ≤ p + rest.length)
    (apart : start + token.length < q ∨ start + token.length = q ∧ more = [])
    (later : Splits maxargc ((words.push start).cut (start + token.length)) q more after) :
    Splits maxargc words p rest after := by
  have all : tokens rest = token :: tokens more := next.tokens.trans (by rw [same])
  have before := next.after
  have within := next.inside
  rw [List.length_append] at within
  have pushed : ((words.push start).cut (start + token.length)).arg = words.arg + 1 := rfl
  have kept : ∀ a, a ≤ start + token.length →
      after.mem a = update words.mem (start + token.length) 0 a := by
    intro a low
    apply later.mem
    rcases apart with apart | ⟨apart, rfl⟩
    · omega
    · rw [List.length_nil]
      omega
  refine ⟨?_, ?_, ?_, ?_⟩
  · rw [later.arg, all, pushed, List.length_cons]
    omega
  · intro i known written
    cases i with
    | zero =>
        refine ⟨start, ?_, before, ?_, ?_⟩
        · rw [Nat.add_zero, later.argv words.arg (by omega)]
          exact Function.update_self ..
        · simp only [all, List.getElem_cons_zero]
          omega
        · simp only [all, List.getElem_cons_zero]
          exact next.string.cut.congr fun a _ low => kept a low
    | succ i =>
        rw [all, List.length_cons] at known
        obtain ⟨place, stored, low, high, string⟩ :=
          later.strings i (by omega) (by omega)
        refine ⟨place, ?_, ?_, ?_, ?_⟩
        · rw [← stored, pushed]
          congr 1
          omega
        · omega
        · simp only [all, List.getElem_cons_succ]
          omega
        · simpa only [all, List.getElem_cons_succ] using string
  · intro i other
    rw [later.argv i (by omega)]
    exact Function.update_of_ne (by omega) ..
  · intro a outside
    by_cases low : a ≤ start + token.length
    · rw [kept a low, Function.update_apply]
      by_cases last : a = start + token.length
      · -- the NUL of the line ends its last word
        have ended : behind = [] := List.eq_nil_of_length_eq_zero (by omega)
        have string := next.string.drop
        rw [ended] at string
        rw [if_pos last, last]
        exact string.symm
      · rw [if_neg last]
    · rw [later.mem a (by omega)]
      exact Function.update_of_ne (by omega) ..

end Splits

/-- The loop splits its rest, by induction on the fuel. -/
theorem parseLoop_splits (string : StringAt words.mem p rest) (enough : rest.length + 1 < fuel)
    (room : words.arg < maxargc - 1) :
    ∃ after, parseLoop maxargc fuel words p = .ok after ∧
      Splits maxargc words p rest after := by
  induction fuel generalizing words p rest with
  | zero => omega
  | succ fuel ih =>
      cases found : rest.dropWhile isspace with
      | nil =>
          have all : rest.takeWhile isspace = rest := by
            simpa [found] using List.takeWhile_append_dropWhile (p := isspace) (l := rest)
          refine ⟨words, ?_, .stop (.inl (tokens_none found)) (by omega)⟩
          rw [parseLoop]
          by_cases first : words.mem p = 0
          · rw [if_pos first]
          · rw [if_neg first, string.skip isspace_zero (by omega : rest.length < fuel), all,
              Outcome.bind_ok, if_pos string.ends]
      | cons ch more =>
          obtain ⟨start, token, behind, next, run⟩ :=
            parseLoop_token maxargc string (by omega : rest.length < fuel) found
          have within := next.inside
          have after := next.after
          rw [List.length_append] at within
          rw [run]
          cases behind with
          | nil =>
              have ended : words.mem (start + token.length) = 0 := next.string.drop
              have same : (words.push start).cut (start + token.length) = words.push start := by
                rw [Words.cut, Function.update_eq_self_iff.mpr ended.symm]
              have later : Splits maxargc ((words.push start).cut (start + token.length))
                  (start + token.length) [] (words.push start) := by
                rw [same]
                exact .stop (.inl (tokens_none rfl)) room
              exact ⟨_, rfl, .cons next room rfl (le_of_eq within) (.inr ⟨rfl, rfl⟩) later⟩
          | cons ch more =>
              obtain ⟨-, -, behind⟩ := next.string.drop
              rw [List.length_cons] at within
              have kept : StringAt ((words.push start).cut (start + token.length)).mem
                  (start + token.length + 1) more := by
                apply behind.congr
                intro a low _
                exact Function.update_of_ne (by omega) ..
              have same : tokens ((ch :: more).drop 1) = tokens more := rfl
              rw [parseNext]
              by_cases full : (words.push start).arg = maxargc - 1
              · rw [if_pos full]
                have later : Splits maxargc ((words.push start).cut (start + token.length))
                    (start + token.length + 1) more
                    ((words.push start).cut (start + token.length)) :=
                  .stop (.inr full) (le_of_eq full)
                exact ⟨_, rfl, .cons next room same (by omega) (.inl (by omega)) later⟩
              · rw [if_neg full]
                have pushed : (words.push start).arg = words.arg + 1 := rfl
                obtain ⟨last, run, later⟩ := ih kept (by omega)
                  (show (words.push start).arg < maxargc - 1 by omega)
                exact ⟨last, run, .cons next room same (by omega) (.inl (by omega)) later⟩

/-- `parse` splits every line into the words of the reference splitter, as far as they have room
in the vector, and writes nothing else. -/
theorem parse_splits {argv : Nat → Option Nat} {line : Nat} {text : List UInt8}
    (terminated : StringAt mem line text) (two : 2 ≤ maxargc) (enough : text.length + 1 < fuel) :
    ∃ words, parse fuel mem line maxargc argv = .ok words ∧
      words.arg = min (tokens text).length (maxargc - 1) ∧
      (∀ i (known : i < (tokens text).length), i < words.arg →
        ∃ start, words.argv i = some start ∧ line ≤ start ∧
          start + (tokens text)[i].length ≤ line + text.length ∧
          StringAt words.mem start (tokens text)[i]) ∧
      words.argv words.arg = none ∧
      (∀ i, maxargc ≤ i → words.argv i = argv i) ∧
      ∀ a, a < line ∨ line + text.length ≤ a → words.mem a = mem a := by
  have string : StringAt (Words.mk mem argv 0).mem line text := terminated
  have room : (Words.mk mem argv 0).arg < maxargc - 1 := by
    show 0 < maxargc - 1
    omega
  obtain ⟨words, run, splits⟩ := parseLoop_splits string enough room
  have arg := splits.arg
  rw [Nat.zero_add] at arg
  refine ⟨{ words with argv := update words.argv words.arg none },
    by rw [parse, run, Outcome.bind_ok], arg, ?_, Function.update_self .., ?_, splits.mem⟩
  · intro i known written
    obtain ⟨start, stored, place⟩ := splits.strings i known (by rwa [Nat.zero_add])
    rw [Nat.zero_add] at stored
    refine ⟨start, ?_, place⟩
    rw [← stored]
    have below : i < words.arg := written
    exact Function.update_of_ne (by omega) ..
  · intro i behind
    have kept : words.argv i = argv i := splits.argv i (.inr (by omega))
    rw [← kept]
    exact Function.update_of_ne (by omega) ..

/-- A quoted word with a plain one directly behind it, in a vector with room for both. -/
theorem parse_splits_quoted :
    ∃ words, parse 7 (fun a => [0x20, 0x22, 0x61, 0x22, 0x62].getD a 0) 0 3 (fun _ => some 0) =
        .ok words ∧ words.arg = 2 ∧ words.argv 2 = none ∧ words.argv 3 = some 0 := by
  have all : tokens [0x20, 0x22, 0x61, 0x22, 0x62] = [[0x61], [0x62]] := by
    have first : List.dropWhile isspace [0x20, 0x22, 0x61, 0x22, 0x62] =
        0x22 :: [0x61, 0x22, 0x62] := by decide
    have second : List.dropWhile isspace [0x62] = 0x62 :: [] := by decide
    have behind : List.drop 1 (List.dropWhile (· ≠ (0x22 : UInt8)) [0x61, 0x22, 0x62]) =
        [0x62] := by decide
    rw [tokens_quoted first (by decide), behind, tokens_plain second (by decide),
      tokens_none rfl]
    rfl
  obtain ⟨words, run, arg, -, null, kept, -⟩ :=
    parse_splits (show StringAt (fun a => [0x20, 0x22, 0x61, 0x22, 0x62].getD a 0) 0
        [0x20, 0x22, 0x61, 0x22, 0x62] by decide)
      (by decide : 2 ≤ 3) (by decide : [0x20, 0x22, 0x61, 0x22, 0x62].length + 1 < 7)
  rw [all] at arg
  have two : words.arg = 2 := arg
  rw [two] at null
  exact ⟨words, run, two, null, kept 3 (by decide)⟩

end Pegasos.Shell
