import Pegasos.Kernel.Debug.Disasm
import Mathlib.Algebra.Group.Nat.Defs

/-!
# Operands with a ModRM byte

What `decode_modrm` takes from the stream and how many characters it puts, against the bytes
that the processor takes for the same ModRM and SIB bytes.
-/

namespace Pegasos.Kernel.Debug

open Pegasos.Support
open Printf (ascii printHex printHex_length FL_ZEROPAD FL_LONG)

variable {mem : Nat → UInt8} {s : DState} {run : Outcome DState}
variable {bytes chars more count : Nat}

/-- A run that takes `bytes` of the code and puts `chars` characters, and changes nothing else. -/
def Puts (run : Outcome DState) (s : DState) (bytes chars : Nat) : Prop :=
  ∃ text, run = .ok { s with code := s.code + bytes, args := s.args ++ text } ∧
    text.length = chars

namespace Puts

theorem nothing : Puts (.ok s) s 0 0 := ⟨[], by simp, rfl⟩

theorem put (chars : List UInt8) : Puts (.ok (s.put chars)) s 0 chars.length := ⟨chars, rfl, rfl⟩

/-- Characters in front of a run. -/
theorem after_put (front : List UInt8) (puts : Puts run (s.put front) bytes chars) :
    Puts run s bytes (front.length + chars) := by
  obtain ⟨text, run, length⟩ := puts
  refine ⟨front ++ text, ?_, by rw [List.length_append, length]⟩
  rw [run, DState.put, ← List.append_assoc]

/-- Bytes taken in front of a run. -/
theorem after_take (taken : Nat)
    (puts : Puts run { s with code := s.code + taken } bytes chars) :
    Puts run s (taken + bytes) chars := by
  obtain ⟨text, run, length⟩ := puts
  refine ⟨text, ?_, length⟩
  rw [run, ← Nat.add_assoc]

/-- A run behind one that takes no bytes. -/
theorem bind {next : DState → Outcome DState} (first : Puts run s 0 chars)
    (second : ∀ text, Puts (next (s.put text)) (s.put text) bytes count) :
    Puts (run.bind next) s bytes (chars + count) := by
  obtain ⟨text, ran, length⟩ := first
  rw [ran, Outcome.bind_ok, ← length]
  exact .after_put text (second text)

/-- Characters behind a run. -/
theorem then_put {after : DState} (puts : Puts (.ok after) s bytes chars) (tail : List UInt8) :
    Puts (.ok (after.put tail)) s bytes (chars + tail.length) := by
  obtain ⟨text, same, length⟩ := puts
  cases same
  exact ⟨text ++ tail, by rw [DState.put, List.append_assoc], by rw [List.length_append, length]⟩

end Puts

/-- The little-endian number of some bytes. -/
def littleEndian (mem : Nat → UInt8) (code : Nat) : Nat → UInt32
  | 0 => 0
  | bytes + 1 =>
      littleEndian mem code bytes |||
        (mem (code + bytes)).toUInt32 <<< UInt32.ofNat (bytes * 8)

theorem extract_eq (mem : Nat → UInt8) (s : DState) (bytes : Nat) :
    extract mem s bytes =
      (littleEndian mem s.code bytes, { s with code := s.code + bytes }) := by
  induction bytes with
  | zero => rfl
  | succ bytes ih =>
      rw [extract, ih]
      rfl

theorem littleEndian_one (mem : Nat → UInt8) (code : Nat) :
    (littleEndian mem code 1).toNat < 16 ^ 2 := by
  have fits := (mem code).toNat_lt
  have same : littleEndian mem code 1 = (mem code).toUInt32 := by
    simp [littleEndian]
  rw [same, UInt8.toNat_toUInt32]
  exact fits

theorem hex_length {width : Nat} {val : UInt32} (one : 1 ≤ width) (few : width ≤ 8)
    (small : (val &&& 0xffff).toNat < 16 ^ width) : (hex width val).length = width :=
  printHex_length (by decide) one few small

theorem hex_two (mem : Nat → UInt8) (code : Nat) : (hex 2 (littleEndian mem code 1)).length = 2 := by
  apply hex_length (by decide) (by decide)
  rw [UInt32.toNat_and]
  exact Nat.lt_of_le_of_lt Nat.and_le_left (littleEndian_one mem code)

theorem hex_four (val : UInt32) : (hex 4 val).length = 4 := by
  apply hex_length (by decide) (by decide)
  rw [UInt32.toNat_and]
  exact Nat.lt_of_le_of_lt Nat.and_le_right (by decide)

theorem longHex_length (val : UInt32) : (longHex val).length = 8 :=
  printHex_length (by decide) (by decide) (by decide) val.toNat_lt

theorem decimal_length {val : Nat} (small : val < 10) : (decimal val).length = 1 := by
  revert small
  revert val
  decide +kernel

/-- A register of a full table. -/
theorem reg_puts {table : List String} {i length : Nat} (inside : i < table.length)
    (all : ∀ name ∈ table, (text name).length = length) : Puts (s.reg table i) s 0 length := by
  have found : table[i]? = some table[i] := List.getElem?_eq_getElem inside
  rw [DState.reg, found]
  have put : Puts (.ok (s.put (text table[i]))) s 0 _ := .put _
  rwa [all _ (List.getElem_mem inside)] at put

theorem wregs_puts {i : Nat} (inside : i < 8) : Puts (s.reg wregs i) s 0 2 :=
  reg_puts inside (by decide)

theorem bregs_puts {i : Nat} (inside : i < 8) : Puts (s.reg bregs i) s 0 2 :=
  reg_puts inside (by decide)

theorem sregs_puts {i : Nat} (inside : i < 8) : Puts (s.reg sregs i) s 0 2 :=
  reg_puts inside (by decide)

theorem MODRM_MOD_lt (modrm : UInt8) : MODRM_MOD modrm < 4 := Nat.mod_lt _ (by decide)
theorem MODRM_REG_lt (modrm : UInt8) : MODRM_REG modrm < 8 := Nat.mod_lt _ (by decide)
theorem MODRM_RM_lt (modrm : UInt8) : MODRM_RM modrm < 8 := Nat.mod_lt _ (by decide)
theorem SIB_SS_lt (sib : UInt8) : SIB_SS sib < 4 := Nat.mod_lt _ (by decide)
theorem SIB_INDEX_lt (sib : UInt8) : SIB_INDEX sib < 8 := Nat.mod_lt _ (by decide)
theorem SIB_BASE_lt (sib : UInt8) : SIB_BASE sib < 8 := Nat.mod_lt _ (by decide)

/-- The bytes of the displacement that `decode_sib` takes. -/
def sibDispBytes (mod : Nat) : Nat := if mod = 1 then 1 else if mod = 2 then 4 else 0

/-- The characters of a base, of an index and of a displacement. -/
def sibBaseChars (plain : Prop) [Decidable plain] : Nat := if plain then 0 else 3

def sibIndexChars (plain : Prop) [Decidable plain] (sib : UInt8) : Nat :=
  if SIB_INDEX sib = 4 then 0
  else (if plain then 0 else 1) + (3 + if SIB_SS sib = 0 then 0 else 2)

def sibDispChars (mod : Nat) (disp : UInt32) : Nat :=
  if disp = 0 then 0 else if mod = 1 then 3 else if mod = 2 then 9 else 0

section

variable {plain plus : Prop} [Decidable plain] [Decidable plus]

theorem sibBase_puts (sib : UInt8) :
    Puts (sibBase (¬ plain) (SIB_BASE sib) s) s 0 (sibBaseChars plain) := by
  rw [sibBase, sibBaseChars]
  by_cases left : plain
  · rw [if_neg (not_not.mpr left), if_pos left]
    exact .nothing
  · rw [if_pos left, if_neg left]
    exact .after_put [ascii 'E'] (wregs_puts (SIB_BASE_lt sib))

/-- The scale of an index is one digit, and it is left out if it is one. -/
theorem sibScale_puts {scale : Nat} (small : scale < 4) :
    Puts (.ok (sibScale (1 <<< scale) s)) s 0 (if scale = 0 then 0 else 2) := by
  have value : 1 <<< scale = 2 ^ scale := Nat.one_shiftLeft scale
  by_cases one : scale = 0
  · subst one
    exact .nothing
  · have digit : (decimal (1 <<< scale)).length = 1 := by
      apply decimal_length
      rw [value]
      exact Nat.lt_of_le_of_lt (Nat.pow_le_pow_right (by decide) (by omega : scale ≤ 3)) (by decide)
    have big : 1 <<< scale ≠ 1 := by
      rw [value]
      exact ne_of_gt (Nat.one_lt_two_pow one)
    rw [sibScale, if_pos big, if_neg one]
    have put : Puts (.ok ((s.put [ascii '*']).put (decimal (1 <<< scale)))) (s.put [ascii '*']) 0
        (decimal (1 <<< scale)).length := .put _
    rw [digit] at put
    exact .after_put [ascii '*'] put

theorem sibIndex_puts (sib : UInt8) :
    Puts (sibIndex (¬ plain) (SIB_INDEX sib) (1 <<< SIB_SS sib) s) s 0
      (sibIndexChars plain sib) := by
  have index (s : DState) :
      Puts (((s.put [ascii 'E']).reg wregs (SIB_INDEX sib)).bind fun s =>
        .ok (sibScale (1 <<< SIB_SS sib) s)) s 0 (3 + if SIB_SS sib = 0 then 0 else 2) := by
    have all : Puts (((s.put [ascii 'E']).reg wregs (SIB_INDEX sib)).bind fun s =>
        .ok (sibScale (1 <<< SIB_SS sib) s)) (s.put [ascii 'E']) 0
          (2 + if SIB_SS sib = 0 then 0 else 2) :=
      .bind (wregs_puts (SIB_INDEX_lt sib)) fun _ => sibScale_puts (SIB_SS_lt sib)
    have front := Puts.after_put [ascii 'E'] all
    rwa [← Nat.add_assoc] at front
  rw [sibIndex, sibIndexChars]
  by_cases none : SIB_INDEX sib = 4
  · rw [if_neg (not_not.mpr none), if_pos none]
    exact .nothing
  · rw [if_pos none, if_neg none]
    by_cases left : plain
    · rw [if_neg (not_not.mpr left), if_pos left, Nat.zero_add]
      exact index s
    · rw [if_pos left, if_neg left]
      exact .after_put [ascii '+'] (index _)

theorem sibDisp_puts (mem : Nat → UInt8) (s : DState) {mod : Nat}
    (joined : mod = 1 ∨ mod = 2 → plus) :
    Puts (.ok (sibDisp mem plus mod s)) s (sibDispBytes mod)
      (sibDispChars mod (littleEndian mem s.code (sibDispBytes mod))) := by
  rw [sibDisp, sibDispBytes, sibDispChars]
  by_cases one : mod = 1
  · have join : plus := joined (.inl one)
    simp only [one, true_or, if_true, extract_eq]
    by_cases none : littleEndian mem s.code 1 = 0
    · simp only [none, ne_eq, not_true_eq_false, if_false, if_true]
      exact .after_take _ .nothing
    · simp only [none, ne_eq, not_false_eq_true, if_false, if_true, if_pos join]
      have put : Puts (.ok (({ s with code := s.code + 1 }.put [ascii '+']).put
          (hex 2 (littleEndian mem s.code 1)))) ({ s with code := s.code + 1 }.put [ascii '+']) 0
            (hex 2 (littleEndian mem s.code 1)).length := .put _
      rw [hex_two] at put
      exact .after_take _ (.after_put [ascii '+'] put)
  · by_cases two : mod = 2
    · have join : plus := joined (.inr two)
      have other : ¬ (2 : Nat) = 1 := by decide
      simp only [two, or_true, if_true, if_false, other, extract_eq]
      by_cases none : littleEndian mem s.code 4 = 0
      · simp only [none, ne_eq, not_true_eq_false, if_false, if_true]
        exact .after_take _ .nothing
      · simp only [none, ne_eq, not_false_eq_true, if_false, if_true, if_pos join]
        have put : Puts (.ok (({ s with code := s.code + 4 }.put [ascii '+']).put
            (longHex (littleEndian mem s.code 4)))) ({ s with code := s.code + 4 }.put [ascii '+'])
              0 (longHex (littleEndian mem s.code 4)).length := .put _
        rw [longHex_length] at put
        exact .after_take _ (.after_put [ascii '+'] put)
    · simp only [one, two, or_self, if_false, ite_self]
      exact .nothing

end

/-- The characters of an operand that has a SIB byte. -/
def sibChars (mod : Nat) (sib : UInt8) (disp : UInt32) : Nat :=
  1 + (sibBaseChars (mod = 0 ∧ SIB_BASE sib = 5) +
    (sibIndexChars (mod = 0 ∧ SIB_BASE sib = 5) sib + (sibDispChars mod disp + 1)))

theorem decodeSib_puts (mem : Nat → UInt8) (s : DState) :
    Puts (decodeSib mem s) s (1 + sibDispBytes (MODRM_MOD s.modrm))
      (sibChars (MODRM_MOD s.modrm) (mem s.code)
        (littleEndian mem (s.code + 1) (sibDispBytes (MODRM_MOD s.modrm)))) := by
  rw [decodeSib, sibChars]
  refine .after_take 1 (.after_put [ascii '['] ?_)
  refine .bind (sibBase_puts _) fun base => .bind (sibIndex_puts _) fun index => ?_
  refine .then_put (sibDisp_puts mem _ fun some => .inl fun plain => ?_) [ascii ']']
  have zero : MODRM_MOD s.modrm = 0 := plain.1
  omega

/-- The bytes of the displacement of an address without a SIB byte. -/
def modrmDispBytes (addr32 : Bool) (mod : Nat) : Nat :=
  if mod = 1 then 1 else if mod = 2 then (if addr32 then 4 else 2) else 0

def modrmBaseChars (addr32 : Bool) (rm : Nat) : Nat :=
  if addr32 then 3 else if rm < 4 then 5 else 2

theorem modrmBase_puts {rm : Nat} (inside : rm < 8) :
    Puts (modrmBase rm s) s 0 (modrmBaseChars s.addr32 rm) := by
  rw [modrmBase, modrmBaseChars]
  by_cases wide : s.addr32 = true
  · rw [if_pos wide, if_pos wide]
    exact .after_put [ascii 'E'] (wregs_puts inside)
  · rw [if_neg wide, if_neg wide]
    have lengths : ∀ i, i < 8 → ((baseindex[i]?).map fun name => (text name).length) =
        some (if i < 4 then 5 else 2) := by
      decide
    have length := lengths rm inside
    rw [DState.reg]
    cases found : baseindex[rm]? with
    | none =>
        rw [found] at length
        cases length
    | some name =>
        rw [found] at length
        rw [← Option.some.inj length]
        exact .put _

theorem modrmDisp_puts (mem : Nat → UInt8) (s : DState) (mod : Nat) :
    Puts (.ok (modrmDisp mem mod s)) s (modrmDispBytes s.addr32 mod)
      (if littleEndian mem s.code (modrmDispBytes s.addr32 mod) = 0 then 0
        else 1 + 2 * modrmDispBytes s.addr32 mod) := by
  rw [modrmDisp]
  by_cases some : mod = 1 ∨ mod = 2
  · have bytes : (if s.addr32 = true ∧ mod = 2 then 4 else mod) = modrmDispBytes s.addr32 mod := by
      rw [modrmDispBytes]
      rcases some with rfl | rfl
      · simp
      · cases s.addr32 <;> rfl
    have digits : (if modrmDispBytes s.addr32 mod = 1 then
          hex 2 (littleEndian mem s.code (modrmDispBytes s.addr32 mod))
        else if s.addr32 then longHex (littleEndian mem s.code (modrmDispBytes s.addr32 mod))
        else hex 4 (littleEndian mem s.code (modrmDispBytes s.addr32 mod))).length =
          2 * modrmDispBytes s.addr32 mod := by
      rcases some with rfl | rfl
      · exact hex_two mem s.code
      · cases wide : s.addr32 with
        | true => exact longHex_length _
        | false => exact hex_four _
    rw [if_pos some]
    dsimp only
    rw [extract_eq, bytes]
    by_cases none : littleEndian mem s.code (modrmDispBytes s.addr32 mod) = 0
    · rw [if_neg (not_not.mpr none), if_pos none]
      exact .after_take _ .nothing
    · rw [if_pos none, if_neg none, ← digits, Nat.add_comm 1, ← List.length_cons]
      exact .after_take _ (.put _)
  · have zero : modrmDispBytes s.addr32 mod = 0 := by
      rw [modrmDispBytes, if_neg (by omega), if_neg (by omega)]
    rw [if_neg some, zero, if_pos (by rfl)]
    exact .nothing

/-- The bytes of an address in memory behind the ModRM byte. -/
def addressBytes (addr32 : Bool) (modrm : UInt8) : Nat :=
  let mod := MODRM_MOD modrm
  let rm := MODRM_RM modrm
  if mod = 0 ∧ addr32 = true ∧ rm = 5 then 4
  else if mod = 0 ∧ addr32 = false ∧ rm = 6 then 2
  else if addr32 = true ∧ rm = 4 then 1 + sibDispBytes mod
  else modrmDispBytes addr32 mod

/-- The characters of an address in memory. -/
def addressChars (mem : Nat → UInt8) (code : Nat) (addr32 : Bool) (modrm : UInt8) : Nat :=
  let mod := MODRM_MOD modrm
  let rm := MODRM_RM modrm
  if mod = 0 ∧ addr32 = true ∧ rm = 5 then 10
  else if mod = 0 ∧ addr32 = false ∧ rm = 6 then 6
  else if addr32 = true ∧ rm = 4 then
    sibChars mod (mem code) (littleEndian mem (code + 1) (sibDispBytes mod))
  else
    1 + (modrmBaseChars addr32 rm +
      ((if littleEndian mem code (modrmDispBytes addr32 mod) = 0 then 0
        else 1 + 2 * modrmDispBytes addr32 mod) + 1))

theorem decodeAddress_puts (mem : Nat → UInt8) (s : DState) :
    Puts (decodeAddress mem s) s (addressBytes s.addr32 s.modrm)
      (addressChars mem s.code s.addr32 s.modrm) := by
  rw [decodeAddress, addressBytes, addressChars]
  dsimp only
  rw [extract_eq, extract_eq]
  split
  · have length : ([ascii '['] ++ longHex (littleEndian mem s.code 4) ++ [ascii ']']).length = 10 := by
      rw [List.length_append, List.length_append, longHex_length]
      rfl
    rw [← length]
    exact .after_take 4 (.put _)
  · split
    · have length : ([ascii '['] ++ hex 4 (littleEndian mem s.code 2) ++ [ascii ']']).length = 6 := by
        rw [List.length_append, List.length_append, hex_four]
        rfl
      rw [← length]
      exact .after_take 2 (.put _)
    · split
      · exact decodeSib_puts mem s
      · refine .after_put [ascii '['] (.bind (modrmBase_puts (MODRM_RM_lt s.modrm)) fun base => ?_)
        exact .then_put (modrmDisp_puts mem _ _) [ascii ']']

/-- The bytes that `decode_modrm` takes. -/
def modrmTaken (addr32 : Bool) (modrm : UInt8) : Nat :=
  if MODRM_MOD modrm = 3 then 0 else addressBytes addr32 modrm

/-- The characters that `decode_modrm` puts. -/
def modrmChars (mem : Nat → UInt8) (s : DState) (oper : Nat) : Nat :=
  if MODRM_MOD s.modrm = 3 then
    if oper ≠ _b ∧ (oper = _d ∨ (oper = _v ∧ s.data32 = true)) then 3 else 2
  else
    (text (ptrText s oper)).length + ((text (segOverride s.seg)).length +
      addressChars mem s.code s.addr32 s.modrm)

/-- `decode_modrm` takes and puts what the ModRM byte, the SIB byte and the displacement say. -/
theorem decodeModrm_puts (mem : Nat → UInt8) (s : DState) (oper : Nat) :
    Puts (decodeModrm mem s oper) s (modrmTaken s.addr32 s.modrm) (modrmChars mem s oper) := by
  have rm := MODRM_RM_lt s.modrm
  rw [decodeModrm, modrmTaken, modrmChars]
  dsimp only
  by_cases register : MODRM_MOD s.modrm = 3
  · rw [if_pos register, if_pos register, if_pos register]
    by_cases byte : oper = _b
    · rw [if_pos byte, if_neg fun both => both.1 byte]
      exact bregs_puts rm
    · rw [if_neg byte]
      by_cases wide : oper = _d ∨ (oper = _v ∧ s.data32 = true)
      · rw [if_pos wide, if_pos ⟨byte, wide⟩]
        exact .after_put [ascii 'E'] (wregs_puts rm)
      · rw [if_neg wide, if_neg fun both => wide both.2]
        exact wregs_puts rm
  · rw [if_neg register, if_neg register, if_neg register]
    exact .after_put _ (.after_put _ (decodeAddress_puts mem _))

/-- The bytes that the processor takes behind a ModRM byte: the SIB byte, which 32-bit addresses
have if r/m is 4, and the displacement. -/
def sibBytes (addr32 : Bool) (modrm : UInt8) : Nat :=
  if addr32 = true ∧ MODRM_MOD modrm ≠ 3 ∧ MODRM_RM modrm = 4 then 1 else 0

def dispBytes (addr32 : Bool) (modrm sib : UInt8) : Nat :=
  match MODRM_MOD modrm with
  | 0 =>
      if addr32 then
        if MODRM_RM modrm = 5 ∨ (MODRM_RM modrm = 4 ∧ SIB_BASE sib = 5) then 4 else 0
      else if MODRM_RM modrm = 6 then 2 else 0
  | 1 => 1
  | 2 => if addr32 then 4 else 2
  | _ => 0

/-- The bytes agree but for a SIB byte that has a displacement in place of its base. -/
theorem modrmTaken_eq_iff (addr32 : Bool) (modrm sib : UInt8) :
    modrmTaken addr32 modrm = sibBytes addr32 modrm + dispBytes addr32 modrm sib ↔
      ¬ (addr32 = true ∧ MODRM_MOD modrm = 0 ∧ MODRM_RM modrm = 4 ∧ SIB_BASE sib = 5) := by
  have inside := MODRM_MOD_lt modrm
  unfold modrmTaken sibBytes dispBytes addressBytes
  generalize MODRM_MOD modrm = mod at *
  generalize MODRM_RM modrm = rm at *
  generalize SIB_BASE sib = base at *
  have cases4 : mod = 0 ∨ mod = 1 ∨ mod = 2 ∨ mod = 3 := by omega
  rcases cases4 with rfl | rfl | rfl | rfl
  · cases addr32
    · by_cases direct : rm = 6 <;> simp [direct, modrmDispBytes]
    · by_cases direct : rm = 5
      · simp [direct]
      · by_cases sibs : rm = 4 <;> by_cases noBase : base = 5 <;>
          simp [direct, sibs, noBase, sibDispBytes, modrmDispBytes]
  · cases addr32
    · simp [modrmDispBytes]
    · by_cases sibs : rm = 4 <;> simp [sibs, sibDispBytes, modrmDispBytes]
  · cases addr32
    · simp [modrmDispBytes]
    · by_cases sibs : rm = 4 <;> simp [sibs, sibDispBytes, modrmDispBytes]
  · simp

/-- `decode_modrm` advances the code pointer as the processor does if and only if there is no SIB
byte without a base. -/
theorem decode_modrm_in_step (mem : Nat → UInt8) (s : DState) (oper : Nat) :
    (∃ after, decodeModrm mem s oper = .ok after ∧
      after.code =
        s.code + (sibBytes s.addr32 s.modrm + dispBytes s.addr32 s.modrm (mem s.code))) ↔
      ¬ (s.addr32 = true ∧ MODRM_MOD s.modrm = 0 ∧ MODRM_RM s.modrm = 4 ∧
        SIB_BASE (mem s.code) = 5) := by
  obtain ⟨text, run, -⟩ := decodeModrm_puts mem s oper
  rw [← modrmTaken_eq_iff, run]
  constructor
  · rintro ⟨after, same, place⟩
    cases same
    exact Nat.add_left_cancel place
  · intro same
    exact ⟨_, rfl, by rw [← same]⟩

/-- The four bytes behind the SIB byte of `[4*EAX+12345678h]` are not taken. -/
theorem decode_modrm_out_of_step :
    ¬ ∀ (mem : Nat → UInt8) (s : DState) (oper : Nat), ∃ after,
      decodeModrm mem s oper = .ok after ∧
        after.code =
          s.code + (sibBytes s.addr32 s.modrm + dispBytes s.addr32 s.modrm (mem s.code)) := by
  intro claim
  have inStep := claim (fun a => [0x85, 0x78, 0x56, 0x34, 0x12].getD a 0)
    ⟨0, [], 0x04, true, true, false, .none, .none⟩ _v
  obtain ⟨text, run, -⟩ := decodeModrm_puts (fun a => [0x85, 0x78, 0x56, 0x34, 0x12].getD a 0)
    ⟨0, [], 0x04, true, true, false, .none, .none⟩ _v
  obtain ⟨after, same, place⟩ := inStep
  rw [run] at same
  cases same
  have apart : modrmTaken true 0x04 = sibBytes true 0x04 + dispBytes true 0x04 0x85 :=
    Nat.add_left_cancel place
  exact absurd apart (by decide)

end Pegasos.Kernel.Debug
