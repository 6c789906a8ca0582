import Pegasos.Kernel.Debug.Operands
import Mathlib.Tactic.IntervalCases

/-!
# Bounds of the disassembler

Every operand has a room that its characters keep to, and the entries of the opcode tables are
checked against the rooms.  Only the exception of group 7, which decodes one operand three times,
can outgrow the buffer.
-/

namespace Pegasos.Kernel.Debug

open Pegasos.Support
open Printf (ascii)

variable {mem : Nat → UInt8} {s : DState} {opreg : Nat}

/-- A run that takes `bytes` of the code and puts at most `room` characters. -/
def PutsUpTo (run : Outcome DState) (s : DState) (bytes room : Nat) : Prop :=
  ∃ chars, chars ≤ room ∧ Puts run s bytes chars

theorem Puts.upTo {run : Outcome DState} {bytes chars room : Nat} (puts : Puts run s bytes chars)
    (low : chars ≤ room) : PutsUpTo run s bytes room := ⟨chars, low, puts⟩

theorem text_ptrText (s : DState) (oper : Nat) : (text (ptrText s oper)).length ≤ 10 := by
  rw [ptrText]
  split_ifs <;> decide

theorem text_segOverride (seg : Seg) : (text (segOverride seg)).length ≤ 3 := by
  cases seg <;> decide

theorem sibChars_le (mod : Nat) (sib : UInt8) (disp : UInt32) : sibChars mod sib disp ≤ 20 := by
  unfold sibChars sibBaseChars sibIndexChars sibDispChars
  split_ifs <;> omega

theorem addressChars_le (mem : Nat → UInt8) (code : Nat) (addr32 : Bool) (modrm : UInt8) :
    addressChars mem code addr32 modrm ≤ 20 := by
  have sib := sibChars_le (MODRM_MOD modrm) (mem code)
    (littleEndian mem (code + 1) (sibDispBytes (MODRM_MOD modrm)))
  have bytes : modrmDispBytes addr32 (MODRM_MOD modrm) ≤ 4 := by
    unfold modrmDispBytes
    split_ifs <;> omega
  have base : modrmBaseChars addr32 (MODRM_RM modrm) ≤ 5 := by
    unfold modrmBaseChars
    split_ifs <;> omega
  unfold addressChars
  dsimp only
  split_ifs <;> omega

theorem modrmChars_le (mem : Nat → UInt8) (s : DState) (oper : Nat) :
    modrmChars mem s oper ≤ 33 := by
  have ptr := text_ptrText s oper
  have seg := text_segOverride s.seg
  have address := addressChars_le mem s.code s.addr32 s.modrm
  unfold modrmChars
  split_ifs <;> omega

/-- The bytes of an operand. -/
def opBytes (addr32 data32 : Bool) (modrm : UInt8) (addop : AddOp) : Nat :=
  if addop.add = _A then 4
  else if addop.add = _E ∨ addop.add = _M then modrmTaken addr32 modrm
  else if addop.add = _I then
    if addop.opreg = _b then 1
    else if addop.opreg = _w then 2
    else if addop.opreg = _v then (if data32 then 4 else 2)
    else 0
  else if addop.add = _J then (if addop.opreg = _v then (if addr32 then 4 else 2) else 1)
  else if addop.add = _O then (if addr32 then 4 else 2)
  else 0

/-- The room of an operand, by its addressing. -/
def room (add : Nat) : Nat :=
  match add with
  | 0 => 9
  | 1 | 2 | 12 => 3
  | 3 | 8 => 33
  | 5 | 10 | 15 => 3
  | 6 | 7 => 8
  | 9 => 20
  | 11 | 16 | 17 => 2
  | 13 => 17
  | 14 => 14
  | _ => 0

theorem sizedReg_upTo {i : Nat} (inside : i < 8) (always32 : Bool) :
    PutsUpTo (sizedReg s opreg i always32) s 0 3 := by
  rw [sizedReg]
  split_ifs
  · exact (bregs_puts inside).upTo (by decide)
  · exact Puts.upTo (.after_put [ascii 'E'] (wregs_puts inside)) (by decide)
  · exact (wregs_puts inside).upTo (by decide)
  · exact Puts.nothing.upTo (by decide)

/-- Some bytes of the code, and what is put for them. -/
theorem take_put (bytes : Nat) (chars : List UInt8) :
    Puts (.ok ({ s with code := s.code + bytes }.put chars)) s bytes chars.length :=
  .after_take bytes (.put chars)

theorem far_upTo : PutsUpTo (operandText mem s ⟨_A, opreg⟩) s 4 9 := by
  have length (seg offs : UInt32) : (hex 4 seg ++ [ascii ':'] ++ hex 4 offs).length = 9 := by
    rw [List.length_append, List.length_append, hex_four, hex_four]
    rfl
  have run : operandText mem s ⟨_A, opreg⟩ =
      .ok ({ s with code := s.code + 4 }.put (hex 4 (littleEndian mem (s.code + 2) 2) ++
        [ascii ':'] ++ hex 4 (littleEndian mem s.code 2))) := by
    rw [operandText_far, extract_eq]
    dsimp only
    rw [extract_eq]
  rw [run]
  exact (take_put 4 _).upTo (length _ _).le

theorem special_upTo {name : String} (two : (text name).length = 2) {i : Nat} (inside : i < 8) :
    PutsUpTo (.ok (s.put (text name ++ decimal i))) s 0 3 := by
  have length : (text name ++ decimal i).length = 3 := by
    rw [List.length_append, two, decimal_length (by omega)]
  exact (Puts.put _).upTo length.le

theorem immediate_upTo :
    PutsUpTo (operandText mem s ⟨_I, opreg⟩) s (opBytes s.addr32 s.data32 s.modrm ⟨_I, opreg⟩) 8 := by
  rw [operandText_immediate]
  show PutsUpTo _ s
    (if opreg = _b then 1
    else if opreg = _w then 2
    else if opreg = _v then (if s.data32 then 4 else 2)
    else 0) 8
  simp only [extract_eq]
  split_ifs
  · exact (take_put 1 _).upTo ((hex_two mem s.code).le.trans (by decide))
  · exact (take_put 2 _).upTo ((hex_four _).le.trans (by decide))
  · exact (take_put 4 _).upTo (longHex_length _).le
  · exact (take_put 2 _).upTo ((hex_four _).le.trans (by decide))
  · exact Puts.nothing.upTo (by decide)

theorem direct_upTo :
    PutsUpTo (operandText mem s ⟨_O, opreg⟩) s (if s.addr32 then 4 else 2) 20 := by
  have ptr := text_ptrText s opreg
  have long (offs : UInt32) : ([ascii '['] ++ longHex offs ++ [ascii ']']).length = 10 := by
    rw [List.length_append, List.length_append, longHex_length]
    rfl
  have short (offs : UInt32) : ([ascii '['] ++ hex 4 offs ++ [ascii ']']).length = 6 := by
    rw [List.length_append, List.length_append, hex_four]
    rfl
  rw [operandText_direct]
  have addr : (s.put (text (ptrText s opreg))).addr32 = s.addr32 := rfl
  simp only [extract_eq, addr]
  split_ifs
  · exact (Puts.after_put (text (ptrText s opreg)) (take_put 4 _)).upTo (by rw [long]; omega)
  · exact (Puts.after_put (text (ptrText s opreg)) (take_put 2 _)).upTo (by rw [short]; omega)

/-- What a string operand puts in front of its address. -/
theorem stringSize_put (s : DState) (opreg : Nat) (byte word : List UInt8) :
    ∃ front, (if opreg = _b then s.put byte
        else if opreg = _v then (if s.data32 then s.put [ascii 'D'] else s).put word
        else s) = s.put front ∧ front.length ≤ max byte.length (1 + word.length) := by
  have none : s = s.put [] := by rw [DState.put, List.append_nil]
  split_ifs
  · exact ⟨byte, rfl, le_max_left _ _⟩
  · refine ⟨[ascii 'D'] ++ word, ?_, ?_⟩
    · rw [DState.put, DState.put, DState.put, List.append_assoc]
    · rw [List.length_append]
      exact le_max_right _ _
  · exact ⟨word, rfl, (Nat.le_add_left _ _).trans (le_max_right _ _)⟩
  · exact ⟨[], none, Nat.zero_le _⟩

theorem source_upTo : PutsUpTo (operandText mem s ⟨_X, opreg⟩) s 0 17 := by
  obtain ⟨front, same, low⟩ := stringSize_put s opreg (text "BYTE PTR ")
    (text "WORD PTR ")
  have run : operandText mem s ⟨_X, opreg⟩ =
      .ok (((s.put front).put (text (segOverride (s.put front).seg))).put (text "[SI]")) := by
    rw [← same]
    rfl
  have most : max (text "BYTE PTR ").length (1 + (text "WORD PTR ").length) = 10 := by decide
  have tail : (text "[SI]").length = 4 := by decide
  have segment : (text (segOverride (s.put front).seg)).length ≤ 3 := text_segOverride s.seg
  rw [run]
  exact (Puts.after_put front (.after_put _ (.put _))).upTo (by omega)

theorem destination_upTo : PutsUpTo (operandText mem s ⟨_Y, opreg⟩) s 0 14 := by
  obtain ⟨front, same, low⟩ := stringSize_put s opreg (text "BYTE PTR")
    (text "WORD PTR")
  have run : operandText mem s ⟨_Y, opreg⟩ = .ok ((s.put front).put (text " [DI]")) := by
    rw [← same]
    rfl
  have most : max (text "BYTE PTR").length (1 + (text "WORD PTR").length) = 9 := by decide
  have tail : (text " [DI]").length = 5 := by decide
  rw [run]
  exact (Puts.after_put front (.put _)).upTo (by omega)

/-- An operand whose addressing is known, with a register that is one where it names it. -/
def AddOp.Valid (addop : AddOp) : Prop :=
  addop.add < 19 ∧ (addop.add ∈ [_REG, _REGB, _REGS] → addop.opreg < 8)

instance (addop : AddOp) : Decidable addop.Valid :=
  inferInstanceAs (Decidable (_ ∧ _))

variable (mem s) in
/-- An operand keeps to the room of its addressing. -/
theorem operandText_upTo {addop : AddOp} (valid : addop.Valid) (near : addop.add ≠ _J) :
    PutsUpTo (operandText mem s addop) s (opBytes s.addr32 s.data32 s.modrm addop)
      (room addop.add) := by
  obtain ⟨add, opreg⟩ := addop
  obtain ⟨known, register⟩ := valid
  have modrm := (decodeModrm_puts mem s opreg).upTo (modrmChars_le mem s opreg)
  have reg := MODRM_REG_lt s.modrm
  have rm := MODRM_RM_lt s.modrm
  dsimp only at known near register
  change PutsUpTo _ s _ (room add)
  interval_cases add
  · exact far_upTo
  · exact special_upTo (by decide) reg
  · exact special_upTo (by decide) reg
  · exact modrm
  · exact Puts.nothing.upTo (by decide)
  · exact sizedReg_upTo reg false
  · exact immediate_upTo
  · exact absurd rfl near
  · exact modrm
  · exact direct_upTo
  · exact sizedReg_upTo rm true
  · exact (sregs_puts reg).upTo (by decide)
  · exact special_upTo (by decide) reg
  · exact source_upTo
  · exact destination_upTo
  · have inside := register (by decide)
    show PutsUpTo ((if s.data32 then s.put [ascii 'E'] else s).reg wregs opreg) s 0 3
    split_ifs
    · exact (Puts.after_put [ascii 'E'] (wregs_puts inside)).upTo (by decide)
    · exact (wregs_puts inside).upTo (by decide)
  · exact (bregs_puts (register (by decide))).upTo (by decide)
  · exact (sregs_puts (register (by decide))).upTo (by decide)
  · exact Puts.nothing.upTo (by decide)

theorem sextract_eq (mem : Nat → UInt8) (s : DState) (bytes : Nat) :
    ∃ disp, sextract mem s bytes = (disp, { s with code := s.code + bytes }) := by
  rw [sextract, extract_eq]
  dsimp only
  split_ifs <;> exact ⟨_, rfl⟩

/-- An operand that takes `bytes` of the code and puts `chars` characters. -/
def OperandPuts (mem : Nat → UInt8) (s : DState) (offset : UInt32) (addop : AddOp)
    (bytes chars : Nat) : Prop :=
  ∃ text next, operand mem s offset addop =
      .ok ({ s with code := s.code + bytes, args := s.args ++ text }, next) ∧ text.length = chars

theorem OperandPuts.of_text {addop : AddOp} {offset : UInt32} {bytes chars : Nat}
    (near : addop.add ≠ _J) (puts : Puts (operandText mem s addop) s bytes chars) :
    OperandPuts mem s offset addop bytes chars := by
  obtain ⟨text, run, length⟩ := puts
  refine ⟨text, offset, ?_, length⟩
  rw [operand, if_neg near, run, Outcome.bind_ok]

theorem operand_upTo {addop : AddOp} (valid : addop.Valid) (offset : UInt32) :
    ∃ chars ≤ room addop.add,
      OperandPuts mem s offset addop (opBytes s.addr32 s.data32 s.modrm addop) chars := by
  by_cases jump : addop.add = _J
  · obtain ⟨add, opreg⟩ := addop
    cases jump
    have target (wide : Bool) (val : UInt32) :
        (if wide then longHex val else hex 4 val).length ≤ 8 := by
      split_ifs
      · exact (longHex_length _).le
      · exact (hex_four _).le.trans (by decide)
    obtain ⟨disp, took⟩ := sextract_eq mem s (if opreg = _v then (if s.addr32 then 4 else 2) else 1)
    have ran : ∃ val next, operand mem s offset ⟨_J, opreg⟩ =
        .ok ({ s with
          code := s.code + (if opreg = _v then (if s.addr32 then 4 else 2) else 1)
          args := s.args ++ (if s.data32 then longHex val else hex 4 val) }, next) := by
      rw [operand, if_pos rfl]
      dsimp only
      rw [took]
      exact ⟨_, _, rfl⟩
    obtain ⟨val, next, run⟩ := ran
    exact ⟨_, target s.data32 val, _, next, run, rfl⟩
  · obtain ⟨chars, low, puts⟩ := operandText_upTo mem s valid jump
    exact ⟨chars, low, .of_text jump puts⟩

section

variable (popc : Opcode) (op op2 modrm : UInt8)

/-- The operand at an index, after the exceptions. -/
def addopAt (i : Nat) : AddOp := exceptions op op2 modrm i (getOpadd popc i)

/-- The operands of an instruction, up to the first that there is not. -/
def addops : List Nat → List (Nat × AddOp)
  | [] => []
  | i :: rest =>
      if (addopAt popc op op2 modrm i).add = 0 ∧ (addopAt popc op op2 modrm i).opreg = 0 then []
      else (i, addopAt popc op op2 modrm i) :: addops rest

end

variable {popc : Opcode} {op op2 : UInt8}

/-- The loop with one more operand, of which `p` is known, as `q` is of the operands behind it. -/
theorem operandLoop_next {p q : Nat → Prop} {i bytes more : Nat} {rest : List Nat}
    {offset : UInt32}
    (present : ¬ ((addopAt popc op op2 s.modrm i).add = 0 ∧
      (addopAt popc op op2 s.modrm i).opreg = 0))
    (first : ∀ args, ∃ chars, p chars ∧
      OperandPuts mem { s with args } offset (addopAt popc op op2 s.modrm i) bytes chars)
    (after : ∀ args next, ∃ count, q count ∧
      Puts (operandLoop mem popc op op2 rest { s with code := s.code + bytes, args } next)
        { s with code := s.code + bytes, args } more count) :
    ∃ chars count, p chars ∧ q count ∧
      Puts (operandLoop mem popc op op2 (i :: rest) s offset) s (bytes + more)
        ((if i ≠ 0 then 2 else 0) + (chars + count)) := by
  have separator : ∃ front, (if i ≠ 0 then s.put [ascii ',', ascii ' '] else s) =
      { s with args := s.args ++ front } ∧ front.length = if i ≠ 0 then 2 else 0 := by
    split_ifs with later
    · exact ⟨_, rfl, rfl⟩
    · exact ⟨[], by rw [List.append_nil], rfl⟩
  obtain ⟨front, same, two⟩ := separator
  obtain ⟨chars, known, text, next, run, length⟩ := first (s.args ++ front)
  obtain ⟨count, behind, tail, ran, size⟩ := after (s.args ++ front ++ text) next
  refine ⟨chars, count, known, behind, front ++ (text ++ tail), ?_, ?_⟩
  · rw [operandLoop]
    change (if (addopAt popc op op2 s.modrm i).add = 0 ∧
      (addopAt popc op op2 s.modrm i).opreg = 0 then _ else
        (operand mem (if i ≠ 0 then s.put [ascii ',', ascii ' '] else s) offset
          (addopAt popc op op2 s.modrm i)).bind _) = _
    rw [if_neg present, same, run, Outcome.bind_ok]
    dsimp only
    rw [ran]
    simp only [List.append_assoc, Nat.add_assoc]
  · rw [List.length_append, List.length_append, two, length, size]

/-- The bytes of some operands. -/
def opsBytes (addr32 data32 : Bool) (modrm : UInt8) (ops : List (Nat × AddOp)) : Nat :=
  (ops.map fun op => opBytes addr32 data32 modrm op.2).sum

/-- The room of some operands, which are separated by a comma and a blank. -/
def opsRoom (ops : List (Nat × AddOp)) : Nat :=
  (ops.map fun op => (if op.1 ≠ 0 then 2 else 0) + room op.2.add).sum

variable (mem) in
/-- The operands keep to their rooms. -/
theorem operandLoop_upTo (is : List Nat) (s : DState) (offset : UInt32)
    (valid : ∀ pair ∈ addops popc op op2 s.modrm is, pair.2.Valid) :
    PutsUpTo (operandLoop mem popc op op2 is s offset) s
      (opsBytes s.addr32 s.data32 s.modrm (addops popc op op2 s.modrm is))
      (opsRoom (addops popc op op2 s.modrm is)) := by
  induction is generalizing s offset with
  | nil => exact Puts.nothing.upTo (Nat.zero_le _)
  | cons i rest ih =>
      rw [addops] at valid ⊢
      by_cases last : (addopAt popc op op2 s.modrm i).add = 0 ∧
          (addopAt popc op op2 s.modrm i).opreg = 0
      · rw [if_pos last, operandLoop]
        change PutsUpTo (if (addopAt popc op op2 s.modrm i).add = 0 ∧
          (addopAt popc op op2 s.modrm i).opreg = 0 then _ else _) s _ _
        rw [if_pos last]
        exact Puts.nothing.upTo (Nat.zero_le _)
      · rw [if_neg last] at valid ⊢
        have first (args : List UInt8) :
            ∃ chars ≤ room (addopAt popc op op2 s.modrm i).add,
              OperandPuts mem { s with args } offset (addopAt popc op op2 s.modrm i)
                (opBytes s.addr32 s.data32 s.modrm (addopAt popc op op2 s.modrm i)) chars :=
          operand_upTo (valid (i, addopAt popc op op2 s.modrm i) List.mem_cons_self) offset
        have inside : ∀ pair ∈ addops popc op op2 s.modrm rest, pair.2.Valid :=
          fun pair inside => valid pair (List.mem_cons_of_mem _ inside)
        have after (args : List UInt8) (next : UInt32) :
            ∃ count ≤ opsRoom (addops popc op op2 s.modrm rest),
              Puts (operandLoop mem popc op op2 rest { s with
                  code := s.code + opBytes s.addr32 s.data32 s.modrm (addopAt popc op op2 s.modrm i)
                  args } next)
                { s with
                  code := s.code + opBytes s.addr32 s.data32 s.modrm (addopAt popc op op2 s.modrm i)
                  args }
                (opsBytes s.addr32 s.data32 s.modrm (addops popc op op2 s.modrm rest)) count :=
          ih { s with code := s.code + _, args } next inside
        obtain ⟨chars, count, few, low, puts⟩ := operandLoop_next last first after
        rw [opsBytes, opsRoom, List.map_cons, List.map_cons, List.sum_cons, List.sum_cons,
          ← opsBytes, ← opsRoom]
        refine puts.upTo ?_
        dsimp only
        omega

theorem MODRM_REG_ofNat {reg : Nat} (inside : reg < 8) : MODRM_REG (UInt8.ofNat (8 * reg)) = reg := by
  revert inside
  revert reg
  decide

/-- The operands of group 7 that are decoded with a ModRM byte in every place. -/
def Group7 (op op2 modrm : UInt8) : Prop := op = 0x0f ∧ op2 = 0x01 ∧ MODRM_REG modrm > 3

/-- The `reg` fields on which the operands of an opcode can depend, group 7 apart. -/
def regsOf (op op2 : UInt8) : List Nat :=
  if op = 0xf6 ∨ op = 0xf7 ∨ op = 0xff then List.range 8
  else if op = 0x0f ∧ op2 = 0x01 then List.range 4
  else [0]

theorem exceptions_reg (op op2 modrm : UInt8) (i : Nat) (addop : AddOp) :
    exceptions op op2 modrm i addop =
      exceptions op op2 (UInt8.ofNat (8 * MODRM_REG modrm)) i addop := by
  rw [exceptions, exceptions, MODRM_REG_ofNat (MODRM_REG_lt modrm)]

theorem exceptions_none {op op2 : UInt8} (modrm : UInt8) (i : Nat) (addop : AddOp)
    (three : op ≠ 0xf6 ∧ op ≠ 0xf7) (five : op ≠ 0xff) (seven : ¬ (op = 0x0f ∧ op2 = 0x01)) :
    exceptions op op2 modrm i addop = addop := by
  have none : ¬ (op = 0x0f ∧ op2 = 0x01 ∧ MODRM_REG modrm > 3) :=
    fun group => seven ⟨group.1, group.2.1⟩
  rw [exceptions]
  simp only [three.1, three.2, five, none, false_or, false_and, if_false]

variable (popc) in
theorem addops_regsOf {op op2 modrm : UInt8} (low : ¬ Group7 op op2 modrm) :
    ∃ reg ∈ regsOf op op2, ∀ is,
      addops popc op op2 modrm is = addops popc op op2 (UInt8.ofNat (8 * reg)) is := by
  have apart : ∃ reg ∈ regsOf op op2, ∀ i addop,
      exceptions op op2 modrm i addop = exceptions op op2 (UInt8.ofNat (8 * reg)) i addop := by
    rw [regsOf]
    split_ifs with group seven
    · exact ⟨_, List.mem_range.mpr (MODRM_REG_lt modrm), exceptions_reg op op2 modrm⟩
    · have few : MODRM_REG modrm < 4 := by
        by_contra many
        exact low ⟨seven.1, seven.2, by omega⟩
      exact ⟨_, List.mem_range.mpr few, exceptions_reg op op2 modrm⟩
    · obtain ⟨three, four, five⟩ : op ≠ 0xf6 ∧ op ≠ 0xf7 ∧ op ≠ 0xff := by
        simpa only [not_or] using group
      refine ⟨0, List.mem_singleton.mpr rfl, fun i addop => ?_⟩
      rw [exceptions_none _ i addop ⟨three, four⟩ five seven,
        exceptions_none _ i addop ⟨three, four⟩ five seven]
  obtain ⟨reg, inside, same⟩ := apart
  refine ⟨reg, inside, fun is => ?_⟩
  induction is with
  | nil => rfl
  | cons i rest ih => rw [addops, addops, addopAt, addopAt, ← same, ← ih]

/-- The mnemonics of an opcode leave room for the prefixes; a group has one for every `reg`. -/
def mneFits : Mne → Bool
  | .text mne => (text mne).length ≤ 52
  | .ops group => group.length = 8 ∧ ∀ mne ∈ group, (text mne).length ≤ 52

/-- An entry of a table that fits into the buffers. -/
def entryFits (entry : Option Opcode) (op op2 : UInt8) : Bool :=
  match entry with
  | none => false
  | some popc =>
      mneFits popc.mne && (regsOf op op2).all fun reg =>
        let ops := addops popc op op2 (UInt8.ofNat (8 * reg)) [0, 1, 2]
        (ops.all fun pair => pair.2.Valid) && opsRoom ops ≤ 63

theorem opcodes_fit : ∀ op < 256, entryFits opcodes[op]? (UInt8.ofNat op) 0 := by decide +kernel

theorem extopcodes_fit : ∀ op2 < 256, entryFits extopcodes[op2]? 0x0f (UInt8.ofNat op2) := by
  decide +kernel

/-- What an entry that fits says. -/
theorem entryFits_some {entry : Option Opcode} (fits : entryFits entry op op2) :
    ∃ popc, entry = some popc ∧ mneFits popc.mne ∧ ∀ modrm, ¬ Group7 op op2 modrm →
      (∀ pair ∈ addops popc op op2 modrm [0, 1, 2], pair.2.Valid) ∧
        opsRoom (addops popc op op2 modrm [0, 1, 2]) ≤ 63 := by
  cases entry with
  | none => cases fits
  | some popc =>
      simp only [entryFits, Bool.and_eq_true, List.all_eq_true, decide_eq_true_eq] at fits
      refine ⟨popc, rfl, fits.1, fun modrm low => ?_⟩
      obtain ⟨reg, inside, same⟩ := addops_regsOf popc low
      rw [same]
      exact fits.2 reg inside

theorem mnemonic_length {mne : Mne} (fits : mneFits mne) (modrm : UInt8) :
    ∃ name, mnemonic mne modrm = .ok name ∧ name.length ≤ 52 := by
  cases mne with
  | text mne => exact ⟨_, rfl, of_decide_eq_true fits⟩
  | ops group =>
      obtain ⟨eight, all⟩ : group.length = 8 ∧ ∀ mne ∈ group, (text mne).length ≤ 52 := by
        simpa only [mneFits, decide_eq_true_eq] using fits
      have inside : MODRM_REG modrm < group.length := by
        rw [eight]
        exact MODRM_REG_lt modrm
      refine ⟨text group[(MODRM_REG modrm)], ?_, all _ (List.getElem_mem inside)⟩
      rw [mnemonic, List.getElem?_eq_getElem inside]

theorem prefixText_length (s : DState) : (prefixText s).length ≤ 11 := by
  rw [prefixText]
  cases s.lock <;> cases s.rep <;> decide

/-! ### Prefixes -/

/-- A byte on which the loop of `prefix` goes on. -/
def IsPrefix (byte : UInt8) : Prop :=
  byte ∈ [0x2e, 0x36, 0x3e, 0x26, 0x64, 0x65, 0x66, 0x67, 0xf0, 0xf2, 0xf3]

instance (byte : UInt8) : Decidable (IsPrefix byte) := inferInstanceAs (Decidable (_ ∈ _))

theorem prefixByte_none {s : DState} {byte : UInt8} :
    prefixByte s byte = none ↔ ¬ IsPrefix byte := by
  have next {c : Prop} [Decidable c] (after : DState) (rest : Option DState) :
      (if c then some after else rest) = none ↔ ¬ c ∧ rest = none := by
    by_cases here : c <;> simp [here]
  simp only [prefixByte, IsPrefix, next, List.mem_cons, List.not_mem_nil, or_false, not_or,
    and_true]

/-- A prefix changes nothing of what the operands are made of but the sizes and the segment. -/
theorem prefixByte_some {s after : DState} {byte : UInt8} (found : prefixByte s byte = some after) :
    after.code = s.code ∧ after.args = s.args ∧ after.modrm = s.modrm := by
  have next {p : DState → Prop} {c : Prop} [Decidable c] {here : DState} {rest : Option DState}
      (same : p here) (later : ∀ after, rest = some after → p after) :
      ∀ after, (if c then some here else rest) = some after → p after := by
    intro after found
    by_cases holds : c
    · rw [if_pos holds] at found
      cases found
      exact same
    · rw [if_neg holds] at found
      exact later after found
  have all : ∀ after, prefixByte s byte = some after →
      after.code = s.code ∧ after.args = s.args ∧ after.modrm = s.modrm := by
    unfold prefixByte
    iterate 11
      refine next ?_ ?_
      · exact ⟨rfl, rfl, rfl⟩
    intro after found
    cases found
  exact all after found

/-- The state behind some prefixes. -/
def prefixed (mem : Nat → UInt8) : Nat → DState
  | 0 => ⟨0, [], 0, false, false, false, .none, .none⟩
  | n + 1 => { (prefixByte (prefixed mem n) (mem n)).getD (prefixed mem n) with code := n + 1 }

theorem prefixed_eq (mem : Nat → UInt8) (n : Nat) :
    (prefixed mem n).code = n ∧ (prefixed mem n).args = [] ∧ (prefixed mem n).modrm = 0 := by
  induction n with
  | zero => exact ⟨rfl, rfl, rfl⟩
  | succ n ih =>
      rw [prefixed]
      cases found : prefixByte (prefixed mem n) (mem n) with
      | none => exact ⟨rfl, ih.2⟩
      | some after =>
          obtain ⟨-, args, modrm⟩ := prefixByte_some found
          exact ⟨rfl, args.trans ih.2.1, modrm.trans ih.2.2⟩

theorem prefixLoop_eq {n : Nat} (prefixes : ∀ i < n, IsPrefix (mem i)) (first : ¬ IsPrefix (mem n))
    {fuel at_ : Nat} (before : at_ ≤ n) (enough : n - at_ < fuel) :
    prefixLoop mem fuel (prefixed mem at_) = .ok (prefixed mem n) := by
  induction fuel generalizing at_ with
  | zero => omega
  | succ fuel ih =>
      rw [prefixLoop, (prefixed_eq mem at_).1]
      rcases Nat.lt_or_ge at_ n with more | done
      · cases found : prefixByte (prefixed mem at_) (mem at_) with
        | none => exact absurd (prefixes at_ more) (prefixByte_none.mp found)
        | some after =>
            have next : { after with code := after.code + 1 } = prefixed mem (at_ + 1) := by
              rw [prefixed, found, (prefixByte_some found).1, (prefixed_eq mem at_).1]
              rfl
            dsimp only
            rw [next]
            exact ih more (by omega)
      · have same : at_ = n := by omega
        subst same
        rw [prefixByte_none.mpr first]

/-! ### Instructions -/

section

variable (mem : Nat → UInt8) (n : Nat)

/-- The second byte of the opcode at `n`, and its entry. -/
def op2At : UInt8 := if mem n = 0x0f then mem (n + 1) else 0

def entryAt : Option Opcode :=
  if mem n = 0x0f then extopcodes[(op2At mem n).toNat]? else opcodes[(mem n).toNat]?

def popcAt : Opcode := (entryAt mem n).getD (IMP "")

/-- The bytes of the opcode. -/
def opcodeBytes : Nat := if mem n = 0x0f then 2 else 1

/-- If the opcode has a ModRM byte. -/
def hasModrm : Bool := needModrm (popcAt mem n) || (popcAt mem n).mne.modop

/-- The state in front of the operands. -/
def operandState (is32 : Bool) : DState :=
  let s := prefixed mem n
  { s with
    code := n + opcodeBytes mem n + (if hasModrm mem n then 1 else 0)
    modrm := if hasModrm mem n then mem (n + opcodeBytes mem n) else s.modrm
    addr32 := if is32 then !s.addr32 else s.addr32
    data32 := if is32 then !s.data32 else s.data32 }

/-- The operands of the instruction. -/
def opsAt (is32 : Bool) : List (Nat × AddOp) :=
  addops (popcAt mem n) (mem n) (op2At mem n) (operandState mem n is32).modrm [0, 1, 2]

/-- Where the instruction ends. -/
def endAt (is32 : Bool) : Nat :=
  let s := operandState mem n is32
  s.code + opsBytes s.addr32 s.data32 s.modrm (opsAt mem n is32)

/-- The characters of group 7 above 3, whose operand is decoded in every place, with the bytes
that follow. -/
def group7Chars (is32 : Bool) : Nat :=
  let s := operandState mem n is32
  let bytes := modrmTaken s.addr32 s.modrm
  modrmChars mem s _w + (2 + (modrmChars mem { s with code := s.code + bytes } _w +
    (2 + modrmChars mem { s with code := s.code + bytes + bytes } _w)))

end

theorem disasm_eq {n : Nat} (prefixes : ∀ i < n, IsPrefix (mem i)) (first : ¬ IsPrefix (mem n))
    {fuel : Nat} (enough : n < fuel) (offset : UInt32) (is32 : Bool) {popc : Opcode}
    (entry : entryAt mem n = some popc) :
    disasm mem fuel offset is32 =
      (mnemonic popc.mne (operandState mem n is32).modrm).bind fun name =>
        (operandLoop mem popc (mem n) (op2At mem n) [0, 1, 2] (operandState mem n is32)
          offset).bind fun s =>
            if s.args.length ≥ 64 then .panic "disassembler overrun"
            else .ok (⟨int16 s.code, prefixText (prefixed mem n) ++ name, s.args⟩, s.code) := by
  have start := prefixLoop_eq prefixes first (Nat.zero_le n) (by omega : n - 0 < fuel)
  have some : popcAt mem n = popc := by
    rw [popcAt, entry]
    rfl
  obtain ⟨one, found⟩ : ∃ one, opcodes[(mem n).toNat]? = .some one := by
    have fits := opcodes_fit (mem n).toNat (mem n).toNat_lt
    cases none : opcodes[(mem n).toNat]? with
    | none =>
        rw [none] at fits
        cases fits
    | some one => exact ⟨one, rfl⟩
  obtain ⟨code, args, modrm⟩ := prefixed_eq mem n
  rw [disasm]
  change (prefixLoop mem fuel (prefixed mem 0)).bind _ = _
  rw [start, Outcome.bind_ok]
  dsimp only
  rw [code, opcodeAt, found]
  dsimp only
  rw [Outcome.bind_ok]
  by_cases ext : mem n = 0x0f
  · rw [entryAt, if_pos ext, op2At, if_pos ext] at entry
    rw [if_pos ext, if_pos ext, if_pos ext, opcodeAt, entry]
    dsimp only
    rw [Outcome.bind_ok]
    rw [operandState, hasModrm, some, opcodeBytes, op2At, if_pos ext, if_pos ext]
    cases needModrm popc || popc.mne.modop <;> cases is32 <;> rfl
  · rw [entryAt, if_neg ext, found] at entry
    cases entry
    rw [if_neg ext, if_neg ext, if_neg ext, Outcome.bind_ok]
    rw [operandState, hasModrm, some, opcodeBytes, op2At, if_neg ext, if_neg ext]
    cases needModrm popc || popc.mne.modop <;> cases is32 <;> rfl

theorem entryAt_fits (mem : Nat → UInt8) (n : Nat) :
    entryFits (entryAt mem n) (mem n) (op2At mem n) := by
  rw [entryAt, op2At]
  split_ifs with ext
  · have fits := extopcodes_fit (mem (n + 1)).toNat (mem (n + 1)).toNat_lt
    rwa [UInt8.ofNat_toNat, ← ext] at fits
  · have fits := opcodes_fit (mem n).toNat (mem n).toNat_lt
    rwa [UInt8.ofNat_toNat] at fits

/-- A count of bytes fits into an `int`. -/
theorem int16_ofNat {count : Nat} : int16 count = count ↔ count < 0x8000 := by
  constructor
  · intro same
    have most : int16 count < 0x8000 := Int.bmod_lt (by decide)
    omega
  · intro few
    exact int16_eq (by omega) (by omega)

/-- The operand of group 7 above 3 is put three times. -/
theorem group7_puts {is32 : Bool} {n : Nat}
    (group : Group7 (mem n) (op2At mem n) (operandState mem n is32).modrm) (offset : UInt32) :
    Puts (operandLoop mem (popcAt mem n) (mem n) (op2At mem n) [0, 1, 2] (operandState mem n is32)
        offset) (operandState mem n is32)
      (opsBytes (operandState mem n is32).addr32 (operandState mem n is32).data32
        (operandState mem n is32).modrm (opsAt mem n is32))
      (group7Chars mem n is32) := by
  have seven (i : Nat) : addopAt (popcAt mem n) (mem n) (op2At mem n)
      (operandState mem n is32).modrm i = ⟨_E, _w⟩ := if_pos group
  have ops : opsAt mem n is32 = [(0, ⟨_E, _w⟩), (1, ⟨_E, _w⟩), (2, ⟨_E, _w⟩)] := by
    simp [opsAt, addops, seven]
  rw [ops, group7Chars]
  generalize operandState mem n is32 = s at *
  have present (i : Nat) : ¬ ((addopAt (popcAt mem n) (mem n) (op2At mem n) s.modrm i).add = 0 ∧
      (addopAt (popcAt mem n) (mem n) (op2At mem n) s.modrm i).opreg = 0) := by
    rw [seven i]
    decide
  have operand (i code : Nat) (args : List UInt8) (offset : UInt32) :
      ∃ chars, chars = modrmChars mem { s with code } _w ∧
        OperandPuts mem { s with code, args } offset
          (addopAt (popcAt mem n) (mem n) (op2At mem n) s.modrm i) (modrmTaken s.addr32 s.modrm)
          chars := by
    rw [seven i]
    exact ⟨_, rfl, .of_text (by decide) (decodeModrm_puts mem { s with code, args } _w)⟩
  -- from the last operand to the first, each at its place in the code
  have last (code : Nat) (args : List UInt8) (offset : UInt32) :
      ∃ count, count = 2 + modrmChars mem { s with code } _w ∧
        Puts (operandLoop mem (popcAt mem n) (mem n) (op2At mem n) [2] { s with code, args } offset)
          { s with code, args } (modrmTaken s.addr32 s.modrm) count := by
    have none (code : Nat) (args : List UInt8) (offset : UInt32) : ∃ count, count = 0 ∧
        Puts (operandLoop mem (popcAt mem n) (mem n) (op2At mem n) [] { s with code, args } offset)
          { s with code, args } 0 count := ⟨0, rfl, .nothing⟩
    obtain ⟨_, _, rfl, rfl, puts⟩ := operandLoop_next
      (s := { s with code, args }) (present 2) (fun args => operand 2 code args offset)
      fun args next => none (code + modrmTaken s.addr32 s.modrm) args next
    exact ⟨_, rfl, puts⟩
  have two (code : Nat) (args : List UInt8) (offset : UInt32) :
      ∃ count, count = 2 + (modrmChars mem { s with code } _w + (2 +
          modrmChars mem { s with code := code + modrmTaken s.addr32 s.modrm } _w)) ∧
        Puts (operandLoop mem (popcAt mem n) (mem n) (op2At mem n) [1, 2] { s with code, args }
          offset) { s with code, args } (modrmTaken s.addr32 s.modrm + modrmTaken s.addr32 s.modrm)
          count := by
    obtain ⟨_, _, rfl, rfl, puts⟩ := operandLoop_next
      (s := { s with code, args }) (present 1) (fun args => operand 1 code args offset)
      fun args next => last (code + modrmTaken s.addr32 s.modrm) args next
    exact ⟨_, rfl, puts⟩
  obtain ⟨_, _, rfl, rfl, puts⟩ := operandLoop_next (s := s) (present 0)
    (fun args => operand 0 s.code args offset)
    fun args next => two (s.code + modrmTaken s.addr32 s.modrm) args next
  rwa [if_neg (by decide), Nat.zero_add] at puts

/-- The disassembler stays inside of its buffers, and counts the bytes that it takes, if and only
if the operand of group 7 above 3 is short enough to be put three times and the count fits into
an `int`. -/
theorem disasm_inside {n : Nat} (prefixes : ∀ i < n, IsPrefix (mem i))
    (first : ¬ IsPrefix (mem n)) {fuel : Nat} (enough : n < fuel) (offset : UInt32) (is32 : Bool) :
    (∃ out taken, disasm mem fuel offset is32 = .ok (out, taken) ∧ out.mne.length ≤ 63 ∧
      out.args.length ≤ 63 ∧ out.bytes = taken ∧ 1 ≤ taken) ↔
    (Group7 (mem n) (op2At mem n) (operandState mem n is32).modrm →
      group7Chars mem n is32 ≤ 63) ∧ endAt mem n is32 < 0x8000 := by
  obtain ⟨popc, entry, mne, rooms⟩ := entryFits_some (entryAt_fits mem n)
  have same : popcAt mem n = popc := by
    rw [popcAt, entry]
    rfl
  obtain ⟨name, named, short⟩ := mnemonic_length mne (operandState mem n is32).modrm
  have front := prefixText_length (prefixed mem n)
  have run := disasm_eq prefixes first enough offset is32 entry
  rw [named, Outcome.bind_ok, ← same] at run
  have puts : ∃ count, Puts (operandLoop mem (popcAt mem n) (mem n) (op2At mem n) [0, 1, 2]
      (operandState mem n is32) offset) (operandState mem n is32)
      (opsBytes (operandState mem n is32).addr32 (operandState mem n is32).data32
        (operandState mem n is32).modrm (opsAt mem n is32)) count ∧
      (count ≤ 63 ↔ (Group7 (mem n) (op2At mem n) (operandState mem n is32).modrm →
        group7Chars mem n is32 ≤ 63)) := by
    by_cases group : Group7 (mem n) (op2At mem n) (operandState mem n is32).modrm
    · exact ⟨_, group7_puts group offset, by simp only [group, true_imp_iff]⟩
    · obtain ⟨valid, small⟩ := rooms _ group
      rw [← same] at valid small
      obtain ⟨count, low, puts⟩ := operandLoop_upTo mem [0, 1, 2]
        (operandState mem n is32) offset valid
      exact ⟨count, puts, fun _ high => absurd high group, fun _ => low.trans small⟩
  obtain ⟨count, ⟨chars, ran, length⟩, fits⟩ := puts
  have empty : (operandState mem n is32).args = [] := (prefixed_eq mem n).2.1
  have place : (operandState mem n is32).code + opsBytes (operandState mem n is32).addr32
      (operandState mem n is32).data32 (operandState mem n is32).modrm (opsAt mem n is32) =
        endAt mem n is32 := rfl
  have some : 1 ≤ endAt mem n is32 := by
    rw [endAt, operandState, opcodeBytes]
    dsimp only
    split_ifs <;> omega
  rw [ran, Outcome.bind_ok] at run
  dsimp only at run
  rw [empty, List.nil_append, place] at run
  rw [run, ← fits, ← length]
  generalize endAt mem n is32 = stop at some ⊢
  constructor
  · rintro ⟨out, taken, ended, -, args, bytes, -⟩
    split_ifs at ended
    obtain ⟨rfl, rfl⟩ := Prod.mk.inj (Outcome.ok.inj ended)
    dsimp only at bytes
    exact ⟨args, int16_ofNat.mp bytes⟩
  · rintro ⟨low, few⟩
    have inside : ¬ chars.length ≥ 64 := Nat.not_le_of_lt (Nat.lt_succ_of_le low)
    rw [if_neg inside]
    refine ⟨_, _, rfl, ?_, low, ?_, some⟩
    · dsimp only
      rw [List.length_append]
      exact (Nat.add_le_add front short).trans (by decide)
    · dsimp only
      exact int16_ofNat.mpr few

/-- `SMSW CS:[BX+SI+1234h]`. -/
def smsw (a : Nat) : UInt8 :=
  [0x2e, 0x0f, 0x01, 0xa0, 0x34, 0x12, 0x34, 0x12, 0x34, 0x12].getD a 0

theorem disasm_inside_smsw :
    (∃ out taken, disasm smsw 2 0 false = .ok (out, taken) ∧ out.mne.length ≤ 63 ∧
      out.args.length ≤ 63 ∧ out.bytes = taken ∧ 1 ≤ taken) ↔
    (Group7 (smsw 1) (op2At smsw 1) (operandState smsw 1 false).modrm →
      group7Chars smsw 1 false ≤ 63) ∧ endAt smsw 1 false < 0x8000 :=
  disasm_inside (by decide) (by decide) (by decide) 0 false

/-- The operand of `SMSW` is put three times, and the panic comes after the writes. -/
theorem disasm_overruns :
    ¬ ∀ (mem : Nat → UInt8) (n : Nat), (∀ i < n, IsPrefix (mem i)) → ¬ IsPrefix (mem n) →
      ∀ fuel > n, ∀ offset is32, ∃ out taken,
        disasm mem fuel offset is32 = .ok (out, taken) ∧ out.mne.length ≤ 63 ∧
          out.args.length ≤ 63 ∧ out.bytes = taken ∧ 1 ≤ taken := by
  intro claim
  obtain ⟨out, taken, ran, -⟩ := claim smsw 1 (by decide) (by decide) 2 (by decide) 0 false
  have panics : (disasm smsw 2 0 false).panicked = some "disassembler overrun" := by
    decide +kernel
  rw [ran] at panics
  cases panics

end Pegasos.Kernel.Debug
