import Pegasos.Kernel.Debug.Opcodes
import Pegasos.Printf.Numbers
import Pegasos.Support.CInt
import Pegasos.Support.Outcome

/-!
# The disassembler

`disasm` of `dis386.c` and its helpers.  The code is a stream of bytes from `csip` on; the texts
grow at their ends, and an index outside of a table is a panic of the model.
-/

namespace Pegasos.Kernel.Debug

open Pegasos.Support
open Printf (ascii printHex printInt FL_ZEROPAD FL_LONG)

def MODRM_MOD (modrm : UInt8) : Nat := modrm.toNat / 0x40 % 4
def MODRM_REG (modrm : UInt8) : Nat := modrm.toNat / 8 % 8
def MODRM_RM (modrm : UInt8) : Nat := modrm.toNat % 8

def SIB_SS (sib : UInt8) : Nat := sib.toNat / 0x40 % 4
def SIB_INDEX (sib : UInt8) : Nat := sib.toNat / 8 % 8
def SIB_BASE (sib : UInt8) : Nat := sib.toNat % 8

inductive Seg where
  | none
  | cs
  | ds
  | es
  | ss
  | fs
  | gs
  deriving DecidableEq

inductive Rep where
  | none
  | rep
  | repne
  deriving DecidableEq

/-- `distate_t`, with the number of bytes that were taken for `code`. -/
structure DState where
  code : Nat
  args : List UInt8
  modrm : UInt8
  addr32 : Bool
  data32 : Bool
  lock : Bool
  seg : Seg
  rep : Rep

/-- The characters of a string. -/
def text (string : String) : List UInt8 := string.toList.map ascii

namespace DState

variable (s : DState)

/-- Characters behind the arguments. -/
def put (chars : List UInt8) : DState := { s with args := s.args ++ chars }

/-- The string of a table behind the arguments. -/
def reg (table : List String) (i : Nat) : Outcome DState :=
  match table[i]? with
  | some name => .ok (s.put (text name))
  | none => .panic "index"

end DState

/-- `sprintf` with `%0` and the width, for an `unsigned`. -/
def hex (width : Nat) (val : UInt32) : List UInt8 :=
  (printHex (val &&& 0xffff) FL_ZEROPAD width).out

/-- `sprintf` with `%08lx`. -/
def longHex (val : UInt32) : List UInt8 := (printHex val (FL_ZEROPAD ||| FL_LONG) 8).out

/-- `sprintf` with `%u`. -/
def decimal (val : Nat) : List UInt8 := (printInt (UInt32.ofNat val) 0 (-1)).out

section

variable (mem : Nat → UInt8)

/-- `extract` -/
def extract (s : DState) : Nat → UInt32 × DState
  | 0 => (0, s)
  | bytes + 1 =>
      let (val, s) := extract s bytes
      (val ||| (mem s.code).toUInt32 <<< UInt32.ofNat (bytes * 8), { s with code := s.code + 1 })

/-- `sextract`: the sign of one or two bytes is extended. -/
def sextract (s : DState) (bytes : Nat) : UInt32 × DState :=
  let (val, s) := extract mem s bytes
  if bytes = 1 then (if val &&& 0x80 ≠ 0 then val ||| 0xffffff00 else val, s)
  else if bytes = 2 then (if val &&& 0x8000 ≠ 0 then val ||| 0xffff0000 else val, s)
  else (val, s)

/-- What `prefix` does with one byte, if it is a prefix. -/
def prefixByte (s : DState) (byte : UInt8) : Option DState :=
  if byte = 0x2e then some { s with seg := .cs }
  else if byte = 0x36 then some { s with seg := .ss }
  else if byte = 0x3e then some { s with seg := .ds }
  else if byte = 0x26 then some { s with seg := .es }
  else if byte = 0x64 then some { s with seg := .fs }
  else if byte = 0x65 then some { s with seg := .gs }
  else if byte = 0x66 then some { s with data32 := true }
  else if byte = 0x67 then some { s with addr32 := true }
  else if byte = 0xf0 then some { s with lock := true }
  else if byte = 0xf2 then some { s with rep := .repne }
  else if byte = 0xf3 then some { s with rep := .rep }
  else none

/-- The loop of `prefix`. -/
def prefixLoop : Nat → DState → Outcome DState
  | 0, _ => .hang
  | fuel + 1, s =>
      match prefixByte s (mem s.code) with
      | some s => prefixLoop fuel { s with code := s.code + 1 }
      | none => .ok s

/-- `get_opadd` -/
def getOpadd (popc : Opcode) (index : Nat) : AddOp :=
  if index = 0 then popc.d
  else if index = 1 then popc.s
  else if index = 2 then popc.op3
  else ⟨0, 0⟩

/-- The loop of `need_modrm` over the operands that are left. -/
def needModrmLoop : List AddOp → Bool
  | [] => false
  | addop :: rest =>
      if addop.add = 0 ∧ addop.opreg = 0 then false
      else if addop.add ∈ [_C, _D, _E, _G, _M, _R, _S, _T] then true
      else needModrmLoop rest

/-- `need_modrm` -/
def needModrm (popc : Opcode) : Bool :=
  needModrmLoop [getOpadd popc 0, getOpadd popc 1, getOpadd popc 2]

/-- `seg_override` -/
def segOverride : Seg → String
  | .cs => "CS:"
  | .ds => "DS:"
  | .es => "ES:"
  | .ss => "SS:"
  | .fs => "FS:"
  | .gs => "GS:"
  | .none => ""

/-- The base of `decode_sib`, which is left out without a `plus`. -/
def sibBase (plus : Prop) [Decidable plus] (base : Nat) (s : DState) : Outcome DState :=
  if plus then (s.put [ascii 'E']).reg wregs base else .ok s

/-- The scale behind an index. -/
def sibScale (ss : Nat) (s : DState) : DState :=
  if ss ≠ 1 then (s.put [ascii '*']).put (decimal ss) else s

/-- The index of `decode_sib`. -/
def sibIndex (plus : Prop) [Decidable plus] (index ss : Nat) (s : DState) : Outcome DState :=
  if index ≠ 4 then
    let s := if plus then s.put [ascii '+'] else s
    ((s.put [ascii 'E']).reg wregs index).bind fun s => .ok (sibScale ss s)
  else .ok s

/-- The displacement of `decode_sib`. -/
def sibDisp (plus : Prop) [Decidable plus] (mod : Nat) (s : DState) : DState :=
  if mod = 1 ∨ mod = 2 then
    let (disp, s) := extract mem s (if mod = 1 then 1 else 4)
    if disp ≠ 0 then
      let s := if plus then s.put [ascii '+'] else s
      s.put (if mod = 1 then hex 2 disp else longHex disp)
    else s
  else s

/-- `decode_sib` -/
def decodeSib (s : DState) : Outcome DState :=
  let sib := mem s.code
  let s := { s with code := s.code + 1 }
  let ss := 1 <<< SIB_SS sib
  let index := SIB_INDEX sib
  let base := SIB_BASE sib
  let mod := MODRM_MOD s.modrm
  let plus := ¬ (mod = 0 ∧ base = 5)
  (sibBase plus base (s.put [ascii '['])).bind fun s =>
    (sibIndex plus index ss s).bind fun s =>
      let plus := plus ∨ index ≠ 4
      .ok ((sibDisp mem plus mod s).put [ascii ']'])

/-- The text in front of an operand in memory. -/
def ptrText (s : DState) (oper : Nat) : String :=
  if oper = _b then "BYTE PTR "
  else if oper = _w ∨ (oper = _v ∧ s.data32 = false) then "WORD PTR "
  else if oper = _d ∨ (oper = _v ∧ s.data32 = true) then "DWORD PTR "
  else ""

/-- The register, or the registers, of an address of `decode_modrm`. -/
def modrmBase (rm : Nat) (s : DState) : Outcome DState :=
  if s.addr32 then (s.put [ascii 'E']).reg wregs rm else s.reg baseindex rm

/-- The displacement of `decode_modrm`. -/
def modrmDisp (mod : Nat) (s : DState) : DState :=
  if mod = 1 ∨ mod = 2 then
    -- in 32-bit addressing mod 2 means a 32-bit displacement
    let mod := if s.addr32 = true ∧ mod = 2 then 4 else mod
    let (disp, s) := extract mem s mod
    if disp ≠ 0 then
      s.put (ascii '+' ::
        (if mod = 1 then hex 2 disp else if s.addr32 then longHex disp else hex 4 disp))
    else s
  else s

/-- The address of `decode_modrm`; one that is only a displacement is different in 16-bit and in
32-bit addressing. -/
def decodeAddress (s : DState) : Outcome DState :=
  let mod := MODRM_MOD s.modrm
  let rm := MODRM_RM s.modrm
  if mod = 0 ∧ s.addr32 = true ∧ rm = 5 then
    let (disp, s) := extract mem s 4
    .ok (s.put ([ascii '['] ++ longHex disp ++ [ascii ']']))
  else if mod = 0 ∧ s.addr32 = false ∧ rm = 6 then
    let (disp, s) := extract mem s 2
    .ok (s.put ([ascii '['] ++ hex 4 disp ++ [ascii ']']))
  else if s.addr32 = true ∧ rm = 4 then decodeSib mem s
  else
    (modrmBase rm (s.put [ascii '['])).bind fun s =>
      .ok ((modrmDisp mem mod s).put [ascii ']'])

/-- `decode_modrm` -/
def decodeModrm (s : DState) (oper : Nat) : Outcome DState :=
  let mod := MODRM_MOD s.modrm
  let rm := MODRM_RM s.modrm
  -- mod 3 is the same regardless of the address size
  if mod = 3 then
    if oper = _b then s.reg bregs rm
    else
      let s := if oper = _d ∨ (oper = _v ∧ s.data32 = true) then s.put [ascii 'E'] else s
      s.reg wregs rm
  else
    let s := s.put (text (ptrText s oper))
    decodeAddress mem (s.put (text (segOverride s.seg)))

/-- The register of the `reg` field, or of the `r/m` field, in the size of an operand. -/
def sizedReg (s : DState) (opreg i : Nat) (always32 : Bool) : Outcome DState :=
  if opreg = _b then s.reg bregs i
  else if opreg = _v ∨ (always32 = true ∧ opreg = _d) then
    let s := if (always32 = true ∧ opreg = _d) ∨ s.data32 = true then s.put [ascii 'E'] else s
    s.reg wregs i
  else .ok s

/-- An operand of the loop of `disasm`, jump targets apart. -/
def operandText (s : DState) (addop : AddOp) : Outcome DState :=
  let opreg := addop.opreg
  if addop.add = _A then
    let (offs, s) := extract mem s 2
    let (seg, s) := extract mem s 2
    .ok (s.put (hex 4 seg ++ [ascii ':'] ++ hex 4 offs))
  else if addop.add = _C then .ok (s.put (text "CR" ++ decimal (MODRM_REG s.modrm)))
  else if addop.add = _D then .ok (s.put (text "DR" ++ decimal (MODRM_REG s.modrm)))
  else if addop.add = _E ∨ addop.add = _M then decodeModrm mem s opreg
  else if addop.add = _G then sizedReg s opreg (MODRM_REG s.modrm) false
  else if addop.add = _I then
    if opreg = _b then
      let (offs, s) := extract mem s 1
      .ok (s.put (hex 2 offs))
    else if opreg = _w then
      let (offs, s) := extract mem s 2
      .ok (s.put (hex 4 offs))
    else if opreg = _v then
      let (offs, s) := extract mem s (if s.data32 then 4 else 2)
      .ok (s.put (if s.data32 then longHex offs else hex 4 offs))
    else .ok s
  else if addop.add = _O then
    let s := s.put (text (ptrText s opreg))
    if s.addr32 then
      let (offs, s) := extract mem s 4
      .ok (s.put ([ascii '['] ++ longHex offs ++ [ascii ']']))
    else
      let (offs, s) := extract mem s 2
      .ok (s.put ([ascii '['] ++ hex 4 offs ++ [ascii ']']))
  else if addop.add = _R then sizedReg s opreg (MODRM_RM s.modrm) true
  else if addop.add = _S then s.reg sregs (MODRM_REG s.modrm)
  else if addop.add = _T then .ok (s.put (text "TR" ++ decimal (MODRM_REG s.modrm)))
  else if addop.add = _X then
    let s :=
      if opreg = _b then s.put (text "BYTE PTR ")
      else if opreg = _v then
        (if s.data32 then s.put [ascii 'D'] else s).put (text "WORD PTR ")
      else s
    .ok ((s.put (text (segOverride s.seg))).put (text "[SI]"))
  else if addop.add = _Y then
    let s :=
      if opreg = _b then s.put (text "BYTE PTR")
      else if opreg = _v then
        (if s.data32 then s.put [ascii 'D'] else s).put (text "WORD PTR")
      else s
    .ok (s.put (text " [DI]"))
  else if addop.add = _REG then
    (if s.data32 then s.put [ascii 'E'] else s).reg wregs opreg
  else if addop.add = _REGB then s.reg bregs opreg
  else if addop.add = _REGS then s.reg sregs opreg
  else .ok s

theorem operandText_far (s : DState) (opreg : Nat) :
    operandText mem s ⟨_A, opreg⟩ =
      let (offs, s) := extract mem s 2
      let (seg, s) := extract mem s 2
      .ok (s.put (hex 4 seg ++ [ascii ':'] ++ hex 4 offs)) := rfl

theorem operandText_immediate (s : DState) (opreg : Nat) :
    operandText mem s ⟨_I, opreg⟩ =
      if opreg = _b then
        let (offs, s) := extract mem s 1
        .ok (s.put (hex 2 offs))
      else if opreg = _w then
        let (offs, s) := extract mem s 2
        .ok (s.put (hex 4 offs))
      else if opreg = _v then
        let (offs, s) := extract mem s (if s.data32 then 4 else 2)
        .ok (s.put (if s.data32 then longHex offs else hex 4 offs))
      else .ok s := rfl

theorem operandText_direct (s : DState) (opreg : Nat) :
    operandText mem s ⟨_O, opreg⟩ =
      let s := s.put (text (ptrText s opreg))
      if s.addr32 then
        let (offs, s) := extract mem s 4
        .ok (s.put ([ascii '['] ++ longHex offs ++ [ascii ']']))
      else
        let (offs, s) := extract mem s 2
        .ok (s.put ([ascii '['] ++ hex 4 offs ++ [ascii ']'])) := rfl

/-- An operand of the loop of `disasm`, and `offset`, to which a jump adds. -/
def operand (s : DState) (offset : UInt32) (addop : AddOp) : Outcome (DState × UInt32) :=
  if addop.add = _J then
    let bytes := if addop.opreg = _v then (if s.addr32 then 4 else 2) else 1
    let (disp, s) := sextract mem s bytes
    let offset := offset + UInt32.ofInt (int16 s.code)
    .ok (s.put (if s.data32 then longHex (disp + offset) else hex 4 (disp + offset)), offset)
  else (operandText mem s addop).bind fun s => .ok (s, offset)

/-- The exceptions of the groups 3, 5 and 7. -/
def exceptions (op op2 modrm : UInt8) (i : Nat) (addop : AddOp) : AddOp :=
  let addop :=
    if (op = 0xf6 ∨ op = 0xf7) ∧ MODRM_REG modrm < 2 ∧ i = 1 then
      ⟨_I, if op &&& 1 ≠ 0 then _v else _b⟩
    else addop
  let addop :=
    if op = 0xff ∧ (MODRM_REG modrm = 3 ∨ MODRM_REG modrm = 5) then { addop with opreg := _p }
    else addop
  if op = 0x0f ∧ op2 = 0x01 ∧ MODRM_REG modrm > 3 then ⟨_E, _w⟩ else addop

/-- The loop of `disasm` over the operands. -/
def operandLoop (popc : Opcode) (op op2 : UInt8) : List Nat → DState → UInt32 → Outcome DState
  | [], s, _ => .ok s
  | i :: rest, s, offset =>
      let addop := exceptions op op2 s.modrm i (getOpadd popc i)
      if addop.add = 0 ∧ addop.opreg = 0 then .ok s
      else
        let s := if i ≠ 0 then s.put [ascii ',', ascii ' '] else s
        (operand mem s offset addop).bind fun (s, offset) =>
          operandLoop popc op op2 rest s offset

/-- `disinstr_t` -/
structure DisInstr where
  bytes : Int
  mne : List UInt8
  args : List UInt8

/-- An entry of an opcode table. -/
def opcodeAt (table : List Opcode) (op : UInt8) : Outcome Opcode :=
  match table[op.toNat]? with
  | some popc => .ok popc
  | none => .panic "index"

/-- The mnemonic of an opcode. -/
def mnemonic (mne : Mne) (modrm : UInt8) : Outcome (List UInt8) :=
  match mne with
  | .text mne => .ok (text mne)
  | .ops group =>
      match group[(MODRM_REG modrm)]? with
      | some mne => .ok (text mne)
      | none => .panic "index"

def Mne.modop : Mne → Bool
  | .text _ => false
  | .ops _ => true

/-- The prefixes in front of a mnemonic. -/
def prefixText (s : DState) : List UInt8 :=
  (if s.lock then text "LOCK " else []) ++
    match s.rep with
    | .repne => text "REPNE "
    | .rep => text "REP "
    | .none => []

/-- `disasm`, with the number of bytes that were taken. -/
def disasm (fuel : Nat) (offset : UInt32) (is32 : Bool) : Outcome (DisInstr × Nat) :=
  (prefixLoop mem fuel ⟨0, [], 0, false, false, false, .none, .none⟩).bind fun s =>
    let op := mem s.code
    let s := { s with code := s.code + 1 }
    (opcodeAt opcodes op).bind fun first =>
      let op2 := if op = 0x0f then mem s.code else 0
      (if op = 0x0f then opcodeAt extopcodes op2 else .ok first).bind fun popc =>
        let s := if op = 0x0f then { s with code := s.code + 1 } else s
        let s :=
          if needModrm popc || popc.mne.modop then
            { s with modrm := mem s.code, code := s.code + 1 }
          else s
        let s := if is32 then { s with addr32 := !s.addr32, data32 := !s.data32 } else s
        (mnemonic popc.mne s.modrm).bind fun name =>
          let mne := prefixText s ++ name
          (operandLoop mem popc op op2 [0, 1, 2] s offset).bind fun s =>
            if s.args.length ≥ 64 then .panic "disassembler overrun"
            else .ok (⟨int16 s.code, mne, s.args⟩, s.code)

end

end Pegasos.Kernel.Debug
