import Mathlib.Data.List.Basic

/-!
# Opcode tables of the disassembler

The tables of `dis386.c`: for every opcode its mnemonic, or the group from which the `reg` field
of the ModRM byte selects it, and how its operands are addressed.
-/

namespace Pegasos.Kernel.Debug

/-! Addressing of an operand. -/

abbrev _A : Nat := 0
abbrev _C : Nat := 1
abbrev _D : Nat := 2
abbrev _E : Nat := 3
abbrev _G : Nat := 5
abbrev _I : Nat := 6
abbrev _J : Nat := 7
abbrev _M : Nat := 8
abbrev _O : Nat := 9
abbrev _R : Nat := 10
abbrev _S : Nat := 11
abbrev _T : Nat := 12
abbrev _X : Nat := 13
abbrev _Y : Nat := 14
abbrev _REG : Nat := 15
abbrev _REGB : Nat := 16
abbrev _REGS : Nat := 17
abbrev _CONST : Nat := 18

/-! Size of an operand. -/

abbrev _a : Nat := 0
abbrev _b : Nat := 1
abbrev _d : Nat := 3
abbrev _p : Nat := 4
abbrev _s : Nat := 5
abbrev _v : Nat := 6
abbrev _w : Nat := 7

/-! Registers of words, bytes and segments. -/

abbrev _AX : Nat := 0
abbrev _CX : Nat := 1
abbrev _DX : Nat := 2
abbrev _BX : Nat := 3
abbrev _SP : Nat := 4
abbrev _BP : Nat := 5
abbrev _SI : Nat := 6
abbrev _DI : Nat := 7

abbrev _AL : Nat := 0
abbrev _CL : Nat := 1
abbrev _DL : Nat := 2
abbrev _BL : Nat := 3
abbrev _AH : Nat := 0
abbrev _CH : Nat := 1
abbrev _DH : Nat := 2
abbrev _BH : Nat := 3

abbrev _ES : Nat := 0
abbrev _CS : Nat := 1
abbrev _SS : Nat := 2
abbrev _DS : Nat := 3
abbrev _FS : Nat := 4
abbrev _GS : Nat := 5

/-- The `mne` of an opcode, which is a group where `modop` is set. -/
inductive Mne where
  | text (mne : String)
  | ops (group : List String)

/-- `addop_t` -/
structure AddOp where
  add : Nat
  opreg : Nat
  deriving DecidableEq

/-- `opcode_t` -/
structure Opcode where
  mne : Mne
  d : AddOp
  s : AddOp
  op3 : AddOp

def IMP (mne : String) : Opcode := ⟨.text mne, ⟨0, 0⟩, ⟨0, 0⟩, ⟨0, 0⟩⟩

def ONE_OP (mne : String) (dad dop : Nat) : Opcode := ⟨.text mne, ⟨dad, dop⟩, ⟨0, 0⟩, ⟨0, 0⟩⟩

def TWO_OP (mne : String) (dad dop sad sop : Nat) : Opcode :=
  ⟨.text mne, ⟨dad, dop⟩, ⟨sad, sop⟩, ⟨0, 0⟩⟩

def TRE_OP (mne : String) (dad dop sad sop tad top : Nat) : Opcode :=
  ⟨.text mne, ⟨dad, dop⟩, ⟨sad, sop⟩, ⟨tad, top⟩⟩

def J_OP (mne : String) : Opcode := ONE_OP mne _J _b

def JV_OP (mne : String) : Opcode := ONE_OP mne _J _v

def M_ONE_OP (group : List String) (dad dop : Nat) : Opcode :=
  ⟨.ops group, ⟨dad, dop⟩, ⟨0, 0⟩, ⟨0, 0⟩⟩

def M_TWO_OP (group : List String) (dad dop sad sop : Nat) : Opcode :=
  ⟨.ops group, ⟨dad, dop⟩, ⟨sad, sop⟩, ⟨0, 0⟩⟩

def group1 : List String := ["ADD", "OR", "ADC", "SBB", "AND", "SUB", "XOR", "CMP"]

def group2 : List String := ["ROL", "ROR", "RCL", "RCR", "SHL", "SHR", "SHL", "SAR"]

def group3 : List String := ["TEST", "TEST", "NOT", "NEG", "MUL", "IMUL", "DIV", "IDIV"]

def group4 : List String := ["INC", "DEC", "???", "???", "???", "???", "???", "???"]

def group5 : List String := ["INC", "DEC", "CALL", "CALL", "JMP", "JMP", "PUSH", "???"]

def group6 : List String := ["SLDT", "STR", "LLDT", "LTR", "VERR", "VERW", "???", "???"]

def group7 : List String := ["SGDT", "SIDT", "LGDT", "LIDT", "SMSW", "???", "LMSW", "???"]

def group8 : List String := ["???", "???", "???", "???", "BT", "BTS", "BTS", "BTC"]

/-- The one-byte opcodes. -/
def opcodes : List Opcode :=
  [
    -- 00
    TWO_OP "ADD" _E _b _G _b, TWO_OP "ADD" _E _v _G _v, TWO_OP "ADD" _G _b _E _b,
    TWO_OP "ADD" _G _v _E _v, TWO_OP "ADD" _REGB _AL _I _b, TWO_OP "ADD" _REG _AX _I _v,
    ONE_OP "PUSH" _REGS _ES, ONE_OP "POP" _REGS _ES, TWO_OP "OR" _E _b _G _b,
    TWO_OP "OR" _E _v _G _v, TWO_OP "OR" _G _b _E _b, TWO_OP "OR" _G _v _E _v,
    TWO_OP "OR" _REGB _AL _I _b, TWO_OP "OR" _REG _AX _I _v, ONE_OP "PUSH" _REGS _CS,
    ONE_OP "POP" _REGS _CS,
    -- 10
    TWO_OP "ADC" _E _b _G _b, TWO_OP "ADC" _E _v _G _v, TWO_OP "ADC" _G _b _E _b,
    TWO_OP "ADC" _G _v _E _v, TWO_OP "ADC" _REGB _AL _I _b, TWO_OP "ADC" _REG _AX _I _v,
    ONE_OP "PUSH" _REGS _SS, ONE_OP "POP" _REGS _SS, TWO_OP "SBB" _E _b _G _b,
    TWO_OP "SBB" _E _v _G _v, TWO_OP "SBB" _G _b _E _b, TWO_OP "SBB" _G _v _E _v,
    TWO_OP "SBB" _REGB _AL _I _b, TWO_OP "SBB" _REG _AX _I _v, ONE_OP "PUSH" _REGS _DS,
    ONE_OP "POP" _REGS _DS,
    -- 20
    TWO_OP "AND" _E _b _G _b, TWO_OP "AND" _E _v _G _v, TWO_OP "AND" _G _b _E _b,
    TWO_OP "AND" _G _v _E _v, TWO_OP "AND" _REGB _AL _I _b, TWO_OP "AND" _REG _AX _I _v,
    IMP "ES:", IMP "DAA", TWO_OP "SUB" _E _b _G _b, TWO_OP "SUB" _E _v _G _v,
    TWO_OP "SUB" _G _b _E _b, TWO_OP "SUB" _G _v _E _v, TWO_OP "SUB" _REGB _AL _I _b,
    TWO_OP "SUB" _REG _AX _I _v, IMP "CS:", IMP "DAS",
    -- 30
    TWO_OP "XOR" _E _b _G _b, TWO_OP "XOR" _E _v _G _v, TWO_OP "XOR" _G _b _E _b,
    TWO_OP "XOR" _G _v _E _v, TWO_OP "XOR" _REGB _AL _I _b, TWO_OP "XOR" _REG _AX _I _v,
    IMP "SS:", IMP "AAA", TWO_OP "CMP" _E _b _G _b, TWO_OP "CMP" _E _v _G _v,
    TWO_OP "CMP" _G _b _E _b, TWO_OP "CMP" _G _v _E _v, TWO_OP "CMP" _REGB _AL _I _b,
    TWO_OP "CMP" _REG _AX _I _v, IMP "DS:", IMP "AAS",
    -- 40
    ONE_OP "INC" _REG _AX, ONE_OP "INC" _REG _CX, ONE_OP "INC" _REG _DX, ONE_OP "INC" _REG _BX,
    ONE_OP "INC" _REG _SP, ONE_OP "INC" _REG _BP, ONE_OP "INC" _REG _SI, ONE_OP "INC" _REG _DI,
    ONE_OP "DEC" _REG _AX, ONE_OP "DEC" _REG _CX, ONE_OP "DEC" _REG _DX, ONE_OP "DEC" _REG _BX,
    ONE_OP "DEC" _REG _SP, ONE_OP "DEC" _REG _BP, ONE_OP "DEC" _REG _SI, ONE_OP "DEC" _REG _DI,
    -- 50
    ONE_OP "PUSH" _REG _AX, ONE_OP "PUSH" _REG _CX, ONE_OP "PUSH" _REG _DX,
    ONE_OP "PUSH" _REG _BX, ONE_OP "PUSH" _REG _SP, ONE_OP "PUSH" _REG _BP,
    ONE_OP "PUSH" _REG _SI, ONE_OP "PUSH" _REG _DI, ONE_OP "POP" _REG _AX,
    ONE_OP "POP" _REG _CX, ONE_OP "POP" _REG _DX, ONE_OP "POP" _REG _BX, ONE_OP "POP" _REG _SP,
    ONE_OP "POP" _REG _BP, ONE_OP "POP" _REG _SI, ONE_OP "POP" _REG _DI,
    -- 60
    IMP "PUSHA", IMP "POPA", TWO_OP "BOUND" _G _v _M _a, TWO_OP "ARPL" _E _w _R _w, IMP "FS:",
    IMP "GS:", IMP "OPSIZE", IMP "ADSIZE", ONE_OP "PUSH" _I _v,
    TRE_OP "IMIL" _G _v _E _v _I _v, ONE_OP "PUSH" _I _b, TRE_OP "IMIL" _G _v _E _v _I _b,
    TWO_OP "INSB" _Y _b _REG _DX, TWO_OP "INSW" _Y _v _REG _DX, TWO_OP "OUTSB" _REG _DX _X _b,
    TWO_OP "OUTSW" _REG _DX _X _v,
    -- 70
    J_OP "JO", J_OP "JNO", J_OP "JB", J_OP "JNB", J_OP "JZ", J_OP "JNZ", J_OP "JBE",
    J_OP "JNBE", J_OP "JS", J_OP "JNS", J_OP "JP", J_OP "JNP", J_OP "JL", J_OP "JNL",
    J_OP "JLE", J_OP "JNLE",
    -- 80
    M_TWO_OP group1 _E _b _I _b, M_TWO_OP group1 _E _v _I _v, TWO_OP "MOV" _REGB _AL _I _b,
    M_TWO_OP group1 _E _v _I _b, TWO_OP "TEST" _E _b _G _b, TWO_OP "TEST" _E _v _G _v,
    TWO_OP "XCHG" _E _b _G _b, TWO_OP "XCHG" _E _v _G _v, TWO_OP "MOV" _E _b _G _b,
    TWO_OP "MOV" _E _v _G _v, TWO_OP "MOV" _G _b _E _b, TWO_OP "MOV" _G _v _E _v,
    TWO_OP "MOV" _E _w _S _w, TWO_OP "LEA" _G _v _M 0, TWO_OP "MOV" _S _w _E _w,
    ONE_OP "POP" _E _v,
    -- 90
    IMP "NOP", TWO_OP "XCHG" _REG _AX _REG _CX, TWO_OP "XCHG" _REG _AX _REG _DX,
    TWO_OP "XCHG" _REG _AX _REG _BX, TWO_OP "XCHG" _REG _AX _REG _SP,
    TWO_OP "XCHG" _REG _AX _REG _BP, TWO_OP "XCHG" _REG _AX _REG _SI,
    TWO_OP "XCHG" _REG _AX _REG _DI, IMP "CBW", IMP "CWD", ONE_OP "CALL" _A _p, IMP "WAIT",
    IMP "PUSHF", IMP "POPF", IMP "SAHF", IMP "LAHF",
    -- a0
    TWO_OP "MOV" _REGB _AL _O _b, TWO_OP "MOV" _REG _AX _O _v, TWO_OP "MOV" _O _b _REGB _AL,
    TWO_OP "MOV" _O _v _REG _AX, TWO_OP "MOVS" _Y _b _X _b, TWO_OP "MOVS" _Y _v _X _v,
    TWO_OP "CMPS" _X _b _Y _b, TWO_OP "CMPS" _X _v _Y _v, TWO_OP "TEST" _REGB _AL _I _b,
    TWO_OP "TEST" _REG _AX _I _v, TWO_OP "STOS" _Y _b _REGB _AL, TWO_OP "STOS" _Y _v _REG _AX,
    TWO_OP "LODS" _REGB _AL _X _b, TWO_OP "LODS" _REG _AX _X _v, TWO_OP "SCAS" _REGB _AL _X _b,
    TWO_OP "SCAS" _REG _AX _X _v,
    -- b0
    TWO_OP "MOV" _REGB _AL _I _b, TWO_OP "MOV" _REGB _CL _I _b, TWO_OP "MOV" _REGB _DL _I _b,
    TWO_OP "MOV" _REGB _BL _I _b, TWO_OP "MOV" _REGB _AH _I _b, TWO_OP "MOV" _REGB _CH _I _b,
    TWO_OP "MOV" _REGB _DH _I _b, TWO_OP "MOV" _REGB _BH _I _b, TWO_OP "MOV" _REG _AX _I _v,
    TWO_OP "MOV" _REG _CX _I _v, TWO_OP "MOV" _REG _DX _I _v, TWO_OP "MOV" _REG _BX _I _v,
    TWO_OP "MOV" _REG _SP _I _v, TWO_OP "MOV" _REG _BP _I _v, TWO_OP "MOV" _REG _SI _I _v,
    TWO_OP "MOV" _REG _DI _I _v,
    -- c0
    M_TWO_OP group2 _E _b _I _b, M_TWO_OP group2 _E _v _I _b, ONE_OP "RET" _I _w, IMP "RET",
    TWO_OP "LES" _G _v _M _p, TWO_OP "LDS" _G _v _M _p, TWO_OP "MOV" _E _b _I _b,
    TWO_OP "MOV" _E _v _I _v, TWO_OP "ENTER" _I _w _I _b, IMP "LEAVE", ONE_OP "RETF" _I _w,
    IMP "RETF", IMP "INT3", ONE_OP "INT" _I _b, IMP "INTO", IMP "IRET",
    -- d0
    M_TWO_OP group2 _E _b _CONST 1, M_TWO_OP group2 _E _v _CONST 1,
    M_TWO_OP group2 _E _b _REGB _CL, M_TWO_OP group2 _E _v _REGB _CL, IMP "AAM", IMP "AAD",
    IMP "???", IMP "XLAT", ONE_OP "ESC0" _E _d, ONE_OP "ESC1" _E _d, ONE_OP "ESC2" _E _d,
    ONE_OP "ESC3" _E _d, ONE_OP "ESC4" _E _d, ONE_OP "ESC5" _E _d, ONE_OP "ESC6" _E _d,
    ONE_OP "ESC7" _E _d,
    -- e0
    J_OP "LOOPNE", J_OP "LOOPE", J_OP "LOOP", J_OP "JCXZ", TWO_OP "IN" _REGB _AL _I _b,
    TWO_OP "IN" _REG _AX _I _v, TWO_OP "OUT" _I _b _REGB _AL, TWO_OP "OUT" _I _v _REG _AX,
    ONE_OP "CALL" _J _v, ONE_OP "JMP" _J _v, ONE_OP "JMP" _A _p, ONE_OP "JMP" _J _b,
    TWO_OP "IN" _REGB _AL _REG _DX, TWO_OP "IN" _REG _AX _REG _DX,
    TWO_OP "OUT" _REG _DX _REGB _AL, TWO_OP "OUT" _REG _DX _REG _AX,
    -- f0
    IMP "LOCK", IMP "???", IMP "REPNE", IMP "REP", IMP "HLT", IMP "CMC", M_ONE_OP group3 _E _b,
    M_ONE_OP group3 _E _v, IMP "CLC", IMP "STC", IMP "CLI", IMP "STI", IMP "CLD", IMP "STD",
    M_ONE_OP group4 _E _b, M_ONE_OP group5 _E _v
  ]

/-- The opcodes prefixed with 0f. -/
def extopcodes : List Opcode :=
  [
    -- 00
    M_ONE_OP group6 _E _w, M_ONE_OP group7 _M _s, TWO_OP "LAR" _G _v _E _w,
    TWO_OP "LSL" _G _v _E _w, IMP "???", IMP "???", IMP "CLTS"
  ] ++
  List.replicate 25 (IMP "???") ++
  [
    -- 20
    TWO_OP "MOV" _R _d _C _d, TWO_OP "MOV" _R _d _D _d, TWO_OP "MOV" _C _d _R _d,
    TWO_OP "MOV" _D _d _R _d, TWO_OP "MOV" _R _d _T _d, IMP "???", TWO_OP "MOV" _T _d _R _d
  ] ++
  List.replicate 89 (IMP "???") ++
  [
    -- 80
    JV_OP "JO", JV_OP "JNO", JV_OP "JB", JV_OP "JNB", JV_OP "JZ", JV_OP "JNZ", JV_OP "JBE",
    JV_OP "JNBE", JV_OP "JS", JV_OP "JNS", JV_OP "JP", JV_OP "JNP", JV_OP "JL", JV_OP "JNL",
    JV_OP "JLE", JV_OP "JNLE",
    -- 90
    ONE_OP "SETO" _E _b, ONE_OP "SETNO" _E _b, ONE_OP "SETB" _E _b, ONE_OP "SETNB" _E _b,
    ONE_OP "SETZ" _E _b, ONE_OP "SETNZ" _E _b, ONE_OP "SETBE" _E _b, ONE_OP "SETNBE" _E _b,
    ONE_OP "SETS" _E _b, ONE_OP "SETNS" _E _b, ONE_OP "SETP" _E _b, ONE_OP "SETNP" _E _b,
    ONE_OP "SETL" _E _b, ONE_OP "SETNL" _E _b, ONE_OP "SETLE" _E _b, ONE_OP "SETNLE" _E _b,
    -- a0
    ONE_OP "PUSH" _REGS _FS, ONE_OP "POP" _REGS _FS, IMP "???", IMP "???",
    TWO_OP "BT" _E _v _G _v, TRE_OP "SHLD" _E _v _G _v _I _b,
    TRE_OP "SHLD" _E _v _G _v _REGB _CL, IMP "???", ONE_OP "PUSH" _REGS _GS,
    ONE_OP "POP" _REGS _GS, IMP "???", TWO_OP "BT" _E _v _G _v,
    TRE_OP "SHLD" _E _v _G _v _I _b, TRE_OP "SHLD" _E _v _G _v _REGB _CL, IMP "???",
    TWO_OP "IMUL" _G _v _E _v,
    -- b0
    IMP "???", IMP "???", ONE_OP "LSS" _M _p, TWO_OP "BTR" _E _v _G _v, ONE_OP "LFS" _M _p,
    ONE_OP "LGS" _M _p, TWO_OP "MOVZX" _G _v _E _b, TWO_OP "MOVZX" _G _v _E _w, IMP "???",
    IMP "???", M_TWO_OP group8 _E _v _I _b, TWO_OP "BTC" _E _v _G _v, TWO_OP "BSF" _E _v _G _v,
    TWO_OP "BSR" _E _v _G _v, TWO_OP "MOVSX" _G _v _E _b, TWO_OP "MOVSX" _G _v _E _w
  ] ++
  List.replicate 64 (IMP "???")

def wregs : List String := ["AX", "CX", "DX", "BX", "SP", "BP", "SI", "DI"]

def bregs : List String := ["AL", "CL", "DL", "BL", "AH", "CH", "DH", "BH"]

def sregs : List String := ["ES", "CS", "SS", "DS", "FS", "GS", "??", "??"]

/-- The register combinations of 16-bit addressing. -/
def baseindex : List String := ["BX+SI", "BX+DI", "BP+SI", "BP+DI", "SI", "DI", "BP", "BX"]

end Pegasos.Kernel.Debug
