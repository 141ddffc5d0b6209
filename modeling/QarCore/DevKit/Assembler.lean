import QarCore.Data.GoText
import QarCore.Rv32i.Instr

/-!
# Assembler

How `qarsim` encodes one line: the parsing of its operands and the instruction formats.  `int32` and
`uint32` values are words, and what `ParseInt` returns is an integer.
-/

namespace QarCore

namespace Assembler

open GoText (Text trimSpace index parseInt)
open Rv32i (OpFn Cond CsrFn)

abbrev Word := BitVec 32

/-- The global tables that operands are looked up in.  A nil `macroTable` finds nothing; a nil
`labelTable` switches `%hi` and `%lo` off. -/
structure Tables where
  cases : GoText.Cases
  macroTable : Text → Option Word
  labelTable : Option (Text → Option Word)

structure AsmLine where
  op : Text
  args : List Text
  line : Nat
  pc : Word
  deriving DecidableEq

def csrNameMap : List (Text × Nat) :=
  [("MSTATUS".toList, 0x300), ("MIE".toList, 0x304), ("MTVEC".toList, 0x305), ("MSCRATCH".toList, 0x340),
    ("MEPC".toList, 0x341), ("MCAUSE".toList, 0x342), ("MIP".toList, 0x344), ("MTIME".toList, 0x701),
    ("MTIMECMP".toList, 0x720), ("IRQPRIO".toList, 0xBC0), ("IRQACK".toList, 0xBC1)]

def registerMap : List (Text × Nat) :=
  [("x0".toList, 0), ("zero".toList, 0), ("x1".toList, 1), ("ra".toList, 1), ("x2".toList, 2),
    ("sp".toList, 2), ("x3".toList, 3), ("gp".toList, 3), ("x4".toList, 4), ("tp".toList, 4),
    ("x5".toList, 5), ("t0".toList, 5), ("x6".toList, 6), ("t1".toList, 6), ("x7".toList, 7),
    ("t2".toList, 7), ("x8".toList, 8), ("s0".toList, 8), ("fp".toList, 8), ("x9".toList, 9),
    ("s1".toList, 9), ("x10".toList, 10), ("a0".toList, 10), ("x11".toList, 11), ("a1".toList, 11),
    ("x12".toList, 12), ("a2".toList, 12), ("x13".toList, 13), ("a3".toList, 13), ("x14".toList, 14),
    ("a4".toList, 14), ("x15".toList, 15), ("a5".toList, 15), ("x16".toList, 16), ("a6".toList, 16),
    ("x17".toList, 17), ("a7".toList, 17), ("x18".toList, 18), ("s2".toList, 18), ("x19".toList, 19),
    ("s3".toList, 19), ("x20".toList, 20), ("s4".toList, 20), ("x21".toList, 21), ("s5".toList, 21),
    ("x22".toList, 22), ("s6".toList, 22), ("x23".toList, 23), ("s7".toList, 23), ("x24".toList, 24),
    ("s8".toList, 24), ("x25".toList, 25), ("s9".toList, 25), ("x26".toList, 26), ("s10".toList, 26),
    ("x27".toList, 27), ("s11".toList, 27), ("x28".toList, 28), ("t3".toList, 28), ("x29".toList, 29),
    ("t4".toList, 29), ("x30".toList, 30), ("t5".toList, 30), ("x31".toList, 31), ("t6".toList, 31)]

variable (t : Tables) (labels : Text → Option Word) (inst : AsmLine)

/-! ## Operands -/

def parseRegister (token : Text) : Except String Nat :=
  let token := t.cases.toLower (trimSpace token)
  match registerMap.lookup token with
  | some idx => .ok idx
  | none =>
    let name := String.ofList token
    .error s!"unknown register {name}"

def lookupMacro (token : Text) : Option Word := t.macroTable (t.cases.toUpper token)

/-- A `%hi` or `%lo` expression, `none` for any other token. -/
def parseLabelImmediate (token : Text) : Option (Except String Word) :=
  match t.labelTable with
  | none => none
  | some labelTable =>
    let token := trimSpace token
    let name := trimSpace (token.drop 4).dropLast
    let unknown := String.ofList name
    if "%hi(".toList.isPrefixOf token ∧ ")".toList.isSuffixOf token then
      match labelTable name with
      | none => some (.error s!"unknown label {unknown}")
      | some addr => some (.ok ((addr + 0x800#32) >>> 12))
    else if "%lo(".toList.isPrefixOf token ∧ ")".toList.isSuffixOf token then
      match labelTable name with
      | none => some (.error s!"unknown label {unknown}")
      | some addr =>
        let lo := addr &&& 0xFFF#32
        some (.ok (if 0x800 ≤ lo.toInt then lo - 0x1000#32 else lo))
    else none

def maxInt32 : Int := 2 ^ 31 - 1

def minInt32 : Int := -2 ^ 31

/-- The 32-bit value of a parsed number, from the unsigned range too. -/
def toInt32 (val : Int) : Option Word :=
  let val := if maxInt32 < val then val - 2 ^ 32 else val
  if val < minInt32 ∨ maxInt32 < val then none else some (BitVec.ofInt 32 val)

def parseImmediate (token : Text) : Except String Word :=
  let token := trimSpace token
  if token = [] then .error "empty immediate"
  else
    match lookupMacro t token with
    | some val => .ok val
    | none =>
      match parseLabelImmediate t token with
      | some r => r
      | none =>
        let name := String.ofList token
        match parseInt 64 token with
        | none => .error s!"invalid immediate {name}"
        | some val =>
          match toInt32 val with
          | none => .error s!"immediate {name} out of 32-bit range"
          | some w => .ok w

def parseCSR (token : Text) : Except String Word :=
  let token := trimSpace token
  if token = [] then .error "empty CSR name"
  else
    match lookupMacro t token with
    | some val => .ok val
    | none =>
      match csrNameMap.lookup (t.cases.toUpper token) with
      | some addr => .ok (BitVec.ofNat 32 addr)
      | none =>
        let name := String.ofList token
        match parseInt 32 token with
        | none => .error s!"unknown CSR {name}"
        | some val =>
          if val < 0 ∨ 0xFFF < val then .error s!"csr value {val} out of range"
          else .ok (BitVec.ofInt 32 val)

/-- The immediate and the base register of `imm(base)`. -/
def parseOffsetArg (arg : Text) : Except String (Word × Nat) :=
  let arg := trimSpace arg
  if arg = [] then .error "missing offset/base"
  else
    let quoted := (String.ofList arg).quote
    match index ['('] arg, index [')'] arg with
    | some o, some c =>
      if c ≤ o then .error s!"invalid offset syntax {quoted}"
      else do
        let immStr := trimSpace (arg.take o)
        let baseStr := trimSpace ((arg.take c).drop (o + 1))
        let immStr := if immStr = [] then ['0'] else immStr
        let imm ← parseImmediate t immStr
        let base ← parseRegister t baseStr
        return (imm, base)
    | _, _ => .error s!"invalid offset syntax {quoted}"

def resolveLabelOrImmediate (token : Text) (pc : Word) : Except String Word :=
  let token := trimSpace token
  match parseImmediate t token with
  | .ok val => .ok val
  | .error _ =>
    match labels token with
    | some addr => .ok (addr - pc)
    | none =>
      let name := String.ofList token
      .error s!"unknown label {name}"

/-- An error of the line, with the number of the line put before its text. -/
def atLine {α : Type} (line : Nat) : Except String α → Except String α
  | .ok a => .ok a
  | .error e => .error s!"line {line}: {e}"

def AsmLine.fail {α : Type} (inst : AsmLine) (text : String) : Except String α :=
  atLine inst.line (.error text)

/-- `rd, rs1, imm`. -/
def parseRRI : Except String (Nat × Nat × Word) :=
  match inst.args with
  | [a0, a1, a2] => atLine inst.line do
    let rd ← parseRegister t a0
    let rs1 ← parseRegister t a1
    let imm ← parseImmediate t a2
    return (rd, rs1, imm)
  | _ =>
    let op := String.ofList inst.op
    inst.fail s!"{op} expects 3 operands"

/-- `rd, csr, rs1`. -/
def parseCSRArgs : Except String (Nat × Word × Nat) :=
  match inst.args with
  | [a0, a1, a2] => atLine inst.line do
    let rd ← parseRegister t a0
    let csr ← parseCSR t a1
    let rs1 ← parseRegister t a2
    return (rd, csr, rs1)
  | _ =>
    let op := String.ofList inst.op
    inst.fail s!"{op} expects rd, csr, rs1"

/-- `reg, imm(base)`. -/
def parseLoadStoreArgs : Except String (Nat × Nat × Word) :=
  match inst.args with
  | [a0, a1] => atLine inst.line do
    let reg1 ← parseRegister t a0
    let (imm, base) ← parseOffsetArg t a1
    return (reg1, base, imm)
  | _ =>
    let op := String.ofList inst.op
    inst.fail s!"{op} expects 2 operands"

/-! ## Formats -/

/-- A register number as `uint32`. -/
def uint32 (n : Nat) : Word := BitVec.ofNat 32 n

/-- `funct3` and `funct7` of a register-register mnemonic. -/
def rTypeFunct : OpFn → Word × Word
  | .add => (0b000#32, 0b0000000#32)
  | .sub => (0b000#32, 0b0100000#32)
  | .and => (0b111#32, 0b0000000#32)
  | .or => (0b110#32, 0b0000000#32)
  | .xor => (0b100#32, 0b0000000#32)
  | .sll => (0b001#32, 0b0000000#32)
  | .srl => (0b101#32, 0b0000000#32)

def branchFunct3 : Cond → Word
  | .eq => 0b000#32
  | .ne => 0b001#32
  | .lt => 0b100#32
  | .ge => 0b101#32
  | .ltu => 0b110#32
  | .geu => 0b111#32

def csrFunct3 : CsrFn → Word
  | .rw => 0b001#32
  | .rs => 0b010#32
  | .rc => 0b011#32

def encodeRType (fn : OpFn) : Except String Word :=
  match inst.args with
  | [a0, a1, a2] => atLine inst.line do
    let rd ← parseRegister t a0
    let rs1 ← parseRegister t a1
    let rs2 ← parseRegister t a2
    let (funct3, funct7) := rTypeFunct fn
    return funct7 <<< 25 ||| uint32 rs2 <<< 20 ||| uint32 rs1 <<< 15 ||| funct3 <<< 12 |||
      uint32 rd <<< 7 ||| 0x33#32
  | _ =>
    let op := String.ofList inst.op
    inst.fail s!"{op} expects 3 operands"

def encodeUType (rd : Nat) (imm opcode : Word) : Except String Word :=
  let value := imm.toInt
  if value < 0 ∨ 2 ^ 20 ≤ value then .error s!"immediate {value} out of range for U-type"
  else .ok (imm <<< 12 ||| uint32 rd <<< 7 ||| opcode)

def encodeSystem (rd rs1 : Nat) (csr funct3 : Word) : Except String Word :=
  let value := csr.toInt
  if value < 0 ∨ 0xFFF < value then .error s!"csr {value} out of range"
  else .ok (csr <<< 20 ||| uint32 rs1 <<< 15 ||| funct3 <<< 12 ||| uint32 rd <<< 7 ||| 0x73#32)

/-- The immediate bits that I-type and S-type words share, by way of `uint16`. -/
def uimm12 (imm : Word) : Word := ((imm &&& 0xFFF#32).setWidth 16).setWidth 32

def encodeI (rd rs1 : Nat) (imm funct3 opcode : Word) : Except String Word :=
  let value := imm.toInt
  if value < -2048 ∨ 2047 < value then .error s!"immediate {value} out of range for I-type"
  else .ok (uimm12 imm <<< 20 ||| uint32 rs1 <<< 15 ||| funct3 <<< 12 ||| uint32 rd <<< 7 ||| opcode)

def encodeSType (rs2 rs1 : Nat) (imm funct3 : Word) : Except String Word :=
  let value := imm.toInt
  if value < -2048 ∨ 2047 < value then .error s!"immediate {value} out of range for S-type"
  else
    let immLo := uimm12 imm &&& 0x1F#32
    let immHi := uimm12 imm >>> 5 &&& 0x7F#32
    .ok (immHi <<< 25 ||| uint32 rs2 <<< 20 ||| uint32 rs1 <<< 15 ||| funct3 <<< 12 ||| immLo <<< 7 |||
      0x23#32)

def encodeBType (rs1 rs2 : Nat) (imm funct3 : Word) : Except String Word :=
  let value := imm.toInt
  if value.tmod 2 ≠ 0 then .error s!"branch offset must be 2-byte aligned (got {value})"
  else if value < -4096 ∨ 4094 < value then .error s!"branch offset {value} out of range"
  else
    let uimm := imm &&& 0x1FFF#32
    let bit12 := uimm >>> 12 &&& 0x1#32
    let bit11 := uimm >>> 11 &&& 0x1#32
    let bits10_5 := uimm >>> 5 &&& 0x3F#32
    let bits4_1 := uimm >>> 1 &&& 0xF#32
    .ok (bit12 <<< 31 ||| bits10_5 <<< 25 ||| uint32 rs2 <<< 20 ||| uint32 rs1 <<< 15 ||| funct3 <<< 12 |||
      bits4_1 <<< 8 ||| bit11 <<< 7 ||| 0x63#32)

def encodeBranch (cond : Cond) : Except String Word :=
  match inst.args with
  | [a0, a1, a2] => atLine inst.line do
    let rs1 ← parseRegister t a0
    let rs2 ← parseRegister t a1
    let offset ← resolveLabelOrImmediate t labels a2 inst.pc
    encodeBType rs1 rs2 offset (branchFunct3 cond)
  | _ =>
    let op := String.ofList inst.op
    inst.fail s!"{op} expects 3 operands"

/-- The word of a JAL, with the checks that `encodeJType` makes of its offset. -/
def encodeJal (rd : Nat) (offset : Word) : Except String Word :=
  let value := offset.toInt
  if value.tmod 2 ≠ 0 then .error "jal target must be 2-byte aligned"
  else if value < -2 ^ 20 ∨ 2 ^ 20 - 1 < value then .error "jal offset out of range"
  else
    let imm := offset &&& 0x1FFFFF#32
    let bit20 := imm >>> 20 &&& 0x1#32
    let bits10_1 := imm >>> 1 &&& 0x3FF#32
    let bit11 := imm >>> 11 &&& 0x1#32
    let bits19_12 := imm >>> 12 &&& 0xFF#32
    .ok (bit20 <<< 31 ||| bits19_12 <<< 12 ||| bit11 <<< 20 ||| bits10_1 <<< 21 ||| uint32 rd <<< 7 |||
      0x6F#32)

def encodeJType : Except String Word :=
  match inst.args with
  | [a0, a1] => atLine inst.line do
    let rd ← parseRegister t a0
    let offset ← resolveLabelOrImmediate t labels a1 inst.pc
    encodeJal rd offset
  | _ => inst.fail "JAL expects 2 operands"

/-- LUI and AUIPC. -/
def encodeUpper (op : String) (opcode : Word) : Except String Word :=
  match inst.args with
  | [a0, a1] => atLine inst.line do
    let rd ← parseRegister t a0
    let imm ← parseImmediate t a1
    encodeUType rd imm opcode
  | _ => inst.fail s!"{op} expects rd, imm"

/-! ## Instructions -/

/-- The cases of the switch over the mnemonics. -/
inductive Mnemonic
  | nop | addi | rType (fn : OpFn) | lui | auipc | lw | sw | branch (cond : Cond) | jal | jalr
  | csr (fn : CsrFn) | ecall | mret
  deriving DecidableEq

def mnemonicOf (op : Text) : Option Mnemonic :=
  match String.ofList op with
  | "NOP" => some .nop
  | "ADDI" => some .addi
  | "ADD" => some (.rType .add)
  | "SUB" => some (.rType .sub)
  | "AND" => some (.rType .and)
  | "OR" => some (.rType .or)
  | "XOR" => some (.rType .xor)
  | "SLL" => some (.rType .sll)
  | "SRL" => some (.rType .srl)
  | "LUI" => some .lui
  | "AUIPC" => some .auipc
  | "LW" => some .lw
  | "SW" => some .sw
  | "BEQ" => some (.branch .eq)
  | "BNE" => some (.branch .ne)
  | "BLT" => some (.branch .lt)
  | "BGE" => some (.branch .ge)
  | "BLTU" => some (.branch .ltu)
  | "BGEU" => some (.branch .geu)
  | "JAL" => some .jal
  | "JALR" => some .jalr
  | "CSRRW" => some (.csr .rw)
  | "CSRRS" => some (.csr .rs)
  | "CSRRC" => some (.csr .rc)
  | "ECALL" => some .ecall
  | "MRET" => some .mret
  | _ => none

def encodeInstruction : Except String Word :=
  match mnemonicOf inst.op with
  | some .nop => .ok 0x00000013#32
  | some .addi => do
    let (rd, rs1, imm) ← parseRRI t inst
    atLine inst.line (encodeI rd rs1 imm 0b000#32 0x13#32)
  | some (.rType fn) => encodeRType t inst fn
  | some .lui => encodeUpper t inst "LUI" 0x37#32
  | some .auipc => encodeUpper t inst "AUIPC" 0x17#32
  | some .lw => do
    let (rd, base, imm) ← parseLoadStoreArgs t inst
    atLine inst.line (encodeI rd base imm 0b010#32 0x03#32)
  | some .sw => do
    let (rs2, base, imm) ← parseLoadStoreArgs t inst
    atLine inst.line (encodeSType rs2 base imm 0b010#32)
  | some (.branch cond) => encodeBranch t labels inst cond
  | some .jal => encodeJType t labels inst
  | some .jalr => do
    let (rd, rs1, imm) ← parseRRI t inst
    atLine inst.line (encodeI rd rs1 imm 0b000#32 0x67#32)
  | some (.csr fn) => do
    let (rd, csr, rs1) ← parseCSRArgs t inst
    encodeSystem rd rs1 csr (csrFunct3 fn)
  | some .ecall =>
    if inst.args ≠ [] then inst.fail "ECALL takes no operands" else .ok 0x00000073#32
  | some .mret =>
    if inst.args ≠ [] then inst.fail "MRET takes no operands" else .ok 0x30200073#32
  | none =>
    let op := String.ofList inst.op
    inst.fail s!"unsupported opcode {op}"

end Assembler

end QarCore
