import Mathlib

/-!
# Instruction words and address map

The field and immediate extraction of the decode and execute stages (slices of a 32-bit word), the
opcodes the core knows, its CSR addresses, and the seven peripheral windows.
-/

namespace QarCore

abbrev Word := BitVec 32

/-- Index of one of the registers `x0..x31`. -/
abbrev RegIdx := BitVec 5

/-! ## Fields and immediates -/

def opcode (w : Word) : BitVec 7 := w.extractLsb' 0 7
def rd (w : Word) : RegIdx := w.extractLsb' 7 5
def funct3 (w : Word) : BitVec 3 := w.extractLsb' 12 3
def rs1 (w : Word) : RegIdx := w.extractLsb' 15 5
def rs2 (w : Word) : RegIdx := w.extractLsb' 20 5
def funct7 (w : Word) : BitVec 7 := w.extractLsb' 25 7

/-- `instr[31:20]`: the CSR address of a SYSTEM instruction. -/
def funct12 (w : Word) : BitVec 12 := w.extractLsb' 20 12

def immI (w : Word) : Word := (w.extractLsb' 20 12).signExtend 32
def immS (w : Word) : Word := (w.extractLsb' 25 7 ++ w.extractLsb' 7 5).signExtend 32
def immB (w : Word) : Word :=
  (w.extractLsb' 31 1 ++ w.extractLsb' 7 1 ++ w.extractLsb' 25 6 ++ w.extractLsb' 8 4 ++
    0#1).signExtend 32
def immJ (w : Word) : Word :=
  (w.extractLsb' 31 1 ++ w.extractLsb' 12 8 ++ w.extractLsb' 20 1 ++ w.extractLsb' 21 10 ++
    0#1).signExtend 32
def immU (w : Word) : Word := w.extractLsb' 12 20 ++ 0#12

namespace Opc

def opImm : BitVec 7 := 0b0010011#7
def op : BitVec 7 := 0b0110011#7
def load : BitVec 7 := 0b0000011#7
def store : BitVec 7 := 0b0100011#7
def branch : BitVec 7 := 0b1100011#7
def jal : BitVec 7 := 0b1101111#7
def jalr : BitVec 7 := 0b1100111#7
def system : BitVec 7 := 0b1110011#7
def lui : BitVec 7 := 0b0110111#7
def auipc : BitVec 7 := 0b0010111#7

end Opc

/-- `instr[31:20]` of MRET. -/
def mretFunct12 : BitVec 12 := 0x302#12

namespace CsrAddr

def mstatus : BitVec 12 := 0x300#12
def mie : BitVec 12 := 0x304#12
def mtvec : BitVec 12 := 0x305#12
def mepc : BitVec 12 := 0x341#12
def mcause : BitVec 12 := 0x342#12
def mip : BitVec 12 := 0x344#12
def mtime : BitVec 12 := 0x701#12
def mtimecmp : BitVec 12 := 0x720#12
def irqPriority : BitVec 12 := 0xBC0#12
def irqAck : BitVec 12 := 0xBC1#12

end CsrAddr

def mcauseEcall : Word := 11#32
def mcauseIllegal : Word := 2#32
def mcauseTimerIrq : Word := 0x80000007#32
def mcauseExtIrq : Word := 0x8000000B#32

/-! ## Peripheral windows -/

/-- The peripherals on the core's bus. -/
inductive Periph
  | gpio | uart0 | spi0 | i2c0 | can0 | timer0 | adc0
  deriving DecidableEq, Repr

namespace Periph

def baseAddr : Periph → Word
  | gpio => 0x40000000#32
  | uart0 => 0x40001000#32
  | spi0 => 0x40004000#32
  | i2c0 => 0x40004400#32
  | can0 => 0x40003000#32
  | timer0 => 0x40005000#32
  | adc0 => 0x40006000#32

/-- Every `<p>_ADDR_MASK` of the source is the same word. -/
def addrMask (_ : Periph) : Word := 0xFFFFFF00#32

/-- `load_hits_<p>` and `store_hits_<p>`. -/
def hits (p : Periph) (addr : Word) : Bool := addr &&& p.addrMask == p.baseAddr

/-- The peripherals in the order the LOAD and STORE arms test them. -/
def armOrder : List Periph := [gpio, uart0, spi0, i2c0, can0, timer0, adc0]

end Periph

/-- The window an address falls in, by the if-chain of the LOAD and STORE arms. -/
def windowOf (addr : Word) : Option Periph := Periph.armOrder.find? (·.hits addr)

end QarCore
