import QarCore.DevKit.Build
import QarCore.DevKit.Labels
import QarCore.Rv32i.Installed

/-!
# The testbenches

What the testbenches of the demos have in common: the memories, and the source of a demo with the file that all of
them include.
-/

namespace QarCore

open Assembler (Files addrOf buildProgram nopWord)
open GoText (Text)
open Rv32i (Instr encode)

/-! ## The memories -/

/-- The words that `mem_addr[w+1:2]` selects. -/
abbrev Dmem (w : Nat) := BitVec w → Word

def dmemIndex (w : Nat) (addr : Word) : BitVec w := addr.extractLsb' 2 w

/-- The data memory of a testbench, with `2 ^ w` words. -/
def testMem (w : Nat) : DataMem (Dmem w) where
  read m addr := m (dmemIndex w addr)
  write m addr data := Function.update m (dmemIndex w addr) data

/-- The instructions stand at the reset address. -/
def CodeAt (imem : Word → Word) (code : List Instr) : Prop :=
  ∀ k instr, code[k]? = some instr → imem (addrOf k) = encode instr

/-- The image of a program, filled up with NOPs. -/
def image (code : List Instr) (depth : Nat) : List Word :=
  code.map encode ++ List.replicate (depth - code.length) nopWord

theorem codeAt_of_image {imem : Word → Word} {code : List Instr} {depth : Nat}
    (h : ∀ k w, (image code depth)[k]? = some w → imem (addrOf k) = w) : CodeAt imem code := by
  intro k instr hk
  have hlt : k < (code.map encode).length := by
    rw [List.length_map]
    exact (List.getElem?_eq_some_iff.mp hk).1
  apply h
  rw [image, List.getElem?_append_left hlt, List.getElem?_map, hk]
  rfl

-- A memory that holds what the assembler makes holds the program that it makes.
theorem codeAt_of_build {files : Files} {cases : GoText.Cases} {paths : List Text} {imem : Word → Word}
    {code : List Instr} {depth : Nat} {words : List Word}
    (built : buildProgram files cases paths depth = .ok (image code depth))
    (hb : buildProgram files cases paths depth = .ok words) (h : ∀ k w, words[k]? = some w → imem (addrOf k) = w) :
    CodeAt imem code := by
  rw [built] at hb
  cases hb
  exact codeAt_of_image h

/-- An instruction memory with the words and NOPs behind them. -/
def imemOf (words : List Word) (addr : Word) : Word := (words[(addr.extractLsb' 2 30).toNat]?).getD nopWord

theorem imemOf_addrOf {words : List Word} (hlen : words.length ≤ 2 ^ 30) (k : Nat) (w : Word)
    (h : words[k]? = some w) : imemOf words (addrOf k) = w := by
  have hk : k < words.length := (List.getElem?_eq_some_iff.mp h).1
  have hindex : ((addrOf k).extractLsb' 2 30).toNat = k := by
    rw [BitVec.extractLsb'_toNat, addrOf, BitVec.toNat_ofNat]
    omega
  unfold imemOf
  rw [hindex, h]
  rfl

/-! ## The sources -/

/-- `common.inc`. -/
def commonInc : List String :=
  [".equ ARRAY_LEN, 6", ".equ STORE_SUM_ADDR, 64", ".equ RETURN_FLAG_ADDR, 68", ".equ TIMER_RESULT_ADDR, 72",
    ".equ EXT_RESULT_ADDR, 76", ".equ ECALL_RESULT_ADDR, 80", ".equ SRC_BASE, 0", ".equ DST_BASE, 128",
    ".equ IRQ_TARGET_TIMERS, 2", ".equ IRQ_TARGET_EXTERNAL, 1", ".equ TIMER_INTERVAL, 40",
    ".equ MCAUSE_TIMER_HI, 0x80000", ".equ MCAUSE_TIMER_LO, 0x7", ".equ MCAUSE_EXT_HI, 0x80000",
    ".equ MCAUSE_EXT_LO, 0xB", ".equ IRQ_PRIORITY_TIMER_FIRST, 0", ".equ IRQ_PRIORITY_EXT_FIRST, 1",
    ".equ IRQ_ACK_TIMER, 0x1", ".equ IRQ_ACK_EXT, 0x2", ".equ NEST_LOG0_ADDR, 84", ".equ NEST_LOG1_ADDR, 88",
    ".equ NEST_LOG2_ADDR, 92", ".equ NEST_SPIN_COUNT, 8", ".equ MSTATUS_MIE_MASK, 0x8",
    ".equ GPIO_BASE, 0x40000000", ".equ GPIO_BASE_HI, 0x40000", ".equ GPIO_BASE_LO, 0x0", ".equ GPIO_DIR, 0x0",
    ".equ GPIO_OUT, 0x4", ".equ GPIO_IN, 0x8", ".equ GPIO_OUT_SET, 0xC", ".equ GPIO_OUT_CLR, 0x10",
    ".equ GPIO_IRQ_EN, 0x14", ".equ GPIO_IRQ_STATUS, 0x18", ".equ GPIO_ALT_PWM, 0x1C", ".equ GPIO_IRQ_RISE, 0x20",
    ".equ GPIO_IRQ_FALL, 0x24", ".equ GPIO_DB_EN, 0x28", ".equ GPIO_DB_CYCLES, 0x2C", ".equ CAN_BASE, 0x40003000",
    ".equ CAN_BASE_HI, 0x40003", ".equ CAN_BASE_LO, 0x0", ".equ CAN_CTRL, 0x0", ".equ CAN_STATUS, 0x4",
    ".equ CAN_BITTIME, 0x8", ".equ CAN_IRQ_STATUS, 0x14", ".equ CAN_TX_ID, 0x20", ".equ CAN_TX_DLC, 0x24",
    ".equ CAN_TX_DATA0, 0x28", ".equ CAN_TX_DATA1, 0x2C", ".equ CAN_TX_CMD, 0x30", ".equ CAN_RX_ID, 0x34",
    ".equ CAN_RX_DLC, 0x38", ".equ CAN_RX_DATA0, 0x3C", ".equ CAN_RX_DATA1, 0x40", ".equ CAN_RX_FIFO_CTRL, 0x44",
    ".equ SPI_BASE, 0x40004000", ".equ SPI_BASE_HI, 0x40004", ".equ SPI_BASE_LO, 0x0", ".equ SPI_CTRL, 0x0",
    ".equ SPI_STATUS, 0x4", ".equ SPI_CLKDIV, 0x8", ".equ SPI_TXDATA, 0xC", ".equ SPI_RXDATA, 0x10",
    ".equ SPI_CS, 0x14", ".equ SPI_IRQ_EN, 0x18", ".equ SPI_IRQ_STATUS, 0x1C", ".equ I2C_BASE, 0x40004400",
    ".equ I2C_BASE_HI, 0x40004", ".equ I2C_BASE_LO, 0x400", ".equ I2C_CTRL, 0x0", ".equ I2C_CLKDIV, 0x4",
    ".equ I2C_STATUS, 0x8", ".equ I2C_IRQ_EN, 0xC", ".equ I2C_IRQ_STATUS, 0x10", ".equ I2C_TXDATA, 0x14",
    ".equ I2C_RXDATA, 0x18", ".equ I2C_CMD, 0x1C", ".equ TIMER_BASE, 0x40005000", ".equ TIMER_BASE_HI, 0x40005",
    ".equ TIMER_BASE_LO, 0x0", ".equ TIMER_CTRL, 0x0", ".equ TIMER_PRESCALE, 0x4", ".equ TIMER_COUNTER, 0x8",
    ".equ TIMER_STATUS, 0xC", ".equ TIMER_IRQ_EN, 0x10", ".equ TIMER_CMP0, 0x14", ".equ TIMER_CMP0_PERIOD, 0x18",
    ".equ TIMER_CMP1, 0x1C", ".equ TIMER_CMP1_PERIOD, 0x20", ".equ TIMER_WDT_LOAD, 0x24",
    ".equ TIMER_WDT_CTRL, 0x28", ".equ TIMER_WDT_COUNT, 0x2C", ".equ TIMER_PWM0_PERIOD, 0x30",
    ".equ TIMER_PWM0_DUTY, 0x34", ".equ TIMER_PWM1_PERIOD, 0x38", ".equ TIMER_PWM1_DUTY, 0x3C",
    ".equ TIMER_PWM_STATUS, 0x40", ".equ TIMER_CAPTURE_CTRL, 0x44", ".equ TIMER_CAPTURE0_VALUE, 0x48",
    ".equ TIMER_CAPTURE1_VALUE, 0x4C", ".equ ADC_BASE, 0x40006000", ".equ ADC_BASE_HI, 0x40006",
    ".equ ADC_BASE_LO, 0x0", ".equ ADC_CTRL, 0x0", ".equ ADC_STATUS, 0x4", ".equ ADC_RESULT, 0x8",
    ".equ ADC_IRQ_EN, 0xC", ".equ ADC_IRQ_STATUS, 0x10", ".equ ADC_SEQ_MASK, 0x14", ".equ ADC_SAMPLE_DIV, 0x18",
    ".equ UART_BASE, 0x40001000", ".equ UART_BASE_HI, 0x40001", ".equ UART_BASE_LO, 0x0", ".equ UART_DATA, 0x0",
    ".equ UART_STATUS, 0x4", ".equ UART_CTRL, 0x8", ".equ UART_BAUD, 0xC", ".equ UART_IRQ_EN, 0x10",
    ".equ UART_IRQ_STATUS, 0x14", ".equ UART_RS485_CTRL, 0x18", ".equ UART_IDLE_CFG, 0x1C",
    ".equ UART_LIN_CTRL, 0x20", ".equ UART_LIN_CMD, 0x24", ".equ UART_LIN_TX_ID, 0x28",
    ".equ UART_LIN_HEADER, 0x2C", ".equ UART_LIN_SLAVE, 0x30"]

def examplesDir : Text := "devkit/examples/".toList

def examplePath (name : String) : Text := examplesDir ++ name.toList

/-- The directory of a demo with the text `main`. -/
def exampleFiles (name : String) (main common : List Text) : Files where
  openFile path :=
    if path = examplePath name then .ok (main, none)
    else if path = examplePath "common.inc" then .ok (common, none)
    else .error "no such file or directory"
  resolve _ included := examplesDir ++ included
  maxOpen := 8

-- The text of a line, as the kernel reads it fastest.
theorem toList_cons {l : Text} {s : String} {lines : List String} {rest : List Text} (h : s = String.ofList l)
    (hs : lines.map String.toList = rest) : (s :: lines).map String.toList = l :: rest := by
  rw [List.map_cons, h, String.toList_ofList, hs]

end QarCore
