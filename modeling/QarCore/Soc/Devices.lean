import QarCore.Core.Signals
import QarCore.Periph.Adc
import QarCore.Periph.Can
import QarCore.Periph.Gpio
import QarCore.Periph.Queues
import QarCore.Periph.Timer

/-!
# The peripherals of the core

The seven blocks `qar_core` instantiates, on the one bus their strobes and addresses come from.  The
timer's PWM outputs run into the GPIO block; apart from that the blocks do not see each other.
-/

namespace QarCore

structure Devices where
  gpio : Gpio 32
  uart0 : Uart
  spi0 : Spi
  can0 : Can
  timer0 : Timer
  i2c0 : I2c
  adc0 : Adc

/-- The pins of the peripherals in one cycle. -/
structure DevicePins where
  gpioIn : Word
  uartRx : Bool
  spiMiso : Bool
  i2cSdaIn : Bool
  adcCh0 : Sample
  adcCh1 : Sample
  adcCh2 : Sample
  adcCh3 : Sample

/-- The pins of the chip besides the two memories. -/
structure Pins extends DevicePins where
  irqTimer : Bool
  irqExternal : Bool

/-- No `start_<p>`. -/
def PeriphStart.idle : PeriphStart := ⟨none, false, 0, 0⟩

/-- `<p>_write_en`, `<p>_read_en`, `<p>_addr_word` and `start_<p>_wdata` of the peripheral `p`, whose word
address has `w` bits. -/
def PeriphStart.busOf {w : Nat} (b : PeriphStart) (p : Periph) : BusAccess w where
  write := b.start == some p && !b.isLoad
  read := b.start == some p && b.isLoad
  addrWord := if b.start = some p then b.addr.extractLsb' 2 w else 0
  wdata := if b.start = some p then b.wdata else 0

/-- A bus without an access. -/
def BusAccess.none {w : Nat} : BusAccess w := ⟨false, false, 0, 0⟩

namespace Devices

variable (v : Devices) (b : PeriphStart) (i : DevicePins)

/-- The inputs of the GPIO block. -/
def gpioInputs : Gpio.Inputs 32 := ⟨b.busOf .gpio, i.gpioIn, v.timer0.pwm0Out, v.timer0.pwm1Out⟩

def uartInputs : Uart.Inputs := ⟨b.busOf .uart0, i.uartRx⟩
def spiInputs : Spi.Inputs := ⟨b.busOf .spi0, i.spiMiso⟩
def i2cInputs : I2c.Inputs := ⟨b.busOf .i2c0, i.i2cSdaIn⟩
def adcInputs : Adc.Inputs := ⟨b.busOf .adc0, i.adcCh0, i.adcCh1, i.adcCh2, i.adcCh3⟩

/-- One clock edge of all blocks. -/
def posedge : Devices where
  gpio := v.gpio.posedge (v.gpioInputs b i)
  uart0 := v.uart0.posedge (uartInputs b i)
  spi0 := v.spi0.posedge (spiInputs b i)
  can0 := v.can0.posedge (b.busOf .can0)
  timer0 := v.timer0.posedge (b.busOf .timer0)
  i2c0 := v.i2c0.posedge (i2cInputs b i)
  adc0 := v.adc0.posedge (adcInputs b i)

/-- The state a reset leaves; the FIFO memories keep what they held. -/
def reset (x : Periphs.Unreset) (canRx : BitVec 2 → Frame) : Devices where
  gpio := Gpio.reset
  uart0 := Uart.reset x.uartTx x.uartRx
  spi0 := Spi.reset x.spiTx x.spiRx x.activeTxByte
  can0 := Can.reset canRx
  timer0 := Timer.reset
  i2c0 := I2c.reset x.i2cTx x.i2cRx
  adc0 := Adc.reset

/-- `<p>_read_data` -/
def rdata : Periph → Word
  | .gpio => v.gpio.readData (v.gpioInputs b i)
  | .uart0 => v.uart0.readData (b.busOf .uart0)
  | .spi0 => v.spi0.readData (b.busOf .spi0)
  | .can0 => v.can0.readData (b.busOf .can0)
  | .timer0 => v.timer0.readData (b.busOf .timer0)
  | .i2c0 => v.i2c0.readData (b.busOf .i2c0)
  | .adc0 => v.adc0.readData (b.busOf .adc0)

/-- `<p>_irq` -/
def irq : Periph → Bool
  | .gpio => v.gpio.irq
  | .uart0 => v.uart0.irq
  | .spi0 => v.spi0.irq
  | .can0 => v.can0.irq
  | .timer0 => v.timer0.irq
  | .i2c0 => v.i2c0.irq
  | .adc0 => v.adc0.irq

end Devices

/-! ## Who is addressed -/

theorem PeriphStart.busOf_of_ne {w : Nat} {b : PeriphStart} {p : Periph} (h : b.start ≠ some p) :
    b.busOf p = (BusAccess.none : BusAccess w) := by
  simp [PeriphStart.busOf, BusAccess.none, h]

@[simp] theorem PeriphStart.busOf_idle {w : Nat} (p : Periph) :
    PeriphStart.idle.busOf p = (BusAccess.none : BusAccess w) :=
  PeriphStart.busOf_of_ne nofun

end QarCore
