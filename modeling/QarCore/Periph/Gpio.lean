import QarCore.Periph.Uart

/-!
# GPIO

The registers of `qar_gpio` for any number `w` of pins, and one clock edge of it.  The core instantiates
the block with 32 pins.
-/

namespace QarCore

structure Gpio (w : Nat) where
  gpioDir : BitVec w
  gpioOutReg : BitVec w
  altPwmSel : BitVec w
  irqEnable : BitVec w
  irqStatus : BitVec w
  irqRiseMask : BitVec w
  irqFallMask : BitVec w
  lastInput : BitVec w
  debounceEnable : BitVec w
  debounceCycles : BitVec 16
  debouncedInput : BitVec w
  debounceCounter : Fin w → BitVec 16

namespace Gpio

/-- The input pins in one cycle. -/
structure Inputs (w : Nat) where
  bus : BusAccess 5
  gpioIn : BitVec w
  altPwm0 : Bool
  altPwm1 : Bool

variable {w : Nat} {s n : Gpio w} {i : Inputs w} {k : Fin w}

/-! ## Wires -/

/-- `pwm_override_mask`: only pins 0 and 1 have a PWM channel. -/
def pwmOverrideMask (s : Gpio w) : BitVec w :=
  BitVec.ofFnLE fun k ↦ k.val < 2 && s.altPwmSel.getLsbD k

def pwmOverrideValues (s : Gpio w) (i : Inputs w) : BitVec w :=
  BitVec.ofFnLE fun k ↦
    if k.val = 0 then if s.altPwmSel.getLsbD 0 then i.altPwm0 else false
    else if k.val = 1 then if s.altPwmSel.getLsbD 1 then i.altPwm1 else false
    else false

/-- `gpio_hw_out`, which drives the output pins. -/
def gpioHwOut (s : Gpio w) (i : Inputs w) : BitVec w :=
  s.gpioOutReg &&& ~~~s.pwmOverrideMask ||| s.pwmOverrideValues i

def irq (s : Gpio w) : Bool := s.irqEnable &&& s.irqStatus != 0#w

def inputOnly (s : Gpio w) (i : Inputs w) : BitVec w := ~~~s.gpioDir &&& i.gpioIn

def debounceThreshold (s : Gpio w) : BitVec 16 :=
  if s.debounceCycles = 0#16 then 1#16 else s.debounceCycles

def filteredInputOnly (s : Gpio w) : BitVec w := ~~~s.gpioDir &&& s.debouncedInput

def risingEdges (s : Gpio w) : BitVec w := ~~~s.lastInput &&& s.filteredInputOnly

def fallingEdges (s : Gpio w) : BitVec w := s.lastInput &&& ~~~s.filteredInputOnly

def irqEvents (s : Gpio w) : BitVec w :=
  s.risingEdges &&& s.irqRiseMask ||| s.fallingEdges &&& s.irqFallMask

def clearIrqMask (b : BusAccess 5) : BitVec w :=
  if b.write && b.addrWord == 0x6#5 then b.wdata.setWidth w else 0#w

/-! ## The blocks of the edge -/

/-- `if (write_en) case (addr_word) ...`; IRQ_STATUS is handled by the clear mask. -/
def busWrite (s : Gpio w) (b : BusAccess 5) (n : Gpio w) : Gpio w :=
  if b.write then
    if b.addrWord = 0x0#5 then { n with gpioDir := b.wdata.setWidth w }
    else if b.addrWord = 0x1#5 then { n with gpioOutReg := b.wdata.setWidth w }
    else if b.addrWord = 0x3#5 then { n with gpioOutReg := s.gpioOutReg ||| b.wdata.setWidth w }
    else if b.addrWord = 0x4#5 then { n with gpioOutReg := s.gpioOutReg &&& ~~~(b.wdata.setWidth w) }
    else if b.addrWord = 0x5#5 then { n with irqEnable := b.wdata.setWidth w }
    else if b.addrWord = 0x7#5 then { n with altPwmSel := b.wdata.setWidth w }
    else if b.addrWord = 0x8#5 then { n with irqRiseMask := b.wdata.setWidth w }
    else if b.addrWord = 0x9#5 then { n with irqFallMask := b.wdata.setWidth w }
    else if b.addrWord = 0xA#5 then { n with debounceEnable := b.wdata.setWidth w }
    else if b.addrWord = 0xB#5 then { n with debounceCycles := b.wdata.setWidth 16 }
    else n
  else n

/-- The body of the debounce loop: the next filtered level and the next counter of pin `k`. -/
def debouncePin (s : Gpio w) (i : Inputs w) (k : Fin w) : Bool × BitVec 16 :=
  if s.gpioDir.getLsbD k then ((s.gpioHwOut i).getLsbD k, 0)
  else if !s.debounceEnable.getLsbD k then ((s.inputOnly i).getLsbD k, 0)
  else if (s.inputOnly i).getLsbD k = s.debouncedInput.getLsbD k then (s.debouncedInput.getLsbD k, 0)
  else if s.debounceCounter k ≥ s.debounceThreshold then ((s.inputOnly i).getLsbD k, 0)
  else (s.debouncedInput.getLsbD k, s.debounceCounter k + 1)

def debounce (s : Gpio w) (i : Inputs w) (n : Gpio w) : Gpio w :=
  { n with debouncedInput := BitVec.ofFnLE fun k ↦ (s.debouncePin i k).1
           debounceCounter := fun k ↦ (s.debouncePin i k).2 }

def latchEvents (s : Gpio w) (b : BusAccess 5) (n : Gpio w) : Gpio w :=
  { n with irqStatus := s.irqStatus &&& ~~~(clearIrqMask b) ||| s.irqEvents
           lastInput := s.filteredInputOnly }

/-! ## The edge -/

def posedge (s : Gpio w) (i : Inputs w) : Gpio w :=
  latchEvents s i.bus (debounce s i (busWrite s i.bus s))

def reset : Gpio w where
  gpioDir := 0
  gpioOutReg := 0
  altPwmSel := 0
  irqEnable := 0
  irqStatus := 0
  irqRiseMask := BitVec.allOnes w
  irqFallMask := 0
  lastInput := 0
  debounceEnable := 0
  debounceCycles := 32
  debouncedInput := 0
  debounceCounter := fun _ ↦ 0

/-- `rdata` -/
def readData (s : Gpio w) (i : Inputs w) : Word :=
  if i.bus.read then
    if i.bus.addrWord = 0x0#5 then s.gpioDir.setWidth 32
    else if i.bus.addrWord = 0x1#5 then s.gpioOutReg.setWidth 32
    else if i.bus.addrWord = 0x2#5 then
      (s.gpioDir &&& s.gpioHwOut i ||| s.filteredInputOnly).setWidth 32
    else if i.bus.addrWord = 0x5#5 then s.irqEnable.setWidth 32
    else if i.bus.addrWord = 0x6#5 then s.irqStatus.setWidth 32
    else if i.bus.addrWord = 0x7#5 then s.altPwmSel.setWidth 32
    else if i.bus.addrWord = 0x8#5 then s.irqRiseMask.setWidth 32
    else if i.bus.addrWord = 0x9#5 then s.irqFallMask.setWidth 32
    else if i.bus.addrWord = 0xA#5 then s.debounceEnable.setWidth 32
    else if i.bus.addrWord = 0xB#5 then s.debounceCycles.setWidth 32
    else 0#32
  else 0#32

/-! ## One pin -/

/-- Pin `k` is an input. -/
def isInput (s : Gpio w) (k : Fin w) : Bool := !s.gpioDir.getLsbD k

/-- The filtered level of pin `k`. -/
def level (s : Gpio w) (k : Fin w) : Bool := s.debouncedInput.getLsbD k

/-- Firmware writes 1 to bit `k` of IRQ_STATUS. -/
def acknowledges (b : BusAccess 5) (k : Fin w) : Bool :=
  b.write && b.addrWord == 0x6#5 && (b.wdata.setWidth w).getLsbD k

theorem inputOnly_eq : (s.inputOnly i).getLsbD k = (s.isInput k && i.gpioIn.getLsbD k) := by
  simp [inputOnly, isInput]

theorem filteredInputOnly_eq : s.filteredInputOnly.getLsbD k = (s.isInput k && s.level k) := by
  simp [filteredInputOnly, isInput, level]

theorem clearIrqMask_eq {b : BusAccess 5} :
    (clearIrqMask b : BitVec w).getLsbD k = acknowledges b k := by
  unfold clearIrqMask acknowledges
  cases b.write && b.addrWord == 0x6#5
  · simp
  · simp only [↓reduceIte, Bool.true_and]

theorem irqEvents_eq : s.irqEvents.getLsbD k =
    (!s.lastInput.getLsbD k && (s.isInput k && s.level k) && s.irqRiseMask.getLsbD k ||
      s.lastInput.getLsbD k && !(s.isInput k && s.level k) && s.irqFallMask.getLsbD k) := by
  simp only [irqEvents, risingEdges, fallingEdges, BitVec.getLsbD_or, BitVec.getLsbD_and,
    BitVec.getLsbD_not, filteredInputOnly_eq, k.isLt, decide_true, Bool.true_and]

theorem posedge_level : (posedge s i).level k = (s.debouncePin i k).1 := by
  show (BitVec.ofFnLE fun k ↦ (s.debouncePin i k).1).getLsbD k = _
  rw [BitVec.getLsbD_ofFnLE, dif_pos k.isLt]

theorem posedge_lastInput : (posedge s i).lastInput.getLsbD k = (s.isInput k && s.level k) :=
  filteredInputOnly_eq

theorem posedge_irqStatus : (posedge s i).irqStatus.getLsbD k =
    (s.irqStatus.getLsbD k && !acknowledges i.bus k || s.irqEvents.getLsbD k) := by
  show (s.irqStatus &&& ~~~(clearIrqMask i.bus) ||| s.irqEvents).getLsbD k = _
  simp only [BitVec.getLsbD_or, BitVec.getLsbD_and, BitVec.getLsbD_not, clearIrqMask_eq, k.isLt,
    decide_true, Bool.true_and]

end Gpio

end QarCore
