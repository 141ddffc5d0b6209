import QarCore.Periph.Uart

/-!
# Timer

The registers of `qar_timer` and one clock edge of it: the register writes first, the counter tick
after them, so that where both assign a register the tick wins.
-/

namespace QarCore

structure Timer where
  ctrl : Word
  prescale : Word
  counter : Word
  status : Word
  irqEn : Word
  cmp0 : Word
  cmp0Period : Word
  cmp1 : Word
  cmp1Period : Word
  wdtLoad : Word
  wdtCounter : Word
  wdtEnable : Bool
  pwm0Period : Word
  pwm0Duty : Word
  pwm1Period : Word
  pwm1Duty : Word
  captureCtrl : Word
  capture0Value : Word
  capture1Value : Word
  pwm0Counter : Word
  pwm1Counter : Word
  pwm0Out : Bool
  pwm1Out : Bool
  prescaleCnt : Word
  deriving DecidableEq

namespace Timer

/-! ## Wires -/

def counterEnable (s : Timer) : Bool := s.ctrl.getLsbD 0
def cmp0AutoReload (s : Timer) : Bool := s.ctrl.getLsbD 1
def cmp1AutoReload (s : Timer) : Bool := s.ctrl.getLsbD 2

def irq (s : Timer) : Bool := s.status &&& s.irqEn != 0#32

/-- The prescaler lets a tick through. -/
def ticks (s : Timer) : Bool := s.counterEnable && s.prescaleCnt ≥ s.prescale

/-! ## Register writes -/

def reloadWdt (load : Word) (n : Timer) : Timer :=
  { n with wdtCounter := load, status := setBit n.status 2 false }

def writeWdtLoad (s : Timer) (wdata : Word) (n : Timer) : Timer :=
  let n := { n with wdtLoad := wdata }
  if s.wdtEnable then reloadWdt wdata n else n

def writeWdtCtrl (s : Timer) (wdata : Word) (n : Timer) : Timer :=
  let n := if !s.wdtEnable && wdata.getLsbD 0 then reloadWdt s.wdtLoad n else n
  let n := { n with wdtEnable := wdata.getLsbD 0 }
  if wdata.getLsbD 1 then reloadWdt s.wdtLoad n else n

def writeCaptureCtrl (s : Timer) (wdata : Word) (n : Timer) : Timer :=
  let n := { n with captureCtrl := wdata }
  let n := if wdata.getLsbD 0 then
      { n with capture0Value := s.counter, status := setBit n.status 3 true } else n
  if wdata.getLsbD 1 then
    { n with capture1Value := s.counter, status := setBit n.status 4 true } else n

def busWrite (s : Timer) (b : BusAccess 6) (n : Timer) : Timer :=
  if b.write then
    if b.addrWord = 0x0#6 then { n with ctrl := b.wdata }
    else if b.addrWord = 0x1#6 then { n with prescale := b.wdata }
    else if b.addrWord = 0x2#6 then { n with counter := b.wdata }
    else if b.addrWord = 0x3#6 then { n with status := s.status &&& ~~~b.wdata }
    else if b.addrWord = 0x4#6 then { n with irqEn := b.wdata }
    else if b.addrWord = 0x5#6 then { n with cmp0 := b.wdata }
    else if b.addrWord = 0x6#6 then { n with cmp0Period := b.wdata }
    else if b.addrWord = 0x7#6 then { n with cmp1 := b.wdata }
    else if b.addrWord = 0x8#6 then { n with cmp1Period := b.wdata }
    else if b.addrWord = 0x9#6 then writeWdtLoad s b.wdata n
    else if b.addrWord = 0xA#6 then writeWdtCtrl s b.wdata n
    else if b.addrWord = 0xC#6 then { n with pwm0Period := b.wdata, pwm0Counter := 0 }
    else if b.addrWord = 0xD#6 then { n with pwm0Duty := b.wdata }
    else if b.addrWord = 0xE#6 then { n with pwm1Period := b.wdata, pwm1Counter := 0 }
    else if b.addrWord = 0xF#6 then { n with pwm1Duty := b.wdata }
    else if b.addrWord = 0x11#6 then writeCaptureCtrl s b.wdata n
    else n
  else n

/-! ## Counter tick -/

def decrementWdt (s : Timer) (n : Timer) : Timer :=
  if s.wdtEnable && s.wdtCounter != 0#32 then
    let n := { n with wdtCounter := s.wdtCounter - 1 }
    if s.wdtCounter = 1#32 then { n with status := setBit n.status 2 true } else n
  else n

def compare (s : Timer) (n : Timer) : Timer :=
  let n := if s.cmp0 != 0#32 && s.counter == s.cmp0 then
      { n with status := setBit n.status 0 true
               cmp0 := if s.cmp0AutoReload && s.cmp0Period != 0#32 then s.cmp0 + s.cmp0Period
                       else n.cmp0 }
    else n
  if s.cmp1 != 0#32 && s.counter == s.cmp1 then
    { n with status := setBit n.status 1 true
             cmp1 := if s.cmp1AutoReload && s.cmp1Period != 0#32 then s.cmp1 + s.cmp1Period
                     else n.cmp1 }
  else n

/-- The phase of a PWM channel after a tick. -/
def pwmAdvance (period phase : Word) : Word :=
  if period = 0#32 then 0 else if phase + 1 ≥ period then 0 else phase + 1

def pwmLevel (period duty phase : Word) : Bool := period != 0#32 && phase < duty

def tick (s : Timer) (n : Timer) : Timer :=
  if s.counterEnable then
    if s.prescaleCnt ≥ s.prescale then
      let n := { n with prescaleCnt := 0, counter := s.counter + 1 }
      let n := compare s (decrementWdt s n)
      { n with pwm0Counter := pwmAdvance s.pwm0Period s.pwm0Counter
               pwm1Counter := pwmAdvance s.pwm1Period s.pwm1Counter
               pwm0Out := pwmLevel s.pwm0Period s.pwm0Duty s.pwm0Counter
               pwm1Out := pwmLevel s.pwm1Period s.pwm1Duty s.pwm1Counter }
    else { n with prescaleCnt := s.prescaleCnt + 1 }
  else
    { n with prescaleCnt := 0
             pwm0Counter := 0
             pwm1Counter := 0
             pwm0Out := s.pwm0Period != 0#32 && s.pwm0Duty != 0#32
             pwm1Out := s.pwm1Period != 0#32 && s.pwm1Duty != 0#32 }

/-! ## The edge -/

def posedge (s : Timer) (b : BusAccess 6) : Timer := tick s (busWrite s b s)

def reset : Timer where
  ctrl := 0
  prescale := 0
  counter := 0
  status := 0
  irqEn := 0
  cmp0 := 0
  cmp0Period := 0
  cmp1 := 0
  cmp1Period := 0
  wdtLoad := 0
  wdtCounter := 0
  wdtEnable := false
  pwm0Period := 0
  pwm0Duty := 0
  pwm1Period := 0
  pwm1Duty := 0
  captureCtrl := 0
  capture0Value := 0
  capture1Value := 0
  pwm0Counter := 0
  pwm1Counter := 0
  pwm0Out := false
  pwm1Out := false
  prescaleCnt := 0

/-- `rdata` -/
def readData (s : Timer) (b : BusAccess 6) : Word :=
  if b.read then
    if b.addrWord = 0x0#6 then s.ctrl
    else if b.addrWord = 0x1#6 then s.prescale
    else if b.addrWord = 0x2#6 then s.counter
    else if b.addrWord = 0x3#6 then s.status
    else if b.addrWord = 0x4#6 then s.irqEn
    else if b.addrWord = 0x5#6 then s.cmp0
    else if b.addrWord = 0x6#6 then s.cmp0Period
    else if b.addrWord = 0x7#6 then s.cmp1
    else if b.addrWord = 0x8#6 then s.cmp1Period
    else if b.addrWord = 0x9#6 then s.wdtLoad
    else if b.addrWord = 0xA#6 then (BitVec.ofBool s.wdtEnable).setWidth 32
    else if b.addrWord = 0xB#6 then s.wdtCounter
    else if b.addrWord = 0xC#6 then s.pwm0Period
    else if b.addrWord = 0xD#6 then s.pwm0Duty
    else if b.addrWord = 0xE#6 then s.pwm1Period
    else if b.addrWord = 0xF#6 then s.pwm1Duty
    else if b.addrWord = 0x10#6 then
      0#30 ++ BitVec.ofBool s.pwm1Out ++ BitVec.ofBool s.pwm0Out
    else if b.addrWord = 0x11#6 then s.captureCtrl
    else if b.addrWord = 0x12#6 then s.capture0Value
    else if b.addrWord = 0x13#6 then s.capture1Value
    else 0#32
  else 0#32

end Timer

end QarCore
