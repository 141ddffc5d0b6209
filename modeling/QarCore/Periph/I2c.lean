import QarCore.Periph.Uart

/-!
# I2C master

The registers of `qar_i2c` and one clock edge of it, block by block as for the UART.
-/

namespace QarCore

open Clocked (Ring)

namespace I2c

/-- `STATE_IDLE` to `STATE_STOP`; the two unused codes of the 3-bit register are never reached. -/
inductive State
  | idle | start | write | ack | read | stop
  deriving DecidableEq, Repr

end I2c

structure I2c where
  ctrl : Word
  clkdiv : Word
  irqEn : Word
  irqStatus : Word
  cmdReg : Word
  ackErrorFlag : Bool
  rxOverflowFlag : Bool
  txOverflowFlag : Bool
  lastFaultCode : BitVec 3
  lastFaultCmd : BitVec 3
  lastFaultByte : Byte
  txFifo : Ring 2 Byte
  rxFifo : Ring 2 Byte
  state : I2c.State
  sclState : Bool
  sdaState : Bool
  sdaDrive : Bool
  bitIndex : BitVec 4
  shiftReg : Byte
  divCounter : BitVec 16

namespace I2c

structure Inputs where
  bus : BusAccess 6
  sdaIn : Bool
  deriving DecidableEq

/-! ## Wires -/

def ctrlEnable (s : I2c) : Bool := s.ctrl.getLsbD 0
def ctrlLoopback (s : I2c) : Bool := s.ctrl.getLsbD 4

def busyFlag (s : I2c) : Bool := s.state != .idle
def rxReadyFlag (s : I2c) : Bool := s.rxFifo.head != s.rxFifo.tail
def txEmptyFlag (s : I2c) : Bool := s.txFifo.head == s.txFifo.tail

def irq (s : I2c) : Bool := s.irqEn.extractLsb' 0 6 &&& s.irqStatus.extractLsb' 0 6 != 0#6

/-- STATUS: from bit 0 on busy, RX ready, TX empty, and the three fault flags. -/
def statusValue (s : I2c) : Word :=
  0#26 ++ BitVec.ofBool s.txOverflowFlag ++ BitVec.ofBool s.rxOverflowFlag ++
    BitVec.ofBool s.ackErrorFlag ++ BitVec.ofBool s.txEmptyFlag ++
    BitVec.ofBool s.rxReadyFlag ++ BitVec.ofBool s.busyFlag

/-- `div_counter >= clkdiv[15:0]`: the end of an SCL half period. -/
def divDone (s : I2c) : Bool := s.divCounter ≥ s.clkdiv.extractLsb' 0 16

/-! ## Bus -/

/-- A write to TXDATA: an overflow is latched if the FIFO is full. -/
def writeData (s : I2c) (wdata : Word) (n : I2c) : I2c :=
  if !s.txFifo.wideFull then
    { n with txFifo := n.txFifo.pushAt s.txFifo.head (wdata.setWidth 8)
             irqStatus := setBit n.irqStatus 1 false }
  else
    { n with txOverflowFlag := true
             irqStatus := setBit (setBit n.irqStatus 2 true) 3 true
             lastFaultCode := 1
             lastFaultCmd := 2
             lastFaultByte := wdata.setWidth 8 }

/-- A write to STATUS clears single flags. -/
def writeStatus (wdata : Word) (n : I2c) : I2c :=
  let n := if wdata.getLsbD 3 then { n with ackErrorFlag := false } else n
  let n := if wdata.getLsbD 4 then { n with rxOverflowFlag := false } else n
  if wdata.getLsbD 5 then { n with txOverflowFlag := false } else n

def writeIrqStatus (s : I2c) (wdata : Word) (n : I2c) : I2c :=
  let n := { n with irqStatus := s.irqStatus &&& ~~~wdata }
  -- bit 2 clears all three flags, bits 3, 4 and 5 one each
  let n := if wdata.getLsbD 2 then
      { n with ackErrorFlag := false, rxOverflowFlag := false, txOverflowFlag := false }
    else n
  let n := if wdata.getLsbD 3 then { n with txOverflowFlag := false } else n
  let n := if wdata.getLsbD 4 then { n with rxOverflowFlag := false } else n
  if wdata.getLsbD 5 then { n with ackErrorFlag := false } else n

def busWrite (s : I2c) (b : BusAccess 6) (n : I2c) : I2c :=
  if b.write then
    if b.addrWord = 0x0#6 then { n with ctrl := b.wdata }
    else if b.addrWord = 0x1#6 then { n with clkdiv := b.wdata }
    else if b.addrWord = 0x2#6 then writeStatus b.wdata n
    else if b.addrWord = 0x3#6 then { n with irqEn := b.wdata }
    else if b.addrWord = 0x4#6 then writeIrqStatus s b.wdata n
    else if b.addrWord = 0x5#6 then writeData s b.wdata n
    else if b.addrWord = 0x7#6 then { n with cmdReg := b.wdata }
    else n
  else n

/-- A read of RXDATA pops the RX FIFO. -/
def busRead (s : I2c) (b : BusAccess 6) (n : I2c) : I2c :=
  if b.read && b.addrWord == 0x6#6 && !s.rxFifo.empty then
    { n with rxFifo := n.rxFifo.popAt s.rxFifo.tail
             irqStatus := if Uart.becomesEmpty s.rxFifo then setBit n.irqStatus 0 false
                          else n.irqStatus }
  else n

/-! ## State machine -/

/-- A WRITE command takes a byte of the TX FIFO. -/
def takesTxByte (s : I2c) : Bool :=
  s.state == .idle && s.ctrlEnable && !s.cmdReg.getLsbD 0 && s.cmdReg.getLsbD 2 && !s.txFifo.empty

/-- `STATE_IDLE`: the pending commands in the order START, WRITE, READ, STOP. -/
def idleState (s : I2c) (n : I2c) : I2c :=
  let n := { n with sdaDrive := false, sdaState := true, sclState := true, divCounter := 0 }
  if s.ctrlEnable then
    if s.cmdReg.getLsbD 0 then
      { n with cmdReg := setBit n.cmdReg 0 false, sdaDrive := true, sdaState := false
               lastFaultCmd := 1, state := .start }
    else if s.cmdReg.getLsbD 2 && !s.txFifo.empty then
      { n with cmdReg := setBit n.cmdReg 2 false
               shiftReg := s.txFifo.front
               txFifo := n.txFifo.popAt s.txFifo.tail
               bitIndex := 7
               sdaDrive := true
               sdaState := s.txFifo.front.getLsbD 7
               sclState := false
               lastFaultCmd := 2
               state := .write }
    else if s.cmdReg.getLsbD 3 then
      { n with cmdReg := setBit n.cmdReg 3 false, bitIndex := 7, sdaDrive := false
               sclState := false, lastFaultCmd := 3, state := .read }
    else if s.cmdReg.getLsbD 1 then
      { n with cmdReg := setBit n.cmdReg 1 false, sdaDrive := true, sdaState := false
               lastFaultCmd := 4, state := .stop }
    else n
  else n

def startState (s : I2c) (n : I2c) : I2c :=
  if s.divDone then
    { n with divCounter := 0, sdaState := false, sclState := false, state := .idle }
  else { n with divCounter := s.divCounter + 1 }

def writeState (s : I2c) (n : I2c) : I2c :=
  if s.divDone then
    let n := { n with divCounter := 0, sclState := !s.sclState }
    if s.sclState then
      if s.bitIndex = 0#4 then { n with sdaDrive := false, state := .ack }
      else { n with bitIndex := s.bitIndex - 1
                    sdaState := s.shiftReg.getLsbD (s.bitIndex.toNat - 1) }
    else n
  else { n with divCounter := s.divCounter + 1 }

def ackState (s : I2c) (sdaIn : Bool) (n : I2c) : I2c :=
  if s.divDone then
    let n := { n with divCounter := 0, sclState := !s.sclState }
    if s.sclState then
      if !(if s.ctrlLoopback then false else sdaIn) then { n with ackErrorFlag := false }
      else
        { n with ackErrorFlag := true
                 irqStatus := setBit (setBit n.irqStatus 2 true) 5 true
                 lastFaultCode := 3
                 lastFaultByte := s.shiftReg }
    else
      -- `(tx_head - tx_tail) == 0`, at 32 bits
      let drained := s.txFifo.head.setWidth 32 - s.txFifo.tail.setWidth 32 == 0#32
      { n with state := .idle
               irqStatus := if drained then setBit n.irqStatus 1 true else n.irqStatus }
  else { n with divCounter := s.divCounter + 1 }

/-- A READ command stores its byte. -/
def storesRxByte (s : I2c) : Bool :=
  s.state == .read && s.divDone && s.sclState && s.bitIndex == 0#4

/-- The shift register goes into the FIFO as it is before the last bit is shifted in. -/
def storeByte (s : I2c) (n : I2c) : I2c :=
  if !s.rxFifo.wideFull then
    { n with rxFifo := n.rxFifo.pushAt s.rxFifo.head s.shiftReg
             irqStatus := setBit n.irqStatus 0 true }
  else
    { n with rxOverflowFlag := true
             irqStatus := setBit (setBit n.irqStatus 2 true) 4 true
             lastFaultCode := 2
             lastFaultByte := s.shiftReg }

def readState (s : I2c) (sdaIn : Bool) (n : I2c) : I2c :=
  if s.divDone then
    let n := { n with divCounter := 0, sclState := !s.sclState }
    if s.sclState then
      let bit := if s.ctrlLoopback then s.sdaState else sdaIn
      let n := { n with shiftReg := setBit n.shiftReg s.bitIndex.toNat bit }
      if s.bitIndex = 0#4 then { storeByte s n with state := .idle }
      else { n with bitIndex := s.bitIndex - 1 }
    else n
  else { n with divCounter := s.divCounter + 1 }

def stopState (s : I2c) (n : I2c) : I2c :=
  if s.divDone then
    { n with divCounter := 0, sclState := true, sdaState := true, state := .idle }
  else { n with divCounter := s.divCounter + 1 }

/-- `case (state)` -/
def stateCase (s : I2c) (sdaIn : Bool) (n : I2c) : I2c :=
  match s.state with
  | .idle => idleState s n
  | .start => startState s n
  | .write => writeState s n
  | .ack => ackState s sdaIn n
  | .read => readState s sdaIn n
  | .stop => stopState s n

/-! ## The edge -/

def posedge (s : I2c) (i : Inputs) : I2c :=
  stateCase s i.sdaIn (busRead s i.bus (busWrite s i.bus s))

/-- The state a reset leaves; the FIFO memories keep what they held. -/
def reset (txMem rxMem : BitVec 2 → Byte) : I2c where
  ctrl := 1
  clkdiv := 100
  irqEn := 0
  irqStatus := 0
  cmdReg := 0
  ackErrorFlag := false
  rxOverflowFlag := false
  txOverflowFlag := false
  lastFaultCode := 0
  lastFaultCmd := 0
  lastFaultByte := 0
  txFifo := ⟨0, 0, txMem⟩
  rxFifo := ⟨0, 0, rxMem⟩
  state := .idle
  sclState := true
  sdaState := true
  sdaDrive := false
  bitIndex := 0
  shiftReg := 0
  divCounter := 0

/-- `fault_status_value` -/
def faultStatusValue (s : I2c) : Word :=
  0#8 ++ s.lastFaultByte ++ 0#4 ++ s.lastFaultCmd ++ s.lastFaultCode ++
    BitVec.ofBool s.ackErrorFlag ++ BitVec.ofBool s.rxOverflowFlag ++
    BitVec.ofBool s.txOverflowFlag ++ 0#3

/-- `rdata` -/
def readData (s : I2c) (b : BusAccess 6) : Word :=
  if b.read then
    if b.addrWord = 0x0#6 then s.ctrl
    else if b.addrWord = 0x1#6 then s.clkdiv
    else if b.addrWord = 0x2#6 then s.statusValue
    else if b.addrWord = 0x3#6 then s.irqEn
    else if b.addrWord = 0x4#6 then s.irqStatus
    else if b.addrWord = 0x6#6 then s.rxFifo.front.setWidth 32
    else if b.addrWord = 0x7#6 then s.cmdReg
    else if b.addrWord = 0x8#6 then s.faultStatusValue
    else 0#32
  else 0#32

end I2c

end QarCore
