import QarCore.Periph.Uart

/-!
# SPI master

The registers of `qar_spi` and one clock edge of it, block by block as for the UART.
-/

namespace QarCore

open Clocked (Ring)

structure Spi where
  ctrl : Word
  clkdiv : Word
  csSelect : Word
  irqEn : Word
  irqStatus : Word
  csActive : BitVec 4
  csAutoCount : BitVec 4
  txOverflowFlag : Bool
  rxOverflowFlag : Bool
  csErrorFlag : Bool
  lastFaultCode : BitVec 3
  lastFaultByte : Byte
  lastFaultCs : BitVec 4
  txFifo : Ring 2 Byte
  rxFifo : Ring 2 Byte
  busy : Bool
  txShift : Byte
  activeTxByte : Byte
  rxShift : Byte
  bitIndex : BitVec 3
  divCounter : BitVec 16
  sckPhase : Bool

namespace Spi

structure Inputs where
  bus : BusAccess 6
  miso : Bool
  deriving DecidableEq

/-! ## Wires -/

def ctrlEnable (s : Spi) : Bool := s.ctrl.getLsbD 0
def ctrlCpol (s : Spi) : Bool := s.ctrl.getLsbD 1
def ctrlCpha (s : Spi) : Bool := s.ctrl.getLsbD 2
def ctrlLsb (s : Spi) : Bool := s.ctrl.getLsbD 3
def ctrlLoopback (s : Spi) : Bool := s.ctrl.getLsbD 4

def effectiveDiv (s : Spi) : BitVec 16 :=
  if s.clkdiv.extractLsb' 0 16 = 0#16 then 1#16 else s.clkdiv.extractLsb' 0 16

/-! The pins. -/

def spiSck (s : Spi) : Bool := xor s.ctrlCpol (if s.busy then s.sckPhase else false)

def spiMosi (s : Spi) : Bool :=
  if s.busy then if s.ctrlLsb then s.txShift.getLsbD 0 else s.txShift.getLsbD 7 else false

/-- The constant is OR-ed to the complement, not AND-ed. -/
def spiCsN (s : Spi) : BitVec 4 := ~~~(if s.busy then s.csActive else 0#4) ||| 0b1111#4

def irq (s : Spi) : Bool := s.irqEn.extractLsb' 0 6 &&& s.irqStatus.extractLsb' 0 6 != 0#6

def sampleBitComb (s : Spi) (miso : Bool) : Bool :=
  if s.ctrlLoopback then if s.ctrlLsb then s.txShift.getLsbD 0 else s.txShift.getLsbD 7 else miso

def rxShiftCombined (s : Spi) (miso : Bool) : Byte :=
  if s.ctrlLsb then BitVec.ofBool (s.sampleBitComb miso) ++ s.rxShift.extractLsb' 1 7
  else s.rxShift.extractLsb' 0 7 ++ BitVec.ofBool (s.sampleBitComb miso)

def txReady (s : Spi) : Bool := !s.txFifo.wideFull
def rxReady (s : Spi) : Bool := !s.rxFifo.empty
def faultFlag (s : Spi) : Bool := s.txOverflowFlag || s.rxOverflowFlag || s.csErrorFlag

/-- STATUS: from bit 0 on TX ready, RX ready, busy, fault, and the three fault flags. -/
def statusValue (s : Spi) : Word :=
  0#25 ++ BitVec.ofBool s.csErrorFlag ++ BitVec.ofBool s.rxOverflowFlag ++
    BitVec.ofBool s.txOverflowFlag ++ BitVec.ofBool s.faultFlag ++ BitVec.ofBool s.busy ++
    BitVec.ofBool s.rxReady ++ BitVec.ofBool s.txReady

/-! ## Bus -/

/-- A write to TXDATA: an overflow is latched if the FIFO is full. -/
def writeData (s : Spi) (wdata : Word) (n : Spi) : Spi :=
  if !s.txFifo.wideFull then
    { n with txFifo := n.txFifo.pushAt s.txFifo.head (wdata.setWidth 8)
             irqStatus := setBit n.irqStatus 1 false }
  else
    { n with txOverflowFlag := true
             irqStatus := setBit (setBit n.irqStatus 2 true) 3 true
             lastFaultCode := 1
             lastFaultByte := wdata.setWidth 8
             lastFaultCs := s.csSelect.extractLsb' 0 4 }

def writeIrqStatus (s : Spi) (wdata : Word) (n : Spi) : Spi :=
  let n := { n with irqStatus := s.irqStatus &&& ~~~wdata }
  -- bit 2 clears all three flags, bits 3, 4 and 5 one each
  let n := if wdata.getLsbD 2 then
      { n with txOverflowFlag := false, rxOverflowFlag := false, csErrorFlag := false }
    else n
  let n := if wdata.getLsbD 3 then { n with txOverflowFlag := false } else n
  let n := if wdata.getLsbD 4 then { n with rxOverflowFlag := false } else n
  if wdata.getLsbD 5 then { n with csErrorFlag := false } else n

def busWrite (s : Spi) (b : BusAccess 6) (n : Spi) : Spi :=
  if b.write then
    if b.addrWord = 0x0#6 then { n with ctrl := b.wdata }
    else if b.addrWord = 0x2#6 then { n with clkdiv := b.wdata }
    else if b.addrWord = 0x5#6 then { n with csSelect := b.wdata, csAutoCount := 1 }
    else if b.addrWord = 0x6#6 then { n with irqEn := b.wdata }
    else if b.addrWord = 0x7#6 then writeIrqStatus s b.wdata n
    else if b.addrWord = 0x3#6 then writeData s b.wdata n
    else n
  else n

/-- A read of RXDATA pops the RX FIFO. -/
def busRead (s : Spi) (b : BusAccess 6) (n : Spi) : Spi :=
  if b.read && b.addrWord == 0x4#6 && !s.rxFifo.empty then
    { n with rxFifo := n.rxFifo.popAt s.rxFifo.tail
             irqStatus := if Uart.becomesEmpty s.rxFifo then setBit n.irqStatus 0 false
                          else n.irqStatus }
  else n

/-! ## Transfers -/

/-- The idle master takes a byte of the TX FIFO. -/
def takesTxByte (s : Spi) : Bool :=
  !s.busy && s.ctrlEnable && !s.txFifo.empty && s.csSelect.extractLsb' 0 4 != 0#4

def startTransfer (s : Spi) (n : Spi) : Spi :=
  if !s.busy && s.ctrlEnable && !s.txFifo.empty then
    if s.csSelect.extractLsb' 0 4 = 0#4 then
      -- no chip select: the byte stays in the FIFO and the error is latched
      { n with csErrorFlag := true
               irqStatus := setBit (setBit n.irqStatus 2 true) 5 true
               lastFaultCode := 3
               lastFaultByte := s.txFifo.front
               lastFaultCs := 0 }
    else
      { n with busy := true
               csActive := s.csSelect.extractLsb' 0 4
               csAutoCount := s.ctrl.extractLsb' 8 4
               txShift := s.txFifo.front
               activeTxByte := s.txFifo.front
               rxShift := 0
               txFifo := n.txFifo.popAt s.txFifo.tail
               bitIndex := 7
               divCounter := 0
               sckPhase := false
               irqStatus := if Uart.becomesEmpty s.txFifo then setBit n.irqStatus 1 true
                            else n.irqStatus }
  else n

/-- The sample edge of the last bit of a byte. -/
def samplesLastBit (s : Spi) : Bool :=
  s.busy && s.divCounter ≥ s.effectiveDiv && xor s.sckPhase s.ctrlCpha && s.bitIndex == 0#3

/-- The byte that is received, with its last bit. -/
def receivedByte (s : Spi) (miso : Bool) : Byte :=
  if s.ctrlLoopback then s.activeTxByte else s.rxShiftCombined miso

/-- A byte is complete: it is stored, or an overflow is latched if the FIFO is full. -/
def finishByte (s : Spi) (miso : Bool) (n : Spi) : Spi :=
  let n := { n with busy := false }
  let n :=
    if s.csAutoCount ≤ 1#4 then { n with csActive := 0 }
    else { n with csAutoCount := s.csAutoCount - 1 }
  if !s.rxFifo.wideFull then
    { n with rxFifo := n.rxFifo.pushAt s.rxFifo.head (s.receivedByte miso)
             irqStatus := setBit n.irqStatus 0 true }
  else
    { n with rxOverflowFlag := true
             irqStatus := setBit (setBit n.irqStatus 2 true) 4 true
             lastFaultCode := 2
             lastFaultByte := s.receivedByte miso
             lastFaultCs := s.csActive }

def shiftBits (s : Spi) (miso : Bool) (n : Spi) : Spi :=
  if s.busy then
    if s.divCounter ≥ s.effectiveDiv then
      let n := { n with divCounter := 0, sckPhase := !s.sckPhase }
      if xor s.sckPhase s.ctrlCpha then
        -- sample edge
        let n := { n with rxShift := s.rxShiftCombined miso }
        if s.bitIndex = 0#3 then finishByte s miso n else { n with bitIndex := s.bitIndex - 1 }
      else
        -- shift edge
        { n with txShift := if s.ctrlLsb then 0#1 ++ s.txShift.extractLsb' 1 7
                            else s.txShift.extractLsb' 0 7 ++ 0#1 }
    else { n with divCounter := s.divCounter + 1 }
  else { n with divCounter := 0, sckPhase := false }

/-! ## The edge -/

def posedge (s : Spi) (i : Inputs) : Spi :=
  shiftBits s i.miso (startTransfer s (busRead s i.bus (busWrite s i.bus s)))

/-- The state a reset leaves; the FIFO memories and `active_tx_byte` keep what they held. -/
def reset (txMem rxMem : BitVec 2 → Byte) (activeTxByte : Byte) : Spi where
  ctrl := 1
  clkdiv := 1
  csSelect := 1
  irqEn := 0
  irqStatus := 0
  csActive := 0
  csAutoCount := 1
  txOverflowFlag := false
  rxOverflowFlag := false
  csErrorFlag := false
  lastFaultCode := 0
  lastFaultByte := 0
  lastFaultCs := 0
  txFifo := ⟨0, 0, txMem⟩
  rxFifo := ⟨0, 0, rxMem⟩
  busy := false
  txShift := 0
  activeTxByte := activeTxByte
  rxShift := 0
  bitIndex := 0
  divCounter := 0
  sckPhase := false

/-- `fault_status_value` -/
def faultStatusValue (s : Spi) : Word :=
  0#8 ++ s.lastFaultByte ++ 0#4 ++ s.lastFaultCs ++ s.lastFaultCode ++
    BitVec.ofBool s.csErrorFlag ++ BitVec.ofBool s.rxOverflowFlag ++
    BitVec.ofBool s.txOverflowFlag ++ 0#2

/-- `rdata` -/
def readData (s : Spi) (b : BusAccess 6) : Word :=
  if b.read then
    if b.addrWord = 0x0#6 then s.ctrl
    else if b.addrWord = 0x1#6 then s.statusValue
    else if b.addrWord = 0x2#6 then s.clkdiv
    -- inside the concatenation the difference has the pointers' own width
    else if b.addrWord = 0x3#6 then (s.txFifo.head - s.txFifo.tail).setWidth 32
    else if b.addrWord = 0x4#6 then s.rxFifo.front.setWidth 32
    else if b.addrWord = 0x5#6 then s.csSelect
    else if b.addrWord = 0x6#6 then s.irqEn
    else if b.addrWord = 0x7#6 then s.irqStatus
    else if b.addrWord = 0x8#6 then s.faultStatusValue
    else 0#32
  else 0#32

end Spi

end QarCore
