import QarCore.Clocked.RingFifo
import QarCore.Core.State

/-!
# UART

The registers of `qar_uart` with its LIN extension and one clock edge of it.  As in the front end of
the core, the blocks below are the non-blocking assignments of the source in their order: each reads
the registers `s` before the edge and updates the next value `n`, so that the last assignment to a
register wins.
-/

namespace QarCore

open Clocked (Ring)

abbrev Byte := BitVec 8

/-- A register access as the core's bus drives it: both strobes, the word address and the data. -/
structure BusAccess (w : Nat) where
  write : Bool
  read : Bool
  addrWord : BitVec w
  wdata : Word
  deriving DecidableEq

namespace Uart

/-! ## Frames -/

/-- The settings of CTRL that shape a frame. -/
structure FrameConfig where
  parityEnable : Bool
  parityOdd : Bool
  twoStop : Bool
  deriving DecidableEq

/-- `^data` -/
def parityOf (data : Byte) : Bool :=
  (List.range 8).foldl (fun p j ↦ xor p (data.getLsbD j)) false

/-- The parity bit of a byte. -/
def FrameConfig.parityBit (fc : FrameConfig) (data : Byte) : Bool :=
  if fc.parityOdd then !parityOf data else parityOf data

/-- `build_tx_frame`: start bit, data, parity if enabled, and ones up to bit 11. -/
def buildTxFrame (data : Byte) (fc : FrameConfig) : BitVec 12 :=
  -- `frame_tmp[0] = 0`, `frame_tmp[8:1] = data`, all other bits 1
  let frame := 0b111#3 ++ data ++ 0#1
  if fc.parityEnable then 0b11#2 ++ BitVec.ofBool (fc.parityBit data) ++ data ++ 0#1 else frame

def calcFrameBits (fc : FrameConfig) : BitVec 5 :=
  let bits := if fc.parityEnable then 9#5 + 1#5 else 9#5
  if fc.twoStop then bits + 2#5 else bits + 1#5

def parityMatch (data : Byte) (fc : FrameConfig) (sampledParity : Bool) : Bool :=
  if !fc.parityEnable then true else sampledParity == fc.parityBit data

/-! ## Registers -/

/-- The registers the LIN extension adds. -/
structure Lin where
  ctrl : Word
  cmd : Word
  slaveCtrl : Word
  syncByte : Byte
  idByte : Byte
  headerValid : Bool
  syncError : Bool
  headerState : BitVec 2
  waitDelimiter : Bool
  txHeaderId : Byte
  autoHeaderPending : Bool
  autoState : BitVec 2
  slaveArmed : Bool
  slaveTxPending : Bool
  slaveBytesRemaining : Byte
  slaveUnderflow : Bool
  breakPending : Bool
  breakActive : Bool
  breakCounter : Word
  breakTick : Word
  rxLowCounter : Word
  rxTick : Word

/-- The serializer. -/
structure TxEngine where
  line : Bool
  shift : BitVec 12
  bitsRemaining : BitVec 5
  counter : Word
  deriving DecidableEq

/-- The sampler and the two-flop synchronizer before it. -/
structure RxEngine where
  sync1 : Bool
  sync2 : Bool
  busy : Bool
  counter : Word
  bitIndex : BitVec 5
  totalBits : BitVec 5
  dataLatch : Byte
  parityLatch : Bool
  /-- `rx_parity_enable_latch`, `rx_parity_odd_latch`, `rx_two_stop_latch` -/
  frame : FrameConfig
  stopError : Bool
  startError : Bool
  deriving DecidableEq

end Uart

open Uart in
structure Uart where
  ctrl : Word
  baudDiv : Word
  irqEn : Word
  irqStatus : Word
  rs485Ctrl : Word
  status : Word
  idleCfg : Word
  idleCounter : Word
  idleIrqPending : Bool
  lin : Lin
  txFifo : Ring 3 Byte
  rxFifo : Ring 3 Byte
  tx : TxEngine
  rx : RxEngine

namespace Uart

/-- The input pins in one cycle. -/
structure Inputs where
  bus : BusAccess 4
  rx : Bool
  deriving DecidableEq

/-! ## Wires -/

def ctrlEnable (s : Uart) : Bool := s.ctrl.getLsbD 0
def ctrlLinMode (s : Uart) : Bool := s.ctrl.getLsbD 5

/-- `ctrl_parity_en`, `ctrl_parity_odd` and `ctrl_two_stop`. -/
def frameConfig (s : Uart) : FrameConfig :=
  ⟨s.ctrl.getLsbD 1, s.ctrl.getLsbD 2, s.ctrl.getLsbD 3⟩

def linBreakLength (s : Uart) : BitVec 16 :=
  if s.lin.ctrl.extractLsb' 0 16 = 0#16 then 13#16 else s.lin.ctrl.extractLsb' 0 16

def linSlaveEnable (s : Uart) : Bool := s.lin.slaveCtrl.getLsbD 16
def linSlaveMatchId (s : Uart) : Byte := s.lin.slaveCtrl.extractLsb' 8 8
def linSlaveRespLen (s : Uart) : Byte := s.lin.slaveCtrl.extractLsb' 0 8
def linSlaveGateBlock (s : Uart) : Bool :=
  s.linSlaveEnable && s.lin.slaveArmed && !s.lin.slaveTxPending

def irq (s : Uart) : Bool := s.irqEn &&& s.irqStatus != 0#32

/-! ## Bus -/

/-- A write to DATA: dropped if the FIFO is full. -/
def writeData (s : Uart) (wdata : Word) (n : Uart) : Uart :=
  if !s.txFifo.wideFull then
    { n with txFifo := n.txFifo.pushAt s.txFifo.head (wdata.setWidth 8)
             irqStatus := setBit n.irqStatus 1 false }
  else n

/-- A write to IRQ_STATUS: write-1-to-clear, with side effects on some bits. -/
def writeIrqStatus (s : Uart) (wdata : Word) (n : Uart) : Uart :=
  let n := { n with irqStatus := s.irqStatus &&& ~~~wdata }
  let n :=
    if wdata.getLsbD 2 then
      { n with status := setBit (setBit (setBit n.status 2 false) 3 false) 5 false }
    else n
  let n :=
    if wdata.getLsbD 3 then
      { n with status := setBit n.status 6 false, idleIrqPending := false, idleCounter := 0 }
    else n
  if wdata.getLsbD 6 then { n with lin := { n.lin with slaveUnderflow := false } } else n

/-- A write to LIN_CMD: one action per bit. -/
def writeLinCmd (s : Uart) (wdata : Word) (n : Uart) : Uart :=
  let n := { n with lin := { n.lin with cmd := wdata } }
  let n :=
    if wdata.getLsbD 0 then
      { n with lin := { n.lin with breakPending := true }
               status := setBit n.status 7 true, irqStatus := setBit n.irqStatus 4 true }
    else n
  let n :=
    if wdata.getLsbD 1 then
      { n with status := setBit n.status 7 false, irqStatus := setBit n.irqStatus 4 false }
    else n
  let n :=
    if wdata.getLsbD 2 then
      { n with lin := { n.lin with headerState := 1, headerValid := false, syncError := false,
                                   waitDelimiter := true }
               -- flush: `rx_head <= rx_tail`
               rxFifo := { n.rxFifo with head := s.rxFifo.tail }
               irqStatus := setBit n.irqStatus 0 false }
    else n
  let n :=
    if wdata.getLsbD 3 then
      { n with lin := { n.lin with autoHeaderPending := true, breakPending := true } }
    else n
  let n :=
    if wdata.getLsbD 4 then
      { n with lin := { n.lin with
          slaveUnderflow := false
          slaveArmed := s.linSlaveEnable && s.linSlaveRespLen != 0#8
          slaveTxPending := false } }
    else n
  if wdata.getLsbD 5 then
    { n with lin := { n.lin with
        slaveArmed := false, slaveTxPending := false, slaveUnderflow := false } }
  else n

def writeLinSlaveCtrl (wdata : Word) (n : Uart) : Uart :=
  let n := { n with lin := { n.lin with slaveCtrl := wdata } }
  if !wdata.getLsbD 16 then
    { n with lin := { n.lin with
        slaveArmed := false, slaveTxPending := false, slaveUnderflow := false } }
  else n

/-- `if (bus_write) case (addr_word) ...` -/
def busWrite (s : Uart) (b : BusAccess 4) (n : Uart) : Uart :=
  if b.write then
    if b.addrWord = 0x0#4 then writeData s b.wdata n
    else if b.addrWord = 0x2#4 then { n with ctrl := b.wdata }
    else if b.addrWord = 0x3#4 then { n with baudDiv := b.wdata }
    else if b.addrWord = 0x4#4 then { n with irqEn := b.wdata }
    else if b.addrWord = 0x5#4 then writeIrqStatus s b.wdata n
    else if b.addrWord = 0x6#4 then { n with rs485Ctrl := b.wdata }
    else if b.addrWord = 0x7#4 then { n with idleCfg := b.wdata }
    else if b.addrWord = 0x8#4 then { n with lin := { n.lin with ctrl := b.wdata } }
    else if b.addrWord = 0x9#4 then writeLinCmd s b.wdata n
    else if b.addrWord = 0xA#4 then
      { n with lin := { n.lin with txHeaderId := b.wdata.setWidth 8 } }
    else if b.addrWord = 0xC#4 then writeLinSlaveCtrl b.wdata n
    else n
  else n

/-- A pop leaves the FIFO empty, as the source tests it: at 32 bits, because of the literals. -/
def becomesEmpty {w : Nat} (r : Ring w Byte) : Bool :=
  r.head.setWidth 32 - (r.tail.setWidth 32 + 1#32) == 0#32

/-- A read of DATA pops the RX FIFO. -/
def busRead (s : Uart) (b : BusAccess 4) (n : Uart) : Uart :=
  if b.read && b.addrWord == 0x0#4 && !s.rxFifo.empty then
    { n with rxFifo := n.rxFifo.popAt s.rxFifo.tail
             irqStatus := if becomesEmpty s.rxFifo then setBit n.irqStatus 0 false
                          else n.irqStatus }
  else n

/-- The STATUS bits that are updated in every cycle. -/
def statusBits (s : Uart) (n : Uart) : Uart :=
  let st := setBit n.status 0 (!s.rxFifo.empty)
  let st := setBit st 1 (!s.txFifo.wideFull)
  let st := setBit st 4 (s.tx.bitsRemaining != 0#5 || s.lin.breakActive)
  let st := setBit st 8 s.lin.headerValid
  let st := setBit st 9 s.lin.syncError
  let st := setBit st 10 s.lin.slaveTxPending
  let st := setBit st 11 s.lin.slaveUnderflow
  { n with status := st }

/-! ## Transmitter -/

/-- A pending LIN break starts once the transmitter is idle. -/
def startBreak (s : Uart) (n : Uart) : Uart :=
  if s.ctrlLinMode && !s.lin.breakActive && s.lin.breakPending && s.ctrlEnable &&
      s.tx.bitsRemaining == 0#5 && (s.txFifo.empty || s.linSlaveGateBlock) then
    { n with lin := { n.lin with breakActive := true, breakPending := false, breakCounter := 0 } }
  else n

/-- The end of a LIN break. -/
def endBreak (s : Uart) (n : Uart) : Uart :=
  let n :=
    { n with lin := { n.lin with breakActive := false, breakCounter := 0 }
             tx := { n.tx with line := true }
             status := setBit n.status 7 true, irqStatus := setBit n.irqStatus 4 true }
  let n :=
    if s.lin.autoHeaderPending then
      { n with lin := { n.lin with autoState := 1, autoHeaderPending := false } }
    else n
  { n with lin := { n.lin with breakPending := false } }

def driveBreak (s : Uart) (n : Uart) : Uart :=
  let n := { n with tx := { n.tx with line := false, bitsRemaining := 0 } }
  if s.lin.breakTick ≥ s.baudDiv then
    let n := { n with lin := { n.lin with breakTick := 0 } }
    if s.lin.breakCounter ≥ s.linBreakLength.setWidth 32 then endBreak s n
    else { n with lin := { n.lin with breakCounter := s.lin.breakCounter + 1 } }
  else { n with lin := { n.lin with breakTick := s.lin.breakTick + 1 } }

/-- Loads a frame into the serializer. -/
def loadFrame (s : Uart) (data : Byte) (n : Uart) : Uart :=
  { n with tx := { n.tx with shift := buildTxFrame data s.frameConfig,
                             bitsRemaining := calcFrameBits s.frameConfig, counter := 0 } }

/-- A byte of a LIN slave response has been taken. -/
def countSlaveByte (s : Uart) (n : Uart) : Uart :=
  if s.lin.slaveTxPending then
    if s.lin.slaveBytesRemaining ≤ 1#8 then
      { n with lin := { n.lin with slaveTxPending := false } }
    else
      { n with lin := { n.lin with slaveBytesRemaining := s.lin.slaveBytesRemaining - 1 } }
  else n

/-- The idle transmitter takes a byte of the TX FIFO. -/
def takesTxByte (s : Uart) : Bool :=
  s.ctrlEnable && !s.lin.breakActive && s.tx.bitsRemaining == 0#5 && s.lin.autoState == 0#2 &&
    !(s.lin.slaveTxPending && s.txFifo.empty) && !s.txFifo.empty && !s.linSlaveGateBlock

/-- An idle transmitter: an automatic LIN header first, then the TX FIFO. -/
def txIdle (s : Uart) (n : Uart) : Uart :=
  if s.lin.autoState ≠ 0#2 then
    let n := loadFrame s (if s.lin.autoState = 1#2 then 0x55#8 else s.lin.txHeaderId) n
    { n with lin := { n.lin with autoState := if s.lin.autoState = 1#2 then 2#2 else 0#2 } }
  else if s.lin.slaveTxPending && s.txFifo.empty then
    { n with lin := { n.lin with slaveTxPending := false, slaveUnderflow := true }
             irqStatus := setBit n.irqStatus 6 true }
  else if !s.txFifo.empty && !s.linSlaveGateBlock then
    let n := loadFrame s s.txFifo.front n
    countSlaveByte s { n with txFifo := n.txFifo.popAt s.txFifo.tail }
  else n

/-- A busy transmitter: one bit of the frame in every `baud_div + 1` cycles. -/
def txShiftOut (s : Uart) (n : Uart) : Uart :=
  if s.tx.counter ≥ s.baudDiv then
    let n :=
      { n with tx :=
          { line := s.tx.shift.getLsbD 0
            shift := 1#1 ++ s.tx.shift.extractLsb' 1 11
            bitsRemaining := s.tx.bitsRemaining - 1
            counter := 0 } }
    if s.tx.bitsRemaining = 1#5 ∧ s.txFifo.empty then
      { n with irqStatus := setBit n.irqStatus 1 true }
    else n
  else { n with tx := { n.tx with counter := s.tx.counter + 1 } }

def transmit (s : Uart) (n : Uart) : Uart :=
  if !s.ctrlEnable then { n with tx := { n.tx with line := true, bitsRemaining := 0 } }
  else if s.lin.breakActive then driveBreak s n
  else if s.tx.bitsRemaining = 0#5 then txIdle s n
  else txShiftOut s n

/-! ## Receiver -/

/-- Leaves the idle state at a start bit. -/
def startFrame (s : Uart) (n : Uart) : Uart :=
  { n with
    rx := { n.rx with
      busy := true
      -- half a bit ahead, so that the bits are sampled in their middle
      counter := s.baudDiv >>> 1
      bitIndex := 0
      totalBits := calcFrameBits s.frameConfig
      frame := s.frameConfig
      dataLatch := 0
      parityLatch := false
      stopError := false
      startError := false }
    idleCounter := 0
    idleIrqPending := false }

/-- The idle-line detector. -/
def countIdle (s : Uart) (n : Uart) : Uart :=
  if s.idleCfg ≠ 0#32 then
    if !s.idleIrqPending then
      let n := { n with idleCounter := s.idleCounter + 1 }
      if s.idleCounter ≥ s.idleCfg then
        { n with idleIrqPending := true, irqStatus := setBit n.irqStatus 3 true
                 status := setBit n.status 6 true }
      else n
    else n
  else { n with idleCounter := 0 }

def rxIdle (s : Uart) (n : Uart) : Uart :=
  if s.ctrlLinMode && s.lin.waitDelimiter then
    { n with lin := if s.rx.sync2 then { n.lin with waitDelimiter := false } else n.lin
             idleCounter := 0, idleIrqPending := false }
  else if !s.rx.sync2 then startFrame s n
  else countIdle s n

/-- `case (rx_bit_index)`: where the sampled bit goes. -/
def sampleBit (s : Uart) (n : Uart) : Uart :=
  if s.rx.bitIndex = 0#5 then
    if s.rx.sync2 then { n with rx := { n.rx with startError := true } } else n
  else if s.rx.bitIndex ≤ 8#5 then
    { n with rx := { n.rx with
        dataLatch := setBit n.rx.dataLatch (s.rx.bitIndex.toNat - 1) s.rx.sync2 } }
  else if s.rx.frame.parityEnable && s.rx.bitIndex == 9#5 then
    { n with rx := { n.rx with parityLatch := s.rx.sync2 } }
  else if !s.rx.sync2 then { n with rx := { n.rx with stopError := true } }
  else n

/-- `rx_bit_index == rx_total_bits - 1`, at 32 bits. -/
def lastBit (s : Uart) : Bool :=
  s.rx.bitIndex.setWidth 32 == s.rx.totalBits.setWidth 32 - 1#32

/-- The two bytes of a captured LIN header. -/
def captureHeader (s : Uart) (n : Uart) : Uart :=
  if s.lin.headerState = 1#2 then
    { n with lin := { n.lin with
        syncByte := s.rx.dataLatch, syncError := s.rx.dataLatch != 0x55#8, headerState := 2 } }
  else
    let n := { n with
      lin := { n.lin with idByte := s.rx.dataLatch, headerValid := true, headerState := 0 }
      irqStatus := setBit n.irqStatus 5 true }
    if s.linSlaveEnable && s.lin.slaveArmed && s.linSlaveRespLen != 0#8 &&
        s.rx.dataLatch == s.linSlaveMatchId then
      { n with lin := { n.lin with
          slaveTxPending := true, slaveBytesRemaining := s.linSlaveRespLen
          slaveUnderflow := false, slaveArmed := false } }
    else n

/-- Framing, parity, header capture and overrun come before the byte is stored. -/
def finishFrame (s : Uart) (n : Uart) : Uart :=
  let n := { n with rx := { n.rx with busy := false } }
  if s.rx.startError || s.rx.stopError then
    { n with status := setBit n.status 2 true, irqStatus := setBit n.irqStatus 2 true }
  else if !parityMatch s.rx.dataLatch s.rx.frame s.rx.parityLatch then
    { n with status := setBit n.status 5 true, irqStatus := setBit n.irqStatus 2 true }
  else if s.ctrlLinMode && s.lin.headerState != 0#2 then captureHeader s n
  else if !s.rxFifo.wideFull then
    { n with rxFifo := n.rxFifo.pushAt s.rxFifo.head s.rx.dataLatch
             irqStatus := setBit n.irqStatus 0 true }
  else
    { n with status := setBit n.status 3 true, irqStatus := setBit n.irqStatus 2 true }

def rxSample (s : Uart) (n : Uart) : Uart :=
  if s.rx.counter ≥ s.baudDiv then
    let n := sampleBit s { n with rx := { n.rx with counter := 0 } }
    let n := { n with rx := { n.rx with bitIndex := s.rx.bitIndex + 1 } }
    if s.lastBit then finishFrame s n else n
  else { n with rx := { n.rx with counter := s.rx.counter + 1 } }

def receive (s : Uart) (n : Uart) : Uart :=
  if !s.ctrlEnable then
    { n with rx := { n.rx with busy := false, bitIndex := 0 }
             idleCounter := 0, idleIrqPending := false }
  else if !s.rx.busy then rxIdle s n
  else rxSample s n

/-! ## LIN break detector -/

/-- A break has been seen: header capture starts and the RX FIFO is flushed. -/
def armHeader (s : Uart) (n : Uart) : Uart :=
  let n :=
    if !s.status.getLsbD 7 then
      { n with status := setBit n.status 7 true, irqStatus := setBit n.irqStatus 4 true }
    else n
  { n with
    lin := { n.lin with headerState := 1, headerValid := false, syncError := false,
                        waitDelimiter := true }
    rx := { n.rx with busy := false, bitIndex := 0, counter := 0 }
    rxFifo := { n.rxFifo with head := s.rxFifo.tail }
    irqStatus := setBit n.irqStatus 0 false }

/-- The RX line has been low for the length of a break. -/
def breakSeen (s : Uart) : Bool :=
  s.ctrlLinMode && s.ctrlEnable && !s.rx.sync2 && s.lin.rxTick ≥ s.baudDiv &&
    s.lin.rxLowCounter + 1#32 ≥ s.linBreakLength.setWidth 32

def detectBreak (s : Uart) (n : Uart) : Uart :=
  if s.ctrlLinMode && s.ctrlEnable then
    if !s.rx.sync2 then
      if s.lin.rxTick ≥ s.baudDiv then
        let n := { n with lin := { n.lin with rxTick := 0 } }
        let n :=
          if s.lin.rxLowCounter + 1#32 ≥ s.linBreakLength.setWidth 32 then armHeader s n else n
        if s.lin.rxLowCounter < 0xFFFF#32 then
          { n with lin := { n.lin with rxLowCounter := s.lin.rxLowCounter + 1 } }
        else n
      else { n with lin := { n.lin with rxTick := s.lin.rxTick + 1 } }
    else { n with lin := { n.lin with rxLowCounter := 0, rxTick := 0 } }
  else { n with lin := { n.lin with rxLowCounter := 0, rxTick := 0 } }

/-! ## The edge -/

/-- `rx_sync1 <= rx; rx_sync2 <= rx_sync1` -/
def synchronize (s : Uart) (rx : Bool) (n : Uart) : Uart :=
  { n with rx := { n.rx with sync1 := rx, sync2 := s.rx.sync1 } }

/-- `always @(posedge clk)` with `rst_n` high. -/
def posedge (s : Uart) (i : Inputs) : Uart :=
  detectBreak s (receive s (transmit s (startBreak s (statusBits s (busRead s i.bus
    (busWrite s i.bus (synchronize s i.rx s)))))))

/-- The state a reset leaves: `CLOCK_HZ` is 50 MHz; the FIFO memories keep what they held. -/
def reset (txMem rxMem : BitVec 3 → Byte) : Uart where
  ctrl := 1
  baudDiv := 434#32  -- `CLOCK_HZ / 115200`
  irqEn := 0
  irqStatus := 0
  rs485Ctrl := 1
  status := 0
  idleCfg := 0
  idleCounter := 0
  idleIrqPending := false
  lin :=
    { ctrl := 13, cmd := 0, slaveCtrl := 0, syncByte := 0x55, idByte := 0, headerValid := false
      syncError := false, headerState := 0, waitDelimiter := false, txHeaderId := 0
      autoHeaderPending := false, autoState := 0, slaveArmed := false, slaveTxPending := false
      slaveBytesRemaining := 0, slaveUnderflow := false, breakPending := false
      breakActive := false, breakCounter := 0, breakTick := 0, rxLowCounter := 0, rxTick := 0 }
  txFifo := ⟨0, 0, txMem⟩
  rxFifo := ⟨0, 0, rxMem⟩
  tx := ⟨true, BitVec.allOnes 12, 0, 0⟩
  rx :=
    { sync1 := true, sync2 := true, busy := false, counter := 0, bitIndex := 0, totalBits := 0
      dataLatch := 0, parityLatch := false, frame := ⟨false, false, false⟩, stopError := false
      startError := false }

/-! ## Reads -/

/-- `rdata` -/
def readData (s : Uart) (b : BusAccess 4) : Word :=
  if b.read then
    if b.addrWord = 0x0#4 then s.rxFifo.front.setWidth 32
    else if b.addrWord = 0x1#4 then s.status
    else if b.addrWord = 0x2#4 then s.ctrl
    else if b.addrWord = 0x3#4 then s.baudDiv
    else if b.addrWord = 0x4#4 then s.irqEn
    else if b.addrWord = 0x5#4 then s.irqStatus
    else if b.addrWord = 0x6#4 then s.rs485Ctrl
    else if b.addrWord = 0x7#4 then s.idleCfg
    else if b.addrWord = 0x8#4 then s.lin.ctrl
    else if b.addrWord = 0x9#4 then s.lin.cmd
    else if b.addrWord = 0xA#4 then s.lin.txHeaderId.setWidth 32
    else if b.addrWord = 0xB#4 then 0#16 ++ s.lin.idByte ++ s.lin.syncByte
    else if b.addrWord = 0xC#4 then s.lin.slaveCtrl
    else 0#32
  else 0#32

end Uart

end QarCore
