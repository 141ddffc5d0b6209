import QarCore.Periph.UartIrq

/-!
# The interrupt bits and fault flags of the SPI and of the I2C controller

Both have the same six bits: RX ready, TX empty, a summary of the faults, and one bit for each of three
faults, which also has a flag of its own.
-/

namespace QarCore

open Clocked (latch latch_latch Ring)

variable {k : Nat}

/-! ## SPI -/

namespace Spi

variable {s n : Spi} {i : Inputs} {b : BusAccess 6} {miso : Bool}

/-- A write to IRQ_STATUS with bit `k` set. -/
def acknowledges (b : BusAccess 6) (k : Nat) : Bool := b.write && b.addrWord == 0x7#6 && b.wdata.getLsbD k

/-- The byte of a TXDATA write, if the full test lets it. -/
def txAccepted (s : Spi) (b : BusAccess 6) : Option Byte := if s.txFifo.wideFull then none else txPush b

/-- The received byte, if the full test lets it. -/
def rxAccepted (s : Spi) (miso : Bool) : Option Byte := if s.rxFifo.wideFull then none else rxPush s miso

/-- An RXDATA read that takes a byte. -/
def rxTakes (s : Spi) (b : BusAccess 6) : Bool := rxPop b && !s.rxFifo.empty

def txOverflows (s : Spi) (b : BusAccess 6) : Bool := (txPush b).isSome && s.txFifo.wideFull
def rxOverflows (s : Spi) : Bool := s.samplesLastBit && s.rxFifo.wideFull

/-- A byte waits and no chip select is enabled. -/
def missesSelect (s : Spi) : Bool :=
  !s.busy && s.ctrlEnable && !s.txFifo.empty && s.csSelect.extractLsb' 0 4 == 0#4

/-- The last byte of the TX FIFO is taken, as the source tests it. -/
def drainsTx (s : Spi) : Bool := s.takesTxByte && Uart.becomesEmpty s.txFifo

/-- The causes of bit `k`. -/
def irqSets (s : Spi) (i : Inputs) : Nat → Bool
  | 0 => (s.rxAccepted i.miso).isSome
  | 1 => s.drainsTx
  | 2 => s.rxOverflows || s.missesSelect || s.txOverflows i.bus
  | 3 => s.txOverflows i.bus
  | 4 => s.rxOverflows
  | 5 => s.missesSelect
  | _ => false

/-- What clears bit `k`. -/
def irqClears (s : Spi) (b : BusAccess 6) (k : Nat) : Bool :=
  acknowledges b k ||
    match k with
    | 0 => s.rxTakes b && Uart.becomesEmpty s.rxFifo
    | 1 => (s.txAccepted b).isSome
    | _ => false

theorem busWrite_irqStatus (hn : n.irqStatus = s.irqStatus) : (busWrite s b n).irqStatus =
    let w := if b.write && b.addrWord == 0x7#6 then s.irqStatus &&& ~~~b.wdata else s.irqStatus
    let w := if (s.txAccepted b).isSome then setBit w 1 false else w
    let w := if s.txOverflows b then setBit w 2 true else w
    if s.txOverflows b then setBit w 3 true else w := by
  unfold txAccepted txOverflows txPush
  by_cases hw : b.write
  · by_cases h3 : b.addrWord = 0x3#6
    · by_cases hf : s.txFifo.wideFull <;> simp [busWrite, writeData, hw, h3, hf, hn]
    · by_cases h7 : b.addrWord = 0x7#6
      · simp [busWrite, writeIrqStatus, hw, h7, apply_ite Spi.irqStatus]
      · simp [busWrite, hw, h3, h7, apply_ite Spi.irqStatus, hn]
  · simp [busWrite, hw, hn]

theorem busRead_irqStatus : (busRead s b n).irqStatus =
    if s.rxTakes b && Uart.becomesEmpty s.rxFifo then setBit n.irqStatus 0 false else n.irqStatus := by
  have hread : (busRead s b n).irqStatus = if s.rxTakes b then
      if Uart.becomesEmpty s.rxFifo then setBit n.irqStatus 0 false else n.irqStatus
      else n.irqStatus := by
    simp only [busRead, apply_ite Spi.irqStatus]
    rfl
  rw [hread]
  cases s.rxTakes b <;> simp

theorem startTransfer_irqStatus : (startTransfer s n).irqStatus =
    let w := if s.missesSelect then setBit n.irqStatus 2 true else n.irqStatus
    let w := if s.missesSelect then setBit w 5 true else w
    if s.drainsTx then setBit w 1 true else w := by
  unfold missesSelect drainsTx takesTxByte
  by_cases hg : !s.busy && s.ctrlEnable && !s.txFifo.empty
  · by_cases hc : s.csSelect.extractLsb' 0 4 = 0#4
    · simp [startTransfer, hg, hc]
    · by_cases he : Uart.becomesEmpty s.txFifo <;> simp [startTransfer, hg, hc, he]
  · simp [startTransfer, hg]

theorem shiftBits_irqStatus : (shiftBits s miso n).irqStatus =
    let w := if (s.rxAccepted miso).isSome then setBit n.irqStatus 0 true else n.irqStatus
    let w := if s.rxOverflows then setBit w 2 true else w
    if s.rxOverflows then setBit w 4 true else w := by
  unfold rxAccepted rxOverflows rxPush samplesLastBit
  by_cases hb : s.busy
  · by_cases hd : s.divCounter ≥ s.effectiveDiv <;> by_cases hp : xor s.sckPhase s.ctrlCpha <;>
      by_cases hi : s.bitIndex = 0#3 <;> by_cases hf : s.rxFifo.wideFull <;>
      simp [shiftBits, finishByte, hb, hd, hp, hi, hf, apply_ite Spi.irqStatus]
  · simp [shiftBits, hb]

-- Each bit of IRQ_STATUS is sticky, and its causes have the last word.
theorem posedge_irq : (posedge s i).irqStatus.getLsbD k =
    latch (s.irqSets i k) (s.irqClears i.bus k) (s.irqStatus.getLsbD k) := by
  unfold posedge
  rw [shiftBits_irqStatus, getLsbD_raise (by decide), getLsbD_raise (by decide),
    getLsbD_raise (by decide), startTransfer_irqStatus, getLsbD_raise (by decide),
    getLsbD_raise (by decide), getLsbD_raise (by decide), busRead_irqStatus, getLsbD_lower (by decide),
    busWrite_irqStatus (s := s) (n := s) rfl, getLsbD_raise (by decide), getLsbD_raise (by decide),
    getLsbD_lower (by decide), getLsbD_clear]
  simp only [latch_latch]
  match k with
  | 0 => simp [latch, irqSets, irqClears, acknowledges]
  | 1 => simp [latch, irqSets, irqClears, acknowledges]
  | 2 => simp [latch, irqSets, irqClears, acknowledges, Bool.or_assoc]
  | 3 => simp [latch, irqSets, irqClears, acknowledges]
  | 4 => simp [latch, irqSets, irqClears, acknowledges]
  | 5 => simp [latch, irqSets, irqClears, acknowledges]
  | k + 6 => simp [latch, irqSets, irqClears, acknowledges]

/-! The three fault flags are sticky too. -/

theorem posedge_txOverflowFlag : (posedge s i).txOverflowFlag =
    latch (s.txOverflows i.bus) (acknowledges i.bus 2 || acknowledges i.bus 3) s.txOverflowFlag := by
  have hwrite : (busWrite s i.bus s).txOverflowFlag =
      latch (s.txOverflows i.bus) (acknowledges i.bus 2 || acknowledges i.bus 3) s.txOverflowFlag := by
    unfold txOverflows txPush acknowledges
    by_cases hw : i.bus.write
    · by_cases h3 : i.bus.addrWord = 0x3#6
      · by_cases hf : s.txFifo.wideFull <;> simp [busWrite, writeData, latch, hw, h3, hf]
      · by_cases h7 : i.bus.addrWord = 0x7#6
        · by_cases h2 : i.bus.wdata.getLsbD 2 <;> by_cases h3 : i.bus.wdata.getLsbD 3 <;>
            simp_all [busWrite, writeIrqStatus, apply_ite Spi.txOverflowFlag, -BitVec.getLsbD_eq_getElem]
        · simp [busWrite, latch, hw, h3, h7, apply_ite Spi.txOverflowFlag]
    · simp [busWrite, latch, hw]
  unfold posedge
  rw [shiftBits_txOverflow, startTransfer_txOverflow, busRead_txOverflow, hwrite]

theorem posedge_rxOverflowFlag : (posedge s i).rxOverflowFlag =
    latch s.rxOverflows (acknowledges i.bus 2 || acknowledges i.bus 4) s.rxOverflowFlag := by
  have hwrite : (busWrite s i.bus s).rxOverflowFlag =
      latch false (acknowledges i.bus 2 || acknowledges i.bus 4) s.rxOverflowFlag := by
    unfold acknowledges
    by_cases hw : i.bus.write
    · by_cases h7 : i.bus.addrWord = 0x7#6
      · by_cases h2 : i.bus.wdata.getLsbD 2 <;> by_cases h4 : i.bus.wdata.getLsbD 4 <;>
          simp_all [busWrite, writeIrqStatus, apply_ite Spi.rxOverflowFlag, -BitVec.getLsbD_eq_getElem]
      · simp [busWrite, writeData, hw, h7, apply_ite Spi.rxOverflowFlag]
    · simp [busWrite, hw]
  have hkeep : (startTransfer s (busRead s i.bus (busWrite s i.bus s))).rxOverflowFlag =
      (busWrite s i.bus s).rxOverflowFlag := by
    simp only [startTransfer, busRead, apply_ite Spi.rxOverflowFlag, ite_self]
  have hshift {n : Spi} :
      (shiftBits s i.miso n).rxOverflowFlag = latch s.rxOverflows false n.rxOverflowFlag := by
    unfold rxOverflows samplesLastBit
    by_cases hb : s.busy
    · by_cases hd : s.divCounter ≥ s.effectiveDiv <;> by_cases hp : xor s.sckPhase s.ctrlCpha <;>
        by_cases hi : s.bitIndex = 0#3 <;> by_cases hf : s.rxFifo.wideFull <;>
        simp [shiftBits, finishByte, latch, hb, hd, hp, hi, hf, apply_ite Spi.rxOverflowFlag]
    · simp [shiftBits, hb]
  unfold posedge
  rw [hshift, hkeep, hwrite, latch_latch]
  simp

theorem posedge_csErrorFlag : (posedge s i).csErrorFlag =
    latch s.missesSelect (acknowledges i.bus 2 || acknowledges i.bus 5) s.csErrorFlag := by
  have hwrite : (busWrite s i.bus s).csErrorFlag =
      latch false (acknowledges i.bus 2 || acknowledges i.bus 5) s.csErrorFlag := by
    unfold acknowledges
    by_cases hw : i.bus.write
    · by_cases h7 : i.bus.addrWord = 0x7#6
      · by_cases h2 : i.bus.wdata.getLsbD 2 <;> by_cases h5 : i.bus.wdata.getLsbD 5 <;>
          simp_all [busWrite, writeIrqStatus, apply_ite Spi.csErrorFlag, -BitVec.getLsbD_eq_getElem]
      · simp [busWrite, writeData, hw, h7, apply_ite Spi.csErrorFlag]
    · simp [busWrite, hw]
  have hread : (busRead s i.bus (busWrite s i.bus s)).csErrorFlag = (busWrite s i.bus s).csErrorFlag := by
    simp only [busRead, apply_ite Spi.csErrorFlag, ite_self]
  have hstart {n : Spi} : (startTransfer s n).csErrorFlag = latch s.missesSelect false n.csErrorFlag := by
    unfold missesSelect
    by_cases hg : !s.busy && s.ctrlEnable && !s.txFifo.empty <;>
      by_cases hc : s.csSelect.extractLsb' 0 4 = 0#4 <;> simp [startTransfer, latch, hg, hc]
  have hshift {n : Spi} : (shiftBits s i.miso n).csErrorFlag = n.csErrorFlag := by
    simp only [shiftBits, finishByte, apply_ite Spi.csErrorFlag, ite_self]
  unfold posedge
  rw [hshift, hstart, hread, hwrite, latch_latch]
  simp

end Spi

/-! ## I2C -/

namespace I2c

variable {s n : I2c} {i : Inputs} {b : BusAccess 6} {sdaIn : Bool}

/-- A write to IRQ_STATUS with bit `k` set. -/
def acknowledges (b : BusAccess 6) (k : Nat) : Bool := b.write && b.addrWord == 0x4#6 && b.wdata.getLsbD k

/-- A write to STATUS with bit `k` set, which clears one of the flags. -/
def clearsFlag (b : BusAccess 6) (k : Nat) : Bool := b.write && b.addrWord == 0x2#6 && b.wdata.getLsbD k

/-- The byte of a TXDATA write, if the full test lets it. -/
def txAccepted (s : I2c) (b : BusAccess 6) : Option Byte := if s.txFifo.wideFull then none else txPush b

/-- The byte of a READ command, if the full test lets it. -/
def rxAccepted (s : I2c) : Option Byte := if s.rxFifo.wideFull then none else rxPush s

/-- An RXDATA read that takes a byte. -/
def rxTakes (s : I2c) (b : BusAccess 6) : Bool := rxPop b && !s.rxFifo.empty

def txOverflows (s : I2c) (b : BusAccess 6) : Bool := (txPush b).isSome && s.txFifo.wideFull
def rxOverflows (s : I2c) : Bool := s.storesRxByte && s.rxFifo.wideFull

/-- The acknowledge bit is sampled. -/
def samplesAck (s : I2c) : Bool := s.state == .ack && s.divDone && s.sclState

/-- It is high. -/
def nacks (s : I2c) (sdaIn : Bool) : Bool := s.samplesAck && (!s.ctrlLoopback && sdaIn)

/-- The acknowledge bit is over and no byte waits. -/
def drainsTx (s : I2c) : Bool := s.state == .ack && s.divDone && !s.sclState && s.txFifo.empty

/-- The causes of bit `k`. -/
def irqSets (s : I2c) (i : Inputs) : Nat → Bool
  | 0 => s.rxAccepted.isSome
  | 1 => s.drainsTx
  | 2 => s.rxOverflows || s.nacks i.sdaIn || s.txOverflows i.bus
  | 3 => s.txOverflows i.bus
  | 4 => s.rxOverflows
  | 5 => s.nacks i.sdaIn
  | _ => false

/-- What clears bit `k`. -/
def irqClears (s : I2c) (b : BusAccess 6) (k : Nat) : Bool :=
  acknowledges b k ||
    match k with
    | 0 => s.rxTakes b && Uart.becomesEmpty s.rxFifo
    | 1 => (s.txAccepted b).isSome
    | _ => false

theorem busWrite_irqStatus (hn : n.irqStatus = s.irqStatus) : (busWrite s b n).irqStatus =
    let w := if b.write && b.addrWord == 0x4#6 then s.irqStatus &&& ~~~b.wdata else s.irqStatus
    let w := if (s.txAccepted b).isSome then setBit w 1 false else w
    let w := if s.txOverflows b then setBit w 2 true else w
    if s.txOverflows b then setBit w 3 true else w := by
  unfold txAccepted txOverflows txPush
  by_cases hw : b.write
  · by_cases h5 : b.addrWord = 0x5#6
    · by_cases hf : s.txFifo.wideFull <;> simp [busWrite, writeData, hw, h5, hf, hn]
    · by_cases h4 : b.addrWord = 0x4#6
      · simp [busWrite, writeIrqStatus, hw, h4, apply_ite I2c.irqStatus]
      · simp [busWrite, writeStatus, hw, h4, h5, apply_ite I2c.irqStatus, hn]
  · simp [busWrite, hw, hn]

theorem busRead_irqStatus : (busRead s b n).irqStatus =
    if s.rxTakes b && Uart.becomesEmpty s.rxFifo then setBit n.irqStatus 0 false else n.irqStatus := by
  have hread : (busRead s b n).irqStatus = if s.rxTakes b then
      if Uart.becomesEmpty s.rxFifo then setBit n.irqStatus 0 false else n.irqStatus
      else n.irqStatus := by
    simp only [busRead, apply_ite I2c.irqStatus]
    rfl
  rw [hread]
  cases s.rxTakes b <;> simp

-- `(tx_head - tx_tail) == 0` at 32 bits is the empty test
theorem drained_eq {m : Nat} (hm : m < 32) (r : Ring m Byte) :
    (r.head.setWidth 32 - r.tail.setWidth 32 == 0#32) = r.empty := by
  rw [Bool.eq_iff_iff, Ring.empty, beq_iff_eq, beq_iff_eq]
  constructor
  · intro h
    have hwide : r.head.setWidth 32 = r.tail.setWidth 32 := by
      rw [← BitVec.sub_add_cancel (r.head.setWidth 32) (r.tail.setWidth 32), h, BitVec.zero_add]
    have hnat := congrArg BitVec.toNat hwide
    have hle : 2 ^ (m + 1) ≤ 2 ^ 32 := Nat.pow_le_pow_right (by omega) (by omega)
    rw [BitVec.toNat_setWidth, BitVec.toNat_setWidth,
      Nat.mod_eq_of_lt (Nat.lt_of_lt_of_le r.head.isLt hle),
      Nat.mod_eq_of_lt (Nat.lt_of_lt_of_le r.tail.isLt hle)] at hnat
    exact BitVec.eq_of_toNat_eq hnat
  · intro h
    rw [h, BitVec.sub_self]

theorem stateCase_irqStatus : (stateCase s sdaIn n).irqStatus =
    let w := if s.rxAccepted.isSome then setBit n.irqStatus 0 true else n.irqStatus
    let w := if s.nacks sdaIn then setBit w 2 true else w
    let w := if s.nacks sdaIn then setBit w 5 true else w
    let w := if s.rxOverflows then setBit w 2 true else w
    let w := if s.rxOverflows then setBit w 4 true else w
    if s.drainsTx then setBit w 1 true else w := by
  unfold rxAccepted rxOverflows rxPush storesRxByte nacks samplesAck drainsTx stateCase
  cases hs : s.state with
  | idle => simp [idleState, apply_ite I2c.irqStatus]
  | start => simp [startState, apply_ite I2c.irqStatus]
  | write => simp [writeState, apply_ite I2c.irqStatus]
  | ack =>
    rw [ackState, drained_eq (by decide)]
    by_cases hd : s.divDone <;> by_cases hc : s.sclState <;> by_cases hl : s.ctrlLoopback <;>
      by_cases ha : sdaIn <;> by_cases he : s.txFifo.empty <;> simp [hd, hc, hl, ha, he]
  | read =>
    by_cases hd : s.divDone <;> by_cases hc : s.sclState <;> by_cases hi : s.bitIndex = 0#4 <;>
      by_cases hf : s.rxFifo.wideFull <;> simp [readState, storeByte, hd, hc, hi, hf]
  | stop => simp [stopState, apply_ite I2c.irqStatus]

-- Each bit of IRQ_STATUS is sticky, and its causes have the last word.
theorem posedge_irq : (posedge s i).irqStatus.getLsbD k =
    latch (s.irqSets i k) (s.irqClears i.bus k) (s.irqStatus.getLsbD k) := by
  unfold posedge
  rw [stateCase_irqStatus, getLsbD_raise (by decide), getLsbD_raise (by decide), getLsbD_raise (by decide),
    getLsbD_raise (by decide), getLsbD_raise (by decide), getLsbD_raise (by decide), busRead_irqStatus,
    getLsbD_lower (by decide), busWrite_irqStatus (s := s) (n := s) rfl, getLsbD_raise (by decide),
    getLsbD_raise (by decide), getLsbD_lower (by decide), getLsbD_clear]
  simp only [latch_latch]
  match k with
  | 0 => simp [latch, irqSets, irqClears, acknowledges]
  | 1 => simp [latch, irqSets, irqClears, acknowledges]
  | 2 => simp [latch, irqSets, irqClears, acknowledges, Bool.or_assoc]
  | 3 => simp [latch, irqSets, irqClears, acknowledges]
  | 4 => simp [latch, irqSets, irqClears, acknowledges]
  | 5 => simp [latch, irqSets, irqClears, acknowledges]
  | k + 6 => simp [latch, irqSets, irqClears, acknowledges]

/-! The fault flags.  A byte that is acknowledged takes the error flag back. -/

theorem posedge_txOverflowFlag : (posedge s i).txOverflowFlag =
    latch (s.txOverflows i.bus) (acknowledges i.bus 2 || acknowledges i.bus 3 || clearsFlag i.bus 5)
      s.txOverflowFlag := by
  have hwrite : (busWrite s i.bus s).txOverflowFlag =
      latch (s.txOverflows i.bus) (acknowledges i.bus 2 || acknowledges i.bus 3 || clearsFlag i.bus 5)
        s.txOverflowFlag := by
    unfold txOverflows txPush acknowledges clearsFlag
    by_cases hw : i.bus.write
    · by_cases h5 : i.bus.addrWord = 0x5#6
      · by_cases hf : s.txFifo.wideFull <;> simp [busWrite, writeData, latch, hw, h5, hf]
      · by_cases h4 : i.bus.addrWord = 0x4#6
        · by_cases h2 : i.bus.wdata.getLsbD 2 <;> by_cases h3 : i.bus.wdata.getLsbD 3 <;>
            simp_all [busWrite, writeIrqStatus, apply_ite I2c.txOverflowFlag, -BitVec.getLsbD_eq_getElem]
        · by_cases h2 : i.bus.addrWord = 0x2#6
          · by_cases hb : i.bus.wdata.getLsbD 5 <;>
              simp_all [busWrite, writeStatus, latch, apply_ite I2c.txOverflowFlag,
                -BitVec.getLsbD_eq_getElem]
          · simp [busWrite, latch, hw, h2, h4, h5, apply_ite I2c.txOverflowFlag]
    · simp [busWrite, latch, hw]
  unfold posedge
  rw [stateCase_txOverflow, busRead_txOverflow, hwrite]

theorem posedge_rxOverflowFlag : (posedge s i).rxOverflowFlag =
    latch s.rxOverflows (acknowledges i.bus 2 || acknowledges i.bus 4 || clearsFlag i.bus 4)
      s.rxOverflowFlag := by
  have hwrite : (busWrite s i.bus s).rxOverflowFlag =
      latch false (acknowledges i.bus 2 || acknowledges i.bus 4 || clearsFlag i.bus 4)
        s.rxOverflowFlag := by
    unfold acknowledges clearsFlag
    by_cases hw : i.bus.write
    · by_cases h4 : i.bus.addrWord = 0x4#6
      · by_cases h2 : i.bus.wdata.getLsbD 2 <;> by_cases h3 : i.bus.wdata.getLsbD 4 <;>
          simp_all [busWrite, writeIrqStatus, apply_ite I2c.rxOverflowFlag, -BitVec.getLsbD_eq_getElem]
      · by_cases h2 : i.bus.addrWord = 0x2#6
        · by_cases hb : i.bus.wdata.getLsbD 4 <;>
            simp_all [busWrite, writeStatus, apply_ite I2c.rxOverflowFlag, -BitVec.getLsbD_eq_getElem]
        · simp [busWrite, writeData, hw, h2, h4, apply_ite I2c.rxOverflowFlag]
    · simp [busWrite, hw]
  have hread : (busRead s i.bus (busWrite s i.bus s)).rxOverflowFlag =
      (busWrite s i.bus s).rxOverflowFlag := by
    simp only [busRead, apply_ite I2c.rxOverflowFlag, ite_self]
  have hcase {n : I2c} :
      (stateCase s i.sdaIn n).rxOverflowFlag = latch s.rxOverflows false n.rxOverflowFlag := by
    unfold rxOverflows storesRxByte stateCase
    cases hs : s.state with
    | idle => simp [idleState, latch, apply_ite I2c.rxOverflowFlag]
    | start => simp [startState, latch, apply_ite I2c.rxOverflowFlag]
    | write => simp [writeState, latch, apply_ite I2c.rxOverflowFlag]
    | ack => simp [ackState, latch, apply_ite I2c.rxOverflowFlag]
    | read =>
      by_cases hd : s.divDone <;> by_cases hc : s.sclState <;> by_cases hi : s.bitIndex = 0#4 <;>
        by_cases hf : s.rxFifo.wideFull <;> simp [readState, storeByte, latch, hd, hc, hi, hf]
    | stop => simp [stopState, latch, apply_ite I2c.rxOverflowFlag]
  unfold posedge
  rw [hcase, hread, hwrite, latch_latch]
  simp

theorem posedge_ackErrorFlag : (posedge s i).ackErrorFlag =
    latch (s.nacks i.sdaIn)
      (acknowledges i.bus 2 || acknowledges i.bus 5 || clearsFlag i.bus 3 || s.samplesAck)
      s.ackErrorFlag := by
  have hwrite : (busWrite s i.bus s).ackErrorFlag =
      latch false (acknowledges i.bus 2 || acknowledges i.bus 5 || clearsFlag i.bus 3)
        s.ackErrorFlag := by
    unfold acknowledges clearsFlag
    by_cases hw : i.bus.write
    · by_cases h4 : i.bus.addrWord = 0x4#6
      · by_cases h2 : i.bus.wdata.getLsbD 2 <;> by_cases h3 : i.bus.wdata.getLsbD 5 <;>
          simp_all [busWrite, writeIrqStatus, apply_ite I2c.ackErrorFlag, -BitVec.getLsbD_eq_getElem]
      · by_cases h2 : i.bus.addrWord = 0x2#6
        · by_cases hb : i.bus.wdata.getLsbD 3 <;>
            simp_all [busWrite, writeStatus, apply_ite I2c.ackErrorFlag, -BitVec.getLsbD_eq_getElem]
        · simp [busWrite, writeData, hw, h2, h4, apply_ite I2c.ackErrorFlag]
    · simp [busWrite, hw]
  have hread : (busRead s i.bus (busWrite s i.bus s)).ackErrorFlag =
      (busWrite s i.bus s).ackErrorFlag := by
    simp only [busRead, apply_ite I2c.ackErrorFlag, ite_self]
  have hcase {n : I2c} : (stateCase s i.sdaIn n).ackErrorFlag =
      latch (s.nacks i.sdaIn) s.samplesAck n.ackErrorFlag := by
    unfold nacks
    by_cases hack : s.samplesAck
    · have hstate := hack
      simp only [samplesAck, Bool.and_eq_true, beq_iff_eq] at hstate
      obtain ⟨⟨hs, hd⟩, hc⟩ := hstate
      by_cases hl : s.ctrlLoopback <;> by_cases ha : i.sdaIn <;>
        simp [stateCase, ackState, latch, hack, hs, hd, hc, hl, ha]
    · unfold stateCase
      cases hs : s.state with
      | idle => simp [idleState, latch, hack, apply_ite I2c.ackErrorFlag]
      | start => simp [startState, latch, hack, apply_ite I2c.ackErrorFlag]
      | write => simp [writeState, latch, hack, apply_ite I2c.ackErrorFlag]
      | ack =>
        by_cases hd : s.divDone
        · have hc : s.sclState = false := by simpa [samplesAck, hs, hd] using hack
          simp [ackState, latch, hack, hd, hc]
        · simp [ackState, latch, hack, hd]
      | read => simp [readState, storeByte, latch, hack, apply_ite I2c.ackErrorFlag]
      | stop => simp [stopState, latch, hack, apply_ite I2c.ackErrorFlag]
  unfold posedge
  rw [hcase, hread, hwrite, latch_latch]
  simp

end I2c

end QarCore
