import QarCore.Clocked.SerialLink
import QarCore.Periph.Fifos

/-!
# The UART as a serial link

With its RX pin wired to its TX pin the serializer, the synchronizer and the sampler of the UART are the
serial link of the library: `Matches` relates the two states and every clock edge keeps it.
-/

namespace QarCore

open Clocked (Format Link Sending Sampling)

namespace Uart

variable {s n : Uart} {i : Inputs} {fc : FrameConfig} {b : Byte}

/-! ## Frames -/

/-- The bits before the stop bits. -/
def FrameConfig.stopAt (fc : FrameConfig) : Nat := if fc.parityEnable then 10 else 9

theorem calcFrameBits_toNat (fc : FrameConfig) :
    (calcFrameBits fc).toNat = fc.stopAt + if fc.twoStop then 2 else 1 := by
  rcases fc with ⟨_ | _, o, _ | _⟩ <;> rfl

theorem buildTxFrame_start (b : Byte) (fc : FrameConfig) :
    (buildTxFrame b fc).getLsbD 0 = false := by
  unfold buildTxFrame
  rcases fc with ⟨_ | _, o, t⟩
  · exact (BitVec.getLsbD_append ..).trans (if_pos (by decide))
  · exact (BitVec.getLsbD_append ..).trans (if_pos (by decide))

theorem buildTxFrame_data (b : Byte) (fc : FrameConfig) {j : Nat} (hj : j < 8) :
    (buildTxFrame b fc).getLsbD (j + 1) = b.getLsbD j := by
  have h1 : ¬j + 1 < 1 := by omega
  unfold buildTxFrame
  rcases fc with ⟨_ | _, o, t⟩
  · refine (BitVec.getLsbD_append ..).trans ?_
    rw [if_neg h1, BitVec.getLsbD_append, Nat.add_sub_cancel, if_pos hj]
  · refine (BitVec.getLsbD_append ..).trans ?_
    rw [if_neg h1, BitVec.getLsbD_append, Nat.add_sub_cancel, if_pos hj]

theorem buildTxFrame_parity (b : Byte) (h : fc.parityEnable) :
    (buildTxFrame b fc).getLsbD 9 = fc.parityBit b := by
  unfold buildTxFrame
  rw [if_pos h]
  refine (BitVec.getLsbD_append ..).trans ?_
  rw [if_neg (by decide), BitVec.getLsbD_append, if_neg (by decide), BitVec.getLsbD_append,
    if_pos (by decide)]
  cases fc.parityBit b <;> rfl

theorem buildTxFrame_stop (b : Byte) {j : Nat} (hj : fc.stopAt ≤ j) (hlt : j < 12) :
    (buildTxFrame b fc).getLsbD j = true := by
  unfold FrameConfig.stopAt at hj
  unfold buildTxFrame
  rcases fc with ⟨_ | _, o, t⟩
  · replace hj : 9 ≤ j := hj
    refine (BitVec.getLsbD_append ..).trans ?_
    rw [if_neg (by omega), BitVec.getLsbD_append, if_neg (by omega)]
    interval_cases j <;> rfl
  · replace hj : 10 ≤ j := hj
    refine (BitVec.getLsbD_append ..).trans ?_
    rw [if_neg (by omega), BitVec.getLsbD_append, if_neg (by omega), BitVec.getLsbD_append,
      if_neg (by omega)]
    interval_cases j <;> rfl

/-- The frame format of a setting of CTRL and a divider. -/
def format (fc : FrameConfig) (div : Nat) (h : 2 ≤ div) : Format Byte where
  div := div
  bits := (calcFrameBits fc).toNat
  encode b j := (buildTxFrame b fc).getLsbD j
  two_le_div := h
  two_le_bits := by
    rw [calcFrameBits_toNat]
    unfold FrameConfig.stopAt
    split <;> omega
  encode_start b := buildTxFrame_start b fc
  encode_stop b := by
    have hbits := calcFrameBits_toNat fc
    apply buildTxFrame_stop
    · split at hbits <;> omega
    · unfold FrameConfig.stopAt at hbits
      split at hbits <;> split at hbits <;> omega

-- A frame determines its byte.
theorem format_injective (fc : FrameConfig) (d : Nat) (h : 2 ≤ d) :
    Function.Injective (format fc d h).frame := by
  intro a b hab
  have hbits : 10 ≤ (format fc d h).bits := by
    show 10 ≤ (calcFrameBits fc).toNat
    rw [calcFrameBits_toNat]
    unfold FrameConfig.stopAt
    split <;> split <;> omega
  apply BitVec.eq_of_getLsbD_eq
  intro j hj
  have hget := congrArg (·[j + 1]?) hab
  simp only [Format.frame, List.getElem?_map,
    List.getElem?_range (show j + 1 < (format fc d h).bits by omega), Option.map_some,
    Option.some.injEq] at hget
  rw [← buildTxFrame_data a fc hj, ← buildTxFrame_data b fc hj]
  exact hget

/-! ## Plain operation -/

/-- The UART is enabled and no LIN feature is active. -/
structure Plain (s : Uart) : Prop where
  enabled : s.ctrlEnable = true
  linOff : s.ctrlLinMode = false
  noBreak : s.lin.breakActive = false
  noHeader : s.lin.autoState = 0#2
  noSlave : s.lin.slaveTxPending = false

/-- The UART is enabled and LIN mode is off: all that the receiver depends on. -/
structure Listens (s : Uart) : Prop where
  enabled : s.ctrlEnable = true
  linOff : s.ctrlLinMode = false

/-- All that the transmitter depends on outside a LIN break. -/
structure Sends (s : Uart) : Prop where
  enabled : s.ctrlEnable = true
  noBreak : s.lin.breakActive = false

/-- The receiver takes the line for what it is: it waits for no break delimiter and sees no break. -/
structure Hears (s : Uart) : Prop where
  enabled : s.ctrlEnable = true
  delimited : (s.ctrlLinMode && s.lin.waitDelimiter) = false
  noBreakSeen : s.breakSeen = false

theorem Listens.hears (h : Listens s) : Hears s :=
  ⟨h.enabled, by rw [h.linOff, Bool.false_and], by simp [breakSeen, h.linOff]⟩

theorem Plain.sends (h : Plain s) : Sends s := ⟨h.enabled, h.noBreak⟩

theorem Plain.hears (h : Plain s) : Hears s := Listens.hears ⟨h.enabled, h.linOff⟩

theorem takesTxByte_plain (h : Plain s) (h0 : s.tx.bitsRemaining = 0#5) :
    s.takesTxByte = (!s.txFifo.empty && !s.linSlaveGateBlock) := by
  simp [takesTxByte, h.enabled, h.noBreak, h.noHeader, h.noSlave, h0]

theorem takesTxByte_busy (h0 : s.tx.bitsRemaining ≠ 0#5) : s.takesTxByte = false := by
  simp [takesTxByte, h0]

/-! What the blocks before and after the transmitter and the receiver leave alone. -/

theorem detectBreak_rx (h : s.breakSeen = false) : (detectBreak s n).rx = n.rx := by
  simp only [breakSeen, Bool.and_eq_false_iff, decide_eq_false_iff_not, Bool.not_eq_false'] at h
  simp only [detectBreak, armHeader, apply_ite Uart.rx, ite_self]
  rcases h with (((hl | he) | hs) | ht) | hc
  · simp [hl]
  · simp [he]
  · simp [hs]
  · simp [ht]
  · simp [hc]

theorem detectBreak_tx : (detectBreak s n).tx = n.tx := by
  simp only [detectBreak, armHeader, apply_ite Uart.tx, ite_self]

theorem receive_tx : (receive s n).tx = n.tx := by
  simp only [receive, rxIdle, rxSample, startFrame, countIdle, sampleBit, finishFrame,
    captureHeader, apply_ite Uart.tx, ite_self]

theorem transmit_rx : (transmit s n).rx = n.rx := by
  simp only [transmit, driveBreak, endBreak, txIdle, txShiftOut, countSlaveByte, loadFrame,
    apply_ite Uart.rx, ite_self]

theorem startBreak_engines : (startBreak s n).tx = n.tx ∧ (startBreak s n).rx = n.rx := by
  simp only [startBreak, apply_ite Uart.tx, apply_ite Uart.rx, ite_self, and_self]

theorem busWrite_engines {a : BusAccess 4} :
    (busWrite s a n).tx = n.tx ∧ (busWrite s a n).rx = n.rx := by
  simp only [busWrite, writeData, writeIrqStatus, writeLinCmd, writeLinSlaveCtrl,
    apply_ite Uart.tx, apply_ite Uart.rx, ite_self, and_self]

theorem busRead_engines {a : BusAccess 4} :
    (busRead s a n).tx = n.tx ∧ (busRead s a n).rx = n.rx := by
  simp only [busRead, apply_ite Uart.tx, apply_ite Uart.rx, ite_self, and_self]

/-- The registers the transmitter and the receiver work on. -/
def settled (s : Uart) (i : Inputs) : Uart :=
  startBreak s (statusBits s (busRead s i.bus (busWrite s i.bus (synchronize s i.rx s))))

theorem settled_tx : (settled s i).tx = s.tx := by
  unfold settled
  rw [startBreak_engines.1]
  show (busRead s i.bus _).tx = _
  rw [busRead_engines.1, busWrite_engines.1]
  rfl

theorem settled_rx : (settled s i).rx = { s.rx with sync1 := i.rx, sync2 := s.rx.sync1 } := by
  unfold settled
  rw [startBreak_engines.2]
  show (busRead s i.bus _).rx = _
  rw [busRead_engines.2, busWrite_engines.2]
  rfl

theorem posedge_tx : (posedge s i).tx = (transmit s (settled s i)).tx := by
  unfold posedge
  rw [detectBreak_tx, receive_tx]
  rfl

theorem posedge_rx (h : s.breakSeen = false) :
    (posedge s i).rx = (receive s (transmit s (settled s i))).rx := by
  unfold posedge
  rw [detectBreak_rx h]
  rfl

/-- A write to the register with word address `a`. -/
def writesTo (b : BusAccess 4) (a : BitVec 4) : Bool := b.write && b.addrWord == a

-- The registers that only bus writes reach.
theorem posedge_registers :
    (posedge s i).ctrl = (if writesTo i.bus 0x2#4 then i.bus.wdata else s.ctrl) ∧
    (posedge s i).baudDiv = (if writesTo i.bus 0x3#4 then i.bus.wdata else s.baudDiv) ∧
    (posedge s i).lin.ctrl = (if writesTo i.bus 0x8#4 then i.bus.wdata else s.lin.ctrl) ∧
    (posedge s i).lin.txHeaderId =
      (if writesTo i.bus 0xA#4 then i.bus.wdata.setWidth 8 else s.lin.txHeaderId) := by
  have hrest {n : Uart} : (detectBreak s (receive s (transmit s (startBreak s (statusBits s
      (busRead s i.bus n)))))).ctrl = n.ctrl ∧
      (detectBreak s (receive s (transmit s (startBreak s (statusBits s
        (busRead s i.bus n)))))).baudDiv = n.baudDiv ∧
      (detectBreak s (receive s (transmit s (startBreak s (statusBits s
        (busRead s i.bus n)))))).lin.ctrl = n.lin.ctrl ∧
      (detectBreak s (receive s (transmit s (startBreak s (statusBits s
        (busRead s i.bus n)))))).lin.txHeaderId = n.lin.txHeaderId := by
    simp only [detectBreak, armHeader, receive, rxIdle, rxSample, startFrame, countIdle, sampleBit,
      finishFrame, captureHeader, transmit, driveBreak, endBreak, txIdle, txShiftOut, countSlaveByte,
      loadFrame, startBreak, statusBits, busRead, apply_ite Uart.ctrl, apply_ite Uart.baudDiv,
      apply_ite Uart.lin, apply_ite Lin.ctrl, apply_ite Lin.txHeaderId, ite_self, and_self]
  have hctrl : (posedge s i).ctrl = (busWrite s i.bus (synchronize s i.rx s)).ctrl := hrest.1
  have hbaud : (posedge s i).baudDiv = (busWrite s i.bus (synchronize s i.rx s)).baudDiv := hrest.2.1
  have hlin : (posedge s i).lin.ctrl = (busWrite s i.bus (synchronize s i.rx s)).lin.ctrl :=
    hrest.2.2.1
  have hid : (posedge s i).lin.txHeaderId =
      (busWrite s i.bus (synchronize s i.rx s)).lin.txHeaderId := hrest.2.2.2
  rw [hctrl, hbaud, hlin, hid]
  unfold busWrite writesTo
  by_cases hw : i.bus.write
  · simp only [hw, ↓reduceIte, Bool.true_and, beq_iff_eq, writeData, writeIrqStatus, writeLinCmd,
      writeLinSlaveCtrl, synchronize, apply_ite Uart.ctrl, apply_ite Uart.baudDiv, apply_ite Uart.lin,
      apply_ite Lin.ctrl, apply_ite Lin.txHeaderId, ite_self]
    refine ⟨?_, ?_, ?_, ?_⟩
    · by_cases h : i.bus.addrWord = 0x2#4 <;> simp [h]
    · by_cases h : i.bus.addrWord = 0x3#4 <;> simp [h]
    · by_cases h : i.bus.addrWord = 0x8#4 <;> simp [h]
    · by_cases h : i.bus.addrWord = 0xA#4 <;> simp [h]
  · simp [hw, synchronize]

/-! The transmitter. -/

/-- The byte the serializer loads in this cycle: of an automatic LIN header, or of the TX FIFO. -/
def loadsByte (s : Uart) : Option Byte :=
  if s.ctrlEnable && !s.lin.breakActive && s.tx.bitsRemaining == 0#5 && s.lin.autoState != 0#2 then
    some (if s.lin.autoState = 1#2 then 0x55#8 else s.lin.txHeaderId)
  else if s.takesTxByte then some s.txFifo.front else none

/-- Loads a frame into the serializer, or nothing. -/
def TxEngine.load (e : TxEngine) (fc : FrameConfig) : Option Byte → TxEngine
  | some b => { e with shift := buildTxFrame b fc, bitsRemaining := calcFrameBits fc, counter := 0 }
  | none => e

theorem posedge_tx_idle (h : Sends s) (h0 : s.tx.bitsRemaining = 0#5) :
    (posedge s i).tx = s.tx.load s.frameConfig s.loadsByte := by
  rw [posedge_tx, transmit, if_neg (by simp [h.enabled]), if_neg (by simp [h.noBreak]), if_pos h0,
    txIdle, loadsByte]
  by_cases ha : s.lin.autoState = 0#2
  · have hauto : (s.ctrlEnable && !s.lin.breakActive && s.tx.bitsRemaining == 0#5 &&
        s.lin.autoState != 0#2) = false := by simp [ha]
    rw [if_neg (not_not_intro ha), hauto, if_neg Bool.false_ne_true]
    by_cases hp : s.lin.slaveTxPending && s.txFifo.empty
    · have hno : s.takesTxByte = false := by simp [takesTxByte, hp]
      rw [if_pos hp, hno, if_neg Bool.false_ne_true]
      exact settled_tx
    · by_cases hf : !s.txFifo.empty && !s.linSlaveGateBlock
      · have hyes : s.takesTxByte = true := by
          rw [takesTxByte, Bool.and_assoc, hf, h.enabled, h.noBreak, h0, ha,
            Bool.not_eq_true _ |>.mp hp]
          rfl
        rw [if_neg hp, if_pos hf, hyes, if_pos rfl]
        simp only [countSlaveByte, loadFrame, apply_ite Uart.tx, ite_self, settled_tx, TxEngine.load]
      · have hno : s.takesTxByte = false := by
          rw [takesTxByte, Bool.and_assoc, Bool.not_eq_true _ |>.mp hf, Bool.and_false]
        rw [if_neg hp, if_neg hf, hno, if_neg Bool.false_ne_true]
        exact settled_tx
  · have hauto : (s.ctrlEnable && !s.lin.breakActive && s.tx.bitsRemaining == 0#5 &&
        s.lin.autoState != 0#2) = true := by simp [h.enabled, h.noBreak, h0, ha]
    rw [if_pos ha, hauto, if_pos rfl]
    simp only [loadFrame, settled_tx, TxEngine.load]

theorem posedge_tx_busy (h : Sends s) (h0 : s.tx.bitsRemaining ≠ 0#5) : (posedge s i).tx =
    if s.tx.counter ≥ s.baudDiv then
      { line := s.tx.shift.getLsbD 0
        shift := 1#1 ++ s.tx.shift.extractLsb' 1 11
        bitsRemaining := s.tx.bitsRemaining - 1
        counter := 0 }
    else { s.tx with counter := s.tx.counter + 1 } := by
  rw [posedge_tx]
  simp only [transmit, txShiftOut, h.enabled, h.noBreak, h0, apply_ite Uart.tx, Bool.not_true,
    Bool.false_eq_true, ↓reduceIte, settled_tx, ite_self]

/-! The receiver. -/

/-- The synchronizer moves in every cycle. -/
def synced (e : RxEngine) (rx : Bool) : RxEngine := { e with sync1 := rx, sync2 := e.sync1 }

theorem posedge_sync : (posedge s i).rx.sync1 = i.rx ∧ (posedge s i).rx.sync2 = s.rx.sync1 := by
  have h1 : (transmit s (settled s i)).rx = synced s.rx i.rx := transmit_rx.trans settled_rx
  have hpos : posedge s i = detectBreak s (receive s (transmit s (settled s i))) := rfl
  rw [hpos]
  constructor
  · simp only [detectBreak, armHeader, receive, rxIdle, rxSample, startFrame, countIdle, sampleBit,
      finishFrame, captureHeader, apply_ite Uart.rx, apply_ite RxEngine.sync1, ite_self, h1, synced]
  · simp only [detectBreak, armHeader, receive, rxIdle, rxSample, startFrame, countIdle, sampleBit,
      finishFrame, captureHeader, apply_ite Uart.rx, apply_ite RxEngine.sync2, ite_self, h1, synced]

theorem posedge_rx_idle (h : Hears s) (hb : s.rx.busy = false) : (posedge s i).rx =
    if s.rx.sync2 then synced s.rx i.rx
    else
      { synced s.rx i.rx with
        busy := true
        counter := s.baudDiv >>> 1
        bitIndex := 0
        totalBits := calcFrameBits s.frameConfig
        frame := s.frameConfig
        dataLatch := 0
        parityLatch := false
        stopError := false
        startError := false } := by
  rw [posedge_rx h.noBreakSeen]
  simp only [receive, rxIdle, startFrame, countIdle, h.enabled, h.delimited, hb, apply_ite Uart.rx,
    Bool.not_true, Bool.not_false, Bool.false_eq_true, ↓reduceIte, ite_self, transmit_rx, settled_rx]
  cases s.rx.sync2 <;> simp [synced, hb]

theorem posedge_rx_wait (h : Hears s) (hb : s.rx.busy = true) (hc : ¬s.rx.counter ≥ s.baudDiv) :
    (posedge s i).rx = { synced s.rx i.rx with counter := s.rx.counter + 1 } := by
  rw [posedge_rx h.noBreakSeen]
  simp only [receive, rxSample, h.enabled, hb, hc, Bool.not_true, Bool.false_eq_true, ↓reduceIte,
    transmit_rx, settled_rx]
  simp only [synced, hb]

/-- The latches after bit `rx_bit_index` has been sampled. -/
def latched (e : RxEngine) : RxEngine :=
  if e.bitIndex = 0#5 then { e with startError := e.startError || e.sync2 }
  else if e.bitIndex ≤ 8#5 then
    { e with dataLatch := setBit e.dataLatch (e.bitIndex.toNat - 1) e.sync2 }
  else if e.frame.parityEnable && e.bitIndex == 9#5 then { e with parityLatch := e.sync2 }
  else { e with stopError := e.stopError || !e.sync2 }

theorem posedge_rx_sample (h : Hears s) (hb : s.rx.busy = true) (hc : s.rx.counter ≥ s.baudDiv) :
    (posedge s i).rx =
      { synced (latched s.rx) i.rx with
        busy := !s.lastBit, counter := 0, bitIndex := s.rx.bitIndex + 1 } := by
  rw [posedge_rx h.noBreakSeen]
  simp only [receive, rxSample, sampleBit, finishFrame, captureHeader, h.enabled, hb, hc,
    Bool.not_true, Bool.false_eq_true, apply_ite Uart.rx, ↓reduceIte, ite_self, transmit_rx,
    settled_rx]
  unfold latched
  cases hs : s.rx.sync2 <;> cases hl : s.lastBit <;> by_cases h0 : s.rx.bitIndex = 0#5 <;>
    by_cases h8 : s.rx.bitIndex ≤ 8#5 <;>
    by_cases h9 : s.rx.frame.parityEnable && s.rx.bitIndex == 9#5 <;>
    simp [h0, h8, h9, synced, hb]

-- `rx_bit_index == rx_total_bits - 1` for a frame in progress.
theorem lastBit_iff (h0 : 0 < s.rx.totalBits.toNat) :
    s.lastBit ↔ s.rx.bitIndex.toNat + 1 = s.rx.totalBits.toNat := by
  have hb := s.rx.bitIndex.isLt
  have ht := s.rx.totalBits.isLt
  rw [lastBit, beq_iff_eq, ← BitVec.toNat_inj, BitVec.toNat_sub, BitVec.toNat_setWidth,
    BitVec.toNat_setWidth, BitVec.toNat_ofNat]
  omega

/-! ## Errors -/

/-- The receiver completes a frame with a framing or parity error or an overrun. -/
def raisesError (s : Uart) : Bool :=
  s.ctrlEnable && s.rx.busy && s.rx.counter ≥ s.baudDiv && s.lastBit &&
    (s.rx.startError || s.rx.stopError ||
      !parityMatch s.rx.dataLatch s.rx.frame s.rx.parityLatch ||
      !(s.ctrlLinMode && s.lin.headerState != 0#2) && s.rxFifo.wideFull)

/-- The framing, overrun and parity bits of STATUS and the error interrupt are clear. -/
structure ErrorFree (s : Uart) : Prop where
  framing : s.status.getLsbD 2 = false
  overrun : s.status.getLsbD 3 = false
  parity : s.status.getLsbD 5 = false
  irq : s.irqStatus.getLsbD 2 = false

theorem busWrite_errorFree {a : BusAccess 4} (hs : ErrorFree s) (h : ErrorFree n) :
    ErrorFree (busWrite s a n) := by
  constructor
  case irq =>
    simp only [busWrite, writeData, writeIrqStatus, writeLinCmd, writeLinSlaveCtrl,
      apply_ite Uart.irqStatus]
    simp [apply_ite (BitVec.getLsbD · 2), getLsbD_setBit, h.irq, hs.irq,
      -BitVec.getLsbD_eq_getElem]
  all_goals
    simp only [busWrite, writeData, writeIrqStatus, writeLinCmd, writeLinSlaveCtrl,
      apply_ite Uart.status]
    simp [apply_ite (BitVec.getLsbD · 2), apply_ite (BitVec.getLsbD · 3),
      apply_ite (BitVec.getLsbD · 5), getLsbD_setBit, h.framing, h.overrun, h.parity,
      -BitVec.getLsbD_eq_getElem]

theorem settled_errorFree (h : ErrorFree s) : ErrorFree (settled s i) := by
  have hw : ErrorFree (busWrite s i.bus (synchronize s i.rx s)) :=
    busWrite_errorFree h ⟨h.framing, h.overrun, h.parity, h.irq⟩
  unfold settled
  constructor
  case irq =>
    simp only [startBreak, statusBits, busRead, apply_ite Uart.irqStatus]
    simp [apply_ite (BitVec.getLsbD · 2), getLsbD_setBit, hw.irq, -BitVec.getLsbD_eq_getElem]
  all_goals
    simp only [startBreak, statusBits, busRead, apply_ite Uart.status]
    simp [getLsbD_setBit, hw.framing, hw.overrun, hw.parity, -BitVec.getLsbD_eq_getElem]

theorem transmit_errorFree (h : ErrorFree n) : ErrorFree (transmit s n) := by
  constructor
  case irq =>
    simp only [transmit, driveBreak, endBreak, txIdle, txShiftOut, countSlaveByte, loadFrame,
      apply_ite Uart.irqStatus]
    simp [apply_ite (BitVec.getLsbD · 2), getLsbD_setBit, h.irq, -BitVec.getLsbD_eq_getElem]
  case framing => exact (transmit_status (by decide)).trans h.framing
  case overrun => exact (transmit_status (by decide)).trans h.overrun
  case parity => exact (transmit_status (by decide)).trans h.parity

theorem detectBreak_errorFree (h : ErrorFree n) : ErrorFree (detectBreak s n) := by
  constructor
  case irq =>
    simp only [detectBreak, armHeader, apply_ite Uart.irqStatus]
    simp [apply_ite (BitVec.getLsbD · 2), getLsbD_setBit, h.irq, -BitVec.getLsbD_eq_getElem]
  case framing => exact (detectBreak_status (by decide)).trans h.framing
  case overrun => exact (detectBreak_status (by decide)).trans h.overrun
  case parity => exact (detectBreak_status (by decide)).trans h.parity

theorem rxIdle_errorFree (h : ErrorFree n) : ErrorFree (rxIdle s n) := by
  constructor
  case irq =>
    simp only [rxIdle, startFrame, countIdle, apply_ite Uart.irqStatus]
    simp [apply_ite (BitVec.getLsbD · 2), getLsbD_setBit, h.irq, -BitVec.getLsbD_eq_getElem]
  all_goals
    simp only [rxIdle, startFrame, countIdle, apply_ite Uart.status]
    simp [apply_ite (BitVec.getLsbD · 2), apply_ite (BitVec.getLsbD · 3),
      apply_ite (BitVec.getLsbD · 5), getLsbD_setBit, h.framing, h.overrun, h.parity,
      -BitVec.getLsbD_eq_getElem]

theorem sampleBit_errorFree (h : ErrorFree n) : ErrorFree (sampleBit s n) := by
  have hst : (sampleBit s n).status = n.status := by
    simp only [sampleBit, apply_ite Uart.status, ite_self]
  have hirq : (sampleBit s n).irqStatus = n.irqStatus := by
    simp only [sampleBit, apply_ite Uart.irqStatus, ite_self]
  constructor
  · rw [hst, h.framing]
  · rw [hst, h.overrun]
  · rw [hst, h.parity]
  · rw [hirq, h.irq]

-- A frame that is neither bad nor lost leaves the error bits alone.
theorem finishFrame_errorFree (h : ErrorFree n) (hx : (s.rx.startError || s.rx.stopError) = false)
    (hp : parityMatch s.rx.dataLatch s.rx.frame s.rx.parityLatch = true)
    (hf : (!(s.ctrlLinMode && s.lin.headerState != 0#2) && s.rxFifo.wideFull) = false) :
    ErrorFree (finishFrame s n) := by
  unfold finishFrame captureHeader
  simp only [hx, hp, Bool.not_true, Bool.false_eq_true, ↓reduceIte]
  by_cases hh : s.ctrlLinMode && s.lin.headerState != 0#2
  · rw [if_pos hh]
    constructor
    case irq =>
      simp only [apply_ite Uart.irqStatus]
      simp [apply_ite (BitVec.getLsbD · 2), getLsbD_setBit, h.irq, -BitVec.getLsbD_eq_getElem]
    all_goals simp only [apply_ite Uart.status, ite_self, h.framing, h.overrun, h.parity]
  · rw [if_neg hh]
    have hroom : s.rxFifo.wideFull = false := by simpa [hh] using hf
    simp only [hroom, Bool.not_false, ↓reduceIte]
    constructor
    case irq => exact (getLsbD_setBit _ _ _ _ (by decide)).trans h.irq
    case framing => exact h.framing
    case overrun => exact h.overrun
    case parity => exact h.parity

theorem receive_errorFree (h : ErrorFree n) (hr : raisesError s = false) :
    ErrorFree (receive s n) := by
  unfold receive
  by_cases he : s.ctrlEnable
  · by_cases hb : s.rx.busy
    · simp only [he, hb, Bool.not_true, Bool.false_eq_true, ↓reduceIte]
      unfold rxSample
      by_cases hc : s.rx.counter ≥ s.baudDiv
      · rw [if_pos hc]
        have hsample : ErrorFree (sampleBit s { n with rx := { n.rx with counter := 0 } }) :=
          sampleBit_errorFree ⟨h.framing, h.overrun, h.parity, h.irq⟩
        by_cases hl : s.lastBit
        · simp only [raisesError, he, hb, hc, hl, Bool.true_and, decide_true,
            Bool.or_eq_false_iff, Bool.not_eq_false'] at hr
          simp only [hl, ↓reduceIte]
          exact finishFrame_errorFree
            ⟨hsample.framing, hsample.overrun, hsample.parity, hsample.irq⟩
            (Bool.or_eq_false_iff.mpr hr.1.1) hr.1.2 hr.2
        · simp only [hl, Bool.false_eq_true, ↓reduceIte]
          exact ⟨hsample.framing, hsample.overrun, hsample.parity, hsample.irq⟩
      · rw [if_neg hc]
        exact ⟨h.framing, h.overrun, h.parity, h.irq⟩
    · simp only [he, hb, Bool.not_true, Bool.not_false, Bool.false_eq_true, ↓reduceIte]
      exact rxIdle_errorFree h
  · simp only [he, Bool.not_false, ↓reduceIte]
    exact ⟨h.framing, h.overrun, h.parity, h.irq⟩

-- Only a bad or lost frame raises an error bit.
theorem posedge_errorFree (h : ErrorFree s) (hr : raisesError s = false) :
    ErrorFree (posedge s i) :=
  detectBreak_errorFree (receive_errorFree (transmit_errorFree (settled_errorFree h)) hr)

/-! ## Simulation -/

/-- The byte the serializer takes in this cycle. -/
def txByte (s : Uart) : Option Byte := if s.takesTxByte then some s.txFifo.front else none

theorem loadsByte_plain (h : Plain s) : s.loadsByte = s.txByte := by
  rw [loadsByte, if_neg (by simp [h.noHeader])]
  rfl

/-- The serializer shows the transmitter of the link. -/
def TxShows (fmt : Format Byte) (e : TxEngine) : Option (Sending Byte) → Prop
  | none => e.bitsRemaining = 0#5
  | some x => x.index < fmt.bits ∧ e.bitsRemaining.toNat = fmt.bits - x.index ∧
      e.counter.toNat = x.tick ∧
      ∀ j, x.index + j < fmt.bits → e.shift.getLsbD j = fmt.encode x.msg (x.index + j)

/-- The latches after the bits `bs`. -/
structure Latched (fc : FrameConfig) (e : RxEngine) (bs : List Bool) : Prop where
  start : e.startError = bs.getD 0 false
  data : ∀ j, j < 8 → e.dataLatch.getLsbD j = bs.getD (j + 1) false
  parity : fc.parityEnable → e.parityLatch = bs.getD 9 false
  stop : e.stopError = (bs.drop fc.stopAt).any (!·)

/-- The sampler shows the receiver of the link. -/
def RxShows (fc : FrameConfig) (e : RxEngine) : Option Sampling → Prop
  | none => e.busy = false
  | some y => e.busy = true ∧ e.frame = fc ∧ e.totalBits = calcFrameBits fc ∧
      e.counter.toNat = y.tick ∧ e.bitIndex.toNat = y.samples.length ∧
      y.samples.length < (calcFrameBits fc).toNat ∧ Latched fc e y.samples

section Simulation

variable {d : Nat} {hd : 2 ≤ d} {l : Link Byte}

theorem bits_le (fc : FrameConfig) : (calcFrameBits fc).toNat ≤ 12 := by
  rw [calcFrameBits_toNat]
  unfold FrameConfig.stopAt
  split <;> split <;> omega

theorem bitsRemaining_ne_zero {o : Sending Byte} (hm : TxShows (format fc d hd) s.tx (some o)) :
    s.tx.bitsRemaining ≠ 0#5 := by
  obtain ⟨hi, hr, -⟩ := hm
  intro h0
  rw [h0] at hr
  have : (0#5).toNat = 0 := rfl
  omega

-- The serializer takes a byte only while the transmitter of the link is idle.
theorem loaded_eq (hm : TxShows (format fc d hd) s.tx l.tx) : l.loaded s.txByte = s.txByte := by
  unfold Link.loaded
  cases hl : l.tx with
  | none => rfl
  | some x =>
    rw [hl] at hm
    unfold txByte
    rw [takesTxByte_busy (bitsRemaining_ne_zero hm)]
    rfl

theorem loaded_loadsByte (hm : TxShows (format fc d hd) s.tx l.tx) :
    l.loaded s.loadsByte = s.loadsByte := by
  unfold Link.loaded
  cases hl : l.tx with
  | none => rfl
  | some x =>
    rw [hl] at hm
    have hbusy := bitsRemaining_ne_zero hm
    have hnone : s.loadsByte = none := by
      rw [loadsByte, if_neg (by simp [hbusy]), takesTxByte_busy hbusy, if_neg Bool.false_ne_true]
    rw [hnone, ite_self]

theorem txShows_posedge (h : Sends s) (hfc : s.frameConfig = fc) (hbaud : s.baudDiv.toNat = d)
    (hline : s.tx.line = l.line) (hm : TxShows (format fc d hd) s.tx l.tx) :
    (posedge s i).tx.line = l.lineNext (format fc d hd) ∧
      TxShows (format fc d hd) (posedge s i).tx (l.txNext (format fc d hd) s.loadsByte) := by
  have hbits := bits_le fc
  unfold Link.lineNext Link.txNext
  cases hl : l.tx with
  | none =>
    rw [hl] at hm
    rw [posedge_tx_idle h hm, hfc]
    cases s.loadsByte with
    | none => exact ⟨hline, hm⟩
    | some b =>
      refine ⟨hline, ?_, rfl, rfl, ?_⟩
      · have := (format fc d hd).two_le_bits
        show 0 < (format fc d hd).bits
        omega
      · intro j _
        show _ = (buildTxFrame _ fc).getLsbD (0 + j)
        rw [Nat.zero_add]
        rfl
  | some x =>
    rw [hl] at hm
    rw [posedge_tx_busy h (bitsRemaining_ne_zero hm)]
    obtain ⟨hi, hr, hc, hs⟩ := hm
    have hbits' : (format fc d hd).bits = (calcFrameBits fc).toNat := rfl
    have hdiv' : (format fc d hd).div = d := rfl
    have hcmp : s.tx.counter ≥ s.baudDiv ↔ (format fc d hd).div ≤ x.tick := by
      rw [ge_iff_le, BitVec.le_def, hbaud, hc, hdiv']
    by_cases hdone : (format fc d hd).div ≤ x.tick
    · -- the next bit goes on the line
      have hrem : (s.tx.bitsRemaining - 1).toNat = (format fc d hd).bits - x.index - 1 := by
        rw [BitVec.toNat_sub_of_le, hr]
        · rfl
        · rw [BitVec.le_def, hr]
          show 1 ≤ _
          omega
      simp only [hcmp, if_pos hdone]
      refine ⟨hs 0 hi, ?_⟩
      by_cases hlast : x.index + 1 = (format fc d hd).bits
      · rw [if_pos hlast]
        apply BitVec.eq_of_toNat_eq
        rw [hrem]
        show _ = 0
        omega
      · rw [if_neg hlast]
        refine ⟨by show x.index + 1 < _; omega, ?_, rfl, ?_⟩
        · rw [hrem]
          show _ = _ - (x.index + 1)
          omega
        · intro j hj
          replace hj : x.index + 1 + j < (format fc d hd).bits := hj
          show (1#1 ++ s.tx.shift.extractLsb' 1 11 : BitVec 12).getLsbD j = _
          refine (BitVec.getLsbD_append ..).trans ?_
          rw [if_pos (by omega), BitVec.getLsbD_extractLsb', decide_eq_true (by omega),
            Bool.true_and, hs (1 + j) (by omega), Nat.add_assoc]
    · simp only [hcmp, if_neg hdone]
      refine ⟨hline, hi, hr, ?_, hs⟩
      rw [BitVec.toNat_add_of_lt, hc]
      · rfl
      · rw [hc]
        have := s.baudDiv.isLt
        show x.tick + 1 < 2 ^ 32
        omega

theorem getD_concat (bs : List Bool) (x : Bool) (j : Nat) :
    (bs ++ [x]).getD j false = if j = bs.length then x else bs.getD j false := by
  rw [List.getD_eq_getElem?_getD, List.getD_eq_getElem?_getD, List.getElem?_append]
  rcases Nat.lt_trichotomy j bs.length with hlt | rfl | hgt
  · rw [if_pos hlt, if_neg (by omega)]
  · rw [if_neg (by omega), if_pos rfl, Nat.sub_self]
    rfl
  · rw [if_neg (by omega), if_neg (by omega), List.getElem?_eq_none (by simp; omega),
      List.getElem?_eq_none (by omega)]

-- The samples below the stop bits do not reach the stop latch.
theorem any_drop_concat (bs : List Bool) (x : Bool) (k : Nat) :
    ((bs ++ [x]).drop k).any (!·) = ((bs.drop k).any (!·) || decide (k ≤ bs.length) && !x) := by
  by_cases hk : k ≤ bs.length
  · rw [List.drop_append_of_le_length hk, List.any_append, decide_eq_true hk, Bool.true_and]
    simp
  · rw [List.drop_eq_nil_of_le (by simp; omega), List.drop_eq_nil_of_le (by omega),
      decide_eq_false hk]
    rfl

-- One more sample leaves every latch right but the one it belongs to.
theorem Latched.append {e : RxEngine} {bs : List Bool} (h : Latched fc e bs) (x : Bool) :
    (bs.length ≠ 0 → e.startError = (bs ++ [x]).getD 0 false) ∧
      (∀ j, j < 8 → j + 1 ≠ bs.length → e.dataLatch.getLsbD j = (bs ++ [x]).getD (j + 1) false) ∧
      (fc.parityEnable → bs.length ≠ 9 → e.parityLatch = (bs ++ [x]).getD 9 false) ∧
      (bs.length < fc.stopAt → e.stopError = ((bs ++ [x]).drop fc.stopAt).any (!·)) := by
  have hkeep (j : Nat) (hj : j ≠ bs.length) : (bs ++ [x]).getD j false = bs.getD j false := by
    rw [getD_concat, if_neg hj]
  refine ⟨?_, ?_, ?_, ?_⟩
  · intro hne
    rw [hkeep 0 hne.symm]
    exact h.start
  · intro j hj hne
    rw [hkeep (j + 1) hne]
    exact h.data j hj
  · intro hp hne
    rw [hkeep 9 hne.symm]
    exact h.parity hp
  · -- below the stop bits
    intro hlt
    rw [any_drop_concat, decide_eq_false (by omega), Bool.false_and, Bool.or_false]
    exact h.stop

-- One more sampled bit goes into its latch.
theorem latched_concat {e : RxEngine} {bs : List Bool} (h : Latched fc e bs)
    (hfc : e.frame = fc) (hk : e.bitIndex.toNat = bs.length) :
    Latched fc (latched e) (bs ++ [e.sync2]) := by
  have h0 : e.bitIndex = 0#5 ↔ bs.length = 0 := by
    rw [← BitVec.toNat_inj, hk]
    rfl
  have h8 : e.bitIndex ≤ 8#5 ↔ bs.length ≤ 8 := by
    rw [BitVec.le_def, hk]
    rfl
  have h9 : (e.bitIndex == 9#5) = decide (bs.length = 9) := by
    rw [Bool.eq_iff_iff, beq_iff_eq, decide_eq_true_eq, ← BitVec.toNat_inj, hk]
    rfl
  have hstopAt : fc.stopAt = if fc.parityEnable then 10 else 9 := rfl
  obtain ⟨hstart, hdata, hparity, hstop⟩ := h.append e.sync2
  unfold latched
  by_cases c0 : bs.length = 0
  · -- start bit
    rw [if_pos (h0.mpr c0)]
    refine ⟨?_, fun j hj ↦ hdata j hj (by omega), fun hp ↦ hparity hp (by omega),
      hstop (by split at hstopAt <;> omega)⟩
    show (e.startError || e.sync2) = _
    rw [h.start, List.length_eq_zero_iff.mp c0]
    rfl
  rw [if_neg (mt h0.mp c0)]
  by_cases c8 : bs.length ≤ 8
  · -- data bit
    rw [if_pos (h8.mpr c8)]
    refine ⟨hstart c0, ?_, fun hp ↦ hparity hp (by omega), hstop (by split at hstopAt <;> omega)⟩
    intro j hj
    show (setBit e.dataLatch (e.bitIndex.toNat - 1) e.sync2).getLsbD j = _
    rw [getLsbD_setBit _ _ _ _ (by omega), hk, h.data j hj, getD_concat]
    by_cases hjk : j + 1 = bs.length
    · rw [if_pos (by omega), if_pos hjk]
    · rw [if_neg (by omega), if_neg hjk]
  rw [if_neg (mt h8.mp c8), hfc, h9]
  by_cases c9 : fc.parityEnable && decide (bs.length = 9)
  · -- parity bit
    rw [if_pos c9]
    rw [Bool.and_eq_true, decide_eq_true_eq] at c9
    refine ⟨hstart c0, fun j hj ↦ hdata j hj (by omega), fun _ ↦ ?_,
      hstop (by rw [hstopAt, if_pos c9.1]; omega)⟩
    rw [getD_concat, if_pos c9.2.symm]
  · -- stop bit
    rw [if_neg c9]
    have hge : fc.stopAt ≤ bs.length ∧ (fc.parityEnable → bs.length ≠ 9) := by
      rw [Bool.and_eq_true, decide_eq_true_eq] at c9
      rw [hstopAt]
      by_cases hp : fc.parityEnable
      · rw [if_pos hp]
        have hne : bs.length ≠ 9 := fun hn ↦ c9 ⟨hp, hn⟩
        exact ⟨by omega, fun _ ↦ hne⟩
      · rw [if_neg hp]
        exact ⟨by omega, fun hp' ↦ absurd hp' hp⟩
    refine ⟨hstart c0, fun j hj ↦ hdata j hj (by omega), fun hp ↦ hparity hp (hge.2 hp), ?_⟩
    show (e.stopError || !e.sync2) = _
    rw [any_drop_concat, decide_eq_true hge.1, Bool.true_and, h.stop]

/-- The sampler in a frame of which it has sampled the bits `bs`. -/
structure RxHolds (fc : FrameConfig) (e : RxEngine) (bs : List Bool) : Prop where
  busy : e.busy = true
  frame : e.frame = fc
  totalBits : e.totalBits = calcFrameBits fc
  bitIndex : e.bitIndex.toNat = bs.length
  length_lt : bs.length < (calcFrameBits fc).toNat
  latched : Latched fc e bs

theorem RxHolds.lastBit_iff {bs : List Bool} (h : RxHolds fc s.rx bs) :
    s.lastBit ↔ bs.length + 1 = (calcFrameBits fc).toNat := by
  have hlt := h.length_lt
  rw [Uart.lastBit_iff (by rw [h.totalBits]; omega), h.bitIndex, h.totalBits]

theorem rxHolds_start (h : Hears s) (hb : s.rx.busy = false) (hs : s.rx.sync2 = false) :
    RxHolds s.frameConfig (posedge s i).rx [] := by
  rw [posedge_rx_idle h hb, if_neg (by simp [hs])]
  refine ⟨rfl, rfl, rfl, rfl, ?_, ?_⟩
  · rw [calcFrameBits_toNat]
    show 0 < _
    split <;> omega
  · refine ⟨rfl, ?_, fun _ ↦ rfl, ?_⟩
    · intro j _
      show (0#8).getLsbD j = _
      rw [BitVec.getLsbD_zero]
      rfl
    · rw [List.drop_nil]
      rfl

theorem RxHolds.wait {bs : List Bool} (hr : RxHolds fc s.rx bs) (h : Hears s)
    (hc : ¬ s.rx.counter ≥ s.baudDiv) : RxHolds fc (posedge s i).rx bs := by
  have hl := hr.latched
  rw [posedge_rx_wait h hr.busy hc]
  exact ⟨hr.busy, hr.frame, hr.totalBits, hr.bitIndex, hr.length_lt,
    ⟨hl.start, hl.data, hl.parity, hl.stop⟩⟩

theorem RxHolds.sample {bs : List Bool} (hr : RxHolds fc s.rx bs) (h : Hears s)
    (hc : s.rx.counter ≥ s.baudDiv) (hlast : ¬ s.lastBit) :
    RxHolds fc (posedge s i).rx (bs ++ [s.rx.sync2]) := by
  have hle := bits_le fc
  have hlt := hr.length_lt
  have hmore : bs.length + 1 < (calcFrameBits fc).toNat := by
    have hne := mt hr.lastBit_iff.mpr hlast
    omega
  have hkeep : (Uart.latched s.rx).frame = s.rx.frame ∧
      (Uart.latched s.rx).totalBits = s.rx.totalBits := by
    unfold Uart.latched
    split
    · exact ⟨rfl, rfl⟩
    · split
      · exact ⟨rfl, rfl⟩
      · split <;> exact ⟨rfl, rfl⟩
  rw [posedge_rx_sample h hr.busy hc]
  refine ⟨?_, hkeep.1.trans hr.frame, hkeep.2.trans hr.totalBits, ?_, ?_, ?_⟩
  · show (!s.lastBit) = true
    simpa using hlast
  · show (s.rx.bitIndex + 1).toNat = (bs ++ [s.rx.sync2]).length
    rw [BitVec.toNat_add_of_lt, hr.bitIndex, List.length_append]
    · rfl
    · rw [hr.bitIndex]
      show bs.length + 1 < 32
      omega
  · show (bs ++ [s.rx.sync2]).length < _
    rw [List.length_append, List.length_singleton]
    exact hmore
  · have hcat := latched_concat hr.latched hr.frame hr.bitIndex
    exact ⟨hcat.start, hcat.data, hcat.parity, hcat.stop⟩

theorem rxShows_some_iff {y : Sampling} : RxShows fc s.rx (some y) ↔
    RxHolds fc s.rx y.samples ∧ s.rx.counter.toNat = y.tick := by
  constructor
  · rintro ⟨hb, hf, ht, hc, hk, hlt, hlat⟩
    exact ⟨⟨hb, hf, ht, hk, hlt, hlat⟩, hc⟩
  · rintro ⟨⟨hb, hf, ht, hk, hlt, hlat⟩, hc⟩
    exact ⟨hb, hf, ht, hc, hk, hlt, hlat⟩

-- The sampler moves as the receiver of the link.
theorem rxShows_posedge (h : Hears s) (hfc : s.frameConfig = fc) (hbaud : s.baudDiv.toNat = d)
    (hsync : s.rx.sync2 = l.sync2) (hm : RxShows fc s.rx l.rx) :
    RxShows fc (posedge s i).rx (l.rxNext (format fc d hd)) := by
  have hdiv : (format fc d hd).div = d := rfl
  have hbits : (format fc d hd).bits = (calcFrameBits fc).toNat := rfl
  unfold Link.rxNext
  cases hl : l.rx with
  | none =>
    rw [hl] at hm
    by_cases hs : l.sync2
    · rw [if_pos hs, posedge_rx_idle h hm, hsync, if_pos hs]
      exact hm
    · rw [Bool.not_eq_true] at hs
      have hstart := rxHolds_start (i := i) h hm (hsync.trans hs)
      rw [if_neg (by simp [hs])]
      rw [hfc] at hstart
      refine rxShows_some_iff.mpr ⟨hstart, ?_⟩
      rw [posedge_rx_idle h hm, hsync, if_neg (by simp [hs])]
      show (s.baudDiv >>> 1).toNat = d / 2
      rw [BitVec.toNat_ushiftRight, hbaud, Nat.shiftRight_one]
  | some y =>
    rw [hl] at hm
    obtain ⟨hr, hc⟩ := rxShows_some_iff.mp hm
    have hcmp : s.rx.counter ≥ s.baudDiv ↔ (format fc d hd).div ≤ y.tick := by
      rw [ge_iff_le, BitVec.le_def, hbaud, hc, hdiv]
    by_cases hdone : (format fc d hd).div ≤ y.tick
    · have hnext := posedge_rx_sample (i := i) h hr.busy (hcmp.mpr hdone)
      simp only [if_pos hdone]
      by_cases hlast : y.samples.length + 1 = (format fc d hd).bits
      · rw [if_pos hlast]
        show (posedge s i).rx.busy = false
        rw [hnext]
        show (!s.lastBit) = false
        rw [hr.lastBit_iff.mpr hlast]
        rfl
      · rw [if_neg hlast]
        refine rxShows_some_iff.mpr ⟨?_, by rw [hnext]; rfl⟩
        have hsample := hr.sample (i := i) h (hcmp.mpr hdone) (mt hr.lastBit_iff.mp hlast)
        rwa [hsync] at hsample
    · simp only [if_neg hdone]
      refine rxShows_some_iff.mpr ⟨hr.wait h (mt hcmp.mp hdone), ?_⟩
      rw [posedge_rx_wait h hr.busy (mt hcmp.mp hdone)]
      show (s.rx.counter + 1).toNat = y.tick + 1
      rw [BitVec.toNat_add_of_lt, hc]
      · rfl
      · rw [hc]
        have := s.baudDiv.isLt
        show y.tick + 1 < 2 ^ 32
        omega

-- The sampler has received the bits of byte `b` up to the last stop bit.
theorem latched_frame {e : RxEngine} {bs : List Bool} {x : Bool} (h : Latched fc e bs)
    (hbs : bs ++ [x] = (format fc d hd).frame b) :
    e.dataLatch = b ∧ (e.startError || e.stopError) = false ∧
      parityMatch b fc e.parityLatch = true := by
  have htoNat := calcFrameBits_toNat fc
  have hle := bits_le fc
  have hstopAt : fc.stopAt = if fc.parityEnable then 10 else 9 := rfl
  have hlen : bs.length + 1 = (calcFrameBits fc).toNat := by
    have := congrArg List.length hbs
    rwa [List.length_append, List.length_singleton, Format.frame, List.length_map,
      List.length_range] at this
  have hlow : 9 ≤ bs.length ∧ fc.stopAt ≤ bs.length := by
    split at hstopAt <;> split at htoNat <;> omega
  have hget (j : Nat) (hj : j < bs.length) : bs.getD j false = (buildTxFrame b fc).getLsbD j := by
    have := congrArg (·.getD j false) hbs
    simp only [getD_concat] at this
    rw [if_neg (by omega)] at this
    rw [this, Format.frame, List.getD_eq_getElem?_getD, List.getElem?_map,
      List.getElem?_range (by show j < (calcFrameBits fc).toNat; omega)]
    rfl
  refine ⟨?_, ?_, ?_⟩
  · apply BitVec.eq_of_getLsbD_eq
    intro j hj
    rw [h.data j hj, hget _ (by omega), buildTxFrame_data b fc hj]
  · rw [h.start, h.stop, hget 0 (by omega), buildTxFrame_start, Bool.false_or, List.any_eq_false]
    intro y hy
    obtain ⟨j, hj, rfl⟩ := List.mem_iff_getElem.mp hy
    rw [List.length_drop] at hj
    have hone := hget (fc.stopAt + j) (by omega)
    rw [buildTxFrame_stop b (by omega) (by omega), List.getD_eq_getElem?_getD,
      List.getElem?_eq_getElem (by omega)] at hone
    rw [List.getElem_drop, show bs[fc.stopAt + j] = true from hone]
    decide
  · unfold parityMatch
    by_cases hp : fc.parityEnable
    · rw [hp, h.parity hp, hget 9 (by rw [hp] at hstopAt; simp at hstopAt; omega),
        buildTxFrame_parity b hp]
      simp
    · simp [hp]

/-- The sampler is at the last bit of a well-formed character with the byte `b`. -/
structure EndsWith (fc : FrameConfig) (s : Uart) (b : Byte) : Prop where
  busy : s.rx.busy = true
  due : s.rx.counter ≥ s.baudDiv
  last : s.lastBit
  data : s.rx.dataLatch = b
  frame : s.rx.frame = fc
  noError : (s.rx.startError || s.rx.stopError) = false
  parity : parityMatch b fc s.rx.parityLatch = true

-- The sampler is at the last bit of a character exactly when the receiver of the link completes its frame.
theorem endsWith_of_delivered (hbaud : s.baudDiv.toNat = d) (hm : RxShows fc s.rx l.rx)
    (hframe : ∀ bs, l.delivered (format fc d hd) = some bs → ∃ b, bs = (format fc d hd).frame b) :
    (∃ b, l.delivered (format fc d hd) = some ((format fc d hd).frame b) ∧ EndsWith fc s b) ∨
      l.delivered (format fc d hd) = none ∧
        (s.rx.busy && decide (s.rx.counter ≥ s.baudDiv) && s.lastBit) = false := by
  have hbits' : (format fc d hd).bits = (calcFrameBits fc).toNat := rfl
  have hdiv' : (format fc d hd).div = d := rfl
  unfold Link.delivered at hframe ⊢
  cases hl : l.rx with
  | none =>
    rw [hl] at hm
    have hb : s.rx.busy = false := hm
    exact .inr ⟨rfl, by rw [hb, Bool.false_and, Bool.false_and]⟩
  | some y =>
    rw [hl] at hm hframe
    obtain ⟨hb, hf, ht, hc, hk, hlt, hlat⟩ := hm
    have hcmp : s.rx.counter ≥ s.baudDiv ↔ (format fc d hd).div ≤ y.tick := by
      rw [ge_iff_le, BitVec.le_def, hbaud, hc, hdiv']
    have hlastBit : s.lastBit ↔ y.samples.length + 1 = (format fc d hd).bits := by
      rw [lastBit_iff (by rw [ht]; omega), hk, ht, hbits']
    by_cases hdone : (format fc d hd).div ≤ y.tick ∧ y.samples.length + 1 = (format fc d hd).bits
    · simp only [if_pos hdone] at hframe ⊢
      obtain ⟨b, hb'⟩ := hframe _ rfl
      obtain ⟨hdata, herr, hpar⟩ := latched_frame hlat hb'
      exact .inl ⟨b, by rw [hb'], hb, hcmp.mpr hdone.1, hlastBit.mpr hdone.2, hdata, hf, herr, hpar⟩
    · simp only [if_neg hdone]
      have hno : (decide (s.rx.counter ≥ s.baudDiv) && s.lastBit) = false := by
        rw [← Bool.not_eq_true, Bool.and_eq_true, decide_eq_true_eq, hcmp, hlastBit]
        exact hdone
      exact .inr ⟨trivial, by rw [Bool.and_assoc, hno, Bool.and_false]⟩

-- The sampler stores a byte exactly when the receiver of the link completes its frame, and then there is no
-- framing or parity error.
theorem rxPush_eq (h : Plain s) (hbaud : s.baudDiv.toNat = d) (hm : RxShows fc s.rx l.rx)
    (hframe : ∀ bs, l.delivered (format fc d hd) = some bs → ∃ b, bs = (format fc d hd).frame b) :
    s.rxPush.map (format fc d hd).frame = l.delivered (format fc d hd) ∧
      (s.rxPush = none ∨ s.rxFifo.wideFull = false → s.raisesError = false) := by
  rcases endsWith_of_delivered hbaud hm hframe with ⟨b, hdel, he⟩ | ⟨hdel, hno⟩
  · have hpush : s.rxPush = some b := by
      simp [rxPush, h.enabled, h.linOff, he.busy, he.due, he.last, he.noError, he.frame, he.data,
        he.parity]
    refine ⟨by rw [hpush, hdel]; rfl, fun hroom ↦ ?_⟩
    rcases hroom with hnone | hfull
    · rw [hpush] at hnone
      cases hnone
    · simp [raisesError, he.noError, he.data, he.frame, he.parity, hfull]
  · have hpush : s.rxPush = none := by
      rw [rxPush, if_neg]
      simp_all
    refine ⟨by rw [hpush, hdel, Option.map_none], fun _ ↦ ?_⟩
    rw [raisesError]
    simp_all

/-- The two state machines of the UART, wired to each other, and the link. -/
structure Matches (fc : FrameConfig) (fmt : Format Byte) (s : Uart) (l : Link Byte) : Prop where
  line : s.tx.line = l.line
  sync1 : s.rx.sync1 = l.sync1
  sync2 : s.rx.sync2 = l.sync2
  tx : TxShows fmt s.tx l.tx
  rx : RxShows fc s.rx l.rx

-- One edge of the UART is one edge of the link.
theorem Matches.posedge (hm : Matches fc (format fc d hd) s l) (hs : Sends s) (hh : Hears s)
    (hfc : s.frameConfig = fc) (hbaud : s.baudDiv.toNat = d) (hrx : i.rx = s.tx.line) :
    Matches fc (format fc d hd) (posedge s i) (l.step (format fc d hd) s.loadsByte) where
  line := (txShows_posedge hs hfc hbaud hm.line hm.tx).1
  sync1 := by
    rw [posedge_sync.1, hrx]
    exact hm.line
  sync2 := posedge_sync.2.trans hm.sync1
  tx := (txShows_posedge hs hfc hbaud hm.line hm.tx).2
  rx := rxShows_posedge hh hfc hbaud hm.sync2 hm.rx

end Simulation

end Uart

end QarCore
