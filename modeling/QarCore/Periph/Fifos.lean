import QarCore.Periph.I2c
import QarCore.Periph.Spi

/-!
# The peripheral FIFOs

Six FIFOs built alike: TX and RX of the UART, the SPI and the I2C controller.  Each module decides
when it pushes and pops; between the modules the registers of a FIFO change by `Ring.next` only.
-/

namespace QarCore

open Clocked (Ring FifoRun)

variable {w : Nat}

/-! The flags of a status word, which the modules concatenate from the highest bit down. -/

theorem getLsbD_concat_zero (x : BitVec w) (b : Bool) :
    (x ++ BitVec.ofBool b).getLsbD 0 = b := by
  rw [BitVec.getLsbD_append, if_pos (by decide)]
  cases b <;> rfl

theorem getLsbD_concat_succ (x : BitVec w) (b : Bool) (k : Nat) :
    (x ++ BitVec.ofBool b).getLsbD (k + 1) = x.getLsbD k := by
  simp [BitVec.getLsbD_append]

-- The test behind the interrupts that report a drained FIFO: it misses the pop that takes the read pointer
-- past its highest value.
theorem Uart.becomesEmpty_iff {r : Ring w Byte} (hw : w < 31) :
    becomesEmpty r ↔ r.count = 1 ∧ r.tail.toNat + 1 < 2 ^ (w + 1) := by
  have hh := r.head.isLt
  have ht := r.tail.isLt
  have hle : 2 ^ (w + 1) ≤ 2 ^ 31 := Nat.pow_le_pow_right (by omega) (by omega)
  have h1 : r.head.toNat % 2 ^ 32 = r.head.toNat := Nat.mod_eq_of_lt (by omega)
  have h2 : r.tail.toNat % 2 ^ 32 = r.tail.toNat := Nat.mod_eq_of_lt (by omega)
  rw [becomesEmpty, beq_iff_eq, ← BitVec.toNat_inj, BitVec.toNat_sub, BitVec.toNat_add,
    BitVec.toNat_setWidth, BitVec.toNat_setWidth, h1, h2, Ring.count, BitVec.toNat_sub]
  simp only [BitVec.toNat_ofNat]
  generalize hP : 2 ^ (w + 1) = P at *
  -- the two differences agree while the read pointer does not wrap
  by_cases hlt : r.head.toNat < r.tail.toNat
  · rw [Nat.mod_eq_of_lt (show P - r.tail.toNat + r.head.toNat < P by omega)]
    omega
  · rw [show P - r.tail.toNat + r.head.toNat = r.head.toNat - r.tail.toNat + P by omega,
      Nat.add_mod_right, Nat.mod_eq_of_lt (show r.head.toNat - r.tail.toNat < P by omega)]
    omega

/-! ## UART -/

namespace Uart

variable {s n : Uart} {i : Inputs} {b : BusAccess 4}

/-- The UART after `t` cycles. -/
def after (txMem rxMem : BitVec 3 → Byte) (inp : Nat → Inputs) (t : Nat) : Uart :=
  Clocked.run posedge (reset txMem rxMem) inp t

/-- A write to DATA. -/
def txPush (b : BusAccess 4) : Option Byte :=
  if b.write && b.addrWord == 0x0#4 then some (b.wdata.setWidth 8) else none

/-- A read of DATA. -/
def rxPop (b : BusAccess 4) : Bool := b.read && b.addrWord == 0x0#4

/-- A well-formed character is complete and does not belong to a LIN header. -/
def rxPush (s : Uart) : Option Byte :=
  if s.ctrlEnable && s.rx.busy && s.rx.counter ≥ s.baudDiv && s.lastBit &&
      !(s.rx.startError || s.rx.stopError) &&
      parityMatch s.rx.dataLatch s.rx.frame s.rx.parityLatch &&
      !(s.ctrlLinMode && s.lin.headerState != 0#2) then
    some s.rx.dataLatch
  else none

/-- The RX FIFO is flushed, by LIN_CMD or by a LIN break. -/
def flushesRx (s : Uart) (b : BusAccess 4) : Bool :=
  b.write && b.addrWord == 0x9#4 && b.wdata.getLsbD 2 || s.breakSeen

/-! What the blocks do to the two FIFOs. -/

theorem busWrite_txFifo : (busWrite s b n).txFifo =
    (if s.txFifo.wideFull then none else txPush b).elim n.txFifo
      (n.txFifo.pushAt s.txFifo.head) := by
  simp only [busWrite, writeData, writeIrqStatus, writeLinCmd, writeLinSlaveCtrl, txPush,
    apply_ite Uart.txFifo, ite_self]
  by_cases hw : b.write <;> by_cases ha : b.addrWord = 0x0#4 <;>
    by_cases hf : s.txFifo.wideFull <;> simp [hw, ha, hf]

theorem busWrite_rxFifo (h : flushesRx s b = false) : (busWrite s b n).rxFifo = n.rxFifo := by
  simp only [busWrite, writeData, writeIrqStatus, writeLinCmd, writeLinSlaveCtrl,
    apply_ite Uart.rxFifo, ite_self]
  simp only [flushesRx, Bool.or_eq_false_iff, Bool.and_eq_false_iff, beq_eq_false_iff_ne] at h
  -- only LIN_CMD reaches the FIFO, and its bit 2 is clear
  rcases h.1 with (hw | ha) | hb
  · simp [hw]
  · simp [ha]
  · simp only [hb, Bool.false_eq_true, ↓reduceIte, ite_self]

theorem busRead_txFifo : (busRead s b n).txFifo = n.txFifo := by
  simp only [busRead, apply_ite Uart.txFifo, ite_self]

theorem busRead_rxFifo : (busRead s b n).rxFifo =
    if rxPop b && !s.rxFifo.empty then n.rxFifo.popAt s.rxFifo.tail else n.rxFifo := by
  simp only [busRead, rxPop, apply_ite Uart.rxFifo]
  rfl

theorem startBreak_fifos :
    (startBreak s n).txFifo = n.txFifo ∧ (startBreak s n).rxFifo = n.rxFifo := by
  simp only [startBreak, apply_ite Uart.txFifo, apply_ite Uart.rxFifo, ite_self, and_self]

theorem transmit_rxFifo : (transmit s n).rxFifo = n.rxFifo := by
  simp only [transmit, driveBreak, endBreak, txIdle, txShiftOut, countSlaveByte, loadFrame,
    apply_ite Uart.rxFifo, ite_self]

theorem transmit_txFifo : (transmit s n).txFifo =
    if s.takesTxByte then n.txFifo.popAt s.txFifo.tail else n.txFifo := by
  simp only [transmit, driveBreak, endBreak, txIdle, txShiftOut, countSlaveByte, loadFrame,
    takesTxByte, apply_ite Uart.txFifo, ite_self]
  by_cases he : s.ctrlEnable <;> by_cases hb : s.lin.breakActive <;>
    by_cases hr : s.tx.bitsRemaining = 0#5 <;> by_cases ha : s.lin.autoState = 0#2 <;>
    by_cases hp : s.lin.slaveTxPending && s.txFifo.empty <;> simp [he, hb, hr, ha, hp]

theorem receive_txFifo : (receive s n).txFifo = n.txFifo := by
  simp only [receive, rxIdle, rxSample, startFrame, countIdle, sampleBit, finishFrame,
    captureHeader, apply_ite Uart.txFifo, ite_self]

theorem receive_rxFifo : (receive s n).rxFifo =
    (if s.rxFifo.wideFull then none else rxPush s).elim n.rxFifo
      (n.rxFifo.pushAt s.rxFifo.head) := by
  simp only [receive, rxIdle, rxSample, startFrame, countIdle, sampleBit, finishFrame,
    captureHeader, rxPush, apply_ite Uart.rxFifo, ite_self]
  by_cases he : s.ctrlEnable <;> by_cases hb : s.rx.busy <;> by_cases hc : s.rx.counter ≥ s.baudDiv <;>
    by_cases hl : s.lastBit <;> by_cases hx : s.rx.startError || s.rx.stopError <;>
    by_cases hp : parityMatch s.rx.dataLatch s.rx.frame s.rx.parityLatch <;>
    by_cases hh : s.ctrlLinMode && s.lin.headerState != 0#2 <;>
    by_cases hf : s.rxFifo.wideFull <;> simp [he, hb, hc, hl, hx, hp, hh, hf]

theorem detectBreak_txFifo : (detectBreak s n).txFifo = n.txFifo := by
  simp only [detectBreak, armHeader, apply_ite Uart.txFifo, ite_self]

theorem detectBreak_rxFifo (h : s.breakSeen = false) : (detectBreak s n).rxFifo = n.rxFifo := by
  simp only [breakSeen, Bool.and_eq_false_iff, decide_eq_false_iff_not, Bool.not_eq_false'] at h
  simp only [detectBreak, armHeader, apply_ite Uart.rxFifo, ite_self]
  rcases h with (((hl | he) | hs) | ht) | hc
  · simp [hl]
  · simp [he]
  · simp [hs]
  · simp [ht]
  · simp [hc]

theorem statusBits_fifos :
    (statusBits s n).txFifo = n.txFifo ∧ (statusBits s n).rxFifo = n.rxFifo := ⟨rfl, rfl⟩

-- A byte is taken only if there is one.
theorem takesTxByte_eq (s : Uart) : s.takesTxByte = (s.takesTxByte && !s.txFifo.empty) := by
  unfold takesTxByte
  cases s.txFifo.empty <;> simp

-- The TX FIFO takes the byte of a DATA write and gives one to the serializer.
theorem posedge_txFifo : (posedge s i).txFifo =
    s.txFifo.next (if s.txFifo.wideFull then none else txPush i.bus) s.takesTxByte := by
  unfold posedge
  rw [detectBreak_txFifo, receive_txFifo, transmit_txFifo, startBreak_fifos.1,
    statusBits_fifos.1, busRead_txFifo, busWrite_txFifo]
  rfl

-- The RX FIFO takes the byte of a complete character and gives one to a DATA read.
theorem posedge_rxFifo (h : flushesRx s i.bus = false) : (posedge s i).rxFifo =
    s.rxFifo.next (if s.rxFifo.wideFull then none else rxPush s)
      (rxPop i.bus && !s.rxFifo.empty) := by
  have hb : s.breakSeen = false := (Bool.or_eq_false_iff.mp h).2
  unfold posedge
  rw [detectBreak_rxFifo hb, receive_rxFifo, transmit_rxFifo, startBreak_fifos.2,
    statusBits_fifos.2, busRead_rxFifo, busWrite_rxFifo h]
  -- the source pops before it pushes; the two touch different registers
  show Option.elim _ _ _ = _
  cases (if s.rxFifo.wideFull then none else rxPush s) <;>
    cases rxPop i.bus && !s.rxFifo.empty <;> rfl

/-! What the blocks do to STATUS: the FIFO bits 0 and 1 are set by `statusBits` alone. -/

variable {k : Nat}

theorem transmit_status (hk : k ≠ 7) :
    (transmit s n).status.getLsbD k = n.status.getLsbD k := by
  have h7 : (setBit n.status 7 true).getLsbD k = n.status.getLsbD k := by
    rw [getLsbD_setBit _ _ _ _ (by decide), if_neg hk]
  simp only [transmit, driveBreak, endBreak, txIdle, txShiftOut, countSlaveByte, loadFrame,
    apply_ite Uart.status, ite_self]
  simp only [apply_ite (BitVec.getLsbD · k), h7, ite_self]

theorem detectBreak_status (hk : k ≠ 7) :
    (detectBreak s n).status.getLsbD k = n.status.getLsbD k := by
  have h7 : (setBit n.status 7 true).getLsbD k = n.status.getLsbD k := by
    rw [getLsbD_setBit _ _ _ _ (by decide), if_neg hk]
  simp only [detectBreak, armHeader, apply_ite Uart.status, ite_self]
  simp only [apply_ite (BitVec.getLsbD · k), h7, ite_self]

theorem receive_status (hk : k ≠ 2 ∧ k ≠ 3 ∧ k ≠ 5 ∧ k ≠ 6) :
    (receive s n).status.getLsbD k = n.status.getLsbD k := by
  have h (j : Nat) (hj : j < 32) (hkj : k ≠ j) :
      (setBit n.status j true).getLsbD k = n.status.getLsbD k := by
    rw [getLsbD_setBit _ _ _ _ hj, if_neg hkj]
  simp only [receive, rxIdle, rxSample, startFrame, countIdle, sampleBit, finishFrame,
    captureHeader, apply_ite Uart.status, ite_self]
  simp only [apply_ite (BitVec.getLsbD · k), h 2 (by decide) hk.1, h 3 (by decide) hk.2.1,
    h 5 (by decide) hk.2.2.1, h 6 (by decide) hk.2.2.2, ite_self]

-- A complete character that finds the RX FIFO full raises the overrun bit.
theorem receive_overrun (hp : (rxPush s).isSome) (hf : s.rxFifo.wideFull) :
    (receive s n).status.getLsbD 3 = true := by
  have hc := Option.isSome_ite.mp hp
  simp only [Bool.and_eq_true, Bool.not_eq_true', decide_eq_true_eq] at hc
  obtain ⟨⟨⟨⟨⟨⟨he, hb⟩, hd⟩, hl⟩, hx⟩, hm⟩, hh⟩ := hc
  simp only [receive, rxSample, finishFrame, he, hb, hd, hl, hx, hm, hh, hf, Bool.not_true,
    Bool.false_eq_true, ↓reduceIte]
  exact (getLsbD_setBit _ _ _ _ (by decide)).trans (if_pos rfl)

-- The FIFO bits of STATUS show the state before the edge.
theorem posedge_status_fifos : (posedge s i).status.getLsbD 0 = !s.rxFifo.empty ∧
    (posedge s i).status.getLsbD 1 = !s.txFifo.wideFull := by
  unfold posedge
  rw [detectBreak_status (by decide), detectBreak_status (by decide), receive_status (by decide),
    receive_status (by decide), transmit_status (by decide), transmit_status (by decide)]
  simp only [startBreak, apply_ite Uart.status, ite_self]
  simp [statusBits, getLsbD_setBit, -BitVec.getLsbD_eq_getElem]

theorem posedge_overrun (hp : (rxPush s).isSome) (hf : s.rxFifo.wideFull) :
    (posedge s i).status.getLsbD 3 = true := by
  unfold posedge
  rw [detectBreak_status (by decide)]
  exact receive_overrun hp hf

end Uart

/-! ## SPI -/

namespace Spi

variable {s n : Spi} {i : Inputs} {b : BusAccess 6} {miso : Bool}

/-- A write to TXDATA. -/
def txPush (b : BusAccess 6) : Option Byte :=
  if b.write && b.addrWord == 0x3#6 then some (b.wdata.setWidth 8) else none

/-- A read of RXDATA. -/
def rxPop (b : BusAccess 6) : Bool := b.read && b.addrWord == 0x4#6

def rxPush (s : Spi) (miso : Bool) : Option Byte :=
  if s.samplesLastBit then some (s.receivedByte miso) else none

theorem busWrite_txFifo : (busWrite s b n).txFifo =
    (if s.txFifo.wideFull then none else txPush b).elim n.txFifo
      (n.txFifo.pushAt s.txFifo.head) := by
  simp only [busWrite, writeData, writeIrqStatus, txPush, apply_ite Spi.txFifo, ite_self]
  by_cases hw : b.write <;> by_cases ha : b.addrWord = 0x3#6 <;>
    by_cases hf : s.txFifo.wideFull <;> simp [hw, ha, hf]

theorem busWrite_rxFifo : (busWrite s b n).rxFifo = n.rxFifo := by
  simp only [busWrite, writeData, writeIrqStatus, apply_ite Spi.rxFifo, ite_self]

theorem busRead_fifos : (busRead s b n).txFifo = n.txFifo ∧ (busRead s b n).rxFifo =
    if rxPop b && !s.rxFifo.empty then n.rxFifo.popAt s.rxFifo.tail else n.rxFifo := by
  simp only [busRead, rxPop, apply_ite Spi.txFifo, apply_ite Spi.rxFifo, ite_self, true_and]
  rfl

theorem startTransfer_fifos : (startTransfer s n).rxFifo = n.rxFifo ∧ (startTransfer s n).txFifo =
    if s.takesTxByte then n.txFifo.popAt s.txFifo.tail else n.txFifo := by
  simp only [startTransfer, takesTxByte, apply_ite Spi.txFifo, apply_ite Spi.rxFifo, ite_self,
    true_and]
  by_cases hg : !s.busy && s.ctrlEnable && !s.txFifo.empty <;>
    by_cases hc : s.csSelect.extractLsb' 0 4 = 0#4 <;> simp [hg, hc]

theorem shiftBits_fifos : (shiftBits s miso n).txFifo = n.txFifo ∧ (shiftBits s miso n).rxFifo =
    (if s.rxFifo.wideFull then none else rxPush s miso).elim n.rxFifo
      (n.rxFifo.pushAt s.rxFifo.head) := by
  simp only [shiftBits, finishByte, rxPush, samplesLastBit, apply_ite Spi.txFifo,
    apply_ite Spi.rxFifo, ite_self, true_and]
  by_cases hb : s.busy <;> by_cases hd : s.divCounter ≥ s.effectiveDiv <;>
    by_cases hp : xor s.sckPhase s.ctrlCpha <;> by_cases hi : s.bitIndex = 0#3 <;>
    by_cases hf : s.rxFifo.wideFull <;> simp [hb, hd, hp, hi, hf]

-- A byte is taken only if there is one.
theorem takesTxByte_eq (s : Spi) : s.takesTxByte = (s.takesTxByte && !s.txFifo.empty) := by
  unfold takesTxByte
  cases s.txFifo.empty <;> simp

theorem posedge_txFifo : (posedge s i).txFifo =
    s.txFifo.next (if s.txFifo.wideFull then none else txPush i.bus) s.takesTxByte := by
  unfold posedge
  rw [shiftBits_fifos.1, startTransfer_fifos.2, busRead_fifos.1, busWrite_txFifo]
  rfl

theorem posedge_rxFifo : (posedge s i).rxFifo =
    s.rxFifo.next (if s.rxFifo.wideFull then none else rxPush s i.miso)
      (rxPop i.bus && !s.rxFifo.empty) := by
  unfold posedge
  rw [shiftBits_fifos.2, startTransfer_fifos.1, busRead_fifos.2, busWrite_rxFifo]
  cases (if s.rxFifo.wideFull then none else rxPush s i.miso) <;>
    cases rxPop i.bus && !s.rxFifo.empty <;> rfl

theorem shiftBits_txOverflow : (shiftBits s miso n).txOverflowFlag = n.txOverflowFlag := by
  simp only [shiftBits, finishByte, apply_ite Spi.txOverflowFlag, ite_self]

theorem startTransfer_txOverflow : (startTransfer s n).txOverflowFlag = n.txOverflowFlag := by
  simp only [startTransfer, apply_ite Spi.txOverflowFlag, ite_self]

theorem busRead_txOverflow : (busRead s b n).txOverflowFlag = n.txOverflowFlag := by
  simp only [busRead, apply_ite Spi.txOverflowFlag, ite_self]

-- A rejected push latches the overflow.
theorem posedge_txOverflow (hp : (txPush i.bus).isSome) (hf : s.txFifo.wideFull) :
    (posedge s i).txOverflowFlag = true := by
  have hc := Option.isSome_ite.mp hp
  rw [Bool.and_eq_true, beq_iff_eq] at hc
  unfold posedge
  rw [shiftBits_txOverflow, startTransfer_txOverflow, busRead_txOverflow]
  simp [busWrite, writeData, hc.1, hc.2, hf]

theorem posedge_rxOverflow (hp : (rxPush s i.miso).isSome) (hf : s.rxFifo.wideFull) :
    (posedge s i).rxOverflowFlag = true := by
  have hc := Option.isSome_ite.mp hp
  simp only [samplesLastBit, Bool.and_eq_true, decide_eq_true_eq, beq_iff_eq] at hc
  obtain ⟨⟨⟨hb, hd⟩, hx⟩, hi⟩ := hc
  simp only [posedge, shiftBits, finishByte, hb, hd, hx, hi, hf, Bool.not_true,
    Bool.false_eq_true, ↓reduceIte]

theorem statusValue_fifos : s.statusValue.getLsbD 0 = (!s.txFifo.wideFull) ∧
    s.statusValue.getLsbD 1 = !s.rxFifo.empty :=
  ⟨getLsbD_concat_zero _ s.txReady,
    (getLsbD_concat_succ _ s.txReady 0).trans (getLsbD_concat_zero _ s.rxReady)⟩

end Spi

/-! ## I2C -/

namespace I2c

variable {s n : I2c} {i : Inputs} {b : BusAccess 6} {sdaIn : Bool}

/-- A write to TXDATA. -/
def txPush (b : BusAccess 6) : Option Byte :=
  if b.write && b.addrWord == 0x5#6 then some (b.wdata.setWidth 8) else none

/-- A read of RXDATA. -/
def rxPop (b : BusAccess 6) : Bool := b.read && b.addrWord == 0x6#6

def rxPush (s : I2c) : Option Byte := if s.storesRxByte then some s.shiftReg else none

theorem busWrite_txFifo : (busWrite s b n).txFifo =
    (if s.txFifo.wideFull then none else txPush b).elim n.txFifo
      (n.txFifo.pushAt s.txFifo.head) := by
  simp only [busWrite, writeData, writeStatus, writeIrqStatus, txPush, apply_ite I2c.txFifo,
    ite_self]
  by_cases hw : b.write <;> by_cases ha : b.addrWord = 0x5#6 <;>
    by_cases hf : s.txFifo.wideFull <;> simp [hw, ha, hf]

theorem busWrite_rxFifo : (busWrite s b n).rxFifo = n.rxFifo := by
  simp only [busWrite, writeData, writeStatus, writeIrqStatus, apply_ite I2c.rxFifo, ite_self]

theorem busRead_fifos : (busRead s b n).txFifo = n.txFifo ∧ (busRead s b n).rxFifo =
    if rxPop b && !s.rxFifo.empty then n.rxFifo.popAt s.rxFifo.tail else n.rxFifo := by
  simp only [busRead, rxPop, apply_ite I2c.txFifo, apply_ite I2c.rxFifo, ite_self, true_and]
  rfl

theorem stateCase_txFifo : (stateCase s sdaIn n).txFifo =
    if s.takesTxByte then n.txFifo.popAt s.txFifo.tail else n.txFifo := by
  unfold stateCase takesTxByte
  cases hs : s.state with
  | idle =>
    simp only [idleState, apply_ite I2c.txFifo, ite_self]
    by_cases he : s.ctrlEnable <;> by_cases h0 : s.cmdReg.getLsbD 0 <;>
      simp [he, h0, -BitVec.getLsbD_eq_getElem]
  | start => simp [startState, apply_ite I2c.txFifo]
  | write => simp [writeState, apply_ite I2c.txFifo]
  | ack => simp [ackState, apply_ite I2c.txFifo]
  | read => simp [readState, storeByte, apply_ite I2c.txFifo]
  | stop => simp [stopState, apply_ite I2c.txFifo]

theorem stateCase_rxFifo : (stateCase s sdaIn n).rxFifo =
    (if s.rxFifo.wideFull then none else rxPush s).elim n.rxFifo
      (n.rxFifo.pushAt s.rxFifo.head) := by
  unfold stateCase rxPush storesRxByte
  cases hs : s.state with
  | idle => simp [idleState, apply_ite I2c.rxFifo]
  | start => simp [startState, apply_ite I2c.rxFifo]
  | write => simp [writeState, apply_ite I2c.rxFifo]
  | ack => simp [ackState, apply_ite I2c.rxFifo]
  | read =>
    simp only [readState, storeByte, apply_ite I2c.rxFifo]
    by_cases hd : s.divDone <;> by_cases hc : s.sclState <;> by_cases hi : s.bitIndex = 0#4 <;>
      by_cases hf : s.rxFifo.wideFull <;> simp [hd, hc, hi, hf]
  | stop => simp [stopState, apply_ite I2c.rxFifo]

-- A byte is taken only if there is one.
theorem takesTxByte_eq (s : I2c) : s.takesTxByte = (s.takesTxByte && !s.txFifo.empty) := by
  unfold takesTxByte
  cases s.txFifo.empty <;> simp

theorem posedge_txFifo : (posedge s i).txFifo =
    s.txFifo.next (if s.txFifo.wideFull then none else txPush i.bus) s.takesTxByte := by
  unfold posedge
  rw [stateCase_txFifo, busRead_fifos.1, busWrite_txFifo]
  rfl

theorem posedge_rxFifo : (posedge s i).rxFifo =
    s.rxFifo.next (if s.rxFifo.wideFull then none else rxPush s)
      (rxPop i.bus && !s.rxFifo.empty) := by
  unfold posedge
  rw [stateCase_rxFifo, busRead_fifos.2, busWrite_rxFifo]
  cases (if s.rxFifo.wideFull then none else rxPush s) <;>
    cases rxPop i.bus && !s.rxFifo.empty <;> rfl

theorem stateCase_txOverflow : (stateCase s sdaIn n).txOverflowFlag = n.txOverflowFlag := by
  unfold stateCase
  cases s.state <;>
    simp [idleState, startState, writeState, ackState, readState, stopState, storeByte,
      apply_ite I2c.txOverflowFlag]

theorem busRead_txOverflow : (busRead s b n).txOverflowFlag = n.txOverflowFlag := by
  simp only [busRead, apply_ite I2c.txOverflowFlag, ite_self]

-- A rejected push latches the overflow.
theorem posedge_txOverflow (hp : (txPush i.bus).isSome) (hf : s.txFifo.wideFull) :
    (posedge s i).txOverflowFlag = true := by
  have hc := Option.isSome_ite.mp hp
  rw [Bool.and_eq_true, beq_iff_eq] at hc
  unfold posedge
  rw [stateCase_txOverflow, busRead_txOverflow]
  simp [busWrite, writeData, hc.1, hc.2, hf]

theorem posedge_rxOverflow (hp : (rxPush s).isSome) (hf : s.rxFifo.wideFull) :
    (posedge s i).rxOverflowFlag = true := by
  have hc := Option.isSome_ite.mp hp
  simp only [storesRxByte, Bool.and_eq_true, beq_iff_eq] at hc
  obtain ⟨⟨⟨hs, hd⟩, hk⟩, hi⟩ := hc
  simp only [posedge, stateCase, hs, readState, storeByte, hd, hk, hi, hf, Bool.not_true,
    Bool.false_eq_true, ↓reduceIte]

theorem statusValue_fifos : s.statusValue.getLsbD 1 = (!s.rxFifo.empty) ∧
    s.statusValue.getLsbD 2 = s.txFifo.empty :=
  ⟨(getLsbD_concat_succ _ s.busyFlag 0).trans (getLsbD_concat_zero _ s.rxReadyFlag),
    (getLsbD_concat_succ _ s.busyFlag 1).trans
      ((getLsbD_concat_succ _ s.rxReadyFlag 0).trans (getLsbD_concat_zero _ s.txEmptyFlag))⟩

end I2c

end QarCore
