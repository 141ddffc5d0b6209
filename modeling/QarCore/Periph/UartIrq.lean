import QarCore.Clocked.Sticky
import QarCore.Periph.LinBreak
import QarCore.Periph.UartFraming

/-!
# The interrupt bits of the UART

Every bit of IRQ_STATUS is a sticky bit.  Seven of them have causes in the hardware, and a cause has the
last word over every access in the same cycle; only a break also takes a byte's interrupt back.
-/

namespace QarCore

open Clocked (latch latch_latch Ring)

/-! One bit of a word that causes and accesses change. -/

section

variable {w x : Word} {j k : Nat} {c : Bool}

theorem getLsbD_raise (hj : j < 32) :
    (if c then setBit w j true else w).getLsbD k = latch (k == j && c) false (w.getLsbD k) := by
  cases c with
  | false => simp
  | true =>
    rw [if_pos rfl, getLsbD_setBit _ _ _ _ hj]
    by_cases hk : k = j <;> simp [hk, latch]

theorem getLsbD_lower (hj : j < 32) :
    (if c then setBit w j false else w).getLsbD k = latch false (k == j && c) (w.getLsbD k) := by
  cases c with
  | false => simp
  | true =>
    rw [if_pos rfl, getLsbD_setBit _ _ _ _ hj]
    by_cases hk : k = j <;> simp [hk]

-- A write-1-to-clear with the mask `x`.
theorem getLsbD_clear :
    (if c then w &&& ~~~x else w).getLsbD k = latch false (c && x.getLsbD k) (w.getLsbD k) := by
  cases c with
  | false => simp
  | true =>
    rw [if_pos rfl, BitVec.getLsbD_and, BitVec.getLsbD_not]
    by_cases hk : k < 32
    · simp [hk, -BitVec.getLsbD_eq_getElem]
    · rw [BitVec.getLsbD_of_ge w k (Nat.le_of_not_lt hk)]
      rfl

end

namespace Uart

variable {s n : Uart} {i : Inputs} {b : BusAccess 4} {k : Nat}

/-! ## Causes and clears -/

/-- A write to IRQ_STATUS with bit `k` set. -/
def acknowledges (b : BusAccess 4) (k : Nat) : Bool := b.write && b.addrWord == 0x5#4 && b.wdata.getLsbD k

/-- The byte of a DATA write, if the full test lets it. -/
def txAccepted (s : Uart) (b : BusAccess 4) : Option Byte := if s.txFifo.wideFull then none else txPush b

/-- The last bit of a frame goes out and no byte waits. -/
def drainsTx (s : Uart) : Bool :=
  s.ctrlEnable && !s.lin.breakActive && s.tx.bitsRemaining == 1#5 && s.tx.counter ≥ s.baudDiv &&
    s.txFifo.empty

/-- The last cycle of a LIN break on TX. -/
def endsBreak (s : Uart) : Bool := s.ctrlEnable && s.lin.breakActive && s.breakEnds

def badFrame (s : Uart) : Bool := s.ctrlEnable && s.endsChar && (s.rx.startError || s.rx.stopError)

def badParity (s : Uart) : Bool :=
  s.ctrlEnable && s.endsChar && !(s.rx.startError || s.rx.stopError) &&
    !parityMatch s.rx.dataLatch s.rx.frame s.rx.parityLatch

/-- A good character finds the RX FIFO full. -/
def overruns (s : Uart) : Bool := (rxPush s).isSome && s.rxFifo.wideFull

/-- The line has been idle for as long as IDLE_CFG says. -/
def idleGap (s : Uart) : Bool :=
  s.ctrlEnable && !s.rx.busy && !(s.ctrlLinMode && s.lin.waitDelimiter) && s.rx.sync2 &&
    s.idleCfg != 0#32 && !s.idleIrqPending && s.idleCounter ≥ s.idleCfg

/-- The ID byte of a LIN header is complete. -/
def capturesId (s : Uart) : Bool :=
  s.ctrlEnable && s.endsChar && !(s.rx.startError || s.rx.stopError) &&
    parityMatch s.rx.dataLatch s.rx.frame s.rx.parityLatch &&
    (s.ctrlLinMode && s.lin.headerState != 0#2) && s.lin.headerState != 1#2

/-- The transmitter can take a byte. -/
def txReady (s : Uart) : Bool :=
  s.ctrlEnable && !s.lin.breakActive && s.tx.bitsRemaining == 0#5 && s.lin.autoState == 0#2

/-- A response needs a byte and there is none. -/
def runsDry (s : Uart) : Bool := s.lin.slaveTxPending && s.txReady && s.txFifo.empty

/-- The causes of bit `k`. -/
def irqSets (s : Uart) (b : BusAccess 4) : Nat → Bool
  | 0 => (rxAccepted s).isSome && !s.breakSeen
  | 1 => s.drainsTx
  | 2 => s.badFrame || s.badParity || s.overruns
  | 3 => s.idleGap
  -- a break on the line only if STATUS does not show one already
  | 4 => (s.breakSeen && !s.status.getLsbD 7) || s.endsBreak || (commands b 0 && !commands b 1)
  | 5 => s.capturesId
  | 6 => s.runsDry
  | _ => false

/-- What clears bit `k`. -/
def irqClears (s : Uart) (b : BusAccess 4) (k : Nat) : Bool :=
  acknowledges b k ||
    match k with
    | 0 => commands b 2 || (rxTakes s b && becomesEmpty s.rxFifo) || s.breakSeen
    | 1 => (txAccepted s b).isSome
    | 4 => commands b 1
    | _ => false

/-! ## The blocks -/

-- The word after a write: DATA, IRQ_STATUS and LIN_CMD reach it.
theorem busWrite_irqStatus (hn : n.irqStatus = s.irqStatus) : (busWrite s b n).irqStatus =
    let w := if b.write && b.addrWord == 0x5#4 then s.irqStatus &&& ~~~b.wdata else s.irqStatus
    let w := if (txAccepted s b).isSome then setBit w 1 false else w
    let w := if commands b 0 then setBit w 4 true else w
    let w := if commands b 1 then setBit w 4 false else w
    if commands b 2 then setBit w 0 false else w := by
  unfold commands txAccepted txPush
  by_cases hw : b.write
  · by_cases h0 : b.addrWord = 0x0#4
    · by_cases hf : s.txFifo.wideFull <;> simp [busWrite, writeData, hw, h0, hf, hn]
    · by_cases h5 : b.addrWord = 0x5#4
      · simp [busWrite, writeIrqStatus, hw, h5, apply_ite Uart.irqStatus]
      · by_cases h9 : b.addrWord = 0x9#4
        · simp [busWrite, writeLinCmd, hw, h9, apply_ite Uart.irqStatus, hn]
        · simp [busWrite, writeLinSlaveCtrl, hw, h0, h5, h9, apply_ite Uart.irqStatus, hn]
  · simp [busWrite, hw, hn]

-- The word after a DATA read.
theorem busRead_irqStatus : (busRead s b n).irqStatus =
    if rxTakes s b && becomesEmpty s.rxFifo then setBit n.irqStatus 0 false else n.irqStatus := by
  have hread : (busRead s b n).irqStatus = if rxTakes s b then
      if becomesEmpty s.rxFifo then setBit n.irqStatus 0 false else n.irqStatus
      else n.irqStatus := by
    simp only [busRead, apply_ite Uart.irqStatus]
    rfl
  rw [hread]
  cases rxTakes s b <;> simp

-- The word after the transmitter.
theorem transmit_irqStatus : (transmit s n).irqStatus =
    let w := if s.drainsTx then setBit n.irqStatus 1 true else n.irqStatus
    let w := if s.endsBreak then setBit w 4 true else w
    if s.runsDry then setBit w 6 true else w := by
  unfold drainsTx endsBreak breakEnds runsDry txReady
  by_cases he : s.ctrlEnable
  · by_cases hb : s.lin.breakActive
    · -- a break is on
      by_cases ht : s.lin.breakTick ≥ s.baudDiv <;>
        by_cases hc : s.lin.breakCounter ≥ s.linBreakLength.setWidth 32 <;>
        simp [transmit, driveBreak, endBreak, he, hb, ht, hc, apply_ite Uart.irqStatus]
    · by_cases hr : s.tx.bitsRemaining = 0#5
      · by_cases ha : s.lin.autoState = 0#2 <;> by_cases hp : s.lin.slaveTxPending <;>
          by_cases hq : s.txFifo.empty <;>
          simp [transmit, txIdle, countSlaveByte, loadFrame, he, hb, hr, ha, hp, hq,
            apply_ite Uart.irqStatus]
      · -- a frame is on its way
        by_cases hc : s.tx.counter ≥ s.baudDiv <;> by_cases hl : s.tx.bitsRemaining = 1#5 <;>
          by_cases hq : s.txFifo.empty <;> simp [transmit, txShiftOut, he, hb, hr, hc, hl, hq]
  · simp [transmit, he]

-- The word after the receiver.
theorem receive_irqStatus : (receive s n).irqStatus =
    let w := if (rxAccepted s).isSome then setBit n.irqStatus 0 true else n.irqStatus
    let w := if s.badFrame || s.badParity || s.overruns then setBit w 2 true else w
    let w := if s.idleGap then setBit w 3 true else w
    if s.capturesId then setBit w 5 true else w := by
  unfold rxAccepted overruns rxPush badFrame badParity idleGap capturesId endsChar samplesBit
  by_cases he : s.ctrlEnable
  · by_cases hb : s.rx.busy
    · by_cases hd : s.rx.counter ≥ s.baudDiv <;> by_cases hl : s.lastBit
      · by_cases hx : s.rx.startError || s.rx.stopError
        · simp [receive, rxSample, finishFrame, sampleBit, he, hb, hd, hl, hx, apply_ite Uart.irqStatus]
        · by_cases hp : parityMatch s.rx.dataLatch s.rx.frame s.rx.parityLatch
          · by_cases hm : s.ctrlLinMode <;> by_cases h0 : s.lin.headerState = 0#2 <;>
              by_cases h1 : s.lin.headerState = 1#2 <;> by_cases hf : s.rxFifo.wideFull <;>
              simp [receive, rxSample, finishFrame, sampleBit, captureHeader, he, hb, hd, hl, hx, hp, hm, h0,
                h1, hf, apply_ite Uart.irqStatus]
          · simp [receive, rxSample, finishFrame, sampleBit, he, hb, hd, hl, hx, hp, apply_ite Uart.irqStatus]
      all_goals simp [receive, rxSample, sampleBit, he, hb, hd, hl, apply_ite Uart.irqStatus]
    · -- the idle receiver
      by_cases hw : s.ctrlLinMode && s.lin.waitDelimiter
      · simp [receive, rxIdle, he, hb, hw]
      · by_cases hs : s.rx.sync2
        · by_cases hc : s.idleCfg = 0#32 <;> by_cases hp : s.idleIrqPending <;>
            by_cases hg : s.idleCounter ≥ s.idleCfg <;>
            simp [receive, rxIdle, countIdle, he, hb, hw, hs, hc, hp, hg]
        · simp [receive, rxIdle, startFrame, he, hb, hw, hs]
  · simp [receive, he]

-- The word after the break detector.
theorem detectBreak_irqStatus : (detectBreak s n).irqStatus =
    let w := if s.breakSeen && !s.status.getLsbD 7 then setBit n.irqStatus 4 true else n.irqStatus
    if s.breakSeen then setBit w 0 false else w := by
  unfold breakSeen
  by_cases hl : s.ctrlLinMode <;> by_cases he : s.ctrlEnable <;> by_cases hs : s.rx.sync2 <;>
    by_cases ht : s.lin.rxTick ≥ s.baudDiv <;>
    by_cases hc : s.lin.rxLowCounter + 1#32 ≥ s.linBreakLength.setWidth 32 <;>
    simp [detectBreak, armHeader, hl, he, hs, ht, hc, apply_ite Uart.irqStatus]

/-! ## The edge -/

-- Each bit of IRQ_STATUS is sticky, and its causes have the last word.
theorem posedge_irq : (posedge s i).irqStatus.getLsbD k =
    latch (s.irqSets i.bus k) (s.irqClears i.bus k) (s.irqStatus.getLsbD k) := by
  have hstart {n : Uart} : (startBreak s (statusBits s n)).irqStatus = n.irqStatus := by
    simp only [startBreak, statusBits, apply_ite Uart.irqStatus, ite_self]
  unfold posedge
  rw [detectBreak_irqStatus, getLsbD_lower (by decide), getLsbD_raise (by decide), receive_irqStatus,
    getLsbD_raise (by decide), getLsbD_raise (by decide), getLsbD_raise (by decide),
    getLsbD_raise (by decide), transmit_irqStatus, getLsbD_raise (by decide), getLsbD_raise (by decide),
    getLsbD_raise (by decide), hstart, busRead_irqStatus, getLsbD_lower (by decide),
    busWrite_irqStatus (s := s) (n := synchronize s i.rx s) rfl, getLsbD_lower (by decide),
    getLsbD_lower (by decide), getLsbD_raise (by decide), getLsbD_lower (by decide), getLsbD_clear]
  simp only [latch_latch]
  rcases k with _ | _ | _ | _ | _ | _ | _ | k
  · simp [latch, irqSets, irqClears, acknowledges, Bool.and_assoc]
  · simp [latch, irqSets, irqClears, acknowledges]
  · simp [latch, irqSets, irqClears, acknowledges]
  · simp [latch, irqSets, irqClears, acknowledges]
  · simp [latch, irqSets, irqClears, acknowledges, Bool.or_assoc]
  · simp [latch, irqSets, irqClears, acknowledges]
  · simp [latch, irqSets, irqClears, acknowledges]
  · simp [latch, irqSets, irqClears, acknowledges]

end Uart

end QarCore
