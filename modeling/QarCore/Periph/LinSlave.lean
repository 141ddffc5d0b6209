import QarCore.Periph.UartIrq

/-!
# LIN slave responses

The response gate from the cycle in which it is armed: it holds the TX FIFO until a header with the
matching ID has been captured, and counts the bytes of the response.  The gate opens for the response
and stays open after it, so whatever else is in the FIFO then leaves as well.
-/

namespace QarCore

namespace Uart

variable {s n : Uart} {i : Inputs} {b : BusAccess 4} {txMem rxMem : BitVec 3 → Byte}
  {inp : Nat → Inputs} {a m t u v : Nat}

/-! ## The response -/

/-- A write that arms the gate, cancels a response or disables the gate. -/
def writesGate (b : BusAccess 4) : Bool :=
  b.write && (b.addrWord == 0x9#4 && (b.wdata.getLsbD 4 || b.wdata.getLsbD 5) ||
    b.addrWord == 0xC#4 && !b.wdata.getLsbD 16)

/-- A write to BAUD or LIN_CTRL. -/
def writesTiming (b : BusAccess 4) : Bool :=
  b.write && (b.addrWord == 0x3#4 || b.addrWord == 0x8#4)

/-- The captured ID is the one the armed gate waits for. -/
def answers (s : Uart) : Bool :=
  s.capturesId && (s.linSlaveEnable && s.lin.slaveArmed && s.linSlaveRespLen != 0#8 &&
    s.rx.dataLatch == s.linSlaveMatchId)

/-- The header frames still to be sent before the FIFO is served. -/
def headerFrames (s : Uart) : Nat :=
  if s.lin.breakActive then 2
  else if s.lin.autoState = 0#2 then 0 else if s.lin.autoState = 1#2 then 2 else 1

/-- The cycles a break in progress still takes. -/
def breakLeft (s : Uart) : Nat :=
  if s.lin.breakActive then
    (s.linBreakLength.toNat - min s.lin.breakCounter.toNat s.linBreakLength.toNat) *
        (s.baudDiv.toNat + 1) +
      (s.baudDiv.toNat - min s.lin.breakTick.toNat s.baudDiv.toNat) + 1
  else 0

/-- The cycles the frame in the serializer still takes. -/
def frameLeft (s : Uart) : Nat :=
  s.tx.bitsRemaining.toNat * (s.baudDiv.toNat + 1) - min s.tx.counter.toNat s.baudDiv.toNat

/-- Enough cycles for a break in progress, the header after it and the bytes of the response. -/
def responseTime (s : Uart) : Nat :=
  s.breakLeft + s.frameLeft +
    (s.headerFrames + s.lin.slaveBytesRemaining.toNat) * (12 * (s.baudDiv.toNat + 1) + 1)

section

variable (txMem rxMem : BitVec 3 → Byte) (inp : Nat → Inputs)

/-- LIN mode with the gate enabled, and no write that takes the gate out of its course. -/
structure Kept (u : Nat) : Prop where
  enabled : (after txMem rxMem inp u).ctrlEnable = true
  linMode : (after txMem rxMem inp u).ctrlLinMode = true
  slaveEnable : (after txMem rxMem inp u).linSlaveEnable = true
  course : writesGate (inp u).bus = false

/-- The first answer from cycle `a` on is in cycle `m`. -/
structure FirstAnswer (a m : Nat) : Prop where
  le : a ≤ m
  answered : (after txMem rxMem inp m).answers
  first : ∀ v, a ≤ v → v < m → ¬ (after txMem rxMem inp v).answers

/-- The length of the response that is answered in cycle `m`. -/
def respLen (m : Nat) : Nat := (after txMem rxMem inp m).linSlaveRespLen.toNat

/-- The bytes that leave the TX FIFO after cycle `m` and before cycle `u`. -/
def taken (m : Nat) : Nat → Nat
  | 0 => 0
  | u + 1 => taken m u + if m < u ∧ (after txMem rxMem inp u).takesTxByte then 1 else 0

/-- A response to which enough bytes are queued: exactly its length, and that in time. -/
structure Exact (m t : Nat) : Prop where
  atMost : ∀ u, m < u → u ≤ t → taken txMem rxMem inp m u ≤ respLen txMem rxMem inp m
  ends : ∀ u, m < u → u ≤ t → (after txMem rxMem inp u).lin.slaveTxPending = false →
    taken txMem rxMem inp m u = respLen txMem rxMem inp m
  inTime : (∀ v, m < v → v < t → ¬ writesTiming (inp v).bus) →
    (∀ v, m ≤ v → v < t → ¬ txWraps (after txMem rxMem inp v) (inp v).bus) →
    m + 1 + (after txMem rxMem inp (m + 1)).responseTime ≤ t →
      taken txMem rxMem inp m t = respLen txMem rxMem inp m

/-- A response that finds the FIFO empty stops and is flagged. -/
structure Underflows (v t : Nat) : Prop where
  stops : ∀ u, v < u → u < t → ¬ (after txMem rxMem inp u).takesTxByte
  irq : (after txMem rxMem inp (v + 1)).irqStatus.getLsbD 6 = true
  status : (after txMem rxMem inp (v + 2)).status.getLsbD 11 = true

/-- What is expected of a gate that is armed in cycle `a`, up to cycle `t`. -/
structure Responds (a t : Nat) : Prop where
  holds : ∀ u, a ≤ u → u < t → (∀ v, a ≤ v → v < u → ¬ (after txMem rxMem inp v).answers) →
    ¬ (after txMem rxMem inp u).takesTxByte
  exact : ∀ m, FirstAnswer txMem rxMem inp a m → m < t →
    respLen txMem rxMem inp m ≤ (after txMem rxMem inp m).txFifo.count → Exact txMem rxMem inp m t
  underflow : ∀ m, FirstAnswer txMem rxMem inp a m → ∀ v, m < v → v < t →
    (after txMem rxMem inp v).runsDry → Underflows txMem rxMem inp v t

/-- No byte is left over when a response is over, and none is lost while it lasts. -/
structure NothingSpare (a t : Nat) : Prop where
  afterLast : ∀ m, FirstAnswer txMem rxMem inp a m →
    respLen txMem rxMem inp m ≤ (after txMem rxMem inp m).txFifo.count → ∀ u, m < u → u < t →
      (after txMem rxMem inp u).lin.slaveTxPending = false → (after txMem rxMem inp u).txReady →
        (after txMem rxMem inp u).txFifo.empty
  afterDry : ∀ m, FirstAnswer txMem rxMem inp a m → ∀ v, m < v →
    (after txMem rxMem inp v).runsDry → ∀ u, v < u → u < t → (after txMem rxMem inp u).txReady →
      (after txMem rxMem inp u).txFifo.empty
  noLoss : ∀ m, FirstAnswer txMem rxMem inp a m →
    respLen txMem rxMem inp m ≤ (after txMem rxMem inp m).txFifo.count → ∀ w, m ≤ w →
      txWraps (after txMem rxMem inp w) (inp w).bus → ∀ u, w < u → u < t →
        ¬ (after txMem rxMem inp u).runsDry

end

/-! ## One edge -/

theorem takesTxByte_iff : s.takesTxByte ↔ s.txReady ∧ ¬ s.txFifo.empty ∧ ¬ s.linSlaveGateBlock := by
  unfold takesTxByte txReady
  cases s.txFifo.empty <;> simp

theorem busWrite_gate (h : writesGate b = false) :
    (busWrite s b n).lin.slaveArmed = n.lin.slaveArmed ∧
    (busWrite s b n).lin.slaveTxPending = n.lin.slaveTxPending ∧
    (busWrite s b n).lin.slaveBytesRemaining = n.lin.slaveBytesRemaining := by
  unfold busWrite
  by_cases hw : b.write
  · rw [if_pos hw]
    by_cases h9 : b.addrWord = 0x9#4
    · have h4 : b.wdata.getLsbD 4 = false ∧ b.wdata.getLsbD 5 = false := by
        simpa [writesGate, hw, h9] using h
      simp only [h9, h4.1, h4.2, BitVec.reduceEq, Bool.false_eq_true, ↓reduceIte, writeLinCmd,
        apply_ite Uart.lin, apply_ite Lin.slaveArmed, apply_ite Lin.slaveTxPending,
        apply_ite Lin.slaveBytesRemaining, ite_self, and_self]
    · by_cases hC : b.addrWord = 0xC#4
      · have h16 : b.wdata.getLsbD 16 = true := by
          simpa [writesGate, hw, hC] using h
        simp only [hC, h16, BitVec.reduceEq, Bool.not_true, Bool.false_eq_true, ↓reduceIte,
          writeLinSlaveCtrl, and_self]
      · simp only [h9, hC, ↓reduceIte, writeData, writeIrqStatus, apply_ite Uart.lin,
          apply_ite Lin.slaveArmed, apply_ite Lin.slaveTxPending, apply_ite Lin.slaveBytesRemaining,
          ite_self, and_self]
  · rw [if_neg hw]
    exact ⟨rfl, rfl, rfl⟩

-- The gate's registers through the blocks before the transmitter.
theorem settled_gate (h : writesGate i.bus = false) :
    (settled s i).lin.slaveArmed = s.lin.slaveArmed ∧
    (settled s i).lin.slaveTxPending = s.lin.slaveTxPending ∧
    (settled s i).lin.slaveBytesRemaining = s.lin.slaveBytesRemaining := by
  have hread {n : Uart} : (busRead s i.bus n).lin = n.lin := by
    simp only [busRead, apply_ite Uart.lin, ite_self]
  have hbus := busWrite_gate (s := s) (n := synchronize s i.rx s) h
  simp only [settled, startBreak, statusBits, apply_ite Uart.lin, apply_ite Lin.slaveArmed,
    apply_ite Lin.slaveTxPending, apply_ite Lin.slaveBytesRemaining, ite_self, hread]
  exact hbus

theorem finishFrame_gate (he : s.ctrlEnable) (hends : s.endsChar) :
    (finishFrame s n).lin.slaveArmed = (if s.answers then false else n.lin.slaveArmed) ∧
    (finishFrame s n).lin.slaveTxPending = (if s.answers then true else n.lin.slaveTxPending) ∧
    (finishFrame s n).lin.slaveBytesRemaining =
      (if s.answers then s.linSlaveRespLen else n.lin.slaveBytesRemaining) := by
  by_cases hx : s.rx.startError || s.rx.stopError
  · have hno : s.answers = false := by simp [answers, capturesId, hx]
    rw [finishFrame, if_pos hx, hno]
    exact ⟨rfl, rfl, rfl⟩
  by_cases hp : parityMatch s.rx.dataLatch s.rx.frame s.rx.parityLatch
  · by_cases hl : s.ctrlLinMode && s.lin.headerState != 0#2
    · rw [finishFrame, if_neg hx, if_neg (by simp [hp]), if_pos hl, captureHeader]
      by_cases h1 : s.lin.headerState = 1#2
      · have hno : s.answers = false := by simp [answers, capturesId, h1]
        rw [if_pos h1, hno]
        exact ⟨rfl, rfl, rfl⟩
      · have hid : s.capturesId = true := by
          unfold capturesId
          rw [he, hends, Bool.not_eq_true _ |>.mp hx, hp, hl, bne_iff_ne.mpr h1]
          rfl
        rw [if_neg h1, answers, hid, Bool.true_and]
        by_cases hm : s.linSlaveEnable && s.lin.slaveArmed && s.linSlaveRespLen != 0#8 &&
            s.rx.dataLatch == s.linSlaveMatchId
        · rw [if_pos hm, if_pos hm, if_pos hm, if_pos hm]
          exact ⟨rfl, rfl, rfl⟩
        · rw [if_neg hm, if_neg hm, if_neg hm, if_neg hm]
          exact ⟨rfl, rfl, rfl⟩
    · have hno : s.answers = false := by simp only [answers, capturesId, hl, Bool.and_false,
        Bool.false_and]
      rw [finishFrame, if_neg hx, if_neg (by simp [hp]), if_neg hl, hno, apply_ite Uart.lin, ite_self]
      exact ⟨rfl, rfl, rfl⟩
  · have hno : s.answers = false := by simp [answers, capturesId, hp]
    rw [finishFrame, if_neg hx, if_pos (by simp [hp]), hno]
    exact ⟨rfl, rfl, rfl⟩

theorem receive_gate : (receive s n).lin.slaveArmed = (if s.answers then false else n.lin.slaveArmed) ∧
    (receive s n).lin.slaveTxPending = (if s.answers then true else n.lin.slaveTxPending) ∧
    (receive s n).lin.slaveBytesRemaining =
      (if s.answers then s.linSlaveRespLen else n.lin.slaveBytesRemaining) := by
  unfold receive
  by_cases he : s.ctrlEnable
  · by_cases hends : s.endsChar
    · have hends' := hends
      simp only [endsChar, samplesBit, Bool.and_eq_true, decide_eq_true_eq] at hends'
      obtain ⟨⟨hb, hc⟩, hl⟩ := hends'
      rw [if_neg (by simp [he]), if_neg (by simp [hb]), rxSample, if_pos hc, if_pos hl]
      have hlin {k : Uart} : (sampleBit s k).lin = k.lin := by
        simp only [sampleBit, apply_ite Uart.lin, ite_self]
      have hfin := finishFrame_gate he hends
        (n := { sampleBit s { n with rx := { n.rx with counter := 0 } } with
          rx := { (sampleBit s { n with rx := { n.rx with counter := 0 } }).rx with
            bitIndex := s.rx.bitIndex + 1 } })
      rw [show ({ sampleBit s { n with rx := { n.rx with counter := 0 } } with
          rx := { (sampleBit s { n with rx := { n.rx with counter := 0 } }).rx with
            bitIndex := s.rx.bitIndex + 1 } } : Uart).lin = n.lin from hlin] at hfin
      exact hfin
    · have hno : s.answers = false := by simp [answers, capturesId, hends]
      by_cases hb : s.rx.busy
      · have hlast : ¬ (s.rx.counter ≥ s.baudDiv ∧ s.lastBit) := by
          intro h
          exact hends (by simp [endsChar, samplesBit, hb, h.1, h.2])
        by_cases hc : s.rx.counter ≥ s.baudDiv
        · have hl : ¬ s.lastBit := fun h ↦ hlast ⟨hc, h⟩
          simp only [he, hb, hc, hl, hno, rxSample, sampleBit, Bool.not_true, Bool.false_eq_true,
            ↓reduceIte, apply_ite Uart.lin, ite_self, and_self]
        · simp only [he, hb, hc, hno, rxSample, Bool.not_true, Bool.false_eq_true, ↓reduceIte,
            and_self]
      · simp only [he, hb, hno, rxIdle, startFrame, countIdle, Bool.not_true, Bool.not_false,
          Bool.false_eq_true, ↓reduceIte, apply_ite Uart.lin, apply_ite Lin.slaveArmed,
          apply_ite Lin.slaveTxPending, apply_ite Lin.slaveBytesRemaining, ite_self, and_self]
  · have hno : s.answers = false := by simp [answers, capturesId, he]
    simp [he, hno]

theorem detectBreak_gate : (detectBreak s n).lin.slaveArmed = n.lin.slaveArmed ∧
    (detectBreak s n).lin.slaveTxPending = n.lin.slaveTxPending ∧
    (detectBreak s n).lin.slaveBytesRemaining = n.lin.slaveBytesRemaining := by
  simp only [detectBreak, armHeader, apply_ite Uart.lin, apply_ite Lin.slaveArmed,
    apply_ite Lin.slaveTxPending, apply_ite Lin.slaveBytesRemaining, ite_self, and_self]

theorem transmit_gate : (transmit s n).lin.slaveArmed = n.lin.slaveArmed ∧
    (transmit s n).lin.slaveTxPending =
      (if s.runsDry ∨ s.takesTxByte ∧ s.lin.slaveTxPending ∧ s.lin.slaveBytesRemaining ≤ 1#8 then false
        else n.lin.slaveTxPending) ∧
    (transmit s n).lin.slaveBytesRemaining =
      (if s.takesTxByte ∧ s.lin.slaveTxPending ∧ ¬ s.lin.slaveBytesRemaining ≤ 1#8 then
        s.lin.slaveBytesRemaining - 1 else n.lin.slaveBytesRemaining) := by
  unfold transmit
  by_cases hr : s.txReady
  · have hr' := hr
    simp only [txReady, Bool.and_eq_true, Bool.not_eq_true', beq_iff_eq] at hr'
    obtain ⟨⟨⟨he, hb⟩, h0⟩, ha⟩ := hr'
    rw [if_neg (by simp [he]), if_neg (by simp [hb]), if_pos h0, txIdle, if_neg (by simp [ha])]
    by_cases hp : s.lin.slaveTxPending
    · by_cases hq : s.txFifo.empty
      · have hno : s.takesTxByte = false := by simp [takesTxByte, hq]
        simp [runsDry, hp, hq, hr, hno]
      · have hyes : s.takesTxByte = true := by
          rw [takesTxByte_iff]
          exact ⟨hr, hq, by simp [linSlaveGateBlock, hp]⟩
        rw [if_neg (by simp [hq]), if_pos (by simp [hq, linSlaveGateBlock, hp])]
        by_cases h1 : s.lin.slaveBytesRemaining ≤ 1#8 <;>
          simp [runsDry, hp, hq, hyes, h1, countSlaveByte, loadFrame]
    · by_cases hf : !s.txFifo.empty && !s.linSlaveGateBlock <;>
        simp [runsDry, hp, hf, countSlaveByte, loadFrame]
  · have hno : s.takesTxByte = false := by
      rw [← Bool.not_eq_true, takesTxByte_iff]
      exact fun h ↦ hr h.1
    simp only [runsDry, hr, hno, Bool.and_false, Bool.false_and, Bool.false_eq_true, false_and,
      or_self, ↓reduceIte]
    by_cases he : s.ctrlEnable
    · by_cases hb : s.lin.breakActive
      · simp only [he, hb, Bool.not_true, Bool.false_eq_true, ↓reduceIte, driveBreak, endBreak,
          apply_ite Uart.lin, apply_ite Lin.slaveArmed, apply_ite Lin.slaveTxPending,
          apply_ite Lin.slaveBytesRemaining, ite_self, and_self]
      · by_cases h0 : s.tx.bitsRemaining = 0#5
        · have ha : s.lin.autoState ≠ 0#2 := by
            intro ha
            exact hr (by simp [txReady, he, hb, h0, ha])
          simp only [he, hb, h0, ha, txIdle, loadFrame, Bool.not_true, Bool.false_eq_true, ↓reduceIte,
            ne_eq, not_false_eq_true, and_self]
        · simp only [he, hb, h0, txShiftOut, Bool.not_true, Bool.false_eq_true, ↓reduceIte,
            apply_ite Uart.lin, ite_self, and_self]
    · simp only [he, Bool.not_false, ↓reduceIte, and_self]

theorem posedge_gate_settled :
    (posedge s i).lin.slaveArmed = (if s.answers then false else (settled s i).lin.slaveArmed) ∧
    (posedge s i).lin.slaveTxPending = (if s.answers then true
      else if s.runsDry ∨ s.takesTxByte ∧ s.lin.slaveTxPending ∧ s.lin.slaveBytesRemaining ≤ 1#8 then false
      else (settled s i).lin.slaveTxPending) ∧
    (posedge s i).lin.slaveBytesRemaining = (if s.answers then s.linSlaveRespLen
      else if s.takesTxByte ∧ s.lin.slaveTxPending ∧ ¬ s.lin.slaveBytesRemaining ≤ 1#8 then
        s.lin.slaveBytesRemaining - 1
      else (settled s i).lin.slaveBytesRemaining) := by
  have ht := transmit_gate (s := s) (n := settled s i)
  have hr := receive_gate (s := s) (n := transmit s (settled s i))
  have hd := detectBreak_gate (s := s) (n := receive s (transmit s (settled s i)))
  rw [ht.1, ht.2.1, ht.2.2] at hr
  rw [hr.1, hr.2.1, hr.2.2] at hd
  exact hd

-- The gate through an edge without a write that concerns it.
theorem posedge_gate (h : writesGate i.bus = false) :
    (posedge s i).lin.slaveArmed = (if s.answers then false else s.lin.slaveArmed) ∧
    (posedge s i).lin.slaveTxPending = (if s.answers then true
      else if s.runsDry ∨ s.takesTxByte ∧ s.lin.slaveTxPending ∧ s.lin.slaveBytesRemaining ≤ 1#8 then false
      else s.lin.slaveTxPending) ∧
    (posedge s i).lin.slaveBytesRemaining = (if s.answers then s.linSlaveRespLen
      else if s.takesTxByte ∧ s.lin.slaveTxPending ∧ ¬ s.lin.slaveBytesRemaining ≤ 1#8 then
        s.lin.slaveBytesRemaining - 1
      else s.lin.slaveBytesRemaining) := by
  have hs := settled_gate (s := s) h
  have hp := posedge_gate_settled (s := s) (i := i)
  rw [hs.1, hs.2.1, hs.2.2] at hp
  exact hp

-- Only LIN_CMD[4] arms the gate, and only with a response length.
theorem posedge_arms (h : (posedge s i).lin.slaveArmed) (hbefore : s.lin.slaveArmed = false) :
    i.bus.write ∧ i.bus.addrWord = 0x9#4 ∧ i.bus.wdata.getLsbD 4 ∧ s.linSlaveEnable ∧
      s.linSlaveRespLen ≠ 0#8 := by
  by_cases hg : writesGate i.bus
  · have hset : (settled s i).lin.slaveArmed := by
      rw [posedge_gate_settled.1] at h
      split at h
      · exact absurd h Bool.false_ne_true
      · exact h
    replace hset : (busWrite s i.bus (synchronize s i.rx s)).lin.slaveArmed := by
      simpa only [settled, startBreak, statusBits, busRead, apply_ite Uart.lin,
        apply_ite Lin.slaveArmed, ite_self] using hset
    simp only [writesGate, Bool.and_eq_true, Bool.or_eq_true, beq_iff_eq, Bool.not_eq_true'] at hg
    obtain ⟨hw, ⟨h9, hbits⟩ | ⟨hC, h16⟩⟩ := hg
    · unfold busWrite at hset
      rw [if_pos hw] at hset
      simp only [h9, BitVec.reduceEq, ↓reduceIte, writeLinCmd] at hset
      by_cases h5 : i.bus.wdata.getLsbD 5
      · rw [if_pos h5] at hset
        exact absurd hset Bool.false_ne_true
      · have h4 : i.bus.wdata.getLsbD 4 := hbits.resolve_right h5
        rw [if_neg h5, if_pos h4] at hset
        simp only [Bool.and_eq_true, bne_iff_ne] at hset
        exact ⟨hw, h9, h4, hset⟩
    · unfold busWrite at hset
      rw [if_pos hw] at hset
      simp only [hC, BitVec.reduceEq, ↓reduceIte, writeLinSlaveCtrl, h16, Bool.not_false] at hset
      exact absurd hset Bool.false_ne_true
  · rw [(posedge_gate (Bool.not_eq_true _ |>.mp hg)).1, hbefore, ite_self] at h
    exact absurd h Bool.false_ne_true

/-- The gate is never armed during a response. -/
def Exclusive (s : Uart) : Prop := ¬ (s.lin.slaveArmed ∧ s.lin.slaveTxPending)

theorem busWrite_exclusive (h : Exclusive n) : Exclusive (busWrite s b n) := by
  have hrest (hg : writesGate b = false) : Exclusive (busWrite s b n) := by
    unfold Exclusive
    rw [(busWrite_gate hg).1, (busWrite_gate hg).2.1]
    exact h
  by_cases hg : writesGate b
  · simp only [writesGate, Bool.and_eq_true, Bool.or_eq_true, beq_iff_eq, Bool.not_eq_true'] at hg
    obtain ⟨hw, ⟨h9, hbits⟩ | ⟨hC, h16⟩⟩ := hg
    · unfold busWrite
      rw [if_pos hw]
      simp only [h9, BitVec.reduceEq, ↓reduceIte, writeLinCmd]
      by_cases h5 : b.wdata.getLsbD 5
      · rw [if_pos h5]
        exact fun hboth ↦ Bool.false_ne_true hboth.1
      · have h4 : b.wdata.getLsbD 4 := hbits.resolve_right h5
        rw [if_neg h5, if_pos h4]
        exact fun hboth ↦ Bool.false_ne_true hboth.2
    · unfold busWrite
      rw [if_pos hw]
      simp only [hC, BitVec.reduceEq, ↓reduceIte, writeLinSlaveCtrl, h16, Bool.not_false]
      exact fun hboth ↦ Bool.false_ne_true hboth.1
  · exact hrest (Bool.not_eq_true _ |>.mp hg)

theorem exclusive_posedge (h : Exclusive s) : Exclusive (posedge s i) := by
  have hsettled : Exclusive (settled s i) := by
    have hbus : Exclusive (busWrite s i.bus (synchronize s i.rx s)) := busWrite_exclusive h
    have hread {n : Uart} : (busRead s i.bus n).lin = n.lin := by
      simp only [busRead, apply_ite Uart.lin, ite_self]
    simp only [Exclusive, settled, startBreak, statusBits, apply_ite Uart.lin,
      apply_ite Lin.slaveArmed, apply_ite Lin.slaveTxPending, ite_self, hread]
    exact hbus
  unfold Exclusive
  rw [posedge_gate_settled.1, posedge_gate_settled.2.1]
  split
  · exact fun hboth ↦ Bool.false_ne_true hboth.1
  · split
    · exact fun hboth ↦ Bool.false_ne_true hboth.2
    · exact hsettled

theorem exclusive_run (u : Nat) : Exclusive (after txMem rxMem inp u) :=
  Clocked.run_invariant Exclusive (fun h ↦ Bool.false_ne_true h.1)
    (fun _ _ h ↦ exclusive_posedge h) u

theorem not_takes_of_armed (ha : s.lin.slaveArmed) (he : s.linSlaveEnable) (hx : Exclusive s) :
    ¬ s.takesTxByte := by
  have hidle : s.lin.slaveTxPending = false := by
    rw [← Bool.not_eq_true]
    exact fun hp ↦ hx ⟨ha, hp⟩
  rw [takesTxByte_iff]
  intro h
  exact h.2.2 (by simp [linSlaveGateBlock, he, ha, hidle])

-- A response that runs dry is flagged in this edge, and in STATUS in the next.
theorem posedge_runsDry (h : s.runsDry) (hx : s.lin.slaveArmed = false) :
    (posedge s i).irqStatus.getLsbD 6 = true ∧ (posedge s i).lin.slaveUnderflow = true := by
  have h' := h
  simp only [runsDry, txReady, Bool.and_eq_true, Bool.not_eq_true', beq_iff_eq] at h'
  obtain ⟨⟨hp, ⟨⟨he, hb⟩, h0⟩, ha⟩, hq⟩ := h'
  have ht : (transmit s (settled s i)).lin.slaveUnderflow = true := by
    rw [transmit, if_neg (by simp [he]), if_neg (by simp [hb]), if_pos h0, txIdle,
      if_neg (by simp [ha]), if_pos (by simp [hp, hq])]
  have hflow {n : Uart} : (detectBreak s (receive s n)).lin.slaveUnderflow = n.lin.slaveUnderflow := by
    -- only an answer takes the flag back, and there is none while a response is due
    simp only [detectBreak, armHeader, receive, rxIdle, rxSample, startFrame, countIdle, sampleBit,
      finishFrame, captureHeader, hx, Bool.and_false, Bool.false_and, Bool.false_eq_true, ↓reduceIte,
      apply_ite Uart.lin, apply_ite Lin.slaveUnderflow, ite_self]
  refine ⟨?_, hflow.trans ht⟩
  rw [posedge_irq]
  exact Clocked.latch_of_set h

theorem posedge_underflow : (posedge s i).status.getLsbD 11 = s.lin.slaveUnderflow := by
  unfold posedge
  rw [detectBreak_status (by decide), receive_status (by decide), transmit_status (by decide)]
  simp only [startBreak, apply_ite Uart.status, ite_self]
  simp [statusBits, getLsbD_setBit, -BitVec.getLsbD_eq_getElem]

-- Bytes are queued or taken, but not lost unless the FIFO wraps.
theorem posedge_txFifo_count (hw : ¬ txWraps s i.bus) :
    s.txFifo.count ≤ (posedge s i).txFifo.count + if s.takesTxByte then 1 else 0 := by
  rw [posedge_txFifo]
  unfold txWraps at hw
  by_cases ht : s.takesTxByte
  · rw [ht, if_pos rfl]
    cases hp : (if s.txFifo.wideFull then none else txPush i.bus) with
    | none =>
      show (s.txFifo.head - s.txFifo.tail).toNat ≤ (s.txFifo.head - (s.txFifo.tail + 1)).toNat + 1
      bv_omega
    | some x =>
      show (s.txFifo.head - s.txFifo.tail).toNat ≤ (s.txFifo.head + 1 - (s.txFifo.tail + 1)).toNat + 1
      bv_omega
  · rw [Bool.not_eq_true _ |>.mp ht, if_neg Bool.false_ne_true]
    cases hp : (if s.txFifo.wideFull then none else txPush i.bus) with
    | none => exact Nat.le_refl _
    | some x =>
      have hsome : (txPush i.bus).isSome := by
        split at hp
        · cases hp
        · rw [hp]
          rfl
      have hne : s.txFifo.count ≠ 15 := fun hc ↦ hw ⟨hc, hsome, ht⟩
      show s.txFifo.count ≤ (s.txFifo.head + 1 - s.txFifo.tail).toNat + 0
      rw [Clocked.Ring.count] at hne ⊢
      bv_omega

/-! ## Time -/

-- BAUD and LIN_CTRL change by bus writes only.
theorem posedge_timing (h : writesTiming i.bus = false) : (posedge s i).baudDiv = s.baudDiv ∧
    (posedge s i).linBreakLength = s.linBreakLength := by
  have hno : writesTo i.bus 0x3#4 = false ∧ writesTo i.bus 0x8#4 = false := by
    rwa [writesTiming, Bool.and_or_distrib_left, Bool.or_eq_false_iff] at h
  obtain ⟨-, hbaud, hlin, -⟩ := posedge_registers (s := s) (i := i)
  rw [hno.1, if_neg Bool.false_ne_true] at hbaud
  rw [hno.2, if_neg Bool.false_ne_true] at hlin
  refine ⟨hbaud, ?_⟩
  unfold linBreakLength
  rw [hlin]

-- A break in progress comes one cycle closer to its end.
theorem posedge_breakLeft (he : s.ctrlEnable) (hb : s.lin.breakActive)
    (ht : writesTiming i.bus = false) : (posedge s i).breakLeft + 1 = s.breakLeft := by
  have hgen := posedge_break_on (i := i) he hb
  unfold breakLeft
  rw [(posedge_timing ht).1, (posedge_timing ht).2, if_pos hb]
  by_cases hend : s.breakEnds
  · rw [if_pos hend] at hgen
    have hact : (posedge s i).lin.breakActive = false := congrArg Generator.active hgen
    simp only [breakEnds, Bool.and_eq_true, decide_eq_true_eq] at hend
    have htick' : s.baudDiv.toNat ≤ s.lin.breakTick.toNat := hend.1
    have hend' : s.linBreakLength.toNat ≤ s.lin.breakCounter.toNat := by
      rw [← show _ = s.linBreakLength.toNat from length_toNat]
      exact hend.2
    rw [hact, if_neg Bool.false_ne_true, Nat.min_eq_right hend', Nat.min_eq_right htick',
      Nat.sub_self, Nat.zero_mul, Nat.sub_self]
  · rw [if_neg hend] at hgen
    have hact : (posedge s i).lin.breakActive = true := congrArg Generator.active hgen
    obtain ⟨hcount, htick⟩ := posedge_breakCount (i := i) he hb hend
    rw [hact, if_pos rfl, hcount, htick]
    by_cases hfull : s.lin.breakTick ≥ s.baudDiv
    · have hfull' : s.baudDiv.toNat ≤ s.lin.breakTick.toNat := hfull
      have hend' : s.lin.breakCounter.toNat < s.linBreakLength.toNat := by
        rw [← show _ = s.linBreakLength.toNat from length_toNat]
        apply BitVec.not_le.mp
        intro hge
        exact hend (by simp [breakEnds, hfull, hge])
      rw [if_pos hfull, if_pos hfull, Nat.min_eq_left hend'.le, Nat.min_eq_left (by omega),
        Nat.min_eq_right hfull', Nat.zero_min, show s.linBreakLength.toNat - s.lin.breakCounter.toNat =
          s.linBreakLength.toNat - (s.lin.breakCounter.toNat + 1) + 1 from by omega, Nat.add_one_mul]
      omega
    · have hfull' : s.lin.breakTick.toNat < s.baudDiv.toNat := BitVec.not_le.mp hfull
      simp only [if_neg hfull, Nat.add_zero]
      omega

theorem posedge_frameLeft (he : s.ctrlEnable) (hb : ¬ s.lin.breakActive)
    (h0 : s.tx.bitsRemaining ≠ 0#5) (ht : writesTiming i.bus = false) :
    (posedge s i).frameLeft + 1 = s.frameLeft := by
  have hpos : s.tx.bitsRemaining.toNat ≠ 0 := by
    intro hz
    exact h0 (BitVec.eq_of_toNat_eq hz)
  have hmul : s.tx.bitsRemaining.toNat * (s.baudDiv.toNat + 1) =
      (s.tx.bitsRemaining.toNat - 1) * (s.baudDiv.toNat + 1) + (s.baudDiv.toNat + 1) := by
    rw [← Nat.succ_mul, show (s.tx.bitsRemaining.toNat - 1).succ = s.tx.bitsRemaining.toNat by omega]
  unfold frameLeft
  rw [(posedge_timing ht).1]
  by_cases hs : s.shiftsBit
  · have hc : s.baudDiv.toNat ≤ s.tx.counter.toNat := by
      simp only [shiftsBit, Bool.and_eq_true, decide_eq_true_eq] at hs
      exact hs.2
    have hsub : (s.tx.bitsRemaining - 1).toNat = s.tx.bitsRemaining.toNat - 1 := by bv_omega
    rw [posedge_tx_shift hs]
    show (s.tx.bitsRemaining - 1).toNat * _ - min 0 _ + 1 = _
    rw [hsub, hmul, Nat.zero_min, Nat.min_eq_right hc]
    omega
  · obtain ⟨hlt, htx⟩ := posedge_tx_wait (i := i) ⟨he, by simpa using hb⟩ h0 hs
    have hc : s.tx.counter.toNat < s.baudDiv.toNat := hlt
    have hstep : (s.tx.counter + 1).toNat = s.tx.counter.toNat + 1 := by bv_omega
    rw [htx]
    show s.tx.bitsRemaining.toNat * _ - min (s.tx.counter + 1).toNat _ + 1 = _
    rw [hstep, hmul]
    omega

-- The auto-header sequencer moves on when a frame is loaded.
theorem posedge_noBreak (he : s.ctrlEnable) (hb : s.lin.breakActive = false)
    (hq : s.txFifo.empty = false) (hg : s.linSlaveGateBlock = false) :
    (posedge s i).lin.breakActive = false := by
  rw [posedge_breakActive_off he hb]
  simp [breakStarts, hq, hg]

theorem frameLeft_le (h : s.tx.bitsRemaining.toNat ≤ 12) :
    s.frameLeft ≤ 12 * (s.baudDiv.toNat + 1) := by
  have hmul := Nat.mul_le_mul_right (s.baudDiv.toNat + 1) h
  unfold frameLeft
  omega

theorem frameLeft_idle (h : s.tx.bitsRemaining = 0#5) : s.frameLeft = 0 := by
  unfold frameLeft
  rw [h]
  show 0 * _ - _ = 0
  omega

-- The header frames behind a break are its own two at the most.
theorem headerFrames_break (hb : s.lin.breakActive) : (posedge s i).headerFrames ≤ s.headerFrames := by
  unfold headerFrames
  rw [if_pos hb]
  split <;> (try split) <;> (try split) <;> omega

theorem headerFrames_load (he : s.ctrlEnable) (hb : s.lin.breakActive = false)
    (hb' : (posedge s i).lin.breakActive = false) (h0 : s.tx.bitsRemaining = 0#5)
    (ha : s.lin.autoState ≠ 0#2) : s.headerFrames = (posedge s i).headerFrames + 1 := by
  have hauto := posedge_autoState (i := i) he hb
  rw [if_pos ⟨h0, ha⟩] at hauto
  unfold headerFrames
  rw [hb, hb', if_neg Bool.false_ne_true, if_neg Bool.false_ne_true, if_neg ha, hauto]
  by_cases h1 : s.lin.autoState = 1#2
  · rw [if_pos h1, if_pos h1]
    rfl
  · rw [if_neg h1, if_neg h1]
    rfl

theorem headerFrames_keep (he : s.ctrlEnable) (hb : s.lin.breakActive = false)
    (hb' : (posedge s i).lin.breakActive = false)
    (hkeep : ¬ (s.tx.bitsRemaining = 0#5 ∧ s.lin.autoState ≠ 0#2)) :
    (posedge s i).headerFrames = s.headerFrames := by
  have hauto := posedge_autoState (i := i) he hb
  rw [if_neg hkeep] at hauto
  unfold headerFrames
  rw [hb, hb', hauto]

-- A response with a byte in the FIFO comes closer to its end.
theorem posedge_responseTime (he : s.ctrlEnable) (hp : s.lin.slaveTxPending)
    (hq : s.txFifo.empty = false) (hx : s.lin.slaveArmed = false)
    (hdue : 1 ≤ s.lin.slaveBytesRemaining.toNat) (hg : writesGate i.bus = false)
    (ht : writesTiming i.bus = false) (hstay : (posedge s i).lin.slaveTxPending) :
    (posedge s i).responseTime < s.responseTime := by
  have hno : ¬ s.answers := by simp [answers, hx]
  have hopen : s.linSlaveGateBlock = false := by simp [linSlaveGateBlock, hp]
  have hbaud := (posedge_timing (s := s) ht).1
  have hbits := posedge_bitsRemaining (s := s) (i := i)
  have hgate := posedge_gate (s := s) hg
  rw [hgate.2.1, if_neg hno] at hstay
  split at hstay
  · exact absurd hstay Bool.false_ne_true
  rename_i hgoes
  unfold responseTime
  rw [hbaud, hgate.2.2, if_neg hno]
  by_cases hb : s.lin.breakActive
  · have hidle : ¬ s.takesTxByte := by simp [takesTxByte, hb]
    have hleft := posedge_breakLeft he hb ht
    have hmul := Nat.mul_le_mul_right (12 * (s.baudDiv.toNat + 1) + 1)
      (Nat.add_le_add_right (headerFrames_break (i := i) hb) s.lin.slaveBytesRemaining.toNat)
    rw [if_neg (fun h ↦ h.2 hb)] at hbits
    rw [if_neg (fun h ↦ hidle h.1), frameLeft_idle hbits]
    omega
  have hoff := Bool.not_eq_true _ |>.mp hb
  have hb' := posedge_noBreak (i := i) he hoff hq hopen
  have hnone : s.breakLeft = 0 ∧ (posedge s i).breakLeft = 0 := by
    unfold breakLeft
    rw [if_neg hb, hb']
    exact ⟨rfl, rfl⟩
  rw [hnone.1, hnone.2]
  by_cases h0 : s.tx.bitsRemaining = 0#5
  · rw [if_pos ⟨he, hb⟩, if_pos h0] at hbits
    by_cases ha : s.lin.autoState = 0#2
    · -- a byte of the response is loaded
      have hyes : s.takesTxByte = true := by
        rw [takesTxByte_iff]
        exact ⟨by simp [txReady, he, hb, h0, ha], by simp [hq], by simp [hopen]⟩
      have hmore : ¬ s.lin.slaveBytesRemaining ≤ 1#8 := fun hle ↦ hgoes (Or.inr ⟨hyes, hp, hle⟩)
      have hsub : s.lin.slaveBytesRemaining.toNat = (s.lin.slaveBytesRemaining - 1).toNat + 1 := by
        bv_omega
      rw [if_pos (Or.inr hyes)] at hbits
      have hle := frameLeft_le (s := posedge s i) (by rw [hbits]; exact bits_le _)
      rw [hbaud] at hle
      rw [if_pos ⟨hyes, hp, hmore⟩, frameLeft_idle h0, headerFrames_keep he hoff hb' fun h ↦ h.2 ha, hsub,
        ← Nat.add_assoc,
        Nat.add_one_mul _ (12 * (s.baudDiv.toNat + 1) + 1)]
      omega
    · -- a byte of the header is loaded
      have hidle : ¬ s.takesTxByte := by simp [takesTxByte, ha]
      rw [if_pos (Or.inl ha)] at hbits
      have hle := frameLeft_le (s := posedge s i) (by rw [hbits]; exact bits_le _)
      rw [hbaud] at hle
      rw [if_neg (fun h ↦ hidle h.1), frameLeft_idle h0, headerFrames_load he hoff hb' h0 ha,
        Nat.add_right_comm _ 1,
        Nat.add_one_mul _ (12 * (s.baudDiv.toNat + 1) + 1)]
      omega
  · have hidle : ¬ s.takesTxByte := by simp [takesTxByte, h0]
    have hleft := posedge_frameLeft he hb h0 ht
    rw [if_neg (fun h ↦ hidle h.1), headerFrames_keep he hoff hb' fun h ↦ h0 h.1]
    omega

/-! ## Runs -/

section

variable (hkept : ∀ u, a ≤ u → u < t → Kept txMem rxMem inp u)
  (harmed : (after txMem rxMem inp a).lin.slaveArmed)

include hkept

include harmed in
-- The gate stays armed until it is answered.
theorem armed_run (hau : a ≤ u) (hut : u ≤ t)
    (hno : ∀ v, a ≤ v → v < u → ¬ (after txMem rxMem inp v).answers) :
    (after txMem rxMem inp u).lin.slaveArmed := by
  induction u, hau using Nat.le_induction with
  | base => exact harmed
  | succ u hu ih =>
    have hprev := ih (by omega) (fun v h1 h2 ↦ hno v h1 (by omega))
    show (posedge (after txMem rxMem inp u) (inp u)).lin.slaveArmed
    rw [(posedge_gate (hkept u hu (by omega)).course).1, if_neg (hno u hu (by omega))]
    exact hprev

include harmed in
theorem holds_run (hau : a ≤ u) (hut : u < t)
    (hno : ∀ v, a ≤ v → v < u → ¬ (after txMem rxMem inp v).answers) :
    ¬ (after txMem rxMem inp u).takesTxByte := by
  exact not_takes_of_armed (armed_run hkept harmed hau (by omega) hno) (hkept u hau hut).slaveEnable
    (exclusive_run u)

omit hkept

/-- After the answer: the gate is not armed, and a response counts its bytes. -/
structure Counts (s : Uart) (taken n : Nat) : Prop where
  unarmed : s.lin.slaveArmed = false
  sum : s.lin.slaveTxPending → taken + s.lin.slaveBytesRemaining.toNat = n
  due : s.lin.slaveTxPending → 1 ≤ s.lin.slaveBytesRemaining.toNat

theorem Counts.not_answers {k l : Nat} (h : Counts s k l) : ¬ s.answers := by
  simp [answers, h.unarmed]

theorem Counts.takes_iff {k l : Nat} (h : Counts s k l) :
    s.takesTxByte ↔ s.txReady ∧ ¬ s.txFifo.empty := by
  rw [takesTxByte_iff]
  simp [linSlaveGateBlock, h.unarmed]

theorem counts_answer (h : s.answers) (hg : writesGate i.bus = false) :
    Counts (posedge s i) 0 s.linSlaveRespLen.toNat := by
  have hlen : s.linSlaveRespLen ≠ 0#8 := by
    simp only [answers, Bool.and_eq_true, bne_iff_ne] at h
    exact h.2.1.2
  refine ⟨?_, ?_, ?_⟩
  · rw [(posedge_gate hg).1, if_pos h]
  · intro _
    rw [(posedge_gate hg).2.2, if_pos h, Nat.zero_add]
  · intro _
    rw [(posedge_gate hg).2.2, if_pos h]
    bv_omega

theorem Counts.posedge {k l : Nat} (h : Counts s k l) (hg : writesGate i.bus = false) :
    Counts (posedge s i) (k + if s.takesTxByte then 1 else 0) l := by
  have hno := h.not_answers
  refine ⟨?_, ?_, ?_⟩
  · rw [(posedge_gate hg).1, if_neg hno]
    exact h.unarmed
  · rw [(posedge_gate hg).2.1, (posedge_gate hg).2.2, if_neg hno, if_neg hno]
    intro hp
    split at hp
    · exact absurd hp Bool.false_ne_true
    rename_i hstay
    have hsum := h.sum hp
    by_cases ht : s.takesTxByte
    · have hmore : ¬ s.lin.slaveBytesRemaining ≤ 1#8 := fun hle ↦ hstay (Or.inr ⟨ht, hp, hle⟩)
      rw [if_pos ht, if_pos ⟨ht, hp, hmore⟩]
      bv_omega
    · rw [if_neg ht, if_neg (fun hc ↦ ht hc.1)]
      exact hsum
  · rw [(posedge_gate hg).2.1, (posedge_gate hg).2.2, if_neg hno, if_neg hno]
    intro hp
    split at hp
    · exact absurd hp Bool.false_ne_true
    have hdue := h.due hp
    split
    · bv_omega
    · exact hdue

theorem taken_early : ∀ u, u ≤ m + 1 → taken txMem rxMem inp m u = 0
  | 0, _ => rfl
  | u + 1, hu => by
    rw [taken, taken_early u (by omega), if_neg (by omega)]

theorem taken_succ (hu : m < u) : taken txMem rxMem inp m (u + 1) =
    taken txMem rxMem inp m u + if (after txMem rxMem inp u).takesTxByte then 1 else 0 := by
  simp [taken, hu]

theorem counts_run (hkept : ∀ u, a ≤ u → u < t → Kept txMem rxMem inp u)
    (hm : FirstAnswer txMem rxMem inp a m) (hmu : m < u) (hut : u ≤ t) :
    Counts (after txMem rxMem inp u) (taken txMem rxMem inp m u) (respLen txMem rxMem inp m) := by
  have hle := hm.le
  induction u, hmu using Nat.le_induction with
  | base =>
    have hstart := counts_answer hm.answered (hkept m hle (by omega)).course
    rw [taken_early (m + 1) (Nat.le_refl _)]
    exact hstart
  | succ u hu ih =>
    have hstep := (ih (by omega)).posedge (hkept u (by omega) (by omega)).course
    rw [taken_succ hu]
    exact hstep

-- A response in progress has its bytes in the FIFO, unless the FIFO has wrapped.
theorem queued_run (hkept : ∀ u, a ≤ u → u < t → Kept txMem rxMem inp u)
    (hm : FirstAnswer txMem rxMem inp a m)
    (hq : respLen txMem rxMem inp m ≤ (after txMem rxMem inp m).txFifo.count)
    (hmu : m < u) (hut : u ≤ t)
    (hw : ∀ w, m ≤ w → w < u → ¬ txWraps (after txMem rxMem inp w) (inp w).bus)
    (hp : (after txMem rxMem inp u).lin.slaveTxPending) :
    (after txMem rxMem inp u).lin.slaveBytesRemaining.toNat ≤ (after txMem rxMem inp u).txFifo.count := by
  have hsum := (counts_run hkept hm hmu hut).sum hp
  suffices hcount : respLen txMem rxMem inp m ≤
      (after txMem rxMem inp u).txFifo.count + taken txMem rxMem inp m u by omega
  clear hsum hp
  induction u, hmu using Nat.le_induction with
  | base =>
    -- in the cycle of the answer the gate still holds
    have ha := hm.answered
    simp only [answers, Bool.and_eq_true] at ha
    have hheld := not_takes_of_armed ha.2.1.1.2 ha.2.1.1.1 (exclusive_run m)
    have hedge := posedge_txFifo_count (hw m (by omega) (by omega))
    rw [if_neg hheld] at hedge
    show _ ≤ (posedge (after txMem rxMem inp m) (inp m)).txFifo.count + _
    omega
  | succ u hu ih =>
    have hedge := posedge_txFifo_count (hw u (by omega) (by omega))
    have hprev := ih (by omega) (fun w h1 h2 ↦ hw w h1 (by omega))
    rw [taken_succ (by omega)]
    show _ ≤ (posedge (after txMem rxMem inp u) (inp u)).txFifo.count + _
    omega

-- What is left of a response once it is over: nothing was missing and nothing follows.
theorem taken_over (hkept : ∀ u, a ≤ u → u < t → Kept txMem rxMem inp u)
    (hm : FirstAnswer txMem rxMem inp a m)
    (hq : respLen txMem rxMem inp m ≤ (after txMem rxMem inp m).txFifo.count)
    (hspare : NothingSpare txMem rxMem inp a t) (hmu : m < u) (hut : u ≤ t)
    (hp : (after txMem rxMem inp u).lin.slaveTxPending = false) :
    taken txMem rxMem inp m u = respLen txMem rxMem inp m := by
  have hle := hm.le
  induction u, hmu using Nat.le_induction with
  | base =>
    have hgate := (posedge_gate (s := after txMem rxMem inp m) (hkept m hle (by omega)).course).2.1
    rw [if_pos hm.answered] at hgate
    exact absurd (hgate.symm.trans hp) (by decide)
  | succ u hu ih =>
    have hc := counts_run hkept hm hu (by omega)
    have hg := (hkept u (by omega) (by omega)).course
    have hgate := (posedge_gate (s := after txMem rxMem inp u) hg).2.1
    rw [if_neg hc.not_answers] at hgate
    replace hgate := hgate.symm.trans hp
    rw [taken_succ (by omega)]
    by_cases hbefore : (after txMem rxMem inp u).lin.slaveTxPending
    · -- the last byte: the FIFO was not empty
      have hdry : ¬ (after txMem rxMem inp u).runsDry := by
        by_cases hw : ∀ w, m ≤ w → w < u → ¬ txWraps (after txMem rxMem inp w) (inp w).bus
        · have hqueued := queued_run hkept hm hq hu (by omega) hw hbefore
          have hdue := hc.due hbefore
          intro hdry
          simp only [runsDry, Bool.and_eq_true] at hdry
          have hzero := Clocked.Ring.count_eq_zero.mpr hdry.2
          omega
        · simp only [not_forall, not_not] at hw
          obtain ⟨w, hmw, hwu, hwrap⟩ := hw
          exact hspare.noLoss m hm hq w hmw hwrap u hwu (by omega)
      have hlast : (after txMem rxMem inp u).takesTxByte ∧
          (after txMem rxMem inp u).lin.slaveTxPending ∧
          (after txMem rxMem inp u).lin.slaveBytesRemaining ≤ 1#8 := by
        by_contra hno
        rw [if_neg (fun h ↦ h.elim hdry hno)] at hgate
        exact absurd (hgate.symm.trans hbefore) (by decide)
      have hsum := hc.sum hbefore
      have hdue := hc.due hbefore
      have hone : (after txMem rxMem inp u).lin.slaveBytesRemaining.toNat ≤ 1 := hlast.2.2
      rw [if_pos hlast.1]
      omega
    · have hover : (after txMem rxMem inp u).lin.slaveTxPending = false :=
        Bool.not_eq_true _ |>.mp hbefore
      have hnone : ¬ (after txMem rxMem inp u).takesTxByte := by
        rw [hc.takes_iff]
        exact fun h ↦ h.2 (hspare.afterLast m hm hq u hu (by omega) hover h.1)
      rw [if_neg hnone]
      exact ih (by omega) hover

-- A response whose bytes are queued is over in time.
theorem over_inTime (hkept : ∀ u, a ≤ u → u < t → Kept txMem rxMem inp u)
    (hm : FirstAnswer txMem rxMem inp a m) (hmt : m < t)
    (hq : respLen txMem rxMem inp m ≤ (after txMem rxMem inp m).txFifo.count)
    (hw : ∀ w, m ≤ w → w < t → ¬ txWraps (after txMem rxMem inp w) (inp w).bus)
    (ht : ∀ v, m < v → v < t → ¬ writesTiming (inp v).bus)
    (htime : m + 1 + (after txMem rxMem inp (m + 1)).responseTime ≤ t) :
    (after txMem rxMem inp t).lin.slaveTxPending = false := by
  have hle := hm.le
  have hrank : ∀ u, m < u → u ≤ t → (after txMem rxMem inp u).lin.slaveTxPending →
      (after txMem rxMem inp u).responseTime + (u - (m + 1)) ≤
        (after txMem rxMem inp (m + 1)).responseTime := by
    intro u hmu hut
    induction u, hmu using Nat.le_induction with
    | base =>
      intro _
      show (after txMem rxMem inp (m + 1)).responseTime + (m + 1 - (m + 1)) ≤ _
      omega
    | succ u hu ih =>
      intro hp
      have hkeeps := hkept u (by omega) (by omega)
      have hc := counts_run hkept hm hu (by omega)
      have hbefore : (after txMem rxMem inp u).lin.slaveTxPending := by
        have hgate := (posedge_gate (s := after txMem rxMem inp u) hkeeps.course).2.1
        rw [if_neg hc.not_answers] at hgate
        replace hgate := hgate.symm.trans hp
        split at hgate
        · exact absurd hgate Bool.false_ne_true
        · exact hgate
      have hdue := hc.due hbefore
      have hqueued := queued_run hkept hm hq hu (by omega) (fun w h1 h2 ↦ hw w h1 (by omega)) hbefore
      have hsome : (after txMem rxMem inp u).txFifo.empty = false := by
        rw [← Bool.not_eq_true, ← Clocked.Ring.count_eq_zero]
        omega
      have hlt := posedge_responseTime hkeeps.enabled hbefore hsome hc.unarmed hdue hkeeps.course
        (Bool.not_eq_true _ |>.mp (ht u hu (by omega))) hp
      have hprev := ih (by omega) hbefore
      show (posedge (after txMem rxMem inp u) (inp u)).responseTime + _ ≤ _
      omega
  rw [← Bool.not_eq_true]
  intro hp
  have hend := hrank t hmt (Nat.le_refl _) hp
  have hdue := (counts_run hkept hm hmt (Nat.le_refl _)).due hp
  have hpos : 1 ≤ (after txMem rxMem inp t).responseTime := by
    have hmul := Nat.mul_le_mul (Nat.le_trans hdue (Nat.le_add_left _
      (after txMem rxMem inp t).headerFrames))
        (Nat.le_add_left 1 (12 * ((after txMem rxMem inp t).baudDiv.toNat + 1)))
    unfold responseTime
    omega
  omega

theorem underflows_of_spare (hkept : ∀ u, a ≤ u → u < t → Kept txMem rxMem inp u)
    (hm : FirstAnswer txMem rxMem inp a m) (hspare : NothingSpare txMem rxMem inp a t)
    (hmv : m < v) (hvt : v < t) (hdry : (after txMem rxMem inp v).runsDry) :
    Underflows txMem rxMem inp v t := by
  have hflag := posedge_runsDry (i := inp v) hdry (counts_run hkept hm hmv (by omega)).unarmed
  refine ⟨?_, hflag.1, ?_⟩
  · intro u hvu hut
    rw [(counts_run hkept hm (by omega) (by omega)).takes_iff]
    exact fun h ↦ h.2 (hspare.afterDry m hm v hmv hdry u hvu hut h.1)
  · show (posedge (after txMem rxMem inp (v + 1)) (inp (v + 1))).status.getLsbD 11 = true
    rw [posedge_underflow]
    exact hflag.2

theorem spare_of_responds (hkept : ∀ u, a ≤ u → u < t → Kept txMem rxMem inp u)
    (hr : Responds txMem rxMem inp a t) : NothingSpare txMem rxMem inp a t := by
  constructor
  · intro m hm hq u hmu hut hp hready
    by_contra hne
    have hexact := hr.exact m hm (by omega) hq
    have htake := (counts_run hkept hm hmu (by omega)).takes_iff.mpr ⟨hready, hne⟩
    have hends := hexact.ends u hmu (by omega) hp
    have hmost := hexact.atMost (u + 1) (by omega) (by omega)
    rw [taken_succ hmu, if_pos htake] at hmost
    omega
  · intro m hm v hmv hdry u hvu hut hready
    by_contra hne
    have hstops := (hr.underflow m hm v hmv (by omega) hdry).stops u hvu hut
    exact hstops ((counts_run hkept hm (by omega) (by omega)).takes_iff.mpr ⟨hready, hne⟩)
  · intro m hm hq w hmw _ u hwu hut hdry
    have hle := hm.le
    have hc := counts_run hkept hm (show m < u by omega) (by omega)
    have hg := (hkept u (by omega) hut).course
    have hp : (after txMem rxMem inp (u + 1)).lin.slaveTxPending = false := by
      show (posedge (after txMem rxMem inp u) (inp u)).lin.slaveTxPending = false
      rw [(posedge_gate hg).2.1, if_neg hc.not_answers, if_pos (Or.inl hdry)]
    have hends := (hr.exact m hm (by omega) hq).ends (u + 1) (by omega) (by omega) hp
    simp only [runsDry, Bool.and_eq_true] at hdry
    have hnone : ¬ (after txMem rxMem inp u).takesTxByte := by
      rw [hc.takes_iff]
      exact fun h ↦ h.2 hdry.2
    rw [taken_succ (by omega), if_neg hnone] at hends
    have hsum := hc.sum hdry.1.1
    have hdue := hc.due hdry.1.1
    omega

/-- From an armed gate on, a response is exactly as long as it should be, and a response that runs dry
stops, exactly if nothing is left in the FIFO when a response is over. -/
theorem responds_iff (txMem rxMem : BitVec 3 → Byte) (inp : Nat → Inputs) (a t : Nat)
    (harmed : (after txMem rxMem inp a).lin.slaveArmed)
    (hkept : ∀ u, a ≤ u → u < t → Kept txMem rxMem inp u) :
    Responds txMem rxMem inp a t ↔ NothingSpare txMem rxMem inp a t := by
  constructor
  · exact spare_of_responds hkept
  · intro hspare
    constructor
    · intro u hau hut hno
      exact holds_run hkept harmed hau hut hno
    · intro m hm hmt hq
      refine ⟨?_, ?_, ?_⟩
      · intro u hmu hut
        by_cases hp : (after txMem rxMem inp u).lin.slaveTxPending
        · have hsum := (counts_run hkept hm hmu hut).sum hp
          omega
        · exact Nat.le_of_eq (taken_over hkept hm hq hspare hmu hut (Bool.not_eq_true _ |>.mp hp))
      · intro u hmu hut hp
        exact taken_over hkept hm hq hspare hmu hut hp
      · intro htime hw hlong
        exact taken_over hkept hm hq hspare hmt (Nat.le_refl _)
          (over_inTime hkept hm hmt hq hw htime hlong)
    · intro m hm v hmv hvt hdry
      exact underflows_of_spare hkept hm hspare hmv hvt hdry

end

/-- The line of a character, three cycles for a bit. -/
def lineOf (c : Byte) (t : Nat) : Bool :=
  if t < 3 then false else if t < 27 then c.getLsbD (t / 3 - 1) else true

/-- LIN mode with BAUD = 2 and a response of one byte to the ID 0x3C; DATA writes in the cycles 3 to `k`;
the gate and the header capture are armed in cycle 5, and the header follows. -/
def slaveHeader (k t : Nat) : Inputs where
  bus :=
    if t = 0 then ⟨true, false, 0x3, 2⟩
    else if t = 1 then ⟨true, false, 0xC, 0x13C01⟩
    else if t = 2 then ⟨true, false, 0x9, 0x14⟩
    else if t ≤ k then ⟨true, false, 0x0, 0xA5⟩
    else if t = 5 then ⟨true, false, 0x2, 0x21⟩
    else ⟨false, false, 0, 0⟩
  rx := if 8 ≤ t && t < 38 then lineOf 0x55 (t - 8) else if 38 ≤ t then lineOf 0x3C (t - 38) else true

theorem slaveHeader_kept (k : Nat) (hk : ∀ u < 102, 6 ≤ u →
      (after (fun _ ↦ 0) (fun _ ↦ 0) (slaveHeader k) u).ctrlEnable = true ∧
      (after (fun _ ↦ 0) (fun _ ↦ 0) (slaveHeader k) u).ctrlLinMode = true ∧
      (after (fun _ ↦ 0) (fun _ ↦ 0) (slaveHeader k) u).linSlaveEnable = true)
    (hbus : ∀ u < 102, 6 ≤ u → writesGate (slaveHeader k u).bus = false) :
    ∀ u, 6 ≤ u → u < 102 → Kept (fun _ ↦ 0) (fun _ ↦ 0) (slaveHeader k) u := by
  intro u h1 h2
  obtain ⟨he, hl, hs⟩ := hk u h2 h1
  exact ⟨he, hl, hs, hbus u h2 h1⟩

/-- One byte queued for a response of one byte. -/
theorem slaveHeader_responds : Responds (fun _ ↦ 0) (fun _ ↦ 0) (slaveHeader 3) 6 102 := by
  have hkept := slaveHeader_kept 3 (by decide +kernel) (by decide +kernel)
  have hans : ∀ u < 102, (after (fun _ ↦ 0) (fun _ ↦ 0) (slaveHeader 3) u).answers → u = 69 := by
    decide +kernel
  have hidle : ∀ u < 102, 69 < u →
      (after (fun _ ↦ 0) (fun _ ↦ 0) (slaveHeader 3) u).txFifo.empty ∨
        u = 70 ∧ (after (fun _ ↦ 0) (fun _ ↦ 0) (slaveHeader 3) u).lin.slaveTxPending := by
    decide +kernel
  have hdry : ∀ u < 102, ¬ (after (fun _ ↦ 0) (fun _ ↦ 0) (slaveHeader 3) u).runsDry := by
    decide +kernel
  refine (responds_iff _ _ _ 6 102 (by decide +kernel) hkept).mpr ⟨?_, ?_, ?_⟩
  · intro m hm _ u hmu hut hp _
    rw [hans m (by omega) hm.answered] at hmu
    refine (hidle u hut hmu).resolve_right ?_
    rw [hp]
    exact fun h ↦ Bool.false_ne_true h.2
  · intro m _ v _ hd u _ hut
    exact absurd hd (hdry v (by omega))
  · intro m _ _ w _ _ u _ hut
    exact hdry u hut

/-- Two bytes queued for a response of one byte: both leave. -/
theorem slaveHeader_overruns : (after (fun _ ↦ 0) (fun _ ↦ 0) (slaveHeader 4) 6).lin.slaveArmed ∧
    (∀ u, 6 ≤ u → u < 102 → Kept (fun _ ↦ 0) (fun _ ↦ 0) (slaveHeader 4) u) ∧
    respLen (fun _ ↦ 0) (fun _ ↦ 0) (slaveHeader 4) 69 = 1 ∧
    taken (fun _ ↦ 0) (fun _ ↦ 0) (slaveHeader 4) 69 102 = 2 ∧
    ¬ Responds (fun _ ↦ 0) (fun _ ↦ 0) (slaveHeader 4) 6 102 := by
  have hlen : respLen (fun _ ↦ 0) (fun _ ↦ 0) (slaveHeader 4) 69 = 1 := by decide +kernel
  have htaken : taken (fun _ ↦ 0) (fun _ ↦ 0) (slaveHeader 4) 69 102 = 2 := by decide +kernel
  have hans : ∀ u < 69, ¬ (after (fun _ ↦ 0) (fun _ ↦ 0) (slaveHeader 4) u).answers := by
    decide +kernel
  refine ⟨by decide +kernel, slaveHeader_kept 4 (by decide +kernel) (by decide +kernel), hlen, htaken, ?_⟩
  intro hr
  have hm : FirstAnswer (fun _ ↦ 0) (fun _ ↦ 0) (slaveHeader 4) 6 69 :=
    ⟨by decide, by decide +kernel, fun v _ h ↦ hans v h⟩
  have hmost := (hr.exact 69 hm (by decide) (by decide +kernel)).atMost 102 (by decide) (Nat.le_refl _)
  rw [hlen, htaken] at hmost
  exact absurd hmost (by decide)

end Uart

end QarCore
