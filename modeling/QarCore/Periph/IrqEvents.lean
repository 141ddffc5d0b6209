import QarCore.Periph.Adc
import QarCore.Periph.FaultIrq
import QarCore.Periph.LinDetector
import QarCore.Periph.Queues
import QarCore.Periph.TimerCompare
import QarCore.Periph.Watchdog

/-!
# The events behind the interrupt bits

Each latching event of the five modules sets its bit in the same edge, whatever is written or read in that
cycle.  One event asks for more: the receiver raises the break interrupt only if STATUS shows no break.
-/

namespace QarCore

open Clocked (latch latch_iff latch_of_set firstIn streak)

/-! ## UART -/

namespace Uart

variable {s n : Uart} {i : Inputs} {txMem rxMem : BitVec 3 → Byte} {inp : Nat → Inputs} {t : Nat}

/-- The receiver waits for a start bit and finds the line high. -/
def rxQuiet (s : Uart) : Bool :=
  s.ctrlEnable && !s.rx.busy && !(s.ctrlLinMode && s.lin.waitDelimiter) && s.rx.sync2

/-- The idle counter has reached IDLE_CFG. -/
def reachesIdle (s : Uart) : Bool := s.rxQuiet && s.idleCfg != 0#32 && s.idleCounter ≥ s.idleCfg

theorem idleGap_eq : s.idleGap = (s.reachesIdle && !s.idleIrqPending) := by
  unfold idleGap reachesIdle rxQuiet
  cases s.idleIrqPending <;> simp

-- the note of a reported gap is made by the idle counter only
theorem receive_idlePending : (receive s n).idleIrqPending →
    s.idleGap ∨ n.idleIrqPending ∧ (s.rxQuiet ∨ s.rx.busy) := by
  unfold idleGap rxQuiet
  by_cases he : s.ctrlEnable
  · by_cases hb : s.rx.busy
    · intro h
      refine .inr ⟨?_, .inr hb⟩
      simpa [receive, rxSample, finishFrame, sampleBit, captureHeader, he, hb,
        apply_ite Uart.idleIrqPending] using h
    · by_cases hw : s.ctrlLinMode && s.lin.waitDelimiter
      · simp [receive, rxIdle, he, hb, hw]
      · by_cases hs : s.rx.sync2
        · by_cases hc : s.idleCfg = 0#32 <;> by_cases hp : s.idleIrqPending <;>
            by_cases hg : s.idleCounter ≥ s.idleCfg <;>
            simp [receive, rxIdle, countIdle, he, hb, hw, hs, hc, hp, hg]
        · simp [receive, rxIdle, startFrame, he, hb, hw, hs]
  · simp [receive, he]

theorem posedge_idlePending (h : (posedge s i).idleIrqPending) :
    s.idleGap ∨ s.idleIrqPending ∧ (s.rxQuiet ∨ s.rx.busy) := by
  have hlast : (posedge s i).idleIrqPending = (receive s (transmit s (settled s i))).idleIrqPending := by
    show (detectBreak s _).idleIrqPending = _
    simp only [detectBreak, armHeader, apply_ite Uart.idleIrqPending, ite_self]
    rfl
  have hsame : (transmit s (settled s i)).idleIrqPending → s.idleIrqPending := by
    simp only [transmit, driveBreak, endBreak, txIdle, txShiftOut, countSlaveByte, loadFrame, settled,
      startBreak, statusBits, busRead, busWrite, writeData, writeIrqStatus, writeLinCmd, writeLinSlaveCtrl,
      synchronize, apply_ite Uart.idleIrqPending, ite_self]
    -- only an acknowledgement of bit 3 changes the note
    split_ifs <;> simp
  rw [hlast] at h
  exact (receive_idlePending h).imp id fun hold ↦ ⟨hsame hold.1, hold.2⟩

-- A character begins without the note of an earlier gap.
theorem posedge_busy (h : s.rx.busy → s.idleIrqPending = false) :
    (posedge s i).rx.busy → (posedge s i).idleIrqPending = false := by
  intro hbusy
  rw [← Bool.not_eq_true]
  intro hp
  have hquiet : s.rxQuiet ∧ s.rx.busy = false := by
    rcases posedge_idlePending hp with hgap | ⟨hold, hq | hb⟩
    · rw [idleGap_eq, reachesIdle, Bool.and_eq_true, Bool.and_eq_true, Bool.and_eq_true] at hgap
      have hq := hgap.1.1.1
      simp only [rxQuiet, Bool.and_eq_true, Bool.not_eq_true'] at hq
      exact ⟨hgap.1.1.1, hq.1.1.2⟩
    · have hq' := hq
      simp only [rxQuiet, Bool.and_eq_true, Bool.not_eq_true'] at hq'
      exact ⟨hq, hq'.1.1.2⟩
    · rw [h hb] at hold
      cases hold
  obtain ⟨hq, hb⟩ := hquiet
  simp only [rxQuiet, Bool.and_eq_true, Bool.not_eq_true'] at hq
  obtain ⟨⟨⟨he, -⟩, hw⟩, hs⟩ := hq
  have hseen : s.breakSeen = false := by simp [breakSeen, hs]
  rw [posedge_rx hseen, receive, if_neg (by simp [he]), if_pos (by simp [hb]), rxIdle,
    if_neg (by simp [hw]), if_neg (by simp [hs])] at hbusy
  have hkeep : (countIdle s (transmit s (settled s i))).rx = (transmit s (settled s i)).rx := by
    simp only [countIdle, apply_ite Uart.rx, ite_self]
  rw [hkeep, transmit_rx, settled_rx] at hbusy
  rw [show s.rx.busy = true from hbusy] at hb
  cases hb

-- The first time in a gap that the idle counter reaches IDLE_CFG, the gap has not been reported.
theorem idleGap_of_first (h : firstIn (fun u ↦ (after txMem rxMem inp u).rxQuiet)
    (fun u ↦ (after txMem rxMem inp u).reachesIdle) t) : (after txMem rxMem inp t).idleGap := by
  have hbusy (t : Nat) : (after txMem rxMem inp t).rx.busy →
      (after txMem rxMem inp t).idleIrqPending = false :=
    Clocked.run_invariant (fun s : Uart ↦ s.rx.busy → s.idleIrqPending = false) (fun _ ↦ rfl)
      (fun _ _ ↦ posedge_busy) t
  have hreach : (after txMem rxMem inp t).reachesIdle = true := h.1
  rw [idleGap_eq, hreach, Bool.true_and, Bool.not_eq_true']
  have hstep (u : Nat) (hp : (after txMem rxMem inp (u + 1)).idleIrqPending) :
      (after txMem rxMem inp u).rxQuiet ∧
        ((after txMem rxMem inp u).reachesIdle ∨ (after txMem rxMem inp u).idleIrqPending) := by
    rcases posedge_idlePending hp with hgap | ⟨hold, hq | hb⟩
    · rw [idleGap_eq, Bool.and_eq_true] at hgap
      have hq := hgap.1
      rw [reachesIdle, Bool.and_eq_true, Bool.and_eq_true] at hq
      exact ⟨hq.1.1, .inl hgap.1⟩
    · exact ⟨hq, .inr hold⟩
    · -- a note in the middle of a character
      exact absurd (hold.symm.trans (hbusy u hb)) (by decide)
  exact @Clocked.not_noted_of_firstIn _ _ _ (fun u ↦ (after txMem rxMem inp u).idleIrqPending) rfl hstep h

/-- A break is first seen and its interrupt stays away: STATUS still shows a break, nothing else raises the
bit in this cycle, and the bit is not set from before or is cleared. -/
def breakHidden (s : Uart) (b : BusAccess 4) : Prop :=
  s.status.getLsbD 7 = true ∧ s.endsBreak = false ∧ ¬ (commands b 0 ∧ ¬ commands b 1) ∧
    ¬ (s.irqStatus.getLsbD 4 ∧ ¬ acknowledges b 4 ∧ ¬ commands b 1)

theorem posedge_irq_break (h : s.breakSeen) :
    (posedge s i).irqStatus.getLsbD 4 ↔ ¬ s.breakHidden i.bus := by
  have hset : s.irqSets i.bus 4 = ((s.breakSeen && !s.status.getLsbD 7) || s.endsBreak ||
      (commands i.bus 0 && !commands i.bus 1)) := rfl
  have hclear : s.irqClears i.bus 4 = (acknowledges i.bus 4 || commands i.bus 1) := rfl
  rw [posedge_irq, hset, hclear, h, breakHidden]
  cases s.status.getLsbD 7 <;> cases s.endsBreak <;> cases commands i.bus 0 <;> cases commands i.bus 1 <;>
    cases acknowledges i.bus 4 <;> cases s.irqStatus.getLsbD 4 <;> decide

end Uart

-- A completed conversion sets its bit.
theorem Adc.posedge_irq_of_completes {s : Adc} {i : Adc.Inputs} (h : s.completes) :
    (Adc.posedge s i).irqStatus.getLsbD 0 := by
  simp only [Adc.completes, Bool.and_eq_true, decide_eq_true_eq] at h
  rw [Adc.posedge, Adc.convert, if_neg (by simp [h.1]), if_pos h.2]
  exact (getLsbD_setBit _ _ _ _ (by decide)).trans (if_pos rfl)

/-! ## The five modules -/

/-- What the five modules are fed with. -/
structure Traffic where
  unreset : Periphs.Unreset
  uart : Nat → Uart.Inputs
  spi : Nat → Spi.Inputs
  i2c : Nat → I2c.Inputs
  timer : Nat → BusAccess 6
  adc : Nat → Adc.Inputs

namespace Traffic

variable (x : Traffic) (t : Nat)

def uartAt : Uart := Uart.after x.unreset.uartTx x.unreset.uartRx x.uart t
def spiAt : Spi :=
  Clocked.run Spi.posedge (Spi.reset x.unreset.spiTx x.unreset.spiRx x.unreset.activeTxByte) x.spi t
def i2cAt : I2c := Clocked.run I2c.posedge (I2c.reset x.unreset.i2cTx x.unreset.i2cRx) x.i2c t
def timerAt : Timer := Clocked.run Timer.posedge Timer.reset x.timer t
def adcAt : Adc := Clocked.run Adc.posedge Adc.reset x.adc t

end Traffic

/-- The events that latch an interrupt. -/
inductive IrqEvent
  | uartByte | uartFraming | uartParity | uartOverrun | uartIdle | uartBreak | uartHeader | uartUnderflow
  | spiByte | spiTxOverflow | spiRxOverflow | spiCsError
  | i2cByte | i2cTxOverflow | i2cRxOverflow | i2cNack
  | timerMatch (c : Timer.Channel) | watchdogZero
  | adcComplete

namespace IrqEvent

variable (x : Traffic) (t : Nat)

/-- The event happens in cycle `t`. -/
def happens : IrqEvent → Prop
  -- a byte goes into the FIFO and no break flushes it
  | uartByte => (Uart.rxAccepted (x.uartAt t)).isSome ∧ ¬ (x.uartAt t).breakSeen
  | uartFraming => (x.uartAt t).badFrame
  | uartParity => (x.uartAt t).badParity
  | uartOverrun => (x.uartAt t).overruns
  | uartIdle => firstIn (fun u ↦ (x.uartAt u).rxQuiet) (fun u ↦ (x.uartAt u).reachesIdle) t
  | uartBreak => firstIn (fun u ↦ (x.uartAt u).findsLow) (fun u ↦ (x.uartAt u).breakSeen) t
  | uartHeader => (x.uartAt t).capturesId
  | uartUnderflow => (x.uartAt t).runsDry
  | spiByte => ((x.spiAt t).rxAccepted (x.spi t).miso).isSome
  | spiTxOverflow => (x.spiAt t).txOverflows (x.spi t).bus
  | spiRxOverflow => (x.spiAt t).rxOverflows
  | spiCsError => (x.spiAt t).missesSelect
  | i2cByte => (x.i2cAt t).rxAccepted.isSome
  | i2cTxOverflow => (x.i2cAt t).txOverflows (x.i2c t).bus
  | i2cRxOverflow => (x.i2cAt t).rxOverflows
  | i2cNack => (x.i2cAt t).nacks (x.i2c t).sdaIn
  | timerMatch c => (x.timerAt t).compareMatch c
  | watchdogZero => (x.timerAt t).ticks ∧ (x.timerAt t).wdtEnable ∧ (x.timerAt t).wdtCounter = 1#32
  | adcComplete => (x.adcAt t).completes

/-- The bit of IRQ_STATUS, or of the timer's STATUS. -/
def latched : IrqEvent → Bool
  | uartByte => (x.uartAt t).irqStatus.getLsbD 0
  | uartFraming | uartParity | uartOverrun => (x.uartAt t).irqStatus.getLsbD 2
  | uartIdle => (x.uartAt t).irqStatus.getLsbD 3
  | uartBreak => (x.uartAt t).irqStatus.getLsbD 4
  | uartHeader => (x.uartAt t).irqStatus.getLsbD 5
  | uartUnderflow => (x.uartAt t).irqStatus.getLsbD 6
  | spiByte => (x.spiAt t).irqStatus.getLsbD 0
  | spiTxOverflow => (x.spiAt t).irqStatus.getLsbD 3
  | spiRxOverflow => (x.spiAt t).irqStatus.getLsbD 4
  | spiCsError => (x.spiAt t).irqStatus.getLsbD 5
  | i2cByte => (x.i2cAt t).irqStatus.getLsbD 0
  | i2cTxOverflow => (x.i2cAt t).irqStatus.getLsbD 3
  | i2cRxOverflow => (x.i2cAt t).irqStatus.getLsbD 4
  | i2cNack => (x.i2cAt t).irqStatus.getLsbD 5
  | timerMatch c => (x.timerAt t).status.getLsbD c.statusBit
  | watchdogZero => (x.timerAt t).status.getLsbD 2
  | adcComplete => (x.adcAt t).irqStatus.getLsbD 0

end IrqEvent

variable {x : Traffic} {t : Nat} {e : IrqEvent}

-- an event that is among the causes of a bit sets it, whatever the bus does
theorem uart_latched {k : Nat} (h : (x.uartAt t).irqSets (x.uart t).bus k) :
    (x.uartAt (t + 1)).irqStatus.getLsbD k :=
  Uart.posedge_irq.trans (latch_of_set h)

theorem spi_latched {k : Nat} (h : (x.spiAt t).irqSets (x.spi t) k) :
    (x.spiAt (t + 1)).irqStatus.getLsbD k :=
  Spi.posedge_irq.trans (latch_of_set h)

theorem i2c_latched {k : Nat} (h : (x.i2cAt t).irqSets (x.i2c t) k) :
    (x.i2cAt (t + 1)).irqStatus.getLsbD k :=
  I2c.posedge_irq.trans (latch_of_set h)

-- Every event but a break is latched.
theorem latched_of_happens (h : e.happens x t) (hne : e ≠ .uartBreak) : e.latched x (t + 1) := by
  cases e with
  | uartByte =>
    obtain ⟨hbyte, hno⟩ := h
    exact uart_latched (k := 0) (by simp [Uart.irqSets, hbyte, hno])
  | uartFraming =>
    have hev : (x.uartAt t).badFrame = true := h
    exact uart_latched (k := 2) (by simp [Uart.irqSets, hev])
  | uartParity =>
    have hev : (x.uartAt t).badParity = true := h
    exact uart_latched (k := 2) (by simp [Uart.irqSets, hev])
  | uartOverrun =>
    have hev : (x.uartAt t).overruns = true := h
    exact uart_latched (k := 2) (by simp [Uart.irqSets, hev])
  | uartIdle => exact uart_latched (Uart.idleGap_of_first h)
  | uartBreak => exact absurd rfl hne
  | uartHeader => exact uart_latched h
  | uartUnderflow => exact uart_latched h
  | spiByte => exact spi_latched h
  | spiTxOverflow => exact spi_latched h
  | spiRxOverflow => exact spi_latched h
  | spiCsError => exact spi_latched h
  | i2cByte => exact i2c_latched h
  | i2cTxOverflow => exact i2c_latched h
  | i2cRxOverflow => exact i2c_latched h
  | i2cNack => exact i2c_latched h
  | timerMatch c => exact Timer.tick_status_of_match h
  | watchdogZero =>
    obtain ⟨htick, hen, hone⟩ := h
    have hzero : ((x.timerAt t).ticks && (x.timerAt t).wdtEnable && (x.timerAt t).wdtCounter == 1#32) =
        true := by
      simp [htick, hen, hone]
    exact Timer.tick_wdtExpired.trans (if_pos hzero)
  | adcComplete => exact Adc.posedge_irq_of_completes h

/-- No event of cycle `t` is lost exactly if it does not hide a break that is first seen. -/
theorem events_latched_iff (x : Traffic) (t : Nat) :
    (∀ e : IrqEvent, e.happens x t → e.latched x (t + 1)) ↔
      ¬ (IrqEvent.uartBreak.happens x t ∧ (x.uartAt t).breakHidden (x.uart t).bus) := by
  constructor
  · rintro h ⟨hfirst, hhidden⟩
    exact (Uart.posedge_irq_break hfirst.1).mp (h .uartBreak hfirst) hhidden
  · intro h e hev
    by_cases hne : e = .uartBreak
    · subst hne
      exact (Uart.posedge_irq_break hev.1).mpr fun hhidden ↦ h ⟨hev, hhidden⟩
    · exact latched_of_happens hev hne

/-- Nothing happens outside the UART, which has LIN mode with one cycle to the bit and a break length of
two.  RX is low for three cycles twice, and the interrupt of the first pulse is acknowledged. -/
def twoPulses : Traffic where
  unreset := .zeros
  uart t :=
    { bus :=
        if t = 0 then ⟨true, false, 0x2, 0x21⟩
        else if t = 1 then ⟨true, false, 0x3, 0⟩
        else if t = 2 then ⟨true, false, 0x8, 2⟩
        else if t = 10 then ⟨true, false, 0x5, 0x10⟩
        else ⟨false, false, 0, 0⟩
      rx := !(4 ≤ t && t < 7 || 12 ≤ t && t < 15) }
  spi _ := ⟨⟨false, false, 0, 0⟩, true⟩
  i2c _ := ⟨⟨false, false, 0, 0⟩, true⟩
  timer _ := ⟨false, false, 0, 0⟩
  adc _ := ⟨⟨false, false, 0, 0⟩, 0, 0, 0, 0⟩

/-- The second pulse raises no interrupt. -/
theorem twoPulses_hidden : ¬ ∀ t, ∀ e : IrqEvent, e.happens twoPulses t → e.latched twoPulses (t + 1) := by
  intro h
  have hfirst : ∀ u < 15, 15 ≤ u + streak (fun v ↦ (twoPulses.uartAt v).findsLow) 15 →
      (twoPulses.uartAt u).breakSeen = false := by decide +kernel
  have hseen : (twoPulses.uartAt 15).breakSeen = true := by decide +kernel
  have hclear : (twoPulses.uartAt 16).irqStatus.getLsbD 4 = false := by decide +kernel
  have hbit : (twoPulses.uartAt 16).irqStatus.getLsbD 4 = true := h 15 .uartBreak ⟨hseen, hfirst⟩
  rw [hclear] at hbit
  cases hbit

end QarCore
