import QarCore.Periph.FaultIrq
import QarCore.Periph.Queues

/-!
# The interrupt bits of the FIFOs

TX empty is cleared by a push, but an event that raises it in the same cycle has the last word.  RX ready
is cleared by the pop that empties the FIFO, unless that pop takes the read pointer past its highest value.
-/

namespace QarCore

open Clocked (Ring latch latch_iff)

namespace Fifo

variable {p : Periphs} {i : Periphs.Inputs} {f : Fifo}

/-- Firmware fills a TX FIFO and the hardware drains it. -/
def isTx : Fifo → Bool
  | uartTx | spiTx | i2cTx => true
  | uartRx | spiRx | i2cRx => false

/-- IRQ_STATUS of the module. -/
def irqStatus (p : Periphs) : Fifo → Word
  | uartTx | uartRx => p.uart.irqStatus
  | spiTx | spiRx => p.spi.irqStatus
  | i2cTx | i2cRx => p.i2c.irqStatus

/-- TX empty or RX ready. -/
def irqBit (f : Fifo) : Nat := if f.isTx then 1 else 0

def irqSets (p : Periphs) (i : Periphs.Inputs) (f : Fifo) : Bool :=
  match f with
  | uartTx | uartRx => p.uart.irqSets i.uart.bus f.irqBit
  | spiTx | spiRx => p.spi.irqSets i.spi f.irqBit
  | i2cTx | i2cRx => p.i2c.irqSets i.i2c f.irqBit

def irqClears (p : Periphs) (i : Periphs.Inputs) (f : Fifo) : Bool :=
  match f with
  | uartTx | uartRx => p.uart.irqClears i.uart.bus f.irqBit
  | spiTx | spiRx => p.spi.irqClears i.spi.bus f.irqBit
  | i2cTx | i2cRx => p.i2c.irqClears i.i2c.bus f.irqBit

/-- The byte that goes into the FIFO. -/
def accepted (p : Periphs) (i : Periphs.Inputs) (f : Fifo) : Option Byte :=
  if (f.ring p).wideFull then none else f.push p i

/-- A byte leaves the FIFO. -/
def takes (p : Periphs) (i : Periphs.Inputs) (f : Fifo) : Bool := f.pop p i && !(f.ring p).empty

/-- The break detector of the UART flushes the FIFO. -/
def breakSeen (p : Periphs) : Fifo → Bool
  | uartRx => p.uart.breakSeen
  | _ => false

/-- The bit of the FIFO agrees with it: TX empty is set only if it is empty, RX ready only if not. -/
def IrqAgrees (p : Periphs) (f : Fifo) : Prop :=
  if f.isTx then (f.irqStatus p).getLsbD 1 → (f.ring p).empty
  else (f.ring p).empty → (f.irqStatus p).getLsbD 0 = false

/-- The cycles that make the bit wrong.  For a TX FIFO: a push meets the event that raises TX empty.  For an
RX FIFO: the pop of the only byte takes the read pointer from its highest value to zero, or a byte closes
the circle of an overfull FIFO. -/
def irqRace (p : Periphs) (i : Periphs.Inputs) (f : Fifo) : Prop :=
  if f.isTx then f.irqSets p i ∧ (f.accepted p i).isSome
  else ¬ f.breakSeen p ∧
    ((f.accepted p i).isSome ∧ ¬ f.takes p i ∧ (f.ring p).count + 1 = 2 ^ (f.bits + 1) ∨
      f.accepted p i = none ∧ f.takes p i ∧ (f.ring p).count = 1 ∧
        (f.ring p).tail.toNat + 1 = 2 ^ (f.bits + 1) ∧ (f.irqStatus p).getLsbD 0)

/-! ## One edge -/

theorem irq_posedge : (f.irqStatus (p.posedge i)).getLsbD f.irqBit =
    latch (f.irqSets p i) (f.irqClears p i) ((f.irqStatus p).getLsbD f.irqBit) := by
  cases f with
  | uartTx => exact Uart.posedge_irq
  | uartRx => exact Uart.posedge_irq
  | spiTx => exact Spi.posedge_irq
  | spiRx => exact Spi.posedge_irq
  | i2cTx => exact I2c.posedge_irq
  | i2cRx => exact I2c.posedge_irq

theorem not_empty_of_takes (h : f.takes p i) : (f.ring p).empty = false := by
  rw [takes, Bool.and_eq_true, Bool.not_eq_true'] at h
  exact h.2

-- the event that raises TX empty: the last byte goes, or the last bit of it when nothing is left
theorem drained_of_irqSets (htx : f.isTx) (h : f.irqSets p i) :
    f.takes p i ∧ (f.ring p).count = 1 ∨ (f.ring p).empty := by
  cases f with
  | uartTx =>
    right
    have hd : p.uart.drainsTx := h
    simp only [Uart.drainsTx, Bool.and_eq_true] at hd
    exact hd.2
  | spiTx =>
    left
    have hd : p.spi.drainsTx := h
    rw [Spi.drainsTx, Bool.and_eq_true, Uart.becomesEmpty_iff (by decide)] at hd
    have htake := hd.1
    rw [Spi.takesTxByte_eq] at htake
    exact ⟨htake, hd.2.1⟩
  | i2cTx =>
    right
    have hd : p.i2c.drainsTx := h
    simp only [I2c.drainsTx, Bool.and_eq_true] at hd
    exact hd.2
  | uartRx => cases htx
  | spiRx => cases htx
  | i2cRx => cases htx

theorem irqClears_of_accepted (htx : f.isTx) (h : (f.accepted p i).isSome) : f.irqClears p i := by
  cases f with
  | uartTx =>
    have ha : (p.uart.txAccepted i.uart.bus).isSome := h
    simp [irqClears, irqBit, isTx, Uart.irqClears, ha]
  | spiTx =>
    have ha : (p.spi.txAccepted i.spi.bus).isSome := h
    simp [irqClears, irqBit, isTx, Spi.irqClears, ha]
  | i2cTx =>
    have ha : (p.i2c.txAccepted i.i2c.bus).isSome := h
    simp [irqClears, irqBit, isTx, I2c.irqClears, ha]
  | uartRx => cases htx
  | spiRx => cases htx
  | i2cRx => cases htx

theorem irqSets_rx (hrx : ¬ f.isTx) (hb : ¬ f.breakSeen p) : f.irqSets p i = (f.accepted p i).isSome := by
  cases f with
  | uartRx =>
    have hno : p.uart.breakSeen = false := by simpa [breakSeen] using hb
    show ((Uart.rxAccepted p.uart).isSome && !p.uart.breakSeen) = _
    rw [hno, Bool.not_false, Bool.and_true]
    rfl
  | spiRx => rfl
  | i2cRx => rfl
  | uartTx => exact absurd rfl hrx
  | spiTx => exact absurd rfl hrx
  | i2cTx => exact absurd rfl hrx

-- the read that takes the byte is no access to another register
theorem irqClears_of_takes (hrx : ¬ f.isTx) (hb : ¬ f.breakSeen p) (ht : f.takes p i) :
    f.irqClears p i = Uart.becomesEmpty (f.ring p) := by
  have htake := ht
  rw [takes, Bool.and_eq_true] at ht
  cases f with
  | uartRx =>
    have hno : p.uart.breakSeen = false := by simpa [breakSeen] using hb
    have haddr : i.uart.bus.addrWord = 0x0#4 := by
      have hpop : Uart.rxPop i.uart.bus := ht.1
      rw [Uart.rxPop, Bool.and_eq_true, beq_iff_eq] at hpop
      exact hpop.2
    have htk : Uart.rxTakes p.uart i.uart.bus := htake
    have hack : Uart.acknowledges i.uart.bus 0 = false := by simp [Uart.acknowledges, haddr]
    have hcmd : Uart.commands i.uart.bus 2 = false := by simp [Uart.commands, haddr]
    show (Uart.acknowledges i.uart.bus 0 || (Uart.commands i.uart.bus 2 ||
      (Uart.rxTakes p.uart i.uart.bus && Uart.becomesEmpty p.uart.rxFifo) || p.uart.breakSeen)) = _
    rw [hack, hcmd, htk, hno, Bool.false_or, Bool.false_or, Bool.true_and, Bool.or_false]
    rfl
  | spiRx =>
    have haddr : i.spi.bus.addrWord = 0x4#6 := by
      have hpop : Spi.rxPop i.spi.bus := ht.1
      rw [Spi.rxPop, Bool.and_eq_true, beq_iff_eq] at hpop
      exact hpop.2
    have htk : p.spi.rxTakes i.spi.bus := htake
    have hack : Spi.acknowledges i.spi.bus 0 = false := by simp [Spi.acknowledges, haddr]
    show (Spi.acknowledges i.spi.bus 0 ||
      (p.spi.rxTakes i.spi.bus && Uart.becomesEmpty p.spi.rxFifo)) = _
    rw [hack, htk, Bool.false_or, Bool.true_and]
    rfl
  | i2cRx =>
    have haddr : i.i2c.bus.addrWord = 0x6#6 := by
      have hpop : I2c.rxPop i.i2c.bus := ht.1
      rw [I2c.rxPop, Bool.and_eq_true, beq_iff_eq] at hpop
      exact hpop.2
    have htk : p.i2c.rxTakes i.i2c.bus := htake
    have hack : I2c.acknowledges i.i2c.bus 0 = false := by simp [I2c.acknowledges, haddr]
    show (I2c.acknowledges i.i2c.bus 0 ||
      (p.i2c.rxTakes i.i2c.bus && Uart.becomesEmpty p.i2c.rxFifo)) = _
    rw [hack, htk, Bool.false_or, Bool.true_and]
    rfl
  | uartTx => exact absurd rfl hrx
  | spiTx => exact absurd rfl hrx
  | i2cTx => exact absurd rfl hrx

-- A TX FIFO.
theorem irqAgrees_tx (htx : f.isTx) (h : f.IrqAgrees p) :
    f.IrqAgrees (p.posedge i) ↔ ¬ f.irqRace p i := by
  have hflush : f.flushes p i = false := by cases f <;> first | rfl | cases htx
  have hbit : f.irqBit = 1 := if_pos htx
  have hirq := irq_posedge (f := f) (p := p) (i := i)
  have hbits : 2 < 2 ^ (f.bits + 1) := by cases f <;> decide
  rw [hbit] at hirq
  rw [IrqAgrees, if_pos htx] at h
  rw [IrqAgrees, if_pos htx, irqRace, if_pos htx, hirq, ring_posedge hflush]
  apply Ring.drained_next_iff not_empty_of_takes (irqClears_of_accepted htx) _ _ h
  · intro hset
    rcases drained_of_irqSets htx hset with ⟨-, hone⟩ | hempty
    · omega
    · have hzero := Ring.count_eq_zero.mpr hempty
      omega
  · intro hset _
    show ((f.ring p).next none (f.takes p i)).empty
    rw [Ring.empty_next_iff not_empty_of_takes]
    rcases drained_of_irqSets htx hset with ⟨htake, hone⟩ | hempty
    · simpa [htake] using hone
    · have hno : f.takes p i = false := by simp [takes, hempty]
      simpa [hno] using hempty

-- An RX FIFO that is not flushed.
theorem irqAgrees_rx (hrx : ¬ f.isTx) (hflush : f.flushes p i = false) (h : f.IrqAgrees p) :
    f.IrqAgrees (p.posedge i) ↔ ¬ f.irqRace p i := by
  have hb : ¬ f.breakSeen p := by
    cases f with
    | uartRx =>
      have hno : (Uart.flushesRx p.uart i.uart.bus) = false := hflush
      simp only [Uart.flushesRx, Bool.or_eq_false_iff] at hno
      show ¬ p.uart.breakSeen = true
      rw [hno.2]
      decide
    | _ => exact Bool.false_ne_true
  have hbit : f.irqBit = 0 := if_neg hrx
  have hirq := irq_posedge (f := f) (p := p) (i := i)
  have hwidth : f.bits < 31 := by cases f <;> decide
  have htail := (f.ring p).tail.isLt
  rw [hbit] at hirq
  rw [IrqAgrees, if_neg hrx] at h
  rw [IrqAgrees, if_neg hrx, irqRace, if_neg hrx, hirq, ring_posedge hflush]
  refine (Ring.ready_next_iff (not_empty_of_takes (i := i)) (irqSets_rx (i := i) hrx hb) h).trans ?_
  have hlast : f.accepted p i = none ∧ f.takes p i ∧ (f.ring p).count = 1 ∧
        (f.irqStatus p).getLsbD 0 ∧ f.irqClears p i = false ↔
      f.accepted p i = none ∧ f.takes p i ∧ (f.ring p).count = 1 ∧
        (f.ring p).tail.toNat + 1 = 2 ^ (f.bits + 1) ∧ (f.irqStatus p).getLsbD 0 := by
    refine and_congr_right fun _ ↦ and_congr_right fun ht ↦ and_congr_right fun hone ↦ ?_
    have hempty := Uart.becomesEmpty_iff (r := f.ring p) hwidth
    rw [irqClears_of_takes hrx hb ht, ← Bool.not_eq_true, hempty, and_comm]
    refine and_congr_left fun _ ↦ ?_
    omega
  rw [hlast]
  simp [hb]

-- A break clears the bit, whatever it leaves in the FIFO.
theorem irqAgrees_break (hb : f.breakSeen p) : f.IrqAgrees (p.posedge i) ∧ ¬ f.irqRace p i := by
  cases f with
  | uartRx =>
    have hseen : p.uart.breakSeen = true := hb
    refine ⟨fun _ ↦ ?_, fun hr ↦ hr.1 hb⟩
    show (p.uart.posedge i.uart).irqStatus.getLsbD 0 = false
    rw [Uart.posedge_irq]
    simp [Uart.irqSets, Uart.irqClears, hseen]
  | _ => cases hb

-- A flush by LIN_CMD clears the bit too, but a byte that comes in the same cycle sets it and stays.
theorem irqAgrees_linCmd (hcmd : Uart.flushesRx p.uart i.uart.bus) (hb : ¬ p.uart.breakSeen) :
    uartRx.IrqAgrees (p.posedge i) ↔ ¬ uartRx.irqRace p i := by
  obtain ⟨hhead, htail⟩ := Uart.posedge_linCmd hcmd hb
  rw [Bool.not_eq_true] at hb
  have hc := hcmd
  simp only [Uart.flushesRx, hb, Bool.or_false, Bool.and_eq_true, beq_iff_eq] at hc
  obtain ⟨⟨hw, haddr⟩, h2⟩ := hc
  -- the write is no DATA read
  have hno : takes p i uartRx = false := by
    show (Uart.rxPop i.uart.bus && !p.uart.rxFifo.empty) = false
    simp [Uart.rxPop, haddr]
  have hclear : p.uart.irqClears i.uart.bus 0 := by
    simp [Uart.irqClears, Uart.commands, hw, haddr, h2, -BitVec.getLsbD_eq_getElem]
  have hset : p.uart.irqSets i.uart.bus 0 = (Uart.rxAccepted p.uart).isSome := by
    simp [Uart.irqSets, hb]
  have hrace : uartRx.irqRace p i ↔ (Uart.rxAccepted p.uart).isSome ∧ p.uart.rxFifo.count + 1 = 16 := by
    show ¬ p.uart.breakSeen = true ∧ ((Uart.rxAccepted p.uart).isSome ∧ ¬ takes p i uartRx ∧
      p.uart.rxFifo.count + 1 = 16 ∨ _ ∧ takes p i uartRx ∧ _) ↔ _
    simp [hb, hno]
  have hagrees : uartRx.IrqAgrees (p.posedge i) ↔ ((p.uart.posedge i.uart).rxFifo.empty →
      (p.uart.posedge i.uart).irqStatus.getLsbD 0 = false) := Iff.rfl
  rw [hagrees, hrace, Uart.posedge_irq, hset, hclear, Ring.empty, hhead, htail]
  by_cases ha : (Uart.rxAccepted p.uart).isSome
  · -- the pointers meet exactly if the byte closes the circle
    have hcount : p.uart.rxFifo.head + 1 = p.uart.rxFifo.tail ↔ p.uart.rxFifo.count + 1 = 16 := by
      rw [Ring.count]
      constructor
      · intro h
        bv_omega
      · intro h
        bv_omega
    simpa [ha, latch] using not_congr hcount
  · simp [ha, latch]

-- One edge keeps the bit of a FIFO in agreement unless it is one of the cycles above.
theorem irqAgrees_posedge (h : f.IrqAgrees p) : f.IrqAgrees (p.posedge i) ↔ ¬ f.irqRace p i := by
  by_cases htx : f.isTx
  · exact irqAgrees_tx htx h
  · by_cases hb : f.breakSeen p
    · obtain ⟨hagrees, hno⟩ := irqAgrees_break (i := i) hb
      exact iff_of_true hagrees hno
    · by_cases hflush : f.flushes p i
      · cases f with
        | uartRx => exact irqAgrees_linCmd hflush hb
        | _ => cases hflush
      · rw [Bool.not_eq_true] at hflush
        exact irqAgrees_rx htx hflush h

end Fifo

/-! ## Runs -/

/-- The FIFO bits of all three modules agree with the FIFOs in every state of a run exactly if no cycle of
it makes one of them wrong. -/
theorem irqAgrees_iff (m : Periphs.Unreset) (inp : Nat → Periphs.Inputs) :
    (∀ t f, Fifo.IrqAgrees (Periphs.run m inp t) f) ↔
      ∀ t f, ¬ Fifo.irqRace (Periphs.run m inp t) (inp t) f := by
  constructor
  · intro h t f
    exact (Fifo.irqAgrees_posedge (h t f)).mp (h (t + 1) f)
  · intro h t f
    induction t with
    | zero =>
      -- after a reset the FIFOs are empty and the bits clear
      cases f with
      | uartTx => exact fun _ ↦ rfl
      | uartRx => exact fun _ ↦ (by decide : (0#32).getLsbD 0 = false)
      | spiTx => exact fun _ ↦ rfl
      | spiRx => exact fun _ ↦ (by decide : (0#32).getLsbD 0 = false)
      | i2cTx => exact fun _ ↦ rfl
      | i2cRx => exact fun _ ↦ (by decide : (0#32).getLsbD 0 = false)
    | succ t ih => exact (Fifo.irqAgrees_posedge ih).mpr (h t f)

namespace Periphs

/-- One cycle to the bit, and two bytes for the UART: the second comes with the last bit of the first. -/
def lateByte : Nat → Inputs
  | 0 => { quietInputs with uart := ⟨⟨true, false, 0x3, 0⟩, true⟩ }
  | 1 | 12 => { quietInputs with uart := ⟨⟨true, false, 0x0, 0x55⟩, true⟩ }
  | _ => quietInputs

end Periphs

/-- TX empty is set and a byte waits. -/
theorem lateByte_set : ¬ ∀ t f, Fifo.IrqAgrees (Periphs.run .zeros Periphs.lateByte t) f := by
  intro h
  have hbit : (Periphs.run .zeros Periphs.lateByte 13).uart.irqStatus.getLsbD 1 = true := by
    decide +kernel
  have hfull : (Periphs.run .zeros Periphs.lateByte 13).uart.txFifo.empty = false := by decide +kernel
  have hempty : (Periphs.run .zeros Periphs.lateByte 13).uart.txFifo.empty = true := h 13 .uartTx hbit
  rw [hfull] at hempty
  cases hempty

end QarCore
