import QarCore.Periph.FaultIrq
import QarCore.Periph.Queues

/-!
# The fault summary of the SPI and of the I2C controller

Bit 2 of IRQ_STATUS is set together with each of the causes in the bits 3 to 5, but a write clears the
four bits one by one.  The flags that STATUS shows go up only with their cause bits.
-/

namespace QarCore

open Clocked (latch latch_of_set Sticky)

/-! ## The summary and its causes -/

/-- Bit 2 mirrors the causes. -/
def Mirrors (w : Word) : Prop := w.getLsbD 2 = (w.getLsbD 3 || w.getLsbD 4 || w.getLsbD 5)

theorem mirrors_zero : Mirrors 0 := by
  unfold Mirrors
  decide

/-- A clear with the mask `x` leaves one of the causes in `w`. -/
def leavesCause (w x : Word) : Bool :=
  w.getLsbD 3 && !x.getLsbD 3 || w.getLsbD 4 && !x.getLsbD 4 || w.getLsbD 5 && !x.getLsbD 5

/-- It takes the summary although a cause stays, or leaves the summary although no cause stays. -/
def splitsFaults (w x : Word) : Bool := w.getLsbD 2 && (x.getLsbD 2 == leavesCause w x)

-- One edge of the four bits, with the causes `f` and the mask `x`.
theorem mirrors_iff {w w' x : Word} {f : Nat → Bool} (h : Mirrors w)
    (hsum : w'.getLsbD 2 = latch (f 2) (x.getLsbD 2) (w.getLsbD 2))
    (hf : f 2 = (f 3 || f 4 || f 5))
    (hcause : ∀ k, 3 ≤ k → k ≤ 5 → w'.getLsbD k = latch (f k) (x.getLsbD k) (w.getLsbD k)) :
    Mirrors w' ↔ (f 2 = false → splitsFaults w x = false) := by
  unfold Mirrors at h ⊢
  unfold splitsFaults leavesCause
  rw [hsum, hcause 3 (by decide) (by decide), hcause 4 (by decide) (by decide),
    hcause 5 (by decide) (by decide), h, hf]
  generalize w.getLsbD 3 = w3, w.getLsbD 4 = w4, w.getLsbD 5 = w5
  generalize x.getLsbD 2 = x2, x.getLsbD 3 = x3, x.getLsbD 4 = x4, x.getLsbD 5 = x5
  generalize f 3 = f3, f 4 = f4, f 5 = f5
  revert w3 w4 w5 x2 x3 x4 x5 f3 f4 f5
  decide +kernel

namespace Spi

variable {s : Spi} {i : Inputs}

/-- The mask of a write to IRQ_STATUS. -/
def clearMask (b : BusAccess 6) : Word := if b.write && b.addrWord == 0x7#6 then b.wdata else 0

theorem mirrors_posedge (h : Mirrors s.irqStatus) : Mirrors (posedge s i).irqStatus ↔
    (s.irqSets i 2 = false → splitsFaults s.irqStatus (clearMask i.bus) = false) := by
  have hmask (k : Nat) (hk : 2 ≤ k) : s.irqClears i.bus k = (clearMask i.bus).getLsbD k := by
    have hack : acknowledges i.bus k = (clearMask i.bus).getLsbD k := by
      unfold acknowledges clearMask
      cases i.bus.write && i.bus.addrWord == 0x7#6 <;> simp
    match k, hk with
    | k + 2, _ => simpa [irqClears] using hack
  apply mirrors_iff (f := s.irqSets i) h
  · rw [posedge_irq, hmask 2 (by decide)]
  · simp only [irqSets]
    cases s.rxOverflows <;> cases s.missesSelect <;> cases s.txOverflows i.bus <;> rfl
  · intro k h3 _
    rw [posedge_irq, hmask k (by omega)]

end Spi

namespace I2c

variable {s : I2c} {i : Inputs}

/-- The mask of a write to IRQ_STATUS. -/
def clearMask (b : BusAccess 6) : Word := if b.write && b.addrWord == 0x4#6 then b.wdata else 0

theorem mirrors_posedge (h : Mirrors s.irqStatus) : Mirrors (posedge s i).irqStatus ↔
    (s.irqSets i 2 = false → splitsFaults s.irqStatus (clearMask i.bus) = false) := by
  have hmask (k : Nat) (hk : 2 ≤ k) : s.irqClears i.bus k = (clearMask i.bus).getLsbD k := by
    have hack : acknowledges i.bus k = (clearMask i.bus).getLsbD k := by
      unfold acknowledges clearMask
      cases i.bus.write && i.bus.addrWord == 0x4#6 <;> simp
    match k, hk with
    | k + 2, _ => simpa [irqClears] using hack
  apply mirrors_iff (f := s.irqSets i) h
  · rw [posedge_irq, hmask 2 (by decide)]
  · simp only [irqSets]
    cases s.rxOverflows <;> cases s.nacks i.sdaIn <;> cases s.txOverflows i.bus <;> rfl
  · intro k h3 _
    rw [posedge_irq, hmask k (by omega)]

end I2c

/-! ## The flags -/

/-- The sticky fault flags of the two STATUS registers. -/
inductive FaultFlag
  | spiTxOverflow | spiRxOverflow | spiCsError | i2cAckError | i2cRxOverflow | i2cTxOverflow
  deriving DecidableEq, Repr

namespace FaultFlag

variable {p : Periphs} {i : Periphs.Inputs} {g : FaultFlag}

/-- The bit of STATUS. -/
def shown (p : Periphs) : FaultFlag → Bool
  | spiTxOverflow => p.spi.statusValue.getLsbD 4
  | spiRxOverflow => p.spi.statusValue.getLsbD 5
  | spiCsError => p.spi.statusValue.getLsbD 6
  | i2cAckError => p.i2c.statusValue.getLsbD 3
  | i2cRxOverflow => p.i2c.statusValue.getLsbD 4
  | i2cTxOverflow => p.i2c.statusValue.getLsbD 5

/-- The bit of IRQ_STATUS for the same fault. -/
def causeBit : FaultFlag → Nat
  | spiTxOverflow | i2cTxOverflow => 3
  | spiRxOverflow | i2cRxOverflow => 4
  | spiCsError | i2cAckError => 5

def irqStatus (p : Periphs) : FaultFlag → Word
  | spiTxOverflow | spiRxOverflow | spiCsError => p.spi.irqStatus
  | i2cAckError | i2cRxOverflow | i2cTxOverflow => p.i2c.irqStatus

/-- The fault happens in this cycle. -/
def happens (p : Periphs) (i : Periphs.Inputs) : FaultFlag → Bool
  | spiTxOverflow => p.spi.txOverflows i.spi.bus
  | spiRxOverflow => p.spi.rxOverflows
  | spiCsError => p.spi.missesSelect
  | i2cAckError => p.i2c.nacks i.i2c.sdaIn
  | i2cRxOverflow => p.i2c.rxOverflows
  | i2cTxOverflow => p.i2c.txOverflows i.i2c.bus

/-- The flag is cleared: by IRQ_STATUS, for the I2C controller also by STATUS, and its acknowledge flag by
the next acknowledge bit. -/
def cleared (p : Periphs) (i : Periphs.Inputs) : FaultFlag → Bool
  | spiTxOverflow => Spi.acknowledges i.spi.bus 2 || Spi.acknowledges i.spi.bus 3
  | spiRxOverflow => Spi.acknowledges i.spi.bus 2 || Spi.acknowledges i.spi.bus 4
  | spiCsError => Spi.acknowledges i.spi.bus 2 || Spi.acknowledges i.spi.bus 5
  | i2cAckError => I2c.acknowledges i.i2c.bus 2 || I2c.acknowledges i.i2c.bus 5 ||
      I2c.clearsFlag i.i2c.bus 3 || p.i2c.samplesAck
  | i2cRxOverflow => I2c.acknowledges i.i2c.bus 2 || I2c.acknowledges i.i2c.bus 4 ||
      I2c.clearsFlag i.i2c.bus 4
  | i2cTxOverflow => I2c.acknowledges i.i2c.bus 2 || I2c.acknowledges i.i2c.bus 3 ||
      I2c.clearsFlag i.i2c.bus 5

/-- The register behind the bit of STATUS. -/
def flag (p : Periphs) : FaultFlag → Bool
  | spiTxOverflow => p.spi.txOverflowFlag
  | spiRxOverflow => p.spi.rxOverflowFlag
  | spiCsError => p.spi.csErrorFlag
  | i2cAckError => p.i2c.ackErrorFlag
  | i2cRxOverflow => p.i2c.rxOverflowFlag
  | i2cTxOverflow => p.i2c.txOverflowFlag

theorem shown_eq : g.shown p = g.flag p := by
  cases g with
  | spiTxOverflow | spiRxOverflow | spiCsError =>
    simp only [shown, flag, Spi.statusValue, getLsbD_concat_succ, getLsbD_concat_zero]
  | i2cAckError | i2cRxOverflow | i2cTxOverflow =>
    simp only [shown, flag, I2c.statusValue, getLsbD_concat_succ, getLsbD_concat_zero]

-- The flags are sticky.
theorem shown_posedge : g.shown (p.posedge i) = latch (g.happens p i) (g.cleared p i) (g.shown p) := by
  rw [shown_eq, shown_eq]
  cases g with
  | spiTxOverflow => exact Spi.posedge_txOverflowFlag
  | spiRxOverflow => exact Spi.posedge_rxOverflowFlag
  | spiCsError => exact Spi.posedge_csErrorFlag
  | i2cAckError => exact I2c.posedge_ackErrorFlag
  | i2cRxOverflow => exact I2c.posedge_rxOverflowFlag
  | i2cTxOverflow => exact I2c.posedge_txOverflowFlag

-- The fault raises its cause bit in the same edge, whatever is written.
theorem causeBit_of_happens (h : g.happens p i) : (g.irqStatus (p.posedge i)).getLsbD g.causeBit := by
  cases g with
  | spiTxOverflow => exact Spi.posedge_irq.trans (latch_of_set h)
  | spiRxOverflow => exact Spi.posedge_irq.trans (latch_of_set h)
  | spiCsError => exact Spi.posedge_irq.trans (latch_of_set h)
  | i2cAckError => exact I2c.posedge_irq.trans (latch_of_set h)
  | i2cRxOverflow => exact I2c.posedge_irq.trans (latch_of_set h)
  | i2cTxOverflow => exact I2c.posedge_irq.trans (latch_of_set h)

end FaultFlag

/-! ## Runs -/

section

variable (m : Periphs.Unreset) (inp : Nat → Periphs.Inputs)

/-- What the fault bits are expected to say after `t` cycles. -/
structure FaultsAgree (t : Nat) : Prop where
  spi : Mirrors (Periphs.run m inp t).spi.irqStatus
  i2c : Mirrors (Periphs.run m inp t).i2c.irqStatus
  /-- A flag is shown only if its cause bit has been raised since the flag was last cleared. -/
  raised : ∀ g : FaultFlag, g.shown (Periphs.run m inp t) → ∃ u < t,
    g.happens (Periphs.run m inp u) (inp u) ∧
      (g.irqStatus (Periphs.run m inp (u + 1))).getLsbD g.causeBit ∧
      ∀ v, u < v → v ≤ t → g.shown (Periphs.run m inp v)

/-- The clears of cycle `t` leave the summaries in step with the causes, unless a fault in the same cycle
sets both. -/
structure ClearsTogether (t : Nat) : Prop where
  spi : (Periphs.run m inp t).spi.irqSets (inp t).spi 2 = false →
    splitsFaults (Periphs.run m inp t).spi.irqStatus (Spi.clearMask (inp t).spi.bus) = false
  i2c : (Periphs.run m inp t).i2c.irqSets (inp t).i2c 2 = false →
    splitsFaults (Periphs.run m inp t).i2c.irqStatus (I2c.clearMask (inp t).i2c.bus) = false

end

variable {m : Periphs.Unreset} {inp : Nat → Periphs.Inputs} {t : Nat}

theorem raised_of_shown (g : FaultFlag) (h : g.shown (Periphs.run m inp t)) : ∃ u < t,
    g.happens (Periphs.run m inp u) (inp u) ∧
      (g.irqStatus (Periphs.run m inp (u + 1))).getLsbD g.causeBit ∧
      ∀ v, u < v → v ≤ t → g.shown (Periphs.run m inp v) := by
  let b : Sticky :=
    { bit := fun v ↦ g.shown (Periphs.run m inp v)
      set := fun v ↦ g.happens (Periphs.run m inp v) (inp v)
      clear := fun v ↦ g.cleared (Periphs.run m inp v) (inp v) }
  have hlaw : b.Law :=
    { start := by
        show g.shown (Periphs.run m inp 0) = false
        rw [FaultFlag.shown_eq]
        cases g <;> rfl
      step := fun _ ↦ FaultFlag.shown_posedge }
  obtain ⟨u, hu, hset, hkeep⟩ := (hlaw.bit_iff t).mp h
  refine ⟨u, hu, hset, FaultFlag.causeBit_of_happens hset, ?_⟩
  intro v h1 h2
  exact (hlaw.bit_iff v).mpr ⟨u, h1, hset, fun w h3 h4 ↦ hkeep w h3 (by omega)⟩

/-- The fault bits agree in every state of a run exactly if every clear keeps the summary in step. -/
theorem faultsAgree_iff (m : Periphs.Unreset) (inp : Nat → Periphs.Inputs) :
    (∀ t, FaultsAgree m inp t) ↔ ∀ t, ClearsTogether m inp t := by
  constructor
  · intro h t
    exact ⟨(Spi.mirrors_posedge (h t).spi).mp (h (t + 1)).spi,
      (I2c.mirrors_posedge (h t).i2c).mp (h (t + 1)).i2c⟩
  · intro h t
    have hmirrors : Mirrors (Periphs.run m inp t).spi.irqStatus ∧
        Mirrors (Periphs.run m inp t).i2c.irqStatus := by
      induction t with
      | zero => exact ⟨mirrors_zero, mirrors_zero⟩
      | succ t ih =>
        exact ⟨(Spi.mirrors_posedge ih.1).mpr (h t).spi, (I2c.mirrors_posedge ih.2).mpr (h t).i2c⟩
    exact ⟨hmirrors.1, hmirrors.2, raised_of_shown⟩

namespace Periphs

/-- The SPI master is off and gets five bytes, one more than its FIFO holds; then firmware clears bit 2. -/
def fifthByte (t : Nat) : Inputs :=
  { quietInputs with
    spi :=
      { bus :=
          if t = 0 then ⟨true, false, 0x0, 0⟩
          else if t ≤ 5 then ⟨true, false, 0x3, 0x55⟩
          else if t = 6 then ⟨true, false, 0x7, 0x4⟩
          else ⟨false, false, 0, 0⟩
        miso := true } }

end Periphs

/-- The cause stays without its summary. -/
theorem fifthByte_split : ¬ ∀ t, FaultsAgree .zeros Periphs.fifthByte t := by
  intro h
  have hsum : (Periphs.run .zeros Periphs.fifthByte 7).spi.irqStatus.getLsbD 2 = false := by
    decide +kernel
  have hcause : (Periphs.run .zeros Periphs.fifthByte 7).spi.irqStatus.getLsbD 3 = true := by
    decide +kernel
  have hmirrors : _ = _ := (h 7).spi
  rw [hsum, hcause] at hmirrors
  cases hmirrors

end QarCore
