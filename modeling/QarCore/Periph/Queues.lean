import QarCore.Periph.Fifos

/-!
# The peripheral FIFOs as bounded queues

The three modules run side by side from reset.  Each of the six FIFOs is a bounded queue, and says so in
its status bits, for as long as it is not pushed, and the bit that shows free space is not read, while it
is full with its read pointer in the upper half: there the 32-bit pointer difference hides that it is full.
-/

namespace QarCore

open Clocked (Ring FifoRun)

/-- The UART, the SPI and the I2C controller, each on its own pins. -/
structure Periphs where
  uart : Uart
  spi : Spi
  i2c : I2c

namespace Periphs

structure Inputs where
  uart : Uart.Inputs
  spi : Spi.Inputs
  i2c : I2c.Inputs

/-- The registers no reset touches. -/
structure Unreset where
  uartTx : BitVec 3 → Byte
  uartRx : BitVec 3 → Byte
  spiTx : BitVec 2 → Byte
  spiRx : BitVec 2 → Byte
  i2cTx : BitVec 2 → Byte
  i2cRx : BitVec 2 → Byte
  activeTxByte : Byte

def posedge (p : Periphs) (i : Inputs) : Periphs :=
  ⟨p.uart.posedge i.uart, p.spi.posedge i.spi, p.i2c.posedge i.i2c⟩

def reset (m : Unreset) : Periphs :=
  ⟨Uart.reset m.uartTx m.uartRx, Spi.reset m.spiTx m.spiRx m.activeTxByte,
    I2c.reset m.i2cTx m.i2cRx⟩

def run (m : Unreset) (inp : Nat → Inputs) : Nat → Periphs :=
  Clocked.run posedge (reset m) inp

end Periphs

inductive Fifo
  | uartTx | uartRx | spiTx | spiRx | i2cTx | i2cRx
  deriving DecidableEq, Repr

namespace Fifo

/-- `FIFO_ADDR_BITS` -/
def bits : Fifo → Nat
  | uartTx | uartRx => 3
  | spiTx | spiRx | i2cTx | i2cRx => 2

def ring (p : Periphs) : (f : Fifo) → Ring f.bits Byte
  | uartTx => p.uart.txFifo
  | uartRx => p.uart.rxFifo
  | spiTx => p.spi.txFifo
  | spiRx => p.spi.rxFifo
  | i2cTx => p.i2c.txFifo
  | i2cRx => p.i2c.rxFifo

/-- The byte offered in this cycle: by firmware to a TX FIFO, by the receiver to an RX FIFO. -/
def push (p : Periphs) (i : Periphs.Inputs) : Fifo → Option Byte
  | uartTx => Uart.txPush i.uart.bus
  | uartRx => Uart.rxPush p.uart
  | spiTx => Spi.txPush i.spi.bus
  | spiRx => Spi.rxPush p.spi i.spi.miso
  | i2cTx => I2c.txPush i.i2c.bus
  | i2cRx => I2c.rxPush p.i2c

def pop (p : Periphs) (i : Periphs.Inputs) : Fifo → Bool
  | uartTx => p.uart.takesTxByte
  | uartRx => Uart.rxPop i.uart.bus
  | spiTx => p.spi.takesTxByte
  | spiRx => Spi.rxPop i.spi.bus
  | i2cTx => p.i2c.takesTxByte
  | i2cRx => I2c.rxPop i.i2c.bus

/-- Only the RX FIFO of the UART is ever flushed. -/
def flushes (p : Periphs) (i : Periphs.Inputs) : Fifo → Bool
  | uartRx => Uart.flushesRx p.uart i.uart.bus
  | _ => false

/-! ## What firmware sees -/

/-- The flag of a rejected push; the UART drops a byte for its full TX FIFO silently. -/
def overflowFlag : Fifo → Option (Periphs → Bool)
  | uartTx => none
  | uartRx => some fun p ↦ p.uart.status.getLsbD 3
  | spiTx => some fun p ↦ p.spi.txOverflowFlag
  | spiRx => some fun p ↦ p.spi.rxOverflowFlag
  | i2cTx => some fun p ↦ p.i2c.txOverflowFlag
  | i2cRx => some fun p ↦ p.i2c.rxOverflowFlag

/-- The STATUS bit that shows stored bytes. -/
def dataFlag : Fifo → Option (Periphs → Bool)
  | uartRx => some fun p ↦ p.uart.status.getLsbD 0
  | spiRx => some fun p ↦ p.spi.statusValue.getLsbD 1
  | i2cTx => some fun p ↦ !p.i2c.statusValue.getLsbD 2
  | i2cRx => some fun p ↦ p.i2c.statusValue.getLsbD 1
  | uartTx | spiTx => none

/-- The STATUS bit that shows free space. -/
def roomFlag : Fifo → Option (Periphs → Bool)
  | uartTx => some fun p ↦ p.uart.status.getLsbD 1
  | spiTx => some fun p ↦ p.spi.statusValue.getLsbD 0
  | uartRx | spiRx | i2cTx | i2cRx => none

/-- The register that shows the number of stored bytes. -/
def level : Fifo → Option (Periphs → Nat)
  | spiTx => some fun p ↦ (p.spi.readData ⟨false, true, 0x3#6, 0⟩).toNat
  | _ => none

/-- STATUS of the UART is a register that every edge sets from the FIFOs before it. -/
def statusDelay : Fifo → Nat
  | uartTx | uartRx => 1
  | spiTx | spiRx | i2cTx | i2cRx => 0

end Fifo

section Run

variable (m : Periphs.Unreset) (inp : Nat → Periphs.Inputs) (f : Fifo) (t : Nat)

/-- One FIFO in a run of the three modules. -/
def fifoRun : FifoRun f.bits Byte where
  ring t := f.ring (Periphs.run m inp t)
  push t := f.push (Periphs.run m inp t) (inp t)
  pop t := f.pop (Periphs.run m inp t) (inp t)

/-- In cycle `t` the FIFO is a bounded queue, a rejected byte raises its flag, and the status bits agree
with the number of stored bytes. -/
structure ActsAsQueueAt : Prop where
  bounded : (fifoRun m inp f).BoundedAt t
  overflow : ((fifoRun m inp f).push t).isSome → (fifoRun m inp f).accepted t = none →
    ∀ flag, f.overflowFlag = some flag → flag (Periphs.run m inp (t + 1))
  data : ∀ flag, f.dataFlag = some flag →
    (flag (Periphs.run m inp (t + f.statusDelay)) ↔ 0 < ((fifoRun m inp f).ring t).count)
  room : ∀ flag, f.roomFlag = some flag →
    (flag (Periphs.run m inp (t + f.statusDelay)) ↔
      ((fifoRun m inp f).ring t).count < 2 ^ f.bits)
  level : ∀ shown, f.level = some shown →
    shown (Periphs.run m inp t) = ((fifoRun m inp f).ring t).count

/-- Neither a push nor a status bit asks whether the FIFO is full while it is full with its read pointer
in the upper half. -/
def FullSeenAt : Prop :=
  ((fifoRun m inp f).push t).isSome ∨ f.roomFlag.isSome →
    ¬(((fifoRun m inp f).ring t).count = 2 ^ f.bits ∧
      2 ^ f.bits ≤ ((fifoRun m inp f).ring t).tail.toNat)

end Run

variable {m : Periphs.Unreset} {inp : Nat → Periphs.Inputs} {f : Fifo} {t : Nat}

namespace Fifo

variable {p : Periphs} {i : Periphs.Inputs} {flag : Periphs → Bool}

-- Without a flush the registers of a FIFO change by accepted pushes and pops only.
theorem ring_posedge (h : f.flushes p i = false) : f.ring (p.posedge i) =
    (f.ring p).next (if (f.ring p).wideFull then none else f.push p i)
      (f.pop p i && !(f.ring p).empty) := by
  cases f with
  | uartTx =>
    exact Uart.posedge_txFifo.trans (congrArg (Ring.next _ _) p.uart.takesTxByte_eq)
  | uartRx => exact Uart.posedge_rxFifo h
  | spiTx =>
    exact Spi.posedge_txFifo.trans (congrArg (Ring.next _ _) p.spi.takesTxByte_eq)
  | spiRx => exact Spi.posedge_rxFifo
  | i2cTx =>
    exact I2c.posedge_txFifo.trans (congrArg (Ring.next _ _) p.i2c.takesTxByte_eq)
  | i2cRx => exact I2c.posedge_rxFifo

-- A push into a FIFO that the 32-bit test sees full raises the flag.
theorem overflowFlag_posedge (hflag : f.overflowFlag = some flag) (hp : (f.push p i).isSome)
    (hf : (f.ring p).wideFull) : flag (p.posedge i) := by
  cases f <;> cases hflag
  case uartRx => exact Uart.posedge_overrun hp hf
  case spiTx => exact Spi.posedge_txOverflow hp hf
  case spiRx => exact Spi.posedge_rxOverflow hp hf
  case i2cTx => exact I2c.posedge_txOverflow hp hf
  case i2cRx => exact I2c.posedge_rxOverflow hp hf

theorem dataFlag_run (hflag : f.dataFlag = some flag) :
    flag (Periphs.run m inp (t + f.statusDelay)) = !(f.ring (Periphs.run m inp t)).empty := by
  cases f <;> cases hflag
  case uartRx => exact Uart.posedge_status_fifos.1
  case spiRx => exact Spi.statusValue_fifos.2
  case i2cTx => exact congrArg not I2c.statusValue_fifos.2
  case i2cRx => exact I2c.statusValue_fifos.1

theorem roomFlag_run (hflag : f.roomFlag = some flag) :
    flag (Periphs.run m inp (t + f.statusDelay)) = !(f.ring (Periphs.run m inp t)).wideFull := by
  cases f <;> cases hflag
  case uartTx => exact Uart.posedge_status_fifos.2
  case spiTx => exact Spi.statusValue_fifos.1

-- The level is a difference at the pointers' own width, so it is right in every state.
theorem level_eq {shown : Periphs → Nat} (h : f.level = some shown) :
    shown p = (f.ring p).count := by
  cases f <;> cases h
  show ((p.spi.txFifo.head - p.spi.txFifo.tail).setWidth 32).toNat = _
  rw [BitVec.toNat_setWidth, Nat.mod_eq_of_lt (by omega)]
  rfl

end Fifo

-- Without flushes the run of a FIFO is that of a ring buffer with the 32-bit full test.
theorem fifoRun_runs (h : ∀ u, u < t → f.flushes (Periphs.run m inp u) (inp u) = false) :
    (fifoRun m inp f).Runs t where
  reset := by cases f <;> rfl
  step u hu := Fifo.ring_posedge (h u hu)

-- The status bit that shows free space agrees with the count unless the test misses a full FIFO.
theorem roomFlag_iff {flag : Periphs → Bool} (hflag : f.roomFlag = some flag)
    (hc : ((fifoRun m inp f).ring t).count ≤ 2 ^ f.bits) :
    (flag (Periphs.run m inp (t + f.statusDelay)) ↔
        ((fifoRun m inp f).ring t).count < 2 ^ f.bits) ↔
      ¬(((fifoRun m inp f).ring t).count = 2 ^ f.bits ∧
        2 ^ f.bits ≤ ((fifoRun m inp f).ring t).tail.toNat) := by
  have hn : f.bits < 31 := by cases f <;> decide
  have hshown := FifoRun.full_shown_iff (F := fifoRun m inp f) (t := t) hn
  rw [← hshown, Fifo.roomFlag_run hflag, Bool.not_eq_true']
  show (((fifoRun m inp f).ring t).wideFull = false ↔ _) ↔ _
  cases ((fifoRun m inp f).ring t).wideFull
  · simp only [Bool.false_eq_true, true_iff, false_iff]
    omega
  · simp only [Bool.true_eq_false, true_iff, false_iff]
    omega

/-- Each FIFO acts as a bounded queue up to cycle `t` exactly if it is seen full whenever it is full and
that matters. -/
theorem actsAsQueue_iff (m : Periphs.Unreset) (inp : Nat → Periphs.Inputs) (f : Fifo) (t : Nat)
    (h : ∀ u, u ≤ t → f.flushes (Periphs.run m inp u) (inp u) = false) :
    (∀ u, u ≤ t → ActsAsQueueAt m inp f u) ↔ ∀ u, u ≤ t → FullSeenAt m inp f u := by
  have hn : f.bits < 31 := by cases f <;> decide
  have hruns : (fifoRun m inp f).Runs (t + 1) := fifoRun_runs fun u hu ↦ h u (by omega)
  have hiff := FifoRun.bounded_iff_safe hn hruns
  constructor
  · intro hq u hu hasked
    rcases hasked with hpush | hroom
    · exact hiff.mp (fun v hv ↦ (hq v hv).bounded) u hu hpush
    · obtain ⟨flag, hflag⟩ := Option.isSome_iff_exists.mp hroom
      exact (roomFlag_iff hflag (hq u hu).bounded.count_le).mp ((hq u hu).room flag hflag)
  · intro hseen u hu
    have hbounded := hiff.mpr (fun v hv hpush ↦ hseen v hv (.inl hpush)) u hu
    exact {
      bounded := hbounded
      overflow := by
        intro hpush hrej flag hflag
        -- a byte that was offered is rejected by the full test alone
        have hfull : ((fifoRun m inp f).ring u).wideFull := by
          by_contra hw
          rw [FifoRun.accepted, if_neg hw] at hrej
          rw [hrej] at hpush
          cases hpush
        exact Fifo.overflowFlag_posedge hflag hpush hfull
      data := by
        intro flag hflag
        rw [Fifo.dataFlag_run hflag, Bool.not_eq_true', Nat.pos_iff_ne_zero, ne_eq,
          Ring.count_eq_zero, Bool.not_eq_true]
        rfl
      room := fun flag hflag ↦
        (roomFlag_iff hflag hbounded.count_le).mpr
          (hseen u hu (.inr (Option.isSome_of_eq_some hflag)))
      level := fun _ hshown ↦ Fifo.level_eq hshown }

namespace Periphs

/-- Nothing happens on the buses; all lines are high. -/
def quietInputs : Inputs :=
  ⟨⟨⟨false, false, 0, 0⟩, true⟩, ⟨⟨false, false, 0, 0⟩, true⟩, ⟨⟨false, false, 0, 0⟩, true⟩⟩

def Unreset.zeros : Unreset := ⟨fun _ ↦ 0, fun _ ↦ 0, fun _ ↦ 0, fun _ ↦ 0, fun _ ↦ 0, fun _ ↦ 0, 0⟩

/-- Firmware sends four bytes by SPI, waits until all have left the FIFO, and queues five more. -/
def spiBurst (t : Nat) : Inputs :=
  { quietInputs with
    spi := ⟨⟨t < 4 || (101 ≤ t && t < 106), false, 0x3#6, 0x55#32⟩, true⟩ }

end Periphs

theorem actsAsQueue_iff_quiet :
    (∀ u, u ≤ 8 → ActsAsQueueAt .zeros (fun _ ↦ Periphs.quietInputs) .uartRx u) ↔
      ∀ u, u ≤ 8 → FullSeenAt .zeros (fun _ ↦ Periphs.quietInputs) .uartRx u :=
  actsAsQueue_iff .zeros (fun _ ↦ Periphs.quietInputs) .uartRx 8 (by decide +kernel)

/-- The fifth byte is accepted although the FIFO holds four. -/
theorem spiBurst_overfills : ¬ActsAsQueueAt .zeros Periphs.spiBurst .spiTx 105 := by
  intro h
  have hpush : ((fifoRun .zeros Periphs.spiBurst .spiTx).push 105).isSome := by decide +kernel
  have hacc : ((fifoRun .zeros Periphs.spiBurst .spiTx).accepted 105).isSome := by decide +kernel
  have hcount : ((fifoRun .zeros Periphs.spiBurst .spiTx).ring 105).count = 4 := by
    decide +kernel
  have hlt := (h.bounded.accepts hpush).mp hacc
  rw [hcount] at hlt
  exact absurd hlt (by decide)

end QarCore
