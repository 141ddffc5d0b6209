import QarCore.Clocked.Driver
import QarCore.Soc.Machine

/-!
# Memory-mapped registers

The drivers of the HAL as the volatile accesses they make, on the peripherals of the chip.
-/

namespace QarCore

open Clocked (Driver Target)
open Rv32i (Access)

namespace Hal

/-- A function of the HAL: volatile loads and stores in program order. -/
abbrev Code := Driver Access Word

/-- `QAR_MMIO32(base, offset)`, read. -/
def mmio32Read (base offset : Word) : Code Word := .perform (.load (base + offset))

/-- `QAR_MMIO32(base, offset) = value` -/
def mmio32Write (base offset value : Word) : Code Unit :=
  .act (.store (base + offset) value) fun _ ↦ .done ()

/-- The loop that reads a register until the value is right. -/
def mmio32Await (base offset : Word) (ready : Word → Bool) : Code Word :=
  .await (.load (base + offset)) ready

/-- What the outside drives while firmware runs; `memRdata` is what a load gets that hits no window. -/
structure Outside where
  pins : DevicePins
  memRdata : Word

/-- The peripherals as the target of firmware. -/
def chip : Target Devices Access Word Outside where
  step v acc i := v.posedge (acc.elim .idle busOfAccess) i.pins
  answer v acc i :=
    match windowOf acc.addr with
    | some p => v.rdata (busOfAccess acc) i.pins p
    | none => i.memRdata

theorem chip_answer {v : Devices} {acc : Access} {o : Outside} {p : Periph} (h : windowOf acc.addr = some p) :
    chip.answer v acc o = v.rdata (busOfAccess acc) o.pins p := by
  simp only [chip, h]

/-- No assumption on what the outside drives. -/
def anyOutside (_ : Outside) : Prop := True

/-- A turn in every third cycle, with the pins at rest. -/
def everyThird (t : Nat) : Bool × Outside :=
  (t % 3 == 0, ⟨⟨0, true, true, true, 0, 0, 0, 0⟩, 0⟩)

theorem everyThird_fair : Clocked.Fair anyOutside everyThird where
  turns t := ⟨3 * t, by omega, by simp [everyThird]⟩
  env _ := trivial

end Hal

/-! ## Status bits -/

-- A mask of one bit tests that bit.
theorem and_bit_ne_zero (w : Word) {k : Nat} (hk : k < 32) : (w &&& 1#32 <<< k != 0#32) = w.getLsbD k := by
  have hbit : 1#32 <<< k = BitVec.twoPow 32 k := (BitVec.twoPow_eq 32 k).symm
  have hne : BitVec.twoPow 32 k ≠ 0#32 := by
    intro h
    have hpos := Nat.two_pow_pos k
    rw [← BitVec.toNat_inj, BitVec.toNat_twoPow_of_lt hk] at h
    exact absurd h (Nat.ne_of_gt hpos)
  rw [hbit, BitVec.and_twoPow]
  cases w.getLsbD k with
  | true => exact bne_iff_ne.mpr hne
  | false => rfl

/-! ## Who is addressed -/

section Bus

variable {w : Nat} {addr data : Word} {p : Periph} {acc : Access}

theorem busOfAccess_of_window (h : windowOf acc.addr = some p) : busOfAccess acc = .ofAccess p acc := by
  unfold busOfAccess
  rw [h]

theorem busOf_load (h : windowOf addr = some p) :
    (busOfAccess (.load addr)).busOf p = (⟨false, true, addr.extractLsb' 2 w, 0⟩ : BusAccess w) := by
  rw [busOfAccess_of_window (show windowOf (Access.load addr).addr = some p from h)]
  simp [PeriphStart.busOf, PeriphStart.ofAccess]

theorem busOf_store (h : windowOf addr = some p) :
    (busOfAccess (.store addr data)).busOf p = (⟨true, false, addr.extractLsb' 2 w, data⟩ : BusAccess w) := by
  rw [busOfAccess_of_window (show windowOf (Access.store addr data).addr = some p from h)]
  simp [PeriphStart.busOf, PeriphStart.ofAccess]

end Bus

end QarCore
