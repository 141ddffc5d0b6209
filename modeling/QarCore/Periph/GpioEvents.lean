import QarCore.Periph.GpioDebounce

/-!
# GPIO events

The edge detector compares the levels of two cycles, both masked with the direction of their own cycle.
A pin that changes direction while its level is high therefore shows an edge that no input has made.
-/

namespace QarCore

namespace Gpio

variable {w : Nat} {inp : Nat → Inputs w} {k : Fin w} {t : Nat}

/-- The filtered level of pin `k` has made an enabled transition with cycle `t`, and the pin is an input
before and after it. -/
def inputEdge (inp : Nat → Inputs w) (k : Fin w) : Nat → Bool
  | 0 => false
  | t + 1 =>
    (after inp t).isInput k && (after inp (t + 1)).isInput k &&
      (!(after inp t).level k && (after inp (t + 1)).level k && (after inp (t + 1)).irqRiseMask.getLsbD k ||
        (after inp t).level k && !(after inp (t + 1)).level k && (after inp (t + 1)).irqFallMask.getLsbD k)

/-- With cycle `t` pin `k` has become an input while it is driven high and rising edges are enabled, or
an output while its filtered level was high and falling edges are enabled. -/
def strayEdge (inp : Nat → Inputs w) (k : Fin w) : Nat → Bool
  | 0 => false
  | t + 1 =>
    !(after inp t).isInput k && (after inp (t + 1)).isInput k && (after inp (t + 1)).level k &&
        (after inp (t + 1)).irqRiseMask.getLsbD k ||
      (after inp t).isInput k && !(after inp (t + 1)).isInput k && (after inp t).level k &&
        (after inp (t + 1)).irqFallMask.getLsbD k

/-- IRQ_STATUS records the edges of the input pins and nothing else: a bit is set after a cycle exactly
if there has been such an edge, or if it was set before and nobody has written 1 to it. -/
def RecordsEdges (inp : Nat → Inputs w) : Prop :=
  ∀ (k : Fin w) (t : Nat), (after inp (t + 1)).irqStatus.getLsbD k =
    ((after inp t).irqStatus.getLsbD k && !acknowledges (inp t).bus k || inputEdge inp k t)

-- What the edge detector sees is an edge of an input pin or a stray one.
theorem irqEvents_after (t : Nat) :
    (after inp t).irqEvents.getLsbD k = (inputEdge inp k t || strayEdge inp k t) := by
  cases t with
  | zero =>
    have hlevel : (reset : Gpio w).level k = false := BitVec.getLsbD_zero
    have hlast : (reset : Gpio w).lastInput.getLsbD k = false := BitVec.getLsbD_zero
    show (reset : Gpio w).irqEvents.getLsbD k = false
    rw [irqEvents_eq, hlevel, hlast]
    simp
  | succ t =>
    have hlast : (after inp (t + 1)).lastInput.getLsbD k =
        ((after inp t).isInput k && (after inp t).level k) := posedge_lastInput
    simp only [irqEvents_eq, hlast, inputEdge, strayEdge]
    -- one case for each direction before and after
    cases (after inp t).isInput k <;> cases (after inp (t + 1)).isInput k <;>
      cases (after inp t).level k <;> cases (after inp (t + 1)).level k <;> simp

-- A stray edge is not an edge of an input pin.
theorem inputEdge_of_strayEdge (h : strayEdge inp k t) : inputEdge inp k t = false := by
  cases t with
  | zero => rfl
  | succ t =>
    simp only [strayEdge] at h
    simp only [inputEdge]
    cases h1 : (after inp t).isInput k <;> cases h2 : (after inp (t + 1)).isInput k <;>
      simp [h1, h2] at h ⊢

theorem irqStatus_after (t : Nat) : (after inp (t + 1)).irqStatus.getLsbD k =
    ((after inp t).irqStatus.getLsbD k && !acknowledges (inp t).bus k ||
      (inputEdge inp k t || strayEdge inp k t)) := by
  rw [after_succ, posedge_irqStatus, irqEvents_after]

/-- The events of a run are real exactly if no stray edge comes while its IRQ_STATUS bit is clear or is
being cleared. -/
theorem recordsEdges_iff (inp : Nat → Inputs w) : RecordsEdges inp ↔
    ∀ k t, strayEdge inp k t →
      (after inp t).irqStatus.getLsbD k = true ∧ acknowledges (inp t).bus k = false := by
  constructor
  · intro h k t hs
    have hnext := h k t
    rw [irqStatus_after, inputEdge_of_strayEdge hs, hs, Bool.or_false, Bool.false_or, Bool.or_true,
      eq_comm, Bool.and_eq_true, Bool.not_eq_true'] at hnext
    exact hnext
  · intro h k t
    rw [irqStatus_after]
    by_cases hs : strayEdge inp k t
    · obtain ⟨hset, hack⟩ := h k t hs
      rw [hset, hack]
      rfl
    · rw [Bool.not_eq_true _ |>.mp hs, Bool.or_false]

/-- Pin 0 is driven high for two cycles and becomes an input again. -/
def switchesBack : Nat → Inputs 32
  | 0 => ⟨⟨true, false, 0x1, 1⟩, 0, false, false⟩
  | 1 => ⟨⟨true, false, 0x0, 1⟩, 0, false, false⟩
  | 2 => ⟨⟨false, false, 0, 0⟩, 1, false, false⟩
  | 3 => ⟨⟨true, false, 0x0, 0⟩, 1, false, false⟩
  | _ => ⟨⟨false, false, 0, 0⟩, 0, false, false⟩

/-- The level it was driven to counts as a rising edge of the input. -/
theorem switchesBack_sets : (after switchesBack 4).irqStatus.getLsbD 0 = false ∧
    inputEdge switchesBack 0 4 = false ∧ (after switchesBack 5).irqStatus.getLsbD 0 = true ∧
    ¬ RecordsEdges switchesBack := by
  have hbefore : (after switchesBack 4).irqStatus.getLsbD 0 = false := by decide +kernel
  have hedge : inputEdge switchesBack 0 4 = false := by decide +kernel
  have hset : (after switchesBack 5).irqStatus.getLsbD 0 = true := by decide +kernel
  refine ⟨hbefore, hedge, hset, fun h ↦ ?_⟩
  have hnext := h 0 4
  rw [show ((0 : Fin 32) : Nat) = 0 from rfl, hset, hbefore, hedge] at hnext
  simp at hnext

end Gpio

end QarCore
