import QarCore.Clocked.Run
import QarCore.Periph.Spi

/-!
# The chip selects of the SPI master

What the four chip-select pins are meant to do over a run, and what they do: the complement of the
active mask is OR-ed with all ones, so no pin is ever low.
-/

namespace QarCore

open Clocked (run)

namespace Spi

/-- The pins that are meant to be low, and the bytes left of a burst; with no byte left the pins are
held until software changes the selection. -/
structure CsIntent where
  mask : BitVec 4
  left : Nat
  changed : Bool
  deriving DecidableEq

namespace CsIntent

def released : CsIntent := ⟨0, 0, false⟩

/-- A byte starts: its mask is the selection, and the burst it belongs to may be a new one. -/
def startByte (c : CsIntent) (s : Spi) (write : Bool) : CsIntent :=
  ⟨s.csSelect.extractLsb' 0 4, if c.left = 0 then (s.ctrl.extractLsb' 8 4).toNat else c.left, write⟩

/-- A byte ends: the last one of a burst releases the pins, and so does a change of the selection while
they are held. -/
def endByte (c : CsIntent) (write : Bool) : CsIntent :=
  if c.left = 1 then released
  else if c.left = 0 then if c.changed || write then released else c
  else { c with left := c.left - 1 }

/-- A cycle between two bytes. -/
def betweenBytes (c : CsIntent) (write : Bool) : CsIntent :=
  if c.left = 0 ∧ write then released else c

def next (c : CsIntent) (s : Spi) (b : BusAccess 6) : CsIntent :=
  let write := b.write && b.addrWord == 0x5#6
  if s.takesTxByte then startByte c s write
  else if s.samplesLastBit then endByte c write
  else if s.busy then { c with changed := c.changed || write }
  else betweenBytes c write

end CsIntent

/-! ## Runs -/

section

variable (txMem rxMem : BitVec 2 → Byte) (active : Byte) (inp : Nat → Inputs)

/-- The master after `t` cycles. -/
def after (t : Nat) : Spi := run posedge (reset txMem rxMem active) inp t

/-- The intent after `t` cycles. -/
def intent : Nat → CsIntent
  | 0 => CsIntent.released
  | t + 1 => (intent t).next (after txMem rxMem active inp t) (inp t).bus

/-- In the first `t` cycles the chip selects follow the transfers. -/
structure CsFollows (t : Nat) : Prop where
  /-- While a byte is shifted exactly the pins selected at its start are low. -/
  shifting : ∀ k u, k < u → u ≤ t → (after txMem rxMem active inp k).takesTxByte →
    (∀ v, k < v → v < u → ¬ (after txMem rxMem active inp v).takesTxByte) →
    (after txMem rxMem active inp u).busy →
    (after txMem rxMem active inp u).spiCsN =
      ~~~((after txMem rxMem active inp k).csSelect.extractLsb' 0 4)
  /-- They are low for the bytes of a burst, or until the selection changes, and high otherwise. -/
  burst : ∀ u ≤ t, (after txMem rxMem active inp u).spiCsN =
    ~~~(intent txMem rxMem active inp u).mask
  /-- A pin that is never selected is high. -/
  unselected : ∀ j < 4, (∀ u ≤ t, (after txMem rxMem active inp u).csSelect.getLsbD j = false) →
    ∀ u ≤ t, (after txMem rxMem active inp u).spiCsN.getLsbD j = true

end

variable {txMem rxMem : BitVec 2 → Byte} {active : Byte} {inp : Nat → Inputs} {s : Spi} {t : Nat}

theorem spiCsN_eq (s : Spi) : s.spiCsN = 0b1111#4 := by
  show _ ||| BitVec.allOnes 4 = _
  rw [BitVec.or_allOnes]
  rfl

theorem csSelect_of_takes (h : s.takesTxByte) : s.csSelect.extractLsb' 0 4 ≠ 0#4 := by
  simp only [takesTxByte, Bool.and_eq_true, bne_iff_ne] at h
  exact h.2

-- As long as no byte starts no pin is meant to be low.
theorem intent_of_no_byte (h : ∀ u < t, ¬ (after txMem rxMem active inp u).takesTxByte) :
    (intent txMem rxMem active inp t).mask = 0 := by
  induction t with
  | zero => rfl
  | succ t ih =>
    have hprev := ih fun u hu ↦ h u (by omega)
    have hno := h t (by omega)
    show (CsIntent.next _ _ _).mask = 0
    simp only [CsIntent.next, if_neg hno, CsIntent.endByte, CsIntent.betweenBytes]
    generalize intent txMem rxMem active inp t = c at hprev ⊢
    simp only [apply_ite CsIntent.mask, hprev, CsIntent.released, ite_self]

-- The intent is as the chip selects are described: during a byte the mask is the one of its start.
theorem intent_of_busy {k u : Nat} (hku : k < u) (hk : (after txMem rxMem active inp k).takesTxByte)
    (hno : ∀ v, k < v → v < u → ¬ (after txMem rxMem active inp v).takesTxByte)
    (hbusy : ∀ v, k < v → v < u → ¬ (after txMem rxMem active inp v).samplesLastBit ∧
      (after txMem rxMem active inp v).busy) :
    (intent txMem rxMem active inp u).mask =
      (after txMem rxMem active inp k).csSelect.extractLsb' 0 4 := by
  induction u, hku using Nat.le_induction with
  | base =>
    show (CsIntent.next _ _ _).mask = _
    rw [CsIntent.next, if_pos hk]
    rfl
  | succ u hu ih =>
    have hprev := ih (fun v h1 h2 ↦ hno v h1 (by omega)) fun v h1 h2 ↦ hbusy v h1 (by omega)
    obtain ⟨hlast, hb⟩ := hbusy u hu (by omega)
    show (CsIntent.next _ _ _).mask = _
    rw [CsIntent.next, if_neg (hno u hu (by omega)), if_neg hlast, if_pos hb]
    exact hprev

/-- The chip selects follow the transfers in exactly the runs in which there is no transfer. -/
theorem csFollows_iff (txMem rxMem : BitVec 2 → Byte) (active : Byte) (inp : Nat → Inputs) (t : Nat) :
    CsFollows txMem rxMem active inp t ↔
      ∀ u < t, ¬ (after txMem rxMem active inp u).takesTxByte := by
  constructor
  · intro h u hu hk
    have hlow := h.burst (u + 1) (by omega)
    have hmask := intent_of_busy (Nat.lt_succ_self u) hk (fun v h1 h2 ↦ by omega) fun v h1 h2 ↦ by omega
    rw [spiCsN_eq, hmask] at hlow
    -- the mask of a byte is not empty
    have hzero := congrArg (~~~ ·) hlow
    rw [BitVec.not_not] at hzero
    exact csSelect_of_takes hk hzero.symm
  · intro h
    constructor
    · intro k u hku hut hk
      exact absurd hk (h k (by omega))
    · intro u hu
      rw [spiCsN_eq, intent_of_no_byte fun v hv ↦ h v (by omega)]
      rfl
    · intro j hj _ u _
      rw [spiCsN_eq]
      exact (by decide : ∀ j < 4, (0b1111#4).getLsbD j = true) j hj

/-- One byte is sent. -/
def oneByte (u : Nat) : Inputs := ⟨⟨u == 0, false, 0x3, 0x41⟩, false⟩

theorem oneByte_not_selected : ¬ CsFollows (fun _ ↦ 0) (fun _ ↦ 0) 0 oneByte 2 := by
  intro h
  have hlow := h.shifting 1 2 (by decide) (by decide) (by decide)
    (fun v h1 h2 ↦ absurd h1 (by omega)) (by decide)
  exact absurd hlow (by decide)

end Spi

end QarCore
