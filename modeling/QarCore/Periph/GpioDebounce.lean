import QarCore.Clocked.Streak
import QarCore.Periph.Gpio

/-!
# Debouncing

A debounced input pin as a glitch filter with DB_CYCLES as its threshold.  The counter is compared
before it is incremented, so that an input has to last for one cycle more than the threshold.
-/

namespace QarCore

open Clocked (run GlitchFilter)

namespace Gpio

variable {w : Nat} {s : Gpio w} {inp : Nat → Inputs w} {k : Fin w} {d : BitVec 16} {a b t n : Nat}

/-- The GPIO block after `t` cycles. -/
def after (inp : Nat → Inputs w) (t : Nat) : Gpio w := run posedge reset inp t

theorem after_succ (t : Nat) : after inp (t + 1) = posedge (after inp t) (inp t) := rfl

/-- Pin `k` over time. -/
def pinFilter (inp : Nat → Inputs w) (k : Fin w) : GlitchFilter where
  raw t := (inp t).gpioIn.getLsbD k
  level t := (after inp t).level k
  count t := ((after inp t).debounceCounter k).toNat
  threshold t := (after inp t).debounceThreshold.toNat
  filters t := (after inp t).isInput k && (after inp t).debounceEnable.getLsbD k

/-- The threshold DB_CYCLES stands for. -/
def window (d : BitVec 16) : Nat := max d.toNat 1

theorem debounceThreshold_toNat : s.debounceThreshold.toNat = window s.debounceCycles := by
  unfold debounceThreshold window
  by_cases h : s.debounceCycles = 0#16
  · simp [h]
  · have hpos : s.debounceCycles.toNat ≠ 0 := fun hz ↦ h (BitVec.eq_of_toNat_eq hz)
    rw [if_neg h]
    omega

-- The counter of a pin that is an output, or whose debouncer is off, is kept at zero.
theorem debouncePin_off {i : Inputs w} (h : (s.isInput k && s.debounceEnable.getLsbD k) = false) :
    (s.debouncePin i k).2 = 0 := by
  unfold debouncePin
  by_cases hd : s.gpioDir.getLsbD k
  · rw [if_pos hd]
  · rw [isInput, Bool.not_eq_true _ |>.mp hd, Bool.not_false, Bool.true_and] at h
    rw [if_neg hd, h]
    rfl

-- The debouncer of an input pin.
theorem debouncePin_on {i : Inputs w} (h : s.isInput k && s.debounceEnable.getLsbD k) :
    s.debouncePin i k =
      if i.gpioIn.getLsbD k = s.level k then (s.level k, 0)
      else if s.debounceThreshold ≤ s.debounceCounter k then (i.gpioIn.getLsbD k, 0)
      else (s.level k, s.debounceCounter k + 1) := by
  rw [Bool.and_eq_true] at h
  have hd : s.gpioDir.getLsbD k = false := by simpa [isInput] using h.1
  rw [debouncePin, inputOnly_eq, h.1, h.2, hd]
  rfl

-- The debounce loop keeps the law of a glitch filter.
theorem pinFilter_law (t : Nat) : (pinFilter inp k).Law t := by
  have hlevel : (pinFilter inp k).level (t + 1) = ((after inp t).debouncePin (inp t) k).1 :=
    posedge_level
  have hcount : (pinFilter inp k).count (t + 1) = ((after inp t).debouncePin (inp t) k).2.toNat := rfl
  refine ⟨?_, ?_, ?_, ?_⟩
  · intro hoff
    rw [hcount, debouncePin_off hoff]
    rfl
  · intro hon (hr : (inp t).gpioIn.getLsbD k = (after inp t).level k)
    rw [hlevel, hcount, debouncePin_on hon, if_pos hr]
    exact ⟨rfl, rfl⟩
  · intro hon (hr : (inp t).gpioIn.getLsbD k ≠ (after inp t).level k) hc
    rw [hlevel, hcount, debouncePin_on hon, if_neg hr, if_pos (BitVec.le_def.mpr hc)]
    exact ⟨rfl, rfl⟩
  · intro hon (hr : (inp t).gpioIn.getLsbD k ≠ (after inp t).level k) hc
    rw [hlevel, hcount, debouncePin_on hon, if_neg hr,
      if_neg (fun hle ↦ Nat.not_le_of_lt hc (BitVec.le_def.mp hle))]
    refine ⟨rfl, ?_⟩
    -- below a threshold of 16 bits the counter does not wrap around
    have hmax := (after inp t).debounceThreshold.isLt
    have hlt : ((after inp t).debounceCounter k).toNat < (after inp t).debounceThreshold.toNat := hc
    exact BitVec.toNat_add_of_lt (by show _ + 1 < _; omega)

theorem pinFilter_count_zero : (pinFilter inp k).count 0 = 0 := rfl

/-! ## A pin that stays a debounced input -/

/-- From cycle `a` up to cycle `b` pin `k` is an input with its debouncer on, and DB_CYCLES is `d`. -/
structure Held (inp : Nat → Inputs w) (k : Fin w) (d : BitVec 16) (a b : Nat) : Prop where
  isInput : ∀ u, a ≤ u → u < b → (after inp u).isInput k
  debounced : ∀ u, a ≤ u → u < b → (after inp u).debounceEnable.getLsbD k
  cycles : ∀ u, a ≤ u → u < b → (after inp u).debounceCycles = d

theorem Held.filters (h : Held inp k d a b) (h1 : a ≤ t) (h2 : t < b) :
    (pinFilter inp k).filters t := by
  show ((after inp t).isInput k && (after inp t).debounceEnable.getLsbD k) = true
  rw [h.isInput t h1 h2, h.debounced t h1 h2, Bool.and_self]

theorem Held.threshold (h : Held inp k d a b) (h1 : a ≤ t) (h2 : t < b) :
    (pinFilter inp k).threshold t = window d := by
  show (after inp t).debounceThreshold.toNat = _
  rw [debounceThreshold_toNat, h.cycles t h1 h2]

-- An input pin whose filtered level has not changed raises no event.
theorem irqStatus_of_level (h1 : (after inp t).isInput k) (h2 : (after inp (t + 1)).isInput k)
    (hl : (after inp (t + 1)).level k = (after inp t).level k) :
    (after inp (t + 2)).irqStatus.getLsbD k =
      ((after inp (t + 1)).irqStatus.getLsbD k && !acknowledges (inp (t + 1)).bus k) := by
  have hlast : (after inp (t + 1)).lastInput.getLsbD k = (after inp t).level k := by
    rw [after_succ, posedge_lastInput, h1, Bool.true_and]
  rw [after_succ (t + 1), posedge_irqStatus, irqEvents_eq, hlast, h2, Bool.true_and, hl]
  cases (after inp t).level k <;> simp

/-- For no more than `n` cycles after cycle `t` the input is away from the filtered level: neither the
level nor IRQ_STATUS takes notice of it. -/
structure IgnoresPulse (inp : Nat → Inputs w) (k : Fin w) (t n b : Nat) : Prop where
  level : ∀ u, t ≤ u → u ≤ t + n + 2 → (after inp u).level k = (after inp t).level k
  irqStatus : ∀ u, t < u → u ≤ t + n + 2 → u < b → (after inp (u + 1)).irqStatus.getLsbD k =
    ((after inp u).irqStatus.getLsbD k && !acknowledges (inp u).bus k)

/-- What debouncing is expected to do between the cycles `a` and `b`. -/
structure DebouncesExactly (inp : Nat → Inputs w) (k : Fin w) (d : BitVec 16) (a b : Nat) : Prop where
  /-- The filtered level changes only after the input has differed from it for the window. -/
  only : ∀ t, a ≤ t → t < b → (after inp (t + 1)).level k ≠ (after inp t).level k → window d ≤ t ∧
    ∀ u, t ≤ u + window d → u ≤ t → (inp u).gpioIn.getLsbD k ≠ (after inp t).level k
  /-- It does change once the input has differed from it for the window and one cycle more. -/
  does : ∀ t, a + window d ≤ t → t < b →
    (∀ u, t ≤ u + window d → u ≤ t → (inp u).gpioIn.getLsbD k ≠ (after inp t).level k) →
    (after inp (t + 1)).level k ≠ (after inp t).level k
  /-- A pulse no longer than the window has no effect. -/
  pulse : ∀ t n, a ≤ t → t + n + 1 < b → n ≤ window d →
    (inp t).gpioIn.getLsbD k = (after inp t).level k →
    (inp (t + n + 1)).gpioIn.getLsbD k = (after inp t).level k → IgnoresPulse inp k t n b

/-- Debouncing is exact for every threshold and every waveform. -/
theorem debounce_exact (h : Held inp k d a b) : DebouncesExactly inp k d a b where
  only := by
    intro t h1 h2 hc
    have hdiff := GlitchFilter.differs_of_change pinFilter_count_zero pinFilter_law (h.filters h1 h2) hc
    rwa [h.threshold h1 h2] at hdiff
  does := by
    intro t h1 h2 hr
    have hlen := h.threshold (show a ≤ t by omega) h2
    apply GlitchFilter.change_of_differs (f := pinFilter inp k) pinFilter_count_zero pinFilter_law
    · omega
    · intro u h3 h4
      exact h.filters (by omega) (by omega)
    · rw [hlen]
      exact hr
  pulse := by
    intro t n h1 h2 hn hstart hend
    have hlevel (u : Nat) (h3 : t ≤ u) (h4 : u ≤ t + n + 2) :
        (after inp u).level k = (after inp t).level k := by
      apply GlitchFilter.level_of_pulse (f := pinFilter inp k) pinFilter_count_zero pinFilter_law
        (fun v h5 h6 ↦ h.filters (by omega) (by omega)) _ hstart hend h3 h4
      intro v h5 h6
      rw [h.threshold (by omega) (by omega)]
      exact hn
    refine ⟨hlevel, ?_⟩
    intro u h3 h4 h5
    obtain ⟨v, rfl⟩ := Nat.exists_eq_add_of_lt (show 0 < u by omega)
    rw [Nat.zero_add] at *
    apply irqStatus_of_level (h.isInput v (by omega) (by omega)) (h.isInput _ (by omega) h5)
    rw [hlevel v (by omega) (by omega), hlevel (v + 1) (by omega) h4]

/-- DB_EN for pin 0 and a window of two cycles, then a pulse of two cycles and one that lasts. -/
def bounces : Nat → Inputs 32
  | 0 => ⟨⟨true, false, 0xA, 1⟩, 0, false, false⟩
  | 1 => ⟨⟨true, false, 0xB, 2⟩, 0, false, false⟩
  | t => ⟨⟨false, false, 0, 0⟩, if t = 5 ∨ t = 6 ∨ 10 ≤ t then 1 else 0, false, false⟩

/-- The second pulse goes through in its third cycle. -/
theorem bounces_debounced : Held bounces 0 2 2 16 ∧ DebouncesExactly bounces 0 2 2 16 ∧
    (after bounces 12).level 0 = false ∧ (after bounces 13).level 0 = true := by
  have h : Held bounces 0 2 2 16 := by
    refine ⟨?_, ?_, ?_⟩ <;> intro u h1 h2 <;> interval_cases u <;> decide +kernel
  exact ⟨h, debounce_exact h, by decide +kernel, by decide +kernel⟩

end Gpio

end QarCore
