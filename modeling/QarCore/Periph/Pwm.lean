import QarCore.Clocked.PulseWidth
import QarCore.Periph.TimerCompare

/-!
# The PWM channels of the timer

A PWM channel as a phase that counts prescaled ticks modulo PERIOD.
-/

namespace QarCore

open Clocked (run PulseWidth)

namespace Timer

variable {s n : Timer} {inp : Nat → BusAccess 6} {c : Channel}

def pwmPeriod (s : Timer) : Channel → Word
  | .channel0 => s.pwm0Period
  | .channel1 => s.pwm1Period

def pwmDuty (s : Timer) : Channel → Word
  | .channel0 => s.pwm0Duty
  | .channel1 => s.pwm1Duty

def pwmCounter (s : Timer) : Channel → Word
  | .channel0 => s.pwm0Counter
  | .channel1 => s.pwm1Counter

def pwmOut (s : Timer) : Channel → Bool
  | .channel0 => s.pwm0Out
  | .channel1 => s.pwm1Out

/-- A PWM channel of a timer that runs from `s` on. -/
def pwmRun (c : Channel) (s : Timer) (inp : Nat → BusAccess 6) : PulseWidth 32 where
  phase t := (run posedge s inp t).pwmCounter c
  level t := (run posedge s inp t).pwmOut c
  tick t := (run posedge s inp t).ticks
  period := s.pwmPeriod c
  duty := s.pwmDuty c

/-! ## One tick -/

theorem tick_pwmCounter : (tick s n).pwmCounter c =
    if s.ticks then pwmAdvance (s.pwmPeriod c) (s.pwmCounter c)
    else if s.counterEnable then n.pwmCounter c else 0 := by
  cases c with
  | channel0 =>
    show (tick s n).pwm0Counter = if s.ticks then pwmAdvance s.pwm0Period s.pwm0Counter
      else if s.counterEnable then n.pwm0Counter else 0
    simp only [tick, Timer.ticks, apply_ite Timer.pwm0Counter]
    by_cases he : s.counterEnable <;> by_cases hp : s.prescaleCnt ≥ s.prescale <;> simp [he, hp]
  | channel1 =>
    show (tick s n).pwm1Counter = if s.ticks then pwmAdvance s.pwm1Period s.pwm1Counter
      else if s.counterEnable then n.pwm1Counter else 0
    simp only [tick, Timer.ticks, apply_ite Timer.pwm1Counter]
    by_cases he : s.counterEnable <;> by_cases hp : s.prescaleCnt ≥ s.prescale <;> simp [he, hp]

theorem tick_pwmOut (he : s.counterEnable) : (tick s n).pwmOut c =
    if s.ticks then pwmLevel (s.pwmPeriod c) (s.pwmDuty c) (s.pwmCounter c) else n.pwmOut c := by
  cases c with
  | channel0 =>
    show (tick s n).pwm0Out =
      if s.ticks then pwmLevel s.pwm0Period s.pwm0Duty s.pwm0Counter else n.pwm0Out
    simp only [tick, Timer.ticks, apply_ite Timer.pwm0Out, he]
    by_cases hp : s.prescaleCnt ≥ s.prescale <;> simp [hp]
  | channel1 =>
    show (tick s n).pwm1Out =
      if s.ticks then pwmLevel s.pwm1Period s.pwm1Duty s.pwm1Counter else n.pwm1Out
    simp only [tick, Timer.ticks, apply_ite Timer.pwm1Out, he]
    by_cases hp : s.prescaleCnt ≥ s.prescale <;> simp [hp]

-- PERIOD and DUTY are written by the bus only
theorem tick_pwmSettings :
    (tick s n).pwmPeriod c = n.pwmPeriod c ∧ (tick s n).pwmDuty c = n.pwmDuty c := by
  cases c with
  | channel0 =>
    show (tick s n).pwm0Period = n.pwm0Period ∧ (tick s n).pwm0Duty = n.pwm0Duty
    simp only [tick, decrementWdt, compare, apply_ite Timer.pwm0Period, apply_ite Timer.pwm0Duty,
      ite_self, and_self]
  | channel1 =>
    show (tick s n).pwm1Period = n.pwm1Period ∧ (tick s n).pwm1Duty = n.pwm1Duty
    simp only [tick, decrementWdt, compare, apply_ite Timer.pwm1Period, apply_ite Timer.pwm1Duty,
      ite_self, and_self]

/-! ## Runs without register writes -/

section

variable (hquiet : ∀ t, (inp t).write = false)
include hquiet

theorem run_pwmSettings (t : Nat) : (run posedge s inp t).pwmPeriod c = s.pwmPeriod c ∧
    (run posedge s inp t).pwmDuty c = s.pwmDuty c := by
  induction t with
  | zero => exact ⟨rfl, rfl⟩
  | succ t ih =>
    obtain ⟨hp, hd⟩ := tick_pwmSettings (s := run posedge s inp t) (n := run posedge s inp t) (c := c)
    rw [run_succ_of_quiet hquiet]
    exact ⟨hp.trans ih.1, hd.trans ih.2⟩

theorem pwmRun_law (he : s.counterEnable) (hp : s.pwmPeriod c ≠ 0#32) : (pwmRun c s inp).Law where
  phase_succ t := by
    have hen := run_counterEnable hquiet he t
    obtain ⟨hperiod, -⟩ := run_pwmSettings (s := s) (c := c) hquiet t
    show (run posedge s inp (t + 1)).pwmCounter c = _
    rw [run_succ_of_quiet hquiet, tick_pwmCounter, if_pos hen, hperiod, pwmAdvance, if_neg hp]
    rfl
  level_succ t := by
    have hen := run_counterEnable hquiet he t
    obtain ⟨hperiod, hduty⟩ := run_pwmSettings (s := s) (c := c) hquiet t
    show (run posedge s inp (t + 1)).pwmOut c = _
    rw [run_succ_of_quiet hquiet, tick_pwmOut hen, hperiod, hduty, pwmLevel, bne_iff_ne.mpr hp,
      Bool.true_and]
    rfl

end

/-- The counter is enabled, the channel has a period and its counter is below it, and no register is
written from then on. -/
structure Modulates (c : Channel) (s : Timer) (inp : Nat → BusAccess 6) : Prop where
  counterEnable : s.counterEnable
  period : 1 ≤ (s.pwmPeriod c).toNat
  phase : s.pwmCounter c < s.pwmPeriod c
  quiet : ∀ t, (inp t).write = false

/-- The duty of a PWM channel is exact for every period, duty and prescale. -/
theorem pwm_exact (h : Modulates c s inp) : (pwmRun c s inp).ExactDuty := by
  have hp : s.pwmPeriod c ≠ 0#32 := by
    intro hz
    have hone := h.period
    rw [hz] at hone
    exact absurd hone (by decide)
  exact PulseWidth.exactDuty (pwmRun_law h.quiet h.counterEnable hp) h.phase
    (run_ticking h.quiet h.counterEnable)

/-- PWM0_PERIOD, PWM0_DUTY and PRESCALE, and then CTRL with the counter enabled. -/
def setPwm (period duty prescale : Word) : Nat → BusAccess 6
  | 0 => ⟨true, false, 0xC, period⟩
  | 1 => ⟨true, false, 0xD, duty⟩
  | 2 => ⟨true, false, 0x1, prescale⟩
  | 3 => ⟨true, false, 0x0, 1⟩
  | _ => ⟨false, false, 0, 0⟩

/-- Three ticks of five are high. -/
theorem threeOfFive_exact : Modulates .channel0 (run posedge reset (setPwm 5 3 1) 4) noAccess ∧
    (pwmRun .channel0 (run posedge reset (setPwm 5 3 1) 4) noAccess).ExactDuty := by
  have h : Modulates .channel0 (run posedge reset (setPwm 5 3 1) 4) noAccess :=
    ⟨by decide, by decide, by decide, fun _ ↦ rfl⟩
  exact ⟨h, pwm_exact h⟩

end Timer

end QarCore
