import QarCore.Clocked.PeriodicCompare
import QarCore.Periph.Timer

/-!
# The compare channels of the timer

An auto-reloading compare channel as a compare register that reloads itself.  CMP = 0 switches a
channel off, and a reload that wraps around to 0 does the same.
-/

namespace QarCore

open Clocked (run PeriodicCompare)

namespace Timer

variable {s n : Timer} {b : BusAccess 6} {inp : Nat → BusAccess 6}

inductive Channel
  | channel0
  | channel1
  deriving DecidableEq

def cmp (s : Timer) : Channel → Word
  | .channel0 => s.cmp0
  | .channel1 => s.cmp1

def cmpPeriod (s : Timer) : Channel → Word
  | .channel0 => s.cmp0Period
  | .channel1 => s.cmp1Period

def cmpAutoReload (s : Timer) : Channel → Bool
  | .channel0 => s.cmp0AutoReload
  | .channel1 => s.cmp1AutoReload

/-- The STATUS bit of the channel. -/
def Channel.statusBit : Channel → Nat
  | .channel0 => 0
  | .channel1 => 1

/-- The channel has a match in this cycle. -/
def compareMatch (s : Timer) (c : Channel) : Bool := s.ticks && s.cmp c != 0#32 && s.counter == s.cmp c

/-- A compare channel of a timer that runs from `s` on. -/
def compareRun (c : Channel) (s : Timer) (inp : Nat → BusAccess 6) : PeriodicCompare 32 where
  count t := (run posedge s inp t).counter
  cmp t := (run posedge s inp t).cmp c
  tick t := (run posedge s inp t).ticks
  period := s.cmpPeriod c

/-! ## One tick -/

theorem tick_counter : (tick s n).counter = if s.ticks then s.counter + 1 else n.counter := by
  simp only [tick, decrementWdt, compare, Timer.ticks, apply_ite Timer.counter, ite_self]
  by_cases he : s.counterEnable <;> by_cases hp : s.prescaleCnt ≥ s.prescale <;> simp [he, hp]

-- A match latches the STATUS bit of its channel.
theorem tick_status_of_match {c : Channel} (h : s.compareMatch c) :
    (tick s n).status.getLsbD c.statusBit := by
  simp only [compareMatch, Timer.ticks, Bool.and_eq_true, decide_eq_true_eq] at h
  obtain ⟨⟨⟨he, hp⟩, hz⟩, hc⟩ := h
  rw [tick, if_pos he, if_pos hp]
  cases c with
  | channel0 =>
    replace hz : (s.cmp0 != 0#32) = true := hz
    replace hc : (s.counter == s.cmp0) = true := hc
    show (compare s _).status.getLsbD 0
    simp only [compare, hz, hc, Bool.and_self, ↓reduceIte]
    -- a match of channel 1 leaves bit 0 alone
    split <;> simp [getLsbD_setBit, -BitVec.getLsbD_eq_getElem]
  | channel1 =>
    replace hz : (s.cmp1 != 0#32) = true := hz
    replace hc : (s.counter == s.cmp1) = true := hc
    show (compare s _).status.getLsbD 1
    simp only [compare, hz, hc, Bool.and_self, ↓reduceIte]
    simp [getLsbD_setBit, -BitVec.getLsbD_eq_getElem]

-- A compare register reloads when it matches, or is left to the write.
theorem tick_cmp_eq {c : Channel} : (tick s n).cmp c =
    if s.compareMatch c ∧ s.cmpAutoReload c ∧ s.cmpPeriod c ≠ 0#32 then s.cmp c + s.cmpPeriod c
    else n.cmp c := by
  cases c with
  | channel0 =>
    show (tick s n).cmp0 = if (s.ticks && s.cmp0 != 0#32 && s.counter == s.cmp0) ∧ s.cmp0AutoReload ∧
      s.cmp0Period ≠ 0#32 then s.cmp0 + s.cmp0Period else n.cmp0
    simp only [tick, decrementWdt, compare, Timer.ticks, apply_ite Timer.cmp0, ite_self]
    by_cases he : s.counterEnable <;> by_cases ht : s.prescaleCnt ≥ s.prescale <;>
      by_cases ha : s.cmp0AutoReload <;> by_cases hp : s.cmp0Period = 0#32 <;> simp [he, ht, ha, hp]
  | channel1 =>
    show (tick s n).cmp1 = if (s.ticks && s.cmp1 != 0#32 && s.counter == s.cmp1) ∧ s.cmp1AutoReload ∧
      s.cmp1Period ≠ 0#32 then s.cmp1 + s.cmp1Period else n.cmp1
    simp only [tick, decrementWdt, compare, Timer.ticks, apply_ite Timer.cmp1, ite_self]
    by_cases he : s.counterEnable <;> by_cases ht : s.prescaleCnt ≥ s.prescale <;>
      by_cases ha : s.cmp1AutoReload <;> by_cases hp : s.cmp1Period = 0#32 <;> simp [he, ht, ha, hp]

theorem tick_cmp {c : Channel} (ha : s.cmpAutoReload c) (hp : s.cmpPeriod c ≠ 0#32) :
    (tick s n).cmp c = if s.compareMatch c then s.cmp c + s.cmpPeriod c else n.cmp c := by
  rw [tick_cmp_eq]
  simp only [ha, hp, ne_eq, not_false_eq_true, and_self, and_true]

-- The registers that only the bus writes.
theorem tick_settings : (tick s n).ctrl = n.ctrl ∧ (tick s n).prescale = n.prescale ∧
    (tick s n).cmp0Period = n.cmp0Period ∧ (tick s n).cmp1Period = n.cmp1Period := by
  refine ⟨?_, ?_, ?_, ?_⟩
  · simp only [tick, decrementWdt, compare, apply_ite Timer.ctrl, ite_self]
  · simp only [tick, decrementWdt, compare, apply_ite Timer.prescale, ite_self]
  · simp only [tick, decrementWdt, compare, apply_ite Timer.cmp0Period, ite_self]
  · simp only [tick, decrementWdt, compare, apply_ite Timer.cmp1Period, ite_self]

theorem tick_prescaleCnt : (tick s n).prescaleCnt =
    if s.counterEnable && !s.ticks then s.prescaleCnt + 1 else 0 := by
  simp only [tick, decrementWdt, compare, Timer.ticks, apply_ite Timer.prescaleCnt, ite_self]
  by_cases he : s.counterEnable <;> by_cases hp : s.prescaleCnt ≥ s.prescale <;> simp [he, hp]

/-! ## Runs without register writes -/

theorem compareRun_fires (c : Channel) (t : Nat) :
    (compareRun c s inp).fires t = (run posedge s inp t).compareMatch c := rfl

section

variable (hquiet : ∀ t, (inp t).write = false)
include hquiet

theorem run_succ_of_quiet (t : Nat) :
    run posedge s inp (t + 1) = tick (run posedge s inp t) (run posedge s inp t) := by
  rw [Clocked.run_succ, posedge, busWrite, hquiet t, if_neg Bool.false_ne_true]

-- The settings stay as they are.
theorem run_settings (t : Nat) : (run posedge s inp t).ctrl = s.ctrl ∧
    (run posedge s inp t).prescale = s.prescale ∧ (run posedge s inp t).cmp0Period = s.cmp0Period ∧
    (run posedge s inp t).cmp1Period = s.cmp1Period := by
  induction t with
  | zero => exact ⟨rfl, rfl, rfl, rfl⟩
  | succ t ih =>
    obtain ⟨h1, h2, h3, h4⟩ := tick_settings (s := run posedge s inp t) (n := run posedge s inp t)
    rw [run_succ_of_quiet hquiet]
    exact ⟨h1.trans ih.1, h2.trans ih.2.1, h3.trans ih.2.2.1, h4.trans ih.2.2.2⟩

theorem run_counterEnable (he : s.counterEnable) (t : Nat) : (run posedge s inp t).counterEnable := by
  rw [counterEnable, (run_settings hquiet t).1]
  exact he

theorem run_cmpPeriod (c : Channel) (t : Nat) :
    (run posedge s inp t).cmpPeriod c = s.cmpPeriod c := by
  obtain ⟨-, -, h0, h1⟩ := run_settings (s := s) hquiet t
  cases c with
  | channel0 => exact h0
  | channel1 => exact h1

theorem run_cmpAutoReload (c : Channel) (t : Nat) :
    (run posedge s inp t).cmpAutoReload c = s.cmpAutoReload c := by
  obtain ⟨h, -, -, -⟩ := run_settings (s := s) hquiet t
  cases c with
  | channel0 => exact congrArg (·.getLsbD 1) h
  | channel1 => exact congrArg (·.getLsbD 2) h

-- The prescaler of an enabled counter lets ticks through for ever, whatever its divider.
theorem run_ticking (he : s.counterEnable) (t : Nat) : ∃ u, t ≤ u ∧ (run posedge s inp u).ticks := by
  apply Clocked.event_of_rank (fun u ↦ s.prescale.toNat - (run posedge s inp u).prescaleCnt.toNat)
  intro u
  by_cases ht : (run posedge s inp u).ticks
  · exact ⟨u, Nat.le_refl u, .inl ht⟩
  · refine ⟨u + 1, Nat.le_succ u, .inr ?_⟩
    have hen := run_counterEnable hquiet he u
    have hlt : (run posedge s inp u).prescaleCnt < s.prescale := by
      rw [← (run_settings hquiet u).2.1]
      simpa [Timer.ticks, hen] using ht
    have hnext : (run posedge s inp (u + 1)).prescaleCnt = (run posedge s inp u).prescaleCnt + 1 := by
      rw [run_succ_of_quiet hquiet, tick_prescaleCnt, hen, Bool.not_eq_true _ |>.mp ht]
      rfl
    have hmax := s.prescale.isLt
    rw [BitVec.lt_def] at hlt
    -- below the divider the count does not wrap around
    have hadd : ((run posedge s inp u).prescaleCnt + 1).toNat =
        (run posedge s inp u).prescaleCnt.toNat + 1 :=
      BitVec.toNat_add_of_lt (by show _ + 1 < _; omega)
    rw [hnext, hadd]
    omega

-- An enabled auto-reloading channel with a period is a compare register that reloads itself.
theorem compareRun_law {c : Channel} (he : s.counterEnable) (ha : s.cmpAutoReload c)
    (hp : s.cmpPeriod c ≠ 0#32) : (compareRun c s inp).Law where
  count_succ t := by
    show (run posedge s inp (t + 1)).counter = _
    rw [run_succ_of_quiet hquiet, tick_counter]
    rfl
  cmp_succ t := by
    have ha' : (run posedge s inp t).cmpAutoReload c := by
      rw [run_cmpAutoReload hquiet]
      exact ha
    have hp' : (run posedge s inp t).cmpPeriod c ≠ 0#32 := by
      rw [run_cmpPeriod hquiet]
      exact hp
    show (run posedge s inp (t + 1)).cmp c = _
    rw [run_succ_of_quiet hquiet, tick_cmp ha' hp', run_cmpPeriod hquiet c, compareRun_fires]
    rfl
  ticking := run_ticking hquiet he

end

/-- An enabled channel with auto-reload and a period, in a cycle in which it has a match, and no
register write from then on. -/
structure RunsFreely (c : Channel) (s : Timer) (inp : Nat → BusAccess 6) : Prop where
  counterEnable : s.counterEnable
  autoReload : s.cmpAutoReload c
  period : s.cmpPeriod c ≠ 0#32
  quiet : ∀ t, (inp t).write = false
  matched : s.compareMatch c

/-- From a match on, the channel matches every CMP_PERIOD ticks for ever exactly if CMP never wraps
around to 0, that is, if CMP is not a multiple of the greatest common divisor of the period and
2 ^ 32. -/
theorem compare_periodic_iff {c : Channel} (h : RunsFreely c s inp) : (compareRun c s inp).Periodic ↔
    ¬ Nat.gcd (s.cmpPeriod c).toNat (2 ^ 32) ∣ (s.cmp c).toNat :=
  PeriodicCompare.periodic_iff (compareRun_law h.quiet h.counterEnable h.autoReload h.period) h.matched
    h.period

/-- CMP0_PERIOD, CMP0 and COUNTER, and then CTRL with enable and auto-reload for channel 0. -/
def setCompare (period start : Word) : Nat → BusAccess 6
  | 0 => ⟨true, false, 0x6, period⟩
  | 1 => ⟨true, false, 0x5, start⟩
  | 2 => ⟨true, false, 0x2, start⟩
  | 3 => ⟨true, false, 0x0, 0b11⟩
  | _ => ⟨false, false, 0, 0⟩

/-- The timer in the cycle of its first match. -/
def firstMatch (period start : Word) : Timer := run posedge reset (setCompare period start) 4

def noAccess (_ : Nat) : BusAccess 6 := ⟨false, false, 0, 0⟩

/-- A period of 2 from an odd start on never meets 0. -/
theorem oddStart_periodic : RunsFreely .channel0 (firstMatch 2 5) noAccess ∧
    (compareRun .channel0 (firstMatch 2 5) noAccess).Periodic := by
  have h : RunsFreely .channel0 (firstMatch 2 5) noAccess :=
    ⟨by decide, by decide, by decide, fun _ ↦ rfl, by decide⟩
  exact ⟨h, (compare_periodic_iff h).mpr (by decide)⟩

/-- With the last value of the counter as compare value and a period of 1, the tick after the first
match should match again, but CMP0 has become 0. -/
theorem lastCount_stops : RunsFreely .channel0 (firstMatch 1 0xFFFFFFFF) noAccess ∧
    ¬ (compareRun .channel0 (firstMatch 1 0xFFFFFFFF) noAccess).Periodic := by
  refine ⟨⟨by decide, by decide, by decide, fun _ ↦ rfl, by decide⟩, fun h ↦ ?_⟩
  have hnext := (h.every 1).mpr ⟨by decide, by decide⟩
  exact absurd hnext (by decide)

end Timer

end QarCore
