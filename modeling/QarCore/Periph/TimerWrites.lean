import QarCore.Periph.Pwm

/-!
# Timer writes and ticks

COUNTER, CMPx and the phase of a PWM channel are written by firmware and by the tick, and the tick
assigns them last.
-/

namespace QarCore

open Clocked (run)

namespace Timer

/-- A register whose write moves the timer. -/
inductive Setting
  | counter
  | cmp (c : Channel)
  | pwmPeriod (c : Channel)
  deriving DecidableEq

variable {s n : Timer} {b : BusAccess 6} {c : Channel} {r : Setting}

/-- The word address of the register. -/
def Setting.addrWord : Setting → BitVec 6
  | counter => 0x2
  | cmp .channel0 => 0x5
  | cmp .channel1 => 0x7
  | pwmPeriod .channel0 => 0xC
  | pwmPeriod .channel1 => 0xE

/-- What a write to the register sets: the register, or for PERIOD the counter of its channel. -/
def Setting.content (s : Timer) : Setting → Word
  | counter => s.counter
  | cmp c => s.cmp c
  | pwmPeriod c => s.pwmCounter c

/-- The value a write of `v` stands for. -/
def Setting.asked (v : Word) : Setting → Word
  | counter => v
  | cmp _ => v
  | pwmPeriod _ => 0

def writes (b : BusAccess 6) (r : Setting) : Prop := b.write = true ∧ b.addrWord = r.addrWord

/-- A write of any value to the register in this cycle takes effect. -/
def TakesWrites (s : Timer) (r : Setting) : Prop :=
  ∀ b, writes b r → r.content (posedge s b) = r.asked b.wdata

/-- The tick of this cycle moves the register itself: COUNTER on every tick, CMPx on a match that
reloads it, and the counter of a PWM channel on a tick that does not wrap it. -/
def Setting.moves (s : Timer) : Setting → Prop
  | counter => s.ticks
  | cmp c => s.compareMatch c ∧ s.cmpAutoReload c ∧ s.cmpPeriod c ≠ 0#32
  | pwmPeriod c => s.ticks ∧ (s.pwmCounter c).toNat + 1 < (s.pwmPeriod c).toNat

/-- Where the tick moves the register to. -/
def Setting.moved (s : Timer) : Setting → Word
  | counter => s.counter + 1
  | cmp c => s.cmp c + s.cmpPeriod c
  | pwmPeriod c => s.pwmCounter c + 1

/-! ## One edge -/

theorem busWrite_content (h : writes b r) : r.content (busWrite s b s) = r.asked b.wdata := by
  obtain ⟨hw, ha⟩ := h
  rw [busWrite, if_pos hw, ha]
  cases r with
  | counter => rfl
  | cmp c => cases c <;> rfl
  | pwmPeriod c => cases c <;> rfl

theorem pwmAdvance_eq (period phase : Word) : pwmAdvance period phase =
    if phase.toNat + 1 < period.toNat then phase + 1 else 0 := by
  unfold pwmAdvance
  by_cases hz : period = 0#32
  · rw [if_pos hz, hz, if_neg (by show ¬ _ + 1 < 0; omega)]
  · have hpos : 0 < period.toNat := Nat.pos_of_ne_zero fun h ↦ hz (BitVec.eq_of_toNat_eq h)
    rw [if_neg hz]
    by_cases hlt : phase.toNat + 1 < period.toNat
    · rw [if_neg (by bv_omega), if_pos hlt]
    · rw [if_neg hlt]
      split
      · rfl
      · -- only the phase 2 ^ 32 - 1 is left, whose successor is 0
        bv_omega

-- The register after the edge: where the tick moves it to, or else what the write asks for.
theorem posedge_content (h : writes b r) :
    (r.moves s → r.content (posedge s b) = r.moved s) ∧
      (¬ r.moves s → r.content (posedge s b) = r.asked b.wdata) := by
  have hwrite := busWrite_content (s := s) h
  unfold posedge
  cases r with
  | counter =>
    show (s.ticks → (tick s _).counter = s.counter + 1) ∧ (¬ s.ticks → (tick s _).counter = _)
    rw [tick_counter]
    exact ⟨fun ht ↦ if_pos ht, fun ht ↦ (if_neg ht).trans hwrite⟩
  | cmp c =>
    show (_ → (tick s _).cmp c = s.cmp c + s.cmpPeriod c) ∧ (¬ _ → (tick s _).cmp c = _)
    rw [tick_cmp_eq]
    exact ⟨fun hm ↦ if_pos hm, fun hm ↦ (if_neg hm).trans hwrite⟩
  | pwmPeriod c =>
    show (_ → (tick s _).pwmCounter c = s.pwmCounter c + 1) ∧ (¬ _ → (tick s _).pwmCounter c = 0)
    rw [tick_pwmCounter, pwmAdvance_eq]
    refine ⟨fun hm ↦ ?_, fun hm ↦ ?_⟩
    · rw [if_pos hm.1, if_pos hm.2]
    · by_cases ht : s.ticks
      · rw [if_pos ht, if_neg fun hlt ↦ hm ⟨ht, hlt⟩]
      · rw [if_neg ht]
        split
        · exact hwrite
        · rfl

-- some written value is never the one the tick leaves
theorem exists_asked_ne (hm : r.moves s) : ∃ v, r.asked v ≠ r.moved s := by
  cases r with
  | counter => exact ⟨s.counter + 2, by show s.counter + 2 ≠ s.counter + 1; bv_omega⟩
  | cmp c =>
    refine ⟨s.cmp c + s.cmpPeriod c + 1, ?_⟩
    show s.cmp c + s.cmpPeriod c + 1 ≠ s.cmp c + s.cmpPeriod c
    bv_omega
  | pwmPeriod c =>
    refine ⟨0, ?_⟩
    have hlt := hm.2
    have hmax := (s.pwmPeriod c).isLt
    show 0#32 ≠ s.pwmCounter c + 1
    bv_omega

/-- The writes to a register take effect exactly in the cycles in which the tick does not move it, and
in the other cycles what is written makes no difference. -/
theorem takesWrites_iff (s : Timer) (r : Setting) : (TakesWrites s r ↔ ¬ r.moves s) ∧
    (r.moves s → ∀ b b', writes b r → writes b' r →
      r.content (posedge s b) = r.content (posedge s b')) := by
  refine ⟨⟨fun h hm ↦ ?_, fun hm b hb ↦ (posedge_content hb).2 hm⟩, fun hm b b' hb hb' ↦ ?_⟩
  · obtain ⟨v, hv⟩ := exists_asked_ne hm
    have hb : writes ⟨true, false, r.addrWord, v⟩ r := ⟨rfl, rfl⟩
    exact hv ((h _ hb).symm.trans ((posedge_content hb).1 hm))
  · rw [(posedge_content hb).1 hm, (posedge_content hb').1 hm]

/-- CTRL with the counter enabled; the prescaler is 0. -/
def startCounter : Nat → BusAccess 6
  | 0 => ⟨true, false, 0x0, 1⟩
  | _ => ⟨false, false, 0, 0⟩

/-- With a prescaler of 0 a write to the running COUNTER is lost: it goes on from 0. -/
theorem startCounter_loses :
    (posedge (run posedge reset startCounter 1) ⟨true, false, 0x2, 100⟩).counter = 1 ∧
      ¬ TakesWrites (run posedge reset startCounter 1) .counter := by
  have hlost : (posedge (run posedge reset startCounter 1) ⟨true, false, 0x2, 100⟩).counter = 1 := by
    decide
  refine ⟨hlost, fun h ↦ ?_⟩
  have hnext : (posedge (run posedge reset startCounter 1) ⟨true, false, 0x2, 100⟩).counter = 100 :=
    h ⟨true, false, 0x2, 100⟩ ⟨rfl, rfl⟩
  rw [hlost] at hnext
  exact absurd hnext (by decide)

end Timer

end QarCore
