import QarCore.Clocked.Countdown
import QarCore.Periph.Timer

/-!
# The watchdog of the timer

The watchdog as a reloadable down counter.  The tick is the last assignment of the clocked block, so
a reload that falls on a tick of the running counter is overwritten by the decrement.
-/

namespace QarCore

open Clocked (run Countdown)

namespace Timer

variable {s n : Timer} {b : BusAccess 6} {inp : Nat → BusAccess 6} {L : Word}

/-- A kick and the value it loads: a WDT_CTRL write with bits 0 and 1, or a non-zero WDT_LOAD write
while the watchdog is enabled. -/
def kick (s : Timer) (b : BusAccess 6) : Option Word :=
  if b.write && b.addrWord == 0xA#6 && b.wdata.getLsbD 0 && b.wdata.getLsbD 1 then some s.wdtLoad
  else if b.write && b.addrWord == 0x9#6 && s.wdtEnable && b.wdata != 0#32 then some b.wdata
  else none

/-- The WDT_CTRL write that enables the watchdog loads it as well. -/
def enables (s : Timer) (b : BusAccess 6) : Option Word :=
  if b.write && b.addrWord == 0xA#6 && !s.wdtEnable && b.wdata.getLsbD 0 then some s.wdtLoad
  else none

/-- A reload of the count: a kick, or the enabling of the watchdog. -/
def reload (s : Timer) (b : BusAccess 6) : Option Word := (kick s b).orElse fun _ ↦ enables s b

/-- Counter and watchdog are enabled, with a load value of at least 1. -/
def wdtRuns (s : Timer) : Prop := s.counterEnable ∧ s.wdtEnable ∧ s.wdtLoad ≠ 0#32

def wdtExpired (s : Timer) : Bool := s.status.getLsbD 2

/-- The watchdog of a run of the timer from reset. -/
def watchdog (inp : Nat → BusAccess 6) : Countdown where
  count t := (run posedge reset inp t).wdtCounter.toNat
  expired t := (run posedge reset inp t).wdtExpired
  reload t := (reload (run posedge reset inp t) (inp t)).map BitVec.toNat
  tick t := (run posedge reset inp t).ticks
  live t := (run posedge reset inp t).wdtRuns

/-- The watchdog counts down in this cycle. -/
def decrements (s : Timer) : Bool := s.ticks && s.wdtEnable && s.wdtCounter != 0#32

/-- A kick with a non-zero load in a cycle that counts down, unless the count happens to fall to
that load. -/
def kickLost (s : Timer) (b : BusAccess 6) : Prop :=
  s.decrements ∧ ∃ L, kick s b = some L ∧ L ≠ 0#32 ∧ s.wdtCounter - 1 ≠ L

/-! ## One edge -/

theorem tick_wdtCounter :
    (tick s n).wdtCounter = if s.decrements then s.wdtCounter - 1 else n.wdtCounter := by
  simp only [tick, decrementWdt, compare, decrements, Timer.ticks, apply_ite Timer.wdtCounter, ite_self]
  by_cases he : s.counterEnable <;> by_cases hp : s.prescaleCnt ≥ s.prescale <;> simp [he, hp]

theorem compare_wdtExpired : (compare s n).wdtExpired = n.wdtExpired := by
  simp [compare, wdtExpired, apply_ite Timer.status, apply_ite (BitVec.getLsbD · 2), getLsbD_setBit,
    -BitVec.getLsbD_eq_getElem]

theorem decrementWdt_wdtExpired : (decrementWdt s n).wdtExpired =
    if s.wdtEnable && s.wdtCounter == 1#32 then true else n.wdtExpired := by
  unfold decrementWdt
  by_cases h1 : s.wdtCounter = 1#32
  · -- the count that reaches zero is not zero before
    cases s.wdtEnable <;> simp [h1, wdtExpired, getLsbD_setBit, -BitVec.getLsbD_eq_getElem]
  · simp [h1, wdtExpired, apply_ite Timer.status]

theorem tick_wdtExpired : (tick s n).wdtExpired =
    if s.ticks && s.wdtEnable && s.wdtCounter == 1#32 then true else n.wdtExpired := by
  unfold tick
  by_cases he : s.counterEnable <;> by_cases hp : s.prescaleCnt ≥ s.prescale
  · rw [if_pos he, if_pos hp]
    show (compare s (decrementWdt s _)).wdtExpired = _
    rw [compare_wdtExpired, decrementWdt_wdtExpired]
    simp [Timer.ticks, he, hp, wdtExpired]
  all_goals simp [Timer.ticks, he, hp, wdtExpired]

theorem tick_wdtEnable : (tick s n).wdtEnable = n.wdtEnable := by
  simp only [tick, decrementWdt, compare, apply_ite Timer.wdtEnable, ite_self]

theorem tick_wdtLoad : (tick s n).wdtLoad = n.wdtLoad := by
  simp only [tick, decrementWdt, compare, apply_ite Timer.wdtLoad, ite_self]

-- The two registers a reload can come from.
theorem reload_cases : reload s b =
    if b.write && b.addrWord == 0xA#6 && b.wdata.getLsbD 0 && (b.wdata.getLsbD 1 || !s.wdtEnable) then
      some s.wdtLoad
    else if b.write && b.addrWord == 0x9#6 && s.wdtEnable && b.wdata != 0#32 then some b.wdata
    else none := by
  unfold reload kick enables
  by_cases ha : b.addrWord = 0xA#6
  · cases b.write <;> cases b.wdata.getLsbD 0 <;> cases b.wdata.getLsbD 1 <;> cases s.wdtEnable <;>
      simp [ha]
  · simp [ha]

theorem busWrite_ctrl (hw : b.write) (ha : b.addrWord = 0xA#6) :
    busWrite s b s = writeWdtCtrl s b.wdata s := by
  simp [busWrite, hw, ha]

theorem busWrite_load (hw : b.write) (ha : b.addrWord = 0x9#6) :
    busWrite s b s = writeWdtLoad s b.wdata s := by
  simp [busWrite, hw, ha]

-- The register writes of a reload load the count and clear the flag.
theorem busWrite_of_reload (h : reload s b = some L) :
    (busWrite s b s).wdtCounter = L ∧ (busWrite s b s).wdtExpired = false := by
  have hclear (m : Timer) : (reloadWdt L m).wdtExpired = false := by
    simp [wdtExpired, reloadWdt, getLsbD_setBit, -BitVec.getLsbD_eq_getElem]
  rw [reload_cases] at h
  split at h
  next hc =>
    simp only [Bool.and_eq_true, Bool.or_eq_true, beq_iff_eq, Bool.not_eq_true'] at hc
    obtain ⟨⟨⟨hw, ha⟩, h0⟩, h1⟩ := hc
    injection h with h
    subst h
    rw [busWrite_ctrl hw ha, writeWdtCtrl]
    rcases h1 with h1 | h1
    · simp only [h1, ↓reduceIte]
      exact ⟨rfl, hclear _⟩
    · simp only [h0, h1, Bool.not_false, Bool.true_and, ↓reduceIte]
      split <;> exact ⟨rfl, hclear _⟩
  next =>
    split at h
    next hc =>
      simp only [Bool.and_eq_true, beq_iff_eq, bne_iff_ne] at hc
      obtain ⟨⟨⟨hw, ha⟩, he⟩, -⟩ := hc
      injection h with h
      subst h
      rw [busWrite_load hw ha, writeWdtLoad, if_pos he]
      exact ⟨rfl, hclear _⟩
    next => exact absurd h (by simp)

-- Without a reload they leave the count of a watchdog that keeps running alone.
theorem busWrite_of_no_reload (h : reload s b = none) (hen : (busWrite s b s).wdtEnable)
    (hload : (busWrite s b s).wdtLoad ≠ 0#32) : (busWrite s b s).wdtCounter = s.wdtCounter := by
  by_cases hw : b.write
  · by_cases ha : b.addrWord = 0xA#6
    · rw [busWrite_ctrl hw ha] at hen ⊢
      have h0 : b.wdata.getLsbD 0 := by
        simpa only [writeWdtCtrl, reloadWdt, apply_ite Timer.wdtEnable, ite_self] using hen
      have h1 : b.wdata.getLsbD 1 = false ∧ s.wdtEnable = true := by
        simpa [reload_cases, hw, ha, h0] using h
      simp [writeWdtCtrl, h1, -BitVec.getLsbD_eq_getElem]
    · by_cases h9 : b.addrWord = 0x9#6
      · rw [busWrite_load hw h9] at hload ⊢
        have hne : b.wdata ≠ 0#32 := by
          simpa only [writeWdtLoad, reloadWdt, apply_ite Timer.wdtLoad, ite_self] using hload
        have he : s.wdtEnable = false := by simpa [reload_cases, hw, h9, hne] using h
        simp [writeWdtLoad, he]
      · simp only [busWrite, if_neg ha, if_neg h9, writeCaptureCtrl, apply_ite Timer.wdtCounter, ite_self]
  · rw [busWrite, if_neg hw]

-- A register write never raises the flag.
theorem busWrite_wdtExpired (h : s.wdtExpired = false) : (busWrite s b s).wdtExpired = false := by
  have h2 : s.status.getLsbD 2 = false := h
  simp [busWrite, writeWdtCtrl, writeWdtLoad, writeCaptureCtrl, reloadWdt, wdtExpired,
    apply_ite Timer.status, apply_ite (BitVec.getLsbD · 2), getLsbD_setBit, h2,
    -BitVec.getLsbD_eq_getElem]

-- A reload takes effect exactly if the decrement does not overwrite it.
theorem posedge_reload_iff (h : reload s b = some L) (hL : L ≠ 0#32) :
    (posedge s b).wdtCounter = L ∧ (posedge s b).wdtExpired = false ↔ ¬ kickLost s b := by
  obtain ⟨hcount, hexp⟩ := busWrite_of_reload h
  unfold posedge
  rw [tick_wdtCounter, tick_wdtExpired, hcount, hexp]
  by_cases hd : s.decrements
  · -- the watchdog is enabled, so the reload is a kick
    have hen : s.wdtEnable := by
      simp only [decrements, Bool.and_eq_true] at hd
      exact hd.1.2
    have hkick : kick s b = some L := by
      simpa [reload, enables, hen] using h
    rw [if_pos hd]
    constructor
    · rintro ⟨rfl, -⟩ ⟨-, L', hL', -, hne⟩
      rw [hkick] at hL'
      exact hne (Option.some.inj hL')
    · intro hk
      have heq : s.wdtCounter - 1 = L := by
        by_contra hne
        exact hk ⟨hd, L, hkick, hL, hne⟩
      have hone : s.wdtCounter ≠ 1#32 := by
        rintro hone
        rw [hone] at heq
        exact hL heq.symm
      exact ⟨heq, by simp [hone]⟩
  · rw [if_neg hd]
    have hnone : (s.ticks && s.wdtEnable && s.wdtCounter == 1#32) = false := by
      by_contra hc
      simp only [Bool.not_eq_false, Bool.and_eq_true, beq_iff_eq] at hc
      exact hd (by simp [decrements, hc])
    rw [hnone]
    simp only [Bool.false_eq_true, ↓reduceIte, and_self, true_iff]
    exact fun hk ↦ hd hk.1

/-! ## Runs -/

-- A cycle without a reload keeps the law of the countdown.
theorem watchdog_law (u : Nat) (hlive : (watchdog inp).live u)
    (hnone : (watchdog inp).reload u = none) : (watchdog inp).Law u := by
  set S := run posedge reset inp with hS
  obtain ⟨hc, hen, -⟩ : (S u).wdtRuns := hlive
  have hreload : reload (S u) (inp u) = none := Option.map_eq_none_iff.mp hnone
  have hnext : S (u + 1) = tick (S u) (busWrite (S u) (inp u) (S u)) := rfl
  constructor
  · rintro ⟨-, hen', hload'⟩
    change (S (u + 1)).wdtCounter.toNat
      = if (S u).ticks then (S u).wdtCounter.toNat - 1 else (S u).wdtCounter.toNat
    rw [← hS, hnext, tick_wdtEnable] at hen'
    rw [← hS, hnext, tick_wdtLoad] at hload'
    rw [hnext, tick_wdtCounter, busWrite_of_no_reload hreload hen' hload', decrements, hen]
    by_cases ht : (S u).ticks
    · by_cases hz : (S u).wdtCounter = 0#32
      · simp [ht, hz]
      · have hpos : (S u).wdtCounter.toNat ≠ 0 := fun h0 ↦ hz (BitVec.eq_of_toNat_eq h0)
        simp only [ht, Bool.and_self, Bool.true_and, bne_iff_ne, ne_eq, hz, not_false_eq_true,
          ↓reduceIte]
        rw [BitVec.toNat_sub_of_le (by rw [BitVec.le_def]; show 1 ≤ _; omega)]
        rfl
    · simp [ht]
  · intro htick hone
    have hone' : (S u).wdtCounter = 1#32 := BitVec.eq_of_toNat_eq hone
    have htick' : (S u).ticks := htick
    show (S (u + 1)).wdtExpired = true
    rw [hnext, tick_wdtExpired, htick', hen, hone']
    rfl
  · intro hno hexp
    show (S (u + 1)).wdtExpired = false
    rw [hnext, tick_wdtExpired, busWrite_wdtExpired hexp, if_neg]
    simp only [Bool.and_eq_true, beq_iff_eq, not_and]
    intro ht hone
    exact hno ⟨ht.1, congrArg BitVec.toNat hone⟩

/-- The watchdog keeps its contract in exactly the runs in which no kick is lost to a tick. -/
theorem watchdog_meets_iff (inp : Nat → BusAccess 6) (t : Nat) :
    (watchdog inp).MeetsUpTo t ↔ ∀ k < t, ¬ kickLost (run posedge reset inp k) (inp k) := by
  set S := run posedge reset inp with hS
  have hrestart (k : Nat) (L : Word) (hr : reload (S k) (inp k) = some L) (hL : L ≠ 0#32) :
      ((watchdog inp).count (k + 1) = L.toNat ∧ (watchdog inp).expired (k + 1) = false) ↔
        ¬ kickLost (S k) (inp k) := by
    rw [← posedge_reload_iff hr hL, ← BitVec.toNat_inj]
    rfl
  constructor
  · rintro h k hk ⟨hd, L, hkick, hL, hne⟩
    have hr : reload (S k) (inp k) = some L := by rw [reload, hkick]; rfl
    have hpos : 0 < L.toNat := by
      apply Nat.pos_of_ne_zero
      exact fun h0 ↦ hL (BitVec.eq_of_toNat_eq h0)
    have hw : (watchdog inp).reload k = some L.toNat := congrArg (Option.map BitVec.toNat) hr
    exact (hrestart k L hr hL).mp (h.restarts k hk _ hpos hw) ⟨hd, L, hkick, hL, hne⟩
  · intro h
    apply Countdown.meetsUpTo_of_law watchdog_law
    intro k hk n hn hw
    obtain ⟨L, hr, rfl⟩ := Option.map_eq_some_iff.mp hw
    have hL : L ≠ 0#32 := by rintro rfl; exact absurd hn (by decide)
    exact (hrestart k L hr hL).mpr (h k hk)

/-- Load 4, enable the counter, and then kick in every cycle. -/
def kickEveryCycle : Nat → BusAccess 6
  | 0 => ⟨true, false, 0x9, 4⟩
  | 1 => ⟨true, false, 0x0, 1⟩
  | _ => ⟨true, false, 0xA, 3⟩

/-- With prescale 0 every cycle is a tick: the watchdog expires although it is kicked in every
cycle. -/
theorem kickEveryCycle_expires :
    ¬ (watchdog kickEveryCycle).MeetsUpTo 4 ∧
      (∀ d ∈ List.range 5, kick (run posedge reset kickEveryCycle (2 + d)) (kickEveryCycle (2 + d)) =
        some 4#32) ∧
      (run posedge reset kickEveryCycle 7).wdtExpired = true := by
  refine ⟨?_, by decide, by decide⟩
  intro h
  have h3 := h.restarts 3 (by decide) 4 (by decide) (by decide)
  exact absurd h3.1 (by decide)

end Timer

end QarCore
