import QarCore.Clocked.Run

/-!
# Pulse width modulation

A phase that counts the ticks of some clock modulo a period, and a level that is high on the ticks whose
phase is below the duty.  The level is registered: it shows the phase before its tick.
-/

namespace Clocked

structure PulseWidth (w : Nat) where
  phase : Nat → BitVec w
  level : Nat → Bool
  tick : Nat → Bool
  period : BitVec w
  duty : BitVec w

namespace PulseWidth

variable {w : Nat} {c : PulseWidth w} {a l j : Nat}

/-- The ticks of the `l` cycles from `a` on. -/
def ticks (c : PulseWidth w) (a l : Nat) : Nat := Nat.count (fun k ↦ c.tick (a + k)) l

/-- Those after which the level is high. -/
def highTicks (c : PulseWidth w) (a l : Nat) : Nat :=
  Nat.count (fun k ↦ c.tick (a + k) && c.level (a + k + 1)) l

/-- What one cycle does to the phase and the level. -/
structure Law (c : PulseWidth w) : Prop where
  phase_succ : ∀ t, c.phase (t + 1) =
    if c.tick t then if c.phase t + 1 ≥ c.period then 0 else c.phase t + 1 else c.phase t
  level_succ : ∀ t, c.level (t + 1) = if c.tick t then decide (c.phase t < c.duty) else c.level t

/-- The duty is exact in every window of as many ticks as the period has. -/
structure ExactDuty (c : PulseWidth w) : Prop where
  /-- The windows come for ever. -/
  forever : ∀ a, ∃ l, c.ticks a l = c.period.toNat
  high : ∀ a l, c.ticks a l = c.period.toNat → c.highTicks a l = min c.duty.toNat c.period.toNat
  /-- The high ticks of a window are those that follow tick `first` by less than the duty, counted
  cyclically: one block, up to the wrap. -/
  block : ∀ a, ∃ first < c.period.toNat, ∀ k, c.tick (a + k) → c.ticks a k < c.period.toNat →
    (c.level (a + k + 1) ↔ (c.ticks a k + c.period.toNat - first) % c.period.toNat < c.duty.toNat)
  /-- Between two ticks the level stays. -/
  steady : ∀ t, c.tick t = false → c.level (t + 1) = c.level t

theorem ticks_succ : c.ticks a (l + 1) = c.ticks a l + if c.tick (a + l) then 1 else 0 :=
  Nat.count_succ _ _

/-! ## Counting residues -/

theorem count_mod_lt (d : Nat) {n p : Nat} (hn : n ≤ p) : Nat.count (fun j ↦ j % p < d) n = min d n := by
  induction n with
  | zero => rw [Nat.count_zero, Nat.min_zero]
  | succ n ih =>
    rw [Nat.count_succ, ih (by omega), Nat.mod_eq_of_lt (by omega)]
    split <;> omega

-- a window of `p` numbers meets every residue once, wherever it starts
theorem count_window (d a p : Nat) : Nat.count (fun j ↦ (a + j) % p < d) p = min d p := by
  have hleft := Nat.count_add (fun j ↦ j % p < d) a p
  have hright := Nat.count_add (fun j ↦ j % p < d) p a
  have hshift : (fun j ↦ (p + j) % p < d) = fun j ↦ j % p < d := by
    funext j
    rw [Nat.add_mod_left]
  simp only [hshift] at hright
  rw [Nat.add_comm p a, hleft] at hright
  have hone := count_mod_lt d (Nat.le_refl p)
  omega

/-! ## Runs -/

section

variable (h : c.Law)
include h

theorem phase_lt (h0 : c.phase 0 < c.period) (t : Nat) : c.phase t < c.period := by
  induction t with
  | zero => exact h0
  | succ t ih =>
    rw [h.phase_succ]
    split_ifs with ht hwrap
    · -- a period above the phase is not 0
      rw [BitVec.lt_def] at ih ⊢
      show 0 % 2 ^ w < _
      rw [Nat.zero_mod]
      omega
    · exact BitVec.not_le.mp hwrap
    · exact ih

-- The phase counts the ticks modulo the period.
theorem phase_add (h0 : c.phase 0 < c.period) (a l : Nat) : (c.phase (a + l)).toNat =
    ((c.phase a).toNat + c.ticks a l) % c.period.toNat := by
  induction l with
  | zero =>
    have hlt : (c.phase a).toNat < c.period.toNat := phase_lt h h0 a
    exact (Nat.mod_eq_of_lt hlt).symm
  | succ l ih =>
    have hlt : (c.phase (a + l)).toNat < c.period.toNat := phase_lt h h0 (a + l)
    have hmax := c.period.isLt
    rw [← Nat.add_assoc, h.phase_succ, ticks_succ]
    by_cases ht : c.tick (a + l)
    · -- the step to the next residue, with or without the wrap
      have hnext : (c.phase (a + l) + 1).toNat = (c.phase (a + l)).toNat + 1 := by
        have hw : 1 % 2 ^ w = 1 := Nat.mod_eq_of_lt (by omega)
        rw [BitVec.toNat_add]
        show (_ + 1 % 2 ^ w) % 2 ^ w = _
        rw [hw, Nat.mod_eq_of_lt (by omega)]
      rw [if_pos ht, if_pos ht, ← Nat.add_assoc, ← Nat.mod_add_mod, ← ih]
      by_cases hwrap : c.phase (a + l) + 1 ≥ c.period
      · have hge : c.period.toNat ≤ (c.phase (a + l) + 1).toNat := hwrap
        rw [hnext] at hge
        rw [if_pos hwrap, show (c.phase (a + l)).toNat + 1 = c.period.toNat by omega, Nat.mod_self]
        exact Nat.zero_mod _
      · have hltp : (c.phase (a + l) + 1).toNat < c.period.toNat := BitVec.not_le.mp hwrap
        rw [if_neg hwrap, hnext, Nat.mod_eq_of_lt (by omega)]
    · rw [if_neg ht, if_neg ht, Nat.add_zero]
      exact ih

-- The level after a tick, from its number in the window.
theorem level_of_tick (h0 : c.phase 0 < c.period) {a k : Nat} (ht : c.tick (a + k)) :
    c.level (a + k + 1) ↔ ((c.phase a).toNat + c.ticks a k) % c.period.toNat < c.duty.toNat := by
  rw [h.level_succ, if_pos ht, decide_eq_true_eq, BitVec.lt_def, phase_add h h0]

theorem highTicks_eq (h0 : c.phase 0 < c.period) (a l : Nat) : c.highTicks a l =
    Nat.count (fun j ↦ ((c.phase a).toNat + j) % c.period.toNat < c.duty.toNat) (c.ticks a l) := by
  induction l with
  | zero => rfl
  | succ l ih =>
    rw [highTicks, Nat.count_succ, ticks_succ]
    by_cases ht : c.tick (a + l)
    · have hlevel := level_of_tick h h0 ht
      rw [if_pos ht, Nat.count_succ, ← ih, ht, Bool.true_and]
      simp only [hlevel]
      rfl
    · rw [if_neg ht, if_neg (by simp [ht])]
      exact ih

-- A phase below the period makes the duty exact.
theorem exactDuty (h0 : c.phase 0 < c.period) (hticks : ∀ t, ∃ u, t ≤ u ∧ c.tick u) :
    c.ExactDuty where
  forever := by
    intro a
    induction c.period.toNat with
    | zero => exact ⟨0, rfl⟩
    | succ n ih =>
      obtain ⟨l, hl⟩ := ih
      -- the first tick from there on completes the window
      have hex : ∃ m, c.tick (a + l + m) := by
        obtain ⟨u, hu, ht⟩ := hticks (a + l)
        exact ⟨u - (a + l), by rwa [Nat.add_sub_of_le hu]⟩
      have hquiet (m : Nat) (hm : m ≤ Nat.find hex) : c.ticks a (l + m) = n := by
        induction m with
        | zero => exact hl
        | succ m ihm =>
          have hno := Nat.find_min hex (show m < Nat.find hex by omega)
          rw [← Nat.add_assoc, ticks_succ, ← Nat.add_assoc, if_neg hno, Nat.add_zero, ihm (by omega)]
      refine ⟨l + Nat.find hex + 1, ?_⟩
      have htick := Nat.find_spec hex
      rw [Nat.add_assoc] at htick
      rw [ticks_succ, if_pos htick, hquiet _ (Nat.le_refl _)]
  high := by
    intro a l hl
    rw [highTicks_eq h h0, hl]
    exact count_window _ _ _
  block := by
    intro a
    have hlt : (c.phase a).toNat < c.period.toNat := phase_lt h h0 a
    refine ⟨(c.period.toNat - (c.phase a).toNat) % c.period.toNat, Nat.mod_lt _ (by omega), ?_⟩
    intro k ht hk
    rw [level_of_tick h h0 ht]
    by_cases hz : (c.phase a).toNat = 0
    · rw [hz, Nat.zero_add, Nat.sub_zero, Nat.mod_self, Nat.sub_zero, Nat.add_mod_right]
    · rw [Nat.mod_eq_of_lt (show c.period.toNat - (c.phase a).toNat < c.period.toNat by omega),
        show c.ticks a k + c.period.toNat - (c.period.toNat - (c.phase a).toNat) =
          (c.phase a).toNat + c.ticks a k by omega]
  steady := by
    intro t ht
    rw [h.level_succ, ht]
    rfl

end

end PulseWidth

end Clocked
