import QarCore.Clocked.Run

/-!
# Streaks

For how many cycles on end a signal has been up, and a glitch filter, which lets a level through once
it has lasted.  A circuit keeps a counter for this, and the streak is what the counter stands for.
-/

namespace Clocked

variable {p : Nat → Bool} {n t u : Nat}

/-- The cycles just before cycle `t` in which `p` has been up without a break. -/
def streak (p : Nat → Bool) : Nat → Nat
  | 0 => 0
  | t + 1 => if p t then streak p t + 1 else 0

theorem streak_succ (p : Nat → Bool) (t : Nat) :
    streak p (t + 1) = if p t then streak p t + 1 else 0 := rfl

theorem le_streak_iff : n ≤ streak p t ↔ n ≤ t ∧ ∀ u, t ≤ u + n → u < t → p u := by
  induction t generalizing n with
  | zero => exact ⟨fun h ↦ ⟨h, fun u _ hu ↦ absurd hu (Nat.not_lt_zero u)⟩, fun h ↦ h.1⟩
  | succ t ih =>
    cases n with
    | zero => exact ⟨fun _ ↦ ⟨Nat.zero_le _, fun u h1 h2 ↦ by omega⟩, fun _ ↦ Nat.zero_le _⟩
    | succ n =>
      rw [streak_succ]
      by_cases hp : p t
      · rw [if_pos hp, Nat.add_le_add_iff_right, ih]
        constructor
        · intro h
          refine ⟨by omega, ?_⟩
          intro u h1 h2
          by_cases hu : u = t
          · rwa [hu]
          · exact h.2 u (by omega) (by omega)
        · intro h
          exact ⟨by omega, fun u h1 h2 ↦ h.2 u (by omega) (by omega)⟩
      · rw [if_neg hp]
        constructor
        · intro h
          omega
        · intro h
          exact absurd (h.2 t (by omega) (by omega)) hp

theorem streak_le (p : Nat → Bool) (t : Nat) : streak p t ≤ t :=
  (le_streak_iff.mp (Nat.le_refl _)).1

/-- The first detection in the streak of `p` that cycle `t` belongs to. -/
def firstIn (p detects : Nat → Bool) (t : Nat) : Prop :=
  detects t ∧ ∀ u < t, t ≤ u + streak p t → detects u = false

-- A note that is made at a detection and does not outlive the streak is not there at the first one.
theorem not_noted_of_firstIn {detects noted : Nat → Bool} (h0 : noted 0 = false)
    (hstep : ∀ t, noted (t + 1) → p t ∧ (detects t ∨ noted t)) (h : firstIn p detects t) :
    noted t = false := by
  have hseen (t : Nat) (hn : noted t) : ∃ u < t, t ≤ u + streak p t ∧ detects u := by
    induction t with
    | zero =>
      rw [h0] at hn
      cases hn
    | succ t ih =>
      obtain ⟨hp, hd | hold⟩ := hstep t hn
      · refine ⟨t, Nat.lt_succ_self t, ?_, hd⟩
        rw [streak_succ, if_pos hp]
        omega
      · obtain ⟨u, hu, hs, hd⟩ := ih hold
        refine ⟨u, by omega, ?_, hd⟩
        rw [streak_succ, if_pos hp]
        omega
  rw [← Bool.not_eq_true]
  intro hn
  obtain ⟨u, hu, hs, hd⟩ := hseen t hn
  rw [h.2 u hu hs] at hd
  cases hd

/-! ## Glitch filters -/

/-- A filtered level and the counter behind it, over time. -/
structure GlitchFilter where
  raw : Nat → Bool
  level : Nat → Bool
  count : Nat → Nat
  threshold : Nat → Nat
  /-- The filter is on in this cycle. -/
  filters : Nat → Bool

namespace GlitchFilter

variable {f : GlitchFilter}

/-- What one cycle does to the level and the counter. -/
structure Law (f : GlitchFilter) (t : Nat) : Prop where
  off : f.filters t = false → f.count (t + 1) = 0
  agree : f.filters t → f.raw t = f.level t → f.level (t + 1) = f.level t ∧ f.count (t + 1) = 0
  take : f.filters t → f.raw t ≠ f.level t → f.threshold t ≤ f.count t →
    f.level (t + 1) = f.raw t ∧ f.count (t + 1) = 0
  wait : f.filters t → f.raw t ≠ f.level t → f.count t < f.threshold t →
    f.level (t + 1) = f.level t ∧ f.count (t + 1) = f.count t + 1

/-- The input differs from the level, and the level stays. -/
def waits (f : GlitchFilter) (t : Nat) : Bool :=
  f.filters t && f.raw t != f.level t && f.level (t + 1) == f.level t

section

variable (h0 : f.count 0 = 0) (law : ∀ t, f.Law t)
include h0 law

theorem count_eq (t : Nat) : f.count t = streak f.waits t := by
  induction t with
  | zero => exact h0
  | succ t ih =>
    have hlaw := law t
    rw [streak_succ, ← ih]
    by_cases hf : f.filters t
    · by_cases hr : f.raw t = f.level t
      · rw [if_neg (by simp [waits, hr])]
        exact (hlaw.agree hf hr).2
      · by_cases hc : f.threshold t ≤ f.count t
        · obtain ⟨hlevel, hcount⟩ := hlaw.take hf hr hc
          rw [if_neg (by simp [waits, hlevel, hr])]
          exact hcount
        · obtain ⟨hlevel, hcount⟩ := hlaw.wait hf hr (by omega)
          rw [if_pos (by simp [waits, hf, hr, hlevel])]
          exact hcount
    · rw [if_neg (by simp [waits, hf])]
      exact hlaw.off (Bool.not_eq_true _ |>.mp hf)

-- The level changes only to a value the input has had for the threshold and one cycle more.
theorem differs_of_change (hf : f.filters t) (hc : f.level (t + 1) ≠ f.level t) :
    f.threshold t ≤ t ∧ ∀ u, t ≤ u + f.threshold t → u ≤ t → f.raw u ≠ f.level t := by
  have hr : f.raw t ≠ f.level t := fun h ↦ hc ((law t).agree hf h).1
  have hfull : f.threshold t ≤ f.count t := by
    apply Nat.le_of_not_lt
    intro hlt
    exact hc ((law t).wait hf hr hlt).1
  rw [count_eq h0 law, le_streak_iff] at hfull
  obtain ⟨hle, hwaits⟩ := hfull
  -- while the filter waits the level is the one it has now
  have hsame (d : Nat) (hd : d ≤ f.threshold t) : f.level (t - d) = f.level t := by
    induction d with
    | zero => rfl
    | succ d ih =>
      have hw := hwaits (t - (d + 1)) (by omega) (by omega)
      simp only [waits, Bool.and_eq_true, beq_iff_eq] at hw
      rw [← hw.2, show t - (d + 1) + 1 = t - d by omega]
      exact ih (by omega)
  refine ⟨hle, ?_⟩
  intro u h1 h2
  by_cases hu : u = t
  · rwa [hu]
  · have hw := hwaits u h1 (by omega)
    simp only [waits, Bool.and_eq_true, bne_iff_ne] at hw
    rw [← hsame (t - u) (by omega), show t - (t - u) = u by omega]
    exact hw.1.2

omit h0 in
-- The level never leaves a value that the input does not have.
theorem level_of_succ {v : Bool} (hf : f.filters t) (hr : f.raw t ≠ v) (hs : f.level (t + 1) = v) :
    f.level t = v := by
  by_contra hne
  have hraw : f.raw t = f.level t := by
    cases v <;> simp_all
  exact hne (((law t).agree hf hraw).1.symm.trans hs)

-- An input that differs from the level for the threshold and one cycle more is taken over.
theorem change_of_differs (hle : f.threshold t ≤ t)
    (hf : ∀ u, t ≤ u + f.threshold t → u ≤ t → f.filters u)
    (hr : ∀ u, t ≤ u + f.threshold t → u ≤ t → f.raw u ≠ f.level t) :
    f.level (t + 1) ≠ f.level t := by
  have hsame (d : Nat) (hd : d ≤ f.threshold t) : f.level (t - d) = f.level t := by
    induction d with
    | zero => rfl
    | succ d ih =>
      apply level_of_succ law (hf _ (by omega) (by omega)) (hr _ (by omega) (by omega))
      rw [show t - (d + 1) + 1 = t - d by omega]
      exact ih (by omega)
  have hwaits : f.threshold t ≤ streak f.waits t := by
    rw [le_streak_iff]
    refine ⟨hle, ?_⟩
    intro u h1 h2
    have hu := hsame (t - u) (by omega)
    have hu' := hsame (t - (u + 1)) (by omega)
    rw [show t - (t - u) = u by omega] at hu
    rw [show t - (t - (u + 1)) = u + 1 by omega] at hu'
    have hraw := hr u h1 (by omega)
    simp [waits, hf u h1 (by omega), hu, hu', hraw]
  rw [← count_eq h0 law] at hwaits
  have hnow := hr t (by omega) (Nat.le_refl t)
  rw [((law t).take (hf t (by omega) (Nat.le_refl t)) hnow hwaits).1]
  exact hnow

-- Whatever the input does for no more cycles than the threshold leaves the level alone.
theorem level_of_pulse {a : Nat} (hf : ∀ u, a ≤ u → u ≤ a + n + 1 → f.filters u)
    (hn : ∀ u, a ≤ u → u ≤ a + n + 1 → n ≤ f.threshold u) (ha : f.raw a = f.level a)
    (hb : f.raw (a + n + 1) = f.level a) (h1 : a ≤ t) (h2 : t ≤ a + n + 2) :
    f.level t = f.level a := by
  obtain ⟨d, rfl⟩ := Nat.exists_eq_add_of_le h1
  induction d with
  | zero => rfl
  | succ d ih =>
    have hprev := ih (by omega) (by omega)
    by_contra hne
    rw [show a + (d + 1) = a + d + 1 by omega] at hne
    have hchange : f.level (a + d + 1) ≠ f.level (a + d) := by rwa [hprev]
    have hon := hf (a + d) (by omega) (by omega)
    obtain ⟨-, hdiff⟩ := differs_of_change h0 law hon hchange
    have hlong := hn (a + d) (by omega) (by omega)
    by_cases hd : d = n + 1
    · -- the pulse is over
      have hlast := hdiff (a + d) (by omega) (by omega)
      rw [hprev, hd] at hlast
      exact hlast hb
    · -- the input was still quiet at its start
      have hfirst := hdiff a (by omega) (by omega)
      rw [hprev] at hfirst
      exact hfirst ha

end

end GlitchFilter

end Clocked
