import QarCore.Clocked.Run

/-!
# Leads-to

A clocked machine that takes turns: in every cycle the outside grants a turn or not, and drives the rest of
the inputs within an assumption.  `LeadsTo P Q` says that turns that keep coming bring every state of `P` to
a state of `Q`, whatever their spacing is.
-/

namespace Clocked

universe u v w

variable {σ : Type u} {ι : Type v}

/-! ## Runs in two parts -/

theorem run_add (step : σ → ι → σ) (s : σ) (inp : Nat → ι) (m n : Nat) :
    run step s inp (m + n) = run step (run step s inp m) (fun t ↦ inp (m + t)) n := by
  induction n with
  | zero => rfl
  | succ n ih =>
    rw [← Nat.add_assoc, run_succ, ih]
    rfl

/-- Inputs of a machine that takes turns: turns keep coming, and the assumption holds in every cycle. -/
structure Fair (Env : ι → Prop) (inp : Nat → Bool × ι) : Prop where
  turns : ∀ t, ∃ u, t ≤ u ∧ (inp u).1
  env : ∀ t, Env (inp t).2

theorem Fair.drop {Env : ι → Prop} {inp : Nat → Bool × ι} (h : Fair Env inp) (m : Nat) :
    Fair Env fun t ↦ inp (m + t) where
  turns t := by
    obtain ⟨u, hu, hgo⟩ := h.turns (m + t)
    exact ⟨u - m, by omega, by rwa [Nat.add_sub_cancel' (by omega)]⟩
  env t := h.env (m + t)

/-- Turns that keep coming lead from `P` to `Q`. -/
def LeadsTo (step : σ → Bool × ι → σ) (Env : ι → Prop) (P Q : σ → Prop) : Prop :=
  ∀ inp, Fair Env inp → ∀ s, P s → ∃ n, Q (run step s inp n)

namespace LeadsTo

variable {step : σ → Bool × ι → σ} {Env : ι → Prop} {P P' Q Q' R : σ → Prop}

/-! ## Consequence and composition -/

theorem of_imp (h : ∀ s, P s → Q s) : LeadsTo step Env P Q := fun _ _ s hs ↦ ⟨0, h s hs⟩

theorem mono (h : LeadsTo step Env P Q) (hpre : ∀ s, P' s → P s) (hpost : ∀ s, Q s → Q' s) :
    LeadsTo step Env P' Q' := by
  intro inp hfair s hs
  obtain ⟨n, hn⟩ := h inp hfair s (hpre s hs)
  exact ⟨n, hpost _ hn⟩

theorem trans (hPQ : LeadsTo step Env P Q) (hQR : LeadsTo step Env Q R) : LeadsTo step Env P R := by
  intro inp hfair s hs
  obtain ⟨m, hm⟩ := hPQ inp hfair s hs
  obtain ⟨n, hn⟩ := hQR _ (hfair.drop m) _ hm
  exact ⟨m + n, by rwa [run_add]⟩

theorem of_exists {α : Type w} {P : α → σ → Prop} (h : ∀ a, LeadsTo step Env (P a) Q) :
    LeadsTo step Env (fun s ↦ ∃ a, P a s) Q := by
  rintro inp hfair s ⟨a, hs⟩
  exact h a inp hfair s hs

theorem or (hP : LeadsTo step Env P Q) (hP' : LeadsTo step Env P' Q) :
    LeadsTo step Env (fun s ↦ P s ∨ P' s) Q := by
  rintro inp hfair s (hs | hs)
  · exact hP inp hfair s hs
  · exact hP' inp hfair s hs

/-! ## Steps -/

-- What every cycle does, with or without a turn.
theorem cycle (h : ∀ s go i, Env i → P s → Q (step s (go, i))) : LeadsTo step Env P Q := by
  intro inp hfair s hs
  exact ⟨1, h s (inp 0).1 (inp 0).2 (hfair.env 0) hs⟩

-- What lasts until a turn leads to what the turn brings.
theorem turn (hwait : ∀ s i, Env i → P s → P (step s (false, i)) ∨ Q (step s (false, i)))
    (hact : ∀ s i, Env i → P s → Q (step s (true, i))) : LeadsTo step Env P Q := by
  intro inp hfair s hs
  obtain ⟨u, -, hgo⟩ := hfair.turns 0
  by_contra hnever
  push Not at hnever
  have hlast : ∀ t ≤ u, P (run step s inp t) := by
    intro t ht
    induction t with
    | zero => exact hs
    | succ t ih =>
      have hP := ih (by omega)
      have hQ := hnever (t + 1)
      have henv := hfair.env t
      rw [run_succ] at hQ ⊢
      rcases hi : inp t with ⟨go, i⟩
      rw [hi] at hQ henv
      cases go with
      | true => exact absurd (hact _ i henv hP) hQ
      | false => exact (hwait _ i henv hP).resolve_right hQ
  have hQ := hnever (u + 1)
  have henv := hfair.env u
  rw [run_succ] at hQ
  rcases hi : inp u with ⟨go, i⟩
  rw [hi] at hQ henv hgo
  rw [show go = true from hgo] at hQ
  exact hQ (hact _ i henv (hlast u le_rfl))

/-! ## Ranks -/

-- A rank that falls on the way forces the end.
theorem rank (rank : σ → Nat)
    (h : ∀ k, LeadsTo step Env (fun s ↦ P s ∧ rank s = k) fun s ↦ Q s ∨ P s ∧ rank s < k) :
    LeadsTo step Env P Q := by
  have hk : ∀ k, LeadsTo step Env (fun s ↦ P s ∧ rank s < k) Q := by
    intro k
    induction k with
    | zero => exact of_imp fun s hs ↦ absurd hs.2 (Nat.not_lt_zero _)
    | succ k ih =>
      intro inp hfair s hs
      obtain ⟨m, hQ | ⟨hP, hlt⟩⟩ := h (rank s) inp hfair s ⟨hs.1, rfl⟩
      · exact ⟨m, hQ⟩
      · obtain ⟨n, hn⟩ := ih _ (hfair.drop m) _ ⟨hP, by omega⟩
        exact ⟨m + n, by rwa [run_add]⟩
  intro inp hfair s hs
  exact hk (rank s + 1) inp hfair s ⟨hs, Nat.lt_succ_self _⟩

-- A rank that falls in every cycle forces the end without a turn.
theorem falls (rank : σ → Nat)
    (h : ∀ s go i, Env i → P s → Q (step s (go, i)) ∨ P (step s (go, i)) ∧ rank (step s (go, i)) < rank s) :
    LeadsTo step Env P Q := by
  refine LeadsTo.rank rank fun k ↦ cycle fun s go i hi hs ↦ ?_
  rcases h s go i hi hs.1 with hQ | ⟨hP, hlt⟩
  · exact .inl hQ
  · exact .inr ⟨hP, by rwa [hs.2] at hlt⟩

end LeadsTo

end Clocked
