import QarCore.Clocked.Run

/-!
# A machine and its copy

A clocked machine next to a smaller one that is fed with the same inputs and keeps a copy of a part of the state.
Where one edge moves the part and its copy alike, they agree all along.
-/

namespace Clocked

universe u v w

variable {σ : Type u} {ι : Type v} {α : Type w}

/-- One edge moves the part of the state and its copy alike and keeps the invariant, as long as the inputs are what
the copy allows. -/
structure Lockstep (step : σ → ι → σ) (astep : α → ι → α) (part : σ → α) (Inv : σ → Prop) (Env : α → ι → Prop) :
    Prop where
  agree : ∀ s i, Inv s → Env (part s) i → part (step s i) = astep (part s) i
  keeps : ∀ s i, Inv s → Env (part s) i → Inv (step s i)

-- The induction carries the agreement along, which is what makes the inputs allowed.
theorem Lockstep.run {step : σ → ι → σ} {astep : α → ι → α} {part : σ → α} {Inv : σ → Prop} {Env : α → ι → Prop}
    (h : Lockstep step astep part Inv Env) {s₀ : σ} {a₀ : α} {inp : Nat → ι} (h0 : Inv s₀) (ha : part s₀ = a₀)
    (henv : ∀ t, Env (run astep a₀ inp t) (inp t)) (t : Nat) :
    Inv (run step s₀ inp t) ∧ part (run step s₀ inp t) = run astep a₀ inp t := by
  induction t with
  | zero => exact ⟨h0, ha⟩
  | succ t ih =>
    obtain ⟨hinv, hpart⟩ := ih
    have hi := henv t
    rw [← hpart] at hi
    rw [run_succ, run_succ, ← hpart]
    exact ⟨h.keeps _ _ hinv hi, h.agree _ _ hinv hi⟩

-- A case that both sides make alike.
theorem part_ite (part : σ → α) {c : Prop} [Decidable c] {x y : σ} {p q : α} (ht : c → part x = p)
    (he : ¬ c → part y = q) : part (if c then x else y) = if c then p else q := by
  by_cases hc : c
  · rw [if_pos hc, if_pos hc]
    exact ht hc
  · rw [if_neg hc, if_neg hc]
    exact he hc

end Clocked
