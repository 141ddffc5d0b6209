import Mathlib

/-!
# Proof outlines

A machine without inputs, and points of its program with what holds at each of them.  Every step goes from
a point to a point and lowers a rank, until it comes to a point where it stays.
-/

namespace Clocked

universe u v

variable {σ : Type u} {α : Type v}

/-- What holds at each point, how far the point is from an end, and the two kinds of step. -/
structure Outline (step : σ → σ) (holds : α → σ → Prop) (rank : α → Nat) (final : α → Prop) : Prop where
  next : ∀ a s, holds a s → ¬ final a → ∃ b, rank b < rank a ∧ holds b (step s)
  stay : ∀ a s, holds a s → final a → holds a (step s)

namespace Outline

variable {step : σ → σ} {holds : α → σ → Prop} {rank : α → Nat} {final : α → Prop} {a : α} {s : σ}

theorem step_holds (h : Outline step holds rank final) (hs : holds a s) : ∃ b, holds b (step s) := by
  by_cases ha : final a
  · exact ⟨a, h.stay a s hs ha⟩
  · obtain ⟨b, -, hb⟩ := h.next a s hs ha
    exact ⟨b, hb⟩

-- A run that starts at a point is at a point all along.
theorem always (h : Outline step holds rank final) (hs : holds a s) (n : Nat) : ∃ b, holds b (step^[n] s) := by
  induction n generalizing a s with
  | zero => exact ⟨a, hs⟩
  | succ n ih =>
    obtain ⟨b, hb⟩ := h.step_holds hs
    exact ih hb

theorem stays (h : Outline step holds rank final) (ha : final a) (hs : holds a s) (n : Nat) :
    holds a (step^[n] s) := by
  induction n generalizing s with
  | zero => exact hs
  | succ n ih => exact ih (h.stay a s hs ha)

-- The induction is on the rank of the point, which bounds the number of steps.
theorem reaches (h : Outline step holds rank final) (hs : holds a s) :
    ∃ b n, n ≤ rank a ∧ final b ∧ holds b (step^[n] s) := by
  induction hr : rank a using Nat.strong_induction_on generalizing a s with
  | h r ih =>
    by_cases ha : final a
    · exact ⟨a, 0, Nat.zero_le r, ha, hs⟩
    · obtain ⟨b, hlt, hb⟩ := h.next a s hs ha
      obtain ⟨c, n, hle, hc, hn⟩ := ih (rank b) (by omega) hb rfl
      exact ⟨c, n + 1, by omega, hc, hn⟩

-- The run comes to an end in as many steps as the rank says, and stays there.
theorem settles (h : Outline step holds rank final) (hs : holds a s) :
    ∃ b, final b ∧ ∀ n, rank a ≤ n → holds b (step^[n] s) := by
  obtain ⟨b, k, hk, hb, hn⟩ := h.reaches hs
  refine ⟨b, hb, fun n hle ↦ ?_⟩
  have hsplit : n = (n - k) + k := by omega
  rw [hsplit, Function.iterate_add_apply]
  exact h.stays hb hn (n - k)

end Outline

end Clocked
