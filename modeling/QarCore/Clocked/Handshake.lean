import Mathlib

/-!
# Valid/ready handshakes

A master shows a request or none in every cycle, and the slave is ready or not.  The master obeys the
handshake if a request that is not accepted is still there in the next cycle.
-/

namespace Clocked

universe u

variable {α : Type u} {ready : Nat → Bool} {t : Nat} {a : α}

/-- A request of cycle `t` is accepted or shown unchanged in the next cycle. -/
def KeepsRequestAt (req : Nat → Option α) (ready : Nat → Bool) (t : Nat) : Prop :=
  ∀ a, req t = some a → ready t = false → req (t + 1) = some a

-- A request once shown is there until it is accepted.
theorem request_held (req : Nat → Option α) {d : Nat}
    (hobeys : ∀ u, t ≤ u → u < t + d → KeepsRequestAt req ready u)
    (h : req t = some a) (hr : ∀ u, t ≤ u → u < t + d → ready u = false) :
    req (t + d) = some a := by
  induction d with
  | zero => exact h
  | succ d ih =>
    have hd := ih (fun u hu hud ↦ hobeys u hu (by omega)) fun u hu hud ↦ hr u hu (by omega)
    exact hobeys (t + d) (by omega) (by omega) a hd (hr (t + d) (by omega) (by omega))

end Clocked
