import QarCore.Clocked.Run

/-!
# Reloadable down counters

A down counter that is reloaded by hand and falls on the ticks of some clock, with a flag that goes
up when it runs out.  What a user relies on is a statement about stretches of time between reloads;
what a circuit gives is one law for each cycle.
-/

namespace Clocked

structure Countdown where
  count : Nat → Nat
  expired : Nat → Bool
  /-- The value a cycle reloads the counter with. -/
  reload : Nat → Option Nat
  tick : Nat → Bool
  /-- The counter runs in this cycle. -/
  live : Nat → Prop

namespace Countdown

variable {c : Countdown} {a n t : Nat}

/-- The ticks of the `n` cycles from `a` on. -/
def ticks (c : Countdown) (a n : Nat) : Nat := Nat.count (fun d ↦ c.tick (a + d)) n

theorem ticks_succ : c.ticks a (n + 1) = c.ticks a n + if c.tick (a + n) then 1 else 0 :=
  Nat.count_succ _ _

/-- The counter runs from `a` to `a + n`, and nothing reloads it on the way. -/
structure Undisturbed (c : Countdown) (a n : Nat) : Prop where
  live : ∀ d, d ≤ n → c.live (a + d)
  quiet : ∀ d, d < n → c.reload (a + d) = none

theorem Undisturbed.shorten {m : Nat} (h : c.Undisturbed a n) (hm : m ≤ n) : c.Undisturbed a m :=
  ⟨fun d hd ↦ h.live d (by omega), fun d hd ↦ h.quiet d (by omega)⟩

/-- What is expected of the counter in the first `t` cycles. -/
structure MeetsUpTo (c : Countdown) (t : Nat) : Prop where
  /-- A reload takes effect at once. -/
  restarts : ∀ k < t, ∀ L, 0 < L → c.reload k = some L →
    c.count (k + 1) = L ∧ c.expired (k + 1) = false
  /-- With fewer ticks than the counter was loaded with, the flag stays down. -/
  quiet : ∀ k n, k + 1 + n ≤ t → ∀ L, c.reload k = some L → c.Undisturbed (k + 1) n →
    c.ticks (k + 1) n < L → c.expired (k + 1 + n) = false
  /-- The tick that uses the load up raises the flag. -/
  expires : ∀ k n, k + 1 + n < t → ∀ L, c.reload k = some L → c.Undisturbed (k + 1) n →
    c.reload (k + 1 + n) = none → c.tick (k + 1 + n) → c.ticks (k + 1) n + 1 = L →
    c.expired (k + 1 + n + 1) = true

/-- One cycle of a counter that is not reloaded. -/
structure Law (c : Countdown) (u : Nat) : Prop where
  falls : c.live (u + 1) → c.count (u + 1) = if c.tick u then c.count u - 1 else c.count u
  raises : c.tick u → c.count u = 1 → c.expired (u + 1) = true
  stays : ¬ (c.tick u ∧ c.count u = 1) → c.expired u = false → c.expired (u + 1) = false

section

variable (law : ∀ u, c.live u → c.reload u = none → c.Law u)
include law

theorem count_add (h : c.Undisturbed a n) : c.count (a + n) = c.count a - c.ticks a n := by
  induction n with
  | zero => simp [ticks]
  | succ n ih =>
    have hlaw := law (a + n) (h.live n (by omega)) (h.quiet n (by omega))
    have hstep := hlaw.falls (h.live (n + 1) (by omega))
    rw [show a + (n + 1) = a + n + 1 from by omega, hstep, ih (h.shorten (by omega)), ticks_succ]
    split <;> omega

theorem expired_add (h : c.Undisturbed a n) (h0 : c.expired a = false)
    (hlt : c.ticks a n < c.count a) : c.expired (a + n) = false := by
  induction n with
  | zero => exact h0
  | succ n ih =>
    have hlaw := law (a + n) (h.live n (by omega)) (h.quiet n (by omega))
    have hcount := count_add law (h.shorten (show n ≤ n + 1 by omega))
    rw [ticks_succ] at hlt
    apply hlaw.stays
    · -- one more tick would leave the count at zero
      rintro ⟨htick, hone⟩
      rw [if_pos htick] at hlt
      omega
    · exact ih (h.shorten (by omega)) (by omega)

-- A counter that keeps the law of each cycle and whose reloads take effect keeps its word.
theorem meetsUpTo_of_law
    (hrestart : ∀ k < t, ∀ L, 0 < L → c.reload k = some L →
      c.count (k + 1) = L ∧ c.expired (k + 1) = false) : c.MeetsUpTo t where
  restarts := hrestart
  quiet := by
    intro k n hn L hL hq hlt
    obtain ⟨hcount, hexp⟩ := hrestart k (by omega) L (by omega) hL
    exact expired_add law hq hexp (by omega)
  expires := by
    intro k n hn L hL hq hnone htick hticks
    obtain ⟨hcount, -⟩ := hrestart k (by omega) L (by omega) hL
    have hleft := count_add law hq
    have hlaw := law (k + 1 + n) (hq.live n (by omega)) hnone
    exact hlaw.raises htick (by omega)

end

end Countdown

end Clocked
