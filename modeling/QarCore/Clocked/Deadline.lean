import QarCore.Clocked.Run

/-!
# Deadlines

Events that come within a number of cycles: from a rank whose values last no longer than a delay of their
own, and how many events a stretch of cycles holds.
-/

namespace Clocked

/-- There is an event in one of the cycles `t`, ..., `t + n`. -/
def Within (n : Nat) (ev : Nat → Prop) (t : Nat) : Prop := ∃ u, t ≤ u ∧ u ≤ t + n ∧ ev u

namespace Within

variable {n m t : Nat} {ev ev' : Nat → Prop}

theorem now (h : ev t) : Within n ev t := ⟨t, le_rfl, Nat.le_add_right t n, h⟩

theorem imp (h : Within n ev t) (himp : ∀ u, t ≤ u → ev u → ev' u) : Within n ev' t := by
  obtain ⟨u, htu, hun, hev⟩ := h
  exact ⟨u, htu, hun, himp u htu hev⟩

theorem mono (h : Within n ev t) (hnm : n ≤ m) : Within m ev t := by
  obtain ⟨u, htu, hun, hev⟩ := h
  exact ⟨u, htu, by omega, hev⟩

-- What comes within `m` cycles of an event that comes within `n`.
theorem trans (h : Within n ev t) (hnext : ∀ u, t ≤ u → ev u → Within m ev' u) : Within (n + m) ev' t := by
  obtain ⟨u, htu, hun, hev⟩ := h
  obtain ⟨v, huv, hvm, hev'⟩ := hnext u htu hev
  exact ⟨v, by omega, by omega, hev'⟩

theorem later (h : Within n ev (t + 1)) : Within (n + 1) ev t := by
  obtain ⟨u, htu, hun, hev⟩ := h
  exact ⟨u, by omega, by omega, hev⟩

end Within

-- A request that stays up until its answer, and is answered within `n` cycles, is up when the answer comes.
theorem held_within {p : Nat → Prop} (ready : Nat → Prop) {n t : Nat} (hold : ∀ k, t ≤ k → p k → ready k ∨ p (k + 1))
    (answer : Within n ready t) (hp : p t) : Within n (fun u ↦ p u ∧ ready u) t := by
  obtain ⟨u, htu, hun, hu⟩ := answer
  obtain ⟨d, rfl⟩ := Nat.exists_eq_add_of_le htu
  induction d generalizing t n with
  | zero => exact .now ⟨hp, hu⟩
  | succ d ih =>
    rcases hold t le_rfl hp with hr | hnext
    · exact .now ⟨hp, hr⟩
    · have hrest := ih (t := t + 1) (n := n - 1) (fun k hk ↦ hold k (by omega)) hnext (by omega) (by omega)
        (by rwa [Nat.add_assoc, Nat.add_comm 1 d])
      exact hrest.later.mono (by omega)

/-- How long it takes from a rank down to an event, where the rank `k` lasts no longer than `delay k` cycles more
than one. -/
def timeDown (delay : Nat → Nat) : Nat → Nat
  | 0 => delay 0
  | r + 1 => timeDown delay r + 1 + delay (r + 1)

theorem timeDown_mono (delay : Nat → Nat) {r s : Nat} (h : r ≤ s) : timeDown delay r ≤ timeDown delay s := by
  induction s, h using Nat.le_induction with
  | base => exact le_rfl
  | succ s hrs ih =>
    rw [timeDown]
    omega

theorem timeDown_of_lt (delay : Nat → Nat) {r s : Nat} (h : r < s) :
    timeDown delay r + 1 + delay s ≤ timeDown delay s := by
  obtain ⟨k, rfl⟩ : ∃ k, s = k + 1 := ⟨s - 1, by omega⟩
  have hmono := timeDown_mono delay (show r ≤ k by omega)
  rw [timeDown]
  omega

-- A rank that falls in time, or else an event: the event comes in the time of the rank.
theorem within_of_rank {ev : Nat → Prop} (rank delay : Nat → Nat)
    (h : ∀ t, Within (delay (rank t)) (fun u ↦ ev u ∨ rank (u + 1) < rank t) t) (t : Nat) :
    Within (timeDown delay (rank t)) ev t := by
  induction hn : rank t using Nat.strong_induction_on generalizing t with
  | h n ih =>
    obtain ⟨u, htu, hud, hev | hlt⟩ := h t
    · have hle : delay n ≤ timeDown delay n := by
        cases n with
        | zero => exact le_rfl
        | succ n =>
          rw [timeDown]
          omega
      rw [hn] at hud
      exact ⟨u, htu, by omega, hev⟩
    · rw [hn] at hlt hud
      obtain ⟨v, huv, hvd, hev⟩ := ih (rank (u + 1)) hlt (u + 1) rfl
      have htime := timeDown_of_lt delay hlt
      exact ⟨v, by omega, by omega, hev⟩

universe u

variable {α : Type u}

-- Events that come within `n` cycles of each cycle add up.
theorem trace_length_add {ev : Nat → Option α} {n : Nat} (h : ∀ t, Within n (fun u ↦ (ev u).isSome) t) (t k : Nat) :
    (trace ev t).length + k ≤ (trace ev (t + k * (n + 1))).length := by
  induction k with
  | zero => simp
  | succ k ih =>
    obtain ⟨u, htu, hun, hu⟩ := h (t + k * (n + 1))
    obtain ⟨e, he⟩ := Option.isSome_iff_exists.mp hu
    have hend : u + 1 ≤ t + (k + 1) * (n + 1) := by
      rw [Nat.succ_mul]
      omega
    have hbefore := trace_length_mono ev htu
    have hafter := trace_length_mono ev hend
    rw [trace_succ, he, Option.toList_some, List.length_append, List.length_singleton] at hafter
    omega

end Clocked
