import Mathlib

/-!
# Synchronous machines

A clocked machine is a step function `σ → ι → σ` and a reset state.  This file has the run over an
input stream, the event trace of a run, and the two rules every proof about runs uses: an invariant
preserved by one clock edge holds after every edge, and a rank that keeps falling forces an event.
-/

namespace Clocked

universe u v w

variable {σ : Type u} {ι : Type v} {α : Type w}

/-- The state after `t` clock edges, fed with the input stream `inp`. -/
def run (step : σ → ι → σ) (s₀ : σ) (inp : Nat → ι) : Nat → σ
  | 0 => s₀
  | t + 1 => step (run step s₀ inp t) (inp t)

@[simp] theorem run_zero (step : σ → ι → σ) (s₀ : σ) (inp : Nat → ι) :
    run step s₀ inp 0 = s₀ := rfl

theorem run_succ (step : σ → ι → σ) (s₀ : σ) (inp : Nat → ι) (t : Nat) :
    run step s₀ inp (t + 1) = step (run step s₀ inp t) (inp t) := rfl

-- What one edge preserves from any state holds after every edge.
theorem run_invariant (Inv : σ → Prop) {step : σ → ι → σ} {s₀ : σ} {inp : Nat → ι}
    (h0 : Inv s₀) (hstep : ∀ s i, Inv s → Inv (step s i)) (t : Nat) :
    Inv (run step s₀ inp t) := by
  induction t with
  | zero => exact h0
  | succ t ih => exact hstep _ _ ih

/-! ## Event traces -/

/-- The events of the first `t` cycles, oldest first. -/
def trace (ev : Nat → Option α) : Nat → List α
  | 0 => []
  | t + 1 => trace ev t ++ (ev t).toList

@[simp] theorem trace_zero (ev : Nat → Option α) : trace ev 0 = [] := rfl

theorem trace_succ (ev : Nat → Option α) (t : Nat) :
    trace ev (t + 1) = trace ev t ++ (ev t).toList := rfl

theorem trace_mono (ev : Nat → Option α) {t u : Nat} (h : t ≤ u) :
    trace ev t <+: trace ev u := by
  induction u, h using Nat.le_induction with
  | base => exact List.prefix_rfl
  | succ u _ ih => exact ih.trans (List.prefix_append _ _)

theorem trace_length_mono (ev : Nat → Option α) {t u : Nat} (h : t ≤ u) :
    (trace ev t).length ≤ (trace ev u).length :=
  (trace_mono ev h).length_le

-- Events that keep coming make the trace grow past every length.
theorem trace_unbounded {ev : Nat → Option α} (h : ∀ t, ∃ u, t ≤ u ∧ (ev u).isSome) (n : Nat) :
    ∃ t, n ≤ (trace ev t).length := by
  induction n with
  | zero => exact ⟨0, Nat.zero_le _⟩
  | succ n ih =>
    obtain ⟨t, ht⟩ := ih
    obtain ⟨u, htu, hev⟩ := h t
    refine ⟨u + 1, ?_⟩
    have hlen := trace_length_mono ev htu
    obtain ⟨e, he⟩ := Option.isSome_iff_exists.mp hev
    rw [trace_succ, he]
    simp only [Option.toList_some, List.length_append, List.length_cons, List.length_nil]
    omega

theorem trace_map {β : Type*} (f : α → β) (ev : Nat → Option α) (t : Nat) :
    trace (fun u ↦ (ev u).map f) t = (trace ev t).map f := by
  induction t with
  | zero => rfl
  | succ t ih =>
    rw [trace_succ, trace_succ, ih, List.map_append]
    cases ev t <;> rfl

-- Two traces with events in the same cycles agree exactly if the events do.
theorem trace_eq_iff {ev ev' : Nat → Option α} {t : Nat}
    (h : ∀ u < t, (ev u).isSome = (ev' u).isSome) :
    trace ev t = trace ev' t ↔ ∀ u < t, ev u = ev' u := by
  induction t with
  | zero => exact ⟨fun _ u hu ↦ absurd hu (Nat.not_lt_zero u), fun _ ↦ rfl⟩
  | succ t ih =>
    have hsome := h t (Nat.lt_succ_self t)
    have hlast : (ev t).toList.length = (ev' t).toList.length := by
      cases hv : ev t <;> cases hv' : ev' t <;> simp_all
    have hprev := ih fun u hu ↦ h u (by omega)
    rw [trace_succ, trace_succ]
    constructor
    · intro heq u hu
      obtain ⟨hinit, hnow⟩ := List.append_inj' heq hlast
      rcases Nat.lt_succ_iff_lt_or_eq.mp hu with hlt | rfl
      · exact hprev.mp hinit u hlt
      · cases hv : ev u <;> cases hv' : ev' u <;> simp_all
    · intro hall
      rw [hprev.mpr fun u hu ↦ hall u (by omega), hall t (Nat.lt_succ_self t)]

theorem trace_length_eq {ev ev' : Nat → Option α} {t : Nat}
    (h : ∀ u < t, (ev u).isSome = (ev' u).isSome) :
    (trace ev t).length = (trace ev' t).length := by
  induction t with
  | zero => rfl
  | succ t ih =>
    have hsome := h t (Nat.lt_succ_self t)
    rw [trace_succ, trace_succ, List.length_append, List.length_append, ih fun u hu ↦ h u (by omega)]
    cases hv : ev t <;> cases hv' : ev' t <;> simp_all

-- If there is another event whenever there have been fewer than `k`, there are `k` events.
theorem trace_reaches {ev : Nat → Option α} {T k : Nat}
    (h : ∀ v, T ≤ v → (trace ev v).length < k → ∃ u, v ≤ u ∧ (ev u).isSome) :
    ∃ u, T ≤ u ∧ k ≤ (trace ev u).length := by
  induction k with
  | zero => exact ⟨T, Nat.le_refl _, Nat.zero_le _⟩
  | succ k ih =>
    obtain ⟨v, hv, hk⟩ := ih fun v hv hlt ↦ h v hv (by omega)
    by_cases hdone : k + 1 ≤ (trace ev v).length
    · exact ⟨v, hv, hdone⟩
    · obtain ⟨u, hu, hev⟩ := h v hv (by omega)
      obtain ⟨e, he⟩ := Option.isSome_iff_exists.mp hev
      have hlen := trace_length_mono ev hu
      refine ⟨u + 1, by omega, ?_⟩
      rw [trace_succ, he, Option.toList_some, List.length_append, List.length_singleton]
      omega

/-! ## Progress -/

-- A request that stays up until it is answered, in a world that answers every request, is up in the cycle of
-- its answer.
theorem held_until_ready {p : Nat → Prop} (ready : Nat → Prop) (hold : ∀ t, p t → ready t ∨ p (t + 1))
    (fair : ∀ t, p t → ∃ u, t ≤ u ∧ ready u) {t : Nat} (ht : p t) :
    ∃ u, t ≤ u ∧ p u ∧ ready u := by
  obtain ⟨v, htv, hv⟩ := fair t ht
  obtain ⟨d, rfl⟩ := Nat.exists_eq_add_of_le htv
  induction d generalizing t with
  | zero => exact ⟨t, Nat.le_refl _, ht, hv⟩
  | succ d ih =>
    rcases hold t ht with hr | hp
    · exact ⟨t, Nat.le_refl _, ht, hr⟩
    · obtain ⟨u, hu, h⟩ := ih hp (by omega) (by rwa [Nat.add_assoc, Nat.add_comm 1 d])
      exact ⟨u, by omega, h⟩

-- If from every cycle on there is an event or a smaller rank, there are events for ever.
theorem event_of_rank {ev : Nat → Prop} (rank : Nat → Nat)
    (h : ∀ t, ∃ u, t ≤ u ∧ (ev u ∨ rank u < rank t)) (t : Nat) : ∃ u, t ≤ u ∧ ev u := by
  induction hn : rank t using Nat.strong_induction_on generalizing t with
  | h n ih =>
    obtain ⟨u, htu, hev | hlt⟩ := h t
    · exact ⟨u, htu, hev⟩
    · obtain ⟨v, huv, hev⟩ := ih (rank u) (hn ▸ hlt) u rfl
      exact ⟨v, Nat.le_trans htu huv, hev⟩

-- A state of affairs that lasts until an event and lowers a rank in every cycle forces the event.
theorem event_of_rank_while {ev : Nat → Prop} (p : Nat → Prop) (rank : Nat → Nat)
    (h : ∀ t, p t → ev t ∨ p (t + 1) ∧ rank (t + 1) < rank t) {t : Nat} (ht : p t) :
    ∃ u, t ≤ u ∧ ev u := by
  induction hn : rank t using Nat.strong_induction_on generalizing t with
  | h n ih =>
    rcases h t ht with hev | ⟨hp, hlt⟩
    · exact ⟨t, Nat.le_refl _, hev⟩
    · obtain ⟨u, hu, hev⟩ := ih (rank (t + 1)) (hn ▸ hlt) hp rfl
      exact ⟨u, by omega, hev⟩

-- The first such event, with the state of affairs up to it.
theorem first_event_while {ev p : Nat → Prop} (rank : Nat → Nat)
    (h : ∀ t, p t → ev t ∨ p (t + 1) ∧ rank (t + 1) < rank t) {t : Nat} (ht : p t) :
    ∃ u, t ≤ u ∧ ev u ∧ (∀ v, t ≤ v → v < u → ¬ ev v) ∧ ∀ v, t ≤ v → v ≤ u → p v := by
  induction hn : rank t using Nat.strong_induction_on generalizing t with
  | h n ih =>
    by_cases hev : ev t
    · exact ⟨t, Nat.le_refl t, hev, fun v h1 h2 ↦ by omega, fun v h1 h2 ↦ by
        rwa [show v = t by omega]⟩
    · obtain ⟨hp, hlt⟩ := (h t ht).resolve_left hev
      obtain ⟨u, hu, hevu, hno, hall⟩ := ih (rank (t + 1)) (hn ▸ hlt) hp rfl
      refine ⟨u, by omega, hevu, ?_, ?_⟩
      · intro v h1 h2
        by_cases hv : v = t
        · rwa [hv]
        · exact hno v (by omega) h2
      · intro v h1 h2
        by_cases hv : v = t
        · rwa [hv]
        · exact hall v (by omega) h2

end Clocked
