import QarCore.Clocked.Run

/-!
# Simulation of a clocked machine by a labelled one

In each cycle the concrete machine either stutters or performs one labelled step of an abstract
machine.  One edge of simulation gives the whole run: the abstract state is the fold of the labels
seen so far, and every output of the concrete machine is an output of the abstract one, in order.
-/

namespace Clocked

universe u v w x y

variable {σ : Type u} {ι : Type v} {α : Type w} {ε : Type x} {ω : Type y}

/-- The outputs of the abstract machine along a list of labels. -/
def emitted (astep : α → ε → α) (out : α → ε → Option ω) : α → List ε → List ω
  | _, [] => []
  | a, e :: es => (out a e).toList ++ emitted astep out (astep a e) es

@[simp] theorem emitted_nil (astep : α → ε → α) (out : α → ε → Option ω) (a : α) :
    emitted astep out a [] = [] := rfl

theorem emitted_append (astep : α → ε → α) (out : α → ε → Option ω) (a : α) (es fs : List ε) :
    emitted astep out a (es ++ fs) =
      emitted astep out a es ++ emitted astep out (es.foldl astep a) fs := by
  induction es generalizing a with
  | nil => rfl
  | cons e es ih => simp only [List.cons_append, emitted, ih, List.foldl_cons, List.append_assoc]

-- The first output comes from a label after labels without output.
theorem emitted_eq_cons {astep : α → ε → α} {out : α → ε → Option ω} {a : α} {es : List ε} {o : ω}
    {os : List ω} (h : emitted astep out a es = o :: os) :
    ∃ es₁ e es₂, es = es₁ ++ e :: es₂ ∧ emitted astep out a es₁ = [] ∧
      out (es₁.foldl astep a) e = some o ∧
      emitted astep out (astep (es₁.foldl astep a) e) es₂ = os := by
  induction es generalizing a with
  | nil => cases h
  | cons e es ih =>
    rw [emitted] at h
    cases ho : out a e with
    | some o' =>
      rw [ho] at h
      injection h with hfirst hrest
      exact ⟨[], e, es, rfl, rfl, ho.trans (congrArg some hfirst), hrest⟩
    | none =>
      rw [ho] at h
      obtain ⟨es₁, e', es₂, rfl, hquiet, hout, hrest⟩ := ih h
      refine ⟨e :: es₁, e', es₂, rfl, ?_, hout, hrest⟩
      rw [emitted, ho, hquiet]
      rfl

theorem emitted_length_of_isSome {astep : α → ε → α} {out : α → ε → Option ω} {es : List ε}
    (h : ∀ a, ∀ e ∈ es, (out a e).isSome) (a : α) : (emitted astep out a es).length = es.length := by
  induction es generalizing a with
  | nil => rfl
  | cons e es ih =>
    obtain ⟨o, ho⟩ := Option.isSome_iff_exists.mp (h a e List.mem_cons_self)
    rw [emitted, ho, List.length_append, ih fun a' e' he ↦ h a' e' (List.mem_cons_of_mem _ he),
      Option.toList_some, List.length_singleton, List.length_cons, Nat.add_comm]

/-- Label `n` of both lists makes the same step with the same output, after the same labels. -/
def AgreeAt (astep : α → ε → α) (out : α → ε → Option ω) (a : α) (es fs : List ε) : Prop :=
  ∀ n e f, es[n]? = some e → fs[n]? = some f →
    astep ((es.take n).foldl astep a) e = astep ((es.take n).foldl astep a) f ∧
      out ((es.take n).foldl astep a) e = out ((es.take n).foldl astep a) f

-- Of the outputs along two lists that agree, one begins the other.
theorem emitted_prefix {astep : α → ε → α} {out : α → ε → Option ω} {a : α} {es fs : List ε}
    (h : AgreeAt astep out a es fs) :
    emitted astep out a es <+: emitted astep out a fs ∨
      emitted astep out a fs <+: emitted astep out a es := by
  induction es generalizing a fs with
  | nil => exact .inl List.nil_prefix
  | cons e es ih =>
    cases fs with
    | nil => exact .inr List.nil_prefix
    | cons f fs =>
      obtain ⟨hs, ho⟩ := h 0 e f rfl rfl
      simp only [List.take_zero, List.foldl_nil] at hs ho
      rw [emitted, emitted, ← ho, ← hs, List.prefix_append_right_inj,
        List.prefix_append_right_inj]
      exact ih fun n e' f' he hf ↦ h (n + 1) e' f' he hf

section Simulation

variable {step : σ → ι → σ} {s₀ : σ} {inp : Nat → ι} {astep : α → ε → α} {a₀ : α}
  {R : σ → α → Prop} {label : σ → ι → Option ε} {C : σ → ι → Prop}

/-- The labels of the first `t` cycles of the run. -/
def labels (step : σ → ι → σ) (s₀ : σ) (inp : Nat → ι) (label : σ → ι → Option ε) (t : Nat) :
    List ε :=
  trace (fun u ↦ label (run step s₀ inp u) (inp u)) t

theorem labels_succ (t : Nat) :
    labels step s₀ inp label (t + 1) =
      labels step s₀ inp label t ++ (label (run step s₀ inp t) (inp t)).toList := rfl

-- One simulated edge, folded over the run.
theorem simulation (h0 : R s₀ a₀)
    (hstep : ∀ s i a, R s a → C s i → R (step s i) ((label s i).elim a (astep a))) (t : Nat)
    (hok : ∀ u, u < t → C (run step s₀ inp u) (inp u)) :
    R (run step s₀ inp t) ((labels step s₀ inp label t).foldl astep a₀) := by
  induction t with
  | zero => exact h0
  | succ t ih =>
    have hR := ih fun u hu ↦ hok u (by omega)
    have hnext := hstep _ (inp t) _ hR (hok t (by omega))
    rw [labels_succ, List.foldl_append, run_succ]
    cases hl : label (run step s₀ inp t) (inp t) with
    | none => simpa [hl] using hnext
    | some e => simpa [hl] using hnext

-- What the concrete machine shows is what the abstract machine puts out along the labels.
theorem simulation_trace {obs : σ → ι → Option ω} {out : α → ε → Option ω} (h0 : R s₀ a₀)
    (hstep : ∀ s i a, R s a → C s i → R (step s i) ((label s i).elim a (astep a)))
    (hobs : ∀ s i a, R s a → C s i → obs s i = (label s i).bind (out a)) (t : Nat)
    (hok : ∀ u, u < t → C (run step s₀ inp u) (inp u)) :
    trace (fun u ↦ obs (run step s₀ inp u) (inp u)) t =
      emitted astep out a₀ (labels step s₀ inp label t) := by
  induction t with
  | zero => rfl
  | succ t ih =>
    have hR := simulation h0 hstep t fun u hu ↦ hok u (by omega)
    have ho := hobs _ (inp t) _ hR (hok t (by omega))
    rw [trace_succ, ih fun u hu ↦ hok u (by omega), labels_succ, emitted_append, ho]
    cases label (run step s₀ inp t) (inp t) with
    | none => simp
    | some e => simp [emitted]

end Simulation

end Clocked
