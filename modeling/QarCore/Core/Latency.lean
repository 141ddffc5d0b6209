import QarCore.Clocked.Deadline
import QarCore.Core.PipelineIsa

/-!
# How fast the pipeline is

Where every request is answered within `W` cycles, the reference machine makes a step in every `2 * W + 6` cycles:
the oldest instruction waits at most once for its fetch and once for its access.
-/

namespace QarCore

universe u

variable {M : Type u} {cfg : Config} {imem : Word → Word} {d : DataMem M} {regs : RegIdx → Word} {m : M}
  {env : Nat → Inputs} {W : Nat}

open Clocked (Within)

/-- Every request on either bus is answered within `W` cycles. -/
def AnsweredWithin (W : Nat) (cfg : Config) (imem : Word → Word) (d : DataMem M) (regs : RegIdx → Word) (m : M)
    (env : Nat → Inputs) : Prop :=
  (∀ t, (Board.run cfg imem d regs m env t).core.front.fetchReqPending → Within W (fun u ↦ (env u).imemReady) t) ∧
  ∀ t, (Board.run cfg imem d regs m env t).core.dmem.memReqValid → Within W (fun u ↦ (env u).memReady) t

theorem AnsweredWithin.fair (h : AnsweredWithin W cfg imem d regs m env) : Fair cfg imem d regs m env := by
  constructor
  · intro t ht
    obtain ⟨u, htu, -, hu⟩ := h.1 t ht
    exact ⟨u, htu, hu⟩
  · intro t ht
    obtain ⟨u, htu, -, hu⟩ := h.2 t ht
    exact ⟨u, htu, hu⟩

/-- The cycles an instruction may wait at a distance: for its access next to leaving, for its fetch at four. -/
def waitAt (W : Nat) : Nat → Nat
  | 0 => W
  | 4 => W
  | _ => 0

theorem timeDown_waitAt {r : Nat} (h : r ≤ 5) : Clocked.timeDown (waitAt W) r ≤ 2 * W + 5 := by
  have hmono := Clocked.timeDown_mono (waitAt W) h
  have hall : Clocked.timeDown (waitAt W) 5 = 2 * W + 5 := by
    simp only [Clocked.timeDown, waitAt]
    omega
  omega

theorem distance_le (s : Core) : distance s ≤ 5 := by
  unfold distance
  split_ifs <;> omega

theorem distance_of_fetching {s : Core} (h : Fetching s) : distance s = 4 := by
  obtain ⟨h1, h2, h3, h4⟩ := h
  simp [distance, h1, h2, h3, h4]

section Run

/-- The step of the reference machine in cycle `t`. -/
def eventAt (cfg : Config) (imem : Word → Word) (d : DataMem M) (regs : RegIdx → Word) (m : M)
    (env : Nat → Inputs) (t : Nat) : Option Event :=
  eventOf (Board.run cfg imem d regs m env t).core ((Board.run cfg imem d regs m env t).pins imem d (env t))

variable (hsim : ∀ k, Sim cfg imem (Board.run cfg imem d regs m env k) (archAt cfg imem d regs m env k))
  (ha : AnsweredWithin W cfg imem d regs m env)

include hsim ha

-- An access in EX leaves or gets its transaction, and leaves with the answer.
theorem within_ex {t : Nat} (hv : (Board.run cfg imem d regs m env t).core.front.ex.valid) :
    Within (waitAt W (distance (Board.run cfg imem d regs m env t).core))
      (fun u ↦ (eventAt cfg imem d regs m env u).isSome ∨ distance (Board.run cfg imem d regs m env (u + 1)).core <
        distance (Board.run cfg imem d regs m env t).core) t := by
  have hnext : ∀ k, Board.run cfg imem d regs m env (k + 1) =
      (Board.run cfg imem d regs m env k).step cfg imem d (env k) := fun k ↦ rfl
  cases hp : (Board.run cfg imem d regs m env t).core.dmem.pending with
  | false =>
    refine .now ?_
    cases hev : eventAt cfg imem d regs m env t with
    | some e => exact .inl rfl
    | none =>
      rcases (hsim t).quiet_ex hev hv with hlt | ⟨hpend, -⟩
      · exact .inr hlt
      · rw [hp] at hpend
        cases hpend
  | true =>
    have hdist : distance (Board.run cfg imem d regs m env t).core = 0 := by simp [distance, hv, hp]
    rw [hdist]
    -- the transaction stays on the port until the event or the answer
    have hheld : Within W (fun u ↦ ((eventAt cfg imem d regs m env u).isSome ∨
        (Board.run cfg imem d regs m env u).core.dmem.pending) ∧ ((eventAt cfg imem d regs m env u).isSome ∨
        (env u).memReady)) t := by
      refine Clocked.held_within _ (fun k _ hk ↦ ?_) ?_ (.inr hp)
      · cases hev : eventAt cfg imem d regs m env k with
        | some e => exact .inl (.inl rfl)
        | none =>
          rw [hev] at hk
          have hpk : (Board.run cfg imem d regs m env k).core.dmem.pending := hk.resolve_left Bool.false_ne_true
          have hvk := ((hsim k).owner hpk).1
          rcases (hsim k).quiet_ex hev hvk with hlt | ⟨-, -, hstay⟩
          · simp [distance, hvk, hpk] at hlt
          · rw [hnext]
            exact .inr (.inr hstay)
      · have hans := ha.2 t (by rw [(hsim t).reqValid]; exact hp)
        exact hans.imp fun u _ hu ↦ .inr hu
    refine hheld.imp fun u _ hkr ↦ ?_
    obtain ⟨hk, hr⟩ := hkr
    cases hev : eventAt cfg imem d regs m env u with
    | some e => exact .inl rfl
    | none =>
      rw [hev] at hk hr
      have hpu : (Board.run cfg imem d regs m env u).core.dmem.pending := hk.resolve_left Bool.false_ne_true
      have hru : (env u).memReady := hr.resolve_left Bool.false_ne_true
      have hvu := ((hsim u).owner hpu).1
      rcases (hsim u).quiet_ex hev hvu with hlt | ⟨-, hno, -⟩
      · simp [distance, hvu, hpu] at hlt
      · rw [hno] at hru
        cases hru

-- Without an instruction in EX the next ones move up, and a fetch ends with its answer.
theorem within_front {t : Nat} (hv : (Board.run cfg imem d regs m env t).core.front.ex.valid = false) :
    Within (waitAt W (distance (Board.run cfg imem d regs m env t).core))
      (fun u ↦ (eventAt cfg imem d regs m env u).isSome ∨ distance (Board.run cfg imem d regs m env (u + 1)).core <
        distance (Board.run cfg imem d regs m env t).core) t := by
  have hnext : ∀ k, Board.run cfg imem d regs m env (k + 1) =
      (Board.run cfg imem d regs m env k).step cfg imem d (env k) := fun k ↦ rfl
  by_cases hf : Fetching (Board.run cfg imem d regs m env t).core
  · rw [distance_of_fetching hf]
    have hheld : Within W (fun u ↦ Fetching (Board.run cfg imem d regs m env u).core ∧
        ((eventAt cfg imem d regs m env u).isSome ∨ (env u).imemReady ∨
          distance (Board.run cfg imem d regs m env (u + 1)).core < 4)) t := by
      refine Clocked.held_within _ (fun k _ hk ↦ ?_) ?_ hf
      · cases hev : eventAt cfg imem d regs m env k with
        | some e => exact .inl (.inl rfl)
        | none =>
          rcases (hsim k).quiet_front hev hk.1 with hlt | ⟨-, -, hstay⟩
          · rw [distance_of_fetching hk] at hlt
            exact .inl (.inr (.inr hlt))
          · rw [hnext]
            exact .inr hstay
      · exact (ha.1 t hf.2.2.2).imp fun u _ hu ↦ .inr (.inl hu)
    refine hheld.imp fun u _ hkr ↦ ?_
    obtain ⟨hk, hr⟩ := hkr
    cases hev : eventAt cfg imem d regs m env u with
    | some e => exact .inl rfl
    | none =>
      rw [hev] at hr
      rcases hr with hno | hru | hlt
      · cases hno
      · rcases (hsim u).quiet_front hev hk.1 with hlt | ⟨-, hno, -⟩
        · rw [distance_of_fetching hk] at hlt
          exact .inr hlt
        · rw [hno] at hru
          cases hru
      · exact .inr hlt
  · refine .now ?_
    cases hev : eventAt cfg imem d regs m env t with
    | some e => exact .inl rfl
    | none =>
      rcases (hsim t).quiet_front hev hv with hlt | ⟨hfetch, -⟩
      · exact .inr hlt
      · exact absurd hfetch hf

theorem event_within (t : Nat) : Within (2 * W + 5) (fun u ↦ (eventAt cfg imem d regs m env u).isSome) t := by
  have hstep : Within (Clocked.timeDown (waitAt W) (distance (Board.run cfg imem d regs m env t).core))
      (fun u ↦ (eventAt cfg imem d regs m env u).isSome) t := by
    refine Clocked.within_of_rank (fun u ↦ distance (Board.run cfg imem d regs m env u).core) (waitAt W)
      (fun u ↦ ?_) t
    cases hv : (Board.run cfg imem d regs m env u).core.front.ex.valid with
    | false => exact within_front hsim ha hv
    | true => exact within_ex hsim ha hv
  exact hstep.mono (timeDown_waitAt (distance_le _))

end Run

/-- How fast the core is: in a clean run in which every request is answered within `W` cycles, any `2 * W + 6` cycles
in a row bring a step, so that `k` times as many bring `k` steps, whatever the program is. -/
theorem steps_in_time (W : Nat) (cfg : Config) (imem : Word → Word) (d : DataMem M) (regs : RegIdx → Word) (m : M)
    (env : Nat → Inputs) (hw : cfg.icacheEnabled → Front.WordFits (HoldsWord imem))
    (hc : ∀ t, CleanUntil cfg imem d regs m env t) (ha : AnsweredWithin W cfg imem d regs m env) (t k : Nat) :
    (events cfg imem d regs m env t).length + k ≤
      (events cfg imem d regs m env (t + k * (2 * W + 6))).length :=
  Clocked.trace_length_add (n := 2 * W + 5) (event_within (fun u ↦ sim_run hw (hc u)) ha) t k

-- Words come in every second cycle, data in every third.
theorem slowBuses_answered : AnsweredWithin 2 .noCache storeLoop wordMem (fun _ ↦ 0#32) (fun _ ↦ 0#32) slowBuses := by
  constructor
  · intro t _
    refine ⟨t + (t + 1) % 2, by omega, by omega, ?_⟩
    change ((t + (t + 1) % 2) % 2 == 1) = true
    rw [beq_iff_eq]
    omega
  · intro t _
    refine ⟨t + (3 - t % 3) % 3, by omega, by omega, ?_⟩
    change ((t + (3 - t % 3) % 3) % 3 == 0) = true
    rw [beq_iff_eq]
    omega

theorem steps_in_time_storeLoop :
    20 ≤ (events .noCache storeLoop wordMem (fun _ ↦ 0#32) (fun _ ↦ 0#32) slowBuses 200).length := by
  have h := steps_in_time 2 .noCache storeLoop wordMem (fun _ ↦ 0#32) (fun _ ↦ 0#32) slowBuses nofun
    (fun t ↦ clean_of_disabled rfl fun u _ ↦ storeLoop_noInterrupt u) slowBuses_answered 0 20
  exact le_trans (Nat.le_add_left 20 _) h

end QarCore
