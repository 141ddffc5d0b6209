import QarCore.Core.Refinement

/-!
# The pipeline makes progress

If every fetch request and every DMEM transaction is answered in the end, the reference machine
makes infinitely many steps.  The rank of a state is the distance of its oldest instruction from
leaving EX: without a step of the reference machine a cycle lowers it or waits for one of the buses.
-/

namespace QarCore

universe u

variable {M : Type u} {cfg : Config} {imem : Word → Word} {d : DataMem M} {s : Core} {i : Inputs}
  {b : Board M} {a : Arch M} {e : Inputs}

/-- How far the oldest instruction is from leaving EX. -/
def distance (s : Core) : Nat :=
  if s.front.ex.valid then if s.dmem.pending then 0 else 1
  else if s.front.id.valid then 2
  else if s.front.ifBuf.valid then 3
  else if s.front.fetchReqPending then 4
  else 5

/-- Nothing is left of the pipeline but an outstanding request. -/
def Fetching (s : Core) : Prop :=
  s.front.ex.valid = false ∧ s.front.id.valid = false ∧ s.front.ifBuf.valid = false ∧
    s.front.fetchReqPending = true

theorem distance_of_ex (h : s.front.ex.valid) : distance s ≤ 1 := by
  unfold distance
  rw [if_pos h]
  split <;> omega

theorem distance_of_id (h : s.front.id.valid) : distance s ≤ 2 := by
  unfold distance
  rw [if_pos h]
  split_ifs <;> omega

theorem distance_of_ifBuf (h : s.front.ifBuf.valid) : distance s ≤ 3 := by
  unfold distance
  rw [if_pos h]
  split_ifs <;> omega

-- Without a step of the reference machine nothing flushes.
theorem quiet_of_no_event (hev : eventOf s i = none) :
    irqTaken s i = false ∧ exLeaves s i = false ∧
      ((control s i).trap.request || (control s i).flushPipe) = false := by
  unfold eventOf at hev
  split_ifs at hev with hq hl
  rw [Bool.not_eq_true] at hq hl
  refine ⟨hq, hl, ?_⟩
  cases hv : s.front.ex.valid
  · rw [control_flush, hq, hv]
    rfl
  · rw [exLeaves, hq, hv] at hl
    simp only [Bool.not_false, Bool.and_self, Bool.true_and, Bool.or_eq_false_iff] at hl
    rw [hl.1.1, hl.1.2]
    rfl

namespace Sim

-- With EX empty ID is free to hand its instruction on.
theorem wires_of_ex_empty (h : Sim cfg imem b a) (hv : b.core.front.ex.valid = false) :
    b.core.front.exCanAccept (wires imem d b e) ∧
      b.core.front.idStall (wires imem d b e) = false := by
  have hp := h.pending_of_valid hv
  have hcan : b.core.front.exCanAccept (wires imem d b e) := by
    simp [Front.exCanAccept, hv]
  have hhaz : (wires imem d b e).loadUseHazard = false := by
    simp [wires, frontWires, loadUseHazard, hp]
  exact ⟨hcan, by simp [Front.idStall, hcan, hhaz]⟩

-- An access in EX that does not leave has its transaction on the port after the cycle.
theorem quiet_ex (h : Sim cfg imem b a) (hev : eventOf b.core (b.pins imem d e) = none)
    (hv : b.core.front.ex.valid) :
    distance (b.step cfg imem d e).core < distance b.core ∨
      (b.core.dmem.pending ∧ e.memReady = false ∧ (b.step cfg imem d e).core.dmem.pending) := by
  obtain ⟨hq, hl, hf⟩ := quiet_of_no_event hev
  have hm := h.isMem_of_stays hq hl hv
  have hst := (h.stall_of_stays hq hl hv).2
  have hex : (b.step cfg imem d e).core.front.ex = b.core.front.ex :=
    posedge_ex_of_stall hf hv hst
  have hstart := control_mem_eq (s := b.core) (i := b.pins imem d e)
  have hd : (b.step cfg imem d e).core.dmem =
      dmemNext b.core.dmem (control b.core (b.pins imem d e)).mem e.memReady := rfl
  rw [hv, hm, Bool.true_and, Bool.and_true] at hstart
  cases hp : b.core.dmem.pending
  · refine .inl ?_
    have hp' : (b.step cfg imem d e).core.dmem.pending = true := by
      rw [hd, dmemNext, hstart, hp]
      rfl
    simp [distance, hex, hv, hp, hp']
  · refine .inr ⟨rfl, ?_, ?_⟩
    · rw [exLeaves_of_isMem hq hv hm, hp] at hl
      simpa using hl
    · have hr : e.memReady = false := by
        rw [exLeaves_of_isMem hq hv hm, hp] at hl
        simpa using hl
      rw [hd, dmemNext, hstart, hp, hr]
      exact hp

-- With EX empty the next stages move up.
theorem ex_of_empty (h : Sim cfg imem b a) (hev : eventOf b.core (b.pins imem d e) = none)
    (hv : b.core.front.ex.valid = false) :
    (b.step cfg imem d e).core.front.ex.valid = b.core.front.id.valid := by
  obtain ⟨-, -, hf⟩ := quiet_of_no_event hev
  obtain ⟨hcan, hst⟩ := h.wires_of_ex_empty (d := d) (e := e) hv
  have hflush : (wires imem d b e).flush = false := hf
  have hnext : (b.step cfg imem d e).core.front = b.core.front.next cfg (wires imem d b e) := rfl
  rw [hnext, Front.next_ex hflush, Front.idToEx, hst, hcan]
  cases hid : b.core.front.id.valid <;> simp [hv]

theorem id_of_empty (h : Sim cfg imem b a) (hev : eventOf b.core (b.pins imem d e) = none)
    (hv : b.core.front.ex.valid = false) (hid : b.core.front.id.valid = false) :
    (b.step cfg imem d e).core.front.id.valid = b.core.front.ifBuf.valid := by
  obtain ⟨-, -, hf⟩ := quiet_of_no_event hev
  obtain ⟨-, hst⟩ := h.wires_of_ex_empty (d := d) (e := e) hv
  have hflush : (wires imem d b e).flush = false := hf
  have hnext : (b.step cfg imem d e).core.front = b.core.front.next cfg (wires imem d b e) := rfl
  rw [hnext, Front.next_id hflush, Front.idToEx, Front.idAccept, hst, hid]
  cases hif : b.core.front.ifBuf.valid <;> simp [hid]

-- The queue is empty: a request is out, or one starts, or the cache answers.
theorem quiet_fetch (h : Sim cfg imem b a) (hev : eventOf b.core (b.pins imem d e) = none)
    (hv : b.core.front.ex.valid = false) (hid : b.core.front.id.valid = false)
    (hif : b.core.front.ifBuf.valid = false) :
    distance (b.step cfg imem d e).core < distance b.core ∨
      (Fetching b.core ∧ e.imemReady = false ∧ Fetching (b.step cfg imem d e).core) := by
  obtain ⟨-, -, hf⟩ := quiet_of_no_event hev
  have hflush : (wires imem d b e).flush = false := hf
  have hnext : (b.step cfg imem d e).core.front = b.core.front.next cfg (wires imem d b e) := rfl
  have hrdy : (wires imem d b e).imemReady = e.imemReady := rfl
  have hslot : b.core.front.prefetchSlot.valid = false := by
    rw [← Bool.not_eq_true]
    intro hs
    rw [h.order.queue.slot_ifBuf hs] at hif
    cases hif
  have hacc : b.core.front.idAccept (wires imem d b e) = false := by
    simp [Front.idAccept, hif]
  have hs2i : b.core.front.slotToIf (wires imem d b e) = false := by
    simp [Front.slotToIf, hslot]
  have htgt : b.core.front.ifFetchTarget (wires imem d b e) = true := by
    simp [Front.ifFetchTarget, hif, hs2i]
  have hcf := h.order.queue.canFetch_eq
  have hif' : (b.core.front.next cfg (wires imem d b e)).ifBuf = _ := Front.next_ifBuf hflush
  have hfr' : (b.core.front.next cfg (wires imem d b e)).fetchReqPending = _ :=
    Front.next_fetchReqPending hflush
  rw [hslot, Bool.not_false, Bool.and_true] at hcf
  rw [htgt, hs2i, hacc] at hif'
  rw [← hnext] at hif' hfr'
  cases hpend : b.core.front.fetchReqPending
  · refine .inl ?_
    rw [hpend] at hcf
    have hdist : distance b.core = 5 := by simp [distance, hv, hid, hif, hpend]
    cases hhit : b.core.front.icacheLookupHit cfg
    · have hout : (b.step cfg imem d e).core.front.fetchReqPending = true := by
        rw [hfr', Front.startsFetch, hcf, hhit]
        rfl
      rw [hdist]
      unfold distance
      split_ifs <;> omega
    · have hv' : (b.step cfg imem d e).core.front.ifBuf.valid := by
        rw [hif', Front.answered, hpend, Front.takesHit, hcf, hhit]
        rfl
      have hless := distance_of_ifBuf hv'
      omega
  · have hdist : distance b.core = 4 := by simp [distance, hv, hid, hif, hpend]
    cases hr : e.imemReady
    · refine .inr ⟨⟨hv, hid, hif, hpend⟩, rfl, (h.ex_of_empty hev hv).trans hid,
        (h.id_of_empty hev hv hid).trans hif, ?_, ?_⟩
      · rw [hif', Front.answered, Front.takesHit, hcf, hpend, hrdy, hr]
        exact hif
      · rw [hfr', hpend, hrdy, hr]
        simp
    · refine .inl ?_
      have hv' : (b.step cfg imem d e).core.front.ifBuf.valid := by
        rw [hif', Front.answered, hpend, hrdy, hr]
        rfl
      have hless := distance_of_ifBuf hv'
      omega

-- With EX empty the oldest instruction moves on or waits for its fetch.
theorem quiet_front (h : Sim cfg imem b a) (hev : eventOf b.core (b.pins imem d e) = none)
    (hv : b.core.front.ex.valid = false) :
    distance (b.step cfg imem d e).core < distance b.core ∨
      (Fetching b.core ∧ e.imemReady = false ∧ Fetching (b.step cfg imem d e).core) := by
  cases hid : b.core.front.id.valid with
  | true =>
    have hless := distance_of_ex ((h.ex_of_empty hev hv).trans hid)
    have hdist : distance b.core = 2 := by simp [distance, hv, hid]
    exact .inl (by omega)
  | false =>
    cases hif : b.core.front.ifBuf.valid with
    | true =>
      have hless := distance_of_id ((h.id_of_empty hev hv hid).trans hif)
      have hdist : distance b.core = 3 := by simp [distance, hv, hid, hif]
      exact .inl (by omega)
    | false => exact h.quiet_fetch hev hv hid hif

end Sim

/-! ## Runs -/

section Runs

variable {regs : RegIdx → Word} {m : M} {env : Nat → Inputs}

/-- Every request on either bus is answered in the end. -/
def Fair (cfg : Config) (imem : Word → Word) (d : DataMem M) (regs : RegIdx → Word) (m : M)
    (env : Nat → Inputs) : Prop :=
  (∀ t, (Board.run cfg imem d regs m env t).core.front.fetchReqPending →
    ∃ u, t ≤ u ∧ (env u).imemReady) ∧
  ∀ t, (Board.run cfg imem d regs m env t).core.dmem.memReqValid → ∃ u, t ≤ u ∧ (env u).memReady

/-- From cycle `u` on no step is made, and none comes closer. -/
def Stuck (cfg : Config) (imem : Word → Word) (d : DataMem M) (regs : RegIdx → Word) (m : M)
    (env : Nat → Inputs) (u : Nat) : Prop :=
  ∀ k, u ≤ k → eventOf (Board.run cfg imem d regs m env k).core
      ((Board.run cfg imem d regs m env k).pins imem d (env k)) = none ∧
    distance (Board.run cfg imem d regs m env u).core ≤ distance (Board.run cfg imem d regs m env k).core

section

variable {u : Nat} (hsim : ∀ k, Sim cfg imem (Board.run cfg imem d regs m env k) (archAt cfg imem d regs m env k))
  (hfair : Fair cfg imem d regs m env) (hstuck : Stuck cfg imem d regs m env u)

include hsim hfair hstuck

-- With EX empty the request of the oldest instruction is held until its answer.
theorem not_stuck_fetch : (Board.run cfg imem d regs m env u).core.front.ex.valid ≠ false := by
  intro hv
  have hnext : ∀ k, Board.run cfg imem d regs m env (k + 1) =
      (Board.run cfg imem d regs m env k).step cfg imem d (env k) := fun k ↦ rfl
  have hstay : ∀ k, u ≤ k → (Board.run cfg imem d regs m env k).core.front.ex.valid = false →
      distance (Board.run cfg imem d regs m env k).core ≤
        distance (Board.run cfg imem d regs m env u).core →
      Fetching (Board.run cfg imem d regs m env k).core ∧ (env k).imemReady = false ∧
        Fetching (Board.run cfg imem d regs m env (k + 1)).core := fun k hk hvk hle ↦ by
    rcases (hsim k).quiet_front (hstuck k hk).1 hvk with hlt | hwait
    · rw [← hnext] at hlt
      have hfar := (hstuck (k + 1) (by omega)).2
      omega
    · rwa [← hnext] at hwait
  have hfetch := (hstay u (Nat.le_refl u) hv (Nat.le_refl _)).1
  have hdist : ∀ s : Core, Fetching s → distance s = 4 := fun s hs ↦ by
    obtain ⟨h1, h2, h3, h4⟩ := hs
    simp [distance, h1, h2, h3, h4]
  obtain ⟨k, -, ⟨huk, hk⟩, hr⟩ := Clocked.held_until_ready
    (p := fun k ↦ u ≤ k ∧ Fetching (Board.run cfg imem d regs m env k).core)
    (fun k ↦ (env k).imemReady) (t := u)
    (fun k ⟨huk, hk⟩ ↦ .inr ⟨by omega, (hstay k huk hk.1
      (by rw [hdist _ hk, hdist _ hfetch])).2.2⟩)
    (fun k ⟨_, hk⟩ ↦ hfair.1 k hk.2.2.2) ⟨Nat.le_refl u, hfetch⟩
  have hwait := (hstay k huk hk.1 (by rw [hdist _ hk, hdist _ hfetch])).2.1
  rw [hr] at hwait
  cases hwait

-- The access in EX waits for its transaction.
theorem not_stuck_access : (Board.run cfg imem d regs m env u).core.front.ex.valid ≠ true := by
  intro hv
  have hnext : ∀ k, Board.run cfg imem d regs m env (k + 1) =
      (Board.run cfg imem d regs m env k).step cfg imem d (env k) := fun k ↦ rfl
  have hpend : (Board.run cfg imem d regs m env u).core.dmem.pending := by
    rcases (hsim u).quiet_ex (hstuck u (Nat.le_refl u)).1 hv with hlt | hwait
    · rw [← hnext] at hlt
      have hfar := (hstuck (u + 1) (by omega)).2
      omega
    · exact hwait.1
  have hstay : ∀ k, u ≤ k → (Board.run cfg imem d regs m env k).core.dmem.pending →
      (env k).memReady = false ∧ (Board.run cfg imem d regs m env (k + 1)).core.dmem.pending :=
      fun k hk hp ↦ by
    have hvk := ((hsim k).owner hp).1
    rcases (hsim k).quiet_ex (hstuck k hk).1 hvk with hlt | hwait
    · simp [distance, hvk, hp] at hlt
    · exact hwait.2
  obtain ⟨k, -, ⟨huk, hk⟩, hr⟩ := Clocked.held_until_ready
    (p := fun k ↦ u ≤ k ∧ (Board.run cfg imem d regs m env k).core.dmem.pending)
    (fun k ↦ (env k).memReady) (t := u)
    (fun k ⟨huk, hk⟩ ↦ .inr ⟨by omega, (hstay k huk hk).2⟩)
    (fun k ⟨_, hk⟩ ↦ hfair.2 k (by rw [(hsim k).reqValid]; exact hk))
    ⟨Nat.le_refl u, hpend⟩
  have hwait := (hstay k huk hk).1
  rw [hr] at hwait
  cases hwait

end

-- A clean run in a fair environment never stops making steps.
theorem event_of_fair (hw : cfg.icacheEnabled → Front.WordFits (HoldsWord imem))
    (hc : ∀ t, CleanUntil cfg imem d regs m env t) (hfair : Fair cfg imem d regs m env) (t : Nat) :
    ∃ u, t ≤ u ∧ (eventOf (Board.run cfg imem d regs m env u).core
      ((Board.run cfg imem d regs m env u).pins imem d (env u))).isSome := by
  have hsim : ∀ k, Sim cfg imem (Board.run cfg imem d regs m env k)
      (archAt cfg imem d regs m env k) := fun k ↦ sim_run hw (hc k)
  refine Clocked.event_of_rank (fun u ↦ distance (Board.run cfg imem d regs m env u).core)
    (fun u ↦ ?_) t
  by_contra hno
  push Not at hno
  have hstuck : Stuck cfg imem d regs m env u := fun k hk ↦ ⟨by simpa using (hno k hk).1, (hno k hk).2⟩
  cases hv : (Board.run cfg imem d regs m env u).core.front.ex.valid with
  | false => exact not_stuck_fetch hsim hfair hstuck hv
  | true => exact not_stuck_access hsim hfair hstuck hv

-- In a fair environment the steps of a clean run grow past every number.
theorem events_unbounded (hw : cfg.icacheEnabled → Front.WordFits (HoldsWord imem))
    (hc : ∀ t, CleanUntil cfg imem d regs m env t) (hfair : Fair cfg imem d regs m env) (n : Nat) :
    ∃ t, n ≤ (events cfg imem d regs m env t).length :=
  Clocked.trace_unbounded (event_of_fair hw hc hfair) n

end Runs

end QarCore
