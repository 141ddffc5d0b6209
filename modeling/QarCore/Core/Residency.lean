import QarCore.Core.Refinement

/-!
# How long an instruction stays in EX

A residency is the interval of cycles in which one instruction is in EX, in any run of the core with
any inputs.  What happens in it is decided in its first cycle: a DMEM transaction outstanding at entry
belongs to an earlier instruction, and the new one waits for it without ever starting its own.
-/

namespace QarCore

variable {cfg : Config} {s : Core} {i : Inputs}

/-- The core `t` cycles after reset. -/
def Core.run (cfg : Config) (regs : RegIdx → Word) (inp : Nat → Inputs) (t : Nat) : Core :=
  Clocked.run (posedge cfg) (Core.reset regs) inp t

theorem Core.run_succ (regs : RegIdx → Word) (inp : Nat → Inputs) (t : Nat) :
    Core.run cfg regs inp (t + 1) = posedge cfg (Core.run cfg regs inp t) (inp t) := rfl

/-- The input pins of a board in the environment `env`, as the core sees them. -/
def Board.inputs {M : Type*} (cfg : Config) (imem : Word → Word) (d : DataMem M)
    (regs : RegIdx → Word) (m : M) (env : Nat → Inputs) (t : Nat) : Inputs :=
  (Board.run cfg imem d regs m env t).pins imem d (env t)

-- The core on a board runs like the bare core fed with the board's pins.
theorem Core.run_inputs {M : Type*} (imem : Word → Word) (d : DataMem M) (regs : RegIdx → Word)
    (m : M) (env : Nat → Inputs) (t : Nat) :
    Core.run cfg regs (Board.inputs cfg imem d regs m env) t =
      (Board.run cfg imem d regs m env t).core := by
  induction t with
  | zero => rfl
  | succ t ih =>
    rw [Core.run_succ, ih]
    rfl

/-- `trap_request || flush_pipe` -/
def flushes (s : Core) (i : Inputs) : Bool :=
  (control s i).trap.request || (control s i).flushPipe

/-- The instruction in EX is there in the next cycle, too. -/
def staysInEx (s : Core) (i : Inputs) : Bool :=
  s.front.ex.valid && !flushes s i && (control s i).stallEx

/-- ID hands its instruction to EX at the end of the cycle. -/
def entersEx (s : Core) (i : Inputs) : Bool :=
  !flushes s i && s.front.idToEx (frontWires s i (control s i))

/-! ## One cycle -/

theorem posedge_ex_of_stays (h : staysInEx s i) : (posedge cfg s i).front.ex = s.front.ex := by
  simp only [staysInEx, flushes, Bool.and_eq_true, Bool.not_eq_true'] at h
  exact posedge_ex_of_stall h.1.2 h.1.1 h.2

-- After a cycle EX holds the instruction it held, or one that just came in, or nothing.
theorem posedge_ex_valid (h : (posedge cfg s i).front.ex.valid) : staysInEx s i ∨ entersEx s i := by
  change (s.front.next cfg (frontWires s i (control s i))).ex.valid = true at h
  cases hf : flushes s i
  · rw [Front.next_ex hf] at h
    by_cases hx : s.front.idToEx (frontWires s i (control s i))
    · exact .inr (by rw [entersEx, hf, hx]; rfl)
    · rw [if_neg hx] at h
      split_ifs at h with hl
      refine .inl ?_
      rw [h, Bool.true_and, Bool.not_eq_true, Bool.not_eq_false'] at hl
      change (control s i).stallEx = true at hl
      rw [staysInEx, hf, hl, h]
      rfl
  · have hf' : (frontWires s i (control s i)).flush := hf
    rw [Front.next_flush hf'] at h
    cases h

theorem posedge_ex_of_enters (h : entersEx s i) : (posedge cfg s i).front.ex.valid := by
  simp only [entersEx, Bool.and_eq_true, Bool.not_eq_true'] at h
  change (s.front.next cfg (frontWires s i (control s i))).ex.valid = true
  rw [Front.next_ex h.1, if_pos h.2]

theorem staysInEx_eq (hv : s.front.ex.valid) :
    staysInEx s i = (!irqTaken s i && !(exAction s i).traps && !(exAction s i).redirects &&
      (s.dmem.pending && !i.memReady || (exAction s i).isMem && !s.dmem.pending)) := by
  unfold staysInEx flushes
  rw [control_flush, control_stallEx_valid hv, hv]
  cases irqTaken s i <;> cases (exAction s i).traps <;> cases (exAction s i).redirects <;> rfl

-- With a transaction outstanding an instruction stays only while it is unanswered, and the port does not
-- change.
theorem stays_of_pending (cfg : Config) (hp : s.dmem.pending) (h : staysInEx s i) :
    i.memReady = false ∧ (posedge cfg s i).dmem = s.dmem := by
  have hv : s.front.ex.valid := by
    simp only [staysInEx, Bool.and_eq_true] at h
    exact h.1.1
  have hst := h
  rw [staysInEx_eq hv, hp] at h
  have hr : i.memReady = false := by
    cases hr : i.memReady
    · rfl
    · simp [hr] at h
  refine ⟨hr, ?_⟩
  change dmemNext s.dmem (control s i).mem i.memReady = s.dmem
  rw [dmemNext, hp, hr]
  simp

-- With the port free only an access stays, and it puts its transaction on the port.
theorem stays_of_free (cfg : Config) (hp : s.dmem.pending = false) (h : staysInEx s i) :
    (exAction s i).isMem ∧ (control s i).mem = (exAction s i).memStart s.front.ex.instr ∧
      (posedge cfg s i).dmem = .issued ((exAction s i).memStart s.front.ex.instr) := by
  have hv : s.front.ex.valid := by
    simp only [staysInEx, Bool.and_eq_true] at h
    exact h.1.1
  rw [staysInEx_eq hv, hp] at h
  have hm : (exAction s i).isMem := by
    cases hm : (exAction s i).isMem
    · simp [hm] at h
    · rfl
  have hmem : (control s i).mem = (exAction s i).memStart s.front.ex.instr := by
    rw [control_mem, decodeCtl_eq hv, Action.ctl_mem]
    change (if s.dmem.pending then _ else _) = _
    rw [hp]; rfl
  refine ⟨hm, hmem, ?_⟩
  change dmemNext s.dmem (control s i).mem i.memReady = _
  rw [hmem, dmemNext, Action.memStart_start, hm, hp]
  rfl

/-! ## Residencies -/

section Run

variable {regs : RegIdx → Word} {inp : Nat → Inputs} {e t u : Nat}

/-- One instruction came into EX for cycle `e` and is still there in cycle `t`. -/
structure Residency (cfg : Config) (regs : RegIdx → Word) (inp : Nat → Inputs) (e t : Nat) :
    Prop where
  le : e ≤ t
  enters : ∃ u, e = u + 1 ∧ entersEx (Core.run cfg regs inp u) (inp u)
  stays : ∀ u, e ≤ u → u < t → staysInEx (Core.run cfg regs inp u) (inp u)

-- A residency on a board, from what the board does.
theorem residency_of_board {M : Type*} {imem : Word → Word} {d : DataMem M} {m : M}
    {env : Nat → Inputs} (het : e ≤ t)
    (hen : 0 < e ∧ entersEx (Board.run cfg imem d regs m env (e - 1)).core
      (Board.inputs cfg imem d regs m env (e - 1)))
    (hst : ∀ u, u < t → e ≤ u → staysInEx (Board.run cfg imem d regs m env u).core
      (Board.inputs cfg imem d regs m env u)) :
    Residency cfg regs (Board.inputs cfg imem d regs m env) e t where
  le := het
  enters := ⟨e - 1, by omega, by rw [Core.run_inputs]; exact hen.2⟩
  stays u hu hut := by
    rw [Core.run_inputs]
    exact hst u hut hu

-- Every instruction in EX has a residency.
theorem exists_residency (h : (Core.run cfg regs inp t).front.ex.valid) :
    ∃ e, Residency cfg regs inp e t := by
  induction t with
  | zero => cases h
  | succ t ih =>
    rcases posedge_ex_valid (s := Core.run cfg regs inp t) (i := inp t) h with hst | hen
    · have hv : (Core.run cfg regs inp t).front.ex.valid := by
        simp only [staysInEx, Bool.and_eq_true] at hst
        exact hst.1.1
      obtain ⟨e, he⟩ := ih hv
      refine ⟨e, by have := he.le; omega, he.enters, fun u hu hut ↦ ?_⟩
      rcases Nat.lt_succ_iff_lt_or_eq.mp hut with hlt | rfl
      · exact he.stays u hu hlt
      · exact hst
    · exact ⟨t + 1, Nat.le_refl _, ⟨t, rfl, hen⟩, fun u hu hut ↦ by omega⟩

namespace Residency

variable (h : Residency cfg regs inp e t)

include h

theorem upTo (he : e ≤ u) (hu : u ≤ t) : Residency cfg regs inp e u :=
  ⟨he, h.enters, fun v hv hvu ↦ h.stays v hv (by omega)⟩

theorem ex_eq : (Core.run cfg regs inp t).front.ex = (Core.run cfg regs inp e).front.ex := by
  obtain ⟨d, rfl⟩ := Nat.exists_eq_add_of_le h.le
  induction d with
  | zero => rfl
  | succ d ih =>
    have hstay := h.stays (e + d) (by omega) (by omega)
    exact (posedge_ex_of_stays hstay).trans (ih (h.upTo (by omega) (by omega)))

theorem valid : (Core.run cfg regs inp t).front.ex.valid := by
  rw [h.ex_eq]
  obtain ⟨u, rfl, hen⟩ := h.enters
  exact posedge_ex_of_enters hen

-- A transaction outstanding at entry stays outstanding and unanswered until the last cycle.
theorem dmem_of_pending (hp : (Core.run cfg regs inp e).dmem.pending) :
    (Core.run cfg regs inp t).dmem = (Core.run cfg regs inp e).dmem ∧
      ∀ u, e ≤ u → u < t → (inp u).memReady = false := by
  obtain ⟨d, rfl⟩ := Nat.exists_eq_add_of_le h.le
  induction d with
  | zero => exact ⟨rfl, fun u hu hut ↦ by omega⟩
  | succ d ih =>
    obtain ⟨hd, hr⟩ := ih (h.upTo (by omega) (by omega))
    have hstay := h.stays (e + d) (by omega) (by omega)
    obtain ⟨hrd, hport⟩ := stays_of_pending cfg (by rw [hd]; exact hp) hstay
    refine ⟨hport.trans hd, fun u hu hut ↦ ?_⟩
    rcases Nat.lt_succ_iff_lt_or_eq.mp hut with hlt | rfl
    · exact hr u hu hlt
    · exact hrd

-- An instruction that finds the port free and stays is an access with its own transaction on the port,
-- unanswered until the last cycle.
theorem dmem_of_free (hp : (Core.run cfg regs inp e).dmem.pending = false) (het : e < t) :
    (exAction (Core.run cfg regs inp e) (inp e)).isMem ∧
      (Core.run cfg regs inp t).dmem = .issued ((exAction (Core.run cfg regs inp e)
        (inp e)).memStart (Core.run cfg regs inp e).front.ex.instr) ∧
      ∀ u, e < u → u < t → (inp u).memReady = false := by
  obtain ⟨d, rfl⟩ := Nat.exists_eq_add_of_lt het
  obtain ⟨hm, -, hissue⟩ := stays_of_free cfg hp (h.stays e (Nat.le_refl e) het)
  refine ⟨hm, ?_⟩
  induction d with
  | zero => exact ⟨hissue, fun u hu hut ↦ by omega⟩
  | succ d ih =>
    obtain ⟨hd, hr⟩ := ih (h.upTo (by omega) (by omega)) (by omega)
    have hstay := h.stays (e + d + 1) (by omega) (by omega)
    obtain ⟨hrd, hport⟩ := stays_of_pending cfg (by rw [hd]; rfl) hstay
    refine ⟨hport.trans hd, fun u hu hut ↦ ?_⟩
    rcases Nat.lt_succ_iff_lt_or_eq.mp hut with hlt | rfl
    · exact hr u hu hlt
    · exact hrd

-- Everything but an access leaves in its first cycle if it finds the port free.
theorem eq_of_free (hp : (Core.run cfg regs inp e).dmem.pending = false)
    (hm : (exAction (Core.run cfg regs inp e) (inp e)).isMem = false) : t = e := by
  by_contra hne
  have hlt : e < t := by have := h.le; omega
  rw [(h.dmem_of_free hp hlt).1] at hm
  cases hm

-- What does not depend on the values read is the same in every cycle of the residency.
theorem action_shape {β : Type*} (f : Action → β)
    (hper : ∀ p a v v', f (.periphLoad p a v) = f (.periphLoad p a v'))
    (hcsr : ∀ old old' en v v', f (.csr old en v) = f (.csr old' en v'))
    (hmret : ∀ v v', f (.mret v) = f (.mret v')) :
    f (exAction (Core.run cfg regs inp t) (inp t)) =
      f (exAction (Core.run cfg regs inp e) (inp e)) := by
  have hex := h.ex_eq
  exact action_shape_congr f hper hcsr hmret (congrArg ExStage.instr hex)
    (congrArg ExStage.pc hex) (congrArg ExStage.rs1Val hex) (congrArg ExStage.rs2Val hex)

theorem isMem_eq : (exAction (Core.run cfg regs inp t) (inp t)).isMem =
    (exAction (Core.run cfg regs inp e) (inp e)).isMem :=
  h.action_shape Action.isMem (fun _ _ _ _ ↦ rfl) (fun _ _ _ _ _ ↦ rfl) fun _ _ ↦ rfl

theorem redirects_eq : (exAction (Core.run cfg regs inp t) (inp t)).redirects =
    (exAction (Core.run cfg regs inp e) (inp e)).redirects :=
  h.action_shape Action.redirects (fun _ _ _ _ ↦ rfl) (fun _ _ _ _ _ ↦ rfl) fun _ _ ↦ rfl

end Residency

end Run

end QarCore
