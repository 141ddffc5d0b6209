import QarCore.Core.Effects

/-!
# Interrupts

Where an interrupt lets the program resume, and what the instruction it squashes has already done.
The first holds of the fetch queue alone, in any run of the core; the second is decided by the
instruction in EX.  In a run whose interrupts only find instructions that do nothing in that cycle,
the pipeline still refines the reference machine, with each interrupt between two instructions.
-/

namespace QarCore

variable {cfg : Config} {regs : RegIdx → Word} {inp : Nat → Inputs} {s : Core} {i : Inputs}
  {e t u : Nat}

/-! ## A program with a timer interrupt -/

/-- `addi x1, x0, 128; csrrw x0, mie, x1; addi x1, x0, 8; csrrw x0, mstatus, x1`, then the loop
`addi x2, x2, 1; jal x0, -4`; the handler is an MRET. -/
def tickLoop (a : Word) : Word :=
  if a = 0#32 then 0x08000093#32
  else if a = 4#32 then 0x30409073#32
  else if a = 8#32 then 0x00800093#32
  else if a = 12#32 then 0x30009073#32
  else if a = 16#32 then 0x00110113#32
  else if a = 20#32 then 0xFFDFF06F#32
  else 0x30200073#32

/-- Instructions come in every fourth cycle, data at once; the timer pin is up in cycle `tick`. -/
def timerPulse (tick : Nat) (t : Nat) : Inputs :=
  { quietInputs with imemReady := t % 4 == 1, memReady := true, irqTimer := t == tick }

/-- The pins of the core that runs the program. -/
def tickPins (tick : Nat) : Nat → Inputs :=
  Board.inputs .noCache tickLoop wordMem (fun _ ↦ 0#32) (fun _ ↦ 0#32) (timerPulse tick)

-- The interrupt is taken in the cycle after the pulse.
theorem tickLoop_irqTaken {tick : Nat} (h : tick = 19 ∨ tick = 23 ∨ tick = 27) :
    irqTaken (Core.run .noCache (fun _ ↦ 0#32) (tickPins tick) (tick + 1))
      (tickPins tick (tick + 1)) := by
  rcases h with rfl | rfl | rfl <;> rw [tickPins, Core.run_inputs] <;> decide +kernel

/-! ## The oldest instruction -/

/-- The address of the oldest instruction that has not left EX: the target of the last flush, or the
successor of the last instruction that left. -/
def oldestPc (cfg : Config) (regs : RegIdx → Word) (inp : Nat → Inputs) : Nat → Word
  | 0 => 0#32
  | t + 1 =>
    let s := Core.run cfg regs inp t
    let w := frontWires s (inp t) (control s (inp t))
    if w.flush then w.redirect
    else if s.front.ex.valid && !w.stallEx then s.front.ex.pc + 4#32
    else oldestPc cfg regs inp t

/-- No cache hit is lost in the first `t` cycles. -/
def KeepsHitsUntil (cfg : Config) (regs : RegIdx → Word) (inp : Nat → Inputs) (t : Nat) : Prop :=
  ∀ u, u < t → (Core.run cfg regs inp u).front.hitLost cfg
    (frontWires (Core.run cfg regs inp u) (inp u)
      (control (Core.run cfg regs inp u) (inp u))) = false

theorem keepsHits_of_disabled (he : cfg.icacheEnabled = false) (t : Nat) :
    KeepsHitsUntil cfg regs inp t := fun _ _ ↦ Front.hitLost_of_disabled he

-- The fetch queue starts at the oldest instruction.
theorem ordered_oldest (h : KeepsHitsUntil cfg regs inp t) :
    (Core.run cfg regs inp t).front.Ordered (fun _ _ ↦ True) (oldestPc cfg regs inp t) := by
  induction t with
  | zero => exact Front.ordered_reset
  | succ t ih =>
    have hord := ih fun u hu ↦ h u (by omega)
    have hkeep := h t (Nat.lt_succ_self t)
    rw [Core.run_succ]
    change ((Core.run cfg regs inp t).front.next cfg _).Ordered _ _
    unfold oldestPc
    dsimp only
    split_ifs with hf hl
    · exact Front.ordered_flush hf
    · rw [Bool.not_eq_true] at hf
      have hnext := hord.next hf hkeep (fun _ ↦ trivial) fun _ ↦ trivial
      rw [hl, Front.after_true] at hnext
      rw [Bool.and_eq_true] at hl
      rw [(hord.ex hl.1).1]
      exact hnext
    · rw [Bool.not_eq_true] at hf hl
      have hnext := hord.next hf hkeep (fun _ ↦ trivial) fun _ ↦ trivial
      rwa [hl, Front.after_false] at hnext

-- An interrupt writes the address chosen by the cascade to `mepc`, over any CSR write.
theorem mepc_of_irq (hq : irqTaken s i) : (posedge cfg s i).csr.mepc = irqMepcValue s.front := by
  change (csrNext s (control s i)).mepc = _
  unfold csrNext
  rw [control_trap_of_irq hq]
  rfl

/-- `mepc` is the address of the oldest instruction unless only a fetch request is left of it. -/
theorem mepc_oldest_iff (hkeep : KeepsHitsUntil cfg regs inp t)
    (hq : irqTaken (Core.run cfg regs inp t) (inp t)) :
    (Core.run cfg regs inp (t + 1)).csr.mepc = oldestPc cfg regs inp t ↔
      (Core.run cfg regs inp t).front.onlyFetchInFlight = false := by
  rw [Core.run_succ, mepc_of_irq hq, irqMepcValue, (ordered_oldest hkeep).head]
  cases (Core.run cfg regs inp t).front.onlyFetchInFlight <;> simp

/-- The interrupt in cycle 24 finds the jump at 20 in EX. -/
theorem mepc_oldest_iff_tickLoop :
    (Core.run .noCache (fun _ ↦ 0#32) (tickPins 23) 25).csr.mepc =
      oldestPc .noCache (fun _ ↦ 0#32) (tickPins 23) 24 :=
  (mepc_oldest_iff (t := 24) (keepsHits_of_disabled rfl 24)
    (tickLoop_irqTaken (.inr (.inl rfl)))).mpr (by
      rw [tickPins, Core.run_inputs]
      decide +kernel)

/-- The interrupt in cycle 28 finds nothing but the request for the jump's target 16: `mepc` is 20,
and the `addi` at 16 is skipped. -/
theorem tickLoop_skips :
    irqTaken (Core.run .noCache (fun _ ↦ 0#32) (tickPins 27) 28) (tickPins 27 28) ∧
      oldestPc .noCache (fun _ ↦ 0#32) (tickPins 27) 28 = 16#32 ∧
      (Core.run .noCache (fun _ ↦ 0#32) (tickPins 27) 29).csr.mepc = 20#32 := by
  refine ⟨tickLoop_irqTaken (.inr (.inr rfl)), ?_, ?_⟩
  · decide +kernel
  · rw [tickPins, Core.run_inputs]
    decide +kernel

/-! ## What the interrupted instruction commits -/

/-- From the cycle `e` it comes into EX to the cycle `t` of the interrupt the instruction writes no
register of its own and no CSR, starts no DMEM transaction and strobes no peripheral. -/
structure CommitsNothing (cfg : Config) (regs : RegIdx → Word) (inp : Nat → Inputs) (e t : Nat) :
    Prop where
  rf : ∀ u, e ≤ u → u ≤ t → loadCommit (Core.run cfg regs inp u) (inp u) = false →
    rfObs (Core.run cfg regs inp u) (inp u) = none
  csr : ∀ u, e ≤ u → u ≤ t → csrObs (Core.run cfg regs inp u) (inp u) = none
  dmem : ∀ u, e ≤ u → u ≤ t → (control (Core.run cfg regs inp u) (inp u)).mem.start = false
  periph : ∀ u, e ≤ u → u ≤ t → periphObs (Core.run cfg regs inp u) (inp u) = none

/-- The instruction that came into EX in cycle `e` asks for nothing up to cycle `t`: it writes no CSR
and reaches no peripheral, an access finds an older transaction outstanding, and an instruction with
a result is interrupted in its first cycle while an older load takes the write port. -/
structure Interruptible (cfg : Config) (regs : RegIdx → Word) (inp : Nat → Inputs) (e t : Nat) :
    Prop where
  result : (exAction (Core.run cfg regs inp e) (inp e)).isMem = false →
    (ownResult (Core.run cfg regs inp e) (inp e)).isSome →
    t = e ∧ loadCommit (Core.run cfg regs inp e) (inp e)
  csr : (exAction (Core.run cfg regs inp e) (inp e)).csrOut
    (Core.run cfg regs inp e).front.ex.instr = none
  access : (exAction (Core.run cfg regs inp e) (inp e)).isMem →
    (Core.run cfg regs inp e).dmem.pending
  periph : (exAction (Core.run cfg regs inp e) (inp e)).periphOut = none

namespace Residency

variable (h : Residency cfg regs inp e t)

include h

-- An instruction starts no transaction exactly if it is no access or the port is taken.
theorem noStart_iff :
    (∀ u, e ≤ u → u ≤ t → (control (Core.run cfg regs inp u) (inp u)).mem.start = false) ↔
      ((exAction (Core.run cfg regs inp e) (inp e)).isMem →
        (Core.run cfg regs inp e).dmem.pending) := by
  constructor
  · intro hn hm
    have hs := hn e (Nat.le_refl e) h.le
    rw [control_mem_eq, (h.upTo (Nat.le_refl e) h.le).valid, hm] at hs
    simpa using hs
  · intro hp u hu hut
    rw [control_mem_eq, (h.upTo hu hut).isMem_eq]
    cases hm : (exAction (Core.run cfg regs inp e) (inp e)).isMem
    · rw [Bool.and_false]
    · rw [((h.upTo hu hut).dmem_of_pending (hp hm)).1, hp hm]
      simp

-- An instruction that is no access writes its result in every cycle in which no older load is answered, and
-- that can only be the last one.
theorem noWrite_iff :
    (∀ u, e ≤ u → u ≤ t → loadCommit (Core.run cfg regs inp u) (inp u) = false →
      rfObs (Core.run cfg regs inp u) (inp u) = none) ↔
      ((exAction (Core.run cfg regs inp e) (inp e)).isMem = false →
        (ownResult (Core.run cfg regs inp e) (inp e)).isSome →
        t = e ∧ loadCommit (Core.run cfg regs inp e) (inp e)) := by
  have hown : ∀ u, e ≤ u → u ≤ t → (exAction (Core.run cfg regs inp e) (inp e)).isMem = false →
      loadCommit (Core.run cfg regs inp u) (inp u) = false →
      rfObs (Core.run cfg regs inp u) (inp u) = ownResult (Core.run cfg regs inp u) (inp u) :=
    fun u hu hut hm hl ↦
      rfObs_own hl (h.upTo hu hut).valid (by rw [(h.upTo hu hut).isMem_eq, hm]) (readBus (inp u)) ()
  constructor
  · intro hn hm hres
    have hload : loadCommit (Core.run cfg regs inp e) (inp e) := by
      by_contra hl
      rw [Bool.not_eq_true] at hl
      rw [← hown e (Nat.le_refl e) h.le hm hl, hn e (Nat.le_refl e) h.le hl] at hres
      cases hres
    refine ⟨?_, hload⟩
    by_contra hne
    have hlt : e < t := by have := h.le; omega
    simp only [loadCommit, Bool.and_eq_true] at hload
    have hr := (h.dmem_of_pending hload.1.1).2 e (Nat.le_refl e) hlt
    rw [hload.1.2] at hr
    cases hr
  · intro hi u hu hut hl
    cases hm : (exAction (Core.run cfg regs inp e) (inp e)).isMem
    · rw [hown u hu hut hm hl, ← Option.not_isSome_iff_eq_none, (h.upTo hu hut).ownResult_isSome]
      intro hres
      obtain ⟨rfl, hload⟩ := hi hm hres
      obtain rfl : u = t := by omega
      rw [hl] at hload
      cases hload
    · exact rfObs_isMem hl (by rw [(h.upTo hu hut).isMem_eq, hm])

-- The interrupted instruction commits nothing exactly if it asks for nothing.
theorem commitsNothing_iff : CommitsNothing cfg regs inp e t ↔ Interruptible cfg regs inp e t := by
  have hv := (h.upTo (Nat.le_refl e) h.le).valid
  have hcsr : csrObs (Core.run cfg regs inp e) (inp e) = _ := csrObs_eq
  have hper : periphObs (Core.run cfg regs inp e) (inp e) = _ := periphObs_eq
  rw [if_pos hv] at hcsr hper
  constructor
  · intro hc
    exact ⟨h.noWrite_iff.mp hc.rf, hcsr.symm.trans (hc.csr e (Nat.le_refl e) h.le),
      h.noStart_iff.mp hc.dmem, hper.symm.trans (hc.periph e (Nat.le_refl e) h.le)⟩
  · intro hi
    refine ⟨h.noWrite_iff.mpr hi.result, fun u hu hut ↦ ?_, h.noStart_iff.mpr hi.access,
      fun u hu hut ↦ ?_⟩
    · rw [← Option.not_isSome_iff_eq_none, (h.upTo hu hut).csrObs_isSome, hcsr, hi.csr]
      exact Bool.false_ne_true
    · rw [← Option.not_isSome_iff_eq_none, (h.upTo hu hut).periphObs_isSome, hper, hi.periph]
      exact Bool.false_ne_true

end Residency

/-! ## Runs -/

section Runs

variable {M : Type*} {imem : Word → Word} {d : DataMem M} {m : M} {env : Nat → Inputs}

-- ID hands over only to an EX stage that does not stall.
theorem stallEx_of_enters (h : entersEx s i) (hv : s.front.ex.valid) :
    (control s i).stallEx = false := by
  simp only [entersEx, Front.idToEx, Front.exCanAccept, hv, Bool.and_eq_true, Bool.not_true,
    Bool.false_or, Bool.not_eq_true'] at h
  exact h.2.2

-- In step with the reference machine an instruction comes into EX only when the port is free.
theorem Sim.free_of_enters {b : Board M} {a : Arch M} (h : Sim cfg imem b a)
    (hen : entersEx b.core i) : (posedge cfg b.core i).dmem.pending = false := by
  rw [← Bool.not_eq_true]
  intro hp
  rcases dmemNext_cases hp with ⟨hs, hf, -⟩ | ⟨hpend, hr, -⟩
  · -- started by an access in EX, which stalls
    rw [control_mem_eq, Bool.and_eq_true, Bool.and_eq_true] at hs
    have hst := stallEx_of_enters hen hs.1.1
    rw [control_stallEx_valid hs.1.1, hs.2, hf] at hst
    simp at hst
  · have hst := stallEx_of_enters hen (h.owner hpend).1
    rw [control_stallEx_valid (h.owner hpend).1, hpend, hr] at hst
    simp at hst

/-- Every interrupt of the first `t` cycles finds EX empty or an instruction that asks for nothing,
and more of the queue than a fetch request. -/
def InterruptibleUntil (cfg : Config) (imem : Word → Word) (d : DataMem M) (regs : RegIdx → Word)
    (m : M) (env : Nat → Inputs) (t : Nat) : Prop :=
  ∀ u, u < t → irqTaken (Board.run cfg imem d regs m env u).core
      (Board.inputs cfg imem d regs m env u) →
    (∀ e, Residency cfg regs (Board.inputs cfg imem d regs m env) e u →
      Interruptible cfg regs (Board.inputs cfg imem d regs m env) e u) ∧
    (Board.run cfg imem d regs m env u).core.front.onlyFetchInFlight = false

-- In a clean run an interruptible instruction makes the cycle of its interrupt clean.
theorem cleanIrq_of_interruptible (hw : cfg.icacheEnabled → Front.WordFits (HoldsWord imem))
    (hc : CleanUntil cfg imem d regs m env t)
    (hi : ∀ e, Residency cfg regs (Board.inputs cfg imem d regs m env) e t →
      Interruptible cfg regs (Board.inputs cfg imem d regs m env) e t)
    (hf : (Board.run cfg imem d regs m env t).core.front.onlyFetchInFlight = false) :
    CleanIrq (Board.run cfg imem d regs m env t).core (Board.inputs cfg imem d regs m env t) := by
  have hsim := sim_run hw hc
  cases hv : (Board.run cfg imem d regs m env t).core.front.ex.valid
  · have hp := hsim.pending_of_valid hv
    refine ⟨rfObs_empty (loadCommit_of_not_pending hp) hv, ?_, ?_, hp, ?_, hf⟩
    · rw [csrObs_eq, hv]; rfl
    · rw [control_mem_eq, hv]; rfl
    · rw [periphObs_eq, hv]; rfl
  · rw [← Core.run_inputs] at hv
    obtain ⟨e, hres⟩ := exists_residency hv
    have hfree : (Core.run cfg regs (Board.inputs cfg imem d regs m env) e).dmem.pending =
        false := by
      obtain ⟨u, rfl, hen⟩ := hres.enters
      have hut := hres.le
      rw [Core.run_inputs] at hen
      rw [Core.run_succ, Core.run_inputs]
      exact (sim_run hw fun v hv ↦ hc v (by omega)).free_of_enters hen
    have hic := hi e hres
    have hm : (exAction (Core.run cfg regs (Board.inputs cfg imem d regs m env) e)
        (Board.inputs cfg imem d regs m env e)).isMem = false := by
      rw [← Bool.not_eq_true]
      intro hm
      rw [hic.access hm] at hfree
      cases hfree
    obtain rfl := hres.eq_of_free hfree hm
    have hcommit := hres.commitsNothing_iff.mpr hic
    have hle := Nat.le_refl t
    rw [← Core.run_inputs] at hf ⊢
    exact ⟨hcommit.rf t hle hle (loadCommit_of_not_pending hfree), hcommit.csr t hle hle,
      hcommit.dmem t hle hle, hfree, hcommit.periph t hle hle, hf⟩

theorem clean_of_interruptible (hw : cfg.icacheEnabled → Front.WordFits (HoldsWord imem))
    (hl : NoHitLostUntil cfg imem d regs m env t)
    (hi : InterruptibleUntil cfg imem d regs m env t) : CleanUntil cfg imem d regs m env t := by
  induction t with
  | zero => exact fun u hu ↦ absurd hu (Nat.not_lt_zero u)
  | succ t ih =>
    have hc := ih (fun u hu ↦ hl u (by omega)) fun u hu ↦ hi u (by omega)
    intro u hu
    rcases Nat.lt_succ_iff_lt_or_eq.mp hu with hlt | rfl
    · exact hc u hlt
    · refine ⟨hl u hu, fun hq ↦ ?_⟩
      obtain ⟨hin, hf⟩ := hi u hu hq
      exact cleanIrq_of_interruptible hw hc hin hf

/-- All that leaves EX in the first `t` cycles, the register, CSR and memory writes, the reads and
the peripheral accesses are those of the reference machine, which takes each interrupt between two
instructions. -/
structure ShowsEvents (cfg : Config) (imem : Word → Word) (d : DataMem M) (regs : RegIdx → Word)
    (m : M) (env : Nat → Inputs) (t : Nat) : Prop where
  left : Board.shown leftObs cfg imem d regs m env t =
    Clocked.emitted (Arch.step imem d) (Arch.left imem) (Arch.reset regs m)
      (events cfg imem d regs m env t)
  rf : Board.shown rfObs cfg imem d regs m env t =
    Clocked.emitted (Arch.step imem d) (Arch.rfWrite imem d) (Arch.reset regs m)
      (events cfg imem d regs m env t)
  csr : Board.shown csrObs cfg imem d regs m env t =
    Clocked.emitted (Arch.step imem d) (Arch.csrWrite imem) (Arch.reset regs m)
      (events cfg imem d regs m env t)
  dmem : Board.shown dmemObs cfg imem d regs m env t =
    Clocked.emitted (Arch.step imem d) (Arch.dmemOp imem d) (Arch.reset regs m)
      (events cfg imem d regs m env t)
  periph : Board.shown periphObs cfg imem d regs m env t =
    Clocked.emitted (Arch.step imem d) (Arch.periphOp imem) (Arch.reset regs m)
      (events cfg imem d regs m env t)

theorem showsEvents_of_clean (hw : cfg.icacheEnabled → Front.WordFits (HoldsWord imem))
    (hc : CleanUntil cfg imem d regs m env t) : ShowsEvents cfg imem d regs m env t where
  left := shown_run (Arch.left imem) (fun _ _ _ hs _ ↦ hs.left_shown) hw hc
  rf := shown_run (Arch.rfWrite imem d) (fun _ _ _ hs hok ↦ hs.rf_shown hok) hw hc
  csr := shown_run (Arch.csrWrite imem) (fun _ _ _ hs hok ↦ hs.csr_shown hok) hw hc
  dmem := shown_run (Arch.dmemOp imem d) (fun _ _ _ hs hok ↦ hs.dmem_shown hok) hw hc
  periph := shown_run (Arch.periphOp imem) (fun _ _ _ hs hok ↦ hs.periph_shown hok) hw hc

/-! ## Return from the handler -/

theorem action_of_isMret {x : ExIn} (h : isMret x.instr) : x.action = .mret x.csr.mepc := by
  simp only [isMret, Bool.and_eq_true, beq_iff_eq] at h
  rw [action_system h.1.1, systemAction, h.1.2, h.2]
  rfl

/-- What a handler has to leave as the interrupt left it before its MRET. -/
structure Restored (a b : Arch M) (cause : Word) : Prop where
  regs : b.regs = (a.interrupt cause).regs
  mepc : b.csr.mepc = (a.interrupt cause).csr.mepc
  mstatus : b.csr.mstatus = (a.interrupt cause).csr.mstatus

-- The MRET of such a handler goes back to the state in which the interrupt came, with interrupts enabled as
-- they were.
theorem Arch.mret_resumes {a b : Arch M} {cause : Word} (v : Volatile) (h : Restored a b cause)
    (hmret : isMret (imem b.pc)) :
    (b.step imem d (.exec v)).pc = a.pc ∧ (b.step imem d (.exec v)).regs = a.regs ∧
      (b.step imem d (.exec v)).mem = b.mem ∧
      (b.step imem d (.exec v)).csr.mstatus.getLsbD 3 = a.csr.mstatus.getLsbD 3 := by
  have hact : b.action imem v = .mret b.csr.mepc := action_of_isMret (x := b.exIn imem v) hmret
  have hstep : b.step imem d (.exec v) = b.exec d (imem b.pc) (.mret b.csr.mepc) := by
    rw [← hact]
    rfl
  rw [hstep]
  refine ⟨h.mepc, h.regs, rfl, ?_⟩
  change (setBit (setBit b.csr.mstatus 3 (b.csr.mstatus.getLsbD 7)) 7 true).getLsbD 3 = _
  rw [h.mstatus, getLsbD_setBit _ _ _ _ (by decide), getLsbD_setBit _ _ _ _ (by decide)]
  change (setBit (setBit a.csr.mstatus 7 (a.csr.mstatus.getLsbD 3)) 3 false).getLsbD 7 = _
  rw [getLsbD_setBit _ _ _ _ (by decide), getLsbD_setBit _ _ _ _ (by decide)]
  rfl

/-- Interrupts are precise exactly at instructions that ask for nothing.  An interrupt saves the pc
of the instruction in EX, which has committed nothing exactly if it is interruptible; while all
interrupts are so, every instruction has its effect once and in order, each interrupt lies between
two instructions, and the MRET of a handler that restores what it uses resumes there. -/
theorem interrupts_precise (imem : Word → Word) (d : DataMem M) :
    (∀ cfg regs inp e t, Residency cfg regs inp e t →
      irqTaken (Core.run cfg regs inp t) (inp t) →
      (Core.run cfg regs inp (t + 1)).csr.mepc = (Core.run cfg regs inp t).front.ex.pc ∧
        (CommitsNothing cfg regs inp e t ↔ Interruptible cfg regs inp e t)) ∧
    (∀ cfg regs m env t, (cfg.icacheEnabled → Front.WordFits (HoldsWord imem)) →
      NoHitLostUntil cfg imem d regs m env t → InterruptibleUntil cfg imem d regs m env t →
      ShowsEvents cfg imem d regs m env t) ∧
    (∀ a b cause v, Restored a b cause → isMret (imem b.pc) →
      (b.step imem d (.exec v)).pc = a.pc ∧ (b.step imem d (.exec v)).regs = a.regs ∧
        (b.step imem d (.exec v)).mem = b.mem ∧
        (b.step imem d (.exec v)).csr.mstatus.getLsbD 3 = a.csr.mstatus.getLsbD 3) := by
  refine ⟨fun cfg regs inp e t h hq ↦ ⟨?_, h.commitsNothing_iff⟩,
    fun cfg regs m env t hw hl hi ↦ showsEvents_of_clean hw (clean_of_interruptible hw hl hi),
    fun a b cause v h hmret ↦ Arch.mret_resumes v h hmret⟩
  rw [Core.run_succ, mepc_of_irq hq, irqMepcValue, if_pos h.valid]

end Runs

theorem tickLoop_residency {tick : Nat} (h : tick = 19 ∨ tick = 23) :
    Residency .noCache (fun _ ↦ 0#32) (tickPins tick) (tick + 1) (tick + 1) := by
  rcases h with rfl | rfl <;>
    exact residency_of_board (by decide) (by decide +kernel) (by decide +kernel)

-- The jump in EX in cycle 24 writes no register.
theorem tickLoop_interruptible :
    Interruptible .noCache (fun _ ↦ 0#32) (tickPins 23) 24 24 := by
  refine ⟨fun _ h ↦ ?_, ?_, fun h ↦ ?_, ?_⟩
  · have hnone : (ownResult (Core.run .noCache (fun _ ↦ 0#32) (tickPins 23) 24)
        (tickPins 23 24)).isSome = false := by
      rw [tickPins, Core.run_inputs]
      decide +kernel
    rw [hnone] at h
    cases h
  · rw [tickPins, Core.run_inputs]
    decide +kernel
  · have hno : (exAction (Core.run .noCache (fun _ ↦ 0#32) (tickPins 23) 24)
        (tickPins 23 24)).isMem = false := by
      rw [tickPins, Core.run_inputs]
      decide +kernel
    rw [hno] at h
    cases h
  · rw [tickPins, Core.run_inputs]
    decide +kernel

-- In 40 cycles the only interrupt is the one in cycle 24.
theorem tickLoop_interruptibleUntil : InterruptibleUntil .noCache tickLoop wordMem (fun _ ↦ 0#32)
    (fun _ ↦ 0#32) (timerPulse 23) 40 := by
  have honce : ∀ u, u < 40 → irqTaken (Board.run .noCache tickLoop wordMem (fun _ ↦ 0#32)
      (fun _ ↦ 0#32) (timerPulse 23) u).core (tickPins 23 u) → u = 24 := by decide +kernel
  intro u hu hq
  obtain rfl := honce u hu hq
  refine ⟨fun e he ↦ ?_, by decide +kernel⟩
  have h24 : e = 24 := by
    by_contra hne
    have hst := he.stays 23 (by have := he.le; omega) (by decide)
    rw [Core.run_inputs] at hst
    exact absurd hst (by decide +kernel)
  rw [h24]
  exact tickLoop_interruptible

/-- An interrupt that finds the jump of the loop. -/
theorem interrupts_precise_tickLoop :
    ((Core.run .noCache (fun _ ↦ 0#32) (tickPins 23) 25).csr.mepc =
        (Core.run .noCache (fun _ ↦ 0#32) (tickPins 23) 24).front.ex.pc ∧
      CommitsNothing .noCache (fun _ ↦ 0#32) (tickPins 23) 24 24) ∧
    ShowsEvents .noCache tickLoop wordMem (fun _ ↦ 0#32) (fun _ ↦ 0#32) (timerPulse 23) 40 := by
  obtain ⟨hedge, hrun, -⟩ := interrupts_precise tickLoop wordMem
  obtain ⟨hmepc, hiff⟩ := hedge .noCache (fun _ ↦ 0#32) (tickPins 23) 24 24
    (tickLoop_residency (.inr rfl)) (tickLoop_irqTaken (.inr (.inl rfl)))
  exact ⟨⟨hmepc, hiff.mpr tickLoop_interruptible⟩,
    hrun .noCache (fun _ ↦ 0#32) (fun _ ↦ 0#32) (timerPulse 23) 40 nofun
      (noHitLost_of_disabled rfl 40) tickLoop_interruptibleUntil⟩

/-- The interrupt in cycle 20 finds `addi x2, x2, 1` at 16 in EX: it is squashed and executed again
after the MRET, but it has written `x2` already and increments it twice. -/
theorem tickLoop_repeats :
    Residency .noCache (fun _ ↦ 0#32) (tickPins 19) 20 20 ∧
      irqTaken (Core.run .noCache (fun _ ↦ 0#32) (tickPins 19) 20) (tickPins 19 20) ∧
      ¬CommitsNothing .noCache (fun _ ↦ 0#32) (tickPins 19) 20 20 ∧
      (Board.shown leftObs .noCache tickLoop wordMem (fun _ ↦ 0#32) (fun _ ↦ 0#32)
        (timerPulse 19) 40).map Prod.fst = [0#32, 4#32, 8#32, 12#32, 0x100#32, 16#32] ∧
      Board.shown rfObs .noCache tickLoop wordMem (fun _ ↦ 0#32) (fun _ ↦ 0#32)
        (timerPulse 19) 40 = [(1#5, 128#32), (1#5, 8#32), (2#5, 1#32), (2#5, 2#32)] := by
  refine ⟨tickLoop_residency (.inl rfl), tickLoop_irqTaken (.inl rfl), fun hc ↦ ?_, ?_, ?_⟩
  · have hrf := hc.rf 20 (Nat.le_refl 20) (Nat.le_refl 20)
    rw [tickPins, Core.run_inputs] at hrf
    exact absurd (hrf (by decide +kernel)) (by decide +kernel)
  · decide +kernel
  · decide +kernel

end QarCore
