import QarCore.Core.Isa
import QarCore.Core.Progress

/-!
# Programs on the pipeline

The one-instruction-at-a-time machine on documented instructions is a hart of the instruction set,
so a run of the core without interrupts shows what the hart does.
-/

namespace QarCore

universe u v

open Rv32i (Instr Hart decode)

variable {M : Type u} {imem : Word → Word} {d : DataMem M} {a : Arch M} {v : Volatile}
  {instr : Instr}

/-- No value is volatile for a program that does not read `mip`, `mtime` or a peripheral. -/
def noVolatile : Volatile := ⟨0, 0, fun _ ↦ 0⟩

/-- The platform of such a program. -/
abbrev hartPlatform (d : DataMem M) : Rv32i.Platform Csr M := platform d noVolatile

/-- The instruction at the pc is documented, does not name `mtime` or `mip`, and accesses memory
only outside the peripheral windows. -/
def Documented (imem : Word → Word) (d : DataMem M) (h : Hart Csr M) : Prop :=
  ∃ instr, decode (imem h.pc) = some instr ∧ instr.csrAddr ≠ some CsrAddr.mtime ∧
    instr.csrAddr ≠ some CsrAddr.mip ∧
    ∀ acc, (h.effect (hartPlatform d) instr).access = some acc → windowOf acc.addr = none

def Arch.toHart (a : Arch M) : Hart Csr M := ⟨a.pc, a.regs, a.csr, a.mem⟩

/-! ## One instruction -/

theorem csrRead_noVolatile {c : Csr} {mip mtime : Word} {addr : BitVec 12}
    (h1 : addr ≠ CsrAddr.mtime) (h2 : addr ≠ CsrAddr.mip) :
    csrRead c mip mtime addr = csrRead c 0 0 addr := by
  unfold csrRead
  simp only [h1, h2, if_false]

-- EX and the hart see the same effect.
theorem effect_eq (h : decode (imem a.pc) = some instr)
    (h1 : instr.csrAddr ≠ some CsrAddr.mtime) (h2 : instr.csrAddr ≠ some CsrAddr.mip) :
    (a.exIn imem v).effect instr = a.toHart.effect (hartPlatform d) instr := by
  have henc := Rv32i.encode_decode h
  refine Rv32i.effect_congr rfl (fun hu ↦ ?_) (fun hu ↦ ?_) (fun addr ha ↦ ?_) rfl rfl
  · have hf : rs1 (imem a.pc) = instr.rs1 := by
      have := Rv32i.Instr.rs1Field_encode hu
      rwa [henc] at this
    change regRead a.regs (rs1 (imem a.pc)) = _
    rw [hf]
    rfl
  · have hf : rs2 (imem a.pc) = instr.rs2 := by
      have := Rv32i.Instr.rs2Field_encode hu
      rwa [henc] at this
    change regRead a.regs (rs2 (imem a.pc)) = _
    rw [hf]
    rfl
  · exact csrRead_noVolatile (fun hm ↦ h1 (ha.trans (by rw [hm]))) fun hm ↦
      h2 (ha.trans (by rw [hm]))

section Instruction

variable (h : decode (imem a.pc) = some instr) (h1 : instr.csrAddr ≠ some CsrAddr.mtime)
  (h2 : instr.csrAddr ≠ some CsrAddr.mip)
  (hw : ∀ acc, (a.toHart.effect (hartPlatform d) instr).access = some acc →
    windowOf acc.addr = none)

include h

theorem action_eq_actionOf : a.action imem v = actionOf (a.exIn imem v) instr :=
  action_of_decode (x := a.exIn imem v) h

include h1 h2

theorem nextPc_toHart : (a.action imem v).nextPc a.pc a.csr.mtvec =
    (a.toHart.effect (hartPlatform d) instr).nextPc := by
  rw [action_eq_actionOf h, ← effect_eq (v := v) h h1 h2]
  exact actionOf_nextPc (x := a.exIn imem v)

theorem nextCsr_toHart : (a.action imem v).nextCsr (imem a.pc) a.pc a.csr =
    Rv32i.csrsAfter (hartPlatform d) (a.toHart.effect (hartPlatform d) instr) a.pc a.csr := by
  rw [action_eq_actionOf h, ← effect_eq (v := v) h h1 h2]
  exact actionOf_nextCsr (x := a.exIn imem v) h d noVolatile

theorem csrOut_toHart : (a.action imem v).csrOut (imem a.pc) =
    a.toHart.csrWrite (hartPlatform d) instr := by
  rw [action_eq_actionOf h, Hart.csrWrite, ← effect_eq (v := v) h h1 h2]
  exact actionOf_csrOut (x := a.exIn imem v) h

include hw

-- Outside the windows an access is a DMEM transaction.
theorem action_of_access {acc : Rv32i.Access}
    (ha : (a.toHart.effect (hartPlatform d) instr).access = some acc) :
    a.action imem v = match acc with
      | .load addr => .memLoad addr
      | .store addr data => .memStore addr data := by
  have hwin := hw acc ha
  rw [← effect_eq (v := v) h h1 h2] at ha
  rw [action_eq_actionOf h]
  cases acc with
  | load addr =>
    rw [(actionOf_load ha).1, loadFrom, show windowOf addr = none from hwin]
  | store addr data =>
    rw [actionOf_store ha, storeTo, show windowOf addr = none from hwin]

theorem rfOut_toHart : (a.action imem v).rfOut d a.mem (imem a.pc) =
    a.toHart.regWrite (hartPlatform d) instr := by
  unfold Hart.regWrite Hart.written
  cases ha : (a.toHart.effect (hartPlatform d) instr).access with
  | none =>
    have ha' := ha
    rw [← effect_eq (v := v) h h1 h2] at ha' ⊢
    rw [action_eq_actionOf h]
    exact actionOf_rfOut (x := a.exIn imem v) h ha' d a.mem
  | some acc =>
    rw [action_of_access h h1 h2 hw ha]
    cases acc with
    | load addr =>
      rw [← effect_eq (v := v) h h1 h2] at ha
      unfold Action.rfOut
      rw [rd_of_decode h (actionOf_load ha).2]
      rfl
    | store addr data =>
      have hres : (a.toHart.effect (hartPlatform d) instr).result = none := by
        cases instr with
        | sw rs1 rs2 imm => rfl
        | _ => cases ha
      simp only [hres]
      simp [Action.rfOut, Action.wb]

theorem dmemOut_toHart : (a.action imem v).dmemOut d a.mem =
    a.toHart.memOp (hartPlatform d) instr := by
  unfold Hart.memOp
  cases ha : (a.toHart.effect (hartPlatform d) instr).access with
  | none =>
    have ha' := ha
    rw [← effect_eq (v := v) h h1 h2] at ha'
    have hm := (actionOf_plain ha').1
    rw [← action_eq_actionOf h] at hm
    cases hact : a.action imem v <;> rw [hact] at hm <;> first | rfl | cases hm
  | some acc =>
    rw [action_of_access h h1 h2 hw ha]
    cases acc <;> rfl

theorem nextMem_toHart : (a.action imem v).nextMem d a.mem =
    (a.toHart.exec (hartPlatform d) instr).mem := by
  unfold Hart.exec
  cases ha : (a.toHart.effect (hartPlatform d) instr).access with
  | none =>
    have ha' := ha
    rw [← effect_eq (v := v) h h1 h2] at ha'
    have hm := (actionOf_plain ha').1
    rw [← action_eq_actionOf h] at hm
    cases hact : a.action imem v <;> rw [hact] at hm <;> first | rfl | cases hm
  | some acc =>
    rw [action_of_access h h1 h2 hw ha]
    cases acc <;> rfl

end Instruction

/-! ## The machine as a hart -/

-- A documented instruction makes the step of the hart, whatever the volatile values are.
theorem toHart_step (hd : Documented imem d a.toHart) :
    (a.step imem d (.exec v)).toHart = a.toHart.step (hartPlatform d) imem := by
  obtain ⟨instr, h, h1, h2, hw⟩ := hd
  have hstep : a.toHart.step (hartPlatform d) imem = a.toHart.exec (hartPlatform d) instr := by
    unfold Hart.step
    rw [h]
  rw [hstep]
  change (a.exec d (imem a.pc) (a.action imem v)).toHart = _
  unfold Arch.toHart Hart.exec
  congr 1
  · exact nextPc_toHart h h1 h2
  · rw [Arch.exec_regs, rfOut_toHart h h1 h2 hw]
    rfl
  · exact nextCsr_toHart h h1 h2
  · exact nextMem_toHart h h1 h2 hw

-- An output of the machine that a documented instruction shares with the hart.
theorem onExec_eq_shows {α : Type*} {out : Word → Action → Option α}
    {out' : Hart Csr M → Instr → Option α} (hd : Documented imem d a.toHart)
    (hout : ∀ instr, decode (imem a.pc) = some instr → instr.csrAddr ≠ some CsrAddr.mtime →
      instr.csrAddr ≠ some CsrAddr.mip →
      (∀ acc, (a.toHart.effect (hartPlatform d) instr).access = some acc →
        windowOf acc.addr = none) →
      out (imem a.pc) (a.action imem v) = out' a.toHart instr) :
    a.onExec imem out (.exec v) = a.toHart.shows imem out' := by
  obtain ⟨instr, h, h1, h2, hw⟩ := hd
  unfold Hart.shows
  rw [show decode (imem a.toHart.pc) = some instr from h]
  exact hout instr h h1 h2 hw

-- Along documented instructions the machine puts out what the hart puts out.
theorem emitted_eq_history {α : Type*} {out : Arch M → Event → Option α}
    {out' : Hart Csr M → Option α}
    (hout : ∀ a v, Documented imem d a.toHart → out a (.exec v) = out' a.toHart) (es : List Event)
    (a : Arch M) (hexec : ∀ e ∈ es, ∃ v, e = .exec v)
    (hdoc : ∀ k, k < es.length →
      Documented imem d (Hart.after (hartPlatform d) imem k a.toHart)) :
    Clocked.emitted (Arch.step imem d) out a es =
      Hart.history (hartPlatform d) imem out' es.length a.toHart := by
  induction es generalizing a with
  | nil => rfl
  | cons e es ih =>
    obtain ⟨v, rfl⟩ := hexec e List.mem_cons_self
    have hd : Documented imem d a.toHart := hdoc 0 (Nat.succ_pos _)
    have hstep := toHart_step (v := v) hd
    rw [Clocked.emitted, hout a v hd, List.length_cons, Hart.history, ← hstep]
    rw [ih _ (fun e' he ↦ hexec e' (List.mem_cons_of_mem _ he)) fun k hk ↦ ?_]
    rw [hstep]
    exact hdoc (k + 1) (Nat.succ_lt_succ hk)

/-! ## The pipeline as a hart -/

section Runs

variable {regs : RegIdx → Word} {m : M} {env : Nat → Inputs}

/-- The hart after reset. -/
def Hart.reset (regs : RegIdx → Word) (m : M) : Hart Csr M := (Arch.reset regs m).toHart

/-- What the hart shows in its first `n` instructions, against what the core shows in `t` cycles. -/
structure ShowsHistory (imem : Word → Word) (d : DataMem M) (regs : RegIdx → Word) (m : M)
    (env : Nat → Inputs) (t n : Nat) : Prop where
  left : Board.shown leftObs .noCache imem d regs m env t =
    Hart.history (hartPlatform d) imem (fun h ↦ some (h.pc, imem h.pc)) n (Hart.reset regs m)
  rf : Board.shown rfObs .noCache imem d regs m env t =
    Hart.history (hartPlatform d) imem (fun h ↦ h.shows imem (Hart.regWrite (hartPlatform d))) n
      (Hart.reset regs m)
  csr : Board.shown csrObs .noCache imem d regs m env t =
    Hart.history (hartPlatform d) imem (fun h ↦ h.shows imem (Hart.csrWrite (hartPlatform d))) n
      (Hart.reset regs m)
  dmem : Board.shown dmemObs .noCache imem d regs m env t =
    Hart.history (hartPlatform d) imem (fun h ↦ h.shows imem (Hart.memOp (hartPlatform d))) n
      (Hart.reset regs m)

/-- Without a cache and without interrupts, in every environment the core shows what the hart shows
in as many instructions as have left EX; and if the environment answers, all of them leave. -/
theorem pipeline_refines_isa (imem : Word → Word) (d : DataMem M) (regs : RegIdx → Word) (m : M)
    (env : Nat → Inputs) (hirq : NoInterrupt .noCache imem d regs m env)
    (hdoc : ∀ n, Documented imem d (Hart.after (hartPlatform d) imem n (Hart.reset regs m))) :
    (∀ t, ShowsHistory imem d regs m env t
      (Board.shown leftObs .noCache imem d regs m env t).length) ∧
    (Fair .noCache imem d regs m env →
      ∀ n, ∃ t, n ≤ (Board.shown leftObs .noCache imem d regs m env t).length) := by
  have hw : Config.noCache.icacheEnabled → Front.WordFits (HoldsWord imem) := nofun
  have hclean := fun t ↦ clean_of_disabled rfl (t := t) fun u _ ↦ hirq u
  have hexec := fun t ↦ events_exec (t := t) fun u _ ↦ hirq u
  have hleft : ∀ t, Board.shown leftObs .noCache imem d regs m env t =
      Hart.history (hartPlatform d) imem (fun h ↦ some (h.pc, imem h.pc))
        (events .noCache imem d regs m env t).length (Hart.reset regs m) := fun t ↦ by
    rw [shown_run (Arch.left imem) (fun _ _ _ hs _ ↦ hs.left_shown) hw (hclean t)]
    exact emitted_eq_history (fun _ _ _ ↦ rfl) _ _ (hexec t) fun k _ ↦ hdoc k
  have hlen : ∀ t, (Board.shown leftObs .noCache imem d regs m env t).length =
      (events .noCache imem d regs m env t).length := fun t ↦ by
    rw [hleft, Hart.history_length _ _ fun _ ↦ rfl]
  refine ⟨fun t ↦ ⟨?_, ?_, ?_, ?_⟩, fun hfair n ↦ ?_⟩
  · rw [hlen]
    exact hleft t
  · rw [hlen, shown_run (Arch.rfWrite imem d) (fun _ _ _ hs hc ↦ hs.rf_shown hc) hw
      (hclean t)]
    exact emitted_eq_history (fun a v hd ↦ onExec_eq_shows hd
      fun instr h h1 h2 hwin ↦ rfOut_toHart h h1 h2 hwin) _ _ (hexec t) fun k _ ↦ hdoc k
  · rw [hlen, shown_run (Arch.csrWrite imem) (fun _ _ _ hs hc ↦ hs.csr_shown hc) hw
      (hclean t)]
    exact emitted_eq_history (fun a v hd ↦ onExec_eq_shows hd
      fun instr h h1 h2 _ ↦ csrOut_toHart h h1 h2) _ _ (hexec t) fun k _ ↦ hdoc k
  · rw [hlen, shown_run (Arch.dmemOp imem d) (fun _ _ _ hs hc ↦ hs.dmem_shown hc) hw
      (hclean t)]
    exact emitted_eq_history (fun a v hd ↦ onExec_eq_shows hd
      fun instr h h1 h2 hwin ↦ dmemOut_toHart h h1 h2 hwin) _ _ (hexec t) fun k _ ↦ hdoc k
  · obtain ⟨t, ht⟩ := events_unbounded hw hclean hfair n
    exact ⟨t, by rw [hlen]; exact ht⟩

/-! ## Masked interrupts -/

theorem toHart_foldl (es : List Event) (a : Arch M) (hexec : ∀ e ∈ es, ∃ v, e = .exec v)
    (hdoc : ∀ k, Documented imem d (Hart.after (hartPlatform d) imem k a.toHart)) :
    (es.foldl (Arch.step imem d) a).toHart =
      Hart.after (hartPlatform d) imem es.length a.toHart := by
  induction es generalizing a with
  | nil => rfl
  | cons e es ih =>
    obtain ⟨v, rfl⟩ := hexec e List.mem_cons_self
    have hstep := toHart_step (v := v) (hdoc 0)
    rw [List.foldl_cons, ih _ (fun e' he ↦ hexec e' (List.mem_cons_of_mem _ he)) fun k ↦ ?_,
      hstep]
    · rfl
    · rw [hstep]
      exact hdoc (k + 1)

-- A program that never sets `mstatus.MIE` is never interrupted.
theorem noInterrupt_of_masked
    (hdoc : ∀ n, Documented imem d (Hart.after (hartPlatform d) imem n (Hart.reset regs m)))
    (hmask : ∀ n, (Hart.after (hartPlatform d) imem n (Hart.reset regs m)).csrs.mstatus.getLsbD 3 =
      false) : NoInterrupt .noCache imem d regs m env := by
  have hw : Config.noCache.icacheEnabled → Front.WordFits (HoldsWord imem) := nofun
  intro t
  induction t using Nat.strong_induction_on with
  | h t ih =>
    have hcsr := (sim_run hw (clean_of_disabled rfl ih)).csr
    have hhart := toHart_foldl _ (Arch.reset regs m) (events_exec ih) hdoc
    have hbit := hmask (events .noCache imem d regs m env t).length
    refine irqTaken_of_masked ?_
    rw [hcsr]
    change (archAt .noCache imem d regs m env t).toHart.csrs.mstatus.getLsbD 3 = false
    unfold archAt
    rw [hhart]
    exact hbit

end Runs

/-! ## A program -/

/-- `addi x1, x0, 5; sw x1, 0(x0); lw x2, 0(x0); jal x0, -12`. -/
def storeLoop (a : Word) : Word :=
  if a = 0#32 then 0x00500093#32
  else if a = 4#32 then 0x00102023#32
  else if a = 8#32 then 0x00002103#32
  else 0xFF5FF06F#32

/-- A memory of words, each at its own address. -/
def wordMem : DataMem (Word → Word) := ⟨fun m a ↦ m a, fun m a v b ↦ if b = a then v else m b⟩

/-- Instruction words come in every second cycle, data in every third. -/
def slowBuses (t : Nat) : Inputs :=
  { quietInputs with imemReady := t % 2 == 1, memReady := t % 3 == 0 }

/-- The loop stays at its four pcs and leaves the CSRs alone. -/
def InLoop (h : Hart Csr (Word → Word)) : Prop :=
  (h.pc = 0#32 ∨ h.pc = 4#32 ∨ h.pc = 8#32 ∨ h.pc = 12#32) ∧ h.csrs = Csr.reset

theorem inLoop_step (h : Hart Csr (Word → Word)) (hl : InLoop h) :
    InLoop (h.step (hartPlatform wordMem) storeLoop) := by
  obtain ⟨hpc, hcsr⟩ := hl
  unfold Hart.step
  rcases hpc with hpc | hpc | hpc | hpc <;> rw [hpc]
  · rw [show decode (storeLoop 0#32) = some (.addi 1#5 0#5 5#12) from
      Rv32i.decode_eq_some.mpr (by decide)]
    refine ⟨.inr (.inl ?_), hcsr⟩
    change h.pc + 4#32 = 4#32
    rw [hpc]; rfl
  · rw [show decode (storeLoop 4#32) = some (.sw 0#5 1#5 0#12) from
      Rv32i.decode_eq_some.mpr (by decide)]
    refine ⟨.inr (.inr (.inl ?_)), hcsr⟩
    change h.pc + 4#32 = 8#32
    rw [hpc]; rfl
  · rw [show decode (storeLoop 8#32) = some (.lw 2#5 0#5 0#12) from
      Rv32i.decode_eq_some.mpr (by decide)]
    refine ⟨.inr (.inr (.inr ?_)), hcsr⟩
    change h.pc + 4#32 = 12#32
    rw [hpc]; rfl
  · rw [show decode (storeLoop 12#32) = some (.jal 0#5 0xFFFFA#20) from
      Rv32i.decode_eq_some.mpr (by decide)]
    have hjal : ∀ imm, (h.exec (hartPlatform wordMem) (.jal 0#5 imm)).pc =
        h.pc + Rv32i.offset imm ∧
        (h.exec (hartPlatform wordMem) (.jal 0#5 imm)).csrs = h.csrs := fun _ ↦ ⟨rfl, rfl⟩
    exact ⟨.inl ((hjal _).1.trans (by rw [hpc]; decide)), (hjal _).2.trans hcsr⟩

theorem documented_of_inLoop {h : Hart Csr (Word → Word)} (hl : InLoop h) :
    Documented storeLoop wordMem h := by
  obtain ⟨hpc, -⟩ := hl
  unfold Documented
  rcases hpc with hpc | hpc | hpc | hpc <;> rw [hpc]
  · exact ⟨.addi 1#5 0#5 5#12, Rv32i.decode_eq_some.mpr (by decide), nofun, nofun, nofun⟩
  · refine ⟨.sw 0#5 1#5 0#12, Rv32i.decode_eq_some.mpr (by decide), nofun, nofun, fun acc ha ↦ ?_⟩
    cases ha
    change windowOf 0#32 = none
    decide
  · refine ⟨.lw 2#5 0#5 0#12, Rv32i.decode_eq_some.mpr (by decide), nofun, nofun, fun acc ha ↦ ?_⟩
    cases ha
    change windowOf 0#32 = none
    decide
  · exact ⟨.jal 0#5 0xFFFFA#20, Rv32i.decode_eq_some.mpr (by decide), nofun, nofun, nofun⟩

theorem inLoop_after (n : Nat) :
    InLoop (Hart.after (hartPlatform wordMem) storeLoop n
      (Hart.reset (fun _ ↦ 0#32) fun _ ↦ 0#32)) :=
  Rv32i.Hart.after_invariant _ _ inLoop_step n _ ⟨.inl rfl, rfl⟩

theorem storeLoop_noInterrupt :
    NoInterrupt .noCache storeLoop wordMem (fun _ ↦ 0#32) (fun _ ↦ 0#32) slowBuses :=
  noInterrupt_of_masked (fun n ↦ documented_of_inLoop (inLoop_after n)) fun n ↦ by
    rw [(inLoop_after n).2]
    rfl

/-- The store loop on slow buses. -/
theorem pipeline_refines_isa_storeLoop :
    NoInterrupt .noCache storeLoop wordMem (fun _ ↦ 0#32) (fun _ ↦ 0#32) slowBuses ∧
    (∀ t, ShowsHistory storeLoop wordMem (fun _ ↦ 0#32) (fun _ ↦ 0#32) slowBuses t
      (Board.shown leftObs .noCache storeLoop wordMem (fun _ ↦ 0#32) (fun _ ↦ 0#32) slowBuses
        t).length) ∧
    (Fair .noCache storeLoop wordMem (fun _ ↦ 0#32) (fun _ ↦ 0#32) slowBuses →
      ∀ n, ∃ t, n ≤ (Board.shown leftObs .noCache storeLoop wordMem (fun _ ↦ 0#32) (fun _ ↦ 0#32)
        slowBuses t).length) :=
  ⟨storeLoop_noInterrupt, pipeline_refines_isa storeLoop wordMem (fun _ ↦ 0#32) (fun _ ↦ 0#32)
    slowBuses storeLoop_noInterrupt fun n ↦ documented_of_inLoop (inLoop_after n)⟩

end QarCore
