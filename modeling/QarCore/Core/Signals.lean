import QarCore.Core.Board

/-!
# The control signals of an action

Every signal of the block as a function of the action in EX and of the outstanding DMEM transaction.
-/

namespace QarCore

variable {s : Core} {i : Inputs} {x : ExIn} (act : Action)

namespace Action

/-- A taken branch, a jump or MRET. -/
def redirects : Action → Bool
  | jump _ _ => true
  | mret _ => true
  | _ => false

/-- `rf_we` of the arm. -/
def writesRf (w : Word) : Action → Bool
  | illegalOp _ _ => true
  | alu _ _ _ => true
  | value _ => true
  | periphLoad _ _ _ => true
  | jump _ link => link.isSome
  | csr _ _ _ => rd w != 0#5
  | _ => false

/-- The DMEM request of the instruction word `w`. -/
def memStart (w : Word) : Action → MemStart
  | memLoad addr => ⟨true, true, addr, 0, rd w⟩
  | memStore addr data => ⟨true, false, addr, data, rd w⟩
  | _ => ⟨false, false, 0, 0, rd w⟩

@[simp] theorem ctl_stallEx :
    (act.ctl x).stallEx = (x.dmemPending && !x.memReady || act.isMem && !x.dmemPending) := by
  cases act <;> cases h : x.dmemPending <;> simp [ctl, isMem, defaults, h]

@[simp] theorem ctl_mem :
    (act.ctl x).mem = if x.dmemPending then ⟨false, false, 0, 0, rd x.instr⟩
      else act.memStart x.instr := by
  cases act <;> cases h : x.dmemPending <;> simp [ctl, memStart, defaults, h]

@[simp] theorem ctl_flushPipe : (act.ctl x).flushPipe = act.redirects := by
  cases act <;> cases h : x.dmemPending <;> simp [ctl, redirects, defaults, h]

@[simp] theorem ctl_rfWe : (act.ctl x).rfWe = act.writesRf x.instr := by
  cases act <;> cases h : x.dmemPending <;> simp [ctl, writesRf, defaults, h]

@[simp] theorem ctl_rfWaddr : (act.ctl x).rfWaddr = rd x.instr := by
  cases act <;> cases h : x.dmemPending <;> simp [ctl, defaults, h]

@[simp] theorem ctl_csr : (act.ctl x).csr = act.csrWrite x.instr := by
  cases act <;> cases h : x.dmemPending <;> simp [ctl, csrWrite, defaults, h]

@[simp] theorem ctl_periph :
    (act.ctl x).periph = act.periphOut.getD ⟨none, false, 0, 0⟩ := by
  cases act <;> cases h : x.dmemPending <;> simp [ctl, periphOut, defaults, h]

theorem ctl_branchTarget (h : act.redirects) (mtvec : Word) :
    (act.ctl x).branchTarget = act.nextPc x.pc mtvec := by
  cases act <;> first | rfl | cases h

/-- An illegal word or an ECALL. -/
def traps (act : Action) : Bool := act.trapCause.isSome

theorem ctl_traps : ((act.ctl x).trap.request || (act.ctl x).illegalInstr) = act.traps := by
  cases act <;> cases h : x.dmemPending <;> simp only [ctl, h] <;> rfl

-- The word of the write port is the action's word for `rd`.
theorem wb_eq_wdata {M : Type*} {d : DataMem M} {m : M} (h : act.writesRf x.instr) :
    act.wb d m = some (act.ctl x).wdata := by
  cases act with
  | jump target link =>
    obtain ⟨v, rfl⟩ := Option.isSome_iff_exists.mp h
    rfl
  | _ => first | rfl | cases h

-- Only a load, and a CSR read into `x0`, has a word for `rd` without raising `rf_we`.
theorem isMem_of_wb {M : Type*} {d : DataMem M} {m : M} (hw : act.writesRf x.instr = false)
    (hb : (act.wb d m).isSome) (hr : rd x.instr ≠ 0#5) : act.isMem := by
  cases act with
  | memLoad addr => rfl
  | jump target link =>
    rw [show (jump target link).wb d m = link from rfl] at hb
    rw [show (jump target link).writesRf x.instr = link.isSome from rfl, hb] at hw
    cases hw
  | csr old en data => simp [writesRf, hr] at hw
  | illegalOp | alu | value | periphLoad => cases hw
  | nop | illegal | memStore | periphStore | mret | ecall => cases hb

-- An access shows nothing on the write port by itself; for the rest `rf_we` and the word of the write port
-- are the output of the action.
theorem rfOut_eq {M : Type*} (d : DataMem M) (m : M) (hm : act.isMem = false) :
    act.rfOut d m x.instr =
      if act.writesRf x.instr && rd x.instr != 0#5 then some (rd x.instr, (act.ctl x).wdata)
      else none := by
  unfold rfOut
  by_cases hz : rd x.instr = 0#5
  · simp [hz]
  · cases hw : act.writesRf x.instr
    · have hnone : act.wb d m = none := by
        rw [← Option.not_isSome_iff_eq_none]
        intro hs
        rw [act.isMem_of_wb hw hs hz] at hm
        cases hm
      simp [hnone]
    · simp [hz, wb_eq_wdata act (d := d) (m := m) hw]

theorem traps_of_isMem {act : Action} (h : act.isMem) : act.traps = false := by
  cases act <;> first | rfl | cases h

theorem redirects_of_isMem {act : Action} (h : act.isMem) : act.redirects = false := by
  cases act <;> first | rfl | cases h

theorem writesRf_of_isMem {act : Action} {w : Word} (h : act.isMem) :
    act.writesRf w = false := by
  cases act <;> first | rfl | cases h

theorem csrWrite_of_isMem {act : Action} {w : Word} (h : act.isMem) :
    act.csrWrite w = ⟨false, 0, 0⟩ := by
  cases act <;> first | rfl | cases h

theorem periphOut_of_isMem {act : Action} (h : act.isMem) : act.periphOut = none := by
  cases act <;> first | rfl | cases h

-- Without a trap or a redirect the next instruction in memory follows.
theorem nextPc_of_quiet {act : Action} (ht : act.traps = false) (hr : act.redirects = false)
    (pc mtvec : Word) : act.nextPc pc mtvec = pc + 4#32 := by
  cases act with
  | illegal | illegalOp | ecall => cases ht
  | jump | mret => cases hr
  | _ => rfl

-- Only an access starts the DMEM port.
theorem memStart_start (w : Word) : (act.memStart w).start = act.isMem := by
  cases act <;> rfl

end Action

/-! ## The merged signals -/

/-- The action of the instruction in EX. -/
def exAction (s : Core) (i : Inputs) : Action := (exIn s i).action

theorem decodeCtl_eq (h : s.front.ex.valid) : decodeCtl s i = (exAction s i).ctl (exIn s i) :=
  decodeCtl_valid h

theorem ownTrap_eq : ownTrap s i = (s.front.ex.valid && (exAction s i).traps) := by
  unfold ownTrap
  cases h : s.front.ex.valid
  · rw [decodeCtl_empty h]; rfl
  · rw [decodeCtl_eq h, Bool.and_true, Action.ctl_traps, Bool.true_and]

-- Without an interrupt the trap is the one of the action in EX.
theorem control_trap_own (hq : irqTaken s i = false) (hv : s.front.ex.valid) {cause : Word}
    (hc : (exAction s i).trapCause = some cause) :
    (control s i).trap = ⟨true, s.csr.mtvec, cause, s.front.ex.pc⟩ := by
  rw [control_trap_of_not_irq hq, decodeCtl_eq hv, hv, Bool.and_true]
  cases hact : exAction s i <;> rw [hact] at hc <;> first | cases hc; rfl | cases hc

theorem control_stallEx_valid (h : s.front.ex.valid) :
    (control s i).stallEx =
      (s.dmem.pending && !i.memReady || (exAction s i).isMem && !s.dmem.pending) := by
  rw [control_stallEx, decodeCtl_eq h, Action.ctl_stallEx]; rfl

theorem control_flush :
    ((control s i).trap.request || (control s i).flushPipe) =
      (irqTaken s i || s.front.ex.valid && ((exAction s i).traps || (exAction s i).redirects)) := by
  rw [control_trap_request, ownTrap_eq, control_flushPipe]
  cases h : s.front.ex.valid
  · rw [decodeCtl_empty h]; simp [defaults]
  · rw [decodeCtl_eq h, Action.ctl_flushPipe]
    cases irqTaken s i <;> simp

-- A trap or a redirect of the instruction in EX goes where its action goes.
theorem redirect_own (hq : irqTaken s i = false) (hv : s.front.ex.valid)
    (hred : (exAction s i).traps || (exAction s i).redirects) :
    (frontWires s i (control s i)).redirect =
      (exAction s i).nextPc s.front.ex.pc s.csr.mtvec := by
  change (if (control s i).trap.request then (control s i).trap.target
    else (control s i).branchTarget) = _
  rw [control_trap_request, ownTrap_eq, hq, hv, Bool.or_false, Bool.true_and]
  cases htr : (exAction s i).trapCause with
  | some cause =>
    rw [control_trap_own hq hv htr]
    cases hact : exAction s i <;> rw [hact] at htr <;> first | rfl | cases htr
  | none =>
    have hnt : (exAction s i).traps = false := by simp [Action.traps, htr]
    rw [hnt, Bool.false_or] at hred
    rw [hnt, control_branchTarget, decodeCtl_eq hv]
    exact Action.ctl_branchTarget _ hred s.csr.mtvec

-- Without an interrupt the instruction in EX leaves unless it waits for the DMEM port.
theorem exLeaves_own (hq : irqTaken s i = false) (hv : s.front.ex.valid) :
    exLeaves s i = ((exAction s i).traps || (exAction s i).redirects ||
      !(s.dmem.pending && !i.memReady || (exAction s i).isMem && !s.dmem.pending)) := by
  unfold exLeaves
  rw [control_flush, control_stallEx_valid hv, hq, hv]
  rfl

-- With no transaction outstanding only an access stays.
theorem exLeaves_of_not_pending (hq : irqTaken s i = false) (hv : s.front.ex.valid)
    (hp : s.dmem.pending = false) : exLeaves s i = !(exAction s i).isMem := by
  rw [exLeaves_own hq hv, hp]
  cases hm : (exAction s i).isMem
  · simp
  · simp [Action.traps_of_isMem hm, Action.redirects_of_isMem hm]

-- An access leaves with the answer of the transaction that is outstanding.
theorem exLeaves_of_isMem (hq : irqTaken s i = false) (hv : s.front.ex.valid)
    (hm : (exAction s i).isMem) : exLeaves s i = (s.dmem.pending && i.memReady) := by
  rw [exLeaves_own hq hv, Action.traps_of_isMem hm, Action.redirects_of_isMem hm, hm]
  cases s.dmem.pending <;> cases i.memReady <;> rfl

theorem loadCommit_of_not_pending (hp : s.dmem.pending = false) : loadCommit s i = false := by
  simp [loadCommit, hp]

theorem control_mem_eq :
    (control s i).mem.start =
      (s.front.ex.valid && !s.dmem.pending && (exAction s i).isMem) := by
  rw [control_mem]
  cases h : s.front.ex.valid
  · rw [decodeCtl_empty h]; rfl
  · rw [decodeCtl_eq h, Action.ctl_mem]
    change (if s.dmem.pending then _ else _ : MemStart).start = _
    cases hp : s.dmem.pending
    · simpa using (exAction s i).memStart_start (exIn s i).instr
    · simp

/-! ## What the ports show -/

-- The answered load owns the write port of the register file.
theorem rfObs_of_loadCommit (h : loadCommit s i) :
    rfObs s i = if s.dmem.rd = 0#5 then none else some (s.dmem.rd, i.memRdata) := by
  simp only [rfObs, control_rfWe, control_rfWaddr, control_wdata, h, Bool.true_or, ↓reduceIte]
  by_cases hz : s.dmem.rd = 0#5 <;> simp [hz]

theorem rfObs_empty (h : loadCommit s i = false) (hv : s.front.ex.valid = false) :
    rfObs s i = none := by
  simp [rfObs, control_rfWe, h, decodeCtl_empty hv, defaults]

theorem rfObs_own (h : loadCommit s i = false) (hv : s.front.ex.valid)
    (hm : (exAction s i).isMem = false) {M : Type*} (d : DataMem M) (m : M) :
    rfObs s i = (exAction s i).rfOut d m s.front.ex.instr := by
  have hout := (exAction s i).rfOut_eq (x := exIn s i) d m hm
  simp only [rfObs, control_rfWe, control_rfWaddr, control_wdata, h, Bool.false_or,
    decodeCtl_eq hv, Action.ctl_rfWe, Action.ctl_rfWaddr]
  exact hout.symm

theorem rfObs_isMem (h : loadCommit s i = false) (hm : (exAction s i).isMem) :
    rfObs s i = none := by
  cases hv : s.front.ex.valid
  · exact rfObs_empty h hv
  · simp [rfObs, control_rfWe, h, decodeCtl_eq hv, Action.writesRf_of_isMem hm]

-- The register file after the edge, from what its write port shows.
theorem regWrite_control :
    regWrite s.regs (control s i).rfWe (control s i).rfWaddr (control s i).wdata =
      (rfObs s i).elim s.regs fun o r ↦ if r = o.1 then o.2 else s.regs r := by
  unfold regWrite rfObs
  simp only
  split <;> rfl

theorem csrObs_eq :
    csrObs s i = if s.front.ex.valid then (exAction s i).csrOut s.front.ex.instr else none := by
  unfold csrObs Action.csrOut
  simp only [control_csr]
  cases hv : s.front.ex.valid
  · rw [decodeCtl_empty hv]; rfl
  · rw [decodeCtl_eq hv, Action.ctl_csr]; rfl

theorem periphObs_eq :
    periphObs s i = if s.front.ex.valid then (exAction s i).periphOut else none := by
  unfold periphObs
  simp only [control_periph]
  cases hv : s.front.ex.valid
  · rw [decodeCtl_empty hv]; rfl
  · rw [decodeCtl_eq hv, Action.ctl_periph]
    cases exAction s i <;> rfl

end QarCore
