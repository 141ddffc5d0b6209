import QarCore.Core.Effects

/-!
# What an illegal instruction leaves behind

The edge at which the word in EX raises the illegal-instruction trap.  The OP arm raises `rf_we` before
it looks at the function fields, so an OP word without a meaning writes its `rd` with the sum the ALU
computes by default; no other arm drives anything but the trap.
-/

namespace QarCore

variable {cfg : Config} {s : Core} {i : Inputs}

/-- The word in EX raises the illegal-instruction trap. -/
def raisesIllegal (s : Core) (i : Inputs) : Bool :=
  s.front.ex.valid && (decodeCtl s i).illegalInstr

/-- The register file as the answer of an outstanding load leaves it. -/
def loadedRegs (s : Core) (i : Inputs) : RegIdx → Word :=
  if loadCommit s i then regWrite s.regs true s.dmem.rd i.memRdata else s.regs

/-- The DMEM port as the answer of the outstanding transaction leaves it. -/
def answeredPort (d : DmemPort) (memReady : Bool) : DmemPort :=
  if d.pending && memReady then { d with memReqValid := false, pending := false } else d

/-- Everything but the trap state goes on as if EX were empty. -/
structure NoSideEffect (cfg : Config) (s : Core) (i : Inputs) : Prop where
  regs : (posedge cfg s i).regs = loadedRegs s i
  mtvec : (posedge cfg s i).csr.mtvec = s.csr.mtvec
  mie : (posedge cfg s i).csr.mie = s.csr.mie
  mtimecmp : (posedge cfg s i).csr.mtimecmp = s.csr.mtimecmp
  irqPriority : (posedge cfg s i).csr.irqPriority = s.csr.irqPriority
  mstatus : ∀ j, j ≠ 3 → j ≠ 7 → (posedge cfg s i).csr.mstatus.getLsbD j = s.csr.mstatus.getLsbD j
  mip : (posedge cfg s i).mip =
    setBit (setBit s.mip 7 (timerTriggerLevel s i)) 11 (externalTriggerLevel i)
  mtime : (posedge cfg s i).mtime = s.mtime + 1#32
  acks : (posedge cfg s i).irqTimerAck = false ∧ (posedge cfg s i).irqExternalAck = false
  dmem : (posedge cfg s i).dmem = answeredPort s.dmem i.memReady
  periph : ∀ p, strobe (control s i) p = false

/-! ## The arms that trap -/

variable {x : ExIn} {a : Action} {opA opB : Word}

theorem illegal_of_ctl (h : (a.ctl x).illegalInstr) :
    a = .illegal ∨ ∃ opA opB, a = .illegalOp opA opB := by
  cases a with
  | illegal => exact Or.inl rfl
  | illegalOp opA opB => exact Or.inr ⟨opA, opB, rfl⟩
  | memLoad addr =>
    simp only [Action.ctl] at h
    split at h <;> exact absurd h Bool.false_ne_true
  | memStore addr data =>
    simp only [Action.ctl] at h
    split at h <;> exact absurd h Bool.false_ne_true
  | _ => exact absurd h Bool.false_ne_true

theorem loadAction_ne : loadAction x ≠ .illegalOp opA opB := by
  unfold loadAction
  split
  · split <;> exact Action.noConfusion
  · exact Action.noConfusion

theorem storeAction_ne : storeAction x ≠ .illegalOp opA opB := by
  unfold storeAction
  split
  · split <;> exact Action.noConfusion
  · exact Action.noConfusion

theorem branchAction_ne : branchAction x ≠ .illegalOp opA opB := by
  unfold branchAction
  split <;> exact Action.noConfusion

theorem jalrAction_ne : jalrAction x ≠ .illegalOp opA opB := by
  unfold jalrAction
  split <;> exact Action.noConfusion

theorem systemAction_ne : systemAction x ≠ .illegalOp opA opB := by
  unfold systemAction
  split_ifs <;> exact Action.noConfusion

theorem action_ne (hop : opcode x.instr ≠ Opc.op) : x.action ≠ .illegalOp opA opB := by
  have hif {c : Prop} [Decidable c] {a a' : Action} (ha : a ≠ .illegalOp opA opB)
      (ha' : a' ≠ .illegalOp opA opB) : (if c then a else a') ≠ .illegalOp opA opB := by
    split
    · exact ha
    · exact ha'
  unfold ExIn.action
  rw [if_neg hop]
  apply hif Action.noConfusion
  apply hif loadAction_ne
  apply hif storeAction_ne
  apply hif branchAction_ne
  apply hif Action.noConfusion
  apply hif jalrAction_ne
  apply hif systemAction_ne
  apply hif Action.noConfusion
  apply hif Action.noConfusion
  exact hif Action.noConfusion Action.noConfusion

-- Outside the OP arm a word that traps drives nothing.
theorem action_eq_illegal (h : (x.action.ctl x).illegalInstr) (hop : opcode x.instr ≠ Opc.op) :
    x.action = .illegal := by
  refine (illegal_of_ctl h).resolve_right ?_
  rintro ⟨opA, opB, he⟩
  exact action_ne hop he

-- In it, it drives the write port with the sum of its operands.
theorem action_eq_illegalOp (h : (x.action.ctl x).illegalInstr) (hop : opcode x.instr = Opc.op) :
    x.action = .illegalOp x.rs1Val x.rs2Val := by
  have hact : x.action = opAction x := by
    unfold ExIn.action
    rw [if_neg (by rw [hop]; decide), if_pos hop]
  rw [hact] at h ⊢
  unfold opAction at h ⊢
  cases hsel : opAluSel x.instr with
  | none => rfl
  | some op =>
    rw [hsel] at h
    exact absurd h Bool.false_ne_true

-- The signals of a word that raises the trap: the defaults, and the write port of the OP arm.
theorem decodeCtl_of_illegal (h : raisesIllegal s i) :
    decodeCtl s i = { defaults (exIn s i) with
      rfWe := decide (opcode s.front.ex.instr = Opc.op), illegalInstr := true } := by
  simp only [raisesIllegal, Bool.and_eq_true] at h
  have hill := h.2
  rw [decodeCtl_valid h.1] at hill ⊢
  by_cases hop : opcode (exIn s i).instr = Opc.op
  · rw [action_eq_illegalOp hill hop]
    show _ = { defaults (exIn s i) with rfWe := decide (opcode (exIn s i).instr = Opc.op), illegalInstr := true }
    rw [decide_eq_true hop]
    rfl
  · rw [action_eq_illegal hill hop]
    show _ = { defaults (exIn s i) with rfWe := decide (opcode (exIn s i).instr = Opc.op), illegalInstr := true }
    rw [decide_eq_false hop]
    rfl

/-! ## The edge -/

-- A write of the word that is there already changes nothing.
theorem regWrite_eq_iff {regs : RegIdx → Word} {r : RegIdx} {w : Word} :
    regWrite regs true r w = regs ↔ r = 0#5 ∨ regs r = w := by
  by_cases hr : r = 0#5
  · subst hr
    exact iff_of_true rfl (Or.inl rfl)
  · have hwe : (true && r != 0#5) = true := by simp [hr]
    unfold regWrite
    rw [if_pos hwe]
    constructor
    · intro h
      have hat := congrFun h r
      rw [if_pos rfl] at hat
      exact Or.inr hat.symm
    · intro h
      have hat := h.resolve_left hr
      funext j
      by_cases hj : j = r
      · rw [if_pos hj, hj, hat]
      · rw [if_neg hj]

-- The registers after the trap.
theorem regs_of_illegal (h : raisesIllegal s i) : (posedge cfg s i).regs =
    if loadCommit s i then loadedRegs s i
    else regWrite s.regs (decide (opcode s.front.ex.instr = Opc.op)) (rd s.front.ex.instr)
      (s.front.ex.rs1Val + s.front.ex.rs2Val) := by
  show regWrite s.regs (control s i).rfWe (control s i).rfWaddr (control s i).wdata = _
  rw [control_rfWe, control_rfWaddr, control_wdata, decodeCtl_of_illegal h, loadedRegs]
  cases loadCommit s i <;> rfl

theorem csr_of_illegal (h : raisesIllegal s i) : (posedge cfg s i).csr =
    trapEntry s.csr mcauseIllegal s.front.ex.pc s.csr := by
  have hill := decodeCtl_of_illegal h
  have hown : ownTrap s i = true := by
    simp only [raisesIllegal, Bool.and_eq_true] at h
    simp [ownTrap, h.1, h.2]
  have hno : irqTaken s i = false := by simp [irqTaken, hown]
  have htrap : (control s i).trap = ⟨true, s.csr.mtvec, mcauseIllegal, s.front.ex.pc⟩ := by
    simp only [raisesIllegal, Bool.and_eq_true] at h
    rw [control_trap_of_not_irq hno, h.1, h.2]
    rfl
  show csrNext s (control s i) = _
  rw [csrNext, htrap, control_csr, hill, if_pos rfl, csrWriteRegs_of_not_en rfl]

/-- An illegal instruction has no side effect unless it is an OP word that writes a register: one with
an `rd` whose value is not the sum already, and no answered load that takes the write port. -/
theorem noSideEffect_iff (cfg : Config) (regs : RegIdx → Word) (inp : Nat → Inputs) (t : Nat)
    (h : raisesIllegal (Core.run cfg regs inp t) (inp t)) :
    NoSideEffect cfg (Core.run cfg regs inp t) (inp t) ↔
      (opcode (Core.run cfg regs inp t).front.ex.instr = Opc.op →
        loadCommit (Core.run cfg regs inp t) (inp t) ∨
          rd (Core.run cfg regs inp t).front.ex.instr = 0#5 ∨
            (Core.run cfg regs inp t).regs (rd (Core.run cfg regs inp t).front.ex.instr) =
              (Core.run cfg regs inp t).front.ex.rs1Val + (Core.run cfg regs inp t).front.ex.rs2Val) := by
  generalize Core.run cfg regs inp t = s at *
  generalize inp t = i at *
  have hregs : (posedge cfg s i).regs = loadedRegs s i ↔
      (opcode s.front.ex.instr = Opc.op → loadCommit s i ∨ rd s.front.ex.instr = 0#5 ∨
        s.regs (rd s.front.ex.instr) = s.front.ex.rs1Val + s.front.ex.rs2Val) := by
    rw [regs_of_illegal h]
    by_cases hc : loadCommit s i
    · rw [if_pos hc]
      exact iff_of_true rfl (fun _ ↦ Or.inl hc)
    · rw [if_neg hc, loadedRegs, if_neg hc]
      by_cases hop : opcode s.front.ex.instr = Opc.op
      · rw [decide_eq_true hop, regWrite_eq_iff]
        exact ⟨fun hw _ ↦ Or.inr hw, fun hw ↦ (hw hop).resolve_left hc⟩
      · rw [decide_eq_false hop]
        exact iff_of_true rfl (fun hop' ↦ absurd hop' hop)
  constructor
  · intro hno
    exact hregs.mp hno.regs
  · intro hcond
    have hctl := decodeCtl_of_illegal h
    have hcsr : (posedge cfg s i).csr = _ := csr_of_illegal h
    have hen : (control s i).csr.en = false := by
      rw [control_csr, hctl]
      rfl
    refine ⟨hregs.mpr hcond, ?_, ?_, ?_, ?_, ?_, ?_, ?_, ?_, ?_, ?_⟩
    · rw [hcsr]
      rfl
    · rw [hcsr]
      rfl
    · rw [hcsr]
      rfl
    · rw [hcsr]
      rfl
    · intro j h3 h7
      rw [hcsr]
      show (setBit (setBit s.csr.mstatus 7 _) 3 false).getLsbD j = _
      rw [getLsbD_setBit _ _ _ _ (by decide), if_neg h3, getLsbD_setBit _ _ _ _ (by decide), if_neg h7]
    · show mipNext s i (control s i) = _
      unfold mipNext
      rw [hen]
      rfl
    · show mtimeNext s (control s i) = _
      unfold mtimeNext
      rw [hen]
      rfl
    · show ((control s i).csr.en && _ && _) = false ∧ ((control s i).csr.en && _ && _) = false
      rw [hen]
      exact ⟨rfl, rfl⟩
    · show dmemNext s.dmem (control s i).mem i.memReady = _
      rw [control_mem, hctl]
      rfl
    · intro p
      unfold strobe readEn writeEn
      rw [control_periph, hctl]
      rfl

/-- `addi x1, x0, 5`, then the word `w`, and a loop at the trap vector. -/
def addiThen (w : Word) (a : Word) : Word :=
  if a = 0#32 then 0x00500093#32 else if a = 4#32 then w else 0x0000006F#32

/-- The pins of the core that runs it, with instructions at once. -/
def addiThenPins (w : Word) : Nat → Inputs :=
  Board.inputs .noCache (addiThen w) wordMem (fun _ ↦ 0#32) (fun _ ↦ 0#32)
    (fun _ ↦ { quietInputs with imemReady := true, memReady := true })

/-- A word of all ones. -/
theorem allOnes_noSideEffect : NoSideEffect .noCache
    (Core.run .noCache (fun _ ↦ 0#32) (addiThenPins 0xFFFFFFFF) 6) (addiThenPins 0xFFFFFFFF 6) := by
  have hraises : raisesIllegal (Core.run .noCache (fun _ ↦ 0#32) (addiThenPins 0xFFFFFFFF) 6)
      (addiThenPins 0xFFFFFFFF 6) := by
    rw [addiThenPins, Core.run_inputs]
    decide +kernel
  refine (noSideEffect_iff .noCache (fun _ ↦ 0#32) (addiThenPins 0xFFFFFFFF) 6 hraises).mpr ?_
  have hop : opcode (Core.run .noCache (fun _ ↦ 0#32) (addiThenPins 0xFFFFFFFF) 6).front.ex.instr ≠
      Opc.op := by
    rw [addiThenPins, Core.run_inputs]
    decide +kernel
  exact fun h ↦ absurd h hop

/-- `mul x2, x1, x1` traps and leaves the sum of its operands in `x2`. -/
theorem mul_writes : raisesIllegal (Core.run .noCache (fun _ ↦ 0#32) (addiThenPins 0x02108133) 6)
      (addiThenPins 0x02108133 6) ∧
    (Core.run .noCache (fun _ ↦ 0#32) (addiThenPins 0x02108133) 6).regs 2 = 0#32 ∧
    (Core.run .noCache (fun _ ↦ 0#32) (addiThenPins 0x02108133) 7).regs 2 = 10#32 ∧
    (Core.run .noCache (fun _ ↦ 0#32) (addiThenPins 0x02108133) 7).csr.mcause = mcauseIllegal ∧
    ¬ NoSideEffect .noCache (Core.run .noCache (fun _ ↦ 0#32) (addiThenPins 0x02108133) 6)
      (addiThenPins 0x02108133 6) := by
  have hafter : (Core.run .noCache (fun _ ↦ 0#32) (addiThenPins 0x02108133) 7).regs 2 = 10#32 := by
    rw [addiThenPins, Core.run_inputs]
    decide +kernel
  have hloaded : loadedRegs (Core.run .noCache (fun _ ↦ 0#32) (addiThenPins 0x02108133) 6)
      (addiThenPins 0x02108133 6) 2 = 0#32 := by
    rw [addiThenPins, Core.run_inputs]
    decide +kernel
  refine ⟨?_, ?_, hafter, ?_, ?_⟩
  · rw [addiThenPins, Core.run_inputs]
    decide +kernel
  · rw [addiThenPins, Core.run_inputs]
    decide +kernel
  · rw [addiThenPins, Core.run_inputs]
    decide +kernel
  · intro hno
    have hat := congrFun hno.regs 2
    rw [hloaded] at hat
    exact absurd (hat.symm.trans hafter) (by decide)

end QarCore
