import QarCore.Core.Step

/-!
# Actions of EX

Thirteen shapes cover everything the arms of the `case (opcode)` do.  `exArms_eq` says so once; every
later fact about the arms is a case split over the action.
-/

namespace QarCore

/-- What the instruction in EX asks for, with the operands it uses. -/
inductive Action
  /-- A branch not taken, and the all-zero word. -/
  | nop
  | illegal
  /-- An OP word without a meaning: traps, but with `rf_we` up. -/
  | illegalOp (opA opB : Word)
  | alu (op : AluOp) (opA opB : Word)
  /-- LUI and AUIPC. -/
  | value (v : Word)
  | memLoad (addr : Word)
  | memStore (addr data : Word)
  | periphLoad (p : Periph) (addr data : Word)
  | periphStore (p : Periph) (addr data : Word)
  /-- A taken branch or a jump; `link` is the value for `rd`. -/
  | jump (target : Word) (link : Option Word)
  | mret (target : Word)
  | csr (old : Word) (en : Bool) (data : Word)
  | ecall
  deriving DecidableEq

/-- An access outside the windows: it takes a DMEM transaction. -/
def Action.isMem : Action → Bool
  | memLoad _ => true
  | memStore _ _ => true
  | _ => false

/-- The signals an action drives on top of the defaults. -/
def Action.ctl (x : ExIn) : Action → ExCtl
  | nop => defaults x
  | illegal => { defaults x with illegalInstr := true }
  | illegalOp opA opB =>
    { defaults x with rfWe := true, aluOpA := opA, aluOpB := opB, illegalInstr := true }
  | alu op opA opB =>
    { defaults x with rfWe := true, aluOpA := opA, aluOpB := opB, aluOpSel := op }
  | value v => { defaults x with rfWe := true, rfWdata := some v }
  | memLoad addr =>
    if x.dmemPending then defaults x
    else { defaults x with mem := ⟨true, true, addr, 0, rd x.instr⟩, stallEx := true }
  | memStore addr data =>
    if x.dmemPending then defaults x
    else { defaults x with mem := ⟨true, false, addr, data, rd x.instr⟩, stallEx := true }
  | periphLoad p addr data =>
    { defaults x with periph := ⟨some p, true, addr, 0⟩, rfWe := true, rfWdata := some data }
  | periphStore p addr data => { defaults x with periph := ⟨some p, false, addr, data⟩ }
  | jump target link =>
    { defaults x with rfWe := link.isSome, rfWdata := link, branchTarget := target,
                      flushPipe := true }
  | mret target => { defaults x with branchTarget := target, flushPipe := true }
  | csr old en data =>
    { defaults x with rfWe := rd x.instr != 0#5, rfWdata := some old,
                      csr := ⟨en, funct12 x.instr, data⟩ }
  | ecall => { defaults x with trap := ⟨true, x.csr.mtvec, mcauseEcall, x.pc⟩ }

def loadAction (x : ExIn) : Action :=
  if funct3 x.instr = 0b010#3 then
    match windowOf (loadAddr x) with
    | some p => .periphLoad p (loadAddr x) (x.rdata p)
    | none => .memLoad (loadAddr x)
  else .illegal

def storeAction (x : ExIn) : Action :=
  if funct3 x.instr = 0b010#3 then
    match windowOf (storeAddr x) with
    | some p => .periphStore p (storeAddr x) x.rs2Val
    | none => .memStore (storeAddr x) x.rs2Val
  else .illegal

def opAction (x : ExIn) : Action :=
  match opAluSel x.instr with
  | some op => .alu op x.rs1Val x.rs2Val
  | none => .illegalOp x.rs1Val x.rs2Val

def branchAction (x : ExIn) : Action :=
  match branchTaken x.instr x.rs1Val x.rs2Val with
  | some true => .jump (x.pc + immB x.instr) none
  | some false => .nop
  | none => .illegal

def jalrAction (x : ExIn) : Action :=
  if funct3 x.instr = 0b000#3 then .jump (jalrTarget x) (some (pcPlus4 x)) else .illegal

def systemAction (x : ExIn) : Action :=
  if funct3 x.instr = 0b001#3 then .csr (csrReadData x) true x.rs1Val
  else if funct3 x.instr = 0b010#3 then
    .csr (csrReadData x) (rs1 x.instr != 0#5) (csrReadData x ||| x.rs1Val)
  else if funct3 x.instr = 0b011#3 then
    .csr (csrReadData x) (rs1 x.instr != 0#5) (csrReadData x &&& ~~~x.rs1Val)
  else if funct3 x.instr = 0b000#3 ∧ funct12 x.instr = 0#12 then .ecall
  else if funct3 x.instr = 0b000#3 ∧ funct12 x.instr = mretFunct12 then .mret x.csr.mepc
  else .illegal

/-- The action of the instruction in EX. -/
def ExIn.action (x : ExIn) : Action :=
  if opcode x.instr = Opc.opImm then .alu .add x.rs1Val (immI x.instr)
  else if opcode x.instr = Opc.op then opAction x
  else if opcode x.instr = Opc.load then loadAction x
  else if opcode x.instr = Opc.store then storeAction x
  else if opcode x.instr = Opc.branch then branchAction x
  else if opcode x.instr = Opc.jal then .jump (x.pc + immJ x.instr) (some (pcPlus4 x))
  else if opcode x.instr = Opc.jalr then jalrAction x
  else if opcode x.instr = Opc.system then systemAction x
  else if opcode x.instr = Opc.lui then .value (immU x.instr)
  else if opcode x.instr = Opc.auipc then .value (x.pc + immU x.instr)
  else if x.instr ≠ 0#32 then .illegal else .nop

variable {x : ExIn}

/-! ## The arms drive the action's signals -/

theorem opArm_eq : opArm x (defaults x) = (opAction x).ctl x := by
  unfold opArm opAction
  cases opAluSel x.instr <;> simp [Action.ctl, defaults]

theorem loadArm_eq : loadArm x (defaults x) = (loadAction x).ctl x := by
  unfold loadArm loadAction
  by_cases h3 : funct3 x.instr = 0b010#3
  · cases windowOf (loadAddr x)
    · cases hp : x.dmemPending <;> simp [h3, hp, Action.ctl, defaults]
    · simp [h3, Action.ctl, defaults]
  · simp [h3, Action.ctl]

theorem storeArm_eq : storeArm x (defaults x) = (storeAction x).ctl x := by
  unfold storeArm storeAction
  by_cases h3 : funct3 x.instr = 0b010#3
  · cases windowOf (storeAddr x)
    · cases hp : x.dmemPending <;> simp [h3, hp, Action.ctl, defaults]
    · simp [h3, Action.ctl]
  · simp [h3, Action.ctl]

theorem branchArm_eq : branchArm x (defaults x) = (branchAction x).ctl x := by
  unfold branchArm branchAction
  cases branchTaken x.instr x.rs1Val x.rs2Val with
  | none => rfl
  | some b => cases b <;> rfl

theorem jalrArm_eq : jalrArm x (defaults x) = (jalrAction x).ctl x := by
  unfold jalrArm jalrAction
  split <;> rfl

theorem systemArm_eq : systemArm x (defaults x) = (systemAction x).ctl x := by
  unfold systemArm systemAction
  split_ifs <;> rfl

theorem opImmArm_eq :
    opImmArm x (defaults x) = (Action.alu .add x.rs1Val (immI x.instr)).ctl x := rfl

theorem jalArm_eq :
    jalArm x (defaults x) = (Action.jump (x.pc + immJ x.instr) (some (pcPlus4 x))).ctl x := rfl

theorem luiArm_eq : luiArm x (defaults x) = (Action.value (immU x.instr)).ctl x := rfl

theorem auipcArm_eq : auipcArm x (defaults x) = (Action.value (x.pc + immU x.instr)).ctl x := rfl

theorem defaultArm_eq :
    defaultArm x (defaults x) = (if x.instr ≠ 0#32 then Action.illegal else .nop).ctl x := by
  unfold defaultArm
  split_ifs <;> rfl

theorem exArms_eq (x : ExIn) : exArms x = x.action.ctl x := by
  simp only [exArms, opcodeCase, ExIn.action, apply_ite (fun g : ExIn → ExCtl → ExCtl ↦ g x (defaults x)),
    opImmArm_eq, opArm_eq, loadArm_eq, storeArm_eq, branchArm_eq, jalArm_eq, jalrArm_eq,
    systemArm_eq, luiArm_eq, auipcArm_eq, defaultArm_eq, apply_ite (Action.ctl x)]

/-! ## Operands -/

theorem branchAction_congr {x y : ExIn} (hi : x.instr = y.instr) (hp : x.pc = y.pc)
    (h1 : x.rs1Val = y.rs1Val) (h2 : x.rs2Val = y.rs2Val) : branchAction x = branchAction y := by
  simp only [branchAction, hi, hp, h1, h2]

-- The action looks only at the operands that `id_uses_rs1` and `id_uses_rs2` announce.
theorem action_congr {x y : ExIn} (hi : x.instr = y.instr) (hp : x.pc = y.pc) (hc : x.csr = y.csr)
    (hmip : x.mip = y.mip) (hmt : x.mtime = y.mtime) (hrd : x.rdata = y.rdata)
    (h1 : idUsesRs1 x.instr → x.rs1Val = y.rs1Val) (h2 : idUsesRs2 x.instr → x.rs2Val = y.rs2Val) :
    x.action = y.action := by
  have hcsr : csrReadData x = csrReadData y := by simp only [csrReadData, hi, hc, hmip, hmt]
  unfold ExIn.action
  simp only [idUsesRs1, idUsesRs2, Bool.or_eq_true, beq_iff_eq, Bool.and_eq_true, bne_iff_ne] at h1 h2
  rw [← hi]
  refine ite_congr rfl (fun ho ↦ ?_) fun _ ↦ ite_congr rfl (fun ho ↦ ?_) fun _ ↦
    ite_congr rfl (fun ho ↦ ?_) fun _ ↦ ite_congr rfl (fun ho ↦ ?_) fun _ ↦
    ite_congr rfl (fun ho ↦ ?_) fun _ ↦ ite_congr rfl (fun ho ↦ ?_) fun _ ↦
    ite_congr rfl (fun ho ↦ ?_) fun _ ↦ ite_congr rfl (fun ho ↦ ?_) fun _ ↦
    ite_congr rfl (fun _ ↦ rfl) fun _ ↦ ite_congr rfl (fun _ ↦ by rw [hp]) fun _ ↦ rfl
  · rw [h1 (by simp [ho])]
  · simp only [opAction, hi, h1 (by simp [ho]), h2 (by simp [ho])]
  · simp only [loadAction, loadAddr, hi, hrd, h1 (by simp [ho])]
  · simp only [storeAction, storeAddr, hi, h1 (by simp [ho]), h2 (by simp [ho])]
  · exact branchAction_congr hi hp (h1 (by simp [ho])) (h2 (by simp [ho]))
  · simp only [pcPlus4, hp]
  · simp only [jalrAction, jalrTarget, pcPlus4, hi, hp, h1 (by simp [ho])]
  · unfold systemAction
    by_cases h0 : funct3 x.instr = 0b000#3
    · simp [← hi, h0, hc]
    · simp only [← hi, hc, hcsr, h1 (by simp [ho, h0])]

-- What does not depend on the values read from a CSR or a peripheral stays the same while the instruction is
-- in EX.
theorem action_shape_congr {β : Type*} (f : Action → β)
    (hper : ∀ p a v v', f (.periphLoad p a v) = f (.periphLoad p a v'))
    (hcsr : ∀ old old' en v v', f (.csr old en v) = f (.csr old' en v'))
    (hmret : ∀ v v', f (.mret v) = f (.mret v')) {x y : ExIn} (hi : x.instr = y.instr)
    (hp : x.pc = y.pc) (h1 : x.rs1Val = y.rs1Val) (h2 : x.rs2Val = y.rs2Val) :
    f x.action = f y.action := by
  have hla : loadAddr x = loadAddr y := by simp only [loadAddr, hi, h1]
  unfold ExIn.action
  simp only [apply_ite f]
  rw [← hi]
  refine ite_congr rfl (fun _ ↦ by rw [h1]) fun _ ↦ ite_congr rfl (fun _ ↦ ?_) fun _ ↦
    ite_congr rfl (fun _ ↦ ?_) fun _ ↦ ite_congr rfl (fun _ ↦ ?_) fun _ ↦
    ite_congr rfl (fun _ ↦ by rw [branchAction_congr hi hp h1 h2]) fun _ ↦
    ite_congr rfl (fun _ ↦ by simp only [pcPlus4, hp]) fun _ ↦ ite_congr rfl (fun _ ↦ ?_) fun _ ↦
    ite_congr rfl (fun _ ↦ ?_) fun _ ↦
    ite_congr rfl (fun _ ↦ rfl) fun _ ↦ ite_congr rfl (fun _ ↦ by rw [hp]) fun _ ↦ rfl
  · simp only [opAction, hi, h1, h2]
  · unfold loadAction
    rw [← hi, hla]
    split
    · cases windowOf (loadAddr y) with
      | none => rfl
      | some p => exact hper _ _ _ _
    · rfl
  · simp only [storeAction, storeAddr, hi, h1, h2]
  · simp only [jalrAction, jalrTarget, pcPlus4, hi, hp, h1]
  · unfold systemAction
    rw [← hi]
    split_ifs
    · exact hcsr _ _ _ _ _
    · exact hcsr _ _ _ _ _
    · exact hcsr _ _ _ _ _
    · rfl
    · exact hmret _ _
    · rfl

/-! ## MRET -/

def Action.isMret : Action → Bool
  | mret _ => true
  | _ => false

theorem opAction_isMret : (opAction x).isMret = false := by
  unfold opAction
  cases opAluSel x.instr <;> rfl

theorem loadAction_isMret : (loadAction x).isMret = false := by
  unfold loadAction
  split
  · cases windowOf (loadAddr x) <;> rfl
  · rfl

theorem storeAction_isMret : (storeAction x).isMret = false := by
  unfold storeAction
  split
  · cases windowOf (storeAddr x) <;> rfl
  · rfl

theorem branchAction_isMret : (branchAction x).isMret = false := by
  unfold branchAction
  cases branchTaken x.instr x.rs1Val x.rs2Val with
  | none => rfl
  | some b => cases b <;> rfl

theorem jalrAction_isMret : (jalrAction x).isMret = false := by
  unfold jalrAction
  split <;> rfl

theorem systemAction_isMret :
    (systemAction x).isMret = (funct3 x.instr == 0b000#3 && funct12 x.instr == mretFunct12) := by
  unfold systemAction
  by_cases h0 : funct3 x.instr = 0b000#3
  · by_cases h12 : funct12 x.instr = 0#12
    · simp [h0, h12, Action.isMret, mretFunct12]
    · by_cases hm : funct12 x.instr = mretFunct12
      · simp [h0, hm, Action.isMret, mretFunct12]
      · simp [h0, h12, hm, Action.isMret]
  · split_ifs <;> simp_all [Action.isMret]

-- The MRET test of the state update finds exactly the words whose action is `mret`.
theorem action_isMret (x : ExIn) : x.action.isMret = isMret x.instr := by
  simp only [ExIn.action, apply_ite Action.isMret, opAction_isMret, loadAction_isMret,
    storeAction_isMret, branchAction_isMret, jalrAction_isMret, systemAction_isMret]
  simp only [Action.isMret, ite_self, isMret]
  by_cases hs : opcode x.instr = Opc.system
  · simp [hs, Opc.system, Opc.opImm, Opc.op, Opc.load, Opc.store, Opc.branch, Opc.jal, Opc.jalr]
  · simp [hs]

/-! ## Memory accesses -/

theorem action_load (h : opcode x.instr = Opc.load) : x.action = loadAction x := by
  simp [ExIn.action, h, Opc.load, Opc.opImm, Opc.op]

theorem action_store (h : opcode x.instr = Opc.store) : x.action = storeAction x := by
  simp [ExIn.action, h, Opc.store, Opc.load, Opc.opImm, Opc.op]

theorem action_system (h : opcode x.instr = Opc.system) : x.action = systemAction x := by
  simp [ExIn.action, h, Opc.system, Opc.opImm, Opc.op, Opc.load, Opc.store, Opc.branch, Opc.jal,
    Opc.jalr]

-- Only the LOAD and STORE arms reach the DMEM port.
theorem opcode_of_isMem (h : x.action.isMem) :
    opcode x.instr = Opc.load ∨ opcode x.instr = Opc.store := by
  by_contra hn
  obtain ⟨hl, hs⟩ := not_or.mp hn
  have hop : (opAction x).isMem = false := by
    unfold opAction
    cases opAluSel x.instr <;> rfl
  have hbr : (branchAction x).isMem = false := by
    unfold branchAction
    cases branchTaken x.instr x.rs1Val x.rs2Val with
    | none => rfl
    | some b => cases b <;> rfl
  have hj : (jalrAction x).isMem = false := by
    unfold jalrAction
    split <;> rfl
  have hsys : (systemAction x).isMem = false := by
    unfold systemAction
    split_ifs <;> rfl
  have : x.action.isMem = false := by
    simp only [ExIn.action, hl, hs, if_false, apply_ite Action.isMem, hop, hbr, hj, hsys]
    simp only [Action.isMem, ite_self]
  rw [this] at h
  cases h

-- A DMEM access depends on the instruction and its operands only.
theorem isMem_action_congr {x y : ExIn} (hm : x.action.isMem) (hi : x.instr = y.instr)
    (h1 : x.rs1Val = y.rs1Val) (h2 : x.rs2Val = y.rs2Val) : y.action = x.action := by
  rcases opcode_of_isMem hm with ho | ho
  · rw [action_load ho] at hm ⊢
    rw [action_load (hi ▸ ho)]
    unfold loadAction at hm ⊢
    have hl : loadAddr y = loadAddr x := by simp only [loadAddr, hi, h1]
    rw [← hi, hl]
    cases hw : windowOf (loadAddr x) with
    | none => rfl
    | some p =>
      rw [hw] at hm
      split at hm <;> cases hm
  · rw [action_store ho, action_store (hi ▸ ho)]
    simp only [storeAction, storeAddr, hi, h1, h2]

end QarCore
