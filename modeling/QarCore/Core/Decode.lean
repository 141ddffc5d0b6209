import QarCore.Core.Sequential

/-!
# Decode against the RV32I encoding

For a word that encodes an instruction, EX asks for what that instruction means; for the rest it
traps, except for the words `Misdecoded` lists.
-/

namespace QarCore

open Rv32i (Instr OpFn Cond CsrFn decode)

variable {x : ExIn} {instr : Instr}

/-! ## The action of an encoded instruction -/

/-- The operands of the instruction in EX. -/
def ExIn.operands (x : ExIn) : Rv32i.Operands where
  pc := x.pc
  rs1 := x.rs1Val
  rs2 := x.rs2Val
  csr := csrRead x.csr x.mip x.mtime
  tvec := x.csr.mtvec
  epc := x.csr.mepc

def aluOpOf : OpFn → AluOp
  | .add => .add
  | .sub => .sub
  | .and => .and
  | .or => .or
  | .xor => .xor
  | .sll => .sll
  | .srl => .srl

/-- A word access at `addr`: a strobe inside a window, a DMEM transaction outside. -/
def loadFrom (x : ExIn) (addr : Word) : Action :=
  match windowOf addr with
  | some p => .periphLoad p addr (x.rdata p)
  | none => .memLoad addr

def storeTo (addr data : Word) : Action :=
  match windowOf addr with
  | some p => .periphStore p addr data
  | none => .memStore addr data

/-- The action an instruction means on the operands in EX. -/
def actionOf (x : ExIn) : Instr → Action
  | .addi _ _ imm => .alu .add x.rs1Val (imm.signExtend 32)
  | .op fn _ _ _ => .alu (aluOpOf fn) x.rs1Val x.rs2Val
  | .lui _ imm => .value (imm ++ 0#12)
  | .auipc _ imm => .value (x.pc + (imm ++ 0#12))
  | .lw _ _ imm => loadFrom x (x.rs1Val + imm.signExtend 32)
  | .sw _ _ imm => storeTo (x.rs1Val + imm.signExtend 32) x.rs2Val
  | .branch cond _ _ imm =>
    if cond.holds x.rs1Val x.rs2Val then .jump (x.pc + Rv32i.offset imm) none else .nop
  | .jal _ imm => .jump (x.pc + Rv32i.offset imm) (some (x.pc + 4#32))
  | .jalr _ _ imm => .jump ((x.rs1Val + imm.signExtend 32) &&& ~~~1#32) (some (x.pc + 4#32))
  | .csr .rw _ _ addr => .csr (x.operands.csr addr) true x.rs1Val
  | .csr .rs _ rs1 addr =>
    .csr (x.operands.csr addr) (rs1 != 0#5) (x.operands.csr addr ||| x.rs1Val)
  | .csr .rc _ rs1 addr =>
    .csr (x.operands.csr addr) (rs1 != 0#5) (x.operands.csr addr &&& ~~~x.rs1Val)
  | .ecall => .ecall
  | .mret => .mret x.csr.mepc

theorem opAluSel_funct {fn : OpFn} {w : Word} (h3 : fn.funct3 = funct3 w)
    (h7 : fn.funct7 = funct7 w) : opAluSel w = some (aluOpOf fn) := by
  unfold opAluSel
  rw [← h3, ← h7]
  cases fn <;> rfl

theorem branchTaken_funct {cond : Cond} {w : Word} (h3 : cond.funct3 = funct3 w) (a b : Word) :
    branchTaken w a b = some (cond.holds a b) := by
  unfold branchTaken
  rw [← h3]
  cases cond with
  | ge => simp [Cond.funct3, Cond.holds, BitVec.sle_eq_not_slt]
  | geu => simp [Cond.funct3, Cond.holds, BitVec.ule_eq_not_ult]
  | _ => rfl

-- Clearing bit 0 of a sum is `{ sum[31:1], 1'b0 }`.
theorem jalrTarget_eq : jalrTarget x = (x.rs1Val + immI x.instr) &&& ~~~1#32 := by
  unfold jalrTarget
  generalize x.rs1Val + immI x.instr = s
  apply BitVec.eq_of_getLsbD_eq
  intro j hj
  rw [BitVec.getLsbD_append, BitVec.getLsbD_and, BitVec.getLsbD_not, BitVec.getLsbD_extractLsb']
  rcases j with _ | j
  · simp
  · simp [hj, Nat.add_comm]
    omega

-- EX asks for what the encoded instruction means.
theorem action_of_decode (h : decode x.instr = some instr) : x.action = actionOf x instr := by
  have hw := Rv32i.encode_decode h
  cases instr with
  | addi rd rs1 imm =>
    obtain ⟨rfl, rfl, h3, rfl, ho⟩ := Rv32i.iType_eq.mp hw
    have ho : opcode x.instr = Opc.opImm := ho.symm
    simp only [ExIn.action, ho, if_true]
    rfl
  | op fn rd rs1 rs2 =>
    obtain ⟨h7, rfl, rfl, h3, rfl, ho⟩ := Rv32i.rType_eq.mp hw
    have ho : opcode x.instr = Opc.op := ho.symm
    simp only [ExIn.action, ho, opAction, opAluSel_funct h3 h7]
    rfl
  | lui rd imm =>
    obtain ⟨rfl, rfl, ho⟩ := Rv32i.uType_eq.mp hw
    have ho : opcode x.instr = Opc.lui := ho.symm
    simp only [ExIn.action, ho]
    rfl
  | auipc rd imm =>
    obtain ⟨rfl, rfl, ho⟩ := Rv32i.uType_eq.mp hw
    have ho : opcode x.instr = Opc.auipc := ho.symm
    simp only [ExIn.action, ho]
    rfl
  | lw rd rs1 imm =>
    obtain ⟨rfl, rfl, h3, rfl, ho⟩ := Rv32i.iType_eq.mp hw
    have ho : opcode x.instr = Opc.load := ho.symm
    have h3 : funct3 x.instr = 0b010#3 := h3.symm
    rw [action_load ho, loadAction, if_pos h3]
    rfl
  | sw rs1 rs2 imm =>
    obtain ⟨rfl, rfl, rfl, h3, ho⟩ := Rv32i.sType_eq.mp hw
    have ho : opcode x.instr = Opc.store := ho.symm
    have h3 : funct3 x.instr = 0b010#3 := h3.symm
    rw [action_store ho, storeAction, if_pos h3]
    rfl
  | branch cond rs1 rs2 imm =>
    obtain ⟨rfl, rfl, rfl, h3, ho⟩ := Rv32i.bType_eq.mp hw
    have ho : opcode x.instr = Opc.branch := ho.symm
    have hact : x.action = branchAction x := by
      simp only [ExIn.action, ho]
      rfl
    rw [hact, branchAction, branchTaken_funct h3]
    change _ = if cond.holds x.rs1Val x.rs2Val then _ else _
    cases cond.holds x.rs1Val x.rs2Val <;> rfl
  | jal rd imm =>
    obtain ⟨rfl, rfl, ho⟩ := Rv32i.jType_eq.mp hw
    have ho : opcode x.instr = Opc.jal := ho.symm
    simp only [ExIn.action, ho]
    rfl
  | jalr rd rs1 imm =>
    obtain ⟨rfl, rfl, h3, rfl, ho⟩ := Rv32i.iType_eq.mp hw
    have ho : opcode x.instr = Opc.jalr := ho.symm
    have h3 : funct3 x.instr = 0b000#3 := h3.symm
    have hact : x.action = jalrAction x := by
      simp only [ExIn.action, ho]
      rfl
    rw [hact, jalrAction, if_pos h3, jalrTarget_eq]
    rfl
  | csr fn rd rs1 addr =>
    obtain ⟨rfl, rfl, h3, rfl, ho⟩ := Rv32i.iType_eq.mp hw
    have hact : x.action = systemAction x := action_system ho.symm
    rw [hact, systemAction]
    change fn.funct3 = funct3 x.instr at h3
    rw [← h3]
    cases fn <;> rfl
  | ecall =>
    obtain ⟨h12, h1, h3, hd, ho⟩ := Rv32i.iType_eq.mp hw
    change 0#12 = funct12 x.instr at h12
    change 0#3 = funct3 x.instr at h3
    rw [action_system ho.symm, systemAction, ← h3, ← h12]
    rfl
  | mret =>
    obtain ⟨h12, h1, h3, hd, ho⟩ := Rv32i.iType_eq.mp hw
    change 0x302#12 = funct12 x.instr at h12
    change 0#3 = funct3 x.instr at h3
    rw [action_system ho.symm, systemAction, ← h3, ← h12]
    rfl

/-! ## The words without an encoding -/

/-- OP words with a wrong `funct7` that the arm does not check. -/
def LooseOp (w : Word) : Prop :=
  (funct3 w = 0b111#3 ∨ funct3 w = 0b110#3 ∨ funct3 w = 0b100#3 ∨ funct3 w = 0b001#3) ∧
    funct7 w ≠ 0b0000000#7

/-- ECALL and MRET words with a register field that the arm does not check. -/
def LooseSystem (w : Word) : Prop :=
  funct3 w = 0b000#3 ∧ (funct12 w = 0#12 ∨ funct12 w = mretFunct12) ∧ ¬(rs1 w = 0#5 ∧ rd w = 0#5)

/-- The words without an encoding that EX executes as some instruction. -/
def Misdecoded (w : Word) : Prop :=
  (opcode w = Opc.opImm ∧ funct3 w ≠ 0b000#3) ∨ (opcode w = Opc.op ∧ LooseOp w) ∨
    (opcode w = Opc.system ∧ LooseSystem w)

instance : DecidablePred LooseOp := fun _ ↦ inferInstanceAs (Decidable (_ ∧ _))
instance : DecidablePred LooseSystem := fun _ ↦ inferInstanceAs (Decidable (_ ∧ _))
instance : DecidablePred Misdecoded := fun _ ↦ inferInstanceAs (Decidable (_ ∨ _))

theorem opAluSel_eq_none {w : Word} (h : Rv32i.decodeOp w = none) :
    opAluSel w = none ↔ ¬LooseOp w := by
  have hcode : ∀ fn : OpFn, ¬(fn.funct3 = funct3 w ∧ fn.funct7 = funct7 w) := fun fn hf ↦ by
    rw [Rv32i.decodeOp_eq_some.mpr hf] at h
    cases h
  have h0 := hcode .add
  have h0' := hcode .sub
  have h5 := hcode .srl
  have h7 := hcode .and
  have h6 := hcode .or
  have h4 := hcode .xor
  have h1 := hcode .sll
  simp only [OpFn.funct3, OpFn.funct7, not_and, eq_comm (b := funct3 w),
    eq_comm (b := funct7 w)] at h0 h0' h5 h7 h6 h4 h1
  unfold opAluSel LooseOp
  split_ifs <;> simp_all

theorem branchTaken_eq_none {w a b : Word} (h : Rv32i.decodeCond w = none) :
    branchTaken w a b = none := by
  unfold Rv32i.decodeCond at h
  change (if funct3 w = _ then _ else if funct3 w = _ then _ else if funct3 w = _ then _
    else if funct3 w = _ then _ else if funct3 w = _ then _ else if funct3 w = _ then _
    else _) = none at h
  unfold branchTaken
  split_ifs at h ⊢
  rfl

-- Words of different opcodes are in different parts of `Misdecoded`.
theorem misdecoded_opImm {w : Word} (h : opcode w = Opc.opImm) :
    Misdecoded w ↔ funct3 w ≠ 0b000#3 := by
  simp [Misdecoded, h, Opc.opImm, Opc.op, Opc.system]

theorem misdecoded_op {w : Word} (h : opcode w = Opc.op) : Misdecoded w ↔ LooseOp w := by
  simp [Misdecoded, h, Opc.opImm, Opc.op, Opc.system]

theorem misdecoded_system {w : Word} (h : opcode w = Opc.system) :
    Misdecoded w ↔ LooseSystem w := by
  simp [Misdecoded, h, Opc.opImm, Opc.op, Opc.system]

theorem not_misdecoded {w : Word} (h1 : opcode w ≠ Opc.opImm) (h2 : opcode w ≠ Opc.op)
    (h3 : opcode w ≠ Opc.system) : ¬Misdecoded w := by
  simp [Misdecoded, h1, h2, h3]

theorem systemAction_of_decode_none (h : Rv32i.decodeSystem x.instr = none) :
    (systemAction x).trapCause = some mcauseIllegal ↔ ¬LooseSystem x.instr := by
  unfold Rv32i.decodeSystem at h
  change (if funct3 x.instr = _ then _ else if funct3 x.instr = _ then _
    else if funct3 x.instr = _ then _ else
    if funct3 x.instr = _ ∧ rs1 x.instr = _ ∧ rd x.instr = _ then
      if funct12 x.instr = _ then _ else if funct12 x.instr = _ then _ else _ else _) = none at h
  by_cases h1 : funct3 x.instr = 0b001#3
  · simp [h1] at h
  by_cases h2 : funct3 x.instr = 0b010#3
  · simp [h2] at h
  by_cases h3 : funct3 x.instr = 0b011#3
  · simp [h3] at h
  unfold systemAction LooseSystem
  rw [if_neg h1, if_neg h2, if_neg h3]
  rw [if_neg h1, if_neg h2, if_neg h3] at h
  by_cases he : funct3 x.instr = 0b000#3 ∧ funct12 x.instr = 0#12
  · rw [if_pos he]
    refine iff_of_false nofun (not_not.mpr ⟨he.1, .inl he.2, fun hf ↦ ?_⟩)
    rw [if_pos ⟨he.1, hf⟩, if_pos he.2] at h
    cases h
  rw [if_neg he]
  by_cases hm : funct3 x.instr = 0b000#3 ∧ funct12 x.instr = mretFunct12
  · rw [if_pos hm]
    refine iff_of_false nofun (not_not.mpr ⟨hm.1, .inr hm.2, fun hf ↦ ?_⟩)
    rw [if_pos ⟨hm.1, hf⟩, if_neg (fun h0 ↦ he ⟨hm.1, h0⟩), hm.2] at h
    cases h
  rw [if_neg hm]
  exact iff_of_true rfl fun ⟨h0, h12, _⟩ ↦
    h12.elim (fun h' ↦ he ⟨h0, h'⟩) fun h' ↦ hm ⟨h0, h'⟩

-- The decoder under the names that the core has for the opcodes.
theorem decode_eq (w : Word) : decode w =
    if opcode w = Opc.opImm then
      if funct3 w = 0b000#3 then some (.addi (Rv32i.rdField w) (Rv32i.rs1Field w) (Rv32i.iImm w)) else none
    else if opcode w = Opc.op then
      (Rv32i.decodeOp w).map fun fn ↦ .op fn (Rv32i.rdField w) (Rv32i.rs1Field w) (Rv32i.rs2Field w)
    else if opcode w = Opc.load then
      if funct3 w = 0b010#3 then some (.lw (Rv32i.rdField w) (Rv32i.rs1Field w) (Rv32i.iImm w)) else none
    else if opcode w = Opc.store then
      if funct3 w = 0b010#3 then some (.sw (Rv32i.rs1Field w) (Rv32i.rs2Field w) (Rv32i.sImm w)) else none
    else if opcode w = Opc.branch then
      (Rv32i.decodeCond w).map fun cond ↦ .branch cond (Rv32i.rs1Field w) (Rv32i.rs2Field w) (Rv32i.bImm w)
    else if opcode w = Opc.jal then some (.jal (Rv32i.rdField w) (Rv32i.jImm w))
    else if opcode w = Opc.jalr then
      if funct3 w = 0b000#3 then some (.jalr (Rv32i.rdField w) (Rv32i.rs1Field w) (Rv32i.iImm w)) else none
    else if opcode w = Opc.system then Rv32i.decodeSystem w
    else if opcode w = Opc.lui then some (.lui (Rv32i.rdField w) (Rv32i.uImm w))
    else if opcode w = Opc.auipc then some (.auipc (Rv32i.rdField w) (Rv32i.uImm w))
    else none := rfl

-- The other opcodes are decoded in full: what has no encoding is illegal.
theorem illegal_of_decode_none (h : decode x.instr = none) (h0 : x.instr ≠ 0#32)
    (h1 : opcode x.instr ≠ Opc.opImm) (h2 : opcode x.instr ≠ Opc.op) (hs : opcode x.instr ≠ Opc.system) :
    x.action.trapCause = some mcauseIllegal := by
  rw [decode_eq, if_neg h1, if_neg h2] at h
  unfold ExIn.action
  rw [if_neg h1, if_neg h2]
  by_cases h3 : opcode x.instr = Opc.load
  · rw [if_pos h3] at h ⊢
    rw [loadAction, if_neg fun hf ↦ by rw [if_pos hf] at h; cases h]
    rfl
  rw [if_neg h3] at h ⊢
  by_cases h4 : opcode x.instr = Opc.store
  · rw [if_pos h4] at h ⊢
    rw [storeAction, if_neg fun hf ↦ by rw [if_pos hf] at h; cases h]
    rfl
  rw [if_neg h4] at h ⊢
  by_cases h5 : opcode x.instr = Opc.branch
  · rw [if_pos h5] at h ⊢
    rw [branchAction, branchTaken_eq_none (Option.map_eq_none_iff.mp h)]
    rfl
  rw [if_neg h5] at h ⊢
  by_cases h6 : opcode x.instr = Opc.jal
  · rw [if_pos h6] at h
    cases h
  rw [if_neg h6] at h ⊢
  by_cases h7 : opcode x.instr = Opc.jalr
  · rw [if_pos h7] at h ⊢
    rw [jalrAction, if_neg fun hf ↦ by rw [if_pos hf] at h; cases h]
    rfl
  rw [if_neg h7, if_neg hs] at h ⊢
  by_cases h8 : opcode x.instr = Opc.lui
  · rw [if_pos h8] at h
    cases h
  rw [if_neg h8] at h ⊢
  by_cases h9 : opcode x.instr = Opc.auipc
  · rw [if_pos h9] at h
    cases h
  rw [if_neg h9, if_pos h0]
  rfl

-- Outside `Misdecoded` a word without an encoding raises the illegal-instruction trap.
theorem trapCause_of_decode_none (h : decode x.instr = none) (h0 : x.instr ≠ 0#32) :
    x.action.trapCause = some mcauseIllegal ↔ ¬Misdecoded x.instr := by
  by_cases h1 : opcode x.instr = Opc.opImm
  · rw [decode_eq, if_pos h1] at h
    unfold ExIn.action
    rw [if_pos h1]
    have h3 : funct3 x.instr ≠ 0b000#3 := fun h3 ↦ by rw [if_pos h3] at h; cases h
    exact iff_of_false nofun (not_not.mpr ((misdecoded_opImm h1).mpr h3))
  by_cases h2 : opcode x.instr = Opc.op
  · rw [decode_eq, if_neg h1, if_pos h2] at h
    unfold ExIn.action
    rw [if_neg h1, if_pos h2, misdecoded_op h2, ← opAluSel_eq_none (Option.map_eq_none_iff.mp h)]
    unfold opAction
    cases opAluSel x.instr with
    | none => exact iff_of_true rfl rfl
    | some fn => exact iff_of_false nofun nofun
  by_cases hs : opcode x.instr = Opc.system
  · rw [misdecoded_system hs, action_system hs]
    have hne : opcode x.instr ≠ Opc.load ∧ opcode x.instr ≠ Opc.store ∧
        opcode x.instr ≠ Opc.branch ∧ opcode x.instr ≠ Opc.jal ∧ opcode x.instr ≠ Opc.jalr := by
      rw [hs]; decide
    obtain ⟨n1, n2, n3, n4, n5⟩ := hne
    rw [decode_eq, if_neg h1, if_neg h2, if_neg n1, if_neg n2, if_neg n3, if_neg n4, if_neg n5,
      if_pos hs] at h
    exact systemAction_of_decode_none h
  exact iff_of_true (illegal_of_decode_none h h0 h1 h2 hs) (not_misdecoded h1 h2 hs)

end QarCore
