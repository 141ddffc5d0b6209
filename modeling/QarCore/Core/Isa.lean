import QarCore.Core.Decode
import QarCore.Core.Refinement

/-!
# EX executes the instruction set

What one cycle of EX does for an encoded instruction, compared with the effect the instruction set
gives it, and the exact set of words for which EX and the instruction set disagree.
-/

namespace QarCore

universe u

open Rv32i (Instr decode)

variable {M : Type u} {cfg : Config} {s : Core} {i : Inputs} {x : ExIn} {instr : Instr}

/-- The CSRs and the data memory as the platform of a hart; `mip` and `mtime` answer as `v` says. -/
def platform (d : DataMem M) (v : Volatile) : Rv32i.Platform Csr M where
  csrRead c := csrRead c v.mip v.mtime
  csrWrite c addr data := csrWriteRegs ⟨true, addr, data⟩ c
  tvec := Csr.mtvec
  epc := Csr.mepc
  trap c cause pc := trapEntry c cause pc c
  mret c := mretRestore c c
  load := d.read
  store := d.write

/-! ## Actions and effects -/

/-- The effect of an instruction on the operands of EX. -/
def ExIn.effect (x : ExIn) (instr : Instr) : Rv32i.Effect := Rv32i.effect x.operands instr

theorem loadFrom_nextPc {addr pc mtvec : Word} :
    (loadFrom x addr).nextPc pc mtvec = pc + 4#32 := by
  unfold loadFrom
  cases windowOf addr <;> rfl

theorem storeTo_nextPc {addr data pc mtvec : Word} :
    (storeTo addr data).nextPc pc mtvec = pc + 4#32 := by
  unfold storeTo
  cases windowOf addr <;> rfl

theorem actionOf_nextPc : (actionOf x instr).nextPc x.pc x.csr.mtvec = (x.effect instr).nextPc := by
  cases instr with
  | branch cond rs1 rs2 imm =>
    change (if cond.holds x.rs1Val x.rs2Val then Action.jump _ _ else .nop).nextPc _ _ =
      if cond.holds x.rs1Val x.rs2Val then _ else _
    cases cond.holds x.rs1Val x.rs2Val <;> rfl
  | lw rd rs1 imm => exact loadFrom_nextPc
  | sw rs1 rs2 imm => exact storeTo_nextPc
  | csr fn rd rs1 addr => cases fn <;> rfl
  | _ => rfl

theorem aluOpOf_apply (fn : Rv32i.OpFn) (a b : Word) : alu a b (aluOpOf fn) = fn.apply a b := by
  have hsh : (b.extractLsb' 0 5).toNat = b.toNat % 32 := by
    rw [BitVec.extractLsb'_toNat, Nat.shiftRight_zero]
  cases fn <;> simp only [aluOpOf, alu, Rv32i.OpFn.apply, hsh]

-- An instruction without an access shows its result on the write port.
theorem actionOf_rfOut (h : decode x.instr = some instr) (ha : (x.effect instr).access = none)
    (d : DataMem M) (m : M) :
    (actionOf x instr).rfOut d m x.instr =
      if instr.rd = 0#5 then none else (x.effect instr).result.map (instr.rd, ·) := by
  have hrd : instr.hasRd → rd x.instr = instr.rd := fun hr ↦ by
    have := Rv32i.Instr.rdField_encode hr
    rwa [Rv32i.encode_decode h] at this
  cases instr with
  | op fn rd rs1 rs2 =>
    unfold Action.rfOut
    rw [hrd rfl]
    change (if _ then none else (some (alu x.rs1Val x.rs2Val (aluOpOf fn))).map _) = _
    rw [aluOpOf_apply]
    rfl
  | csr fn rd rs1 addr =>
    unfold Action.rfOut
    rw [hrd rfl]
    cases fn <;> rfl
  | branch cond rs1 rs2 imm =>
    have hnone : (actionOf x (.branch cond rs1 rs2 imm)).wb d m = none := by
      change (if cond.holds x.rs1Val x.rs2Val then Action.jump _ _ else .nop).wb d m = none
      cases cond.holds x.rs1Val x.rs2Val <;> rfl
    simp [Action.rfOut, hnone, Rv32i.Instr.rd]
  | lw rd rs1 imm => cases ha
  | sw rs1 rs2 imm => cases ha
  | ecall => simp [Action.rfOut, actionOf, Action.wb, Rv32i.Instr.rd]
  | mret => simp [Action.rfOut, actionOf, Action.wb, Rv32i.Instr.rd]
  | _ =>
    unfold Action.rfOut
    rw [hrd rfl]
    rfl

theorem loadFrom_csrWrite {addr w : Word} : (loadFrom x addr).csrWrite w = ⟨false, 0, 0⟩ := by
  unfold loadFrom
  cases windowOf addr <;> rfl

theorem storeTo_csrWrite {addr data w : Word} :
    (storeTo addr data).csrWrite w = ⟨false, 0, 0⟩ := by
  unfold storeTo
  cases windowOf addr <;> rfl

theorem actionOf_csrOut (h : decode x.instr = some instr) :
    (actionOf x instr).csrOut x.instr = (x.effect instr).csrWrite := by
  cases instr with
  | csr fn rd rs1 addr =>
    have haddr : funct12 x.instr = addr := by
      have := Rv32i.Instr.iImm_encode_csr fn rd rs1 addr
      rwa [Rv32i.encode_decode h] at this
    unfold Action.csrOut
    cases fn with
    | rw => simp [actionOf, Action.csrWrite, haddr]; rfl
    | rs =>
      by_cases hz : rs1 = 0#5 <;> simp [actionOf, Action.csrWrite, haddr, ExIn.effect,
        Rv32i.effect, Rv32i.CsrFn.written, hz]
      rfl
    | rc =>
      by_cases hz : rs1 = 0#5 <;> simp [actionOf, Action.csrWrite, haddr, ExIn.effect,
        Rv32i.effect, Rv32i.CsrFn.written, hz]
      rfl
  | branch cond rs1 rs2 imm =>
    change (if cond.holds x.rs1Val x.rs2Val then Action.jump _ _ else .nop).csrOut _ = none
    cases cond.holds x.rs1Val x.rs2Val <;> rfl
  | lw rd rs1 imm =>
    change (loadFrom x _).csrOut _ = none
    simp [Action.csrOut, loadFrom_csrWrite]
  | sw rs1 rs2 imm =>
    change (storeTo _ _).csrOut _ = none
    simp [Action.csrOut, storeTo_csrWrite]
  | _ => rfl

-- The CSRs after an action that neither traps nor returns, from what it shows.
theorem Action.nextCsr_of_quiet {act : Action} (ht : act.trapCause = none)
    (hm : act.isMret = false) (w pc : Word) (old : Csr) :
    act.nextCsr w pc old =
      (act.csrOut w).elim old fun o ↦ csrWriteRegs ⟨true, o.1, o.2⟩ old := by
  unfold Action.nextCsr Action.csrOut
  rw [ht, hm]
  cases hen : (act.csrWrite w).en
  · exact csrWriteRegs_of_not_en hen
  · have hw : act.csrWrite w = ⟨true, (act.csrWrite w).addr, (act.csrWrite w).data⟩ := by
      rw [← hen]
    change csrWriteRegs (act.csrWrite w) old = csrWriteRegs _ old
    rw [← hw]

theorem actionOf_quiet (he : (x.effect instr).system = none) :
    (actionOf x instr).trapCause = none ∧ (actionOf x instr).isMret = false := by
  cases instr with
  | branch cond rs1 rs2 imm =>
    change (if cond.holds x.rs1Val x.rs2Val then Action.jump _ _ else .nop).trapCause = none ∧
      (if cond.holds x.rs1Val x.rs2Val then Action.jump _ _ else .nop).isMret = false
    cases cond.holds x.rs1Val x.rs2Val <;> exact ⟨rfl, rfl⟩
  | lw rd rs1 imm =>
    change (loadFrom x _).trapCause = none ∧ (loadFrom x _).isMret = false
    unfold loadFrom
    cases windowOf (x.rs1Val + imm.signExtend 32) <;> exact ⟨rfl, rfl⟩
  | sw rs1 rs2 imm =>
    change (storeTo _ _).trapCause = none ∧ (storeTo _ _).isMret = false
    unfold storeTo
    cases windowOf (x.rs1Val + imm.signExtend 32) <;> exact ⟨rfl, rfl⟩
  | csr fn rd rs1 addr => cases fn <;> exact ⟨rfl, rfl⟩
  | ecall => cases he
  | mret => cases he
  | _ => exact ⟨rfl, rfl⟩

theorem actionOf_nextCsr (h : decode x.instr = some instr) (d : DataMem M) (v : Volatile) :
    (actionOf x instr).nextCsr x.instr x.pc x.csr =
      Rv32i.csrsAfter (platform d v) (x.effect instr) x.pc x.csr := by
  cases hs : (x.effect instr).system with
  | none =>
    obtain ⟨ht, hm⟩ := actionOf_quiet hs
    rw [Action.nextCsr_of_quiet ht hm, actionOf_csrOut h, Rv32i.csrsAfter, hs]
    rfl
  | some fn =>
    cases instr with
    | ecall => cases hs; rfl
    | mret => cases hs; rfl
    | _ => cases hs

/-! ## One cycle of EX -/

/-- Where the instruction in EX continues. -/
def exSuccessor (s : Core) (i : Inputs) : Word :=
  if (control s i).trap.request || (control s i).flushPipe then
    (frontWires s i (control s i)).redirect
  else s.front.ex.pc + 4#32

/-- The cycle in which `instr` executes, with no transaction outstanding. -/
structure Executes (cfg : Config) (s : Core) (i : Inputs) (instr : Instr) : Prop where
  nextPc : exSuccessor s i = ((exIn s i).effect instr).nextPc
  csr : csrObs s i = ((exIn s i).effect instr).csrWrite
  csrs : ∀ (M : Type) (d : DataMem M), (posedge cfg s i).csr =
    Rv32i.csrsAfter (platform d (volatileOf s i)) ((exIn s i).effect instr) s.front.ex.pc s.csr
  mip : ∀ v, ((exIn s i).effect instr).csrWrite = some (CsrAddr.mip, v) →
    (posedge cfg s i).mip = v
  mtime : ∀ v, ((exIn s i).effect instr).csrWrite = some (CsrAddr.mtime, v) →
    (posedge cfg s i).mtime = v
  plain : ((exIn s i).effect instr).access = none →
    rfObs s i =
        (if instr.rd = 0#5 then none else ((exIn s i).effect instr).result.map (instr.rd, ·)) ∧
      periphObs s i = none ∧ (control s i).mem.start = false ∧ exLeaves s i
  load : ∀ addr, ((exIn s i).effect instr).access = some (.load addr) →
    match windowOf addr with
    | some p =>
      rfObs s i = (if instr.rd = 0#5 then none else some (instr.rd, i.periphRdata p)) ∧
        periphObs s i = some ⟨some p, true, addr, 0⟩ ∧ (control s i).mem.start = false ∧
        exLeaves s i
    | none =>
      rfObs s i = none ∧ periphObs s i = none ∧
        (posedge cfg s i).dmem = .issued ⟨true, true, addr, 0, instr.rd⟩ ∧ exLeaves s i = false
  store : ∀ addr data, ((exIn s i).effect instr).access = some (.store addr data) →
    match windowOf addr with
    | some p =>
      rfObs s i = none ∧ periphObs s i = some ⟨some p, false, addr, data⟩ ∧
        (control s i).mem.start = false ∧ exLeaves s i
    | none =>
      rfObs s i = none ∧ periphObs s i = none ∧
        (∃ r, (posedge cfg s i).dmem = .issued ⟨true, false, addr, data, r⟩) ∧
        exLeaves s i = false

/-- The later cycles of an access: it waits for its own transaction and leaves with the answer. -/
structure Completes (s : Core) (i : Inputs) (instr : Instr) : Prop where
  load : ∀ addr, ((exIn s i).effect instr).access = some (.load addr) → windowOf addr = none →
    s.dmem = .issued ⟨true, true, addr, 0, instr.rd⟩ →
    exLeaves s i = i.memReady ∧
      rfObs s i = if i.memReady ∧ instr.rd ≠ 0#5 then some (instr.rd, i.memRdata) else none
  store : ∀ addr data r, ((exIn s i).effect instr).access = some (.store addr data) →
    windowOf addr = none → s.dmem = .issued ⟨true, false, addr, data, r⟩ →
    exLeaves s i = i.memReady ∧ rfObs s i = none

/-- The illegal-instruction trap of the instruction in EX. -/
structure TrapsIllegal (cfg : Config) (s : Core) (i : Inputs) : Prop where
  request : (control s i).trap = ⟨true, s.csr.mtvec, mcauseIllegal, s.front.ex.pc⟩
  cause : (posedge cfg s i).csr.mcause = mcauseIllegal
  mepc : (posedge cfg s i).csr.mepc = s.front.ex.pc
  vector : (posedge cfg s i).front.pcFetch = s.csr.mtvec

/-- EX treats the word `w` as the instruction set says, in every state that has it in EX. -/
def DecodesRight (w : Word) : Prop :=
  ∀ (cfg : Config) (s : Core) (i : Inputs), s.front.ex.valid → s.front.ex.instr = w →
    match decode w with
    | some instr => irqTaken s i = false →
        (s.dmem.pending = false → Executes cfg s i instr) ∧ Completes s i instr
    | none => TrapsIllegal cfg s i

/-! ## EX meets the instruction set -/

theorem exSuccessor_own (hq : irqTaken s i = false) (hv : s.front.ex.valid) :
    exSuccessor s i = (exAction s i).nextPc s.front.ex.pc s.csr.mtvec := by
  unfold exSuccessor
  rw [control_flush, hq, hv, Bool.false_or, Bool.true_and]
  cases hred : (exAction s i).traps || (exAction s i).redirects
  · rw [Bool.or_eq_false_iff] at hred
    exact (Action.nextPc_of_quiet hred.1 hred.2 _ _).symm
  · exact redirect_own hq hv hred

-- A DMEM access that finds the port free puts its transaction on it.
theorem posedge_dmem_start {act : Action} (hv : s.front.ex.valid) (hp : s.dmem.pending = false)
    (hact : exAction s i = act) (hm : act.isMem) :
    (posedge cfg s i).dmem = .issued (act.memStart s.front.ex.instr) := by
  have hmem : (control s i).mem = act.memStart s.front.ex.instr := by
    rw [control_mem, decodeCtl_eq hv, Action.ctl_mem, hact]
    change (if s.dmem.pending then _ else _) = _
    rw [hp]; rfl
  change dmemNext s.dmem (control s i).mem i.memReady = _
  rw [hmem, dmemNext, act.memStart_start, hm, hp]
  rfl

theorem exAction_of_decode (h : decode s.front.ex.instr = some instr) :
    exAction s i = actionOf (exIn s i) instr :=
  action_of_decode (x := exIn s i) h

theorem rd_of_decode {w : Word} (h : decode w = some instr) (hr : instr.hasRd) :
    rd w = instr.rd := by
  have := Rv32i.Instr.rdField_encode hr
  rwa [Rv32i.encode_decode h] at this

-- Only `lw` loads and only `sw` stores.
theorem actionOf_load {addr : Word} (h : (x.effect instr).access = some (.load addr)) :
    actionOf x instr = loadFrom x addr ∧ instr.hasRd := by
  cases instr with
  | lw rd rs1 imm => cases h; exact ⟨rfl, rfl⟩
  | _ => cases h

theorem actionOf_store {addr data : Word}
    (h : (x.effect instr).access = some (.store addr data)) :
    actionOf x instr = storeTo addr data := by
  cases instr with
  | sw rs1 rs2 imm => cases h; rfl
  | _ => cases h

theorem actionOf_plain (h : (x.effect instr).access = none) :
    (actionOf x instr).isMem = false ∧ (actionOf x instr).periphOut = none := by
  cases instr with
  | branch cond rs1 rs2 imm =>
    change (if cond.holds x.rs1Val x.rs2Val then Action.jump _ _ else .nop).isMem = false ∧
      (if cond.holds x.rs1Val x.rs2Val then Action.jump _ _ else .nop).periphOut = none
    cases cond.holds x.rs1Val x.rs2Val <;> exact ⟨rfl, rfl⟩
  | lw rd rs1 imm => cases h
  | sw rs1 rs2 imm => cases h
  | csr fn rd rs1 addr => cases fn <;> exact ⟨rfl, rfl⟩
  | _ => exact ⟨rfl, rfl⟩

-- An instruction that needs no transaction leaves EX in its cycle.
theorem direct_cycle (hv : s.front.ex.valid) (hq : irqTaken s i = false) (hp : s.dmem.pending = false)
    (hm : (exAction s i).isMem = false) : (control s i).mem.start = false ∧ exLeaves s i := by
  constructor
  · rw [control_mem_eq, hm, Bool.and_false]
  · rw [exLeaves_of_not_pending hq hv hp, hm]
    rfl

-- An instruction that starts one shows nothing yet and stays.
theorem access_cycle (hv : s.front.ex.valid) (hq : irqTaken s i = false) (hp : s.dmem.pending = false)
    (hm : (exAction s i).isMem) : rfObs s i = none ∧ periphObs s i = none ∧ exLeaves s i = false := by
  refine ⟨rfObs_isMem (loadCommit_of_not_pending hp) hm, ?_, ?_⟩
  · rw [periphObs_eq, hv, if_pos rfl]
    exact Action.periphOut_of_isMem hm
  · rw [exLeaves_of_not_pending hq hv hp, hm]
    rfl

section

variable (hv : s.front.ex.valid) (h : decode s.front.ex.instr = some instr) (hq : irqTaken s i = false)
  (hp : s.dmem.pending = false)

include hv h hq hp

theorem plain_of_decode (ha : ((exIn s i).effect instr).access = none) : rfObs s i =
        (if instr.rd = 0#5 then none else ((exIn s i).effect instr).result.map (instr.rd, ·)) ∧
      periphObs s i = none ∧ (control s i).mem.start = false ∧ exLeaves s i := by
  have hact := exAction_of_decode (i := i) h
  obtain ⟨hm, hper⟩ := actionOf_plain ha
  rw [← hact] at hm hper
  refine ⟨?_, ?_, direct_cycle hv hq hp hm⟩
  · rw [rfObs_own (loadCommit_of_not_pending hp) hv hm (M := Unit) ⟨fun _ _ ↦ 0, fun _ _ _ ↦ ()⟩ (), hact]
    exact actionOf_rfOut (x := exIn s i) h ha _ _
  · rw [periphObs_eq, hv, hper]
    rfl

theorem load_of_decode {addr : Word} (ha : ((exIn s i).effect instr).access = some (.load addr)) :
    match windowOf addr with
    | some p =>
      rfObs s i = (if instr.rd = 0#5 then none else some (instr.rd, i.periphRdata p)) ∧
        periphObs s i = some ⟨some p, true, addr, 0⟩ ∧ (control s i).mem.start = false ∧
        exLeaves s i
    | none =>
      rfObs s i = none ∧ periphObs s i = none ∧
        (posedge cfg s i).dmem = .issued ⟨true, true, addr, 0, instr.rd⟩ ∧ exLeaves s i = false := by
  have hact := exAction_of_decode (i := i) h
  obtain ⟨hl, hr⟩ := actionOf_load ha
  have hrd := rd_of_decode h hr
  rw [hl] at hact
  unfold loadFrom at hact
  cases hw : windowOf addr with
  | some p =>
    rw [hw] at hact
    have hm : (exAction s i).isMem = false := by rw [hact]; rfl
    refine ⟨?_, ?_, direct_cycle hv hq hp hm⟩
    · rw [rfObs_own (loadCommit_of_not_pending hp) hv hm (M := Unit) ⟨fun _ _ ↦ 0, fun _ _ _ ↦ ()⟩ (), hact,
        Action.rfOut, hrd]
      rfl
    · rw [periphObs_eq, hv, hact]
      rfl
  | none =>
    rw [hw] at hact
    obtain ⟨hrf, hper, hstays⟩ := access_cycle hv hq hp (by rw [hact]; rfl)
    refine ⟨hrf, hper, ?_, hstays⟩
    rw [posedge_dmem_start hv hp hact rfl, Action.memStart, hrd]

theorem store_of_decode {addr data : Word}
    (ha : ((exIn s i).effect instr).access = some (.store addr data)) :
    match windowOf addr with
    | some p =>
      rfObs s i = none ∧ periphObs s i = some ⟨some p, false, addr, data⟩ ∧
        (control s i).mem.start = false ∧ exLeaves s i
    | none =>
      rfObs s i = none ∧ periphObs s i = none ∧
        (∃ r, (posedge cfg s i).dmem = .issued ⟨true, false, addr, data, r⟩) ∧
        exLeaves s i = false := by
  have hact := exAction_of_decode (i := i) h
  rw [actionOf_store ha] at hact
  unfold storeTo at hact
  cases hw : windowOf addr with
  | some p =>
    rw [hw] at hact
    have hm : (exAction s i).isMem = false := by rw [hact]; rfl
    refine ⟨?_, ?_, direct_cycle hv hq hp hm⟩
    · rw [rfObs_own (loadCommit_of_not_pending hp) hv hm (M := Unit) ⟨fun _ _ ↦ 0, fun _ _ _ ↦ ()⟩ (), hact]
      simp [Action.rfOut, Action.wb]
    · rw [periphObs_eq, hv, hact]
      rfl
  | none =>
    rw [hw] at hact
    obtain ⟨hrf, hper, hstays⟩ := access_cycle hv hq hp (by rw [hact]; rfl)
    exact ⟨hrf, hper, ⟨_, posedge_dmem_start hv hp hact rfl⟩, hstays⟩

theorem executes_of_decode : Executes cfg s i instr := by
  have hact := exAction_of_decode (i := i) h
  have hcsr : csrObs s i = ((exIn s i).effect instr).csrWrite := by
    rw [csrObs_eq, hv, hact]
    exact actionOf_csrOut (x := exIn s i) h
  have hwrite : ∀ {o}, csrObs s i = some o → (control s i).csr = ⟨true, o.1, o.2⟩ := fun ho ↦ by
    unfold csrObs at ho
    simp only at ho
    split at ho
    · rename_i hen
      cases ho
      change (control s i).csr = ⟨true, (control s i).csr.addr, (control s i).csr.data⟩
      rw [← hen]
    · cases ho
  constructor
  case nextPc =>
    rw [exSuccessor_own hq hv, hact]
    exact actionOf_nextPc (x := exIn s i)
  case csr => exact hcsr
  case csrs =>
    intro M d
    change csrNext s (control s i) = _
    rw [csrNext_own hq hv, hact]
    exact actionOf_nextCsr (x := exIn s i) h d _
  case mip =>
    intro v hw
    have hc := hwrite (hcsr.trans hw)
    change mipNext s i (control s i) = v
    unfold mipNext
    rw [hc]
    rfl
  case mtime =>
    intro v hw
    have hc := hwrite (hcsr.trans hw)
    change mtimeNext s (control s i) = v
    unfold mtimeNext
    rw [hc]
    rfl
  case plain => exact fun ha ↦ plain_of_decode hv h hq hp ha
  case load => exact fun addr ha ↦ load_of_decode hv h hq hp ha
  case store => exact fun addr data ha ↦ store_of_decode hv h hq hp ha

end

theorem completes_of_decode (hv : s.front.ex.valid) (h : decode s.front.ex.instr = some instr)
    (hq : irqTaken s i = false) : Completes s i instr := by
  have hact := exAction_of_decode (i := i) h
  refine ⟨fun addr ha hw hd ↦ ?_, fun addr data r ha hw hd ↦ ?_⟩
  · rw [(actionOf_load ha).1, loadFrom, hw] at hact
    have hm : (exAction s i).isMem := by rw [hact]; rfl
    have hleave : exLeaves s i = i.memReady := by
      rw [exLeaves_of_isMem hq hv hm, hd]
      rfl
    refine ⟨hleave, ?_⟩
    cases hr : i.memReady
    · have hlc : loadCommit s i = false := by simp [loadCommit, hr]
      simp [rfObs_isMem hlc hm]
    · have hlc : loadCommit s i = true := by simp [loadCommit, hr, hd, DmemPort.issued]
      rw [rfObs_of_loadCommit hlc, hd]
      by_cases hz : instr.rd = 0#5 <;> simp [DmemPort.issued, hz]
  · rw [actionOf_store ha, storeTo, hw] at hact
    have hm : (exAction s i).isMem := by rw [hact]; rfl
    have hlc : loadCommit s i = false := by simp [loadCommit, hd, DmemPort.issued]
    refine ⟨?_, rfObs_isMem hlc hm⟩
    rw [exLeaves_of_isMem hq hv hm, hd]
    rfl

-- The trap of an illegal word needs no help from the rest of the core.
theorem trapsIllegal_of_cause (hv : s.front.ex.valid)
    (hc : (exAction s i).trapCause = some mcauseIllegal) : TrapsIllegal cfg s i := by
  have hq : irqTaken s i = false := by
    have ht : (exAction s i).traps := by simp [Action.traps, hc]
    rw [irqTaken, ownTrap_eq, hv, ht]
    rfl
  have hreq := control_trap_own hq hv hc
  have hcsr : (posedge cfg s i).csr =
      (exAction s i).nextCsr s.front.ex.instr s.front.ex.pc s.csr := csrNext_own hq hv
  have hflush : (frontWires s i (control s i)).flush := by
    change ((control s i).trap.request || _) = true
    rw [hreq]
    rfl
  refine ⟨hreq, ?_, ?_, ?_⟩
  · rw [hcsr, Action.nextCsr, hc]
    rfl
  · rw [hcsr, Action.nextCsr, hc]
    rfl
  · change (s.front.next cfg (frontWires s i (control s i))).pcFetch = _
    rw [Front.next_flush hflush]
    change (if (control s i).trap.request then (control s i).trap.target else _) = _
    rw [hreq]
    rfl

/-! ## The words that are decoded right -/

/-- A core with the word `w` in EX and nothing else in flight, after reset. -/
def coreWith (w : Word) : Core :=
  { Core.reset (fun _ ↦ 0) with front := { Front.reset with ex := ⟨true, w, 0, 0, 0⟩ } }

def quietInputs : Inputs := ⟨false, 0, false, 0, false, false, fun _ ↦ false, fun _ ↦ 0⟩

theorem coreWith_irqTaken (w : Word) : irqTaken (coreWith w) quietInputs = false :=
  irqTaken_of_masked (BitVec.getLsbD_zero)

-- No misdecoded word has an encoding.
theorem decode_of_misdecoded {w : Word} (h : Misdecoded w) : decode w = none := by
  rcases h with ⟨ho, h3⟩ | ⟨ho, hl⟩ | ⟨ho, hl⟩
  · have ho' : Rv32i.opcode w = 0b0010011#7 := ho
    have h3' : ¬Rv32i.funct3 w = 0b000#3 := h3
    simp [decode, ho', h3']
  · have ho' : Rv32i.opcode w = 0b0110011#7 := ho
    have hnone : Rv32i.decodeOp w = none := by
      cases hd : Rv32i.decodeOp w with
      | none => rfl
      | some fn =>
        obtain ⟨h3, h7⟩ := Rv32i.decodeOp_eq_some.mp hd
        change fn.funct3 = funct3 w at h3
        change fn.funct7 = funct7 w at h7
        unfold LooseOp at hl
        rw [← h3, ← h7] at hl
        revert hl
        cases fn <;> decide
    simp [decode, ho', hnone]
  · have ho' : Rv32i.opcode w = 0b1110011#7 := ho
    obtain ⟨h3, -, hf⟩ := hl
    have h3' : Rv32i.funct3 w = 0b000#3 := h3
    have hf' : ¬(Rv32i.rs1Field w = 0#5 ∧ Rv32i.rdField w = 0#5) := hf
    simp [decode, ho', Rv32i.decodeSystem, h3', hf']

/-- EX executes or rejects a word as the instruction set says, except for the words of
`Misdecoded`, which run as an instruction they do not encode. -/
theorem decodesRight_iff (w : Word) (h0 : w ≠ 0#32) : DecodesRight w ↔ ¬Misdecoded w := by
  constructor
  · intro hr hm
    have hspec := hr .noCache (coreWith w) quietInputs rfl rfl
    rw [decode_of_misdecoded hm] at hspec
    have hx : (exIn (coreWith w) quietInputs).instr = w := rfl
    have hnot := mt (trapCause_of_decode_none (x := exIn (coreWith w) quietInputs)
      (by rw [hx]; exact decode_of_misdecoded hm) (by rw [hx]; exact h0)).mp
      (not_not.mpr (by rw [hx]; exact hm))
    -- the action does not trap as illegal, so neither does the core
    have hreq := hspec.request
    cases htr : (exAction (coreWith w) quietInputs).trapCause with
    | none =>
      have hno : (control (coreWith w) quietInputs).trap.request = false := by
        rw [control_trap_request, ownTrap_eq, coreWith_irqTaken]
        simp [Action.traps, htr]
      rw [hreq] at hno
      cases hno
    | some cause =>
      rw [control_trap_own (coreWith_irqTaken w) rfl htr] at hreq
      have hc := congrArg Trap.cause hreq
      change cause = mcauseIllegal at hc
      exact hnot (htr.trans (by rw [hc]))
  · intro hm cfg s i hv hw
    cases hd : decode w with
    | some instr =>
      intro hq
      rw [← hw] at hd
      exact ⟨fun hp ↦ executes_of_decode hv hd hq hp, completes_of_decode hv hd hq⟩
    | none =>
      refine trapsIllegal_of_cause hv ?_
      have hx : (exIn s i).instr = w := hw
      exact (trapCause_of_decode_none (x := exIn s i) (by rw [hx]; exact hd)
        (by rw [hx]; exact h0)).mpr (by rw [hx]; exact hm)

/-- `ADDI x0, x0, 0` is decoded right. -/
theorem decodesRight_iff_nop :
    0x13#32 ≠ 0#32 ∧ (DecodesRight 0x13#32 ↔ ¬Misdecoded 0x13#32) :=
  ⟨by decide, decodesRight_iff 0x13#32 (by decide)⟩

/-- `ANDI x1, x1, 7` has no encoding here, and EX adds 7 to `x1` instead of trapping. -/
theorem andi_not_decodesRight : 0x0070F093#32 ≠ 0#32 ∧ ¬DecodesRight 0x0070F093#32 := by
  refine ⟨by decide, fun h ↦ ?_⟩
  have hspec := h .noCache (coreWith 0x0070F093#32) quietInputs rfl rfl
  have hnone : decode 0x0070F093#32 = none := by decide
  rw [hnone] at hspec
  have hno : (control (coreWith 0x0070F093#32) quietInputs).trap.request = false := by decide
  rw [hspec.request] at hno
  cases hno

end QarCore
