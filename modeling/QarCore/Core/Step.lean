import QarCore.Core.Execute
import QarCore.Core.Frontend

/-!
# One clock edge of the core

Register file, CSRs, DMEM port and front end, all updated from the registers before the edge and the
signals of the combinational block.
-/

namespace QarCore

/-! ## Hazards and forwarding -/

def idUsesRs1 (w : Word) : Bool :=
  opcode w == Opc.op || opcode w == Opc.opImm || opcode w == Opc.load || opcode w == Opc.store ||
    opcode w == Opc.branch || opcode w == Opc.jalr ||
    (opcode w == Opc.system && funct3 w != 0b000#3)

def idUsesRs2 (w : Word) : Bool :=
  opcode w == Opc.op || opcode w == Opc.store || opcode w == Opc.branch

def loadUseHazard (s : Core) : Bool :=
  let id := s.front.id
  let hazardLoadRs1 := s.dmem.pending && s.dmem.isLoad && idUsesRs1 id.instr &&
    rs1 id.instr != 0#5 && rs1 id.instr == s.dmem.rd
  let hazardLoadRs2 := s.dmem.pending && s.dmem.isLoad && idUsesRs2 id.instr &&
    rs2 id.instr != 0#5 && rs2 id.instr == s.dmem.rd
  id.valid && (hazardLoadRs1 || hazardLoadRs2)

def wbEnForward (s : Core) (c : ExCtl) : Bool :=
  s.front.ex.valid && !c.stallEx && c.rfWe && c.rfWaddr != 0#5

/-- `forward_rs1`/`forward_rs2`: the word EX writes back in this cycle, or the register file. -/
def forward (s : Core) (c : ExCtl) (r : RegIdx) (uses : Bool) : Word :=
  let raddr := if s.front.id.valid then r else 0#5
  if wbEnForward s c && c.rfWaddr == r && uses then c.wdata else regRead s.regs raddr

def frontWires (s : Core) (i : Inputs) (c : ExCtl) : FrontWires where
  flush := c.trap.request || c.flushPipe
  redirect := if c.trap.request then c.trap.target else c.branchTarget
  imemReady := i.imemReady
  imemRdata := i.imemRdata
  stallEx := c.stallEx
  loadUseHazard := loadUseHazard s
  forwardRs1 := forward s c (rs1 s.front.id.instr) (idUsesRs1 s.front.id.instr)
  forwardRs2 := forward s c (rs2 s.front.id.instr) (idUsesRs2 s.front.id.instr)

/-! ## DMEM port -/

def dmemNext (d : DmemPort) (m : MemStart) (memReady : Bool) : DmemPort :=
  if m.start && !d.pending then
    { memReqValid := true, memReqWe := !m.isLoad, memReqAddr := m.addr, memReqWdata := m.wdata,
      pending := true, isLoad := m.isLoad, rd := m.rd }
  else if d.pending && memReady then { d with memReqValid := false, pending := false }
  else d

/-- The port while the transaction `m` is outstanding. -/
def DmemPort.issued (m : MemStart) : DmemPort :=
  ⟨true, !m.isLoad, m.addr, m.wdata, true, m.isLoad, m.rd⟩

-- `mem_req_valid` and `dmem_pending` are set and cleared together.
theorem dmemNext_reqValid {d : DmemPort} {m : MemStart} {memReady : Bool}
    (h : d.memReqValid = d.pending) :
    (dmemNext d m memReady).memReqValid = (dmemNext d m memReady).pending := by
  unfold dmemNext
  split_ifs
  · rfl
  · rfl
  · exact h

-- An outstanding transaction was just started or has not been answered.
theorem dmemNext_cases {d : DmemPort} {m : MemStart} {memReady : Bool}
    (h : (dmemNext d m memReady).pending) :
    (m.start ∧ d.pending = false ∧ dmemNext d m memReady = .issued m) ∨
      (d.pending ∧ memReady = false ∧ dmemNext d m memReady = d) := by
  unfold dmemNext at h ⊢
  by_cases hs : m.start && !d.pending
  · rw [if_pos hs]
    simp only [Bool.and_eq_true, Bool.not_eq_true'] at hs
    exact .inl ⟨hs.1, hs.2, rfl⟩
  · rw [if_neg hs] at h ⊢
    by_cases hr : d.pending && memReady
    · rw [if_pos hr] at h
      cases h
    · rw [if_neg hr] at h ⊢
      rw [h, Bool.true_and, Bool.not_eq_true] at hr
      exact .inr ⟨h, hr, rfl⟩

/-! ## CSRs -/

/-- `if (csr_write_en) case (csr_write_addr) ...` on the CSRs without a hardware writer. -/
def csrWriteRegs (w : CsrWrite) (n : Csr) : Csr :=
  if !w.en then n
  else if w.addr = CsrAddr.mstatus then { n with mstatus := w.data }
  else if w.addr = CsrAddr.mtvec then { n with mtvec := w.data }
  else if w.addr = CsrAddr.mepc then { n with mepc := w.data }
  else if w.addr = CsrAddr.mcause then { n with mcause := w.data }
  else if w.addr = CsrAddr.mie then { n with mie := w.data }
  else if w.addr = CsrAddr.mtimecmp then { n with mtimecmp := w.data }
  else if w.addr = CsrAddr.irqPriority then { n with irqPriority := w.data.getLsbD 0 }
  else n

theorem csrWriteRegs_of_not_en {w : CsrWrite} {n : Csr} (h : w.en = false) :
    csrWriteRegs w n = n := by
  unfold csrWriteRegs
  rw [h]; rfl

def trapEntry (old : Csr) (cause mepcValue : Word) (n : Csr) : Csr :=
  { n with
    mepc := mepcValue
    mcause := cause
    mstatus := setBit (setBit n.mstatus 7 (old.mstatus.getLsbD 3)) 3 false }

def mretRestore (old n : Csr) : Csr :=
  { n with mstatus := setBit (setBit n.mstatus 3 (old.mstatus.getLsbD 7)) 7 true }

def isMret (w : Word) : Bool :=
  opcode w == Opc.system && funct3 w == 0b000#3 && funct12 w == mretFunct12

def csrNext (s : Core) (c : ExCtl) : Csr :=
  let n := csrWriteRegs c.csr s.csr
  if c.trap.request then trapEntry s.csr c.trap.cause c.trap.mepcValue n
  else if s.front.ex.valid && isMret s.front.ex.instr && !c.illegalInstr then mretRestore s.csr n
  else n

/-- `csr_mip`: a write replaces it, otherwise the two trigger levels are sampled; `irqack` clears
the external bit. -/
def mipNext (s : Core) (i : Inputs) (c : ExCtl) : Word :=
  let n :=
    if c.csr.en && c.csr.addr == CsrAddr.mip then c.csr.data
    else setBit (setBit s.mip 7 (timerTriggerLevel s i)) 11 (externalTriggerLevel i)
  if c.csr.en && c.csr.addr == CsrAddr.irqAck && c.csr.data.getLsbD 1 then setBit n 11 false else n

def mtimeNext (s : Core) (c : ExCtl) : Word :=
  if c.csr.en && c.csr.addr == CsrAddr.mtime then c.csr.data else s.mtime + 1#32

/-! ## The edge -/

/-- `always @(posedge clk)` with `rst_n` high. -/
def posedge (cfg : Config) (s : Core) (i : Inputs) : Core :=
  let c := control s i
  { front := s.front.next cfg (frontWires s i c)
    dmem := dmemNext s.dmem c.mem i.memReady
    csr := csrNext s c
    mip := mipNext s i c
    mtime := mtimeNext s c
    irqTimerAck := c.csr.en && c.csr.addr == CsrAddr.irqAck && c.csr.data.getLsbD 0
    irqExternalAck := c.csr.en && c.csr.addr == CsrAddr.irqAck && c.csr.data.getLsbD 1
    regs := regWrite s.regs c.rfWe c.rfWaddr c.wdata }

/-! ## Outputs -/

/-- `<p>_read_en`: the combinational read strobe of a peripheral. -/
def readEn (c : ExCtl) (p : Periph) : Bool := c.periph.start == some p && c.periph.isLoad

/-- `<p>_write_en` -/
def writeEn (c : ExCtl) (p : Periph) : Bool := c.periph.start == some p && !c.periph.isLoad

/-- A strobe of either kind in this cycle. -/
def strobe (c : ExCtl) (p : Periph) : Bool := readEn c p || writeEn c p

end QarCore
