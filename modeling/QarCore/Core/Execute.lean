import QarCore.Core.State

/-!
# The EX stage

The combinational decode/execute block: one arm per opcode over the default values, then the
overrides that follow the `case` (load commit, illegal-instruction trap, interrupts).
-/

namespace QarCore

/-! ## ALU -/

/-- The seven codes of `alu_op`; the core never drives another one. -/
inductive AluOp
  | add | sub | and | or | xor | sll | srl
  deriving DecidableEq, Repr

def alu (opA opB : Word) : AluOp → Word
  | .add => opA + opB
  | .sub => opA - opB
  | .and => opA &&& opB
  | .or => opA ||| opB
  | .xor => opA ^^^ opB
  | .sll => opA <<< (opB.extractLsb' 0 5).toNat
  | .srl => opA >>> (opB.extractLsb' 0 5).toNat

/-! ## Signals of the block -/

/-- The signals the `case (opcode)` reads. -/
structure ExIn where
  instr : Word
  pc : Word
  rs1Val : Word
  rs2Val : Word
  csr : Csr
  mip : Word
  mtime : Word
  dmemPending : Bool
  memReady : Bool
  /-- `<p>_read_data` -/
  rdata : Periph → Word

/-- `start_mem*` -/
structure MemStart where
  start : Bool
  isLoad : Bool
  addr : Word
  wdata : Word
  rd : RegIdx
  deriving DecidableEq

/-- `start_<p>*`: the arms start at most one peripheral. -/
structure PeriphStart where
  start : Option Periph
  isLoad : Bool
  addr : Word
  wdata : Word
  deriving DecidableEq

structure CsrWrite where
  en : Bool
  addr : BitVec 12
  data : Word
  deriving DecidableEq

structure Trap where
  request : Bool
  target : Word
  cause : Word
  mepcValue : Word
  deriving DecidableEq

/-- The signals the block drives. -/
structure ExCtl where
  rfWe : Bool
  rfWaddr : RegIdx
  /-- `none` is the default `rf_wdata = alu_result`, which settles to the ALU's output for the
  operands the arm selects. -/
  rfWdata : Option Word
  aluOpA : Word
  aluOpB : Word
  aluOpSel : AluOp
  branchTarget : Word
  flushPipe : Bool
  stallEx : Bool
  mem : MemStart
  periph : PeriphStart
  csr : CsrWrite
  trap : Trap
  loadCommit : Bool
  illegalInstr : Bool

/-- `rf_wdata` once the ALU has settled. -/
def ExCtl.wdata (c : ExCtl) : Word := c.rfWdata.getD (alu c.aluOpA c.aluOpB c.aluOpSel)

/-- `case (addr)` of the CSR read helper. -/
def csrRead (csr : Csr) (mip mtime : Word) (addr : BitVec 12) : Word :=
  if addr = CsrAddr.mstatus then csr.mstatus
  else if addr = CsrAddr.mtvec then csr.mtvec
  else if addr = CsrAddr.mepc then csr.mepc
  else if addr = CsrAddr.mcause then csr.mcause
  else if addr = CsrAddr.mie then csr.mie
  else if addr = CsrAddr.mip then mip
  else if addr = CsrAddr.mtime then mtime
  else if addr = CsrAddr.mtimecmp then csr.mtimecmp
  else if addr = CsrAddr.irqPriority then (BitVec.ofBool csr.irqPriority).setWidth 32
  else 0#32

def csrReadData (x : ExIn) : Word := csrRead x.csr x.mip x.mtime (funct12 x.instr)

def pcPlus4 (x : ExIn) : Word := x.pc + 4#32
def loadAddr (x : ExIn) : Word := x.rs1Val + immI x.instr
def storeAddr (x : ExIn) : Word := x.rs1Val + immS x.instr

/-- The assignments before the `case`. -/
def defaults (x : ExIn) : ExCtl where
  rfWe := false
  rfWaddr := rd x.instr
  rfWdata := none
  aluOpA := x.rs1Val
  aluOpB := x.rs2Val
  aluOpSel := .add
  branchTarget := pcPlus4 x
  flushPipe := false
  stallEx := x.dmemPending && !x.memReady
  mem := ⟨false, false, 0, 0, rd x.instr⟩
  periph := ⟨none, false, 0, 0⟩
  csr := ⟨false, 0, 0⟩
  trap := ⟨false, x.csr.mtvec, 0, x.pc⟩
  loadCommit := false
  illegalInstr := false

/-! ## The arms -/

def opImmArm (x : ExIn) (c : ExCtl) : ExCtl :=
  { c with rfWe := true, rfWaddr := rd x.instr, aluOpA := x.rs1Val, aluOpSel := .add,
           aluOpB := immI x.instr }

/-- Selects the ALU operation of an OP instruction; `none` is `illegal_instr = 1`. -/
def opAluSel (w : Word) : Option AluOp :=
  if funct3 w = 0b000#3 then
    if funct7 w = 0b0000000#7 then some .add
    else if funct7 w = 0b0100000#7 then some .sub
    else none
  else if funct3 w = 0b111#3 then some .and
  else if funct3 w = 0b110#3 then some .or
  else if funct3 w = 0b100#3 then some .xor
  else if funct3 w = 0b001#3 then some .sll
  else if funct3 w = 0b101#3 then
    if funct7 w = 0b0000000#7 then some .srl else none
  else none

def opArm (x : ExIn) (c : ExCtl) : ExCtl :=
  let c := { c with rfWe := true, rfWaddr := rd x.instr }
  match opAluSel x.instr with
  | some op => { c with aluOpSel := op }
  | none => { c with illegalInstr := true }

def loadArm (x : ExIn) (c : ExCtl) : ExCtl :=
  if funct3 x.instr = 0b010#3 then
    match windowOf (loadAddr x) with
    | some p =>
      { c with periph := ⟨some p, true, loadAddr x, 0⟩,
               rfWe := true, rfWaddr := rd x.instr, rfWdata := some (x.rdata p) }
    | none =>
      let c := if !x.dmemPending then { c with mem := ⟨true, true, loadAddr x, 0, rd x.instr⟩ }
        else c
      { c with stallEx := (x.dmemPending && !x.memReady) || c.mem.start }
  else { c with illegalInstr := true }

def storeArm (x : ExIn) (c : ExCtl) : ExCtl :=
  if funct3 x.instr = 0b010#3 then
    match windowOf (storeAddr x) with
    | some p => { c with periph := ⟨some p, false, storeAddr x, x.rs2Val⟩ }
    | none =>
      let c := if !x.dmemPending then
          { c with mem := ⟨true, false, storeAddr x, x.rs2Val, c.mem.rd⟩ }
        else c
      { c with stallEx := (x.dmemPending && !x.memReady) || c.mem.start }
  else { c with illegalInstr := true }

/-- `branch_taken` of the BRANCH arm; `none` is `illegal_instr = 1`. -/
def branchTaken (w rs1Val rs2Val : Word) : Option Bool :=
  if funct3 w = 0b000#3 then some (rs1Val == rs2Val)
  else if funct3 w = 0b001#3 then some (rs1Val != rs2Val)
  else if funct3 w = 0b100#3 then some (rs1Val.slt rs2Val)
  else if funct3 w = 0b101#3 then some (!rs1Val.slt rs2Val)
  else if funct3 w = 0b110#3 then some (rs1Val.ult rs2Val)
  else if funct3 w = 0b111#3 then some (!rs1Val.ult rs2Val)
  else none

def branchArm (x : ExIn) (c : ExCtl) : ExCtl :=
  match branchTaken x.instr x.rs1Val x.rs2Val with
  | some true => { c with branchTarget := x.pc + immB x.instr, flushPipe := true }
  | some false => c
  | none => { c with illegalInstr := true }

def jalArm (x : ExIn) (c : ExCtl) : ExCtl :=
  { c with rfWe := true, rfWaddr := rd x.instr, rfWdata := some (pcPlus4 x),
           branchTarget := x.pc + immJ x.instr, flushPipe := true }

/-- `{ jalr_sum[31:1], 1'b0 }` -/
def jalrTarget (x : ExIn) : Word := (x.rs1Val + immI x.instr).extractLsb' 1 31 ++ 0#1

def jalrArm (x : ExIn) (c : ExCtl) : ExCtl :=
  if funct3 x.instr = 0b000#3 then
    { c with rfWe := true, rfWaddr := rd x.instr, rfWdata := some (pcPlus4 x),
             branchTarget := jalrTarget x, flushPipe := true }
  else { c with illegalInstr := true }

/-- The part the three CSR forms share: `rd` gets the old value if it is not `x0`. -/
def csrForm (x : ExIn) (c : ExCtl) (en : Bool) (data : Word) : ExCtl :=
  { c with rfWe := rd x.instr != 0#5, rfWaddr := rd x.instr, rfWdata := some (csrReadData x),
           csr := ⟨en, funct12 x.instr, data⟩ }

def systemArm (x : ExIn) (c : ExCtl) : ExCtl :=
  if funct3 x.instr = 0b001#3 then csrForm x c true x.rs1Val
  else if funct3 x.instr = 0b010#3 then
    csrForm x c (rs1 x.instr != 0#5) (csrReadData x ||| x.rs1Val)
  else if funct3 x.instr = 0b011#3 then
    csrForm x c (rs1 x.instr != 0#5) (csrReadData x &&& ~~~x.rs1Val)
  else if funct3 x.instr = 0b000#3 ∧ funct12 x.instr = 0#12 then
    { c with trap := ⟨true, x.csr.mtvec, mcauseEcall, x.pc⟩ }
  else if funct3 x.instr = 0b000#3 ∧ funct12 x.instr = mretFunct12 then
    { c with branchTarget := x.csr.mepc, flushPipe := true }
  else { c with illegalInstr := true }

def luiArm (x : ExIn) (c : ExCtl) : ExCtl :=
  { c with rfWe := true, rfWaddr := rd x.instr, rfWdata := some (immU x.instr) }

def auipcArm (x : ExIn) (c : ExCtl) : ExCtl :=
  { c with rfWe := true, rfWaddr := rd x.instr, rfWdata := some (x.pc + immU x.instr) }

/-- The all-zero word is the one undefined word that does not trap. -/
def defaultArm (x : ExIn) (c : ExCtl) : ExCtl :=
  if x.instr ≠ 0#32 then { c with illegalInstr := true } else c

/-- `case (opcode)` -/
def opcodeCase (op : BitVec 7) : ExIn → ExCtl → ExCtl :=
  if op = Opc.opImm then opImmArm
  else if op = Opc.op then opArm
  else if op = Opc.load then loadArm
  else if op = Opc.store then storeArm
  else if op = Opc.branch then branchArm
  else if op = Opc.jal then jalArm
  else if op = Opc.jalr then jalrArm
  else if op = Opc.system then systemArm
  else if op = Opc.lui then luiArm
  else if op = Opc.auipc then auipcArm
  else defaultArm

/-- The arm of the instruction in EX, over the defaults. -/
def exArms (x : ExIn) : ExCtl := opcodeCase (opcode x.instr) x (defaults x)

/-! ## Interrupt detection -/

def timerTriggerLevel (s : Core) (i : Inputs) : Bool :=
  decide (s.csr.mtimecmp ≤ s.mtime) || i.irqTimer || i.periphIrq .timer0

def externalTriggerLevel (i : Inputs) : Bool :=
  i.irqExternal || i.periphIrq .uart0 || i.periphIrq .can0 || i.periphIrq .gpio ||
    i.periphIrq .spi0 || i.periphIrq .i2c0 || i.periphIrq .adc0

def timerCanFire (s : Core) : Bool :=
  s.csr.mstatus.getLsbD 3 && s.csr.mie.getLsbD 7 && s.mip.getLsbD 7

def extCanFire (s : Core) : Bool :=
  s.csr.mstatus.getLsbD 3 && s.csr.mie.getLsbD 11 && s.mip.getLsbD 11

def takeTimerIrq (s : Core) : Bool := timerCanFire s && (!extCanFire s || !s.csr.irqPriority)
def takeExtIrq (s : Core) : Bool := extCanFire s && (!timerCanFire s || s.csr.irqPriority)

/-! ## The whole block -/

def exIn (s : Core) (i : Inputs) : ExIn where
  instr := s.front.ex.instr
  pc := s.front.ex.pc
  rs1Val := s.front.ex.rs1Val
  rs2Val := s.front.ex.rs2Val
  csr := s.csr
  mip := s.mip
  mtime := s.mtime
  dmemPending := s.dmem.pending
  memReady := i.memReady
  rdata := i.periphRdata

/-- `load_commit`: the outstanding load is answered in this cycle. -/
def loadCommit (s : Core) (i : Inputs) : Bool := s.dmem.pending && i.memReady && s.dmem.isLoad

/-- What the `case` drives: nothing beyond the defaults when EX is empty. -/
def decodeCtl (s : Core) (i : Inputs) : ExCtl :=
  if s.front.ex.valid then exArms (exIn s i) else defaults (exIn s i)

/-- `if (load_commit) ...`: the answered load takes the write port. -/
def mergeLoad (s : Core) (i : Inputs) (c : ExCtl) : ExCtl :=
  if loadCommit s i then
    { c with rfWe := true, rfWaddr := s.dmem.rd, rfWdata := some i.memRdata, loadCommit := true }
  else c

def mergeIllegal (s : Core) (c : ExCtl) : ExCtl :=
  if c.illegalInstr && s.front.ex.valid then
    { c with trap := ⟨true, s.csr.mtvec, mcauseIllegal, s.front.ex.pc⟩ }
  else c

/-- The address an interrupt saves: the first valid one of EX, ID and IF, else `pc_fetch`. -/
def irqMepcValue (f : Front) : Word :=
  if f.ex.valid then f.ex.pc
  else if f.id.valid then f.id.pc
  else if f.ifBuf.valid then f.ifBuf.pc
  else f.pcFetch

def mergeIrq (s : Core) (c : ExCtl) : ExCtl :=
  if !c.trap.request then
    if takeTimerIrq s then
      { c with trap := ⟨true, s.csr.mtvec, mcauseTimerIrq, irqMepcValue s.front⟩ }
    else if takeExtIrq s then
      { c with trap := ⟨true, s.csr.mtvec, mcauseExtIrq, irqMepcValue s.front⟩ }
    else c
  else c

def control (s : Core) (i : Inputs) : ExCtl :=
  mergeIrq s (mergeIllegal s (mergeLoad s i (decodeCtl s i)))

end QarCore
