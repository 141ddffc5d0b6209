import QarCore.Clocked.Simulation
import QarCore.Core.Control
import QarCore.Core.Sequential

/-!
# The core on its memories

The core with a constant instruction memory and a data memory.  The environment chooses the wait
states, the interrupt pins and what the peripherals answer; the memories choose only the data of an
accepted transaction.
-/

namespace QarCore

universe u

variable {M : Type u}

structure Board (M : Type u) where
  core : Core
  mem : M

namespace Board

/-- A DMEM transaction is accepted in this cycle. -/
def accepted (b : Board M) (e : Inputs) : Bool := b.core.dmem.memReqValid && e.memReady

/-- The input pins: on an accepted fetch the word at `imem_addr`, on an accepted read the word at
`mem_addr`, otherwise whatever the environment puts on the bus. -/
def pins (imem : Word → Word) (d : DataMem M) (b : Board M) (e : Inputs) : Inputs :=
  { e with
    imemRdata :=
      if b.core.front.fetchReqPending && e.imemReady then imem b.core.front.fetchReqAddr
      else e.imemRdata
    memRdata :=
      if b.accepted e && !b.core.dmem.memReqWe then d.read b.mem b.core.dmem.memReqAddr
      else e.memRdata }

@[simp] theorem pins_memReady (imem : Word → Word) (d : DataMem M) (b : Board M) (e : Inputs) :
    (b.pins imem d e).memReady = e.memReady := rfl

@[simp] theorem pins_imemReady (imem : Word → Word) (d : DataMem M) (b : Board M) (e : Inputs) :
    (b.pins imem d e).imemReady = e.imemReady := rfl

def step (cfg : Config) (imem : Word → Word) (d : DataMem M) (b : Board M) (e : Inputs) :
    Board M where
  core := posedge cfg b.core (b.pins imem d e)
  mem :=
    if b.accepted e && b.core.dmem.memReqWe then
      d.write b.mem b.core.dmem.memReqAddr b.core.dmem.memReqWdata
    else b.mem

def reset (regs : RegIdx → Word) (m : M) : Board M := ⟨Core.reset regs, m⟩

/-- The board after `t` cycles from reset, in the environment `env`. -/
def run (cfg : Config) (imem : Word → Word) (d : DataMem M) (regs : RegIdx → Word) (m : M)
    (env : Nat → Inputs) (t : Nat) : Board M :=
  Clocked.run (step cfg imem d) (reset regs m) env t

/-- What `obs` shows in the first `t` cycles of that run, oldest first. -/
def shown {α : Type*} (obs : Core → Inputs → Option α) (cfg : Config) (imem : Word → Word)
    (d : DataMem M) (regs : RegIdx → Word) (m : M) (env : Nat → Inputs) (t : Nat) : List α :=
  Clocked.labels (step cfg imem d) (reset regs m) env (fun b e ↦ obs b.core (b.pins imem d e)) t

end Board

/-! ## What a cycle shows -/

/-- The instruction in EX leaves in this cycle: by its own redirect or trap, or because nothing
stalls it.  An instruction squashed by an interrupt does not count. -/
def exLeaves (s : Core) (i : Inputs) : Bool :=
  s.front.ex.valid && !irqTaken s i &&
    ((control s i).trap.request || (control s i).flushPipe || !(control s i).stallEx)

def leftObs (s : Core) (i : Inputs) : Option (Word × Word) :=
  if exLeaves s i then some (s.front.ex.pc, s.front.ex.instr) else none

/-- The write port of the register file. -/
def rfObs (s : Core) (i : Inputs) : Option (RegIdx × Word) :=
  let c := control s i
  if c.rfWe && c.rfWaddr != 0#5 then some (c.rfWaddr, c.wdata) else none

def csrObs (s : Core) (i : Inputs) : Option (BitVec 12 × Word) :=
  let c := control s i
  if c.csr.en then some (c.csr.addr, c.csr.data) else none

/-- The DMEM bus on an accepted transaction. -/
def dmemObs (s : Core) (i : Inputs) : Option Rv32i.MemOp :=
  if s.dmem.memReqValid && i.memReady then
    if s.dmem.memReqWe then some (.write s.dmem.memReqAddr s.dmem.memReqWdata)
    else some (.read s.dmem.memReqAddr i.memRdata)
  else none

/-- The peripheral strobes. -/
def periphObs (s : Core) (i : Inputs) : Option PeriphStart :=
  let c := control s i
  if c.periph.start.isSome then some c.periph else none

end QarCore
