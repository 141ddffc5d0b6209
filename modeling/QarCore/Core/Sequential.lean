import QarCore.Core.Action
import QarCore.Rv32i.Semantics

/-!
# The one-instruction-at-a-time machine

The architectural state and a machine that executes one action of EX per step on it.  It is the
reference the pipeline is compared with for every program; that its steps mean RV32I on the
documented words is a separate result.
-/

namespace QarCore

open Rv32i (MemOp)

universe u

/-- A data memory with 32-bit words: any device whose reads do not change it. -/
structure DataMem (M : Type u) where
  read : M → Word → Word
  write : M → Word → Word → M

/-- What software sees: the next pc, the registers, the CSRs and the data memory. -/
structure Arch (M : Type u) where
  pc : Word
  regs : RegIdx → Word
  csr : Csr
  mem : M

/-- The values an instruction may read that depend on when it executes. -/
structure Volatile where
  mip : Word
  mtime : Word
  rdata : Periph → Word

/-- One step of the reference machine: an instruction, or an interrupt between two of them. -/
inductive Event
  | exec (v : Volatile)
  | irq (cause : Word)

variable {M : Type u}

namespace Action

/-- The word for `rd`, if the action has one. -/
def wb (d : DataMem M) (m : M) : Action → Option Word
  | illegalOp opA opB => some (QarCore.alu opA opB .add)
  | alu op opA opB => some (QarCore.alu opA opB op)
  | value v => some v
  | memLoad addr => some (d.read m addr)
  | periphLoad _ _ data => some data
  | jump _ link => link
  | csr old _ _ => some old
  | _ => none

def trapCause : Action → Option Word
  | illegal => some mcauseIllegal
  | illegalOp _ _ => some mcauseIllegal
  | ecall => some mcauseEcall
  | _ => none

/-- The CSR write of the instruction word `w`. -/
def csrWrite (w : Word) : Action → CsrWrite
  | csr _ en data => ⟨en, funct12 w, data⟩
  | _ => ⟨false, 0, 0⟩

def nextPc (pc mtvec : Word) : Action → Word
  | illegal => mtvec
  | illegalOp _ _ => mtvec
  | ecall => mtvec
  | jump target _ => target
  | mret target => target
  | _ => pc + 4#32

def nextCsr (w pc : Word) (old : Csr) (act : Action) : Csr :=
  let n := csrWriteRegs (act.csrWrite w) old
  match act.trapCause with
  | some cause => trapEntry old cause pc n
  | none => if act.isMret then mretRestore old n else n

def nextMem (d : DataMem M) (m : M) : Action → M
  | memStore addr data => d.write m addr data
  | _ => m

/-! The outputs of a step, as the buses show them. -/

/-- The register-file write: never to `x0`. -/
def rfOut (d : DataMem M) (m : M) (w : Word) (act : Action) : Option (RegIdx × Word) :=
  if rd w = 0#5 then none else (act.wb d m).map (rd w, ·)

def csrOut (w : Word) (act : Action) : Option (BitVec 12 × Word) :=
  if (act.csrWrite w).en then some ((act.csrWrite w).addr, (act.csrWrite w).data) else none

def dmemOut (d : DataMem M) (m : M) : Action → Option MemOp
  | memLoad addr => some (.read addr (d.read m addr))
  | memStore addr data => some (.write addr data)
  | _ => none

def periphOut : Action → Option PeriphStart
  | periphLoad p addr _ => some ⟨some p, true, addr, 0⟩
  | periphStore p addr data => some ⟨some p, false, addr, data⟩
  | _ => none

end Action

namespace Arch

/-- The EX inputs of the next instruction. -/
def exIn (imem : Word → Word) (v : Volatile) (a : Arch M) : ExIn where
  instr := imem a.pc
  pc := a.pc
  rs1Val := regRead a.regs (rs1 (imem a.pc))
  rs2Val := regRead a.regs (rs2 (imem a.pc))
  csr := a.csr
  mip := v.mip
  mtime := v.mtime
  dmemPending := false
  memReady := false
  rdata := v.rdata

def action (imem : Word → Word) (v : Volatile) (a : Arch M) : Action := (a.exIn imem v).action

/-- Executes the instruction word `w` with the action `act`. -/
def exec (d : DataMem M) (w : Word) (act : Action) (a : Arch M) : Arch M where
  pc := act.nextPc a.pc a.csr.mtvec
  regs := regWrite a.regs (act.wb d a.mem).isSome (rd w) ((act.wb d a.mem).getD 0)
  csr := act.nextCsr w a.pc a.csr
  mem := act.nextMem d a.mem

-- The registers after an instruction, from what it shows on the write port.
theorem exec_regs (d : DataMem M) (w : Word) (act : Action) (a : Arch M) :
    (a.exec d w act).regs =
      (act.rfOut d a.mem w).elim a.regs fun o r ↦ if r = o.1 then o.2 else a.regs r := by
  unfold exec Action.rfOut regWrite
  by_cases hz : rd w = 0#5
  · simp [hz]
  · cases act.wb d a.mem <;> simp [hz]

/-- An interrupt saves the pc of the next instruction and goes to the handler. -/
def interrupt (cause : Word) (a : Arch M) : Arch M :=
  { a with pc := a.csr.mtvec, csr := trapEntry a.csr cause a.pc a.csr }

def step (imem : Word → Word) (d : DataMem M) (a : Arch M) : Event → Arch M
  | .exec v => a.exec d (imem a.pc) (a.action imem v)
  | .irq cause => a.interrupt cause

/-! ## Outputs -/

/-- Only an executed instruction puts something out. -/
def onExec {α : Type*} (imem : Word → Word) (a : Arch M) (out : Word → Action → Option α) :
    Event → Option α
  | .exec v => out (imem a.pc) (a.action imem v)
  | .irq _ => none

/-- The instruction that leaves: its pc and word. -/
def left (imem : Word → Word) (a : Arch M) : Event → Option (Word × Word) :=
  a.onExec imem fun w _ ↦ some (a.pc, w)

def rfWrite (imem : Word → Word) (d : DataMem M) (a : Arch M) : Event → Option (RegIdx × Word) :=
  a.onExec imem fun w act ↦ act.rfOut d a.mem w

def csrWrite (imem : Word → Word) (a : Arch M) : Event → Option (BitVec 12 × Word) :=
  a.onExec imem fun w act ↦ act.csrOut w

def dmemOp (imem : Word → Word) (d : DataMem M) (a : Arch M) : Event → Option MemOp :=
  a.onExec imem fun _ act ↦ act.dmemOut d a.mem

def periphOp (imem : Word → Word) (a : Arch M) : Event → Option PeriphStart :=
  a.onExec imem fun _ act ↦ act.periphOut

/-- The state a reset leaves. -/
def reset (regs : RegIdx → Word) (m : M) : Arch M := ⟨0, regs, Csr.reset, m⟩

end Arch

end QarCore
