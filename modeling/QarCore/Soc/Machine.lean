import QarCore.Core.PipelineIsa
import QarCore.Soc.Devices

/-!
# A hart with memory-mapped peripherals

What the chip is for, without its pipeline: a hart that executes one instruction at a time, next to
peripherals and a clock that move on in every cycle.  In one cycle the hart executes an instruction,
takes an interrupt or waits; a load or store whose address lies in a window is an access of that
peripheral in that cycle.
-/

namespace QarCore

universe u

open Rv32i (Access Hart MemOp Platform decode)

/-- The hart, the two registers that also the hardware writes, and the peripherals. -/
structure Machine (M : Type u) where
  hart : Hart Csr M
  mip : Word
  mtime : Word
  devices : Devices

/-- What the hart does in a cycle. -/
inductive Turn
  | wait
  | exec
  | irq (cause : Word)
  deriving DecidableEq

/-- The access of the peripheral `p`. -/
def PeriphStart.ofAccess (p : Periph) : Access → PeriphStart
  | .load addr => ⟨some p, true, addr, 0⟩
  | .store addr data => ⟨some p, false, addr, data⟩

/-- An access of the hart as the peripherals see it. -/
def busOfAccess (acc : Access) : PeriphStart :=
  match windowOf acc.addr with
  | some p => .ofAccess p acc
  | none => .idle

namespace Machine

variable {M : Type u} (m : Machine M) (imem : Word → Word) (d : DataMem M) (i : Pins)

/-- The CSRs, the data memory and the peripherals as the hart finds them in a cycle. -/
def platform : Platform Csr M where
  csrRead c := csrRead c m.mip m.mtime
  csrWrite c addr data := csrWriteRegs ⟨true, addr, data⟩ c
  tvec := Csr.mtvec
  epc := Csr.mepc
  trap c cause pc := trapEntry c cause pc c
  mret c := mretRestore c c
  load mem addr :=
    match windowOf addr with
    | some p => m.devices.rdata (.ofAccess p (.load addr)) i.toDevicePins p
    | none => d.read mem addr
  store mem addr data :=
    match windowOf addr with
    | some _ => mem
    | none => d.write mem addr data

section Platform

variable {m imem d i} {mem : M} {addr data : Word} {p : Periph}

theorem load_of_window (h : windowOf addr = some p) : (m.platform d i).load mem addr =
    m.devices.rdata (.ofAccess p (.load addr)) i.toDevicePins p := by
  simp only [platform, h]

theorem load_of_none (h : windowOf addr = none) : (m.platform d i).load mem addr = d.read mem addr := by
  simp only [platform, h]

theorem store_of_window (h : windowOf addr = some p) : (m.platform d i).store mem addr data = mem := by
  simp only [platform, h]

theorem store_of_none (h : windowOf addr = none) :
    (m.platform d i).store mem addr data = d.write mem addr data := by
  simp only [platform, h]

end Platform

/-! ## Outputs -/

/-- The instruction that is executed: its pc and word. -/
def left : Turn → Option (Word × Word)
  | .exec => some (m.hart.pc, imem m.hart.pc)
  | _ => none

def rfWrite : Turn → Option (RegIdx × Word)
  | .exec => m.hart.shows imem (Hart.regWrite (m.platform d i))
  | _ => none

def csrWrite : Turn → Option (BitVec 12 × Word)
  | .exec => m.hart.shows imem (Hart.csrWrite (m.platform d i))
  | _ => none

/-- The access of the instruction that is executed. -/
def access : Turn → Option Access
  | .exec => m.hart.shows imem fun h instr ↦ (h.effect (m.platform d i) instr).access
  | _ => none

/-- The bus of the peripherals. -/
def bus (turn : Turn) : PeriphStart := (m.access imem d i turn).elim .idle busOfAccess

/-- The accesses that are left for the data memory. -/
def dmemOp (turn : Turn) : Option MemOp :=
  (m.access imem d i turn).bind fun acc ↦
    match windowOf acc.addr, acc with
    | some _, _ => none
    | none, .load addr => some (.read addr (d.read m.hart.mem addr))
    | none, .store addr data => some (.write addr data)

/-! ## One cycle -/

def timerTriggerLevel : Bool :=
  decide (m.hart.csrs.mtimecmp ≤ m.mtime) || i.irqTimer || m.devices.irq .timer0

def externalTriggerLevel : Bool :=
  i.irqExternal || m.devices.irq .uart0 || m.devices.irq .can0 || m.devices.irq .gpio ||
    m.devices.irq .spi0 || m.devices.irq .i2c0 || m.devices.irq .adc0

/-- `mip` follows the levels unless the instruction writes it; `irqack` clears the external bit. -/
def nextMip (o : Option (BitVec 12 × Word)) : Word :=
  match o with
  | some (addr, data) =>
    let n := if addr = CsrAddr.mip then data
      else setBit (setBit m.mip 7 (m.timerTriggerLevel i)) 11 (m.externalTriggerLevel i)
    if addr = CsrAddr.irqAck ∧ data.getLsbD 1 then setBit n 11 false else n
  | none => setBit (setBit m.mip 7 (m.timerTriggerLevel i)) 11 (m.externalTriggerLevel i)

def nextMtime (o : Option (BitVec 12 × Word)) : Word :=
  match o with
  | some (addr, data) => if addr = CsrAddr.mtime then data else m.mtime + 1#32
  | none => m.mtime + 1#32

def nextHart : Turn → Hart Csr M
  | .wait => m.hart
  | .exec => m.hart.step (m.platform d i) imem
  | .irq cause =>
    { m.hart with pc := m.hart.csrs.mtvec
                  csrs := trapEntry m.hart.csrs cause m.hart.pc m.hart.csrs }

def step (e : Turn × Pins) : Machine M where
  hart := m.nextHart imem d e.2 e.1
  mip := m.nextMip e.2 (m.csrWrite imem d e.2 e.1)
  mtime := m.nextMtime (m.csrWrite imem d e.2 e.1)
  devices := m.devices.posedge (m.bus imem d e.2 e.1) e.2.toDevicePins

/-- The state a reset leaves; `v` are the peripherals after it. -/
def reset (regs : RegIdx → Word) (mem : M) (v : Devices) : Machine M :=
  ⟨⟨0, regs, Csr.reset, mem⟩, 0, 0, v⟩

end Machine

end QarCore
