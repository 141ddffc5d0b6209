import QarCore.Soc.Machine

/-!
# The chip

`qar_core` as a whole: the core on its memories, with the peripherals it instantiates.  The strobes and
addresses of the EX stage are the bus of the peripherals, their read data and interrupt lines are inputs
of the core.
-/

namespace QarCore

universe u

open Clocked (run)

/-- `start_<p>*`.  No arm makes them depend on an answer, so they are settled before the peripherals see
them. -/
def Core.periphStart (s : Core) : PeriphStart := (control s quietInputs).periph

/-- The chip and the memory on its data bus. -/
structure Soc (M : Type u) where
  board : Board M
  devices : Devices

/-- What the outside drives in one cycle: the two memory buses and the pins. -/
structure SocInputs where
  imemReady : Bool
  imemRdata : Word
  memReady : Bool
  memRdata : Word
  pins : Pins

namespace Soc

variable {M : Type u} {cfg : Config} {imem : Word → Word} {d : DataMem M} {s : Soc M}
  {e : SocInputs} {regs : RegIdx → Word} {mem : M} {v : Devices} {inp : Nat → SocInputs}

/-- The bus of the peripherals. -/
def bus (s : Soc M) : PeriphStart := s.board.core.periphStart

/-- The inputs of the core: what the peripherals answer to the bus, and what comes from outside. -/
def env (s : Soc M) (e : SocInputs) : Inputs where
  imemReady := e.imemReady
  imemRdata := e.imemRdata
  memReady := e.memReady
  memRdata := e.memRdata
  irqTimer := e.pins.irqTimer
  irqExternal := e.pins.irqExternal
  periphIrq := s.devices.irq
  periphRdata := s.devices.rdata s.bus e.pins.toDevicePins

/-- The pins of the core, the words of the memories included. -/
def coreInputs (imem : Word → Word) (d : DataMem M) (s : Soc M) (e : SocInputs) : Inputs :=
  s.board.pins imem d (s.env e)

def step (cfg : Config) (imem : Word → Word) (d : DataMem M) (s : Soc M) (e : SocInputs) : Soc M where
  board := s.board.step cfg imem d (s.env e)
  devices := s.devices.posedge s.bus e.pins.toDevicePins

/-- The state a reset leaves; `v` are the peripherals after it. -/
def reset (regs : RegIdx → Word) (mem : M) (v : Devices) : Soc M := ⟨Board.reset regs mem, v⟩

/-- The chip after `t` cycles. -/
def after (cfg : Config) (imem : Word → Word) (d : DataMem M) (regs : RegIdx → Word) (mem : M)
    (v : Devices) (inp : Nat → SocInputs) (t : Nat) : Soc M :=
  run (step cfg imem d) (reset regs mem v) inp t

/-! ## The parts of a run -/

-- The settled bus is the one the EX stage drives once the answers are in.
theorem control_periphStart (c : Core) (i : Inputs) : (control c i).periph = c.periphStart := by
  have hshape : (exAction c i).periphOut = (exAction c quietInputs).periphOut :=
    action_shape_congr Action.periphOut (fun _ _ _ _ ↦ rfl) (fun _ _ _ _ _ ↦ rfl) (fun _ _ ↦ rfl)
      rfl rfl rfl rfl
  unfold Core.periphStart
  rw [control_periph, control_periph]
  cases hv : c.front.ex.valid
  · rw [decodeCtl_empty hv, decodeCtl_empty hv]
    rfl
  · rw [decodeCtl_eq hv, decodeCtl_eq hv, Action.ctl_periph, Action.ctl_periph, hshape]

/-- What the board sees of the outside and the peripherals in the cycles of a run. -/
def boardEnv (cfg : Config) (imem : Word → Word) (d : DataMem M) (regs : RegIdx → Word) (mem : M)
    (v : Devices) (inp : Nat → SocInputs) (t : Nat) : Inputs :=
  (after cfg imem d regs mem v inp t).env (inp t)

/-- The bus of the peripherals in the cycles of a run. -/
def busAt (cfg : Config) (imem : Word → Word) (d : DataMem M) (regs : RegIdx → Word) (mem : M)
    (v : Devices) (inp : Nat → SocInputs) (t : Nat) : PeriphStart :=
  (after cfg imem d regs mem v inp t).bus

theorem after_succ (t : Nat) : after cfg imem d regs mem v inp (t + 1) =
    (after cfg imem d regs mem v inp t).step cfg imem d (inp t) := rfl

-- The core and its memories are a board in the environment that the peripherals make.
theorem board_after (t : Nat) : (after cfg imem d regs mem v inp t).board =
    Board.run cfg imem d regs mem (boardEnv cfg imem d regs mem v inp) t := by
  induction t with
  | zero => rfl
  | succ t ih =>
    rw [after_succ, step, ih]
    rfl

end Soc

end QarCore
