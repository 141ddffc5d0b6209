import QarCore.Core.Fields

/-!
# State of the core

The registers of `qar_core`, grouped by the part of the pipeline that owns them, and the signals
the outside drives in one cycle.
-/

namespace QarCore

/-- The instruction-cache geometry: `ICACHE_ENTRIES` is 0 (disabled) or a power of two from 2 on,
small enough to leave a tag bit of the 30 word-address bits. -/
structure Config where
  icacheEntries : Nat
  entries_ok : icacheEntries = 0 ∨ ∃ k, 1 ≤ k ∧ k ≤ 29 ∧ icacheEntries = 2 ^ k

/-- `for (i = 0; value > 0; i = i + 1) value = value >> 1` on a 32-bit integer. -/
def shiftCount : Nat → Nat → Nat
  | 0, _ => 0
  | fuel + 1, value => if value > 0 then 1 + shiftCount fuel (value >>> 1) else 0

def clog2 (value : Nat) : Nat := shiftCount 32 (value - 1)

namespace Config

def icacheEnabled (cfg : Config) : Bool := cfg.icacheEntries > 0

def icacheIndexBits (cfg : Config) : Nat :=
  if cfg.icacheEntries > 0 then clog2 cfg.icacheEntries else 1

/-- `ICACHE_ENTRIES = 0`. -/
def noCache : Config := ⟨0, .inl rfl⟩

/-- `ICACHE_ENTRIES = 2 ^ k`. -/
def withCache (k : Nat) (h1 : 1 ≤ k) (h29 : k ≤ 29) : Config := ⟨2 ^ k, .inr ⟨k, h1, h29, rfl⟩⟩

end Config

/-- A buffer for one fetched instruction: the IF buffer, the prefetch slot, the ID stage. -/
structure Slot where
  valid : Bool
  instr : Word
  pc : Word
  deriving DecidableEq

/-- The EX stage registers. -/
structure ExStage where
  valid : Bool
  instr : Word
  pc : Word
  rs1Val : Word
  rs2Val : Word
  deriving DecidableEq

structure CacheLine where
  valid : Bool
  tag : Nat
  data : Word
  deriving DecidableEq

/-- Fetch, decode and the EX registers: everything a flush clears, and the instruction cache. -/
structure Front where
  pcFetch : Word
  fetchReqPending : Bool
  fetchReqAddr : Word
  fetchReqCacheable : Bool
  icacheFillIndex : Nat
  icacheFillTag : Nat
  ifBuf : Slot
  prefetchSlot : Slot
  id : Slot
  ex : ExStage
  icache : Nat → CacheLine

/-- The DMEM request and the bookkeeping of the one outstanding transaction. -/
structure DmemPort where
  memReqValid : Bool
  memReqWe : Bool
  memReqAddr : Word
  memReqWdata : Word
  pending : Bool
  isLoad : Bool
  rd : RegIdx
  deriving DecidableEq

/-- The CSRs that only instructions and traps write. -/
structure Csr where
  mstatus : Word
  mtvec : Word
  mepc : Word
  mcause : Word
  mie : Word
  mtimecmp : Word
  irqPriority : Bool
  deriving DecidableEq

structure Core where
  front : Front
  dmem : DmemPort
  csr : Csr
  mip : Word
  mtime : Word
  irqTimerAck : Bool
  irqExternalAck : Bool
  regs : RegIdx → Word

/-- What the outside drives in one cycle: the two memory answers, the interrupt pins, and the
interrupt line and read data of every peripheral. -/
structure Inputs where
  imemReady : Bool
  imemRdata : Word
  memReady : Bool
  memRdata : Word
  irqTimer : Bool
  irqExternal : Bool
  periphIrq : Periph → Bool
  periphRdata : Periph → Word

/-! ## Reset -/

def Slot.reset : Slot := ⟨false, 0, 0⟩

def Front.reset : Front where
  pcFetch := 0
  fetchReqPending := false
  fetchReqAddr := 0
  fetchReqCacheable := false
  icacheFillIndex := 0
  icacheFillTag := 0
  ifBuf := Slot.reset
  prefetchSlot := Slot.reset
  id := Slot.reset
  ex := ⟨false, 0, 0, 0, 0⟩
  icache := fun _ ↦ ⟨false, 0, 0⟩

def Csr.reset : Csr where
  mstatus := 0
  mtvec := 0x100#32
  mepc := 0
  mcause := 0
  mie := 0
  mtimecmp := 200#32
  irqPriority := false

/-- The state a reset leaves.  The register file has no reset: it keeps what it held, which is all
zeros after power-up (`initial` block of `regfile`). -/
def Core.reset (regs : RegIdx → Word) : Core where
  front := Front.reset
  dmem := ⟨false, false, 0, 0, false, false, 0⟩
  csr := Csr.reset
  mip := 0
  mtime := 0
  irqTimerAck := false
  irqExternalAck := false
  regs := regs

/-! ## Register file -/

/-- `rdata = (raddr == 0) ? 0 : regs[raddr]`. -/
def regRead (regs : RegIdx → Word) (raddr : RegIdx) : Word :=
  if raddr = 0#5 then 0#32 else regs raddr

/-- `if (we && waddr != 0) regs[waddr] <= wdata`. -/
def regWrite (regs : RegIdx → Word) (we : Bool) (waddr : RegIdx) (wdata : Word) : RegIdx → Word :=
  if we && waddr != 0#5 then fun r ↦ if r = waddr then wdata else regs r else regs

@[simp] theorem regWrite_false (regs : RegIdx → Word) (waddr : RegIdx) (wdata : Word) :
    regWrite regs false waddr wdata = regs := rfl

@[simp] theorem regRead_zero (regs : RegIdx → Word) : regRead regs 0#5 = 0#32 := rfl

-- A read after a write sees the new word at the written register and the old word elsewhere.
theorem regRead_regWrite (regs : RegIdx → Word) (we : Bool) (waddr r : RegIdx) (wdata : Word) :
    regRead (regWrite regs we waddr wdata) r =
      if we ∧ waddr ≠ 0#5 ∧ waddr = r then wdata else regRead regs r := by
  unfold regRead regWrite
  by_cases hr : r = 0#5
  · subst hr
    rw [if_pos rfl, if_pos rfl, if_neg (by rintro ⟨-, h, h'⟩; exact h h')]
  · cases we
    · simp
    · by_cases hw : waddr = 0#5
      · simp [hw]
      · by_cases he : r = waddr
        · simp [he, hw]
        · simp [hr, hw, he, Ne.symm he]

/-! ## Single bits -/

/-- `w[i] <= b`. -/
def setBit {n : Nat} (w : BitVec n) (i : Nat) (b : Bool) : BitVec n :=
  if b then w ||| 1#n <<< i else w &&& ~~~(1#n <<< i)

theorem getLsbD_setBit {n : Nat} (w : BitVec n) (i j : Nat) (b : Bool) (hi : i < n) :
    (setBit w i b).getLsbD j = if j = i then b else w.getLsbD j := by
  unfold setBit
  cases b
  · by_cases h : j = i
    · subst h; simp [hi]
    · by_cases hj : j < n
      · simp [h, hj]; omega
      · simp [h, BitVec.getLsbD_of_ge _ _ (by omega : n ≤ j)]
  · by_cases h : j = i
    · subst h; simp [hi]
    · by_cases hj : j < n
      · simp [h, hj]; omega
      · simp [h, BitVec.getLsbD_of_ge _ _ (by omega : n ≤ j)]

end QarCore
