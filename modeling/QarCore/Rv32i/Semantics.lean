import QarCore.Rv32i.Instr

/-!
# Executing RV32I instructions

`effect` gives the meaning of one instruction on the values it reads; `exec` applies it to a hart.
The CSRs and the memory belong to the platform the hart runs on.  Addresses of jumps and accesses
are used as computed: alignment is the platform's business.
-/

namespace Rv32i

universe u v w

/-! ## One instruction -/

/-- The values an instruction reads. -/
structure Operands where
  pc : Word
  rs1 : Word
  rs2 : Word
  csr : BitVec 12 → Word
  /-- The trap vector. -/
  tvec : Word
  /-- The saved pc of the last trap. -/
  epc : Word

inductive Access
  | load (addr : Word)
  | store (addr data : Word)
  deriving DecidableEq

def Access.addr : Access → Word
  | load addr => addr
  | store addr _ => addr

/-- The instructions that change the privileged state as a whole. -/
inductive SysFn
  | ecall | mret
  deriving DecidableEq

structure Effect where
  nextPc : Word
  /-- The word for `rd`, except for a load. -/
  result : Option Word
  csrWrite : Option (BitVec 12 × Word)
  access : Option Access
  system : Option SysFn

def OpFn.apply (a b : Word) : OpFn → Word
  | add => a + b
  | sub => a - b
  | and => a &&& b
  | or => a ||| b
  | xor => a ^^^ b
  | sll => a <<< (b.toNat % 32)
  | srl => a >>> (b.toNat % 32)

def Cond.holds (a b : Word) : Cond → Bool
  | eq => a == b
  | ne => a != b
  | lt => a.slt b
  | ge => b.sle a
  | ltu => a.ult b
  | geu => b.ule a

/-- What a CSR instruction writes: the set and clear forms with `rs1 = x0` write nothing. -/
def CsrFn.written (rs1 : Reg) (old src : Word) : CsrFn → Option Word
  | rw => some src
  | rs => if rs1 = 0#5 then none else some (old ||| src)
  | rc => if rs1 = 0#5 then none else some (old &&& ~~~src)

/-- An offset in halfwords, sign-extended. -/
def offset {n : Nat} (imm : BitVec n) : Word := (imm ++ 0#1).signExtend 32

/-- The effect of an instruction that only writes `rd`. -/
def Effect.value (x : Operands) (v : Word) : Effect := ⟨x.pc + 4#32, some v, none, none, none⟩

def effect (x : Operands) : Instr → Effect
  | .addi _ _ imm => .value x (x.rs1 + imm.signExtend 32)
  | .op fn _ _ _ => .value x (fn.apply x.rs1 x.rs2)
  | .lui _ imm => .value x (imm ++ 0#12)
  | .auipc _ imm => .value x (x.pc + (imm ++ 0#12))
  | .lw _ _ imm => ⟨x.pc + 4#32, none, none, some (.load (x.rs1 + imm.signExtend 32)), none⟩
  | .sw _ _ imm =>
    ⟨x.pc + 4#32, none, none, some (.store (x.rs1 + imm.signExtend 32) x.rs2), none⟩
  | .branch cond _ _ imm =>
    ⟨if cond.holds x.rs1 x.rs2 then x.pc + offset imm else x.pc + 4#32, none, none, none, none⟩
  | .jal _ imm => ⟨x.pc + offset imm, some (x.pc + 4#32), none, none, none⟩
  | .jalr _ _ imm =>
    ⟨(x.rs1 + imm.signExtend 32) &&& ~~~1#32, some (x.pc + 4#32), none, none, none⟩
  | .csr fn _ rs1 addr =>
    ⟨x.pc + 4#32, some (x.csr addr), (fn.written rs1 (x.csr addr) x.rs1).map (addr, ·), none, none⟩
  | .ecall => ⟨x.tvec, none, none, none, some .ecall⟩
  | .mret => ⟨x.epc, none, none, none, some .mret⟩

namespace Instr

/-- The destination register; `x0` for the instructions without one. -/
def rd : Instr → Reg
  | addi rd _ _ => rd
  | op _ rd _ _ => rd
  | lui rd _ => rd
  | auipc rd _ => rd
  | lw rd _ _ => rd
  | jal rd _ => rd
  | jalr rd _ _ => rd
  | csr _ rd _ _ => rd
  | _ => 0#5

/-- Stores and branches use the bits of `rd` for their immediate. -/
def hasRd : Instr → Bool
  | sw _ _ _ => false
  | branch _ _ _ _ => false
  | _ => true

/-- The source registers; `x0` where there is none. -/
def rs1 : Instr → Reg
  | addi _ rs1 _ => rs1
  | op _ _ rs1 _ => rs1
  | lw _ rs1 _ => rs1
  | sw rs1 _ _ => rs1
  | branch _ rs1 _ _ => rs1
  | jalr _ rs1 _ => rs1
  | csr _ _ rs1 _ => rs1
  | _ => 0#5

def rs2 : Instr → Reg
  | op _ _ _ rs2 => rs2
  | sw _ rs2 _ => rs2
  | branch _ _ rs2 _ => rs2
  | _ => 0#5

def usesRs1 : Instr → Bool
  | lui _ _ => false
  | auipc _ _ => false
  | jal _ _ => false
  | ecall => false
  | mret => false
  | _ => true

def usesRs2 : Instr → Bool
  | op _ _ _ _ => true
  | sw _ _ _ => true
  | branch _ _ _ _ => true
  | _ => false

/-- The CSR an instruction names. -/
def csrAddr : Instr → Option (BitVec 12)
  | csr _ _ _ addr => some addr
  | _ => none

-- An encoding holds the registers of its instruction in their fields.
theorem rdField_encode {instr : Instr} (h : instr.hasRd) : rdField (encode instr) = instr.rd := by
  cases instr with
  | addi | lw | jalr | csr | ecall | mret => exact (iType_eq.mp rfl).2.2.2.1.symm
  | op => exact (rType_eq.mp rfl).2.2.2.2.1.symm
  | lui | auipc => exact (uType_eq.mp rfl).2.1.symm
  | jal => exact (jType_eq.mp rfl).2.1.symm
  | sw | branch => cases h

theorem rs1Field_encode {instr : Instr} (h : instr.usesRs1) :
    rs1Field (encode instr) = instr.rs1 := by
  cases instr with
  | addi | lw | jalr | csr => exact (iType_eq.mp rfl).2.1.symm
  | op => exact (rType_eq.mp rfl).2.2.1.symm
  | sw => exact (sType_eq.mp rfl).2.2.1.symm
  | branch => exact (bType_eq.mp rfl).2.2.1.symm
  | lui | auipc | jal | ecall | mret => cases h

theorem rs2Field_encode {instr : Instr} (h : instr.usesRs2) :
    rs2Field (encode instr) = instr.rs2 := by
  cases instr with
  | op => exact (rType_eq.mp rfl).2.1.symm
  | sw => exact (sType_eq.mp rfl).2.1.symm
  | branch => exact (bType_eq.mp rfl).2.1.symm
  | addi | lui | auipc | lw | jal | jalr | csr | ecall | mret => cases h

theorem iImm_encode_csr (fn : CsrFn) (rd rs1 : Reg) (addr : BitVec 12) :
    iImm (encode (csr fn rd rs1 addr)) = addr :=
  (iType_eq.mp rfl).1.symm

end Instr

-- The effect depends on the operands the instruction uses and on the CSR it names.
theorem effect_congr {x y : Operands} {instr : Instr} (hpc : x.pc = y.pc)
    (h1 : instr.usesRs1 → x.rs1 = y.rs1) (h2 : instr.usesRs2 → x.rs2 = y.rs2)
    (hcsr : ∀ addr, instr.csrAddr = some addr → x.csr addr = y.csr addr) (ht : x.tvec = y.tvec)
    (he : x.epc = y.epc) : effect x instr = effect y instr := by
  cases instr with
  | addi | lw | jalr => simp only [effect, Effect.value, hpc, h1 rfl]
  | op | sw | branch => simp only [effect, Effect.value, hpc, h1 rfl, h2 rfl]
  | lui | auipc | jal => simp only [effect, Effect.value, hpc]
  | csr fn rd rs1 addr => simp only [effect, hpc, h1 rfl, hcsr addr rfl]
  | ecall => simp only [effect, ht]
  | mret => simp only [effect, he]

/-! ## A hart on a platform -/

/-- The CSRs `C` and the memory `M` around a hart. -/
structure Platform (C : Type u) (M : Type v) where
  csrRead : C → BitVec 12 → Word
  csrWrite : C → BitVec 12 → Word → C
  tvec : C → Word
  epc : C → Word
  /-- Trap entry with this cause and pc. -/
  trap : C → Word → Word → C
  mret : C → C
  load : M → Word → Word
  store : M → Word → Word → M

structure Hart (C : Type u) (M : Type v) where
  pc : Word
  regs : Reg → Word
  csrs : C
  mem : M

def causeEcallM : Word := 11#32
def causeIllegal : Word := 2#32

/-- A memory access as the bus shows it. -/
inductive MemOp
  | read (addr data : Word)
  | write (addr data : Word)
  deriving DecidableEq

section Hart

variable {C : Type u} {M : Type v} (P : Platform C M) (h : Hart C M)

def Hart.reg (r : Reg) : Word := if r = 0#5 then 0#32 else h.regs r

def Hart.operands (instr : Instr) : Operands where
  pc := h.pc
  rs1 := h.reg instr.rs1
  rs2 := h.reg instr.rs2
  csr := P.csrRead h.csrs
  tvec := P.tvec h.csrs
  epc := P.epc h.csrs

def Hart.effect (instr : Instr) : Effect := Rv32i.effect (h.operands P instr) instr

/-- The word for `rd`, a loaded one included. -/
def Hart.written (instr : Instr) : Option Word :=
  match (h.effect P instr).access with
  | some (.load addr) => some (P.load h.mem addr)
  | _ => (h.effect P instr).result

/-- The register write; `x0` is never written. -/
def Hart.regWrite (instr : Instr) : Option (Reg × Word) :=
  if instr.rd = 0#5 then none else (h.written P instr).map (instr.rd, ·)

def Hart.csrWrite (instr : Instr) : Option (BitVec 12 × Word) := (h.effect P instr).csrWrite

def Hart.memOp (instr : Instr) : Option MemOp :=
  match (h.effect P instr).access with
  | some (.load addr) => some (.read addr (P.load h.mem addr))
  | some (.store addr data) => some (.write addr data)
  | none => none

/-- The CSRs after the effect `e` of the instruction at `pc`. -/
def csrsAfter (e : Effect) (pc : Word) (c : C) : C :=
  match e.system with
  | some .ecall => P.trap c causeEcallM pc
  | some .mret => P.mret c
  | none => e.csrWrite.elim c fun w ↦ P.csrWrite c w.1 w.2

def Hart.exec (instr : Instr) : Hart C M where
  pc := (h.effect P instr).nextPc
  regs := (h.regWrite P instr).elim h.regs fun o r ↦ if r = o.1 then o.2 else h.regs r
  csrs := csrsAfter P (h.effect P instr) h.pc h.csrs
  mem :=
    match (h.effect P instr).access with
    | some (.store addr data) => P.store h.mem addr data
    | _ => h.mem

/-- A word that encodes nothing traps. -/
def Hart.illegal : Hart C M :=
  { h with pc := P.tvec h.csrs, csrs := P.trap h.csrs causeIllegal h.pc }

variable (imem : Word → Word)

/-- One instruction of the program in `imem`. -/
def Hart.step : Hart C M :=
  match decode (imem h.pc) with
  | some instr => h.exec P instr
  | none => h.illegal P

/-- An output of the instruction at the pc. -/
def Hart.shows {α : Type w} (out : Hart C M → Instr → Option α) : Option α :=
  (decode (imem h.pc)).bind (out h)

/-- The hart after `n` instructions. -/
def Hart.after : Nat → Hart C M → Hart C M
  | 0, h => h
  | n + 1, h => after n (h.step P imem)

/-- An output of the first `n` instructions, oldest first. -/
def Hart.history {α : Type w} (out : Hart C M → Option α) : Nat → Hart C M → List α
  | 0, _ => []
  | n + 1, h => (out h).toList ++ history out n (h.step P imem)

theorem Hart.history_length {α : Type w} {out : Hart C M → Option α} (hout : ∀ h, (out h).isSome)
    (n : Nat) (h : Hart C M) : (Hart.history P imem out n h).length = n := by
  induction n generalizing h with
  | zero => rfl
  | succ n ih =>
    obtain ⟨o, ho⟩ := Option.isSome_iff_exists.mp (hout h)
    rw [history, ho, List.length_append, ih, Option.toList_some, List.length_singleton,
      Nat.add_comm]

-- What every step keeps holds after any number of instructions.
theorem Hart.after_invariant {Inv : Hart C M → Prop} (hstep : ∀ h, Inv h → Inv (h.step P imem))
    (n : Nat) (h : Hart C M) (h0 : Inv h) : Inv (Hart.after P imem n h) := by
  induction n generalizing h with
  | zero => exact h0
  | succ n ih => exact ih _ (hstep h h0)

end Hart

end Rv32i
