import QarCore.Rv32i.Effects

/-!
# Code in the instruction memory

A hart on code that is known, from facts about some of its registers: what one instruction makes of them.
-/

namespace Rv32i

universe v w

variable {C : Type v} {M : Type w} {P : Platform C M} {h : Hart C M} {imem : Word → Word} {instr : Instr}

theorem Hart.after_eq_iterate (P : Platform C M) (imem : Word → Word) (n : Nat) (h : Hart C M) :
    Hart.after P imem n h = (fun h ↦ h.step P imem)^[n] h := by
  induction n generalizing h with
  | zero => rfl
  | succ n ih => exact ih _

-- The word of an instruction executes it.
theorem Hart.step_of_encode (hw : imem h.pc = encode instr) : h.step P imem = h.exec P instr := by
  unfold Hart.step
  rw [decode_eq_some.mpr hw.symm]

theorem Hart.exec_pc : (h.exec P instr).pc = (h.effect P instr).nextPc := rfl

theorem Hart.exec_csrs : (h.exec P instr).csrs = csrsAfter P (h.effect P instr) h.pc h.csrs := rfl

theorem Hart.exec_mem : (h.exec P instr).mem = (h.effect P instr).stored P h.mem := by
  rw [Hart.exec_eq_apply]
  rfl

theorem Hart.exec_reg (r : Reg) : (h.exec P instr).reg r =
    if r ≠ 0#5 ∧ r = instr.rd then ((h.effect P instr).written P h.mem).getD (h.reg r) else h.reg r := by
  rw [Hart.exec_eq_apply]
  unfold Hart.apply Hart.reg
  by_cases hr : r = 0#5
  · rw [if_pos hr, if_neg fun h ↦ h.1 hr, if_pos hr]
  · rw [if_neg hr, if_neg hr]
    by_cases hd : r = instr.rd
    · rw [if_pos ⟨hr, hd⟩]
      exact if_pos ⟨hd ▸ hr, hd⟩
    · rw [if_neg fun h ↦ hd h.2]
      exact if_neg fun h ↦ hd h.2

/-! ## Facts -/

/-- The pc, the values of some registers, the CSRs and the memory. -/
structure Facts (C : Type v) (M : Type w) where
  pc : Word
  regs : List (Reg × Word)
  csrs : C
  mem : M

structure Facts.Holds (f : Facts C M) (h : Hart C M) : Prop where
  pc : h.pc = f.pc
  regs : ∀ q ∈ f.regs, h.reg q.1 = q.2
  csrs : h.csrs = f.csrs
  mem : h.mem = f.mem

/-- `x` is known to be read from `r`. -/
def Facts.Reads (f : Facts C M) (r : Reg) (x : Word) : Prop := r = 0#5 ∧ x = 0#32 ∨ (r, x) ∈ f.regs

/-- The effect of an instruction that reads `a` and `b`. -/
def Facts.effect (P : Platform C M) (f : Facts C M) (instr : Instr) (a b : Word) : Effect :=
  Rv32i.effect ⟨f.pc, a, b, P.csrRead f.csrs, P.tvec f.csrs, P.epc f.csrs⟩ instr

theorem Facts.Holds.reg_of_reads {f : Facts C M} {r : Reg} {x : Word} (hf : f.Holds h) (hr : f.Reads r x) :
    h.reg r = x := by
  rcases hr with ⟨rfl, rfl⟩ | hr
  · rfl
  · exact hf.regs (r, x) hr

/-- An instruction that is executed where `f` holds, reading `a` and `b`, leaves `g`. -/
structure Facts.Next (P : Platform C M) (f : Facts C M) (instr : Instr) (a b : Word) (g : Facts C M) : Prop where
  rs1 : f.Reads instr.rs1 a
  rs2 : f.Reads instr.rs2 b
  pc : g.pc = (f.effect P instr a b).nextPc
  regs : ∀ q ∈ g.regs,
    if q.1 ≠ 0#5 ∧ q.1 = instr.rd then (f.effect P instr a b).written P f.mem = some q.2 else q ∈ f.regs
  csrs : g.csrs = csrsAfter P (f.effect P instr a b) f.pc f.csrs
  mem : g.mem = (f.effect P instr a b).stored P f.mem

theorem Facts.Holds.effect_eq {f : Facts C M} {a b : Word} (hf : f.Holds h) (h1 : f.Reads instr.rs1 a)
    (h2 : f.Reads instr.rs2 b) : h.effect P instr = f.effect P instr a b := by
  unfold Hart.effect Hart.operands Facts.effect
  rw [hf.pc, hf.csrs, hf.reg_of_reads h1, hf.reg_of_reads h2]

theorem Facts.Holds.step {f g : Facts C M} {a b : Word} (hf : f.Holds h) (hw : imem f.pc = encode instr)
    (hn : f.Next P instr a b g) : g.Holds (h.step P imem) := by
  have heff := hf.effect_eq (P := P) hn.rs1 hn.rs2
  rw [Hart.step_of_encode (by rw [hf.pc]; exact hw)]
  refine ⟨?_, fun q hq ↦ ?_, ?_, ?_⟩
  · rw [Hart.exec_pc, heff, hn.pc]
  · have hr := hn.regs q hq
    rw [Hart.exec_reg, heff, hf.mem]
    split_ifs at hr ⊢ with hd
    · rw [hr]
      rfl
    · exact hf.regs q hr
  · rw [Hart.exec_csrs, heff, hf.pc, hf.csrs, hn.csrs]
  · rw [Hart.exec_mem, heff, hf.mem, hn.mem]

end Rv32i
