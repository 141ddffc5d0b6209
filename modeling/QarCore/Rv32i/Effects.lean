import QarCore.Rv32i.Semantics

/-!
# Effects on a hart

What a hart makes of an effect, whatever the instruction is that has it.
-/

namespace Rv32i

universe v w

variable {C : Type v} {M : Type w} (P : Platform C M) (h : Hart C M)

/-- The word for the destination register, a loaded one included. -/
def Effect.written (e : Effect) (mem : M) : Option Word :=
  match e.access with
  | some (.load addr) => some (P.load mem addr)
  | _ => e.result

/-- The memory after the effect. -/
def Effect.stored (e : Effect) (mem : M) : M :=
  match e.access with
  | some (.store addr data) => P.store mem addr data
  | _ => mem

/-- The hart after the effect `e` of an instruction with the destination `rd`. -/
def Hart.apply (e : Effect) (rd : Reg) : Hart C M where
  pc := e.nextPc
  regs r := if rd ≠ 0#5 ∧ r = rd then (e.written P h.mem).getD (h.regs r) else h.regs r
  csrs := csrsAfter P e h.pc h.csrs
  mem := e.stored P h.mem

-- An instruction does what its effect says.
theorem Hart.exec_eq_apply (instr : Instr) : h.exec P instr = h.apply P (h.effect P instr) instr.rd := by
  unfold Hart.exec Hart.apply
  congr 1
  funext r
  have hwritten : h.written P instr = (h.effect P instr).written P h.mem := rfl
  unfold Hart.regWrite
  rw [hwritten]
  by_cases h0 : instr.rd = 0#5
  · rw [if_pos h0, if_neg fun hr ↦ hr.1 h0]
    rfl
  · rw [if_neg h0]
    by_cases hr : r = instr.rd
    · rw [if_pos ⟨h0, hr⟩]
      cases (h.effect P instr).written P h.mem with
      | none => rfl
      | some x => exact if_pos hr
    · rw [if_neg fun h ↦ hr h.2]
      cases (h.effect P instr).written P h.mem with
      | none => rfl
      | some x => exact if_neg hr

end Rv32i
