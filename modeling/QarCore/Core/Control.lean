import QarCore.Core.Action

/-!
# The merged control signals

Which of the signals of `control` come from the arms unchanged and which the overrides after the
`case` replace: the load commit owns the write port, the illegal-instruction and interrupt overrides
own the trap.
-/

namespace QarCore

variable {s : Core} {i : Inputs} {c : ExCtl}

/-! ## What the overrides leave alone -/

@[simp] theorem mergeLoad_mem : (mergeLoad s i c).mem = c.mem := by
  unfold mergeLoad; split <;> rfl
@[simp] theorem mergeLoad_periph : (mergeLoad s i c).periph = c.periph := by
  unfold mergeLoad; split <;> rfl
@[simp] theorem mergeLoad_csr : (mergeLoad s i c).csr = c.csr := by
  unfold mergeLoad; split <;> rfl
@[simp] theorem mergeLoad_trap : (mergeLoad s i c).trap = c.trap := by
  unfold mergeLoad; split <;> rfl
@[simp] theorem mergeLoad_flushPipe : (mergeLoad s i c).flushPipe = c.flushPipe := by
  unfold mergeLoad; split <;> rfl
@[simp] theorem mergeLoad_branchTarget : (mergeLoad s i c).branchTarget = c.branchTarget := by
  unfold mergeLoad; split <;> rfl
@[simp] theorem mergeLoad_stallEx : (mergeLoad s i c).stallEx = c.stallEx := by
  unfold mergeLoad; split <;> rfl
@[simp] theorem mergeLoad_illegalInstr : (mergeLoad s i c).illegalInstr = c.illegalInstr := by
  unfold mergeLoad; split <;> rfl

-- The two trap overrides change nothing but the trap.
theorem mergeIllegal_eq : ∃ t, mergeIllegal s c = { c with trap := t } := by
  unfold mergeIllegal
  split
  · exact ⟨_, rfl⟩
  · exact ⟨c.trap, rfl⟩

theorem mergeIrq_eq : ∃ t, mergeIrq s c = { c with trap := t } := by
  unfold mergeIrq
  split_ifs
  · exact ⟨_, rfl⟩
  · exact ⟨_, rfl⟩
  · exact ⟨c.trap, rfl⟩
  · exact ⟨c.trap, rfl⟩

theorem control_eq : ∃ t, control s i = { mergeLoad s i (decodeCtl s i) with trap := t } := by
  unfold control
  obtain ⟨t, ht⟩ := mergeIrq_eq (s := s) (c := mergeIllegal s (mergeLoad s i (decodeCtl s i)))
  obtain ⟨u, hu⟩ := mergeIllegal_eq (s := s) (c := mergeLoad s i (decodeCtl s i))
  exact ⟨t, by rw [ht, hu]⟩

@[simp] theorem control_mem : (control s i).mem = (decodeCtl s i).mem := by
  obtain ⟨t, ht⟩ := control_eq (s := s) (i := i)
  rw [ht, mergeLoad_mem]
@[simp] theorem control_periph : (control s i).periph = (decodeCtl s i).periph := by
  obtain ⟨t, ht⟩ := control_eq (s := s) (i := i)
  rw [ht, mergeLoad_periph]
@[simp] theorem control_csr : (control s i).csr = (decodeCtl s i).csr := by
  obtain ⟨t, ht⟩ := control_eq (s := s) (i := i)
  rw [ht, mergeLoad_csr]
@[simp] theorem control_flushPipe : (control s i).flushPipe = (decodeCtl s i).flushPipe := by
  obtain ⟨t, ht⟩ := control_eq (s := s) (i := i)
  rw [ht, mergeLoad_flushPipe]
@[simp] theorem control_branchTarget :
    (control s i).branchTarget = (decodeCtl s i).branchTarget := by
  obtain ⟨t, ht⟩ := control_eq (s := s) (i := i)
  rw [ht, mergeLoad_branchTarget]
@[simp] theorem control_stallEx : (control s i).stallEx = (decodeCtl s i).stallEx := by
  obtain ⟨t, ht⟩ := control_eq (s := s) (i := i)
  rw [ht, mergeLoad_stallEx]
@[simp] theorem control_illegalInstr :
    (control s i).illegalInstr = (decodeCtl s i).illegalInstr := by
  obtain ⟨t, ht⟩ := control_eq (s := s) (i := i)
  rw [ht, mergeLoad_illegalInstr]

theorem control_rfWe : (control s i).rfWe = (loadCommit s i || (decodeCtl s i).rfWe) := by
  obtain ⟨t, ht⟩ := control_eq (s := s) (i := i)
  rw [ht]
  unfold mergeLoad
  split <;> simp_all

theorem control_rfWaddr :
    (control s i).rfWaddr = if loadCommit s i then s.dmem.rd else (decodeCtl s i).rfWaddr := by
  obtain ⟨t, ht⟩ := control_eq (s := s) (i := i)
  rw [ht]
  unfold mergeLoad
  split <;> rfl

theorem control_wdata :
    (control s i).wdata = if loadCommit s i then i.memRdata else (decodeCtl s i).wdata := by
  obtain ⟨t, ht⟩ := control_eq (s := s) (i := i)
  rw [ht]
  unfold mergeLoad
  split <;> rfl

/-! ## The trap -/

/-- The trap of the instruction in EX itself: ECALL or an illegal word. -/
def ownTrap (s : Core) (i : Inputs) : Bool :=
  (decodeCtl s i).trap.request || (decodeCtl s i).illegalInstr && s.front.ex.valid

/-- A timer or external interrupt is taken in this cycle. -/
def irqTaken (s : Core) (i : Inputs) : Bool :=
  !ownTrap s i && (takeTimerIrq s || takeExtIrq s)

/-- `mcause` of the interrupt that is taken. -/
def irqCause (s : Core) : Word := if takeTimerIrq s then mcauseTimerIrq else mcauseExtIrq

-- No interrupt is taken while `mstatus.MIE` is clear.
theorem irqTaken_of_masked (h : s.csr.mstatus.getLsbD 3 = false) : irqTaken s i = false := by
  simp only [irqTaken, takeTimerIrq, takeExtIrq, timerCanFire, extCanFire, h, Bool.false_and,
    Bool.or_self, Bool.and_false]

theorem control_trap_of_irq (h : irqTaken s i) :
    (control s i).trap = ⟨true, s.csr.mtvec, irqCause s, irqMepcValue s.front⟩ := by
  simp only [irqTaken, ownTrap, Bool.and_eq_true, Bool.not_eq_true', Bool.or_eq_false_iff] at h
  obtain ⟨⟨hreq, hill⟩, htake⟩ := h
  have hm : mergeIllegal s (mergeLoad s i (decodeCtl s i)) = mergeLoad s i (decodeCtl s i) := by
    unfold mergeIllegal
    rw [if_neg (by simp only [mergeLoad_illegalInstr, hill]; exact Bool.false_ne_true)]
  unfold control mergeIrq irqCause
  rw [hm, mergeLoad_trap, hreq]
  cases ht : takeTimerIrq s
  · simp only [ht, Bool.false_or] at htake
    simp [htake]
  · simp

theorem control_trap_of_not_irq (h : irqTaken s i = false) :
    (control s i).trap =
      if (decodeCtl s i).illegalInstr && s.front.ex.valid then
        ⟨true, s.csr.mtvec, mcauseIllegal, s.front.ex.pc⟩
      else (decodeCtl s i).trap := by
  have hm : (mergeIllegal s (mergeLoad s i (decodeCtl s i))).trap =
      if (decodeCtl s i).illegalInstr && s.front.ex.valid then
        ⟨true, s.csr.mtvec, mcauseIllegal, s.front.ex.pc⟩
      else (decodeCtl s i).trap := by
    unfold mergeIllegal
    simp only [mergeLoad_illegalInstr]
    split
    · rfl
    · exact mergeLoad_trap
  have hr : (mergeIllegal s (mergeLoad s i (decodeCtl s i))).trap.request = ownTrap s i := by
    rw [hm, ownTrap]
    split <;> simp_all
  rw [← hm]
  unfold control mergeIrq
  rw [hr]
  simp only [irqTaken, Bool.and_eq_false_iff, Bool.not_eq_false', Bool.or_eq_false_iff] at h
  rcases h with ho | ⟨ht, he⟩
  · simp [ho]
  · simp [ht, he]

-- The trap an own trap takes: `mepc` is the pc of the instruction in EX.
theorem control_trap_request : (control s i).trap.request = (ownTrap s i || irqTaken s i) := by
  cases h : irqTaken s i
  · rw [control_trap_of_not_irq h, ownTrap]
    split <;> simp_all
  · simp [control_trap_of_irq h]

/-! ## An empty EX drives nothing -/

theorem decodeCtl_empty (h : s.front.ex.valid = false) : decodeCtl s i = defaults (exIn s i) := by
  unfold decodeCtl
  rw [h]; rfl

theorem decodeCtl_valid (h : s.front.ex.valid) :
    decodeCtl s i = (exIn s i).action.ctl (exIn s i) := by
  unfold decodeCtl
  rw [if_pos h, exArms_eq]

end QarCore
