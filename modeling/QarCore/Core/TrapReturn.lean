import QarCore.Core.Interrupts

/-!
# Trap entry and return

The two interrupt-enable bits of `mstatus`: a trap moves MIE to MPIE and masks interrupts, MRET moves it
back, and a CSR write is the only other thing that reaches them.
-/

namespace QarCore

variable {cfg : Config} {regs : RegIdx → Word} {inp : Nat → Inputs} {s : Core} {i : Inputs} {t u : Nat}

/-- `global_mie`, which is `mstatus[3]`. -/
def Core.globalMie (s : Core) : Bool := s.csr.mstatus.getLsbD 3

/-- `mstatus[7]` -/
def Core.mpie (s : Core) : Bool := s.csr.mstatus.getLsbD 7

/-- A trap is entered in this cycle, for an exception or an interrupt. -/
def entersTrap (s : Core) (i : Inputs) : Bool := (control s i).trap.request

/-- MRET executes in EX: it is there, and no trap displaces it. -/
def executesMret (s : Core) (i : Inputs) : Bool :=
  s.front.ex.valid && isMret s.front.ex.instr && !entersTrap s i

/-- A CSR instruction writes `mstatus`. -/
def writesMstatus (s : Core) (i : Inputs) : Bool :=
  (control s i).csr.en && (control s i).csr.addr == CsrAddr.mstatus

/-! ## One edge -/

theorem csrWriteRegs_mstatus {w : CsrWrite} {n : Csr} : (csrWriteRegs w n).mstatus =
    if w.en && w.addr == CsrAddr.mstatus then w.data else n.mstatus := by
  by_cases ha : w.addr = CsrAddr.mstatus
  · cases he : w.en <;> simp [csrWriteRegs, he, ha]
  · -- the other addresses leave it alone
    have hno : (w.addr == CsrAddr.mstatus) = false := beq_eq_false_iff_ne.mpr ha
    rw [hno, Bool.and_false]
    simp only [csrWriteRegs, ha, ↓reduceIte, apply_ite Csr.mstatus, ite_self, Bool.false_eq_true]

-- an MRET word decodes to MRET, so it is not illegal
theorem illegalInstr_of_isMret (hv : s.front.ex.valid) (hm : isMret s.front.ex.instr) :
    (control s i).illegalInstr = false := by
  have hact : exAction s i = .mret s.csr.mepc := action_of_isMret (x := exIn s i) hm
  rw [control_illegalInstr, decodeCtl_eq hv, hact]
  rfl

-- What one edge does to `mstatus`.
theorem posedge_mstatus : (posedge cfg s i).csr.mstatus =
    if entersTrap s i then
      setBit (setBit (csrWriteRegs (control s i).csr s.csr).mstatus 7 s.globalMie) 3 false
    else if executesMret s i then
      setBit (setBit (csrWriteRegs (control s i).csr s.csr).mstatus 3 s.mpie) 7 true
    else if writesMstatus s i then (control s i).csr.data
    else s.csr.mstatus := by
  show (csrNext s (control s i)).mstatus = _
  simp only [csrNext, show (control s i).trap.request = entersTrap s i from rfl]
  by_cases ht : entersTrap s i
  · rw [if_pos ht, if_pos ht]
    rfl
  · rw [if_neg ht, if_neg ht]
    by_cases hm : s.front.ex.valid && isMret s.front.ex.instr
    · have hm' := hm
      rw [Bool.and_eq_true] at hm'
      have hill := illegalInstr_of_isMret (i := i) hm'.1 hm'.2
      have hx : executesMret s i := by simp [executesMret, hm, ht]
      rw [hm, hill, if_pos hx]
      rfl
    · rw [if_neg (by simp [hm]), if_neg (by simp [executesMret, hm]), csrWriteRegs_mstatus]
      rfl

theorem posedge_mie : (posedge cfg s i).globalMie =
    if entersTrap s i then false
    else if executesMret s i then s.mpie
    else if writesMstatus s i then (control s i).csr.data.getLsbD 3
    else s.globalMie := by
  unfold Core.globalMie
  rw [posedge_mstatus]
  split_ifs with ht hm hw
  · exact (getLsbD_setBit _ _ _ _ (by decide)).trans (if_pos rfl)
  · rw [getLsbD_setBit _ _ _ _ (by decide), if_neg (by decide)]
    exact (getLsbD_setBit _ _ _ _ (by decide)).trans (if_pos rfl)
  · rfl
  · rfl

theorem posedge_mpie : (posedge cfg s i).mpie =
    if entersTrap s i then s.globalMie
    else if executesMret s i then true
    else if writesMstatus s i then (control s i).csr.data.getLsbD 7
    else s.mpie := by
  unfold Core.mpie
  rw [posedge_mstatus]
  split_ifs with ht hm hw
  · rw [getLsbD_setBit _ _ _ _ (by decide), if_neg (by decide)]
    exact (getLsbD_setBit _ _ _ _ (by decide)).trans (if_pos rfl)
  · exact (getLsbD_setBit _ _ _ _ (by decide)).trans (if_pos rfl)
  · rfl
  · rfl

/-! ## Runs -/

/-- An MRET, or a CSR write that sets MIE. -/
def enablesInterrupts (s : Core) (i : Inputs) : Bool :=
  executesMret s i || !entersTrap s i && writesMstatus s i && (control s i).csr.data.getLsbD 3

/-- Nothing reaches the two bits: no trap, no MRET and no write to `mstatus`. -/
def leavesMstatus (s : Core) (i : Inputs) : Bool :=
  !entersTrap s i && !executesMret s i && !writesMstatus s i

/-- What a handler relies on. -/
structure TrapDiscipline (cfg : Config) (regs : RegIdx → Word) (inp : Nat → Inputs) : Prop where
  /-- After a trap no interrupt is taken until an MRET or a write that sets MIE has been executed. -/
  masked : ∀ t u, t < u → entersTrap (Core.run cfg regs inp t) (inp t) →
    irqTaken (Core.run cfg regs inp u) (inp u) →
    ∃ v, t < v ∧ v < u ∧ enablesInterrupts (Core.run cfg regs inp v) (inp v)
  /-- The MRET that follows a trap brings MIE back to its value in the cycle of the trap, whatever CSR
  instruction was in EX in that cycle. -/
  restored : ∀ t u, t < u → entersTrap (Core.run cfg regs inp t) (inp t) →
    executesMret (Core.run cfg regs inp u) (inp u) →
    (∀ v, t < v → v < u → leavesMstatus (Core.run cfg regs inp v) (inp v)) →
    (Core.run cfg regs inp (u + 1)).globalMie = (Core.run cfg regs inp t).globalMie ∧
      (Core.run cfg regs inp (u + 1)).mpie = true

theorem mie_of_not_enables (h : s.globalMie = false) (hn : enablesInterrupts s i = false) :
    (posedge cfg s i).globalMie = false := by
  simp only [enablesInterrupts, Bool.or_eq_false_iff, Bool.and_eq_false_iff, Bool.not_eq_false'] at hn
  obtain ⟨hm, hw⟩ := hn
  rw [posedge_mie, hm, if_neg Bool.false_ne_true]
  split_ifs with ht hwr
  · rfl
  · rcases hw with (ht' | hwr') | hd
    · exact absurd ht' ht
    · exact absurd hwr (by rw [hwr']; exact Bool.false_ne_true)
    · exact hd
  · exact h

-- the induction of the first rule, over the cycles since the trap
theorem mie_of_trap (ht : entersTrap (Core.run cfg regs inp t) (inp t)) (d : Nat)
    (hn : ∀ v, t < v → v < t + d + 1 → enablesInterrupts (Core.run cfg regs inp v) (inp v) = false) :
    (Core.run cfg regs inp (t + d + 1)).globalMie = false := by
  induction d with
  | zero =>
    show (Core.run cfg regs inp (t + 1)).globalMie = false
    rw [Core.run_succ, posedge_mie, if_pos ht]
  | succ d ih =>
    rw [Core.run_succ]
    apply mie_of_not_enables
    · exact ih fun v h1 h2 ↦ hn v h1 (by omega)
    · exact hn (t + d + 1) (by omega) (by omega)

-- and of the second
theorem mpie_of_trap (ht : entersTrap (Core.run cfg regs inp t) (inp t)) (d : Nat)
    (hn : ∀ v, t < v → v < t + d + 1 → leavesMstatus (Core.run cfg regs inp v) (inp v)) :
    (Core.run cfg regs inp (t + d + 1)).mpie = (Core.run cfg regs inp t).globalMie := by
  induction d with
  | zero =>
    show (Core.run cfg regs inp (t + 1)).mpie = _
    rw [Core.run_succ, posedge_mpie, if_pos ht]
  | succ d ih =>
    have hkeep := hn (t + d + 1) (by omega) (by omega)
    simp only [leavesMstatus, Bool.and_eq_true, Bool.not_eq_true'] at hkeep
    rw [← ih fun v h1 h2 ↦ hn v h1 (by omega), ← Nat.add_assoc, Core.run_succ, posedge_mpie,
      hkeep.1.1, hkeep.1.2, hkeep.2]
    rfl

/-- The trap and MRET discipline of `mstatus`, in every run. -/
theorem trap_discipline (cfg : Config) (regs : RegIdx → Word) (inp : Nat → Inputs) :
    TrapDiscipline cfg regs inp where
  masked := by
    intro t u htu ht hq
    by_contra hno
    push Not at hno
    obtain ⟨d, rfl⟩ := Nat.exists_eq_add_of_lt htu
    have hmie := mie_of_trap ht d fun v h1 h2 ↦ Bool.not_eq_true _ |>.mp (hno v h1 h2)
    rw [irqTaken_of_masked hmie] at hq
    cases hq
  restored := by
    intro t u htu ht hm hn
    obtain ⟨d, rfl⟩ := Nat.exists_eq_add_of_lt htu
    have hmpie := mpie_of_trap ht d hn
    have hno : entersTrap (Core.run cfg regs inp (t + d + 1)) (inp (t + d + 1)) = false := by
      simp only [executesMret, Bool.and_eq_true, Bool.not_eq_true'] at hm
      exact hm.2
    rw [Core.run_succ, posedge_mie, posedge_mpie, hno, hm]
    exact ⟨hmpie, rfl⟩

/-- The interrupt of cycle 24 finds interrupts enabled, and the MRET of cycle 32 enables them again. -/
theorem trap_discipline_tickLoop :
    (Core.run .noCache (fun _ ↦ 0#32) (tickPins 23) 33).globalMie = true ∧
      (Core.run .noCache (fun _ ↦ 0#32) (tickPins 23) 33).mpie = true := by
  have hmie : (Core.run .noCache (fun _ ↦ 0#32) (tickPins 23) 24).globalMie = true := by
    rw [tickPins, Core.run_inputs]
    decide +kernel
  have htrap : entersTrap (Core.run .noCache (fun _ ↦ 0#32) (tickPins 23) 24) (tickPins 23 24) := by
    rw [tickPins, Core.run_inputs]
    decide +kernel
  have hmret : executesMret (Core.run .noCache (fun _ ↦ 0#32) (tickPins 23) 32) (tickPins 23 32) := by
    rw [tickPins, Core.run_inputs]
    decide +kernel
  have hquiet : ∀ v, 24 < v → v < 32 → leavesMstatus (Core.run .noCache (fun _ ↦ 0#32) (tickPins 23) v)
      (tickPins 23 v) := by
    intro v h1 h2
    rw [tickPins, Core.run_inputs]
    interval_cases v <;> decide +kernel
  obtain ⟨hback, hmpie⟩ := (trap_discipline .noCache (fun _ ↦ 0#32) (tickPins 23)).restored 24 32
    (by decide) htrap hmret hquiet
  exact ⟨hback.trans hmie, hmpie⟩

end QarCore
