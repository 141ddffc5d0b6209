import QarCore.Core.Residency
import QarCore.Soc.Refinement

/-!
# The accesses of the peripherals

The chip makes the accesses of the program, each in one cycle and in the order of the program, and
between two of them there is always a cycle in which no peripheral is addressed: an instruction that does
not wait for the data memory has left EX before the next one comes in.
-/

namespace QarCore

universe u

variable {M : Type u} {cfg : Config} {imem : Word → Word} {d : DataMem M} {s : Core} {i : Inputs}
  {b : Board M} {a : Arch M} {e : Inputs}

/-! ## EX is empty after every instruction -/

/-- Only behind an access of the data memory is another instruction ready to enter EX. -/
def Gapped (s : Core) : Prop :=
  s.front.ex.valid → s.front.id.valid → ∀ i, (exAction s i).isMem

theorem gapped_reset (regs : RegIdx → Word) : Gapped (Core.reset regs) := fun h ↦ by cases h

-- An instruction that comes into EX leaves ID empty.
theorem id_of_enters (h : entersEx s i) : (posedge cfg s i).front.id.valid = false := by
  simp only [entersEx, Bool.and_eq_true, Bool.not_eq_true'] at h
  change (s.front.next cfg (frontWires s i (control s i))).id.valid = false
  rw [Front.next_id h.1, if_pos h.2]

-- An instruction that stays is not interrupted and does not leave.
theorem quiet_of_stays (h : staysInEx s i) : irqTaken s i = false ∧ exLeaves s i = false := by
  simp only [staysInEx, flushes, Bool.and_eq_true, Bool.not_eq_true', Bool.or_eq_false_iff] at h
  obtain ⟨⟨-, htrap, hflush⟩, hstall⟩ := h
  constructor
  · rw [control_trap_request, Bool.or_eq_false_iff] at htrap
    exact htrap.2
  · unfold exLeaves
    rw [htrap, hflush, hstall]
    exact Bool.and_false _

theorem Gapped.step (h : Sim cfg imem b a) : Gapped (b.step cfg imem d e).core := by
  intro hv hid i
  change (posedge cfg b.core (b.pins imem d e)).front.ex.valid at hv
  change (posedge cfg b.core (b.pins imem d e)).front.id.valid at hid
  rcases posedge_ex_valid hv with hst | hen
  · -- the instruction stays, so it is an access of the data memory
    have hold := @posedge_ex_of_stays cfg _ _ hst
    obtain ⟨hq, hleaves⟩ := quiet_of_stays hst
    rw [hold] at hv
    have hm := h.isMem_of_stays hq hleaves hv
    have hact : exAction (b.step cfg imem d e).core i = exAction b.core (b.pins imem d e) :=
      isMem_action_congr hm (congrArg ExStage.instr hold).symm (congrArg ExStage.rs1Val hold).symm
        (congrArg ExStage.rs2Val hold).symm
    rw [hact]
    exact hm
  · rw [id_of_enters hen] at hid
    cases hid

/-! ## Two accesses -/

theorem accesses_iff : s.periphStart.start.isSome ↔ (periphObs s i).isSome := by
  rw [periphStart_eq s i]
  cases h : periphObs s i with
  | none => exact Iff.rfl
  | some b =>
    rw [periphObs_eq] at h
    split_ifs at h
    cases hact : exAction s i <;> rw [hact] at h <;> cases h <;> exact Iff.rfl

-- An access leaves EX in its cycle, and no instruction is ready to follow it at once.
theorem Gapped.ex_empty (hg : Gapped b.core) (h : Sim cfg imem b a)
    (ho : (periphObs b.core (b.pins imem d e)).isSome) :
    (b.step cfg imem d e).core.front.ex.valid = false := by
  rw [periphObs_eq] at ho
  split_ifs at ho with hv
  · have hm : (exAction b.core (b.pins imem d e)).isMem = false := by
      by_contra hm
      rw [Action.periphOut_of_isMem (by simpa using hm)] at ho
      cases ho
    have hid : b.core.front.id.valid = false := by
      by_contra hid
      rw [hg hv (by simpa using hid)] at hm
      cases hm
    by_contra hnext
    rw [Bool.not_eq_false] at hnext
    rcases @posedge_ex_valid cfg _ _ hnext with hst | hen
    · obtain ⟨hq, hleaves⟩ := quiet_of_stays hst
      rw [h.isMem_of_stays hq hleaves hv] at hm
      cases hm
    · have hidv := Front.idToEx_id (by
        simp only [entersEx, Bool.and_eq_true] at hen
        exact hen.2)
      rw [hid] at hidv
      cases hidv
  · cases ho

namespace Soc

variable {regs : RegIdx → Word} {mem : M} {v : Devices} {inp : Nat → SocInputs} {t : Nat}

-- Every state of a clean run has the gap.
theorem gapped_after (hw : cfg.icacheEnabled → Front.WordFits (HoldsWord imem))
    (hc : CleanUntil cfg imem d regs mem v inp t) :
    Gapped (after cfg imem d regs mem v inp t).board.core := by
  cases t with
  | zero => exact gapped_reset regs
  | succ t =>
    have hsim := sim_after hw fun u (hu : u < t) ↦ hc u (by omega)
    exact Gapped.step hsim

theorem start_none_of_ex_empty {s : Core} (h : s.front.ex.valid = false) :
    s.periphStart.start = none := by
  rw [periphStart_eq s quietInputs, periphObs_eq, h]
  rfl

-- Behind an access EX is empty for a cycle.
theorem ex_empty_after (hw : cfg.icacheEnabled → Front.WordFits (HoldsWord imem))
    (hc : CleanUntil cfg imem d regs mem v inp t) (ha : (busAt cfg imem d regs mem v inp t).start.isSome) :
    (after cfg imem d regs mem v inp (t + 1)).board.core.front.ex.valid = false := by
  have hobs : (periphObs (after cfg imem d regs mem v inp t).board.core
      ((after cfg imem d regs mem v inp t).coreInputs imem d (inp t))).isSome := accesses_iff.mp ha
  exact (gapped_after hw hc).ex_empty (sim_after hw hc) hobs

/-- Whatever the program, the wait states and the interrupts, no two cycles in a row address a
peripheral. -/
theorem accesses_apart (cfg : Config) (imem : Word → Word) (d : DataMem M) (regs : RegIdx → Word)
    (mem : M) (v : Devices) (inp : Nat → SocInputs) (t : Nat)
    (hw : cfg.icacheEnabled → Front.WordFits (HoldsWord imem))
    (hc : CleanUntil cfg imem d regs mem v inp t)
    (ha : (busAt cfg imem d regs mem v inp t).start.isSome) :
    (busAt cfg imem d regs mem v inp (t + 1)).start = none :=
  start_none_of_ex_empty (ex_empty_after hw hc ha)

/-- With memories that answer at once, `pollCounter` starts the timer in cycle 8 and first reads it in
cycle 10. -/
theorem pollCounter_accesses_apart :
    ∃ p, (busAt .noCache pollCounter wordMem (fun _ ↦ 0) (fun _ ↦ 0) idleDevices quick 8).start = some p ∧
      (busAt .noCache pollCounter wordMem (fun _ ↦ 0) (fun _ ↦ 0) idleDevices quick 9).start = none :=
  ⟨.timer0, by decide +kernel, accesses_apart .noCache pollCounter wordMem (fun _ ↦ 0) (fun _ ↦ 0)
    idleDevices quick 8 nofun (pollCounter_plain.clean rfl 8).1 (by decide +kernel)⟩

end Soc

end QarCore
