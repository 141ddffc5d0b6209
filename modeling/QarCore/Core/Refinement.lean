import QarCore.Core.FetchQueue
import QarCore.Core.Signals

/-!
# The pipeline refines the one-instruction-at-a-time machine

`Sim` ties the front end, the EX operands and the outstanding DMEM transaction of the board to the
architectural state before the oldest instruction that has not left EX.  A clean cycle (no cache hit
is lost, an interrupt finds nothing committed and nothing but whole instructions) either changes
nothing architectural or is one step of the reference machine.
-/

namespace QarCore

universe u

variable {M : Type u} {cfg : Config} {imem : Word → Word} {d : DataMem M} {s : Core} {i : Inputs}
  {b : Board M} {a : Arch M} {e : Inputs}

/-! ## The relation -/

/-- `instr` is the word of the instruction memory at `p`. -/
def HoldsWord (imem : Word → Word) (p instr : Word) : Prop := instr = imem p

/-- The outstanding transaction is the one of the instruction in EX. -/
def Owned (s : Core) : Prop :=
  s.front.ex.valid ∧ ∀ i, (exAction s i).isMem ∧
    s.dmem = .issued ((exAction s i).memStart s.front.ex.instr)

structure Sim (cfg : Config) (imem : Word → Word) (b : Board M) (a : Arch M) : Prop where
  order : b.core.front.Ordered (HoldsWord imem) a.pc
  cache : b.core.front.CacheOk cfg (HoldsWord imem)
  rs1 : b.core.front.ex.valid → idUsesRs1 b.core.front.ex.instr →
    b.core.front.ex.rs1Val = regRead a.regs (rs1 b.core.front.ex.instr)
  rs2 : b.core.front.ex.valid → idUsesRs2 b.core.front.ex.instr →
    b.core.front.ex.rs2Val = regRead a.regs (rs2 b.core.front.ex.instr)
  regs : b.core.regs = a.regs
  csr : b.core.csr = a.csr
  mem : b.mem = a.mem
  reqValid : b.core.dmem.memReqValid = b.core.dmem.pending
  owner : b.core.dmem.pending → Owned b.core

theorem sim_reset (regs : RegIdx → Word) (m : M) :
    Sim cfg imem (Board.reset regs m) (Arch.reset regs m) where
  order := Front.ordered_reset
  cache := Front.cacheOk_reset
  rs1 h := by cases h
  rs2 h := by cases h
  regs := rfl
  csr := rfl
  mem := rfl
  reqValid := rfl
  owner h := by cases h

/-! ## Labels and clean cycles -/

/-- What an instruction executing in this cycle reads besides the architectural state. -/
def volatileOf (s : Core) (i : Inputs) : Volatile := ⟨s.mip, s.mtime, i.periphRdata⟩

/-- The step of the reference machine in this cycle, if there is one. -/
def eventOf (s : Core) (i : Inputs) : Option Event :=
  if irqTaken s i then some (.irq (irqCause s))
  else if exLeaves s i then some (.exec (volatileOf s i)) else none

/-- An interrupt in this cycle finds EX committing nothing and the queue not reduced to a request. -/
structure CleanIrq (s : Core) (i : Inputs) : Prop where
  rf : rfObs s i = none
  csr : csrObs s i = none
  mem : (control s i).mem.start = false
  dmem : s.dmem.pending = false
  periph : periphObs s i = none
  fetch : s.front.onlyFetchInFlight = false

structure Clean (cfg : Config) (s : Core) (i : Inputs) : Prop where
  hit : s.front.hitLost cfg (frontWires s i (control s i)) = false
  irq : irqTaken s i → CleanIrq s i

namespace Sim

/-! ## What the relation says about the block -/

-- The reference machine asks for what the instruction in EX asks for.
theorem action_eq (h : Sim cfg imem b a) (hi : i.periphRdata = e.periphRdata)
    (hv : b.core.front.ex.valid) :
    a.action imem (volatileOf b.core i) = exAction b.core e := by
  obtain ⟨hpc, hw⟩ := h.order.ex hv
  unfold HoldsWord at hw
  refine action_congr ?_ hpc.symm h.csr.symm rfl rfl hi ?_ ?_
  · exact hw.symm
  · intro hu
    change idUsesRs1 (imem a.pc) at hu
    rw [← hw] at hu
    change regRead a.regs (QarCore.rs1 (imem a.pc)) = b.core.front.ex.rs1Val
    rw [h.rs1 hv hu, hw]
  · intro hu
    change idUsesRs2 (imem a.pc) at hu
    rw [← hw] at hu
    change regRead a.regs (QarCore.rs2 (imem a.pc)) = b.core.front.ex.rs2Val
    rw [h.rs2 hv hu, hw]

theorem pending_of_valid (h : Sim cfg imem b a) (hv : b.core.front.ex.valid = false) :
    b.core.dmem.pending = false := by
  rw [← Bool.not_eq_true]
  intro hp
  rw [(h.owner hp).1] at hv
  cases hv

theorem pending_of_not_isMem (h : Sim cfg imem b a) (hm : (exAction b.core i).isMem = false) :
    b.core.dmem.pending = false := by
  rw [← Bool.not_eq_true]
  intro hp
  rw [((h.owner hp).2 i).1] at hm
  cases hm

-- A memory access leaves EX with its answer, everything else in its first cycle.
theorem exLeaves_eq (h : Sim cfg imem b a) (hq : irqTaken b.core i = false) :
    exLeaves b.core i = (b.core.front.ex.valid &&
      if (exAction b.core i).isMem then b.core.dmem.pending && i.memReady else true) := by
  cases hv : b.core.front.ex.valid
  · rw [exLeaves, hv]; rfl
  · cases hm : (exAction b.core i).isMem
    · rw [exLeaves_of_not_pending hq hv (h.pending_of_not_isMem hm), hm]
      rfl
    · exact exLeaves_of_isMem hq hv hm

-- The port holds the transaction of the action in EX.
theorem dmem_eq (h : Sim cfg imem b a) (hp : b.core.dmem.pending) {act : Action}
    (hact : exAction b.core i = act) :
    b.core.dmem = .issued (act.memStart b.core.front.ex.instr) := by
  rw [← hact]
  exact ((h.owner hp).2 i).2

-- The accepted read returns the word of the data memory.
theorem memRdata_eq (h : Sim cfg imem b a) {addr : Word}
    (hact : exAction b.core (b.pins imem d e) = .memLoad addr) (hp : b.core.dmem.pending)
    (hr : e.memReady) : (b.pins imem d e).memRdata = d.read a.mem addr := by
  have ho := h.dmem_eq hp hact
  have hacc : b.accepted e := by
    unfold Board.accepted
    rw [h.reqValid, hp, hr]; rfl
  simp [Board.pins, hacc, ho, Action.memStart, DmemPort.issued, h.mem]

/-! ## The ports -/

-- The register-file write of a cycle is the one of the instruction that leaves in it.
theorem rfObs_eq (h : Sim cfg imem b a) (hq : irqTaken b.core (b.pins imem d e) = false) :
    rfObs b.core (b.pins imem d e) =
      if exLeaves b.core (b.pins imem d e) then
        (exAction b.core (b.pins imem d e)).rfOut d a.mem b.core.front.ex.instr
      else none := by
  rw [h.exLeaves_eq hq]
  cases hv : b.core.front.ex.valid
  · exact rfObs_empty (loadCommit_of_not_pending (h.pending_of_valid hv)) hv
  · cases hact : exAction b.core (b.pins imem d e) with
    | memLoad addr =>
      have hm : (exAction b.core (b.pins imem d e)).isMem := by rw [hact]; rfl
      cases hp : b.core.dmem.pending
      · exact rfObs_isMem (loadCommit_of_not_pending hp) hm
      · have ho := h.dmem_eq hp hact
        cases hr : e.memReady
        · have hload : loadCommit b.core (b.pins imem d e) = false := by
            simp [loadCommit, hr]
          simp [rfObs_isMem hload hm, hr, Action.isMem]
        · have hload : loadCommit b.core (b.pins imem d e) = true := by
            simp [loadCommit, hr, ho, DmemPort.issued, Action.memStart]
          rw [rfObs_of_loadCommit hload, h.memRdata_eq hact hp hr, ho]
          simp [hr, Action.isMem, Action.rfOut, Action.wb, Action.memStart,
            DmemPort.issued]
    | memStore addr data =>
      have hm : (exAction b.core (b.pins imem d e)).isMem := by rw [hact]; rfl
      have hload : loadCommit b.core (b.pins imem d e) = false := by
        cases hp : b.core.dmem.pending
        · exact loadCommit_of_not_pending hp
        · simp [loadCommit, h.dmem_eq hp hact, DmemPort.issued, Action.memStart]
      simp [rfObs_isMem hload hm, Action.rfOut, Action.wb]
    | _ =>
      have hm : (exAction b.core (b.pins imem d e)).isMem = false := by rw [hact]; rfl
      rw [rfObs_own (loadCommit_of_not_pending (h.pending_of_not_isMem hm)) hv hm d a.mem, hact]
      rfl

end Sim

/-! ## The CSRs -/

theorem csrNext_irq (hq : irqTaken s i) (hc : csrObs s i = none) :
    csrNext s (control s i) =
      trapEntry s.csr (irqCause s) (irqMepcValue s.front) s.csr := by
  have hen : (control s i).csr.en = false := by
    unfold csrObs at hc
    simp only at hc
    split at hc
    · cases hc
    · simpa only [Bool.not_eq_true] using ‹¬(control s i).csr.en = true›
  unfold csrNext
  rw [control_trap_of_irq hq, csrWriteRegs_of_not_en hen]
  rfl

-- Without an interrupt the CSRs take the step of the action in EX.
theorem csrNext_own (hq : irqTaken s i = false) (hv : s.front.ex.valid) :
    csrNext s (control s i) = (exAction s i).nextCsr s.front.ex.instr s.front.ex.pc s.csr := by
  have hcsr : (control s i).csr = (exAction s i).csrWrite s.front.ex.instr := by
    rw [control_csr, decodeCtl_eq hv, Action.ctl_csr]; rfl
  have hmret : (exAction s i).isMret = isMret s.front.ex.instr := action_isMret (exIn s i)
  unfold csrNext Action.nextCsr
  rw [hcsr]
  cases htr : (exAction s i).trapCause with
  | some cause =>
    rw [control_trap_own hq hv htr]
    rfl
  | none =>
    have hnt : (exAction s i).traps = false := by simp [Action.traps, htr]
    have hreq : (control s i).trap.request = false := by
      rw [control_trap_request, ownTrap_eq, hnt, hq, Bool.and_false]; rfl
    have hill : (control s i).illegalInstr = false := by
      have := Action.ctl_traps (x := exIn s i) (exAction s i)
      rw [hnt, Bool.or_eq_false_iff] at this
      rw [control_illegalInstr, decodeCtl_eq hv, this.2]
    simp only [hreq, hill, hv, hmret, Bool.false_eq_true, ↓reduceIte, Bool.not_false,
      Bool.and_true, Bool.true_and]

theorem csrNext_empty (hq : irqTaken s i = false) (hv : s.front.ex.valid = false) :
    csrNext s (control s i) = s.csr := by
  have hreq : (control s i).trap.request = false := by
    rw [control_trap_request, ownTrap_eq, hv, hq]; rfl
  unfold csrNext
  rw [hreq, hv, control_csr, decodeCtl_empty hv, csrWriteRegs_of_not_en rfl]
  rfl

/-! ## The front end -/

-- An instruction that stalls stays in EX.
theorem posedge_ex_of_stall (hf : ((control s i).trap.request || (control s i).flushPipe) = false)
    (hv : s.front.ex.valid) (hst : (control s i).stallEx) :
    (posedge cfg s i).front.ex = s.front.ex := by
  have hcan : s.front.idToEx (frontWires s i (control s i)) = false := by
    simp only [Front.idToEx, Front.exCanAccept, hv, frontWires, hst, Bool.not_true, Bool.or_self,
      Bool.and_false]
  change (s.front.next cfg (frontWires s i (control s i))).ex = _
  rw [Front.next_ex hf, hcan, show (frontWires s i (control s i)).stallEx = true from hst]
  simp only [Bool.false_eq_true, ↓reduceIte, Bool.not_true, Bool.and_false]

-- What ID reads for EX is the register file after this edge.
theorem forward_eq {r : RegIdx} (hid : s.front.id.valid)
    (hx : s.front.ex.valid ∧ (control s i).stallEx = false ∨ (control s i).rfWe = false) :
    forward s (control s i) r true = regRead (posedge cfg s i).regs r := by
  change _ = regRead (regWrite s.regs (control s i).rfWe (control s i).rfWaddr
    (control s i).wdata) r
  rw [regRead_regWrite]
  unfold forward wbEnForward
  rw [hid]
  rcases hx with ⟨hv, hst⟩ | hwe
  · simp only [hv, hst, ↓reduceIte]
    by_cases hz : (control s i).rfWaddr = 0#5 <;> by_cases hr : (control s i).rfWaddr = r <;>
      cases (control s i).rfWe <;> simp_all
  · simp [hwe]

/-! ## One cycle -/

namespace Sim

/-- The state of the reference machine after the cycle. -/
abbrev after (imem : Word → Word) (d : DataMem M) (b : Board M) (e : Inputs) (a : Arch M) :
    Arch M :=
  (eventOf b.core (b.pins imem d e)).elim a (a.step imem d)

theorem after_irq (hq : irqTaken b.core (b.pins imem d e)) :
    after imem d b e a = a.interrupt (irqCause b.core) := by
  simp only [after, eventOf, hq, ↓reduceIte, Option.elim_some]
  rfl

theorem after_stutter (hq : irqTaken b.core (b.pins imem d e) = false)
    (hl : exLeaves b.core (b.pins imem d e) = false) : after imem d b e a = a := by
  simp only [after, eventOf, hq, hl, Bool.false_eq_true, ↓reduceIte, Option.elim_none]

theorem after_leave (h : Sim cfg imem b a) (hq : irqTaken b.core (b.pins imem d e) = false)
    (hl : exLeaves b.core (b.pins imem d e)) :
    after imem d b e a =
      a.exec d b.core.front.ex.instr (exAction b.core (b.pins imem d e)) := by
  have hv : b.core.front.ex.valid := by
    simp only [exLeaves, Bool.and_eq_true] at hl
    exact hl.1.1
  have hw : b.core.front.ex.instr = imem a.pc := (h.order.ex hv).2
  simp only [after, eventOf, hq, hl, Bool.false_eq_true, ↓reduceIte, Option.elim_some, Arch.step]
  rw [h.action_eq (e := b.pins imem d e) rfl hv, hw]

-- Every cycle is an interrupt, an instruction leaving, or no step of the reference machine.
theorem cases_cycle (s : Core) (i : Inputs) :
    irqTaken s i = true ∨ (irqTaken s i = false ∧ exLeaves s i = true) ∨
      (irqTaken s i = false ∧ exLeaves s i = false) := by
  cases irqTaken s i <;> cases exLeaves s i <;> simp

-- An instruction that neither leaves nor is interrupted is an access waiting in EX.
theorem isMem_of_stays (h : Sim cfg imem b a) (hq : irqTaken b.core i = false)
    (hl : exLeaves b.core i = false) (hv : b.core.front.ex.valid) :
    (exAction b.core i).isMem := by
  rw [h.exLeaves_eq hq, hv] at hl
  cases hm : (exAction b.core i).isMem
  · rw [hm] at hl; cases hl
  · rfl

theorem regs_next (h : Sim cfg imem b a) (hc : Clean cfg b.core (b.pins imem d e)) :
    (b.step cfg imem d e).core.regs = (after imem d b e a).regs := by
  change regWrite b.core.regs (control b.core (b.pins imem d e)).rfWe
    (control b.core (b.pins imem d e)).rfWaddr (control b.core (b.pins imem d e)).wdata = _
  rw [regWrite_control, h.regs]
  rcases cases_cycle b.core (b.pins imem d e) with hq | ⟨hq, hl⟩ | ⟨hq, hl⟩
  · rw [after_irq hq, (hc.irq hq).rf]
    rfl
  · rw [h.after_leave hq hl, Arch.exec_regs, h.rfObs_eq hq, hl]
    rfl
  · rw [after_stutter hq hl, h.rfObs_eq hq, hl]
    rfl

theorem csr_next (h : Sim cfg imem b a) (hc : Clean cfg b.core (b.pins imem d e)) :
    (b.step cfg imem d e).core.csr = (after imem d b e a).csr := by
  change csrNext b.core (control b.core (b.pins imem d e)) = _
  rcases cases_cycle b.core (b.pins imem d e) with hq | ⟨hq, hl⟩ | ⟨hq, hl⟩
  · have hpc : irqMepcValue b.core.front = a.pc := by
      have := h.order.head
      rwa [(hc.irq hq).fetch, if_neg Bool.false_ne_true] at this
    rw [after_irq hq, csrNext_irq hq (hc.irq hq).csr, hpc, h.csr]
    rfl
  · have hv : b.core.front.ex.valid := by
      simp only [exLeaves, Bool.and_eq_true] at hl
      exact hl.1.1
    rw [h.after_leave hq hl, csrNext_own hq hv, h.csr, (h.order.ex hv).1]
    rfl
  · rw [after_stutter hq hl, ← h.csr]
    cases hv : b.core.front.ex.valid
    · exact csrNext_empty hq hv
    · have hm := h.isMem_of_stays hq hl hv
      rw [csrNext_own hq hv]
      cases hact : exAction b.core (b.pins imem d e) <;> rw [hact] at hm <;>
        first | rfl | cases hm

theorem mem_next (h : Sim cfg imem b a) (hc : Clean cfg b.core (b.pins imem d e)) :
    (b.step cfg imem d e).mem = (after imem d b e a).mem := by
  change (if b.accepted e && b.core.dmem.memReqWe then _ else b.mem) = _
  rw [Board.accepted, h.reqValid, h.mem]
  rcases cases_cycle b.core (b.pins imem d e) with hq | ⟨hq, hl⟩ | ⟨hq, hl⟩
  · rw [after_irq hq, (hc.irq hq).dmem]
    rfl
  · rw [h.after_leave hq hl]
    have hlv := h.exLeaves_eq hq
    rw [hl, eq_comm, Bool.and_eq_true, Board.pins_memReady] at hlv
    cases hact : exAction b.core (b.pins imem d e) with
    | memLoad addr =>
      rw [hact] at hlv
      have hpr : b.core.dmem.pending = true ∧ e.memReady = true := by
        simpa [Action.isMem] using hlv.2
      simp [h.dmem_eq hpr.1 hact, DmemPort.issued, Action.memStart, Arch.exec, Action.nextMem]
    | memStore addr data =>
      rw [hact] at hlv
      have hpr : b.core.dmem.pending = true ∧ e.memReady = true := by
        simpa [Action.isMem] using hlv.2
      have ho := h.dmem_eq hpr.1 hact
      simp [hpr.2, ho, DmemPort.issued, Action.memStart, Arch.exec, Action.nextMem]
    | _ =>
      have hm : (exAction b.core (b.pins imem d e)).isMem = false := by rw [hact]; rfl
      rw [h.pending_of_not_isMem hm]
      rfl
  · rw [after_stutter hq hl]
    have hlv := h.exLeaves_eq hq
    rw [hl, Board.pins_memReady] at hlv
    cases hp : b.core.dmem.pending
    · rfl
    · have ho := (h.owner hp)
      rw [ho.1, (ho.2 _).1, hp] at hlv
      have hr : e.memReady = false := by simpa using hlv.symm
      simp [hr]

-- An access that does not leave holds EX.
theorem stall_of_stays (h : Sim cfg imem b a) (hq : irqTaken b.core i = false)
    (hl : exLeaves b.core i = false) (hv : b.core.front.ex.valid) :
    ((control b.core i).trap.request || (control b.core i).flushPipe) = false ∧
      (control b.core i).stallEx := by
  have hm := h.isMem_of_stays hq hl hv
  refine ⟨?_, ?_⟩
  · rw [control_flush, hq, Action.traps_of_isMem hm, Action.redirects_of_isMem hm, Bool.or_self,
      Bool.and_false, Bool.or_false]
  · rw [h.exLeaves_eq hq, hv, hm] at hl
    rw [control_stallEx_valid hv, hm]
    cases hp : b.core.dmem.pending
    · simp
    · simpa [hp] using hl

-- A transaction outstanding after the cycle is the one of an access that does not leave.
theorem pending_next (h : Sim cfg imem b a) (hc : Clean cfg b.core (b.pins imem d e))
    (hp : (b.step cfg imem d e).core.dmem.pending) :
    irqTaken b.core (b.pins imem d e) = false ∧ exLeaves b.core (b.pins imem d e) = false ∧
      b.core.front.ex.valid ∧ ∀ i, (exAction b.core i).isMem ∧
        (b.step cfg imem d e).core.dmem =
          .issued ((exAction b.core i).memStart b.core.front.ex.instr) := by
  rcases dmemNext_cases hp with ⟨hst, hpend, hd⟩ | ⟨hpend, hr, hd⟩
  · have hstart := control_mem_eq (s := b.core) (i := b.pins imem d e)
    rw [hst, hpend, eq_comm] at hstart
    simp only [Bool.not_false, Bool.and_true, Bool.and_eq_true] at hstart
    obtain ⟨hv, hm⟩ := hstart
    have hq : irqTaken b.core (b.pins imem d e) = false := by
      rw [← Bool.not_eq_true]
      intro hq
      rw [(hc.irq hq).mem] at hst
      cases hst
    refine ⟨hq, by rw [h.exLeaves_eq hq, hm, hpend]; simp, hv, fun i' ↦ ?_⟩
    have hcongr : exAction b.core i' = exAction b.core (b.pins imem d e) :=
      isMem_action_congr hm rfl rfl rfl
    have hmem : (control b.core (b.pins imem d e)).mem =
        (exAction b.core (b.pins imem d e)).memStart b.core.front.ex.instr := by
      rw [control_mem, decodeCtl_eq hv, Action.ctl_mem]
      change (if b.core.dmem.pending then _ else _) = _
      rw [hpend]; rfl
    rw [hcongr]
    exact ⟨hm, by rw [← hmem]; exact hd⟩
  · obtain ⟨hv, ho⟩ := h.owner hpend
    have hq : irqTaken b.core (b.pins imem d e) = false := by
      rw [← Bool.not_eq_true]
      intro hq
      rw [(hc.irq hq).dmem] at hpend
      cases hpend
    refine ⟨hq, by rw [h.exLeaves_eq hq, (ho _).1, hr]; simp, hv, fun i' ↦ ⟨(ho i').1, ?_⟩⟩
    exact hd.trans (ho i').2

theorem owner_next (h : Sim cfg imem b a) (hc : Clean cfg b.core (b.pins imem d e))
    (hp : (b.step cfg imem d e).core.dmem.pending) : Owned (b.step cfg imem d e).core := by
  obtain ⟨hq, hl, hv, hall⟩ := h.pending_next hc hp
  obtain ⟨hf, hst⟩ := h.stall_of_stays hq hl hv
  have hex : (b.step cfg imem d e).core.front.ex = b.core.front.ex :=
    posedge_ex_of_stall hf hv hst
  refine ⟨by rw [hex]; exact hv, fun i' ↦ ?_⟩
  have hcongr : exAction (b.step cfg imem d e).core i' = exAction b.core i' :=
    isMem_action_congr (hall i').1 (congrArg ExStage.instr hex.symm)
      (congrArg ExStage.rs1Val hex.symm) (congrArg ExStage.rs2Val hex.symm)
  rw [hcongr, hex]
  exact hall i'

-- The answer on the fetch bus is the word of the instruction memory.
theorem answered_fits (b : Board M) (e : Inputs)
    (hans : b.core.front.answered
      (frontWires b.core (b.pins imem d e) (control b.core (b.pins imem d e)))) :
    HoldsWord imem b.core.front.fetchReqAddr (b.pins imem d e).imemRdata := by
  change (b.core.front.fetchReqPending && e.imemReady) = true at hans
  simp only [HoldsWord, Board.pins, hans, ↓reduceIte]

/-- The wires of the cycle. -/
abbrev wires (imem : Word → Word) (d : DataMem M) (b : Board M) (e : Inputs) : FrontWires :=
  frontWires b.core (b.pins imem d e) (control b.core (b.pins imem d e))

-- Where a flush goes is where the reference machine goes.
theorem redirect_eq (h : Sim cfg imem b a) (hf : (wires imem d b e).flush) :
    (wires imem d b e).redirect = (after imem d b e a).pc := by
  change ((control b.core (b.pins imem d e)).trap.request ||
    (control b.core (b.pins imem d e)).flushPipe) = true at hf
  have hfl := hf
  rw [control_flush] at hf
  cases hq : irqTaken b.core (b.pins imem d e)
  · rw [hq, Bool.false_or, Bool.and_eq_true] at hf
    obtain ⟨hv, hred⟩ := hf
    have hl : exLeaves b.core (b.pins imem d e) := by
      rw [exLeaves, hfl, hq, hv]
      rfl
    rw [h.after_leave hq hl, redirect_own hq hv hred, (h.order.ex hv).1, h.csr]
    rfl
  · change (if (control b.core (b.pins imem d e)).trap.request then
      (control b.core (b.pins imem d e)).trap.target
      else (control b.core (b.pins imem d e)).branchTarget) = _
    rw [after_irq hq, control_trap_of_irq hq, h.csr]
    rfl

-- Without a flush the instruction that leaves is followed by the next one in memory.
theorem after_pc (h : Sim cfg imem b a) (hf : (wires imem d b e).flush = false) :
    (after imem d b e a).pc =
      Front.after (b.core.front.ex.valid && !(wires imem d b e).stallEx) a.pc := by
  change ((control b.core (b.pins imem d e)).trap.request ||
    (control b.core (b.pins imem d e)).flushPipe) = false at hf
  have hfl := hf
  rw [control_flush, Bool.or_eq_false_iff] at hf
  obtain ⟨hq, hred⟩ := hf
  have hl : exLeaves b.core (b.pins imem d e) =
      (b.core.front.ex.valid && !(wires imem d b e).stallEx) := by
    unfold exLeaves
    rw [hfl, hq, Bool.false_or, Bool.not_false, Bool.and_true]
    rfl
  rw [← hl]
  cases hlv : exLeaves b.core (b.pins imem d e)
  · rw [after_stutter hq hlv]; rfl
  · have hv : b.core.front.ex.valid := by
      simp only [exLeaves, Bool.and_eq_true] at hlv
      exact hlv.1.1
    rw [h.after_leave hq hlv]
    rw [hv, Bool.true_and, Bool.or_eq_false_iff] at hred
    exact Action.nextPc_of_quiet hred.1 hred.2 a.pc a.csr.mtvec

theorem order_next (h : Sim cfg imem b a) (hc : Clean cfg b.core (b.pins imem d e)) :
    (b.step cfg imem d e).core.front.Ordered (HoldsWord imem) (after imem d b e a).pc := by
  change (b.core.front.next cfg (wires imem d b e)).Ordered _ _
  by_cases hf : (wires imem d b e).flush
  · rw [← h.redirect_eq hf]
    exact Front.ordered_flush hf
  · rw [Bool.not_eq_true] at hf
    rw [h.after_pc hf]
    exact h.order.next hf hc.hit (answered_fits b e) h.cache.lookup

-- The operands EX gets are those of the reference machine after the cycle.
theorem operands_next (h : Sim cfg imem b a) (hc : Clean cfg b.core (b.pins imem d e))
    {ex : ExStage} (hex : (b.step cfg imem d e).core.front.ex = ex) (hv : ex.valid) :
    (idUsesRs1 ex.instr → ex.rs1Val = regRead (after imem d b e a).regs (QarCore.rs1 ex.instr)) ∧
      (idUsesRs2 ex.instr →
        ex.rs2Val = regRead (after imem d b e a).regs (QarCore.rs2 ex.instr)) := by
  have hregs : (posedge cfg b.core (b.pins imem d e)).regs = (after imem d b e a).regs :=
    h.regs_next hc
  rw [← hregs]
  change (b.core.front.next cfg (wires imem d b e)).ex = ex at hex
  by_cases hf : (wires imem d b e).flush
  · rw [Front.next_flush hf] at hex
    rw [← hex] at hv
    cases hv
  rw [Bool.not_eq_true] at hf
  rw [Front.next_ex hf] at hex
  by_cases hx : b.core.front.idToEx (wires imem d b e)
  · -- a new instruction: its operands are read or forwarded in this cycle
    rw [if_pos hx] at hex
    subst hex
    have hid := Front.idToEx_id hx
    have hacc : b.core.front.ex.valid ∧ (control b.core (b.pins imem d e)).stallEx = false ∨
        (control b.core (b.pins imem d e)).rfWe = false := by
      cases hxv : b.core.front.ex.valid
      · refine .inr ?_
        rw [control_rfWe, loadCommit_of_not_pending (h.pending_of_valid hxv), decodeCtl_empty hxv]
        rfl
      · simp only [Front.idToEx, Front.exCanAccept, hxv, Bool.and_eq_true, Bool.not_true,
          Bool.false_or, Bool.not_eq_true'] at hx
        exact .inl ⟨rfl, hx.2⟩
    refine ⟨fun hu ↦ ?_, fun hu ↦ ?_⟩
    · change idUsesRs1 b.core.front.id.instr at hu
      rw [← forward_eq hid hacc]
      change forward _ _ _ (idUsesRs1 b.core.front.id.instr) = _
      rw [hu]
    · change idUsesRs2 b.core.front.id.instr at hu
      rw [← forward_eq hid hacc]
      change forward _ _ _ (idUsesRs2 b.core.front.id.instr) = _
      rw [hu]
  · -- the instruction in EX stays: nothing has happened
    rw [if_neg hx] at hex
    split_ifs at hex with hlv
    · rw [← hex] at hv
      cases hv
    · rw [hex, hv, Bool.true_and, Bool.not_eq_true, Bool.not_eq_false'] at hlv
      change ((control b.core (b.pins imem d e)).trap.request ||
        (control b.core (b.pins imem d e)).flushPipe) = false at hf
      have hl : exLeaves b.core (b.pins imem d e) = false := by
        change (control b.core (b.pins imem d e)).stallEx = true at hlv
        rw [exLeaves, hf, hlv]
        simp
      have hq : irqTaken b.core (b.pins imem d e) = false := by
        rw [control_flush, Bool.or_eq_false_iff] at hf
        exact hf.1
      have hxv : b.core.front.ex.valid := by rw [hex]; exact hv
      rw [hregs, after_stutter hq hl, ← hex]
      exact ⟨h.rs1 hxv, h.rs2 hxv⟩

-- One clean cycle: the reference machine makes the step of the cycle, or none.
theorem step (h : Sim cfg imem b a) (hc : Clean cfg b.core (b.pins imem d e))
    (hw : cfg.icacheEnabled → Front.WordFits (HoldsWord imem)) :
    Sim cfg imem (b.step cfg imem d e) (after imem d b e a) where
  order := h.order_next hc
  cache := h.cache.next hw (answered_fits b e)
  rs1 hv := (h.operands_next hc rfl hv).1
  rs2 hv := (h.operands_next hc rfl hv).2
  regs := h.regs_next hc
  csr := h.csr_next hc
  mem := h.mem_next hc
  reqValid := dmemNext_reqValid h.reqValid
  owner := h.owner_next hc

/-! ## What a cycle shows -/

-- An output that an interrupt does not show and that comes from the instruction that leaves is an output of
-- the step of the reference machine.
theorem shows {α : Type*} (h : Sim cfg imem b a) {o : Option α} (out : Word → Action → Option α)
    (hirq : irqTaken b.core (b.pins imem d e) → o = none)
    (hown : irqTaken b.core (b.pins imem d e) = false →
      o = if exLeaves b.core (b.pins imem d e) then
        out b.core.front.ex.instr (exAction b.core (b.pins imem d e)) else none) :
    o = (eventOf b.core (b.pins imem d e)).bind (a.onExec imem out) := by
  rcases cases_cycle b.core (b.pins imem d e) with hq | ⟨hq, hl⟩ | ⟨hq, hl⟩
  · simp only [hirq hq, eventOf, hq, ↓reduceIte, Option.bind_some, Arch.onExec]
  · have hv : b.core.front.ex.valid := by
      simp only [exLeaves, Bool.and_eq_true] at hl
      exact hl.1.1
    have hw : b.core.front.ex.instr = imem a.pc := (h.order.ex hv).2
    simp only [hown hq, eventOf, hq, hl, Bool.false_eq_true, ↓reduceIte, Option.bind_some,
      Arch.onExec]
    rw [h.action_eq (e := b.pins imem d e) rfl hv, hw]
  · simp only [hown hq, eventOf, hq, hl, Bool.false_eq_true, ↓reduceIte, Option.bind_none]

theorem left_shown (h : Sim cfg imem b a) :
    leftObs b.core (b.pins imem d e) =
      (eventOf b.core (b.pins imem d e)).bind (a.left imem) := by
  refine h.shows _ (fun hq ↦ ?_) fun _ ↦ ?_
  · simp [leftObs, exLeaves, hq]
  · unfold leftObs
    cases hl : exLeaves b.core (b.pins imem d e)
    · rfl
    · have hv : b.core.front.ex.valid := by
        simp only [exLeaves, Bool.and_eq_true] at hl
        exact hl.1.1
      rw [(h.order.ex hv).1]

theorem rf_shown (h : Sim cfg imem b a) (hc : Clean cfg b.core (b.pins imem d e)) :
    rfObs b.core (b.pins imem d e) =
      (eventOf b.core (b.pins imem d e)).bind (a.rfWrite imem d) :=
  h.shows _ (fun hq ↦ (hc.irq hq).rf) fun hq ↦ h.rfObs_eq hq

-- An output that accesses do not have shows what the instruction in EX puts out.
theorem shows_of_quiet_access {α : Type*} (h : Sim cfg imem b a) (out : Word → Action → Option α)
    (hmem : ∀ w act, act.isMem → out w act = none)
    (hq : irqTaken b.core (b.pins imem d e) = false) :
    (if b.core.front.ex.valid then
      out b.core.front.ex.instr (exAction b.core (b.pins imem d e)) else none) =
      if exLeaves b.core (b.pins imem d e) then
        out b.core.front.ex.instr (exAction b.core (b.pins imem d e)) else none := by
  cases hl : exLeaves b.core (b.pins imem d e)
  · cases hv : b.core.front.ex.valid
    · rfl
    · rw [hmem _ _ (h.isMem_of_stays hq hl hv)]
      rfl
  · have hv : b.core.front.ex.valid := by
      simp only [exLeaves, Bool.and_eq_true] at hl
      exact hl.1.1
    rw [hv]

theorem csr_shown (h : Sim cfg imem b a) (hc : Clean cfg b.core (b.pins imem d e)) :
    csrObs b.core (b.pins imem d e) =
      (eventOf b.core (b.pins imem d e)).bind (a.csrWrite imem) := by
  refine h.shows _ (fun hq ↦ (hc.irq hq).csr) fun hq ↦ ?_
  rw [csrObs_eq]
  refine h.shows_of_quiet_access (fun w act ↦ act.csrOut w) (fun w act hm ↦ ?_) hq
  simp [Action.csrOut, Action.csrWrite_of_isMem hm]

theorem periph_shown (h : Sim cfg imem b a) (hc : Clean cfg b.core (b.pins imem d e)) :
    periphObs b.core (b.pins imem d e) =
      (eventOf b.core (b.pins imem d e)).bind (a.periphOp imem) := by
  refine h.shows _ (fun hq ↦ (hc.irq hq).periph) fun hq ↦ ?_
  rw [periphObs_eq]
  exact h.shows_of_quiet_access (fun _ act ↦ act.periphOut)
    (fun _ act hm ↦ Action.periphOut_of_isMem hm) hq

theorem dmem_shown (h : Sim cfg imem b a) (hc : Clean cfg b.core (b.pins imem d e)) :
    dmemObs b.core (b.pins imem d e) =
      (eventOf b.core (b.pins imem d e)).bind (a.dmemOp imem d) := by
  unfold dmemObs
  rw [h.reqValid]
  refine h.shows _ (fun hq ↦ by rw [(hc.irq hq).dmem]; rfl) fun hq ↦ ?_
  rw [h.exLeaves_eq hq, Board.pins_memReady]
  cases hp : b.core.dmem.pending
  · cases hact : exAction b.core (b.pins imem d e) <;>
      simp [Action.isMem, Action.dmemOut]
  · obtain ⟨hv, ho⟩ := h.owner hp
    rw [hv, (ho _).1]
    cases hr : e.memReady
    · rfl
    · have hm := (ho (b.pins imem d e)).1
      cases hact : exAction b.core (b.pins imem d e) with
      | memLoad addr =>
        rw [h.memRdata_eq hact hp hr, h.dmem_eq hp hact]
        rfl
      | memStore addr data =>
        rw [h.dmem_eq hp hact]
        rfl
      | _ => rw [hact] at hm; cases hm

end Sim

/-! ## Runs -/

section Runs

variable {regs : RegIdx → Word} {m : M} {env : Nat → Inputs}

/-- The steps of the reference machine in the first `t` cycles. -/
def events (cfg : Config) (imem : Word → Word) (d : DataMem M) (regs : RegIdx → Word) (m : M)
    (env : Nat → Inputs) (t : Nat) : List Event :=
  Board.shown eventOf cfg imem d regs m env t

/-- Every cycle of the first `t` is clean. -/
def CleanUntil (cfg : Config) (imem : Word → Word) (d : DataMem M) (regs : RegIdx → Word) (m : M)
    (env : Nat → Inputs) (t : Nat) : Prop :=
  ∀ u, u < t → Clean cfg (Board.run cfg imem d regs m env u).core
    ((Board.run cfg imem d regs m env u).pins imem d (env u))

/-- The state of the reference machine after the steps of the first `t` cycles. -/
def archAt (cfg : Config) (imem : Word → Word) (d : DataMem M) (regs : RegIdx → Word) (m : M)
    (env : Nat → Inputs) (t : Nat) : Arch M :=
  (events cfg imem d regs m env t).foldl (Arch.step imem d) (Arch.reset regs m)

-- The relation holds all along a clean run.
theorem sim_run (hw : cfg.icacheEnabled → Front.WordFits (HoldsWord imem)) {t : Nat}
    (hc : CleanUntil cfg imem d regs m env t) :
    Sim cfg imem (Board.run cfg imem d regs m env t) (archAt cfg imem d regs m env t) :=
  Clocked.simulation (R := Sim cfg imem)
    (C := fun b e ↦ Clean cfg b.core (b.pins imem d e)) (sim_reset regs m)
    (fun _ _ _ h hok ↦ h.step hok hw) t hc

-- A clean run shows the outputs of the reference machine along its steps, in order.
theorem shown_run {α : Type*} {obs : Core → Inputs → Option α}
    (out : Arch M → Event → Option α)
    (hobs : ∀ b a e, Sim cfg imem b a → Clean cfg b.core (b.pins imem d e) →
      obs b.core (b.pins imem d e) = (eventOf b.core (b.pins imem d e)).bind (out a))
    (hw : cfg.icacheEnabled → Front.WordFits (HoldsWord imem)) {t : Nat}
    (hc : CleanUntil cfg imem d regs m env t) :
    Board.shown obs cfg imem d regs m env t =
      Clocked.emitted (Arch.step imem d) out (Arch.reset regs m)
        (events cfg imem d regs m env t) :=
  Clocked.simulation_trace (R := Sim cfg imem)
    (C := fun b e ↦ Clean cfg b.core (b.pins imem d e)) (sim_reset regs m)
    (fun _ _ _ h hok ↦ h.step hok hw) (fun b e a h hok ↦ hobs b a e h hok) t hc

/-- No interrupt is taken in the first `t` cycles of the run. -/
def NoInterruptUntil (cfg : Config) (imem : Word → Word) (d : DataMem M) (regs : RegIdx → Word)
    (m : M) (env : Nat → Inputs) (t : Nat) : Prop :=
  ∀ u, u < t → irqTaken (Board.run cfg imem d regs m env u).core
    ((Board.run cfg imem d regs m env u).pins imem d (env u)) = false

instance (t : Nat) : Decidable (NoInterruptUntil cfg imem d regs m env t) :=
  inferInstanceAs (Decidable (∀ u, u < t → _))

/-- No interrupt is taken in the run. -/
def NoInterrupt (cfg : Config) (imem : Word → Word) (d : DataMem M) (regs : RegIdx → Word) (m : M)
    (env : Nat → Inputs) : Prop :=
  ∀ t, irqTaken (Board.run cfg imem d regs m env t).core
    ((Board.run cfg imem d regs m env t).pins imem d (env t)) = false

/-- No cache hit is lost in the first `t` cycles of the run. -/
def NoHitLostUntil (cfg : Config) (imem : Word → Word) (d : DataMem M) (regs : RegIdx → Word)
    (m : M) (env : Nat → Inputs) (t : Nat) : Prop :=
  ∀ u, u < t → (Board.run cfg imem d regs m env u).core.front.hitLost cfg
    (Sim.wires imem d (Board.run cfg imem d regs m env u) (env u)) = false

instance (t : Nat) : Decidable (NoHitLostUntil cfg imem d regs m env t) :=
  inferInstanceAs (Decidable (∀ u, u < t → _))

-- Without interrupts a cycle is clean if no hit is lost in it.
theorem clean_of_noInterrupt {t : Nat} (h : NoInterruptUntil cfg imem d regs m env t)
    (hl : NoHitLostUntil cfg imem d regs m env t) : CleanUntil cfg imem d regs m env t :=
  fun u hu ↦ ⟨hl u hu, fun hq ↦ by rw [h u hu] at hq; cases hq⟩

theorem noHitLost_of_disabled (he : cfg.icacheEnabled = false) (t : Nat) :
    NoHitLostUntil cfg imem d regs m env t := fun _ _ ↦ Front.hitLost_of_disabled he

-- Without a cache and without interrupts every cycle is clean.
theorem clean_of_disabled (he : cfg.icacheEnabled = false) {t : Nat}
    (h : NoInterruptUntil cfg imem d regs m env t) : CleanUntil cfg imem d regs m env t :=
  clean_of_noInterrupt h (noHitLost_of_disabled he t)

theorem events_exec {t : Nat} (h : NoInterruptUntil cfg imem d regs m env t) :
    ∀ e ∈ events cfg imem d regs m env t, ∃ v, e = .exec v := by
  induction t with
  | zero => intro e he; cases he
  | succ t ih =>
    intro e he
    rw [events, Board.shown, Clocked.labels_succ, List.mem_append] at he
    rcases he with he | he
    · exact ih (fun u hu ↦ h u (by omega)) e he
    · have hq := h t (Nat.lt_succ_self t)
      unfold Board.run at hq
      simp only [eventOf, hq, Bool.false_eq_true, if_false] at he
      split_ifs at he
      · exact ⟨_, by simpa using he⟩
      · cases he

end Runs

end QarCore
