import QarCore.Soc.Soc

/-!
# The chip refines the hart with its peripherals

In every clean cycle the chip does what the hart of the machine does in its turn: the peripherals see
the same bus, so they go through the same states, and what they answer is what the hart loads.
-/

namespace QarCore

universe u

open Clocked (run)
open Rv32i (Hart Instr decode)

variable {M : Type u} {cfg : Config} {imem : Word → Word} {d : DataMem M}

/-! ## One instruction -/

namespace Machine

variable {m : Machine M} {i : Pins} {v : Volatile} {instr : Instr}

/-- The hart as the architectural state of the core. -/
def arch (m : Machine M) : Arch M := ⟨m.hart.pc, m.hart.regs, m.hart.csrs, m.hart.mem⟩

theorem arch_of_toHart {a : Arch M} (h : a.toHart = m.hart) : m.arch = a := by
  unfold arch
  rw [← h]
  rfl

section Instruction

variable (h : decode (imem m.hart.pc) = some instr)

include h

theorem shows_of_decode {α : Type*} (out : Hart Csr M → Instr → Option α) :
    m.hart.shows imem out = out m.hart instr := by
  unfold Hart.shows
  rw [h]
  rfl

theorem access_of_decode :
    m.access imem d i .exec = (m.hart.effect (m.platform d i) instr).access :=
  shows_of_decode h fun h' instr ↦ (h'.effect (m.platform d i) instr).access

variable (hmip : v.mip = m.mip) (hmtime : v.mtime = m.mtime)

include hmip hmtime

-- EX and the hart see the same effect.
theorem effect_arch :
    (m.arch.exIn imem v).effect instr = m.hart.effect (m.platform d i) instr := by
  have henc := Rv32i.encode_decode h
  refine Rv32i.effect_congr rfl (fun hu ↦ ?_) (fun hu ↦ ?_) (fun addr _ ↦ ?_) rfl rfl
  · have hf : rs1 (imem m.hart.pc) = instr.rs1 := by
      have := Rv32i.Instr.rs1Field_encode hu
      rwa [henc] at this
    change regRead m.hart.regs (rs1 (imem m.hart.pc)) = _
    rw [hf]
    rfl
  · have hf : rs2 (imem m.hart.pc) = instr.rs2 := by
      have := Rv32i.Instr.rs2Field_encode hu
      rwa [henc] at this
    change regRead m.hart.regs (rs2 (imem m.hart.pc)) = _
    rw [hf]
    rfl
  · change csrRead m.hart.csrs v.mip v.mtime addr = csrRead m.hart.csrs m.mip m.mtime addr
    rw [hmip, hmtime]

-- An access is the one the address window decides on.
theorem action_of_access {acc : Rv32i.Access}
    (ha : (m.hart.effect (m.platform d i) instr).access = some acc) :
    m.arch.action imem v =
      match acc with
      | .load addr => loadFrom (m.arch.exIn imem v) addr
      | .store addr data => storeTo addr data := by
  rw [← effect_arch h hmip hmtime] at ha
  rw [action_eq_actionOf (a := m.arch) h]
  cases acc with
  | load addr => exact (actionOf_load ha).1
  | store addr data => exact actionOf_store ha

theorem action_plain (ha : (m.hart.effect (m.platform d i) instr).access = none) :
    (m.arch.action imem v).isMem = false ∧ (m.arch.action imem v).periphOut = none := by
  rw [← effect_arch h hmip hmtime] at ha
  rw [action_eq_actionOf (a := m.arch) h]
  exact actionOf_plain ha

theorem nextPc_arch : (m.arch.action imem v).nextPc m.hart.pc m.hart.csrs.mtvec =
    (m.hart.effect (m.platform d i) instr).nextPc := by
  rw [action_eq_actionOf (a := m.arch) h, ← effect_arch h hmip hmtime]
  exact actionOf_nextPc (x := m.arch.exIn imem v)

theorem nextCsr_arch : (m.arch.action imem v).nextCsr (imem m.hart.pc) m.hart.pc m.hart.csrs =
    Rv32i.csrsAfter (m.platform d i) (m.hart.effect (m.platform d i) instr) m.hart.pc m.hart.csrs := by
  rw [action_eq_actionOf (a := m.arch) h, ← effect_arch h hmip hmtime]
  exact actionOf_nextCsr (x := m.arch.exIn imem v) h d ⟨m.mip, m.mtime, fun _ ↦ 0⟩

theorem csrOut_arch :
    (m.arch.action imem v).csrOut (imem m.hart.pc) = m.csrWrite imem d i .exec := by
  rw [csrWrite, shows_of_decode h, Hart.csrWrite, ← effect_arch h hmip hmtime,
    action_eq_actionOf (a := m.arch) h]
  exact actionOf_csrOut (x := m.arch.exIn imem v) h

-- The peripherals see the access of the instruction.
theorem periphOut_arch :
    (m.arch.action imem v).periphOut.getD .idle = m.bus imem d i .exec := by
  rw [bus, access_of_decode h]
  cases ha : (m.hart.effect (m.platform d i) instr).access with
  | none =>
    rw [(action_plain h hmip hmtime ha).2]
    rfl
  | some acc =>
    rw [action_of_access h hmip hmtime ha]
    cases acc with
    | load addr =>
      change _ = busOfAccess (.load addr)
      simp only [loadFrom, busOfAccess, Rv32i.Access.addr]
      cases windowOf addr <;> rfl
    | store addr data =>
      change _ = busOfAccess (.store addr data)
      simp only [storeTo, busOfAccess, Rv32i.Access.addr]
      cases windowOf addr <;> rfl

theorem dmemOut_arch :
    (m.arch.action imem v).dmemOut d m.hart.mem = m.dmemOp imem d i .exec := by
  rw [dmemOp, access_of_decode h]
  cases ha : (m.hart.effect (m.platform d i) instr).access with
  | none =>
    have hm := (action_plain h hmip hmtime ha).1
    cases hact : m.arch.action imem v <;> rw [hact] at hm <;> first | rfl | cases hm
  | some acc =>
    rw [action_of_access h hmip hmtime ha]
    cases acc with
    | load addr =>
      simp only [loadFrom, Option.bind_some, Rv32i.Access.addr]
      cases windowOf addr <;> rfl
    | store addr data =>
      simp only [storeTo, Option.bind_some, Rv32i.Access.addr]
      cases windowOf addr <;> rfl

theorem nextMem_arch : (m.arch.action imem v).nextMem d m.hart.mem =
    (m.hart.exec (m.platform d i) instr).mem := by
  unfold Hart.exec
  cases ha : (m.hart.effect (m.platform d i) instr).access with
  | none =>
    have hm := (action_plain h hmip hmtime ha).1
    cases hact : m.arch.action imem v <;> rw [hact] at hm <;> first | rfl | cases hm
  | some acc =>
    rw [action_of_access h hmip hmtime ha]
    cases acc with
    | load addr =>
      simp only [loadFrom]
      cases windowOf addr <;> rfl
    | store addr data =>
      change _ = (m.platform d i).store m.hart.mem addr data
      cases hwin : windowOf addr with
      | none =>
        rw [store_of_none hwin]
        simp only [storeTo, hwin]
        rfl
      | some p =>
        rw [store_of_window hwin]
        simp only [storeTo, hwin]
        rfl

variable (hrdata : v.rdata = m.devices.rdata (m.bus imem d i .exec) i.toDevicePins)

include hrdata

-- A load gets the word of the peripheral that is addressed, or of the memory.
theorem rfOut_arch : (m.arch.action imem v).rfOut d m.hart.mem (imem m.hart.pc) =
    m.hart.regWrite (m.platform d i) instr := by
  unfold Hart.regWrite Hart.written
  cases ha : (m.hart.effect (m.platform d i) instr).access with
  | none =>
    have ha' := ha
    rw [← effect_arch h hmip hmtime] at ha' ⊢
    rw [action_eq_actionOf (a := m.arch) h]
    exact actionOf_rfOut (x := m.arch.exIn imem v) h ha' d m.hart.mem
  | some acc =>
    have hact := action_of_access h hmip hmtime ha
    rw [hact]
    cases acc with
    | load addr =>
      have hload := ha
      rw [← effect_arch h hmip hmtime] at hload
      unfold Action.rfOut
      rw [rd_of_decode h (actionOf_load hload).2]
      change (if instr.rd = 0#5 then none
          else ((loadFrom (m.arch.exIn imem v) addr).wb d m.hart.mem).map (instr.rd, ·)) =
        if instr.rd = 0#5 then none else (some ((m.platform d i).load m.hart.mem addr)).map (instr.rd, ·)
      congr 2
      have hbus : m.bus imem d i .exec = busOfAccess (.load addr) := by
        rw [bus, access_of_decode h, ha]
        rfl
      unfold busOfAccess Rv32i.Access.addr at hbus
      cases hwin : windowOf addr with
      | none =>
        rw [load_of_none hwin]
        simp only [loadFrom, hwin]
        rfl
      | some p =>
        rw [load_of_window hwin]
        rw [hwin] at hbus
        simp only [loadFrom, hwin]
        change some (v.rdata p) = some (m.devices.rdata (.ofAccess p (.load addr)) i.toDevicePins p)
        rw [hrdata, hbus]
    | store addr data =>
      have hres : (m.hart.effect (m.platform d i) instr).result = none := by
        cases instr with
        | sw rs1 rs2 imm => rfl
        | _ => cases ha
      simp only [hres, storeTo]
      cases windowOf addr <;> simp [Action.rfOut, Action.wb]

-- The instruction of the core is the instruction of the hart.
theorem step_arch : (m.arch.step imem d (.exec v)).toHart = m.hart.step (m.platform d i) imem := by
  have hstep : m.hart.step (m.platform d i) imem = m.hart.exec (m.platform d i) instr := by
    unfold Hart.step
    rw [h]
  rw [hstep]
  change (m.arch.exec d (imem m.hart.pc) (m.arch.action imem v)).toHart = _
  unfold Arch.toHart Hart.exec
  congr 1
  · exact nextPc_arch h hmip hmtime
  · rw [Arch.exec_regs]
    exact congrArg (fun o ↦ Option.elim o m.hart.regs fun o r ↦ if r = o.1 then o.2 else m.hart.regs r)
      (rfOut_arch h hmip hmtime hrdata)
  · exact nextCsr_arch h hmip hmtime
  · exact nextMem_arch h hmip hmtime

end Instruction

end Machine

/-! ## One cycle -/

theorem periphStart_eq (s : Core) (i : Inputs) : s.periphStart = (periphObs s i).getD .idle := by
  rw [periphObs_eq, ← Soc.control_periphStart s i, control_periph]
  cases hv : s.front.ex.valid
  · rw [decodeCtl_empty hv]
    rfl
  · rw [decodeCtl_eq hv, Action.ctl_periph, if_pos rfl]
    rfl

-- The two registers that hardware writes depend on the CSR write of the cycle only.
theorem mipNext_eq (s : Core) (i : Inputs) : mipNext s i (control s i) =
    match csrObs s i with
    | some (addr, data) =>
      let n := if addr = CsrAddr.mip then data
        else setBit (setBit s.mip 7 (timerTriggerLevel s i)) 11 (externalTriggerLevel i)
      if addr = CsrAddr.irqAck ∧ data.getLsbD 1 then setBit n 11 false else n
    | none => setBit (setBit s.mip 7 (timerTriggerLevel s i)) 11 (externalTriggerLevel i) := by
  have hobs : csrObs s i = if (control s i).csr.en then
      some ((control s i).csr.addr, (control s i).csr.data) else none := rfl
  rw [hobs, mipNext]
  cases (control s i).csr.en
  · rfl
  · simp only [Bool.true_and, beq_iff_eq, Bool.and_eq_true, if_true]

theorem mtimeNext_eq (s : Core) (i : Inputs) : mtimeNext s (control s i) =
    match csrObs s i with
    | some (addr, data) => if addr = CsrAddr.mtime then data else s.mtime + 1#32
    | none => s.mtime + 1#32 := by
  have hobs : csrObs s i = if (control s i).csr.en then
      some ((control s i).csr.addr, (control s i).csr.data) else none := rfl
  rw [hobs, mtimeNext]
  cases (control s i).csr.en
  · rfl
  · simp only [Bool.true_and, beq_iff_eq, if_true]

namespace Soc

variable {s : Soc M} {m : Machine M} {e : SocInputs}

/-- The step of the reference machine as a turn of the hart. -/
def turnOf : Option Event → Turn
  | none => .wait
  | some (.exec _) => .exec
  | some (.irq cause) => .irq cause

/-- What the hart does in this cycle. -/
def turn (imem : Word → Word) (d : DataMem M) (s : Soc M) (e : SocInputs) : Turn :=
  turnOf (eventOf s.board.core (s.coreInputs imem d e))

/-- The chip stands where the machine stands. -/
structure Follows (cfg : Config) (imem : Word → Word) (s : Soc M) (m : Machine M) : Prop where
  sim : Sim cfg imem s.board m.arch
  mip : s.board.core.mip = m.mip
  mtime : s.board.core.mtime = m.mtime
  devices : s.devices = m.devices

/-- The word that is executed in this turn is an instruction. -/
def Decodes (imem : Word → Word) (m : Machine M) (turn : Turn) : Prop :=
  turn = .exec → (decode (imem m.hart.pc)).isSome

/-- What the chip shows in a cycle is what the machine puts out in its turn. -/
structure Shows (imem : Word → Word) (d : DataMem M) (s : Soc M) (m : Machine M) (e : SocInputs) :
    Prop where
  left : leftObs s.board.core (s.coreInputs imem d e) = m.left imem (s.turn imem d e)
  rf : rfObs s.board.core (s.coreInputs imem d e) = m.rfWrite imem d e.pins (s.turn imem d e)
  csr : csrObs s.board.core (s.coreInputs imem d e) = m.csrWrite imem d e.pins (s.turn imem d e)
  dmem : dmemObs s.board.core (s.coreInputs imem d e) = m.dmemOp imem d e.pins (s.turn imem d e)
  bus : s.bus = m.bus imem d e.pins (s.turn imem d e)

section Cycle

variable (h : Follows cfg imem s m) (hc : Clean cfg s.board.core (s.coreInputs imem d e))
  (hdec : Decodes imem m (s.turn imem d e))

include h

-- An executed instruction reads what the machine holds.
theorem Follows.exec_volatile {v : Volatile}
    (hev : eventOf s.board.core (s.coreInputs imem d e) = some (.exec v)) :
    v.mip = m.mip ∧ v.mtime = m.mtime ∧
      v.rdata = s.devices.rdata s.bus e.pins.toDevicePins := by
  unfold eventOf at hev
  split_ifs at hev
  · cases hev
  · cases hev
    exact ⟨h.mip, h.mtime, rfl⟩

include hc hdec

theorem Follows.bus_eq : s.bus = m.bus imem d e.pins (s.turn imem d e) := by
  have hbus : s.bus = (periphObs s.board.core (s.coreInputs imem d e)).getD .idle :=
    periphStart_eq _ _
  rw [hbus, coreInputs, h.sim.periph_shown hc, turn, coreInputs]
  rw [turn, coreInputs] at hdec
  cases hev : eventOf s.board.core (s.board.pins imem d (s.env e)) with
  | none => rfl
  | some ev =>
    cases ev with
    | irq cause => rfl
    | exec v =>
      obtain ⟨instr, hinstr⟩ := Option.isSome_iff_exists.mp (hdec (by rw [hev]; rfl))
      obtain ⟨hmip, hmtime, -⟩ := h.exec_volatile hev
      exact Machine.periphOut_arch hinstr hmip hmtime

theorem Follows.rdata_eq {v : Volatile}
    (hev : eventOf s.board.core (s.coreInputs imem d e) = some (.exec v)) :
    v.rdata = m.devices.rdata (m.bus imem d e.pins .exec) e.pins.toDevicePins := by
  have hbus := h.bus_eq hc hdec
  have hturn : s.turn imem d e = .exec := by rw [turn, hev]; rfl
  rw [hturn] at hbus
  rw [(h.exec_volatile hev).2.2, hbus, h.devices]

theorem Follows.shows : Shows imem d s m e where
  left := by
    rw [coreInputs, h.sim.left_shown, turn, coreInputs]
    cases eventOf s.board.core (s.board.pins imem d (s.env e)) with
    | none => rfl
    | some ev => cases ev <;> rfl
  rf := by
    rw [coreInputs, h.sim.rf_shown hc, turn, coreInputs]
    rw [turn, coreInputs] at hdec
    cases hev : eventOf s.board.core (s.board.pins imem d (s.env e)) with
    | none => rfl
    | some ev =>
      cases ev with
      | irq cause => rfl
      | exec v =>
        have hrd := h.rdata_eq hc (by rwa [turn]) hev
        obtain ⟨instr, hinstr⟩ := Option.isSome_iff_exists.mp (hdec (by rw [hev]; rfl))
        obtain ⟨hmip, hmtime, -⟩ := h.exec_volatile hev
        change (m.arch.action imem v).rfOut d m.hart.mem (imem m.hart.pc) = m.hart.shows imem _
        rw [Machine.shows_of_decode hinstr]
        exact Machine.rfOut_arch hinstr hmip hmtime hrd
  csr := by
    rw [coreInputs, h.sim.csr_shown hc, turn, coreInputs]
    rw [turn, coreInputs] at hdec
    cases hev : eventOf s.board.core (s.board.pins imem d (s.env e)) with
    | none => rfl
    | some ev =>
      cases ev with
      | irq cause => rfl
      | exec v =>
        obtain ⟨instr, hinstr⟩ := Option.isSome_iff_exists.mp (hdec (by rw [hev]; rfl))
        obtain ⟨hmip, hmtime, -⟩ := h.exec_volatile hev
        exact Machine.csrOut_arch hinstr hmip hmtime
  dmem := by
    rw [coreInputs, h.sim.dmem_shown hc, turn, coreInputs]
    rw [turn, coreInputs] at hdec
    cases hev : eventOf s.board.core (s.board.pins imem d (s.env e)) with
    | none => rfl
    | some ev =>
      cases ev with
      | irq cause => rfl
      | exec v =>
        obtain ⟨instr, hinstr⟩ := Option.isSome_iff_exists.mp (hdec (by rw [hev]; rfl))
        obtain ⟨hmip, hmtime, -⟩ := h.exec_volatile hev
        exact Machine.dmemOut_arch hinstr hmip hmtime
  bus := h.bus_eq hc hdec

theorem Follows.hart_next : (Sim.after imem d s.board (s.env e) m.arch).toHart =
    m.nextHart imem d e.pins (s.turn imem d e) := by
  rw [Sim.after, turn, coreInputs]
  rw [turn, coreInputs] at hdec
  cases hev : eventOf s.board.core (s.board.pins imem d (s.env e)) with
  | none => rfl
  | some ev =>
    cases ev with
    | irq cause => rfl
    | exec v =>
      have hrd := h.rdata_eq hc (by rwa [turn]) hev
      obtain ⟨instr, hinstr⟩ := Option.isSome_iff_exists.mp (hdec (by rw [hev]; rfl))
      obtain ⟨hmip, hmtime, -⟩ := h.exec_volatile hev
      exact Machine.step_arch hinstr hmip hmtime hrd

-- One clean cycle: the machine makes the turn of the cycle.
theorem Follows.step (hw : cfg.icacheEnabled → Front.WordFits (HoldsWord imem)) :
    Follows cfg imem (s.step cfg imem d e) (m.step imem d (s.turn imem d e, e.pins)) where
  sim := by
    have hnext := h.hart_next hc hdec
    have harch : (m.step imem d (s.turn imem d e, e.pins)).arch =
        Sim.after imem d s.board (s.env e) m.arch := Machine.arch_of_toHart hnext
    rw [harch]
    exact h.sim.step hc hw
  mip := by
    have hcsr := (h.shows hc hdec).csr
    have htimer : timerTriggerLevel s.board.core (s.coreInputs imem d e) =
        m.timerTriggerLevel e.pins := by
      rw [timerTriggerLevel, h.sim.csr, h.mtime, Machine.timerTriggerLevel, ← h.devices]
      rfl
    have hext : externalTriggerLevel (s.coreInputs imem d e) = m.externalTriggerLevel e.pins := by
      rw [Machine.externalTriggerLevel, ← h.devices]
      rfl
    change mipNext s.board.core (s.coreInputs imem d e) (control _ (s.coreInputs imem d e)) =
      m.nextMip e.pins (m.csrWrite imem d e.pins (s.turn imem d e))
    rw [mipNext_eq, hcsr, h.mip, htimer, hext]
    rfl
  mtime := by
    have hcsr := (h.shows hc hdec).csr
    change mtimeNext s.board.core (control _ (s.coreInputs imem d e)) =
      m.nextMtime (m.csrWrite imem d e.pins (s.turn imem d e))
    rw [mtimeNext_eq, hcsr, h.mtime]
    rfl
  devices := by
    change s.devices.posedge s.bus e.pins.toDevicePins = m.devices.posedge _ e.pins.toDevicePins
    rw [h.devices, h.bus_eq hc hdec]

end Cycle

/-! ## Runs -/

section Runs

variable (cfg : Config) (imem : Word → Word) (d : DataMem M) (regs : RegIdx → Word) (mem : M)
  (v : Devices) (inp : Nat → SocInputs)

/-- The turn of the hart in cycle `t`. -/
def turnAt (t : Nat) : Turn := (after cfg imem d regs mem v inp t).turn imem d (inp t)

/-- The machine after the turns of the first `t` cycles. -/
def machineAt (t : Nat) : Machine M :=
  run (fun m e ↦ m.step imem d e) (Machine.reset regs mem v)
    (fun u ↦ (turnAt cfg imem d regs mem v inp u, (inp u).pins)) t

/-- The first `t` cycles are clean. -/
def CleanUntil (t : Nat) : Prop :=
  ∀ u, u < t → Clean cfg (after cfg imem d regs mem v inp u).board.core
    ((after cfg imem d regs mem v inp u).coreInputs imem d (inp u))

/-- Every word that the hart executes in the first `t` cycles is an instruction. -/
def DecodesUntil (t : Nat) : Prop :=
  ∀ u, u < t → Decodes imem (machineAt cfg imem d regs mem v inp u)
    (turnAt cfg imem d regs mem v inp u)

variable {cfg imem d regs mem v inp}

theorem follows_after {t : Nat} (hw : cfg.icacheEnabled → Front.WordFits (HoldsWord imem))
    (hc : CleanUntil cfg imem d regs mem v inp t) (hdec : DecodesUntil cfg imem d regs mem v inp t) :
    Follows cfg imem (after cfg imem d regs mem v inp t) (machineAt cfg imem d regs mem v inp t) := by
  induction t with
  | zero => exact ⟨sim_reset regs mem, rfl, rfl, rfl⟩
  | succ t ih =>
    have hprev := ih (fun u hu ↦ hc u (by omega)) fun u hu ↦ hdec u (by omega)
    exact hprev.step (hc t (by omega)) (hdec t (by omega)) hw

/-- The state of the chip that software sees is the one of the machine. -/
structure SameState (s : Soc M) (m : Machine M) : Prop where
  regs : s.board.core.regs = m.hart.regs
  csrs : s.board.core.csr = m.hart.csrs
  mip : s.board.core.mip = m.mip
  mtime : s.board.core.mtime = m.mtime
  mem : s.board.mem = m.hart.mem
  devices : s.devices = m.devices

theorem Follows.sameState {s : Soc M} {m : Machine M} (h : Follows cfg imem s m) : SameState s m :=
  ⟨h.sim.regs, h.sim.csr, h.mip, h.mtime, h.sim.mem, h.devices⟩

/-- The chip refines the hart with its peripherals.  In every clean run, with any wait states, pins and
initial peripherals, the registers, the memory and every peripheral go through the states of the machine,
and every cycle shows what the machine puts out in its turn. -/
theorem refines_machine (cfg : Config) (imem : Word → Word) (d : DataMem M) (regs : RegIdx → Word)
    (mem : M) (v : Devices) (inp : Nat → SocInputs) (t : Nat)
    (hw : cfg.icacheEnabled → Front.WordFits (HoldsWord imem))
    (hc : CleanUntil cfg imem d regs mem v inp t) (hdec : DecodesUntil cfg imem d regs mem v inp t) :
    SameState (after cfg imem d regs mem v inp t) (machineAt cfg imem d regs mem v inp t) ∧
      ∀ u, u < t → Shows imem d (after cfg imem d regs mem v inp u)
        (machineAt cfg imem d regs mem v inp u) (inp u) := by
  refine ⟨(follows_after hw hc hdec).sameState, fun u hu ↦ ?_⟩
  have hprev := follows_after hw (fun k (hk : k < u) ↦ hc k (by omega)) fun k hk ↦ hdec k (by omega)
  exact hprev.shows (hc u hu) (hdec u hu)

-- The board of a clean run is in simulation with the reference machine.
theorem sim_after (hw : cfg.icacheEnabled → Front.WordFits (HoldsWord imem)) {t : Nat}
    (hc : CleanUntil cfg imem d regs mem v inp t) :
    Sim cfg imem (after cfg imem d regs mem v inp t).board
      (archAt cfg imem d regs mem (boardEnv cfg imem d regs mem v inp) t) := by
  have hboard : QarCore.CleanUntil cfg imem d regs mem (boardEnv cfg imem d regs mem v inp) t := by
    intro u hu
    have h := hc u hu
    unfold coreInputs at h
    rwa [board_after] at h
  rw [board_after]
  exact sim_run hw hboard

/-! ## Programs that leave the CSRs alone -/

/-- The instruction neither names a CSR nor traps nor returns. -/
def leavesCsrs : Instr → Bool
  | .csr _ _ _ _ => false
  | .ecall => false
  | .mret => false
  | _ => true

/-- Every word is such an instruction. -/
def PlainProgram (imem : Word → Word) : Prop :=
  ∀ a, ∃ instr, decode (imem a) = some instr ∧ leavesCsrs instr

theorem effect_of_leavesCsrs {x : Rv32i.Operands} {instr : Instr} (h : leavesCsrs instr) :
    (Rv32i.effect x instr).csrWrite = none ∧ (Rv32i.effect x instr).system = none := by
  cases instr with
  | csr | ecall | mret => cases h
  | _ => exact ⟨rfl, rfl⟩

theorem PlainProgram.decodes (hp : PlainProgram imem) (t : Nat) :
    DecodesUntil cfg imem d regs mem v inp t := by
  intro u _ _
  obtain ⟨instr, hi, -⟩ := hp (machineAt cfg imem d regs mem v inp u).hart.pc
  rw [hi]
  rfl

theorem PlainProgram.step_csrs {m : Machine M} {i : Pins} (hp : PlainProgram imem) :
    (m.hart.step (m.platform d i) imem).csrs = m.hart.csrs := by
  obtain ⟨instr, hi, hl⟩ := hp m.hart.pc
  obtain ⟨hw, hs⟩ := effect_of_leavesCsrs (x := m.hart.operands (m.platform d i) instr) hl
  unfold Hart.step
  rw [hi]
  change Rv32i.csrsAfter _ (Rv32i.effect (m.hart.operands (m.platform d i) instr) instr) _ _ = _
  unfold Rv32i.csrsAfter
  rw [hs, hw]
  rfl

-- Without an interrupt the hart waits or executes an instruction.
theorem turnAt_of_quiet {t : Nat} (hq : irqTaken (after cfg imem d regs mem v inp t).board.core
    ((after cfg imem d regs mem v inp t).coreInputs imem d (inp t)) = false) :
    turnAt cfg imem d regs mem v inp t = .wait ∨ turnAt cfg imem d regs mem v inp t = .exec := by
  unfold turnAt turn eventOf
  rw [hq, if_neg Bool.false_ne_true]
  split
  · exact .inr rfl
  · exact .inl rfl

-- Such a program is never interrupted, so without a cache all of its runs are clean.
theorem PlainProgram.clean (hp : PlainProgram imem) (he : cfg.icacheEnabled = false) (t : Nat) :
    CleanUntil cfg imem d regs mem v inp t ∧
      (machineAt cfg imem d regs mem v inp t).hart.csrs = Csr.reset := by
  induction t with
  | zero => exact ⟨fun u hu ↦ absurd hu (Nat.not_lt_zero u), rfl⟩
  | succ t ih =>
    obtain ⟨hc, hcsrs⟩ := ih
    have hfollows := follows_after (by rw [he]; exact nofun) hc (hp.decodes t)
    have hcore : (after cfg imem d regs mem v inp t).board.core.csr = Csr.reset :=
      hfollows.sim.csr.trans hcsrs
    have hquiet : irqTaken (after cfg imem d regs mem v inp t).board.core
        ((after cfg imem d regs mem v inp t).coreInputs imem d (inp t)) = false :=
      irqTaken_of_masked (by rw [hcore]; rfl)
    refine ⟨fun u hu ↦ ?_, ?_⟩
    · rcases Nat.lt_succ_iff_lt_or_eq.mp hu with hlt | rfl
      · exact hc u hlt
      · exact ⟨Front.hitLost_of_disabled he, fun hq ↦ by rw [hquiet] at hq; cases hq⟩
    · have hturn := turnAt_of_quiet hquiet
      rw [← hcsrs]
      change (Machine.nextHart _ imem d (inp t).pins (turnAt cfg imem d regs mem v inp t)).csrs = _
      rcases hturn with hturn | hturn
      · rw [hturn]
        rfl
      · rw [hturn]
        exact hp.step_csrs

end Runs

/-! ## A program on a peripheral -/

/-- `lui x5, 0x40005; addi x6, x0, 1; sw x6, 0(x5)`, which starts the timer, then the loop
`lw x7, 8(x5); jal x0, -4`, which reads its counter. -/
def pollCounter (a : Word) : Word :=
  if a = 0#32 then 0x400052B7#32
  else if a = 4#32 then 0x00100313#32
  else if a = 8#32 then 0x0062A023#32
  else if a = 12#32 then 0x0082A383#32
  else 0xFFDFF06F#32

theorem pollCounter_plain : PlainProgram pollCounter := by
  intro a
  unfold pollCounter
  split_ifs
  · exact ⟨.lui 5#5 0x40005#20, Rv32i.decode_eq_some.mpr (by decide), rfl⟩
  · exact ⟨.addi 6#5 0#5 1#12, Rv32i.decode_eq_some.mpr (by decide), rfl⟩
  · exact ⟨.sw 5#5 6#5 0#12, Rv32i.decode_eq_some.mpr (by decide), rfl⟩
  · exact ⟨.lw 7#5 5#5 8#12, Rv32i.decode_eq_some.mpr (by decide), rfl⟩
  · exact ⟨.jal 0#5 0xFFFFE#20, Rv32i.decode_eq_some.mpr (by decide), rfl⟩

/-- The peripherals after a reset, with zeros in their memories. -/
def idleDevices : Devices := .reset .zeros fun _ ↦ ⟨0, 0, 0, 0⟩

/-- Memories that answer at once, and pins at rest. -/
def quick (_ : Nat) : SocInputs :=
  ⟨true, 0, true, 0, ⟨⟨0, true, true, true, 0, 0, 0, 0⟩, false, false⟩⟩

/-- After 32 cycles the loop has read the counter four times. -/
theorem pollCounter_refines :
    SameState (after .noCache pollCounter wordMem (fun _ ↦ 0) (fun _ ↦ 0) idleDevices quick 32)
        (machineAt .noCache pollCounter wordMem (fun _ ↦ 0) (fun _ ↦ 0) idleDevices quick 32) ∧
      (machineAt .noCache pollCounter wordMem (fun _ ↦ 0) (fun _ ↦ 0) idleDevices quick 32).hart.regs
        7#5 = 22#32 :=
  ⟨(refines_machine .noCache pollCounter wordMem (fun _ ↦ 0) (fun _ ↦ 0) idleDevices quick 32 nofun
    (pollCounter_plain.clean rfl 32).1 (pollCounter_plain.decodes 32)).1, by decide +kernel⟩

end Soc

end QarCore
