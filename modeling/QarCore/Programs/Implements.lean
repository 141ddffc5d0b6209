import QarCore.Hal.Mmio
import QarCore.Programs.OnChip
import QarCore.Rv32i.Installed
import QarCore.Soc.Accesses

/-!
# Programs that implement drivers

A program next to the accesses it makes: a driver says what the peripherals are asked and what is made of the
answers, and the points of the program say which part of the driver is left.  On the chip such a program makes
exactly the accesses of its driver, so that what is proved of the driver holds of the program.
-/

namespace QarCore

universe u v

open Clocked (Driver Ends)
open Hal (Code Outside chip)
open Rv32i (Access Effect Facts Hart Instr Platform encode)

variable {M : Type u} {α : Type v} {β : Type} {imem : Word → Word} {d : DataMem M}

/-! ## What a program does between its accesses -/

/-- The platform of a hart that gets `w` when it loads from a peripheral. -/
def wordPlatform (d : DataMem M) (w : Word) : Platform Csr M where
  csrRead c := csrRead c 0 0
  csrWrite c addr data := csrWriteRegs ⟨true, addr, data⟩ c
  tvec := Csr.mtvec
  epc := Csr.mepc
  trap c cause pc := trapEntry c cause pc c
  mret c := mretRestore c c
  load mem addr := if (windowOf addr).isSome then w else d.read mem addr
  store mem addr data := if (windowOf addr).isSome then mem else d.write mem addr data

/-- A step from a point: an instruction that keeps to the hart and its memory, or the next access of the driver,
whatever its answer is. -/
inductive Moves (imem : Word → Word) (d : DataMem M) (facts : α → Facts Csr M) (driver : α → Code β)
    (rank : α → Nat) (final : α → Prop) (a : α) : Prop
  | quiet (instr : Instr) (x y : Word) (b : α) (hw : imem (facts a).pc = encode instr)
      (hcsr : instr.csrAddr = none)
      (hacc : ∀ acc, ((facts a).effect (wordPlatform d 0) instr x y).access = some acc → windowOf acc.addr = none)
      (hnext : (facts a).Next (wordPlatform d 0) instr x y (facts b)) (hdriver : driver b = driver a)
      (hrank : ¬ final a ∧ rank b < rank a ∨ final a ∧ b = a)
  | access (instr : Instr) (x y : Word) (acc : Access) (hw : imem (facts a).pc = encode instr)
      (hcsr : instr.csrAddr = none) (hacc : ((facts a).effect (wordPlatform d 0) instr x y).access = some acc)
      (hwin : (windowOf acc.addr).isSome) (hask : (driver a).request? = some acc)
      (hnext : ∀ w, ∃ b, (facts a).Next (wordPlatform d w) instr x y (facts b) ∧ driver b = (driver a).resume w)

/-- The points of a program: what holds at each of them, the driver that is left, and a rank that falls between the
accesses.  At the final points the driver has come to its end. -/
structure Implements (imem : Word → Word) (d : DataMem M) (facts : α → Facts Csr M) (driver : α → Code β)
    (rank : α → Nat) (final : α → Prop) : Prop where
  moves : ∀ a, Moves imem d facts driver rank final a
  done : ∀ a, final a → ∃ b, driver a = .done b
  masked : ∀ a, (facts a).csrs.mstatus.getLsbD 3 = false

/-! ## One instruction of the machine -/

namespace Machine

variable {m : Machine M} {i : Pins} {instr : Instr} {f g : Facts Csr M} {x y w : Word}

/-- What the peripherals answer to an access in this cycle. -/
def answer (m : Machine M) (i : Pins) (acc : Access) : Word := chip.answer m.devices acc ⟨i.toDevicePins, 0#32⟩

theorem load_word {mem : M} {addr : Word} (hans : (windowOf addr).isSome → w = m.answer i (.load addr)) :
    (m.platform d i).load mem addr = (wordPlatform d w).load mem addr := by
  cases hwin : windowOf addr with
  | none =>
    rw [load_of_none hwin]
    exact (if_neg (by rw [hwin]; exact Bool.false_ne_true)).symm
  | some p =>
    have hw := hans (by rw [hwin]; rfl)
    rw [answer, Hal.chip_answer (show windowOf (Access.load addr).addr = some p from hwin),
      busOfAccess_of_window (show windowOf (Access.load addr).addr = some p from hwin)] at hw
    rw [load_of_window hwin, ← hw]
    exact (if_pos (by rw [hwin]; rfl)).symm

theorem store_word {mem : M} {addr data : Word} :
    (m.platform d i).store mem addr data = (wordPlatform d w).store mem addr data := by
  cases hwin : windowOf addr with
  | none =>
    rw [store_of_none hwin]
    exact (if_neg (by rw [hwin]; exact Bool.false_ne_true)).symm
  | some p =>
    rw [store_of_window hwin]
    exact (if_pos (by rw [hwin]; rfl)).symm

theorem effect_word (m : Machine M) (i : Pins) (w : Word) (hcsr : instr.csrAddr = none) :
    m.hart.effect (m.platform d i) instr = m.hart.effect (wordPlatform d w) instr := by
  refine Rv32i.effect_congr rfl (fun _ ↦ rfl) (fun _ ↦ rfl) (fun addr ha ↦ ?_) rfl rfl
  rw [hcsr] at ha
  cases ha

-- The platform of the cycle is the one with the answer of the peripherals.
theorem exec_word (hcsr : instr.csrAddr = none)
    (hans : ∀ addr, (m.hart.effect (m.platform d i) instr).access = some (.load addr) → (windowOf addr).isSome →
      w = m.answer i (.load addr)) :
    m.hart.exec (m.platform d i) instr = m.hart.exec (wordPlatform d w) instr := by
  rw [Hart.exec_eq_apply, Hart.exec_eq_apply, ← effect_word m i w hcsr]
  have hwritten : (m.hart.effect (m.platform d i) instr).written (m.platform d i) m.hart.mem =
      (m.hart.effect (m.platform d i) instr).written (wordPlatform d w) m.hart.mem := by
    unfold Effect.written
    cases hacc : (m.hart.effect (m.platform d i) instr).access with
    | none => rfl
    | some acc =>
      cases acc with
      | load addr => exact congrArg some (load_word (hans addr hacc))
      | store addr data => rfl
  have hstored : (m.hart.effect (m.platform d i) instr).stored (m.platform d i) m.hart.mem =
      (m.hart.effect (m.platform d i) instr).stored (wordPlatform d w) m.hart.mem := by
    unfold Effect.stored
    cases (m.hart.effect (m.platform d i) instr).access with
    | none => rfl
    | some acc =>
      cases acc with
      | load addr => rfl
      | store addr data => exact store_word
  unfold Hart.apply
  rw [hwritten, hstored]
  rfl

theorem decode_of_facts (hf : f.Holds m.hart) (hw : imem f.pc = encode instr) :
    Rv32i.decode (imem m.hart.pc) = some instr := by
  rw [hf.pc]
  exact Rv32i.decode_eq_some.mpr hw.symm

theorem access_of_facts {acc : Option Access} (hf : f.Holds m.hart) (hcsr : instr.csrAddr = none)
    (h1 : f.Reads instr.rs1 x) (h2 : f.Reads instr.rs2 y)
    (hacc : (f.effect (wordPlatform d 0) instr x y).access = acc) :
    (m.hart.effect (m.platform d i) instr).access = acc := by
  rw [effect_word m i 0 hcsr, hf.effect_eq h1 h2, hacc]

theorem holds_of_next (hf : f.Holds m.hart) (hw : imem f.pc = encode instr) (hcsr : instr.csrAddr = none)
    (hn : f.Next (wordPlatform d w) instr x y g)
    (hans : ∀ addr, (m.hart.effect (m.platform d i) instr).access = some (.load addr) → (windowOf addr).isSome →
      w = m.answer i (.load addr)) :
    g.Holds (m.step imem d (.exec, i)).hart := by
  have hpc : imem m.hart.pc = encode instr := by rw [hf.pc, hw]
  change g.Holds (m.hart.step (m.platform d i) imem)
  rw [Hart.step_of_encode hpc, exec_word hcsr hans, ← Hart.step_of_encode hpc]
  exact hf.step hw hn

end Machine

/-! ## One step of a program -/

section Step

variable {facts : α → Facts Csr M} {driver : α → Code β} {rank : α → Nat} {final : α → Prop} {a : α}
  {m : Machine M} {i : Pins}

/-- What an executed instruction does: nothing that a peripheral sees, or the next access of the driver. -/
inductive Stepped (imem : Word → Word) (d : DataMem M) (facts : α → Facts Csr M) (driver : α → Code β)
    (rank : α → Nat) (final : α → Prop) (a : α) (m : Machine M) (i : Pins) : Prop
  | quiet (b : α) (hb : (facts b).Holds (m.step imem d (.exec, i)).hart) (hbus : m.bus imem d i .exec = .idle)
      (hdriver : driver b = driver a) (hrank : ¬ final a ∧ rank b < rank a ∨ final a ∧ b = a)
  | access (b : α) (acc : Access) (hb : (facts b).Holds (m.step imem d (.exec, i)).hart)
      (hbus : m.bus imem d i .exec = busOfAccess acc) (hwin : (windowOf acc.addr).isSome)
      (hask : (driver a).request? = some acc) (hdriver : driver b = (driver a).resume (m.answer i acc))

namespace Implements

variable (h : Implements imem d facts driver rank final)

include h

theorem stepped (ha : (facts a).Holds m.hart) (i : Pins) : Stepped imem d facts driver rank final a m i := by
  cases h.moves a with
  | quiet instr x y b hw hcsr hacc hnext hdriver hrank =>
    have hdec := Machine.decode_of_facts ha hw
    have haccess := Machine.access_of_facts (d := d) (i := i) ha hcsr hnext.rs1 hnext.rs2 rfl
    refine .quiet b (Machine.holds_of_next ha hw hcsr hnext fun addr hload hwin ↦ ?_) ?_ hdriver hrank
    · rw [haccess] at hload
      rw [show windowOf addr = none from hacc _ hload] at hwin
      cases hwin
    · unfold Machine.bus
      rw [Machine.access_of_decode hdec, haccess]
      cases he : ((facts a).effect (wordPlatform d 0) instr x y).access with
      | none => rfl
      | some acc =>
        have hnone := hacc acc he
        simp only [Option.elim_some, busOfAccess, hnone]
  | access instr x y acc hw hcsr hacc hwin hask hnext =>
    have hdec := Machine.decode_of_facts ha hw
    obtain ⟨b, hn, hdriver⟩ := hnext (m.answer i acc)
    have haccess := Machine.access_of_facts (d := d) (i := i) ha hcsr hn.rs1 hn.rs2 hacc
    refine .access b acc (Machine.holds_of_next ha hw hcsr hn fun addr hload _ ↦ ?_) ?_ hwin hask hdriver
    · rw [haccess] at hload
      cases hload
      rfl
    · unfold Machine.bus
      rw [Machine.access_of_decode hdec, haccess]
      rfl

theorem decodes (ha : (facts a).Holds m.hart) : (Rv32i.decode (imem m.hart.pc)).isSome := by
  cases h.moves a with
  | quiet instr x y b hw => rw [Machine.decode_of_facts ha hw]; rfl
  | access instr x y acc hw => rw [Machine.decode_of_facts ha hw]; rfl

theorem exists_holds (ha : (facts a).Holds m.hart) : ∃ b, (facts b).Holds (m.step imem d (.exec, i)).hart := by
  cases h.stepped ha i with
  | quiet b hb => exact ⟨b, hb⟩
  | access b acc hb => exact ⟨b, hb⟩

end Implements

end Step

/-! ## The chip -/

namespace Soc

section Run

variable {facts : α → Facts Csr M} {driver : α → Code β} {rank : α → Nat} {final : α → Prop} {a a₀ : α}
  {regs : RegIdx → Word} {mem : M} {v : Devices} {inp : Nat → SocInputs}
  (h : Implements imem d facts driver rank final) (h0 : (facts a₀).Holds (Hart.reset regs mem))

include h h0

omit h h0 in
theorem valid_of_exec {t : Nat} (hexec : turnAt .noCache imem d regs mem v inp t = .exec) :
    (after .noCache imem d regs mem v inp t).board.core.front.ex.valid := by
  unfold turnAt turn eventOf at hexec
  split_ifs at hexec with hq hl
  · cases hexec
  · simp only [exLeaves, Bool.and_eq_true] at hl
    exact hl.1.1
  · cases hexec

-- The hart of the chip is at a point of the program all along.
theorem tracked (v : Devices) (inp : Nat → SocInputs) (t : Nat) : CleanUntil .noCache imem d regs mem v inp t ∧
    DecodesUntil .noCache imem d regs mem v inp t ∧
    ∃ a, (facts a).Holds (machineAt .noCache imem d regs mem v inp t).hart := by
  induction t with
  | zero => exact ⟨fun u hu ↦ absurd hu (Nat.not_lt_zero u), fun u hu ↦ absurd hu (Nat.not_lt_zero u), a₀, h0⟩
  | succ t ih =>
    obtain ⟨hc, hdec, a, ha⟩ := ih
    have hw : Config.noCache.icacheEnabled → Front.WordFits (HoldsWord imem) := nofun
    have hcore : (after .noCache imem d regs mem v inp t).board.core.csr = (facts a).csrs :=
      (follows_after hw hc hdec).sim.csr.trans ha.csrs
    have hquiet : irqTaken (after .noCache imem d regs mem v inp t).board.core
        ((after .noCache imem d regs mem v inp t).coreInputs imem d (inp t)) = false :=
      irqTaken_of_masked (by rw [hcore]; exact h.masked a)
    refine ⟨fun u hu ↦ ?_, fun u hu ↦ ?_, ?_⟩
    · rcases Nat.lt_succ_iff_lt_or_eq.mp hu with hlt | rfl
      · exact hc u hlt
      · exact ⟨Front.hitLost_of_disabled rfl, fun hq ↦ by rw [hquiet] at hq; cases hq⟩
    · rcases Nat.lt_succ_iff_lt_or_eq.mp hu with hlt | rfl
      · exact hdec u hlt
      · exact fun _ ↦ h.decodes ha
    · change ∃ b, (facts b).Holds (Machine.step _ imem d (turnAt .noCache imem d regs mem v inp t, _)).hart
      rcases turnAt_of_quiet hquiet with hturn | hturn
      · rw [hturn]
        exact ⟨a, ha⟩
      · rw [hturn]
        exact h.exists_holds ha

theorem follows_program (v : Devices) (inp : Nat → SocInputs) (t : Nat) :
    Follows .noCache imem (after .noCache imem d regs mem v inp t)
      (machineAt .noCache imem d regs mem v inp t) := by
  obtain ⟨hc, hdec, -⟩ := tracked h h0 v inp t
  have hw : Config.noCache.icacheEnabled → Front.WordFits (HoldsWord imem) := nofun
  exact follows_after hw hc hdec

theorem turn_program (v : Devices) (inp : Nat → SocInputs) (t : Nat) :
    turnAt .noCache imem d regs mem v inp t = .wait ∨ turnAt .noCache imem d regs mem v inp t = .exec := by
  obtain ⟨-, -, a, ha⟩ := tracked h h0 v inp t
  refine turnAt_of_quiet (irqTaken_of_masked ?_)
  rw [(follows_program h h0 v inp t).sim.csr]
  change (machineAt .noCache imem d regs mem v inp t).hart.csrs.mstatus.getLsbD 3 = false
  rw [ha.csrs]
  exact h.masked a

theorem busAt_program (v : Devices) (inp : Nat → SocInputs) (t : Nat) :
    busAt .noCache imem d regs mem v inp t = (machineAt .noCache imem d regs mem v inp t).bus imem d (inp t).pins
      (turnAt .noCache imem d regs mem v inp t) := by
  obtain ⟨hc, hdec, -⟩ := tracked h h0 v inp (t + 1)
  exact (follows_program h h0 v inp t).bus_eq (hc t (Nat.lt_succ_self t)) (hdec t (Nat.lt_succ_self t))

-- A chip that is answered goes on executing instructions.
theorem exec_program (hans : Answered imem d regs mem v inp) (t : Nat) :
    ∃ u, t ≤ u ∧ turnAt .noCache imem d regs mem v inp u = .exec := by
  have hw : Config.noCache.icacheEnabled → Front.WordFits (HoldsWord imem) := nofun
  have hclean : ∀ t, QarCore.CleanUntil .noCache imem d regs mem (boardEnv .noCache imem d regs mem v inp) t := by
    intro t u hu
    have hc := (tracked h h0 v inp t).1 u hu
    unfold coreInputs at hc
    rwa [board_after] at hc
  obtain ⟨u, htu, hu⟩ := event_of_fair hw hclean hans.fair t
  refine ⟨u, htu, (turn_program h h0 v inp u).resolve_left fun hwait ↦ ?_⟩
  rw [← board_after] at hu
  obtain ⟨ev, hev⟩ := Option.isSome_iff_exists.mp hu
  have hturn : turnAt .noCache imem d regs mem v inp u = turnOf (some ev) := congrArg turnOf hev
  rw [hwait] at hturn
  cases ev <;> cases hturn

-- Sooner or later the program is at its end or makes the next access of its driver.
theorem ends_or_asks (hans : Answered imem d regs mem v inp) {t : Nat}
    (ha : (facts a).Holds (machineAt .noCache imem d regs mem v inp t).hart) :
    ∃ u b, t ≤ u ∧ (facts b).Holds (machineAt .noCache imem d regs mem v inp u).hart ∧ driver b = driver a ∧
      (final b ∨ ∃ acc, (driver b).request? = some acc ∧ (windowOf acc.addr).isSome ∧
        busAt .noCache imem d regs mem v inp u = busOfAccess acc) := by
  induction hr : rank a using Nat.strong_induction_on generalizing a t with
  | h r ih =>
    obtain ⟨u, htu, hu, hexec⟩ := Clocked.held_until_ready
      (p := fun k ↦ (facts a).Holds (machineAt .noCache imem d regs mem v inp k).hart)
      (fun k ↦ turnAt .noCache imem d regs mem v inp k = .exec) (fun k hk ↦ by
        rcases turn_program h h0 v inp k with hwait | hexec
        · refine .inr ?_
          change (facts a).Holds (Machine.step _ imem d (turnAt .noCache imem d regs mem v inp k, _)).hart
          rw [hwait]
          exact hk
        · exact .inl hexec)
      (fun k _ ↦ exec_program h h0 hans k) ha
    have hbus := busAt_program h h0 v inp u
    have hnext : machineAt .noCache imem d regs mem v inp (u + 1) =
        (machineAt .noCache imem d regs mem v inp u).step imem d (.exec, (inp u).pins) := by
      change Machine.step _ imem d (turnAt .noCache imem d regs mem v inp u, _) = _
      rw [hexec]
      rfl
    rw [hexec] at hbus
    cases h.stepped hu (inp u).pins with
    | access b acc _ hmbus hwin hask _ => exact ⟨u, a, htu, hu, rfl, .inr ⟨acc, hask, hwin, hbus.trans hmbus⟩⟩
    | quiet b hb _ hdriver hrank =>
      rcases hrank with ⟨-, hlt⟩ | ⟨hfinal, -⟩
      · rw [← hnext] at hb
        obtain ⟨k, c, huk, hc, hcd, hend⟩ := ih (rank b) (by omega) hb rfl
        exact ⟨k, c, by omega, hc, hcd.trans hdriver, hend⟩
      · exact ⟨u, a, htu, hu, rfl, .inl hfinal⟩

-- The end of a program is a loop.
theorem final_stays {t : Nat} (hfinal : final a)
    (ha : (facts a).Holds (machineAt .noCache imem d regs mem v inp t).hart) (k : Nat) :
    (facts a).Holds (machineAt .noCache imem d regs mem v inp (t + k)).hart := by
  induction k with
  | zero => exact ha
  | succ k ih =>
    change (facts a).Holds (Machine.step _ imem d (turnAt .noCache imem d regs mem v inp (t + k), _)).hart
    rcases turn_program h h0 v inp (t + k) with hturn | hturn
    · rw [hturn]
      exact ih
    · rw [hturn]
      obtain ⟨b, hb⟩ := h.done a hfinal
      cases h.stepped ih (inp (t + k)).pins with
      | access c acc _ _ _ hask _ =>
        rw [hb] at hask
        cases hask
      | quiet c hc _ _ hrank =>
        rcases hrank with ⟨hno, -⟩ | ⟨-, rfl⟩
        · exact absurd hfinal hno
        · exact hc

/-! ### The driver of the chip -/

/-- The cycles that the driver goes on in: those with an access of the chip, and all of them once there are no more. -/
def DriverTurn (imem : Word → Word) (d : DataMem M) (regs : RegIdx → Word) (mem : M) (v : Devices)
    (inp : Nat → SocInputs) (t : Nat) : Prop :=
  (busAt .noCache imem d regs mem v inp t).start.isSome ∨
    ∀ u, t ≤ u → (busAt .noCache imem d regs mem v inp u).start = none

open Classical in
/-- The outside of the driver on the chip. -/
noncomputable def driverInputs (imem : Word → Word) (d : DataMem M) (regs : RegIdx → Word) (mem : M) (v : Devices)
    (inp : Nat → SocInputs) (t : Nat) : Bool × Outside :=
  (decide (DriverTurn imem d regs mem v inp t), ⟨(inp t).pins.toDevicePins, 0#32⟩)

omit h h0 in
theorem driverInputs_of_turn {t : Nat} (hturn : DriverTurn imem d regs mem v inp t) :
    driverInputs imem d regs mem v inp t = (true, ⟨(inp t).pins.toDevicePins, 0#32⟩) :=
  Prod.ext (@decide_eq_true _ (Classical.propDecidable _) hturn) rfl

omit h h0 in
theorem driverInputs_of_not {t : Nat} (hturn : ¬ DriverTurn imem d regs mem v inp t) :
    driverInputs imem d regs mem v inp t = (false, ⟨(inp t).pins.toDevicePins, 0#32⟩) :=
  Prod.ext (@decide_eq_false _ (Classical.propDecidable _) hturn) rfl

omit h h0 in
theorem driverInputs_fair : Clocked.Fair Hal.anyOutside (driverInputs imem d regs mem v inp) where
  env _ := trivial
  turns t := by
    by_cases hmore : ∃ u, t ≤ u ∧ (busAt .noCache imem d regs mem v inp u).start.isSome
    · obtain ⟨u, htu, hu⟩ := hmore
      exact ⟨u, htu, by rw [driverInputs_of_turn (.inl hu)]⟩
    · have hturn : DriverTurn imem d regs mem v inp t := .inr fun u htu ↦ by
        rw [← Option.not_isSome_iff_eq_none]
        exact fun hu ↦ hmore ⟨u, htu, hu⟩
      exact ⟨t, le_rfl, by rw [driverInputs_of_turn hturn]⟩

/-- The driver next to the peripherals of the chip. -/
noncomputable def driverAt (imem : Word → Word) (d : DataMem M) (regs : RegIdx → Word) (mem : M) (v : Devices)
    (inp : Nat → SocInputs) (c : Code β) (t : Nat) : Clocked.Firmware Devices Access Word β :=
  Clocked.run (Clocked.Firmware.step chip) ⟨v, c, false⟩ (driverInputs imem d regs mem v inp) t

/-- The driver is where the program is; after an access EX is empty. -/
structure DriverFollows (facts : α → Facts Csr M) (driver : α → Code β) (x : Clocked.Firmware Devices Access Word β)
    (s : Soc M) (m : Machine M) (a : α) : Prop where
  holds : (facts a).Holds m.hart
  device : x.device = m.devices
  driver : x.driver = driver a
  gap : x.gap → s.board.core.front.ex.valid = false

omit h h0 in
theorem start_of_window {acc : Access} (hwin : (windowOf acc.addr).isSome) : (busOfAccess acc).start.isSome := by
  obtain ⟨p, hp⟩ := Option.isSome_iff_exists.mp hwin
  rw [busOfAccess_of_window hp]
  cases acc <;> rfl

-- In a cycle without an access the driver waits, or is at its end.
theorem DriverFollows.quiet (hans : Answered imem d regs mem v inp) {t : Nat} {b : α}
    {x : Clocked.Firmware Devices Access Word β}
    (hx : DriverFollows facts driver x (after .noCache imem d regs mem v inp t)
      (machineAt .noCache imem d regs mem v inp t) a)
    (hbus : busAt .noCache imem d regs mem v inp t = .idle)
    (hb : (facts b).Holds (machineAt .noCache imem d regs mem v inp (t + 1)).hart) (hdriver : driver b = driver a) :
    DriverFollows facts driver (Clocked.Firmware.step chip x (driverInputs imem d regs mem v inp t))
      (after .noCache imem d regs mem v inp (t + 1)) (machineAt .noCache imem d regs mem v inp (t + 1)) b := by
  obtain ⟨hholds, hdevice, hc, hgap⟩ := hx
  have hnext : (machineAt .noCache imem d regs mem v inp (t + 1)).devices =
      (machineAt .noCache imem d regs mem v inp t).devices.posedge .idle (inp t).pins.toDevicePins := by
    rw [← hbus, busAt_program h h0 v inp t]
    rfl
  obtain ⟨dev, c, gap⟩ := x
  obtain rfl : dev = _ := hdevice
  obtain rfl : c = _ := hc
  have hstep : Clocked.Firmware.step chip ⟨(machineAt .noCache imem d regs mem v inp t).devices, driver a, gap⟩
      (driverInputs imem d regs mem v inp t) =
      ⟨chip.step (machineAt .noCache imem d regs mem v inp t).devices none ⟨(inp t).pins.toDevicePins, 0#32⟩,
        driver a, false⟩ := by
    by_cases hturn : DriverTurn imem d regs mem v inp t
    · -- there is no access to come, so the driver is done
      have hnone : ∀ u, t ≤ u → (busAt .noCache imem d regs mem v inp u).start = none := by
        refine hturn.resolve_left fun hsome ↦ ?_
        rw [hbus] at hsome
        cases hsome
      obtain ⟨u, e, htu, -, he, hend⟩ := ends_or_asks h h0 hans hholds
      have hdone : ∃ r, driver a = .done r := by
        rcases hend with hfinal | ⟨acc, -, hwin, hacc⟩
        · rw [← he]
          exact h.done e hfinal
        · have hstart := start_of_window hwin
          rw [← hacc, hnone u htu] at hstart
          cases hstart
      obtain ⟨r, hr⟩ := hdone
      rw [hr]
      exact Clocked.Firmware.step_done
    · rw [driverInputs_of_not hturn]
      exact Clocked.Firmware.step_wait
  rw [hstep]
  exact ⟨hb, hnext.symm, hdriver.symm, nofun⟩

-- In a cycle with an access the driver makes it too.
theorem DriverFollows.access {t : Nat} {b : α} {acc : Access} {x : Clocked.Firmware Devices Access Word β}
    (hx : DriverFollows facts driver x (after .noCache imem d regs mem v inp t)
      (machineAt .noCache imem d regs mem v inp t) a)
    (hexec : turnAt .noCache imem d regs mem v inp t = .exec)
    (hbus : busAt .noCache imem d regs mem v inp t = busOfAccess acc) (hwin : (windowOf acc.addr).isSome)
    (hask : (driver a).request? = some acc)
    (hb : (facts b).Holds (machineAt .noCache imem d regs mem v inp (t + 1)).hart)
    (hdriver : driver b = (driver a).resume
      ((machineAt .noCache imem d regs mem v inp t).answer (inp t).pins acc)) :
    DriverFollows facts driver (Clocked.Firmware.step chip x (driverInputs imem d regs mem v inp t))
      (after .noCache imem d regs mem v inp (t + 1)) (machineAt .noCache imem d regs mem v inp (t + 1)) b := by
  obtain ⟨hholds, hdevice, hc, hgap⟩ := hx
  have hsome : (busAt .noCache imem d regs mem v inp t).start.isSome := by
    rw [hbus]
    exact start_of_window hwin
  have hnext : (machineAt .noCache imem d regs mem v inp (t + 1)).devices =
      (machineAt .noCache imem d regs mem v inp t).devices.posedge (busOfAccess acc) (inp t).pins.toDevicePins := by
    rw [← hbus, busAt_program h h0 v inp t]
    rfl
  obtain ⟨dev, c, gap⟩ := x
  obtain rfl : dev = _ := hdevice
  obtain rfl : c = _ := hc
  have hfree : gap = false := by
    rw [← Bool.not_eq_true]
    intro hg
    have hempty : (after .noCache imem d regs mem v inp t).board.core.front.ex.valid = false := hgap hg
    have hleaves := valid_of_exec hexec
    rw [hempty] at hleaves
    cases hleaves
  rw [driverInputs_of_turn (.inl hsome), hfree, Clocked.Firmware.step_access hask]
  refine ⟨hb, hnext.symm, hdriver.symm, fun _ ↦ ?_⟩
  have hw : Config.noCache.icacheEnabled → Front.WordFits (HoldsWord imem) := nofun
  exact ex_empty_after hw (tracked h h0 v inp t).1 hsome

-- The driver and the program go together.
theorem driver_follows (hans : Answered imem d regs mem v inp) (t : Nat) :
    ∃ a, DriverFollows facts driver (driverAt imem d regs mem v inp (driver a₀) t)
      (after .noCache imem d regs mem v inp t) (machineAt .noCache imem d regs mem v inp t) a := by
  induction t with
  | zero => exact ⟨a₀, h0, rfl, rfl, nofun⟩
  | succ t ih =>
    obtain ⟨a, hx⟩ := ih
    have hbus := busAt_program h h0 v inp t
    have hnext : machineAt .noCache imem d regs mem v inp (t + 1) =
        (machineAt .noCache imem d regs mem v inp t).step imem d
          (turnAt .noCache imem d regs mem v inp t, (inp t).pins) := rfl
    rcases turn_program h h0 v inp t with hturn | hturn
    · rw [hturn] at hbus hnext
      exact ⟨a, hx.quiet h h0 hans hbus (by rw [hnext]; exact hx.holds) rfl⟩
    · have hexec := hturn
      rw [hturn] at hbus hnext
      cases h.stepped hx.holds (inp t).pins with
      | quiet b hb hmbus hdriver _ =>
        exact ⟨b, hx.quiet h h0 hans (hbus.trans hmbus) (by rw [hnext]; exact hb) hdriver⟩
      | access b acc hb hmbus hwin hask hdriver =>
        exact ⟨b, hx.access h h0 hexec (hbus.trans hmbus) hwin hask (by rw [hnext]; exact hb) hdriver⟩

/-- A program does on the chip what its driver does.  If the driver, from peripherals in `P`, ends with a result and
peripherals in `Q`, however its accesses are spaced, then the program on a chip with such peripherals ends too,
whatever the wait states and the pins are: the peripherals come to `Q`, and the hart to a final point for the
result, where it stays. -/
theorem program_ends {P : Devices → Prop} {Q : β → Devices → Prop}
    (hends : Ends chip Hal.anyOutside P (driver a₀) Q) (hv : P v) (hans : Answered imem d regs mem v inp) :
    ∃ r, (∃ t, Q r (after .noCache imem d regs mem v inp t).devices) ∧
      ∃ T a, final a ∧ driver a = .done r ∧ ∀ t, T ≤ t →
        ∃ x, (facts a).Holds x ∧ (after .noCache imem d regs mem v inp t).board.Shows x := by
  obtain ⟨n, r, hdone, hQ⟩ := hends.reaches driverInputs_fair hv
  obtain ⟨a, hholds, hdevice, hc, -⟩ := driver_follows h h0 hans n
  change (driverAt imem d regs mem v inp (driver a₀) n).driver = _ at hdone
  change Q r (driverAt imem d regs mem v inp (driver a₀) n).device at hQ
  rw [hdevice] at hQ
  refine ⟨r, ⟨n, ?_⟩, ?_⟩
  · rw [(follows_program h h0 v inp n).devices]
    exact hQ
  · obtain ⟨T, b, -, hb, hdriver, hend⟩ := ends_or_asks h h0 hans hholds
    have hbdone : driver b = .done r := by rw [hdriver, ← hc, hdone]
    have hfinal : final b := by
      rcases hend with hfinal | ⟨acc, hask, -⟩
      · exact hfinal
      · rw [hbdone] at hask
        cases hask
    refine ⟨T, b, hfinal, hbdone, fun t ht ↦ ?_⟩
    obtain ⟨k, rfl⟩ := Nat.exists_eq_add_of_le ht
    have hsim := (follows_program h h0 v inp (T + k)).sim
    exact ⟨_, final_stays h h0 hfinal hb k, hsim.regs, hsim.csr, hsim.mem⟩

end Run

end Soc

end QarCore
