import QarCore.Core.PipelineIsa
import QarCore.Core.Residency

/-!
# What an instruction does while it is in EX

For a residency in any run, also after an interrupt has flushed an unfinished access: which
instructions retire with their own effect, and how often a peripheral strobe is up.  Both depend on
the transaction that is outstanding when the instruction comes in.
-/

namespace QarCore

variable {cfg : Config} {regs : RegIdx → Word} {inp : Nat → Inputs} {e t : Nat}

/-- The cycles from `e` to `t` in which `ev` happens. -/
def cyclesWith (ev : Core → Inputs → Bool) (cfg : Config) (regs : RegIdx → Word)
    (inp : Nat → Inputs) (e t : Nat) : List Nat :=
  (List.range' e (t + 1 - e)).filter fun u ↦ ev (Core.run cfg regs inp u) (inp u)

-- What happens in every cycle of an interval happens once if the interval is one cycle.
theorem cyclesWith_length {ev : Core → Inputs → Bool} (het : e ≤ t)
    (h : ∀ u, e ≤ u → u ≤ t → ev (Core.run cfg regs inp u) (inp u)) :
    (cyclesWith ev cfg regs inp e t).length = 1 ↔ t = e := by
  have hall : cyclesWith ev cfg regs inp e t = List.range' e (t + 1 - e) := by
    refine List.filter_eq_self.mpr fun u hu ↦ ?_
    rw [List.mem_range'_1] at hu
    exact h u hu.1 (by omega)
  rw [hall, List.length_range']
  omega

/-! ## Visits to EX -/

/-- The interval from the cycle an instruction enters EX to the cycle it leaves, retired or
squashed. -/
structure Visit (cfg : Config) (regs : RegIdx → Word) (inp : Nat → Inputs) (e t : Nat) : Prop where
  resides : Residency cfg regs inp e t
  last : staysInEx (Core.run cfg regs inp t) (inp t) = false

theorem Visit.eq_iff (h : Visit cfg regs inp e t) :
    t = e ↔ staysInEx (Core.run cfg regs inp e) (inp e) = false := by
  constructor
  · rintro rfl
    exact h.last
  · intro hs
    by_contra hne
    have := h.resides.stays e (Nat.le_refl e) (by have := h.resides.le; omega)
    rw [hs] at this
    cases this

/-- An instruction that was in EX from cycle `e` to cycle `t` and retires: it leaves by itself and
does not trap. -/
structure Retired (cfg : Config) (regs : RegIdx → Word) (inp : Nat → Inputs) (e t : Nat) : Prop where
  resides : Residency cfg regs inp e t
  leaves : exLeaves (Core.run cfg regs inp t) (inp t)
  noTrap : (exAction (Core.run cfg regs inp t) (inp t)).traps = false

theorem staysInEx_of_exLeaves {s : Core} {i : Inputs} (h : exLeaves s i) :
    staysInEx s i = false := by
  unfold exLeaves at h
  unfold staysInEx flushes
  rw [Bool.and_eq_true] at h
  obtain ⟨-, hl⟩ := h
  revert hl
  generalize (control s i).stallEx = stall
  generalize ((control s i).trap.request || (control s i).flushPipe) = flush
  cases flush <;> cases stall <;> simp

namespace Retired

variable (h : Retired cfg regs inp e t)

include h

theorem visit : Visit cfg regs inp e t := ⟨h.resides, staysInEx_of_exLeaves h.leaves⟩

theorem quiet_last : irqTaken (Core.run cfg regs inp t) (inp t) = false := by
  have hl := h.leaves
  simp only [exLeaves, Bool.and_eq_true, Bool.not_eq_true'] at hl
  exact hl.1.2

-- No interrupt is taken in the first cycle.
theorem quiet_first : irqTaken (Core.run cfg regs inp e) (inp e) = false := by
  rcases Nat.lt_or_eq_of_le h.resides.le with hlt | rfl
  · have hst := h.resides.stays e (Nat.le_refl e) hlt
    have hv := (h.resides.upTo (Nat.le_refl e) h.resides.le).valid
    rw [staysInEx_eq hv] at hst
    simp only [Bool.and_eq_true, Bool.not_eq_true'] at hst
    exact hst.1.1.1
  · exact h.quiet_last

end Retired

/-! ## A program whose interrupt leaves a load behind -/

/-- `addi x1, x0, 128; csrrw x0, mie, x1; lui x2, 0x40001; addi x1, x0, 8; csrrw x0, mstatus, x1;
lw x3, 0(x0)`, and `handler` at the trap vector. -/
def orphanLoad (handler : Word) (a : Word) : Word :=
  if a = 0#32 then 0x08000093#32
  else if a = 4#32 then 0x30409073#32
  else if a = 8#32 then 0x40001137#32
  else if a = 12#32 then 0x00800093#32
  else if a = 16#32 then 0x30009073#32
  else if a = 20#32 then 0x00002183#32
  else if a = 0x100#32 then handler
  else 0x0000006F#32

/-- Instructions come at once, data only in cycles `answer` and 23; the timer pin rises in cycle 15,
while the load is outstanding. -/
def timerAt15 (answer : Nat) (t : Nat) : Inputs :=
  { quietInputs with imemReady := true, memReady := t == answer || t == 23, irqTimer := t == 15 }

/-- The pins of the core that runs the program. -/
def orphanPins (handler : Word) (answer : Nat) : Nat → Inputs :=
  Board.inputs .noCache (orphanLoad handler) wordMem (fun _ ↦ 0#32) (fun _ ↦ 0#32)
    (timerAt15 answer)

/-- `lw x4, 0(x2)`: reads the UART data register. -/
def uartLoad : Word := 0x00012203#32

/-- `lw x4, 4(x0)` -/
def plainLoad : Word := 0x00402203#32

-- The handler's load comes into EX in cycle 21 and leaves in cycle 21 if the load left behind has been
-- answered before, else with its answer in cycle 23.
theorem uartLoad_visit {answer last : Nat}
    (h : answer = 17 ∧ last = 21 ∨ answer = 23 ∧ last = 23) :
    Visit .noCache (fun _ ↦ 0#32) (orphanPins uartLoad answer) 21 last := by
  rcases h with ⟨rfl, rfl⟩ | ⟨rfl, rfl⟩
  · refine ⟨residency_of_board (by decide) (by decide +kernel) (by decide +kernel), ?_⟩
    rw [orphanPins, Core.run_inputs]
    decide +kernel
  · refine ⟨residency_of_board (by decide) (by decide +kernel) (by decide +kernel), ?_⟩
    rw [orphanPins, Core.run_inputs]
    decide +kernel

theorem plainLoad_retired {answer : Nat} (h : answer = 17 ∨ answer = 23) :
    Retired .noCache (fun _ ↦ 0#32) (orphanPins plainLoad answer) 21 23 := by
  rcases h with rfl | rfl
  · refine ⟨residency_of_board (by decide) (by decide +kernel) (by decide +kernel), ?_, ?_⟩ <;>
      rw [orphanPins, Core.run_inputs] <;> decide +kernel
  · refine ⟨residency_of_board (by decide) (by decide +kernel) (by decide +kernel), ?_, ?_⟩ <;>
      rw [orphanPins, Core.run_inputs] <;> decide +kernel

/-! ## Peripheral strobes -/

/-- The load or store in EX hits the window of `p`. -/
def hitsWindow (s : Core) (p : Periph) (isLoad : Bool) : Prop :=
  funct3 s.front.ex.instr = 0b010#3 ∧
    if isLoad then
      opcode s.front.ex.instr = Opc.load ∧
        windowOf (s.front.ex.rs1Val + immI s.front.ex.instr) = some p
    else
      opcode s.front.ex.instr = Opc.store ∧
        windowOf (s.front.ex.rs1Val + immS s.front.ex.instr) = some p

instance (s : Core) (p : Periph) (isLoad : Bool) : Decidable (hitsWindow s p isLoad) :=
  inferInstanceAs (Decidable (_ ∧ ite _ _ _))

/-- The strobe of the peripheral in the direction of the access. -/
def accessStrobe (p : Periph) (isLoad : Bool) (s : Core) (i : Inputs) : Bool :=
  if isLoad then readEn (control s i) p else writeEn (control s i) p

theorem periphOut_of_hitsWindow {s : Core} {i : Inputs} {p : Periph} {isLoad : Bool}
    (h : hitsWindow s p isLoad) :
    ∃ addr data, (exAction s i).periphOut = some ⟨some p, isLoad, addr, data⟩ := by
  obtain ⟨h3, h⟩ := h
  have hf : funct3 (exIn s i).instr = 0b010#3 := h3
  cases isLoad
  · obtain ⟨ho, hw⟩ := h
    have hw' : windowOf (storeAddr (exIn s i)) = some p := hw
    refine ⟨storeAddr (exIn s i), s.front.ex.rs2Val, ?_⟩
    rw [exAction, action_store (x := exIn s i) ho, storeAction, if_pos hf, hw']
    rfl
  · obtain ⟨ho, hw⟩ := h
    have hw' : windowOf (loadAddr (exIn s i)) = some p := hw
    refine ⟨loadAddr (exIn s i), 0, ?_⟩
    rw [exAction, action_load (x := exIn s i) ho, loadAction, if_pos hf, hw']
    rfl

theorem Action.quiet_of_periphOut {act : Action} {o : PeriphStart} (h : act.periphOut = some o) :
    act.isMem = false ∧ act.traps = false ∧ act.redirects = false := by
  cases act with
  | periphLoad | periphStore => exact ⟨rfl, rfl, rfl⟩
  | _ => cases h

theorem accessStrobe_of_hitsWindow {s : Core} {i : Inputs} {p : Periph} {isLoad : Bool}
    (hv : s.front.ex.valid) (h : hitsWindow s p isLoad) : accessStrobe p isLoad s i := by
  obtain ⟨addr, data, hout⟩ := periphOut_of_hitsWindow (i := i) h
  have hper : (control s i).periph = ⟨some p, isLoad, addr, data⟩ := by
    rw [control_periph, decodeCtl_eq hv, Action.ctl_periph, hout]
    rfl
  unfold accessStrobe readEn writeEn
  rw [hper]
  cases isLoad <;> simp

/-- An older transaction still unanswered holds the instruction that has just come in. -/
def heldAtEntry (s : Core) (i : Inputs) : Bool :=
  s.dmem.pending && !i.memReady && !irqTaken s i

/-- A peripheral access strobes once exactly if nothing holds it in its first cycle. -/
theorem strobe_once_iff {p : Periph} {isLoad : Bool} (h : Visit cfg regs inp e t)
    (hw : hitsWindow (Core.run cfg regs inp e) p isLoad) :
    (cyclesWith (accessStrobe p isLoad) cfg regs inp e t).length = 1 ↔
      heldAtEntry (Core.run cfg regs inp e) (inp e) = false := by
  have hv : (Core.run cfg regs inp e).front.ex.valid :=
    (h.resides.upTo (Nat.le_refl e) h.resides.le).valid
  obtain ⟨addr, data, hout⟩ := periphOut_of_hitsWindow (i := inp e) hw
  obtain ⟨hm, ht, hr⟩ := Action.quiet_of_periphOut hout
  rw [cyclesWith_length h.resides.le fun u hu hut ↦ ?_, h.eq_iff, staysInEx_eq hv, hm, ht, hr]
  · unfold heldAtEntry
    cases irqTaken (Core.run cfg regs inp e) (inp e) <;>
      cases (Core.run cfg regs inp e).dmem.pending <;> simp
  · have hres := h.resides.upTo hu hut
    refine accessStrobe_of_hitsWindow hres.valid ?_
    unfold hitsWindow at hw ⊢
    rw [hres.ex_eq]
    exact hw


theorem uartLoad_hitsWindow {answer : Nat} (h : answer = 17 ∨ answer = 23) :
    hitsWindow (Core.run .noCache (fun _ ↦ 0#32) (orphanPins uartLoad answer) 21) .uart0 true := by
  rcases h with rfl | rfl <;> rw [orphanPins, Core.run_inputs] <;> decide +kernel

/-- The handler's load finds the port free: the UART sees one read. -/
theorem strobe_once_iff_uartLoad :
    heldAtEntry (Core.run .noCache (fun _ ↦ 0#32) (orphanPins uartLoad 17) 21)
        (orphanPins uartLoad 17 21) = false ∧
      (cyclesWith (accessStrobe .uart0 true) .noCache (fun _ ↦ 0#32) (orphanPins uartLoad 17) 21
        21).length = 1 := by
  have hheld : heldAtEntry (Core.run .noCache (fun _ ↦ 0#32) (orphanPins uartLoad 17) 21)
      (orphanPins uartLoad 17 21) = false := by
    rw [orphanPins, Core.run_inputs]
    decide +kernel
  exact ⟨hheld, (strobe_once_iff (uartLoad_visit (.inl ⟨rfl, rfl⟩))
    (uartLoad_hitsWindow (.inl rfl))).mpr hheld⟩

/-- While the load that the interrupt left behind is unanswered, the handler's one load reads the
UART data register in three cycles. -/
theorem uartLoad_strobes :
    Visit .noCache (fun _ ↦ 0#32) (orphanPins uartLoad 23) 21 23 ∧
      hitsWindow (Core.run .noCache (fun _ ↦ 0#32) (orphanPins uartLoad 23) 21) .uart0 true ∧
      (cyclesWith (accessStrobe .uart0 true) .noCache (fun _ ↦ 0#32) (orphanPins uartLoad 23) 21
        23).length = 3 :=
  ⟨uartLoad_visit (.inr ⟨rfl, rfl⟩), uartLoad_hitsWindow (.inr rfl), by decide +kernel⟩

/-! ## Retirement -/

/-- The DMEM request of the instruction in EX. -/
def ownStart (s : Core) (i : Inputs) : MemStart := (exAction s i).memStart s.front.ex.instr

/-- Of the instruction in EX from `e` to `t`: its request starts in cycle `u` on a free port, is on
the port from then on and is answered in cycle `v`. -/
structure OwnTransaction (cfg : Config) (regs : RegIdx → Word) (inp : Nat → Inputs)
    (e t u v : Nat) : Prop where
  enter : e ≤ u
  order : u < v
  leave : v ≤ t
  free : (Core.run cfg regs inp u).dmem.pending = false
  start : (control (Core.run cfg regs inp u) (inp u)).mem.start
  onPort : ∀ w, u < w → w ≤ v →
    (Core.run cfg regs inp w).dmem = .issued (ownStart (Core.run cfg regs inp e) (inp e))
  answer : (inp v).memReady

-- An instruction that finds a transaction outstanding never has its own.
theorem not_ownTransaction_of_pending (h : Residency cfg regs inp e t)
    (hp : (Core.run cfg regs inp e).dmem.pending) : ¬∃ u v, OwnTransaction cfg regs inp e t u v := by
  rintro ⟨u, v, ho⟩
  have hd := ((h.upTo ho.enter (by have := ho.order; have := ho.leave; omega)).dmem_of_pending hp).1
  have hf := ho.free
  rw [hd, hp] at hf
  cases hf

theorem not_ownTransaction_of_not_isMem (h : Residency cfg regs inp e t)
    (hm : (exAction (Core.run cfg regs inp e) (inp e)).isMem = false) :
    ¬∃ u v, OwnTransaction cfg regs inp e t u v := by
  rintro ⟨u, v, ho⟩
  have hu := (h.upTo ho.enter (by have := ho.order; have := ho.leave; omega)).isMem_eq
  have hs := ho.start
  rw [control_mem_eq, hu, hm, Bool.and_false] at hs
  cases hs

namespace Retired

variable (h : Retired cfg regs inp e t)

include h

-- An access retires with the answer of the transaction on the port.
theorem answered_of_isMem (hm : (exAction (Core.run cfg regs inp e) (inp e)).isMem) :
    (Core.run cfg regs inp t).dmem.pending ∧ (inp t).memReady := by
  have hl := h.leaves
  rw [exLeaves_of_isMem h.quiet_last h.resides.valid (by rw [h.resides.isMem_eq, hm]), Bool.and_eq_true]
    at hl
  exact hl

theorem ownTransaction_of_free (hm : (exAction (Core.run cfg regs inp e) (inp e)).isMem)
    (hp : (Core.run cfg regs inp e).dmem.pending = false) :
    OwnTransaction cfg regs inp e t e t := by
  obtain ⟨hpt, hrt⟩ := h.answered_of_isMem hm
  have hlt : e < t := by
    rcases Nat.lt_or_eq_of_le h.resides.le with hlt | rfl
    · exact hlt
    · rw [hp] at hpt
      cases hpt
  refine ⟨Nat.le_refl e, hlt, Nat.le_refl t, hp, ?_, fun w hw hwt ↦ ?_, hrt⟩
  · rw [control_mem_eq, (h.resides.upTo (Nat.le_refl e) h.resides.le).valid, hp, hm]
    rfl
  · exact ((h.resides.upTo (Nat.le_of_lt hw) hwt).dmem_of_free hp hw).2.1

-- An access has its own transaction exactly if it finds the port free.
theorem ownTransaction_iff (hm : (exAction (Core.run cfg regs inp e) (inp e)).isMem) :
    (∃ u v, OwnTransaction cfg regs inp e t u v) ↔
      (Core.run cfg regs inp e).dmem.pending = false := by
  constructor
  · intro ho
    rw [← Bool.not_eq_true]
    exact fun hp ↦ not_ownTransaction_of_pending h.resides hp ho
  · exact fun hp ↦ ⟨e, t, h.ownTransaction_of_free hm hp⟩

-- The answer of an older load falls into the cycle in which an instruction that is no access retires exactly
-- if that load is outstanding at entry and the instruction waits for it.
theorem loadCommit_iff (hm : (exAction (Core.run cfg regs inp e) (inp e)).isMem = false) :
    loadCommit (Core.run cfg regs inp t) (inp t) ↔
      (Core.run cfg regs inp e).dmem.pending ∧ (Core.run cfg regs inp e).dmem.isLoad ∧
        ((inp e).memReady ∨ (exAction (Core.run cfg regs inp e) (inp e)).redirects = false) := by
  cases hp : (Core.run cfg regs inp e).dmem.pending
  · obtain rfl := h.resides.eq_of_free hp hm
    simp [loadCommit, hp]
  · obtain ⟨hd, hr⟩ := h.resides.dmem_of_pending hp
    have hl := h.leaves
    rw [exLeaves_own h.quiet_last h.resides.valid, h.noTrap, h.resides.isMem_eq, hm, h.resides.redirects_eq, hd,
      hp] at hl
    cases hred : (exAction (Core.run cfg regs inp e) (inp e)).redirects
    · rw [hred] at hl
      have hrt : (inp t).memReady := by simpa using hl
      simp [loadCommit, hd, hp, hrt]
    · -- a redirect flushes and leaves at once
      have het : t = e := by
        rw [h.visit.eq_iff, staysInEx_eq (h.resides.upTo (Nat.le_refl e) h.resides.le).valid, hred]
        simp
      rw [het]
      simp [loadCommit, hp, and_comm]

end Retired

/-! ## Write-back -/

/-- A data bus that answers every read with the word on it. -/
def readBus (i : Inputs) : DataMem Unit := ⟨fun _ _ ↦ i.memRdata, fun m _ _ ↦ m⟩

/-- The register write of the instruction in EX, if it has one; a load takes the word on the bus. -/
def ownResult (s : Core) (i : Inputs) : Option (RegIdx × Word) :=
  (exAction s i).rfOut (readBus i) () s.front.ex.instr

/-- In the cycle it retires the instruction writes its own result, not that of an older load. -/
def WritesBack (cfg : Config) (regs : RegIdx → Word) (inp : Nat → Inputs) (e t : Nat) : Prop :=
  rfObs (Core.run cfg regs inp t) (inp t) = ownResult (Core.run cfg regs inp t) (inp t) ∧
    (loadCommit (Core.run cfg regs inp t) (inp t) → ∃ u v, OwnTransaction cfg regs inp e t u v)

-- Whether there is a result does not depend on the values read.
theorem Residency.ownResult_isSome (h : Residency cfg regs inp e t) :
    (ownResult (Core.run cfg regs inp t) (inp t)).isSome =
      (ownResult (Core.run cfg regs inp e) (inp e)).isSome := by
  have hshape := h.action_shape
    (fun act ↦ (act.rfOut (readBus (inp t)) () (Core.run cfg regs inp e).front.ex.instr).isSome)
    (fun _ _ _ _ ↦ by unfold Action.rfOut; split <;> rfl)
    (fun _ _ _ _ _ ↦ by unfold Action.rfOut; split <;> rfl)
    fun _ _ ↦ by unfold Action.rfOut; split <;> rfl
  unfold ownResult
  rw [h.ex_eq, hshape]
  unfold Action.rfOut
  split
  · rfl
  · cases exAction (Core.run cfg regs inp e) (inp e) <;> rfl

-- Nor does whether there is a CSR write.
theorem Residency.csrObs_isSome (h : Residency cfg regs inp e t) :
    (csrObs (Core.run cfg regs inp t) (inp t)).isSome =
      (csrObs (Core.run cfg regs inp e) (inp e)).isSome := by
  have hshape := h.action_shape
    (fun act ↦ (act.csrOut (Core.run cfg regs inp e).front.ex.instr).isSome)
    (fun _ _ _ _ ↦ rfl) (fun _ _ en _ _ ↦ by cases en <;> rfl) fun _ _ ↦ rfl
  rw [csrObs_eq, csrObs_eq, if_pos h.valid, if_pos (h.upTo (Nat.le_refl e) h.le).valid, h.ex_eq]
  exact hshape

theorem Residency.periphObs_isSome (h : Residency cfg regs inp e t) :
    (periphObs (Core.run cfg regs inp t) (inp t)).isSome =
      (periphObs (Core.run cfg regs inp e) (inp e)).isSome := by
  rw [periphObs_eq, periphObs_eq, if_pos h.valid, if_pos (h.upTo (Nat.le_refl e) h.le).valid]
  exact h.action_shape (fun act ↦ act.periphOut.isSome) (fun _ _ _ _ ↦ rfl) (fun _ _ _ _ _ ↦ rfl)
    fun _ _ ↦ rfl

namespace Retired

variable (h : Retired cfg regs inp e t)

include h

theorem writesBack_iff (hm : (exAction (Core.run cfg regs inp e) (inp e)).isMem = false) :
    WritesBack cfg regs inp e t ↔ loadCommit (Core.run cfg regs inp t) (inp t) = false := by
  constructor
  · intro hw
    rw [← Bool.not_eq_true]
    exact fun hl ↦ not_ownTransaction_of_not_isMem h.resides hm (hw.2 hl)
  · intro hl
    refine ⟨rfObs_own hl h.resides.valid ?_ (readBus (inp t)) (), fun hc ↦ ?_⟩
    · rw [h.resides.isMem_eq, hm]
    · rw [hl] at hc
      cases hc

-- A load with its own transaction writes the word of its answer.
theorem writesBack_of_free (hm : (exAction (Core.run cfg regs inp e) (inp e)).isMem)
    (hp : (Core.run cfg regs inp e).dmem.pending = false)
    (hres : (ownResult (Core.run cfg regs inp t) (inp t)).isSome) :
    WritesBack cfg regs inp e t := by
  have ho := h.ownTransaction_of_free hm hp
  refine ⟨?_, fun _ ↦ ⟨e, t, ho⟩⟩
  have hd := ho.onPort t ho.order (Nat.le_refl t)
  have hstart : ownStart (Core.run cfg regs inp t) (inp t) =
      ownStart (Core.run cfg regs inp e) (inp e) := by
    unfold ownStart
    rw [h.resides.ex_eq]
    exact h.resides.action_shape (fun act ↦ act.memStart (Core.run cfg regs inp e).front.ex.instr)
      (fun _ _ _ _ ↦ rfl) (fun _ _ _ _ _ ↦ rfl) fun _ _ ↦ rfl
  rw [← hstart] at hd
  have hmt : (exAction (Core.run cfg regs inp t) (inp t)).isMem := by rw [h.resides.isMem_eq, hm]
  unfold ownResult at hres ⊢
  unfold ownStart at hd
  cases hact : exAction (Core.run cfg regs inp t) (inp t) with
  | memLoad addr =>
    rw [hact] at hd hres
    have hl : loadCommit (Core.run cfg regs inp t) (inp t) := by
      rw [loadCommit, hd, ho.answer]
      rfl
    rw [rfObs_of_loadCommit hl, hd]
    rfl
  | memStore addr data =>
    rw [hact] at hres
    unfold Action.rfOut at hres
    split at hres <;> cases hres
  | _ => rw [hact] at hmt; cases hmt

end Retired

/-! ## The three effects together -/

/-- What an instruction that retires has to have done. -/
structure Effective (cfg : Config) (regs : RegIdx → Word) (inp : Nat → Inputs) (e t : Nat) :
    Prop where
  access : (exAction (Core.run cfg regs inp e) (inp e)).isMem →
    ∃ u v, OwnTransaction cfg regs inp e t u v
  result : (ownResult (Core.run cfg regs inp t) (inp t)).isSome → WritesBack cfg regs inp e t
  csr : ((exAction (Core.run cfg regs inp e) (inp e)).csrOut
      (Core.run cfg regs inp e).front.ex.instr).isSome →
    (cyclesWith (fun s i ↦ (csrObs s i).isSome) cfg regs inp e t).length = 1

/-- No transaction of an earlier instruction gets in the way of the one that has just come into EX:
an access finds the port free, no load outstanding is answered while an instruction with a result
waits, and a CSR write does not wait. -/
structure Undisturbed (s : Core) (i : Inputs) : Prop where
  access : (exAction s i).isMem → s.dmem.pending = false
  result : (ownResult s i).isSome → (exAction s i).isMem = false →
    ¬(s.dmem.pending ∧ s.dmem.isLoad ∧ (i.memReady ∨ (exAction s i).redirects = false))
  csr : ((exAction s i).csrOut s.front.ex.instr).isSome →
    ¬(s.dmem.pending ∧ i.memReady = false)

theorem Action.quiet_of_csrOut {act : Action} {w : Word} (h : (act.csrOut w).isSome) :
    act.isMem = false ∧ act.traps = false ∧ act.redirects = false := by
  cases act with
  | csr => exact ⟨rfl, rfl, rfl⟩
  | _ => cases h

namespace Retired

variable (h : Retired cfg regs inp e t)

include h

-- A CSR write happens once exactly if it does not wait in EX.
theorem csrOnce_iff (hc : ((exAction (Core.run cfg regs inp e) (inp e)).csrOut
    (Core.run cfg regs inp e).front.ex.instr).isSome) :
    (cyclesWith (fun s i ↦ (csrObs s i).isSome) cfg regs inp e t).length = 1 ↔
      ¬((Core.run cfg regs inp e).dmem.pending ∧ (inp e).memReady = false) := by
  have hv := (h.resides.upTo (Nat.le_refl e) h.resides.le).valid
  obtain ⟨hm, ht, hr⟩ := Action.quiet_of_csrOut hc
  rw [cyclesWith_length h.resides.le fun u hu hut ↦ ?_, h.visit.eq_iff, staysInEx_eq hv, hm, ht, hr,
    h.quiet_first]
  · simp
  · rw [(h.resides.upTo hu hut).csrObs_isSome, csrObs_eq, if_pos hv, hc]

end Retired

/-- An instruction retires with its effect exactly if it comes into EX undisturbed. -/
theorem effective_iff (h : Retired cfg regs inp e t) :
    Effective cfg regs inp e t ↔ Undisturbed (Core.run cfg regs inp e) (inp e) := by
  constructor
  · intro heff
    refine ⟨fun hm ↦ (h.ownTransaction_iff hm).mp (heff.access hm), fun hres hm ↦ ?_,
      fun hc ↦ (h.csrOnce_iff hc).mp (heff.csr hc)⟩
    rw [← h.loadCommit_iff hm, Bool.not_eq_true, ← h.writesBack_iff hm]
    exact heff.result (by rw [h.resides.ownResult_isSome, hres])
  · intro hu
    refine ⟨fun hm ↦ (h.ownTransaction_iff hm).mpr (hu.access hm), fun hres ↦ ?_,
      fun hc ↦ (h.csrOnce_iff hc).mpr (hu.csr hc)⟩
    cases hm : (exAction (Core.run cfg regs inp e) (inp e)).isMem
    · rw [h.writesBack_iff hm, ← Bool.not_eq_true, h.loadCommit_iff hm]
      exact hu.result (by rw [← h.resides.ownResult_isSome, hres]) hm
    · exact h.writesBack_of_free hm (hu.access hm) hres

/-- The handler's load finds the port free and retires with its effect. -/
theorem effective_iff_plainLoad :
    Effective .noCache (fun _ ↦ 0#32) (orphanPins plainLoad 17) 21 23 := by
  have hfree : (Core.run .noCache (fun _ ↦ 0#32) (orphanPins plainLoad 17) 21).dmem.pending =
      false := by
    rw [orphanPins, Core.run_inputs]
    decide +kernel
  refine (effective_iff (plainLoad_retired (.inl rfl))).mpr ⟨fun _ ↦ hfree, fun _ _ h ↦ ?_,
    fun _ h ↦ ?_⟩ <;>
  · rw [hfree] at h
    exact absurd h.1 Bool.false_ne_true

/-- Otherwise it retires with the answer of the load that the interrupt left behind: no transaction
of its own, and the word goes to `x3` instead of `x4`. -/
theorem plainLoad_not_effective :
    Retired .noCache (fun _ ↦ 0#32) (orphanPins plainLoad 23) 21 23 ∧
      ¬Effective .noCache (fun _ ↦ 0#32) (orphanPins plainLoad 23) 21 23 ∧
      (rfObs (Core.run .noCache (fun _ ↦ 0#32) (orphanPins plainLoad 23) 23)
        (orphanPins plainLoad 23 23)).map Prod.fst = some 3#5 ∧
      (ownResult (Core.run .noCache (fun _ ↦ 0#32) (orphanPins plainLoad 23) 23)
        (orphanPins plainLoad 23 23)).map Prod.fst = some 4#5 := by
  have hret := plainLoad_retired (.inr rfl)
  refine ⟨hret, fun heff ↦ ?_, ?_, ?_⟩
  · refine not_ownTransaction_of_pending hret.resides ?_ (heff.access ?_) <;>
      rw [orphanPins, Core.run_inputs] <;> decide +kernel
  · rw [orphanPins, Core.run_inputs]
    decide +kernel
  · rw [orphanPins, Core.run_inputs]
    decide +kernel

end QarCore
