import QarCore.Clocked.Run
import QarCore.Periph.I2c

/-!
# The bus engine of the I2C master

The registers that drive SCL and SDA, and the one event of a cycle that moves them: a command that the
idle engine accepts, or the end of an SCL half period.
-/

namespace QarCore

namespace I2c

variable {s n : I2c} {i : Inputs}

inductive Cmd
  | start | write | read | stop
  deriving DecidableEq, Repr

/-- The command the idle engine executes next. -/
def accepted (s : I2c) : Option Cmd :=
  if s.state = .idle ∧ s.ctrlEnable then
    if s.cmdReg.getLsbD 0 then some .start
    else if s.cmdReg.getLsbD 2 && !s.txFifo.empty then some .write
    else if s.cmdReg.getLsbD 3 then some .read
    else if s.cmdReg.getLsbD 1 then some .stop
    else none
  else none

theorem takesTxByte_iff : s.takesTxByte ↔ s.accepted = some .write := by
  unfold takesTxByte accepted
  by_cases hs : s.state = .idle
  · cases s.ctrlEnable <;> cases s.cmdReg.getLsbD 0 <;> cases s.cmdReg.getLsbD 2 <;>
      cases s.txFifo.empty <;> cases s.cmdReg.getLsbD 3 <;> cases s.cmdReg.getLsbD 1 <;> simp [hs]
  · simp [hs]

theorem idle_of_accepted {c : Cmd} (h : s.accepted = some c) : s.state = .idle := by
  unfold accepted at h
  split at h
  next hs => exact hs.1
  next => cases h

structure Engine where
  state : State
  sclState : Bool
  sdaState : Bool
  sdaDrive : Bool
  bitIndex : BitVec 4
  shiftReg : Byte
  divCounter : BitVec 16
  deriving DecidableEq

def engine (s : I2c) : Engine :=
  ⟨s.state, s.sclState, s.sdaState, s.sdaDrive, s.bitIndex, s.shiftReg, s.divCounter⟩

/-- The idle engine lets go of the bus, whatever it was driving, unless it accepts a command. -/
def nextIdle (s : I2c) : Engine :=
  match s.accepted with
  | none => ⟨.idle, true, true, false, s.bitIndex, s.shiftReg, 0⟩
  | some .start => ⟨.start, true, false, true, s.bitIndex, s.shiftReg, 0⟩
  | some .write => ⟨.write, false, s.txFifo.front.getLsbD 7, true, 7, s.txFifo.front, 0⟩
  | some .read => ⟨.read, false, true, false, 7, s.shiftReg, 0⟩
  | some .stop => ⟨.stop, true, false, true, s.bitIndex, s.shiftReg, 0⟩

/-- The end of a half period in a state other than idle. -/
def nextTick (s : I2c) (sdaIn : Bool) : Engine :=
  let e := { s.engine with divCounter := 0 }
  match s.state with
  | .idle => e
  | .start => { e with sdaState := false, sclState := false, state := .idle }
  | .write =>
    if s.sclState then
      if s.bitIndex = 0#4 then { e with sclState := false, sdaDrive := false, state := .ack }
      else { e with sclState := false, bitIndex := s.bitIndex - 1
                    sdaState := s.shiftReg.getLsbD (s.bitIndex.toNat - 1) }
    else { e with sclState := true }
  | .ack =>
    if s.sclState then { e with sclState := false }
    else { e with sclState := true, state := .idle }
  | .read =>
    if s.sclState then
      let bit := if s.ctrlLoopback then s.sdaState else sdaIn
      let e := { e with sclState := false, shiftReg := setBit s.shiftReg s.bitIndex.toNat bit }
      if s.bitIndex = 0#4 then { e with state := .idle } else { e with bitIndex := s.bitIndex - 1 }
    else { e with sclState := true }
  | .stop => { e with sclState := true, sdaState := true, state := .idle }

def nextEngine (s : I2c) (sdaIn : Bool) : Engine :=
  if s.state = .idle then s.nextIdle
  else if s.divDone then s.nextTick sdaIn
  else { s.engine with divCounter := s.divCounter + 1 }

theorem accesses_engine {b : BusAccess 6} : (busRead s b (busWrite s b n)).engine = n.engine := by
  simp only [engine, busRead, busWrite, writeData, writeStatus, writeIrqStatus, apply_ite I2c.state,
    apply_ite I2c.sclState, apply_ite I2c.sdaState, apply_ite I2c.sdaDrive, apply_ite I2c.bitIndex,
    apply_ite I2c.shiftReg, apply_ite I2c.divCounter, ite_self]

theorem idleState_engine (hs : s.state = .idle) (hn : n.engine = s.engine) :
    (idleState s n).engine = s.nextIdle := by
  have hstate : n.state = .idle := (congrArg Engine.state hn).trans hs
  have hbit : n.bitIndex = s.bitIndex := congrArg Engine.bitIndex hn
  have hshift : n.shiftReg = s.shiftReg := congrArg Engine.shiftReg hn
  unfold idleState nextIdle accepted
  by_cases he : s.ctrlEnable
  · by_cases h0 : s.cmdReg.getLsbD 0
    · simp only [hs, he, h0, and_self, ↓reduceIte, engine, hbit, hshift]
    · by_cases h2 : s.cmdReg.getLsbD 2 && !s.txFifo.empty
      · simp only [hs, he, h0, h2, and_self, Bool.false_eq_true, ↓reduceIte, engine]
      · by_cases h3 : s.cmdReg.getLsbD 3
        · simp only [hs, he, h0, h2, h3, and_self, Bool.false_eq_true, ↓reduceIte, engine, hshift]
        · by_cases h1 : s.cmdReg.getLsbD 1
          · simp only [hs, he, h0, h2, h3, h1, and_self, Bool.false_eq_true, ↓reduceIte, engine, hbit,
              hshift]
          · simp only [hs, he, h0, h2, h3, h1, and_self, Bool.false_eq_true, ↓reduceIte, engine, hstate,
              hbit, hshift]
  · simp only [hs, he, Bool.false_eq_true, and_false, ↓reduceIte, engine, hstate, hbit, hshift]

-- What the other states do, when the divider has run out and when not.
theorem stateCase_engine (sdaIn : Bool) (hs : s.state ≠ .idle) (hn : n.engine = s.engine) :
    (stateCase s sdaIn n).engine =
      if s.divDone then s.nextTick sdaIn else { s.engine with divCounter := s.divCounter + 1 } := by
  have hstate : n.state = s.state := congrArg Engine.state hn
  have hscl : n.sclState = s.sclState := congrArg Engine.sclState hn
  have hsda : n.sdaState = s.sdaState := congrArg Engine.sdaState hn
  have hdrive : n.sdaDrive = s.sdaDrive := congrArg Engine.sdaDrive hn
  have hbit : n.bitIndex = s.bitIndex := congrArg Engine.bitIndex hn
  have hshift : n.shiftReg = s.shiftReg := congrArg Engine.shiftReg hn
  unfold stateCase nextTick
  cases hst : s.state with
  | idle => exact absurd hst hs
  | start =>
    by_cases hd : s.divDone
    · simp only [startState, hd, ↓reduceIte, engine, hdrive, hbit, hshift]
    · simp only [startState, hd, Bool.false_eq_true, ↓reduceIte, engine, hstate, hscl, hsda, hdrive, hbit,
        hshift]
  | write =>
    by_cases hd : s.divDone
    · by_cases hc : s.sclState
      · by_cases hb : s.bitIndex = 0#4
        · simp only [writeState, hd, hc, hb, ↓reduceIte, engine, hsda, hbit, hshift, Bool.not_true]
        · simp only [writeState, hd, hc, hb, ↓reduceIte, engine, hstate, hst, hdrive, hshift,
            Bool.not_true]
      · simp only [writeState, hd, hc, Bool.false_eq_true, ↓reduceIte, engine, hstate, hst, hsda, hdrive,
          hbit, hshift, Bool.not_false]
    · simp only [writeState, hd, Bool.false_eq_true, ↓reduceIte, engine, hstate, hscl, hsda, hdrive, hbit,
        hshift]
  | ack =>
    by_cases hd : s.divDone
    · by_cases hc : s.sclState
      · simp only [ackState, hd, hc, ↓reduceIte, engine, apply_ite I2c.state, apply_ite I2c.sclState,
          apply_ite I2c.sdaState, apply_ite I2c.sdaDrive, apply_ite I2c.bitIndex,
          apply_ite I2c.shiftReg, apply_ite I2c.divCounter, ite_self, hstate, hst, hsda, hdrive, hbit,
          hshift, Bool.not_true]
      · simp only [ackState, hd, hc, Bool.false_eq_true, ↓reduceIte, engine, hsda, hdrive, hbit, hshift,
          Bool.not_false]
    · simp only [ackState, hd, Bool.false_eq_true, ↓reduceIte, engine, hstate, hscl, hsda, hdrive, hbit,
        hshift]
  | read =>
    by_cases hd : s.divDone
    · by_cases hc : s.sclState
      · by_cases hb : s.bitIndex = 0#4
        · simp only [readState, storeByte, hd, hc, hb, ↓reduceIte, engine, apply_ite I2c.sclState,
            apply_ite I2c.sdaState, apply_ite I2c.sdaDrive, apply_ite I2c.bitIndex,
            apply_ite I2c.shiftReg, apply_ite I2c.divCounter, ite_self, hsda, hdrive, hbit, hshift,
            Bool.not_true]
        · simp only [readState, hd, hc, hb, ↓reduceIte, engine, hstate, hst, hsda, hdrive, hshift,
            Bool.not_true]
      · simp only [readState, hd, hc, Bool.false_eq_true, ↓reduceIte, engine, hstate, hst, hsda, hdrive,
          hbit, hshift, Bool.not_false]
    · simp only [readState, hd, Bool.false_eq_true, ↓reduceIte, engine, hstate, hscl, hsda, hdrive, hbit,
        hshift]
  | stop =>
    by_cases hd : s.divDone
    · simp only [stopState, hd, ↓reduceIte, engine, hdrive, hbit, hshift]
    · simp only [stopState, hd, Bool.false_eq_true, ↓reduceIte, engine, hstate, hscl, hsda, hdrive, hbit,
        hshift]

-- The engine changes by the one event of the cycle.
theorem posedge_engine : (posedge s i).engine = s.nextEngine i.sdaIn := by
  have hn := accesses_engine (s := s) (n := s) (b := i.bus)
  unfold posedge nextEngine
  generalize busRead s i.bus (busWrite s i.bus s) = n at hn ⊢
  by_cases hs : s.state = .idle
  · rw [if_pos hs, ← idleState_engine hs hn, stateCase, hs]
  · rw [if_neg hs, stateCase_engine i.sdaIn hs hn]

-- The ticks of a byte toggle SCL.
theorem nextTick_toggles {sdaIn : Bool} (h : s.state = .write ∨ s.state = .read) :
    (s.nextTick sdaIn).sclState = !s.sclState := by
  unfold nextTick
  rcases h with h | h <;> by_cases hc : s.sclState <;> by_cases hb : s.bitIndex = 0#4 <;>
    simp [h, hc, hb]

-- Only an accepted command leads to the STOP state.
theorem nextTick_ne_stop {sdaIn : Bool} (hs : s.state ≠ .idle) :
    (s.nextTick sdaIn).state ≠ .stop := by
  unfold nextTick
  cases hst : s.state with
  | idle => exact absurd hst hs
  | start | stop => simp
  | write | ack | read =>
    by_cases hc : s.sclState <;> by_cases hb : s.bitIndex = 0#4 <;> simp [hc, hb, engine, hst]

/-! ## What the engine drives -/

/-- What the pins can be in each state. -/
structure Engine.Driven (e : Engine) : Prop where
  /-- An idle engine that still drives SDA has just finished a START or a STOP. -/
  idle : e.state = .idle → e.sdaDrive → e.sdaState = e.sclState
  start : e.state = .start → e.sclState = true ∧ e.sdaState = false ∧ e.sdaDrive = true
  write : e.state = .write → e.sdaDrive = true
  /-- The clock is low as long as the acknowledge state lasts. -/
  ack : e.state = .ack → e.sclState = false ∧ e.sdaDrive = false
  read : e.state = .read → e.sdaDrive = false
  stop : e.state = .stop → e.sclState = true ∧ e.sdaState = false ∧ e.sdaDrive = true

theorem nextIdle_driven : s.nextIdle.Driven := by
  unfold nextIdle
  cases s.accepted with
  | none => constructor <;> simp
  | some c => cases c <;> constructor <;> simp

theorem nextTick_driven {sdaIn : Bool} (hs : s.state ≠ .idle) (h : s.engine.Driven) :
    (s.nextTick sdaIn).Driven := by
  unfold nextTick
  cases hst : s.state with
  | idle => exact absurd hst hs
  | start => constructor <;> simp
  | write =>
    have hdrive : s.sdaDrive = true := h.write hst
    by_cases hc : s.sclState <;> by_cases hb : s.bitIndex = 0#4 <;>
      constructor <;> simp [hc, hb, engine, hst, hdrive]
  | ack =>
    obtain ⟨hc, hdrive⟩ : s.sclState = false ∧ s.sdaDrive = false := h.ack hst
    constructor <;> simp [engine, hc, hdrive]
  | read =>
    have hdrive : s.sdaDrive = false := h.read hst
    by_cases hc : s.sclState <;> by_cases hb : s.bitIndex = 0#4 <;>
      constructor <;> simp [hc, hb, engine, hst, hdrive]
  | stop => constructor <;> simp

theorem driven_posedge (h : s.engine.Driven) : (posedge s i).engine.Driven := by
  rw [posedge_engine, nextEngine]
  by_cases hs : s.state = .idle
  · rw [if_pos hs]
    exact nextIdle_driven
  · rw [if_neg hs]
    split
    · exact nextTick_driven hs h
    · exact ⟨h.idle, h.start, h.write, h.ack, h.read, h.stop⟩

/-! ## Runs -/

section

variable (txMem rxMem : BitVec 2 → Byte) (inp : Nat → Inputs)

/-- The master after `t` cycles. -/
def after (t : Nat) : I2c := Clocked.run posedge (reset txMem rxMem) inp t

end

variable {txMem rxMem : BitVec 2 → Byte} {inp : Nat → Inputs} {t : Nat}

theorem engine_succ (t : Nat) : (after txMem rxMem inp (t + 1)).engine =
    (after txMem rxMem inp t).nextEngine (inp t).sdaIn := posedge_engine

theorem driven_run (txMem rxMem : BitVec 2 → Byte) (inp : Nat → Inputs) (t : Nat) :
    (after txMem rxMem inp t).engine.Driven := by
  have hreset : (reset txMem rxMem).engine.Driven := by
    constructor <;> simp [engine, reset]
  exact Clocked.run_invariant (fun s : I2c ↦ s.engine.Driven) hreset (fun _ _ h ↦ driven_posedge h) t

/-- The engine between two events: all but the divider. -/
def SameBus (e e' : Engine) : Prop := e' = { e with divCounter := e'.divCounter }

-- Below its limit the divider counts without wrapping.
theorem divCounter_add (hd : ¬ s.divDone) :
    (s.divCounter + 1#16).toNat = s.divCounter.toNat + 1 ∧ s.divCounter.toNat + 1 < 2 ^ 16 := by
  have hlt : s.divCounter.toNat + 1 < 2 ^ 16 := by
    have hmax := (s.clkdiv.extractLsb' 0 16).isLt
    simp only [divDone, ge_iff_le, decide_eq_true_eq, BitVec.le_def] at hd
    omega
  refine ⟨?_, hlt⟩
  rw [BitVec.toNat_add, show (1#16).toNat = 1 from rfl, Nat.mod_eq_of_lt hlt]

theorem bitIndex_sub (hb : s.bitIndex ≠ 0#4) :
    (s.bitIndex - 1).toNat = s.bitIndex.toNat - 1 ∧ s.bitIndex.toNat ≠ 0 := by
  have hpos : s.bitIndex.toNat ≠ 0 := fun h0 ↦ hb (BitVec.eq_of_toNat_eq h0)
  have hle : 1 ≤ s.bitIndex := by
    rw [BitVec.le_def]
    show 1 ≤ _
    omega
  refine ⟨?_, hpos⟩
  rw [BitVec.toNat_sub_of_le hle]
  rfl

-- An engine that is not idle stays as it is until the divider has run out, and that happens whatever CLKDIV
-- is written in the meantime.
theorem divider_runs_out (hs : (after txMem rxMem inp t).state ≠ .idle) :
    ∃ u, t ≤ u ∧ (after txMem rxMem inp u).divDone ∧
      (∀ v, t ≤ v → v < u → ¬ (after txMem rxMem inp v).divDone) ∧
      ∀ v, t ≤ v → v ≤ u → SameBus (after txMem rxMem inp t).engine (after txMem rxMem inp v).engine := by
  apply Clocked.first_event_while (fun v ↦ 2 ^ 16 - (after txMem rxMem inp v).divCounter.toNat)
  · intro v hsame
    by_cases hd : (after txMem rxMem inp v).divDone
    · exact .inl hd
    · right
      have hstate : (after txMem rxMem inp v).state = (after txMem rxMem inp t).state :=
        congrArg Engine.state hsame
      have hnext : (after txMem rxMem inp (v + 1)).engine =
          { (after txMem rxMem inp v).engine with
            divCounter := (after txMem rxMem inp v).divCounter + 1 } := by
        rw [engine_succ, nextEngine, if_neg (hstate ▸ hs), if_neg hd]
      have hdiv : (after txMem rxMem inp (v + 1)).divCounter =
          (after txMem rxMem inp v).divCounter + 1#16 := congrArg Engine.divCounter hnext
      obtain ⟨hinc, hlt⟩ := divCounter_add hd
      refine ⟨?_, ?_⟩
      · unfold SameBus at hsame ⊢
        rw [hnext, hsame]
      · rw [hdiv, hinc]
        omega
  · rfl

end I2c

end QarCore
