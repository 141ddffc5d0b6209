import QarCore.Periph.FaultIrq
import QarCore.Periph.I2cPins

/-!
# Bytes on the I2C bus

What a WRITE command puts on the bus, counted in pulses of SCL, and what becomes of the acknowledgement.
The acknowledge state ends when SCL rises: the ninth high phase is the idle state, in which nobody looks
at SDA.
-/

namespace QarCore

namespace I2c

variable {s : I2c} {i : Inputs} {e : Engine} {b : Byte} {r : Nat}

/-! ## Pulses -/

/-- SCL rises. -/
def rise (e e' : Engine) : Bool := !e.sclState && e'.sclState

/-- Where the engine is in a byte after `r` rises of SCL. -/
def Engine.Writes (e : Engine) (b : Byte) (r : Nat) : Prop :=
  match e.state with
  | .write =>
    e.shiftReg = b ∧ e.sdaDrive = true ∧
      if e.sclState then e.bitIndex.toNat + r = 8 ∧ 1 ≤ r ∧ e.sdaState = b.getLsbD (8 - r)
      else e.bitIndex.toNat + r = 7 ∧ e.sdaState = b.getLsbD (7 - r)
  | .ack => e.sclState = false ∧ e.sdaDrive = false ∧ r = 8
  | .idle => e.sclState = true ∧ e.sdaDrive = false ∧ r = 9
  | .start | .read | .stop => False

theorem writes_start (h : s.accepted = some .write) :
    s.nextIdle.Writes s.txFifo.front 0 := by
  simp [nextIdle, h, Engine.Writes]

-- With SCL high a bit is on SDA, or nothing is.
theorem Engine.Writes.high (h : e.Writes b r) (hc : e.sclState) :
    1 ≤ r ∧ r ≤ 8 ∧ e.sdaDrive = true ∧ e.sdaState = b.getLsbD (8 - r) ∨
      r = 9 ∧ e.sdaDrive = false := by
  unfold Engine.Writes at h
  cases hst : e.state with
  | idle =>
    rw [hst] at h
    exact .inr ⟨h.2.2, h.2.1⟩
  | write =>
    simp only [hst, hc, ↓reduceIte] at h
    obtain ⟨-, hdrive, hbit, hpos, hsda⟩ := h
    exact .inl ⟨hpos, by omega, hdrive, hsda⟩
  | ack =>
    rw [hst] at h
    exact absurd (h.1.symm.trans hc) (by decide)
  | start | read | stop => simp [hst] at h

-- One cycle of a byte, until the next command.
theorem Engine.Writes.next (h : s.engine.Writes b r) (hno : s.accepted = none) (sdaIn : Bool) :
    (s.nextEngine sdaIn).Writes b (r + if rise s.engine (s.nextEngine sdaIn) then 1 else 0) := by
  unfold nextEngine
  cases hst : s.state with
  | idle =>
    obtain ⟨hscl, -, hr⟩ : s.sclState = true ∧ s.sdaDrive = false ∧ r = 9 := by
      simpa [Engine.Writes, engine, hst] using h
    simp [Engine.Writes, nextIdle, hno, rise, engine, hscl, hr]
  | start | read | stop => simp [Engine.Writes, engine, hst] at h
  | write =>
    by_cases hd : s.divDone
    · by_cases hc : s.sclState
      · obtain ⟨hshift, hdrive, hbit, -⟩ : s.shiftReg = b ∧ s.sdaDrive = true ∧
            s.bitIndex.toNat + r = 8 ∧ 1 ≤ r ∧ s.sdaState = b.getLsbD (8 - r) := by
          simpa [Engine.Writes, engine, hst, hc, -BitVec.getLsbD_eq_getElem] using h
        by_cases hb : s.bitIndex = 0#4
        · -- the eighth high phase ends
          have hr : r = 8 := by
            rw [hb] at hbit
            simpa using hbit
          simp [Engine.Writes, nextTick, hst, hd, hc, hb, rise, engine, hr]
        · obtain ⟨hdec, hpos⟩ := bitIndex_sub hb
          have hsda : s.bitIndex.toNat - 1 = 7 - r := by omega
          simp only [Engine.Writes, nextTick, hst, hd, hc, hb, rise, engine, hshift, hdrive, hdec, hsda,
            reduceCtorEq, ↓reduceIte, Bool.not_true, Bool.false_and, Bool.false_eq_true, Nat.add_zero,
            true_and, and_true]
          omega
      · obtain ⟨hshift, hdrive, hbit, hsda⟩ : s.shiftReg = b ∧ s.sdaDrive = true ∧
            s.bitIndex.toNat + r = 7 ∧ s.sdaState = b.getLsbD (7 - r) := by
          simpa [Engine.Writes, engine, hst, hc, -BitVec.getLsbD_eq_getElem] using h
        simp only [Engine.Writes, nextTick, hst, hd, hc, rise, engine, hshift, hdrive, hsda,
          reduceCtorEq, ↓reduceIte, Bool.not_false, Bool.true_and, Bool.false_eq_true, true_and,
          show 8 - (r + 1) = 7 - r by omega, and_true]
        omega
    · have hwait : rise s.engine { s.engine with divCounter := s.divCounter + 1 } = false := by
        simp [rise]
      rw [if_neg (by simp), if_neg hd, hwait]
      simpa [Engine.Writes, engine, hst] using h
  | ack =>
    obtain ⟨hscl, hdrive, hr⟩ : s.sclState = false ∧ s.sdaDrive = false ∧ r = 8 := by
      simpa [Engine.Writes, engine, hst] using h
    by_cases hd : s.divDone
    · -- the first tick raises SCL and leaves the state
      simp [Engine.Writes, nextTick, hst, hd, hscl, hdrive, hr, rise, engine]
    · simp [Engine.Writes, hst, hd, hscl, hdrive, hr, rise, engine]

/-! ## The acknowledgement -/

/-- STATUS[3] and IRQ_STATUS[5] are clear. -/
def NoNack (s : I2c) : Prop := s.ackErrorFlag = false ∧ s.irqStatus.getLsbD 5 = false

/-- The flags of a missing acknowledgement, with the byte it is missing for. -/
def NackShown (s : I2c) (b : Byte) : Prop :=
  s.ackErrorFlag = true ∧ s.irqStatus.getLsbD 2 = true ∧ s.irqStatus.getLsbD 5 = true ∧
    s.lastFaultCode = 3 ∧ s.lastFaultByte = b

-- With SCL low throughout the acknowledge state its sample is never taken.
theorem Engine.Driven.no_sample (hd : s.engine.Driven) : s.samplesAck = false := by
  rw [samplesAck, Bool.and_eq_false_iff]
  by_cases hst : s.state = .ack
  · exact .inr (hd.ack hst).1
  · left
    simp [hst]

theorem noNack_posedge (hd : s.engine.Driven) (h : NoNack s) : NoNack (posedge s i) := by
  have hnack : s.nacks i.sdaIn = false := by simp [nacks, hd.no_sample]
  obtain ⟨hflag, hirq⟩ := h
  constructor
  · rw [posedge_ackErrorFlag, hnack, hflag]
    rfl
  · rw [posedge_irq, hirq]
    show Clocked.latch (s.nacks i.sdaIn) _ false = false
    rw [hnack]
    rfl

section

variable (txMem rxMem : BitVec 2 → Byte) (inp : Nat → Inputs)

theorem noNack_run (t : Nat) : NoNack (after txMem rxMem inp t) := by
  induction t with
  | zero => exact ⟨rfl, by simp [after, reset]⟩
  | succ t ih => exact noNack_posedge (driven_run txMem rxMem inp t) ih

/-! ## A byte of a run -/

/-- The rises of SCL from cycle `k` to cycle `u`. -/
def rises (k u : Nat) : Nat :=
  Nat.count (fun d ↦ rise (after txMem rxMem inp (k + d)).engine
    (after txMem rxMem inp (k + d + 1)).engine) (u - k)

/-- Between a command accepted in cycle `k` and the next one. -/
def InCommand (k u : Nat) : Prop :=
  k < u ∧ ∀ v, k < v → v < u → (after txMem rxMem inp v).accepted = none

/-- In pulse `j` of a byte taken in cycle `k`: SCL has risen `j` times and is high. -/
def InPulse (k j u : Nat) : Prop :=
  InCommand txMem rxMem inp k u ∧ rises txMem rxMem inp k u = j ∧ (after txMem rxMem inp u).sclState

/-- What is expected of a byte taken in cycle `k`. -/
structure WritesByte (k : Nat) : Prop where
  /-- There are nine pulses, and no more. -/
  nine : ∀ j, (∃ u, InPulse txMem rxMem inp k j u) ↔ 1 ≤ j ∧ j ≤ 9
  /-- The first eight carry the bits of the byte, the highest first. -/
  bits : ∀ j u, j ≤ 8 → InPulse txMem rxMem inp k j u →
    (after txMem rxMem inp u).sdaDrive = true ∧ (after txMem rxMem inp u).sdaState =
      (after txMem rxMem inp k).txFifo.front.getLsbD (8 - j)
  /-- In the ninth SDA is released. -/
  released : ∀ u, InPulse txMem rxMem inp k 9 u → (after txMem rxMem inp u).sdaDrive = false
  /-- A sample of SDA in the ninth pulse decides whether a missing acknowledgement is reported. -/
  result : ∃ x, InPulse txMem rxMem inp k 9 x ∧
    if (inp x).sdaIn then
      ∃ u, InPulse txMem rxMem inp k 9 u ∧
        NackShown (after txMem rxMem inp (u + 1)) (after txMem rxMem inp k).txFifo.front
    else
      ∀ u, InCommand txMem rxMem inp k u → NoNack (after txMem rxMem inp u) →
        NoNack (after txMem rxMem inp (u + 1))

end

variable {txMem rxMem : BitVec 2 → Byte} {inp : Nat → Inputs} {k u : Nat}

theorem rises_succ (hku : k ≤ u) : rises txMem rxMem inp k (u + 1) = rises txMem rxMem inp k u +
    if rise (after txMem rxMem inp u).engine (after txMem rxMem inp (u + 1)).engine then 1 else 0 := by
  unfold rises
  rw [show u + 1 - k = u - k + 1 by omega, Nat.count_succ, show k + (u - k) = u by omega]

-- After a byte has been taken the engine is where the rises so far have brought it.
theorem writes_run (hk : (after txMem rxMem inp k).accepted = some .write)
    (hin : InCommand txMem rxMem inp k u) : (after txMem rxMem inp u).engine.Writes
      (after txMem rxMem inp k).txFifo.front (rises txMem rxMem inp k u) := by
  obtain ⟨hku, hno⟩ := hin
  induction u, hku using Nat.le_induction with
  | base =>
    have hnext : (after txMem rxMem inp (k + 1)).engine = (after txMem rxMem inp k).nextIdle := by
      rw [engine_succ, nextEngine, if_pos (idle_of_accepted hk)]
    have hlow : (after txMem rxMem inp k).nextIdle.sclState = false := by
      simp [nextIdle, hk]
    have hzero : rises txMem rxMem inp k (k + 1) = 0 := by
      rw [rises_succ (Nat.le_refl k), hnext, rise, hlow, Bool.and_false, rises, Nat.sub_self]
      rfl
    show (after txMem rxMem inp (k + 1)).engine.Writes _ (rises txMem rxMem inp k (k + 1))
    rw [hzero, hnext]
    exact writes_start hk
  | succ u hu ih =>
    have hprev := ih fun v h1 h2 ↦ hno v h1 (by omega)
    have hstep := hprev.next (hno u hu (Nat.lt_succ_self u)) (inp u).sdaIn
    rw [← engine_succ, ← rises_succ (by omega)] at hstep
    exact hstep

/-! ## The byte is completed -/

/-- The ends of half periods until the acknowledge state is left. -/
def Engine.ticksLeft (e : Engine) : Nat :=
  match e.state with
  | .write => 2 * e.bitIndex.toNat + if e.sclState then 2 else 3
  | .ack => 1
  | _ => 0

def Engine.rank (e : Engine) : Nat := e.ticksLeft * 2 ^ 16 + (2 ^ 16 - e.divCounter.toNat)

theorem rank_lt (h : s.engine.Writes b r) (hs : s.state ≠ .idle) (sdaIn : Bool) :
    (s.nextEngine sdaIn).rank < s.engine.rank := by
  have hdiv := s.divCounter.isLt
  rw [nextEngine, if_neg hs]
  by_cases hd : s.divDone
  · rw [if_pos hd]
    cases hst : s.state with
    | idle => exact absurd hst hs
    | start | read | stop => simp [Engine.Writes, engine, hst] at h
    | write =>
      by_cases hc : s.sclState
      · by_cases hb : s.bitIndex = 0#4
        · simp [nextTick, hst, hc, hb, Engine.rank, Engine.ticksLeft, engine]
          omega
        · obtain ⟨hdec, hpos⟩ := bitIndex_sub hb
          simp only [nextTick, hst, hc, hb, Engine.rank, Engine.ticksLeft, engine, hdec, ↓reduceIte,
            Bool.false_eq_true]
          show (2 * (s.bitIndex.toNat - 1) + 3) * 2 ^ 16 + (2 ^ 16 - 0) < _
          omega
      · simp only [nextTick, hst, hc, Engine.rank, Engine.ticksLeft, engine, ↓reduceIte,
          Bool.false_eq_true]
        show (2 * s.bitIndex.toNat + 2) * 2 ^ 16 + (2 ^ 16 - 0) < _
        omega
    | ack =>
      obtain ⟨hscl, -⟩ : s.sclState = false ∧ s.sdaDrive = false ∧ r = 8 := by
        simpa [Engine.Writes, engine, hst] using h
      simp only [nextTick, hst, hscl, Engine.rank, Engine.ticksLeft, engine, ↓reduceIte,
        Bool.false_eq_true]
      show 0 * 2 ^ 16 + (2 ^ 16 - 0) < _
      omega
  · rw [if_neg hd]
    obtain ⟨hinc, hlt⟩ := divCounter_add hd
    show s.engine.ticksLeft * 2 ^ 16 + (2 ^ 16 - (s.divCounter + 1#16).toNat) <
      s.engine.ticksLeft * 2 ^ 16 + (2 ^ 16 - s.divCounter.toNat)
    rw [hinc]
    omega

-- Whatever CLKDIV is, the engine gets to the ninth pulse.
theorem reaches_ninth (hk : (after txMem rxMem inp k).accepted = some .write) :
    ∃ u, InPulse txMem rxMem inp k 9 u := by
  have hprogress (u : Nat) (hin : InCommand txMem rxMem inp k u) :
      InPulse txMem rxMem inp k 9 u ∨ InCommand txMem rxMem inp k (u + 1) ∧
        (after txMem rxMem inp (u + 1)).engine.rank < (after txMem rxMem inp u).engine.rank := by
    have hw := writes_run hk hin
    by_cases hs : (after txMem rxMem inp u).state = .idle
    · left
      obtain ⟨hscl, -, hnine⟩ : (after txMem rxMem inp u).sclState = true ∧
          (after txMem rxMem inp u).sdaDrive = false ∧ rises txMem rxMem inp k u = 9 := by
        simpa [Engine.Writes, engine, hs] using hw
      exact ⟨hin, hnine, hscl⟩
    · right
      refine ⟨⟨by have := hin.1; omega, ?_⟩, ?_⟩
      · intro v h1 h2
        rcases Nat.lt_succ_iff_lt_or_eq.mp h2 with hlt | rfl
        · exact hin.2 v h1 hlt
        · exact if_neg fun hidle ↦ hs hidle.1
      · rw [engine_succ]
        exact rank_lt hw hs _
  have hfirst : InCommand txMem rxMem inp k (k + 1) :=
    ⟨Nat.lt_succ_self k, fun v h1 h2 ↦ by omega⟩
  obtain ⟨u, -, hu⟩ := Clocked.event_of_rank_while (InCommand txMem rxMem inp k)
    (fun u ↦ (after txMem rxMem inp u).engine.rank) hprogress hfirst
  exact ⟨u, hu⟩

-- SCL rises once at a time: every pulse up to the last one has been there.
theorem pulse_of_rises {j : Nat} (hj : 1 ≤ j) (hin : InCommand txMem rxMem inp k u)
    (hle : j ≤ rises txMem rxMem inp k u) : ∃ v, InPulse txMem rxMem inp k j v := by
  obtain ⟨hku, hno⟩ := hin
  have hku' : k ≤ u := by omega
  clear hku
  induction u, hku' using Nat.le_induction with
  | base =>
    have hzero : rises txMem rxMem inp k k = 0 := by simp [rises]
    omega
  | succ u hu ih =>
    by_cases hprev : j ≤ rises txMem rxMem inp k u
    · exact ih hprev fun v h1 h2 ↦ hno v h1 (by omega)
    · -- the last rise is the one in question
      rw [rises_succ hu] at hle
      by_cases hr : rise (after txMem rxMem inp u).engine (after txMem rxMem inp (u + 1)).engine
      · rw [if_pos hr] at hle
        have hhigh : (after txMem rxMem inp (u + 1)).sclState = true := by
          simp only [rise, Bool.and_eq_true] at hr
          exact hr.2
        refine ⟨u + 1, ⟨by omega, hno⟩, ?_, hhigh⟩
        rw [rises_succ hu, if_pos hr]
        omega
      · rw [if_neg hr] at hle
        omega

/-- A byte is written as it should be exactly if SDA is low at some time in its ninth pulse. -/
theorem writesByte_iff (txMem rxMem : BitVec 2 → Byte) (inp : Nat → Inputs) (k : Nat)
    (hk : (after txMem rxMem inp k).takesTxByte) : WritesByte txMem rxMem inp k ↔
      ∃ x, InPulse txMem rxMem inp k 9 x ∧ (inp x).sdaIn = false := by
  rw [takesTxByte_iff] at hk
  constructor
  · intro h
    obtain ⟨x, hx, hres⟩ := h.result
    refine ⟨x, hx, ?_⟩
    by_contra hsda
    rw [Bool.not_eq_false] at hsda
    rw [if_pos hsda] at hres
    -- the report never comes
    obtain ⟨u, -, hshown⟩ := hres
    have hnone := noNack_run txMem rxMem inp (u + 1)
    exact absurd (hshown.1.symm.trans hnone.1) (by decide)
  · rintro ⟨x, hx, hsda⟩
    obtain ⟨u, hu⟩ := reaches_ninth hk
    constructor
    · intro j
      constructor
      · rintro ⟨v, hin, rfl, hscl⟩
        rcases (writes_run hk hin).high hscl with ⟨h1, h8, -, -⟩ | ⟨h9, -⟩
        · omega
        · omega
      · rintro ⟨h1, h9⟩
        exact pulse_of_rises h1 hu.1 (by rw [hu.2.1]; exact h9)
    · rintro j v hj ⟨hin, rfl, hscl⟩
      rcases (writes_run hk hin).high hscl with ⟨-, -, hdrive, hsda⟩ | ⟨h9, -⟩
      · exact ⟨hdrive, hsda⟩
      · omega
    · rintro v ⟨hin, hnine, hscl⟩
      rcases (writes_run hk hin).high hscl with ⟨-, h8, -, -⟩ | ⟨-, hdrive⟩
      · omega
      · exact hdrive
    · refine ⟨x, hx, ?_⟩
      rw [hsda]
      exact fun v _ _ ↦ noNack_run txMem rxMem inp (v + 1)

/-- Firmware queues 0xA5, sets CLKDIV to 0 and writes CMD = WRITE; SDA reads as `sda` throughout. -/
def oneWrite (sda : Bool) (t : Nat) : Inputs where
  bus :=
    if t = 0 then ⟨true, false, 0x5, 0xA5⟩
    else if t = 1 then ⟨true, false, 0x1, 0⟩
    else if t = 2 then ⟨true, false, 0x7, 4⟩
    else ⟨false, false, 0, 0⟩
  sdaIn := sda

theorem oneWrite_acknowledged : WritesByte (fun _ ↦ 0) (fun _ ↦ 0) (oneWrite false) 3 := by
  have hquiet : ∀ v < 21, 3 < v →
      (after (fun _ ↦ 0) (fun _ ↦ 0) (oneWrite false) v).accepted = none := by decide +kernel
  have hpulse : InPulse (fun _ ↦ 0) (fun _ ↦ 0) (oneWrite false) 3 9 21 :=
    ⟨⟨by decide, fun v h1 h2 ↦ hquiet v h2 h1⟩, by decide +kernel, by decide +kernel⟩
  exact (writesByte_iff _ _ _ 3 (by decide +kernel)).mpr ⟨21, hpulse, rfl⟩

/-- A byte that nobody acknowledges passes for acknowledged. -/
theorem oneWrite_unacknowledged :
    (after (fun _ ↦ 0) (fun _ ↦ 0) (oneWrite true) 3).takesTxByte = true ∧
      ¬ WritesByte (fun _ ↦ 0) (fun _ ↦ 0) (oneWrite true) 3 := by
  refine ⟨by decide +kernel, ?_⟩
  intro h
  obtain ⟨x, -, u, -, hshown⟩ := h.result
  have hnone := noNack_run (fun _ ↦ 0) (fun _ ↦ 0) (oneWrite true) (u + 1)
  exact absurd (hshown.1.symm.trans hnone.1) (by decide)

end I2c

end QarCore
