import QarCore.Periph.Rs485
import QarCore.Periph.RxFlush

/-!
# LIN breaks

The break generator and the break detector, each one cycle at a time.  A break of length `n` is on the
line for `n + 1` bits, and the detector has seen it after `n` of them, so it waits for the end of every
break the generator sends.
-/

namespace QarCore

namespace Uart

variable {s n : Uart} {i : Inputs} {b : BusAccess 4} {x : Nat}

/-! ## Generator -/

/-- The registers of the break generator and of the header sequencer behind it. -/
structure Generator where
  pending : Bool
  active : Bool
  counter : Word
  tick : Word
  headerPending : Bool
  autoState : BitVec 2

def generator (s : Uart) : Generator :=
  ⟨s.lin.breakPending, s.lin.breakActive, s.lin.breakCounter, s.lin.breakTick, s.lin.autoHeaderPending,
    s.lin.autoState⟩

/-- A write to LIN_CMD with bit `k` set. -/
def commands (b : BusAccess 4) (k : Nat) : Bool := b.write && b.addrWord == 0x9#4 && b.wdata.getLsbD k

/-- A break starts in this cycle. -/
def breakStarts (s : Uart) : Bool :=
  s.ctrlLinMode && !s.lin.breakActive && s.lin.breakPending && s.ctrlEnable &&
    s.tx.bitsRemaining == 0#5 && (s.txFifo.empty || s.linSlaveGateBlock)

/-- The cycles of one bit. -/
def bitTime (s : Uart) : Nat := s.baudDiv.toNat + 1

/-- The cycles a break has been on. -/
def breakTime (s : Uart) : Nat := s.lin.breakCounter.toNat * s.bitTime + s.lin.breakTick.toNat

theorem settled_generator : (settled s i).generator =
    { pending := !s.breakStarts && (s.lin.breakPending || commands i.bus 0 || commands i.bus 3)
      active := s.breakStarts || s.lin.breakActive
      counter := if s.breakStarts then 0 else s.lin.breakCounter
      tick := s.lin.breakTick
      headerPending := s.lin.autoHeaderPending || commands i.bus 3
      autoState := s.lin.autoState } := by
  have hread {n : Uart} : (busRead s i.bus n).lin = n.lin := by
    simp only [busRead, apply_ite Uart.lin, ite_self]
  have hbus : (busWrite s i.bus (synchronize s i.rx s)).generator =
      { s.generator with
        pending := s.lin.breakPending || commands i.bus 0 || commands i.bus 3
        headerPending := s.lin.autoHeaderPending || commands i.bus 3 } := by
    unfold busWrite commands
    by_cases hw : i.bus.write
    · by_cases h9 : i.bus.addrWord = 0x9#4
      · simp only [hw, h9, BitVec.reduceEq, ↓reduceIte, writeLinCmd, generator, synchronize,
          apply_ite Uart.lin, apply_ite Lin.breakPending, apply_ite Lin.breakActive,
          apply_ite Lin.breakCounter, apply_ite Lin.breakTick, apply_ite Lin.autoHeaderPending,
          apply_ite Lin.autoState, ite_self]
        cases i.bus.wdata.getLsbD 0 <;> cases i.bus.wdata.getLsbD 3 <;> simp
      · have hno : (i.bus.addrWord == 0x9#4) = false := beq_eq_false_iff_ne.mpr h9
        simp [hw, h9, hno, writeData, writeIrqStatus, writeLinSlaveCtrl, generator, synchronize,
          apply_ite Uart.lin, apply_ite Lin.breakPending, apply_ite Lin.breakActive,
          apply_ite Lin.breakCounter, apply_ite Lin.breakTick, apply_ite Lin.autoHeaderPending,
          apply_ite Lin.autoState]
    · simp [hw, generator, synchronize]
  simp only [generator, Generator.mk.injEq] at hbus
  unfold settled startBreak
  by_cases hs : s.breakStarts
  · have hs' := hs
    unfold breakStarts at hs'
    rw [if_pos hs', hs]
    simp [generator, statusBits, hread, hbus]
  · have hs' := hs
    unfold breakStarts at hs'
    rw [if_neg hs', Bool.not_eq_true _ |>.mp hs]
    simp [generator, statusBits, hread, hbus]

theorem posedge_generator : (posedge s i).generator = (transmit s (settled s i)).generator := by
  show (detectBreak s (receive s (transmit s (settled s i)))).generator = _
  simp only [generator, detectBreak, armHeader, receive, rxIdle, rxSample, startFrame, countIdle,
    sampleBit, finishFrame, captureHeader, apply_ite Uart.lin, apply_ite Lin.breakPending,
    apply_ite Lin.breakActive, apply_ite Lin.breakCounter, apply_ite Lin.breakTick,
    apply_ite Lin.autoHeaderPending, apply_ite Lin.autoState, ite_self]

-- Without a break the transmitter moves the header sequencer only.
theorem transmit_generator (he : s.ctrlEnable) (hb : s.lin.breakActive = false)
    (ha : n.lin.autoState = s.lin.autoState) : (transmit s n).generator =
      { n.generator with
        autoState :=
          if s.tx.bitsRemaining = 0#5 ∧ s.lin.autoState ≠ 0#2 then
            if s.lin.autoState = 1#2 then 2#2 else 0#2
          else s.lin.autoState } := by
  rw [transmit, if_neg (by simp [he]), if_neg (by simp [hb])]
  by_cases h0 : s.tx.bitsRemaining = 0#5
  · by_cases hs : s.lin.autoState = 0#2
    · rw [if_pos h0, if_neg (fun h ↦ h.2 hs), txIdle, if_neg (not_not_intro hs), ← ha]
      simp only [generator, countSlaveByte, loadFrame, apply_ite Uart.lin, apply_ite Lin.breakPending,
        apply_ite Lin.breakActive, apply_ite Lin.breakCounter, apply_ite Lin.breakTick,
        apply_ite Lin.autoHeaderPending, apply_ite Lin.autoState, ite_self]
    · rw [if_pos h0, if_pos ⟨h0, hs⟩, txIdle, if_pos hs]
      rfl
  · rw [if_neg h0, if_neg (fun h ↦ h0 h.1), txShiftOut, ← ha]
    simp only [generator, apply_ite Uart.lin, ite_self]

-- One cycle of a break, up to the end of it.
theorem driveBreak_generator : (driveBreak s n).generator =
    if s.breakEnds then
      { pending := false, active := false, counter := 0, tick := 0
        headerPending := if s.lin.autoHeaderPending then false else n.lin.autoHeaderPending
        autoState := if s.lin.autoHeaderPending then 1 else n.lin.autoState }
    else if s.lin.breakTick ≥ s.baudDiv then
      { n.generator with counter := s.lin.breakCounter + 1, tick := 0 }
    else { n.generator with tick := s.lin.breakTick + 1 } := by
  unfold driveBreak breakEnds
  by_cases ht : s.lin.breakTick ≥ s.baudDiv
  · by_cases hc : s.lin.breakCounter ≥ s.linBreakLength.setWidth 32
    · by_cases ha : s.lin.autoHeaderPending <;> simp [ht, hc, ha, endBreak, generator]
    · simp [ht, hc, generator]
  · simp [ht, generator]

-- One edge of the generator during a break.
theorem posedge_break_on (he : s.ctrlEnable) (hb : s.lin.breakActive) : (posedge s i).generator =
    if s.breakEnds then
      { pending := false, active := false, counter := 0, tick := 0
        headerPending := !s.lin.autoHeaderPending && commands i.bus 3
        autoState := if s.lin.autoHeaderPending then 1 else s.lin.autoState }
    else
      { pending := s.lin.breakPending || commands i.bus 0 || commands i.bus 3
        active := true
        counter := if s.lin.breakTick ≥ s.baudDiv then s.lin.breakCounter + 1 else s.lin.breakCounter
        tick := if s.lin.breakTick ≥ s.baudDiv then 0 else s.lin.breakTick + 1
        headerPending := s.lin.autoHeaderPending || commands i.bus 3
        autoState := s.lin.autoState } := by
  have hset := settled_generator (s := s) (i := i)
  have hno : s.breakStarts = false := by simp [breakStarts, hb]
  rw [hno, hb] at hset
  rw [posedge_generator, transmit, if_neg (by simp [he]), if_pos hb, driveBreak_generator, hset]
  have hauto := congrArg Generator.autoState hset
  have hpending := congrArg Generator.headerPending hset
  by_cases hend : s.breakEnds
  · rw [if_pos hend, if_pos hend]
    show Generator.mk .. = _
    rw [show (settled s i).lin.autoState = _ from hauto,
      show (settled s i).lin.autoHeaderPending = _ from hpending]
    cases s.lin.autoHeaderPending <;> rfl
  · rw [if_neg hend, if_neg hend]
    by_cases ht : s.lin.breakTick ≥ s.baudDiv
    · rw [if_pos ht, if_pos ht, if_pos ht]
      rfl
    · rw [if_neg ht, if_neg ht, if_neg ht]
      rfl

-- One edge of the generator without a break.
theorem posedge_break_off (he : s.ctrlEnable) (hb : s.lin.breakActive = false) :
    (posedge s i).generator =
      { pending := !s.breakStarts && (s.lin.breakPending || commands i.bus 0 || commands i.bus 3)
        active := s.breakStarts
        counter := if s.breakStarts then 0 else s.lin.breakCounter
        tick := s.lin.breakTick
        headerPending := s.lin.autoHeaderPending || commands i.bus 3
        autoState :=
          if s.tx.bitsRemaining = 0#5 ∧ s.lin.autoState ≠ 0#2 then
            if s.lin.autoState = 1#2 then 2#2 else 0#2
          else s.lin.autoState } := by
  have hset := settled_generator (s := s) (i := i)
  rw [posedge_generator, transmit_generator he hb (congrArg Generator.autoState hset), hset, hb,
    Bool.or_false]

theorem posedge_breakActive_off (he : s.ctrlEnable) (hb : s.lin.breakActive = false) :
    (posedge s i).lin.breakActive = s.breakStarts :=
  congrArg Generator.active (posedge_break_off he hb)

theorem posedge_autoState (he : s.ctrlEnable) (hb : s.lin.breakActive = false) :
    (posedge s i).lin.autoState =
      if s.tx.bitsRemaining = 0#5 ∧ s.lin.autoState ≠ 0#2 then
        if s.lin.autoState = 1#2 then 2#2 else 0#2
      else s.lin.autoState := congrArg Generator.autoState (posedge_break_off he hb)

/-- The length of a break in bits. -/
def breakBits (s : Uart) : Nat := s.linBreakLength.toNat

theorem length_toNat : (s.linBreakLength.setWidth 32).toNat = s.breakBits :=
  BitVec.toNat_setWidth_of_le (by decide)

theorem breakBits_pos : 0 < s.breakBits := by
  unfold breakBits linBreakLength
  split
  · decide
  · exact Nat.pos_of_ne_zero fun h0 ↦ absurd (BitVec.eq_of_toNat_eq h0) ‹_›

-- A break ends with its bit `breakBits + 1`.
theorem breakEnds_iff (ht : s.lin.breakTick ≤ s.baudDiv)
    (hc : s.lin.breakCounter ≤ s.linBreakLength.setWidth 32) :
    s.breakEnds ↔ s.breakTime + 1 = (s.breakBits + 1) * s.bitTime := by
  have ht' : s.lin.breakTick.toNat ≤ s.baudDiv.toNat := ht
  have hc' : s.lin.breakCounter.toNat ≤ s.breakBits := by
    rw [← length_toNat]
    exact hc
  have hends : s.breakEnds ↔ s.baudDiv.toNat ≤ s.lin.breakTick.toNat ∧
      s.breakBits ≤ s.lin.breakCounter.toNat := by
    rw [breakEnds, Bool.and_eq_true, decide_eq_true_eq, decide_eq_true_eq, ← length_toNat]
    rfl
  unfold breakTime bitTime
  rw [hends]
  constructor
  · intro h
    rw [show s.lin.breakCounter.toNat = s.breakBits by omega, Nat.succ_mul]
    omega
  · intro h
    have hlast : ¬ s.lin.breakCounter.toNat < s.breakBits := by
      intro hlt
      have hmul := Nat.mul_le_mul_right (s.baudDiv.toNat + 1)
        (show s.lin.breakCounter.toNat + 1 ≤ s.breakBits from hlt)
      rw [Nat.succ_mul] at hmul h
      omega
    rw [show s.lin.breakCounter.toNat = s.breakBits by omega, Nat.succ_mul] at h
    omega

-- The counters of a break that goes on.
theorem posedge_breakCount (he : s.ctrlEnable) (hb : s.lin.breakActive) (hend : ¬ s.breakEnds) :
    (posedge s i).lin.breakCounter.toNat =
        s.lin.breakCounter.toNat + (if s.lin.breakTick ≥ s.baudDiv then 1 else 0) ∧
      (posedge s i).lin.breakTick.toNat =
        if s.lin.breakTick ≥ s.baudDiv then 0 else s.lin.breakTick.toNat + 1 := by
  have hgen := posedge_break_on (i := i) he hb
  rw [if_neg hend] at hgen
  have hcount : (posedge s i).lin.breakCounter = _ := congrArg Generator.counter hgen
  have htick : (posedge s i).lin.breakTick = _ := congrArg Generator.tick hgen
  rw [hcount, htick]
  by_cases hfull : s.lin.breakTick ≥ s.baudDiv
  · have hlt : ¬ s.lin.breakCounter ≥ s.linBreakLength.setWidth 32 := by
      intro hge
      exact hend (by simp [breakEnds, hfull, hge])
    simp only [if_pos hfull]
    exact ⟨by bv_omega, rfl⟩
  · simp only [if_neg hfull]
    exact ⟨rfl, by bv_omega⟩

-- A break that does not end is one cycle older after the edge.
theorem posedge_breakTime (he : s.ctrlEnable) (hb : s.lin.breakActive) (hend : ¬ s.breakEnds)
    (ht : s.lin.breakTick ≤ s.baudDiv) (hc : s.lin.breakCounter ≤ s.linBreakLength.setWidth 32)
    (hbaud : (posedge s i).baudDiv = s.baudDiv) :
    (posedge s i).lin.breakTick ≤ s.baudDiv ∧
      (posedge s i).lin.breakCounter ≤ s.linBreakLength.setWidth 32 ∧
      (posedge s i).breakTime = s.breakTime + 1 := by
  obtain ⟨hcount, htick⟩ := posedge_breakCount (i := i) he hb hend
  have ht' : s.lin.breakTick.toNat ≤ s.baudDiv.toNat := ht
  have hc' : s.lin.breakCounter.toNat ≤ (s.linBreakLength.setWidth 32).toNat := hc
  unfold breakTime bitTime
  rw [hbaud, BitVec.le_def, BitVec.le_def, hcount, htick]
  by_cases hfull : s.lin.breakTick ≥ s.baudDiv
  · have hfull' : s.baudDiv.toNat ≤ s.lin.breakTick.toNat := hfull
    have hlt : s.lin.breakCounter.toNat < (s.linBreakLength.setWidth 32).toNat := by
      apply Nat.lt_of_not_le
      intro hge
      exact hend (by simp [breakEnds, hfull, BitVec.le_def.mpr hge])
    simp only [if_pos hfull]
    rw [Nat.succ_mul]
    omega
  · have hfull' : s.lin.breakTick.toNat < s.baudDiv.toNat := BitVec.not_le.mp hfull
    simp only [if_neg hfull, Nat.add_zero]
    omega

-- Nothing is left of a break that is over.
theorem posedge_breakTick (h : s.lin.breakActive = false → s.lin.breakTick = 0)
    (hact : (posedge s i).lin.breakActive = false) : (posedge s i).lin.breakTick = 0 := by
  have hset := settled_generator (s := s) (i := i)
  by_cases hb : s.lin.breakActive
  · -- a break goes on, unless this is its end
    by_cases he : s.ctrlEnable
    · have hgen := posedge_break_on (i := i) he hb
      by_cases hend : s.breakEnds
      · rw [if_pos hend] at hgen
        exact congrArg Generator.tick hgen
      · rw [if_neg hend] at hgen
        exact absurd ((congrArg Generator.active hgen).symm.trans hact) (by simp)
    · have hgen := posedge_generator (s := s) (i := i)
      rw [transmit, if_pos (by simp [he])] at hgen
      have hactive : true = (settled s i).lin.breakActive := by
        rw [show (settled s i).lin.breakActive = _ from congrArg Generator.active hset, hb,
          Bool.or_true]
      exact absurd (hactive.trans ((congrArg Generator.active hgen).symm.trans hact)) (by simp)
  · have htx : (transmit s (settled s i)).lin.breakTick = (settled s i).lin.breakTick := by
      simp only [transmit, hb, txIdle, txShiftOut, countSlaveByte, loadFrame, Bool.false_eq_true,
        ↓reduceIte, apply_ite Uart.lin, apply_ite Lin.breakTick, ite_self]
    have htick : (posedge s i).lin.breakTick = s.lin.breakTick :=
      (congrArg Generator.tick posedge_generator).trans (htx.trans (congrArg Generator.tick hset))
    rw [htick]
    exact h (Bool.not_eq_true _ |>.mp hb)

/-- A break has been on for `x` cycles. -/
structure BreakAged (x : Nat) (s : Uart) : Prop where
  active : s.lin.breakActive = true
  tick : s.lin.breakTick ≤ s.baudDiv
  counter : s.lin.breakCounter ≤ s.linBreakLength.setWidth 32
  time : s.breakTime = x

-- The start clears the counter but not the tick.
theorem breakAged_start (he : s.ctrlEnable) (hb : s.lin.breakActive = false) (h0 : s.lin.breakTick = 0)
    (hstart : s.breakStarts) : BreakAged 0 (posedge s i) := by
  have hgen := posedge_break_off (i := i) he hb
  rw [hstart] at hgen
  have hcounter : (posedge s i).lin.breakCounter = 0 := congrArg Generator.counter hgen
  have htick : (posedge s i).lin.breakTick = 0 := (congrArg Generator.tick hgen).trans h0
  refine ⟨congrArg Generator.active hgen, ?_, ?_, ?_⟩
  · rw [htick]
    exact Nat.zero_le _
  · rw [hcounter]
    exact Nat.zero_le _
  · rw [breakTime, hcounter, htick]
    exact (Nat.add_zero _).trans (Nat.zero_mul _)

theorem BreakAged.breakEnds_iff (h : BreakAged x s) :
    s.breakEnds ↔ x + 1 = (s.breakBits + 1) * s.bitTime := by
  rw [Uart.breakEnds_iff h.tick h.counter, h.time]

theorem BreakAged.posedge (h : BreakAged x s) (he : s.ctrlEnable) (hends : ¬ s.breakEnds)
    (hbaud : (posedge s i).baudDiv = s.baudDiv) (hlength : (posedge s i).linBreakLength = s.linBreakLength) :
    BreakAged (x + 1) (posedge s i) := by
  have hgen := posedge_break_on (i := i) he h.active
  rw [if_neg hends] at hgen
  obtain ⟨htick, hcounter, htime⟩ := posedge_breakTime (i := i) he h.active hends h.tick h.counter hbaud
  refine ⟨congrArg Generator.active hgen, ?_, ?_, ?_⟩
  · rw [hbaud]
    exact htick
  · rw [hlength]
    exact hcounter
  · rw [htime, h.time]

/-! ## Detector -/

/-- The cycles the line has been low, as far as the detector counts them. -/
def lowTime (s : Uart) : Nat := s.lin.rxLowCounter.toNat * s.bitTime + s.lin.rxTick.toNat

-- Every edge leaves the count of the detector to it.
theorem detectBreak_count (he : s.ctrlEnable) (hl : s.ctrlLinMode) :
    (posedge s i).lin.rxLowCounter =
        (if s.rx.sync2 then 0
        else if s.lin.rxTick ≥ s.baudDiv ∧ s.lin.rxLowCounter < 0xFFFF#32 then s.lin.rxLowCounter + 1
        else s.lin.rxLowCounter) ∧
      (posedge s i).lin.rxTick =
        (if s.rx.sync2 then 0 else if s.lin.rxTick ≥ s.baudDiv then 0 else s.lin.rxTick + 1) := by
  have hkeep : (receive s (transmit s (settled s i))).lin.rxLowCounter = s.lin.rxLowCounter ∧
      (receive s (transmit s (settled s i))).lin.rxTick = s.lin.rxTick := by
    simp only [receive, rxIdle, rxSample, startFrame, countIdle, sampleBit, finishFrame, captureHeader,
      transmit, driveBreak, endBreak, txIdle, txShiftOut, countSlaveByte, loadFrame, settled, startBreak,
      statusBits, busRead, busWrite, writeData, writeIrqStatus, writeLinCmd, writeLinSlaveCtrl,
      synchronize, apply_ite Uart.lin, apply_ite Lin.rxLowCounter, apply_ite Lin.rxTick, ite_self,
      and_self]
  show (detectBreak s (receive s (transmit s (settled s i)))).lin.rxLowCounter = _ ∧
    (detectBreak s (receive s (transmit s (settled s i)))).lin.rxTick = _
  unfold detectBreak
  rw [if_pos (by simp [he, hl])]
  by_cases hs : s.rx.sync2
  · simp [hs]
  · by_cases ht : s.lin.rxTick ≥ s.baudDiv
    · by_cases hc : s.lin.rxLowCounter < 0xFFFF#32 <;>
        simp [hs, ht, hc, hkeep, armHeader, apply_ite Uart.lin, apply_ite Lin.rxLowCounter,
          apply_ite Lin.rxTick]
    · simp [hs, ht, hkeep]

-- The detector counts the cycles of a low line until its counter is full.
theorem posedge_lowTime (he : s.ctrlEnable) (hl : s.ctrlLinMode)
    (hlow : s.rx.sync2 = false → s.lin.rxTick ≤ s.baudDiv ∧ s.lin.rxLowCounter < 0xFFFF#32)
    (hbaud : (posedge s i).baudDiv = s.baudDiv) :
    (posedge s i).lin.rxTick ≤ (posedge s i).baudDiv ∧
      (posedge s i).lowTime = if s.rx.sync2 then 0 else s.lowTime + 1 := by
  obtain ⟨hcount, htick⟩ := detectBreak_count (i := i) he hl
  unfold lowTime bitTime
  rw [hbaud, hcount, htick]
  by_cases hs : s.rx.sync2
  · simp only [hs, ↓reduceIte]
    exact ⟨by bv_omega, by simp⟩
  · obtain ⟨ht, hc⟩ := hlow (Bool.not_eq_true _ |>.mp hs)
    simp only [hs, Bool.false_eq_true, ↓reduceIte]
    by_cases hfull : s.lin.rxTick ≥ s.baudDiv
    · have heq : s.lin.rxTick = s.baudDiv := BitVec.le_antisymm ht hfull
      have hstep : (s.lin.rxLowCounter + 1).toNat = s.lin.rxLowCounter.toNat + 1 := by bv_omega
      rw [if_pos hfull, if_pos ⟨hfull, hc⟩, hstep, Nat.succ_mul, heq]
      refine ⟨by bv_omega, ?_⟩
      show _ + 0 = _
      omega
    · have hstep : (s.lin.rxTick + 1).toNat = s.lin.rxTick.toNat + 1 := by bv_omega
      rw [if_neg hfull, if_neg (fun h ↦ hfull h.1), hstep]
      exact ⟨by bv_omega, by omega⟩

-- The detector sees a break in the last cycle of its last bit.
theorem breakSeen_of_lowTime (he : s.ctrlEnable) (hl : s.ctrlLinMode) (hs : s.rx.sync2 = false)
    (ht : s.lin.rxTick ≤ s.baudDiv) (hlow : s.lowTime + 1 = s.breakBits * s.bitTime) :
    s.breakSeen := by
  have ht' : s.lin.rxTick.toNat ≤ s.baudDiv.toNat := ht
  have hlen := s.linBreakLength.isLt
  unfold lowTime bitTime at hlow
  have hlast : s.lin.rxLowCounter.toNat + 1 = s.breakBits ∧ s.lin.rxTick.toNat = s.baudDiv.toNat := by
    have hge : ¬ s.breakBits ≤ s.lin.rxLowCounter.toNat := by
      intro hle
      have hmul := Nat.mul_le_mul_right (s.baudDiv.toNat + 1) hle
      omega
    have hle : ¬ s.lin.rxLowCounter.toNat + 1 < s.breakBits := by
      intro hlt
      have hmul := Nat.mul_le_mul_right (s.baudDiv.toNat + 1)
        (show s.lin.rxLowCounter.toNat + 1 + 1 ≤ s.breakBits from hlt)
      rw [Nat.succ_mul, Nat.succ_mul] at hmul
      omega
    have heq : s.lin.rxLowCounter.toNat + 1 = s.breakBits := by omega
    rw [← heq, Nat.succ_mul] at hlow
    exact ⟨heq, by omega⟩
  have hcount : s.lin.rxLowCounter + 1#32 ≥ s.linBreakLength.setWidth 32 := by
    show (s.linBreakLength.setWidth 32).toNat ≤ (s.lin.rxLowCounter + 1#32).toNat
    have hbits : s.breakBits = s.linBreakLength.toNat := rfl
    rw [length_toNat, BitVec.toNat_add_of_lt]
    · show _ ≤ _ + 1
      omega
    · show _ + 1 < 2 ^ 32
      omega
  have htick : s.lin.rxTick ≥ s.baudDiv := by
    show s.baudDiv.toNat ≤ _
    omega
  simp [breakSeen, he, hl, hs, hcount, htick]

-- No break is seen on a line that has been low for too short a time.
theorem lowTime_of_breakSeen (h : s.breakSeen) (hc : s.lin.rxLowCounter < 0xFFFF#32) :
    s.breakBits * s.bitTime ≤ s.lowTime + 1 := by
  simp only [breakSeen, Bool.and_eq_true, decide_eq_true_eq] at h
  obtain ⟨⟨-, ht⟩, hcount⟩ := h
  have ht' : s.baudDiv.toNat ≤ s.lin.rxTick.toNat := ht
  have hstep : (s.lin.rxLowCounter + 1#32).toNat = s.lin.rxLowCounter.toNat + 1 := by bv_omega
  have hle : s.breakBits ≤ s.lin.rxLowCounter.toNat + 1 := by
    rw [← length_toNat, ← hstep]
    exact hcount
  have hmul := Nat.mul_le_mul_right s.bitTime hle
  rw [Nat.succ_mul] at hmul
  unfold lowTime
  have hbit : s.bitTime = s.baudDiv.toNat + 1 := rfl
  omega

/-! ## Header capture -/

/-- The registers of the header capture. -/
structure Capture where
  state : BitVec 2
  valid : Bool
  waits : Bool
  syncByte : Byte
  idByte : Byte
  syncError : Bool

def capture (s : Uart) : Capture :=
  ⟨s.lin.headerState, s.lin.headerValid, s.lin.waitDelimiter, s.lin.syncByte, s.lin.idByte,
    s.lin.syncError⟩

/-- The capture takes a byte. -/
def Capture.take (c : Capture) (b : Byte) : Capture :=
  if c.state = 1#2 then { c with syncByte := b, syncError := b != 0x55#8, state := 2 }
  else { c with idByte := b, valid := true, state := 0 }

theorem settled_capture (hw : i.bus.write = false) : (settled s i).capture = s.capture := by
  simp only [capture, settled, startBreak, statusBits, busRead, busWrite, synchronize, hw,
    Bool.false_eq_true, ↓reduceIte, apply_ite Uart.lin, apply_ite Lin.headerState,
    apply_ite Lin.headerValid, apply_ite Lin.waitDelimiter, apply_ite Lin.syncByte, apply_ite Lin.idByte,
    apply_ite Lin.syncError, ite_self]

theorem transmit_capture : (transmit s n).capture = n.capture := by
  simp only [capture, transmit, driveBreak, endBreak, txIdle, txShiftOut, countSlaveByte, loadFrame,
    apply_ite Uart.lin, apply_ite Lin.headerState, apply_ite Lin.headerValid,
    apply_ite Lin.waitDelimiter, apply_ite Lin.syncByte, apply_ite Lin.idByte, apply_ite Lin.syncError,
    ite_self]

theorem detectBreak_capture (h : s.breakSeen = false) : (detectBreak s n).capture = n.capture := by
  simp only [breakSeen, Bool.and_eq_false_iff, decide_eq_false_iff_not, Bool.not_eq_false'] at h
  simp only [capture, detectBreak, armHeader, apply_ite Uart.lin, apply_ite Lin.headerState,
    apply_ite Lin.headerValid, apply_ite Lin.waitDelimiter, apply_ite Lin.syncByte, apply_ite Lin.idByte,
    apply_ite Lin.syncError, ite_self]
  rcases h with (((hl | he) | hs) | ht) | hc
  · simp [hl]
  · simp [he]
  · simp [hs]
  · simp [ht]
  · simp [hc]

-- Without a break only the receiver reaches the capture.
theorem posedge_capture (h : s.breakSeen = false) :
    (posedge s i).capture = (receive s (transmit s (settled s i))).capture := detectBreak_capture h

/-- The receiver has seen a break and waits for its end. -/
structure Awaits (s : Uart) : Prop where
  state : s.lin.headerState = 1#2
  valid : s.lin.headerValid = false
  waits : s.lin.waitDelimiter = true
  idle : s.rx.busy = false
  empty : s.rxFifo.empty = true

-- A break arms the header capture and empties the RX FIFO.
theorem awaits_of_breakSeen (h : s.breakSeen) (hr : ¬ rxTakes s i.bus) : Awaits (posedge s i) := by
  have harm {n : Uart} : (detectBreak s n).lin.headerState = 1#2 ∧
      (detectBreak s n).lin.headerValid = false ∧ (detectBreak s n).lin.waitDelimiter = true ∧
      (detectBreak s n).rx.busy = false := by
    have h' := h
    simp only [breakSeen, Bool.and_eq_true, decide_eq_true_eq, Bool.not_eq_true'] at h'
    obtain ⟨⟨⟨⟨hl, he⟩, hs⟩, ht⟩, hc⟩ := h'
    by_cases hfull : s.lin.rxLowCounter < 0xFFFF#32 <;>
      simp [detectBreak, hl, he, hs, ht, hc, hfull, armHeader, apply_ite Uart.rx]
  obtain ⟨hhead, htail⟩ := posedge_break (i := i) h
  rw [if_neg hr] at htail
  refine ⟨harm.1, harm.2.1, harm.2.2.1, harm.2.2.2, ?_⟩
  rw [Clocked.Ring.empty, hhead, htail, beq_self_eq_true]

-- Until then the receiver does nothing.
theorem Awaits.waiting (h : Awaits s) (he : s.ctrlEnable) (hl : s.ctrlLinMode)
    (hb : s.breakSeen = false) (hw : i.bus.write = false) :
    (posedge s i).capture = { s.capture with waits := !s.rx.sync2 } ∧ (posedge s i).rx.busy = false ∧
      (posedge s i).rxFifo.empty = true := by
  refine ⟨?_, ?_, ?_⟩
  · have hn : (transmit s (settled s i)).capture = s.capture :=
      transmit_capture.trans (settled_capture hw)
    rw [posedge_capture hb, receive, if_neg (by simp [he]), if_pos (by simp [h.idle]), rxIdle,
      if_pos (by simp [hl, h.waits]), ← hn]
    have hwaits : (transmit s (settled s i)).lin.waitDelimiter = true :=
      (congrArg Capture.waits hn).trans h.waits
    cases hs : s.rx.sync2
    · simp [capture, hwaits]
    · simp [capture]
  · rw [posedge_rx hb, receive, if_neg (by simp [he]), if_pos (by simp [h.idle]), rxIdle,
      if_pos (by simp [hl, h.waits])]
    show (transmit s (settled s i)).rx.busy = false
    rw [transmit_rx, settled_rx]
    exact h.idle
  · have hflush : flushesRx s i.bus = false := by simp [flushesRx, hw, hb]
    have hpush : rxPush s = none := by simp [rxPush, h.idle]
    rw [posedge_rxFifo hflush, hpush, h.empty, ite_self, Bool.not_true, Bool.and_false]
    exact h.empty

theorem Awaits.low (h : Awaits s) (he : s.ctrlEnable) (hl : s.ctrlLinMode)
    (hs : s.rx.sync2 = false) (hw : i.bus.write = false) : Awaits (posedge s i) := by
  by_cases hb : s.breakSeen
  · -- the break is seen again, which changes nothing
    exact awaits_of_breakSeen hb (by simp [rxTakes, h.empty])
  · obtain ⟨hc, hbusy, hempty⟩ := h.waiting (i := i) he hl (Bool.not_eq_true _ |>.mp hb) hw
    simp only [capture, Capture.mk.injEq, hs] at hc
    exact ⟨hc.1.trans h.state, hc.2.1.trans h.valid, hc.2.2.1, hbusy, hempty⟩

end Uart

end QarCore
