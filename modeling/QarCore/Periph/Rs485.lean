import QarCore.Periph.UartLink

/-!
# RS-485 direction control

The direction pins of the UART against what is on its TX line.  The serializer counts a bit as gone
when it puts it on the line, so during the last stop bit, and throughout a LIN break, it counts no bits.
-/

namespace QarCore

namespace Uart

variable {s : Uart} {i : Inputs} {txMem rxMem : BitVec 3 → Byte} {inp : Nat → Inputs} {t u : Nat}

/-! ## Pins -/

def driveDeRaw (s : Uart) : Bool :=
  if s.rs485Ctrl.getLsbD 0 then s.tx.bitsRemaining != 0#5 || !s.txFifo.empty
  else s.rs485Ctrl.getLsbD 3

def driveReRaw (s : Uart) : Bool :=
  if s.rs485Ctrl.getLsbD 0 then !s.driveDeRaw else s.rs485Ctrl.getLsbD 4

def rs485De (s : Uart) : Bool := if s.rs485Ctrl.getLsbD 1 then !s.driveDeRaw else s.driveDeRaw
def rs485Re (s : Uart) : Bool := if s.rs485Ctrl.getLsbD 2 then !s.driveReRaw else s.driveReRaw

/-- The driver is enabled, whatever the polarity of its pin. -/
def deAsserted (s : Uart) : Bool := s.rs485De != s.rs485Ctrl.getLsbD 1
def reAsserted (s : Uart) : Bool := s.rs485Re != s.rs485Ctrl.getLsbD 2

/-! ## The line -/

/-- The serializer puts a bit on the line. -/
def shiftsBit (s : Uart) : Bool :=
  s.ctrlEnable && !s.lin.breakActive && s.tx.bitsRemaining != 0#5 && s.tx.counter ≥ s.baudDiv

/-- The bit is the last stop bit of its frame. -/
def shiftsLast (s : Uart) : Bool := s.shiftsBit && s.tx.bitsRemaining == 1#5

def breakEnds (s : Uart) : Bool :=
  s.lin.breakTick ≥ s.baudDiv && s.lin.breakCounter ≥ s.linBreakLength.setWidth 32

/-- A LIN break is put on the line. -/
def drivesBreak (s : Uart) : Bool := s.ctrlEnable && s.lin.breakActive && !s.breakEnds

/-- What the TX line carries: a bit of a frame that is not its last, the last stop bit with some cycles
left, or a LIN break. -/
inductive OnLine
  | idle
  | bit
  | lastBit (left : Nat)
  | brk
  deriving DecidableEq

/-- What is on the line after an edge. -/
def OnLine.next (o : OnLine) (s : Uart) : OnLine :=
  if !s.ctrlEnable then .idle
  else if s.lin.breakActive then if s.breakEnds then .idle else .brk
  else if s.shiftsBit then if s.shiftsLast then .lastBit s.baudDiv.toNat else .bit
  else
    match o with
    | .lastBit (left + 1) => .lastBit left
    | .lastBit 0 => .idle
    | .bit => .bit
    | .brk | .idle => .idle

section

variable (txMem rxMem : BitVec 3 → Byte) (inp : Nat → Inputs)

def onLine : Nat → OnLine
  | 0 => .idle
  | u + 1 => (onLine u).next (after txMem rxMem inp u)

/-- What is expected of the direction pins in cycle `u`. -/
structure Drives (u : Nat) : Prop where
  covers : onLine txMem rxMem inp u ≠ .idle →
    (after txMem rxMem inp u).deAsserted ∧ ¬ (after txMem rxMem inp u).reAsserted
  exclusive : ¬ ((after txMem rxMem inp u).deAsserted ∧ (after txMem rxMem inp u).reAsserted)

/-- A DATA write takes the write pointer of an overfull FIFO all the way round. -/
def txWraps (s : Uart) (b : BusAccess 4) : Prop :=
  s.txFifo.count = 15 ∧ (txPush b).isSome ∧ ¬ s.takesTxByte

/-- The edge of cycle `u` leaves another byte behind a last stop bit or a break. -/
structure KeepsBusy (u : Nat) : Prop where
  last : (after txMem rxMem inp u).shiftsLast → ¬ (after txMem rxMem inp (u + 1)).txFifo.empty
  brk : (after txMem rxMem inp u).drivesBreak → ¬ (after txMem rxMem inp (u + 1)).txFifo.empty
  noWrap : ∀ left, onLine txMem rxMem inp (u + 1) = .lastBit left →
    (after txMem rxMem inp (u + 1)).tx.bitsRemaining = 0#5 →
      ¬ txWraps (after txMem rxMem inp u) (inp u).bus

end

/-- What is behind whatever is on the line. -/
def Behind (s : Uart) : OnLine → Prop
  | .idle => True
  | .bit => s.tx.bitsRemaining ≠ 0#5
  | .lastBit _ => s.tx.bitsRemaining ≠ 0#5 ∨ ¬ s.txFifo.empty
  | .brk => ¬ s.txFifo.empty

/-! ## Direction -/

theorem deAsserted_eq (h : s.rs485Ctrl.getLsbD 0) : s.deAsserted =
    (s.tx.bitsRemaining != 0#5 || !s.txFifo.empty) := by
  unfold deAsserted rs485De driveDeRaw
  rw [if_pos h]
  cases s.rs485Ctrl.getLsbD 1 <;> simp

theorem reAsserted_eq (h : s.rs485Ctrl.getLsbD 0) : s.reAsserted = !s.deAsserted := by
  unfold reAsserted rs485Re driveReRaw
  rw [if_pos h, deAsserted_eq h, driveDeRaw, if_pos h]
  cases s.rs485Ctrl.getLsbD 2 <;> simp

/-! ## One edge -/

theorem posedge_tx_shift (hs : s.shiftsBit) : (posedge s i).tx =
    { line := s.tx.shift.getLsbD 0
      shift := 1#1 ++ s.tx.shift.extractLsb' 1 11
      bitsRemaining := s.tx.bitsRemaining - 1
      counter := 0 } := by
  simp only [shiftsBit, Bool.and_eq_true, Bool.not_eq_true', bne_iff_ne, ne_eq, decide_eq_true_eq] at hs
  rw [posedge_tx_busy ⟨hs.1.1.1, hs.1.1.2⟩ hs.1.2, if_pos hs.2]

theorem posedge_tx_wait (h : Sends s) (h0 : s.tx.bitsRemaining ≠ 0#5) (hs : ¬ s.shiftsBit) :
    s.tx.counter < s.baudDiv ∧ (posedge s i).tx = { s.tx with counter := s.tx.counter + 1 } := by
  have hc : ¬ s.tx.counter ≥ s.baudDiv := by
    intro hc
    exact hs (by simp [shiftsBit, h.enabled, h.noBreak, h0, hc])
  rw [posedge_tx_busy h h0, if_neg hc]
  exact ⟨BitVec.not_le.mp hc, rfl⟩

-- The bits the serializer still counts.
theorem posedge_bitsRemaining : (posedge s i).tx.bitsRemaining =
    if s.ctrlEnable ∧ ¬ s.lin.breakActive then
      if s.tx.bitsRemaining = 0#5 then
        if s.lin.autoState ≠ 0#2 ∨ s.takesTxByte then calcFrameBits s.frameConfig else 0#5
      else if s.shiftsBit then s.tx.bitsRemaining - 1 else s.tx.bitsRemaining
    else 0#5 := by
  by_cases hon : s.ctrlEnable ∧ ¬ s.lin.breakActive
  · have hsends : Sends s := ⟨hon.1, by simpa using hon.2⟩
    rw [if_pos hon]
    by_cases h0 : s.tx.bitsRemaining = 0#5
    · rw [if_pos h0, posedge_tx_idle hsends h0, loadsByte]
      by_cases ha : s.lin.autoState = 0#2
      · by_cases ht : s.takesTxByte
        · simp [ha, ht, TxEngine.load]
        · simp [ha, ht, h0, TxEngine.load]
      · simp [ha, h0, hsends.enabled, hsends.noBreak, TxEngine.load]
    · rw [if_neg h0]
      by_cases hs : s.shiftsBit
      · rw [posedge_tx_shift hs, if_pos hs]
      · rw [(posedge_tx_wait hsends h0 hs).2, if_neg hs]
  · rw [if_neg hon, posedge_tx, transmit]
    by_cases he : s.ctrlEnable
    · have hb : s.lin.breakActive := by simpa [he] using hon
      rw [if_neg (by simp [he]), if_pos hb]
      simp only [driveBreak, endBreak, apply_ite Uart.tx, apply_ite TxEngine.bitsRemaining, ite_self]
      rfl
    · rw [if_pos (by simp [he])]
      rfl

theorem calcFrameBits_ne_zero (fc : FrameConfig) : calcFrameBits fc ≠ 0#5 := by
  intro h
  have htoNat := calcFrameBits_toNat fc
  rw [h] at htoNat
  replace htoNat : 0 = fc.stopAt + if fc.twoStop then 2 else 1 := htoNat
  split at htoNat <;> omega

-- A bit that is not the last one of its frame leaves bits to come.
theorem posedge_bits_shift (hs : s.shiftsBit) (hl : ¬ s.shiftsLast) :
    (posedge s i).tx.bitsRemaining ≠ 0#5 := by
  have hs' := hs
  simp only [shiftsBit, Bool.and_eq_true, Bool.not_eq_true', bne_iff_ne, ne_eq] at hs'
  obtain ⟨⟨⟨he, hb⟩, h0⟩, -⟩ := hs'
  have h1 : s.tx.bitsRemaining ≠ 1#5 := by
    intro h1
    exact hl (by simp [shiftsLast, hs, h1])
  rw [posedge_bitsRemaining, if_pos ⟨he, by simp [hb]⟩, if_neg h0, if_pos hs]
  bv_omega

-- Nothing is counted for the last stop bit, nor for a break.
theorem posedge_bits_last (hl : s.shiftsLast) : (posedge s i).tx.bitsRemaining = 0#5 := by
  simp only [shiftsLast, Bool.and_eq_true, beq_iff_eq] at hl
  obtain ⟨hs, h1⟩ := hl
  have hs' := hs
  simp only [shiftsBit, Bool.and_eq_true, Bool.not_eq_true'] at hs'
  rw [posedge_bitsRemaining, if_pos ⟨hs'.1.1.1, by simp [hs'.1.1.2]⟩, if_neg (by rw [h1]; decide),
    if_pos hs, h1]
  rfl

theorem posedge_bits_break (hb : s.drivesBreak) : (posedge s i).tx.bitsRemaining = 0#5 := by
  simp only [drivesBreak, Bool.and_eq_true] at hb
  rw [posedge_bitsRemaining, if_neg]
  intro h
  exact h.2 hb.1.2

theorem posedge_bits_hold (he : s.ctrlEnable) (hb : ¬ s.lin.breakActive)
    (h0 : s.tx.bitsRemaining ≠ 0#5) (hs : ¬ s.shiftsBit) :
    (posedge s i).tx.bitsRemaining ≠ 0#5 := by
  rw [posedge_bitsRemaining, if_pos ⟨he, hb⟩, if_neg h0, if_neg hs]
  exact h0

theorem posedge_bits_load (he : s.ctrlEnable) (hb : ¬ s.lin.breakActive)
    (h0 : s.tx.bitsRemaining = 0#5) (ht : s.takesTxByte) :
    (posedge s i).tx.bitsRemaining ≠ 0#5 := by
  rw [posedge_bitsRemaining, if_pos ⟨he, hb⟩, if_pos h0, if_pos (Or.inr ht)]
  exact calcFrameBits_ne_zero _

-- A FIFO from which nothing is taken stays non-empty, unless it wraps.
theorem posedge_txFifo_empty (hne : ¬ s.txFifo.empty) (ht : ¬ s.takesTxByte)
    (hw : ¬ txWraps s i.bus) : ¬ (posedge s i).txFifo.empty := by
  rw [posedge_txFifo, Bool.not_eq_true _ |>.mp ht]
  cases hp : (if s.txFifo.wideFull then none else txPush i.bus) with
  | none => exact hne
  | some x =>
    have hsome : (txPush i.bus).isSome := by
      split at hp
      · cases hp
      · rw [hp]
        rfl
    show ¬ (s.txFifo.head + 1 == s.txFifo.tail) = true
    rw [beq_iff_eq]
    -- the write pointer meets the read pointer after fifteen bytes
    intro heq
    refine hw ⟨?_, hsome, ht⟩
    rw [Clocked.Ring.count]
    bv_omega

theorem txWraps_empty (h : txWraps s i.bus) : (posedge s i).txFifo.empty := by
  obtain ⟨hc, hp, ht⟩ := h
  obtain ⟨x, hx⟩ := Option.isSome_iff_exists.mp hp
  have hw : s.txFifo.wideFull = false := by
    rw [← Bool.not_eq_true, Clocked.Ring.wideFull_iff (by decide)]
    omega
  rw [posedge_txFifo, Bool.not_eq_true _ |>.mp ht, hw, if_neg Bool.false_ne_true, hx]
  show (s.txFifo.head + 1 == s.txFifo.tail) = true
  rw [beq_iff_eq]
  rw [Clocked.Ring.count] at hc
  bv_omega

/-! ## The pin -/

theorem posedge_line : (posedge s i).tx.line =
    if s.ctrlEnable then
      if s.lin.breakActive then s.breakEnds
      else if s.shiftsBit then s.tx.shift.getLsbD 0 else s.tx.line
    else true := by
  by_cases he : s.ctrlEnable
  · rw [if_pos he]
    by_cases hb : s.lin.breakActive
    · rw [if_pos hb, posedge_tx, transmit, if_neg (by simp [he]), if_pos hb]
      unfold driveBreak endBreak breakEnds
      by_cases ht : s.lin.breakTick ≥ s.baudDiv <;>
        by_cases hc : s.lin.breakCounter ≥ s.linBreakLength.setWidth 32 <;>
        by_cases ha : s.lin.autoHeaderPending <;> simp [ht, hc, ha]
    · have hsends : Sends s := ⟨he, by simpa using hb⟩
      rw [if_neg hb]
      by_cases hs : s.shiftsBit
      · rw [if_pos hs, posedge_tx_shift hs]
      · rw [if_neg hs]
        by_cases h0 : s.tx.bitsRemaining = 0#5
        · rw [posedge_tx_idle hsends h0]
          cases s.loadsByte <;> rfl
        · rw [(posedge_tx_wait hsends h0 hs).2]
  · rw [if_neg he, posedge_tx, transmit, if_pos (by simp [he])]

/-- The last of the bits to come is a stop bit. -/
def EndsInStop (e : TxEngine) : Prop :=
  e.bitsRemaining ≠ 0#5 →
    e.bitsRemaining.toNat ≤ 12 ∧ e.shift.getLsbD (e.bitsRemaining.toNat - 1) = true

theorem endsInStop_load (b : Byte) (fc : FrameConfig) (e : TxEngine) (counter : Word) :
    EndsInStop { e with shift := buildTxFrame b fc, bitsRemaining := calcFrameBits fc,
                        counter := counter } := by
  intro _
  have hle := bits_le fc
  have hn := calcFrameBits_toNat fc
  refine ⟨hle, buildTxFrame_stop b ?_ ?_⟩
  · show fc.stopAt ≤ (calcFrameBits fc).toNat - 1
    split at hn <;> omega
  · show (calcFrameBits fc).toNat - 1 < 12
    omega

theorem endsInStop_shift {e : TxEngine} (h : EndsInStop e) (h0 : e.bitsRemaining ≠ 0#5)
    (line : Bool) (counter : Word) :
    EndsInStop { line := line, shift := 1#1 ++ e.shift.extractLsb' 1 11,
                 bitsRemaining := e.bitsRemaining - 1, counter := counter } := by
  intro h1
  obtain ⟨hle, hstop⟩ := h h0
  have hsub : (e.bitsRemaining - 1).toNat = e.bitsRemaining.toNat - 1 := by bv_omega
  have hpos : (e.bitsRemaining - 1).toNat ≠ 0 := by
    intro hz
    exact h1 (BitVec.eq_of_toNat_eq hz)
  show (e.bitsRemaining - 1).toNat ≤ 12 ∧ _
  rw [hsub] at hpos ⊢
  refine ⟨by omega, ?_⟩
  -- the bit that was second to come is now first
  have hlt : e.bitsRemaining.toNat - 1 - 1 < 11 := by omega
  have hidx : 1 + (e.bitsRemaining.toNat - 1 - 1) = e.bitsRemaining.toNat - 1 := by omega
  rw [BitVec.getLsbD_append, if_pos hlt, BitVec.getLsbD_extractLsb', hidx, hstop,
    decide_eq_true hlt]
  rfl

theorem endsInStop_posedge (h : EndsInStop s.tx) : EndsInStop (posedge s i).tx := by
  by_cases hon : s.ctrlEnable ∧ ¬ s.lin.breakActive
  · have hsends : Sends s := ⟨hon.1, by simpa using hon.2⟩
    by_cases h0 : s.tx.bitsRemaining = 0#5
    · rw [posedge_tx_idle hsends h0]
      cases s.loadsByte with
      | none => exact h
      | some b => exact endsInStop_load b s.frameConfig s.tx 0
    · by_cases hs : s.shiftsBit
      · rw [posedge_tx_shift hs]
        exact endsInStop_shift h h0 _ _
      · rw [(posedge_tx_wait hsends h0 hs).2]
        exact h
  · -- nothing is to come in a break or with the transmitter off
    intro h0
    exact absurd (by rw [posedge_bitsRemaining, if_neg hon]) h0

/-- The line as `OnLine` has it. -/
structure Carries (s : Uart) (o : OnLine) : Prop where
  stops : EndsInStop s.tx
  high : s.tx.line = false → o = .bit ∨ o = .brk
  breaks : o = .brk → s.lin.breakActive = true
  counts : o = .bit → s.tx.bitsRemaining ≠ 0#5
  skips : o = .brk → s.tx.bitsRemaining = 0#5

theorem posedge_breakActive (h : s.drivesBreak) : (posedge s i).lin.breakActive = true := by
  simp only [drivesBreak, breakEnds, Bool.and_eq_true, Bool.not_eq_true', Bool.and_eq_false_iff,
    decide_eq_false_iff_not] at h
  obtain ⟨⟨he, hb⟩, hends⟩ := h
  have hdrive {n : Uart} (hn : n.lin.breakActive) : (driveBreak s n).lin.breakActive = true := by
    unfold driveBreak
    split
    · rename_i ht
      rw [if_neg (hends.resolve_left (fun hlt ↦ hlt ht))]
      exact hn
    · exact hn
  have hsettled : (settled s i).lin.breakActive = true := by
    simp only [settled, startBreak, statusBits, busRead, busWrite, writeData, writeIrqStatus,
      writeLinCmd, writeLinSlaveCtrl, synchronize, apply_ite Uart.lin, apply_ite Lin.breakActive,
      hb, ite_self]
  have hrest {n : Uart} (hn : n.lin.breakActive) :
      (detectBreak s (receive s n)).lin.breakActive = true := by
    simp only [detectBreak, armHeader, receive, rxIdle, rxSample, startFrame, countIdle, sampleBit,
      finishFrame, captureHeader, apply_ite Uart.lin, apply_ite Lin.breakActive, hn, ite_self]
  apply hrest
  show (transmit s (settled s i)).lin.breakActive = true
  rw [transmit, if_neg (by simp [he]), if_pos hb]
  exact hdrive hsettled

theorem OnLine.drivesBreak_of_next {o : OnLine} (hbrk : o.next s = .brk) : s.drivesBreak := by
  unfold OnLine.next at hbrk
  split at hbrk
  · exact absurd hbrk OnLine.noConfusion
  rename_i he
  split at hbrk
  · rename_i hb
    split at hbrk
    · exact absurd hbrk OnLine.noConfusion
    rename_i hends
    simp only [Bool.not_eq_true, Bool.not_eq_false'] at he
    simp [drivesBreak, he, hb, hends]
  · split at hbrk
    · split at hbrk <;> exact absurd hbrk OnLine.noConfusion
    · split at hbrk <;> exact absurd hbrk OnLine.noConfusion

-- During a frame there are bits to come.
theorem OnLine.counts_next {o : OnLine} (h : o = .bit → s.tx.bitsRemaining ≠ 0#5)
    (hbit : o.next s = .bit) : (posedge s i).tx.bitsRemaining ≠ 0#5 := by
  unfold OnLine.next at hbit
  split at hbit
  · exact absurd hbit OnLine.noConfusion
  rename_i he
  have he' : s.ctrlEnable := by simpa using he
  split at hbit
  · split at hbit <;> exact absurd hbit OnLine.noConfusion
  rename_i hb
  split at hbit
  · rename_i hs
    split at hbit
    · exact absurd hbit OnLine.noConfusion
    · rename_i hl
      exact posedge_bits_shift hs hl
  · rename_i hs
    split at hbit
    · exact absurd hbit OnLine.noConfusion
    · exact absurd hbit OnLine.noConfusion
    · exact posedge_bits_hold he' hb (h rfl) hs
    · exact absurd hbit OnLine.noConfusion
    · exact absurd hbit OnLine.noConfusion

theorem carries_next {o : OnLine} (h : Carries s o) : Carries (posedge s i) (o.next s) := by
  refine ⟨endsInStop_posedge h.stops, ?_, ?_, ?_, ?_⟩
  · rw [posedge_line]
    unfold OnLine.next
    intro hlow
    by_cases he : s.ctrlEnable
    · rw [if_pos he] at hlow
      rw [if_neg (by simp [he])]
      by_cases hb : s.lin.breakActive
      · rw [if_pos hb] at hlow
        rw [if_pos hb, if_neg (by simp [hlow])]
        exact Or.inr rfl
      · rw [if_neg hb] at hlow
        rw [if_neg hb]
        by_cases hs : s.shiftsBit
        · rw [if_pos hs] at hlow
          have hl : ¬ s.shiftsLast := by
            intro hl
            simp only [shiftsLast, Bool.and_eq_true, beq_iff_eq] at hl
            have hstop := (h.stops (by rw [hl.2]; decide)).2
            rw [hl.2] at hstop
            exact absurd (hstop.symm.trans hlow) (by decide)
          rw [if_pos hs, if_neg hl]
          exact Or.inl rfl
        · rw [if_neg hs] at hlow
          rw [if_neg hs]
          cases h.high hlow with
          | inl hbit =>
            rw [hbit]
            exact Or.inl rfl
          | inr hbrk => exact absurd (h.breaks hbrk) hb
    · rw [if_neg he] at hlow
      exact absurd hlow (by decide)
  · intro hbrk
    exact posedge_breakActive (OnLine.drivesBreak_of_next hbrk)
  · exact OnLine.counts_next h.counts
  · intro hbrk
    exact posedge_bits_break (OnLine.drivesBreak_of_next hbrk)

-- Without a frame or a break the line is high.
theorem Carries.line_idle {o : OnLine} (h : Carries s o) (h0 : s.tx.bitsRemaining = 0#5)
    (hb : s.lin.breakActive = false) : s.tx.line = true := by
  rw [← Bool.not_eq_false]
  intro hlow
  rcases h.high hlow with hbit | hbrk
  · exact h.counts hbit h0
  · exact Bool.false_ne_true (hb.symm.trans (h.breaks hbrk))

/-! ## Runs -/

theorem carries_run (u : Nat) :
    Carries (after txMem rxMem inp u) (onLine txMem rxMem inp u) := by
  induction u with
  | zero =>
    refine ⟨?_, ?_, ?_, ?_, ?_⟩
    · intro h0
      exact absurd rfl h0
    · intro hlow
      exact absurd (show true = false from hlow) (by decide)
    · exact OnLine.noConfusion
    · exact OnLine.noConfusion
    · exact OnLine.noConfusion
  | succ u ih => exact carries_next ih

-- The pin is low only during a frame, before its last stop bit, or a break.
theorem line_high (hb : onLine txMem rxMem inp u ≠ .bit) (hk : onLine txMem rxMem inp u ≠ .brk) :
    (after txMem rxMem inp u).tx.line = true := by
  cases hlow : (after txMem rxMem inp u).tx.line with
  | true => rfl
  | false =>
    cases (carries_run u).high hlow with
    | inl h => exact absurd h hb
    | inr h => exact absurd h hk

theorem onLine_shiftsLast (hl : (after txMem rxMem inp u).shiftsLast) :
    onLine txMem rxMem inp (u + 1) = .lastBit (after txMem rxMem inp u).baudDiv.toNat := by
  show (onLine txMem rxMem inp u).next (after txMem rxMem inp u) = _
  have hl' := hl
  simp only [shiftsLast, Bool.and_eq_true, shiftsBit, Bool.not_eq_true'] at hl'
  have hs : (after txMem rxMem inp u).shiftsBit := (Bool.and_eq_true _ _ |>.mp hl).1
  unfold OnLine.next
  rw [hl'.1.1.1.1, hl'.1.1.1.2, if_neg (by simp), if_neg (by simp), if_pos hs, if_pos hl]

theorem onLine_drivesBreak (hb : (after txMem rxMem inp u).drivesBreak) :
    onLine txMem rxMem inp (u + 1) ≠ .idle := by
  show (onLine txMem rxMem inp u).next (after txMem rxMem inp u) ≠ .idle
  simp only [drivesBreak, Bool.and_eq_true, Bool.not_eq_true'] at hb
  unfold OnLine.next
  rw [hb.1.1, hb.1.2, hb.2, if_neg (by simp), if_pos rfl, if_neg (by simp)]
  exact OnLine.noConfusion

theorem behind_succ (hk : KeepsBusy txMem rxMem inp u)
    (hb : Behind (after txMem rxMem inp u) (onLine txMem rxMem inp u)) :
    Behind (after txMem rxMem inp (u + 1)) (onLine txMem rxMem inp (u + 1)) := by
  have hlast := hk.last
  have hbrk := hk.brk
  have hwrap := hk.noWrap
  show Behind _ ((onLine txMem rxMem inp u).next (after txMem rxMem inp u))
  have hline : onLine txMem rxMem inp (u + 1) =
    (onLine txMem rxMem inp u).next (after txMem rxMem inp u) := rfl
  rw [hline] at hwrap
  have hedge : after txMem rxMem inp (u + 1) = posedge (after txMem rxMem inp u) (inp u) := rfl
  rw [hedge] at hlast hbrk hwrap ⊢
  generalize after txMem rxMem inp u = s at *
  generalize onLine txMem rxMem inp u = o at *
  unfold OnLine.next at hwrap ⊢
  by_cases he : s.ctrlEnable
  · rw [if_neg (by simp [he])] at hwrap ⊢
    by_cases hact : s.lin.breakActive
    · rw [if_pos hact] at ⊢
      by_cases hends : s.breakEnds
      · rw [if_pos hends]
        trivial
      · rw [if_neg hends]
        exact hbrk (by simp [drivesBreak, he, hact, hends])
    · rw [if_neg hact] at hwrap ⊢
      by_cases hshift : s.shiftsBit
      · rw [if_pos hshift]
        by_cases hl : s.shiftsLast
        · rw [if_pos hl]
          exact Or.inr (hlast hl)
        · rw [if_neg hl]
          exact posedge_bits_shift hshift hl
      · rw [if_neg hshift] at hwrap ⊢
        cases o with
        | idle => trivial
        | bit => exact posedge_bits_hold he hact hb hshift
        | brk => trivial
        | lastBit left =>
          cases left with
          | zero => trivial
          | succ left =>
            by_cases h0 : s.tx.bitsRemaining = 0#5
            · have hne : ¬ s.txFifo.empty := hb.resolve_left (fun hn ↦ hn h0)
              by_cases ht : s.takesTxByte
              · exact Or.inl (posedge_bits_load he hact h0 ht)
              · by_cases h0' : (posedge s (inp u)).tx.bitsRemaining = 0#5
                · exact Or.inr (posedge_txFifo_empty hne ht (hwrap left rfl h0'))
                · exact Or.inl h0'
            · exact Or.inl (posedge_bits_hold he hact h0 hshift)
  · rw [if_pos (by simp [he])]
    trivial

-- With the driver enabled there is a bit to come or a byte in the FIFO.
theorem deAsserted_of_behind (ha : s.rs485Ctrl.getLsbD 0) {o : OnLine} (hb : Behind s o)
    (ho : o ≠ .idle) : s.deAsserted = true := by
  rw [deAsserted_eq ha, Bool.or_eq_true, bne_iff_ne, Bool.not_eq_true', ← Bool.not_eq_true]
  cases o with
  | idle => exact absurd rfl ho
  | bit => exact Or.inl hb
  | lastBit left => exact hb
  | brk => exact Or.inr hb

theorem keepsBusy_of_driven (ha : (after txMem rxMem inp (u + 1)).rs485Ctrl.getLsbD 0)
    (hd : onLine txMem rxMem inp (u + 1) ≠ .idle →
      (after txMem rxMem inp (u + 1)).deAsserted ∧ ¬ (after txMem rxMem inp (u + 1)).reAsserted) :
    KeepsBusy txMem rxMem inp u := by
  have hfifo (hline : onLine txMem rxMem inp (u + 1) ≠ .idle)
      (h0 : (after txMem rxMem inp (u + 1)).tx.bitsRemaining = 0#5) :
      ¬ (after txMem rxMem inp (u + 1)).txFifo.empty := by
    have hde := (hd hline).1
    rw [deAsserted_eq ha, h0] at hde
    simpa using hde
  constructor
  · intro hl
    exact hfifo (by rw [onLine_shiftsLast hl]; exact OnLine.noConfusion) (posedge_bits_last hl)
  · intro hb
    exact hfifo (onLine_drivesBreak hb) (posedge_bits_break hb)
  · intro left hline h0 hw
    refine hfifo ?_ h0 (txWraps_empty hw)
    rw [hline]
    exact OnLine.noConfusion

theorem behind_of_drives (ha : (after txMem rxMem inp u).rs485Ctrl.getLsbD 0)
    (hd : Drives txMem rxMem inp u) :
    Behind (after txMem rxMem inp u) (onLine txMem rxMem inp u) := by
  have hc : Carries (after txMem rxMem inp u) (onLine txMem rxMem inp u) := carries_run u
  have hde := hd.covers
  rw [deAsserted_eq ha, Bool.or_eq_true, bne_iff_ne, Bool.not_eq_true', ← Bool.not_eq_true] at hde
  cases ho : onLine txMem rxMem inp u with
  | idle => trivial
  | bit => exact hc.counts ho
  | lastBit left => exact (hde (by rw [ho]; exact OnLine.noConfusion)).1
  | brk =>
    have hor := (hde (by rw [ho]; exact OnLine.noConfusion)).1
    exact hor.resolve_left (fun hn ↦ hn (hc.skips ho))

/-- As long as automatic direction control is on, the driver is enabled for all that is on the line
exactly if every last stop bit and every break has another byte behind it. -/
theorem drives_iff (txMem rxMem : BitVec 3 → Byte) (inp : Nat → Inputs) (t₀ t : Nat) (ht : t₀ ≤ t)
    (hauto : ∀ u, t₀ ≤ u → u ≤ t → (after txMem rxMem inp u).rs485Ctrl.getLsbD 0) :
    (∀ u, t₀ ≤ u → u ≤ t → Drives txMem rxMem inp u) ↔
      Behind (after txMem rxMem inp t₀) (onLine txMem rxMem inp t₀) ∧
        ∀ u, t₀ ≤ u → u < t → KeepsBusy txMem rxMem inp u := by
  constructor
  · intro hd
    refine ⟨behind_of_drives (hauto t₀ (by omega) ht) (hd t₀ (by omega) ht), ?_⟩
    intro u hu hlt
    exact keepsBusy_of_driven (hauto (u + 1) (by omega) hlt) (hd (u + 1) (by omega) hlt).covers
  · intro hk u hu hle
    have hbehind : Behind (after txMem rxMem inp u) (onLine txMem rxMem inp u) := by
      induction u, hu using Nat.le_induction with
      | base => exact hk.1
      | succ u hu ih => exact behind_succ (hk.2 u hu (by omega)) (ih (by omega))
    constructor
    · intro hline
      have hde := deAsserted_of_behind (hauto u hu hle) hbehind hline
      rw [reAsserted_eq (hauto u hu hle), hde]
      exact ⟨rfl, Bool.false_ne_true⟩
    · intro hboth
      rw [reAsserted_eq (hauto u hu hle)] at hboth
      simp [hboth.1] at hboth

/-- RS-485 mode with BAUD = 0, and DATA writes in the cycles 3 to `k`. -/
def dataWrites (k t : Nat) : Inputs where
  bus :=
    if t = 0 then ⟨true, false, 0x3, 0⟩
    else if t = 1 then ⟨true, false, 0x2, 1⟩
    else if t = 2 then ⟨true, false, 0x6, 1⟩
    else if t ≤ k then ⟨true, false, 0x0, 0x55⟩
    else ⟨false, false, 0, 0⟩
  rx := true

/-- With a second byte queued the driver stays on to the last stop bit of the first. -/
theorem dataWrites_drives : onLine (fun _ ↦ 0) (fun _ ↦ 0) (dataWrites 4) 15 = .lastBit 0 ∧
    Drives (fun _ ↦ 0) (fun _ ↦ 0) (dataWrites 4) 15 := by
  have hauto : ∀ u < 21, 3 ≤ u →
      (after (fun _ ↦ 0) (fun _ ↦ 0) (dataWrites 4) u).rs485Ctrl.getLsbD 0 := by decide +kernel
  have hlast : ∀ u < 20, (after (fun _ ↦ 0) (fun _ ↦ 0) (dataWrites 4) u).shiftsLast →
      ¬ (after (fun _ ↦ 0) (fun _ ↦ 0) (dataWrites 4) (u + 1)).txFifo.empty := by decide +kernel
  have hbrk : ∀ u < 20, ¬ (after (fun _ ↦ 0) (fun _ ↦ 0) (dataWrites 4) u).drivesBreak := by
    decide +kernel
  have hcount : ∀ u < 20, (after (fun _ ↦ 0) (fun _ ↦ 0) (dataWrites 4) u).txFifo.count ≠ 15 := by
    decide +kernel
  have hidle : onLine (fun _ ↦ 0) (fun _ ↦ 0) (dataWrites 4) 3 = .idle := by decide +kernel
  refine ⟨by decide +kernel, (drives_iff _ _ _ 3 20 (by decide)
    (fun u h1 h2 ↦ hauto u (by omega) h1)).mpr ⟨?_, ?_⟩ 15 (by decide) (by decide)⟩
  · rw [hidle]
    trivial
  · intro u _ hlt
    exact ⟨hlast u hlt, fun hb ↦ absurd hb (hbrk u hlt), fun _ _ _ hw ↦ hcount u hlt hw.1⟩

/-- With one byte only, the driver is off while the last stop bit is on the line. -/
theorem dataWrites_lastStop : (after (fun _ ↦ 0) (fun _ ↦ 0) (dataWrites 3) 15).rs485Ctrl = 1 ∧
    onLine (fun _ ↦ 0) (fun _ ↦ 0) (dataWrites 3) 15 = .lastBit 0 ∧
    (after (fun _ ↦ 0) (fun _ ↦ 0) (dataWrites 3) 15).rs485De = false ∧
    (after (fun _ ↦ 0) (fun _ ↦ 0) (dataWrites 3) 15).rs485Re = true ∧
    ¬ Drives (fun _ ↦ 0) (fun _ ↦ 0) (dataWrites 3) 15 := by
  have hline : onLine (fun _ ↦ 0) (fun _ ↦ 0) (dataWrites 3) 15 = .lastBit 0 := by decide +kernel
  refine ⟨by decide +kernel, hline, by decide +kernel, by decide +kernel, ?_⟩
  intro hd
  have hde := (hd.covers (by rw [hline]; exact OnLine.noConfusion)).1
  exact absurd hde (by decide +kernel)

end Uart

end QarCore
