import QarCore.Clocked.Run
import QarCore.Periph.Fifos

/-!
# The shift registers of the SPI master

One byte on the wire.  With CPHA = 1 the first edge of a byte samples, with CPHA = 0 it shifts, before
anything has been sampled: then the samples see the byte moved on by one bit.
-/

namespace QarCore

namespace Spi

variable {s : Spi} {i : Inputs} {m k : Nat}

/-! ## Shifts of a byte -/

theorem concat_extract_low (x : Byte) (b : Bool) (j : Nat) (hj : j < 8) :
    (x.extractLsb' 0 7 ++ BitVec.ofBool b : Byte).getLsbD j = if j = 0 then b else x.getLsbD (j - 1) := by
  rw [BitVec.getLsbD_append]
  by_cases h0 : j = 0
  · subst h0
    cases b <;> rfl
  · rw [if_neg (by omega), if_neg h0, BitVec.getLsbD_extractLsb']
    simp only [show j - 1 < 7 by omega, decide_true, Bool.true_and, Nat.zero_add]

theorem concat_extract_high (x : Byte) (b : Bool) (j : Nat) (hj : j < 8) :
    (BitVec.ofBool b ++ x.extractLsb' 1 7 : Byte).getLsbD j = if j = 7 then b else x.getLsbD (j + 1) := by
  rw [BitVec.getLsbD_append]
  by_cases h7 : j = 7
  · subst h7
    cases b <;> rfl
  · rw [if_pos (by omega), if_neg h7, BitVec.getLsbD_extractLsb']
    simp only [show j < 7 by omega, decide_true, Bool.true_and, Nat.add_comm 1 j]

theorem shift_out_msb (x : Byte) (m : Nat) :
    ((x <<< m).extractLsb' 0 7 ++ 0#1 : Byte) = x <<< (m + 1) := by
  apply BitVec.eq_of_getLsbD_eq
  intro j hj
  rw [show (0#1 : BitVec 1) = BitVec.ofBool false from rfl, concat_extract_low _ _ _ hj]
  simp only [BitVec.getLsbD_shiftLeft]
  by_cases h0 : j = 0
  · simp [h0]
  · rw [if_neg h0]
    by_cases hm : j < m + 1
    · simp [hm, show j - 1 < m by omega]
    · simp [hm, show ¬ j - 1 < m by omega, hj, show j - 1 < 8 by omega,
        show j - 1 - m = j - (m + 1) by omega, -BitVec.getLsbD_eq_getElem]

theorem shift_out_lsb (x : Byte) (m : Nat) :
    (0#1 ++ (x >>> m).extractLsb' 1 7 : Byte) = x >>> (m + 1) := by
  apply BitVec.eq_of_getLsbD_eq
  intro j hj
  rw [show (0#1 : BitVec 1) = BitVec.ofBool false from rfl, concat_extract_high _ _ _ hj]
  simp only [BitVec.getLsbD_ushiftRight]
  by_cases h7 : j = 7
  · rw [if_pos h7, BitVec.getLsbD_of_ge _ _ (by omega)]
  · rw [if_neg h7, show m + (j + 1) = m + 1 + j by omega]

-- A byte enters from the right, its highest bit first.
theorem shift_in_msb (c : Byte) (hk : k ≤ 7) :
    ((c >>> (8 - k)).extractLsb' 0 7 ++ BitVec.ofBool (c.getLsbD (7 - k)) : Byte) =
      c >>> (8 - (k + 1)) := by
  apply BitVec.eq_of_getLsbD_eq
  intro j hj
  rw [concat_extract_low _ _ _ hj]
  simp only [BitVec.getLsbD_ushiftRight]
  by_cases h0 : j = 0
  · rw [if_pos h0, h0]
    congr 1
    omega
  · rw [if_neg h0]
    congr 1
    omega

-- A byte enters from the left, its lowest bit first.
theorem shift_in_lsb (c : Byte) (hk : k ≤ 7) :
    (BitVec.ofBool (c.getLsbD k) ++ (c <<< (8 - k)).extractLsb' 1 7 : Byte) = c <<< (8 - (k + 1)) := by
  apply BitVec.eq_of_getLsbD_eq
  intro j hj
  rw [concat_extract_high _ _ _ hj]
  simp only [BitVec.getLsbD_shiftLeft, hj, decide_true, Bool.true_and]
  by_cases h7 : j = 7
  · rw [if_pos h7, h7]
    simp only [show ¬ 7 < 8 - (k + 1) by omega, decide_false, Bool.not_false, Bool.true_and]
    congr 1
    omega
  · rw [if_neg h7]
    simp only [show j + 1 < 8 by omega, decide_true, Bool.true_and]
    by_cases hm : j < 8 - (k + 1)
    · simp only [hm, show j + 1 < 8 - k by omega, decide_true, Bool.not_true, Bool.false_and]
    · simp only [hm, show ¬ j + 1 < 8 - k by omega, decide_false, Bool.not_false, Bool.true_and]
      congr 1
      omega

/-! ## One edge of the shifter -/

/-- The registers of the byte in transfer. -/
structure Shifter where
  busy : Bool
  txShift : Byte
  activeTxByte : Byte
  rxShift : Byte
  bitIndex : BitVec 3
  divCounter : BitVec 16
  sckPhase : Bool

def shifter (s : Spi) : Shifter :=
  ⟨s.busy, s.txShift, s.activeTxByte, s.rxShift, s.bitIndex, s.divCounter, s.sckPhase⟩

/-- The divider lets an edge of SCK through. -/
def sckEdge (s : Spi) : Bool := s.busy && s.divCounter ≥ s.effectiveDiv

def sampleEdge (s : Spi) : Bool := s.sckEdge && xor s.sckPhase s.ctrlCpha

def shiftEdge (s : Spi) : Bool := s.sckEdge && !(xor s.sckPhase s.ctrlCpha)

/-- What a clock edge does to the byte in transfer. -/
def nextShifter (s : Spi) (miso : Bool) : Shifter :=
  if s.takesTxByte then ⟨true, s.txFifo.front, s.txFifo.front, 0, 7, 0, false⟩
  else if !s.busy then { s.shifter with divCounter := 0, sckPhase := false }
  else if s.samplesLastBit then
    { s.shifter with
      busy := false, divCounter := 0, sckPhase := !s.sckPhase, rxShift := s.rxShiftCombined miso }
  else if s.sampleEdge then
    { s.shifter with
      divCounter := 0, sckPhase := !s.sckPhase, rxShift := s.rxShiftCombined miso
      bitIndex := s.bitIndex - 1 }
  else if s.shiftEdge then
    { s.shifter with
      divCounter := 0, sckPhase := !s.sckPhase
      txShift := if s.ctrlLsb then 0#1 ++ s.txShift.extractLsb' 1 7
                 else s.txShift.extractLsb' 0 7 ++ 0#1 }
  else { s.shifter with divCounter := s.divCounter + 1 }

theorem busRead_shifter {n : Spi} {b : BusAccess 6} :
    (busRead s b (busWrite s b n)).shifter = n.shifter := by
  simp only [shifter, busRead, busWrite, writeData, writeIrqStatus, apply_ite Spi.busy,
    apply_ite Spi.txShift, apply_ite Spi.activeTxByte, apply_ite Spi.rxShift, apply_ite Spi.bitIndex,
    apply_ite Spi.divCounter, apply_ite Spi.sckPhase, ite_self]

theorem startTransfer_shifter {n : Spi} (h : n.shifter = s.shifter) :
    (startTransfer s n).shifter =
      if s.takesTxByte then
        { s.shifter with
          busy := true, txShift := s.txFifo.front, activeTxByte := s.txFifo.front, rxShift := 0
          bitIndex := 7, divCounter := 0, sckPhase := false }
      else s.shifter := by
  unfold startTransfer takesTxByte
  by_cases hg : !s.busy && s.ctrlEnable && !s.txFifo.empty
  · by_cases hc : s.csSelect.extractLsb' 0 4 = 0#4
    · simp only [hg, hc, bne_self_eq_false, Bool.and_false, Bool.false_eq_true, ↓reduceIte]
      exact h
    · simp only [hg, bne_iff_ne.mpr hc, if_neg hc, Bool.and_self, ↓reduceIte]
      rfl
  · simp only [hg, Bool.false_and, Bool.false_eq_true, ↓reduceIte]
    exact h

theorem shiftBits_shifter {n : Spi} (miso : Bool) : (shiftBits s miso n).shifter =
    if !s.busy then { n.shifter with divCounter := 0, sckPhase := false }
    else if s.samplesLastBit then
      { n.shifter with
        busy := false, divCounter := 0, sckPhase := !s.sckPhase, rxShift := s.rxShiftCombined miso }
    else if s.sampleEdge then
      { n.shifter with
        divCounter := 0, sckPhase := !s.sckPhase, rxShift := s.rxShiftCombined miso
        bitIndex := s.bitIndex - 1 }
    else if s.shiftEdge then
      { n.shifter with
        divCounter := 0, sckPhase := !s.sckPhase
        txShift := if s.ctrlLsb then 0#1 ++ s.txShift.extractLsb' 1 7
                   else s.txShift.extractLsb' 0 7 ++ 0#1 }
    else { n.shifter with divCounter := s.divCounter + 1 } := by
  unfold shiftBits samplesLastBit sampleEdge shiftEdge sckEdge
  by_cases hb : s.busy
  · by_cases hd : s.divCounter ≥ s.effectiveDiv
    · by_cases hx : xor s.sckPhase s.ctrlCpha
      · by_cases hi : s.bitIndex = 0#3
        · -- the last sample completes the byte
          simp only [hb, hd, hx, hi, finishByte, shifter, apply_ite Spi.busy, apply_ite Spi.txShift,
            apply_ite Spi.activeTxByte, apply_ite Spi.rxShift, apply_ite Spi.bitIndex,
            apply_ite Spi.divCounter, apply_ite Spi.sckPhase, ite_self, Bool.not_true, decide_true,
            Bool.and_self, beq_self_eq_true, Bool.false_eq_true, ↓reduceIte]
        · simp only [hb, hd, hx, hi, Bool.not_true, decide_true, Bool.and_self, Bool.true_and,
            beq_iff_eq, Bool.false_eq_true, ↓reduceIte]
          rfl
      · simp only [hb, hd, hx, Bool.not_true, Bool.not_false, decide_true, Bool.and_self, Bool.and_false,
          Bool.false_and, Bool.false_eq_true, ↓reduceIte]
        rfl
    · simp only [hb, hd, Bool.not_true, decide_false, Bool.and_false, Bool.false_and,
        Bool.false_eq_true, ↓reduceIte]
      rfl
  · simp only [hb, Bool.not_false, Bool.false_eq_true, ↓reduceIte]
    rfl

-- The shifter changes by the one event of the cycle.
theorem posedge_shifter : (posedge s i).shifter = s.nextShifter i.miso := by
  unfold posedge
  rw [shiftBits_shifter, startTransfer_shifter busRead_shifter, nextShifter]
  by_cases ht : s.takesTxByte
  · have hb : s.busy = false := by
      simp only [takesTxByte, Bool.and_eq_true, Bool.not_eq_true'] at ht
      exact ht.1.1.1
    simp only [ht, hb, Bool.not_false, ↓reduceIte]
  · simp only [ht, Bool.false_eq_true, ↓reduceIte]

/-! ## A byte on its own wire -/

/-- The byte the sample edges see on MOSI: without the first bit if the first edge shifts. -/
def wireByte (cpha lsb : Bool) (a : Byte) : Byte :=
  if cpha then a else if lsb then a >>> 1 else a <<< 1

/-- After `m` shifts and `k` samples of a byte. -/
structure Shifter.Transfers (x : Shifter) (cpha lsb : Bool) (m k : Nat) : Prop where
  index : x.bitIndex.toNat + k = 7
  /-- Shifts and samples alternate; CPHA decides which comes first. -/
  phase : m + (if x.sckPhase && cpha then 1 else 0) = k + (if x.sckPhase && !cpha then 1 else 0)
  tx : x.txShift = if lsb then x.activeTxByte >>> m else x.activeTxByte <<< m
  rx : x.rxShift = if lsb then wireByte cpha lsb x.activeTxByte <<< (8 - k)
    else wireByte cpha lsb x.activeTxByte >>> (8 - k)

variable {x : Shifter} {cpha lsb : Bool}

theorem transfers_start (a : Byte) :
    (Shifter.mk true a a 0 7 0 false).Transfers cpha lsb 0 0 := by
  refine ⟨rfl, by simp, by simp, ?_⟩
  have hout : wireByte cpha lsb a <<< 8 = 0 ∧ wireByte cpha lsb a >>> 8 = 0 := by
    generalize wireByte cpha lsb a = c
    exact ⟨BitVec.shiftLeft_eq_zero (Nat.le_refl _), BitVec.ushiftRight_eq_zero (Nat.le_refl _)⟩
  show 0#8 = if lsb then wireByte cpha lsb a <<< 8 else wireByte cpha lsb a >>> 8
  rw [hout.1, hout.2, ite_self]
  rfl

-- At a sample edge MOSI shows bit `k` of the wire byte, in the order of the bits.
theorem Shifter.Transfers.mosi (h : x.Transfers cpha lsb m k) (hs : xor x.sckPhase cpha) :
    (if lsb then x.txShift.getLsbD 0 else x.txShift.getLsbD 7) =
      if lsb then (wireByte cpha lsb x.activeTxByte).getLsbD k
      else (wireByte cpha lsb x.activeTxByte).getLsbD (7 - k) := by
  have hindex := h.index
  have hphase := h.phase
  rw [h.tx]
  unfold wireByte
  cases hc : cpha with
  | true =>
    have hp : x.sckPhase = false := by simpa [hc] using hs
    have hm : m = k := by simpa [hp] using hphase
    subst hm
    cases lsb with
    | true => simp [-BitVec.getLsbD_eq_getElem]
    | false => simp [show m ≤ 7 by omega, -BitVec.getLsbD_eq_getElem]
  | false =>
    have hp : x.sckPhase = true := by simpa [hc] using hs
    have hm : m = k + 1 := by simpa [hp, hc] using hphase
    subst hm
    cases lsb with
    | true => simp [Nat.add_comm, -BitVec.getLsbD_eq_getElem]
    | false =>
      simp only [Bool.false_eq_true, ↓reduceIte, BitVec.getLsbD_shiftLeft]
      by_cases h7 : k = 7
      · simp [h7]
      · simp [show ¬ 7 < k + 1 by omega, show ¬ 7 - k < 1 by omega, show 7 - k < 8 by omega,
          show 7 - (k + 1) = 7 - k - 1 by omega, -BitVec.getLsbD_eq_getElem]

-- One sample moves the received bits on.
theorem Shifter.Transfers.combined (h : x.Transfers cpha lsb m k) (hs : xor x.sckPhase cpha) :
    (if lsb then
        BitVec.ofBool (if lsb then x.txShift.getLsbD 0 else x.txShift.getLsbD 7) ++
          x.rxShift.extractLsb' 1 7
      else x.rxShift.extractLsb' 0 7 ++
        BitVec.ofBool (if lsb then x.txShift.getLsbD 0 else x.txShift.getLsbD 7) : Byte) =
      if lsb then wireByte cpha lsb x.activeTxByte <<< (8 - (k + 1))
      else wireByte cpha lsb x.activeTxByte >>> (8 - (k + 1)) := by
  have hk : k ≤ 7 := by
    have := h.index
    omega
  rw [h.mosi hs, h.rx]
  cases lsb with
  | true => exact shift_in_lsb _ hk
  | false => exact shift_in_msb _ hk

-- A sample edge that is not the last: one bit more has been received.
theorem Shifter.Transfers.sampled (h : x.Transfers cpha lsb m k) (hs : xor x.sckPhase cpha)
    (hne : x.bitIndex ≠ 0#3) (r : Byte)
    (hr : r = if lsb then wireByte cpha lsb x.activeTxByte <<< (8 - (k + 1))
      else wireByte cpha lsb x.activeTxByte >>> (8 - (k + 1))) (busy : Bool) (div : BitVec 16) :
    (Shifter.mk busy x.txShift x.activeTxByte r (x.bitIndex - 1) div (!x.sckPhase)).Transfers
      cpha lsb m (k + 1) := by
  have hindex := h.index
  have hphase := h.phase
  refine ⟨?_, ?_, h.tx, hr⟩
  · have hpos : x.bitIndex.toNat ≠ 0 := fun h0 ↦ hne (BitVec.eq_of_toNat_eq h0)
    have hone : 1#3 ≤ x.bitIndex := by
      rw [BitVec.le_def]
      show 1 ≤ _
      omega
    show (x.bitIndex - 1#3).toNat + (k + 1) = 7
    rw [BitVec.toNat_sub_of_le hone, show (1#3).toNat = 1 from rfl]
    omega
  · show m + (if !x.sckPhase && cpha then 1 else 0) = k + 1 + if !x.sckPhase && !cpha then 1 else 0
    cases hp : x.sckPhase <;> cases hc : cpha <;> simp [hp, hc] at hs hphase ⊢ <;> omega

-- A shift edge: the next bit is on MOSI.
theorem Shifter.Transfers.shifted (h : x.Transfers cpha lsb m k) (hs : xor x.sckPhase cpha = false)
    (busy : Bool) (div : BitVec 16) :
    (Shifter.mk busy
      (if lsb then 0#1 ++ x.txShift.extractLsb' 1 7 else x.txShift.extractLsb' 0 7 ++ 0#1)
      x.activeTxByte x.rxShift x.bitIndex div (!x.sckPhase)).Transfers cpha lsb (m + 1) k := by
  have hphase := h.phase
  refine ⟨h.index, ?_, ?_, h.rx⟩
  · show m + 1 + (if !x.sckPhase && cpha then 1 else 0) = k + if !x.sckPhase && !cpha then 1 else 0
    cases hp : x.sckPhase <;> cases hc : cpha <;> simp [hp, hc] at hs hphase ⊢ <;> omega
  · show (if lsb then _ else _ : Byte) = if lsb then _ else _
    rw [h.tx]
    cases lsb with
    | true => exact shift_out_lsb _ m
    | false => exact shift_out_msb _ m

/-- The byte in transfer after `m` shifts and `k` samples, in the mode CTRL selects. -/
def Sends (s : Spi) (m k : Nat) : Prop := s.shifter.Transfers s.ctrlCpha s.ctrlLsb m k

theorem rxShiftCombined_eq (h : s.Sends m k) (hb : s.busy) (hl : s.ctrlLoopback = false)
    (hs : xor s.sckPhase s.ctrlCpha) : s.rxShiftCombined s.spiMosi =
      if s.ctrlLsb then wireByte s.ctrlCpha s.ctrlLsb s.activeTxByte <<< (8 - (k + 1))
      else wireByte s.ctrlCpha s.ctrlLsb s.activeTxByte >>> (8 - (k + 1)) := by
  have hbit : s.sampleBitComb s.spiMosi =
      if s.ctrlLsb then s.txShift.getLsbD 0 else s.txShift.getLsbD 7 := by
    rw [sampleBitComb, hl, if_neg (by decide), spiMosi, if_pos hb]
  have hstep := Shifter.Transfers.combined (x := s.shifter) h hs
  rw [rxShiftCombined, hbit]
  exact hstep

-- The last sample leaves the wire byte.
theorem receivedByte_eq (h : s.Sends m k) (hl : s.ctrlLoopback = false) (hlast : s.samplesLastBit) :
    s.receivedByte s.spiMosi = wireByte s.ctrlCpha s.ctrlLsb s.activeTxByte := by
  simp only [samplesLastBit, Bool.and_eq_true, beq_iff_eq] at hlast
  obtain ⟨⟨⟨hb, -⟩, hx⟩, hi⟩ := hlast
  have hk : k = 7 := by
    have hindex := h.index
    rw [show s.shifter.bitIndex = 0#3 from hi] at hindex
    simpa using hindex
  unfold receivedByte
  rw [hl, if_neg (by decide), rxShiftCombined_eq h hb hl hx, hk]
  split
  · exact BitVec.shiftLeft_zero _
  · exact BitVec.ushiftRight_zero _

-- A sampling edge that does not complete the byte has bits to come.
theorem bitIndex_ne_zero (hs : s.sampleEdge) (hlast : s.samplesLastBit = false) : s.bitIndex ≠ 0#3 := by
  rintro hzero
  simp only [sampleEdge, sckEdge, Bool.and_eq_true, decide_eq_true_eq] at hs
  simp [samplesLastBit, hs, hzero] at hlast

-- An edge that does not complete the byte keeps it in transfer.
theorem Sends.next (h : s.Sends m k) (hb : s.busy) (hl : s.ctrlLoopback = false)
    (hlast : s.samplesLastBit = false) :
    ∃ m', (s.nextShifter s.spiMosi).Transfers s.ctrlCpha s.ctrlLsb m'
      (k + if s.sampleEdge then 1 else 0) := by
  have htake : s.takesTxByte = false := by simp [takesTxByte, hb]
  unfold nextShifter
  rw [htake, hb, hlast]
  simp only [Bool.false_eq_true, Bool.not_true, ↓reduceIte]
  by_cases hsample : s.sampleEdge
  · have hedge := hsample
    simp only [sampleEdge, sckEdge, Bool.and_eq_true, decide_eq_true_eq] at hedge
    rw [if_pos hsample, if_pos hsample]
    exact ⟨m, Shifter.Transfers.sampled h hedge.2 (bitIndex_ne_zero hsample hlast) _
      (rxShiftCombined_eq h hb hl hedge.2) _ _⟩
  · rw [if_neg hsample, if_neg hsample]
    by_cases hshift : s.shiftEdge
    · rw [if_pos hshift]
      simp only [shiftEdge, Bool.and_eq_true, Bool.not_eq_true'] at hshift
      exact ⟨m + 1, Shifter.Transfers.shifted h hshift.2 _ _⟩
    · rw [if_neg hshift]
      exact ⟨m, h.index, h.phase, h.tx, h.rx⟩

end Spi

end QarCore
