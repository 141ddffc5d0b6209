import QarCore.Periph.SpiLink

/-!
# SPI loopback

The SPI master from reset with MISO wired to MOSI and the internal loopback off.  With CPHA = 1 the bytes
that arrive are the bytes that were sent.  With CPHA = 0 every byte arrives moved by one bit, so that only
zero bytes arrive as they were sent.
-/

namespace QarCore

open Clocked (FifoRun Ring trace)

namespace Spi

variable {s : Spi} {i : Inputs}

/-! ## Progress of a transfer -/

/-- The edges of SCK until the last sample of the byte. -/
def edgesLeft (s : Spi) : Nat :=
  2 * s.bitIndex.toNat + if xor s.sckPhase s.ctrlCpha then 1 else 2

/-- The cycles a byte may still take, whatever the divider is. -/
def rank (s : Spi) : Nat :=
  if s.busy then s.edgesLeft * 2 ^ 16 + (2 ^ 16 - s.divCounter.toNat) else 17 * 2 ^ 16 + 1

theorem rank_of_takes (h : s.takesTxByte) : rank (posedge s i) < rank s := by
  have hb : s.busy = false := by
    simp only [takesTxByte, Bool.and_eq_true, Bool.not_eq_true'] at h
    exact h.1.1.1
  have hnext : (posedge s i).shifter = ⟨true, s.txFifo.front, s.txFifo.front, 0, 7, 0, false⟩ := by
    rw [posedge_shifter, nextShifter, if_pos h]
  have hbusy : (posedge s i).busy = true := congrArg Shifter.busy hnext
  have hindex : (posedge s i).bitIndex = 7 := congrArg Shifter.bitIndex hnext
  have hdiv : (posedge s i).divCounter = 0 := congrArg Shifter.divCounter hnext
  rw [rank, rank, hbusy, hb, edgesLeft, hindex, hdiv]
  show (2 * 7 + _) * 2 ^ 16 + (2 ^ 16 - 0) < 17 * 2 ^ 16 + 1
  split <;> omega

section

variable (hb : s.busy) (hlast : s.samplesLastBit = false) (hcpha : (posedge s i).ctrlCpha = s.ctrlCpha)

include hb hlast

theorem posedge_shifter_busy : (posedge s i).shifter =
    if s.sampleEdge then
      { s.shifter with
        divCounter := 0, sckPhase := !s.sckPhase, rxShift := s.rxShiftCombined i.miso
        bitIndex := s.bitIndex - 1 }
    else if s.shiftEdge then
      { s.shifter with
        divCounter := 0, sckPhase := !s.sckPhase
        txShift := if s.ctrlLsb then 0#1 ++ s.txShift.extractLsb' 1 7
                   else s.txShift.extractLsb' 0 7 ++ 0#1 }
    else { s.shifter with divCounter := s.divCounter + 1 } := by
  have htake : s.takesTxByte = false := by simp [takesTxByte, hb]
  rw [posedge_shifter, nextShifter, htake, hlast, hb]
  rfl

include hcpha

theorem rank_of_sample (hsample : s.sampleEdge) : rank (posedge s i) < rank s := by
  have hnext := posedge_shifter_busy (i := i) hb hlast
  rw [if_pos hsample] at hnext
  have hpos : s.bitIndex.toNat ≠ 0 := fun h0 ↦
    bitIndex_ne_zero hsample hlast (BitVec.eq_of_toNat_eq h0)
  have hone : 1#3 ≤ s.bitIndex := by
    rw [BitVec.le_def]
    show 1 ≤ _
    omega
  have hd := s.divCounter.isLt
  have hbusy : (posedge s i).busy = true := (congrArg Shifter.busy hnext).trans hb
  have hindex : (posedge s i).bitIndex = s.bitIndex - 1#3 := congrArg Shifter.bitIndex hnext
  have hphase : (posedge s i).sckPhase = !s.sckPhase := congrArg Shifter.sckPhase hnext
  have hdiv : (posedge s i).divCounter = 0 := congrArg Shifter.divCounter hnext
  simp only [sampleEdge, Bool.and_eq_true] at hsample
  rw [rank, rank, hbusy, hb, edgesLeft, edgesLeft, hindex, hphase, hdiv, hcpha,
    BitVec.toNat_sub_of_le hone, show (1#3).toNat = 1 from rfl, if_pos rfl, if_pos rfl,
    if_pos hsample.2]
  show (2 * _ + _) * 2 ^ 16 + (2 ^ 16 - 0) < _
  split <;> omega

theorem rank_of_shift (hsample : ¬ s.sampleEdge) (hshift : s.shiftEdge) :
    rank (posedge s i) < rank s := by
  have hnext := posedge_shifter_busy (i := i) hb hlast
  rw [if_neg hsample, if_pos hshift] at hnext
  simp only [shiftEdge, Bool.and_eq_true, Bool.not_eq_true'] at hshift
  have hd := s.divCounter.isLt
  have hbusy : (posedge s i).busy = true := (congrArg Shifter.busy hnext).trans hb
  have hindex : (posedge s i).bitIndex = s.bitIndex := congrArg Shifter.bitIndex hnext
  have hphase : (posedge s i).sckPhase = !s.sckPhase := congrArg Shifter.sckPhase hnext
  have hdiv : (posedge s i).divCounter = 0 := congrArg Shifter.divCounter hnext
  have hflip : xor (!s.sckPhase) s.ctrlCpha = true := by
    have := hshift.2
    cases hp : s.sckPhase <;> cases hc : s.ctrlCpha <;> simp [hp, hc] at this ⊢
  rw [rank, rank, hbusy, hb, edgesLeft, edgesLeft, hindex, hphase, hdiv, hcpha, hflip, hshift.2,
    if_pos rfl, if_pos rfl, if_pos rfl, if_neg (by decide)]
  show (2 * _ + 1) * 2 ^ 16 + (2 ^ 16 - 0) < _
  omega

theorem rank_of_wait (hsample : ¬ s.sampleEdge) (hshift : ¬ s.shiftEdge) :
    rank (posedge s i) < rank s := by
  have hnext := posedge_shifter_busy (i := i) hb hlast
  rw [if_neg hsample, if_neg hshift] at hnext
  -- the divider has not run out, and counts without wrapping
  have hwait : ¬ s.divCounter ≥ s.effectiveDiv := by
    intro hge
    cases hx : xor s.sckPhase s.ctrlCpha with
    | true => exact hsample (by simp [sampleEdge, sckEdge, hb, hge, hx])
    | false => exact hshift (by simp [shiftEdge, sckEdge, hb, hge, hx])
  have hlt : s.divCounter.toNat < s.effectiveDiv.toNat := by
    rw [ge_iff_le, BitVec.le_def] at hwait
    omega
  have hbusy : (posedge s i).busy = true := (congrArg Shifter.busy hnext).trans hb
  have hindex : (posedge s i).bitIndex = s.bitIndex := congrArg Shifter.bitIndex hnext
  have hphase : (posedge s i).sckPhase = s.sckPhase := congrArg Shifter.sckPhase hnext
  have hdiv : (posedge s i).divCounter = s.divCounter + 1#16 := congrArg Shifter.divCounter hnext
  have hinc : (s.divCounter + 1#16).toNat = s.divCounter.toNat + 1 := by
    have := s.effectiveDiv.isLt
    rw [BitVec.toNat_add, show (1#16).toNat = 1 from rfl, Nat.mod_eq_of_lt (by omega)]
  rw [rank, rank, hbusy, hb, edgesLeft, edgesLeft, hindex, hphase, hdiv, hcpha, hinc, if_pos rfl,
    if_pos rfl]
  omega

-- While the mode stays, every edge that does not complete the byte brings its end closer.
theorem rank_of_busy : rank (posedge s i) < rank s := by
  by_cases hsample : s.sampleEdge
  · exact rank_of_sample hb hlast hcpha hsample
  · by_cases hshift : s.shiftEdge
    · exact rank_of_shift hb hlast hcpha hsample hshift
    · exact rank_of_wait hb hlast hcpha hsample hshift

end

/-! ## The run -/

section Run

variable (txMem rxMem : BitVec 2 → Byte) (active : Byte) (bus : Nat → BusAccess 6)

/-- The master with MISO wired to MOSI. -/
def loopRun : Nat → Spi :=
  Clocked.run (fun s b ↦ posedge s ⟨b, s.spiMosi⟩) (reset txMem rxMem active) bus

/-- The byte that enters the TX FIFO in cycle `t`. -/
def pushed (t : Nat) : Option Byte :=
  if (loopRun txMem rxMem active bus t).txFifo.wideFull then none else txPush (bus t)

/-- The byte whose transfer completes in cycle `t`. -/
def completed (t : Nat) : Option Byte :=
  if (loopRun txMem rxMem active bus t).samplesLastBit then
    some (loopRun txMem rxMem active bus t).activeTxByte
  else none

/-- The byte that enters the RX FIFO in cycle `t`. -/
def received (t : Nat) : Option Byte :=
  if (loopRun txMem rxMem active bus t).rxFifo.wideFull then none
  else (loopRun txMem rxMem active bus t).rxPush (loopRun txMem rxMem active bus t).spiMosi

/-- How the loopback is used: the internal loopback off, a chip select chosen, CPHA and the bit order left
alone during a transfer (CPOL and the divider are free), no more bytes queued than the TX FIFO holds,
and room in the RX FIFO for every byte that arrives. -/
structure LoopUse : Prop where
  external : ∀ t, (loopRun txMem rxMem active bus t).ctrlLoopback = false
  selected : ∀ t, (loopRun txMem rxMem active bus t).csSelect.extractLsb' 0 4 ≠ 0#4
  steady : ∀ t, (loopRun txMem rxMem active bus t).busy →
    (loopRun txMem rxMem active bus (t + 1)).busy →
    (loopRun txMem rxMem active bus (t + 1)).ctrlCpha = (loopRun txMem rxMem active bus t).ctrlCpha ∧
    (loopRun txMem rxMem active bus (t + 1)).ctrlLsb = (loopRun txMem rxMem active bus t).ctrlLsb
  txFits : ∀ t, (loopRun txMem rxMem active bus t).txFifo.count ≤ 4
  rxFits : ∀ t, (loopRun txMem rxMem active bus t).samplesLastBit →
    (loopRun txMem rxMem active bus t).rxFifo.count < 4

/-- The sample edges from cycle `k + 1` to cycle `u`. -/
def samplesIn (k u : Nat) : Nat :=
  Nat.count (fun d ↦ (loopRun txMem rxMem active bus (k + 1 + d)).sampleEdge) (u - k)

/-- The transfer loses nothing. -/
structure Lossless : Prop where
  order : ∀ t, trace (received txMem rxMem active bus) t <+: trace (pushed txMem rxMem active bus) t
  accepts : ∀ t, (loopRun txMem rxMem active bus t).txFifo.count < 4 →
    pushed txMem rxMem active bus t = txPush (bus t)
  /-- Every byte arrives if the master stays enabled. -/
  arrives : (∃ t₁, ∀ t, t₁ ≤ t → (loopRun txMem rxMem active bus t).ctrlEnable) →
    ∀ t, ∃ u, trace (pushed txMem rxMem active bus) t <+: trace (received txMem rxMem active bus) u
  /-- A byte taken in cycle `k` and completed in cycle `u` has been sampled eight times. -/
  samples : ∀ k u, k < u → (loopRun txMem rxMem active bus k).takesTxByte →
    (∀ v, k < v → v < u → ¬ (loopRun txMem rxMem active bus v).takesTxByte) →
    (loopRun txMem rxMem active bus u).samplesLastBit → samplesIn txMem rxMem active bus k u = 8

end Run

section Loopback

variable {txMem rxMem : BitVec 2 → Byte} {active : Byte} {bus : Nat → BusAccess 6} {t : Nat}

theorem loopRun_succ (t : Nat) : loopRun txMem rxMem active bus (t + 1) =
    posedge (loopRun txMem rxMem active bus t) ⟨bus t, (loopRun txMem rxMem active bus t).spiMosi⟩ :=
  rfl

theorem not_busy_of_takes (h : s.takesTxByte) : s.busy = false := by
  simp only [takesTxByte, Bool.and_eq_true, Bool.not_eq_true'] at h
  exact h.1.1.1

theorem busy_of_last (h : s.samplesLastBit) : s.busy = true := by
  simp only [samplesLastBit, Bool.and_eq_true] at h
  exact h.1.1.1

theorem sampleEdge_of_last (h : s.samplesLastBit) : s.sampleEdge = true := by
  simp only [samplesLastBit, Bool.and_eq_true] at h
  simp only [sampleEdge, sckEdge, Bool.and_eq_true]
  exact h.1

-- A byte is in transfer from the cycle that takes it to the one that completes it.
theorem posedge_busy : (posedge s i).busy = (s.takesTxByte || s.busy && !s.samplesLastBit) := by
  have h : (posedge s i).busy = (s.nextShifter i.miso).busy := congrArg Shifter.busy posedge_shifter
  rw [h, nextShifter]
  by_cases ht : s.takesTxByte
  · rw [if_pos ht, ht]
    rfl
  · rw [if_neg ht]
    by_cases hb : s.busy
    · by_cases hl : s.samplesLastBit
      · simp [ht, hb, hl]
      · simp [ht, hb, hl, apply_ite Shifter.busy, shifter]
    · simp [ht, hb, shifter]

theorem posedge_activeTxByte : (posedge s i).activeTxByte =
    if s.takesTxByte then s.txFifo.front else s.activeTxByte := by
  have h : (posedge s i).activeTxByte = (s.nextShifter i.miso).activeTxByte :=
    congrArg Shifter.activeTxByte posedge_shifter
  rw [h, nextShifter]
  simp only [apply_ite Shifter.activeTxByte, shifter, ite_self]

-- In every cycle of a transfer the shift registers are where the samples so far have brought them.
theorem sends_succ (h : LoopUse txMem rxMem active bus) (t : Nat)
    (hprev : (loopRun txMem rxMem active bus t).busy → ∃ m k, (loopRun txMem rxMem active bus t).Sends m k)
    (hb : (loopRun txMem rxMem active bus (t + 1)).busy) :
    ∃ m k, (loopRun txMem rxMem active bus (t + 1)).Sends m k := by
  have hnext : (loopRun txMem rxMem active bus (t + 1)).shifter =
      (loopRun txMem rxMem active bus t).nextShifter (loopRun txMem rxMem active bus t).spiMosi :=
    posedge_shifter
  unfold Sends
  by_cases ht : (loopRun txMem rxMem active bus t).takesTxByte
  · rw [hnext, nextShifter, if_pos ht]
    exact ⟨0, 0, transfers_start _⟩
  · have hstep := hb
    rw [loopRun_succ, posedge_busy] at hstep
    simp only [ht, Bool.false_or, Bool.and_eq_true, Bool.not_eq_true'] at hstep
    obtain ⟨m, k, hs⟩ := hprev hstep.1
    obtain ⟨m', hs'⟩ := hs.next hstep.1 (h.external t) hstep.2
    obtain ⟨hcpha, hlsb⟩ := h.steady t hstep.1 hb
    rw [hcpha, hlsb, hnext]
    exact ⟨m', _, hs'⟩

theorem sends_run (h : LoopUse txMem rxMem active bus) (t : Nat)
    (hb : (loopRun txMem rxMem active bus t).busy) :
    ∃ m k, (loopRun txMem rxMem active bus t).Sends m k := by
  induction t with
  | zero => exact absurd hb Bool.false_ne_true
  | succ t ih => exact sends_succ h t ih hb

-- What is received is the wire byte of what has been sent.
theorem received_eq (h : LoopUse txMem rxMem active bus) (t : Nat) :
    received txMem rxMem active bus t = (completed txMem rxMem active bus t).map
      (wireByte (loopRun txMem rxMem active bus t).ctrlCpha (loopRun txMem rxMem active bus t).ctrlLsb) := by
  unfold received completed rxPush
  by_cases hl : (loopRun txMem rxMem active bus t).samplesLastBit
  · have hroom := h.rxFits t hl
    have hfull : (loopRun txMem rxMem active bus t).rxFifo.wideFull = false := by
      rw [← Bool.not_eq_true, Ring.wideFull_iff (by decide)]
      omega
    obtain ⟨m, k, hs⟩ := sends_run h t (busy_of_last hl)
    rw [hfull, if_neg (by decide), if_pos hl, if_pos hl, receivedByte_eq hs (h.external t) hl]
    rfl
  · rw [if_neg hl, if_neg hl, ite_self]
    rfl

/-! ## The bytes of a run -/

/-- The byte in transfer. -/
def inTransfer (s : Spi) : List Byte := if s.busy then [s.activeTxByte] else []

/-- The TX FIFO of the loopback. -/
def loopTxFifo (txMem rxMem : BitVec 2 → Byte) (active : Byte) (bus : Nat → BusAccess 6) :
    FifoRun 2 Byte where
  ring t := (loopRun txMem rxMem active bus t).txFifo
  push t := txPush (bus t)
  pop t := (loopRun txMem rxMem active bus t).takesTxByte

theorem popped_eq (t : Nat) : (loopTxFifo txMem rxMem active bus).popped t =
    if (loopRun txMem rxMem active bus t).takesTxByte then
      some (loopRun txMem rxMem active bus t).txFifo.front
    else none :=
  congrArg (fun c ↦ if c then some (loopRun txMem rxMem active bus t).txFifo.front else none)
    (takesTxByte_eq _).symm

-- Taken bytes have been completed or are in transfer.
theorem popped_run (t : Nat) : trace (loopTxFifo txMem rxMem active bus).popped t =
    trace (completed txMem rxMem active bus) t ++ (loopRun txMem rxMem active bus t).inTransfer := by
  induction t with
  | zero => rfl
  | succ t ih =>
    rw [Clocked.trace_succ, Clocked.trace_succ, ih, popped_eq, loopRun_succ, inTransfer, inTransfer,
      posedge_busy, posedge_activeTxByte, completed]
    by_cases ht : (loopRun txMem rxMem active bus t).takesTxByte
    · have hb := not_busy_of_takes ht
      have hl : (loopRun txMem rxMem active bus t).samplesLastBit = false := by
        simp [samplesLastBit, hb]
      simp [ht, hb, hl]
    · by_cases hl : (loopRun txMem rxMem active bus t).samplesLastBit
      · simp [ht, hl, busy_of_last hl]
      · simp [ht, hl]

-- What firmware has sent has been completed, is in transfer or is queued.
theorem pushed_run (h : LoopUse txMem rxMem active bus) (t : Nat) :
    trace (pushed txMem rxMem active bus) t = trace (completed txMem rxMem active bus) t ++
      (loopRun txMem rxMem active bus t).inTransfer ++
      (loopRun txMem rxMem active bus t).txFifo.contents := by
  have hruns : (loopTxFifo txMem rxMem active bus).Runs t :=
    ⟨rfl, fun u _ ↦ posedge_txFifo.trans (congrArg (Ring.next _ _) (takesTxByte_eq _))⟩
  have horder := FifoRun.order_of_count_le (by decide) hruns fun u _ ↦ h.txFits u
  rw [popped_run] at horder
  exact horder

theorem isSome_received (h : LoopUse txMem rxMem active bus) (t : Nat) :
    (received txMem rxMem active bus t).isSome = (completed txMem rxMem active bus t).isSome := by
  rw [received_eq h, Option.isSome_map]

-- The wire byte is the byte itself if the first edge samples, or if there is nothing to lose.
theorem wireByte_eq_iff (cpha lsb : Bool) (a : Byte) :
    wireByte cpha lsb a = a ↔ cpha = true ∨ a = 0 := by
  have hshift : ∀ a : Byte, (a >>> 1 = a ↔ a = 0) ∧ (a <<< 1 = a ↔ a = 0) := by decide +kernel
  unfold wireByte
  cases cpha with
  | true => simp
  | false =>
    cases lsb with
    | true => simpa using (hshift a).1
    | false => simpa using (hshift a).2

-- Up to any cycle the received bytes are the pushed ones exactly if every completed byte survives its wire.
theorem received_begins_iff (h : LoopUse txMem rxMem active bus) (t : Nat) :
    trace (received txMem rxMem active bus) t <+: trace (pushed txMem rxMem active bus) t ↔
      ∀ u < t, (loopRun txMem rxMem active bus u).samplesLastBit →
        (loopRun txMem rxMem active bus u).ctrlCpha = true ∨
          (loopRun txMem rxMem active bus u).activeTxByte = 0 := by
  have hsent : trace (completed txMem rxMem active bus) t <+: trace (pushed txMem rxMem active bus) t := by
    rw [pushed_run h, List.append_assoc]
    exact List.prefix_append _ _
  have hlen := Clocked.trace_length_eq (t := t) fun u _ ↦ isSome_received h u
  have heq : trace (received txMem rxMem active bus) t <+: trace (pushed txMem rxMem active bus) t ↔
      trace (received txMem rxMem active bus) t = trace (completed txMem rxMem active bus) t := by
    constructor
    · intro hrec
      exact (List.prefix_of_prefix_length_le hrec hsent (Nat.le_of_eq hlen)).eq_of_length hlen
    · intro hrec
      rw [hrec]
      exact hsent
  rw [heq, Clocked.trace_eq_iff fun u _ ↦ isSome_received h u]
  constructor
  · intro hall u hu hl
    have hu' := hall u hu
    rw [received_eq h, completed, if_pos hl] at hu'
    exact (wireByte_eq_iff _ _ _).mp (Option.some.inj hu')
  · intro hall u hu
    rw [received_eq h, completed]
    split
    next hl => exact congrArg some ((wireByte_eq_iff _ _ _).mpr (hall u hu hl))
    next => rfl

/-! ## Progress and samples -/

-- While a byte is missing, every cycle that brings none brings one closer.
theorem rank_lt_run (h : LoopUse txMem rxMem active bus) (t : Nat)
    (hen : (loopRun txMem rxMem active bus t).ctrlEnable)
    (hmiss : (trace (received txMem rxMem active bus) t).length <
      (trace (pushed txMem rxMem active bus) t).length)
    (hnone : received txMem rxMem active bus t = none) :
    (loopRun txMem rxMem active bus (t + 1)).rank < (loopRun txMem rxMem active bus t).rank := by
  have hlast : (loopRun txMem rxMem active bus t).samplesLastBit = false := by
    have hsome := isSome_received h t
    rw [hnone, completed] at hsome
    by_contra hl
    rw [Bool.not_eq_false] at hl
    rw [if_pos hl] at hsome
    cases hsome
  by_cases hb : (loopRun txMem rxMem active bus t).busy
  · have hb' : (loopRun txMem rxMem active bus (t + 1)).busy = true := by
      rw [loopRun_succ, posedge_busy, hb, hlast, Bool.not_false, Bool.and_self, Bool.or_true]
    exact rank_of_busy hb hlast (h.steady t hb hb').1
  · -- nothing is in transfer, so the missing byte is in the FIFO
    have hempty : (loopRun txMem rxMem active bus t).txFifo.empty = false := by
      rw [pushed_run h, inTransfer, if_neg hb, List.append_nil, List.length_append,
        Ring.contents_length, Clocked.trace_length_eq fun u _ ↦ isSome_received h u] at hmiss
      rw [← Bool.not_eq_true, ← Ring.count_eq_zero]
      omega
    have htake : (loopRun txMem rxMem active bus t).takesTxByte = true := by
      simp [takesTxByte, hb, hen, hempty, h.selected t]
    exact rank_of_takes htake

-- In an enabled master every pushed byte has its arrival.
theorem received_length (h : LoopUse txMem rxMem active bus) {t₁ : Nat}
    (hen : ∀ t, t₁ ≤ t → (loopRun txMem rxMem active bus t).ctrlEnable) (t : Nat) :
    ∃ u, t ≤ u ∧ (trace (pushed txMem rxMem active bus) t).length ≤
      (trace (received txMem rxMem active bus) u).length := by
  have hprogress (v : Nat) (hv : max t t₁ ≤ v)
      (hlt : (trace (received txMem rxMem active bus) v).length <
        (trace (pushed txMem rxMem active bus) t).length) :
      ∃ u, v ≤ u ∧ (received txMem rxMem active bus u).isSome := by
    refine Clocked.event_of_rank_while
      (fun u ↦ max t t₁ ≤ u ∧ (trace (received txMem rxMem active bus) u).length <
        (trace (pushed txMem rxMem active bus) t).length)
      (fun u ↦ (loopRun txMem rxMem active bus u).rank) ?_ ⟨hv, hlt⟩
    intro u ⟨hu, hmiss⟩
    cases hr : received txMem rxMem active bus u with
    | some b => exact .inl rfl
    | none =>
      right
      have hmono := Clocked.trace_length_mono (pushed txMem rxMem active bus) (show t ≤ u by omega)
      refine ⟨⟨by omega, ?_⟩, ?_⟩
      · rw [Clocked.trace_succ, hr, Option.toList_none, List.append_nil]
        exact hmiss
      · exact rank_lt_run h u (hen u (by omega)) (by omega) hr
  obtain ⟨u, hu, hlen⟩ := Clocked.trace_reaches hprogress
  exact ⟨u, by omega, hlen⟩

-- The samples of a byte and the bits it still needs make seven until the last one.
theorem samples_add_index (h : LoopUse txMem rxMem active bus) {k u : Nat} (hku : k < u)
    (hk : (loopRun txMem rxMem active bus k).takesTxByte)
    (hno : ∀ v, k < v → v < u → ¬ (loopRun txMem rxMem active bus v).takesTxByte)
    (hb : (loopRun txMem rxMem active bus u).busy) :
    ∃ m, (loopRun txMem rxMem active bus u).Sends m
      (Nat.count (fun d ↦ (loopRun txMem rxMem active bus (k + 1 + d)).sampleEdge) (u - (k + 1))) := by
  induction u, hku using Nat.le_induction with
  | base =>
    refine ⟨0, ?_⟩
    have hnext : (loopRun txMem rxMem active bus (k + 1)).shifter =
        (loopRun txMem rxMem active bus k).nextShifter (loopRun txMem rxMem active bus k).spiMosi :=
      posedge_shifter
    rw [Sends, hnext, nextShifter, if_pos hk, show k.succ - (k + 1) = 0 by omega, Nat.count_zero]
    exact transfers_start _
  | succ u hu ih =>
    have hstep := hb
    rw [loopRun_succ, posedge_busy] at hstep
    simp only [hno u hu (Nat.lt_succ_self u), Bool.false_or, Bool.and_eq_true, Bool.not_eq_true'] at hstep
    obtain ⟨m, hs⟩ := ih (fun v h1 h2 ↦ hno v h1 (by omega)) hstep.1
    obtain ⟨m', hs'⟩ := hs.next hstep.1 (h.external u) hstep.2
    obtain ⟨hcpha, hlsb⟩ := h.steady u hstep.1 hb
    have hnext : (loopRun txMem rxMem active bus (u + 1)).shifter =
        (loopRun txMem rxMem active bus u).nextShifter (loopRun txMem rxMem active bus u).spiMosi :=
      posedge_shifter
    refine ⟨m', ?_⟩
    rw [Sends, hcpha, hlsb, hnext, show u + 1 - (k + 1) = u - (k + 1) + 1 by omega, Nat.count_succ,
      show k + 1 + (u - (k + 1)) = u by omega]
    exact hs'

theorem samplesIn_eq (h : LoopUse txMem rxMem active bus) {k u : Nat} (hku : k < u)
    (hk : (loopRun txMem rxMem active bus k).takesTxByte)
    (hno : ∀ v, k < v → v < u → ¬ (loopRun txMem rxMem active bus v).takesTxByte)
    (hl : (loopRun txMem rxMem active bus u).samplesLastBit) :
    samplesIn txMem rxMem active bus k u = 8 := by
  obtain ⟨m, hs⟩ := samples_add_index h hku hk hno (busy_of_last hl)
  have hindex := hs.index
  have hzero : (loopRun txMem rxMem active bus u).bitIndex = 0#3 := by
    simp only [samplesLastBit, Bool.and_eq_true, beq_iff_eq] at hl
    exact hl.2
  rw [show (loopRun txMem rxMem active bus u).shifter.bitIndex = 0#3 from hzero] at hindex
  rw [samplesIn, show u - k = u - (k + 1) + 1 by omega, Nat.count_succ,
    show k + 1 + (u - (k + 1)) = u by omega, sampleEdge_of_last hl, if_pos rfl]
  replace hindex : 0 + _ = 7 := hindex
  omega

/-- SPI loopback: the transfer is lossless in exactly the runs in which every byte is sent with CPHA = 1
or is zero. -/
theorem lossless_iff (txMem rxMem : BitVec 2 → Byte) (active : Byte) (bus : Nat → BusAccess 6)
    (h : LoopUse txMem rxMem active bus) : Lossless txMem rxMem active bus ↔
      ∀ u, (loopRun txMem rxMem active bus u).samplesLastBit →
        (loopRun txMem rxMem active bus u).ctrlCpha = true ∨
          (loopRun txMem rxMem active bus u).activeTxByte = 0 := by
  constructor
  · intro hlossless u hl
    exact (received_begins_iff h (u + 1)).mp (hlossless.order (u + 1)) u (Nat.lt_succ_self u) hl
  · intro hall
    have horder (t : Nat) := (received_begins_iff h t).mpr fun u _ ↦ hall u
    constructor
    · exact horder
    · intro t hroom
      have hfull : (loopRun txMem rxMem active bus t).txFifo.wideFull = false := by
        rw [← Bool.not_eq_true, Ring.wideFull_iff (by decide)]
        omega
      rw [pushed, hfull]
      rfl
    · intro ⟨t₁, hen⟩ t
      obtain ⟨u, htu, hlen⟩ := received_length h hen t
      exact ⟨u, List.prefix_of_prefix_length_le (Clocked.trace_mono _ htu) (horder u) hlen⟩
    · intro k u hku hk hno hl
      exact samplesIn_eq h hku hk hno hl

end Loopback

/-! ## One byte -/

/-- Firmware writes CTRL, sends 0x41 and does nothing more. -/
def loopByteBus (ctrl : Word) (t : Nat) : BusAccess 6 :=
  if t = 0 then ⟨true, false, 0x0, ctrl⟩
  else if t = 1 then ⟨true, false, 0x3, 0x41⟩
  else ⟨false, false, 0, 0⟩

def loopByteRun (ctrl : Word) : Nat → Spi :=
  loopRun (fun _ ↦ 0) (fun _ ↦ 0) 0 (loopByteBus ctrl)

/-- Nothing is in transfer and nothing is queued. -/
structure Resting (s : Spi) : Prop where
  idle : s.busy = false
  empty : s.txFifo.empty = true

theorem Resting.posedge (h : Resting s) (hw : i.bus.write = false) (hr : i.bus.read = false) :
    Spi.posedge s i = { s with divCounter := 0, sckPhase := false } := by
  simp [Spi.posedge, busWrite, busRead, startTransfer, shiftBits, hw, hr, h.idle, h.empty]

-- What the first cycles show, in either mode.
theorem loopByte_first (cpha : Bool) (t : Nat) (ht : t ≤ 45) :
    (loopByteRun (if cpha then 5 else 1) t).ctrlLoopback = false ∧
      (loopByteRun (if cpha then 5 else 1) t).csSelect = 1 ∧
      (t ≠ 0 → (loopByteRun (if cpha then 5 else 1) t).ctrl = if cpha then 5 else 1) ∧
      (loopByteRun (if cpha then 5 else 1) t).txFifo.count ≤ 4 ∧
      (loopByteRun (if cpha then 5 else 1) t).rxFifo.count < 4 := by
  revert t
  cases cpha <;> decide +kernel

theorem loopByte_later (cpha : Bool) (t : Nat) (ht : 45 ≤ t) :
    Resting (loopByteRun (if cpha then 5 else 1) t) ∧
      (loopByteRun (if cpha then 5 else 1) t).ctrl = (if cpha then 5 else 1) ∧
      (loopByteRun (if cpha then 5 else 1) t).csSelect = 1 := by
  induction t, ht using Nat.le_induction with
  | base => cases cpha <;> exact ⟨⟨by decide +kernel, by decide +kernel⟩, by decide +kernel, by decide +kernel⟩
  | succ t ht ih =>
    obtain ⟨hrest, hctrl, hsel⟩ := ih
    have hbus : loopByteBus (if cpha then 5 else 1) t = ⟨false, false, 0, 0⟩ := by
      rw [loopByteBus, if_neg (by omega), if_neg (by omega)]
    have hstep : loopByteRun (if cpha then 5 else 1) (t + 1) =
        { loopByteRun (if cpha then 5 else 1) t with divCounter := 0, sckPhase := false } := by
      apply hrest.posedge
      · show (loopByteBus _ t).write = false
        rw [hbus]
      · show (loopByteBus _ t).read = false
        rw [hbus]
    rw [hstep]
    exact ⟨⟨hrest.idle, hrest.empty⟩, hctrl, hsel⟩

theorem loopByte_use (cpha : Bool) :
    LoopUse (fun _ ↦ 0) (fun _ ↦ 0) 0 (loopByteBus (if cpha then 5 else 1)) := by
  have hctrl (t : Nat) (h0 : t ≠ 0) :
      (loopByteRun (if cpha then 5 else 1) t).ctrl = if cpha then 5 else 1 := by
    rcases Nat.le_total t 45 with hle | hge
    · exact (loopByte_first cpha t hle).2.2.1 h0
    · exact (loopByte_later cpha t hge).2.1
  constructor
  · intro t
    rcases Nat.le_total t 45 with hle | hge
    · exact (loopByte_first cpha t hle).1
    · show (loopByteRun (if cpha then 5 else 1) t).ctrl.getLsbD 4 = false
      rw [(loopByte_later cpha t hge).2.1]
      cases cpha <;> rfl
  · intro t
    show (loopByteRun (if cpha then 5 else 1) t).csSelect.extractLsb' 0 4 ≠ 0#4
    rcases Nat.le_total t 45 with hle | hge
    · rw [(loopByte_first cpha t hle).2.1]
      decide
    · rw [(loopByte_later cpha t hge).2.2]
      decide
  · intro t hb _
    have h0 : t ≠ 0 := by
      rintro rfl
      exact absurd hb Bool.false_ne_true
    have heq := (hctrl (t + 1) (by omega)).trans (hctrl t h0).symm
    exact ⟨congrArg (BitVec.getLsbD · 2) heq, congrArg (BitVec.getLsbD · 3) heq⟩
  · intro t
    rcases Nat.le_total t 45 with hle | hge
    · exact (loopByte_first cpha t hle).2.2.2.1
    · have hempty := Ring.count_eq_zero.mpr (loopByte_later cpha t hge).1.empty
      show (loopByteRun (if cpha then 5 else 1) t).txFifo.count ≤ 4
      omega
  · intro t hl
    rcases Nat.le_total t 45 with hle | hge
    · exact (loopByte_first cpha t hle).2.2.2.2
    · have hidle := (loopByte_later cpha t hge).1.idle
      exact absurd ((busy_of_last hl).symm.trans hidle) (by decide)

/-- With CPHA = 0 the byte 0x41 arrives as 0x82. -/
theorem loopByte_shifted : LoopUse (fun _ ↦ 0) (fun _ ↦ 0) 0 (loopByteBus 1) ∧
    ¬ Lossless (fun _ ↦ 0) (fun _ ↦ 0) 0 (loopByteBus 1) ∧
    trace (received (fun _ ↦ 0) (fun _ ↦ 0) 0 (loopByteBus 1)) 45 = [0x82#8] := by
  have hrec : trace (received (fun _ ↦ 0) (fun _ ↦ 0) 0 (loopByteBus 1)) 45 = [0x82#8] := by
    decide +kernel
  have hpush : trace (pushed (fun _ ↦ 0) (fun _ ↦ 0) 0 (loopByteBus 1)) 45 = [0x41#8] := by
    decide +kernel
  refine ⟨loopByte_use false, ?_, hrec⟩
  intro h
  have horder := h.order 45
  rw [hrec, hpush] at horder
  exact absurd horder (by decide)

/-- With CPHA = 1 it arrives as it was sent. -/
theorem lossless_iff_loopByte : Lossless (fun _ ↦ 0) (fun _ ↦ 0) 0 (loopByteBus 5) ∧
    trace (received (fun _ ↦ 0) (fun _ ↦ 0) 0 (loopByteBus 5)) 45 = [0x41#8] := by
  refine ⟨(lossless_iff _ _ _ _ (loopByte_use true)).mpr ?_, by decide +kernel⟩
  intro u hl
  have h0 : u ≠ 0 := by
    rintro rfl
    exact absurd (busy_of_last hl) Bool.false_ne_true
  left
  show (loopByteRun 5 u).ctrl.getLsbD 2 = true
  rcases Nat.le_total u 45 with hle | hge
  · rw [show (loopByteRun 5 u).ctrl = 5 from (loopByte_first true u hle).2.2.1 h0]
    rfl
  · rw [show (loopByteRun 5 u).ctrl = 5 from (loopByte_later true u hge).2.1]
    rfl

end Spi

end QarCore
