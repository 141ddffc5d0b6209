import QarCore.Periph.UartLink

/-!
# UART loopback

The UART from reset with its RX pin wired to its TX pin.  Firmware sets CTRL and BAUD while the line is
silent and leaves them alone afterwards; it keeps to the depth of the FIFOs.  Then what the receiver stores
is what firmware has sent, and what firmware reads.
-/

namespace QarCore

open Clocked (Format Link FifoRun Ring trace)

namespace Uart

variable {s : Uart} {i : Inputs}

/-! ## A silent line -/

/-- No LIN transfer is in progress. -/
structure LinIdle (s : Uart) : Prop where
  noBreak : s.lin.breakActive = false
  noHeader : s.lin.autoState = 0#2
  noSlave : s.lin.slaveTxPending = false

theorem LinIdle.posedge (h : LinIdle s) (hl : s.ctrlLinMode = false) : LinIdle (posedge s i) := by
  constructor
  all_goals
    -- breaks, headers and slave responses start in LIN mode only
    simp only [Uart.posedge, detectBreak, receive, rxIdle, rxSample, startFrame, countIdle,
      sampleBit, finishFrame, transmit, txIdle, txShiftOut, countSlaveByte, loadFrame, startBreak,
      statusBits, busRead, busWrite, writeData, writeIrqStatus, writeLinCmd, writeLinSlaveCtrl,
      synchronize, hl, h.noBreak, h.noHeader, h.noSlave, Bool.false_and, Bool.false_eq_true,
      ↓reduceIte, apply_ite Uart.lin, apply_ite Lin.breakActive, apply_ite Lin.autoState,
      apply_ite Lin.slaveTxPending, ite_self, ne_eq, not_true_eq_false]

/-- Nothing is on the line and nothing is queued. -/
structure Silent (s : Uart) : Prop where
  line : s.tx.line = true
  sync1 : s.rx.sync1 = true
  sync2 : s.rx.sync2 = true
  txIdle : s.tx.bitsRemaining = 0#5
  rxIdle : s.rx.busy = false
  empty : s.txFifo.empty = true

theorem Silent.takesTxByte (h : Silent s) : s.takesTxByte = false := by
  simp [Uart.takesTxByte, h.empty]

theorem Silent.posedge (h : Silent s) (hq : LinIdle s) (hl : s.ctrlLinMode = false)
    (hrx : i.rx = s.tx.line) (hpush : txPush i.bus = none) : Silent (posedge s i) := by
  have htx : (Uart.posedge s i).tx.line = true ∧ (Uart.posedge s i).tx.bitsRemaining = 0#5 := by
    by_cases he : s.ctrlEnable
    · have hplain : Plain s := ⟨he, hl, hq.noBreak, hq.noHeader, hq.noSlave⟩
      have hnone : s.loadsByte = none := by
        rw [loadsByte_plain hplain, txByte, h.takesTxByte]
        rfl
      rw [posedge_tx_idle hplain.sends h.txIdle, hnone]
      exact ⟨h.line, h.txIdle⟩
    · rw [posedge_tx]
      simp only [transmit, he, Bool.not_false, ↓reduceIte]
      exact ⟨trivial, rfl⟩
  have hrxe : (Uart.posedge s i).rx.busy = false ∧ (Uart.posedge s i).rx.sync1 = true ∧
      (Uart.posedge s i).rx.sync2 = true := by
    by_cases he : s.ctrlEnable
    · rw [posedge_rx_idle (Listens.hears ⟨he, hl⟩) h.rxIdle, if_pos h.sync2]
      exact ⟨h.rxIdle, hrx.trans h.line, h.sync1⟩
    · rw [posedge_rx (by simp [breakSeen, hl])]
      simp only [receive, he, Bool.not_false, ↓reduceIte, transmit_rx, settled_rx]
      exact ⟨trivial, hrx.trans h.line, h.sync1⟩
  refine ⟨htx.1, hrxe.2.1, hrxe.2.2, htx.2, hrxe.1, ?_⟩
  rw [posedge_txFifo, hpush, h.takesTxByte, ite_self]
  exact h.empty

/-! ## The run -/

section Run

variable (txMem rxMem : BitVec 3 → Byte) (bus : Nat → BusAccess 4)

/-- The UART with RX wired to TX. -/
def loopRun : Nat → Uart :=
  Clocked.run (fun s b ↦ posedge s ⟨b, s.tx.line⟩) (reset txMem rxMem) bus

/-- The byte that enters the TX FIFO in cycle `t`. -/
def pushed (t : Nat) : Option Byte :=
  if (loopRun txMem rxMem bus t).txFifo.wideFull then none else txPush (bus t)

/-- The byte that enters the RX FIFO in cycle `t`. -/
def received (t : Nat) : Option Byte :=
  if (loopRun txMem rxMem bus t).rxFifo.wideFull then none
  else (loopRun txMem rxMem bus t).rxPush

/-- The byte that a read of DATA takes from the RX FIFO in cycle `t`. -/
def readOut (t : Nat) : Option Byte :=
  if rxPop (bus t) && !(loopRun txMem rxMem bus t).rxFifo.empty then
    some (loopRun txMem rxMem bus t).rxFifo.front
  else none

/-- Nothing flushes the RX FIFO before cycle `t`. -/
def KeepsRx (t : Nat) : Prop := ∀ u < t, flushesRx (loopRun txMem rxMem bus u) (bus u) = false

/-- How the loopback is used: in LIN mode off, with CTRL and BAUD set up before cycle `t₀` and no byte
sent before, with no more bytes queued than the TX FIFO holds, and with room in the RX FIFO for every
byte that arrives. -/
structure LoopUse (t₀ : Nat) : Prop where
  linOff : ∀ t, (loopRun txMem rxMem bus t).ctrlLinMode = false
  silent : ∀ t, t < t₀ → txPush (bus t) = none
  enabled : (loopRun txMem rxMem bus t₀).ctrlEnable = true
  ctrl : ∀ t, t₀ ≤ t → (loopRun txMem rxMem bus t).ctrl = (loopRun txMem rxMem bus t₀).ctrl
  baud : ∀ t, t₀ ≤ t → (loopRun txMem rxMem bus t).baudDiv = (loopRun txMem rxMem bus t₀).baudDiv
  two_le_baud : 2 ≤ (loopRun txMem rxMem bus t₀).baudDiv.toNat
  txFits : ∀ t, (loopRun txMem rxMem bus t).txFifo.count ≤ 8
  rxFits : ∀ t, (loopRun txMem rxMem bus t).rxPush.isSome →
    (loopRun txMem rxMem bus t).rxFifo.count < 8

end Run

section Loopback

variable {txMem rxMem : BitVec 3 → Byte} {bus : Nat → BusAccess 4} {t₀ t : Nat}

theorem loopRun_succ (t : Nat) : loopRun txMem rxMem bus (t + 1) =
    posedge (loopRun txMem rxMem bus t) ⟨bus t, (loopRun txMem rxMem bus t).tx.line⟩ := rfl

theorem linIdle_run (h : LoopUse txMem rxMem bus t₀) (t : Nat) :
    LinIdle (loopRun txMem rxMem bus t) := by
  induction t with
  | zero => exact ⟨rfl, rfl, rfl⟩
  | succ t ih => exact ih.posedge (h.linOff t)

theorem silent_run (h : LoopUse txMem rxMem bus t₀) (ht : t ≤ t₀) :
    Silent (loopRun txMem rxMem bus t) := by
  induction t with
  | zero => exact ⟨rfl, rfl, rfl, rfl, rfl, rfl⟩
  | succ t ih =>
    exact (ih (by omega)).posedge (linIdle_run h t) (h.linOff t) rfl (h.silent t (by omega))

theorem plain_run (h : LoopUse txMem rxMem bus t₀) (ht : t₀ ≤ t) :
    Plain (loopRun txMem rxMem bus t) := by
  have hq := linIdle_run h t
  refine ⟨?_, h.linOff t, hq.noBreak, hq.noHeader, hq.noSlave⟩
  unfold ctrlEnable
  rw [h.ctrl t ht]
  exact h.enabled

/-- The frame format the loopback is set up with. -/
def LoopUse.format (h : LoopUse txMem rxMem bus t₀) : Format Byte :=
  Uart.format (loopRun txMem rxMem bus t₀).frameConfig (loopRun txMem rxMem bus t₀).baudDiv.toNat
    h.two_le_baud

/-- The link that the UART is, offered the bytes the serializer takes. -/
def LoopUse.link (h : LoopUse txMem rxMem bus t₀) : Nat → Link Byte :=
  Link.run h.format fun t ↦ (loopRun txMem rxMem bus t).txByte

theorem link_silent (h : LoopUse txMem rxMem bus t₀) (ht : t ≤ t₀) : h.link t = Link.idle := by
  induction t with
  | zero => rfl
  | succ t ih =>
    have hnone : (loopRun txMem rxMem bus t).txByte = none := by
      unfold txByte
      rw [(silent_run h (by omega : t ≤ t₀)).takesTxByte]
      rfl
    show Link.step h.format (h.link t) (loopRun txMem rxMem bus t).txByte = _
    rw [ih (by omega), hnone]
    rfl

-- In every cycle the UART shows the state of the link.
theorem matches_run (h : LoopUse txMem rxMem bus t₀) (t : Nat) :
    Matches (loopRun txMem rxMem bus t₀).frameConfig h.format (loopRun txMem rxMem bus t)
      (h.link t) := by
  rcases Nat.le_total t t₀ with hle | hge
  · have hs := silent_run h hle
    rw [link_silent h hle]
    exact ⟨hs.line, hs.sync1, hs.sync2, hs.txIdle, hs.rxIdle⟩
  · induction t, hge using Nat.le_induction with
    | base =>
      have hs := silent_run h (Nat.le_refl t₀)
      rw [link_silent h (Nat.le_refl t₀)]
      exact ⟨hs.line, hs.sync1, hs.sync2, hs.txIdle, hs.rxIdle⟩
    | succ t ht ih =>
      have hstep : h.link (t + 1) =
          (h.link t).step h.format (loopRun txMem rxMem bus t).loadsByte := by
        rw [loadsByte_plain (plain_run h ht)]
        rfl
      rw [hstep]
      apply ih.posedge (plain_run h ht).sends (plain_run h ht).hears
      · unfold frameConfig
        rw [h.ctrl t ht]
      · rw [h.baud t ht]
      · rfl

theorem wideFull_of_count_lt {r : Ring 3 Byte} (h : r.count < 8) : r.wideFull = false := by
  rw [← Bool.not_eq_true, Ring.wideFull_iff (by decide)]
  omega

-- A frame that arrives is stored without an error, and nothing else is.
theorem received_run (h : LoopUse txMem rxMem bus t₀) (t : Nat) :
    (received txMem rxMem bus t).map h.format.frame = (h.link t).delivered h.format ∧
      (loopRun txMem rxMem bus t).raisesError = false := by
  have hm := matches_run h t
  -- the sampler pushes only if there is room
  have hroom : (loopRun txMem rxMem bus t).rxPush = none ∨
      (loopRun txMem rxMem bus t).rxFifo.wideFull = false := by
    cases hp : (loopRun txMem rxMem bus t).rxPush with
    | none => exact .inl rfl
    | some b => exact .inr (wideFull_of_count_lt (h.rxFits t (by rw [hp]; rfl)))
  have hrec : received txMem rxMem bus t = (loopRun txMem rxMem bus t).rxPush := by
    unfold received
    rcases hroom with hnone | hfull
    · rw [hnone, ite_self]
    · rw [hfull]
      rfl
  rw [hrec]
  rcases Nat.le_total t t₀ with hle | hge
  · have hs := silent_run h hle
    rw [link_silent h hle]
    unfold rxPush raisesError
    simp [hs.rxIdle, Link.delivered, Link.idle]
  · have hbaud : (loopRun txMem rxMem bus t).baudDiv.toNat =
        (loopRun txMem rxMem bus t₀).baudDiv.toNat := by rw [h.baud t hge]
    obtain ⟨q, hq, -⟩ := Link.carries_run h.format _ t
    have heq := rxPush_eq (plain_run h hge) hbaud hm.rx fun bs hbs ↦ hq.delivered_frame hbs
    exact ⟨heq.1, heq.2 hroom⟩

theorem errorFree_run (h : LoopUse txMem rxMem bus t₀) (t : Nat) :
    ErrorFree (loopRun txMem rxMem bus t) := by
  induction t with
  | zero =>
    exact ⟨BitVec.getLsbD_zero, BitVec.getLsbD_zero, BitVec.getLsbD_zero, BitVec.getLsbD_zero⟩
  | succ t ih => exact posedge_errorFree ih (received_run h t).2

/-- The TX FIFO of the loopback. -/
def loopTxFifo (txMem rxMem : BitVec 3 → Byte) (bus : Nat → BusAccess 4) : FifoRun 3 Byte where
  ring t := (loopRun txMem rxMem bus t).txFifo
  push t := txPush (bus t)
  pop t := (loopRun txMem rxMem bus t).takesTxByte

-- What firmware has sent has been received, is on the line or is queued.
theorem pushed_run (h : LoopUse txMem rxMem bus t₀) (t : Nat) : ∃ q,
    Link.Carries h.format (h.link t) q ∧ trace (pushed txMem rxMem bus) t =
      trace (received txMem rxMem bus) t ++ q ++ (loopRun txMem rxMem bus t).txFifo.contents := by
  obtain ⟨q, hq, heq⟩ := Link.carries_run h.format (fun t ↦ (loopRun txMem rxMem bus t).txByte) t
  refine ⟨q, hq, ?_⟩
  have hruns : (loopTxFifo txMem rxMem bus).Runs t :=
    ⟨rfl, fun u _ ↦ posedge_txFifo.trans
      (congrArg (Ring.next _ _) (loopRun txMem rxMem bus u).takesTxByte_eq)⟩
  have horder := FifoRun.order_of_count_le (by decide) hruns fun u _ ↦ h.txFits u
  have hpopped : (loopTxFifo txMem rxMem bus).popped =
      fun u ↦ (h.link u).loaded (loopRun txMem rxMem bus u).txByte := by
    funext u
    rw [loaded_eq (matches_run h u).tx]
    exact congrArg (fun c ↦ if c then some (loopRun txMem rxMem bus u).txFifo.front else none)
      (loopRun txMem rxMem bus u).takesTxByte_eq.symm
  have hdel : (fun u ↦ (h.link u).delivered h.format) =
      fun u ↦ (received txMem rxMem bus u).map h.format.frame := by
    funext u
    exact (received_run h u).1.symm
  replace heq : (trace (loopTxFifo txMem rxMem bus).popped t).map h.format.frame =
      trace (fun u ↦ (h.link u).delivered h.format) t ++ q.map h.format.frame := by
    rw [hpopped]
    exact heq
  rw [hdel, Clocked.trace_map, ← List.map_append] at heq
  rw [← List.map_injective_iff.mpr (format_injective _ _ _) heq]
  exact horder

/-- The RX FIFO of the loopback. -/
def loopRxFifo (txMem rxMem : BitVec 3 → Byte) (bus : Nat → BusAccess 4) : FifoRun 3 Byte where
  ring t := (loopRun txMem rxMem bus t).rxFifo
  push t := (loopRun txMem rxMem bus t).rxPush
  pop t := rxPop (bus t)

-- What has been received has been read or is in the RX FIFO.
theorem received_kept (h : LoopUse txMem rxMem bus t₀) (hkeep : KeepsRx txMem rxMem bus t) :
    trace (received txMem rxMem bus) t =
      trace (readOut txMem rxMem bus) t ++ (loopRun txMem rxMem bus t).rxFifo.contents := by
  have hruns : (loopRxFifo txMem rxMem bus).Runs t := ⟨rfl, fun u hu ↦ posedge_rxFifo (hkeep u hu)⟩
  have hsafe (u : Nat) (_ : u < t) : (loopRxFifo txMem rxMem bus).PushSafe u := by
    intro hp hfull
    have hroom := h.rxFits u hp
    have hcount : (loopRun txMem rxMem bus u).rxFifo.count = 8 := hfull.1
    omega
  exact (FifoRun.bounded_of_safe (by decide) hruns hsafe).2

theorem received_begins_pushed (h : LoopUse txMem rxMem bus t₀) (t : Nat) :
    trace (received txMem rxMem bus) t <+: trace (pushed txMem rxMem bus) t := by
  obtain ⟨q, -, heq⟩ := pushed_run h t
  rw [heq, List.append_assoc]
  exact List.prefix_append _ _

-- While a byte is missing, every edge that brings none brings one closer.
theorem rank_lt_run (h : LoopUse txMem rxMem bus t₀) (ht : t₀ ≤ t)
    (hopen : (loopRun txMem rxMem bus t).linSlaveGateBlock = false)
    (hmiss : (trace (received txMem rxMem bus) t).length < (trace (pushed txMem rxMem bus) t).length)
    (hnone : received txMem rxMem bus t = none) :
    Link.rank h.format (h.link (t + 1)) < Link.rank h.format (h.link t) := by
  obtain ⟨q, hq, heq⟩ := pushed_run h t
  have hm := matches_run h t
  have hdel : (h.link t).delivered h.format = none := by
    rw [← (received_run h t).1, hnone]
    rfl
  show Link.rank h.format ((h.link t).step h.format (loopRun txMem rxMem bus t).txByte) < _
  apply hq.rank_lt _ hdel
  by_cases hne : q = []
  · right
    -- nothing is in flight, so the missing byte is in the FIFO and the serializer is idle
    rw [loaded_eq hm.tx]
    subst hne
    rw [heq, List.append_nil, List.length_append, Ring.contents_length] at hmiss
    have hempty : (loopRun txMem rxMem bus t).txFifo.empty = false := by
      rw [← Bool.not_eq_true, ← Ring.count_eq_zero]
      omega
    have htx : (h.link t).tx = none := by
      generalize h.link t = l at hq
      cases hq
      rfl
    have hidle : (loopRun txMem rxMem bus t).tx.bitsRemaining = 0#5 := by
      have hshows := hm.tx
      rw [htx] at hshows
      exact hshows
    unfold txByte
    rw [takesTxByte_plain (plain_run h ht) hidle, hempty, hopen]
    rfl
  · exact .inl hne

-- Once the LIN slave gate stays open, every byte firmware has sent arrives.
theorem received_all (h : LoopUse txMem rxMem bus t₀) {t₁ : Nat}
    (hopen : ∀ t, t₁ ≤ t → (loopRun txMem rxMem bus t).linSlaveGateBlock = false) (t : Nat) :
    ∃ u, trace (pushed txMem rxMem bus) t <+: trace (received txMem rxMem bus) u := by
  have hprogress (v : Nat) (hv : max t (max t₀ t₁) ≤ v)
      (hlt : (trace (received txMem rxMem bus) v).length <
        (trace (pushed txMem rxMem bus) t).length) :
      ∃ u, v ≤ u ∧ (received txMem rxMem bus u).isSome := by
    refine Clocked.event_of_rank_while
      (fun u ↦ max t (max t₀ t₁) ≤ u ∧ (trace (received txMem rxMem bus) u).length <
        (trace (pushed txMem rxMem bus) t).length)
      (fun u ↦ Link.rank h.format (h.link u)) ?_ ⟨hv, hlt⟩
    intro u ⟨hu, hmiss⟩
    cases hr : received txMem rxMem bus u with
    | some b => exact .inl rfl
    | none =>
      right
      have hmono := Clocked.trace_length_mono (pushed txMem rxMem bus) (show t ≤ u by omega)
      refine ⟨⟨by omega, ?_⟩, ?_⟩
      · rw [Clocked.trace_succ, hr, Option.toList_none, List.append_nil]
        exact hmiss
      · exact rank_lt_run h (by omega) (hopen u (by omega)) (by omega) hr
  obtain ⟨u, hu, hlen⟩ := Clocked.trace_reaches hprogress
  refine ⟨u, ?_⟩
  exact List.prefix_of_prefix_length_le (Clocked.trace_mono _ (by omega)) (received_begins_pushed h u) hlen

/-- UART loopback: for every divider from 2 on and every frame setting the bytes that enter the RX FIFO
are the bytes that entered the TX FIFO, in order, and no error bit is ever set.  A byte written while the
TX FIFO has room enters it, and every byte in it arrives unless firmware arms the LIN slave gate.  What has
entered the RX FIFO is what firmware has read from it and what is still there, unless it is flushed. -/
theorem loopback_lossless (txMem rxMem : BitVec 3 → Byte) (bus : Nat → BusAccess 4) (t₀ : Nat)
    (h : LoopUse txMem rxMem bus t₀) :
    (∀ t, trace (received txMem rxMem bus) t <+: trace (pushed txMem rxMem bus) t) ∧
    (∀ t, ErrorFree (loopRun txMem rxMem bus t)) ∧
    (∀ t, (loopRun txMem rxMem bus t).txFifo.count < 8 →
      pushed txMem rxMem bus t = txPush (bus t)) ∧
    ((∃ t₁, ∀ t, t₁ ≤ t → (loopRun txMem rxMem bus t).linSlaveGateBlock = false) →
      ∀ t, ∃ u, trace (pushed txMem rxMem bus) t <+: trace (received txMem rxMem bus) u) ∧
    (∀ t, KeepsRx txMem rxMem bus t → trace (received txMem rxMem bus) t =
      trace (readOut txMem rxMem bus) t ++ (loopRun txMem rxMem bus t).rxFifo.contents) := by
  refine ⟨received_begins_pushed h, errorFree_run h, ?_, ?_, fun t ↦ received_kept h⟩
  · intro t hroom
    unfold pushed
    rw [wideFull_of_count_lt hroom]
    rfl
  · intro ⟨t₁, hopen⟩ t
    exact received_all h hopen t

end Loopback

/-! ## Three bytes -/

theorem posedge_config (h : i.bus.write = false) :
    (posedge s i).ctrl = s.ctrl ∧ (posedge s i).baudDiv = s.baudDiv := by
  have hno (a : BitVec 4) : writesTo i.bus a = false := by rw [writesTo, h, Bool.false_and]
  obtain ⟨hctrl, hbaud, -⟩ := posedge_registers (s := s) (i := i)
  rw [hno, if_neg Bool.false_ne_true] at hctrl hbaud
  exact ⟨hctrl, hbaud⟩

/-- Firmware sets the divider to 2, sends three bytes back to back and reads the first one. -/
def threeByteBus (t : Nat) : BusAccess 4 :=
  if t = 0 then ⟨true, false, 0x3#4, 2#32⟩
  else if t ≤ 3 then ⟨true, false, 0x0#4, 0x40#32 + BitVec.ofNat 32 t⟩
  else if t = 60 then ⟨false, true, 0x0#4, 0#32⟩
  else ⟨false, false, 0x0#4, 0#32⟩

/-- The run of the three bytes, from empty memories. -/
def threeByteRun : Nat → Uart := loopRun (fun _ ↦ 0) (fun _ ↦ 0) threeByteBus

-- By cycle 100 the bytes have arrived; the registers that matter are right before.
theorem threeByte_first (t : Nat) (ht : t ≤ 100) : (threeByteRun t).ctrl = 1#32 ∧
    (t ≠ 0 → (threeByteRun t).baudDiv = 2#32) ∧ (threeByteRun t).txFifo.count ≤ 8 ∧
    (threeByteRun t).rxFifo.count < 8 := by
  revert t
  decide +kernel

-- Afterwards the line is silent for ever.
theorem threeByte_later (t : Nat) (ht : 100 ≤ t) : (threeByteRun t).ctrl = 1#32 ∧
    (threeByteRun t).baudDiv = 2#32 ∧ LinIdle (threeByteRun t) ∧ Silent (threeByteRun t) := by
  induction t, ht using Nat.le_induction with
  | base => exact ⟨by decide +kernel, by decide +kernel, by constructor <;> decide +kernel,
      by constructor <;> decide +kernel⟩
  | succ t ht ih =>
    obtain ⟨hctrl, hbaud, hlin, hsilent⟩ := ih
    have hbus : threeByteBus t = ⟨false, false, 0x0#4, 0#32⟩ := by
      unfold threeByteBus
      rw [if_neg (by omega), if_neg (by omega), if_neg (by omega)]
    have hoff : (threeByteRun t).ctrlLinMode = false := by
      unfold ctrlLinMode
      rw [hctrl]
      decide
    have hkeep : (threeByteRun (t + 1)).ctrl = (threeByteRun t).ctrl ∧
        (threeByteRun (t + 1)).baudDiv = (threeByteRun t).baudDiv := by
      apply posedge_config
      rw [hbus]
    refine ⟨hkeep.1.trans hctrl, hkeep.2.trans hbaud, hlin.posedge hoff, ?_⟩
    apply hsilent.posedge hlin hoff rfl
    rw [hbus]
    rfl

theorem threeByte_use : LoopUse (fun _ ↦ 0) (fun _ ↦ 0) threeByteBus 1 := by
  have hctrl (t : Nat) : (threeByteRun t).ctrl = 1#32 := by
    rcases Nat.le_total t 100 with hle | hge
    · exact (threeByte_first t hle).1
    · exact (threeByte_later t hge).1
  have hbaud (t : Nat) (ht : 1 ≤ t) : (threeByteRun t).baudDiv = 2#32 := by
    rcases Nat.le_total t 100 with hle | hge
    · exact (threeByte_first t hle).2.1 (by omega)
    · exact (threeByte_later t hge).2.1
  constructor
  case linOff =>
    intro t
    show (threeByteRun t).ctrl.getLsbD 5 = false
    rw [hctrl]
    decide
  case silent =>
    intro t ht
    obtain rfl : t = 0 := by omega
    rfl
  case enabled => decide +kernel
  case ctrl =>
    intro t _
    exact (hctrl t).trans (hctrl 1).symm
  case baud =>
    intro t ht
    exact (hbaud t ht).trans (hbaud 1 (Nat.le_refl 1)).symm
  case two_le_baud => decide +kernel
  case txFits =>
    intro t
    rcases Nat.le_total t 100 with hle | hge
    · exact (threeByte_first t hle).2.2.1
    · have hempty := Ring.count_eq_zero.mpr (threeByte_later t hge).2.2.2.empty
      show (threeByteRun t).txFifo.count ≤ 8
      omega
  case rxFits =>
    intro t hp
    rcases Nat.le_total t 100 with hle | hge
    · exact (threeByte_first t hle).2.2.2
    · have hb := (threeByte_later t hge).2.2.2.rxIdle
      replace hp : (threeByteRun t).rxPush.isSome := hp
      simp [rxPush, hb] at hp

theorem loopback_lossless_threeBytes :
    (∀ t, trace (received (fun _ ↦ 0) (fun _ ↦ 0) threeByteBus) t <+:
      trace (pushed (fun _ ↦ 0) (fun _ ↦ 0) threeByteBus) t) ∧
    trace (received (fun _ ↦ 0) (fun _ ↦ 0) threeByteBus) 100 = [0x41#8, 0x42#8, 0x43#8] ∧
    (threeByteRun 100).rxFifo.contents = [0x42#8, 0x43#8] :=
  ⟨(loopback_lossless _ _ _ _ threeByte_use).1, by decide +kernel, by decide +kernel⟩

end Uart

end QarCore
