import QarCore.Periph.SpiLoopback

/-!
# The SPI master in internal loopback

With the internal loopback the bytes under way, whether they are queued, in transfer or received, are one
queue: what is written goes in at its end, and what is read comes from its front.
-/

namespace QarCore

open Clocked (Ring)

namespace Spi

variable {s : Spi} {i : Inputs}

/-- The bytes under way, the one that is read next in front. -/
def pipe (s : Spi) : List Byte := s.rxFifo.contents ++ s.inTransfer ++ s.txFifo.contents

theorem posedge_ctrl :
    (posedge s i).ctrl = if i.bus.write && i.bus.addrWord == 0x0#6 then i.bus.wdata else s.ctrl := by
  simp only [posedge, shiftBits, finishByte, startTransfer, busRead, busWrite, writeData, writeIrqStatus,
    apply_ite Spi.ctrl, ite_self]
  by_cases hw : i.bus.write <;> by_cases ha : i.bus.addrWord = 0x0#6 <;> simp [hw, ha]

theorem posedge_csSelect : (posedge s i).csSelect =
    if i.bus.write && i.bus.addrWord == 0x5#6 then i.bus.wdata else s.csSelect := by
  simp only [posedge, shiftBits, finishByte, startTransfer, busRead, busWrite, writeData, writeIrqStatus,
    apply_ite Spi.csSelect, ite_self]
  by_cases hw : i.bus.write <;> by_cases ha : i.bus.addrWord = 0x5#6 <;> simp [hw, ha]

/-- The master loops back, and has room for what is under way. -/
structure Loops (s : Spi) : Prop where
  enabled : s.ctrlEnable
  loopback : s.ctrlLoopback
  selected : s.csSelect.extractLsb' 0 4 ≠ 0#4
  fits : s.pipe.length ≤ 4

theorem txPush_accepted (hroom : (txPush i.bus).isSome → s.pipe.length < 4) :
    (if s.txFifo.wideFull then none else txPush i.bus) = txPush i.bus := by
  cases hp : txPush i.bus with
  | none => exact ite_self _
  | some b =>
    have hlt := hroom (by rw [hp]; rfl)
    rw [pipe, List.length_append, List.length_append, Ring.contents_length, Ring.contents_length] at hlt
    have hfull : s.txFifo.wideFull = false := by
      rw [← Bool.not_eq_true, Ring.wideFull_iff (by decide)]
      omega
    rw [hfull, if_neg Bool.false_ne_true]

theorem tx_next (hroom : (txPush i.bus).isSome → s.pipe.length < 4) : (posedge s i).txFifo.contents =
    (if s.takesTxByte then s.txFifo.contents.tail else s.txFifo.contents) ++ (txPush i.bus).toList := by
  rw [posedge_txFifo, txPush_accepted hroom, Ring.contents_next]
  · intro hsome
    have hlt := hroom hsome
    rw [pipe, List.length_append, List.length_append, Ring.contents_length, Ring.contents_length] at hlt
    omega
  · intro htake
    rw [takesTxByte_eq, Bool.and_eq_true, Bool.not_eq_true'] at htake
    rw [Nat.pos_iff_ne_zero, Ne, Ring.count_eq_zero, htake.2]
    exact Bool.false_ne_true

namespace Loops

variable (h : s.Loops)

include h

theorem counts_le : s.rxFifo.count + s.inTransfer.length + s.txFifo.count ≤ 4 := by
  have hfits := h.fits
  rwa [pipe, List.length_append, List.length_append, Ring.contents_length, Ring.contents_length] at hfits

theorem rx_room (hlast : s.samplesLastBit) : s.rxFifo.count < 4 := by
  have hle := h.counts_le
  rw [inTransfer, if_pos (busy_of_last hlast), List.length_singleton] at hle
  omega

theorem rxPush_eq : (if s.rxFifo.wideFull then none else rxPush s i.miso) =
    if s.samplesLastBit then some s.activeTxByte else none := by
  unfold rxPush receivedByte
  rw [if_pos h.loopback]
  by_cases hlast : s.samplesLastBit
  · have hroom := h.rx_room hlast
    have hfull : s.rxFifo.wideFull = false := by
      rw [← Bool.not_eq_true, Ring.wideFull_iff (by decide)]
      omega
    rw [hfull, if_neg Bool.false_ne_true]
  · rw [if_neg hlast, ite_self]

theorem rx_next : (posedge s i).rxFifo.contents =
    (if rxPop i.bus && !s.rxFifo.empty then s.rxFifo.contents.tail else s.rxFifo.contents) ++
      (if s.samplesLastBit then [s.activeTxByte] else []) := by
  rw [posedge_rxFifo, h.rxPush_eq, Ring.contents_next]
  · by_cases hlast : s.samplesLastBit
    · rw [if_pos hlast, if_pos hlast]
      rfl
    · rw [if_neg hlast, if_neg hlast]
      rfl
  · intro hsome
    by_cases hlast : s.samplesLastBit
    · exact h.rx_room hlast
    · rw [if_neg hlast] at hsome
      cases hsome
  · intro hpop
    rw [Bool.and_eq_true, Bool.not_eq_true'] at hpop
    rw [Nat.pos_iff_ne_zero, Ne, Ring.count_eq_zero, hpop.2]
    exact Bool.false_ne_true

-- The bytes under way are a queue: a read takes the first one, if it has arrived, and a write adds one.
theorem pipe_next (hroom : (txPush i.bus).isSome → s.pipe.length < 4) : (posedge s i).pipe =
    (if rxPop i.bus && !s.rxFifo.empty then s.pipe.tail else s.pipe) ++ (txPush i.bus).toList := by
  have htail (hpop : rxPop i.bus && !s.rxFifo.empty) : s.rxFifo.contents ≠ [] := by
    rw [Bool.and_eq_true, Bool.not_eq_true'] at hpop
    rw [← List.length_pos_iff, Ring.contents_length, Nat.pos_iff_ne_zero, Ne, Ring.count_eq_zero, hpop.2]
    exact Bool.false_ne_true
  have hmove : (if s.samplesLastBit then [s.activeTxByte] else []) ++ ((posedge s i).inTransfer ++
      if s.takesTxByte then s.txFifo.contents.tail else s.txFifo.contents) =
      s.inTransfer ++ s.txFifo.contents := by
    rw [inTransfer, inTransfer, posedge_busy, posedge_activeTxByte]
    by_cases htake : s.takesTxByte
    · have hb := not_busy_of_takes htake
      have hlast : s.samplesLastBit = false := by simp [samplesLastBit, hb]
      have hpos : 0 < s.txFifo.count := by
        rw [takesTxByte_eq, Bool.and_eq_true, Bool.not_eq_true'] at htake
        rw [Nat.pos_iff_ne_zero, Ne, Ring.count_eq_zero, htake.2]
        exact Bool.false_ne_true
      simp [htake, hb, hlast, Ring.contents_popAt hpos]
    · by_cases hlast : s.samplesLastBit
      · simp [htake, hlast, busy_of_last hlast]
      · simp [htake, hlast]
  rw [pipe, h.rx_next, tx_next hroom, pipe, List.append_assoc, List.append_assoc,
    ← List.append_assoc _ _ (txPush i.bus).toList, ← List.append_assoc _ _ (txPush i.bus).toList, hmove]
  by_cases hpop : rxPop i.bus && !s.rxFifo.empty
  · rw [if_pos hpop, if_pos hpop, List.append_assoc s.rxFifo.contents, List.tail_append_of_ne_nil (htail hpop)]
    simp only [List.append_assoc]
  · rw [if_neg hpop, if_neg hpop]
    simp only [List.append_assoc]

/-! ## Steady operation -/

-- Only a write to CTRL or CS_SELECT can end the operation.
theorem next (hctrl : (posedge s i).ctrl = s.ctrl) (hcs : (posedge s i).csSelect = s.csSelect)
    (hroom : (txPush i.bus).isSome → s.pipe.length < 4) : (posedge s i).Loops where
  enabled := (congrArg (·.getLsbD 0) hctrl).trans h.enabled
  loopback := (congrArg (·.getLsbD 4) hctrl).trans h.loopback
  selected := hcs ▸ h.selected
  fits := by
    have hle : (if rxPop i.bus && !s.rxFifo.empty then s.pipe.tail else s.pipe).length ≤ s.pipe.length := by
      split
      · rw [List.length_tail]
        omega
      · exact le_rfl
    rw [h.pipe_next hroom, List.length_append]
    cases hp : txPush i.bus with
    | none =>
      have hfits := h.fits
      rw [Option.toList_none, List.length_nil]
      omega
    | some b =>
      have hlt := hroom (by rw [hp]; rfl)
      rw [Option.toList_some, List.length_singleton]
      omega

-- Without a write and without a read of RXDATA the same bytes are under way.
theorem quiet (hw : i.bus.write = false) (hpop : rxPop i.bus = false) :
    (posedge s i).Loops ∧ (posedge s i).pipe = s.pipe := by
  have hpush : txPush i.bus = none := by simp [txPush, hw]
  have hroom : (txPush i.bus).isSome → s.pipe.length < 4 := by
    rw [hpush]
    exact fun h ↦ absurd h Bool.false_ne_true
  refine ⟨h.next ?_ ?_ hroom, ?_⟩
  · rw [posedge_ctrl, hw]
    rfl
  · rw [posedge_csSelect, hw]
    rfl
  · rw [h.pipe_next hroom, hpop, hpush]
    simp

-- A byte written to TXDATA goes in at the end.
theorem push {w : Word} (hbus : i.bus = ⟨true, false, 0x3, w⟩) (hroom : s.pipe.length < 4) :
    (posedge s i).Loops ∧ (posedge s i).pipe = s.pipe ++ [w.setWidth 8] := by
  have hpush : txPush i.bus = some (w.setWidth 8) := by rw [hbus]; rfl
  refine ⟨h.next ?_ ?_ fun _ ↦ hroom, ?_⟩
  · rw [posedge_ctrl, hbus]
    rfl
  · rw [posedge_csSelect, hbus]
    rfl
  · rw [h.pipe_next fun _ ↦ hroom, hpush, hbus]
    rfl

-- A read of RXDATA takes the first byte that has arrived.
theorem pop (hbus : i.bus = ⟨false, true, 0x4, 0⟩) (hrx : s.rxFifo.empty = false) :
    (posedge s i).Loops ∧ (posedge s i).pipe = s.pipe.tail := by
  have hpush : txPush i.bus = none := by rw [hbus]; rfl
  have hroom : (txPush i.bus).isSome → s.pipe.length < 4 := by
    rw [hpush]
    exact fun h ↦ absurd h Bool.false_ne_true
  refine ⟨h.next ?_ ?_ hroom, ?_⟩
  · rw [posedge_ctrl, hbus]
    rfl
  · rw [posedge_csSelect, hbus]
    rfl
  · rw [h.pipe_next hroom, hpush, hrx, hbus]
    simp [rxPop]

theorem arrived (hpop : rxPop i.bus = false) (hrx : s.rxFifo.empty = false) :
    (posedge s i).rxFifo.empty = false := by
  have hnext := h.rx_next (i := i)
  rw [hpop, Bool.false_and, if_neg Bool.false_ne_true] at hnext
  rw [← Bool.not_eq_true, ← Ring.count_eq_zero, ← Ring.contents_length] at hrx ⊢
  rw [hnext, List.length_append]
  omega

-- As long as something is under way and nothing has arrived, every cycle brings the arrival closer.
theorem falls (hne : s.pipe ≠ []) (hempty : s.rxFifo.empty) (hw : i.bus.write = false) :
    (posedge s i).rxFifo.empty = false ∨ rank (posedge s i) < rank s := by
  have hctrl : (posedge s i).ctrl = s.ctrl := by
    rw [posedge_ctrl, hw]
    rfl
  by_cases hb : s.busy
  · by_cases hlast : s.samplesLastBit
    · left
      have hrx := h.rx_next (i := i)
      rw [hempty, Bool.not_true, Bool.and_false, if_neg Bool.false_ne_true, if_pos hlast] at hrx
      rw [← Bool.not_eq_true, ← Ring.count_eq_zero, ← Ring.contents_length, hrx, List.length_append,
        List.length_singleton]
      omega
    · right
      exact rank_of_busy hb (by simpa using hlast) (congrArg (·.getLsbD 2) hctrl)
  · right
    have htx : s.txFifo.empty = false := by
      rw [← Bool.not_eq_true, ← Ring.count_eq_zero, ← Ring.contents_length]
      intro htx
      apply hne
      rw [pipe, inTransfer, if_neg hb, List.length_eq_zero_iff.mp htx, Ring.contents_eq_nil hempty]
      rfl
    exact rank_of_takes (by simp [takesTxByte, hb, h.enabled, htx, h.selected])

end Loops

/-! ## The master at rest -/

/-- Nothing is under way. -/
structure Quiet (s : Spi) : Prop where
  busy : s.busy = false
  tx : s.txFifo.empty
  rx : s.rxFifo.empty

-- Without a byte to send the master stays at rest.
theorem Quiet.next (h : s.Quiet) (hpush : txPush i.bus = none) : (posedge s i).Quiet := by
  have htake : s.takesTxByte = false := by simp [takesTxByte, h.tx]
  have hlast : s.samplesLastBit = false := by simp [samplesLastBit, h.busy]
  constructor
  · rw [posedge_busy, htake, h.busy]
    rfl
  · rw [posedge_txFifo, htake, hpush, ite_self]
    exact h.tx
  · rw [posedge_rxFifo, rxPush, hlast, if_neg Bool.false_ne_true, ite_self, h.rx, Bool.not_true, Bool.and_false]
    exact h.rx

theorem Quiet.pipe (h : s.Quiet) : s.pipe = [] := by
  rw [Spi.pipe, Ring.contents_eq_nil h.rx, Ring.contents_eq_nil h.tx, inTransfer, h.busy]
  rfl

end Spi

end QarCore
