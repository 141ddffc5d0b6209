import QarCore.Clocked.BoundedQueue
import QarCore.Periph.Uart

/-!
# CAN controller

The registers of `qar_can`, one clock edge of it, and its receive path as a bounded queue of frames.
The fill level is a 3-bit wire here, so the full test holds for every position of the pointers.
-/

namespace QarCore

open Clocked (Ring QueueOp run)

/-- A slot of the RX FIFO. -/
@[ext] structure Frame where
  id : Word
  dlc : Word
  data0 : Word
  data1 : Word
  deriving DecidableEq

structure Can where
  ctrl : Word
  status : Word
  bittime : Word
  errCounter : Word
  irqEn : Word
  irqStatus : Word
  filterId : Word
  filterMask : Word
  txId : Word
  txDlc : Word
  txData0 : Word
  txData1 : Word
  rxFifo : Ring 2 Frame

namespace Can

variable {s n : Can} {b : BusAccess 6} {f : Frame}

/-! ## Wires -/

def ctrlEnable (s : Can) : Bool := s.ctrl.getLsbD 0
def ctrlLoopback (s : Can) : Bool := s.ctrl.getLsbD 1
def ctrlQuiet (s : Can) : Bool := s.ctrl.getLsbD 2
def ctrlFilterByp (s : Can) : Bool := s.ctrl.getLsbD 3

def rxEntries (s : Can) : BitVec 3 := s.rxFifo.head - s.rxFifo.tail

def irq (s : Can) : Bool := s.irqEn &&& s.irqStatus != 0#32

/-- The frame in the TX registers. -/
def txFrame (s : Can) : Frame := ⟨s.txId, s.txDlc, s.txData0, s.txData1⟩

/-- The acceptance filter lets the frame in the TX registers through. -/
def filterMatch (s : Can) : Bool :=
  s.ctrlFilterByp || s.txId &&& s.filterMask == s.filterId &&& s.filterMask

/-! ## Register writes -/

/-- A frame that the filter lets through is stored, or counted as lost. -/
def receive (s : Can) (n : Can) : Can :=
  if s.rxEntries < 4#3 then
    { n with rxFifo := n.rxFifo.pushAt s.rxFifo.head s.txFrame
             status := setBit n.status 0 true
             irqStatus := setBit n.irqStatus 0 true }
  else
    { n with errCounter := s.errCounter + 1
             status := setBit n.status 2 true
             irqStatus := setBit n.irqStatus 2 true }

/-- TX_CMD: every write sends, whatever its data. -/
def writeTxCmd (s : Can) (n : Can) : Can :=
  if s.ctrlEnable then
    let n := { n with status := setBit n.status 1 false }
    let n := if s.ctrlLoopback && !s.ctrlQuiet && s.filterMatch then receive s n else n
    { n with status := setBit n.status 1 true, irqStatus := setBit n.irqStatus 1 true }
  else n

def writeIrqStatus (s : Can) (wdata : Word) (n : Can) : Can :=
  let n := { n with irqStatus := s.irqStatus &&& ~~~wdata }
  let n := if wdata.getLsbD 0 then { n with status := setBit n.status 0 false } else n
  if wdata.getLsbD 1 then { n with status := setBit n.status 1 true } else n

/-- RX_FIFO_CTRL: bit 1 flushes, otherwise bit 0 pops; bit 2 clears the overflow flags. -/
def writeRxFifoCtrl (s : Can) (wdata : Word) (n : Can) : Can :=
  let n :=
    if wdata.getLsbD 1 then
      { n with rxFifo := { n.rxFifo with tail := s.rxFifo.head }, status := setBit n.status 0 false }
    else if wdata.getLsbD 0 && s.rxEntries != 0#3 then
      { n with rxFifo := n.rxFifo.popAt s.rxFifo.tail
               status := if s.rxEntries = 1#3 then setBit n.status 0 false else n.status }
    else n
  if wdata.getLsbD 2 then
    { n with status := setBit n.status 2 false, irqStatus := setBit n.irqStatus 2 false }
  else n

def busWrite (s : Can) (b : BusAccess 6) (n : Can) : Can :=
  if b.write then
    if b.addrWord = 0x0#6 then { n with ctrl := b.wdata }
    else if b.addrWord = 0x2#6 then { n with bittime := b.wdata }
    else if b.addrWord = 0x3#6 then { n with errCounter := b.wdata }
    else if b.addrWord = 0x4#6 then { n with irqEn := b.wdata }
    else if b.addrWord = 0x5#6 then writeIrqStatus s b.wdata n
    else if b.addrWord = 0x6#6 then { n with filterId := b.wdata }
    else if b.addrWord = 0x7#6 then { n with filterMask := b.wdata }
    else if b.addrWord = 0x8#6 then { n with txId := b.wdata }
    else if b.addrWord = 0x9#6 then { n with txDlc := b.wdata }
    else if b.addrWord = 0xA#6 then { n with txData0 := b.wdata }
    else if b.addrWord = 0xB#6 then { n with txData1 := b.wdata }
    else if b.addrWord = 0xC#6 then writeTxCmd s n
    else if b.addrWord = 0x11#6 then writeRxFifoCtrl s b.wdata n
    else n
  else n

def posedge (s : Can) (b : BusAccess 6) : Can := busWrite s b s

/-- The state a reset leaves; the FIFO memory keeps what it held. -/
def reset (rxMem : BitVec 2 → Frame) : Can where
  ctrl := 1
  status := 2
  bittime := 0x13
  errCounter := 0
  irqEn := 0
  irqStatus := 0
  filterId := 0
  filterMask := 0
  txId := 0
  txDlc := 0
  txData0 := 0
  txData1 := 0
  rxFifo := ⟨0, 0, rxMem⟩

/-- `rdata` -/
def readData (s : Can) (b : BusAccess 6) : Word :=
  if b.read then
    if b.addrWord = 0x0#6 then s.ctrl
    else if b.addrWord = 0x1#6 then s.status
    else if b.addrWord = 0x2#6 then s.bittime
    else if b.addrWord = 0x3#6 then s.errCounter
    else if b.addrWord = 0x4#6 then s.irqEn
    else if b.addrWord = 0x5#6 then s.irqStatus
    else if b.addrWord = 0x6#6 then s.filterId
    else if b.addrWord = 0x7#6 then s.filterMask
    else if b.addrWord = 0x8#6 then s.txId
    else if b.addrWord = 0x9#6 then s.txDlc
    else if b.addrWord = 0xA#6 then s.txData0
    else if b.addrWord = 0xB#6 then s.txData1
    else if b.addrWord = 0xD#6 then s.rxFifo.front.id
    else if b.addrWord = 0xE#6 then s.rxFifo.front.dlc
    else if b.addrWord = 0xF#6 then s.rxFifo.front.data0
    else if b.addrWord = 0x10#6 then s.rxFifo.front.data1
    else if b.addrWord = 0x11#6 then
      0#28 ++ BitVec.ofBool (s.status.getLsbD 2) ++ 0#1 ++ s.rxEntries |>.setWidth 32
    else 0#32
  else 0#32

/-! ## The receive path -/

/-- What a read of the register at word address `a` returns. -/
def reads (s : Can) (a : BitVec 6) : Word := s.readData ⟨false, true, a, 0⟩

/-- The frame in the head registers. -/
def headFrame (s : Can) : Frame := ⟨s.reads 0xD, s.reads 0xE, s.reads 0xF, s.reads 0x10⟩

/-- A frame sent now reaches the receive path. -/
def receives (s : Can) : Bool :=
  s.ctrlEnable && s.ctrlLoopback && !s.ctrlQuiet && s.filterMatch

/-- The frame that a TX_CMD write sends into the receive path. -/
def sent (s : Can) (b : BusAccess 6) : Option Frame :=
  if b.write && b.addrWord == 0xC#6 && s.receives then some s.txFrame else none

def flushes (b : BusAccess 6) : Bool := b.write && b.addrWord == 0x11#6 && b.wdata.getLsbD 1

def pops (b : BusAccess 6) : Bool :=
  b.write && b.addrWord == 0x11#6 && !b.wdata.getLsbD 1 && b.wdata.getLsbD 0

/-- What a bus access does to the pending frames. -/
def queueOp (s : Can) (b : BusAccess 6) : QueueOp Frame :=
  match sent s b with
  | some f => .push f
  | none => if flushes b then .flush else if pops b then .pop else .idle

theorem rxEntries_lt_four : s.rxEntries < 4#3 ↔ s.rxFifo.count < 4 := BitVec.lt_def

theorem rxEntries_eq_zero : s.rxEntries = 0#3 ↔ s.rxFifo.count = 0 := by
  rw [← BitVec.toNat_inj]
  rfl

theorem receive_rxFifo (hn : n.rxFifo = s.rxFifo) :
    (receive s n).rxFifo = s.rxFifo.exec (.push s.txFrame) := by
  show (if s.rxEntries < 4#3 then _ else _ : Can).rxFifo = if s.rxFifo.count < 4 then _ else _
  by_cases h : s.rxFifo.count < 4
  · rw [if_pos (rxEntries_lt_four.mpr h), if_pos h]
    exact congrArg (·.pushAt s.rxFifo.head s.txFrame) hn
  · rw [if_neg (mt rxEntries_lt_four.mp h), if_neg h]
    exact hn

theorem writeTxCmd_rxFifo : (writeTxCmd s s).rxFifo =
    if s.receives then s.rxFifo.exec (.push s.txFrame) else s.rxFifo := by
  unfold writeTxCmd receives
  by_cases he : s.ctrlEnable
  · simp only [he, Bool.true_and, ↓reduceIte]
    split
    next h => exact receive_rxFifo rfl
    next => rfl
  · simp only [he, Bool.false_and, Bool.false_eq_true, ↓reduceIte]

theorem writeRxFifoCtrl_rxFifo (wdata : Word) : (writeRxFifoCtrl s wdata s).rxFifo =
    if wdata.getLsbD 1 then s.rxFifo.exec .flush
    else if wdata.getLsbD 0 then s.rxFifo.exec .pop
    else s.rxFifo := by
  simp only [writeRxFifoCtrl, apply_ite Can.rxFifo, ite_self, Ring.exec]
  by_cases h1 : wdata.getLsbD 1
  · rw [if_pos h1, if_pos h1]
  · rw [if_neg h1, if_neg h1]
    by_cases h0 : wdata.getLsbD 0
    · -- a pop tests for an empty FIFO by the fill level
      simp only [h0, Bool.true_and, bne_iff_ne, ne_eq, rxEntries_eq_zero, ite_not, ↓reduceIte]
    · simp only [h0, Bool.false_and, Bool.false_eq_true, ↓reduceIte]

-- The FIFO changes by the one operation of the access.
theorem posedge_rxFifo : (posedge s b).rxFifo = s.rxFifo.exec (queueOp s b) := by
  unfold posedge busWrite queueOp
  by_cases hw : b.write
  · by_cases hc : b.addrWord = 0xC#6
    · simp only [hw, hc, sent, flushes, pops, Bool.true_and, beq_self_eq_true, ↓reduceIte,
        BitVec.reduceEq, writeTxCmd_rxFifo]
      cases s.receives <;> rfl
    · by_cases ha : b.addrWord = 0x11#6
      · simp only [hw, ha, sent, flushes, pops, Bool.true_and, beq_self_eq_true, ↓reduceIte,
          BitVec.reduceEq, writeRxFifoCtrl_rxFifo]
        cases b.wdata.getLsbD 1 <;> cases b.wdata.getLsbD 0 <;> rfl
      · simp [hw, hc, ha, sent, flushes, pops, Ring.exec, writeIrqStatus, apply_ite Can.rxFifo]
  · simp [hw, sent, flushes, pops, Ring.exec]

/-! ## Runs -/

/-- The controller after `t` accesses. -/
def after (mem : BitVec 2 → Frame) (inp : Nat → BusAccess 6) (t : Nat) : Can :=
  run posedge (reset mem) inp t

/-- The pending frames. -/
def pending (s : Can) : List Frame := s.rxFifo.contents

/-- The frame an access adds to the pending ones. -/
def stored (s : Can) (b : BusAccess 6) : List Frame :=
  if s.pending.length < 4 then (sent s b).toList else []

/-- The frames an access removes: the one in the head registers, or all of them. -/
def removed (s : Can) (b : BusAccess 6) : List Frame :=
  if flushes b then s.pending
  else if pops b ∧ s.pending ≠ [] then [s.headFrame] else []

/-- What is expected of the receive path after the first `t` accesses of a run. -/
structure RxQueueAt (mem : BitVec 2 → Frame) (inp : Nat → BusAccess 6) (t : Nat) : Prop where
  /-- The frames stored are the frames removed, followed by the pending ones. -/
  order : ((List.range t).flatMap fun u ↦ stored (after mem inp u) (inp u)) =
    ((List.range t).flatMap fun u ↦ removed (after mem inp u) (inp u)) ++ (after mem inp t).pending
  head : ∀ f rest, (after mem inp t).pending = f :: rest → (after mem inp t).headFrame = f
  level : ((after mem inp t).reads 0x11).toNat % 8 = (after mem inp t).pending.length
  level_le : (after mem inp t).pending.length ≤ 4
  /-- A frame that finds four pending ones is counted and reported, and leaves them as they are. -/
  dropped : (sent (after mem inp t) (inp t)).isSome → (after mem inp t).pending.length = 4 →
    (after mem inp (t + 1)).errCounter = (after mem inp t).errCounter + 1 ∧
      (after mem inp (t + 1)).status.getLsbD 2 ∧ (after mem inp (t + 1)).irqStatus.getLsbD 2 ∧
      (after mem inp (t + 1)).pending = (after mem inp t).pending
  flushed : flushes (inp t) → (after mem inp (t + 1)).pending = []
  /-- A pop of nothing changes nothing, but for the overflow flags it may be told to clear. -/
  popsNothing : pops (inp t) → (after mem inp t).pending = [] → after mem inp (t + 1) =
    if (inp t).wdata.getLsbD 2 then
      { after mem inp t with
        status := setBit (after mem inp t).status 2 false
        irqStatus := setBit (after mem inp t).irqStatus 2 false }
    else after mem inp t

section

variable {mem : BitVec 2 → Frame} {inp : Nat → BusAccess 6} {t : Nat}

theorem headFrame_eq : s.headFrame = s.rxFifo.front := rfl

theorem headFrame_of_pending {rest : List Frame} (h : s.pending = f :: rest) : s.headFrame = f :=
  headFrame_eq.trans (Ring.contents_head h)

-- The two descriptions of what an access adds and removes agree.
theorem stored_eq : stored s b = (queueOp s b).accepted 4 s.pending := by
  unfold stored queueOp
  cases hs : sent s b with
  | some f => rfl
  | none =>
    by_cases hf : flushes b <;> by_cases hp : pops b <;> simp [hf, hp, QueueOp.accepted]

theorem removed_eq : removed s b = (queueOp s b).removed s.pending := by
  unfold removed queueOp
  cases hs : sent s b with
  | some f =>
    -- a write to TX_CMD
    have haddr : b.addrWord = 0xC#6 := by
      unfold sent at hs
      split at hs
      next hc =>
        simp only [Bool.and_eq_true, beq_iff_eq] at hc
        exact hc.1.2
      next => cases hs
    simp [flushes, pops, haddr, QueueOp.removed]
  | none =>
    by_cases hf : flushes b
    · simp [hf, QueueOp.removed]
    · by_cases hp : pops b
      · simp only [hf, hp, true_and, Bool.false_eq_true, ↓reduceIte, QueueOp.removed]
        cases hq : s.pending with
        | nil => rfl
        | cons f rest => rw [if_pos (List.cons_ne_nil f rest), headFrame_of_pending hq]; rfl
      · simp [hf, hp, QueueOp.removed]

-- The pending frames of a run are the abstract queue.
theorem pending_after (t : Nat) : (after mem inp t).pending =
    QueueOp.contents 4 (fun u ↦ queueOp (after mem inp u) (inp u)) t :=
  Ring.contents_eq_of_exec (fun u ↦ (after mem inp u).rxFifo) rfl (fun _ ↦ posedge_rxFifo) t

theorem pending_length : s.pending.length = s.rxFifo.count := Ring.contents_length

theorem posedge_of_dropped (hs : (sent s b).isSome) (hfull : s.pending.length = 4) :
    (posedge s b).errCounter = s.errCounter + 1 ∧ (posedge s b).status.getLsbD 2 ∧
      (posedge s b).irqStatus.getLsbD 2 ∧ (posedge s b).pending = s.pending := by
  have hcount : ¬ s.rxFifo.count < 4 := by
    rw [← pending_length]
    omega
  unfold sent at hs
  split at hs
  next hc =>
    simp only [Bool.and_eq_true, beq_iff_eq, receives] at hc
    obtain ⟨⟨hw, ha⟩, ⟨⟨he, hl⟩, hq⟩, hf⟩ := hc
    have hstep : posedge s b = writeTxCmd s s := by simp [posedge, busWrite, hw, ha]
    have hdrop (n : Can) : receive s n =
        { n with errCounter := s.errCounter + 1
                 status := setBit n.status 2 true
                 irqStatus := setBit n.irqStatus 2 true } :=
      if_neg (mt rxEntries_lt_four.mp hcount)
    rw [hstep, writeTxCmd]
    simp only [he, hl, hq, hf, Bool.and_self, ↓reduceIte, hdrop]
    refine ⟨trivial, ?_, ?_, rfl⟩
    · simp [getLsbD_setBit, -BitVec.getLsbD_eq_getElem]
    · simp [getLsbD_setBit, -BitVec.getLsbD_eq_getElem]
  next => cases hs

theorem posedge_of_flushes (h : flushes b) : (posedge s b).pending = [] := by
  have hop : queueOp s b = .flush := by
    have haddr : sent s b = none := by
      simp only [flushes, Bool.and_eq_true, beq_iff_eq] at h
      simp [sent, h.1.2]
    simp [queueOp, haddr, h]
  show (posedge s b).rxFifo.contents = []
  rw [posedge_rxFifo, hop, Ring.contents_exec]
  rfl

theorem posedge_of_pops_nothing (h : pops b) (hq : s.pending = []) : posedge s b =
    if b.wdata.getLsbD 2 then
      { s with status := setBit s.status 2 false, irqStatus := setBit s.irqStatus 2 false }
    else s := by
  simp only [pops, Bool.and_eq_true, beq_iff_eq, Bool.not_eq_true'] at h
  obtain ⟨⟨⟨hw, ha⟩, h1⟩, h0⟩ := h
  have hz : s.rxEntries = 0#3 := by
    rw [rxEntries_eq_zero, ← pending_length, hq]
    rfl
  have hstep : posedge s b = writeRxFifoCtrl s b.wdata s := by simp [posedge, busWrite, hw, ha]
  rw [hstep, writeRxFifoCtrl]
  simp only [h1, h0, hz, Bool.false_eq_true, ↓reduceIte, bne_self_eq_false, Bool.and_false]

-- The low bits of RX_FIFO_CTRL are the fill level.
theorem reads_level : (s.reads 0x11).toNat % 8 = s.pending.length := by
  have hbits : (s.reads 0x11).setWidth 3 = s.rxEntries := by
    apply BitVec.eq_of_getLsbD_eq
    intro i hi
    show (((0#28 ++ BitVec.ofBool (s.status.getLsbD 2) ++ 0#1 ++ s.rxEntries).setWidth 32).setWidth
      3).getLsbD i = s.rxEntries.getLsbD i
    rw [BitVec.getLsbD_setWidth, BitVec.getLsbD_setWidth, BitVec.getLsbD_append, if_pos hi]
    simp only [hi, show i < 32 by omega, decide_true, Bool.true_and]
  rw [pending_length]
  show (s.reads 0x11).toNat % 2 ^ 3 = s.rxEntries.toNat
  rw [← hbits, BitVec.toNat_setWidth]

/-- The receive path is a queue of four frames behind a filter, in every run. -/
theorem rxQueueAt (mem : BitVec 2 → Frame) (inp : Nat → BusAccess 6) (t : Nat) :
    RxQueueAt mem inp t where
  order := by
    have h := QueueOp.entered_eq_left_append 4 (fun u ↦ queueOp (after mem inp u) (inp u)) t
    simp only [← pending_after, ← stored_eq, ← removed_eq] at h
    exact h
  head _ _ h := headFrame_of_pending h
  level := reads_level
  level_le := by
    rw [pending_after]
    exact QueueOp.contents_length_le 4 _ t
  dropped := posedge_of_dropped
  flushed := posedge_of_flushes
  popsNothing := posedge_of_pops_nothing

end

end Can

end QarCore
