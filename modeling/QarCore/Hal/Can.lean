import QarCore.Hal.Mmio
import QarCore.Periph.CanStatus

/-!
# CAN driver

The functions of `can.h` on the controller in loopback.  However many frames are sent and however the
accesses are spaced, the first four that the filter accepts are what firmware counts and drains, in order.
-/

namespace QarCore

namespace Hal

open Clocked (Driver Ends Polls)
open Rv32i (Access)

/-! ## Functions -/

def qarCan0Base : Word := 0x40003000#32

def qarCanCtrl : Word := 0x00#32
def qarCanBittime : Word := 0x08#32
def qarCanIrqEn : Word := 0x10#32
def qarCanIrqStatus : Word := 0x14#32
def qarCanFilterId : Word := 0x18#32
def qarCanFilterMask : Word := 0x1C#32
def qarCanTxId : Word := 0x20#32
def qarCanTxDlc : Word := 0x24#32
def qarCanTxData0 : Word := 0x28#32
def qarCanTxData1 : Word := 0x2C#32
def qarCanTxCmd : Word := 0x30#32
def qarCanRxId : Word := 0x34#32
def qarCanRxData0 : Word := 0x3C#32
def qarCanRxData1 : Word := 0x40#32
def qarCanRxFifo : Word := 0x44#32

def qarCanCtrlEnable : Word := 1#32 <<< 0
def qarCanCtrlLoopback : Word := 1#32 <<< 1
def qarCanCtrlListenOnly : Word := 1#32 <<< 2
def qarCanCtrlFilterBypass : Word := 1#32 <<< 3

def qarCanIrqRxReady : Word := 1#32 <<< 0
def qarCanIrqTxDone : Word := 1#32 <<< 1

def qarCanInit (base bittime ctrlFlags : Word) : Code Unit := do
  mmio32Write base qarCanBittime bittime
  mmio32Write base qarCanCtrl (ctrlFlags ||| qarCanCtrlEnable)

def qarCanSetCtrl (base ctrlFlags : Word) : Code Unit := mmio32Write base qarCanCtrl ctrlFlags

def qarCanEnableIrq (base mask : Word) : Code Unit := do
  mmio32Write base qarCanIrqStatus mask
  let en ← mmio32Read base qarCanIrqEn
  mmio32Write base qarCanIrqEn (en ||| mask)

def qarCanSendWord (base id data0 data1 : Word) (dlc : Byte) : Code Unit := do
  mmio32Write base qarCanTxId id
  mmio32Write base qarCanTxDlc (dlc.setWidth 32)
  mmio32Write base qarCanTxData0 data0
  mmio32Write base qarCanTxData1 data1
  mmio32Write base qarCanTxCmd 1#32

def qarCanRxCount (base : Word) : Code Word := do
  let v ← mmio32Read base qarCanRxFifo
  return v &&& 0x7#32

/-- The loop that reads the count until it is `n` at least. -/
def qarCanAwaitRx (base : Word) (n : Nat) : Code Word :=
  mmio32Await base qarCanRxFifo fun v ↦ n ≤ (v &&& 0x7#32).toNat

/-- With pointers that are all given. -/
def qarCanReadPayload (base : Word) : Code (Word × Word × Word) := do
  let id ← mmio32Read base qarCanRxId
  let data0 ← mmio32Read base qarCanRxData0
  let data1 ← mmio32Read base qarCanRxData1
  return (id, data0, data1)

def qarCanPopRx (base : Word) : Code Unit := mmio32Write base qarCanRxFifo 0x1#32

/-! The example. -/

/-- What firmware sends as one frame. -/
structure Message where
  id : Word
  data0 : Word
  data1 : Word
  dlc : Byte
  deriving DecidableEq

def Message.frame (m : Message) : Frame := ⟨m.id, m.dlc.setWidth 32, m.data0, m.data1⟩

/-- What firmware reads of a frame. -/
def payload (f : Frame) : Word × Word × Word := (f.id, f.data0, f.data1)

def sendFrame (m : Message) : Code Unit := qarCanSendWord qarCan0Base m.id m.data0 m.data1 m.dlc

def drainRx : Code (Word × Word × Word) := do
  let payload ← qarCanReadPayload qarCan0Base
  qarCanPopRx qarCan0Base
  return payload

/-- `main` up to its loop: the controller is set up. -/
def canSetUp (bittime ctrlFlags filterId filterMask irqMask : Word) : Code Unit := do
  qarCanInit qarCan0Base bittime ctrlFlags
  mmio32Write qarCan0Base qarCanFilterId filterId
  mmio32Write qarCan0Base qarCanFilterMask filterMask
  qarCanEnableIrq qarCan0Base irqMask

/-- Sends the messages, reads the count once and drains as many frames. -/
def canRound (ms : List Message) : Code (List (Word × Word × Word)) := do
  let _ ← Driver.collect sendFrame ms
  let n ← qarCanRxCount qarCan0Base
  Driver.collect (fun _ ↦ drainRx) (List.range n.toNat)

/-- The messages of the example: two that come back, and one in listen-only mode. -/
def firstMessage : Message := ⟨0x123, 0xDEADBEEF, 0, 4⟩
def secondMessage : Message := ⟨0x321, 0xCAFEBABE, 0x01020304, 8⟩
def quietMessage : Message := ⟨0x200, 0x11111111, 0, 4⟩

/-- `main` up to its idle loop, with the payloads that it drains. -/
def canLoopback : Code (List (Word × Word × Word)) := do
  let ctrlFlags := qarCanCtrlLoopback ||| qarCanCtrlFilterBypass
  canSetUp 0x13#32 ctrlFlags 0x123#32 0x7FF#32 (qarCanIrqRxReady ||| qarCanIrqTxDone)
  let _ ← Driver.collect sendFrame [firstMessage, secondMessage]
  let _ ← qarCanAwaitRx qarCan0Base 2
  let payloads ← Driver.collect (fun _ ↦ drainRx) (List.range 2)
  qarCanSetCtrl qarCan0Base (ctrlFlags ||| qarCanCtrlListenOnly)
  sendFrame quietMessage
  return payloads

/-! ## On the chip -/

variable {α : Type} {v : Devices} {o : Outside} {s : Can} {base : Word} {Q : α → Devices → Prop}

-- The controller has no pins, so it only moves with accesses.
theorem chip_can (acc : Option Access) :
    (chip.step v acc o).can0 = v.can0.posedge ((acc.elim .idle busOfAccess).busOf .can0) := rfl

theorem can_idle : (chip.step v none o).can0 = v.can0 := by
  rw [chip_can]
  change v.can0.posedge (PeriphStart.idle.busOf .can0) = _
  rw [PeriphStart.busOf_idle]
  rfl

theorem can_lasts : Clocked.Lasts chip anyOutside fun v ↦ v.can0 = s := fun _ _ _ hs ↦ can_idle.trans hs

-- A write is one edge of the controller.
theorem can_write_ends {offset value : Word} (h : windowOf (qarCan0Base + offset) = some .can0) :
    Ends chip anyOutside (fun v ↦ v.can0 = s) (mmio32Write qarCan0Base offset value)
      fun _ v ↦ v.can0 = s.posedge ⟨true, false, (qarCan0Base + offset).extractLsb' 2 6, value⟩ := by
  refine Ends.access can_lasts (fun v o _ hs ↦ ?_) (fun _ ↦ can_lasts) fun _ ↦ Ends.done fun _ h ↦ h
  rw [chip_can, ← hs]
  exact congrArg _ (busOf_store h)

-- A read gives the register and changes nothing.
theorem can_load {offset : Word} (h : windowOf (qarCan0Base + offset) = some .can0) :
    chip.answer v (.load (qarCan0Base + offset)) o = v.can0.reads ((qarCan0Base + offset).extractLsb' 2 6) ∧
      (chip.step v (some (.load (qarCan0Base + offset))) o).can0 = v.can0 := by
  have hbus : (busOfAccess (.load (qarCan0Base + offset))).busOf .can0 =
      (⟨false, true, (qarCan0Base + offset).extractLsb' 2 6, 0⟩ : BusAccess 6) := busOf_load h
  constructor
  · rw [chip_answer (show windowOf (Access.load (qarCan0Base + offset)).addr = some .can0 from h), Can.reads, ← hbus]
    rfl
  · rw [chip_can]
    change v.can0.posedge ((busOfAccess (.load (qarCan0Base + offset))).busOf .can0) = _
    rw [hbus]
    rfl

theorem can_read_ends {offset : Word} (h : windowOf (qarCan0Base + offset) = some .can0) :
    Ends chip anyOutside (fun v ↦ v.can0 = s) (mmio32Read qarCan0Base offset)
      fun d v ↦ d = s.reads ((qarCan0Base + offset).extractLsb' 2 6) ∧ v.can0 = s := by
  refine Ends.access can_lasts (M := fun d v ↦ d = s.reads ((qarCan0Base + offset).extractLsb' 2 6) ∧ v.can0 = s)
    (fun v o _ hs ↦ ?_) (fun _ _ _ _ hs ↦ ⟨hs.1, can_idle.trans hs.2⟩) fun _ ↦ Ends.done fun _ h ↦ h
  rw [(can_load h).1, (can_load h).2, hs]
  exact ⟨rfl, rfl⟩

-- What holds of the state of the controller may be used state by state.
theorem can_ends_of_state {R : Can → Prop} {c : Code α}
    (h : ∀ s, R s → Ends chip anyOutside (fun v ↦ v.can0 = s) c Q) :
    Ends chip anyOutside (fun v ↦ R v.can0) c Q :=
  (Ends.of_exists fun s ↦ Ends.of_fact (h s)).mono (fun v hv ↦ ⟨v.can0, hv, rfl⟩) fun _ _ hQ ↦ hQ

/-! ## Frames -/

/-- How the controller is set up. -/
structure CanConfig where
  ctrl : Word
  filterId : Word
  filterMask : Word

/-- The frame comes back: the controller loops back, and the filter lets it through. -/
def CanConfig.accepts (k : CanConfig) (f : Frame) : Bool :=
  k.ctrl.getLsbD 0 && k.ctrl.getLsbD 1 && !k.ctrl.getLsbD 2 &&
    (k.ctrl.getLsbD 3 || f.id &&& k.filterMask == k.filterId &&& k.filterMask)

/-- The controller is set up like this, and has the frames `q` pending. -/
structure CanHolds (k : CanConfig) (q : List Frame) (s : Can) : Prop where
  config : CanConfig.mk s.ctrl s.filterId s.filterMask = k
  pending : s.pending = q
  fits : q.length ≤ 4

variable {k : CanConfig} {q : List Frame}

/-- The controller once a message is in its TX registers. -/
def loadTx (s : Can) (m : Message) : Can :=
  { s with txId := m.id, txDlc := m.dlc.setWidth 32, txData0 := m.data0, txData1 := m.data1 }

/-- TX_CMD. -/
def txCmd : BusAccess 6 := ⟨true, false, 0xC, 1⟩

theorem sent_loadTx {m : Message} (h : CanHolds k q s) :
    Can.sent (loadTx s m) txCmd = if k.accepts m.frame then some m.frame else none := by
  rw [← h.config]
  rfl

/-- The pending frames after one more has been sent. -/
def CanConfig.store (k : CanConfig) (q : List Frame) (f : Frame) : List Frame :=
  if k.accepts f && q.length < 4 then q ++ [f] else q

theorem writeTxCmd_config (s n : Can) :
    CanConfig.mk (Can.writeTxCmd s n).ctrl (Can.writeTxCmd s n).filterId (Can.writeTxCmd s n).filterMask =
      ⟨n.ctrl, n.filterId, n.filterMask⟩ := by
  simp only [Can.writeTxCmd, Can.receive, apply_ite Can.ctrl, apply_ite Can.filterId, apply_ite Can.filterMask,
    ite_self]

theorem CanHolds.send (h : CanHolds k q s) (m : Message) :
    CanHolds k (k.store q m.frame) ((loadTx s m).posedge txCmd) := by
  have hop : Can.queueOp (loadTx s m) txCmd = if k.accepts m.frame then .push m.frame else .idle := by
    unfold Can.queueOp
    rw [sent_loadTx h]
    cases k.accepts m.frame <;> rfl
  have hpending : ((loadTx s m).posedge txCmd).pending = k.store q m.frame := by
    rw [Can.posedge_pending, hop, show (loadTx s m).pending = q from h.pending, CanConfig.store]
    cases k.accepts m.frame with
    | true => simp [Clocked.QueueOp.apply]
    | false => rfl
  refine ⟨?_, hpending, ?_⟩
  · rw [← h.config]
    exact writeTxCmd_config (loadTx s m) (loadTx s m)
  · have hfits := h.fits
    unfold CanConfig.store
    split
    next hroom =>
      rw [Bool.and_eq_true, decide_eq_true_eq] at hroom
      rw [List.length_append, List.length_singleton]
      omega
    next => exact hfits

theorem CanHolds.pop {f : Frame} (h : CanHolds k (f :: q) s) :
    CanHolds k q (s.posedge ⟨true, false, 0x11, 1⟩) := by
  refine ⟨?_, ?_, ?_⟩
  · rw [← h.config]
    simp only [Can.posedge, Can.busWrite, Can.writeRxFifoCtrl, apply_ite Can.ctrl, apply_ite Can.filterId,
      apply_ite Can.filterMask, ite_self]
    simp
  · rw [Can.posedge_pending, h.pending]
    rfl
  · have hfits := h.fits
    rw [List.length_cons] at hfits
    omega

theorem CanHolds.head {f : Frame} (h : CanHolds k (f :: q) s) : s.headFrame = f :=
  Can.headFrame_of_pending h.pending

-- The low bits of RX_FIFO_CTRL are the number of pending frames.
theorem CanHolds.count (h : CanHolds k q s) : (s.reads 0x11 &&& 0x7#32).toNat = q.length := by
  have hlevel := Can.reads_level (s := s)
  rw [h.pending] at hlevel
  rw [BitVec.toNat_and, ← hlevel]
  exact Nat.and_two_pow_sub_one_eq_mod _ 3

theorem CanHolds.idle (h : CanHolds k q v.can0) : CanHolds k q (chip.step v none o).can0 := by
  rw [can_idle]
  exact h

-- IRQ_STATUS does not touch the frames.
theorem CanHolds.clearIrq (h : CanHolds k q s) (w : Word) : CanHolds k q (s.posedge ⟨true, false, 0x5, w⟩) := by
  have hstep : s.posedge ⟨true, false, 0x5, w⟩ = Can.writeIrqStatus s w s := rfl
  rw [hstep]
  refine ⟨?_, ?_, h.fits⟩
  · rw [← h.config]
    simp only [Can.writeIrqStatus, apply_ite Can.ctrl, apply_ite Can.filterId, apply_ite Can.filterMask, ite_self]
  · rw [← h.pending]
    simp only [Can.writeIrqStatus, Can.pending, apply_ite Can.rxFifo, ite_self]

/-! ## Functions on the chip -/

-- A write that leaves the frames alone sets the controller up anew.
theorem can_config_ends {offset value : Word} {k' : CanConfig} (hwin : windowOf (qarCan0Base + offset) = some .can0)
    (hset : ∀ s, CanHolds k q s →
      CanHolds k' q (s.posedge ⟨true, false, (qarCan0Base + offset).extractLsb' 2 6, value⟩)) :
    Ends chip anyOutside (fun v ↦ CanHolds k q v.can0) (mmio32Write qarCan0Base offset value)
      fun _ v ↦ CanHolds k' q v.can0 := by
  refine can_ends_of_state fun s hs ↦ (can_write_ends hwin).mono (fun _ h ↦ h) fun _ v hv ↦ ?_
  rw [hv]
  exact hset s hs

theorem qarCanSetCtrl_ends (w : Word) : Ends chip anyOutside (fun v ↦ CanHolds k q v.can0)
    (qarCanSetCtrl qarCan0Base w) fun _ v ↦ CanHolds { k with ctrl := w } q v.can0 :=
  can_config_ends rfl fun _ h ↦ ⟨h.config ▸ rfl, h.pending, h.fits⟩

theorem can_filterId_ends (w : Word) : Ends chip anyOutside (fun v ↦ CanHolds k q v.can0)
    (mmio32Write qarCan0Base qarCanFilterId w) fun _ v ↦ CanHolds { k with filterId := w } q v.can0 :=
  can_config_ends rfl fun _ h ↦ ⟨h.config ▸ rfl, h.pending, h.fits⟩

theorem can_filterMask_ends (w : Word) : Ends chip anyOutside (fun v ↦ CanHolds k q v.can0)
    (mmio32Write qarCan0Base qarCanFilterMask w) fun _ v ↦ CanHolds { k with filterMask := w } q v.can0 :=
  can_config_ends rfl fun _ h ↦ ⟨h.config ▸ rfl, h.pending, h.fits⟩

theorem qarCanInit_ends (bittime flags : Word) : Ends chip anyOutside (fun v ↦ CanHolds k q v.can0)
    (qarCanInit qarCan0Base bittime flags)
      fun _ v ↦ CanHolds { k with ctrl := flags ||| qarCanCtrlEnable } q v.can0 :=
  Ends.bind (can_config_ends rfl fun _ h ↦ ⟨h.config, h.pending, h.fits⟩) fun _ ↦ qarCanSetCtrl_ends _

theorem qarCanEnableIrq_ends (mask : Word) : Ends chip anyOutside (fun v ↦ CanHolds k q v.can0)
    (qarCanEnableIrq qarCan0Base mask) fun _ v ↦ CanHolds k q v.can0 := by
  refine Ends.bind (can_config_ends rfl fun _ h ↦ h.clearIrq mask) fun _ ↦ Ends.bind ?_ fun en ↦
    can_config_ends rfl fun _ h ↦ ⟨h.config, h.pending, h.fits⟩
  refine can_ends_of_state fun s hs ↦ (can_read_ends rfl).mono (fun _ h ↦ h) fun _ v hv ↦ ?_
  rw [hv.2]
  exact hs

-- Frames that are pending are counted at once.
theorem can_rx_polls {n : Nat} (hn : n ≤ q.length) : Polls chip anyOutside (fun v ↦ CanHolds k q v.can0)
    (.load (qarCan0Base + qarCanRxFifo)) (fun d ↦ n ≤ (d &&& 0x7#32).toNat) (fun _ ↦ True) (fun _ ↦ 0) where
  answer v o _ h := by
    have hcount : (chip.answer v (.load (qarCan0Base + qarCanRxFifo)) o &&& 0x7#32).toNat = q.length := by
      rw [(can_load rfl).1]
      exact h.count
    rw [hcount, decide_eq_true_iff]
    exact iff_of_true hn trivial
  idle _ _ _ h := h.idle
  keeps _ _ _ _ _ := trivial
  idleFalls _ _ _ _ hno := absurd trivial hno
  miss _ _ _ _ hno := absurd trivial hno
  missFalls _ _ _ _ hno := absurd trivial hno

theorem qarCanAwaitRx_ends {n : Nat} (hn : n ≤ q.length) : Ends chip anyOutside (fun v ↦ CanHolds k q v.can0)
    (qarCanAwaitRx qarCan0Base n) fun _ v ↦ CanHolds k q v.can0 := by
  refine (can_rx_polls hn).ends (M := fun _ v ↦ CanHolds k q v.can0) (N := fun _ v ↦ CanHolds k q v.can0)
    (fun v o _ h _ ↦ ?_) (fun _ _ _ _ h ↦ h.idle) fun _ ↦ Ends.done fun _ h ↦ h
  rw [(can_load rfl).2]
  exact h

theorem sendFrame_ends (m : Message) : Ends chip anyOutside (fun v ↦ CanHolds k q v.can0) (sendFrame m)
    fun _ v ↦ CanHolds k (k.store q m.frame) v.can0 := by
  refine can_ends_of_state fun s hs ↦ ?_
  refine (Ends.bind (can_write_ends rfl) fun _ ↦ Ends.bind (can_write_ends rfl) fun _ ↦
    Ends.bind (can_write_ends rfl) fun _ ↦ Ends.bind (can_write_ends rfl) fun _ ↦ can_write_ends rfl).mono
      (fun _ h ↦ h) fun _ v hv ↦ ?_
  rw [hv]
  exact hs.send m

theorem drainRx_ends {f : Frame} : Ends chip anyOutside (fun v ↦ CanHolds k (f :: q) v.can0) drainRx
    fun r v ↦ r = payload f ∧ CanHolds k q v.can0 := by
  refine can_ends_of_state fun s hs ↦ ?_
  have hhead := hs.head
  have hread : Ends chip anyOutside (fun v ↦ v.can0 = s) (qarCanReadPayload qarCan0Base)
      fun r v ↦ r = payload f ∧ v.can0 = s := by
    refine Ends.bind (can_read_ends rfl) fun id ↦ Ends.of_fact fun hid ↦
      Ends.bind (can_read_ends rfl) fun d0 ↦ Ends.of_fact fun hd0 ↦
      Ends.bind (can_read_ends rfl) fun d1 ↦ Ends.of_fact fun hd1 ↦ Ends.done fun _ h ↦ ⟨?_, h⟩
    rw [hid, hd0, hd1, ← hhead]
    rfl
  refine Ends.bind hread fun r ↦ Ends.of_fact fun hr ↦ Ends.bind (can_write_ends rfl) fun _ ↦
    Ends.done fun v hv ↦ ⟨hr, ?_⟩
  rw [hv]
  exact hs.pop

theorem sends_end (ms : List Message) : Ends chip anyOutside (fun v ↦ CanHolds k q v.can0)
    (Driver.collect sendFrame ms) fun _ v ↦ CanHolds k ((ms.map Message.frame).foldl k.store q) v.can0 := by
  induction ms generalizing q with
  | nil => exact Ends.done fun _ h ↦ h
  | cons m ms ih => exact Ends.bind (sendFrame_ends m) fun _ ↦ Ends.bind ih fun _ ↦ Ends.done fun _ h ↦ h

theorem drains_end {n : List Nat} (hn : n.length = q.length) : Ends chip anyOutside
    (fun v ↦ CanHolds k q v.can0) (Driver.collect (fun _ ↦ drainRx) n)
      fun r v ↦ r = q.map payload ∧ CanHolds k [] v.can0 := by
  induction q generalizing n with
  | nil =>
    rw [List.length_eq_zero_iff.mp hn]
    exact Ends.done fun _ h ↦ ⟨rfl, h⟩
  | cons f q ih =>
    cases n with
    | nil => cases hn
    | cons i n =>
      refine Ends.bind drainRx_ends fun r ↦ Ends.of_fact fun hr ↦
        Ends.bind (ih (Nat.succ.inj hn)) fun rs ↦ Ends.of_fact fun hrs ↦ Ends.done fun _ h ↦ ⟨?_, h⟩
      rw [hr, hrs]
      rfl

-- What is stored is what the filter lets through, as far as there is room.
theorem foldl_store (q fs : List Frame) (hfits : q.length ≤ 4) :
    fs.foldl k.store q = (q ++ fs.filter k.accepts).take 4 := by
  induction fs generalizing q with
  | nil =>
    rw [List.filter_nil, List.append_nil, List.take_of_length_le hfits]
    rfl
  | cons f fs ih =>
    rw [List.foldl_cons, List.filter_cons, CanConfig.store]
    cases hacc : k.accepts f with
    | false =>
      rw [Bool.false_and, if_neg Bool.false_ne_true, if_neg Bool.false_ne_true]
      exact ih q hfits
    | true =>
      rw [Bool.true_and, if_pos rfl]
      by_cases hroom : q.length < 4
      · rw [decide_eq_true hroom, if_pos rfl, ih _ (by rw [List.length_append, List.length_singleton]; omega),
          List.append_assoc]
        rfl
      · rw [decide_eq_false hroom, if_neg Bool.false_ne_true, ih q hfits]
        rw [List.take_append_of_le_length (by omega), List.take_append_of_le_length (by omega)]

theorem canRound_ends (ms : List Message) : Ends chip anyOutside (fun v ↦ CanHolds k [] v.can0) (canRound ms)
    fun r v ↦ r = (((ms.map Message.frame).filter k.accepts).take 4).map payload ∧ CanHolds k [] v.can0 := by
  have hstore := foldl_store (k := k) [] (ms.map Message.frame) (Nat.zero_le _)
  rw [List.nil_append] at hstore
  have hsends := sends_end (k := k) (q := []) ms
  rw [hstore] at hsends
  refine Ends.bind hsends fun _ ↦ ?_
  have hcount : Ends chip anyOutside
      (fun v ↦ CanHolds k (((ms.map Message.frame).filter k.accepts).take 4) v.can0) (qarCanRxCount qarCan0Base)
      fun n v ↦ n.toNat = (((ms.map Message.frame).filter k.accepts).take 4).length ∧
        CanHolds k (((ms.map Message.frame).filter k.accepts).take 4) v.can0 := by
    refine can_ends_of_state fun s hs ↦ Ends.bind (can_read_ends rfl) fun n ↦ Ends.of_fact fun hn ↦
      Ends.done fun v hv ↦ ⟨?_, ?_⟩
    · rw [hn]
      exact hs.count
    · rw [hv]
      exact hs
  refine Ends.bind hcount fun n ↦ Ends.of_fact fun hn ↦ drains_end ?_
  rw [List.length_range, hn]

theorem canSetUp_ends (bittime flags filterId filterMask irqMask : Word) :
    Ends chip anyOutside (fun v ↦ v.can0.pending = []) (canSetUp bittime flags filterId filterMask irqMask)
      fun _ v ↦ CanHolds ⟨flags ||| qarCanCtrlEnable, filterId, filterMask⟩ [] v.can0 := by
  refine can_ends_of_state (R := fun s ↦ s.pending = []) fun s hs ↦ ?_
  have hsetUp : Ends chip anyOutside (fun v ↦ CanHolds ⟨s.ctrl, s.filterId, s.filterMask⟩ [] v.can0)
      (canSetUp bittime flags filterId filterMask irqMask)
      fun _ v ↦ CanHolds ⟨flags ||| qarCanCtrlEnable, filterId, filterMask⟩ [] v.can0 :=
    Ends.bind (qarCanInit_ends bittime flags) fun _ ↦ Ends.bind (can_filterId_ends filterId) fun _ ↦
      Ends.bind (can_filterMask_ends filterMask) fun _ ↦ qarCanEnableIrq_ends irqMask
  refine hsetUp.mono (fun v hv ↦ ?_) fun _ _ h ↦ h
  rw [hv]
  exact ⟨rfl, hs, Nat.zero_le _⟩

/-- From a controller without pending frames: the example gets to its idle loop, however its accesses are spaced.
It has drained both messages, and the third one has not come back. -/
theorem canLoopback_ends : Ends chip anyOutside (fun v ↦ v.can0.pending = []) canLoopback fun r v ↦
    r = [payload firstMessage.frame, payload secondMessage.frame] ∧ v.can0.pending = [] := by
  refine Ends.bind (canSetUp_ends _ _ _ _ _) fun _ ↦ Ends.bind (sends_end [firstMessage, secondMessage]) fun _ ↦
    Ends.bind (qarCanAwaitRx_ends (by decide)) fun _ ↦ Ends.bind (drains_end (by decide)) fun r ↦
      Ends.of_fact fun hr ↦ Ends.bind (qarCanSetCtrl_ends _) fun _ ↦ Ends.bind (sendFrame_ends quietMessage) fun _ ↦
        Ends.done fun v h ↦ ⟨?_, h.pending⟩
  rw [hr]
  rfl

/-- From a controller without pending frames, as after a reset: after any set-up, with any filter and mode, every round
of sends, one count and drains ends, however its accesses are spaced, and drains the payloads of the first four frames
that come back, in order. -/
theorem can_rounds_drain (bittime flags filterId filterMask irqMask : Word) (rounds : List (List Message)) :
    Ends chip anyOutside (fun v ↦ v.can0.pending = [])
      (do canSetUp bittime flags filterId filterMask irqMask
          Driver.collect canRound rounds)
      fun r _ ↦ r = rounds.map fun ms ↦ (((ms.map Message.frame).filter
        (CanConfig.mk (flags ||| qarCanCtrlEnable) filterId filterMask).accepts).take 4).map payload := by
  refine Ends.bind (canSetUp_ends bittime flags filterId filterMask irqMask) fun _ ↦ ?_
  exact (Ends.collect_map rounds fun ms _ ↦ canRound_ends ms).mono (fun _ h ↦ h) fun _ _ h ↦ h.1

-- Two rounds from reset, with a filter that lets one ID through.
theorem can_rounds_drain_reset :
    ∃ n, (Clocked.run (Clocked.Firmware.step chip)
      ⟨Devices.reset .zeros fun _ ↦ ⟨0, 0, 0, 0⟩, do
        canSetUp 0x13#32 qarCanCtrlLoopback 0x123#32 0x7FF#32 qarCanIrqRxReady
        Driver.collect canRound [[firstMessage, secondMessage, firstMessage], [secondMessage]], false⟩
      everyThird n).driver = .done [[payload firstMessage.frame, payload firstMessage.frame], []] := by
  obtain ⟨n, r, hdone, hr⟩ := (can_rounds_drain 0x13#32 qarCanCtrlLoopback 0x123#32 0x7FF#32 qarCanIrqRxReady
    [[firstMessage, secondMessage, firstMessage], [secondMessage]]).reaches everyThird_fair
    (s := Devices.reset .zeros fun _ ↦ ⟨0, 0, 0, 0⟩) rfl
  rw [hr] at hdone
  exact ⟨n, hdone⟩

end Hal

end QarCore
