import QarCore.Periph.Can

/-! The pending flag and the overflow flag of the CAN controller, against the FIFO they are about. -/

namespace QarCore

open Clocked (Ring QueueOp run)

namespace Can

variable {s : Can} {b : BusAccess 6} {mem : BitVec 2 → Frame} {inp : Nat → BusAccess 6} {t : Nat}

/-- STATUS[0] and RX_FIFO_CTRL show the state of the FIFO, as the register map has them. -/
structure StatusAgrees (s : Can) : Prop where
  pending : s.status.getLsbD 0 ↔ s.pending ≠ []
  level : (s.reads 0x11).toNat % 8 = s.pending.length
  overflow : (s.reads 0x11).getLsbD 3 = s.status.getLsbD 2

/-- A write of 1 to IRQ_STATUS[0] while a frame is pending. -/
def clearsPending (s : Can) (b : BusAccess 6) : Prop :=
  b.write ∧ b.addrWord = 0x5#6 ∧ b.wdata.getLsbD 0 ∧ s.pending ≠ []

/-- A frame is sent to a full FIFO. -/
def drops (s : Can) (b : BusAccess 6) : Prop := (sent s b).isSome ∧ s.pending.length = 4

/-- The flags of a controller that has not lost a frame. -/
structure FlagsAgree (s : Can) : Prop where
  pending : s.status.getLsbD 0 ↔ s.pending ≠ []
  overflow : s.status.getLsbD 2 = false

-- Bit 3 of RX_FIFO_CTRL is the zero between the fill level and the overflow flag.
theorem reads_bit_three : (s.reads 0x11).getLsbD 3 = false := by
  show ((0#28 ++ BitVec.ofBool (s.status.getLsbD 2) ++ 0#1 ++ s.rxEntries).setWidth 32).getLsbD 3 = false
  rw [BitVec.getLsbD_setWidth, BitVec.getLsbD_append, BitVec.getLsbD_append]
  rfl

theorem statusAgrees_iff_flagsAgree : StatusAgrees s ↔ FlagsAgree s := by
  constructor
  · intro h
    exact ⟨h.pending, h.overflow.symm.trans reads_bit_three⟩
  · intro h
    exact ⟨h.pending, reads_level, reads_bit_three.trans h.overflow.symm⟩

/-! ## One access -/

theorem posedge_pending : (posedge s b).pending = (queueOp s b).apply 4 s.pending := by
  unfold pending
  rw [posedge_rxFifo, Ring.contents_exec]
  rfl

theorem rxEntries_eq_one : s.rxEntries = 1#3 ↔ s.pending.length = 1 := by
  rw [pending_length, ← BitVec.toNat_inj]
  rfl

theorem rxEntries_lt_four' : s.rxEntries < 4#3 ↔ s.pending.length < 4 := by
  rw [pending_length]
  exact rxEntries_lt_four

theorem receive_status {n : Can} (hn : n.status = setBit s.status 1 false) :
    (receive s n).status.getLsbD 0 = (decide (s.pending.length < 4) || s.status.getLsbD 0) ∧
      (receive s n).status.getLsbD 2 = (!decide (s.pending.length < 4) || s.status.getLsbD 2) := by
  unfold receive
  by_cases h : s.pending.length < 4
  · rw [if_pos (rxEntries_lt_four'.mpr h)]
    simp [h, hn, getLsbD_setBit, -BitVec.getLsbD_eq_getElem]
  · rw [if_neg (mt rxEntries_lt_four'.mp h)]
    simp [h, hn, getLsbD_setBit, -BitVec.getLsbD_eq_getElem]

theorem writeTxCmd_status :
    (writeTxCmd s s).status.getLsbD 0 =
        (s.receives && decide (s.pending.length < 4) || s.status.getLsbD 0) ∧
      (writeTxCmd s s).status.getLsbD 2 =
        (s.receives && !decide (s.pending.length < 4) || s.status.getLsbD 2) := by
  unfold writeTxCmd receives
  by_cases he : s.ctrlEnable
  · simp only [he, Bool.true_and, ↓reduceIte]
    by_cases hr : s.ctrlLoopback && !s.ctrlQuiet && s.filterMatch
    · obtain ⟨h0, h2⟩ := receive_status (s := s) (n := { s with status := setBit s.status 1 false }) rfl
      simp only [hr, ↓reduceIte, Bool.true_and, ← h0, ← h2]
      constructor <;> simp [getLsbD_setBit, -BitVec.getLsbD_eq_getElem]
    · simp only [hr, Bool.false_eq_true, ↓reduceIte, Bool.false_and, Bool.false_or]
      constructor <;> simp [getLsbD_setBit, -BitVec.getLsbD_eq_getElem]
  · simp only [he, Bool.false_eq_true, ↓reduceIte, Bool.false_and, Bool.false_or, and_self]

theorem writeRxFifoCtrl_status (wdata : Word) :
    (writeRxFifoCtrl s wdata s).status.getLsbD 0 =
        (!(wdata.getLsbD 1 || wdata.getLsbD 0 && decide (s.pending.length = 1)) && s.status.getLsbD 0) ∧
      (writeRxFifoCtrl s wdata s).status.getLsbD 2 = (!wdata.getLsbD 2 && s.status.getLsbD 2) := by
  have hzero : s.rxEntries = 0#3 → ¬ s.rxEntries = 1#3 := by
    intro h
    rw [h]
    decide
  simp only [← rxEntries_eq_one]
  unfold writeRxFifoCtrl
  by_cases h1 : wdata.getLsbD 1
  · by_cases h2 : wdata.getLsbD 2 <;>
      simp [h1, h2, getLsbD_setBit, -BitVec.getLsbD_eq_getElem]
  · by_cases h0 : wdata.getLsbD 0
    · by_cases he : s.rxEntries = 0#3
      · by_cases h2 : wdata.getLsbD 2 <;>
          simp [h1, h2, h0, he, getLsbD_setBit, -BitVec.getLsbD_eq_getElem]
      · by_cases ho : s.rxEntries = 1#3 <;> by_cases h2 : wdata.getLsbD 2 <;>
          simp [h1, h2, h0, he, ho, getLsbD_setBit, -BitVec.getLsbD_eq_getElem]
    · by_cases h2 : wdata.getLsbD 2 <;>
        simp [h1, h2, h0, getLsbD_setBit, -BitVec.getLsbD_eq_getElem]

theorem writeIrqStatus_status (wdata : Word) :
    (writeIrqStatus s wdata s).status.getLsbD 0 = (!wdata.getLsbD 0 && s.status.getLsbD 0) ∧
      (writeIrqStatus s wdata s).status.getLsbD 2 = s.status.getLsbD 2 := by
  unfold writeIrqStatus
  by_cases h0 : wdata.getLsbD 0 <;> by_cases h1 : wdata.getLsbD 1 <;>
    simp [h0, h1, getLsbD_setBit, -BitVec.getLsbD_eq_getElem]

-- Registers other than IRQ_STATUS, TX_CMD and RX_FIFO_CTRL touch neither the flags nor the FIFO.
theorem busWrite_other (h5 : b.addrWord ≠ 0x5#6) (hc : b.addrWord ≠ 0xC#6) (ha : b.addrWord ≠ 0x11#6) :
    (posedge s b).status = s.status ∧ (posedge s b).pending = s.pending := by
  unfold posedge busWrite pending
  simp only [if_neg h5, if_neg hc, if_neg ha, apply_ite Can.status, apply_ite Can.rxFifo, ite_self,
    and_self]

-- An IRQ_STATUS write keeps the FIFO, and may clear the flag of a FIFO that is not empty.
theorem flagsAgree_irqStatus (h : FlagsAgree s) (hw : b.write) (h5 : b.addrWord = 0x5#6) :
    FlagsAgree (posedge s b) ↔ ¬ clearsPending s b ∧ ¬ drops s b := by
  have hpending : (posedge s b).pending = s.pending := by
    rw [posedge_pending]
    simp [queueOp, sent, flushes, pops, h5, QueueOp.apply]
  have hstep : posedge s b = writeIrqStatus s b.wdata s := by simp [posedge, busWrite, hw, h5]
  obtain ⟨h0, h2⟩ := writeIrqStatus_status (s := s) b.wdata
  rw [← hstep] at h0 h2
  have hno : ¬ drops s b := by simp [drops, sent, h5]
  have hclears : clearsPending s b ↔ b.wdata.getLsbD 0 ∧ s.pending ≠ [] := by
    simp [clearsPending, hw, h5]
  have hflag := h.pending
  constructor
  · rintro ⟨hp, -⟩
    refine ⟨fun hc ↦ ?_, hno⟩
    obtain ⟨hb, hne⟩ := hclears.mp hc
    rw [hpending, h0, hb] at hp
    exact absurd (hp.mpr hne) (by simp)
  · rintro ⟨hc, -⟩
    refine ⟨?_, h2.trans h.overflow⟩
    rw [hpending, h0, ← hflag, Bool.and_eq_true]
    -- the write of a 1 finds nothing pending
    refine ⟨fun hb ↦ hb.2, fun hs ↦ ⟨?_, hs⟩⟩
    by_contra hb
    exact hc (hclears.mpr ⟨by simpa using hb, hflag.mp hs⟩)

-- A TX_CMD write may lose its frame.
theorem flagsAgree_txCmd (h : FlagsAgree s) (hle : s.pending.length ≤ 4) (hw : b.write)
    (hc : b.addrWord = 0xC#6) :
    FlagsAgree (posedge s b) ↔ ¬ clearsPending s b ∧ ¬ drops s b := by
  have hpending : (posedge s b).pending =
      if s.receives ∧ s.pending.length < 4 then s.pending ++ [s.txFrame] else s.pending := by
    rw [posedge_pending]
    by_cases hr : s.receives <;>
      simp [queueOp, sent, flushes, pops, hw, hc, hr, QueueOp.apply]
  have hstep : posedge s b = writeTxCmd s s := by simp [posedge, busWrite, hw, hc]
  obtain ⟨h0, h2⟩ := writeTxCmd_status (s := s)
  rw [← hstep] at h0 h2
  have hno : ¬ clearsPending s b := by simp [clearsPending, hc]
  have hdrops : drops s b ↔ s.receives ∧ s.pending.length = 4 := by
    simp [drops, sent, hw, hc]
  have hflag := h.pending
  have hover := h.overflow
  by_cases hr : s.receives
  · by_cases hlt : s.pending.length < 4
    · -- the frame is stored
      simp only [hr, hlt, hover, decide_true, Bool.and_self, Bool.true_or, Bool.not_true,
        Bool.and_false, Bool.or_self] at h0 h2
      rw [if_pos ⟨hr, hlt⟩] at hpending
      refine iff_of_true ⟨?_, h2⟩ ⟨hno, fun hd ↦ ?_⟩
      · rw [h0, hpending]
        simp
      · have := (hdrops.mp hd).2
        omega
    · -- the frame is lost
      refine iff_of_false (fun hf ↦ ?_) (fun hd ↦ hd.2 (hdrops.mpr ⟨hr, by omega⟩))
      have := hf.overflow
      rw [h2, hr] at this
      simp [hlt] at this
  · rw [if_neg (fun hc ↦ hr hc.1)] at hpending
    rw [Bool.not_eq_true] at hr
    rw [hr, Bool.false_and, Bool.false_or] at h0 h2
    refine iff_of_true ⟨?_, h2.trans hover⟩ ⟨hno, fun hd ↦ ?_⟩
    · rw [h0, hpending]
      exact hflag
    · rw [hdrops, hr] at hd
      exact absurd hd.1 (by simp)

-- RX_FIFO_CTRL keeps the flags right: a flush empties the FIFO, and so does the pop of the last frame.
theorem flagsAgree_rxFifoCtrl (h : FlagsAgree s) (hw : b.write) (ha : b.addrWord = 0x11#6) :
    FlagsAgree (posedge s b) ↔ ¬ clearsPending s b ∧ ¬ drops s b := by
  have hpending : (posedge s b).pending = if b.wdata.getLsbD 1 then []
      else if b.wdata.getLsbD 0 then s.pending.tail else s.pending := by
    rw [posedge_pending]
    by_cases h1 : b.wdata.getLsbD 1 <;> by_cases h0 : b.wdata.getLsbD 0 <;>
      simp [queueOp, sent, flushes, pops, hw, ha, h1, h0, QueueOp.apply, -BitVec.getLsbD_eq_getElem]
  have hstep : posedge s b = writeRxFifoCtrl s b.wdata s := by simp [posedge, busWrite, hw, ha]
  obtain ⟨h0, h2⟩ := writeRxFifoCtrl_status (s := s) b.wdata
  rw [← hstep] at h0 h2
  have hflag := h.pending
  refine iff_of_true ⟨?_, ?_⟩ ⟨?_, ?_⟩
  · rw [h0, hpending]
    by_cases hb1 : b.wdata.getLsbD 1
    · simp [hb1]
    · by_cases hb0 : b.wdata.getLsbD 0
      · -- a pop leaves something exactly if there were two frames
        simp only [hb1, hb0, Bool.false_or, Bool.true_and, Bool.and_eq_true, hflag]
        cases hq : s.pending with
        | nil => simp
        | cons f rest => simp
      · simp [hb1, hb0, hflag, -BitVec.getLsbD_eq_getElem]
  · rw [h2, h.overflow, Bool.and_false]
  · simp [clearsPending, ha]
  · simp [drops, sent, ha]

-- An access keeps the flags in step with the FIFO, unless it clears the pending flag too early or loses a
-- frame.
theorem flagsAgree_posedge (h : FlagsAgree s) (hle : s.pending.length ≤ 4) :
    FlagsAgree (posedge s b) ↔ ¬ clearsPending s b ∧ ¬ drops s b := by
  by_cases hw : b.write
  · by_cases h5 : b.addrWord = 0x5#6
    · exact flagsAgree_irqStatus h hw h5
    · by_cases hc : b.addrWord = 0xC#6
      · exact flagsAgree_txCmd h hle hw hc
      · by_cases ha : b.addrWord = 0x11#6
        · exact flagsAgree_rxFifoCtrl h hw ha
        · obtain ⟨hst, hp⟩ := busWrite_other (s := s) h5 hc ha
          have hkeep : FlagsAgree (posedge s b) := by
            refine ⟨?_, ?_⟩
            · rw [hst, hp]
              exact h.pending
            · rw [hst]
              exact h.overflow
          refine iff_of_true hkeep ⟨?_, ?_⟩
          · simp [clearsPending, h5]
          · simp [drops, sent, hc]
  · have hstep : posedge s b = s := by rw [posedge, busWrite, if_neg hw]
    rw [hstep]
    refine iff_of_true h ⟨?_, ?_⟩
    · simp [clearsPending, hw]
    · simp [drops, sent, hw]

/-! ## Runs -/

theorem flagsAgree_reset : FlagsAgree (reset mem) := by
  have hstatus : (reset mem).status = 2#32 := rfl
  have hempty : (reset mem).pending = [] := Ring.contents_eq_nil rfl
  refine ⟨?_, by rw [hstatus]; rfl⟩
  rw [hempty, hstatus]
  exact iff_of_false (by decide) (fun h ↦ h rfl)

/-- The flags agree with the FIFO in exactly the runs in which no IRQ_STATUS write clears the pending
flag of a FIFO that is not empty, and no frame is lost. -/
theorem status_agrees_iff (mem : BitVec 2 → Frame) (inp : Nat → BusAccess 6) (t : Nat) :
    (∀ u ≤ t, StatusAgrees (after mem inp u)) ↔
      ∀ u < t, ¬ clearsPending (after mem inp u) (inp u) ∧ ¬ drops (after mem inp u) (inp u) := by
  simp only [statusAgrees_iff_flagsAgree]
  have hstep (u : Nat) (h : FlagsAgree (after mem inp u)) :=
    flagsAgree_posedge (b := inp u) h (rxQueueAt mem inp u).level_le
  constructor
  · intro h u hu
    exact (hstep u (h u (by omega))).mp (h (u + 1) (by omega))
  · intro h u hu
    induction u with
    | zero => exact flagsAgree_reset
    | succ u ih => exact (hstep u (ih (by omega))).mpr (h u (by omega))

/-- Loopback, one frame sent, and its receive interrupt acknowledged. -/
def acknowledge : Nat → BusAccess 6
  | 0 => ⟨true, false, 0x0, 3⟩
  | 1 => ⟨true, false, 0xC, 1⟩
  | 2 => ⟨true, false, 0x5, 1⟩
  | _ => ⟨false, false, 0, 0⟩

/-- Loopback, and a frame in every cycle from then on. -/
def sendAlways : Nat → BusAccess 6
  | 0 => ⟨true, false, 0x0, 3⟩
  | _ => ⟨true, false, 0xC, 1⟩

/-- The acknowledged frame is still pending and STATUS[0] is down; after the fifth frame the overflow
flag is up, and RX_FIFO_CTRL reads 0x14, with bit 3 down. -/
theorem acknowledge_hides_frame :
    let mem : BitVec 2 → Frame := fun _ ↦ ⟨0, 0, 0, 0⟩
    ((after mem acknowledge 3).status.getLsbD 0 = false ∧
        (after mem acknowledge 3).pending.length = 1 ∧ ¬ StatusAgrees (after mem acknowledge 3)) ∧
      ((after mem sendAlways 6).status.getLsbD 2 ∧ (after mem sendAlways 6).reads 0x11 = 0x14 ∧
        ¬ StatusAgrees (after mem sendAlways 6)) := by
  intro mem
  have hlow : (after mem acknowledge 3).status.getLsbD 0 = false := by decide +kernel
  have hone : (after mem acknowledge 3).pending.length = 1 := by decide +kernel
  have hover : (after mem sendAlways 6).status.getLsbD 2 := by decide +kernel
  have hread : (after mem sendAlways 6).reads 0x11 = 0x14 := by decide +kernel
  refine ⟨⟨hlow, hone, fun h ↦ ?_⟩, hover, hread, fun h ↦ ?_⟩
  · -- one frame is pending
    have hne : (after mem acknowledge 3).pending ≠ [] := by
      intro hnil
      rw [hnil] at hone
      exact absurd hone (by decide)
    rw [← h.pending, hlow] at hne
    exact absurd hne (by decide)
  · have h3 := h.overflow
    rw [hread, hover] at h3
    exact absurd h3 (by decide)

end Can

end QarCore
