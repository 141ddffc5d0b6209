import QarCore.Periph.Fifos

/-!
# Flushes of the UART's RX FIFO

A flush copies the read pointer into the write pointer.  A pop in the same cycle moves the read pointer
on, and a character that is complete in the cycle of a LIN_CMD write moves the write pointer on.
-/

namespace QarCore

open Clocked (Ring)

namespace Uart

variable {s : Uart} {i : Inputs} {txMem rxMem : BitVec 3 → Byte} {inp : Nat → Inputs} {t : Nat}

/-- The byte that goes into the RX FIFO, if the full test lets it. -/
def rxAccepted (s : Uart) : Option Byte := if s.rxFifo.wideFull then none else rxPush s

/-- A DATA read that takes a byte. -/
def rxTakes (s : Uart) (b : BusAccess 4) : Bool := rxPop b && !s.rxFifo.empty

/-- A flush meets another movement of its pointers: a break in the cycle of a pop, or a LIN_CMD write in
the cycle of a push. -/
def flushRace (s : Uart) (b : BusAccess 4) : Prop :=
  s.breakSeen ∧ rxTakes s b ∨ flushesRx s b ∧ ¬ s.breakSeen ∧ (rxAccepted s).isSome

/-- A ninth byte gets in: the full test fails while the read pointer is in its upper half. -/
def overfills (s : Uart) (b : BusAccess 4) : Prop :=
  (rxPush s).isSome ∧ s.rxFifo.count = 8 ∧ 8 ≤ s.rxFifo.tail.toNat ∧ ¬ rxTakes s b ∧ ¬ flushesRx s b

/-- What is expected of the flushes of the first `t` cycles. -/
structure RxFlushesUpTo (txMem rxMem : BitVec 3 → Byte) (inp : Nat → Inputs) (t : Nat) : Prop where
  empty : ∀ u < t, flushesRx (after txMem rxMem inp u) (inp u).bus →
    (after txMem rxMem inp (u + 1)).rxFifo.contents = []
  /-- From then on the FIFO holds only characters received after the flush. -/
  fresh : ∀ u v, u < v → v ≤ t → flushesRx (after txMem rxMem inp u) (inp u).bus →
    ∀ x ∈ (after txMem rxMem inp v).rxFifo.contents,
      ∃ w, u < w ∧ w < v ∧ rxPush (after txMem rxMem inp w) = some x
  level : ∀ v ≤ t, (after txMem rxMem inp v).rxFifo.count ≤ 8

/-! ## One edge -/

-- The end of the edge has the last word on the write pointer.
theorem detectBreak_flush {n : Uart} (h : s.breakSeen) :
    (detectBreak s n).rxFifo = { n.rxFifo with head := s.rxFifo.tail } := by
  simp only [breakSeen, Bool.and_eq_true, decide_eq_true_eq, Bool.not_eq_true'] at h
  obtain ⟨⟨⟨⟨hl, he⟩, hs⟩, ht⟩, hc⟩ := h
  simp [detectBreak, hl, he, hs, ht, hc, armHeader, apply_ite Uart.rxFifo]

theorem busWrite_flush {n : Uart} {b : BusAccess 4} (hw : b.write) (ha : b.addrWord = 0x9#4)
    (hb : b.wdata.getLsbD 2) :
    (busWrite s b n).rxFifo = { n.rxFifo with head := s.rxFifo.tail } := by
  simp only [busWrite, hw, ha, writeLinCmd, hb, ↓reduceIte, BitVec.reduceEq, apply_ite Uart.rxFifo,
    ite_self]

theorem busWrite_rxTail {n : Uart} {b : BusAccess 4} :
    (busWrite s b n).rxFifo.tail = n.rxFifo.tail := by
  simp only [busWrite, writeData, writeIrqStatus, writeLinCmd, writeLinSlaveCtrl,
    apply_ite Uart.rxFifo, apply_ite Ring.tail, ite_self]

/-- The edge up to the break detector. -/
def upToReceive (s : Uart) (i : Inputs) : Uart :=
  receive s (transmit s (startBreak s (statusBits s (busRead s i.bus
    (busWrite s i.bus (synchronize s i.rx s))))))

theorem upToReceive_rxFifo : (upToReceive s i).rxFifo =
    (rxAccepted s).elim (busRead s i.bus (busWrite s i.bus (synchronize s i.rx s))).rxFifo
      ((busRead s i.bus (busWrite s i.bus (synchronize s i.rx s))).rxFifo.pushAt s.rxFifo.head) := by
  unfold upToReceive
  rw [receive_rxFifo, transmit_rxFifo, startBreak_fifos.2, statusBits_fifos.2]
  rfl

theorem upToReceive_rxTail : (upToReceive s i).rxFifo.tail =
    if rxTakes s i.bus then s.rxFifo.tail + 1 else s.rxFifo.tail := by
  have hread : (busRead s i.bus (busWrite s i.bus (synchronize s i.rx s))).rxFifo.tail =
      if rxTakes s i.bus then s.rxFifo.tail + 1 else s.rxFifo.tail := by
    rw [busRead_rxFifo]
    unfold rxTakes
    split
    · rfl
    · exact busWrite_rxTail
  rw [upToReceive_rxFifo]
  cases rxAccepted s with
  | none => exact hread
  | some x => exact hread

-- The pointers after a flush by a break.
theorem posedge_break (h : s.breakSeen) : (posedge s i).rxFifo.head = s.rxFifo.tail ∧
    (posedge s i).rxFifo.tail = if rxTakes s i.bus then s.rxFifo.tail + 1 else s.rxFifo.tail := by
  have hflush : (posedge s i).rxFifo = { (upToReceive s i).rxFifo with head := s.rxFifo.tail } :=
    detectBreak_flush h
  rw [hflush]
  exact ⟨rfl, upToReceive_rxTail⟩

-- The pointers after a flush by LIN_CMD.
theorem posedge_linCmd (h : flushesRx s i.bus) (hb : ¬ s.breakSeen) :
    (posedge s i).rxFifo.head =
        (if (rxAccepted s).isSome then s.rxFifo.head + 1 else s.rxFifo.tail) ∧
      (posedge s i).rxFifo.tail = s.rxFifo.tail := by
  rw [Bool.not_eq_true] at hb
  simp only [flushesRx, hb, Bool.or_false, Bool.and_eq_true, beq_iff_eq] at h
  obtain ⟨⟨hw, ha⟩, h2⟩ := h
  have hlast : (posedge s i).rxFifo = (upToReceive s i).rxFifo := detectBreak_rxFifo hb
  -- the access is no DATA read
  have htakes : rxTakes s i.bus = false := by
    simp [rxTakes, rxPop, ha]
  have hread : (busRead s i.bus (busWrite s i.bus (synchronize s i.rx s))).rxFifo =
      { s.rxFifo with head := s.rxFifo.tail } := by
    rw [busRead_rxFifo, if_neg (by simp [rxPop, ha]), busWrite_flush hw ha h2]
    rfl
  rw [hlast]
  refine ⟨?_, by rw [upToReceive_rxTail, htakes, if_neg Bool.false_ne_true]⟩
  rw [upToReceive_rxFifo, hread]
  cases rxAccepted s with
  | none => rfl
  | some x => rfl

-- A flush empties the FIFO if nothing else moves its pointers.
theorem posedge_flush (h : flushesRx s i.bus) (hr : ¬ flushRace s i.bus) :
    (posedge s i).rxFifo.contents = [] := by
  apply Ring.contents_eq_nil
  by_cases hb : s.breakSeen
  · obtain ⟨hhead, htail⟩ := posedge_break (i := i) hb
    have hno : ¬ rxTakes s i.bus := fun ht ↦ hr (.inl ⟨hb, ht⟩)
    rw [if_neg hno] at htail
    rw [Ring.empty, hhead, htail, beq_self_eq_true]
  · obtain ⟨hhead, htail⟩ := posedge_linCmd h hb
    have hno : ¬ (rxAccepted s).isSome := fun ha ↦ hr (.inr ⟨h, hb, ha⟩)
    rw [if_neg hno] at hhead
    rw [Ring.empty, hhead, htail, beq_self_eq_true]

-- Otherwise a FIFO that holds no more than it can is not empty afterwards.
theorem posedge_race (hr : flushRace s i.bus) (hc : s.rxFifo.count ≤ 8) :
    flushesRx s i.bus ∧ (posedge s i).rxFifo.contents ≠ [] := by
  have hne : (posedge s i).rxFifo.head ≠ (posedge s i).rxFifo.tail →
      (posedge s i).rxFifo.contents ≠ [] := by
    intro hne hnil
    have hzero : (posedge s i).rxFifo.count = 0 := by
      rw [← Ring.contents_length, hnil]
      rfl
    rw [Ring.count_eq_zero, Ring.empty, beq_iff_eq] at hzero
    exact hne hzero
  rcases hr with ⟨hb, ht⟩ | ⟨h, hb, ha⟩
  · refine ⟨by simp [flushesRx, hb], hne ?_⟩
    obtain ⟨hhead, htail⟩ := posedge_break (i := i) hb
    rw [hhead, htail, if_pos ht]
    bv_omega
  · refine ⟨h, hne ?_⟩
    obtain ⟨hhead, htail⟩ := posedge_linCmd h hb
    rw [hhead, htail, if_pos ha]
    -- a push that closes the circle would need fifteen bytes
    intro heq
    have hcount : s.rxFifo.count = 15 := by
      rw [Ring.count]
      bv_omega
    omega

theorem rxAccepted_isSome : (rxAccepted s).isSome ↔ s.rxFifo.wideFull = false ∧ (rxPush s).isSome := by
  unfold rxAccepted
  by_cases hw : s.rxFifo.wideFull <;> simp [hw]

-- A byte that gets in finds room, or a DATA read makes it.
theorem room_of_accepted (h : ¬ flushesRx s i.bus) (hc : s.rxFifo.count ≤ 8)
    (ho : ¬ overfills s i.bus) (ha : (rxAccepted s).isSome) :
    s.rxFifo.count < 8 ∨ rxTakes s i.bus := by
  obtain ⟨hw, hp⟩ := rxAccepted_isSome.mp ha
  by_contra hno
  rw [not_or] at hno
  have hfull : s.rxFifo.count = 8 := Nat.le_antisymm hc (Nat.le_of_not_lt hno.1)
  refine ho ⟨hp, hfull, ?_, hno.2, h⟩
  by_contra hlow
  have hwide := (Ring.wideFull_iff (r := s.rxFifo) (by decide)).mpr ⟨hfull, Nat.lt_of_not_le hlow⟩
  rw [hw] at hwide
  cases hwide

theorem count_pos_of_rxTakes {b : BusAccess 4} (h : rxTakes s b) : 0 < s.rxFifo.count := by
  simp only [rxTakes, Bool.and_eq_true, Bool.not_eq_true'] at h
  apply Nat.pos_of_ne_zero
  rw [ne_eq, Ring.count_eq_zero, h.2]
  decide

-- The words after an edge without a flush.
theorem posedge_contents (h : ¬ flushesRx s i.bus) (hc : s.rxFifo.count ≤ 8)
    (ho : ¬ overfills s i.bus) : (posedge s i).rxFifo.contents =
      (if rxTakes s i.bus then s.rxFifo.contents.tail else s.rxFifo.contents) ++
        (rxAccepted s).toList := by
  rw [posedge_rxFifo (by simpa using h)]
  exact Ring.contents_next_of_room hc (room_of_accepted h hc ho) count_pos_of_rxTakes

-- The ninth byte of an overfull FIFO.
theorem posedge_overfills (h : overfills s i.bus) : (posedge s i).rxFifo.count = 9 := by
  obtain ⟨hp, hfull, hhigh, ht, hf⟩ := h
  have hw : s.rxFifo.wideFull = false := by
    rw [← Bool.not_eq_true, Ring.wideFull_iff (by decide)]
    omega
  obtain ⟨x, hx⟩ := Option.isSome_iff_exists.mp hp
  rw [posedge_rxFifo (by simpa using hf), hw, if_neg Bool.false_ne_true, hx]
  have hno : (rxPop i.bus && !s.rxFifo.empty) = false := by simpa [rxTakes] using ht
  rw [hno]
  show (s.rxFifo.pushAt s.rxFifo.head x).count = 9
  rw [Ring.count_pushAt_of_lt (by omega), hfull]

theorem posedge_level (hc : s.rxFifo.count ≤ 8) (hr : ¬ flushRace s i.bus)
    (ho : ¬ overfills s i.bus) : (posedge s i).rxFifo.count ≤ 8 := by
  by_cases hf : flushesRx s i.bus
  · rw [← Ring.contents_length, posedge_flush hf hr]
    exact Nat.zero_le 8
  · have hcontents := congrArg List.length (posedge_contents hf hc ho)
    rw [List.length_append, Ring.contents_length] at hcontents
    have hroom := room_of_accepted hf hc ho
    have hnew : (rxAccepted s).toList.length = if (rxAccepted s).isSome then 1 else 0 := by
      cases rxAccepted s <;> rfl
    by_cases ht : rxTakes s i.bus
    · -- the byte that is read makes room for one
      have hpos := count_pos_of_rxTakes ht
      rw [if_pos ht, List.length_tail, Ring.contents_length, hnew] at hcontents
      split at hcontents <;> omega
    · rw [if_neg ht, Ring.contents_length, hnew] at hcontents
      by_cases ha : (rxAccepted s).isSome
      · have hlt := (hroom ha).resolve_right ht
        rw [if_pos ha] at hcontents
        omega
      · rw [if_neg ha] at hcontents
        omega

/-! ## Runs -/

/-- The flushes of a run do their job, and the FIFO keeps to its depth, exactly if no flush meets
another movement of its pointers and no ninth byte gets in. -/
theorem rxFlushes_iff (txMem rxMem : BitVec 3 → Byte) (inp : Nat → Inputs) (t : Nat) :
    RxFlushesUpTo txMem rxMem inp t ↔ ∀ u < t,
      ¬ flushRace (after txMem rxMem inp u) (inp u).bus ∧
        ¬ overfills (after txMem rxMem inp u) (inp u).bus := by
  constructor
  · intro h u hu
    constructor
    · intro hr
      obtain ⟨hf, hne⟩ := posedge_race hr (h.level u (by omega))
      exact hne (h.empty u hu hf)
    · intro ho
      have hnine := posedge_overfills ho
      have hlevel := h.level (u + 1) hu
      rw [show (after txMem rxMem inp (u + 1)).rxFifo.count = 9 from hnine] at hlevel
      omega
  · intro h
    have hlevel (v : Nat) (hv : v ≤ t) : (after txMem rxMem inp v).rxFifo.count ≤ 8 := by
      induction v with
      | zero =>
        have hempty : (after txMem rxMem inp 0).rxFifo.count = 0 := Ring.count_eq_zero.mpr rfl
        omega
      | succ v ih => exact posedge_level (ih (by omega)) (h v hv).1 (h v hv).2
    refine ⟨fun u hu hf ↦ posedge_flush hf (h u hu).1, ?_, hlevel⟩
    intro u v huv hv hf
    induction v, huv using Nat.le_induction with
    | base =>
      intro x hx
      rw [show (after txMem rxMem inp (u + 1)).rxFifo.contents = [] from
        posedge_flush hf (h u (by omega)).1] at hx
      cases hx
    | succ v huv ih =>
      intro x hx
      have hprev := ih (by omega)
      by_cases hagain : flushesRx (after txMem rxMem inp v) (inp v).bus
      · rw [show (after txMem rxMem inp (v + 1)).rxFifo.contents = [] from
          posedge_flush hagain (h v hv).1] at hx
        cases hx
      · rw [show (after txMem rxMem inp (v + 1)).rxFifo.contents = _ from
          posedge_contents hagain (hlevel v (by omega)) (h v hv).2, List.mem_append] at hx
        rcases hx with hold | hnew
        · -- a word that was there before
          have hmem : x ∈ (after txMem rxMem inp v).rxFifo.contents := by
            split at hold
            · exact List.mem_of_mem_tail hold
            · exact hold
          obtain ⟨w, h1, h2, hw⟩ := hprev x hmem
          exact ⟨w, h1, by omega, hw⟩
        · have hpush : rxPush (after txMem rxMem inp v) = some x := by
            rw [Option.mem_toList, rxAccepted] at hnew
            split at hnew
            · cases hnew
            · exact hnew
          exact ⟨v, huv, Nat.lt_succ_self v, hpush⟩

/-- LIN mode with BAUD = 2: the character 0xFF, and then a break that is seen in cycle 80; `access` is
made in cycle `k`. -/
def charThenBreak (k : Nat) (access : BusAccess 4) (t : Nat) : Inputs where
  bus :=
    if t = 0 then ⟨true, false, 0x3, 2⟩
    else if t = 1 then ⟨true, false, 0x2, 0x21⟩
    else if t = k then access
    else ⟨false, false, 0, 0⟩
  rx := !(5 ≤ t && t < 8) && !(40 ≤ t)

/-- A DATA read in the cycle of the break leaves fifteen bytes, and a LIN_CMD write in the cycle in which
the character is complete leaves one. -/
theorem charThenBreak_stays :
    (¬ RxFlushesUpTo (fun _ ↦ 0) (fun _ ↦ 0) (charThenBreak 80 ⟨false, true, 0x0, 0⟩) 81 ∧
      (after (fun _ ↦ 0) (fun _ ↦ 0) (charThenBreak 80 ⟨false, true, 0x0, 0⟩) 81).rxFifo.count = 15) ∧
    (¬ RxFlushesUpTo (fun _ ↦ 0) (fun _ ↦ 0) (charThenBreak 36 ⟨true, false, 0x9, 4⟩) 37 ∧
      (after (fun _ ↦ 0) (fun _ ↦ 0) (charThenBreak 36 ⟨true, false, 0x9, 4⟩) 37).rxFifo.contents =
        [0xFF]) := by
  have hbreak : (after (fun _ ↦ 0) (fun _ ↦ 0) (charThenBreak 80 ⟨false, true, 0x0, 0⟩) 81).rxFifo.count =
      15 := by decide +kernel
  have hcmd : (after (fun _ ↦ 0) (fun _ ↦ 0) (charThenBreak 36 ⟨true, false, 0x9, 4⟩) 37).rxFifo.contents =
      [0xFF] := by decide +kernel
  refine ⟨⟨fun h ↦ ?_, hbreak⟩, fun h ↦ ?_, hcmd⟩
  · have hle := h.level 81 (Nat.le_refl _)
    rw [hbreak] at hle
    exact absurd hle (by decide)
  · have hnil := h.empty 36 (by decide) (by decide +kernel)
    rw [hcmd] at hnil
    cases hnil

end Uart

end QarCore
