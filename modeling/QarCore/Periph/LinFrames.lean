import QarCore.Periph.LinBreak

/-!
# Frames and breaks in full

What it takes for a frame or a LIN break to be on the line in full, whatever is written to BAUD meanwhile:
the bits are counted by the edges that put them there.  A frame that is loaded while no break is about to
start always gets through, because a break waits for the serializer.
-/

namespace QarCore

open Clocked (trace trace_succ)

namespace Uart

variable {s : Uart} {i : Inputs} {fc : FrameConfig} {data : Byte} {k : Nat}

/-! ## On the line -/

/-- The bits of a frame in the order of the line. -/
def frameBits (data : Byte) (fc : FrameConfig) : List Bool :=
  (List.range (calcFrameBits fc).toNat).map (buildTxFrame data fc).getLsbD

section

variable (txMem rxMem : BitVec 3 → Byte) (inp : Nat → Inputs)

/-- The bit that the edge of cycle `t` puts on the line. -/
def shiftedBit (t : Nat) : Option Bool :=
  if (after txMem rxMem inp t).shiftsBit then some (after txMem rxMem inp (t + 1)).tx.line else none

/-- The frame of `data` is loaded in cycle `v` and goes out in full: `e` is the cycle of its last bit. -/
structure FrameSent (data : Byte) (v e : Nat) : Prop where
  loads : (after txMem rxMem inp v).loadsByte = some data
  last : (after txMem rxMem inp e).shiftsLast
  bits : trace (fun j ↦ shiftedBit txMem rxMem inp (v + 1 + j)) (e - v) =
    frameBits data (after txMem rxMem inp v).frameConfig
  holds : ∀ t, v ≤ t → t ≤ e → shiftedBit txMem rxMem inp t = none →
    (after txMem rxMem inp (t + 1)).tx.line = (after txMem rxMem inp t).tx.line

/-- From cycle `v` up to cycle `e` no bit goes out before a bit time has passed, since `v` and since the
bit before. -/
def Paced (v e : Nat) : Prop :=
  ∀ t u, v ≤ t → t < u → u ≤ e → (t = v ∨ (after txMem rxMem inp t).shiftsBit) →
    (after txMem rxMem inp u).shiftsBit → t + (after txMem rxMem inp u).bitTime ≤ u

/-- The bit times of a break that starts in cycle `a`, up to and with cycle `b`. -/
def breakBitsSent (a b : Nat) : Nat :=
  Nat.count (fun j ↦ (after txMem rxMem inp (a + 1 + j)).lin.breakTick ≥
    (after txMem rxMem inp (a + 1 + j)).baudDiv) (b - a)

/-- A break starts in cycle `a` and goes out in full: it ends in cycle `b`. -/
structure BreakSent (a b : Nat) : Prop where
  starts : (after txMem rxMem inp a).breakStarts
  later : a < b
  low : ∀ t, a + 1 < t → t ≤ b → (after txMem rxMem inp t).tx.line = false
  long : (after txMem rxMem inp b).breakBits < breakBitsSent txMem rxMem inp a b
  /-- The length in cycles, if nobody changes BAUD and LIN_CTRL. -/
  exact : ∀ d n, (∀ t, a < t → t ≤ b → (after txMem rxMem inp t).bitTime = d ∧
    (after txMem rxMem inp t).breakBits = n) → b = a + (n + 1) * d

end

/-! ## One edge of the serializer -/

theorem breakStarts_busy (h0 : s.tx.bitsRemaining ≠ 0#5) : s.breakStarts = false := by
  simp [breakStarts, h0]

/-- The serializer with `k` bits of a frame gone. -/
structure FrameLeft (data : Byte) (fc : FrameConfig) (k : Nat) (e : TxEngine) : Prop where
  count : k + e.bitsRemaining.toNat = (calcFrameBits fc).toNat
  shift : ∀ j, j < e.bitsRemaining.toNat → e.shift.getLsbD j = (buildTxFrame data fc).getLsbD (k + j)

theorem FrameLeft.load (e : TxEngine) (fc : FrameConfig) (data : Byte) :
    FrameLeft data fc 0 (e.load fc (some data)) := by
  constructor
  · exact Nat.zero_add _
  · intro j _
    rw [Nat.zero_add]
    rfl

theorem FrameLeft.next (h : FrameLeft data fc k s.tx) (hs : s.shiftsBit) :
    (posedge s i).tx.line = (buildTxFrame data fc).getLsbD k ∧
      FrameLeft data fc (k + 1) (posedge s i).tx := by
  have hbits := bits_le fc
  have h0 : s.tx.bitsRemaining ≠ 0#5 := by
    intro h0
    simp [shiftsBit, h0] at hs
  have hcount := h.count
  have hpos : 0 < s.tx.bitsRemaining.toNat := by bv_omega
  have hless : (s.tx.bitsRemaining - 1).toNat = s.tx.bitsRemaining.toNat - 1 := by bv_omega
  rw [posedge_tx_shift hs]
  refine ⟨h.shift 0 hpos, ?_, ?_⟩
  · show _ + (s.tx.bitsRemaining - 1).toNat = _
    omega
  · intro j hj
    replace hj : j < (s.tx.bitsRemaining - 1).toNat := hj
    show (1#1 ++ s.tx.shift.extractLsb' 1 11 : BitVec 12).getLsbD j = _
    refine (BitVec.getLsbD_append ..).trans ?_
    rw [if_pos (by omega), BitVec.getLsbD_extractLsb', decide_eq_true (by omega), Bool.true_and,
      h.shift (1 + j) (by omega), Nat.add_assoc]

/-- An upper bound on the cycles until the serializer is idle. -/
def txRank (s : Uart) : Nat := s.tx.bitsRemaining.toNat * 2 ^ 32 + (2 ^ 32 - 1 - s.tx.counter.toNat)

theorem txRank_lt (h : Sends s) (h0 : s.tx.bitsRemaining ≠ 0#5) : (posedge s i).txRank < s.txRank := by
  have hc := s.tx.counter.isLt
  have hd := s.baudDiv.isLt
  unfold txRank
  by_cases hs : s.shiftsBit
  · have hless : (s.tx.bitsRemaining - 1).toNat + 1 = s.tx.bitsRemaining.toNat := by bv_omega
    rw [posedge_tx_shift hs, ← hless]
    show (s.tx.bitsRemaining - 1).toNat * 2 ^ 32 + (2 ^ 32 - 1 - 0) < _
    omega
  · obtain ⟨hlt, htx⟩ := posedge_tx_wait (i := i) h h0 hs
    have hstep : (s.tx.counter + 1).toNat = s.tx.counter.toNat + 1 := by bv_omega
    rw [htx]
    show s.tx.bitsRemaining.toNat * 2 ^ 32 + (2 ^ 32 - 1 - (s.tx.counter + 1).toNat) < _
    rw [hstep]
    bv_omega

theorem posedge_line_hold (h : Sends s) (hs : ¬ s.shiftsBit) : (posedge s i).tx.line = s.tx.line := by
  rw [posedge_line, if_pos h.enabled, if_neg (by simp [h.noBreak]), if_neg hs]

/-! ## A frame -/

section

variable {txMem rxMem : BitVec 3 → Byte} {inp : Nat → Inputs} {a b e t u v : Nat}

theorem after_succ (t : Nat) : after txMem rxMem inp (t + 1) = posedge (after txMem rxMem inp t) (inp t) :=
  rfl

/-- A frame of which `k` bits have gone out in the `j` cycles since it was loaded. -/
structure FrameGoing (txMem rxMem : BitVec 3 → Byte) (inp : Nat → Inputs) (data : Byte) (fc : FrameConfig)
    (v j : Nat) : Prop where
  noBreak : (after txMem rxMem inp (v + 1 + j)).lin.breakActive = false
  busy : (after txMem rxMem inp (v + 1 + j)).tx.bitsRemaining ≠ 0#5
  left : ∃ k, FrameLeft data fc k (after txMem rxMem inp (v + 1 + j)).tx ∧
    trace (fun x ↦ shiftedBit txMem rxMem inp (v + 1 + x)) j = (frameBits data fc).take k

theorem frameBits_take (hk : k < (calcFrameBits fc).toNat) : (frameBits data fc).take (k + 1) =
    (frameBits data fc).take k ++ [(buildTxFrame data fc).getLsbD k] := by
  unfold frameBits
  rw [← List.map_take, ← List.map_take, List.take_range, List.take_range, Nat.min_eq_left hk,
    Nat.min_eq_left (Nat.le_of_lt hk), List.range_succ, List.map_append]
  rfl

-- One more bit of the frame on the line.
theorem trace_shift {j : Nat} (hs : (after txMem rxMem inp (v + 1 + j)).shiftsBit)
    (hleft : FrameLeft data fc k (after txMem rxMem inp (v + 1 + j)).tx)
    (htrace : trace (fun x ↦ shiftedBit txMem rxMem inp (v + 1 + x)) j = (frameBits data fc).take k) :
    trace (fun x ↦ shiftedBit txMem rxMem inp (v + 1 + x)) (j + 1) = (frameBits data fc).take (k + 1) := by
  have hcount := hleft.count
  have hpos : (after txMem rxMem inp (v + 1 + j)).tx.bitsRemaining.toNat ≠ 0 := by
    intro h0
    have : (after txMem rxMem inp (v + 1 + j)).tx.bitsRemaining = 0#5 := BitVec.eq_of_toNat_eq h0
    simp [shiftsBit, this] at hs
  have hline := (hleft.next (i := inp (v + 1 + j)) hs).1
  rw [← after_succ] at hline
  rw [trace_succ, htrace, frameBits_take (by omega), shiftedBit, if_pos hs, hline]
  rfl

theorem FrameGoing.next {j : Nat} (h : FrameGoing txMem rxMem inp data fc v j)
    (he : (after txMem rxMem inp (v + 1 + j)).ctrlEnable)
    (hl : ¬ (after txMem rxMem inp (v + 1 + j)).shiftsLast) :
    FrameGoing txMem rxMem inp data fc v (j + 1) := by
  have hsends : Sends (after txMem rxMem inp (v + 1 + j)) := ⟨he, h.noBreak⟩
  obtain ⟨k, hleft, htrace⟩ := h.left
  refine ⟨?_, ?_, ?_⟩
  · show (posedge (after txMem rxMem inp (v + 1 + j)) _).lin.breakActive = false
    rw [posedge_breakActive_off he h.noBreak, breakStarts_busy h.busy]
  · by_cases hs : (after txMem rxMem inp (v + 1 + j)).shiftsBit
    · exact posedge_bits_shift hs hl
    · have hoff : ¬ (after txMem rxMem inp (v + 1 + j)).lin.breakActive = true := by simp [h.noBreak]
      exact posedge_bits_hold (i := inp (v + 1 + j)) he hoff h.busy hs
  · by_cases hs : (after txMem rxMem inp (v + 1 + j)).shiftsBit
    · exact ⟨k + 1, (hleft.next hs).2, trace_shift hs hleft htrace⟩
    · refine ⟨k, ?_, ?_⟩
      · show FrameLeft data fc k (posedge (after txMem rxMem inp (v + 1 + j)) _).tx
        rw [(posedge_tx_wait hsends h.busy hs).2]
        exact ⟨hleft.count, hleft.shift⟩
      · rw [trace_succ, shiftedBit, if_neg hs, htrace]
        exact List.append_nil _

theorem FrameGoing.complete {j : Nat} (h : FrameGoing txMem rxMem inp data fc v j)
    (hl : (after txMem rxMem inp (v + 1 + j)).shiftsLast) :
    trace (fun x ↦ shiftedBit txMem rxMem inp (v + 1 + x)) (j + 1) = frameBits data fc := by
  obtain ⟨k, hleft, htrace⟩ := h.left
  simp only [shiftsLast, Bool.and_eq_true, beq_iff_eq] at hl
  have hcount := hleft.count
  rw [hl.2] at hcount
  replace hcount : k + 1 = (calcFrameBits fc).toNat := hcount
  rw [trace_shift hl.1 hleft htrace]
  apply List.take_of_length_le
  rw [frameBits, List.length_map, List.length_range, hcount]

-- A frame that is loaded while no break starts is sent in full, and no break starts until then.
theorem frameSent_of_load (he : ∀ t, v ≤ t → (after txMem rxMem inp t).ctrlEnable)
    (hact : (after txMem rxMem inp v).lin.breakActive = false)
    (hstart : (after txMem rxMem inp v).breakStarts = false)
    (h0 : (after txMem rxMem inp v).tx.bitsRemaining = 0#5)
    (hload : (after txMem rxMem inp v).loadsByte = some data) :
    ∃ e, v < e ∧ FrameSent txMem rxMem inp data v e ∧ ∀ t, v < t → t ≤ e →
      (after txMem rxMem inp t).lin.breakActive = false ∧
        (after txMem rxMem inp t).tx.bitsRemaining ≠ 0#5 := by
  have hsends : Sends (after txMem rxMem inp v) := ⟨he v (Nat.le_refl v), hact⟩
  have hfirst : FrameGoing txMem rxMem inp data (after txMem rxMem inp v).frameConfig v 0 := by
    have htx := posedge_tx_idle (i := inp v) hsends h0
    rw [hload, ← after_succ] at htx
    refine ⟨?_, ?_, 0, ?_, rfl⟩
    · show (posedge (after txMem rxMem inp v) _).lin.breakActive = false
      rw [posedge_breakActive_off hsends.enabled hact, hstart]
    · show (after txMem rxMem inp (v + 1)).tx.bitsRemaining ≠ 0#5
      rw [htx]
      exact calcFrameBits_ne_zero _
    · show FrameLeft _ _ 0 (after txMem rxMem inp (v + 1)).tx
      rw [htx]
      exact FrameLeft.load _ _ _
  have hstep (j : Nat) (h : FrameGoing txMem rxMem inp data (after txMem rxMem inp v).frameConfig v j) :
      (after txMem rxMem inp (v + 1 + j)).shiftsLast = true ∨
        FrameGoing txMem rxMem inp data (after txMem rxMem inp v).frameConfig v (j + 1) ∧
          (after txMem rxMem inp (v + 1 + (j + 1))).txRank < (after txMem rxMem inp (v + 1 + j)).txRank := by
    by_cases hl : (after txMem rxMem inp (v + 1 + j)).shiftsLast
    · exact .inl hl
    · have hon := he (v + 1 + j) (by omega)
      exact .inr ⟨h.next hon hl, txRank_lt ⟨hon, h.noBreak⟩ h.busy⟩
  obtain ⟨j, -, hlast, -, hall⟩ := Clocked.first_event_while
    (fun j ↦ (after txMem rxMem inp (v + 1 + j)).txRank) hstep hfirst
  refine ⟨v + 1 + j, by omega, ⟨hload, hlast, ?_, ?_⟩, ?_⟩
  · rw [show v + 1 + j - v = j + 1 by omega]
    exact (hall j (Nat.zero_le j) (Nat.le_refl j)).complete hlast
  · intro t hvt hte hnone
    have hs : ¬ (after txMem rxMem inp t).shiftsBit := by
      intro hs
      rw [shiftedBit, if_pos hs] at hnone
      cases hnone
    apply posedge_line_hold _ hs
    rcases Nat.lt_or_eq_of_le hvt with hlt | rfl
    · obtain ⟨x, rfl⟩ := Nat.exists_eq_add_of_le (show v + 1 ≤ t from hlt)
      exact ⟨he _ hvt, (hall x (Nat.zero_le x) (by omega)).noBreak⟩
    · exact hsends
  · intro t hvt hte
    obtain ⟨x, rfl⟩ := Nat.exists_eq_add_of_le (show v + 1 ≤ t from hvt)
    have hx := hall x (Nat.zero_le x) (by omega)
    exact ⟨hx.noBreak, hx.busy⟩

/-! ## The pace -/

theorem counter_of_load (h : Sends s) (h0 : s.tx.bitsRemaining = 0#5) (hload : s.loadsByte = some data) :
    (posedge s i).tx.counter = 0 := by
  rw [posedge_tx_idle h h0, hload]
  rfl

theorem counter_le (h : Sends s) : (posedge s i).tx.counter.toNat ≤ s.tx.counter.toNat + 1 := by
  by_cases h0 : s.tx.bitsRemaining = 0#5
  · rw [posedge_tx_idle h h0]
    cases s.loadsByte with
    | none => exact Nat.le_succ _
    | some b => exact Nat.zero_le _
  · by_cases hs : s.shiftsBit
    · rw [posedge_tx_shift hs]
      exact Nat.zero_le _
    · obtain ⟨hlt, htx⟩ := posedge_tx_wait (i := i) h h0 hs
      rw [htx]
      show (s.tx.counter + 1).toNat ≤ _
      bv_omega

-- The counter of the serializer has not reached the cycles since a bit or the load.
theorem counter_since (hsends : ∀ t, v ≤ t → t ≤ e → Sends (after txMem rxMem inp t))
    (h0 : (after txMem rxMem inp v).tx.bitsRemaining = 0#5)
    (hload : (after txMem rxMem inp v).loadsByte = some data) (hvu : v + 1 ≤ u) (hue : u ≤ e) (hvt : v ≤ t)
    (htu : t < u) (ht : t = v ∨ (after txMem rxMem inp t).shiftsBit) :
    t + 1 + (after txMem rxMem inp u).tx.counter.toNat ≤ u := by
  induction u, hvu using Nat.le_induction with
  | base =>
    have hzero := counter_of_load (i := inp v) (hsends v (Nat.le_refl v) (by omega)) h0 hload
    rw [← after_succ] at hzero
    rw [hzero]
    show t + 1 + 0 ≤ v + 1
    omega
  | succ u hvu ih =>
    by_cases hnow : t = u
    · have hs : (after txMem rxMem inp u).shiftsBit := by
        subst hnow
        exact ht.resolve_left (by omega)
      rw [after_succ, posedge_tx_shift hs]
      show t + 1 + 0 ≤ u + 1
      omega
    · have hprev := ih (by omega) (by omega)
      have hstep := counter_le (i := inp u) (hsends u (by omega) (by omega))
      rw [← after_succ] at hstep
      omega

theorem paced_of_load (hsends : ∀ t, v ≤ t → t ≤ e → Sends (after txMem rxMem inp t))
    (h0 : (after txMem rxMem inp v).tx.bitsRemaining = 0#5)
    (hload : (after txMem rxMem inp v).loadsByte = some data) : Paced txMem rxMem inp v e := by
  intro t u hvt htu hue ht hs
  have hsince := counter_since hsends h0 hload (show v + 1 ≤ u by omega) hue hvt htu ht
  simp only [shiftsBit, Bool.and_eq_true, decide_eq_true_eq] at hs
  have hfull : (after txMem rxMem inp u).baudDiv.toNat ≤ (after txMem rxMem inp u).tx.counter.toNat := hs.2
  unfold bitTime
  omega

/-! ## A break -/

theorem breakTick_after (t : Nat) : (after txMem rxMem inp t).lin.breakActive = false →
    (after txMem rxMem inp t).lin.breakTick = 0 := by
  induction t with
  | zero => exact fun _ ↦ rfl
  | succ t ih => exact posedge_breakTick ih

/-- A break in the cycle `j` after its first one. -/
structure BreakGoing (txMem rxMem : BitVec 3 → Byte) (inp : Nat → Inputs) (a j : Nat) : Prop where
  active : (after txMem rxMem inp (a + 1 + j)).lin.breakActive = true
  low : 0 < j → (after txMem rxMem inp (a + 1 + j)).tx.line = false
  counter : (after txMem rxMem inp (a + 1 + j)).lin.breakCounter.toNat =
    breakBitsSent txMem rxMem inp a (a + j)

theorem breakBitsSent_succ (j : Nat) : breakBitsSent txMem rxMem inp a (a + (j + 1)) =
    breakBitsSent txMem rxMem inp a (a + j) + if (after txMem rxMem inp (a + 1 + j)).lin.breakTick ≥
      (after txMem rxMem inp (a + 1 + j)).baudDiv then 1 else 0 := by
  unfold breakBitsSent
  rw [Nat.add_sub_cancel_left, Nat.add_sub_cancel_left, Nat.count_succ]

/-- An upper bound on the cycles until a break is over. -/
def breakRank (s : Uart) : Nat :=
  (2 ^ 32 - s.lin.breakCounter.toNat) * 2 ^ 32 + (2 ^ 32 - s.lin.breakTick.toNat)

theorem breakRank_lt (he : s.ctrlEnable) (hb : s.lin.breakActive) (hend : ¬ s.breakEnds) :
    (posedge s i).breakRank < s.breakRank := by
  obtain ⟨hcount, htick⟩ := posedge_breakCount (i := i) he hb hend
  have hc := (posedge s i).lin.breakCounter.isLt
  have ht := s.lin.breakTick.isLt
  have ht' := (posedge s i).lin.breakTick.isLt
  unfold breakRank
  by_cases hfull : s.lin.breakTick ≥ s.baudDiv
  · rw [if_pos hfull] at hcount htick
    omega
  · rw [if_neg hfull] at hcount htick
    rw [hcount]
    omega

theorem BreakGoing.next {j : Nat} (h : BreakGoing txMem rxMem inp a j)
    (he : (after txMem rxMem inp (a + 1 + j)).ctrlEnable)
    (hend : ¬ (after txMem rxMem inp (a + 1 + j)).breakEnds) : BreakGoing txMem rxMem inp a (j + 1) := by
  have hgen := posedge_break_on (i := inp (a + 1 + j)) he h.active
  rw [if_neg hend, ← after_succ] at hgen
  refine ⟨congrArg Generator.active hgen, fun _ ↦ ?_, ?_⟩
  · show (posedge (after txMem rxMem inp (a + 1 + j)) _).tx.line = false
    rw [posedge_line, if_pos he, if_pos h.active]
    exact Bool.not_eq_true _ |>.mp hend
  · rw [breakBitsSent_succ, ← h.counter]
    exact (posedge_breakCount he h.active hend).1

-- With a constant bit time the break is `j` cycles old.
theorem breakTime_of_const {d n j : Nat} (he : ∀ t, a ≤ t → (after txMem rxMem inp t).ctrlEnable)
    (hall : ∀ x, x ≤ j → BreakGoing txMem rxMem inp a x)
    (hend : ∀ x, x < j → ¬ (after txMem rxMem inp (a + 1 + x)).breakEnds)
    (htick : (after txMem rxMem inp (a + 1)).lin.breakTick = 0)
    (hconst : ∀ x, x ≤ j → (after txMem rxMem inp (a + 1 + x)).bitTime = d ∧
      (after txMem rxMem inp (a + 1 + x)).breakBits = n) :
    (after txMem rxMem inp (a + 1 + j)).lin.breakTick ≤ (after txMem rxMem inp (a + 1 + j)).baudDiv ∧
      (after txMem rxMem inp (a + 1 + j)).lin.breakCounter ≤
        (after txMem rxMem inp (a + 1 + j)).linBreakLength.setWidth 32 ∧
      (after txMem rxMem inp (a + 1 + j)).breakTime = j := by
  induction j with
  | zero =>
    have hcount := (hall 0 (Nat.le_refl 0)).counter
    have hzero : breakBitsSent txMem rxMem inp a (a + 0) = 0 := by
      rw [breakBitsSent, Nat.add_sub_cancel_left]
      rfl
    rw [hzero] at hcount
    refine ⟨?_, ?_, ?_⟩
    · rw [show (after txMem rxMem inp (a + 1 + 0)).lin.breakTick = 0 from htick]
      exact Nat.zero_le _
    · rw [BitVec.le_def, hcount]
      exact Nat.zero_le _
    · unfold breakTime
      rw [hcount, show (after txMem rxMem inp (a + 1 + 0)).lin.breakTick = 0 from htick]
      exact (Nat.add_zero _).trans (Nat.zero_mul _)
  | succ j ih =>
    obtain ⟨ht, hc, htime⟩ := ih (fun x hx ↦ hall x (by omega)) (fun x hx ↦ hend x (by omega))
      (fun x hx ↦ hconst x (by omega))
    obtain ⟨hbit, hlen⟩ := hconst j (by omega)
    obtain ⟨hbit', hlen'⟩ := hconst (j + 1) (Nat.le_refl _)
    have hbaud : (after txMem rxMem inp (a + 1 + j + 1)).baudDiv = (after txMem rxMem inp (a + 1 + j)).baudDiv := by
      apply BitVec.eq_of_toNat_eq
      exact Nat.succ.inj (hbit'.trans hbit.symm)
    have hlength : (after txMem rxMem inp (a + 1 + j + 1)).linBreakLength =
        (after txMem rxMem inp (a + 1 + j)).linBreakLength :=
      BitVec.eq_of_toNat_eq (hlen'.trans hlen.symm)
    have hstep := posedge_breakTime (i := inp (a + 1 + j)) (he _ (by omega)) (hall j (by omega)).active
      (hend j (Nat.lt_succ_self j)) ht hc hbaud
    rw [← after_succ, ← hbaud, ← hlength, htime] at hstep
    exact hstep

-- A break that starts is sent in full.
theorem breakSent_of_start (he : ∀ t, a ≤ t → (after txMem rxMem inp t).ctrlEnable)
    (hstart : (after txMem rxMem inp a).breakStarts) : ∃ b, BreakSent txMem rxMem inp a b ∧
      (after txMem rxMem inp b).breakEnds ∧
      (∀ t, a < t → t ≤ b → (after txMem rxMem inp t).lin.breakActive) ∧
      ∀ t, a < t → t < b → ¬ (after txMem rxMem inp t).breakEnds := by
  have hoff : (after txMem rxMem inp a).lin.breakActive = false := by
    simp only [breakStarts, Bool.and_eq_true, Bool.not_eq_true'] at hstart
    exact hstart.1.1.1.1.2
  have hgen := posedge_break_off (i := inp a) (he a (Nat.le_refl a)) hoff
  rw [hstart, ← after_succ] at hgen
  have htick : (after txMem rxMem inp (a + 1)).lin.breakTick = 0 :=
    (congrArg Generator.tick hgen).trans (breakTick_after a hoff)
  have hfirst : BreakGoing txMem rxMem inp a 0 := by
    refine ⟨congrArg Generator.active hgen, fun h ↦ absurd h (Nat.lt_irrefl 0), ?_⟩
    rw [breakBitsSent, Nat.add_sub_cancel_left]
    exact congrArg (fun g ↦ (Generator.counter g).toNat) hgen
  have hstep (j : Nat) (h : BreakGoing txMem rxMem inp a j) :
      (after txMem rxMem inp (a + 1 + j)).breakEnds = true ∨ BreakGoing txMem rxMem inp a (j + 1) ∧
        (after txMem rxMem inp (a + 1 + (j + 1))).breakRank < (after txMem rxMem inp (a + 1 + j)).breakRank := by
    by_cases hend : (after txMem rxMem inp (a + 1 + j)).breakEnds
    · exact .inl hend
    · have hon := he (a + 1 + j) (by omega)
      exact .inr ⟨h.next hon hend, breakRank_lt hon h.active hend⟩
  obtain ⟨j, -, hlast, hbefore, hall⟩ := Clocked.first_event_while
    (fun j ↦ (after txMem rxMem inp (a + 1 + j)).breakRank) hstep hfirst
  have hgoing (x : Nat) (hx : x ≤ j) : BreakGoing txMem rxMem inp a x := hall x (Nat.zero_le x) hx
  have hsplit (t : Nat) (h1 : a < t) (h2 : t ≤ a + 1 + j) : ∃ x, x ≤ j ∧ t = a + 1 + x :=
    ⟨t - (a + 1), by omega, by omega⟩
  have hends := hlast
  simp only [breakEnds, Bool.and_eq_true, decide_eq_true_eq] at hends
  refine ⟨a + 1 + j, ⟨hstart, by omega, ?_, ?_, ?_⟩, hlast, ?_, ?_⟩
  · intro t h1 h2
    obtain ⟨x, hx, rfl⟩ := hsplit t (by omega) h2
    exact (hgoing x hx).low (by omega)
  · have hcount := (hgoing j (Nat.le_refl j)).counter
    have hfull : (after txMem rxMem inp (a + 1 + j)).breakBits ≤
        (after txMem rxMem inp (a + 1 + j)).lin.breakCounter.toNat := by
      rw [← length_toNat]
      exact hends.2
    rw [show a + 1 + j = a + (j + 1) by omega, breakBitsSent_succ, if_pos hends.1, ← hcount]
    rw [show a + 1 + j = a + (j + 1) by omega] at hfull ⊢
    omega
  · intro d n hconst
    obtain ⟨ht, hc, htime⟩ := breakTime_of_const he hgoing (fun x hx ↦ hbefore x (Nat.zero_le x) hx) htick
      (fun x hx ↦ hconst (a + 1 + x) (by omega) (by omega))
    have hlen := (breakEnds_iff ht hc).mp hlast
    obtain ⟨hd, hn⟩ := hconst (a + 1 + j) (by omega) (Nat.le_refl _)
    rw [htime, hd, hn] at hlen
    omega
  · intro t h1 h2
    obtain ⟨x, hx, rfl⟩ := hsplit t h1 h2
    exact (hgoing x hx).active
  · intro t h1 h2
    obtain ⟨x, hx, rfl⟩ := hsplit t h1 (by omega)
    exact hbefore x (Nat.zero_le x) (by omega)

end

end Uart

end QarCore
