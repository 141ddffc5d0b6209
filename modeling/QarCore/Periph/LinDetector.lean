import QarCore.Clocked.Streak
import QarCore.Periph.LinBreak
import QarCore.Periph.UartFraming

/-!
# The LIN break detector

The two counters of the detector are the quotient and the remainder of the low time by the bit time, the
quotient up to 65535.  A data frame ends with a high bit, so a line that carries frames is never low for
more than ten bits.
-/

namespace QarCore

open Clocked (streak le_streak_iff)

namespace Uart

variable {s n : Uart} {i : Inputs} {txMem rxMem : BitVec 3 → Byte} {inp : Nat → Inputs} {d m t v : Nat}

/-- The detector is on and finds the synchronized line low. -/
def findsLow (s : Uart) : Bool := s.ctrlEnable && s.ctrlLinMode && !s.rx.sync2

/-- For how many cycles up to cycle `t`, not included, the detector has found the line low. -/
def lowFor (txMem rxMem : BitVec 3 → Byte) (inp : Nat → Inputs) (t : Nat) : Nat :=
  streak (fun u ↦ (after txMem rxMem inp u).findsLow) t

/-! ## The counters -/

/-- The detector arms header capture in this cycle, whatever the rest of the edge does: the next byte is
taken for the Sync byte, after the end of the low time. -/
def ArmsHeader (s : Uart) : Prop :=
  ∀ n, (detectBreak s n).lin.headerState = 1#2 ∧ (detectBreak s n).lin.headerValid = false ∧
    (detectBreak s n).lin.syncError = false ∧ (detectBreak s n).lin.waitDelimiter = true ∧
    (detectBreak s n).rx.busy = false

-- the arming branch of the block is taken exactly in the cycles that see a break
theorem armsHeader_iff : s.ArmsHeader ↔ s.breakSeen := by
  constructor
  · intro harms
    by_contra hseen
    rw [Bool.not_eq_true] at hseen
    -- without a break the capture is left alone, and it may be off
    let off : Uart := { s with lin := { s.lin with headerState := 0 } }
    have hsame : (detectBreak s off).lin.headerState = 0#2 :=
      congrArg Capture.state (detectBreak_capture (n := off) hseen)
    have hstate := (harms off).1
    rw [hsame] at hstate
    exact absurd hstate (by decide)
  · intro hseen n
    simp only [breakSeen, Bool.and_eq_true, decide_eq_true_eq, Bool.not_eq_true'] at hseen
    obtain ⟨⟨⟨⟨hl, he⟩, hs⟩, ht⟩, hc⟩ := hseen
    by_cases hfull : s.lin.rxLowCounter < 0xFFFF#32 <;>
      simp [detectBreak, hl, he, hs, ht, hc, hfull, armHeader, apply_ite Uart.rx]

-- One edge of the counters, with the detector on or off.
theorem posedge_lowCount :
    (posedge s i).lin.rxLowCounter =
        (if s.findsLow then
          if s.lin.rxTick ≥ s.baudDiv ∧ s.lin.rxLowCounter < 0xFFFF#32 then s.lin.rxLowCounter + 1
          else s.lin.rxLowCounter
        else 0) ∧
      (posedge s i).lin.rxTick =
        (if s.findsLow then if s.lin.rxTick ≥ s.baudDiv then 0 else s.lin.rxTick + 1 else 0) := by
  by_cases he : s.ctrlEnable
  · by_cases hl : s.ctrlLinMode
    · obtain ⟨hcount, htick⟩ := detectBreak_count (i := i) he hl
      rw [hcount, htick, findsLow, he, hl]
      cases s.rx.sync2 <;> exact ⟨rfl, rfl⟩
    · -- without LIN mode the counters are held at zero
      rw [if_neg (by simp [findsLow, hl]), if_neg (by simp [findsLow, hl])]
      show (detectBreak s _).lin.rxLowCounter = 0 ∧ (detectBreak s _).lin.rxTick = 0
      rw [detectBreak, if_neg (by simp [hl])]
      exact ⟨rfl, rfl⟩
  · rw [if_neg (by simp [findsLow, he]), if_neg (by simp [findsLow, he])]
    show (detectBreak s _).lin.rxLowCounter = 0 ∧ (detectBreak s _).lin.rxTick = 0
    rw [detectBreak, if_neg (by simp [he])]
    exact ⟨rfl, rfl⟩

/-- The counters after `m` low cycles of `d` to the bit. -/
structure Counted (d m : Nat) (s : Uart) : Prop where
  bits : s.lin.rxLowCounter.toNat = min (m / d) 0xFFFF
  tick : s.lin.rxTick.toNat = m % d

theorem succ_div_mod (hd : 0 < d) (m : Nat) :
    (m + 1) / d = (if m % d + 1 = d then m / d + 1 else m / d) ∧
      (m + 1) % d = if m % d + 1 = d then 0 else m % d + 1 := by
  have hdm := Nat.div_add_mod m d
  have hlt := Nat.mod_lt m hd
  rw [Nat.div_mod_unique hd]
  split_ifs with h
  · rw [Nat.mul_succ]
    omega
  · omega

theorem Counted.posedge (h : Counted d m s) (hd : s.bitTime = d) (hl : s.findsLow) :
    Counted d (m + 1) (Uart.posedge s i) := by
  obtain ⟨hcount, htick⟩ := posedge_lowCount (s := s) (i := i)
  have hpos : 0 < d := by rw [← hd]; exact Nat.succ_pos _
  have hbit : s.baudDiv.toNat + 1 = d := hd
  have hlt := Nat.mod_lt m hpos
  obtain ⟨hdiv, hmod⟩ := succ_div_mod hpos m
  have hbits := h.bits
  have htk := h.tick
  have hfull : s.lin.rxTick ≥ s.baudDiv ↔ m % d + 1 = d := by
    show s.baudDiv.toNat ≤ s.lin.rxTick.toNat ↔ _
    omega
  have hroom : s.lin.rxLowCounter < 0xFFFF#32 ↔ m / d < 0xFFFF := by
    show s.lin.rxLowCounter.toNat < 0xFFFF ↔ _
    omega
  rw [if_pos hl] at hcount htick
  simp only [hfull, hroom] at hcount htick
  constructor
  · rw [hcount, hdiv]
    by_cases hlast : m % d + 1 = d
    · by_cases hr : m / d < 0xFFFF
      · have hstep : (s.lin.rxLowCounter + 1).toNat = s.lin.rxLowCounter.toNat + 1 := by bv_omega
        rw [if_pos ⟨hlast, hr⟩, if_pos hlast, hstep, hbits, Nat.min_eq_left (Nat.le_of_lt hr),
          Nat.min_eq_left hr]
      · have hge := Nat.le_of_not_lt hr
        rw [if_neg (fun hand ↦ hr hand.2), if_pos hlast, hbits, Nat.min_eq_right hge,
          Nat.min_eq_right (Nat.le_succ_of_le hge)]
    · rw [if_neg (fun hand ↦ hlast hand.1), if_neg hlast]
      exact hbits
  · rw [htick, hmod]
    by_cases hlast : m % d + 1 = d
    · rw [if_pos hlast, if_pos hlast]
      rfl
    · have hmax := s.baudDiv.isLt
      have hstep : (s.lin.rxTick + 1).toNat = s.lin.rxTick.toNat + 1 := by bv_omega
      rw [if_neg hlast, if_neg hlast, hstep, htk]

-- While BAUD does not change the counters count the low time.
theorem counted_lowFor (t : Nat)
    (hbaud : ∀ u, u < t → t ≤ u + lowFor txMem rxMem inp t → (after txMem rxMem inp u).bitTime = d) :
    Counted d (lowFor txMem rxMem inp t) (after txMem rxMem inp t) := by
  induction t with
  | zero =>
    show Counted d 0 (reset txMem rxMem)
    exact ⟨by rw [Nat.zero_div]; rfl, by rw [Nat.zero_mod]; rfl⟩
  | succ t ih =>
    show Counted d (lowFor txMem rxMem inp (t + 1)) (posedge (after txMem rxMem inp t) (inp t))
    have hsucc : lowFor txMem rxMem inp (t + 1) =
        if (after txMem rxMem inp t).findsLow then lowFor txMem rxMem inp t + 1 else 0 := rfl
    by_cases hl : (after txMem rxMem inp t).findsLow
    · rw [if_pos hl] at hsucc
      rw [hsucc] at hbaud ⊢
      exact (ih fun u h1 h2 ↦ hbaud u (by omega) (by omega)).posedge
        (hbaud t (Nat.lt_succ_self t) (by omega)) hl
    · obtain ⟨hcount, htick⟩ := posedge_lowCount (s := after txMem rxMem inp t) (i := inp t)
      rw [if_neg hl] at hcount htick hsucc
      rw [hsucc]
      exact ⟨by rw [hcount, Nat.zero_div]; rfl, by rw [htick, Nat.zero_mod]; rfl⟩

-- A cycle sees a break exactly if it completes a bit and enough bits have been low.
theorem Counted.breakSeen_iff (h : Counted d m s) (hd : s.bitTime = d) (hl : s.findsLow) :
    s.breakSeen ↔ ∃ k, s.breakBits ≤ k ∧ m + 1 = k * d := by
  have hpos : 0 < d := by rw [← hd]; exact Nat.succ_pos _
  have hbit : s.baudDiv.toNat + 1 = d := hd
  have hlt := Nat.mod_lt m hpos
  have hdm := Nat.div_add_mod m d
  have hlen : s.breakBits < 2 ^ 16 := s.linBreakLength.isLt
  have hbits := h.bits
  have htk := h.tick
  have hstep : (s.lin.rxLowCounter + 1#32).toNat = s.lin.rxLowCounter.toNat + 1 := by bv_omega
  simp only [findsLow, Bool.and_eq_true] at hl
  have hseen : s.breakSeen ↔ m % d + 1 = d ∧ s.breakBits ≤ m / d + 1 := by
    simp only [breakSeen, hl, Bool.and_eq_true, decide_eq_true_eq, true_and]
    show s.baudDiv.toNat ≤ s.lin.rxTick.toNat ∧
      (s.linBreakLength.setWidth 32).toNat ≤ (s.lin.rxLowCounter + 1#32).toNat ↔ _
    rw [length_toNat, hstep]
    omega
  rw [hseen]
  constructor
  · rintro ⟨hlast, hk⟩
    refine ⟨m / d + 1, hk, ?_⟩
    rw [Nat.succ_mul, Nat.mul_comm (m / d) d]
    omega
  · rintro ⟨k, hk, hm⟩
    obtain ⟨hdiv, hmod⟩ := succ_div_mod hpos m
    rw [hm, Nat.mul_mod_left] at hmod
    rw [hm, Nat.mul_div_cancel k hpos] at hdiv
    have hlast : m % d + 1 = d := by
      by_contra hne
      rw [if_neg hne] at hmod
      omega
    rw [if_pos hlast] at hdiv
    exact ⟨hlast, by omega⟩

/-! ## Lines that carry data frames -/

/-- A data frame is on the line from cycle `v` on, with `d` cycles to the bit. -/
def FrameOn (line : Nat → Bool) (d : Nat) (fc : FrameConfig) (data : Byte) (v : Nat) : Prop :=
  ∀ j c, j < (calcFrameBits fc).toNat → c < d → line (v + j * d + c) = (buildTxFrame data fc).getLsbD j

/-- Every low cycle of the line is part of a data frame, with any byte and in any format: the frames may
follow each other back to back or after any idle time. -/
def CarriesFrames (line : Nat → Bool) (d : Nat) : Prop :=
  ∀ u, line u = false → ∃ fc data v j c, FrameOn line d fc data v ∧
    j < (calcFrameBits fc).toNat ∧ c < d ∧ u = v + j * d + c

-- Such a line is low for ten bits at the most: the start bit, eight data bits and the parity bit.
theorem CarriesFrames.low_le {line : Nat → Bool} (h : CarriesFrames line d)
    (hlow : ∀ u, v ≤ u → u < v + m → line u = false) : m ≤ 10 * d := by
  by_contra hlong
  obtain ⟨fc, data, start, j, c, hframe, hj, hc, hv⟩ := h v (hlow v (Nat.le_refl v) (by omega))
  have hbit := hframe j c hj hc
  rw [← hv, hlow v (Nat.le_refl v) (by omega)] at hbit
  have hn := calcFrameBits_toNat fc
  have hten : fc.stopAt ≤ 10 := by
    unfold FrameConfig.stopAt
    split <;> omega
  have hstop : j < fc.stopAt := by
    by_contra hge
    rw [buildTxFrame_stop data (by omega) (by split at hn <;> omega)] at hbit
    cases hbit
  -- the first stop bit of the frame comes too early
  have hhigh := hframe fc.stopAt 0 (by split at hn <;> omega) (by omega)
  rw [buildTxFrame_stop data (Nat.le_refl _) (by omega)] at hhigh
  have hafter : v < start + fc.stopAt * d := by
    have hmul := Nat.mul_le_mul_right d (show j + 1 ≤ fc.stopAt from hstop)
    rw [Nat.succ_mul] at hmul
    omega
  have hmul := Nat.mul_le_mul_right d hten
  have hstart : start ≤ v := by
    rw [hv, Nat.add_assoc]
    exact Nat.le_add_right _ _
  rw [hlow (start + fc.stopAt * d + 0) (by omega) (by omega)] at hhigh
  cases hhigh

-- The pin has been low two cycles before the detector has found it low.
theorem rx_of_lowFor (u : Nat) (h1 : t ≤ u + lowFor txMem rxMem inp t) (h2 : u < t) :
    2 ≤ u ∧ (inp (u - 2)).rx = false := by
  have hl := (le_streak_iff.mp (Nat.le_refl (lowFor txMem rxMem inp t))).2 u h1 h2
  simp only [findsLow, Bool.and_eq_true, Bool.not_eq_true', sync2_run, lineAt] at hl
  have hu : ¬ u < 2 := by
    intro hlt
    rw [if_pos hlt] at hl
    exact absurd hl.2 (by decide)
  rw [if_neg hu] at hl
  exact ⟨by omega, hl.2⟩

/-! ## The detector in a run -/

/-- What the break detector is expected to do in cycle `t`. -/
structure DetectsExactly (txMem rxMem : BitVec 3 → Byte) (inp : Nat → Inputs) (t : Nat) : Prop where
  /-- It arms header capture exactly if this cycle completes a low time of `k` bits, for some `k` from
  the break length on. -/
  arms : (after txMem rxMem inp t).ArmsHeader ↔ ∃ k, (after txMem rxMem inp t).breakBits ≤ k ∧
    lowFor txMem rxMem inp (t + 1) = k * (after txMem rxMem inp t).bitTime
  /-- A shorter low pulse never arms it. -/
  short : lowFor txMem rxMem inp (t + 1) <
      (after txMem rxMem inp t).breakBits * (after txMem rxMem inp t).bitTime →
    ¬ (after txMem rxMem inp t).ArmsHeader
  /-- With a break length of 11 or more data frames never arm it. -/
  frames : 11 ≤ (after txMem rxMem inp t).breakBits →
    CarriesFrames (fun v ↦ (inp v).rx) (after txMem rxMem inp t).bitTime →
    ¬ (after txMem rxMem inp t).ArmsHeader

/-- BAUD has stayed the same since the line went low. -/
def BaudHeld (txMem rxMem : BitVec 3 → Byte) (inp : Nat → Inputs) (t : Nat) : Prop :=
  ∀ u, u ≤ t → t < u + lowFor txMem rxMem inp (t + 1) →
    (after txMem rxMem inp u).baudDiv = (after txMem rxMem inp t).baudDiv

theorem arms_iff (hbaud : BaudHeld txMem rxMem inp t) :
    (after txMem rxMem inp t).ArmsHeader ↔ ∃ k, (after txMem rxMem inp t).breakBits ≤ k ∧
      lowFor txMem rxMem inp (t + 1) = k * (after txMem rxMem inp t).bitTime := by
  have hsucc : lowFor txMem rxMem inp (t + 1) =
      if (after txMem rxMem inp t).findsLow then lowFor txMem rxMem inp t + 1 else 0 := rfl
  unfold BaudHeld at hbaud
  rw [armsHeader_iff]
  by_cases hl : (after txMem rxMem inp t).findsLow
  · rw [if_pos hl] at hsucc
    rw [hsucc] at hbaud ⊢
    apply Counted.breakSeen_iff _ rfl hl
    apply counted_lowFor
    intro u h1 h2
    unfold bitTime
    rw [hbaud u (by omega) (by omega)]
  · rw [if_neg hl] at hsucc
    rw [hsucc]
    constructor
    · intro hseen
      refine absurd ?_ hl
      simp only [breakSeen, Bool.and_eq_true] at hseen
      simp [findsLow, hseen]
    · rintro ⟨k, hk, hz⟩
      -- a break has at least one bit, and a bit at least one cycle
      have hlen := breakBits_pos (s := after txMem rxMem inp t)
      have hmul := Nat.mul_le_mul_right (after txMem rxMem inp t).bitTime (show 1 ≤ k by omega)
      unfold bitTime at hmul hz
      omega

-- the low time begins two cycles earlier on the pin
theorem lowFor_le_of_frames (hd : 0 < d) (hline : CarriesFrames (fun v ↦ (inp v).rx) d) :
    lowFor txMem rxMem inp (t + 1) ≤ 10 * d := by
  have hpin (u : Nat) (h1 : t + 1 ≤ u + lowFor txMem rxMem inp (t + 1)) (h2 : u < t + 1) :
      2 ≤ u ∧ (inp (u - 2)).rx = false :=
    rx_of_lowFor u h1 h2
  have hle : lowFor txMem rxMem inp (t + 1) ≤ t + 1 := Clocked.streak_le _ _
  generalize lowFor txMem rxMem inp (t + 1) = p at hpin hle ⊢
  by_cases hp : p = 0
  · omega
  · apply hline.low_le (v := t + 1 - p - 2)
    intro u h1 h2
    have hfirst := (hpin (t + 1 - p) (by omega) (by omega)).1
    have hrx := (hpin (u + 2) (by omega) (by omega)).2
    rwa [Nat.add_sub_cancel] at hrx

/-- The break detector is exact: for every line, every break length and every BAUD that stays constant
while the line is low. -/
theorem detector_exact (hbaud : BaudHeld txMem rxMem inp t) : DetectsExactly txMem rxMem inp t where
  arms := arms_iff hbaud
  short := by
    intro hlt harms
    obtain ⟨k, hk, hm⟩ := (arms_iff hbaud).mp harms
    have hmul := Nat.mul_le_mul_right (after txMem rxMem inp t).bitTime hk
    omega
  frames := by
    intro hlen hline harms
    obtain ⟨k, hk, hm⟩ := (arms_iff hbaud).mp harms
    have hbit : 0 < (after txMem rxMem inp t).bitTime := Nat.succ_pos _
    have hten : lowFor txMem rxMem inp (t + 1) ≤ 10 * (after txMem rxMem inp t).bitTime :=
      lowFor_le_of_frames hbit hline
    have hmul := Nat.mul_le_mul_right (after txMem rxMem inp t).bitTime (show 11 ≤ k by omega)
    rw [← hm] at hmul
    omega

/-- LIN mode with one cycle to the bit and a break length of two, and a pulse of three low cycles. -/
def threeLow : Nat → Inputs
  | 0 => ⟨⟨true, false, 0x2, 0x21⟩, true⟩
  | 1 => ⟨⟨true, false, 0x3, 0⟩, true⟩
  | 2 => ⟨⟨true, false, 0x8, 2⟩, true⟩
  | 4 | 5 | 6 => ⟨⟨false, false, 0, 0⟩, false⟩
  | _ => ⟨⟨false, false, 0, 0⟩, true⟩

/-- The second low cycle of the synchronized line arms the capture. -/
theorem threeLow_detected : DetectsExactly (fun _ ↦ 0) (fun _ ↦ 0) threeLow 7 ∧
    (after (fun _ ↦ 0) (fun _ ↦ 0) threeLow 7).breakSeen = true := by
  have hbaud : ∀ u < 8, 6 ≤ u → (after (fun _ ↦ 0) (fun _ ↦ 0) threeLow u).baudDiv =
      (after (fun _ ↦ 0) (fun _ ↦ 0) threeLow 7).baudDiv := by decide +kernel
  have hlow : lowFor (fun _ ↦ 0) (fun _ ↦ 0) threeLow 8 = 2 := by decide +kernel
  refine ⟨detector_exact fun u h1 h2 ↦ ?_, by decide +kernel⟩
  rw [hlow] at h2
  exact hbaud u (by omega) (by omega)

end Uart

end QarCore
