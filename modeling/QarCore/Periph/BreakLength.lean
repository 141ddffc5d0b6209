import QarCore.Periph.LinFrames

/-!
# How long a LIN break is low

The generator counts the bits of a break from 0 to the programmed length, which makes one more than
programmed, and the first cycle of the first bit has not reached the pin.  What is left is one cycle short
of that bit.
-/

namespace QarCore

namespace Uart

variable {s : Uart} {i : Inputs} {baud linCtrl : Word} {x : Nat}

/-- The break length that a value of LIN_CTRL asks for, in bits. -/
def effectiveLength (linCtrl : Word) : Nat :=
  if linCtrl.toNat % 2 ^ 16 = 0 then 13 else linCtrl.toNat % 2 ^ 16

/-- What a break is sent with. -/
structure Programmed (baud linCtrl : Word) (s : Uart) : Prop where
  enabled : s.ctrlEnable = true
  linMode : s.ctrlLinMode = true
  baudDiv : s.baudDiv = baud
  linCtrl : s.lin.ctrl = linCtrl

/-- The cycles that the generator takes for a break. -/
def breakCycles (baud linCtrl : Word) : Nat := (effectiveLength linCtrl + 1) * (baud.toNat + 1)

section

variable (txMem rxMem : BitVec 3 → Byte) (inp : Nat → Inputs)

/-- TX is high in cycle `a`, low for exactly `k` cycles, and high again. -/
structure LowFor (a k : Nat) : Prop where
  before : (after txMem rxMem inp a).tx.line = true
  low : ∀ j < k, (after txMem rxMem inp (a + 1 + j)).tx.line = false
  released : (after txMem rxMem inp (a + 1 + k)).tx.line = true

/-- A break starts in cycle `a`, and what it is sent with is held as long as it is on. -/
structure SendsBreak (baud linCtrl : Word) (a : Nat) : Prop where
  starts : (after txMem rxMem inp a).breakStarts
  held : ∀ t, a ≤ t → (∀ u, a < u → u ≤ t → (after txMem rxMem inp u).lin.breakActive) →
    Programmed baud linCtrl (after txMem rxMem inp t)

end

/-! ## One edge -/

theorem breakBits_eq (s : Uart) : s.breakBits = effectiveLength s.lin.ctrl := by
  have hlow : (s.lin.ctrl.extractLsb' 0 16).toNat = s.lin.ctrl.toNat % 2 ^ 16 := by
    rw [BitVec.extractLsb'_toNat, Nat.shiftRight_zero]
  have hzero : s.lin.ctrl.extractLsb' 0 16 = 0#16 ↔ s.lin.ctrl.toNat % 2 ^ 16 = 0 := by
    rw [← hlow]
    exact BitVec.toNat_eq
  unfold breakBits linBreakLength effectiveLength
  by_cases h0 : s.lin.ctrl.toNat % 2 ^ 16 = 0
  · rw [if_pos (hzero.mpr h0), if_pos h0]
    rfl
  · rw [if_neg (mt hzero.mp h0), if_neg h0, hlow]

theorem Programmed.breakEnds_iff (hs : Programmed baud linCtrl s) (h : BreakAged x s) :
    s.breakEnds ↔ x + 1 = breakCycles baud linCtrl := by
  rw [h.breakEnds_iff, breakBits_eq, bitTime, hs.baudDiv, hs.linCtrl]
  rfl

theorem Programmed.aged_posedge (hs : Programmed baud linCtrl s) (hs' : Programmed baud linCtrl (posedge s i))
    (h : BreakAged x s) (hends : ¬ s.breakEnds) : BreakAged (x + 1) (posedge s i) := by
  have hbaud : (posedge s i).baudDiv = s.baudDiv := by rw [hs'.baudDiv, hs.baudDiv]
  have hlength : (posedge s i).linBreakLength = s.linBreakLength := by
    rw [linBreakLength, linBreakLength, hs'.linCtrl, hs.linCtrl]
  exact h.posedge hs.enabled hends hbaud hlength

/-! ## The whole break -/

section

variable {txMem rxMem : BitVec 3 → Byte} {inp : Nat → Inputs} {a k k' : Nat}

theorem LowFor.unique (h : LowFor txMem rxMem inp a k) (h' : LowFor txMem rxMem inp a k') : k = k' := by
  rcases Nat.lt_trichotomy k k' with hlt | heq | hgt
  · have hlow := h'.low k hlt
    rw [h.released] at hlow
    cases hlow
  · exact heq
  · have hlow := h.low k' hgt
    rw [h'.released] at hlow
    cases hlow

-- The line is high when a break starts: the frame before has ended with a stop bit.
theorem line_of_start (hstart : (after txMem rxMem inp a).breakStarts) :
    (after txMem rxMem inp a).tx.line = true := by
  simp only [breakStarts, Bool.and_eq_true, Bool.not_eq_true', beq_iff_eq] at hstart
  obtain ⟨⟨⟨⟨⟨-, hoff⟩, -⟩, -⟩, h0⟩, -⟩ := hstart
  have hcarries : Carries (after txMem rxMem inp a) (onLine txMem rxMem inp a) := carries_run a
  exact hcarries.line_idle h0 hoff

theorem line_after_start (hstart : (after txMem rxMem inp a).breakStarts) :
    (after txMem rxMem inp (a + 1)).tx.line = true := by
  have hline := line_of_start hstart
  simp only [breakStarts, Bool.and_eq_true, Bool.not_eq_true', beq_iff_eq] at hstart
  obtain ⟨⟨⟨⟨⟨-, hoff⟩, -⟩, he⟩, h0⟩, -⟩ := hstart
  rw [after_succ, posedge_line_hold ⟨he, hoff⟩ (by simp [shiftsBit, h0])]
  exact hline

theorem breakAged_after (hstart : (after txMem rxMem inp a).breakStarts) :
    BreakAged 0 (after txMem rxMem inp (a + 1)) := by
  have hstart' := hstart
  simp only [breakStarts, Bool.and_eq_true, Bool.not_eq_true', beq_iff_eq] at hstart'
  obtain ⟨⟨⟨⟨⟨-, hoff⟩, -⟩, he⟩, -⟩, -⟩ := hstart'
  -- the end of the break before has cleared the tick
  exact breakAged_start he hoff (breakTick_after a hoff) hstart

variable (h : SendsBreak txMem rxMem inp baud linCtrl a)

include h

theorem SendsBreak.aged (hx : x < breakCycles baud linCtrl) :
    BreakAged x (after txMem rxMem inp (a + 1 + x)) ∧
      (∀ u, a < u → u ≤ a + 1 + x → (after txMem rxMem inp u).lin.breakActive) := by
  induction x with
  | zero =>
    have hfirst := breakAged_after h.starts
    refine ⟨hfirst, fun u h1 h2 ↦ ?_⟩
    rw [show u = a + 1 by omega]
    exact hfirst.active
  | succ x ih =>
    obtain ⟨hage, hactive⟩ := ih (by omega)
    have hs := h.held (a + 1 + x) (by omega) hactive
    have hends : ¬ (after txMem rxMem inp (a + 1 + x)).breakEnds := by
      rw [hs.breakEnds_iff hage]
      omega
    have hgen := posedge_break_on (i := inp (a + 1 + x)) hs.enabled hage.active
    rw [if_neg hends, ← after_succ] at hgen
    have hnow : (after txMem rxMem inp (a + 1 + x + 1)).lin.breakActive = true := congrArg Generator.active hgen
    have hactive' (u : Nat) (h1 : a < u) (h2 : u ≤ a + 1 + x + 1) :
        (after txMem rxMem inp u).lin.breakActive := by
      rcases Nat.lt_or_eq_of_le h2 with hlt | rfl
      · exact hactive u h1 (by omega)
      · exact hnow
    have hs' := h.held (a + 1 + x + 1) (by omega) hactive'
    rw [after_succ] at hs'
    exact ⟨hs.aged_posedge hs' hage hends, hactive'⟩

-- In every cycle but its first, and up to its end, a break holds the line low.
theorem SendsBreak.line (hx : x < breakCycles baud linCtrl) :
    (after txMem rxMem inp (a + 1 + x + 1)).tx.line = decide (x + 1 = breakCycles baud linCtrl) := by
  obtain ⟨hage, hactive⟩ := h.aged hx
  have hs := h.held (a + 1 + x) (by omega) hactive
  rw [after_succ, posedge_line, if_pos hs.enabled, if_pos hage.active, Bool.eq_iff_iff,
    hs.breakEnds_iff hage, decide_eq_true_iff]

/-- TX is low for one bit more than programmed, less the one cycle that a break takes to reach the pin. -/
theorem SendsBreak.lowFor : LowFor txMem rxMem inp (a + 1) (breakCycles baud linCtrl - 1) := by
  have hpos : 0 < breakCycles baud linCtrl := Nat.mul_pos (Nat.succ_pos _) (Nat.succ_pos _)
  constructor
  · exact line_after_start h.starts
  · intro j hj
    have hline := h.line (show j < breakCycles baud linCtrl by omega)
    rw [decide_eq_false (by omega)] at hline
    rw [show a + 1 + 1 + j = a + 1 + j + 1 by omega]
    exact hline
  · have hline := h.line (show breakCycles baud linCtrl - 1 < breakCycles baud linCtrl by omega)
    rw [decide_eq_true (by omega)] at hline
    rw [show a + 1 + 1 + (breakCycles baud linCtrl - 1) = a + 1 + (breakCycles baud linCtrl - 1) + 1 by omega]
    exact hline

end

/-- A break is low for exactly the programmed number of bit times if and only if a bit time is one cycle. -/
theorem break_lowFor_iff (txMem rxMem : BitVec 3 → Byte) (inp : Nat → Inputs) (baud linCtrl : Word) (a : Nat)
    (h : SendsBreak txMem rxMem inp baud linCtrl a) :
    LowFor txMem rxMem inp (a + 1) (effectiveLength linCtrl * (baud.toNat + 1)) ↔ baud = 0 := by
  have hlow := h.lowFor
  have hcycles : breakCycles baud linCtrl - 1 = effectiveLength linCtrl * (baud.toNat + 1) + baud.toNat := by
    rw [breakCycles, Nat.succ_mul]
    omega
  constructor
  · intro hexact
    have heq := hlow.unique hexact
    apply BitVec.eq_of_toNat_eq
    show baud.toNat = 0
    omega
  · intro h0
    rw [hcycles, h0] at hlow
    rw [h0]
    exact hlow

/-- Programs BAUD, CTRL and LIN_CTRL, and asks for a break in cycle 3. -/
def breakAsked (baud linCtrl : Word) (t : Nat) : Inputs where
  bus :=
    match t with
    | 0 => ⟨true, false, 0x3#4, baud⟩
    | 1 => ⟨true, false, 0x2#4, 0x21#32⟩
    | 2 => ⟨true, false, 0x8#4, linCtrl⟩
    | 3 => ⟨true, false, 0x9#4, 0x1#32⟩
    | _ => ⟨false, false, 0#4, 0#32⟩
  rx := true

-- The break of such a run, once it is over by cycle `b`.
theorem breakAsked_sends {b : Nat} (hb : 4 < b)
    (hstart : (after (fun _ ↦ 0) (fun _ ↦ 0) (breakAsked baud linCtrl) 4).breakStarts)
    (hend : (after (fun _ ↦ 0) (fun _ ↦ 0) (breakAsked baud linCtrl) b).lin.breakActive = false)
    (hheld : ∀ t < b, 4 ≤ t → let s := after (fun _ ↦ 0) (fun _ ↦ 0) (breakAsked baud linCtrl) t
      s.ctrlEnable = true ∧ s.ctrlLinMode = true ∧ s.baudDiv = baud ∧ s.lin.ctrl = linCtrl) :
    SendsBreak (fun _ ↦ 0) (fun _ ↦ 0) (breakAsked baud linCtrl) baud linCtrl 4 := by
  refine ⟨hstart, fun t ht hactive ↦ ?_⟩
  by_cases htb : t < b
  · obtain ⟨he, hl, hbaud, hctrl⟩ := hheld t htb ht
    exact ⟨he, hl, hbaud, hctrl⟩
  · have hon := hactive b hb (by omega)
    rw [hend] at hon
    cases hon

/-- With one cycle a bit, a break of one bit is low for one cycle. -/
theorem oneCycle_exact : SendsBreak (fun _ ↦ 0) (fun _ ↦ 0) (breakAsked 0 1) 0 1 4 ∧
    LowFor (fun _ ↦ 0) (fun _ ↦ 0) (breakAsked 0 1) 5 1 := by
  have hsends : SendsBreak (fun _ ↦ 0) (fun _ ↦ 0) (breakAsked 0 1) 0 1 4 := by
    apply breakAsked_sends (show 4 < 7 by decide) <;> decide +kernel
  exact ⟨hsends, (break_lowFor_iff (fun _ ↦ 0) (fun _ ↦ 0) (breakAsked 0 1) 0 1 4 hsends).mpr rfl⟩

/-- With two cycles a bit, it is low for three cycles. -/
theorem twoCycles_long : SendsBreak (fun _ ↦ 0) (fun _ ↦ 0) (breakAsked 1 1) 1 1 4 ∧
    ¬ LowFor (fun _ ↦ 0) (fun _ ↦ 0) (breakAsked 1 1) 5 (effectiveLength 1 * (1 + 1)) := by
  constructor
  · apply breakAsked_sends (show 4 < 9 by decide) <;> decide +kernel
  · intro h
    have hlow : (after (fun _ ↦ 0) (fun _ ↦ 0) (breakAsked 1 1) 8).tx.line = false := by decide +kernel
    have htwo : effectiveLength 1 * (1 + 1) = 2 := by decide
    rw [htwo] at h
    exact Bool.false_ne_true (hlow.symm.trans h.released)

end Uart

end QarCore
