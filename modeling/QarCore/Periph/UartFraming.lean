import QarCore.Periph.RxFlush
import QarCore.Periph.UartLink

/-!
# Badly framed characters

What the UART makes of the samples of a character.  The last bit is decided on by the same edge that
samples it, so a last stop bit that is low goes unnoticed.
-/

namespace QarCore

open Clocked (trace)

namespace Uart

variable {s n : Uart} {i : Inputs} {fc : FrameConfig} {bs : List Bool} {x : Bool}
  {txMem rxMem : BitVec 3 → Byte} {inp : Nat → Inputs} {k u v : Nat}

/-- A bit is sampled in this cycle. -/
def samplesBit (s : Uart) : Bool := s.rx.busy && s.rx.counter ≥ s.baudDiv

/-- The last bit of a character is sampled. -/
def endsChar (s : Uart) : Bool := s.samplesBit && s.lastBit

/-- The line as the sampler sees it: two cycles late. -/
def lineAt (inp : Nat → Inputs) (u : Nat) : Bool := if u < 2 then true else (inp (u - 2)).rx

section

variable (txMem rxMem : BitVec 3 → Byte) (inp : Nat → Inputs)

/-- The levels sampled after cycle `k` and before cycle `u`. -/
def samples (k u : Nat) : List Bool :=
  trace (fun d ↦ if (after txMem rxMem inp (k + 1 + d)).samplesBit then some (lineAt inp (k + 1 + d))
    else none) (u - (k + 1))

/-- A character received with LIN mode off, from the cycle `k` that finds the line low to the cycle `u`
of its last sample. -/
structure Character (k u : Nat) : Prop where
  idle : (after txMem rxMem inp k).rx.busy = false
  low : lineAt inp k = false
  lt : k < u
  listens : ∀ v, k ≤ v → v ≤ u → Listens (after txMem rxMem inp v)
  ends : (after txMem rxMem inp u).endsChar
  first : ∀ v, k < v → v < u → ¬ (after txMem rxMem inp v).endsChar

end

/-- The start bit or a stop bit has the wrong level. -/
def BadFraming (fc : FrameConfig) (bs : List Bool) : Prop :=
  bs.getD 0 false = true ∨
    ∃ j, fc.stopAt ≤ j ∧ j < (calcFrameBits fc).toNat ∧ bs.getD j true = false

/-- The start bit or a stop bit other than the last has the wrong level. -/
def BadBeforeLast (fc : FrameConfig) (bs : List Bool) : Prop :=
  bs.getD 0 false = true ∨
    ∃ j, fc.stopAt ≤ j ∧ j + 1 < (calcFrameBits fc).toNat ∧ bs.getD j true = false

def LastLow (fc : FrameConfig) (bs : List Bool) : Prop :=
  bs.getD ((calcFrameBits fc).toNat - 1) true = false

/-- The character of this cycle stays out of the FIFO, and a framing error is shown. -/
structure Rejects (s : Uart) (i : Inputs) : Prop where
  notPushed : rxAccepted s = none
  status : (posedge s i).status.getLsbD 2 = true
  irqStatus : (posedge s i).irqStatus.getLsbD 2 = true

/-- IRQ_STATUS clears the framing bit of STATUS. -/
def clearsFraming (b : BusAccess 4) : Bool := b.write && b.addrWord == 0x5#4 && b.wdata.getLsbD 2

/-- The character is dropped for another reason, with an older framing error still shown. -/
def Masked (s : Uart) (b : BusAccess 4) : Prop :=
  (parityMatch s.rx.dataLatch s.rx.frame s.rx.parityLatch = false ∨ s.rxFifo.wideFull) ∧
    s.status.getLsbD 2 = true ∧ clearsFraming b = false

/-! ## The edge that ends a character -/

theorem settled_framing : (settled s i).status.getLsbD 2 =
    (s.status.getLsbD 2 && !clearsFraming i.bus) := by
  have hstatus : (settled s i).status.getLsbD 2 =
      (busWrite s i.bus (synchronize s i.rx s)).status.getLsbD 2 := by
    simp [settled, startBreak, statusBits, busRead, apply_ite Uart.status, getLsbD_setBit,
      -BitVec.getLsbD_eq_getElem]
  rw [hstatus]
  unfold busWrite clearsFraming
  by_cases hw : i.bus.write
  · by_cases h5 : i.bus.addrWord = 0x5#4
    · cases hb : i.bus.wdata.getLsbD 2 <;>
        simp [hw, h5, hb, writeIrqStatus, synchronize, apply_ite Uart.status,
          apply_ite (BitVec.getLsbD · 2), getLsbD_setBit, -BitVec.getLsbD_eq_getElem]
    · simp [hw, h5, writeData, writeLinCmd, writeLinSlaveCtrl, synchronize, apply_ite Uart.status,
        apply_ite (BitVec.getLsbD · 2), getLsbD_setBit, -BitVec.getLsbD_eq_getElem]
  · simp [hw, synchronize]

theorem receive_of_ends (h : Listens s) (he : s.endsChar) : ∃ n', receive s n = finishFrame s n' ∧
    n'.status = n.status ∧ n'.irqStatus = n.irqStatus := by
  simp only [endsChar, samplesBit, Bool.and_eq_true, decide_eq_true_eq] at he
  obtain ⟨⟨hb, hc⟩, hl⟩ := he
  refine ⟨{ sampleBit s { n with rx := { n.rx with counter := 0 } } with
    rx := { (sampleBit s { n with rx := { n.rx with counter := 0 } }).rx with
      bitIndex := s.rx.bitIndex + 1 } }, ?_, ?_, ?_⟩
  · simp [receive, rxSample, h.enabled, hb, hc, hl]
  · simp only [sampleBit, apply_ite Uart.status, ite_self]
  · simp only [sampleBit, apply_ite Uart.irqStatus, ite_self]

-- The framing bit of STATUS and the error interrupt after the edge that ends a character.
theorem posedge_of_ends (h : Listens s) (he : s.endsChar) : ∃ n',
    (posedge s i).status.getLsbD 2 = (finishFrame s n').status.getLsbD 2 ∧
      (posedge s i).irqStatus.getLsbD 2 = (finishFrame s n').irqStatus.getLsbD 2 ∧
      n'.status.getLsbD 2 = (s.status.getLsbD 2 && !clearsFraming i.bus) := by
  obtain ⟨n', hn, hstatus, -⟩ := receive_of_ends (n := transmit s (settled s i)) h he
  have hlin : (posedge s i).irqStatus = (receive s (transmit s (settled s i))).irqStatus := by
    unfold posedge
    simp only [detectBreak, h.linOff, Bool.false_and, Bool.false_eq_true, ↓reduceIte]
    rfl
  refine ⟨n', ?_, ?_, ?_⟩
  · rw [← hn]
    exact detectBreak_status (by decide)
  · rw [← hn, hlin]
  · rw [hstatus, transmit_status (by decide), settled_framing]

theorem rxPush_of_ends (h : Listens s) (he : s.endsChar) : rxPush s =
    if (s.rx.startError || s.rx.stopError) = false ∧
        parityMatch s.rx.dataLatch s.rx.frame s.rx.parityLatch then some s.rx.dataLatch else none := by
  simp only [endsChar, samplesBit, Bool.and_eq_true, decide_eq_true_eq] at he
  obtain ⟨⟨hb, hc⟩, hl⟩ := he
  simp only [rxPush, h.enabled, h.linOff, hb, hc, hl, decide_true, Bool.and_self, Bool.true_and,
    Bool.false_and, Bool.not_false, Bool.and_true]
  cases (s.rx.startError || s.rx.stopError) <;>
    cases parityMatch s.rx.dataLatch s.rx.frame s.rx.parityLatch <;> rfl

-- An error that was latched before the last bit rejects the character.
theorem rejects_of_error (h : Listens s) (he : s.endsChar)
    (hx : (s.rx.startError || s.rx.stopError) = true) : Rejects s i := by
  obtain ⟨n', hstatus, hirq, -⟩ := posedge_of_ends (i := i) h he
  have hnone : rxPush s = none := by
    rw [rxPush_of_ends h he, if_neg (by simp [hx])]
  refine ⟨?_, ?_, ?_⟩
  · rw [rxAccepted, hnone, ite_self]
  · rw [hstatus, finishFrame, if_pos hx]
    exact (getLsbD_setBit _ _ _ _ (by decide)).trans (if_pos rfl)
  · rw [hirq, finishFrame, if_pos hx]
    exact (getLsbD_setBit _ _ _ _ (by decide)).trans (if_pos rfl)

-- Without one the edge shows no framing error of its own.
theorem rejects_iff_masked (h : Listens s) (he : s.endsChar)
    (hx : (s.rx.startError || s.rx.stopError) = false) : Rejects s i ↔ Masked s i.bus := by
  obtain ⟨n', hstatus, hirq, hold⟩ := posedge_of_ends (i := i) h he
  have hpush := rxPush_of_ends h he
  simp only [hx, true_and] at hpush
  have hlin : (s.ctrlLinMode && s.lin.headerState != 0#2) = false := by rw [h.linOff, Bool.false_and]
  -- a character dropped for its parity or for want of room raises the error interrupt alone
  have hdropped (hnone : rxAccepted s = none)
      (hkeep : (finishFrame s n').status.getLsbD 2 = n'.status.getLsbD 2)
      (hset : (finishFrame s n').irqStatus.getLsbD 2 = true) :
      Rejects s i ↔ s.status.getLsbD 2 = true ∧ clearsFraming i.bus = false := by
    have hshown : (posedge s i).status.getLsbD 2 = (s.status.getLsbD 2 && !clearsFraming i.bus) := by
      rw [hstatus, hkeep, hold]
    rw [← Bool.not_eq_true' (clearsFraming i.bus), ← Bool.and_eq_true, ← hshown]
    exact ⟨fun hr ↦ hr.status, fun hr ↦ ⟨hnone, hr, hirq.trans hset⟩⟩
  by_cases hm : parityMatch s.rx.dataLatch s.rx.frame s.rx.parityLatch
  · rw [if_pos hm] at hpush
    by_cases hf : s.rxFifo.wideFull
    · have hfinish : finishFrame s n' = { n' with
          rx := { n'.rx with busy := false }
          status := setBit n'.status 3 true, irqStatus := setBit n'.irqStatus 2 true } := by
        simp [finishFrame, hx, hm, hlin, hf]
      rw [hdropped]
      · simp [Masked, hf]
      · rw [rxAccepted, if_pos hf]
      · rw [hfinish]
        exact (getLsbD_setBit _ _ _ _ (by decide)).trans (if_neg (by decide))
      · rw [hfinish]
        exact (getLsbD_setBit _ _ _ _ (by decide)).trans (if_pos rfl)
    · -- the character goes into the FIFO
      have hsome : rxAccepted s = some s.rx.dataLatch := by rw [rxAccepted, if_neg hf, hpush]
      refine iff_of_false (fun hr ↦ ?_) (fun hk ↦ ?_)
      · have hnone := hr.notPushed
        rw [hsome] at hnone
        cases hnone
      · rcases hk.1 with hpar | hfull
        · rw [hm] at hpar
          cases hpar
        · exact hf hfull
  · rw [Bool.not_eq_true] at hm
    have hfinish : finishFrame s n' = { n' with
        rx := { n'.rx with busy := false }
        status := setBit n'.status 5 true, irqStatus := setBit n'.irqStatus 2 true } := by
      simp [finishFrame, hx, hm]
    rw [hm, if_neg Bool.false_ne_true] at hpush
    rw [hdropped]
    · simp [Masked, hm]
    · rw [rxAccepted, hpush, ite_self]
    · rw [hfinish]
      exact (getLsbD_setBit _ _ _ _ (by decide)).trans (if_neg (by decide))
    · rw [hfinish]
      exact (getLsbD_setBit _ _ _ _ (by decide)).trans (if_pos rfl)

/-! ## Samples -/

theorem samples_succ (hku : k < u) : samples txMem rxMem inp k (u + 1) = samples txMem rxMem inp k u ++
    if (after txMem rxMem inp u).samplesBit then [lineAt inp u] else [] := by
  unfold samples
  rw [show u + 1 - (k + 1) = u - (k + 1) + 1 by omega, Clocked.trace_succ,
    show k + 1 + (u - (k + 1)) = u by omega]
  split <;> rfl

-- The synchronizer shows the line of two cycles ago.
theorem sync2_run (u : Nat) : (after txMem rxMem inp u).rx.sync2 = lineAt inp u := by
  match u with
  | 0 => rfl
  | 1 => exact posedge_sync.2
  | u + 2 => exact posedge_sync.2.trans posedge_sync.1

-- In the middle of a character the sampler holds the samples so far.
theorem Character.holds (h : Character txMem rxMem inp k u) (hkv : k < v) (hvu : v ≤ u) :
    RxHolds (after txMem rxMem inp k).frameConfig (after txMem rxMem inp v).rx
      (samples txMem rxMem inp k v) := by
  induction v, hkv using Nat.le_induction with
  | base =>
    have hnil : samples txMem rxMem inp k (k + 1) = [] := by
      rw [samples, Nat.sub_self]
      rfl
    show RxHolds _ (after txMem rxMem inp (k + 1)).rx (samples txMem rxMem inp k (k + 1))
    rw [hnil]
    exact rxHolds_start (h.listens k (Nat.le_refl k) (by omega)).hears h.idle ((sync2_run k).trans h.low)
  | succ v hv ih =>
    have hprev := ih (by omega)
    have hhears := (h.listens v (by omega) (by omega)).hears
    have hno := h.first v hv (by omega)
    rw [samples_succ hv]
    by_cases hc : (after txMem rxMem inp v).rx.counter ≥ (after txMem rxMem inp v).baudDiv
    · have hs : (after txMem rxMem inp v).samplesBit := by
        rw [samplesBit, hprev.busy, Bool.true_and, decide_eq_true_eq]
        exact hc
      rw [if_pos hs, ← sync2_run]
      exact hprev.sample hhears hc fun hl ↦ hno (by rw [endsChar, hs, hl]; rfl)
    · have hs : ¬ (after txMem rxMem inp v).samplesBit := by
        rw [samplesBit, hprev.busy, Bool.true_and, decide_eq_true_eq]
        exact hc
      rw [if_neg hs, List.append_nil]
      exact hprev.wait hhears hc

/-! ## Framing -/

-- The latches of the sampler know of all bits but the last.
theorem errors_iff (h : Latched fc s.rx bs) (hlen : bs.length + 1 = (calcFrameBits fc).toNat) :
    (s.rx.startError || s.rx.stopError) = true ↔ BadBeforeLast fc (bs ++ [x]) := by
  have hpos : 0 < bs.length := by
    rw [calcFrameBits_toNat, FrameConfig.stopAt] at hlen
    split at hlen <;> split at hlen <;> omega
  have hstop : s.rx.stopError = true ↔
      ∃ j, fc.stopAt ≤ j ∧ j + 1 < (calcFrameBits fc).toNat ∧ (bs ++ [x]).getD j true = false := by
    rw [h.stop, List.any_eq_true]
    constructor
    · rintro ⟨y, hy, hlow⟩
      obtain ⟨j, hj, rfl⟩ := List.mem_iff_getElem.mp hy
      rw [List.length_drop] at hj
      rw [List.getElem_drop] at hlow
      refine ⟨fc.stopAt + j, by omega, by omega, ?_⟩
      rw [List.getD_append _ _ _ _ (by omega), List.getD_eq_getElem _ _ (by omega)]
      simpa using hlow
    · rintro ⟨j, hj, hlt, hlow⟩
      have hb : j < bs.length := by omega
      rw [List.getD_append _ _ _ _ hb, List.getD_eq_getElem _ _ hb] at hlow
      refine ⟨bs[j], ?_, by simp [hlow]⟩
      rw [List.mem_iff_getElem]
      refine ⟨j - fc.stopAt, by rw [List.length_drop]; omega, ?_⟩
      rw [List.getElem_drop]
      congr 1
      omega
  rw [Bool.or_eq_true, hstop, h.start, BadBeforeLast, List.getD_append _ _ _ _ hpos]

theorem badFraming_iff : BadFraming fc bs ↔ BadBeforeLast fc bs ∨ LastLow fc bs := by
  have hstop : fc.stopAt + 1 ≤ (calcFrameBits fc).toNat := by
    rw [calcFrameBits_toNat]
    split <;> omega
  constructor
  · rintro (hstart | ⟨j, hj, hlt, hlow⟩)
    · exact .inl (.inl hstart)
    · by_cases hlast : j + 1 < (calcFrameBits fc).toNat
      · exact .inl (.inr ⟨j, hj, hlast, hlow⟩)
      · refine .inr ?_
        rw [LastLow, show (calcFrameBits fc).toNat - 1 = j by omega]
        exact hlow
  · rintro ((hstart | ⟨j, hj, hlt, hlow⟩) | hlast)
    · exact .inl hstart
    · exact .inr ⟨j, hj, by omega, hlow⟩
    · exact .inr ⟨(calcFrameBits fc).toNat - 1, by omega, by omega, hlast⟩

/-- A badly framed character is rejected exactly if the start bit or a stop bit before the last is bad,
or if an older error covers for the last stop bit. -/
theorem rejects_badFraming_iff (h : Character txMem rxMem inp k u) :
    (BadFraming (after txMem rxMem inp k).frameConfig (samples txMem rxMem inp k (u + 1)) →
        Rejects (after txMem rxMem inp u) (inp u)) ↔
      (LastLow (after txMem rxMem inp k).frameConfig (samples txMem rxMem inp k (u + 1)) →
        BadBeforeLast (after txMem rxMem inp k).frameConfig (samples txMem rxMem inp k (u + 1)) ∨
          Masked (after txMem rxMem inp u) (inp u).bus) := by
  have hholds := h.holds h.lt (Nat.le_refl u)
  have hlisten := h.listens u (Nat.le_of_lt h.lt) (Nat.le_refl u)
  obtain ⟨hsample, hlast⟩ := Bool.and_eq_true_iff.mp h.ends
  have hsamples : samples txMem rxMem inp k (u + 1) =
      samples txMem rxMem inp k u ++ [lineAt inp u] := by
    rw [samples_succ h.lt, if_pos hsample]
  have herrors := errors_iff (x := lineAt inp u) hholds.latched (hholds.lastBit_iff.mp hlast)
  rw [← hsamples] at herrors
  rw [badFraming_iff]
  by_cases hx : ((after txMem rxMem inp u).rx.startError || (after txMem rxMem inp u).rx.stopError) = true
  · have hrejects := rejects_of_error (i := inp u) hlisten h.ends hx
    exact iff_of_true (fun _ ↦ hrejects) (fun _ ↦ .inl (herrors.mp hx))
  · -- only the last stop bit can be bad
    have hno := mt herrors.mpr hx
    rw [Bool.not_eq_true] at hx
    rw [rejects_iff_masked hlisten h.ends hx]
    simp only [hno, false_or]

/-- BAUD = 2 and a value for CTRL; the character 0xFF with its first stop bit low, from cycle 5 on. -/
def lowStop (ctrl : Word) (t : Nat) : Inputs where
  bus :=
    if t = 0 then ⟨true, false, 0x3, 2⟩
    else if t = 1 then ⟨true, false, 0x2, ctrl⟩
    else ⟨false, false, 0, 0⟩
  rx := !(5 ≤ t && t < 8) && !(32 ≤ t && t < 35)

/-- With two stop bits the character is rejected. -/
theorem lowStop_rejected : Character (fun _ ↦ 0) (fun _ ↦ 0) (lowStop 9) 7 39 ∧
    Rejects (after (fun _ ↦ 0) (fun _ ↦ 0) (lowStop 9) 39) (lowStop 9 39) := by
  have hlisten : ∀ v < 40, 7 ≤ v → (after (fun _ ↦ 0) (fun _ ↦ 0) (lowStop 9) v).ctrlEnable = true ∧
      (after (fun _ ↦ 0) (fun _ ↦ 0) (lowStop 9) v).ctrlLinMode = false := by decide +kernel
  have hfirst : ∀ v < 39, ¬ (after (fun _ ↦ 0) (fun _ ↦ 0) (lowStop 9) v).endsChar := by decide +kernel
  have hchar : Character (fun _ ↦ 0) (fun _ ↦ 0) (lowStop 9) 7 39 :=
    ⟨by decide +kernel, by decide, by decide,
      fun v h1 h2 ↦ ⟨(hlisten v (by omega) h1).1, (hlisten v (by omega) h1).2⟩,
      by decide +kernel, fun v _ h ↦ hfirst v h⟩
  have hbits : (calcFrameBits (after (fun _ ↦ 0) (fun _ ↦ 0) (lowStop 9) 7).frameConfig).toNat = 11 := by
    decide +kernel
  have hstop : (samples (fun _ ↦ 0) (fun _ ↦ 0) (lowStop 9) 7 40).getD 9 true = false := by
    decide +kernel
  have hat : (after (fun _ ↦ 0) (fun _ ↦ 0) (lowStop 9) 7).frameConfig.stopAt = 9 := by decide +kernel
  refine ⟨hchar, (rejects_badFraming_iff hchar).mpr (fun _ ↦ .inl (.inr ⟨9, ?_, ?_, hstop⟩))
    (.inr ⟨9, ?_, ?_, hstop⟩)⟩
  all_goals omega

/-- With one, the low stop bit is the last, and the character goes into the FIFO. -/
theorem lowStop_pushed : Character (fun _ ↦ 0) (fun _ ↦ 0) (lowStop 1) 7 36 ∧
    BadFraming (after (fun _ ↦ 0) (fun _ ↦ 0) (lowStop 1) 7).frameConfig
      (samples (fun _ ↦ 0) (fun _ ↦ 0) (lowStop 1) 7 37) ∧
    ¬ Rejects (after (fun _ ↦ 0) (fun _ ↦ 0) (lowStop 1) 36) (lowStop 1 36) ∧
    (after (fun _ ↦ 0) (fun _ ↦ 0) (lowStop 1) 37).rxFifo.contents = [0xFF] := by
  have hlisten : ∀ v < 37, 7 ≤ v → (after (fun _ ↦ 0) (fun _ ↦ 0) (lowStop 1) v).ctrlEnable = true ∧
      (after (fun _ ↦ 0) (fun _ ↦ 0) (lowStop 1) v).ctrlLinMode = false := by decide +kernel
  have hfirst : ∀ v < 36, ¬ (after (fun _ ↦ 0) (fun _ ↦ 0) (lowStop 1) v).endsChar := by decide +kernel
  refine ⟨?_, ?_, ?_, by decide +kernel⟩
  · exact ⟨by decide +kernel, by decide, by decide,
      fun v h1 h2 ↦ ⟨(hlisten v (by omega) h1).1, (hlisten v (by omega) h1).2⟩,
      by decide +kernel, fun v _ h ↦ hfirst v h⟩
  · exact .inr ⟨9, by decide +kernel, by decide +kernel, by decide +kernel⟩
  · intro hr
    exact absurd hr.notPushed (by decide +kernel)

end Uart

end QarCore
