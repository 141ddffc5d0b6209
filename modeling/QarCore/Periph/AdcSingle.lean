import QarCore.Periph.AdcRequests

/-!
# Single conversions of the ADC

From the write of the start to the result: one conversion is asked for, runs and waits to be read, and
nothing else happens as long as no register is written and RESULT is not read.
-/

namespace QarCore

namespace Adc

variable {s : Adc} {i : Inputs} {ch : BitVec 2} {S : Sample → Prop}

/-- No conversion runs or is asked for, and no result waits. -/
structure AtRest (s : Adc) : Prop where
  busy : s.busy = false
  pending : s.manualStartPending = false
  continuous : s.ctrlContinuous = false
  valid : s.dataValid = false

/-- The start has been written. -/
structure Asked (ch : BitVec 2) (s : Adc) : Prop where
  busy : s.busy = false
  pending : s.manualStartPending
  enable : s.ctrlEnable
  channel : s.ctrlChannel = ch
  continuous : s.ctrlContinuous = false
  valid : s.dataValid = false

/-- The conversion runs, on a sample in `S`. -/
structure Converts (ch : BitVec 2) (S : Sample → Prop) (s : Adc) : Prop where
  busy : s.busy
  pending : s.manualStartPending = false
  channel : s.activeChannel = ch
  sample : S s.sampleHold
  continuous : s.ctrlContinuous = false
  valid : s.dataValid = false

/-- The result waits. -/
structure Ready (ch : BitVec 2) (S : Sample → Prop) (s : Adc) : Prop where
  busy : s.busy = false
  pending : s.manualStartPending = false
  channel : s.resultChannel = ch
  sample : S s.resultValue
  continuous : s.ctrlContinuous = false
  valid : s.dataValid

/-- A single conversion is under way. -/
inductive Single (ch : BitVec 2) (S : Sample → Prop) (s : Adc) : Prop
  | asked (h : Asked ch s)
  | converts (h : Converts ch S s)
  | ready (h : Ready ch S s)

/-- The cycles until the result, and more. -/
def singleRank (s : Adc) : Nat := if s.manualStartPending then 257 else s.remaining

/-- No register is written and RESULT is not read. -/
def Undisturbed (b : BusAccess 5) : Prop := b.write = false ∧ (b.read && b.addrWord == 0x2#5) = false

theorem posedge_undisturbed (h : Undisturbed i.bus) : posedge s i = convert s i (idleCounter s s) := by
  unfold posedge busRead busWrite
  rw [h.2, h.1, if_neg Bool.false_ne_true, if_neg Bool.false_ne_true]

theorem idleCounter_of_manual (h : s.ctrlContinuous = false) : idleCounter s s = { s with sampleCounter := 0 } := by
  unfold idleCounter
  rw [h]
  rfl

theorem AtRest.next (h : s.AtRest) (hb : Undisturbed i.bus) : (posedge s i).AtRest := by
  have hready : s.continuousReady = false := by simp [continuousReady, h.continuous]
  rw [posedge_undisturbed hb, idleCounter_of_manual h.continuous, convert, h.busy, Bool.not_false, if_pos rfl,
    start, h.pending, Bool.false_and, if_neg Bool.false_ne_true, hready, if_neg Bool.false_ne_true]
  exact ⟨rfl, rfl, h.continuous, h.valid⟩

-- The write that starts a conversion.
theorem AtRest.asks {w : Word} (h : s.AtRest) (hbus : i.bus = ⟨true, false, 0x0#5, w⟩) (hen : w.getLsbD 0)
    (hcont : w.getLsbD 1 = false) (hstart : w.getLsbD 2) : Asked (w.extractLsb' 4 2) (posedge s i) := by
  have hready : s.continuousReady = false := by simp [continuousReady, h.continuous]
  have hwrite : busRead i.bus (busWrite s i.bus s) = writeCtrl w s := by rw [hbus]; rfl
  rw [posedge, hwrite, idleCounter, h.continuous, Bool.not_false, if_pos rfl, convert, h.busy, Bool.not_false,
    if_pos rfl, start, h.pending, Bool.false_and, if_neg Bool.false_ne_true, hready, if_neg Bool.false_ne_true,
    writeCtrl, hen, hcont, hstart, if_pos rfl]
  exact ⟨h.busy, rfl, rfl, rfl, rfl, h.valid⟩

theorem Asked.next (h : s.Asked ch) (hb : Undisturbed i.bus) (hS : S (channelValue i ch)) :
    Converts ch S (posedge s i) := by
  rw [posedge_undisturbed hb, idleCounter_of_manual h.continuous, convert, h.busy, Bool.not_false, if_pos rfl,
    start, h.pending, h.enable, Bool.true_and, if_pos rfl, h.channel]
  exact ⟨rfl, rfl, rfl, hS, h.continuous, rfl⟩

theorem Converts.next (h : s.Converts ch S) (hb : Undisturbed i.bus) :
    Ready ch S (posedge s i) ∨ Converts ch S (posedge s i) := by
  rw [posedge_undisturbed hb, idleCounter_of_manual h.continuous, convert, h.busy, Bool.not_true,
    if_neg Bool.false_ne_true]
  by_cases hc : s.convCounter ≥ 7#8
  · left
    rw [if_pos hc, finish, h.valid, if_neg Bool.false_ne_true]
    exact ⟨rfl, h.pending, h.channel, h.sample, h.continuous, rfl⟩
  · right
    rw [if_neg hc]
    exact ⟨rfl, h.pending, h.channel, h.sample, h.continuous, h.valid⟩

theorem Ready.next (h : s.Ready ch S) (hb : Undisturbed i.bus) : Ready ch S (posedge s i) := by
  have hready : s.continuousReady = false := by simp [continuousReady, h.continuous]
  rw [posedge_undisturbed hb, idleCounter_of_manual h.continuous, convert, h.busy, Bool.not_false, if_pos rfl,
    start, h.pending, Bool.false_and, if_neg Bool.false_ne_true, hready, if_neg Bool.false_ne_true]
  exact ⟨rfl, rfl, h.channel, h.sample, h.continuous, h.valid⟩

-- The read takes the result.
theorem Ready.taken (h : s.Ready ch S) (hbus : i.bus = ⟨false, true, 0x2#5, 0⟩) : (posedge s i).AtRest := by
  have hready : s.continuousReady = false := by simp [continuousReady, h.continuous]
  have hread : busRead i.bus (busWrite s i.bus s) =
      { s with dataValid := false, irqStatus := setBit s.irqStatus 0 false } := by rw [hbus]; rfl
  rw [posedge, hread, idleCounter, h.continuous, Bool.not_false, if_pos rfl, convert, h.busy, Bool.not_false,
    if_pos rfl, start, h.pending, Bool.false_and, if_neg Bool.false_ne_true, hready, if_neg Bool.false_ne_true]
  exact ⟨rfl, rfl, rfl, rfl⟩

theorem Single.next (h : s.Single ch S) (hb : Undisturbed i.bus) (hS : S (channelValue i ch)) :
    Single ch S (posedge s i) := by
  cases h with
  | asked h => exact .converts (h.next hb hS)
  | converts h => exact (h.next hb).elim .ready .converts
  | ready h => exact .ready (h.next hb)

theorem Single.ready_of_valid (h : s.Single ch S) (hv : s.dataValid) : Ready ch S s := by
  cases h with
  | asked h => exact absurd (hv.symm.trans h.valid) (by decide)
  | converts h => exact absurd (hv.symm.trans h.valid) (by decide)
  | ready h => exact h

-- Until the result waits, every cycle brings it closer.
theorem Single.falls (h : s.Single ch S) (hv : ¬ s.dataValid) (hb : Undisturbed i.bus) (hS : S (channelValue i ch)) :
    (posedge s i).dataValid ∨ (posedge s i).singleRank < s.singleRank := by
  cases h with
  | asked h =>
    right
    have hnext := h.next hb hS
    rw [singleRank, singleRank, hnext.pending, h.pending, if_pos rfl, if_neg Bool.false_ne_true, remaining]
    split <;> omega
  | converts h =>
    rcases h.next hb with hnext | hnext
    · exact .inl hnext.valid
    · right
      rw [singleRank, singleRank, hnext.pending, h.pending, if_neg Bool.false_ne_true, if_neg Bool.false_ne_true]
      exact posedge_remaining h.busy
  | ready h => exact absurd h.valid hv

end Adc

end QarCore
