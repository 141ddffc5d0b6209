import QarCore.Periph.Adc

/-!
# The sequencer of the ADC

Which channels the sequencer converts and what a result carries.  A SEQ_MASK write points
`seq_channel` at the first channel of the new mask, unless a conversion starts in the same cycle: the
start comes later in the block, and moves on in the old mask.
-/

namespace QarCore

open Clocked (run)

namespace Adc

variable {s : Adc} {i : Inputs} {inp : Nat → Inputs} {t u v : Nat} {m : BitVec 4} {c d : BitVec 2}

def manualStarts (s : Adc) : Bool := !s.busy && (s.manualStartPending && s.ctrlEnable)

/-- The sequencer starts a conversion in this cycle. -/
def seqStarts (s : Adc) : Bool :=
  !s.busy && !(s.manualStartPending && s.ctrlEnable) && s.continuousReady &&
    s.sampleCounter ≥ s.effectiveSampleDiv

def starts (s : Adc) : Bool := s.manualStarts || s.seqStarts

/-- The mask that an access writes to SEQ_MASK. -/
def maskWrite (b : BusAccess 5) : Option (BitVec 4) :=
  if b.write && b.addrWord == 0x5#5 then some (b.wdata.extractLsb' 0 4) else none

/-- The channel is in the mask. -/
abbrev Enabled (m : BitVec 4) (c : BitVec 2) : Prop := m.getLsbD c.toNat = true

/-- `d` is the first channel of the mask that is reached from `c` by counting up, channel 0 coming
after channel 3. -/
def Follows (m : BitVec 4) (c d : BitVec 2) : Prop :=
  Enabled m d ∧ ∃ k < 4, d = c + BitVec.ofNat 2 (k + 1) ∧
    ∀ j < k, ¬ Enabled m (c + BitVec.ofNat 2 (j + 1))

instance : Decidable (Follows m c d) := inferInstanceAs (Decidable (_ ∧ _))

/-- What is expected of the sequencer in the first `t` cycles of a run. -/
structure SequencesUpTo (inp : Nat → Inputs) (t : Nat) : Prop where
  /-- A conversion of the sequencer is one of an enabled channel. -/
  member : ∀ v < t, (run posedge reset inp v).seqStarts →
    Enabled (run posedge reset inp v).seqMask (run posedge reset inp (v + 1)).activeChannel
  /-- Two successive ones, with the mask left alone, are of successive channels of the mask. -/
  order : ∀ u v, u < v → v < t → (run posedge reset inp u).seqStarts →
    (run posedge reset inp v).seqStarts → (∀ w, u < w → w < v → ¬ (run posedge reset inp w).seqStarts) →
    (∀ w, u ≤ w → w < v → maskWrite (inp w).bus = none) →
    Follows (run posedge reset inp v).seqMask (run posedge reset inp (u + 1)).activeChannel
      (run posedge reset inp (v + 1)).activeChannel
  /-- A result is that of the channel and of the input with which its conversion started. -/
  result : ∀ v < t, (run posedge reset inp v).completes → ∃ u < v, (run posedge reset inp u).starts ∧
    (∀ w, u < w → w ≤ v → (run posedge reset inp w).busy) ∧
    (run posedge reset inp (v + 1)).resultChannel = (run posedge reset inp (u + 1)).activeChannel ∧
    (run posedge reset inp (v + 1)).resultValue =
      channelValue (inp u) (run posedge reset inp (u + 1)).activeChannel

/-- A SEQ_MASK write in the cycle in which the sequencer starts, with a mask that lacks the channel
the sequencer moves on to. -/
def maskRace (s : Adc) (b : BusAccess 5) : Prop :=
  s.seqStarts ∧ ∃ m d, maskWrite b = some m ∧ Follows s.seqMask s.seqChannel d ∧ ¬ Enabled m d

/-! ## The channel functions -/

theorem follows_iff : Follows m c d ↔ m ≠ 0 ∧ d = nextChannel m c := by
  revert m c d
  decide +kernel

theorem firstChannel_enabled : m ≠ 0 → Enabled m (firstChannel m) := by
  revert m
  decide +kernel

theorem nextChannel_enabled (h : m ≠ 0) : Enabled m (nextChannel m c) :=
  (follows_iff.mpr ⟨h, rfl⟩).1

/-! ## One edge -/

theorem seqMask_ne_zero (h : s.seqStarts) : s.seqMask ≠ 0#4 := by
  simp only [seqStarts, continuousReady, Bool.and_eq_true, bne_iff_ne] at h
  exact h.1.2.2

-- What the register accesses leave to the conversion logic.
theorem accesses_sequencer {n : Adc} (hn : n = idleCounter s (busRead i.bus (busWrite s i.bus s))) :
    n.seqMask = (maskWrite i.bus).getD s.seqMask ∧
      n.seqChannel = (maskWrite i.bus).elim s.seqChannel firstChannel ∧
      n.activeChannel = s.activeChannel ∧ n.sampleHold = s.sampleHold := by
  subst hn
  refine ⟨?_, ?_, ?_, ?_⟩
  · simp only [idleCounter, busRead, busWrite, writeCtrl, writeIrqStatus, maskWrite,
      apply_ite Adc.seqMask, ite_self]
    by_cases hw : i.bus.write <;> by_cases h5 : i.bus.addrWord = 0x5#5 <;> simp [hw, h5]
  · simp only [idleCounter, busRead, busWrite, writeCtrl, writeIrqStatus, maskWrite,
      apply_ite Adc.seqChannel, ite_self]
    by_cases hw : i.bus.write <;> by_cases h5 : i.bus.addrWord = 0x5#5 <;> simp [hw, h5]
  · simp only [idleCounter, busRead, busWrite, writeCtrl, writeIrqStatus, apply_ite Adc.activeChannel,
      ite_self]
  · simp only [idleCounter, busRead, busWrite, writeCtrl, writeIrqStatus, apply_ite Adc.sampleHold,
      ite_self]

-- A conversion latches its channel and the input of that channel.
theorem posedge_of_manual (h : s.manualStarts) : (posedge s i).busy ∧
    (posedge s i).sampleHold = channelValue i (posedge s i).activeChannel ∧
    (posedge s i).seqChannel = (maskWrite i.bus).elim s.seqChannel firstChannel := by
  obtain ⟨-, hchan, -, -⟩ := accesses_sequencer (s := s) (i := i) rfl
  unfold posedge
  generalize idleCounter s (busRead i.bus (busWrite s i.bus s)) = n at *
  simp only [manualStarts, Bool.and_eq_true, Bool.not_eq_true'] at h
  simp [convert, start, startConversion, h, hchan]

-- A start of the sequencer moves `seq_channel` on in the mask of before the edge.
theorem posedge_of_seq (h : s.seqStarts) : (posedge s i).busy ∧
    (posedge s i).sampleHold = channelValue i (posedge s i).activeChannel ∧
    (posedge s i).activeChannel = s.seqChannel ∧
    (posedge s i).seqChannel = nextChannel s.seqMask s.seqChannel := by
  have hm := seqMask_ne_zero h
  simp only [seqStarts, Bool.and_eq_true, Bool.not_eq_true', decide_eq_true_eq] at h
  obtain ⟨⟨⟨hb, hmanual⟩, hr⟩, hc⟩ := h
  simp [posedge, convert, start, startConversion, hb, hmanual, hr, hc, hm]

-- An idle converter that starts nothing.
theorem start_of_not_starts {n : Adc} (hb : s.busy = false) (h : ¬ s.starts) :
    ∃ k, start s i n = { n with sampleCounter := k } := by
  simp only [starts, manualStarts, seqStarts, hb, Bool.not_false, Bool.true_and, Bool.or_eq_true,
    not_or] at h
  unfold start
  rw [if_neg h.1]
  by_cases hr : s.continuousReady
  · rw [if_pos hr]
    by_cases hz : s.seqMask = 0#4
    · exact ⟨_, if_pos hz⟩
    · have hc : ¬ s.sampleCounter ≥ s.effectiveSampleDiv := by
        intro hc
        exact h.2 (by simp [h.1, hr, hc])
      rw [if_neg hz, if_neg hc]
      exact ⟨_, rfl⟩
  · rw [if_neg hr]
    exact ⟨_, rfl⟩

-- Without a start the latches keep what they hold, and an idle converter stays idle.
theorem posedge_of_not_starts (h : ¬ s.starts) :
    (posedge s i).seqChannel = (maskWrite i.bus).elim s.seqChannel firstChannel ∧
      (posedge s i).activeChannel = s.activeChannel ∧ (posedge s i).sampleHold = s.sampleHold ∧
      ((posedge s i).busy → s.busy) := by
  obtain ⟨hbusy, -, -⟩ := accesses_clear (s := s) (i := i) rfl
  obtain ⟨-, hchan, hactive, hhold⟩ := accesses_sequencer (s := s) (i := i) rfl
  unfold posedge
  generalize idleCounter s (busRead i.bus (busWrite s i.bus s)) = n at *
  unfold convert
  by_cases hb : s.busy
  · rw [if_neg (by simp [hb])]
    by_cases hc : s.convCounter ≥ 7#8
    · rw [if_pos hc, finish]
      split <;> exact ⟨hchan, hactive, hhold, fun _ ↦ hb⟩
    · rw [if_neg hc]
      exact ⟨hchan, hactive, hhold, fun _ ↦ hb⟩
  · rw [Bool.not_eq_true] at hb
    obtain ⟨k, hk⟩ := start_of_not_starts (i := i) (n := n) hb h
    rw [if_pos (by simp [hb]), hk]
    exact ⟨hchan, hactive, hhold, fun hn ↦ hbusy ▸ hn⟩

theorem reset_enabled : Enabled reset.seqMask reset.seqChannel := by decide

theorem posedge_seqMask : (posedge s i).seqMask = (maskWrite i.bus).getD s.seqMask := by
  obtain ⟨hmask, -, -, -⟩ := accesses_sequencer (s := s) (i := i) rfl
  unfold posedge
  generalize idleCounter s (busRead i.bus (busWrite s i.bus s)) = n at *
  simp only [convert, start, startConversion, finish, apply_ite Adc.seqMask, ite_self]
  exact hmask

-- Only a SEQ_MASK write and a start of the sequencer change `seq_channel`.
theorem posedge_seqChannel (h : ¬ s.seqStarts) :
    (posedge s i).seqChannel = (maskWrite i.bus).elim s.seqChannel firstChannel := by
  by_cases hm : s.manualStarts
  · exact (posedge_of_manual hm).2.2
  · exact (posedge_of_not_starts (by simp [starts, hm, h])).1

-- A completion hands over what was latched.
theorem posedge_of_completes (h : s.completes) :
    (posedge s i).resultChannel = s.activeChannel ∧ (posedge s i).resultValue = s.sampleHold := by
  simp only [completes, Bool.and_eq_true, decide_eq_true_eq] at h
  unfold posedge convert finish
  rw [if_neg (by simp [h.1]), if_pos h.2]
  constructor
  · simp only [apply_ite Adc.resultChannel, ite_self]
  · simp only [apply_ite Adc.resultValue, ite_self]

/-! ## Runs -/

-- A busy converter is in a conversion that it started, and still holds what that start latched.
theorem run_busy (h : (run posedge reset inp t).busy) : ∃ u < t, (run posedge reset inp u).starts ∧
    (∀ w, u < w → w ≤ t → (run posedge reset inp w).busy) ∧
    (run posedge reset inp t).activeChannel = (run posedge reset inp (u + 1)).activeChannel ∧
    (run posedge reset inp t).sampleHold =
      channelValue (inp u) (run posedge reset inp (u + 1)).activeChannel := by
  induction t with
  | zero => cases h
  | succ t ih =>
    by_cases hs : (run posedge reset inp t).starts
    · refine ⟨t, by omega, hs, ?_, rfl, ?_⟩
      · intro w hw hle
        rwa [show w = t + 1 by omega]
      · rw [starts, Bool.or_eq_true] at hs
        rcases hs with hs | hs
        · exact (posedge_of_manual hs).2.1
        · exact (posedge_of_seq hs).2.1
    · obtain ⟨-, hactive, hhold, hbusy⟩ := posedge_of_not_starts (i := inp t) hs
      obtain ⟨u, hu, hstart, hall, ha, hv⟩ := ih (hbusy h)
      refine ⟨u, by omega, hstart, ?_, hactive.trans ha, hhold.trans hv⟩
      intro w hw hle
      by_cases hlast : w = t + 1
      · rwa [hlast]
      · exact hall w hw (by omega)

-- From a start of the sequencer on, `seq_channel` is the next channel until the mask is written or the
-- sequencer starts again.
theorem run_next (hs : (run posedge reset inp u).seqStarts) (huv : u < v)
    (hno : ∀ w, u < w → w < v → ¬ (run posedge reset inp w).seqStarts)
    (hw : ∀ w, u ≤ w → w < v → maskWrite (inp w).bus = none) :
    (run posedge reset inp v).seqMask = (run posedge reset inp u).seqMask ∧
      (run posedge reset inp v).seqChannel =
        nextChannel (run posedge reset inp u).seqMask (run posedge reset inp u).seqChannel := by
  induction v, huv using Nat.le_induction with
  | base =>
    have hmask := posedge_seqMask (s := run posedge reset inp u) (i := inp u)
    rw [hw u (Nat.le_refl u) (Nat.lt_succ_self u)] at hmask
    exact ⟨hmask, (posedge_of_seq hs).2.2.2⟩
  | succ v huv ih =>
    obtain ⟨hmask, hchan⟩ := ih (fun w h1 h2 ↦ hno w h1 (by omega)) fun w h1 h2 ↦ hw w h1 (by omega)
    have hnone := hw v (by omega) (Nat.lt_succ_self v)
    have hstep := posedge_seqMask (s := run posedge reset inp v) (i := inp v)
    rw [hnone] at hstep
    have hkeep := posedge_seqChannel (i := inp v) (hno v (by omega) (Nat.lt_succ_self v))
    rw [hnone] at hkeep
    exact ⟨hstep.trans hmask, hkeep.trans hchan⟩

-- `seq_channel` is in the mask, unless a race has left it outside since the last SEQ_MASK write.
theorem run_seqChannel (inp : Nat → Inputs) (t : Nat) :
    ((run posedge reset inp t).seqMask = 0#4 ∨
        Enabled (run posedge reset inp t).seqMask (run posedge reset inp t).seqChannel) ∨
      ∃ u < t, maskRace (run posedge reset inp u) (inp u).bus ∧
        ∀ w, u < w → w < t → maskWrite (inp w).bus = none := by
  induction t with
  | zero => exact .inl (.inr reset_enabled)
  | succ t ih =>
    set S := run posedge reset inp with hS
    have hmask : (S (t + 1)).seqMask = (maskWrite (inp t).bus).getD (S t).seqMask := posedge_seqMask
    by_cases hs : (S t).seqStarts
    · have hchan : (S (t + 1)).seqChannel = nextChannel (S t).seqMask (S t).seqChannel :=
        (posedge_of_seq hs).2.2.2
      have hne := seqMask_ne_zero hs
      rw [hmask, hchan]
      cases hw : maskWrite (inp t).bus with
      | none => exact .inl (.inr (nextChannel_enabled hne))
      | some m =>
        by_cases he : Enabled m (nextChannel (S t).seqMask (S t).seqChannel)
        · exact .inl (.inr he)
        · -- the write and the start have met
          refine .inr ⟨t, Nat.lt_succ_self t, ⟨hs, m, _, hw, follows_iff.mpr ⟨hne, rfl⟩, he⟩, ?_⟩
          intro w h1 h2
          omega
    · have hchan : (S (t + 1)).seqChannel = (maskWrite (inp t).bus).elim (S t).seqChannel firstChannel :=
        posedge_seqChannel hs
      rw [hmask, hchan]
      cases hw : maskWrite (inp t).bus with
      | some m =>
        left
        by_cases hm : m = 0#4
        · exact .inl hm
        · exact .inr (firstChannel_enabled hm)
      | none =>
        rcases ih with hin | ⟨u, hu, hrace, hquiet⟩
        · exact .inl hin
        · refine .inr ⟨u, by omega, hrace, ?_⟩
          intro w h1 h2
          by_cases hlast : w = t
          · rwa [hlast]
          · exact hquiet w h1 (by omega)

-- After a race `seq_channel` stays outside the mask until the mask is written, as long as every start of the
-- sequencer finds it inside.
theorem run_after_race (hrace : maskRace (run posedge reset inp u) (inp u).bus) (huv : u < v)
    (hw : ∀ w, u < w → w < v → maskWrite (inp w).bus = none)
    (hin : ∀ w, u < w → w < v → (run posedge reset inp w).seqStarts →
      Enabled (run posedge reset inp w).seqMask (run posedge reset inp w).seqChannel) :
    ¬ Enabled (run posedge reset inp v).seqMask (run posedge reset inp v).seqChannel := by
  induction v, huv using Nat.le_induction with
  | base =>
    obtain ⟨hs, m, d, hm, hd, he⟩ := hrace
    have hmask := posedge_seqMask (s := run posedge reset inp u) (i := inp u)
    have hchan := (posedge_of_seq (i := inp u) hs).2.2.2
    rw [hm] at hmask
    rw [← (follows_iff.mp hd).2] at hchan
    show ¬ Enabled (posedge _ _).seqMask (posedge _ _).seqChannel
    rw [hmask, hchan]
    exact he
  | succ v huv ih =>
    have hprev := ih (fun w h1 h2 ↦ hw w h1 (by omega)) fun w h1 h2 ↦ hin w h1 (by omega)
    have hno : ¬ (run posedge reset inp v).seqStarts := by
      intro hs
      exact hprev (hin v huv (Nat.lt_succ_self v) hs)
    have hnone := hw v huv (Nat.lt_succ_self v)
    have hmask := posedge_seqMask (s := run posedge reset inp v) (i := inp v)
    have hchan := posedge_seqChannel (i := inp v) hno
    rw [hnone] at hmask hchan
    show ¬ Enabled (posedge _ _).seqMask (posedge _ _).seqChannel
    rw [hmask, hchan]
    exact hprev

/-- The sequencer does its job in exactly the runs in which a raced SEQ_MASK write is repeated before
the sequencer starts again. -/
theorem sequences_iff (inp : Nat → Inputs) (t : Nat) : SequencesUpTo inp t ↔
    ∀ u v, u < v → v < t → maskRace (run posedge reset inp u) (inp u).bus →
      (run posedge reset inp v).seqStarts → ∃ w, u < w ∧ w < v ∧ maskWrite (inp w).bus ≠ none := by
  set S := run posedge reset inp with hS
  have hstart (v : Nat) (hs : (S v).seqStarts) : (S (v + 1)).activeChannel = (S v).seqChannel :=
    (posedge_of_seq hs).2.2.1
  constructor
  · intro h u v huv hv hrace hs
    have hin (w : Nat) (hw : w < t) (hs : (S w).seqStarts) : Enabled (S w).seqMask (S w).seqChannel :=
      hstart w hs ▸ h.member w hw hs
    by_contra hnone
    apply run_after_race hrace huv _ (fun w h1 h2 ↦ hin w (by omega)) (hin v hv hs)
    intro w h1 h2
    by_contra hw
    exact hnone ⟨w, h1, h2, hw⟩
  · intro h
    constructor
    · intro v hv hs
      rw [hstart v hs]
      rcases run_seqChannel inp v with hin | ⟨u, hu, hrace, hquiet⟩
      · exact hin.resolve_left (seqMask_ne_zero hs)
      · obtain ⟨w, h1, h2, hw⟩ := h u v hu hv hrace hs
        exact absurd (hquiet w h1 h2) hw
    · intro u v huv hv hs hs' hno hw
      obtain ⟨hmask, hnext⟩ := run_next hs huv hno hw
      rw [hstart u hs, hstart v hs', hnext, hmask]
      exact follows_iff.mpr ⟨seqMask_ne_zero hs, rfl⟩
    · intro v hv hc
      have hbusy : (S v).busy := by
        simp only [completes, Bool.and_eq_true] at hc
        exact hc.1
      obtain ⟨u, hu, hstart, hall, ha, hval⟩ := run_busy hbusy
      obtain ⟨hchan, hres⟩ := posedge_of_completes (i := inp v) hc
      exact ⟨u, hu, hstart, hall, hchan.trans ha, hres.trans hval⟩

/-- The sequencer on channel 0 alone, with SAMPLE_DIV 1; the mask is changed to channel 1 in the cycle
in which the first conversion starts. -/
def changeMask (u : Nat) : Inputs where
  bus := match u with
    | 0 => ⟨true, false, 0x6, 1⟩
    | 1 => ⟨true, false, 0x0, 0b11⟩
    | 3 => ⟨true, false, 0x5, 0b0010⟩
    | _ => ⟨false, false, 0, 0⟩
  ch0 := 100
  ch1 := 0
  ch2 := 0
  ch3 := 0

/-- The next conversion is again one of channel 0, which the new mask lacks. -/
theorem changeMask_leaves_mask : ¬ SequencesUpTo changeMask 20 := by
  intro h
  have hin := h.member 13 (by decide) (by decide +kernel)
  exact absurd hin (by decide +kernel)

end Adc

end QarCore
