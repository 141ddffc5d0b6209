import QarCore.Periph.AdcSequencer

/-!
# Start requests of the ADC

A CTRL write with START set leaves a request pending until the converter is idle and takes it.  The
cycle that takes a request clears the pending flag after the bus write of the same cycle, so a START
that is written in that very cycle leaves nothing behind.
-/

namespace QarCore

open Clocked (run)

namespace Adc

variable {s : Adc} {i : Inputs} {inp : Nat → Inputs} {t u v w : Nat}

/-- The word that an access writes to CTRL. -/
def ctrlWrite (b : BusAccess 5) : Option Word :=
  if b.write && b.addrWord == 0x0#5 then some b.wdata else none

/-- The channel field of a word for CTRL. -/
def channelField (d : Word) : BitVec 2 := d.extractLsb' 4 2

/-- A CTRL write with ENABLE and START set. -/
def startWrite (b : BusAccess 5) : Bool := (ctrlWrite b).any fun d ↦ d.getLsbD 0 && d.getLsbD 2

/-- No CTRL write after cycle `w` clears ENABLE. -/
def StaysEnabled (inp : Nat → Inputs) (w : Nat) : Prop :=
  ∀ v, w < v → ∀ d, ctrlWrite (inp v).bus = some d → d.getLsbD 0 = true

/-- In a cycle after `w` a manual conversion starts, of the channel that the CTRL write of cycle `w` or
a later one has selected, and latches the input of that channel. -/
def Served (inp : Nat → Inputs) (w : Nat) : Prop :=
  ∃ u, w < u ∧ (run posedge reset inp u).manualStarts ∧
    ∃ v d, w ≤ v ∧ v < u ∧ ctrlWrite (inp v).bus = some d ∧
      (run posedge reset inp (u + 1)).activeChannel = channelField d ∧
      (run posedge reset inp (u + 1)).sampleHold = channelValue (inp u) (channelField d)

/-! ## One edge -/

-- What a CTRL write does to the registers behind CTRL.
theorem busWrite_ctrl {b : BusAccess 5} :
    (busWrite s b s).ctrlEnable = (ctrlWrite b).elim s.ctrlEnable (·.getLsbD 0) ∧
      (busWrite s b s).ctrlContinuous = (ctrlWrite b).elim s.ctrlContinuous (·.getLsbD 1) ∧
      (busWrite s b s).ctrlChannel = (ctrlWrite b).elim s.ctrlChannel channelField ∧
      (busWrite s b s).manualStartPending =
        (s.manualStartPending || (ctrlWrite b).any (·.getLsbD 2)) := by
  by_cases hw : b.write
  · by_cases h0 : b.addrWord = 0x0#5
    · have hsome : ctrlWrite b = some b.wdata := by simp [ctrlWrite, hw, h0]
      rw [busWrite, if_pos hw, if_pos h0, hsome]
      refine ⟨rfl, rfl, rfl, ?_⟩
      cases hd : b.wdata.getLsbD 2 <;> simp [writeCtrl, hd, -BitVec.getLsbD_eq_getElem]
    · have hnone : ctrlWrite b = none := by simp [ctrlWrite, h0]
      rw [busWrite, if_pos hw, if_neg h0, hnone]
      simp only [writeIrqStatus, apply_ite Adc.ctrlEnable, apply_ite Adc.ctrlContinuous,
        apply_ite Adc.ctrlChannel, apply_ite Adc.manualStartPending, ite_self, Option.elim_none,
        Option.any_none, Bool.or_false, and_self]
  · have hnone : ctrlWrite b = none := by simp [ctrlWrite, hw]
    rw [busWrite, if_neg hw, hnone]
    exact ⟨rfl, rfl, rfl, (Bool.or_false _).symm⟩

-- Reads and the idle counter leave these registers alone.
theorem accesses_ctrl {n : Adc} (hn : n = idleCounter s (busRead i.bus (busWrite s i.bus s))) :
    n.ctrlEnable = (busWrite s i.bus s).ctrlEnable ∧
      n.ctrlContinuous = (busWrite s i.bus s).ctrlContinuous ∧
      n.ctrlChannel = (busWrite s i.bus s).ctrlChannel ∧
      n.manualStartPending = (busWrite s i.bus s).manualStartPending := by
  subst hn
  simp only [idleCounter, busRead, apply_ite Adc.ctrlEnable, apply_ite Adc.ctrlContinuous,
    apply_ite Adc.ctrlChannel, apply_ite Adc.manualStartPending, ite_self, and_self]

theorem posedge_ctrl : (posedge s i).ctrlEnable = (ctrlWrite i.bus).elim s.ctrlEnable (·.getLsbD 0) ∧
    (posedge s i).ctrlContinuous = (ctrlWrite i.bus).elim s.ctrlContinuous (·.getLsbD 1) ∧
    (posedge s i).ctrlChannel = (ctrlWrite i.bus).elim s.ctrlChannel channelField := by
  obtain ⟨hen, hcont, hchan, -⟩ := busWrite_ctrl (s := s) (b := i.bus)
  rw [← hen, ← hcont, ← hchan]
  obtain ⟨hen, hcont, hchan, -⟩ := accesses_ctrl (s := s) (i := i) rfl
  unfold posedge
  generalize idleCounter s (busRead i.bus (busWrite s i.bus s)) = n at *
  simp only [convert, start, startConversion, finish, apply_ite Adc.ctrlEnable,
    apply_ite Adc.ctrlContinuous, apply_ite Adc.ctrlChannel, ite_self]
  exact ⟨hen, hcont, hchan⟩

-- Taking a request clears the flag, whatever is written in the same cycle.
theorem posedge_pending : (posedge s i).manualStartPending = (!s.manualStarts &&
    (s.manualStartPending || (ctrlWrite i.bus).any (·.getLsbD 2))) := by
  obtain ⟨-, -, -, hwrite⟩ := busWrite_ctrl (s := s) (b := i.bus)
  rw [← hwrite]
  obtain ⟨-, -, -, hpending⟩ := accesses_ctrl (s := s) (i := i) rfl
  unfold posedge manualStarts
  generalize idleCounter s (busRead i.bus (busWrite s i.bus s)) = n at *
  simp only [convert, start, startConversion, finish, apply_ite Adc.manualStartPending, ite_self,
    hpending]
  cases s.busy <;> simp

-- A manual conversion is one of the channel in CTRL.
theorem posedge_manual (h : s.manualStarts) : (posedge s i).activeChannel = s.ctrlChannel ∧
    (posedge s i).sampleHold = channelValue i s.ctrlChannel := by
  simp only [manualStarts, Bool.and_eq_true, Bool.not_eq_true'] at h
  simp [posedge, convert, start, startConversion, h]

/-- A number that falls in every cycle of a conversion. -/
def remaining (s : Adc) : Nat := if s.busy then 256 - s.convCounter.toNat else 0

theorem posedge_remaining (hb : s.busy) : (posedge s i).remaining < s.remaining := by
  have hs : s.remaining = 256 - s.convCounter.toNat := if_pos hb
  have hlt := s.convCounter.isLt
  unfold posedge convert
  rw [if_neg (by simp [hb])]
  by_cases hc : s.convCounter ≥ 7#8
  · rw [if_pos hc]
    have hidle : (finish s (idleCounter s (busRead i.bus (busWrite s i.bus s)))).busy = false := by
      simp only [finish, apply_ite Adc.busy, ite_self]
    rw [remaining, hidle, hs, if_neg (by decide)]
    omega
  · rw [if_neg hc, hs, remaining]
    have hcount : (s.convCounter + 1).toNat = s.convCounter.toNat + 1 := by bv_omega
    split
    · show 256 - (s.convCounter + 1).toNat < _
      omega
    · omega

/-! ## Runs -/

-- From a write on, CTRL holds the channel of the last CTRL write.
theorem run_ctrlChannel {d : Word} (hd : ctrlWrite (inp w).bus = some d) (hwu : w < u) :
    ∃ v d, w ≤ v ∧ v < u ∧ ctrlWrite (inp v).bus = some d ∧
      (run posedge reset inp u).ctrlChannel = channelField d := by
  induction u, hwu using Nat.le_induction with
  | base =>
    obtain ⟨-, -, hchan⟩ := posedge_ctrl (s := run posedge reset inp w) (i := inp w)
    rw [hd] at hchan
    exact ⟨w, d, Nat.le_refl w, Nat.lt_succ_self w, hd, hchan⟩
  | succ u hwu ih =>
    obtain ⟨-, -, hchan⟩ := posedge_ctrl (s := run posedge reset inp u) (i := inp u)
    cases hu : ctrlWrite (inp u).bus with
    | some e =>
      rw [hu] at hchan
      exact ⟨u, e, by omega, Nat.lt_succ_self u, hu, hchan⟩
    | none =>
      obtain ⟨v, e, hwv, hvu, hv, hkeep⟩ := ih
      rw [hu] at hchan
      exact ⟨v, e, hwv, by omega, hv, hchan.trans hkeep⟩

theorem startWrite_cases (h : startWrite (inp w).bus) : ∃ d, ctrlWrite (inp w).bus = some d ∧
    d.getLsbD 0 = true ∧ d.getLsbD 2 = true := by
  simpa [startWrite, Option.any_eq_true] using h

theorem StaysEnabled.from_later (h : StaysEnabled inp w) (hwv : w ≤ v) : StaysEnabled inp v :=
  fun x hx d hd ↦ h x (by omega) d hd

-- The converter stays enabled.
theorem run_enabled {d : Word} (hd : ctrlWrite (inp w).bus = some d) (h0 : d.getLsbD 0 = true)
    (hen : StaysEnabled inp w) (hwu : w < u) : (run posedge reset inp u).ctrlEnable = true := by
  induction u, hwu using Nat.le_induction with
  | base =>
    obtain ⟨henable, -, -⟩ := posedge_ctrl (s := run posedge reset inp w) (i := inp w)
    rw [hd] at henable
    exact henable.trans h0
  | succ u hwu ih =>
    obtain ⟨henable, -, -⟩ := posedge_ctrl (s := run posedge reset inp u) (i := inp u)
    cases hu : ctrlWrite (inp u).bus with
    | some e =>
      rw [hu] at henable
      exact henable.trans (hen u hwu e hu)
    | none =>
      rw [hu] at henable
      exact henable.trans ih

-- A pending request is taken as soon as the converter is idle.
theorem run_takes (hen : ∀ u, v ≤ u → (run posedge reset inp u).ctrlEnable = true)
    (hv : (run posedge reset inp v).manualStartPending = true) :
    ∃ u, v ≤ u ∧ (run posedge reset inp u).manualStarts := by
  let p (u : Nat) : Prop := v ≤ u ∧ (run posedge reset inp u).manualStartPending = true
  have hstep (u : Nat) (hp : p u) : (run posedge reset inp u).manualStarts ∨
      p (u + 1) ∧ (run posedge reset inp (u + 1)).remaining < (run posedge reset inp u).remaining := by
    obtain ⟨hvu, hpend⟩ := hp
    by_cases hb : (run posedge reset inp u).busy
    · have hno : (run posedge reset inp u).manualStarts = false := by simp [manualStarts, hb]
      refine .inr ⟨⟨by omega, ?_⟩, posedge_remaining hb⟩
      rw [Clocked.run_succ, posedge_pending, hno, hpend]
      rfl
    · left
      simp [manualStarts, hb, hpend, hen u hvu]
  exact Clocked.event_of_rank_while p (fun u ↦ (run posedge reset inp u).remaining) hstep
    ⟨Nat.le_refl v, hv⟩

-- A request that nothing else takes in its own cycle is served.
theorem served_of_waits (hw : startWrite (inp w).bus) (hen : StaysEnabled inp w)
    (hfree : ¬ (run posedge reset inp w).manualStarts) : Served inp w := by
  obtain ⟨d, hd, h0, h2⟩ := startWrite_cases hw
  have hpend : (run posedge reset inp (w + 1)).manualStartPending = true := by
    rw [Clocked.run_succ, posedge_pending, hd, Option.any_some, h2]
    simp [hfree]
  obtain ⟨u, hwu, hu⟩ := run_takes (fun x hx ↦ run_enabled hd h0 hen hx) hpend
  obtain ⟨v, e, hwv, hvu, hv, hchan⟩ := run_ctrlChannel hd hwu
  obtain ⟨hactive, hhold⟩ := posedge_manual (i := inp u) hu
  rw [hchan] at hactive hhold
  exact ⟨u, hwu, hu, v, e, hwv, hvu, hv, hactive, hhold⟩

-- Without another request none is pending.
theorem run_not_pending (hw : (run posedge reset inp w).manualStarts) (hwu : w < u)
    (hno : ∀ v, w < v → v < u → (ctrlWrite (inp v).bus).any (·.getLsbD 2) = false) :
    (run posedge reset inp u).manualStartPending = false := by
  induction u, hwu using Nat.le_induction with
  | base =>
    rw [Clocked.run_succ, posedge_pending, hw]
    rfl
  | succ u hwu ih =>
    have hprev := ih fun v h1 h2 ↦ hno v h1 (by omega)
    rw [Clocked.run_succ, posedge_pending, hprev, hno u hwu (Nat.lt_succ_self u)]
    simp

theorem not_pending_of_started (hen : StaysEnabled inp w)
    (hw : (run posedge reset inp w).manualStarts) (hwu : w < u)
    (hno : ∀ v, w < v → v < u → startWrite (inp v).bus = false) :
    (run posedge reset inp u).manualStartPending = false := by
  apply run_not_pending hw hwu
  intro v hwv hvu
  cases hd : ctrlWrite (inp v).bus with
  | none => rfl
  | some d =>
    have hstart := hno v hwv hvu
    rw [startWrite, hd, Option.any_some, hen v hwv d hd] at hstart
    exact hstart

theorem Served.earlier (h : Served inp v) (hwv : w ≤ v) : Served inp w := by
  obtain ⟨u, hvu, hu, x, d, hvx, hxu, hd, hactive, hhold⟩ := h
  exact ⟨u, by omega, hu, x, d, by omega, hxu, hd, hactive, hhold⟩

/-- A start request is served exactly if the converter does not take an earlier one in the cycle of
the write, or if it is made again. -/
theorem served_iff (hw : startWrite (inp w).bus) (hen : StaysEnabled inp w) : Served inp w ↔
    ¬ (run posedge reset inp w).manualStarts ∨ ∃ v, w < v ∧ startWrite (inp v).bus := by
  constructor
  · rintro ⟨u, hwu, hu, -⟩
    by_contra hnone
    push Not at hnone
    obtain ⟨htaken, hno⟩ := hnone
    have hpend := not_pending_of_started hen htaken hwu fun v hwv _ ↦ by simpa using hno v hwv
    simp [manualStarts, hpend] at hu
  · intro h
    by_cases hfree : (run posedge reset inp w).manualStarts
    · -- the first of the later requests finds none pending
      have hlater := h.resolve_left (not_not_intro hfree)
      have hfirst := Nat.find_spec hlater
      have hpend : (run posedge reset inp (Nat.find hlater)).manualStartPending = false := by
        apply not_pending_of_started hen hfree hfirst.1
        intro v hwv hlt
        have hmin := Nat.find_min hlater hlt
        simpa [hwv] using hmin
      have hserved : Served inp (Nat.find hlater) := by
        apply served_of_waits hfirst.2 (hen.from_later hfirst.1.le)
        simp [manualStarts, hpend]
      exact hserved.earlier hfirst.1.le
    · exact served_of_waits hw hen hfree

/-- Requests for channels 0, 1 and 2.  The second is made during the conversion of the first, and the
third in the cycle in which the second is taken. -/
def lateStart (u : Nat) : Inputs where
  bus := match u with
    | 0 => ⟨true, false, 0x0, 0b000101⟩
    | 5 => ⟨true, false, 0x0, 0b010101⟩
    | 10 => ⟨true, false, 0x0, 0b100101⟩
    | _ => ⟨false, false, 0, 0⟩
  ch0 := 100
  ch1 := 200
  ch2 := 300
  ch3 := 0

theorem lateStart_quiet (h : 10 < u) : ctrlWrite (lateStart u).bus = none := by
  unfold lateStart ctrlWrite
  split
  · omega
  · omega
  · omega
  · rfl

theorem lateStart_enabled (w : Nat) : StaysEnabled lateStart w := by
  intro v _ d hd
  unfold lateStart ctrlWrite at hd
  split at hd
  · cases hd; rfl
  · cases hd; rfl
  · cases hd; rfl
  · cases hd

/-- The second request waits for its turn. -/
theorem lateStart_second : Served lateStart 5 :=
  (served_iff (by decide) (lateStart_enabled 5)).mpr (.inl (by decide +kernel))

theorem lateStart_idle (h : 10 < u) : (run posedge reset lateStart u).manualStartPending = false ∧
    (run posedge reset lateStart u).ctrlContinuous = false := by
  induction u, h using Nat.le_induction with
  | base => decide +kernel
  | succ u hu ih =>
    obtain ⟨-, hcont, -⟩ := posedge_ctrl (s := run posedge reset lateStart u) (i := lateStart u)
    rw [lateStart_quiet hu] at hcont
    rw [Clocked.run_succ, posedge_pending, lateStart_quiet hu, ih.1]
    exact ⟨by simp, hcont.trans ih.2⟩

/-- Nothing is converted after the third request, though the converter stays enabled. -/
theorem lateStart_lost : startWrite (lateStart 10).bus ∧ StaysEnabled lateStart 10 ∧
    ¬ Served lateStart 10 ∧ ∀ u, 10 < u → ¬ (run posedge reset lateStart u).starts := by
  have hidle (u : Nat) (hu : 10 < u) : ¬ (run posedge reset lateStart u).starts := by
    obtain ⟨hpend, hcont⟩ := lateStart_idle hu
    simp [starts, manualStarts, seqStarts, continuousReady, hpend, hcont]
  refine ⟨by decide, lateStart_enabled 10, ?_, hidle⟩
  rintro ⟨u, hu, hstart, -⟩
  exact hidle u hu (by simp [starts, hstart])

end Adc

end QarCore
