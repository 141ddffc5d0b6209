import QarCore.Periph.I2cPins

/-!
# Bus conditions of the I2C master

A START condition is SDA falling while SCL stays high, a STOP condition is SDA rising.  The idle engine
lets SCL and SDA go high at once, so what a command shows on the bus depends on the levels it finds.
-/

namespace QarCore

namespace I2c

section

variable (txMem rxMem : BitVec 2 → Byte) (inp : Nat → Inputs) (slave : Nat → Bool)

/-- The SDA line: what the master drives, or what the slave leaves on the released line. -/
def line (u : Nat) : Bool :=
  if (after txMem rxMem inp u).sdaDrive then (after txMem rxMem inp u).sdaState else slave u

/-- SCL is high before and after the edge that ends cycle `u`. -/
def SclStaysHigh (u : Nat) : Prop :=
  (after txMem rxMem inp u).sclState ∧ (after txMem rxMem inp (u + 1)).sclState

def StartSeen (u : Nat) : Prop :=
  SclStaysHigh txMem rxMem inp u ∧ line txMem rxMem inp slave u = true ∧
    line txMem rxMem inp slave (u + 1) = false

def StopSeen (u : Nat) : Prop :=
  SclStaysHigh txMem rxMem inp u ∧ line txMem rxMem inp slave u = false ∧
    line txMem rxMem inp slave (u + 1) = true

/-- The slave keeps to the rule that data is stable while SCL is high. -/
def SlaveStable : Prop := ∀ u, SclStaysHigh txMem rxMem inp u → slave (u + 1) = slave u

/-- Cycle `u` belongs to the command accepted in cycle `v`. -/
def InSpan (v u : Nat) : Prop :=
  v ≤ u ∧ ∀ w, v < w → w ≤ u → (after txMem rxMem inp w).accepted = none

/-- The bus sees one condition for each START and each STOP command, and no other. -/
structure CleanBus : Prop where
  starts : ∀ v, (after txMem rxMem inp v).accepted = some .start →
    ∃! u, InSpan txMem rxMem inp v u ∧ StartSeen txMem rxMem inp slave u
  stops : ∀ v, (after txMem rxMem inp v).accepted = some .stop →
    ∃! u, InSpan txMem rxMem inp v u ∧ StopSeen txMem rxMem inp slave u
  noOtherStart : ∀ u, StartSeen txMem rxMem inp slave u →
    ∃ v, (after txMem rxMem inp v).accepted = some .start ∧ InSpan txMem rxMem inp v u
  noOtherStop : ∀ u, StopSeen txMem rxMem inp slave u →
    ∃ v, (after txMem rxMem inp v).accepted = some .stop ∧ InSpan txMem rxMem inp v u

/-- The levels the commands find. -/
structure CleanLevels : Prop where
  /-- A START finds SCL and SDA high. -/
  start : ∀ v, (after txMem rxMem inp v).accepted = some .start →
    (after txMem rxMem inp v).sclState = true ∧ line txMem rxMem inp slave v = true
  /-- A STOP finds one of them low. -/
  stop : ∀ v, (after txMem rxMem inp v).accepted = some .stop →
    ¬ ((after txMem rxMem inp v).sclState = true ∧ line txMem rxMem inp slave v = true)
  /-- When the line is released after a STOP no slave pulls it low. -/
  release : ∀ v, (after txMem rxMem inp v).state = .idle → (after txMem rxMem inp v).accepted = none →
    (after txMem rxMem inp v).sclState = true → (after txMem rxMem inp v).sdaDrive = true →
    slave (v + 1) = true

end

variable {txMem rxMem : BitVec 2 → Byte} {inp : Nat → Inputs} {slave : Nat → Bool} {u v : Nat}

/-! ## One edge -/

-- The engine after a cycle in which it waits for the divider.
theorem engine_of_wait (hs : (after txMem rxMem inp u).state ≠ .idle)
    (hd : ¬ (after txMem rxMem inp u).divDone) :
    SameBus (after txMem rxMem inp u).engine (after txMem rxMem inp (u + 1)).engine := by
  rw [engine_succ, nextEngine, if_neg hs, if_neg hd]
  rfl

theorem engine_of_tick (hs : (after txMem rxMem inp u).state ≠ .idle)
    (hd : (after txMem rxMem inp u).divDone) :
    (after txMem rxMem inp (u + 1)).engine = (after txMem rxMem inp u).nextTick (inp u).sdaIn := by
  rw [engine_succ, nextEngine, if_neg hs, if_pos hd]

theorem engine_of_idle (hs : (after txMem rxMem inp u).state = .idle) :
    (after txMem rxMem inp (u + 1)).engine = (after txMem rxMem inp u).nextIdle := by
  rw [engine_succ, nextEngine, if_pos hs]

theorem line_of_drive (hd : (after txMem rxMem inp u).sdaDrive = true) :
    line txMem rxMem inp slave u = (after txMem rxMem inp u).sdaState := if_pos hd

theorem line_of_released (hd : (after txMem rxMem inp u).sdaDrive = false) :
    line txMem rxMem inp slave u = slave u := if_neg (by simp [hd])

theorem line_of_sameBus (h : SameBus (after txMem rxMem inp u).engine (after txMem rxMem inp (u + 1)).engine)
    (hslave : slave (u + 1) = slave u) :
    line txMem rxMem inp slave (u + 1) = line txMem rxMem inp slave u := by
  have hdrive : (after txMem rxMem inp (u + 1)).sdaDrive = (after txMem rxMem inp u).sdaDrive :=
    congrArg Engine.sdaDrive h
  have hsda : (after txMem rxMem inp (u + 1)).sdaState = (after txMem rxMem inp u).sdaState :=
    congrArg Engine.sdaState h
  rw [line, line, hdrive, hsda, hslave]

/-- A change of the line while SCL stays high: a START or STOP command pulls it low, the idle engine
releases it over a slave that pulls it low, or a STOP command ends. -/
inductive LineChange (txMem rxMem : BitVec 2 → Byte) (inp : Nat → Inputs) (slave : Nat → Bool)
    (u : Nat) : Prop
  | command (h : (after txMem rxMem inp u).accepted = some .start ∨
      (after txMem rxMem inp u).accepted = some .stop)
      (hfall : line txMem rxMem inp slave u = true ∧ line txMem rxMem inp slave (u + 1) = false)
  | release (h : (after txMem rxMem inp u).state = .idle ∧ (after txMem rxMem inp u).accepted = none ∧
      (after txMem rxMem inp u).sdaDrive = true ∧ slave (u + 1) = false)
      (hfall : line txMem rxMem inp slave u = true ∧ line txMem rxMem inp slave (u + 1) = false)
  | stopEnds (h : (after txMem rxMem inp u).state = .stop ∧ (after txMem rxMem inp u).divDone)
      (hrise : line txMem rxMem inp slave u = false ∧ line txMem rxMem inp slave (u + 1) = true)

theorem line_changes (hstable : SlaveStable txMem rxMem inp slave) (hhigh : SclStaysHigh txMem rxMem inp u)
    (hne : line txMem rxMem inp slave (u + 1) ≠ line txMem rxMem inp slave u) :
    LineChange txMem rxMem inp slave u := by
  have hslave := hstable u hhigh
  obtain ⟨hscl, hscl'⟩ := hhigh
  have hdriven := driven_run txMem rxMem inp u
  by_cases hidle : (after txMem rxMem inp u).state = .idle
  · have hnext := engine_of_idle hidle
    unfold nextIdle at hnext
    cases hacc : (after txMem rxMem inp u).accepted with
    | none =>
      rw [hacc] at hnext
      have hline' : line txMem rxMem inp slave (u + 1) = slave (u + 1) :=
        line_of_released (congrArg Engine.sdaDrive hnext)
      by_cases hd : (after txMem rxMem inp u).sdaDrive
      · have hline : line txMem rxMem inp slave u = true :=
          (line_of_drive hd).trans ((hdriven.idle hidle hd).trans hscl)
        rw [hline, hline'] at hne
        have hslow : slave (u + 1) = false := eq_false_of_ne_true hne
        exact .release ⟨hidle, hacc, hd, hslow⟩ ⟨hline, hline'.trans hslow⟩
      · rw [Bool.not_eq_true] at hd
        rw [hline', line_of_released hd] at hne
        exact absurd hslave hne
    | some c =>
      rw [hacc] at hnext
      -- a command either pulls SDA low or lowers SCL
      cases c with
      | start | stop =>
        have hline' : line txMem rxMem inp slave (u + 1) = false :=
          (line_of_drive (congrArg Engine.sdaDrive hnext)).trans (congrArg Engine.sdaState hnext)
        rw [hline', ne_comm, Bool.ne_false_iff] at hne
        exact .command (by simp [hacc]) ⟨hne, hline'⟩
      | write | read =>
        have hlow : (after txMem rxMem inp (u + 1)).sclState = false := congrArg Engine.sclState hnext
        exact absurd (hlow.symm.trans hscl') (by decide)
  · by_cases hd : (after txMem rxMem inp u).divDone
    · have hnext := engine_of_tick hidle hd
      cases hst : (after txMem rxMem inp u).state with
      | idle => exact absurd hst hidle
      | start =>
        rw [nextTick, hst] at hnext
        have hlow : (after txMem rxMem inp (u + 1)).sclState = false := congrArg Engine.sclState hnext
        exact absurd (hlow.symm.trans hscl') (by decide)
      | ack =>
        obtain ⟨hlow, -⟩ : (after txMem rxMem inp u).sclState = false ∧ _ := hdriven.ack hst
        exact absurd (hlow.symm.trans hscl) (by decide)
      | write | read =>
        have htoggle := (congrArg Engine.sclState hnext).trans (nextTick_toggles (by simp [hst]))
        have hlow : (after txMem rxMem inp (u + 1)).sclState = false := by
          rw [hscl] at htoggle
          exact htoggle
        exact absurd (hlow.symm.trans hscl') (by decide)
      | stop =>
        obtain ⟨-, hsda, hdrive⟩ : _ ∧ (after txMem rxMem inp u).sdaState = false ∧
          (after txMem rxMem inp u).sdaDrive = true := hdriven.stop hst
        rw [nextTick, hst] at hnext
        have hdrive' : (after txMem rxMem inp (u + 1)).sdaDrive = true :=
          (congrArg Engine.sdaDrive hnext).trans hdrive
        exact .stopEnds ⟨hst, hd⟩
          ⟨(line_of_drive hdrive).trans hsda, (line_of_drive hdrive').trans (congrArg Engine.sdaState hnext)⟩
    · exact absurd (line_of_sameBus (engine_of_wait hidle hd) hslave) hne

/-! ## What the commands show -/

theorem startSeen_of (hscl : (after txMem rxMem inp u).sclState = true)
    (hscl' : (after txMem rxMem inp (u + 1)).sclState = true)
    (hline : line txMem rxMem inp slave u = true) (hline' : line txMem rxMem inp slave (u + 1) = false) :
    StartSeen txMem rxMem inp slave u := ⟨⟨hscl, hscl'⟩, hline, hline'⟩

-- After an accepted START or STOP command SDA is driven low with SCL high.
theorem command_pulls_low (h : (after txMem rxMem inp u).accepted = some .start ∨
      (after txMem rxMem inp u).accepted = some .stop) :
    (after txMem rxMem inp (u + 1)).sclState = true ∧ line txMem rxMem inp slave (u + 1) = false := by
  have hidle : (after txMem rxMem inp u).state = .idle := by
    rcases h with h | h <;> exact idle_of_accepted h
  have hnext := engine_of_idle hidle
  unfold nextIdle at hnext
  rcases h with h | h
  all_goals
    rw [h] at hnext
    exact ⟨congrArg Engine.sclState hnext,
      (line_of_drive (congrArg Engine.sdaDrive hnext)).trans (congrArg Engine.sdaState hnext)⟩

-- A START condition is seen where a START or STOP command finds both lines high, and where the line is
-- released over a slave that pulls it low.
theorem startSeen_iff (hstable : SlaveStable txMem rxMem inp slave) :
    StartSeen txMem rxMem inp slave u ↔
      ((after txMem rxMem inp u).accepted = some .start ∨ (after txMem rxMem inp u).accepted = some .stop) ∧
          (after txMem rxMem inp u).sclState = true ∧ line txMem rxMem inp slave u = true ∨
        ((after txMem rxMem inp u).state = .idle ∧ (after txMem rxMem inp u).accepted = none ∧
          (after txMem rxMem inp u).sclState = true ∧ (after txMem rxMem inp u).sdaDrive = true ∧
          slave (u + 1) = false) := by
  constructor
  · rintro ⟨hhigh, hline, hline'⟩
    have hchange := line_changes hstable hhigh (by rw [hline, hline']; decide)
    cases hchange with
    | command h _ => exact .inl ⟨h, hhigh.1, hline⟩
    | release h _ => exact .inr ⟨h.1, h.2.1, hhigh.1, h.2.2.1, h.2.2.2⟩
    | stopEnds _ hrise => exact absurd (hline.symm.trans hrise.1) (by decide)
  · rintro (⟨h, hscl, hline⟩ | ⟨hidle, hacc, hscl, hdrive, hslave⟩)
    · obtain ⟨hscl', hline'⟩ : _ ∧ line txMem rxMem inp slave (u + 1) = false := command_pulls_low h
      exact startSeen_of hscl hscl' hline hline'
    · have hnext := engine_of_idle hidle
      unfold nextIdle at hnext
      rw [hacc] at hnext
      have hsda := (driven_run txMem rxMem inp u).idle hidle hdrive
      apply startSeen_of hscl (congrArg Engine.sclState hnext)
      · exact (line_of_drive hdrive).trans (hsda.trans hscl)
      · exact (line_of_released (congrArg Engine.sdaDrive hnext)).trans hslave

-- A STOP condition is seen where a STOP command ends.
theorem stopSeen_iff (hstable : SlaveStable txMem rxMem inp slave) :
    StopSeen txMem rxMem inp slave u ↔
      (after txMem rxMem inp u).state = .stop ∧ (after txMem rxMem inp u).divDone = true := by
  constructor
  · rintro ⟨hhigh, hline, hline'⟩
    have hchange := line_changes hstable hhigh (by rw [hline, hline']; decide)
    cases hchange with
    | command _ hfall => exact absurd (hline.symm.trans hfall.1) (by decide)
    | release _ hfall => exact absurd (hline.symm.trans hfall.1) (by decide)
    | stopEnds h _ => exact h
  · rintro ⟨hst, hd⟩
    have hidle : (after txMem rxMem inp u).state ≠ .idle := by simp [hst]
    have hnext := engine_of_tick hidle hd
    rw [nextTick, hst] at hnext
    obtain ⟨hscl, hsda, hdrive⟩ := (driven_run txMem rxMem inp u).stop hst
    have hdrive' : (after txMem rxMem inp (u + 1)).sdaDrive = true :=
      (congrArg Engine.sdaDrive hnext).trans hdrive
    exact ⟨⟨hscl, congrArg Engine.sclState hnext⟩, (line_of_drive hdrive).trans hsda,
      (line_of_drive hdrive').trans (congrArg Engine.sdaState hnext)⟩

/-! ## Spans of commands -/

theorem InSpan.extend (h : InSpan txMem rxMem inp v u)
    (hno : (after txMem rxMem inp (u + 1)).accepted = none) : InSpan txMem rxMem inp v (u + 1) := by
  refine ⟨by have := h.1; omega, ?_⟩
  intro w h1 h2
  rcases Nat.lt_succ_iff_lt_or_eq.mp (Nat.lt_succ_of_le h2) with hlt | rfl
  · exact h.2 w h1 (by omega)
  · exact hno

theorem InSpan.shorten {w : Nat} (h : InSpan txMem rxMem inp v u) (hv : v ≤ w) (hw : w ≤ u) :
    InSpan txMem rxMem inp v w := ⟨hv, fun x h1 h2 ↦ h.2 x h1 (by omega)⟩

theorem accepted_eq_none (h : (after txMem rxMem inp u).state ≠ .idle) :
    (after txMem rxMem inp u).accepted = none := if_neg fun hidle ↦ h hidle.1

-- In the span of a START command the engine never releases SDA with SCL high.
theorem start_span (hv : (after txMem rxMem inp v).accepted = some .start)
    (hspan : InSpan txMem rxMem inp v u) (hvu : v < u) :
    (after txMem rxMem inp u).state = .start ∨ (after txMem rxMem inp u).state = .idle ∧
      ¬ ((after txMem rxMem inp u).sclState = true ∧ (after txMem rxMem inp u).sdaDrive = true) := by
  induction u, hvu using Nat.le_induction with
  | base =>
    have hnext := engine_of_idle (idle_of_accepted hv)
    rw [nextIdle, hv] at hnext
    exact .inl (congrArg Engine.state hnext)
  | succ u hu ih =>
    have hnone := hspan.2 u hu (by omega)
    rcases ih (hspan.shorten (by omega) (by omega)) with hst | ⟨hidle, -⟩
    · have hne : (after txMem rxMem inp u).state ≠ .idle := by simp [hst]
      by_cases hd : (after txMem rxMem inp u).divDone
      · have hnext := engine_of_tick hne hd
        rw [nextTick, hst] at hnext
        have hlow : (after txMem rxMem inp (u + 1)).sclState = false := congrArg Engine.sclState hnext
        exact .inr ⟨congrArg Engine.state hnext, by simp [hlow]⟩
      · exact .inl ((congrArg Engine.state (engine_of_wait hne hd)).trans hst)
    · have hnext := engine_of_idle hidle
      rw [nextIdle, hnone] at hnext
      have hfree : (after txMem rxMem inp (u + 1)).sdaDrive = false := congrArg Engine.sdaDrive hnext
      exact .inr ⟨congrArg Engine.state hnext, by simp [hfree]⟩

-- An idle engine stays idle until the next command.
theorem idle_span {w : Nat} (hidle : (after txMem rxMem inp w).state = .idle) (hwu : w ≤ u)
    (hno : ∀ x, w ≤ x → x < u → (after txMem rxMem inp x).accepted = none) :
    (after txMem rxMem inp u).state = .idle := by
  induction u, hwu using Nat.le_induction with
  | base => exact hidle
  | succ u hu ih =>
    have hprev := ih fun x h1 h2 ↦ hno x h1 (by omega)
    have hnext := engine_of_idle hprev
    rw [nextIdle, hno u hu (Nat.lt_succ_self u)] at hnext
    exact congrArg Engine.state hnext

-- A STOP command that is being executed has been accepted.
theorem stop_accepted (hst : (after txMem rxMem inp u).state = .stop) :
    ∃ v, (after txMem rxMem inp v).accepted = some .stop ∧ InSpan txMem rxMem inp v u := by
  induction u with
  | zero => exact absurd (show State.idle = State.stop from hst) (by decide)
  | succ u ih =>
    have hnone : (after txMem rxMem inp (u + 1)).accepted = none := accepted_eq_none (by simp [hst])
    by_cases hidle : (after txMem rxMem inp u).state = .idle
    · refine ⟨u, ?_, by omega, fun w h1 h2 ↦ ?_⟩
      · have hnext := congrArg Engine.state (engine_of_idle hidle)
        unfold nextIdle at hnext
        rw [show (after txMem rxMem inp (u + 1)).engine.state = .stop from hst] at hnext
        cases hacc : (after txMem rxMem inp u).accepted with
        | none => simp [hacc] at hnext
        | some c => cases c <;> simp [hacc] at hnext ⊢
      · rw [show w = u + 1 by omega]
        exact hnone
    · have hprev : (after txMem rxMem inp u).state = .stop := by
        by_cases hd : (after txMem rxMem inp u).divDone
        · have hnext := congrArg Engine.state (engine_of_tick hidle hd)
          exact absurd (hnext.symm.trans hst) (nextTick_ne_stop hidle)
        · exact (congrArg Engine.state (engine_of_wait hidle hd)).symm.trans hst
      obtain ⟨v, hacc, hspan⟩ := ih hprev
      exact ⟨v, hacc, hspan.extend hnone⟩

-- A STOP command ends, and ends once.
theorem stop_ends (hv : (after txMem rxMem inp v).accepted = some .stop) :
    ∃! u, InSpan txMem rxMem inp v u ∧
      ((after txMem rxMem inp u).state = .stop ∧ (after txMem rxMem inp u).divDone = true) := by
  have hnext := engine_of_idle (idle_of_accepted hv)
  rw [nextIdle, hv] at hnext
  have hst : (after txMem rxMem inp (v + 1)).state = .stop := congrArg Engine.state hnext
  have hne : (after txMem rxMem inp (v + 1)).state ≠ .idle := by simp [hst]
  obtain ⟨u, hvu, hd, -, hsame⟩ := divider_runs_out hne
  have hstop (w : Nat) (h1 : v + 1 ≤ w) (h2 : w ≤ u) : (after txMem rxMem inp w).state = .stop :=
    (congrArg Engine.state (hsame w h1 h2)).trans hst
  have hspan : InSpan txMem rxMem inp v u := by
    refine ⟨by omega, fun w h1 h2 ↦ accepted_eq_none ?_⟩
    simp [hstop w h1 h2]
  -- after its end the engine is idle for the rest of the span
  have honce {x y : Nat} (hxy : x < y) (hx : (after txMem rxMem inp x).state = .stop)
      (hxd : (after txMem rxMem inp x).divDone = true) (hvx : v ≤ x) (hy : InSpan txMem rxMem inp v y) :
      (after txMem rxMem inp y).state = .idle := by
    have hend := engine_of_tick (by simp [hx]) hxd
    rw [nextTick, hx] at hend
    exact idle_span (w := x + 1) (congrArg Engine.state hend) (by omega) fun z h1 h2 ↦
      hy.2 z (by omega) (by omega)
  refine ⟨u, ⟨hspan, hstop u hvu (Nat.le_refl u), hd⟩, ?_⟩
  rintro w ⟨hw, hwst, hwd⟩
  rcases Nat.lt_trichotomy w u with hlt | heq | hgt
  · have hidle := honce hlt hwst hwd hw.1 hspan
    rw [hstop u hvu (Nat.le_refl u)] at hidle
    cases hidle
  · exact heq
  · have hidle := honce hgt (hstop u hvu (Nat.le_refl u)) hd hspan.1 hw
    rw [hwst] at hidle
    cases hidle

/-- The bus is clean in exactly the runs in which every START finds SCL and SDA high, every STOP finds
one of them low, and no slave pulls SDA low when it is released after a STOP. -/
theorem cleanBus_iff (txMem rxMem : BitVec 2 → Byte) (inp : Nat → Inputs) (slave : Nat → Bool)
    (hstable : SlaveStable txMem rxMem inp slave) :
    CleanBus txMem rxMem inp slave ↔ CleanLevels txMem rxMem inp slave := by
  constructor
  · intro h
    constructor
    · intro v hv
      obtain ⟨u, ⟨hspan, hseen⟩, -⟩ := h.starts v hv
      rcases (startSeen_iff hstable).mp hseen with ⟨hcmd, hscl, hline⟩ | ⟨hidle, hfree, hscl, hdrive, -⟩
      · -- a condition seen in this span is seen in its first cycle
        rcases Nat.eq_or_lt_of_le hspan.1 with rfl | hlt
        · exact ⟨hscl, hline⟩
        · have hnone := hspan.2 u hlt (Nat.le_refl u)
          rcases hcmd with hcmd | hcmd <;> simp [hcmd] at hnone
      · rcases Nat.eq_or_lt_of_le hspan.1 with rfl | hlt
        · simp [hv] at hfree
        · rcases start_span hv hspan hlt with hst | ⟨-, hheld⟩
          · simp [hst] at hidle
          · exact absurd ⟨hscl, hdrive⟩ hheld
    · intro v hv ⟨hscl, hline⟩
      have hseen := (startSeen_iff hstable).mpr (.inl ⟨.inr hv, hscl, hline⟩)
      obtain ⟨w, hw, hspan⟩ := h.noOtherStart v hseen
      rcases Nat.eq_or_lt_of_le hspan.1 with rfl | hlt
      · simp [hv] at hw
      · have hnone := hspan.2 v hlt (Nat.le_refl v)
        simp [hv] at hnone
    · intro v hidle hnone hscl hdrive
      by_contra hslave
      have hseen := (startSeen_iff hstable).mpr
        (.inr ⟨hidle, hnone, hscl, hdrive, eq_false_of_ne_true hslave⟩)
      obtain ⟨w, hw, hspan⟩ := h.noOtherStart v hseen
      rcases Nat.eq_or_lt_of_le hspan.1 with rfl | hlt
      · simp [hw] at hnone
      · rcases start_span hw hspan hlt with hst | ⟨-, hfree⟩
        · simp [hst] at hidle
        · exact hfree ⟨hscl, hdrive⟩
  · intro h
    -- under these conditions a START condition is a START command
    have hstart (u : Nat) : StartSeen txMem rxMem inp slave u ↔
        (after txMem rxMem inp u).accepted = some .start := by
      rw [startSeen_iff hstable]
      constructor
      · rintro (⟨hcmd | hcmd, hscl, hline⟩ | ⟨hidle, hnone, hscl, hdrive, hslave⟩)
        · exact hcmd
        · exact absurd ⟨hscl, hline⟩ (h.stop u hcmd)
        · exact absurd (hslave.symm.trans (h.release u hidle hnone hscl hdrive)) (by decide)
      · intro hcmd
        exact .inl ⟨.inl hcmd, h.start u hcmd⟩
    constructor
    · intro v hv
      refine ⟨v, ⟨⟨Nat.le_refl v, fun w h1 h2 ↦ by omega⟩, (hstart v).mpr hv⟩, ?_⟩
      rintro u ⟨hspan, hseen⟩
      rcases Nat.eq_or_lt_of_le hspan.1 with rfl | hlt
      · rfl
      · have hnone := hspan.2 u hlt (Nat.le_refl u)
        simp [(hstart u).mp hseen] at hnone
    · intro v hv
      simp only [stopSeen_iff hstable]
      exact stop_ends hv
    · intro u hseen
      exact ⟨u, (hstart u).mp hseen, Nat.le_refl u, fun w h1 h2 ↦ by omega⟩
    · intro u hseen
      exact stop_accepted ((stopSeen_iff hstable).mp hseen).1

/-- A command on the idle bus, and nothing else; the slave leaves SDA alone. -/
def oneCommand (cmd : Word) (t : Nat) : Inputs := ⟨⟨t == 0, false, 0x7, cmd⟩, true⟩

def oneCommandRun (cmd : Word) : Nat → I2c := after (fun _ ↦ 0) (fun _ ↦ 0) (oneCommand cmd)

/-- Nothing is pending, and the bus is free. -/
structure Resting (s : I2c) : Prop where
  idle : s.state = .idle
  noCmd : s.cmdReg = 0
  free : s.sdaDrive = false

theorem Resting.accepted {s : I2c} (h : Resting s) : s.accepted = none := by
  simp [I2c.accepted, h.noCmd]

theorem Resting.posedge {s : I2c} {i : Inputs} (h : Resting s) (hw : i.bus.write = false) :
    Resting (posedge s i) := by
  have hnext : (I2c.posedge s i).engine = s.nextIdle := by
    rw [posedge_engine, nextEngine, if_pos h.idle]
  rw [nextIdle, h.accepted] at hnext
  refine ⟨congrArg Engine.state hnext, ?_, congrArg Engine.sdaDrive hnext⟩
  simp [I2c.posedge, stateCase, h.idle, idleState, busWrite, busRead, hw, h.noCmd,
    apply_ite I2c.cmdReg]

-- START takes the bus properly: it is over after 104 cycles.
theorem oneStart_later (t : Nat) (ht : 104 ≤ t) : Resting (oneCommandRun 1 t) := by
  induction t, ht using Nat.le_induction with
  | base => exact ⟨by decide +kernel, by decide +kernel, by decide +kernel⟩
  | succ t ht ih =>
    apply ih.posedge
    show (t == 0) = false
    rw [beq_eq_false_iff_ne]
    omega

theorem oneStart_clean : CleanBus (fun _ ↦ 0) (fun _ ↦ 0) (oneCommand 1) fun _ ↦ true := by
  refine (cleanBus_iff _ _ _ _ fun _ _ ↦ rfl).mpr ⟨?_, ?_, fun _ _ _ _ _ ↦ rfl⟩
  · have hfirst : ∀ v ≤ 104, (oneCommandRun 1 v).accepted = some .start →
        (oneCommandRun 1 v).sclState = true ∧
          line (fun _ ↦ 0) (fun _ ↦ 0) (oneCommand 1) (fun _ ↦ true) v = true := by decide +kernel
    intro v hv
    rcases Nat.le_total v 104 with hle | hge
    · exact hfirst v hle hv
    · exact absurd ((oneStart_later v hge).accepted.symm.trans hv) (by decide)
  · have hfirst : ∀ v ≤ 104, (oneCommandRun 1 v).accepted ≠ some .stop := by decide +kernel
    intro v hv
    rcases Nat.le_total v 104 with hle | hge
    · exact absurd hv (hfirst v hle)
    · exact absurd ((oneStart_later v hge).accepted.symm.trans hv) (by decide)

/-- The first half of a STOP command on the idle bus is a START condition that nobody asked for. -/
theorem oneStop_starts : SlaveStable (fun _ ↦ 0) (fun _ ↦ 0) (oneCommand 2) (fun _ ↦ true) ∧
    ¬ CleanBus (fun _ ↦ 0) (fun _ ↦ 0) (oneCommand 2) fun _ ↦ true := by
  refine ⟨fun _ _ ↦ rfl, ?_⟩
  intro h
  have hseen : StartSeen (fun _ ↦ 0) (fun _ ↦ 0) (oneCommand 2) (fun _ ↦ true) 1 :=
    startSeen_of (by decide) (by decide) (by decide) (by decide)
  obtain ⟨v, hv, hspan⟩ := h.noOtherStart 1 hseen
  have hle : v ≤ 1 := hspan.1
  have hno : ∀ w ≤ 1, (oneCommandRun 2 w).accepted ≠ some .start := by decide
  exact hno v hle hv

end I2c

end QarCore
