import QarCore.Periph.LinFrames

/-!
# LIN headers of the master

LIN_CMD[3] asks for a break with a header behind it.  The end of a break drops every request made during
the break, and a break requested before the ID byte is loaded starts in the cycle of the load and takes
the line from it.  All other requests are served.
-/

namespace QarCore

namespace Uart

variable {s : Uart} {i : Inputs} {b : BusAccess 4}

/-! ## Requests -/

/-- A write to LIN_CMD that asks for a break, with or without a header. -/
def asksBreak (b : BusAccess 4) : Bool := commands b 0 || commands b 3

/-- LIN mode and enable are set, and nothing comes out of the TX FIFO. -/
structure Master (s : Uart) : Prop where
  enabled : s.ctrlEnable = true
  linMode : s.ctrlLinMode = true
  noTx : (s.txFifo.empty || s.linSlaveGateBlock) = true

/-- The access asks for no header during a break, and for no break while a header waits for its Sync byte
or sends it. -/
structure Timely (s : Uart) (b : BusAccess 4) : Prop where
  noLoss : commands b 3 → s.lin.breakActive = false
  noCut : asksBreak b → s.lin.autoState ≠ 0#2 → s.lin.autoState ≠ 1#2 ∧ s.tx.bitsRemaining = 0#5

/-- While a header is under way no break is on and none is due. -/
def Unmixed (s : Uart) : Prop :=
  s.lin.autoState ≠ 0#2 → s.lin.breakPending = false ∧ s.lin.breakActive = false

section

variable (txMem rxMem : BitVec 3 → Byte) (inp : Nat → Inputs)

/-- No break is asked for from the load of the ID byte, in the cycle after `c`, until two cycles before its
last stop bit is over.  Up to a bit time of two cycles it does not matter. -/
def LeftAlone (c e : Nat) : Prop :=
  2 < (after txMem rxMem inp e).bitTime → ∀ x, c < x → x + 2 < e + (after txMem rxMem inp e).bitTime →
    asksBreak (inp x).bus = false

/-- A whole header: a break from cycle `a` to cycle `b`, the Sync byte, whose last bit goes out in cycle
`c`, and the ID byte, whose last bit goes out in cycle `e`. -/
structure HeaderSent (a b c e : Nat) : Prop where
  brk : BreakSent txMem rxMem inp a b
  sync : FrameSent txMem rxMem inp 0x55#8 (b + 1) c
  ident : FrameSent txMem rxMem inp (after txMem rxMem inp (c + 1)).lin.txHeaderId (c + 1) e
  paced : Paced txMem rxMem inp (b + 1) e
  alone : ∀ t, a < t → t ≤ e → (after txMem rxMem inp t).breakStarts = false
  /-- The last stop bit lasts its bit time exactly if the header is left alone. -/
  rests : (∀ t, e < t → t ≤ e + (after txMem rxMem inp e).bitTime →
    (after txMem rxMem inp t).tx.line = true) ↔ LeftAlone txMem rxMem inp c e

/-- What is expected of a master from cycle `t₀` on. -/
structure ServesHeaders (t₀ : Nat) : Prop where
  commanded : ∀ w, t₀ ≤ w → commands (inp w).bus 3 →
    ∃ a b c e, w ≤ a ∧ HeaderSent txMem rxMem inp a b c e
  /-- Behind a Sync byte comes its ID byte, before any break. -/
  paired : ∀ v, t₀ ≤ v → (after txMem rxMem inp v).lin.autoState = 2#2 →
    ∃ c e, v ≤ c ∧ FrameSent txMem rxMem inp (after txMem rxMem inp c).lin.txHeaderId c e ∧
      ∀ t, v ≤ t → t ≤ e → (after txMem rxMem inp t).breakStarts = false

end

/-! ## One edge -/

theorem Master.starts_eq (h : Master s) : s.breakStarts =
    (!s.lin.breakActive && s.lin.breakPending && s.tx.bitsRemaining == 0#5) := by
  simp [breakStarts, h.enabled, h.linMode, h.noTx]

theorem Master.takesTxByte (h : Master s) : s.takesTxByte = false := by
  have hno := h.noTx
  rw [Bool.or_eq_true] at hno
  rcases hno with he | hg
  · simp [Uart.takesTxByte, he]
  · simp [Uart.takesTxByte, hg]

theorem not_starts_of_pending (hp : s.lin.breakPending = false) : s.breakStarts = false := by
  simp [breakStarts, hp]

theorem not_starts_of_active (hb : s.lin.breakActive) : s.breakStarts = false := by
  simp [breakStarts, hb]

-- A break is due only if it was asked for.
theorem posedge_pending (he : s.ctrlEnable) (hp : s.lin.breakPending = false)
    (hb : asksBreak i.bus = false) : (posedge s i).lin.breakPending = false := by
  rw [asksBreak, Bool.or_eq_false_iff] at hb
  cases hact : s.lin.breakActive
  · have hgen := posedge_break_off (i := i) he hact
    refine (congrArg Generator.pending hgen).trans ?_
    simp only [hp, hb, Bool.or_false, Bool.and_false]
  · have hgen := posedge_break_on (i := i) he hact
    by_cases hend : s.breakEnds
    · rw [if_pos hend] at hgen
      exact congrArg Generator.pending hgen
    · rw [if_neg hend] at hgen
      refine (congrArg Generator.pending hgen).trans ?_
      simp only [hp, hb, Bool.or_false]

theorem Unmixed.posedge (h : Unmixed s) (he : s.ctrlEnable) (ht : Timely s i.bus) :
    Unmixed (posedge s i) := by
  intro hauto
  cases hact : s.lin.breakActive
  · have hstate := posedge_autoState (i := i) he hact
    have hbusy : s.lin.autoState ≠ 0#2 := by
      intro h0
      rw [hstate, if_neg fun hidle ↦ hidle.2 h0] at hauto
      exact hauto h0
    obtain ⟨hp, -⟩ := h hbusy
    have hquiet : asksBreak i.bus = false := by
      rw [← Bool.not_eq_true]
      intro hask
      obtain ⟨h1, h0⟩ := ht.noCut hask hbusy
      rw [hstate, if_pos ⟨h0, hbusy⟩, if_neg h1] at hauto
      exact hauto rfl
    refine ⟨posedge_pending he hp hquiet, ?_⟩
    rw [posedge_breakActive_off he hact]
    exact not_starts_of_pending hp
  · -- during a break there is no header, and its end clears the request
    have hgen := posedge_break_on (i := i) he hact
    by_cases hend : s.breakEnds
    · rw [if_pos hend] at hgen
      exact ⟨congrArg Generator.pending hgen, congrArg Generator.active hgen⟩
    · rw [if_neg hend] at hgen
      have hbusy : s.lin.autoState ≠ 0#2 := by
        rw [show (Uart.posedge s i).lin.autoState = _ from congrArg Generator.autoState hgen] at hauto
        exact hauto
      rw [(h hbusy).2] at hact
      cases hact

/-- The Sync byte has been loaded and the ID byte has not. -/
structure SyncOut (s : Uart) : Prop where
  auto : s.lin.autoState = 2#2
  notDue : s.lin.breakPending = false
  noBreak : s.lin.breakActive = false

theorem Unmixed.syncOut (h : Unmixed s) (ha : s.lin.autoState = 2#2) : SyncOut s :=
  have hfree := h (by rw [ha]; decide)
  ⟨ha, hfree.1, hfree.2⟩

theorem SyncOut.posedge (h : SyncOut s) (he : s.ctrlEnable) (h0 : s.tx.bitsRemaining ≠ 0#5)
    (ht : Timely s i.bus) : SyncOut (posedge s i) := by
  have hquiet : asksBreak i.bus = false := by
    rw [← Bool.not_eq_true]
    intro hask
    exact h0 (ht.noCut hask (by rw [h.auto]; decide)).2
  refine ⟨?_, posedge_pending he h.notDue hquiet, ?_⟩
  · rw [posedge_autoState he h.noBreak, if_neg fun hidle ↦ h0 hidle.1]
    exact h.auto
  · rw [posedge_breakActive_off he h.noBreak]
    exact not_starts_of_pending h.notDue

theorem SyncOut.loadsByte (h : SyncOut s) (he : s.ctrlEnable) (h0 : s.tx.bitsRemaining = 0#5) :
    s.loadsByte = some s.lin.txHeaderId := by
  simp [Uart.loadsByte, he, h.noBreak, h0, h.auto]

/-- A break with a header behind it waits for the serializer. -/
structure HeaderDue (s : Uart) : Prop where
  noBreak : s.lin.breakActive = false
  due : s.lin.breakPending = true
  header : s.lin.autoHeaderPending = true

theorem HeaderDue.posedge (h : HeaderDue s) (he : s.ctrlEnable) (h0 : s.tx.bitsRemaining ≠ 0#5) :
    HeaderDue (posedge s i) := by
  have hgen := posedge_break_off (i := i) he h.noBreak
  rw [breakStarts_busy h0, h.due, h.header] at hgen
  exact ⟨congrArg Generator.active hgen, congrArg Generator.pending hgen,
    congrArg Generator.headerPending hgen⟩

/-- Nothing is on the line, and nothing comes but a break. -/
structure Quiet (s : Uart) : Prop where
  noBreak : s.lin.breakActive = false
  auto : s.lin.autoState = 0#2
  idle : s.tx.bitsRemaining = 0#5
  line : s.tx.line = true

-- In its first cycle a break has not reached the line.
theorem Quiet.line_next (h : Quiet s) (he : s.ctrlEnable) : (posedge s i).tx.line = true := by
  rw [posedge_line_hold ⟨he, h.noBreak⟩ (by simp [shiftsBit, h.idle])]
  exact h.line

theorem Quiet.posedge (h : Quiet s) (hm : Master s) (hs : s.breakStarts = false) : Quiet (posedge s i) := by
  have hsends : Sends s := ⟨hm.enabled, h.noBreak⟩
  have hload : s.loadsByte = none := by
    rw [loadsByte, if_neg (by simp [h.auto]), hm.takesTxByte, if_neg Bool.false_ne_true]
  refine ⟨?_, ?_, ?_, h.line_next hm.enabled⟩
  · rw [posedge_breakActive_off hm.enabled h.noBreak]
    exact hs
  · rw [posedge_autoState hm.enabled h.noBreak, if_neg fun ha ↦ ha.2 h.auto]
    exact h.auto
  · rw [posedge_tx_idle hsends h.idle, hload]
    exact h.idle

/-! ## The last stop bit -/

section

variable {txMem rxMem : BitVec 3 → Byte} {inp : Nat → Inputs} {t₀ a c e t v w x : Nat}

theorem line_after_last (hl : (after txMem rxMem inp e).shiftsLast) :
    (after txMem rxMem inp (e + 1)).tx.line = true := by
  have hlast := onLine_shiftsLast hl
  apply line_high
  · rw [hlast]
    exact OnLine.noConfusion
  · rw [hlast]
    exact OnLine.noConfusion

variable (hm : ∀ t, t₀ ≤ t → Master (after txMem rxMem inp t))

include hm

-- A break takes the line two cycles after its start.
theorem low_of_start (ha : t₀ ≤ a) (hstart : (after txMem rxMem inp a).breakStarts) :
    (after txMem rxMem inp (a + 2)).tx.line = false := by
  obtain ⟨b, hb, -⟩ := breakSent_of_start (fun t ht ↦ (hm t (by omega)).enabled) hstart
  have hcount : breakBitsSent txMem rxMem inp a b ≤ b - a := Nat.count_le _
  have hlong := hb.long
  have hpos := breakBits_pos (s := after txMem rxMem inp b)
  exact hb.low (a + 2) (by omega) (by omega)

/-- The ID byte has been loaded in the cycle after `c`, and its last bit goes out in cycle `e`. -/
structure IdentOut (txMem rxMem : BitVec 3 → Byte) (inp : Nat → Inputs) (c e : Nat) : Prop where
  later : c + 1 < e
  sync : SyncOut (after txMem rxMem inp (c + 1))
  idle : (after txMem rxMem inp (c + 1)).tx.bitsRemaining = 0#5
  going : ∀ t, c + 1 < t → t ≤ e → (after txMem rxMem inp t).lin.breakActive = false ∧
    (after txMem rxMem inp t).tx.bitsRemaining ≠ 0#5
  last : (after txMem rxMem inp e).shiftsLast

omit hm in
theorem IdentOut.not_starts (h : IdentOut txMem rxMem inp c e) (h1 : c < t) (h2 : t ≤ e) :
    (after txMem rxMem inp t).breakStarts = false := by
  by_cases ht : t = c + 1
  · rw [ht]
    exact not_starts_of_pending h.sync.notDue
  · exact breakStarts_busy (h.going t (by omega) h2).2

theorem IdentOut.quiet (h : IdentOut txMem rxMem inp c e) (hc : t₀ ≤ c + 1) :
    Quiet (after txMem rxMem inp (e + 1)) := by
  have hlater := h.later
  have hauto (t : Nat) (h1 : c + 1 < t) (h2 : t ≤ e + 1) :
      (after txMem rxMem inp t).lin.autoState = 0#2 := by
    induction t, h1 using Nat.le_induction with
    | base =>
      have hbusy : (after txMem rxMem inp (c + 1)).lin.autoState ≠ 0#2 := by
        rw [h.sync.auto]
        decide
      rw [after_succ, posedge_autoState (hm _ hc).enabled h.sync.noBreak, if_pos ⟨h.idle, hbusy⟩,
        h.sync.auto]
      rfl
    | succ t h1 ih =>
      have hprev := ih (by omega)
      rw [after_succ, posedge_autoState (hm t (by omega)).enabled (h.going t h1 (by omega)).1,
        if_neg fun ha ↦ ha.2 hprev]
      exact hprev
  refine ⟨?_, hauto (e + 1) (by omega) (Nat.le_refl _), ?_, line_after_last h.last⟩
  · obtain ⟨hoff, hbusy⟩ := h.going e h.later (Nat.le_refl e)
    rw [after_succ, posedge_breakActive_off (hm e (by omega)).enabled hoff]
    exact breakStarts_busy hbusy
  · exact posedge_bits_last h.last

-- The line stays high until a break starts.
theorem IdentOut.quiet_run (h : IdentOut txMem rxMem inp c e) (hc : t₀ ≤ c + 1) (het : e + 1 ≤ t)
    (hno : ∀ u, e < u → u < t → (after txMem rxMem inp u).breakStarts = false) :
    Quiet (after txMem rxMem inp t) := by
  have hlater := h.later
  induction t, het using Nat.le_induction with
  | base => exact h.quiet hm hc
  | succ t het ih =>
    have hprev := ih fun u h1 h2 ↦ hno u h1 (by omega)
    exact hprev.posedge (i := inp t) (hm t (by omega)) (hno t het (Nat.lt_succ_self t))

-- Until a break starts, none is on.
theorem IdentOut.off (h : IdentOut txMem rxMem inp c e) (hc : t₀ ≤ c + 1) (hct : c < t)
    (hno : ∀ u, c < u → u < t → (after txMem rxMem inp u).breakStarts = false) :
    (after txMem rxMem inp t).lin.breakActive = false := by
  have hlater := h.later
  rcases Nat.lt_or_ge e t with hlt | hge
  · exact (h.quiet_run hm hc hlt fun u h1 h2 ↦ hno u (by omega) h2).noBreak
  · by_cases hfirst : t = c + 1
    · rw [hfirst]
      exact h.sync.noBreak
    · exact (h.going t (by omega) hge).1

-- A request waits until a break starts.
theorem IdentOut.due (h : IdentOut txMem rxMem inp c e) (hc : t₀ ≤ c + 1) (hcx : c < x) (hxt : x + 1 ≤ t)
    (hask : asksBreak (inp x).bus)
    (hno : ∀ u, c < u → u < t → (after txMem rxMem inp u).breakStarts = false) :
    (after txMem rxMem inp t).lin.breakPending = true := by
  have hnext (u : Nat) (hcu : c < u) (hut : u < t) : (after txMem rxMem inp (u + 1)).lin.breakPending =
      ((after txMem rxMem inp u).lin.breakPending || asksBreak (inp u).bus) := by
    have hoff := h.off hm hc hcu fun v h1 h2 ↦ hno v h1 (by omega)
    have hgen := posedge_break_off (i := inp u) (hm u (by omega)).enabled hoff
    rw [hno u hcu hut, Bool.not_false, Bool.true_and, Bool.or_assoc] at hgen
    exact congrArg Generator.pending hgen
  induction t, hxt using Nat.le_induction with
  | base => rw [hnext x hcx (Nat.lt_succ_self x), hask, Bool.or_true]
  | succ t hxt ih =>
    have hprev := ih (fun u h1 h2 ↦ hno u h1 (by omega)) fun u h1 h2 ↦ hnext u h1 (by omega)
    rw [hnext t (by omega) (Nat.lt_succ_self t), hprev, Bool.true_or]

-- A request that comes too early puts its break into the stop bit.
theorem IdentOut.leftAlone (h : IdentOut txMem rxMem inp c e) (hc : t₀ ≤ c + 1)
    (hhigh : ∀ t, e < t → t ≤ e + (after txMem rxMem inp e).bitTime →
      (after txMem rxMem inp t).tx.line = true) : LeftAlone txMem rxMem inp c e := by
  have hlater := h.later
  unfold LeftAlone
  generalize (after txMem rxMem inp e).bitTime = d at *
  intro hd x hcx hxd
  rw [← Bool.not_eq_true]
  intro hask
  have hno (u : Nat) (h1 : c < u) (h2 : u + 2 ≤ e + d) : (after txMem rxMem inp u).breakStarts = false := by
    rcases Nat.lt_or_ge e u with hlt | hge
    · rw [← Bool.not_eq_true]
      intro hstart
      have hlow := low_of_start hm (by omega) hstart
      rw [hhigh (u + 2) (by omega) (by omega)] at hlow
      cases hlow
    · exact h.not_starts h1 hge
  -- but nothing keeps it from starting two cycles before the stop bit is over
  have hquiet := h.quiet_run hm hc (show e + 1 ≤ e + d - 2 by omega) fun u h1 h2 ↦ hno u (by omega) (by omega)
  have hdue := h.due hm hc hcx (show x + 1 ≤ e + d - 2 by omega) hask fun u h1 h2 ↦ hno u h1 (by omega)
  have hlast := hno (e + d - 2) (by omega) (by omega)
  rw [(hm (e + d - 2) (by omega)).starts_eq, hquiet.noBreak, hquiet.idle, hdue] at hlast
  cases hlast

theorem IdentOut.high (h : IdentOut txMem rxMem inp c e) (hc : t₀ ≤ c + 1)
    (halone : LeftAlone txMem rxMem inp c e) (het : e < t)
    (htd : t ≤ e + (after txMem rxMem inp e).bitTime) : (after txMem rxMem inp t).tx.line = true := by
  have hlater := h.later
  unfold LeftAlone at halone
  generalize (after txMem rxMem inp e).bitTime = d at *
  have hdue (u : Nat) (h1 : c + 1 ≤ u) (h2 : u + 2 ≤ e + d) (hd : 2 < d) :
      (after txMem rxMem inp u).lin.breakPending = false := by
    induction u, h1 using Nat.le_induction with
    | base => exact h.sync.notDue
    | succ u h1 ih =>
      exact posedge_pending (hm u (by omega)).enabled (ih (by omega)) (halone hd u h1 (by omega))
  by_cases hfirst : t = e + 1
  · rw [hfirst]
    exact (h.quiet hm hc).line
  · obtain ⟨u, rfl⟩ : ∃ u, t = u + 1 := ⟨t - 1, by omega⟩
    have hquiet : Quiet (after txMem rxMem inp u) := by
      apply h.quiet_run hm hc (by omega)
      intro v h1 h2
      exact not_starts_of_pending (hdue v (by omega) (by omega) (by omega))
    exact hquiet.line_next (hm u (by omega)).enabled

-- The last stop bit of the ID byte lasts its bit time exactly if the header is left alone.
theorem IdentOut.rests (h : IdentOut txMem rxMem inp c e) (hc : t₀ ≤ c + 1) :
    (∀ t, e < t → t ≤ e + (after txMem rxMem inp e).bitTime → (after txMem rxMem inp t).tx.line = true) ↔
      LeftAlone txMem rxMem inp c e :=
  ⟨h.leftAlone hm hc, fun halone _ ↦ h.high hm hc halone⟩

/-! ## Headers -/

variable (ht : ∀ t, t₀ ≤ t → Timely (after txMem rxMem inp t) (inp t).bus)
  (hu : Unmixed (after txMem rxMem inp t₀))

include ht hu

theorem unmixed_run (h : t₀ ≤ t) : Unmixed (after txMem rxMem inp t) := by
  induction t, h using Nat.le_induction with
  | base => exact hu
  | succ t h ih => exact ih.posedge (i := inp t) (hm t h).enabled (ht t h)

omit hu in
-- The Sync byte goes out undisturbed.
theorem syncOut_run (hv : t₀ ≤ v) (hvt : v ≤ t) (h : SyncOut (after txMem rxMem inp v))
    (hbusy : ∀ x, v ≤ x → x < t → (after txMem rxMem inp x).tx.bitsRemaining ≠ 0#5) :
    SyncOut (after txMem rxMem inp t) := by
  induction t, hvt using Nat.le_induction with
  | base => exact h
  | succ t hvt ih =>
    have hprev := ih fun x h1 h2 ↦ hbusy x h1 (by omega)
    exact hprev.posedge (i := inp t) (hm t (by omega)).enabled (hbusy t hvt (Nat.lt_succ_self t))
      (ht t (by omega))

omit ht hu in
-- With the Sync byte gone the ID byte follows in full.
theorem ident_of_sync (hc : t₀ ≤ c + 1) (h : SyncOut (after txMem rxMem inp (c + 1)))
    (h0 : (after txMem rxMem inp (c + 1)).tx.bitsRemaining = 0#5) : ∃ e,
      FrameSent txMem rxMem inp (after txMem rxMem inp (c + 1)).lin.txHeaderId (c + 1) e ∧
      IdentOut txMem rxMem inp c e := by
  have hload := h.loadsByte (hm _ hc).enabled h0
  obtain ⟨e, hce, hsent, hgoing⟩ := frameSent_of_load (fun t hct ↦ (hm t (by omega)).enabled) h.noBreak
    (not_starts_of_pending h.notDue) h0 hload
  exact ⟨e, hsent, hce, h, h0, hgoing, hsent.last⟩

omit ht hu in
-- A header waits for its break until the break is over.
theorem headerPending_run (ha : t₀ ≤ a) (hat : a + 1 ≤ t)
    (hpend : (after txMem rxMem inp (a + 1)).lin.autoHeaderPending = true)
    (hactive : ∀ x, a < x → x ≤ t → (after txMem rxMem inp x).lin.breakActive)
    (hends : ∀ x, a < x → x < t → ¬ (after txMem rxMem inp x).breakEnds) :
    (after txMem rxMem inp t).lin.autoHeaderPending = true := by
  induction t, hat using Nat.le_induction with
  | base => exact hpend
  | succ t hat ih =>
    have hprev := ih (fun x h1 h2 ↦ hactive x h1 (by omega)) fun x h1 h2 ↦ hends x h1 (by omega)
    have hgen := posedge_break_on (i := inp t) (hm t (by omega)).enabled (hactive t hat (by omega))
    rw [if_neg (hends t hat (Nat.lt_succ_self t)), hprev, Bool.true_or] at hgen
    exact congrArg Generator.headerPending hgen

-- A break with a header behind it is followed by the header.
theorem header_of_start (ha : t₀ ≤ a) (hstart : (after txMem rxMem inp a).breakStarts)
    (hpend : (after txMem rxMem inp (a + 1)).lin.autoHeaderPending = true) :
    ∃ b c e, HeaderSent txMem rxMem inp a b c e := by
  have he (t : Nat) (h : t₀ ≤ t) : (after txMem rxMem inp t).ctrlEnable := (hm t h).enabled
  obtain ⟨b, hbrk, hend, hactive, hends⟩ := breakSent_of_start (fun t h ↦ he t (by omega)) hstart
  have hab := hbrk.later
  have hheader := headerPending_run hm ha hab hpend hactive hends
  -- the end of the break
  have hon := hactive b hab (Nat.le_refl b)
  have hgen := posedge_break_on (i := inp b) (he b (by omega)) hon
  rw [if_pos hend, hheader, if_pos rfl, ← after_succ] at hgen
  have hauto : (after txMem rxMem inp (b + 1)).lin.autoState = 1#2 := congrArg Generator.autoState hgen
  have hdue : (after txMem rxMem inp (b + 1)).lin.breakPending = false := congrArg Generator.pending hgen
  have hoff : (after txMem rxMem inp (b + 1)).lin.breakActive = false := congrArg Generator.active hgen
  have hidle : (after txMem rxMem inp (b + 1)).tx.bitsRemaining = 0#5 := by
    rw [after_succ, posedge_bitsRemaining, if_neg fun h ↦ h.2 hon]
  have hload : (after txMem rxMem inp (b + 1)).loadsByte = some 0x55#8 := by
    simp [loadsByte, he (b + 1) (by omega), hoff, hidle, hauto]
  -- the Sync byte
  obtain ⟨c, hbc, hsync, hgoing⟩ := frameSent_of_load (fun t h ↦ he t (by omega)) hoff
    (not_starts_of_pending hdue) hidle hload
  have hauto' : (after txMem rxMem inp (b + 2)).lin.autoState = 2#2 := by
    rw [after_succ, posedge_autoState (he (b + 1) (by omega)) hoff,
      if_pos ⟨hidle, by rw [hauto]; decide⟩, if_pos hauto]
  have hout := (unmixed_run hm ht hu (show t₀ ≤ b + 2 by omega)).syncOut hauto'
  have hdone := syncOut_run hm ht (show t₀ ≤ b + 2 by omega) (show b + 2 ≤ c + 1 by omega) hout
    fun x h1 h2 ↦ (hgoing x (by omega) (by omega)).2
  -- the ID byte
  obtain ⟨e, hident, hlast⟩ := ident_of_sync hm (by omega) hdone (posedge_bits_last hsync.last)
  have hce := hlast.later
  refine ⟨b, c, e, hbrk, hsync, hident, ?_, ?_, hlast.rests hm (by omega)⟩
  · apply paced_of_load _ hidle hload
    intro t h1 h2
    refine ⟨he t (by omega), ?_⟩
    rcases Nat.lt_trichotomy t (c + 1) with hlt | rfl | hgt
    · by_cases hfirst : t = b + 1
      · rw [hfirst]
        exact hoff
      · exact (hgoing t (by omega) (by omega)).1
    · exact hdone.noBreak
    · exact (hlast.going t hgt h2).1
  · intro t h1 h2
    rcases Nat.lt_or_ge b t with hbt | htb
    · rcases Nat.lt_or_ge c t with hct | htc
      · exact hlast.not_starts hct h2
      · by_cases hfirst : t = b + 1
        · rw [hfirst]
          exact not_starts_of_pending hdue
        · exact breakStarts_busy (hgoing t (by omega) htc).2
    · exact not_starts_of_active (hactive t h1 htb)

omit hu in
-- A command gets its break.
theorem start_of_command (hw : t₀ ≤ w) (hcmd : commands (inp w).bus 3) : ∃ a, w ≤ a ∧
    (after txMem rxMem inp a).breakStarts ∧
      (after txMem rxMem inp (a + 1)).lin.autoHeaderPending = true := by
  have hoff := (ht w hw).noLoss hcmd
  have hgen := posedge_break_off (i := inp w) (hm w hw).enabled hoff
  rw [hcmd, Bool.or_true, Bool.or_true, Bool.and_true, ← after_succ] at hgen
  have hpend : (after txMem rxMem inp (w + 1)).lin.autoHeaderPending = true :=
    congrArg Generator.headerPending hgen
  cases hstart : (after txMem rxMem inp w).breakStarts
  · rw [hstart] at hgen
    have hdue : HeaderDue (after txMem rxMem inp (w + 1)) :=
      ⟨congrArg Generator.active hgen, congrArg Generator.pending hgen, hpend⟩
    have hstep (t : Nat) (h : w < t ∧ HeaderDue (after txMem rxMem inp t)) :
        (after txMem rxMem inp t).breakStarts = true ∨
          (w < t + 1 ∧ HeaderDue (after txMem rxMem inp (t + 1))) ∧
            (after txMem rxMem inp (t + 1)).txRank < (after txMem rxMem inp t).txRank := by
      obtain ⟨hwt, hdue⟩ := h
      have hmt := hm t (by omega)
      by_cases h0 : (after txMem rxMem inp t).tx.bitsRemaining = 0#5
      · left
        rw [hmt.starts_eq, hdue.noBreak, hdue.due, h0]
        rfl
      · exact .inr ⟨⟨by omega, hdue.posedge hmt.enabled h0⟩, txRank_lt ⟨hmt.enabled, hdue.noBreak⟩ h0⟩
    obtain ⟨a, hwa, hstarts, -, hall⟩ := Clocked.first_event_while
      (fun t ↦ (after txMem rxMem inp t).txRank) hstep ⟨Nat.lt_succ_self w, hdue⟩
    have hlast := (hall a hwa (Nat.le_refl a)).2
    refine ⟨a, by omega, hstarts, ?_⟩
    have hnext := posedge_break_off (i := inp a) (hm a (by omega)).enabled hlast.noBreak
    rw [hlast.header, Bool.true_or, ← after_succ] at hnext
    exact congrArg Generator.headerPending hnext
  · exact ⟨w, Nat.le_refl w, hstart, hpend⟩

end

/-- LIN master: from any cycle on in which LIN mode and enable are held, nothing comes out of the TX FIFO
and no header is under way together with a break, and in which every request is timely, each LIN_CMD[3] is
followed by a whole header, and no break comes between a Sync byte and the end of its ID byte. -/
theorem headers_served (txMem rxMem : BitVec 3 → Byte) (inp : Nat → Inputs) (t₀ : Nat)
    (hm : ∀ t, t₀ ≤ t → Master (after txMem rxMem inp t)) (hu : Unmixed (after txMem rxMem inp t₀))
    (ht : ∀ t, t₀ ≤ t → Timely (after txMem rxMem inp t) (inp t).bus) :
    ServesHeaders txMem rxMem inp t₀ := by
  constructor
  · intro w hw hcmd
    obtain ⟨a, hwa, hstart, hpend⟩ := start_of_command hm ht hw hcmd
    obtain ⟨b, c, e, hsent⟩ := header_of_start hm ht hu (by omega) hstart hpend
    exact ⟨a, b, c, e, hwa, hsent⟩
  · intro v hv hauto
    have hout := (unmixed_run hm ht hu hv).syncOut hauto
    have hstep (t : Nat) (h : t₀ ≤ t ∧ SyncOut (after txMem rxMem inp t)) :
        (after txMem rxMem inp t).tx.bitsRemaining = 0#5 ∨
          (t₀ ≤ t + 1 ∧ SyncOut (after txMem rxMem inp (t + 1))) ∧
            (after txMem rxMem inp (t + 1)).txRank < (after txMem rxMem inp t).txRank := by
      have he := (hm t h.1).enabled
      by_cases h0 : (after txMem rxMem inp t).tx.bitsRemaining = 0#5
      · exact .inl h0
      · exact .inr ⟨⟨by omega, h.2.posedge he h0 (ht t h.1)⟩, txRank_lt ⟨he, h.2.noBreak⟩ h0⟩
    obtain ⟨c, hvc, hidle, -, hall⟩ := Clocked.first_event_while
      (fun t ↦ (after txMem rxMem inp t).txRank) hstep ⟨hv, hout⟩
    have hsync := (hall c hvc (Nat.le_refl c)).2
    obtain ⟨d, rfl⟩ : ∃ d, c = d + 1 := by
      apply Nat.exists_eq_succ_of_ne_zero
      rintro rfl
      exact absurd hsync.auto (show ¬ (0#2 = 2#2) by decide)
    obtain ⟨e, hident, hlast⟩ := ident_of_sync hm (by omega) hsync hidle
    refine ⟨d + 1, e, hvc, hident, ?_⟩
    intro t h1 h2
    rcases Nat.lt_or_ge d t with hdt | htd
    · exact hlast.not_starts hdt h2
    · exact not_starts_of_pending (hall t h1 (by omega)).2.notDue

/-! Runs with requests. -/

/-- BAUD = 0 and LIN mode; then LIN_CMD[3] in the cycles `asks`. -/
def headerAsks (asks : List Nat) (t : Nat) : Inputs where
  bus :=
    if t = 0 then ⟨true, false, 0x3, 0⟩
    else if t = 1 then ⟨true, false, 0x2, 0x21⟩
    else if t ∈ asks then ⟨true, false, 0x9, 8⟩
    else ⟨false, false, 0, 0⟩
  rx := true

theorem posedge_txFifo_idle (hempty : s.txFifo.empty) (hdata : writesTo i.bus 0x0#4 = false) :
    (posedge s i).txFifo = s.txFifo := by
  have hpush : txPush i.bus = none := if_neg (by rw [← writesTo, hdata]; exact Bool.false_ne_true)
  have htake : s.takesTxByte = false := by simp [takesTxByte, hempty]
  rw [posedge_txFifo, hpush, ite_self, htake]
  rfl

section

variable {asks : List Nat} {txMem rxMem : BitVec 3 → Byte} {t : Nat}

theorem headerAsks_noData (t : Nat) : writesTo (headerAsks asks t).bus 0x0#4 = false := by
  unfold headerAsks
  split
  · rfl
  · split
    · rfl
    · split <;> rfl

theorem headerAsks_noCtrl (h : 2 ≤ t) : writesTo (headerAsks asks t).bus 0x2#4 = false := by
  unfold headerAsks
  rw [if_neg (by omega), if_neg (by omega)]
  split <;> rfl

theorem headerAsks_quiet (h : 2 ≤ t) (hno : t ∉ asks) : asksBreak (headerAsks asks t).bus = false := by
  unfold headerAsks
  rw [if_neg (by omega), if_neg (by omega), if_neg hno]
  rfl

theorem headerAsks_empty (t : Nat) : (after txMem rxMem (headerAsks asks) t).txFifo.empty = true := by
  induction t with
  | zero => exact beq_self_eq_true _
  | succ t ih =>
    rw [after_succ, posedge_txFifo_idle ih (headerAsks_noData t)]
    exact ih

theorem headerAsks_ctrl (h : 2 ≤ t) : (after txMem rxMem (headerAsks asks) t).ctrl = 0x21 := by
  induction t, h using Nat.le_induction with
  | base => exact posedge_registers.1.trans (if_pos rfl)
  | succ t h ih =>
    rw [after_succ, posedge_registers.1, headerAsks_noCtrl h, if_neg Bool.false_ne_true]
    exact ih

theorem headerAsks_master (h : 2 ≤ t) : Master (after txMem rxMem (headerAsks asks) t) := by
  refine ⟨?_, ?_, ?_⟩
  · rw [ctrlEnable, headerAsks_ctrl h]
    rfl
  · rw [ctrlLinMode, headerAsks_ctrl h]
    rfl
  · rw [headerAsks_empty, Bool.true_or]

end

/-- The second header is requested during the ID byte of the first. -/
theorem twoHeaders_served : ServesHeaders (fun _ ↦ 0) (fun _ ↦ 0) (headerAsks [2, 35]) 2 := by
  have hquiet (t : Nat) (h : 2 ≤ t) (hask : asksBreak (headerAsks [2, 35] t).bus) : t = 2 ∨ t = 35 := by
    by_contra hno
    rw [headerAsks_quiet h (by simpa using hno)] at hask
    cases hask
  apply headers_served
  · exact fun t h ↦ headerAsks_master h
  · exact fun h ↦ absurd rfl h
  · intro t h
    constructor
    · intro hcmd
      rcases hquiet t h (by rw [asksBreak, hcmd, Bool.or_true]) with rfl | rfl
      · decide +kernel
      · decide +kernel
    · intro hask hauto
      rcases hquiet t h hask with rfl | rfl
      · exact absurd (by decide +kernel) hauto
      · exact absurd (by decide +kernel) hauto

/-- A header requested during the break of another is lost. -/
theorem lateHeader_lost : (∀ t, 2 ≤ t → Master (after (fun _ ↦ 0) (fun _ ↦ 0) (headerAsks [2, 6]) t)) ∧
    commands (headerAsks [2, 6] 6).bus 3 ∧
    (∀ a, 6 ≤ a → (after (fun _ ↦ 0) (fun _ ↦ 0) (headerAsks [2, 6]) a).breakStarts = false) ∧
    ¬ ServesHeaders (fun _ ↦ 0) (fun _ ↦ 0) (headerAsks [2, 6]) 2 := by
  have hmaster (t : Nat) (h : 2 ≤ t) : Master (after (fun _ ↦ 0) (fun _ ↦ 0) (headerAsks [2, 6]) t) :=
    headerAsks_master h
  have hbreak : ∀ a < 18, 6 ≤ a →
      (after (fun _ ↦ 0) (fun _ ↦ 0) (headerAsks [2, 6]) a).lin.breakActive := by decide +kernel
  have hdue (a : Nat) (h : 18 ≤ a) :
      (after (fun _ ↦ 0) (fun _ ↦ 0) (headerAsks [2, 6]) a).lin.breakPending = false := by
    induction a, h using Nat.le_induction with
    | base => decide +kernel
    | succ a h ih =>
      refine posedge_pending (hmaster a (by omega)).enabled ih (headerAsks_quiet (by omega) ?_)
      simp only [List.mem_cons, List.not_mem_nil, or_false]
      omega
  have hnone (a : Nat) (h : 6 ≤ a) :
      (after (fun _ ↦ 0) (fun _ ↦ 0) (headerAsks [2, 6]) a).breakStarts = false := by
    rcases Nat.lt_or_ge a 18 with hlt | hge
    · exact not_starts_of_active (hbreak a hlt h)
    · exact not_starts_of_pending (hdue a hge)
  have hcmd : commands (headerAsks [2, 6] 6).bus 3 := by decide
  refine ⟨hmaster, hcmd, hnone, ?_⟩
  intro hserves
  obtain ⟨a, b, c, e, ha, hsent⟩ := hserves.commanded 6 (by decide) hcmd
  have hstart := hsent.brk.starts
  rw [hnone a ha] at hstart
  cases hstart

-- A header requested during the Sync byte of another cuts off its ID byte.
example : (after (fun _ ↦ 0) (fun _ ↦ 0) (headerAsks [2, 20]) 29).loadsByte = some 0 ∧
    (after (fun _ ↦ 0) (fun _ ↦ 0) (headerAsks [2, 20]) 29).breakStarts ∧
    (after (fun _ ↦ 0) (fun _ ↦ 0) (headerAsks [2, 20]) 31).tx.bitsRemaining = 0 := by
  decide +kernel

end Uart

end QarCore
