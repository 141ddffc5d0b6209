import QarCore.Clocked.Run

/-!
# Asynchronous serial links

A transmitter that puts the bits of a frame on a line, each for `div + 1` cycles, a synchronizer of two
flops, and a receiver that waits for a start bit and samples every bit of the frame near its middle.
Whatever the divider and the frame length, the link is a queue: `Carries` lists the messages in flight,
and a clock edge only adds a message at the end or delivers the first one, with all its bits.
-/

namespace Clocked

universe u

/-- A frame format.  The first bit of a frame is low, the last one high. -/
structure Format (α : Type u) where
  div : Nat
  bits : Nat
  encode : α → Nat → Bool
  two_le_div : 2 ≤ div
  two_le_bits : 2 ≤ bits
  encode_start : ∀ a, encode a 0 = false
  encode_stop : ∀ a, encode a (bits - 1) = true

namespace Format

variable {α : Type u} (fmt : Format α)

/-- The cycles of one bit. -/
def period : Nat := fmt.div + 1

def frame (a : α) : List Bool := (List.range fmt.bits).map (fmt.encode a)

/-- The line `x` cycles after the start bit of a message has appeared on it. -/
def wave (a : α) (x : Nat) : Bool :=
  if x / fmt.period < fmt.bits then fmt.encode a (x / fmt.period) else true

variable {fmt} {a : α} {m c x : Nat}

-- Within bit `m` the line shows it.
theorem wave_eq (hm : m < fmt.bits) (hx : m * fmt.period ≤ x) (hlt : x < m * fmt.period + fmt.period) :
    fmt.wave a x = fmt.encode a m := by
  have hdiv : x / fmt.period = m := by
    apply Nat.div_eq_of_lt_le
    · exact hx
    · rw [Nat.succ_mul]
      exact hlt
  rw [wave, hdiv, if_pos hm]

-- From the stop bit on the line is high.
theorem wave_stop (hx : (fmt.bits - 1) * fmt.period ≤ x) : fmt.wave a x = true := by
  have hle : fmt.bits - 1 ≤ x / fmt.period :=
    (Nat.le_div_iff_mul_le (Nat.succ_pos _)).mpr hx
  unfold wave
  split
  · rw [show x / fmt.period = fmt.bits - 1 by omega]
    exact fmt.encode_stop a
  · rfl

end Format

/-- A frame in the transmitter: `index` bits have been put on the line, the last one `tick` cycles ago. -/
structure Sending (α : Type u) where
  msg : α
  index : Nat
  tick : Nat

/-- A frame in the receiver: the bits sampled so far and the cycles since the last one. -/
structure Sampling where
  samples : List Bool
  tick : Nat

structure Link (α : Type u) where
  line : Bool
  sync1 : Bool
  sync2 : Bool
  tx : Option (Sending α)
  rx : Option Sampling

namespace Link

variable {α : Type u}

def idle : Link α := ⟨true, true, true, none, none⟩

variable (fmt : Format α) (l : Link α) (load : Option α)

/-- The line after the edge. -/
def lineNext : Bool :=
  match l.tx with
  | none => l.line
  | some x => if fmt.div ≤ x.tick then fmt.encode x.msg x.index else l.line

/-- An idle transmitter takes a message if there is one. -/
def txNext : Option (Sending α) :=
  match l.tx with
  | none => load.map fun a ↦ ⟨a, 0, 0⟩
  | some x =>
    if fmt.div ≤ x.tick then
      if x.index + 1 = fmt.bits then none else some ⟨x.msg, x.index + 1, 0⟩
    else some ⟨x.msg, x.index, x.tick + 1⟩

/-- An idle receiver waits for a low line; it then counts from half a bit on. -/
def rxNext : Option Sampling :=
  match l.rx with
  | none => if l.sync2 then none else some ⟨[], fmt.div / 2⟩
  | some y =>
    if fmt.div ≤ y.tick then
      if y.samples.length + 1 = fmt.bits then none else some ⟨y.samples ++ [l.sync2], 0⟩
    else some ⟨y.samples, y.tick + 1⟩

def step : Link α :=
  ⟨l.lineNext fmt, l.line, l.sync1, l.txNext fmt load, l.rxNext fmt⟩

/-- The message the transmitter takes in this cycle. -/
def loaded : Option α := if l.tx.isNone then load else none

/-- The frame the receiver completes in this cycle. -/
def delivered : Option (List Bool) :=
  match l.rx with
  | none => none
  | some y =>
    if fmt.div ≤ y.tick ∧ y.samples.length + 1 = fmt.bits then some (y.samples ++ [l.sync2])
    else none

/-! ## Messages in flight -/

/-- The receiver has sampled the first `k` bits of message `a`, whose start bit appeared on the line
`x` cycles ago: the synchronizer delays the line by two cycles and the start of the frame by one more. -/
structure Receives (a : α) (x : Nat) (l : Link α) : Prop where
  rx : ∃ k r, l.rx = some ⟨(List.range k).map (fmt.encode a), r⟩ ∧ k < fmt.bits ∧ r ≤ fmt.div ∧
    x + fmt.div / 2 = k * fmt.period + r + 3
  sync1 : l.sync1 = fmt.wave a (x - 1)
  sync2 : l.sync2 = fmt.wave a (x - 2)

/-- The messages in flight, oldest first. -/
inductive Carries : Link α → List α → Prop
  /-- Nothing is sent or received. -/
  | quiet : Carries idle []
  /-- A message has been taken and its start bit is still to come. -/
  | leading {a : α} {c : Nat} (hc : c ≤ fmt.div) :
      Carries ⟨true, true, true, some ⟨a, 0, c⟩, none⟩ [a]
  /-- The start bit is on the line and on its way through the synchronizer. -/
  | start {a : α} {c : Nat} (hc : c ≤ 2) :
      Carries ⟨false, decide (c = 0), decide (c ≤ 1), some ⟨a, 1, c⟩, none⟩ [a]
  /-- One message is being sent and received. -/
  | sending {a : α} {x m c : Nat} {l : Link α} (hr : Receives fmt a x l)
      (htx : l.tx = some ⟨a, m + 1, c⟩) (hm : m + 1 < fmt.bits) (hc : c ≤ fmt.div)
      (hx : x = m * fmt.period + c) (hline : l.line = fmt.wave a x) : Carries l [a]
  /-- The transmitter is done; the receiver is still in the last bits. -/
  | trailing {a : α} {x : Nat} {l : Link α} (hr : Receives fmt a x l) (htx : l.tx = none)
      (hx : (fmt.bits - 1) * fmt.period ≤ x) (hline : l.line = true) : Carries l [a]
  /-- The transmitter has gone on to the next message. -/
  | following {a b : α} {x m c : Nat} {l : Link α} (hr : Receives fmt a x l)
      (htx : l.tx = some ⟨b, m, c⟩) (hc : c ≤ fmt.div)
      (hx : (fmt.bits - 1) * fmt.period + 1 + m * fmt.period + c ≤ x)
      (hline : l.line = decide (m = 0)) : Carries l [a, b]

variable {fmt l load} {a : α} {x : Nat} {q : List α}

/-- The cycle of the last sample of a frame, as `x + div / 2`. -/
def lastSample (fmt : Format α) : Nat := (fmt.bits - 1) * fmt.period + fmt.div + 3

theorem Receives.le_lastSample (h : Receives fmt a x l) : x + fmt.div / 2 ≤ lastSample fmt := by
  obtain ⟨k, r, -, hk, hr, hx⟩ := h.rx
  have hmul : k * fmt.period ≤ (fmt.bits - 1) * fmt.period :=
    Nat.mul_le_mul_right _ (by omega)
  unfold lastSample
  omega

-- One edge of the receiver: it goes on with the frame, or it delivers the frame with its last sample.
theorem Receives.step (h : Receives fmt a x l)
    (hline : x + fmt.div / 2 < lastSample fmt → l.line = fmt.wave a x) (load : Option α) :
    (l.delivered fmt = none ∧ Receives fmt a (x + 1) (l.step fmt load)) ∨
      (l.delivered fmt = some (fmt.frame a) ∧ (l.step fmt load).rx = none ∧
        x + fmt.div / 2 = lastSample fmt) := by
  obtain ⟨k, r, hrx, hk, hr, hx⟩ := h.rx
  have hdiv := fmt.two_le_div
  have hlen : ((List.range k).map (fmt.encode a)).length = k := by
    rw [List.length_map, List.length_range]
  have hx1 : x + 1 - 1 = x := by omega
  have hx2 : x + 1 - 2 = x - 1 := by omega
  by_cases hdone : fmt.div ≤ r
  · -- bit `k` is sampled, and the synchronizer shows its middle
    have hsample : l.sync2 = fmt.encode a k := by
      rw [h.sync2]
      unfold Format.period at hx
      apply Format.wave_eq hk
      · unfold Format.period
        omega
      · unfold Format.period
        omega
    have hbits : (List.range k).map (fmt.encode a) ++ [l.sync2] =
        (List.range (k + 1)).map (fmt.encode a) := by
      rw [hsample, List.range_succ, List.map_append, List.map_singleton]
    by_cases hlast : k + 1 = fmt.bits
    · right
      refine ⟨?_, ?_, ?_⟩
      · simp only [delivered, hrx, hlen]
        rw [if_pos ⟨hdone, hlast⟩, hbits, hlast]
        rfl
      · show l.rxNext fmt = none
        simp only [rxNext, hrx, hlen]
        rw [if_pos hdone, if_pos hlast]
      · unfold lastSample
        rw [← hlast, Nat.add_sub_cancel]
        omega
    · left
      have hmul : (k + 1) * fmt.period ≤ (fmt.bits - 1) * fmt.period :=
        Nat.mul_le_mul_right _ (by omega)
      rw [Nat.succ_mul] at hmul
      have hper : fmt.period = fmt.div + 1 := rfl
      refine ⟨?_, ⟨k + 1, 0, ?_, by omega, by omega, ?_⟩, ?_, ?_⟩
      · simp only [delivered, hrx, hlen]
        exact if_neg fun hc ↦ hlast hc.2
      · show l.rxNext fmt = _
        simp only [rxNext, hrx, hlen]
        rw [if_pos hdone, if_neg hlast, hbits]
      · rw [Nat.succ_mul]
        omega
      · rw [hx1]
        apply hline
        unfold lastSample
        omega
      · rw [hx2]
        exact h.sync1
  · left
    have hle := h.le_lastSample
    refine ⟨?_, ⟨k, r + 1, ?_, hk, by omega, by omega⟩, ?_, ?_⟩
    · simp only [delivered, hrx]
      exact if_neg fun hc ↦ hdone hc.1
    · show l.rxNext fmt = _
      simp only [rxNext, hrx]
      rw [if_neg hdone]
    · rw [hx1]
      apply hline
      have hmul : k * fmt.period ≤ (fmt.bits - 1) * fmt.period :=
        Nat.mul_le_mul_right _ (by omega)
      unfold lastSample
      omega
    · rw [hx2]
      exact h.sync1

/-- What one edge does to the messages in flight. -/
def Moves (fmt : Format α) (l : Link α) (load : Option α) (q : List α) : Prop :=
  ∃ q', Carries fmt (l.step fmt load) q' ∧
    (q ++ (l.loaded load).toList).map fmt.frame = (l.delivered fmt).toList ++ q'.map fmt.frame

theorem moves_quiet : Moves fmt idle load [] := by
  cases load with
  | none => exact ⟨[], .quiet, rfl⟩
  | some a => exact ⟨[a], .leading (Nat.zero_le _), rfl⟩

theorem moves_leading {c : Nat} :
    Moves fmt ⟨true, true, true, some ⟨a, 0, c⟩, none⟩ load [a] := by
  have hbits := fmt.two_le_bits
  refine ⟨[a], ?_, rfl⟩
  by_cases hd : fmt.div ≤ c
  · -- the start bit goes on the line
    have hnext : step fmt ⟨true, true, true, some ⟨a, 0, c⟩, none⟩ load =
        ⟨false, true, true, some ⟨a, 1, 0⟩, none⟩ := by
      simp only [step, lineNext, txNext, rxNext, if_pos hd, fmt.encode_start]
      rw [if_neg (show ¬0 + 1 = fmt.bits by omega)]
      rfl
    rw [hnext]
    exact .start (Nat.zero_le _)
  · have hnext : step fmt ⟨true, true, true, some ⟨a, 0, c⟩, none⟩ load =
        ⟨true, true, true, some ⟨a, 0, c + 1⟩, none⟩ := by
      simp only [step, lineNext, txNext, rxNext, if_neg hd, ↓reduceIte]
    rw [hnext]
    exact .leading (by omega)

-- The transmitter stays in the frame whose start bit it has put on the line, or ends it.
theorem carries_sending_step {m c : Nat} (hr : Receives fmt a (x + 1) (l.step fmt load))
    (htx : l.tx = some ⟨a, m + 1, c⟩) (hm : m + 1 < fmt.bits) (hc : c ≤ fmt.div)
    (hx : x = m * fmt.period + c) (hline : l.line = fmt.wave a x) :
    Carries fmt (l.step fmt load) [a] := by
  have hper : fmt.period = fmt.div + 1 := rfl
  by_cases hd : fmt.div ≤ c
  · have hx1 : x + 1 = (m + 1) * fmt.period := by
      rw [Nat.succ_mul]
      omega
    have hbit : (l.step fmt load).line = fmt.encode a (m + 1) := by
      show l.lineNext fmt = _
      simp only [lineNext, htx]
      rw [if_pos hd]
    have htx' : (l.step fmt load).tx = if m + 1 + 1 = fmt.bits then none else some ⟨a, m + 2, 0⟩ := by
      show l.txNext fmt load = _
      simp only [txNext, htx]
      rw [if_pos hd]
    by_cases hlast : m + 1 + 1 = fmt.bits
    · rw [if_pos hlast] at htx'
      apply Carries.trailing hr htx'
      · rw [hx1, ← hlast, Nat.add_sub_cancel]
      · rw [hbit, show m + 1 = fmt.bits - 1 by omega]
        exact fmt.encode_stop a
    · rw [if_neg hlast] at htx'
      apply Carries.sending hr htx' (by omega) (Nat.zero_le _) (by omega)
      rw [hbit, Format.wave_eq hm (by omega) (by omega)]
  · have htx' : (l.step fmt load).tx = some ⟨a, m + 1, c + 1⟩ := by
      show l.txNext fmt load = _
      simp only [txNext, htx]
      rw [if_neg hd]
    apply Carries.sending hr htx' hm (by omega) (by omega)
    have hsame : (l.step fmt load).line = l.line := by
      show l.lineNext fmt = _
      simp only [lineNext, htx]
      rw [if_neg hd]
    rw [hsame, hline, Format.wave_eq (show m < fmt.bits by omega) (by omega) (by omega),
      Format.wave_eq (show m < fmt.bits by omega) (by omega) (by omega)]

theorem moves_start {c : Nat} (hc : c ≤ 2) :
    Moves fmt ⟨false, decide (c = 0), decide (c ≤ 1), some ⟨a, 1, c⟩, none⟩ load [a] := by
  have hdiv := fmt.two_le_div
  have hbits := fmt.two_le_bits
  have hper : fmt.period = fmt.div + 1 := rfl
  refine ⟨[a], ?_, rfl⟩
  by_cases hlow : c ≤ 1
  · -- the receiver does not see the low line yet
    have hnext : step fmt ⟨false, decide (c = 0), decide (c ≤ 1), some ⟨a, 1, c⟩, none⟩ load =
        ⟨false, decide (c + 1 = 0), decide (c + 1 ≤ 1), some ⟨a, 1, c + 1⟩, none⟩ := by
      simp only [step, lineNext, txNext, rxNext, if_neg (show ¬fmt.div ≤ c by omega)]
      rw [decide_eq_true hlow]
      simp
    rw [hnext]
    exact .start (by omega)
  · -- the frame starts in the receiver, three cycles after the start bit has appeared
    obtain rfl : c = 2 := by omega
    have hwave (y : Nat) (hy : y < fmt.period) : fmt.wave a y = false := by
      rw [Format.wave_eq (show 0 < fmt.bits by omega) (by omega) (by omega)]
      exact fmt.encode_start a
    apply carries_sending_step (m := 0) (c := 2) (x := 2)
    · exact ⟨⟨0, fmt.div / 2, rfl, by omega, by omega, by omega⟩, (hwave 2 (by omega)).symm,
        (hwave 1 (by omega)).symm⟩
    · rfl
    · omega
    · omega
    · omega
    · exact (hwave 2 (by omega)).symm

theorem moves_sending {m c : Nat} (hr : Receives fmt a x l) (htx : l.tx = some ⟨a, m + 1, c⟩)
    (hm : m + 1 < fmt.bits) (hc : c ≤ fmt.div) (hx : x = m * fmt.period + c)
    (hline : l.line = fmt.wave a x) : Moves fmt l load [a] := by
  have hload : l.loaded load = none := by simp only [loaded, htx, Option.isNone_some]; rfl
  rcases hr.step (fun _ ↦ hline) load with ⟨hd, hr'⟩ | ⟨-, -, hlast⟩
  · refine ⟨[a], carries_sending_step hr' htx hm hc hx hline, ?_⟩
    rw [hload, hd]
    rfl
  · -- the last sample comes after the last bit has been put on the line
    have hmul : (m + 1) * fmt.period ≤ (fmt.bits - 1) * fmt.period :=
      Nat.mul_le_mul_right _ (by omega)
    have hper : fmt.period = fmt.div + 1 := rfl
    rw [Nat.succ_mul] at hmul
    unfold lastSample at hlast
    omega

-- The line and the synchronizer after the receiver has finished with a frame that is still on the line: the
-- stop bit has gone through.
theorem Receives.stop_passed (hr : Receives fmt a x l) (hlast : x + fmt.div / 2 = lastSample fmt) :
    l.sync1 = true := by
  rw [hr.sync1]
  apply Format.wave_stop
  unfold lastSample at hlast
  omega

theorem moves_trailing (hr : Receives fmt a x l) (htx : l.tx = none)
    (hx : (fmt.bits - 1) * fmt.period ≤ x) (hline : l.line = true) : Moves fmt l load [a] := by
  have hload : l.loaded load = load := by simp only [loaded, htx, Option.isNone_none]; rfl
  have hline' : l.lineNext fmt = true := by
    simp only [lineNext, htx]
    exact hline
  have htx' : l.txNext fmt load = load.map fun a ↦ ⟨a, 0, 0⟩ := by simp only [txNext, htx]
  have hwave : l.line = fmt.wave a x := by rw [hline, Format.wave_stop hx]
  rcases hr.step (fun _ ↦ hwave) load with ⟨hd, hr'⟩ | ⟨hd, hrx, hlast⟩
  · cases load with
    | none =>
      refine ⟨[a], .trailing hr' htx' (by omega) hline', ?_⟩
      rw [hload, hd]
      rfl
    | some b =>
      refine ⟨[a, b], .following hr' htx' (Nat.zero_le _) (by omega) hline', ?_⟩
      rw [hload, hd]
      rfl
  · have hnext : l.step fmt load = ⟨true, true, true, load.map fun a ↦ ⟨a, 0, 0⟩, none⟩ := by
      have hrx' : l.rxNext fmt = none := hrx
      unfold step
      rw [hline', hline, hr.stop_passed hlast, htx', hrx']
    cases load with
    | none =>
      refine ⟨[], ?_, ?_⟩
      · rw [hnext]
        exact .quiet
      · rw [hload, hd]
        rfl
    | some b =>
      refine ⟨[b], ?_, ?_⟩
      · rw [hnext]
        exact .leading (Nat.zero_le _)
      · rw [hload, hd]
        rfl

theorem moves_following {b : α} {m c : Nat} (hr : Receives fmt a x l)
    (htx : l.tx = some ⟨b, m, c⟩) (hc : c ≤ fmt.div)
    (hx : (fmt.bits - 1) * fmt.period + 1 + m * fmt.period + c ≤ x)
    (hline : l.line = decide (m = 0)) : Moves fmt l load [a, b] := by
  have hdiv := fmt.two_le_div
  have hbits := fmt.two_le_bits
  have hper : fmt.period = fmt.div + 1 := rfl
  have hload : l.loaded load = none := by simp only [loaded, htx, Option.isNone_some]; rfl
  have hle := hr.le_lastSample
  unfold lastSample at hle
  -- at most the start bit of the next message has appeared on the line, in this cycle
  have hm : m = 0 ∨ m = 1 ∧ c = 0 ∧ x + fmt.div / 2 = lastSample fmt := by
    unfold lastSample
    rcases Nat.lt_or_ge m 1 with h0 | h1
    · left
      omega
    · have hmul : 1 * fmt.period ≤ m * fmt.period := Nat.mul_le_mul_right _ h1
      rcases Nat.lt_or_ge m 2 with h2 | h2
      · right
        obtain rfl : m = 1 := by omega
        omega
      · have hmul2 : 2 * fmt.period ≤ m * fmt.period := Nat.mul_le_mul_right _ h2
        omega
  have hwave : x + fmt.div / 2 < lastSample fmt → l.line = fmt.wave a x := by
    intro hlt
    obtain rfl : m = 0 := by omega
    rw [hline, Format.wave_stop (by omega)]
    rfl
  rcases hr.step hwave load with ⟨hd, hr'⟩ | ⟨hd, hrx, hlast⟩
  · refine ⟨[a, b], ?_, by rw [hload, hd]; rfl⟩
    have hlt : x + 1 + fmt.div / 2 ≤ lastSample fmt := hr'.le_lastSample
    obtain rfl : m = 0 := by omega
    by_cases hcd : fmt.div ≤ c
    · have htx' : (l.step fmt load).tx = some ⟨b, 1, 0⟩ := by
        show l.txNext fmt load = _
        simp only [txNext, htx]
        rw [if_pos hcd, if_neg (by omega)]
      apply Carries.following hr' htx' (Nat.zero_le _) (by omega)
      show l.lineNext fmt = _
      simp only [lineNext, htx]
      rw [if_pos hcd, fmt.encode_start]
      rfl
    · have htx' : (l.step fmt load).tx = some ⟨b, 0, c + 1⟩ := by
        show l.txNext fmt load = _
        simp only [txNext, htx]
        rw [if_neg hcd]
      apply Carries.following hr' htx' (by omega) (by omega)
      show l.lineNext fmt = _
      simp only [lineNext, htx]
      rw [if_neg hcd]
      exact hline
  · refine ⟨[b], ?_, by rw [hload, hd]; rfl⟩
    have hsync := hr.stop_passed hlast
    have hrx' : l.rxNext fmt = none := hrx
    rcases hm with rfl | ⟨rfl, rfl, -⟩
    · by_cases hcd : fmt.div ≤ c
      · have hnext : l.step fmt load = ⟨false, true, true, some ⟨b, 1, 0⟩, none⟩ := by
          unfold step
          rw [hrx', hsync, hline]
          simp only [lineNext, txNext, htx, if_pos hcd, fmt.encode_start]
          rw [if_neg (show ¬0 + 1 = fmt.bits by omega)]
          rfl
        rw [hnext]
        exact .start (Nat.zero_le _)
      · have hnext : l.step fmt load = ⟨true, true, true, some ⟨b, 0, c + 1⟩, none⟩ := by
          unfold step
          rw [hrx', hsync]
          simp only [lineNext, txNext, htx, if_neg hcd, hline]
          rfl
        rw [hnext]
        exact .leading (by omega)
    · have hnext : l.step fmt load = ⟨false, false, true, some ⟨b, 1, 1⟩, none⟩ := by
        unfold step
        rw [hrx', hsync]
        simp only [lineNext, txNext, htx, if_neg (show ¬fmt.div ≤ 0 by omega), hline]
        rfl
      rw [hnext]
      exact .start (show 1 ≤ 2 by decide)

-- One clock edge moves the messages in flight as a queue.
theorem Carries.moves (h : Carries fmt l q) (load : Option α) : Moves fmt l load q := by
  cases h with
  | quiet => exact moves_quiet
  | leading hc => exact moves_leading
  | start hc => exact moves_start hc
  | sending hr htx hm hc hx hline => exact moves_sending hr htx hm hc hx hline
  | trailing hr htx hx hline => exact moves_trailing hr htx hx hline
  | following hr htx hc hx hline => exact moves_following hr htx hc hx hline

-- What the receiver completes is the frame of a message.
theorem Carries.delivered_frame (h : Carries fmt l q) {bs : List Bool}
    (hd : l.delivered fmt = some bs) : ∃ a, bs = fmt.frame a := by
  obtain ⟨q', -, hmove⟩ := h.moves none
  rw [hd, Option.toList_some, List.singleton_append] at hmove
  obtain ⟨a, -, -, ha, -⟩ := List.map_eq_cons_iff.mp hmove
  exact ⟨a, ha.symm⟩

/-! ## Low lines -/

/-- The cycles since the start bit of the frame in the receiver came through the synchronizer. -/
def seenFor (fmt : Format α) (y : Sampling) : Nat :=
  y.samples.length * fmt.period + y.tick + 1 - fmt.div / 2

/-- The synchronized line has been low for the last `w` cycles; from bit `high` on every frame is high. -/
def LowFor (fmt : Format α) (high : Nat) (l : Link α) (w : Nat) : Prop :=
  match l.rx with
  | none => w = 0
  | some y => fmt.div / 2 ≤ y.samples.length * fmt.period + y.tick ∧ w ≤ seenFor fmt y ∧
      (high * fmt.period < seenFor fmt y → w = 0)

-- A receiver in a frame is shown the frame of some message.
theorem Carries.sync2_eq (h : Carries fmt l q) {y : Sampling} (hy : l.rx = some y) :
    y.tick ≤ fmt.div ∧ ∃ a, l.sync2 = fmt.wave a (seenFor fmt y) := by
  have hrec {a : α} {x : Nat} (hr : Receives fmt a x l) :
      y.tick ≤ fmt.div ∧ ∃ a, l.sync2 = fmt.wave a (seenFor fmt y) := by
    obtain ⟨k, r, hrx, -, hle, hx⟩ := hr.rx
    rw [hy] at hrx
    cases hrx
    refine ⟨hle, a, ?_⟩
    rw [hr.sync2]
    congr 1
    unfold seenFor
    rw [List.length_map, List.length_range]
    show x - 2 = k * fmt.period + r + 1 - fmt.div / 2
    omega
  cases h with
  | quiet => cases hy
  | leading hc => cases hy
  | start hc => cases hy
  | sending hr _ _ _ _ _ => exact hrec hr
  | trailing hr _ _ _ => exact hrec hr
  | following hr _ _ _ _ => exact hrec hr

section Low

variable {high w : Nat} (hhigh : ∀ a j, high ≤ j → j < fmt.bits → fmt.encode a j = true)

include hhigh

-- From bit `high` on the line is high.
theorem wave_high {x : Nat} (hx : high * fmt.period ≤ x) : fmt.wave a x = true := by
  have hle : high ≤ x / fmt.period := (Nat.le_div_iff_mul_le (Nat.succ_pos _)).mpr hx
  unfold Format.wave
  split
  · rename_i hlt
    exact hhigh a _ hle hlt
  · rfl

-- The line is never low for longer than `high` bits.
theorem LowFor.le (h : LowFor fmt high l w) (hc : Carries fmt l q) (hpos : 0 < high)
    (hlow : l.sync2 = false) : w + 1 ≤ high * fmt.period := by
  have hper : 1 * 1 ≤ high * fmt.period := Nat.mul_le_mul hpos (Nat.succ_pos fmt.div)
  unfold LowFor at h
  cases hy : l.rx with
  | none =>
    rw [hy] at h
    replace h : w = 0 := h
    omega
  | some y =>
    rw [hy] at h
    obtain ⟨-, a, ha⟩ := hc.sync2_eq hy
    rcases Nat.lt_or_ge (seenFor fmt y) (high * fmt.period) with hlt | hge
    · have hw := h.2.1
      omega
    · rw [hlow, wave_high hhigh hge] at ha
      cases ha

theorem LowFor.step (h : LowFor fmt high l w) (hc : Carries fmt l q) (hpos : 0 < high)
    (hlast : high < fmt.bits) (load : Option α) :
    LowFor fmt high (l.step fmt load) (if l.sync2 then 0 else w + 1) := by
  have hper : fmt.period = fmt.div + 1 := rfl
  have hone : 1 * 1 ≤ high * fmt.period := Nat.mul_le_mul hpos (Nat.succ_pos fmt.div)
  unfold LowFor at h
  show LowFor fmt high ⟨_, _, _, _, l.rxNext fmt⟩ _
  unfold rxNext
  cases hy : l.rx with
  | none =>
    rw [hy] at h
    replace h : w = 0 := h
    by_cases hs : l.sync2
    · simp only [hs, ↓reduceIte]
      rfl
    · simp only [hs, Bool.false_eq_true, ↓reduceIte]
      show fmt.div / 2 ≤ 0 * fmt.period + fmt.div / 2 ∧ w + 1 ≤ 0 * fmt.period + fmt.div / 2 + 1 -
        fmt.div / 2 ∧ (high * fmt.period < 0 * fmt.period + fmt.div / 2 + 1 - fmt.div / 2 → w + 1 = 0)
      omega
  | some y =>
    rw [hy] at h
    obtain ⟨hstart, hle, hzero⟩ := h
    obtain ⟨htick, a, ha⟩ := hc.sync2_eq hy
    have hgone : high * fmt.period ≤ seenFor fmt y → l.sync2 = true := by
      intro hge
      rw [ha, wave_high hhigh hge]
    -- one cycle later
    have hnext {k r : Nat} (hk : k * fmt.period + r = y.samples.length * fmt.period + y.tick + 1) :
        fmt.div / 2 ≤ k * fmt.period + r ∧ (if l.sync2 then 0 else w + 1) ≤
          k * fmt.period + r + 1 - fmt.div / 2 ∧
            (high * fmt.period < k * fmt.period + r + 1 - fmt.div / 2 →
              (if l.sync2 then 0 else w + 1) = 0) := by
      unfold seenFor at hle hgone
      refine ⟨by omega, ?_, ?_⟩
      · split <;> omega
      · intro hlt
        rw [if_pos (hgone (by omega))]
    by_cases hd : fmt.div ≤ y.tick
    · by_cases hend : y.samples.length + 1 = fmt.bits
      · have hmul : high * fmt.period ≤ y.samples.length * fmt.period :=
          Nat.mul_le_mul_right _ (by omega)
        have hup : l.sync2 = true := by
          apply hgone
          unfold seenFor
          omega
        simp only [if_pos hd, if_pos hend, hup, ↓reduceIte]
        rfl
      · simp only [if_pos hd, if_neg hend]
        apply hnext
        show (y.samples ++ [l.sync2]).length * fmt.period + 0 = _
        rw [List.length_append, List.length_singleton, Nat.succ_mul]
        omega
    · simp only [if_neg hd]
      apply hnext
      show y.samples.length * fmt.period + (y.tick + 1) = _
      omega

end Low

/-! ## Progress -/

/-- A bound on the cycles until the receiver has completed a frame. -/
def rank (fmt : Format α) (l : Link α) : Nat :=
  match l.rx with
  | some y => fmt.bits * fmt.period - (y.samples.length * fmt.period + y.tick)
  | none =>
    match l.tx with
    | some x => fmt.bits * fmt.period + 2 * fmt.period - (x.index * fmt.period + x.tick)
    | none => fmt.bits * fmt.period + 2 * fmt.period + 1

theorem rank_le (fmt : Format α) (l : Link α) :
    rank fmt l ≤ fmt.bits * fmt.period + 2 * fmt.period + 1 := by
  unfold rank
  split
  · omega
  · split <;> omega

-- A receiver in a frame comes closer to its end.
theorem Receives.rank_lt (hr : Receives fmt a x l) (hd : l.delivered fmt = none) :
    rank fmt (l.step fmt load) < rank fmt l := by
  obtain ⟨k, r, hrx, hk, hrd, -⟩ := hr.rx
  have hper : fmt.period = fmt.div + 1 := rfl
  have hlen : ((List.range k).map (fmt.encode a)).length = k := by
    rw [List.length_map, List.length_range]
  have hmul : (k + 1) * fmt.period ≤ fmt.bits * fmt.period := Nat.mul_le_mul_right _ hk
  have hsucc : (k + 1) * fmt.period = k * fmt.period + fmt.period := Nat.succ_mul _ _
  have hnow : rank fmt l = fmt.bits * fmt.period - (k * fmt.period + r) := by
    simp only [rank, hrx, hlen]
  rw [hnow]
  by_cases hdone : fmt.div ≤ r
  · have hlast : k + 1 ≠ fmt.bits := by
      intro hk1
      simp only [delivered, hrx, hlen] at hd
      rw [if_pos ⟨hdone, hk1⟩] at hd
      cases hd
    have hrx' : (l.step fmt load).rx =
        some ⟨(List.range k).map (fmt.encode a) ++ [l.sync2], 0⟩ := by
      show l.rxNext fmt = _
      simp only [rxNext, hrx, hlen]
      rw [if_pos hdone, if_neg hlast]
    simp only [rank, hrx', List.length_append, hlen, List.length_singleton]
    omega
  · have hrx' : (l.step fmt load).rx = some ⟨(List.range k).map (fmt.encode a), r + 1⟩ := by
      show l.rxNext fmt = _
      simp only [rxNext, hrx]
      rw [if_neg hdone]
    simp only [rank, hrx', hlen]
    omega

-- While a message is in flight or taken, every edge that completes no frame lowers the bound.
theorem Carries.rank_lt (h : Carries fmt l q) (hbusy : q ≠ [] ∨ (l.loaded load).isSome)
    (hd : l.delivered fmt = none) : rank fmt (l.step fmt load) < rank fmt l := by
  have hdiv := fmt.two_le_div
  have hbits := fmt.two_le_bits
  have hper : fmt.period = fmt.div + 1 := rfl
  have hmul : 2 * fmt.period ≤ fmt.bits * fmt.period := Nat.mul_le_mul_right _ hbits
  cases h with
  | quiet =>
    cases load with
    | none => rcases hbusy with hq | hl
              · exact absurd rfl hq
              · cases hl
    | some a => simp [rank, step, lineNext, txNext, rxNext, idle]
  | @leading a c hc =>
    by_cases hcd : fmt.div ≤ c
    · simp only [rank, step, txNext, rxNext, if_pos hcd,
        if_neg (show ¬0 + 1 = fmt.bits by omega), ↓reduceIte]
      omega
    · simp only [rank, step, txNext, rxNext, if_neg hcd, ↓reduceIte]
      omega
  | @start a c hc =>
    by_cases hlow : c ≤ 1
    · simp only [rank, step, txNext, rxNext, decide_eq_true hlow,
        if_neg (show ¬fmt.div ≤ c by omega), ↓reduceIte]
      omega
    · simp only [rank, step, rxNext, decide_eq_false hlow, Bool.false_eq_true, ↓reduceIte,
        List.length_nil]
      omega
  | sending hr htx hm hc hx hline => exact hr.rank_lt hd
  | trailing hr htx hx hline => exact hr.rank_lt hd
  | following hr htx hc hx hline => exact hr.rank_lt hd

/-! ## Runs -/

/-- The link after `t` edges, offered the messages `load`. -/
def run (fmt : Format α) (load : Nat → Option α) (t : Nat) : Link α :=
  Clocked.run (step fmt) idle load t

-- The taken messages are the delivered ones and then those in flight.
theorem carries_run (fmt : Format α) (load : Nat → Option α) (t : Nat) :
    ∃ q, Carries fmt (run fmt load t) q ∧
      (trace (fun u ↦ (run fmt load u).loaded (load u)) t).map fmt.frame =
        trace (fun u ↦ (run fmt load u).delivered fmt) t ++ q.map fmt.frame := by
  induction t with
  | zero => exact ⟨[], .quiet, rfl⟩
  | succ t ih =>
    obtain ⟨q, hq, heq⟩ := ih
    obtain ⟨q', hq', hmove⟩ := hq.moves (load t)
    refine ⟨q', hq', ?_⟩
    rw [trace_succ, trace_succ, List.map_append, heq, List.append_assoc, ← List.map_append, hmove,
      List.append_assoc]

end Link

end Clocked
