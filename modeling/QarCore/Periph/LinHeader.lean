import QarCore.Periph.Loopback
import QarCore.Periph.UartIrq

/-!
# Automatic LIN headers

The UART sends itself a LIN header: a break, the Sync byte and the ID.  While the break is on the line
the receiver takes it for garbage characters; the break detector throws these away and makes the receiver
wait for the end of the break, and from then on the two state machines are the serial link of
`UartLink`, which carries the two bytes of the header.
-/

namespace QarCore

open Clocked (Format Link Ring)

namespace Uart

variable {s n : Uart} {i : Inputs} {fc : FrameConfig} {d len x : Nat} {id b : Byte} {r : List Byte}

/-! ## Setting -/

/-- What the header is sent with. -/
structure Setting (fc : FrameConfig) (d len : Nat) (id : Byte) (s : Uart) : Prop where
  enabled : s.ctrlEnable = true
  linMode : s.ctrlLinMode = true
  frame : s.frameConfig = fc
  baud : s.baudDiv.toNat = d
  length : s.breakBits = len
  headerId : s.lin.txHeaderId = id
  noTx : s.txFifo.empty = true

/-- No register other than LIN_CMD is written. -/
def OnlyLinCmd (b : BusAccess 4) : Prop := b.write → b.addrWord = 0x9#4

theorem onlyLinCmd_of_quiet {b : BusAccess 4} (h : b.write = false) : OnlyLinCmd b := by
  intro hw
  rw [h] at hw
  cases hw

theorem Setting.takesTxByte (h : Setting fc d len id s) : s.takesTxByte = false := by
  simp [Uart.takesTxByte, h.noTx]

theorem posedge_setting (hb : OnlyLinCmd i.bus) : (posedge s i).ctrl = s.ctrl ∧
    (posedge s i).baudDiv = s.baudDiv ∧ (posedge s i).lin.ctrl = s.lin.ctrl ∧
    (posedge s i).lin.txHeaderId = s.lin.txHeaderId := by
  have hno (a : BitVec 4) (ha : a ≠ 0x9#4) : writesTo i.bus a = false := by
    cases hw : i.bus.write with
    | false => rw [writesTo, hw, Bool.false_and]
    | true =>
      rw [writesTo, hw, hb hw, Bool.true_and]
      exact beq_eq_false_iff_ne.mpr ha.symm
  obtain ⟨hctrl, hbaud, hlin, hid⟩ := posedge_registers (s := s) (i := i)
  rw [hno _ (by decide), if_neg Bool.false_ne_true] at hctrl hbaud hlin hid
  exact ⟨hctrl, hbaud, hlin, hid⟩

theorem Setting.posedge (h : Setting fc d len id s) (hb : OnlyLinCmd i.bus) :
    Setting fc d len id (posedge s i) := by
  obtain ⟨hctrl, hbaud, hlin, hid⟩ := posedge_setting (s := s) hb
  have hpush : txPush i.bus = none := by
    unfold txPush
    rw [if_neg]
    simp only [Bool.and_eq_true, beq_iff_eq]
    intro ⟨hw, ha⟩
    rw [hb hw] at ha
    cases ha
  constructor
  case enabled => rw [ctrlEnable, hctrl]; exact h.enabled
  case linMode => rw [ctrlLinMode, hctrl]; exact h.linMode
  case frame => rw [frameConfig, hctrl]; exact h.frame
  case baud => rw [hbaud]; exact h.baud
  case length => rw [breakBits, linBreakLength, hlin]; exact h.length
  case headerId => rw [hid]; exact h.headerId
  case noTx =>
    rw [posedge_txFifo, hpush, h.takesTxByte, ite_self]
    exact h.noTx

theorem Setting.bitTime_eq (h : Setting fc d len id s) : s.bitTime = d + 1 := by
  rw [bitTime, h.baud]

/-! ## The break -/

/-- The transmitter has nothing to send and nothing on the line. -/
structure Resting (s : Uart) : Prop where
  noBreak : s.lin.breakActive = false
  breakTick : s.lin.breakTick = 0
  auto : s.lin.autoState = 0#2
  idle : s.tx.bitsRemaining = 0#5
  line : s.tx.line = true

/-- A break with a header behind it has been on for `x` cycles. -/
structure BreakOn (x : Nat) (s : Uart) : Prop where
  active : s.lin.breakActive = true
  headerPending : s.lin.autoHeaderPending = true
  tick : s.lin.breakTick ≤ s.baudDiv
  counter : s.lin.breakCounter ≤ s.linBreakLength.setWidth 32
  time : s.breakTime = x

theorem BreakOn.aged (h : BreakOn x s) : BreakAged x s := ⟨h.active, h.tick, h.counter, h.time⟩

theorem BreakAged.on (h : BreakAged x s) (hp : s.lin.autoHeaderPending = true) : BreakOn x s :=
  ⟨h.active, hp, h.tick, h.counter, h.time⟩

/-- In the first cycle of a break the line is still high. -/
structure Starting (s : Uart) : Prop where
  on : BreakOn 0 s
  line : s.tx.line = true
  sync1 : s.rx.sync1 = true

/-- The line has been low for `x` cycles.  The detector counts from the third on, sees the break in its
last bit, and waits from then on. -/
structure Breaking (x : Nat) (s : Uart) : Prop where
  on : BreakOn (x + 1) s
  line : s.tx.line = false
  sync1 : s.rx.sync1 = decide (x = 0)
  sync2 : s.rx.sync2 = decide (x ≤ 1)
  counted : 1 ≤ x → x ≤ s.breakBits * s.bitTime + 1 → s.lin.rxTick ≤ s.baudDiv ∧ s.lowTime = x - 2
  awaits : s.breakBits * s.bitTime + 2 ≤ x → Awaits s

theorem Resting.posedge_tx (h : Resting s) (hs : Setting fc d len id s) :
    (posedge s i).tx = s.tx := by
  have hload : s.loadsByte = none := by
    rw [loadsByte, if_neg (by simp [h.auto]), hs.takesTxByte, if_neg Bool.false_ne_true]
  rw [posedge_tx_idle ⟨hs.enabled, h.noBreak⟩ h.idle, hload]
  rfl

-- A transmitter at rest goes on resting until a pending break starts.
theorem Resting.posedge (h : Resting s) (hs : Setting fc d len id s)
    (hp : s.lin.breakPending = false) : Resting (posedge s i) ∧
      (posedge s i).lin.breakPending = (commands i.bus 0 || commands i.bus 3) ∧
      (posedge s i).lin.autoHeaderPending = (s.lin.autoHeaderPending || commands i.bus 3) := by
  have hgen := posedge_break_off (i := i) hs.enabled h.noBreak
  have hnone : s.breakStarts = false := by simp [breakStarts, hp]
  rw [hnone, hp] at hgen
  refine ⟨⟨congrArg Generator.active hgen, ?_, ?_, ?_, ?_⟩, congrArg Generator.pending hgen,
    congrArg Generator.headerPending hgen⟩
  · exact (congrArg Generator.tick hgen).trans h.breakTick
  · exact (congrArg Generator.autoState hgen).trans ((if_neg fun ha ↦ ha.2 h.auto).trans h.auto)
  · rw [h.posedge_tx hs]
    exact h.idle
  · rw [h.posedge_tx hs]
    exact h.line

theorem Resting.starting (h : Resting s) (hs : Setting fc d len id s) (hp : s.lin.breakPending)
    (ha : s.lin.autoHeaderPending || commands i.bus 3) (hrx : i.rx = s.tx.line) :
    Starting (Uart.posedge s i) := by
  have hgen := posedge_break_off (i := i) hs.enabled h.noBreak
  have hstarts : s.breakStarts = true := by
    simp [breakStarts, hs.enabled, hs.linMode, h.noBreak, hp, h.idle, hs.noTx]
  rw [ha] at hgen
  have haged := breakAged_start (i := i) hs.enabled h.noBreak h.breakTick hstarts
  refine ⟨haged.on (congrArg Generator.headerPending hgen), ?_, ?_⟩
  · rw [h.posedge_tx hs]
    exact h.line
  · rw [posedge_sync.1, hrx]
    exact h.line

theorem posedge_length (hbus : OnlyLinCmd i.bus) : (posedge s i).linBreakLength = s.linBreakLength := by
  rw [linBreakLength, (posedge_setting hbus).2.2.1]
  rfl

theorem BreakOn.breakEnds_iff (h : BreakOn x s) (hs : Setting fc d len id s) :
    s.breakEnds ↔ x + 1 = (len + 1) * (d + 1) := by
  rw [h.aged.breakEnds_iff, hs.length, hs.bitTime_eq]

theorem BreakOn.posedge (h : BreakOn x s) (hs : Setting fc d len id s) (hbus : OnlyLinCmd i.bus)
    (hx : x + 1 < (len + 1) * (d + 1)) :
    BreakOn (x + 1) (Uart.posedge s i) ∧ (Uart.posedge s i).tx.line = false := by
  have hends : ¬ s.breakEnds := by
    rw [h.breakEnds_iff hs]
    omega
  have hgen := posedge_break_on (i := i) hs.enabled h.active
  rw [if_neg hends, h.headerPending] at hgen
  have haged := h.aged.posedge hs.enabled hends (posedge_setting hbus).2.1 (posedge_length hbus)
  refine ⟨haged.on (congrArg Generator.headerPending hgen), ?_⟩
  rw [posedge_line, if_pos hs.enabled, if_pos h.active]
  exact Bool.not_eq_true _ |>.mp hends

theorem Starting.posedge (h : Starting s) (hs : Setting fc d len id s) (hbus : OnlyLinCmd i.bus)
    (hrx : i.rx = s.tx.line) (hlen : 0 < len) (hd : 0 < d) : Breaking 0 (Uart.posedge s i) := by
  have hmul : 2 * 2 ≤ (len + 1) * (d + 1) := Nat.mul_le_mul (by omega) (by omega)
  obtain ⟨hon, hline⟩ := h.on.posedge hs hbus (by omega)
  refine ⟨hon, hline, ?_, ?_, fun hx ↦ absurd hx (by decide), fun hx ↦ by omega⟩
  · rw [posedge_sync.1, hrx, h.line]
    rfl
  · rw [posedge_sync.2, h.sync1]
    rfl

theorem Breaking.sync2_low (h : Breaking x s) (hx : 2 ≤ x) : s.rx.sync2 = false := by
  rw [h.sync2]
  exact decide_eq_false (by omega)

-- The detector sees the break in the last bit of its length.
theorem Breaking.seen (h : Breaking x s) (hs : Setting fc d len id s) (hlen : 0 < len)
    (hx : x = len * (d + 1) + 1) : s.breakSeen := by
  have hmul : 1 * 1 ≤ len * (d + 1) := Nat.mul_le_mul hlen (by omega)
  have hbits : s.breakBits * s.bitTime = len * (d + 1) := by rw [hs.length, hs.bitTime_eq]
  obtain ⟨htick, htime⟩ := h.counted (by omega) (by omega)
  apply breakSeen_of_lowTime hs.enabled hs.linMode (h.sync2_low (by omega)) htick
  omega

theorem Breaking.awaits_posedge (h : Breaking x s) (hs : Setting fc d len id s)
    (hread : s.breakSeen → ¬ rxTakes s i.bus) (hw : i.bus.write = false) (hlen : 0 < len)
    (hx : len * (d + 1) + 1 ≤ x) : Awaits (Uart.posedge s i) := by
  have hmul : 1 * 1 ≤ len * (d + 1) := Nat.mul_le_mul hlen (by omega)
  have hbits : s.breakBits * s.bitTime = len * (d + 1) := by rw [hs.length, hs.bitTime_eq]
  by_cases hlast : x = len * (d + 1) + 1
  · have hseen := h.seen hs hlen hlast
    exact awaits_of_breakSeen hseen (hread hseen)
  · exact (h.awaits (by omega)).low hs.enabled hs.linMode (h.sync2_low (by omega)) hw

theorem Breaking.posedge (h : Breaking x s) (hs : Setting fc d len id s)
    (hread : s.breakSeen → ¬ rxTakes s i.bus) (hw : i.bus.write = false) (hrx : i.rx = s.tx.line)
    (hlen : 0 < len) (hmax : len ≤ 65535) (hx : x + 2 < (len + 1) * (d + 1)) :
    Breaking (x + 1) (Uart.posedge s i) := by
  have hbus := onlyLinCmd_of_quiet hw
  have hs' := hs.posedge hbus
  have hbits : s.breakBits * s.bitTime = len * (d + 1) := by rw [hs.length, hs.bitTime_eq]
  obtain ⟨hon, hline⟩ := h.on.posedge hs hbus hx
  refine ⟨hon, hline, ?_, ?_, ?_, ?_⟩
  · rw [posedge_sync.1, hrx, h.line]
    exact (decide_eq_false (by omega)).symm
  · rw [posedge_sync.2, h.sync1]
    exact decide_eq_decide.mpr (by omega)
  · intro _ hle
    rw [hs'.length, hs'.bitTime_eq] at hle
    have hlow : s.rx.sync2 = false → s.lin.rxTick ≤ s.baudDiv ∧ s.lin.rxLowCounter < 0xFFFF#32 := by
      intro hlow
      rw [h.sync2, decide_eq_false_iff_not] at hlow
      obtain ⟨htick, htime⟩ := h.counted (by omega) (by omega)
      refine ⟨htick, ?_⟩
      -- the counter is not full before the break has been seen
      show s.lin.rxLowCounter.toNat < 65535
      by_contra hge
      have hmul := Nat.mul_le_mul_right (d + 1) (show len ≤ s.lin.rxLowCounter.toNat by omega)
      rw [lowTime, hs.bitTime_eq] at htime
      omega
    obtain ⟨htick, htime⟩ := posedge_lowTime hs.enabled hs.linMode hlow (posedge_setting hbus).2.1
    refine ⟨htick, ?_⟩
    rw [htime, h.sync2]
    by_cases hone : x ≤ 1
    · rw [if_pos (by simpa using hone)]
      omega
    · rw [if_neg (by simpa using hone), (h.counted (by omega) (by omega)).2]
      omega
  · intro hge
    rw [hs'.length, hs'.bitTime_eq] at hge
    exact h.awaits_posedge hs hread hw hlen (by omega)

/-! ## The delimiter -/

/-- The break is over and the Sync byte is next. -/
structure Ended (s : Uart) : Prop where
  noBreak : s.lin.breakActive = false
  notPending : s.lin.breakPending = false
  auto : s.lin.autoState = 1#2
  idle : s.tx.bitsRemaining = 0#5
  line : s.tx.line = true
  sync1 : s.rx.sync1 = false
  sync2 : s.rx.sync2 = false
  awaits : Awaits s

theorem Breaking.ended (h : Breaking x s) (hs : Setting fc d len id s)
    (hread : s.breakSeen → ¬ rxTakes s i.bus) (hw : i.bus.write = false) (hrx : i.rx = s.tx.line)
    (hlen : 0 < len) (hd : 2 ≤ d) (hx : x + 2 = (len + 1) * (d + 1)) : Ended (Uart.posedge s i) := by
  have hends : s.breakEnds := by
    rw [h.on.breakEnds_iff hs]
    omega
  rw [Nat.succ_mul] at hx
  have hgen := posedge_break_on (i := i) hs.enabled h.on.active
  rw [if_pos hends, h.on.headerPending] at hgen
  refine ⟨congrArg Generator.active hgen, congrArg Generator.pending hgen,
    congrArg Generator.autoState hgen, ?_, ?_, ?_, ?_, ?_⟩
  · rw [posedge_bitsRemaining, if_neg (fun ha ↦ ha.2 h.on.active)]
  · rw [posedge_line, if_pos hs.enabled, if_pos h.on.active]
    exact hends
  · rw [posedge_sync.1, hrx, h.line]
  · rw [posedge_sync.2, h.sync1]
    exact decide_eq_false (by omega)
  · exact h.awaits_posedge hs hread hw hlen (by omega)

/-- The Sync byte has been in the serializer for `y` cycles, and the line is still high. -/
structure Leading (fmt : Format Byte) (y : Nat) (s : Uart) : Prop where
  noBreak : s.lin.breakActive = false
  notPending : s.lin.breakPending = false
  auto : s.lin.autoState = 2#2
  tx : TxShows fmt s.tx (some ⟨0x55#8, 0, y⟩)
  line : s.tx.line = true
  sync1 : s.rx.sync1 = true

-- Without a pending break the generator leaves the line to the serializer.
theorem posedge_noBreak_pending (he : s.ctrlEnable) (hb : s.lin.breakActive = false)
    (hp : s.lin.breakPending = false) (hw : i.bus.write = false) :
    (posedge s i).lin.breakActive = false ∧ (posedge s i).lin.breakPending = false := by
  have hgen := posedge_break_off (i := i) he hb
  have hnone : s.breakStarts = false := by simp [breakStarts, hp]
  rw [hnone, hp, show commands i.bus 0 = false by simp [commands, hw],
    show commands i.bus 3 = false by simp [commands, hw]] at hgen
  exact ⟨congrArg Generator.active hgen, congrArg Generator.pending hgen⟩

variable {hd : 2 ≤ d}

theorem Ended.posedge (h : Ended s) (hs : Setting fc d len id s) (hw : i.bus.write = false)
    (hrx : i.rx = s.tx.line) : Leading (format fc d hd) 0 (Uart.posedge s i) ∧
      (Uart.posedge s i).rx.sync2 = false ∧ Awaits (Uart.posedge s i) := by
  have hoff := posedge_noBreak_pending (i := i) hs.enabled h.noBreak h.notPending hw
  have hload : s.loadsByte = some 0x55#8 := by
    simp [loadsByte, hs.enabled, h.noBreak, h.idle, h.auto]
  have hshows : TxShows (format fc d hd) s.tx (Link.mk true true true none none).tx := h.idle
  obtain ⟨hline, htx⟩ := txShows_posedge (l := ⟨true, true, true, none, none⟩) (i := i)
    ⟨hs.enabled, h.noBreak⟩ hs.frame hs.baud h.line hshows
  rw [hload] at htx
  refine ⟨⟨hoff.1, hoff.2, ?_, htx, hline, ?_⟩, ?_, ?_⟩
  · have hauto := congrArg Generator.autoState (posedge_break_off (i := i) hs.enabled h.noBreak)
    refine hauto.trans ?_
    simp [h.idle, h.auto]
  · rw [posedge_sync.1, hrx, h.line]
  · rw [posedge_sync.2, h.sync1]
  · exact h.awaits.low hs.enabled hs.linMode h.sync2 hw

-- The first cycles of the Sync byte.
theorem Leading.posedge {y : Nat} (h : Leading (format fc d hd) y s) (hs : Setting fc d len id s)
    (hw : i.bus.write = false) (hrx : i.rx = s.tx.line) (hy : y < d) :
    Leading (format fc d hd) (y + 1) (Uart.posedge s i) := by
  have hoff := posedge_noBreak_pending (i := i) hs.enabled h.noBreak h.notPending hw
  have hbusy := bitsRemaining_ne_zero h.tx
  obtain ⟨hline, htx⟩ := txShows_posedge (l := ⟨true, true, true, some ⟨0x55#8, 0, y⟩, none⟩) (i := i)
    ⟨hs.enabled, h.noBreak⟩ hs.frame hs.baud h.line h.tx
  have hmore : ¬ (format fc d hd).div ≤ y := Nat.not_le.mpr hy
  simp only [Link.lineNext, Link.txNext, if_neg hmore] at hline htx
  refine ⟨hoff.1, hoff.2, ?_, htx, hline, ?_⟩
  · have hauto := congrArg Generator.autoState (posedge_break_off (i := i) hs.enabled h.noBreak)
    refine hauto.trans ?_
    simp [hbusy, h.auto]
  · rw [posedge_sync.1, hrx, h.line]

/-! ## The header -/

/-- The header bytes that are still to be loaded. -/
def toSend (s : Uart) : List Byte :=
  if s.lin.autoState = 0#2 then []
  else if s.lin.autoState = 1#2 then [0x55#8, s.lin.txHeaderId] else [s.lin.txHeaderId]

/-- The header bytes `r` are still to be captured. -/
inductive Captured (id : Byte) (s : Uart) : List Byte → Prop
  | none (hstate : s.lin.headerState = 1#2) : Captured id s [0x55#8, id]
  | sync (hstate : s.lin.headerState = 2#2) (hsync : s.lin.syncByte = 0x55#8)
      (herror : s.lin.syncError = false) : Captured id s [id]
  | all (hstate : s.lin.headerState = 0#2) (hsync : s.lin.syncByte = 0x55#8)
      (herror : s.lin.syncError = false) (hid : s.lin.idByte = id) (hvalid : s.lin.headerValid = true)
      (hirq : s.irqStatus.getLsbD 5 = true) : Captured id s []

/-- The link carries the header: what is in flight and what is to be loaded is what is to be captured. -/
structure Carrying (fc : FrameConfig) (fmt : Format Byte) (id : Byte) (r : List Byte) (l : Link Byte)
    (s : Uart) : Prop where
  noBreak : s.lin.breakActive = false
  notPending : s.lin.breakPending = false
  delimited : s.lin.waitDelimiter = false
  link : Matches fc fmt s l
  low : Link.LowFor fmt fc.stopAt l s.lowTime
  tick : s.lin.rxTick ≤ s.baudDiv
  empty : s.rxFifo.empty = true
  flight : ∃ q, Link.Carries fmt l q ∧ q ++ s.toSend = r
  captured : Captured id s r

-- From its stop bits on a frame is high.
theorem format_high (fc : FrameConfig) (d : Nat) (hd : 2 ≤ d) (b : Byte) (j : Nat) (hj : fc.stopAt ≤ j)
    (hlt : j < (format fc d hd).bits) : (format fc d hd).encode b j = true := by
  have hle := bits_le fc
  have hbits : (format fc d hd).bits = (calcFrameBits fc).toNat := rfl
  exact buildTxFrame_stop b hj (by omega)

theorem stopAt_bounds (fc : FrameConfig) (d : Nat) (hd : 2 ≤ d) :
    0 < fc.stopAt ∧ fc.stopAt ≤ 10 ∧ fc.stopAt < (format fc d hd).bits := by
  have hbits : (format fc d hd).bits = (calcFrameBits fc).toNat := rfl
  have hn := calcFrameBits_toNat fc
  have hstop : fc.stopAt = if fc.parityEnable then 10 else 9 := rfl
  refine ⟨?_, ?_, ?_⟩
  · split at hstop <;> omega
  · split at hstop <;> omega
  · split at hn <;> omega

section Step

variable {l : Link Byte}

-- No character is low for as long as a break.
theorem Carrying.lowTime_le (h : Carrying fc (format fc d hd) id r l s)
    (hlow : s.rx.sync2 = false) : s.lowTime + 1 ≤ 10 * (d + 1) := by
  obtain ⟨q, hq, -⟩ := h.flight
  obtain ⟨hpos, hten, -⟩ := stopAt_bounds fc d hd
  have hle := h.low.le (format_high fc d hd) hq hpos (h.link.sync2 ▸ hlow)
  have hmul := Nat.mul_le_mul_right (d + 1) hten
  exact Nat.le_trans hle hmul

theorem Carrying.counter_lt (h : Carrying fc (format fc d hd) id r l s) (hs : Setting fc d len id s)
    (hlow : s.rx.sync2 = false) : s.lin.rxLowCounter < 0xFFFF#32 := by
  have hle := h.lowTime_le hlow
  rw [lowTime, hs.bitTime_eq] at hle
  show s.lin.rxLowCounter.toNat < 65535
  by_contra hge
  have hmul := Nat.mul_le_mul_right (d + 1) (show 10 ≤ s.lin.rxLowCounter.toNat by omega)
  omega

theorem Carrying.noBreakSeen (h : Carrying fc (format fc d hd) id r l s) (hs : Setting fc d len id s)
    (hlen : 11 ≤ len) : s.breakSeen = false := by
  rw [← Bool.not_eq_true]
  intro hseen
  have hlow : s.rx.sync2 = false := by
    have hseen' := hseen
    simp only [breakSeen, Bool.and_eq_true, Bool.not_eq_true'] at hseen'
    exact hseen'.1.1.2
  have hle := h.lowTime_le hlow
  have hge := lowTime_of_breakSeen hseen (h.counter_lt hs hlow)
  rw [hs.length, hs.bitTime_eq] at hge
  have hmul := Nat.mul_le_mul_right (d + 1) hlen
  omega

theorem Carrying.hears (h : Carrying fc (format fc d hd) id r l s) (hs : Setting fc d len id s)
    (hlen : 11 ≤ len) : Hears s :=
  ⟨hs.enabled, by rw [h.delimited, Bool.and_false], h.noBreakSeen hs hlen⟩

-- What is loaded is no longer to be loaded.
theorem toSend_posedge (hs : Setting fc d len id s) (hb : s.lin.breakActive = false)
    (hbus : OnlyLinCmd i.bus) : s.loadsByte.toList ++ (posedge s i).toSend = s.toSend := by
  have hauto : (posedge s i).lin.autoState = _ :=
    congrArg Generator.autoState (posedge_break_off (i := i) hs.enabled hb)
  have hid := (posedge_setting (s := s) hbus).2.2.2
  unfold toSend loadsByte
  rw [hauto, hid, hs.enabled, hb, hs.takesTxByte]
  by_cases h0 : s.tx.bitsRemaining = 0#5
  · by_cases ha : s.lin.autoState = 0#2
    · simp [h0, ha]
    · by_cases ha1 : s.lin.autoState = 1#2 <;> simp [h0, ha, ha1]
  · simp [h0]

theorem captureHeader_capture (hn : n.capture = s.capture) :
    (captureHeader s n).capture = s.capture.take s.rx.dataLatch := by
  have hstate : s.capture.state = s.lin.headerState := rfl
  simp only [capture, Capture.mk.injEq] at hn
  unfold captureHeader Capture.take
  rw [hstate]
  by_cases h1 : s.lin.headerState = 1#2
  · rw [if_pos h1, if_pos h1]
    simp [capture, hn]
  · rw [if_neg h1, if_neg h1]
    simp only [capture, apply_ite Uart.lin, apply_ite Lin.headerState, apply_ite Lin.headerValid,
      apply_ite Lin.waitDelimiter, apply_ite Lin.syncByte, apply_ite Lin.idByte,
      apply_ite Lin.syncError, ite_self, hn]

theorem EndsWith.parityMatch (hb : EndsWith fc s b) :
    parityMatch s.rx.dataLatch s.rx.frame s.rx.parityLatch = true := by
  rw [hb.data, hb.frame]
  exact hb.parity

-- A character of the header goes into the capture.
theorem receive_capture (he : s.ctrlEnable) (hl : s.ctrlLinMode) (hb : EndsWith fc s b)
    (hstate : s.lin.headerState ≠ 0#2) (hn : n.capture = s.capture) :
    (receive s n).capture = s.capture.take b := by
  have hpar := hb.parityMatch
  rw [receive, if_neg (by simp [he]), if_neg (by simp [hb.busy]), rxSample, if_pos hb.due,
    if_pos hb.last, finishFrame, if_neg (by simp [hb.noError]), if_neg (by simp [hpar]),
    if_pos (by simp [hl, hstate]), ← hb.data]
  apply captureHeader_capture
  have hlin {m : Uart} : (sampleBit s m).lin = m.lin := by
    simp only [sampleBit, apply_ite Uart.lin, ite_self]
  rw [← hn]
  simp only [capture, hlin]

-- Otherwise the receiver leaves the capture alone.
theorem receive_capture_other (hw : s.lin.waitDelimiter = false)
    (hb : (s.rx.busy && decide (s.rx.counter ≥ s.baudDiv) && s.lastBit) = false) :
    (receive s n).capture = n.capture := by
  have hfields {m : Uart} (h : m.lin = n.lin) : m.capture = n.capture := by
    rw [capture, capture, h]
  apply hfields
  simp only [receive, rxIdle, rxSample, startFrame, countIdle, sampleBit, hw, Bool.and_false,
    Bool.false_eq_true, ↓reduceIte, apply_ite Uart.lin, ite_self]
  by_cases hbusy : s.rx.busy
  · by_cases hc : s.rx.counter ≥ s.baudDiv
    · have hl : s.lastBit = false := by simpa [hbusy, hc] using hb
      simp [hl]
    · simp [hc]
  · simp [hbusy]

/-! The header interrupt. -/

-- the ID byte raises the interrupt
theorem posedge_headerIrq (he : s.ctrlEnable) (hl : s.ctrlLinMode) (hb : EndsWith fc s b)
    (h0 : s.lin.headerState ≠ 0#2) (h1 : s.lin.headerState ≠ 1#2) :
    (posedge s i).irqStatus.getLsbD 5 = true := by
  rw [posedge_irq]
  apply Clocked.latch_of_set
  show s.capturesId = true
  simp [capturesId, endsChar, samplesBit, he, hl, hb.busy, hb.due, hb.last, hb.noError, hb.parityMatch,
    h0, h1]

-- and without a write it stays
theorem posedge_headerIrq_keep (hw : i.bus.write = false) (h : s.irqStatus.getLsbD 5 = true) :
    (posedge s i).irqStatus.getLsbD 5 = true := by
  rw [posedge_irq, Clocked.latch_iff]
  exact .inr ⟨h, by simp [irqClears, acknowledges, hw]⟩

/-! One edge. -/

theorem Captured.keep (h : Captured id s r) (hc : (posedge s i).capture = s.capture)
    (hirq : s.irqStatus.getLsbD 5 = true → (posedge s i).irqStatus.getLsbD 5 = true) :
    Captured id (posedge s i) r := by
  simp only [capture, Capture.mk.injEq] at hc
  obtain ⟨hstate, hvalid, -, hsync, hid, herror⟩ := hc
  cases h with
  | none h1 => exact .none (hstate.trans h1)
  | sync h1 h2 h3 => exact .sync (hstate.trans h1) (hsync.trans h2) (herror.trans h3)
  | all h1 h2 h3 h4 h5 h6 =>
    exact .all (hstate.trans h1) (hsync.trans h2) (herror.trans h3) (hid.trans h4) (hvalid.trans h5)
      (hirq h6)

-- The next byte of the header is captured.
theorem Captured.take (h : Captured id s (b :: r)) (hc : (posedge s i).capture = s.capture.take b)
    (hirq : s.lin.headerState ≠ 1#2 → (posedge s i).irqStatus.getLsbD 5 = true) :
    Captured id (posedge s i) r := by
  have hstate : s.capture.state = s.lin.headerState := rfl
  unfold Capture.take at hc
  rw [hstate] at hc
  cases h with
  | none h1 =>
    rw [if_pos h1] at hc
    simp only [capture, Capture.mk.injEq] at hc
    exact .sync hc.1 hc.2.2.2.1 hc.2.2.2.2.2
  | sync h1 h2 h3 =>
    have hne : s.lin.headerState ≠ 1#2 := by
      rw [h1]
      decide
    rw [if_neg hne] at hc
    simp only [capture, Capture.mk.injEq] at hc
    exact .all hc.1 (hc.2.2.2.1.trans h2) (hc.2.2.2.2.2.trans h3) hc.2.2.2.2.1 hc.2.1 (hirq hne)

theorem Captured.state_ne (h : Captured id s (b :: r)) : s.lin.headerState ≠ 0#2 := by
  cases h with
  | none h1 =>
    rw [h1]
    decide
  | sync h1 h2 h3 =>
    rw [h1]
    decide

-- One edge of the UART moves the bytes of the header on, and captures the one that is complete.
theorem Carrying.posedge (h : Carrying fc (format fc d hd) id r l s) (hs : Setting fc d len id s)
    (hlen : 11 ≤ len) (hw : i.bus.write = false) (hrx : i.rx = s.tx.line) :
    ∃ r', Carrying fc (format fc d hd) id r' (l.step (format fc d hd) s.loadsByte) (Uart.posedge s i) ∧
      (l.delivered (format fc d hd) = none ∧ r' = r ∨ ∃ b, r = b :: r') := by
  have hbus := onlyLinCmd_of_quiet hw
  have hseen := h.noBreakSeen hs hlen
  have hsends : Sends s := ⟨hs.enabled, h.noBreak⟩
  have hoff := posedge_noBreak_pending (i := i) hs.enabled h.noBreak h.notPending hw
  have hlink := h.link.posedge hsends (h.hears hs hlen) hs.frame hs.baud hrx
  obtain ⟨q, hq, hrest⟩ := h.flight
  obtain ⟨hpos, -, hlast⟩ := stopAt_bounds fc d hd
  have hlowTime := posedge_lowTime (i := i) hs.enabled hs.linMode
    (fun hlow ↦ ⟨h.tick, h.counter_lt hs hlow⟩) (posedge_setting hbus).2.1
  have hlow := h.low.step (format_high fc d hd) hq hpos hlast s.loadsByte
  rw [← h.link.sync2, ← hlowTime.2] at hlow
  have hsend := toSend_posedge hs h.noBreak hbus
  have hcapture : (transmit s (settled s i)).capture = s.capture :=
    transmit_capture.trans (settled_capture hw)
  have hirq (hold : s.irqStatus.getLsbD 5 = true) : (Uart.posedge s i).irqStatus.getLsbD 5 = true :=
    posedge_headerIrq_keep hw hold
  -- what the two cases have in common
  have hnext {q' r' : List Byte}
      (hq' : Link.Carries (format fc d hd) (l.step (format fc d hd) s.loadsByte) q')
      (hr' : q' ++ (Uart.posedge s i).toSend = r')
      (hwait : (Uart.posedge s i).lin.waitDelimiter = false) (hpush : rxPush s = none)
      (hcap : Captured id (Uart.posedge s i) r') :
      Carrying fc (format fc d hd) id r' (l.step (format fc d hd) s.loadsByte) (Uart.posedge s i) := by
    refine ⟨hoff.1, hoff.2, hwait, hlink, hlow, hlowTime.1, ?_, ⟨q', hq', hr'⟩, hcap⟩
    rw [posedge_rxFifo (by simp [flushesRx, hw, hseen]), hpush, h.empty, ite_self, Bool.not_true,
      Bool.and_false]
    exact h.empty
  obtain ⟨q', hq', hmove⟩ := hq.moves s.loadsByte
  rw [loaded_loadsByte h.link.tx] at hmove
  rcases endsWith_of_delivered hs.baud h.link.rx (fun bs hbs ↦ hq.delivered_frame hbs) with
    ⟨b, hdel, hends⟩ | ⟨hdel, hno⟩
  · -- the first byte in flight is complete
    rw [hdel, Option.toList_some, List.singleton_append, ← List.map_cons] at hmove
    replace hmove := List.map_injective_iff.mpr (format_injective fc d hd) hmove
    have hr : r = b :: (q' ++ (Uart.posedge s i).toSend) := by
      rw [← hrest, ← hsend, ← List.append_assoc, hmove]
      rfl
    have hcap := hr ▸ h.captured
    have htake := (posedge_capture hseen).trans
      (receive_capture hs.enabled hs.linMode hends hcap.state_ne hcapture)
    refine ⟨_, hnext hq' rfl ?_ ?_ (hcap.take htake fun hne ↦ ?_), .inr ⟨b, hr⟩⟩
    · have hwaits := congrArg Capture.waits htake
      rw [Capture.take, apply_ite Capture.waits, ite_self] at hwaits
      exact hwaits.trans h.delimited
    · simp [rxPush, hs.linMode, hcap.state_ne]
    · exact posedge_headerIrq hs.enabled hs.linMode hends hcap.state_ne hne
  · rw [hdel, Option.toList_none, List.nil_append] at hmove
    replace hmove := List.map_injective_iff.mpr (format_injective fc d hd) hmove
    have hkeep := (posedge_capture hseen).trans
      ((receive_capture_other h.delimited hno).trans hcapture)
    refine ⟨r, hnext hq' ?_ ?_ ?_ (h.captured.keep hkeep hirq), .inl ⟨hdel, rfl⟩⟩
    · rw [← hmove, List.append_assoc, hsend, hrest]
    · exact (congrArg Capture.waits hkeep).trans h.delimited
    · rw [rxPush, if_neg]
      simp_all

-- The end of the break is where the link begins.
theorem Leading.carrying (h : Leading (format fc d hd) 1 s) (ha : Awaits s) (hup : s.rx.sync2 = true)
    (hs : Setting fc d len id s) (hw : i.bus.write = false) (hrx : i.rx = s.tx.line) :
    Carrying fc (format fc d hd) id [0x55#8, id] ⟨true, true, true, some ⟨0x55#8, 0, 2⟩, none⟩
      (Uart.posedge s i) := by
  have hbus := onlyLinCmd_of_quiet hw
  have hlead := h.posedge (i := i) hs hw hrx (by omega)
  have hseen : s.breakSeen = false := by simp [breakSeen, hup]
  obtain ⟨hcap, hbusy, hempty⟩ := ha.waiting (i := i) hs.enabled hs.linMode hseen hw
  have hlow := posedge_lowTime (i := i) hs.enabled hs.linMode
    (fun hno ↦ absurd (hno.symm.trans hup) Bool.false_ne_true) (posedge_setting hbus).2.1
  rw [hup, if_pos rfl] at hlow
  simp only [capture, Capture.mk.injEq, hup] at hcap
  refine ⟨hlead.noBreak, hlead.notPending, hcap.2.2.1, ⟨hlead.line, hlead.sync1, ?_, hlead.tx, hbusy⟩,
    hlow.2, hlow.1, hempty, ⟨[0x55#8], .leading hd, ?_⟩, .none (hcap.1.trans ha.state)⟩
  · exact posedge_sync.2.trans h.sync1
  · rw [toSend, hlead.auto, (hs.posedge hbus).headerId]
    rfl

/-! Progress. -/

/-- The number of header bytes to be captured. -/
def missing (s : Uart) : Nat :=
  if s.lin.headerState = 1#2 then 2 else if s.lin.headerState = 2#2 then 1 else 0

theorem Captured.missing_eq (h : Captured id s r) : s.missing = r.length := by
  unfold missing
  cases h with
  | none h1 => rw [if_pos h1]; rfl
  | sync h1 _ _ => rw [h1]; rfl
  | all h1 _ _ _ _ _ => rw [h1]; rfl

-- While a byte is missing there is one in flight or being loaded.
theorem Carrying.busy (h : Carrying fc (format fc d hd) id r l s) (hs : Setting fc d len id s)
    (hr : r ≠ []) {q : List Byte} (hq : Link.Carries (format fc d hd) l q) (hrest : q ++ s.toSend = r) :
    q ≠ [] ∨ (l.loaded s.loadsByte).isSome := by
  by_cases hne : q = []
  · right
    subst hne
    have hauto : s.lin.autoState ≠ 0#2 := by
      intro ha
      rw [List.nil_append, toSend, if_pos ha] at hrest
      exact hr hrest.symm
    have hidle : s.tx.bitsRemaining = 0#5 := by
      have hshows := h.link.tx
      cases hq
      exact hshows
    rw [loaded_loadsByte h.link.tx, loadsByte, if_pos (by simp [hs.enabled, h.noBreak, hidle, hauto])]
    rfl
  · exact .inl hne

end Step

/-! ## Runs -/

section

variable (txMem rxMem : BitVec 3 → Byte) (bus : Nat → BusAccess 4)

/-- LIN_CMD[3] is written in cycle `w` while the transmitter is idle, and nothing is written afterwards.
No byte is read from the RX FIFO in a cycle in which a break is seen. -/
structure SendsHeader (w : Nat) : Prop where
  enabled : (loopRun txMem rxMem bus w).ctrlEnable = true
  linMode : (loopRun txMem rxMem bus w).ctrlLinMode = true
  idle : (loopRun txMem rxMem bus w).tx.bitsRemaining = 0#5
  noBreak : (loopRun txMem rxMem bus w).lin.breakActive = false
  noHeader : (loopRun txMem rxMem bus w).lin.autoState = 0#2
  noTx : (loopRun txMem rxMem bus w).txFifo.empty = true
  baud : 2 ≤ (loopRun txMem rxMem bus w).baudDiv.toNat
  length : (loopRun txMem rxMem bus w).lin.ctrl.extractLsb' 0 16 = 0#16 ∨
    11#16 ≤ (loopRun txMem rxMem bus w).lin.ctrl.extractLsb' 0 16
  command : commands (bus w) 3
  quiet : ∀ t, w < t → (bus t).write = false
  noRace : ∀ t, w < t → (loopRun txMem rxMem bus t).breakSeen →
    ¬ rxTakes (loopRun txMem rxMem bus t) (bus t)

/-- From cycle `w` on nothing changes the setting, and nothing reaches the receiver but the line. -/
structure Undisturbed (fc : FrameConfig) (d len : Nat) (id : Byte) (w : Nat) : Prop where
  setting : ∀ t, w ≤ t → Setting fc d len id (loopRun txMem rxMem bus t)
  quiet : ∀ t, w < t → (bus t).write = false
  noRace : ∀ t, w < t → (loopRun txMem rxMem bus t).breakSeen →
    ¬ rxTakes (loopRun txMem rxMem bus t) (bus t)
  divider : 2 ≤ d
  longEnough : 11 ≤ len
  lengthFits : len ≤ 65535

/-- STATUS[8], STATUS[9], IRQ_STATUS[5] and LIN_HEADER show a header with the byte `id`. -/
structure ShowsHeader (id : Byte) (s : Uart) : Prop where
  valid : s.status.getLsbD 8 = true
  noSyncError : s.status.getLsbD 9 = false
  irq : s.irqStatus.getLsbD 5 = true
  header : readData s ⟨false, true, 0xB#4, 0⟩ = 0#16 ++ id ++ 0x55#8

/-- The link from cycle `e + 1` on, with the Sync byte in its transmitter. -/
def headerLink (fmt : Format Byte) (e : Nat) : Nat → Link Byte :=
  Clocked.run (Link.step fmt) ⟨true, true, true, some ⟨0x55#8, 0, 2⟩, none⟩
    fun k ↦ (loopRun txMem rxMem bus (e + 1 + k)).loadsByte

/-- A bound on the cycles until the header is captured, counted from cycle `e + 1`. -/
def headerRank (fmt : Format Byte) (e k : Nat) : Nat :=
  (loopRun txMem rxMem bus (e + 1 + k)).missing * (fmt.bits * fmt.period + 2 * fmt.period + 2) +
    Link.rank fmt (headerLink txMem rxMem bus fmt e k)

/-- The header that is sent from cycle `w` on is received: its break is seen in cycle `c`, the delimiter
comes in cycle `e`, and from cycle `T` on the header is shown. -/
structure HeaderArrives (w c e T : Nat) : Prop where
  order : w < c ∧ c < e ∧ e < T
  seen : (loopRun txMem rxMem bus c).breakSeen
  flushed : ∀ t, c < t → (loopRun txMem rxMem bus t).rxFifo.contents = []
  waits : ∀ t, c < t → t ≤ e →
    (loopRun txMem rxMem bus t).lin.waitDelimiter = true ∧ (loopRun txMem rxMem bus t).rx.busy = false
  delimiter : (loopRun txMem rxMem bus e).rx.sync2 = true ∧
    ∀ t, e < t → (loopRun txMem rxMem bus t).lin.waitDelimiter = false
  shows : ∀ t, T ≤ t →
    ShowsHeader (loopRun txMem rxMem bus w).lin.txHeaderId (loopRun txMem rxMem bus t)

end

section Run

variable {txMem rxMem : BitVec 3 → Byte} {bus : Nat → BusAccess 4} {w t u : Nat}

theorem loopRun_eq_after (t : Nat) : loopRun txMem rxMem bus t =
    after txMem rxMem (fun u ↦ ⟨bus u, (loopRun txMem rxMem bus u).tx.line⟩) t := by
  induction t with
  | zero => rfl
  | succ t ih => exact congrArg (posedge · ⟨bus t, (loopRun txMem rxMem bus t).tx.line⟩) ih

theorem breakTick_run (t : Nat) : (loopRun txMem rxMem bus t).lin.breakActive = false →
    (loopRun txMem rxMem bus t).lin.breakTick = 0 := by
  induction t with
  | zero => exact fun _ ↦ rfl
  | succ t ih => exact posedge_breakTick ih

theorem SendsHeader.resting (h : SendsHeader txMem rxMem bus w) : Resting (loopRun txMem rxMem bus w) := by
  refine ⟨h.noBreak, breakTick_run w h.noBreak, h.noHeader, h.idle, ?_⟩
  have hcarries : Carries (loopRun txMem rxMem bus w)
      (onLine txMem rxMem (fun u ↦ ⟨bus u, (loopRun txMem rxMem bus u).tx.line⟩) w) := by
    rw [loopRun_eq_after w]
    exact carries_run w
  exact hcarries.line_idle h.idle h.noBreak

theorem SendsHeader.length_bounds (h : SendsHeader txMem rxMem bus w) :
    11 ≤ (loopRun txMem rxMem bus w).breakBits ∧ (loopRun txMem rxMem bus w).breakBits ≤ 65535 := by
  have hlt := (loopRun txMem rxMem bus w).linBreakLength.isLt
  unfold breakBits linBreakLength at *
  refine ⟨?_, by omega⟩
  rcases h.length with hzero | hge
  · rw [if_pos hzero]
    decide
  · split
    · decide
    · exact hge

theorem SendsHeader.undisturbed (h : SendsHeader txMem rxMem bus w) : Undisturbed txMem rxMem bus
    (loopRun txMem rxMem bus w).frameConfig (loopRun txMem rxMem bus w).baudDiv.toNat
    (loopRun txMem rxMem bus w).breakBits (loopRun txMem rxMem bus w).lin.txHeaderId w := by
  refine ⟨fun t hwt ↦ ?_, h.quiet, h.noRace, h.baud, h.length_bounds.1, h.length_bounds.2⟩
  induction t, hwt using Nat.le_induction with
  | base => exact ⟨h.enabled, h.linMode, rfl, rfl, rfl, rfl, h.noTx⟩
  | succ t hwt ih =>
    apply ih.posedge
    intro hwrite
    have hcommand := h.command
    simp only [commands, Bool.and_eq_true, beq_iff_eq] at hcommand
    rcases Nat.lt_or_eq_of_le hwt with hlt | rfl
    · exact absurd (hwrite.symm.trans (h.quiet t hlt)) (by decide)
    · exact hcommand.1.2

-- The break starts one or two cycles after the command.
theorem SendsHeader.starting (h : SendsHeader txMem rxMem bus w) :
    ∃ t, w < t ∧ Starting (loopRun txMem rxMem bus t) := by
  have hs := h.undisturbed.setting
  by_cases hp : (loopRun txMem rxMem bus w).lin.breakPending
  · refine ⟨w + 1, by omega, h.resting.starting (hs w (Nat.le_refl w)) hp ?_ rfl⟩
    show (_ || commands (bus w) 3) = true
    rw [h.command, Bool.or_true]
  · obtain ⟨hrest, hpending, hauto⟩ := h.resting.posedge
      (i := ⟨bus w, (loopRun txMem rxMem bus w).tx.line⟩) (hs w (Nat.le_refl w))
      (Bool.not_eq_true _ |>.mp hp)
    have hcommand : commands (bus w) 3 = true := h.command
    refine ⟨w + 2, by omega, ?_⟩
    apply Resting.starting (s := loopRun txMem rxMem bus (w + 1)) hrest (hs (w + 1) (by omega))
    · refine hpending.trans ?_
      rw [hcommand, Bool.or_true]
    · rw [show (loopRun txMem rxMem bus (w + 1)).lin.autoHeaderPending = _ from hauto, hcommand,
        Bool.or_true, Bool.true_or]
    · rfl

section

variable (h : Undisturbed txMem rxMem bus fc d len id w)

include h

theorem Undisturbed.breaking (hwt : w < t) (hstart : Starting (loopRun txMem rxMem bus t))
    (hx : x + 1 < (len + 1) * (d + 1)) : Breaking x (loopRun txMem rxMem bus (t + 1 + x)) := by
  have hlong := h.longEnough
  have hdiv := h.divider
  induction x with
  | zero =>
    exact hstart.posedge (h.setting t (by omega)) (onlyLinCmd_of_quiet (h.quiet t hwt)) rfl (by omega)
      (by omega)
  | succ x ih =>
    exact (ih (by omega)).posedge (h.setting (t + 1 + x) (by omega)) (h.noRace (t + 1 + x) (by omega))
      (h.quiet (t + 1 + x) (by omega)) rfl (by omega) h.lengthFits hx

-- The run up to the end of the break.
theorem Undisturbed.break_run (hwt : w < t) (hstart : Starting (loopRun txMem rxMem bus t)) :
    ∃ c e, t < c ∧ c < e ∧ (loopRun txMem rxMem bus c).breakSeen ∧
      (∀ u, c < u → u ≤ e → Awaits (loopRun txMem rxMem bus u)) ∧
      (loopRun txMem rxMem bus e).rx.sync2 = true ∧
      Leading (format fc d h.divider) 1 (loopRun txMem rxMem bus e) := by
  have hlong := h.longEnough
  have hdiv := h.divider
  have hbreaking {x : Nat} := h.breaking (x := x) hwt hstart
  have hbits (u : Nat) (hu : w ≤ u) : (loopRun txMem rxMem bus u).breakBits *
      (loopRun txMem rxMem bus u).bitTime = len * (d + 1) := by
    rw [(h.setting u hu).length, (h.setting u hu).bitTime_eq]
  obtain ⟨k, hk⟩ : ∃ k, (len + 1) * (d + 1) = k + 2 := by
    have hmul : 2 * 2 ≤ (len + 1) * (d + 1) := Nat.mul_le_mul (by omega) (by omega)
    exact ⟨(len + 1) * (d + 1) - 2, by omega⟩
  have hk' := hk
  rw [Nat.succ_mul] at hk'
  have hs (u : Nat) (hu : w < u) := h.setting u (Nat.le_of_lt hu)
  have hw (u : Nat) (hu : w < u) := h.quiet u hu
  -- the three cycles after the break
  have hended : Ended (loopRun txMem rxMem bus (t + k + 2)) := by
    have hlast := hbreaking (x := k) (by omega)
    rw [show t + 1 + k = t + k + 1 by omega] at hlast
    rw [loopRun_succ]
    exact hlast.ended (hs _ (by omega)) (h.noRace _ (by omega)) (hw (t + k + 1) (by omega)) rfl
      (by omega) hdiv (by omega)
  have hlead : Leading (format fc d h.divider) 0 (loopRun txMem rxMem bus (t + k + 3)) ∧
      (loopRun txMem rxMem bus (t + k + 3)).rx.sync2 = false ∧
      Awaits (loopRun txMem rxMem bus (t + k + 3)) := by
    rw [loopRun_succ]
    exact hended.posedge (hs _ (by omega)) (hw (t + k + 2) (by omega)) rfl
  have hlead1 : Leading (format fc d h.divider) 1 (loopRun txMem rxMem bus (t + k + 4)) := by
    rw [loopRun_succ]
    exact hlead.1.posedge (hs _ (by omega)) (hw (t + k + 3) (by omega)) rfl (by omega)
  have hawaits : Awaits (loopRun txMem rxMem bus (t + k + 4)) := by
    rw [loopRun_succ]
    exact hlead.2.2.low (hs _ (by omega)).enabled (hs _ (by omega)).linMode hlead.2.1
      (hw (t + k + 3) (by omega))
  refine ⟨t + 1 + (len * (d + 1) + 1), t + k + 4, by omega, by omega, ?_, ?_, ?_, hlead1⟩
  · exact (hbreaking (x := len * (d + 1) + 1) (by omega)).seen (hs _ (by omega)) (by omega) rfl
  · intro u hcu hue
    rcases Nat.lt_or_ge u (t + k + 2) with hlt | hge
    · obtain ⟨x, rfl⟩ := Nat.exists_eq_add_of_le (show t + 1 ≤ u by omega)
      apply (hbreaking (x := x) (by omega)).awaits
      rw [hbits _ (by omega)]
      omega
    · rcases (by omega : u = t + k + 2 ∨ u = t + k + 3 ∨ u = t + k + 4) with rfl | rfl | rfl
      · exact hended.awaits
      · exact hlead.2.2
      · exact hawaits
  · rw [loopRun_succ]
    exact posedge_sync.2.trans hlead.1.sync1

variable {e k : Nat} (hwe : w < e)

include hwe

theorem Undisturbed.carrying_next (hr : Carrying fc (format fc d h.divider) id r
      (headerLink txMem rxMem bus (format fc d h.divider) e k) (loopRun txMem rxMem bus (e + 1 + k))) :
    ∃ r', Carrying fc (format fc d h.divider) id r'
        (headerLink txMem rxMem bus (format fc d h.divider) e (k + 1))
        (loopRun txMem rxMem bus (e + 1 + (k + 1))) ∧
      ((headerLink txMem rxMem bus (format fc d h.divider) e k).delivered (format fc d h.divider) = none ∧
        r' = r ∨ ∃ b, r = b :: r') :=
  hr.posedge (i := ⟨bus (e + 1 + k), (loopRun txMem rxMem bus (e + 1 + k)).tx.line⟩)
    (h.setting (e + 1 + k) (by omega)) h.longEnough (h.quiet (e + 1 + k) (by omega)) rfl

-- While a byte of the header is missing, every edge brings it closer.
theorem Undisturbed.headerRank_lt (hne : r ≠ []) (hr : Carrying fc (format fc d h.divider) id r
      (headerLink txMem rxMem bus (format fc d h.divider) e k) (loopRun txMem rxMem bus (e + 1 + k))) :
    headerRank txMem rxMem bus (format fc d h.divider) e (k + 1) <
      headerRank txMem rxMem bus (format fc d h.divider) e k := by
  obtain ⟨r', hr', hnext⟩ := h.carrying_next hwe hr
  unfold headerRank
  rw [hr.captured.missing_eq, hr'.captured.missing_eq]
  rcases hnext with ⟨hdel, rfl⟩ | ⟨b, rfl⟩
  · obtain ⟨q, hq, hrest⟩ := hr.flight
    apply Nat.add_lt_add_left
    exact hq.rank_lt (hr.busy (h.setting (e + 1 + k) (by omega)) hne hq hrest) hdel
  · have hrank := Link.rank_le (format fc d h.divider)
      (headerLink txMem rxMem bus (format fc d h.divider) e (k + 1))
    rw [List.length_cons, Nat.add_one_mul r'.length]
    omega

-- A header that has been captured stays.
theorem Undisturbed.captured_stays {k' : Nat} (hk : k ≤ k') (hr : Carrying fc (format fc d h.divider) id []
      (headerLink txMem rxMem bus (format fc d h.divider) e k) (loopRun txMem rxMem bus (e + 1 + k))) :
    Carrying fc (format fc d h.divider) id []
      (headerLink txMem rxMem bus (format fc d h.divider) e k')
      (loopRun txMem rxMem bus (e + 1 + k')) := by
  induction k', hk using Nat.le_induction with
  | base => exact hr
  | succ k' hk ih =>
    obtain ⟨r', hr', ⟨-, rfl⟩ | ⟨b, hb⟩⟩ := h.carrying_next hwe ih
    · exact hr'
    · cases hb

variable (hawaits : Awaits (loopRun txMem rxMem bus e)) (hup : (loopRun txMem rxMem bus e).rx.sync2 = true)
  (hlead : Leading (format fc d h.divider) 1 (loopRun txMem rxMem bus e))

include hawaits hup hlead

theorem Undisturbed.carrying_run (k : Nat) : ∃ r, Carrying fc (format fc d h.divider) id r
    (headerLink txMem rxMem bus (format fc d h.divider) e k) (loopRun txMem rxMem bus (e + 1 + k)) := by
  induction k with
  | zero => exact ⟨_, hlead.carrying hawaits hup (h.setting e (by omega)) (h.quiet e hwe) rfl⟩
  | succ k ih =>
    obtain ⟨r, hr⟩ := ih
    obtain ⟨r', hr', -⟩ := h.carrying_next hwe hr
    exact ⟨r', hr'⟩

-- In the end the whole header is captured.
theorem Undisturbed.captured_run : ∃ k, Carrying fc (format fc d h.divider) id []
    (headerLink txMem rxMem bus (format fc d h.divider) e k) (loopRun txMem rxMem bus (e + 1 + k)) := by
  have hrun := h.carrying_run hwe hawaits hup hlead
  have hstep (k : Nat) (_ : True) : (loopRun txMem rxMem bus (e + 1 + k)).missing = 0 ∨
      True ∧ headerRank txMem rxMem bus (format fc d h.divider) e (k + 1) <
        headerRank txMem rxMem bus (format fc d h.divider) e k := by
    obtain ⟨r, hr⟩ := hrun k
    by_cases hne : r = []
    · left
      rw [hr.captured.missing_eq, hne]
      rfl
    · exact .inr ⟨trivial, h.headerRank_lt hwe hne hr⟩
  obtain ⟨k, -, hk⟩ := Clocked.event_of_rank_while (fun _ ↦ True) _ hstep (t := 0) trivial
  obtain ⟨r, hr⟩ := hrun k
  have hnil : r = [] := by
    rw [← List.length_eq_zero_iff, ← hr.captured.missing_eq]
    exact hk
  exact ⟨k, hnil ▸ hr⟩

end

theorem posedge_headerStatus : (posedge s i).status.getLsbD 8 = s.lin.headerValid ∧
    (posedge s i).status.getLsbD 9 = s.lin.syncError := by
  unfold posedge
  rw [detectBreak_status (by decide), detectBreak_status (by decide), receive_status (by decide),
    receive_status (by decide), transmit_status (by decide), transmit_status (by decide)]
  simp only [startBreak, apply_ite Uart.status, ite_self]
  simp [statusBits, getLsbD_setBit, -BitVec.getLsbD_eq_getElem]

-- The status registers show a captured header one cycle later.
theorem Captured.shows (h : Captured id s []) (h' : Captured id (posedge s i) []) :
    ShowsHeader id (posedge s i) := by
  cases h with
  | all h1 h2 h3 h4 h5 h6 =>
    cases h' with
    | all h1' h2' h3' h4' h5' h6' =>
      refine ⟨posedge_headerStatus.1.trans h5, posedge_headerStatus.2.trans h3, h6', ?_⟩
      show 0#16 ++ (posedge s i).lin.idByte ++ (posedge s i).lin.syncByte = _
      rw [h4', h2']

/-- LIN auto-header round trip: with RX wired to TX a header sent with LIN_CMD[3] arrives, for every
divider from 2 on, every break length, frame setting and ID.  The receiver detects the break, empties the
RX FIFO and waits for the delimiter; then it captures Sync byte and ID, and neither goes into the FIFO. -/
theorem autoHeader_arrives (txMem rxMem : BitVec 3 → Byte) (bus : Nat → BusAccess 4) (w : Nat)
    (h : SendsHeader txMem rxMem bus w) : ∃ c e T, HeaderArrives txMem rxMem bus w c e T := by
  have hcalm := h.undisturbed
  obtain ⟨t, hwt, hstart⟩ := h.starting
  obtain ⟨c, e, htc, hce, hseen, hawaits, hup, hlead⟩ := hcalm.break_run hwt hstart
  have hwe : w < e := by omega
  have hrun := hcalm.carrying_run hwe (hawaits e hce (Nat.le_refl e)) hup hlead
  obtain ⟨k, hk⟩ := hcalm.captured_run hwe (hawaits e hce (Nat.le_refl e)) hup hlead
  refine ⟨c, e, e + 1 + k + 1, ⟨by omega, hce, by omega⟩, hseen, ?_, ?_, ⟨hup, ?_⟩, ?_⟩
  · intro u hcu
    apply Ring.contents_eq_nil
    rcases Nat.lt_or_ge e u with hlt | hge
    · obtain ⟨j, rfl⟩ := Nat.exists_eq_add_of_le (show e + 1 ≤ u from hlt)
      obtain ⟨r, hr⟩ := hrun j
      exact hr.empty
    · exact (hawaits u hcu hge).empty
  · intro u hcu hue
    exact ⟨(hawaits u hcu hue).waits, (hawaits u hcu hue).idle⟩
  · intro u heu
    obtain ⟨j, rfl⟩ := Nat.exists_eq_add_of_le (show e + 1 ≤ u from heu)
    obtain ⟨r, hr⟩ := hrun j
    exact hr.delimited
  · intro u hu
    obtain ⟨j, rfl⟩ := Nat.exists_eq_add_of_le (show e + 1 + k + 1 ≤ u from hu)
    have hnow := (hcalm.captured_stays hwe (show k ≤ k + j by omega) hk).captured
    have hthen := (hcalm.captured_stays hwe (show k ≤ k + j + 1 by omega) hk).captured
    rw [show e + 1 + k + 1 + j = e + 1 + (k + j + 1) by omega]
    exact hnow.shows hthen

/-- BAUD = 2, a break of 11 bits and LIN mode; then LIN_CMD[3] sends the ID 0x3C. -/
def headerBus (t : Nat) : BusAccess 4 :=
  if t = 0 then ⟨true, false, 0x3, 2⟩
  else if t = 1 then ⟨true, false, 0x8, 11⟩
  else if t = 2 then ⟨true, false, 0x2, 0x21⟩
  else if t = 3 then ⟨true, false, 0xA, 0x3C⟩
  else if t = 4 then ⟨true, false, 0x9, 8⟩
  else ⟨false, false, 0, 0⟩

theorem headerBus_arrives :
    ∃ c e T, HeaderArrives (fun _ ↦ 0) (fun _ ↦ 0) headerBus 4 c e T := by
  have hbus (t : Nat) (ht : 4 < t) : headerBus t = ⟨false, false, 0, 0⟩ := by
    unfold headerBus
    rw [if_neg (by omega), if_neg (by omega), if_neg (by omega), if_neg (by omega), if_neg (by omega)]
  apply autoHeader_arrives
  constructor
  case enabled => decide +kernel
  case linMode => decide +kernel
  case idle => decide +kernel
  case noBreak => decide +kernel
  case noHeader => decide +kernel
  case noTx => decide +kernel
  case baud => decide +kernel
  case length => exact .inr (by decide +kernel)
  case command => decide
  case quiet =>
    intro t ht
    rw [hbus t ht]
  case noRace =>
    intro t ht _
    rw [hbus t ht]
    simp [rxTakes, rxPop]

end Run

end Uart

end QarCore
