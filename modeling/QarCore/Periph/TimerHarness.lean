import QarCore.Clocked.Lockstep
import QarCore.Periph.Timer

/-!
# The testbench of the bounded check

`timer_formal_tb` keeps a copy of the registers next to a timer whose counter and watchdog stay disabled, and
checks in every cycle that the two agree; the repository runs it for twelve cycles.  Here the agreement is proved
for runs of any length, with the one exception that the check runs into: the PWM outputs are registers, and the
testbench expects them one cycle early.
-/

namespace QarCore

open Clocked (Lockstep part_ite run)

namespace TimerHarness

/-! ## The testbench -/

/-- The registers `m_ctrl` to `m_capture1_value`. -/
structure Model where
  ctrl : Word
  prescale : Word
  counter : Word
  status : Word
  irqEn : Word
  cmp0 : Word
  cmp0Period : Word
  cmp1 : Word
  cmp1Period : Word
  wdtLoad : Word
  wdtEnable : Bool
  wdtCounter : Word
  pwm0Period : Word
  pwm0Duty : Word
  pwm1Period : Word
  pwm1Duty : Word
  captureCtrl : Word
  capture0Value : Word
  capture1Value : Word
  deriving DecidableEq

namespace Model

def reset : Model where
  ctrl := 0
  prescale := 0
  counter := 0
  status := 0
  irqEn := 0
  cmp0 := 0
  cmp0Period := 0
  cmp1 := 0
  cmp1Period := 0
  wdtLoad := 0
  wdtEnable := false
  wdtCounter := 0
  pwm0Period := 0
  pwm0Duty := 0
  pwm1Period := 0
  pwm1Duty := 0
  captureCtrl := 0
  capture0Value := 0
  capture1Value := 0

def writeWdtLoad (m : Model) (wdata : Word) : Model :=
  let n := { m with wdtLoad := wdata }
  if m.wdtEnable then { n with wdtCounter := wdata } else n

def writeWdtCtrl (m : Model) (wdata : Word) : Model :=
  let n := { m with wdtEnable := false }
  if wdata.getLsbD 1 then { n with wdtCounter := m.wdtLoad } else n

def writeCaptureCtrl (m : Model) (wdata : Word) : Model :=
  let n := { m with captureCtrl := wdata }
  let n := if wdata.getLsbD 0 then
      { n with capture0Value := m.counter, status := setBit n.status 3 true } else n
  if wdata.getLsbD 1 then
    { n with capture1Value := m.counter, status := setBit n.status 4 true } else n

/-- A cycle of the copy. -/
def step (m : Model) (b : BusAccess 6) : Model :=
  if b.write then
    if b.addrWord = 0x0#6 then { m with ctrl := b.wdata &&& 0xFFFFFFFE#32 }
    else if b.addrWord = 0x1#6 then { m with prescale := b.wdata }
    else if b.addrWord = 0x2#6 then { m with counter := b.wdata }
    else if b.addrWord = 0x3#6 then { m with status := m.status &&& ~~~b.wdata }
    else if b.addrWord = 0x4#6 then { m with irqEn := b.wdata }
    else if b.addrWord = 0x5#6 then { m with cmp0 := b.wdata }
    else if b.addrWord = 0x6#6 then { m with cmp0Period := b.wdata }
    else if b.addrWord = 0x7#6 then { m with cmp1 := b.wdata }
    else if b.addrWord = 0x8#6 then { m with cmp1Period := b.wdata }
    else if b.addrWord = 0x9#6 then m.writeWdtLoad b.wdata
    else if b.addrWord = 0xA#6 then m.writeWdtCtrl b.wdata
    else if b.addrWord = 0xC#6 then { m with pwm0Period := b.wdata }
    else if b.addrWord = 0xD#6 then { m with pwm0Duty := b.wdata }
    else if b.addrWord = 0xE#6 then { m with pwm1Period := b.wdata }
    else if b.addrWord = 0xF#6 then { m with pwm1Duty := b.wdata }
    else if b.addrWord = 0x11#6 then m.writeCaptureCtrl b.wdata
    else m
  else m

def irqExpected (m : Model) : Bool := m.status &&& m.irqEn != 0#32

def pwm0Expected (m : Model) : Bool := m.pwm0Period != 0#32 && m.pwm0Duty != 0#32

def pwm1Expected (m : Model) : Bool := m.pwm1Period != 0#32 && m.pwm1Duty != 0#32

end Model

/-- What the testbench assumes of the accesses. -/
structure Assumed (b : BusAccess 6) : Prop where
  defined : b.addrWord ≤ 0x13#6
  exclusive : b.write → b.read = false
  halted : b.write → b.addrWord = 0x0#6 → b.wdata.getLsbD 0 = false
  unwatched : b.write → b.addrWord = 0xA#6 → b.wdata.getLsbD 0 = false

/-- The registers of the timer that have a copy. -/
def registers (s : Timer) : Model where
  ctrl := s.ctrl
  prescale := s.prescale
  counter := s.counter
  status := s.status
  irqEn := s.irqEn
  cmp0 := s.cmp0
  cmp0Period := s.cmp0Period
  cmp1 := s.cmp1
  cmp1Period := s.cmp1Period
  wdtLoad := s.wdtLoad
  wdtEnable := s.wdtEnable
  wdtCounter := s.wdtCounter
  pwm0Period := s.pwm0Period
  pwm0Duty := s.pwm0Duty
  pwm1Period := s.pwm1Period
  pwm1Duty := s.pwm1Duty
  captureCtrl := s.captureCtrl
  capture0Value := s.capture0Value
  capture1Value := s.capture1Value

/-- The checks of a read, of the bits that they look at. -/
structure ReadAgrees (m : Model) (addr : BitVec 6) (rdata : Word) : Prop where
  ctrl : addr = 0x0#6 → rdata = m.ctrl
  prescale : addr = 0x1#6 → rdata = m.prescale
  counter : addr = 0x2#6 → rdata = m.counter
  status : addr = 0x3#6 → rdata = m.status
  irqEn : addr = 0x4#6 → rdata = m.irqEn
  cmp0 : addr = 0x5#6 → rdata = m.cmp0
  cmp0Period : addr = 0x6#6 → rdata = m.cmp0Period
  cmp1 : addr = 0x7#6 → rdata = m.cmp1
  cmp1Period : addr = 0x8#6 → rdata = m.cmp1Period
  wdtLoad : addr = 0x9#6 → rdata = m.wdtLoad
  wdtEnable : addr = 0xA#6 → rdata.getLsbD 0 = m.wdtEnable
  wdtCounter : addr = 0xB#6 → rdata = m.wdtCounter
  pwm0Period : addr = 0xC#6 → rdata = m.pwm0Period
  pwm0Duty : addr = 0xD#6 → rdata = m.pwm0Duty
  pwm1Period : addr = 0xE#6 → rdata = m.pwm1Period
  pwm1Duty : addr = 0xF#6 → rdata = m.pwm1Duty
  captureCtrl : addr = 0x11#6 → rdata = m.captureCtrl
  capture0Value : addr = 0x12#6 → rdata = m.capture0Value
  capture1Value : addr = 0x13#6 → rdata = m.capture1Value

/-- The checks of a cycle, but for those of the PWM outputs. -/
structure Checks (m : Model) (s : Timer) (b : BusAccess 6) : Prop where
  registers : registers s = m
  irq : s.irq = m.irqExpected
  read : b.read → ReadAgrees m b.addrWord (s.readData b)

/-- The checks of the PWM outputs, `pwm0`, `pwm1` and PWM_STATUS. -/
structure PwmChecks (m : Model) (s : Timer) (b : BusAccess 6) : Prop where
  pwm0 : s.pwm0Out = m.pwm0Expected
  pwm1 : s.pwm1Out = m.pwm1Expected
  read : b.read → b.addrWord = 0x10#6 → (s.readData b).extractLsb' 0 2 =
    BitVec.ofBool m.pwm1Expected ++ BitVec.ofBool m.pwm0Expected

/-! ## One cycle -/

/-- Nothing runs, and the watchdog has not expired. -/
structure Idle (m : Model) : Prop where
  halted : m.ctrl.getLsbD 0 = false
  unwatched : m.wdtEnable = false
  unexpired : m.status.getLsbD 2 = false

variable {m : Model} {s n : Timer} {b : BusAccess 6}

theorem and_mask {w : Word} (h : w.getLsbD 0 = false) : w &&& 0xFFFFFFFE#32 = w := by
  ext i hi
  rw [BitVec.getElem_and]
  by_cases h0 : i = 0
  · subst h0
    rw [← BitVec.getLsbD_eq_getElem, h]
    rfl
  · have hone : ∀ i, i < 32 → i ≠ 0 → (0xFFFFFFFE#32).getLsbD i = true := by decide
    rw [← BitVec.getLsbD_eq_getElem (x := 0xFFFFFFFE#32), hone i hi h0, Bool.and_true]

theorem setBit_of_clear {w : Word} (h : w.getLsbD 2 = false) : setBit w 2 false = w := by
  apply BitVec.eq_of_getLsbD_eq
  intro i hi
  rw [getLsbD_setBit w 2 i false (by decide)]
  by_cases h2 : i = 2
  · rw [if_pos h2, h2, h]
  · rw [if_neg h2]

theorem getLsbD_ofBool_setWidth (e : Bool) : ((BitVec.ofBool e).setWidth 32).getLsbD 0 = e := by
  cases e <;> rfl

-- Without the counter the tick only moves what has no copy.
theorem registers_tick (h : s.ctrl.getLsbD 0 = false) : registers (s.tick n) = registers n := by
  rw [Timer.tick, if_neg (by rw [Timer.counterEnable, h]; exact Bool.false_ne_true)]
  rfl

theorem registers_wdtLoad (h : Idle (registers s)) (w : Word) :
    registers (s.writeWdtLoad w s) = (registers s).writeWdtLoad w := by
  have hoff : s.wdtEnable = false := h.unwatched
  rw [Timer.writeWdtLoad, Model.writeWdtLoad, if_neg (by rw [hoff]; exact Bool.false_ne_true),
    if_neg (by rw [h.unwatched]; exact Bool.false_ne_true)]
  rfl

theorem registers_wdtCtrl (h : Idle (registers s)) {w : Word} (hw : w.getLsbD 0 = false) :
    registers (s.writeWdtCtrl w s) = (registers s).writeWdtCtrl w := by
  have hclear : setBit s.status 2 false = s.status := setBit_of_clear h.unexpired
  simp only [Timer.writeWdtCtrl, Model.writeWdtCtrl, hw, Bool.and_false, if_neg Bool.false_ne_true]
  cases w.getLsbD 1 with
  | true =>
    rw [if_pos rfl, if_pos rfl, Timer.reloadWdt, registers]
    simp only [hclear]
    rfl
  | false => rfl

theorem registers_captureCtrl (w : Word) :
    registers (s.writeCaptureCtrl w s) = (registers s).writeCaptureCtrl w := by
  unfold Timer.writeCaptureCtrl Model.writeCaptureCtrl
  cases w.getLsbD 0 <;> cases w.getLsbD 1 <;> rfl

theorem registers_busWrite (h : Idle (registers s)) (hb : Assumed b) :
    registers (s.busWrite b s) = (registers s).step b := by
  refine part_ite registers (fun hw ↦ ?_) fun _ ↦ rfl
  refine part_ite registers (fun h0 ↦ ?_) fun _ ↦ ?_
  · rw [and_mask (hb.halted hw h0)]
    rfl
  iterate 8 refine part_ite registers (fun _ ↦ rfl) fun _ ↦ ?_
  refine part_ite registers (fun _ ↦ registers_wdtLoad h b.wdata) fun _ ↦ ?_
  refine part_ite registers (fun hA ↦ registers_wdtCtrl h (hb.unwatched hw hA)) fun _ ↦ ?_
  iterate 4 refine part_ite registers (fun _ ↦ rfl) fun _ ↦ ?_
  exact part_ite registers (fun _ ↦ registers_captureCtrl b.wdata) fun _ ↦ rfl

/-- In a cycle of the testbench the registers and their copies move alike. -/
theorem registers_posedge (h : Idle (registers s)) (hb : Assumed b) :
    registers (s.posedge b) = (registers s).step b := by
  rw [Timer.posedge, registers_tick h.halted]
  exact registers_busWrite h hb

theorem Idle.ctrl (h : Idle m) (w : Word) : Idle { m with ctrl := w &&& 0xFFFFFFFE#32 } := by
  refine ⟨?_, h.unwatched, h.unexpired⟩
  rw [BitVec.getLsbD_and]
  exact Bool.and_false _

theorem Idle.status (h : Idle m) (w : Word) : Idle { m with status := m.status &&& ~~~w } := by
  refine ⟨h.halted, h.unwatched, ?_⟩
  rw [BitVec.getLsbD_and, h.unexpired, Bool.false_and]

theorem Idle.wdtLoad (h : Idle m) (w : Word) : Idle (m.writeWdtLoad w) := by
  rw [Model.writeWdtLoad, if_neg (by rw [h.unwatched]; exact Bool.false_ne_true)]
  exact ⟨h.halted, h.unwatched, h.unexpired⟩

theorem Idle.wdtCtrl (h : Idle m) (w : Word) : Idle (m.writeWdtCtrl w) := by
  unfold Model.writeWdtCtrl
  cases w.getLsbD 1 <;> exact ⟨h.halted, rfl, h.unexpired⟩

theorem Idle.captureCtrl (h : Idle m) (w : Word) : Idle (m.writeCaptureCtrl w) := by
  have hset : ∀ (x : Word) (k : Nat), k = 3 ∨ k = 4 → x.getLsbD 2 = false → (setBit x k true).getLsbD 2 = false := by
    intro x k hk hx
    rw [getLsbD_setBit x k 2 true (by omega), if_neg (by omega), hx]
  unfold Model.writeCaptureCtrl
  cases w.getLsbD 0 <;> cases w.getLsbD 1
  · exact ⟨h.halted, h.unwatched, h.unexpired⟩
  · exact ⟨h.halted, h.unwatched, hset _ 4 (.inr rfl) h.unexpired⟩
  · exact ⟨h.halted, h.unwatched, hset _ 3 (.inl rfl) h.unexpired⟩
  · exact ⟨h.halted, h.unwatched, hset _ 4 (.inr rfl) (hset _ 3 (.inl rfl) h.unexpired)⟩

theorem Idle.step (h : Idle m) (b : BusAccess 6) : Idle (m.step b) := by
  have hother : ∀ n : Model, n.ctrl = m.ctrl → n.wdtEnable = m.wdtEnable → n.status = m.status → Idle n := by
    intro n hctrl hwdt hstatus
    exact ⟨hctrl ▸ h.halted, hwdt ▸ h.unwatched, hstatus ▸ h.unexpired⟩
  refine iteInduction (fun _ ↦ ?_) fun _ ↦ h
  refine iteInduction (fun _ ↦ h.ctrl b.wdata) fun _ ↦ ?_
  iterate 2 refine iteInduction (fun _ ↦ hother _ rfl rfl rfl) fun _ ↦ ?_
  refine iteInduction (fun _ ↦ h.status b.wdata) fun _ ↦ ?_
  iterate 5 refine iteInduction (fun _ ↦ hother _ rfl rfl rfl) fun _ ↦ ?_
  refine iteInduction (fun _ ↦ h.wdtLoad b.wdata) fun _ ↦ ?_
  refine iteInduction (fun _ ↦ h.wdtCtrl b.wdata) fun _ ↦ ?_
  iterate 4 refine iteInduction (fun _ ↦ hother _ rfl rfl rfl) fun _ ↦ ?_
  exact iteInduction (fun _ ↦ h.captureCtrl b.wdata) fun _ ↦ h

-- The PWM outputs are what the registers said before the edge.
theorem pwm_posedge (h : s.ctrl.getLsbD 0 = false) :
    (s.posedge b).pwm0Out = (registers s).pwm0Expected ∧ (s.posedge b).pwm1Out = (registers s).pwm1Expected := by
  rw [Timer.posedge, Timer.tick, if_neg (by rw [Timer.counterEnable, h]; exact Bool.false_ne_true)]
  exact ⟨rfl, rfl⟩

theorem read_at {k : BitVec 6} (hr : b.read) (ha : b.addrWord = k) :
    s.readData b = s.readData ⟨b.write, true, k, b.wdata⟩ := by
  obtain ⟨w, r, a, d⟩ := b
  obtain rfl : r = true := hr
  obtain rfl : a = k := ha
  rfl

theorem readAgrees (hr : b.read) : ReadAgrees (registers s) b.addrWord (s.readData b) where
  ctrl := read_at hr
  prescale := read_at hr
  counter := read_at hr
  status := read_at hr
  irqEn := read_at hr
  cmp0 := read_at hr
  cmp0Period := read_at hr
  cmp1 := read_at hr
  cmp1Period := read_at hr
  wdtLoad := read_at hr
  wdtEnable ha := (congrArg (·.getLsbD 0) (read_at hr ha)).trans (getLsbD_ofBool_setWidth s.wdtEnable)
  wdtCounter := read_at hr
  pwm0Period := read_at hr
  pwm0Duty := read_at hr
  pwm1Period := read_at hr
  pwm1Duty := read_at hr
  captureCtrl := read_at hr
  capture0Value := read_at hr
  capture1Value := read_at hr

theorem pwmChecks_iff : PwmChecks m s b ↔ s.pwm0Out = m.pwm0Expected ∧ s.pwm1Out = m.pwm1Expected := by
  constructor
  · exact fun h ↦ ⟨h.pwm0, h.pwm1⟩
  · intro h
    refine ⟨h.1, h.2, fun hr ha ↦ ?_⟩
    have hread : s.readData b = 0#30 ++ BitVec.ofBool s.pwm1Out ++ BitVec.ofBool s.pwm0Out := read_at hr ha
    rw [hread, ← h.1, ← h.2]
    cases s.pwm0Out <;> cases s.pwm1Out <;> rfl

/-! ## The run -/

theorem lockstep :
    Lockstep Timer.posedge Model.step registers (fun s ↦ Idle (registers s)) fun _ b ↦ Assumed b where
  agree _ _ h hb := registers_posedge h hb
  keeps _ b h hb := by
    rw [registers_posedge h hb]
    exact h.step b

/-- The checks hold in every cycle of every run that the testbench allows, and those of the PWM outputs exactly in
the cycles after which no write has changed what is expected of them. -/
theorem checks_hold (inp : Nat → BusAccess 6) (h : ∀ t, Assumed (inp t)) (t : Nat) :
    Checks (run Model.step .reset inp t) (run Timer.posedge .reset inp t) (inp t) ∧
      (PwmChecks (run Model.step .reset inp (t + 1)) (run Timer.posedge .reset inp (t + 1)) (inp (t + 1)) ↔
        (run Model.step .reset inp t).pwm0Expected = (run Model.step .reset inp (t + 1)).pwm0Expected ∧
          (run Model.step .reset inp t).pwm1Expected = (run Model.step .reset inp (t + 1)).pwm1Expected) := by
  have hcopy : registers .reset = .reset := rfl
  have hreset : Idle (registers .reset) := ⟨rfl, rfl, rfl⟩
  obtain ⟨hidle, hreg⟩ := lockstep.run hreset hcopy h t
  constructor
  · refine ⟨hreg, ?_, fun hr ↦ ?_⟩
    · rw [← hreg]
      rfl
    · rw [← hreg]
      exact readAgrees hr
  · obtain ⟨h0, h1⟩ := pwm_posedge (b := inp t) hidle.halted
    rw [pwmChecks_iff, Clocked.run_succ Timer.posedge, h0, h1, hreg]

/-- PWM0_PERIOD and then PWM0_DUTY are set, and PWM_STATUS is read. -/
def setDuty : Nat → BusAccess 6
  | 0 => ⟨true, false, 0xC, 1⟩
  | 1 => ⟨true, false, 0xD, 1⟩
  | _ => ⟨false, true, 0x10, 0⟩

theorem setDuty_assumed (t : Nat) : Assumed (setDuty t) := by
  rcases t with _ | _ | t
  · exact ⟨by decide, fun _ ↦ rfl, fun _ ha ↦ absurd ha (by decide), fun _ ha ↦ absurd ha (by decide)⟩
  · exact ⟨by decide, fun _ ↦ rfl, fun _ ha ↦ absurd ha (by decide), fun _ ha ↦ absurd ha (by decide)⟩
  · have hdefined : 0x10#6 ≤ 0x13#6 := by decide
    exact ⟨hdefined, fun hw ↦ absurd hw Bool.false_ne_true, fun hw ↦ absurd hw Bool.false_ne_true,
      fun hw ↦ absurd hw Bool.false_ne_true⟩

-- In the third cycle the timer is as expected, but for its PWM output.
theorem checks_hold_setDuty :
    registers (run Timer.posedge .reset setDuty 2) = run Model.step .reset setDuty 2 ∧
      ¬ PwmChecks (run Model.step .reset setDuty 2) (run Timer.posedge .reset setDuty 2) (setDuty 2) := by
  refine ⟨(checks_hold setDuty setDuty_assumed 2).1.registers, fun hpwm ↦ ?_⟩
  have hsame := ((checks_hold setDuty setDuty_assumed 1).2.mp hpwm).1
  exact absurd hsame (by decide)

end TimerHarness

end QarCore
