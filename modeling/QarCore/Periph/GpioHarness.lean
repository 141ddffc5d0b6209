import QarCore.Clocked.Lockstep
import QarCore.Periph.Gpio

/-!
# The testbench of the bounded check of GPIO

`gpio_formal_tb` ties the inputs to 0 and keeps a copy of the registers.  Its copy of IRQ_STATUS is never set; but a
pin that is driven high and then turned into an input still shows its old level for a cycle, which is an edge for the
block.  In runs of any length that never do this, all the checks hold.
-/

namespace QarCore

open Clocked (Lockstep part_ite run)

namespace GpioHarness

variable {w : Nat}

/-! ## The testbench -/

/-- The registers `model_dir` to `model_db_cycles`. -/
structure Model (w : Nat) where
  dir : BitVec w
  out : BitVec w
  irqEn : BitVec w
  irqStatus : BitVec w
  irqRise : BitVec w
  irqFall : BitVec w
  altSel : BitVec w
  dbEn : BitVec w
  dbCycles : BitVec 16

namespace Model

def reset : Model w where
  dir := 0
  out := 0
  irqEn := 0
  irqStatus := 0
  irqRise := BitVec.allOnes w
  irqFall := 0
  altSel := 0
  dbEn := 0
  dbCycles := 32

/-- A cycle of the copy. -/
def step (m : Model w) (b : BusAccess 5) : Model w :=
  if b.write then
    if b.addrWord = 0x0#5 then { m with dir := b.wdata.setWidth w }
    else if b.addrWord = 0x1#5 then { m with out := b.wdata.setWidth w }
    else if b.addrWord = 0x3#5 then { m with out := m.out ||| b.wdata.setWidth w }
    else if b.addrWord = 0x4#5 then { m with out := m.out &&& ~~~(b.wdata.setWidth w) }
    else if b.addrWord = 0x5#5 then { m with irqEn := b.wdata.setWidth w }
    else if b.addrWord = 0x6#5 then { m with irqStatus := m.irqStatus &&& ~~~(b.wdata.setWidth w) }
    else if b.addrWord = 0x7#5 then { m with altSel := b.wdata.setWidth w }
    else if b.addrWord = 0x8#5 then { m with irqRise := b.wdata.setWidth w }
    else if b.addrWord = 0x9#5 then { m with irqFall := b.wdata.setWidth w }
    else if b.addrWord = 0xA#5 then { m with dbEn := b.wdata.setWidth w }
    else if b.addrWord = 0xB#5 then { m with dbCycles := b.wdata.setWidth 16 }
    else m
  else m

def pwmMask (m : Model w) : BitVec w := BitVec.ofFnLE fun k ↦ k.val < 2 && m.altSel.getLsbD k

/-- `model_hw_out`, with both PWM inputs at 0. -/
def hwOut (m : Model w) : BitVec w := m.out &&& ~~~m.pwmMask

end Model

/-- What the testbench drives besides the bus. -/
def tied (b : BusAccess 5) : Gpio.Inputs w := ⟨b, 0, false, false⟩

/-- The registers of the block that have a copy. -/
def registers (s : Gpio w) : Model w where
  dir := s.gpioDir
  out := s.gpioOutReg
  irqEn := s.irqEnable
  irqStatus := s.irqStatus
  irqRise := s.irqRiseMask
  irqFall := s.irqFallMask
  altSel := s.altPwmSel
  dbEn := s.debounceEnable
  dbCycles := s.debounceCycles

/-- The checks of a read, of the bits that they look at. -/
structure ReadAgrees (m : Model w) (addr : BitVec 5) (rdata : Word) : Prop where
  dir : addr = 0x0#5 → rdata.setWidth w = m.dir
  out : addr = 0x1#5 → rdata.setWidth w = m.out
  input : addr = 0x2#5 → rdata.setWidth w = m.dir &&& m.hwOut
  irqEn : addr = 0x5#5 → rdata.setWidth w = m.irqEn
  irqStatus : addr = 0x6#5 → rdata.setWidth w = m.irqStatus
  altSel : addr = 0x7#5 → rdata.setWidth w = m.altSel
  irqRise : addr = 0x8#5 → rdata.setWidth w = m.irqRise
  irqFall : addr = 0x9#5 → rdata.setWidth w = m.irqFall
  dbEn : addr = 0xA#5 → rdata.setWidth w = m.dbEn
  dbCycles : addr = 0xB#5 → rdata.setWidth 16 = m.dbCycles

/-- The checks of a cycle. -/
structure Checks (m : Model w) (s : Gpio w) (b : BusAccess 5) : Prop where
  dir : s.gpioDir = m.dir
  out : s.gpioHwOut (tied b) = m.hwOut
  read : b.read → ReadAgrees m b.addrWord (s.readData (tied b))

/-- A pin that is driven high stays an output in this cycle. -/
def Steady (m : Model w) (b : BusAccess 5) : Prop :=
  ∀ k : Fin w, m.dir.getLsbD k → m.hwOut.getLsbD k → (m.step b).dir.getLsbD k

/-! ## One cycle -/

/-- No input is high, and none has been. -/
structure Low (s : Gpio w) : Prop where
  now : s.filteredInputOnly = 0#w
  last : s.lastInput = 0#w

variable {s : Gpio w} {b : BusAccess 5} {k : Fin w}

theorem hwOut_tied : s.gpioHwOut (tied b) = (registers s).hwOut := by
  have hvalues : s.pwmOverrideValues (tied b) = 0#w := by
    apply BitVec.eq_of_getLsbD_eq
    intro i hi
    rw [Gpio.pwmOverrideValues, BitVec.getLsbD_ofFnLE, dif_pos hi]
    simp [tied]
  rw [Gpio.gpioHwOut, hvalues]
  exact BitVec.or_zero

theorem Low.noEvents (h : Low s) : s.irqEvents = 0#w := by
  rw [Gpio.irqEvents, Gpio.risingEdges, Gpio.fallingEdges, h.now, h.last]
  simp

theorem registers_busWrite (h : ¬ (b.write ∧ b.addrWord = 0x6#5)) :
    registers (s.busWrite b s) = (registers s).step b := by
  refine part_ite registers (fun hw ↦ ?_) fun _ ↦ rfl
  iterate 5 refine part_ite registers (fun _ ↦ rfl) fun _ ↦ ?_
  rw [if_neg fun ha ↦ h ⟨hw, ha⟩]
  iterate 4 refine part_ite registers (fun _ ↦ rfl) fun _ ↦ ?_
  exact part_ite registers (fun _ ↦ rfl) fun _ ↦ rfl

/-- In a cycle without an edge on the inputs the registers and their copies move alike. -/
theorem registers_posedge (h : Low s) : registers (s.posedge (tied b)) = (registers s).step b := by
  have hstatus : registers (s.posedge (tied b)) =
      { registers (s.busWrite b s) with irqStatus := s.irqStatus &&& ~~~(Gpio.clearIrqMask b) ||| s.irqEvents } := rfl
  rw [hstatus, h.noEvents, BitVec.or_zero]
  by_cases h6 : b.write ∧ b.addrWord = 0x6#5
  · obtain ⟨hw, ha⟩ := h6
    rw [Gpio.clearIrqMask, Gpio.busWrite, Model.step, if_pos hw, if_pos hw, hw, ha]
    rfl
  · have hclear : (Gpio.clearIrqMask b : BitVec w) = 0#w := by
      refine if_neg fun hc ↦ h6 ?_
      rw [Bool.and_eq_true, beq_iff_eq] at hc
      exact hc
    have hkeep : (s.busWrite b s).irqStatus = s.irqStatus := by
      simp only [Gpio.busWrite, apply_ite Gpio.irqStatus, ite_self]
    have hall : s.irqStatus &&& ~~~(0#w) = s.irqStatus := by simp
    rw [hclear, hall, ← hkeep, ← registers_busWrite h6]
    rfl

-- An input pin that is low stays low.
theorem debouncePin_low (hdir : ¬ s.gpioDir.getLsbD k) (hlevel : s.debouncedInput.getLsbD k = false) :
    (s.debouncePin (tied b) k).1 = false := by
  have hin : (s.inputOnly (tied b)).getLsbD k = false := by
    rw [Gpio.inputOnly]
    simp [tied]
  rw [Gpio.debouncePin, if_neg hdir]
  split_ifs
  · exact hin
  · exact hlevel
  · exact hin
  · exact hlevel

theorem Low.posedge (h : Low s) (hs : Steady (registers s) b) : Low (s.posedge (tied b)) := by
  refine ⟨?_, h.now⟩
  apply BitVec.eq_of_getLsbD_eq
  intro i hi
  have hk := Gpio.filteredInputOnly_eq (s := s.posedge (tied b)) (k := ⟨i, hi⟩)
  rw [hk, Gpio.posedge_level, BitVec.getLsbD_zero, Bool.and_eq_false_iff]
  by_cases hdir : (s.posedge (tied b)).gpioDir.getLsbD i
  · exact .inl (by rw [Gpio.isInput, hdir]; rfl)
  · refine .inr ?_
    have hnow := Gpio.filteredInputOnly_eq (s := s) (k := ⟨i, hi⟩)
    rw [h.now, BitVec.getLsbD_zero] at hnow
    by_cases hout : s.gpioDir.getLsbD i
    · rw [Gpio.debouncePin, if_pos hout, hwOut_tied, ← Bool.not_eq_true]
      intro hhigh
      have hstay := hs ⟨i, hi⟩ hout hhigh
      rw [← registers_posedge h] at hstay
      exact hdir hstay
    · refine debouncePin_low hout ?_
      rw [Gpio.isInput, Gpio.level] at hnow
      simpa [hout] using hnow.symm

theorem lockstep : Lockstep (fun (s : Gpio w) b ↦ s.posedge (tied b)) Model.step registers Low Steady where
  agree _ _ h _ := registers_posedge h
  keeps _ _ h hs := h.posedge hs

theorem read_at {k : BitVec 5} (hr : b.read) (ha : b.addrWord = k) :
    s.readData (tied b) = s.readData (tied ⟨b.write, true, k, b.wdata⟩) := by
  obtain ⟨w, r, a, d⟩ := b
  obtain rfl : r = true := hr
  obtain rfl : a = k := ha
  rfl

theorem readAgrees (hw : w ≤ 32) (h : Low s) (hr : b.read) :
    ReadAgrees (registers s) b.addrWord (s.readData (tied b)) := by
  have hback : ∀ (n : Nat) (x : BitVec n), n ≤ 32 → (x.setWidth 32).setWidth n = x := by
    intro n x hn
    rw [BitVec.setWidth_setWidth_of_le _ hn, BitVec.setWidth_eq]
  have hread : ∀ (k : BitVec 5) (x : BitVec w), s.readData (tied ⟨b.write, true, k, b.wdata⟩) = x.setWidth 32 →
      b.addrWord = k → (s.readData (tied b)).setWidth w = x := by
    intro k x hx ha
    rw [read_at hr ha, hx]
    exact hback w x hw
  constructor
  · exact hread _ s.gpioDir rfl
  · exact hread _ s.gpioOutReg rfl
  · refine hread _ _ ?_
    rw [← hwOut_tied (b := b)]
    have hin : s.readData (tied ⟨b.write, true, 0x2#5, b.wdata⟩) =
        (s.gpioDir &&& s.gpioHwOut (tied b) ||| s.filteredInputOnly).setWidth 32 := rfl
    rw [hin, h.now, BitVec.or_zero]
    rfl
  · exact hread _ s.irqEnable rfl
  · exact hread _ s.irqStatus rfl
  · exact hread _ s.altPwmSel rfl
  · exact hread _ s.irqRiseMask rfl
  · exact hread _ s.irqFallMask rfl
  · exact hread _ s.debounceEnable rfl
  · intro ha
    rw [read_at hr ha]
    exact hback 16 s.debounceCycles (by decide)

/-! ## The run -/

/-- The checks hold in every cycle of every run in which no pin that is driven high is turned into an input, whatever
the accesses are. -/
theorem checks_hold_of_steady (hw : w ≤ 32) (inp : Nat → BusAccess 5)
    (h : ∀ t, Steady (run (Model.step (w := w)) .reset inp t) (inp t)) (t : Nat) :
    Checks (run Model.step .reset inp t) (run (fun (s : Gpio w) b ↦ s.posedge (tied b)) .reset inp t) (inp t) := by
  have hlow : Low (Gpio.reset : Gpio w) := by
    refine ⟨?_, rfl⟩
    rw [Gpio.filteredInputOnly]
    exact BitVec.and_zero
  have hcopy : registers (Gpio.reset : Gpio w) = .reset := rfl
  obtain ⟨hinv, hpart⟩ := lockstep.run hlow hcopy h t
  refine ⟨?_, ?_, fun hr ↦ ?_⟩
  · rw [← hpart]
    rfl
  · rw [← hpart]
    exact hwOut_tied
  · rw [← hpart]
    exact readAgrees hw hinv hr

/-- Pin 0 is driven high, and the pins are read. -/
def drive : Nat → BusAccess 5
  | 0 => ⟨true, false, 0x0, 1⟩
  | 1 => ⟨true, false, 0x1, 1⟩
  | _ => ⟨false, true, 0x2, 0⟩

/-- The same, but the pin is turned into an input before that. -/
def drop : Nat → BusAccess 5
  | 0 => ⟨true, false, 0x0, 1⟩
  | 1 => ⟨true, false, 0x1, 1⟩
  | 2 => ⟨true, false, 0x0, 0⟩
  | _ => ⟨false, true, 0x2, 0⟩

theorem drive_steady (t : Nat) : Steady (run (Model.step (w := 4)) .reset drive t) (drive t) := by
  rcases t with _ | _ | t
  · unfold Steady
    decide
  · unfold Steady
    decide
  · exact fun k hdir _ ↦ hdir

-- A driven pin is read back; one that is turned into an input fails the check of the read.
theorem checks_hold_of_steady_drive :
    ((run (fun (s : Gpio 4) b ↦ s.posedge (tied b)) .reset drive 3).readData (tied (drive 3))).setWidth 4 = 1#4 ∧
      ¬ Checks (run Model.step .reset drop 3) (run (fun (s : Gpio 4) b ↦ s.posedge (tied b)) .reset drop 3)
        (drop 3) := by
  constructor
  · rw [((checks_hold_of_steady (by decide) drive drive_steady 3).read rfl).input rfl]
    decide
  · intro h
    exact absurd ((h.read rfl).input rfl) (by decide +kernel)

end GpioHarness

end QarCore
