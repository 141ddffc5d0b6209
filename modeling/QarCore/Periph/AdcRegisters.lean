import QarCore.Periph.AdcRequests

/-!
# Register layout of the ADC

What software sees of CTRL and STATUS.  The word that CTRL reads as is two bits short in front of the
channel, and the top two fields of STATUS stand in the other order than in the header of the HAL.
-/

namespace QarCore

open Clocked (run)

namespace Adc

variable {s : Adc} {inp : Nat → Inputs} {t n : Nat}

/-! ## Masks of the HAL -/

def statusReady : Word := 1 <<< 1

def statusOverrun : Word := 1 <<< 2

def statusContMask : Word := 1 <<< 3

/-- Some bit of a mask is set in a word that was read. -/
def shows (word mask : Word) : Bool := word &&& mask != 0#32

def ctrlRead : BusAccess 5 := ⟨false, true, 0x0, 0⟩

def statusRead : BusAccess 5 := ⟨false, true, 0x1, 0⟩

/-- What the register map promises of the registers in state `s`. -/
structure ReadsBack (s : Adc) : Prop where
  /-- CTRL is unchanged by the word that was read from it, written back as the next CTRL write, and
  no conversion is requested. -/
  ctrl : ∀ inp n, (∀ k < n, ctrlWrite (inp k).bus = none) →
    ctrlWrite (inp n).bus = some (s.readData ctrlRead) →
    (run posedge s inp (n + 1)).ctrlEnable = s.ctrlEnable ∧
      (run posedge s inp (n + 1)).ctrlContinuous = s.ctrlContinuous ∧
      (run posedge s inp (n + 1)).ctrlChannel = s.ctrlChannel ∧
      ((run posedge s inp (n + 1)).manualStartPending → (run posedge s inp n).manualStartPending)
  ready : shows (s.readData statusRead) statusReady = s.dataValid
  overrun : shows (s.readData statusRead) statusOverrun = s.dataOverrun
  active : shows (s.readData statusRead) statusContMask = s.continuousReady

/-! ## Words read -/

theorem readData_ctrl (s : Adc) : s.readData ctrlRead =
    0#28 ++ s.ctrlChannel ++ BitVec.ofBool s.ctrlContinuous ++ BitVec.ofBool s.ctrlEnable := by
  show (0#26 ++ s.ctrlChannel ++ BitVec.ofBool s.ctrlContinuous ++ BitVec.ofBool s.ctrlEnable).setWidth
    32 = _
  generalize s.ctrlChannel = c
  cases s.ctrlContinuous <;> cases s.ctrlEnable <;> revert c <;> decide

-- The fields that a CTRL write takes from the word that CTRL reads as.
theorem fields_of_ctrl (s : Adc) : (s.readData ctrlRead).getLsbD 0 = s.ctrlEnable ∧
    (s.readData ctrlRead).getLsbD 1 = s.ctrlContinuous ∧
    (s.readData ctrlRead).getLsbD 2 = s.ctrlChannel.getLsbD 0 ∧
    channelField (s.readData ctrlRead) = 0#2 := by
  rw [readData_ctrl]
  generalize s.ctrlChannel = c
  cases s.ctrlContinuous <;> cases s.ctrlEnable <;> revert c <;> decide

theorem shows_status (s : Adc) : shows (s.readData statusRead) statusReady = s.dataValid ∧
    shows (s.readData statusRead) statusOverrun = s.continuousReady ∧
    shows (s.readData statusRead) statusContMask = s.dataOverrun := by
  have h : s.readData statusRead = 0#28 ++ BitVec.ofBool s.dataOverrun ++
      BitVec.ofBool s.continuousReady ++ BitVec.ofBool s.dataValid ++ BitVec.ofBool s.busy := rfl
  rw [h]
  cases s.dataOverrun <;> cases s.continuousReady <;> cases s.dataValid <;> cases s.busy <;> decide

/-! ## Writing back -/

theorem writeBack_of_channel (h : s.ctrlChannel = 0#2)
    (hn : ctrlWrite (inp n).bus = some (s.readData ctrlRead)) :
    (run posedge s inp (n + 1)).ctrlEnable = s.ctrlEnable ∧
      (run posedge s inp (n + 1)).ctrlContinuous = s.ctrlContinuous ∧
      (run posedge s inp (n + 1)).ctrlChannel = s.ctrlChannel ∧
      ((run posedge s inp (n + 1)).manualStartPending → (run posedge s inp n).manualStartPending) := by
  obtain ⟨hen, hcont, hchan⟩ := posedge_ctrl (s := run posedge s inp n) (i := inp n)
  obtain ⟨h0, h1, h2, hfield⟩ := fields_of_ctrl s
  rw [hn] at hen hcont hchan
  refine ⟨hen.trans h0, hcont.trans h1, (hchan.trans hfield).trans h.symm, ?_⟩
  intro hpend
  rw [Clocked.run_succ, posedge_pending, hn, Option.any_some, h2, h] at hpend
  simp only [Bool.and_eq_true, Bool.or_eq_true] at hpend
  exact hpend.2.resolve_right (by decide)

/-- The inputs of a cycle in which CTRL is written. -/
def writesCtrl (d : Word) : Inputs where
  bus := ⟨true, false, 0x0, d⟩
  ch0 := 0
  ch1 := 0
  ch2 := 0
  ch3 := 0

/-- In the states of a run the registers are laid out as promised exactly while channel 0 is selected
and the sequencer is not active. -/
theorem readsBack_iff (inp : Nat → Inputs) (t : Nat) : ReadsBack (run posedge reset inp t) ↔
    (run posedge reset inp t).ctrlChannel = 0#2 ∧ (run posedge reset inp t).continuousReady = false := by
  have hquiet := (run_neverOverrun inp t).quiet.1
  generalize run posedge reset inp t = s at *
  obtain ⟨hready, hover, hactive⟩ := shows_status s
  constructor
  · intro h
    obtain ⟨-, -, hkeep, -⟩ := h.ctrl (fun _ ↦ writesCtrl (s.readData ctrlRead)) 0
      (fun k hk ↦ absurd hk (Nat.not_lt_zero k)) rfl
    obtain ⟨-, -, hchan⟩ := posedge_ctrl (s := s) (i := writesCtrl (s.readData ctrlRead))
    obtain ⟨-, -, -, hfield⟩ := fields_of_ctrl s
    exact ⟨hkeep.symm.trans (hchan.trans hfield), (hover.symm.trans h.overrun).trans hquiet⟩
  · rintro ⟨hzero, hidle⟩
    constructor
    · intro inp n _ hn
      exact writeBack_of_channel hzero hn
    · exact hready
    · rw [hover, hidle, hquiet]
    · rw [hactive, hidle, hquiet]

/-- The converter is enabled with channel 1 selected, and nothing is started. -/
def selectOne (u : Nat) : Inputs :=
  if u = 0 then writesCtrl 0b010001 else ⟨⟨false, false, 0, 0⟩, 0, 0, 0, 0⟩

/-- Written back, CTRL selects channel 0 and requests a conversion. -/
theorem selectOne_starts : ¬ ReadsBack (run posedge reset selectOne 1) := by
  intro h
  obtain ⟨-, -, hchan, -⟩ := h.ctrl
    (fun _ ↦ writesCtrl ((run posedge reset selectOne 1).readData ctrlRead)) 0
    (fun k hk ↦ absurd hk (Nat.not_lt_zero k)) rfl
  exact absurd hchan (by decide +kernel)

end Adc

end QarCore
