import QarCore.Clocked.Run
import QarCore.Periph.Uart

/-!
# ADC

The registers of `qar_adc` and one clock edge of it, and what becomes of an overrun.  The start of a
conversion clears `data_valid`, which is the flag that the completion tests for an unread result.
-/

namespace QarCore

open Clocked (run)

/-- A sample, of `WIDTH` = 12 bits. -/
abbrev Sample := BitVec 12

structure Adc where
  ctrlEnable : Bool
  ctrlContinuous : Bool
  ctrlChannel : BitVec 2
  manualStartPending : Bool
  seqMask : BitVec 4
  sampleDiv : BitVec 16
  sampleCounter : BitVec 16
  seqChannel : BitVec 2
  busy : Bool
  activeChannel : BitVec 2
  sampleHold : Sample
  convCounter : BitVec 8
  dataValid : Bool
  resultValue : Sample
  resultChannel : BitVec 2
  dataOverrun : Bool
  irqEn : Word
  irqStatus : Word
  deriving DecidableEq

namespace Adc

structure Inputs where
  bus : BusAccess 5
  ch0 : Sample
  ch1 : Sample
  ch2 : Sample
  ch3 : Sample
  deriving DecidableEq

/-! ## Wires -/

def effectiveSampleDiv (s : Adc) : BitVec 16 := if s.sampleDiv = 0#16 then 1 else s.sampleDiv

def continuousReady (s : Adc) : Bool := s.ctrlEnable && s.ctrlContinuous && s.seqMask != 0#4

def irq (s : Adc) : Bool := s.irqEn &&& s.irqStatus != 0#32

def channelValue (i : Inputs) (idx : BitVec 2) : Sample :=
  if idx = 0#2 then i.ch0 else if idx = 1#2 then i.ch1 else if idx = 2#2 then i.ch2 else i.ch3

def firstChannel (mask : BitVec 4) : BitVec 2 :=
  if mask.getLsbD 0 then 0 else if mask.getLsbD 1 then 1 else if mask.getLsbD 2 then 2 else 3

/-- The next channel of the mask in round-robin order, or the current one if there is no other. -/
def nextChannel (mask : BitVec 4) (curr : BitVec 2) : BitVec 2 :=
  if curr = 0#2 then
    if mask.getLsbD 1 then 1 else if mask.getLsbD 2 then 2 else if mask.getLsbD 3 then 3 else 0
  else if curr = 1#2 then
    if mask.getLsbD 2 then 2 else if mask.getLsbD 3 then 3 else if mask.getLsbD 0 then 0 else 1
  else if curr = 2#2 then
    if mask.getLsbD 3 then 3 else if mask.getLsbD 0 then 0 else if mask.getLsbD 1 then 1 else 2
  else
    if mask.getLsbD 0 then 0 else if mask.getLsbD 1 then 1 else if mask.getLsbD 2 then 2 else 3

/-! ## The blocks of the edge -/

def writeCtrl (wdata : Word) (n : Adc) : Adc :=
  { n with ctrlEnable := wdata.getLsbD 0
           ctrlContinuous := wdata.getLsbD 1
           ctrlChannel := wdata.extractLsb' 4 2
           manualStartPending := if wdata.getLsbD 2 then true else n.manualStartPending }

def writeIrqStatus (s : Adc) (wdata : Word) (n : Adc) : Adc :=
  { n with irqStatus := s.irqStatus &&& ~~~wdata
           dataOverrun := if wdata.getLsbD 1 then false else n.dataOverrun
           dataValid := if wdata.getLsbD 0 then false else n.dataValid }

def busWrite (s : Adc) (b : BusAccess 5) (n : Adc) : Adc :=
  if b.write then
    if b.addrWord = 0x0#5 then writeCtrl b.wdata n
    else if b.addrWord = 0x3#5 then { n with irqEn := b.wdata }
    else if b.addrWord = 0x4#5 then writeIrqStatus s b.wdata n
    else if b.addrWord = 0x5#5 then
      { n with seqMask := b.wdata.extractLsb' 0 4
               seqChannel := firstChannel (b.wdata.extractLsb' 0 4) }
    else if b.addrWord = 0x6#5 then { n with sampleDiv := b.wdata.extractLsb' 0 16 }
    else n
  else n

/-- A read of RESULT. -/
def busRead (b : BusAccess 5) (n : Adc) : Adc :=
  if b.read && b.addrWord == 0x2#5 then
    { n with dataValid := false, irqStatus := setBit n.irqStatus 0 false }
  else n

def idleCounter (s : Adc) (n : Adc) : Adc :=
  if !s.ctrlContinuous then { n with sampleCounter := 0 } else n

/-- A conversion starts: the input is latched, and the previous result counts as gone. -/
def startConversion (i : Inputs) (channel : BitVec 2) (n : Adc) : Adc :=
  { n with busy := true
           activeChannel := channel
           sampleHold := channelValue i channel
           convCounter := 0
           dataValid := false }

def start (s : Adc) (i : Inputs) (n : Adc) : Adc :=
  if s.manualStartPending && s.ctrlEnable then
    startConversion i s.ctrlChannel { n with manualStartPending := false }
  else if s.continuousReady then
    if s.seqMask = 0#4 then { n with sampleCounter := 0 }
    else if s.sampleCounter ≥ s.effectiveSampleDiv then
      startConversion i s.seqChannel
        { n with sampleCounter := 0, seqChannel := nextChannel s.seqMask s.seqChannel }
    else { n with sampleCounter := s.sampleCounter + 1 }
  else { n with sampleCounter := 0 }

/-- The last of the `CONV_LATENCY` = 8 cycles of a conversion. -/
def completes (s : Adc) : Bool := s.busy && s.convCounter ≥ 7#8

def finish (s : Adc) (n : Adc) : Adc :=
  let n := { n with busy := false, resultValue := s.sampleHold, resultChannel := s.activeChannel }
  let n := if s.dataValid then
      { n with dataOverrun := true, irqStatus := setBit n.irqStatus 1 true } else n
  { n with dataValid := true, irqStatus := setBit n.irqStatus 0 true, convCounter := 0 }

def convert (s : Adc) (i : Inputs) (n : Adc) : Adc :=
  if !s.busy then start s i n
  else if s.convCounter ≥ 7#8 then finish s n
  else { n with convCounter := s.convCounter + 1 }

def posedge (s : Adc) (i : Inputs) : Adc :=
  convert s i (idleCounter s (busRead i.bus (busWrite s i.bus s)))

def reset : Adc where
  ctrlEnable := false
  ctrlContinuous := false
  ctrlChannel := 0
  manualStartPending := false
  seqMask := 0b0001
  sampleDiv := 16
  sampleCounter := 0
  seqChannel := 0
  busy := false
  activeChannel := 0
  sampleHold := 0
  convCounter := 0
  dataValid := false
  resultValue := 0
  resultChannel := 0
  dataOverrun := false
  irqEn := 0
  irqStatus := 0

/-- `rdata` -/
def readData (s : Adc) (b : BusAccess 5) : Word :=
  if b.read then
    if b.addrWord = 0x0#5 then
      0#26 ++ s.ctrlChannel ++ BitVec.ofBool s.ctrlContinuous ++ BitVec.ofBool s.ctrlEnable
        |>.setWidth 32
    else if b.addrWord = 0x1#5 then
      0#28 ++ BitVec.ofBool s.dataOverrun ++ BitVec.ofBool s.continuousReady ++
        BitVec.ofBool s.dataValid ++ BitVec.ofBool s.busy
    else if b.addrWord = 0x2#5 then 0#12 ++ s.resultChannel ++ 0#4 ++ s.resultValue |>.setWidth 32
    else if b.addrWord = 0x3#5 then s.irqEn
    else if b.addrWord = 0x4#5 then s.irqStatus
    else if b.addrWord = 0x5#5 then s.seqMask.setWidth 32
    else if b.addrWord = 0x6#5 then s.sampleDiv.setWidth 32
    else 0#32
  else 0#32

/-! ## Overrun -/

variable {s : Adc} {i : Inputs} {inp : Nat → Inputs} {t : Nat}

/-- The result is read through RESULT or acknowledged through IRQ_STATUS. -/
def takesResult (b : BusAccess 5) : Bool :=
  b.read && b.addrWord == 0x2#5 || b.write && b.addrWord == 0x4#5 && b.wdata.getLsbD 0

/-- A write that clears an overrun. -/
def clearsOverrun (b : BusAccess 5) : Bool := b.write && b.addrWord == 0x4#5 && b.wdata.getLsbD 1

/-- Overrun as STATUS and as IRQ_STATUS report it. -/
def overrunShown (s : Adc) : Prop := s.dataOverrun = true ∧ s.irqStatus.getLsbD 1 = true

def overrunQuiet (s : Adc) : Prop := s.dataOverrun = false ∧ s.irqStatus.getLsbD 1 = false

/-- In cycle `u` a conversion completes over a result that nobody has taken since it completed. -/
def missed (inp : Nat → Inputs) (u : Nat) : Prop :=
  (run posedge reset inp u).completes ∧
    ∃ j < u, (run posedge reset inp j).completes ∧
      ∀ v, j < v → v ≤ u → takesResult (inp v).bus = false

/-- What the first `t` cycles of a run are expected to show of the missed results. -/
structure DetectsOverrun (inp : Nat → Inputs) (t : Nat) : Prop where
  /-- A missed result is reported until a write clears the report. -/
  complete : ∀ u v, u < v → v ≤ t → missed inp u →
    (∀ w, u < w → w < v → clearsOverrun (inp w).bus = false) → overrunShown (run posedge reset inp v)
  /-- Nothing is reported as long as no result was missed. -/
  sound : ∀ v ≤ t, (∀ u < v, ¬ missed inp u) → overrunQuiet (run posedge reset inp v)

/-- A running conversion has cleared `data_valid`, so no completion ever finds it set. -/
structure NeverOverrun (s : Adc) : Prop where
  consumed : s.busy → s.dataValid = false
  quiet : s.overrunQuiet

theorem neverOverrun_reset : NeverOverrun reset := ⟨by decide, rfl, by decide⟩

-- The register accesses can clear the flags but raise none of them.
theorem accesses_clear {n : Adc} (hn : n = idleCounter s (busRead i.bus (busWrite s i.bus s))) :
    n.busy = s.busy ∧ (s.dataValid = false → n.dataValid = false) ∧
      (s.overrunQuiet → n.overrunQuiet) := by
  subst hn
  refine ⟨?_, ?_, ?_⟩
  · simp only [idleCounter, busRead, busWrite, writeCtrl, writeIrqStatus, apply_ite Adc.busy, ite_self]
  · intro h
    simp only [idleCounter, busRead, busWrite, writeCtrl, writeIrqStatus, apply_ite Adc.dataValid, h,
      ite_self]
  · rintro ⟨h, hb⟩
    constructor
    · simp only [idleCounter, busRead, busWrite, writeCtrl, writeIrqStatus, apply_ite Adc.dataOverrun,
        h, ite_self]
    · simp [idleCounter, busRead, busWrite, writeCtrl, writeIrqStatus, apply_ite Adc.irqStatus,
        apply_ite (BitVec.getLsbD · 1), getLsbD_setBit, hb, -BitVec.getLsbD_eq_getElem]

theorem NeverOverrun.posedge (h : NeverOverrun s) : NeverOverrun (posedge s i) := by
  obtain ⟨hbusy, hvalid, hquiet⟩ := accesses_clear (s := s) (i := i) rfl
  unfold Adc.posedge
  generalize idleCounter s (busRead i.bus (busWrite s i.bus s)) = n at *
  replace hquiet := hquiet h.quiet
  unfold convert
  by_cases hb : s.busy
  · have hv := h.consumed hb
    rw [if_neg (by simp [hb])]
    by_cases hc : s.convCounter ≥ 7#8
    · -- the conversion completes with `data_valid` clear
      rw [if_pos hc, finish, hv]
      refine ⟨by simp, hquiet.1, ?_⟩
      simpa [getLsbD_setBit, -BitVec.getLsbD_eq_getElem] using hquiet.2
    · rw [if_neg hc]
      exact ⟨fun _ ↦ hvalid hv, hquiet⟩
  · have hidle : n.busy = false := by simpa [hb] using hbusy
    rw [if_pos (by simp [hb]), start]
    -- the idle converter starts a conversion or waits
    split
    · exact ⟨fun _ ↦ rfl, hquiet⟩
    · split
      · split
        · exact ⟨fun hn ↦ absurd hn (by simp [hidle]), hquiet⟩
        · split
          · exact ⟨fun _ ↦ rfl, hquiet⟩
          · exact ⟨fun hn ↦ absurd hn (by simp [hidle]), hquiet⟩
      · exact ⟨fun hn ↦ absurd hn (by simp [hidle]), hquiet⟩

theorem run_neverOverrun (inp : Nat → Inputs) (t : Nat) : NeverOverrun (run posedge reset inp t) :=
  Clocked.run_invariant NeverOverrun neverOverrun_reset (fun _ _ h ↦ h.posedge) t

/-- The overrun logic does its job in exactly the runs that give it nothing to do. -/
theorem detectsOverrun_iff (inp : Nat → Inputs) (t : Nat) :
    DetectsOverrun inp t ↔ ∀ u < t, ¬ missed inp u := by
  constructor
  · intro h u hu hmiss
    have hshown := h.complete u (u + 1) (by omega) hu hmiss fun w hw hlt ↦ absurd hw (by omega)
    have hquiet := (run_neverOverrun inp (u + 1)).quiet
    exact absurd (hquiet.1.symm.trans hshown.1) (by decide)
  · intro h
    constructor
    · intro u v huv hvt hmiss
      exact absurd hmiss (h u (by omega))
    · intro v _ _
      exact (run_neverOverrun inp v).quiet

/-- Two single conversions, started by CTRL writes in cycles 0 and 12, with no other access. -/
def twoConversions (u : Nat) : Inputs where
  bus := ⟨u == 0 || u == 12, false, 0x0, 0b101⟩
  ch0 := 100
  ch1 := 0
  ch2 := 0
  ch3 := 0

/-- The second conversion replaces the unread first result without a report. -/
theorem twoConversions_unreported : ¬ DetectsOverrun twoConversions 22 := by
  intro h
  have hmiss : missed twoConversions 21 := by
    refine ⟨by decide +kernel, 9, by decide, by decide +kernel, ?_⟩
    intro v _ _
    simp [takesResult, twoConversions]
  have hshown := h.complete 21 22 (by decide) (by decide) hmiss fun w hw hlt ↦ by omega
  exact absurd hshown.1 (by decide +kernel)

end Adc

end QarCore
