import QarCore.Data.BitFields
import QarCore.Hal.Mmio
import QarCore.Periph.AdcSingle

/-!
# ADC driver

Single conversions with the functions of `adc.h`: the start, the wait for the result and its read.  Every
result is one of the channel that was asked for, and one of the samples that its input had in the meantime.
-/

namespace QarCore

namespace Hal

open BitFields (ones and_ones)
open Clocked (Driver Ends Polls)
open Rv32i (Access)

/-! ## Functions -/

def qarAdc0Base : Word := 0x40006000#32

def qarAdcCtrl : Word := 0x00#32
def qarAdcStatus : Word := 0x04#32
def qarAdcResult : Word := 0x08#32

def qarAdcCtrlEnable : Word := 1#32 <<< 0
def qarAdcCtrlStart : Word := 1#32 <<< 2
def qarAdcCtrlChannelShift : Nat := 4

def qarAdcStatusReady : Word := 1#32 <<< 1

def qarAdcResultValue (val : Word) : Word := val &&& 0xFFF#32
def qarAdcResultChannel (val : Word) : Word := (val >>> 16) &&& 0xF#32

/-- The word that `qar_adc_start_single` writes. -/
def startSingle (channel : Word) : Word :=
  qarAdcCtrlEnable ||| (channel &&& 0x3#32) <<< qarAdcCtrlChannelShift ||| qarAdcCtrlStart

def qarAdcStartSingle (base channel : Word) : Code Unit := mmio32Write base qarAdcCtrl (startSingle channel)

def qarAdcRead (base : Word) : Code Word := mmio32Read base qarAdcResult

/-- Starts a conversion, waits for its result and reads it. -/
def adcSingle (channel : Word) : Code Word := do
  qarAdcStartSingle qarAdc0Base channel
  let _ ← mmio32Await qarAdc0Base qarAdcStatus fun s ↦ s &&& qarAdcStatusReady != 0#32
  qarAdcRead qarAdc0Base

/-! ## On the chip -/

variable {v : Devices} {o : Outside} {ch : BitVec 2} {S : BitVec 2 → Sample → Prop}

/-- The inputs of the ADC in a cycle with or without an access. -/
def adcSees (acc : Option Access) (o : Outside) : Adc.Inputs :=
  Devices.adcInputs (acc.elim .idle busOfAccess) o.pins

/-- Every channel stays among its own samples. -/
def SamplesIn (S : BitVec 2 → Sample → Prop) (o : Outside) : Prop :=
  ∀ ch, S ch (Adc.channelValue (adcSees none o) ch)

theorem chip_adc {acc : Option Access} : (chip.step v acc o).adc0 = v.adc0.posedge (adcSees acc o) := rfl

theorem adcSees_none : (adcSees none o).bus = BusAccess.none := PeriphStart.busOf_idle .adc0

theorem adcSees_load {a : Word} (h : windowOf a = some .adc0) :
    (adcSees (some (.load a)) o).bus = ⟨false, true, a.extractLsb' 2 5, 0⟩ := busOf_load h

theorem adcSees_store {a d : Word} (h : windowOf a = some .adc0) :
    (adcSees (some (.store a d)) o).bus = ⟨true, false, a.extractLsb' 2 5, d⟩ := busOf_store h

theorem adc_status : chip.answer v (.load (qarAdc0Base + qarAdcStatus)) o =
    0#28 ++ BitVec.ofBool v.adc0.dataOverrun ++ BitVec.ofBool v.adc0.continuousReady ++
      BitVec.ofBool v.adc0.dataValid ++ BitVec.ofBool v.adc0.busy := by
  have hbus := adcSees_load (a := qarAdc0Base + qarAdcStatus) (o := o) rfl
  change v.adc0.readData (adcSees (some (.load (qarAdc0Base + qarAdcStatus))) o).bus = _
  rw [hbus]
  rfl

theorem adc_result : chip.answer v (.load (qarAdc0Base + qarAdcResult)) o =
    (0#12 ++ v.adc0.resultChannel ++ 0#4 ++ v.adc0.resultValue).setWidth 32 := by
  have hbus := adcSees_load (a := qarAdc0Base + qarAdcResult) (o := o) rfl
  change v.adc0.readData (adcSees (some (.load (qarAdc0Base + qarAdcResult))) o).bus = _
  rw [hbus]
  rfl

theorem adc_ready : (chip.answer v (.load (qarAdc0Base + qarAdcStatus)) o &&& qarAdcStatusReady != 0#32) =
    v.adc0.dataValid := by
  rw [adc_status, qarAdcStatusReady, and_bit_ne_zero _ (by decide)]
  exact (getLsbD_concat_succ _ v.adc0.busy 0).trans (getLsbD_concat_zero _ v.adc0.dataValid)

-- The two fields of RESULT.
theorem resultChannel_eq (c : BitVec 2) (x : Sample) :
    qarAdcResultChannel ((0#12 ++ c ++ 0#4 ++ x).setWidth 32) = c.setWidth 32 := by
  have hones : (0xF#32 : Word) = ones 32 4 := by decide
  rw [qarAdcResultChannel, hones, and_ones]
  apply BitVec.eq_of_getLsbD_eq
  intro i hi
  simp only [BitVec.getLsbD_append, BitVec.getLsbD_setWidth, BitVec.getLsbD_extractLsb',
    BitVec.getLsbD_ushiftRight, Nat.zero_add]
  have h12 : ¬ 16 + i < 12 := by omega
  have h16 : ¬ 16 + i - 12 < 4 := by omega
  have hsub : 16 + i - 12 - 4 = i := by omega
  rw [if_neg h12, if_neg h16, hsub]
  by_cases h2 : i < 2
  · have h4 : i < 4 := by omega
    have h32 : 16 + i < 32 := by omega
    simp only [h2, h4, h32, hi, decide_true, Bool.true_and, if_true]
  · rw [BitVec.getLsbD_of_ge c i (by omega), if_neg h2, BitVec.getLsbD_zero, Bool.and_false, Bool.and_false,
      Bool.and_false]

theorem resultValue_eq (c : BitVec 2) (x : Sample) :
    qarAdcResultValue ((0#12 ++ c ++ 0#4 ++ x).setWidth 32) = x.setWidth 32 := by
  have hones : (0xFFF#32 : Word) = ones 32 12 := by decide
  rw [qarAdcResultValue, hones, and_ones]
  apply BitVec.eq_of_getLsbD_eq
  intro i hi
  simp only [BitVec.getLsbD_append, BitVec.getLsbD_setWidth, BitVec.getLsbD_extractLsb', Nat.zero_add]
  by_cases h : i < 12
  · simp only [hi, h, decide_true, Bool.true_and, if_true]
  · rw [BitVec.getLsbD_of_ge x i (by omega)]
    simp only [h, decide_false, Bool.false_and, Bool.and_false]

/-! ## Functions on the chip -/

-- In a cycle without an access, and in one that reads STATUS, the ADC is left to itself.
theorem undisturbed_none : Adc.Undisturbed (adcSees none o).bus := by
  rw [adcSees_none]
  exact ⟨rfl, rfl⟩

theorem undisturbed_status : Adc.Undisturbed (adcSees (some (.load (qarAdc0Base + qarAdcStatus))) o).bus := by
  rw [adcSees_load rfl]
  exact ⟨rfl, rfl⟩

-- The word that starts a conversion of `channel`.
theorem startSingle_bits (channel : Word) : (startSingle channel).getLsbD 0 ∧
    (startSingle channel).getLsbD 1 = false ∧ (startSingle channel).getLsbD 2 ∧
      (startSingle channel).extractLsb' 4 2 = channel.setWidth 2 := by
  refine ⟨?_, ?_, ?_, ?_⟩
  · simp [startSingle, qarAdcCtrlEnable, qarAdcCtrlStart, qarAdcCtrlChannelShift]
  · simp [startSingle, qarAdcCtrlEnable, qarAdcCtrlStart, qarAdcCtrlChannelShift]
  · simp [startSingle, qarAdcCtrlEnable, qarAdcCtrlStart, qarAdcCtrlChannelShift]
  · apply BitVec.eq_of_getLsbD_eq
    intro i hi
    have hpos : i = 0 ∨ i = 1 := by omega
    rcases hpos with rfl | rfl
    all_goals simp [startSingle, qarAdcCtrlEnable, qarAdcCtrlStart, qarAdcCtrlChannelShift]

theorem adc_startSingle {channel : Word} (h : v.adc0.AtRest) :
    Adc.Asked (channel.setWidth 2)
      (chip.step v (some (.store (qarAdc0Base + qarAdcCtrl) (startSingle channel))) o).adc0 := by
  obtain ⟨hen, hcont, hstart, hch⟩ := startSingle_bits channel
  rw [chip_adc, ← hch]
  exact h.asks (adcSees_store rfl) hen hcont hstart

theorem adc_read {c : BitVec 2} {R : Sample → Prop} (h : Adc.Ready c R v.adc0) :
    (chip.step v (some (.load (qarAdc0Base + qarAdcResult))) o).adc0.AtRest :=
  h.taken (adcSees_load rfl)

theorem adc_polls {c : BitVec 2} : Polls chip (SamplesIn S) (fun v ↦ Adc.Single c (S c) v.adc0)
    (.load (qarAdc0Base + qarAdcStatus)) (fun s ↦ s &&& qarAdcStatusReady != 0#32)
    (fun v ↦ v.adc0.dataValid) (fun v ↦ v.adc0.singleRank) where
  answer _ _ _ _ := by rw [adc_ready]
  idle _ _ ho h := h.next undisturbed_none (ho _)
  keeps _ _ ho h hv := (((h.ready_of_valid hv).next undisturbed_none).valid)
  idleFalls _ _ ho h hv := h.falls hv undisturbed_none (ho _)
  miss _ _ ho h _ := h.next undisturbed_status (ho _)
  missFalls _ _ ho h hv := h.falls hv undisturbed_status (ho _)

/-- A result belongs to the channel that was asked for, and is one of the samples its input had. -/
def ResultOf (S : BitVec 2 → Sample → Prop) (channel result : Word) : Prop :=
  qarAdcResultChannel result = channel &&& 0x3#32 ∧
    ∃ x : Sample, S (channel.setWidth 2) x ∧ qarAdcResultValue result = x.setWidth 32

theorem adcSingle_ends (channel : Word) : Ends chip (SamplesIn S) (fun v ↦ v.adc0.AtRest) (adcSingle channel)
    fun r v ↦ ResultOf S channel r ∧ v.adc0.AtRest := by
  refine Ends.bind (Q := fun _ v ↦ Adc.Single (channel.setWidth 2) (S (channel.setWidth 2)) v.adc0) ?_ fun _ ↦ ?_
  · refine Ends.access (M := fun _ v ↦ Adc.Single (channel.setWidth 2) (S (channel.setWidth 2)) v.adc0)
      (fun _ _ _ h ↦ h.next undisturbed_none) (fun _ _ _ h ↦ .asked (adc_startSingle h))
      (fun _ _ _ ho h ↦ h.next undisturbed_none (ho _)) fun _ ↦ Ends.done fun _ h ↦ h
  · change Ends chip (SamplesIn S) _ (.poll _ _ fun _ ↦ .act _ .done) _
    refine adc_polls.ends (M := fun _ v ↦ Adc.Ready (channel.setWidth 2) (S (channel.setWidth 2)) v.adc0)
      (N := fun _ v ↦ Adc.Ready (channel.setWidth 2) (S (channel.setWidth 2)) v.adc0)
      (fun _ _ _ h hv ↦ (h.ready_of_valid hv).next undisturbed_status)
      (fun _ _ _ _ h ↦ h.next undisturbed_none) fun _ ↦ ?_
    refine Ends.access (M := fun r v ↦ ResultOf S channel r ∧ v.adc0.AtRest)
      (fun _ _ _ h ↦ h.next undisturbed_none) (fun v o _ h ↦ ⟨?_, adc_read h⟩)
      (fun _ _ _ _ h ↦ ⟨h.1, h.2.next undisturbed_none⟩) fun _ ↦ Ends.done fun _ h ↦ h
    rw [adc_result]
    refine ⟨?_, v.adc0.resultValue, h.sample, resultValue_eq _ _⟩
    have hones : (0x3#32 : Word) = ones 32 2 := by decide
    rw [resultChannel_eq, h.channel, hones, and_ones, ← BitVec.setWidth_eq_extractLsb' (by decide)]

/-- Single conversions of any channels one after the other, however the accesses are spaced: every one of them
ends, and its result belongs to its channel and is a sample that the input of that channel had. -/
theorem adc_singles_answer (channels : List Word) : Ends chip (SamplesIn S) (fun v ↦ v.adc0.AtRest)
    (Driver.collect adcSingle channels)
    fun results v ↦ List.Forall₂ (ResultOf S) channels results ∧ v.adc0.AtRest :=
  Ends.collect channels fun channel _ ↦ adcSingle_ends channel

/-- A turn in every third cycle, with a sample of its own on every channel. -/
def fourSamples (t : Nat) : Bool × Outside :=
  (t % 3 == 0, ⟨⟨0, true, true, true, 100, 101, 102, 103⟩, 0⟩)

theorem fourSamples_fair : Clocked.Fair (SamplesIn fun ch x ↦ x = 100#12 + ch.setWidth 12) fourSamples where
  turns t := ⟨3 * t, by omega, by simp [fourSamples]⟩
  env t := by
    change ∀ ch : BitVec 2, Adc.channelValue ⟨_, 100, 101, 102, 103⟩ ch = 100#12 + ch.setWidth 12
    decide

theorem adc_singles_answer_reset : ∃ n results,
    (Clocked.run (Clocked.Firmware.step chip)
      ⟨Devices.reset .zeros fun _ ↦ ⟨0, 0, 0, 0⟩, Driver.collect adcSingle [2#32, 1#32], false⟩
      fourSamples n).driver = .done results ∧
    List.Forall₂ (ResultOf fun ch x ↦ x = 100#12 + ch.setWidth 12) [2#32, 1#32] results := by
  obtain ⟨n, results, hdone, hr, -⟩ := (adc_singles_answer [2#32, 1#32]).reaches fourSamples_fair
    (s := Devices.reset .zeros fun _ ↦ ⟨0, 0, 0, 0⟩) ⟨rfl, rfl, rfl, rfl⟩
  exact ⟨n, results, hdone, hr⟩

end Hal

end QarCore
