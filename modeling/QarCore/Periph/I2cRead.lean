import QarCore.Periph.I2cPins

/-!
# Bytes from the I2C bus

What a READ command samples and what it stores.  The eighth bit and the byte are assigned on the same
clock edge, so the byte is stored with the shift register's old bit 0.
-/

namespace QarCore

open Clocked (Ring trace)

namespace I2c

variable {s s' : I2c} {i : Inputs} {b b' : Byte} {bs : List Bool}

/-- SCL falls: the end of a high phase. -/
def falls (e e' : Engine) : Bool := e.sclState && !e'.sclState

/-- The level of SDA as the master receives it. -/
def lineBit (s : I2c) (sdaIn : Bool) : Bool := if s.ctrlLoopback then s.sdaState else sdaIn

def msbFirst (b : Byte) : List Bool := (List.range 8).map fun j ↦ b.getLsbD (7 - j)

/-- A byte goes into the RX FIFO, or is reported as the one that did not fit. -/
def Stores (s s' : I2c) (b : Byte) : Prop :=
  if s.rxFifo.wideFull then s'.rxOverflowFlag = true ∧ s'.lastFaultByte = b
  else s'.rxFifo.head = s.rxFifo.head + 1 ∧ s'.rxFifo.mem (Ring.slotOf s.rxFifo.head) = b

/-- Where the engine is in a READ that found `b` in the shift register, after the high phases that
gave the bits `bs`. -/
structure Engine.Reads (e : Engine) (b : Byte) (bs : List Bool) : Prop where
  state : e.state = .read
  bitIndex : e.bitIndex.toNat + bs.length = 7
  shiftReg : ∀ j < 8, e.shiftReg.getLsbD (7 - j) = bs.getD j (b.getLsbD (7 - j))

/-! ## One cycle -/

theorem reads_start (h : s.accepted = some .read) : s.nextIdle.Reads s.shiftReg [] := by
  unfold nextIdle
  rw [h]
  exact ⟨rfl, rfl, fun j _ ↦ rfl⟩

theorem storesRxByte_iff : s.storesRxByte ↔
    s.state = .read ∧ s.divDone ∧ s.sclState ∧ s.bitIndex = 0#4 := by
  simp [storesRxByte, and_assoc]

-- One cycle of a READ that goes on.
theorem Engine.Reads.next (h : s.engine.Reads b bs) (hno : ¬ s.storesRxByte) (sdaIn : Bool) :
    (s.nextEngine sdaIn).Reads b
      (bs ++ if falls s.engine (s.nextEngine sdaIn) then [lineBit s sdaIn] else []) := by
  have hst : s.state = .read := h.state
  have hbit : s.bitIndex.toNat + bs.length = 7 := h.bitIndex
  have hshift : ∀ j < 8, s.shiftReg.getLsbD (7 - j) = bs.getD j (b.getLsbD (7 - j)) := h.shiftReg
  rw [nextEngine, if_neg (by rw [hst]; decide)]
  by_cases hd : s.divDone
  · rw [if_pos hd]
    by_cases hc : s.sclState
    · have hb : s.bitIndex ≠ 0#4 := fun hb ↦ hno (storesRxByte_iff.mpr ⟨hst, hd, hc, hb⟩)
      obtain ⟨hdec, hpos⟩ := bitIndex_sub hb
      have hnext : s.nextTick sdaIn =
          { s.engine with divCounter := 0, sclState := false, bitIndex := s.bitIndex - 1
                          shiftReg := setBit s.shiftReg s.bitIndex.toNat (lineBit s sdaIn) } := by
        simp [nextTick, hst, hc, hb, lineBit, engine]
      have hfall : falls s.engine (s.nextTick sdaIn) = true := by
        rw [hnext]
        simp [falls, engine, hc]
      rw [hfall, if_pos rfl, hnext]
      refine ⟨hst, ?_, ?_⟩
      · show (s.bitIndex - 1).toNat + (bs ++ [_]).length = 7
        rw [hdec, List.length_append, List.length_singleton]
        omega
      · intro j hj
        show (setBit s.shiftReg s.bitIndex.toNat _).getLsbD (7 - j) = _
        rw [getLsbD_setBit _ _ _ _ (by omega), hshift j hj]
        by_cases hlast : j = bs.length
        · rw [if_pos (by omega), hlast, List.getD_append_right _ _ _ _ (Nat.le_refl _), Nat.sub_self]
          rfl
        · rw [if_neg (by omega)]
          by_cases hold : j < bs.length
          · rw [List.getD_append _ _ _ _ hold]
          · -- a bit that has not been received yet
            rw [List.getD_eq_default _ _ (by omega), List.getD_eq_default]
            rw [List.length_append, List.length_singleton]
            omega
    · have hnext : s.nextTick sdaIn = { s.engine with divCounter := 0, sclState := true } := by
        simp [nextTick, hst, hc]
      have hfall : falls s.engine (s.nextTick sdaIn) = false := by
        rw [hnext]
        simp [falls]
      rw [hfall, if_neg Bool.false_ne_true, List.append_nil, hnext]
      exact ⟨h.state, h.bitIndex, h.shiftReg⟩
  · have hfall : falls s.engine { s.engine with divCounter := s.divCounter + 1 } = false := by
      simp [falls]
    rw [if_neg hd, hfall, if_neg Bool.false_ne_true, List.append_nil]
    exact ⟨h.state, h.bitIndex, h.shiftReg⟩

-- The edge that stores the byte is the end of the eighth high phase.
theorem Engine.Reads.last (h : s.engine.Reads b bs) (hs : s.storesRxByte) (sdaIn : Bool) :
    falls s.engine (s.nextEngine sdaIn) ∧ bs.length = 7 := by
  obtain ⟨hst, hd, hc, hb⟩ := storesRxByte_iff.mp hs
  have hbit : s.bitIndex.toNat + bs.length = 7 := h.bitIndex
  constructor
  · rw [nextEngine, if_neg (by rw [hst]; decide), if_pos hd]
    simp [falls, nextTick, hst, hc, hb, engine]
  · rw [hb] at hbit
    simpa using hbit

-- What is stored is the shift register from before the edge.
theorem posedge_stores (hs : s.storesRxByte) : Stores s (posedge s i) s.shiftReg := by
  obtain ⟨hst, hd, hc, hb⟩ := storesRxByte_iff.mp hs
  unfold posedge stateCase Stores
  generalize busRead s i.bus (busWrite s i.bus s) = n
  simp only [hst, readState, hd, hc, hb, storeByte, ↓reduceIte]
  by_cases hw : s.rxFifo.wideFull
  · rw [if_pos hw]
    simp [hw]
  · rw [if_neg hw]
    simp [hw, Ring.pushAt]

theorem Stores.unique (h : Stores s s' b) (h' : Stores s s' b') : b = b' := by
  unfold Stores at h h'
  by_cases hw : s.rxFifo.wideFull
  · rw [if_pos hw] at h h'
    exact h.2.symm.trans h'.2
  · rw [if_neg hw] at h h'
    exact h.2.symm.trans h'.2

/-! ## A byte of a run -/

section

variable (txMem rxMem : BitVec 2 → Byte) (inp : Nat → Inputs)

/-- The READ accepted in cycle `k` stores its byte in cycle `u`. -/
def Completes (k u : Nat) : Prop :=
  k < u ∧ (after txMem rxMem inp u).storesRxByte ∧
    ∀ v, k < v → v < u → ¬ (after txMem rxMem inp v).storesRxByte

/-- The level of SDA when the high phases of SCL end, after cycle `k` and before cycle `u`. -/
def samples (k u : Nat) : List Bool :=
  trace (fun d ↦
    if falls (after txMem rxMem inp (k + 1 + d)).engine (after txMem rxMem inp (k + 1 + d + 1)).engine then
      some (lineBit (after txMem rxMem inp (k + 1 + d)) (inp (k + 1 + d)).sdaIn)
    else none) (u - (k + 1))

/-- What is expected of the READ accepted in cycle `k`: it ends, and the byte it stores then is made of
the bits sampled in its high phases, the highest first. -/
def ReadsByte (k : Nat) : Prop :=
  ∃ u byte, Completes txMem rxMem inp k u ∧
    Stores (after txMem rxMem inp u) (after txMem rxMem inp (u + 1)) byte ∧
    samples txMem rxMem inp k (u + 1) = msbFirst byte

end

variable {txMem rxMem : BitVec 2 → Byte} {inp : Nat → Inputs} {k u : Nat}

theorem Completes.unique {u' : Nat} (h : Completes txMem rxMem inp k u)
    (h' : Completes txMem rxMem inp k u') : u = u' := by
  rcases Nat.lt_trichotomy u u' with hlt | heq | hgt
  · exact absurd h.2.1 (h'.2.2 u h.1 hlt)
  · exact heq
  · exact absurd h'.2.1 (h.2.2 u' h'.1 hgt)

theorem samples_succ (hku : k < u) : samples txMem rxMem inp k (u + 1) =
    samples txMem rxMem inp k u ++
      if falls (after txMem rxMem inp u).engine (after txMem rxMem inp (u + 1)).engine then
        [lineBit (after txMem rxMem inp u) (inp u).sdaIn] else [] := by
  unfold samples
  rw [show u + 1 - (k + 1) = u - (k + 1) + 1 by omega, Clocked.trace_succ,
    show k + 1 + (u - (k + 1)) = u by omega]
  split <;> rfl

-- Until its byte is stored, a READ is where the high phases so far have brought it.
theorem reads_run (hk : (after txMem rxMem inp k).accepted = some .read) (hku : k < u)
    (hno : ∀ v, k < v → v < u → ¬ (after txMem rxMem inp v).storesRxByte) :
    (after txMem rxMem inp u).engine.Reads (after txMem rxMem inp k).shiftReg
      (samples txMem rxMem inp k u) := by
  induction u, hku using Nat.le_induction with
  | base =>
    have hnext : (after txMem rxMem inp (k + 1)).engine = (after txMem rxMem inp k).nextIdle := by
      rw [engine_succ, nextEngine, if_pos (idle_of_accepted hk)]
    have hnil : samples txMem rxMem inp k (k + 1) = [] := by
      rw [samples, Nat.sub_self]
      rfl
    show (after txMem rxMem inp (k + 1)).engine.Reads _ (samples txMem rxMem inp k (k + 1))
    rw [hnil, hnext]
    exact reads_start hk
  | succ u hu ih =>
    have hprev := ih fun v h1 h2 ↦ hno v h1 (by omega)
    have hstep := hprev.next (hno u hu (Nat.lt_succ_self u)) (inp u).sdaIn
    rw [← engine_succ, ← samples_succ hu] at hstep
    exact hstep

/-- The ends of half periods until the byte is stored, and the cycles to the first of them. -/
def Engine.readRank (e : Engine) : Nat :=
  (2 * e.bitIndex.toNat + if e.sclState then 1 else 2) * 2 ^ 16 + (2 ^ 16 - e.divCounter.toNat)

theorem readRank_lt (hst : s.state = .read) (hno : ¬ s.storesRxByte) (sdaIn : Bool) :
    (s.nextEngine sdaIn).readRank < s.engine.readRank := by
  have hdiv := s.divCounter.isLt
  rw [nextEngine, if_neg (by rw [hst]; decide)]
  by_cases hd : s.divDone
  · rw [if_pos hd]
    by_cases hc : s.sclState
    · have hb : s.bitIndex ≠ 0#4 := fun hb ↦ hno (storesRxByte_iff.mpr ⟨hst, hd, hc, hb⟩)
      obtain ⟨hdec, hpos⟩ := bitIndex_sub hb
      simp only [nextTick, hst, hc, hb, Engine.readRank, engine, hdec, ↓reduceIte, Bool.false_eq_true]
      show (2 * (s.bitIndex.toNat - 1) + 2) * 2 ^ 16 + (2 ^ 16 - 0) < _
      omega
    · simp only [nextTick, hst, hc, Engine.readRank, engine, ↓reduceIte, Bool.false_eq_true]
      show (2 * s.bitIndex.toNat + 1) * 2 ^ 16 + (2 ^ 16 - 0) < _
      omega
  · rw [if_neg hd]
    obtain ⟨hinc, hlt⟩ := divCounter_add hd
    simp only [Engine.readRank, engine]
    rw [show s.divCounter + 1 = s.divCounter + 1#16 from rfl, hinc]
    omega

-- Whatever CLKDIV is, a READ stores a byte.
theorem read_completes (hk : (after txMem rxMem inp k).accepted = some .read) :
    ∃ u, Completes txMem rxMem inp k u := by
  have hprogress (u : Nat)
      (hp : k < u ∧ ∀ v, k < v → v < u → ¬ (after txMem rxMem inp v).storesRxByte) :
      (after txMem rxMem inp u).storesRxByte ∨
        (k < u + 1 ∧ ∀ v, k < v → v < u + 1 → ¬ (after txMem rxMem inp v).storesRxByte) ∧
          (after txMem rxMem inp (u + 1)).engine.readRank < (after txMem rxMem inp u).engine.readRank := by
    by_cases hs : (after txMem rxMem inp u).storesRxByte
    · exact .inl hs
    · right
      refine ⟨⟨by omega, ?_⟩, ?_⟩
      · intro v h1 h2
        by_cases hv : v = u
        · rwa [hv]
        · exact hp.2 v h1 (by omega)
      · rw [engine_succ]
        exact readRank_lt (reads_run hk hp.1 hp.2).state hs _
  obtain ⟨u, hku, hstore, -, hbefore⟩ := Clocked.first_event_while
    (fun u ↦ (after txMem rxMem inp u).engine.readRank) hprogress
    (⟨Nat.lt_succ_self k, fun v h1 h2 ↦ by omega⟩)
  exact ⟨u, hku, hstore, (hbefore u hku (Nat.le_refl u)).2⟩

-- The bits of a READ are the shift register's, but for the last one.
theorem samples_eq_iff (hk : (after txMem rxMem inp k).accepted = some .read)
    (hu : Completes txMem rxMem inp k u) :
    samples txMem rxMem inp k (u + 1) = msbFirst (after txMem rxMem inp u).shiftReg ↔
      lineBit (after txMem rxMem inp u) (inp u).sdaIn = (after txMem rxMem inp k).shiftReg.getLsbD 0 := by
  obtain ⟨hku, hstore, hno⟩ := hu
  have hreads := reads_run hk hku hno
  obtain ⟨hfall, hlen⟩ := hreads.last hstore (inp u).sdaIn
  have hshift : ∀ j < 8, (after txMem rxMem inp u).shiftReg.getLsbD (7 - j) = _ := hreads.shiftReg
  have hseven : samples txMem rxMem inp k u =
      (List.range 7).map fun j ↦ (after txMem rxMem inp u).shiftReg.getLsbD (7 - j) := by
    apply List.ext_getElem
    · rw [hlen, List.length_map, List.length_range]
    · intro j h1 h2
      rw [List.getElem_map, List.getElem_range, hshift j (by omega), List.getD_eq_getElem _ _ h1]
  have hzero : (after txMem rxMem inp u).shiftReg.getLsbD 0 =
      (after txMem rxMem inp k).shiftReg.getLsbD 0 := by
    rw [show 0 = 7 - 7 from rfl, hshift 7 (by decide), List.getD_eq_default _ _ (by omega)]
  rw [samples_succ hku, engine_succ, hfall, if_pos rfl, hseven, msbFirst, List.range_succ (n := 7),
    List.map_append, List.map_singleton, List.append_cancel_left_eq, List.singleton_inj, Nat.sub_self,
    hzero]

/-- A byte is read as it should be exactly if its last bit is the one that the shift register held in
bit 0 when the READ was accepted. -/
theorem readsByte_iff (txMem rxMem : BitVec 2 → Byte) (inp : Nat → Inputs) (k : Nat)
    (hk : (after txMem rxMem inp k).accepted = some .read) : ReadsByte txMem rxMem inp k ↔
      ∃ u, Completes txMem rxMem inp k u ∧ lineBit (after txMem rxMem inp u) (inp u).sdaIn =
        (after txMem rxMem inp k).shiftReg.getLsbD 0 := by
  constructor
  · rintro ⟨u, byte, hu, hstores, hsamples⟩
    have hold : Stores (after txMem rxMem inp u) (after txMem rxMem inp (u + 1))
        (after txMem rxMem inp u).shiftReg := posedge_stores hu.2.1
    rw [hstores.unique hold, samples_eq_iff hk hu] at hsamples
    exact ⟨u, hu, hsamples⟩
  · rintro ⟨u, hu, hlast⟩
    exact ⟨u, _, hu, posedge_stores hu.2.1, (samples_eq_iff hk hu).mpr hlast⟩

/-- Firmware sets CLKDIV to 0 and writes CMD = READ; SDA reads as `sda` throughout. -/
def oneRead (sda : Bool) (t : Nat) : Inputs where
  bus :=
    if t = 0 then ⟨true, false, 0x1, 0⟩
    else if t = 1 then ⟨true, false, 0x7, 8⟩
    else ⟨false, false, 0, 0⟩
  sdaIn := sda

theorem oneRead_completes (sda : Bool) :
    Completes (fun _ ↦ 0) (fun _ ↦ 0) (oneRead sda) 2 18 := by
  have hno : ∀ v < 18, ¬ (after (fun _ ↦ 0) (fun _ ↦ 0) (oneRead sda) v).storesRxByte := by
    cases sda <;> decide +kernel
  refine ⟨by decide, ?_, fun v _ h ↦ hno v h⟩
  cases sda <;> decide +kernel

/-- The zeros of a line that is held low agree with the cleared shift register. -/
theorem oneRead_low : (after (fun _ ↦ 0) (fun _ ↦ 0) (oneRead false) 2).accepted = some .read ∧
    ReadsByte (fun _ ↦ 0) (fun _ ↦ 0) (oneRead false) 2 := by
  have hk : (after (fun _ ↦ 0) (fun _ ↦ 0) (oneRead false) 2).accepted = some .read := by
    decide +kernel
  exact ⟨hk, (readsByte_iff _ _ _ 2 hk).mpr ⟨18, oneRead_completes false, by decide +kernel⟩⟩

/-- Of eight ones the last is lost. -/
theorem oneRead_high : (after (fun _ ↦ 0) (fun _ ↦ 0) (oneRead true) 2).accepted = some .read ∧
    ¬ ReadsByte (fun _ ↦ 0) (fun _ ↦ 0) (oneRead true) 2 := by
  refine ⟨by decide +kernel, ?_⟩
  rintro ⟨u, byte, hu, hstores, hsamples⟩
  rw [hu.unique (oneRead_completes true)] at hstores hsamples
  -- the byte is 0xFE, the samples are ones
  have hbyte : byte = 0xFE := by
    have hold := posedge_stores (i := oneRead true 18) (oneRead_completes true).2.1
    exact (hstores.unique hold).trans (by decide +kernel)
  rw [hbyte] at hsamples
  exact absurd hsamples (by decide +kernel)

end I2c

end QarCore
