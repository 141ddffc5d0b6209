import QarCore.Core.PipelineIsa
import QarCore.DevKit.Encoding

/-!
# Addresses in two instructions

`%hi` and `%lo` of a label, and what LUI and ADDI make of them: in the assembler, on the machine that
executes one instruction after the other, and in the pipeline.
-/

namespace QarCore

namespace Assembler

open GoText (Text trimSpace)
open Rv32i (Instr decode encode)

/-! ## The two parts -/

/-- The value of `%hi` for a label at `a`. -/
def hiPart (a : Word) : Word := (a + 0x800#32) >>> 12

/-- The value of `%lo` for a label at `a`. -/
def loPart (a : Word) : Word :=
  let lo := a &&& 0xFFF#32
  if 0x800 ≤ lo.toInt then lo - 0x1000#32 else lo

theorem low_bits (a : Word) : (a &&& 0xFFF#32).toNat = a.toNat % 4096 := by
  rw [BitVec.toNat_and]
  exact Nat.and_two_pow_sub_one_eq_mod a.toNat 12

theorem toNat_hiPart (a : Word) : (hiPart a).toNat = (a.toNat + 2048) % 2 ^ 32 / 4096 := by
  rw [hiPart, BitVec.toNat_ushiftRight, BitVec.toNat_add, Nat.shiftRight_eq_div_pow]
  rfl

theorem toNat_loPart (a : Word) : (loPart a).toNat =
    if a.toNat % 4096 < 2048 then a.toNat % 4096 else 2 ^ 32 - 4096 + a.toNat % 4096 := by
  have hlow := low_bits a
  have hint : (a &&& 0xFFF#32).toInt = (a &&& 0xFFF#32).toNat :=
    BitVec.toInt_eq_toNat_of_lt (by omega)
  unfold loPart
  by_cases h : a.toNat % 4096 < 2048
  · rw [if_neg (by omega), if_pos h, hlow]
  · rw [if_pos (by omega), if_neg h, BitVec.toNat_sub, hlow]
    show (2 ^ 32 - 4096 + a.toNat % 4096) % 2 ^ 32 = _
    omega

-- The rounding of the upper part makes up for the sign of the lower one, also where the sum wraps.
theorem hiPart_add_loPart (a : Word) : hiPart a <<< 12 + loPart a = a := by
  have hhi := toNat_hiPart a
  have hlo := toNat_loPart a
  have ha := a.isLt
  apply BitVec.eq_of_toNat_eq
  rw [BitVec.toNat_add, BitVec.toNat_shiftLeft, hhi, hlo, Nat.shiftLeft_eq]
  split <;> omega

theorem hiPart_range (a : Word) : ¬ ((hiPart a).toInt < 0 ∨ 2 ^ 20 ≤ (hiPart a).toInt) := by
  have hhi := toNat_hiPart a
  have hint : (hiPart a).toInt = (hiPart a).toNat := BitVec.toInt_eq_toNat_of_lt (by omega)
  omega

theorem loPart_range (a : Word) : ¬ ((loPart a).toInt < -2048 ∨ 2047 < (loPart a).toInt) := by
  have hlo := toNat_loPart a
  rw [BitVec.toInt_eq_toNat_cond]
  split at hlo <;> split <;> omega

/-! ## Operands -/

variable {t : Tables} {labels : Text → Option Word} {L : Text → Option Word} {name r : Text} {a w : Word}
  {n : Nat}

def hiToken (name : Text) : Text := "%hi(".toList ++ (name ++ [')'])

def loToken (name : Text) : Text := "%lo(".toList ++ (name ++ [')'])

theorem trimSpace_hiToken (name : Text) : trimSpace (hiToken name) = hiToken name :=
  GoText.trimSpace_eq ("hi(".toList ++ name) (by decide) (by decide)

theorem trimSpace_loToken (name : Text) : trimSpace (loToken name) = loToken name :=
  GoText.trimSpace_eq ("lo(".toList ++ name) (by decide) (by decide)

-- Both tokens name the label between their parentheses.
theorem parseLabelImmediate_hi (ht : t.labelTable = some L) (hL : L (trimSpace name) = some a) :
    parseLabelImmediate t (hiToken name) = some (.ok (hiPart a)) := by
  have hpre : "%hi(".toList.isPrefixOf (hiToken name) := by simp [hiToken]
  have hsuf : ")".toList.isSuffixOf (hiToken name) := by
    rw [List.isSuffixOf_iff_suffix]
    exact ⟨"%hi(".toList ++ name, List.append_assoc _ _ _⟩
  have hname : ((hiToken name).drop 4).dropLast = name := List.dropLast_concat
  unfold parseLabelImmediate
  rw [ht]
  simp only [trimSpace_hiToken, hpre, hsuf, hname, hL, and_self, if_true]
  rfl

theorem parseLabelImmediate_lo (ht : t.labelTable = some L) (hL : L (trimSpace name) = some a) :
    parseLabelImmediate t (loToken name) = some (.ok (loPart a)) := by
  have hno : ¬ "%hi(".toList.isPrefixOf (loToken name) := by simp [loToken]
  have hpre : "%lo(".toList.isPrefixOf (loToken name) := by simp [loToken]
  have hsuf : ")".toList.isSuffixOf (loToken name) := by
    rw [List.isSuffixOf_iff_suffix]
    exact ⟨"%lo(".toList ++ name, List.append_assoc _ _ _⟩
  have hname : ((loToken name).drop 4).dropLast = name := List.dropLast_concat
  unfold parseLabelImmediate
  rw [ht]
  simp only [trimSpace_loToken, hpre, hsuf, hname, hL, and_self, if_true]
  rw [if_neg fun h ↦ hno h.1]
  rfl

-- An operand that no macro shadows.
theorem parseImmediate_label {token : Text} {v : Word} (htrim : trimSpace token = token)
    (hne : token ≠ []) (hm : lookupMacro t token = none)
    (hp : parseLabelImmediate t token = some (.ok v)) : parseImmediate t token = .ok v := by
  simp only [parseImmediate, htrim, if_neg hne, hm, hp]

/-! ## Instructions -/

def luiLine (r imm : Text) (line : Nat) (pc : Word) : AsmLine := ⟨"LUI".toList, [r, imm], line, pc⟩

def addiSelf (r imm : Text) (line : Nat) (pc : Word) : AsmLine := ⟨"ADDI".toList, [r, r, imm], line, pc⟩

theorem encode_lui {imm : Text} {v : Word} (hr : parseRegister t r = .ok n)
    (hi : parseImmediate t imm = .ok v) (hv : ¬ (v.toInt < 0 ∨ 2 ^ 20 ≤ v.toInt))
    (labels : Text → Option Word) (line : Nat) (pc : Word) :
    encodeInstruction t labels (luiLine r imm line pc) =
      .ok (encode (.lui (reg n) (v.extractLsb' 0 20))) := by
  have hn := (parseRegister_ok hr).1
  have hu : encodeUType n v 0x37#32 = .ok (v <<< 12 ||| uint32 n <<< 7 ||| 0x37#32) := if_neg hv
  have hw := (@encodeUType_ok _ _ _ 0b0110111#7 hn hu).1
  have hm : mnemonicOf "LUI".toList = some .lui := by decide
  simp only [encodeInstruction, luiLine, hm, encodeUpper, hr, hi]
  show atLine line (encodeUType n v 0x37#32) = _
  rw [hu, hw]
  rfl

theorem encode_addiSelf {imm : Text} {v : Word} (hr : parseRegister t r = .ok n)
    (hi : parseImmediate t imm = .ok v) (hv : ¬ (v.toInt < -2048 ∨ 2047 < v.toInt))
    (labels : Text → Option Word) (line : Nat) (pc : Word) :
    encodeInstruction t labels (addiSelf r imm line pc) =
      .ok (encode (.addi (reg n) (reg n) (v.extractLsb' 0 12))) := by
  have hn := (parseRegister_ok hr).1
  have hu : encodeI n n v 0b000#32 0x13#32 = .ok (uimm12 v <<< 20 ||| uint32 n <<< 15 |||
    0b000#32 <<< 12 ||| uint32 n <<< 7 ||| 0x13#32) := if_neg hv
  have hw := (encodeI_ok 0b000#3 0b0010011#7 hn hn hu).1
  have hm : mnemonicOf "ADDI".toList = some .addi := by decide
  simp only [encodeInstruction, addiSelf, hm, parseRRI, hr, hi]
  show atLine line (encodeI n n v 0b000#32 0x13#32) = _
  rw [hu, hw]
  rfl

/-! ## Execution -/

section Execution

universe u

variable {M : Type u} {imem : Word → Word} {d : DataMem M} {v : Volatile} {m : Arch M}

-- The destination register after an instruction that only computes.
theorem step_rd {instr : Instr} (h : decode (imem m.pc) = some instr)
    (hacc : ((m.exIn imem v).effect instr).access = none) {w : Word}
    (hw : ((m.exIn imem v).effect instr).result = some w) (hrd : instr.rd ≠ 0#5) :
    (m.step imem d (.exec v)).regs instr.rd = w := by
  have hout := actionOf_rfOut (x := m.exIn imem v) h hacc d m.mem
  rw [hw, if_neg hrd] at hout
  show (m.exec d (imem m.pc) (m.action imem v)).regs instr.rd = w
  rw [Arch.exec_regs, action_eq_actionOf h]
  show ((actionOf (m.exIn imem v) instr).rfOut d m.mem (m.exIn imem v).instr).elim m.regs _ instr.rd = w
  rw [hout]
  exact if_pos rfl

theorem step_lui {rd : RegIdx} {imm : BitVec 20} (h : imem m.pc = encode (.lui rd imm)) (hrd : rd ≠ 0#5) :
    (m.step imem d (.exec v)).regs rd = imm ++ 0#12 := by
  have hdec : decode (imem m.pc) = some (.lui rd imm) := by rw [h, Rv32i.decode_encode]
  exact step_rd hdec rfl rfl hrd

theorem step_addi {rd : RegIdx} {imm : BitVec 12} (h : imem m.pc = encode (.addi rd rd imm))
    (hrd : rd ≠ 0#5) : (m.step imem d (.exec v)).regs rd = m.regs rd + imm.signExtend 32 := by
  have hdec : decode (imem m.pc) = some (.addi rd rd imm) := by rw [h, Rv32i.decode_encode]
  have hrs1 : QarCore.rs1 (imem m.pc) = rd := by
    have hfields := fields_encode (.addi rd rd imm)
    rw [h]
    exact hfields.2.1
  have hval : regRead m.regs (QarCore.rs1 (imem m.pc)) = m.regs rd := by
    rw [hrs1, regRead, if_neg hrd]
  apply step_rd hdec rfl _ hrd
  show some (regRead m.regs (QarCore.rs1 (imem m.pc)) + imm.signExtend 32) = _
  rw [hval]

theorem step_lui_pc {rd : RegIdx} {imm : BitVec 20} (h : imem m.pc = encode (.lui rd imm)) :
    (m.step imem d (.exec v)).pc = m.pc + 4#32 := by
  have hdec : decode (imem m.pc) = some (.lui rd imm) := by rw [h, Rv32i.decode_encode]
  show (m.action imem v).nextPc m.pc m.csr.mtvec = _
  rw [action_eq_actionOf hdec]
  rfl

/-! ## Runs of the core -/

-- Only an instruction that leaves changes a register.
theorem foldl_regs {es : List Event} (h : Clocked.emitted (Arch.step imem d) (Arch.left imem) m es = []) :
    (es.foldl (Arch.step imem d) m).regs = m.regs := by
  induction es generalizing m with
  | nil => rfl
  | cons e es ih =>
    cases e with
    | exec v => cases h
    | irq cause => exact ih (m := m.interrupt cause) h

-- The next instruction that leaves, with the registers that it finds.
theorem first_left {es : List Event} {p w : Word} {os : List (Word × Word)}
    (h : Clocked.emitted (Arch.step imem d) (Arch.left imem) m es = (p, w) :: os) :
    ∃ (m' : Arch M) (v : Volatile) (es' : List Event), m'.regs = m.regs ∧ imem m'.pc = w ∧
      es.foldl (Arch.step imem d) m = es'.foldl (Arch.step imem d) (m'.step imem d (.exec v)) ∧
      Clocked.emitted (Arch.step imem d) (Arch.left imem) (m'.step imem d (.exec v)) es' = os := by
  obtain ⟨es₁, e, es₂, rfl, hquiet, hout, hrest⟩ := Clocked.emitted_eq_cons h
  cases e with
  | irq cause => cases hout
  | exec v =>
    cases hout
    exact ⟨es₁.foldl (Arch.step imem d) m, v, es₂, foldl_regs hquiet, rfl, List.foldl_append, hrest⟩

/-- The words `w₁` and `w₂`, executed one after the other, leave `x` in the register `r`. -/
structure LoadsWord (w₁ w₂ : Word) (r : RegIdx) (x : Word) : Prop where
  /-- On the machine that executes one instruction after the other. -/
  machine : ∀ (M : Type) (imem : Word → Word) (d : DataMem M) (m : Arch M) (v v' : Volatile),
    imem m.pc = w₁ → imem (m.pc + 4#32) = w₂ →
    ((m.step imem d (.exec v)).step imem d (.exec v')).regs r = x
  /-- In the pipeline, after the cycles in which these two leave EX and no other instruction does. -/
  core : ∀ (M : Type) (cfg : Config) (imem : Word → Word) (d : DataMem M) (regs : RegIdx → Word) (m : M)
    (env : Nat → Inputs) (t t' : Nat) (p : Word),
    (cfg.icacheEnabled → Front.WordFits (HoldsWord imem)) → t ≤ t' →
    CleanUntil cfg imem d regs m env t' →
    Board.shown leftObs cfg imem d regs m env t' =
      Board.shown leftObs cfg imem d regs m env t ++ [(p, w₁), (p + 4#32, w₂)] →
    (Board.run cfg imem d regs m env t').core.regs r = x

theorem loadsWord {rd : RegIdx} (hi : BitVec 20) (lo : BitVec 12) (hrd : rd ≠ 0#5) :
    LoadsWord (encode (.lui rd hi)) (encode (.addi rd rd lo)) rd (hi ++ 0#12 + lo.signExtend 32) := by
  constructor
  · intro M imem d m v v' h₁ h₂
    rw [← step_lui_pc (d := d) (v := v) h₁] at h₂
    rw [step_addi h₂ hrd, step_lui h₁ hrd]
  · intro M cfg imem d regs m env t t' p hw htt hc hleft
    have hprefix := Clocked.trace_mono (fun u ↦ eventOf (Board.run cfg imem d regs m env u).core
      ((Board.run cfg imem d regs m env u).pins imem d (env u))) htt
    obtain ⟨es, hes⟩ := hprefix
    have hevents : events cfg imem d regs m env t ++ es = events cfg imem d regs m env t' := hes
    have hshown (u : Nat) (hu : u ≤ t') : Board.shown leftObs cfg imem d regs m env u =
        Clocked.emitted (Arch.step imem d) (Arch.left imem) (Arch.reset regs m)
          (events cfg imem d regs m env u) :=
      shown_run (Arch.left imem) (fun _ _ _ hs _ ↦ hs.left_shown) hw fun x hx ↦ hc x (by omega)
    rw [hshown t' (Nat.le_refl t'), hshown t htt, ← hevents, Clocked.emitted_append] at hleft
    have hsteps := List.append_cancel_left hleft
    obtain ⟨m₁, v, es₁, hregs₁, himem₁, hfold₁, hrest⟩ := first_left hsteps
    obtain ⟨m₂, v', es₂, hregs₂, himem₂, hfold₂, hquiet⟩ := first_left hrest
    have hsim := (sim_run hw hc).regs
    rw [hsim, archAt, ← hevents, List.foldl_append, hfold₁, hfold₂, foldl_regs hquiet,
      step_addi himem₂ hrd, hregs₂, step_lui himem₁ hrd]

end Execution

/-! ## A label address -/

theorem upper_imm (v : Word) : v.extractLsb' 0 20 ++ 0#12 = v <<< 12 := by
  apply BitVec.eq_of_toNat_eq
  rw [BitVec.toNat_append, BitVec.extractLsb'_toNat, BitVec.toNat_shiftLeft, Nat.shiftRight_zero,
    Nat.shiftLeft_eq, Nat.shiftLeft_eq]
  show v.toNat % 2 ^ 20 * 2 ^ 12 ||| 0 = _
  rw [Nat.or_zero]
  omega

/-- `%hi` and `%lo` of a label are accepted by LUI and by ADDI, and the two instructions together put
the address of the label into their register, unless it is `x0` or a macro has the name of an operand. -/
theorem label_reconstructed (ht : t.labelTable = some L) (hL : L (trimSpace name) = some a)
    (hr : parseRegister t r = .ok n) (hx0 : n ≠ 0) (hhi : lookupMacro t (hiToken name) = none)
    (hlo : lookupMacro t (loToken name) = none) (line line' : Nat) (pc pc' : Word) :
    ∃ hi lo w₁ w₂, parseImmediate t (hiToken name) = .ok hi ∧ parseImmediate t (loToken name) = .ok lo ∧
      encodeInstruction t labels (luiLine r (hiToken name) line pc) = .ok w₁ ∧
      encodeInstruction t labels (addiSelf r (loToken name) line' pc') = .ok w₂ ∧
      LoadsWord w₁ w₂ (reg n) a := by
  have himm := parseImmediate_label (trimSpace_hiToken name) (by simp [hiToken]) hhi
    (parseLabelImmediate_hi ht hL)
  have limm := parseImmediate_label (trimSpace_loToken name) (by simp [loToken]) hlo
    (parseLabelImmediate_lo ht hL)
  have hlui := encode_lui hr himm (hiPart_range a) labels line pc
  have hrange := loPart_range a
  have haddi := encode_addiSelf hr limm hrange labels line' pc'
  have hn := (parseRegister_ok hr).1
  have hreg : reg n ≠ 0#5 := by
    intro h0
    have hnat := congrArg BitVec.toNat h0
    rw [reg, BitVec.toNat_ofNat, Nat.mod_eq_of_lt hn] at hnat
    exact hx0 hnat
  refine ⟨_, _, _, _, himm, limm, hlui, haddi, ?_⟩
  have hvalue : (hiPart a).extractLsb' 0 20 ++ 0#12 + ((loPart a).extractLsb' 0 12).signExtend 32 = a := by
    rw [upper_imm, BitFields.signExtend_extractLsb' (loPart a) (k := 11) (by decide) (by omega)
      (by omega), hiPart_add_loPart]
  have hload := loadsWord ((hiPart a).extractLsb' 0 20) ((loPart a).extractLsb' 0 12) hreg
  rwa [hvalue] at hload

/-- A table with the label `x`, next to the macros of a source. -/
def labelX (macros : Text → Option Word) (addr : Word) : Tables where
  cases := plainTables.cases
  macroTable := macros
  labelTable := some fun name ↦ if name = ['x'] then some addr else none

def noMacro : Text → Option Word := fun _ ↦ none

/-- The last address: both the rounding and the sum of the parts wrap. -/
theorem label_reconstructed_last : ∃ hi lo w₁ w₂,
    parseImmediate (labelX noMacro 0xFFFFFFFF#32) (hiToken ['x']) = .ok hi ∧
      parseImmediate (labelX noMacro 0xFFFFFFFF#32) (loToken ['x']) = .ok lo ∧
      encodeInstruction (labelX noMacro 0xFFFFFFFF#32) noMacro
        (luiLine "t0".toList (hiToken ['x']) 1 0) = .ok w₁ ∧
      encodeInstruction (labelX noMacro 0xFFFFFFFF#32) noMacro
        (addiSelf "t0".toList (loToken ['x']) 2 4) = .ok w₂ ∧
      LoadsWord w₁ w₂ 5#5 0xFFFFFFFF#32 :=
  label_reconstructed (n := 5) rfl rfl (by decide) (by decide) rfl rfl 1 2 0 4

/-- What a source with `.equ %hi(x), 5` defines. -/
def shadowMacro : Text → Option Word := fun token ↦ if token = "%HI(X)".toList then some 5 else none

/-- Two words at 0 and 4. -/
def twoWords (w₁ w₂ : Word) (p : Word) : Word := if p = 0#32 then w₁ else w₂

/-- A memory that holds nothing. -/
def noMem : DataMem Unit := ⟨fun _ _ ↦ 0, fun _ _ _ ↦ ()⟩

/-- With `x0` as the register, and with a macro of the name of the operand, the address of the label is
not what the register holds. -/
theorem label_not_reconstructed :
    (encodeInstruction (labelX noMacro 4#32) noMacro (luiLine "zero".toList (hiToken ['x']) 1 0) =
        .ok 0x00000037#32 ∧
      encodeInstruction (labelX noMacro 4#32) noMacro (addiSelf "zero".toList (loToken ['x']) 2 4) =
        .ok 0x00400013#32 ∧ ¬ LoadsWord 0x00000037#32 0x00400013#32 0#5 4#32) ∧
    (encodeInstruction (labelX shadowMacro 4#32) noMacro (luiLine "t0".toList (hiToken ['x']) 1 0) =
        .ok 0x000052B7#32 ∧
      encodeInstruction (labelX shadowMacro 4#32) noMacro (addiSelf "t0".toList (loToken ['x']) 2 4) =
        .ok 0x00428293#32 ∧ ¬ LoadsWord 0x000052B7#32 0x00428293#32 5#5 4#32) := by
  refine ⟨⟨by decide, by decide, ?_⟩, by decide, by decide, ?_⟩
  · intro h
    have hreg := h.machine Unit (twoWords 0x00000037#32 0x00400013#32) noMem
      (Arch.reset (fun _ ↦ 0) ()) noVolatile noVolatile rfl rfl
    exact absurd hreg (by decide)
  · intro h
    have hreg := h.machine Unit (twoWords 0x000052B7#32 0x00428293#32) noMem
      (Arch.reset (fun _ ↦ 0) ()) noVolatile noVolatile rfl rfl
    exact absurd hreg (by decide)

end Assembler

end QarCore
