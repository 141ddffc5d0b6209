import QarCore.Core.Decode
import QarCore.Data.BitFields
import QarCore.DevKit.Assembler

/-!
# Encoded formats

The words that the format functions of the assembler put together are RV32I encodings, and the core
reads the operands back from them.
-/

namespace QarCore

namespace Assembler

open BitFields (ones)
open Rv32i (Instr OpFn Cond CsrFn encode)

variable {imm w : Word} {rd rs1 rs2 : Nat}

/-! ## What the core selects -/

/-- The fields of a word, as the decode stage extracts them, are the operands of the instruction. -/
def Fields (w : Word) : Instr → Prop
  | .addi d s imm => QarCore.rd w = d ∧ QarCore.rs1 w = s ∧ immI w = imm.signExtend 32
  | .op _ d s u => QarCore.rd w = d ∧ QarCore.rs1 w = s ∧ QarCore.rs2 w = u
  | .lui d imm => QarCore.rd w = d ∧ immU w = imm ++ 0#12
  | .auipc d imm => QarCore.rd w = d ∧ immU w = imm ++ 0#12
  | .lw d s imm => QarCore.rd w = d ∧ QarCore.rs1 w = s ∧ immI w = imm.signExtend 32
  | .sw s u imm => QarCore.rs1 w = s ∧ QarCore.rs2 w = u ∧ immS w = imm.signExtend 32
  | .branch _ s u imm => QarCore.rs1 w = s ∧ QarCore.rs2 w = u ∧ immB w = Rv32i.offset imm
  | .jal d imm => QarCore.rd w = d ∧ immJ w = Rv32i.offset imm
  | .jalr d s imm => QarCore.rd w = d ∧ QarCore.rs1 w = s ∧ immI w = imm.signExtend 32
  | .csr _ d s addr => QarCore.rd w = d ∧ QarCore.rs1 w = s ∧ funct12 w = addr
  | .ecall => True
  | .mret => True

/-- EX executes the arm of the instruction, with its operands. -/
def Selects (w : Word) (instr : Instr) : Prop :=
  Fields w instr ∧ ∀ x : ExIn, x.instr = w → x.action = actionOf x instr

theorem fields_encode (instr : Instr) : Fields (encode instr) instr := by
  generalize hw : encode instr = w
  cases instr with
  | addi d s imm =>
    obtain ⟨rfl, rfl, -, rfl, -⟩ := Rv32i.iType_eq.mp hw
    exact ⟨rfl, rfl, rfl⟩
  | op fn d s u =>
    obtain ⟨-, rfl, rfl, -, rfl, -⟩ := Rv32i.rType_eq.mp hw
    exact ⟨rfl, rfl, rfl⟩
  | lui d imm =>
    obtain ⟨rfl, rfl, -⟩ := Rv32i.uType_eq.mp hw
    exact ⟨rfl, rfl⟩
  | auipc d imm =>
    obtain ⟨rfl, rfl, -⟩ := Rv32i.uType_eq.mp hw
    exact ⟨rfl, rfl⟩
  | lw d s imm =>
    obtain ⟨rfl, rfl, -, rfl, -⟩ := Rv32i.iType_eq.mp hw
    exact ⟨rfl, rfl, rfl⟩
  | sw s u imm =>
    obtain ⟨rfl, rfl, rfl, -, -⟩ := Rv32i.sType_eq.mp hw
    exact ⟨rfl, rfl, rfl⟩
  | branch cond s u imm =>
    obtain ⟨rfl, rfl, rfl, -, -⟩ := Rv32i.bType_eq.mp hw
    exact ⟨rfl, rfl, rfl⟩
  | jal d imm =>
    obtain ⟨rfl, rfl, -⟩ := Rv32i.jType_eq.mp hw
    exact ⟨rfl, rfl⟩
  | jalr d s imm =>
    obtain ⟨rfl, rfl, -, rfl, -⟩ := Rv32i.iType_eq.mp hw
    exact ⟨rfl, rfl, rfl⟩
  | csr fn d s addr =>
    obtain ⟨rfl, rfl, -, rfl, -⟩ := Rv32i.iType_eq.mp hw
    exact ⟨rfl, rfl, rfl⟩
  | ecall => trivial
  | mret => trivial

theorem selects_encode (instr : Instr) : Selects (encode instr) instr := by
  refine ⟨fields_encode instr, fun x hx ↦ ?_⟩
  apply action_of_decode
  rw [hx]
  exact Rv32i.decode_encode instr

/-! ## Register and immediate fields -/

/-- The register field of a number. -/
def reg (n : Nat) : RegIdx := BitVec.ofNat 5 n

theorem uint32_eq {n : Nat} (h : n < 32) : uint32 n = (reg n).setWidth 32 := by
  apply BitVec.eq_of_toNat_eq
  rw [uint32, reg, BitVec.toNat_setWidth, BitVec.toNat_ofNat, BitVec.toNat_ofNat]
  omega

theorem uimm12_eq (imm : Word) : uimm12 imm = (imm.extractLsb' 0 12).setWidth 32 := by
  have hmask : 0xFFF#32 = ones 32 12 := by decide
  rw [uimm12, hmask, BitFields.and_ones]
  apply BitVec.eq_of_getLsbD_eq
  intro j hj
  simp only [BitVec.getLsbD_setWidth, BitVec.getLsbD_extractLsb', hj, decide_true, Bool.true_and]
  by_cases h : j < 12
  · simp only [show j < 16 by omega, decide_true, Bool.true_and]
  · simp only [h, decide_false, Bool.false_and, Bool.and_false]

-- The layout of an I-type word.
theorem iType_layout (i : BitVec 12) (s : RegIdx) (f3 : BitVec 3) (d : RegIdx) (opc : BitVec 7) :
    i.setWidth 32 <<< 20 ||| s.setWidth 32 <<< 15 ||| f3.setWidth 32 <<< 12 ||| d.setWidth 32 <<< 7 |||
      opc.setWidth 32 = Rv32i.iType i s f3 d opc := by
  rw [BitVec.or_assoc, BitVec.or_assoc, BitVec.or_assoc, BitFields.shl_or, BitFields.shl_or,
    BitFields.shl_or, BitFields.shl_or]
  exact BitVec.setWidth_eq _

theorem rType_layout (f7 : BitVec 7) (u s : RegIdx) (f3 : BitVec 3) (d : RegIdx) (opc : BitVec 7) :
    f7.setWidth 32 <<< 25 ||| u.setWidth 32 <<< 20 ||| s.setWidth 32 <<< 15 ||| f3.setWidth 32 <<< 12 |||
      d.setWidth 32 <<< 7 ||| opc.setWidth 32 = Rv32i.rType f7 u s f3 d opc := by
  rw [BitVec.or_assoc, BitVec.or_assoc, BitVec.or_assoc, BitVec.or_assoc, BitFields.shl_or,
    BitFields.shl_or, BitFields.shl_or, BitFields.shl_or, BitFields.shl_or]
  exact BitVec.setWidth_eq _

theorem uType_layout (i : BitVec 20) (d : RegIdx) (opc : BitVec 7) :
    i.setWidth 32 <<< 12 ||| d.setWidth 32 <<< 7 ||| opc.setWidth 32 = Rv32i.uType i d opc := by
  rw [BitVec.or_assoc, BitFields.shl_or, BitFields.shl_or]
  exact BitVec.setWidth_eq _

theorem bType_layout (i : BitVec 12) (u s : RegIdx) (f3 : BitVec 3) (opc : BitVec 7) :
    (i.extractLsb' 11 1).setWidth 32 <<< 31 ||| (i.extractLsb' 4 6).setWidth 32 <<< 25 |||
      u.setWidth 32 <<< 20 ||| s.setWidth 32 <<< 15 ||| f3.setWidth 32 <<< 12 |||
      (i.extractLsb' 0 4).setWidth 32 <<< 8 ||| (i.extractLsb' 10 1).setWidth 32 <<< 7 |||
      opc.setWidth 32 = Rv32i.bType i u s f3 opc := by
  simp only [BitVec.or_assoc, BitFields.shl_or]
  exact BitVec.setWidth_eq _

theorem jType_layout (i : BitVec 20) (d : RegIdx) (opc : BitVec 7) :
    (i.extractLsb' 19 1).setWidth 32 <<< 31 ||| (i.extractLsb' 11 8).setWidth 32 <<< 12 |||
      (i.extractLsb' 10 1).setWidth 32 <<< 20 ||| (i.extractLsb' 0 10).setWidth 32 <<< 21 |||
      d.setWidth 32 <<< 7 ||| opc.setWidth 32 = Rv32i.jType i d opc := by
  -- the assembler does not put the fields in the order of the word
  have hsort : ∀ a b c e f g : Word,
      a ||| b ||| c ||| e ||| f ||| g = a ||| (e ||| (c ||| (b ||| (f ||| g)))) := by
    intros
    ac_rfl
  rw [hsort]
  simp only [BitFields.shl_or]
  exact BitVec.setWidth_eq _

/-! ## Formats -/

-- A check that lets the result through has not failed.
theorem ok_of_check {α : Type} {p : Prop} [Decidable p] {e : String} {r : Except String α} {a : α}
    (h : (if p then .error e else r) = .ok a) : ¬ p ∧ r = .ok a := by
  by_cases hp : p
  · rw [if_pos hp] at h
    cases h
  · rw [if_neg hp] at h
    exact ⟨hp, h⟩

theorem encodeI_ok (f3 : BitVec 3) (opc : BitVec 7) (hd : rd < 32) (hs : rs1 < 32)
    (h : encodeI rd rs1 imm (f3.setWidth 32) (opc.setWidth 32) = .ok w) :
    w = Rv32i.iType (imm.extractLsb' 0 12) (reg rs1) f3 (reg rd) opc ∧
      (imm.extractLsb' 0 12).signExtend 32 = imm := by
  obtain ⟨hrange, h⟩ := ok_of_check h
  injection h with h
  rw [uint32_eq hd, uint32_eq hs, uimm12_eq, iType_layout] at h
  exact ⟨h.symm, BitFields.signExtend_extractLsb' imm (k := 11) (by decide) (by omega) (by omega)⟩

theorem encodeSType_ok (f3 : BitVec 3) (hu : rs2 < 32) (hs : rs1 < 32)
    (h : encodeSType rs2 rs1 imm (f3.setWidth 32) = .ok w) :
    w = Rv32i.sType (imm.extractLsb' 0 12) (reg rs2) (reg rs1) f3 0b0100011#7 ∧
      (imm.extractLsb' 0 12).signExtend 32 = imm := by
  obtain ⟨hrange, h⟩ := ok_of_check h
  injection h with h
  refine ⟨?_, BitFields.signExtend_extractLsb' imm (k := 11) (by decide) (by omega) (by omega)⟩
  have hones : uimm12 imm = imm &&& ones 32 12 := by
    rw [uimm12_eq, BitFields.and_ones]
  have hlo : uimm12 imm &&& 0x1F#32 = ((imm.extractLsb' 0 12).extractLsb' 0 5).setWidth 32 := by
    rw [hones, BitVec.extractLsb'_extractLsb'_of_le (by decide)]
    exact BitFields.shr_and_ones imm (k := 0) (n := 5) (m := 12) (by decide)
  have hhi : uimm12 imm >>> 5 &&& 0x7F#32 = ((imm.extractLsb' 0 12).extractLsb' 5 7).setWidth 32 := by
    rw [hones, BitVec.extractLsb'_extractLsb'_of_le (by decide)]
    exact BitFields.shr_and_ones imm (k := 5) (n := 7) (m := 12) (by decide)
  rw [hlo, hhi, uint32_eq hu, uint32_eq hs] at h
  rw [← h]
  exact rType_layout _ _ _ _ _ 0b0100011#7

theorem encodeBType_ok {f3 : BitVec 3} (hs : rs1 < 32) (hu : rs2 < 32)
    (h : encodeBType rs1 rs2 imm (f3.setWidth 32) = .ok w) :
    w = Rv32i.bType (imm.extractLsb' 1 12) (reg rs2) (reg rs1) f3 0b1100011#7 ∧
      Rv32i.offset (imm.extractLsb' 1 12) = imm := by
  obtain ⟨heven, h⟩ := ok_of_check h
  obtain ⟨hrange, h⟩ := ok_of_check h
  injection h with h
  have hbit := BitFields.getLsbD_zero_of_even (by decide) (Int.dvd_of_tmod_eq_zero (not_not.mp heven))
  refine ⟨?_, BitFields.signExtend_even imm (k := 11) (by decide) (by omega) (by omega) hbit⟩
  have hfield : ∀ {k n : Nat}, k + 1 + n ≤ 13 → (imm &&& ones 32 13) >>> (k + 1) &&& ones 32 n =
      ((imm.extractLsb' 1 12).extractLsb' k n).setWidth 32 := by
    intro k n hkn
    rw [BitFields.extractLsb'_slice imm (by omega), Nat.add_comm 1 k]
    exact BitFields.shr_and_ones imm hkn
  have h12 := hfield (k := 11) (n := 1) (by decide)
  have h11 := hfield (k := 10) (n := 1) (by decide)
  have h10 := hfield (k := 4) (n := 6) (by decide)
  have h4 := hfield (k := 0) (n := 4) (by decide)
  rw [uint32_eq hu, uint32_eq hs] at h
  rw [← h, ← bType_layout, ← h12, ← h11, ← h10, ← h4]
  rfl

theorem encodeJal_ok (hd : rd < 32) (h : encodeJal rd imm = .ok w) :
    w = Rv32i.jType (imm.extractLsb' 1 20) (reg rd) 0b1101111#7 ∧
      Rv32i.offset (imm.extractLsb' 1 20) = imm := by
  obtain ⟨heven, h⟩ := ok_of_check h
  obtain ⟨hrange, h⟩ := ok_of_check h
  injection h with h
  have hbit := BitFields.getLsbD_zero_of_even (by decide) (Int.dvd_of_tmod_eq_zero (not_not.mp heven))
  refine ⟨?_, BitFields.signExtend_even imm (k := 19) (by decide) (by omega) (by omega) hbit⟩
  have hfield : ∀ {k n : Nat}, k + 1 + n ≤ 21 → (imm &&& ones 32 21) >>> (k + 1) &&& ones 32 n =
      ((imm.extractLsb' 1 20).extractLsb' k n).setWidth 32 := by
    intro k n hkn
    rw [BitFields.extractLsb'_slice imm (by omega), Nat.add_comm 1 k]
    exact BitFields.shr_and_ones imm hkn
  have h20 := hfield (k := 19) (n := 1) (by decide)
  have h10 := hfield (k := 0) (n := 10) (by decide)
  have h11 := hfield (k := 10) (n := 1) (by decide)
  have h19 := hfield (k := 11) (n := 8) (by decide)
  rw [uint32_eq hd] at h
  rw [← h, ← jType_layout, ← h20, ← h10, ← h11, ← h19]
  rfl

theorem encodeUType_ok {opc : BitVec 7} (hd : rd < 32)
    (h : encodeUType rd imm (opc.setWidth 32) = .ok w) :
    w = Rv32i.uType (imm.extractLsb' 0 20) (reg rd) opc ∧ (imm.extractLsb' 0 20).setWidth 32 = imm := by
  obtain ⟨hrange, h⟩ := ok_of_check h
  injection h with h
  have himm := BitFields.setWidth_extractLsb' imm (n := 20) (by omega) (by omega)
  refine ⟨?_, himm⟩
  rw [uint32_eq hd, ← himm, uType_layout] at h
  exact h.symm

theorem encodeSystem_ok {f3 : BitVec 3} {csr : Word} (hd : rd < 32) (hs : rs1 < 32)
    (h : encodeSystem rd rs1 csr (f3.setWidth 32) = .ok w) :
    w = Rv32i.iType (csr.extractLsb' 0 12) (reg rs1) f3 (reg rd) 0b1110011#7 ∧
      (csr.extractLsb' 0 12).setWidth 32 = csr := by
  obtain ⟨hrange, h⟩ := ok_of_check h
  injection h with h
  have hcsr := BitFields.setWidth_extractLsb' csr (n := 12) (by omega) (by omega)
  refine ⟨?_, hcsr⟩
  rw [← h, uint32_eq hd, uint32_eq hs, ← iType_layout, hcsr]
  rfl

end Assembler

end QarCore
