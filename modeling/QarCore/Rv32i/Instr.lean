import Mathlib

/-!
# A subset of RV32I and its encoding

The instructions of a small machine-mode RV32I core without byte accesses, fences and
comparisons into registers.  `encode` lays the fields out as the instruction formats do and
`decode` reads them back; the two are inverse to each other.
-/

namespace Rv32i

abbrev Word := BitVec 32
abbrev Reg := BitVec 5

/-- Register-register operations. -/
inductive OpFn
  | add | sub | and | or | xor | sll | srl
  deriving DecidableEq, Repr

/-- Branch conditions. -/
inductive Cond
  | eq | ne | lt | ge | ltu | geu
  deriving DecidableEq, Repr

/-- `CSRRW`, `CSRRS` and `CSRRC`. -/
inductive CsrFn
  | rw | rs | rc
  deriving DecidableEq, Repr

/-- The immediates are the encoded bits: branch and jump offsets come without their zero bit. -/
inductive Instr
  | addi (rd rs1 : Reg) (imm : BitVec 12)
  | op (fn : OpFn) (rd rs1 rs2 : Reg)
  | lui (rd : Reg) (imm : BitVec 20)
  | auipc (rd : Reg) (imm : BitVec 20)
  | lw (rd rs1 : Reg) (imm : BitVec 12)
  | sw (rs1 rs2 : Reg) (imm : BitVec 12)
  | branch (cond : Cond) (rs1 rs2 : Reg) (imm : BitVec 12)
  | jal (rd : Reg) (imm : BitVec 20)
  | jalr (rd rs1 : Reg) (imm : BitVec 12)
  | csr (fn : CsrFn) (rd rs1 : Reg) (addr : BitVec 12)
  | ecall
  | mret
  deriving DecidableEq, Repr

/-! ## Formats -/

def rType (funct7 : BitVec 7) (rs2 rs1 : Reg) (funct3 : BitVec 3) (rd : Reg) (opc : BitVec 7) :
    Word :=
  funct7 ++ (rs2 ++ (rs1 ++ (funct3 ++ (rd ++ opc))))

def iType (imm : BitVec 12) (rs1 : Reg) (funct3 : BitVec 3) (rd : Reg) (opc : BitVec 7) : Word :=
  imm ++ (rs1 ++ (funct3 ++ (rd ++ opc)))

def sType (imm : BitVec 12) (rs2 rs1 : Reg) (funct3 : BitVec 3) (opc : BitVec 7) : Word :=
  imm.extractLsb' 5 7 ++ (rs2 ++ (rs1 ++ (funct3 ++ (imm.extractLsb' 0 5 ++ opc))))

def bType (imm : BitVec 12) (rs2 rs1 : Reg) (funct3 : BitVec 3) (opc : BitVec 7) : Word :=
  imm.extractLsb' 11 1 ++ (imm.extractLsb' 4 6 ++ (rs2 ++ (rs1 ++ (funct3 ++
    (imm.extractLsb' 0 4 ++ (imm.extractLsb' 10 1 ++ opc))))))

def uType (imm : BitVec 20) (rd : Reg) (opc : BitVec 7) : Word := imm ++ (rd ++ opc)

def jType (imm : BitVec 20) (rd : Reg) (opc : BitVec 7) : Word :=
  imm.extractLsb' 19 1 ++ (imm.extractLsb' 0 10 ++ (imm.extractLsb' 10 1 ++
    (imm.extractLsb' 11 8 ++ (rd ++ opc))))

def OpFn.funct3 : OpFn → BitVec 3
  | add => 0b000#3
  | sub => 0b000#3
  | sll => 0b001#3
  | xor => 0b100#3
  | srl => 0b101#3
  | or => 0b110#3
  | and => 0b111#3

def OpFn.funct7 : OpFn → BitVec 7
  | sub => 0b0100000#7
  | _ => 0b0000000#7

def Cond.funct3 : Cond → BitVec 3
  | eq => 0b000#3
  | ne => 0b001#3
  | lt => 0b100#3
  | ge => 0b101#3
  | ltu => 0b110#3
  | geu => 0b111#3

def CsrFn.funct3 : CsrFn → BitVec 3
  | rw => 0b001#3
  | rs => 0b010#3
  | rc => 0b011#3

def encode : Instr → Word
  | .addi rd rs1 imm => iType imm rs1 0b000#3 rd 0b0010011#7
  | .op fn rd rs1 rs2 => rType fn.funct7 rs2 rs1 fn.funct3 rd 0b0110011#7
  | .lui rd imm => uType imm rd 0b0110111#7
  | .auipc rd imm => uType imm rd 0b0010111#7
  | .lw rd rs1 imm => iType imm rs1 0b010#3 rd 0b0000011#7
  | .sw rs1 rs2 imm => sType imm rs2 rs1 0b010#3 0b0100011#7
  | .branch cond rs1 rs2 imm => bType imm rs2 rs1 cond.funct3 0b1100011#7
  | .jal rd imm => jType imm rd 0b1101111#7
  | .jalr rd rs1 imm => iType imm rs1 0b000#3 rd 0b1100111#7
  | .csr fn rd rs1 addr => iType addr rs1 fn.funct3 rd 0b1110011#7
  | .ecall => iType 0x000#12 0#5 0b000#3 0#5 0b1110011#7
  | .mret => iType 0x302#12 0#5 0b000#3 0#5 0b1110011#7

/-! ## Fields -/

variable (w : Word)

def opcode : BitVec 7 := w.extractLsb' 0 7
def rdField : Reg := w.extractLsb' 7 5
def funct3 : BitVec 3 := w.extractLsb' 12 3
def rs1Field : Reg := w.extractLsb' 15 5
def rs2Field : Reg := w.extractLsb' 20 5
def funct7 : BitVec 7 := w.extractLsb' 25 7

def iImm : BitVec 12 := w.extractLsb' 20 12
def sImm : BitVec 12 := w.extractLsb' 25 7 ++ w.extractLsb' 7 5
def bImm : BitVec 12 :=
  w.extractLsb' 31 1 ++ w.extractLsb' 7 1 ++ w.extractLsb' 25 6 ++ w.extractLsb' 8 4
def uImm : BitVec 20 := w.extractLsb' 12 20
def jImm : BitVec 20 :=
  w.extractLsb' 31 1 ++ w.extractLsb' 12 8 ++ w.extractLsb' 20 1 ++ w.extractLsb' 21 10

section Formats

variable {w}

-- A concatenation is a slice when each part is its part of the slice.
theorem append_eq_slice {k m n s : Nat} {hi : BitVec m} {lo : BitVec n} {x : BitVec k} :
    hi ++ lo = x.extractLsb' s (m + n) ↔
      hi = x.extractLsb' (s + n) m ∧ lo = x.extractLsb' s n := by
  constructor
  · intro h
    have hbit : ∀ j, j < m + n → (hi ++ lo).getLsbD j = x.getLsbD (s + j) := fun j hj ↦ by
      rw [h, BitVec.getLsbD_extractLsb', decide_eq_true hj, Bool.true_and]
    refine ⟨BitVec.eq_of_getLsbD_eq fun j hj ↦ ?_, BitVec.eq_of_getLsbD_eq fun j hj ↦ ?_⟩
    · have := hbit (n + j) (by omega)
      rw [BitVec.getLsbD_append, if_neg (by omega), Nat.add_sub_cancel_left] at this
      rw [BitVec.getLsbD_extractLsb', decide_eq_true hj, Bool.true_and, this, Nat.add_assoc]
    · have := hbit j (by omega)
      rw [BitVec.getLsbD_append, if_pos (by omega)] at this
      rw [BitVec.getLsbD_extractLsb', decide_eq_true hj, Bool.true_and, this]
  · rintro ⟨rfl, rfl⟩
    exact BitVec.extractLsb'_append_extractLsb'_eq_extractLsb' rfl

-- The whole of a bit vector is a slice of it.
theorem eq_iff_slice {n : Nat} {x y : BitVec n} : x = y ↔ x = y.extractLsb' 0 n := by
  rw [BitVec.extractLsb'_eq_self]

theorem rType_eq {f7 : BitVec 7} {rs2 rs1 rd : Reg} {f3 : BitVec 3} {opc : BitVec 7} :
    rType f7 rs2 rs1 f3 rd opc = w ↔
      f7 = funct7 w ∧ rs2 = rs2Field w ∧ rs1 = rs1Field w ∧ f3 = funct3 w ∧ rd = rdField w ∧
        opc = opcode w := by
  refine eq_iff_slice.trans ?_
  unfold rType
  iterate 5 rw [append_eq_slice]
  rfl

theorem iType_eq {imm : BitVec 12} {rs1 rd : Reg} {f3 : BitVec 3} {opc : BitVec 7} :
    iType imm rs1 f3 rd opc = w ↔
      imm = iImm w ∧ rs1 = rs1Field w ∧ f3 = funct3 w ∧ rd = rdField w ∧ opc = opcode w := by
  refine eq_iff_slice.trans ?_
  unfold iType
  iterate 4 rw [append_eq_slice]
  rfl

theorem uType_eq {imm : BitVec 20} {rd : Reg} {opc : BitVec 7} :
    uType imm rd opc = w ↔ imm = uImm w ∧ rd = rdField w ∧ opc = opcode w := by
  refine eq_iff_slice.trans ?_
  unfold uType
  iterate 2 rw [append_eq_slice]
  rfl

theorem sImm_eq {imm : BitVec 12} :
    imm = sImm w ↔
      imm.extractLsb' 5 7 = w.extractLsb' 25 7 ∧ imm.extractLsb' 0 5 = w.extractLsb' 7 5 := by
  rw [eq_comm]
  refine eq_iff_slice.trans ?_
  unfold sImm
  rw [append_eq_slice, eq_comm, eq_comm (b := imm.extractLsb' 0 5)]

theorem bImm_eq {imm : BitVec 12} :
    imm = bImm w ↔
      imm.extractLsb' 11 1 = w.extractLsb' 31 1 ∧ imm.extractLsb' 10 1 = w.extractLsb' 7 1 ∧
        imm.extractLsb' 4 6 = w.extractLsb' 25 6 ∧ imm.extractLsb' 0 4 = w.extractLsb' 8 4 := by
  rw [eq_comm]
  refine eq_iff_slice.trans ?_
  unfold bImm
  iterate 3 rw [append_eq_slice]
  simp only [eq_comm, and_assoc]

theorem jImm_eq {imm : BitVec 20} :
    imm = jImm w ↔
      imm.extractLsb' 19 1 = w.extractLsb' 31 1 ∧ imm.extractLsb' 11 8 = w.extractLsb' 12 8 ∧
        imm.extractLsb' 10 1 = w.extractLsb' 20 1 ∧
        imm.extractLsb' 0 10 = w.extractLsb' 21 10 := by
  rw [eq_comm]
  refine eq_iff_slice.trans ?_
  unfold jImm
  iterate 3 rw [append_eq_slice]
  simp only [eq_comm, and_assoc]

theorem sType_eq {imm : BitVec 12} {rs2 rs1 : Reg} {f3 : BitVec 3} {opc : BitVec 7} :
    sType imm rs2 rs1 f3 opc = w ↔
      imm = sImm w ∧ rs2 = rs2Field w ∧ rs1 = rs1Field w ∧ f3 = funct3 w ∧ opc = opcode w := by
  rw [sImm_eq]
  refine eq_iff_slice.trans ?_
  unfold sType
  iterate 5 rw [append_eq_slice]
  exact ⟨fun ⟨h1, h2, h3, h4, h5, h6⟩ ↦ ⟨⟨h1, h5⟩, h2, h3, h4, h6⟩,
    fun ⟨⟨h1, h5⟩, h2, h3, h4, h6⟩ ↦ ⟨h1, h2, h3, h4, h5, h6⟩⟩

theorem bType_eq {imm : BitVec 12} {rs2 rs1 : Reg} {f3 : BitVec 3} {opc : BitVec 7} :
    bType imm rs2 rs1 f3 opc = w ↔
      imm = bImm w ∧ rs2 = rs2Field w ∧ rs1 = rs1Field w ∧ f3 = funct3 w ∧ opc = opcode w := by
  rw [bImm_eq]
  refine eq_iff_slice.trans ?_
  unfold bType
  iterate 7 rw [append_eq_slice]
  exact ⟨fun ⟨h1, h2, h3, h4, h5, h6, h7, h8⟩ ↦ ⟨⟨h1, h7, h2, h6⟩, h3, h4, h5, h8⟩,
    fun ⟨⟨h1, h7, h2, h6⟩, h3, h4, h5, h8⟩ ↦ ⟨h1, h2, h3, h4, h5, h6, h7, h8⟩⟩

theorem jType_eq {imm : BitVec 20} {rd : Reg} {opc : BitVec 7} :
    jType imm rd opc = w ↔ imm = jImm w ∧ rd = rdField w ∧ opc = opcode w := by
  rw [jImm_eq]
  refine eq_iff_slice.trans ?_
  unfold jType
  iterate 5 rw [append_eq_slice]
  exact ⟨fun ⟨h1, h2, h3, h4, h5, h6⟩ ↦ ⟨⟨h1, h4, h3, h2⟩, h5, h6⟩,
    fun ⟨⟨h1, h4, h3, h2⟩, h5, h6⟩ ↦ ⟨h1, h2, h3, h4, h5, h6⟩⟩

end Formats

/-! ## Decoding -/

def decodeOp (w : Word) : Option OpFn :=
  if funct3 w = 0b000#3 ∧ funct7 w = 0b0000000#7 then some .add
  else if funct3 w = 0b000#3 ∧ funct7 w = 0b0100000#7 then some .sub
  else if funct3 w = 0b001#3 ∧ funct7 w = 0b0000000#7 then some .sll
  else if funct3 w = 0b100#3 ∧ funct7 w = 0b0000000#7 then some .xor
  else if funct3 w = 0b101#3 ∧ funct7 w = 0b0000000#7 then some .srl
  else if funct3 w = 0b110#3 ∧ funct7 w = 0b0000000#7 then some .or
  else if funct3 w = 0b111#3 ∧ funct7 w = 0b0000000#7 then some .and
  else none

def decodeCond (w : Word) : Option Cond :=
  if funct3 w = 0b000#3 then some .eq
  else if funct3 w = 0b001#3 then some .ne
  else if funct3 w = 0b100#3 then some .lt
  else if funct3 w = 0b101#3 then some .ge
  else if funct3 w = 0b110#3 then some .ltu
  else if funct3 w = 0b111#3 then some .geu
  else none

def decodeSystem (w : Word) : Option Instr :=
  if funct3 w = 0b001#3 then some (.csr .rw (rdField w) (rs1Field w) (iImm w))
  else if funct3 w = 0b010#3 then some (.csr .rs (rdField w) (rs1Field w) (iImm w))
  else if funct3 w = 0b011#3 then some (.csr .rc (rdField w) (rs1Field w) (iImm w))
  else if funct3 w = 0b000#3 ∧ rs1Field w = 0#5 ∧ rdField w = 0#5 then
    if iImm w = 0x000#12 then some .ecall
    else if iImm w = 0x302#12 then some .mret
    else none
  else none

def decode (w : Word) : Option Instr :=
  if opcode w = 0b0010011#7 then
    if funct3 w = 0b000#3 then some (.addi (rdField w) (rs1Field w) (iImm w)) else none
  else if opcode w = 0b0110011#7 then
    (decodeOp w).map fun fn ↦ .op fn (rdField w) (rs1Field w) (rs2Field w)
  else if opcode w = 0b0000011#7 then
    if funct3 w = 0b010#3 then some (.lw (rdField w) (rs1Field w) (iImm w)) else none
  else if opcode w = 0b0100011#7 then
    if funct3 w = 0b010#3 then some (.sw (rs1Field w) (rs2Field w) (sImm w)) else none
  else if opcode w = 0b1100011#7 then
    (decodeCond w).map fun cond ↦ .branch cond (rs1Field w) (rs2Field w) (bImm w)
  else if opcode w = 0b1101111#7 then some (.jal (rdField w) (jImm w))
  else if opcode w = 0b1100111#7 then
    if funct3 w = 0b000#3 then some (.jalr (rdField w) (rs1Field w) (iImm w)) else none
  else if opcode w = 0b1110011#7 then decodeSystem w
  else if opcode w = 0b0110111#7 then some (.lui (rdField w) (uImm w))
  else if opcode w = 0b0010111#7 then some (.auipc (rdField w) (uImm w))
  else none

section Inverse

variable {w}

theorem decodeOp_eq_some {fn : OpFn} :
    decodeOp w = some fn ↔ fn.funct3 = funct3 w ∧ fn.funct7 = funct7 w := by
  unfold decodeOp
  constructor
  · intro h
    split_ifs at h with h1 h2 h3 h4 h5 h6 h7 <;> cases h <;> simp_all [OpFn.funct3, OpFn.funct7]
  · rintro ⟨h3, h7⟩
    rw [← h3, ← h7]
    cases fn <;> rfl

theorem decodeCond_eq_some {cond : Cond} : decodeCond w = some cond ↔ cond.funct3 = funct3 w := by
  unfold decodeCond
  constructor
  · intro h
    split_ifs at h with h1 h2 h3 h4 h5 h6 <;> cases h <;> simp_all [Cond.funct3]
  · intro h
    rw [← h]
    cases cond <;> rfl

theorem encode_decodeSystem {instr : Instr} (ho : opcode w = 0b1110011#7)
    (h : decodeSystem w = some instr) : encode instr = w := by
  unfold decodeSystem at h
  obtain ⟨h3, h⟩ | ⟨-, h⟩ := ite_eq_iff.mp h
  · cases h
    exact iType_eq.mpr ⟨rfl, rfl, h3.symm, rfl, ho.symm⟩
  obtain ⟨h3, h⟩ | ⟨-, h⟩ := ite_eq_iff.mp h
  · cases h
    exact iType_eq.mpr ⟨rfl, rfl, h3.symm, rfl, ho.symm⟩
  obtain ⟨h3, h⟩ | ⟨-, h⟩ := ite_eq_iff.mp h
  · cases h
    exact iType_eq.mpr ⟨rfl, rfl, h3.symm, rfl, ho.symm⟩
  rw [Option.ite_none_right_eq_some] at h
  obtain ⟨⟨h3, h1, hd⟩, h⟩ := h
  obtain ⟨h12, h⟩ | ⟨-, h⟩ := ite_eq_iff.mp h
  · cases h
    exact iType_eq.mpr ⟨h12.symm, h1.symm, h3.symm, hd.symm, ho.symm⟩
  · rw [Option.ite_none_right_eq_some] at h
    obtain ⟨h12, h⟩ := h
    cases h
    exact iType_eq.mpr ⟨h12.symm, h1.symm, h3.symm, hd.symm, ho.symm⟩

-- What `decode` reads is what `encode` lays out.
theorem encode_decode {instr : Instr} (h : decode w = some instr) : encode instr = w := by
  unfold decode at h
  -- one case per opcode, in the order of the definition
  obtain ⟨ho, h⟩ | ⟨-, h⟩ := ite_eq_iff.mp h
  · rw [Option.ite_none_right_eq_some] at h
    obtain ⟨h3, h⟩ := h
    cases h
    exact iType_eq.mpr ⟨rfl, rfl, h3.symm, rfl, ho.symm⟩
  obtain ⟨ho, h⟩ | ⟨-, h⟩ := ite_eq_iff.mp h
  · obtain ⟨fn, hfn, rfl⟩ := Option.map_eq_some_iff.mp h
    obtain ⟨h3, h7⟩ := decodeOp_eq_some.mp hfn
    exact rType_eq.mpr ⟨h7, rfl, rfl, h3, rfl, ho.symm⟩
  obtain ⟨ho, h⟩ | ⟨-, h⟩ := ite_eq_iff.mp h
  · rw [Option.ite_none_right_eq_some] at h
    obtain ⟨h3, h⟩ := h
    cases h
    exact iType_eq.mpr ⟨rfl, rfl, h3.symm, rfl, ho.symm⟩
  obtain ⟨ho, h⟩ | ⟨-, h⟩ := ite_eq_iff.mp h
  · rw [Option.ite_none_right_eq_some] at h
    obtain ⟨h3, h⟩ := h
    cases h
    exact sType_eq.mpr ⟨rfl, rfl, rfl, h3.symm, ho.symm⟩
  obtain ⟨ho, h⟩ | ⟨-, h⟩ := ite_eq_iff.mp h
  · obtain ⟨cond, hc, rfl⟩ := Option.map_eq_some_iff.mp h
    exact bType_eq.mpr ⟨rfl, rfl, rfl, decodeCond_eq_some.mp hc, ho.symm⟩
  obtain ⟨ho, h⟩ | ⟨-, h⟩ := ite_eq_iff.mp h
  · cases h
    exact jType_eq.mpr ⟨rfl, rfl, ho.symm⟩
  obtain ⟨ho, h⟩ | ⟨-, h⟩ := ite_eq_iff.mp h
  · rw [Option.ite_none_right_eq_some] at h
    obtain ⟨h3, h⟩ := h
    cases h
    exact iType_eq.mpr ⟨rfl, rfl, h3.symm, rfl, ho.symm⟩
  obtain ⟨ho, h⟩ | ⟨-, h⟩ := ite_eq_iff.mp h
  · exact encode_decodeSystem ho h
  obtain ⟨ho, h⟩ | ⟨-, h⟩ := ite_eq_iff.mp h
  · cases h
    exact uType_eq.mpr ⟨rfl, rfl, ho.symm⟩
  rw [Option.ite_none_right_eq_some] at h
  obtain ⟨ho, h⟩ := h
  cases h
  exact uType_eq.mpr ⟨rfl, rfl, ho.symm⟩

theorem decode_encode (instr : Instr) : decode (encode instr) = some instr := by
  generalize hw : encode instr = w
  cases instr with
  | addi rd rs1 imm =>
    obtain ⟨rfl, rfl, h3, rfl, ho⟩ := iType_eq.mp hw
    simp [decode, ← h3, ← ho]
  | op fn rd rs1 rs2 =>
    obtain ⟨h7, rfl, rfl, h3, rfl, ho⟩ := rType_eq.mp hw
    simp [decode, ← ho, decodeOp_eq_some.mpr ⟨h3, h7⟩]
  | lui rd imm =>
    obtain ⟨rfl, rfl, ho⟩ := uType_eq.mp hw
    simp [decode, ← ho]
  | auipc rd imm =>
    obtain ⟨rfl, rfl, ho⟩ := uType_eq.mp hw
    simp [decode, ← ho]
  | lw rd rs1 imm =>
    obtain ⟨rfl, rfl, h3, rfl, ho⟩ := iType_eq.mp hw
    simp [decode, ← h3, ← ho]
  | sw rs1 rs2 imm =>
    obtain ⟨rfl, rfl, rfl, h3, ho⟩ := sType_eq.mp hw
    simp [decode, ← h3, ← ho]
  | branch cond rs1 rs2 imm =>
    obtain ⟨rfl, rfl, rfl, h3, ho⟩ := bType_eq.mp hw
    simp [decode, ← ho, decodeCond_eq_some.mpr h3]
  | jal rd imm =>
    obtain ⟨rfl, rfl, ho⟩ := jType_eq.mp hw
    simp [decode, ← ho]
  | jalr rd rs1 imm =>
    obtain ⟨rfl, rfl, h3, rfl, ho⟩ := iType_eq.mp hw
    simp [decode, ← h3, ← ho]
  | csr fn rd rs1 addr =>
    obtain ⟨rfl, rfl, h3, rfl, ho⟩ := iType_eq.mp hw
    cases fn <;> simp [decode, decodeSystem, ← h3, ← ho, CsrFn.funct3]
  | ecall =>
    obtain ⟨h12, h1, h3, hd, ho⟩ := iType_eq.mp hw
    simp [decode, decodeSystem, ← h12, ← h1, ← h3, ← hd, ← ho]
  | mret =>
    obtain ⟨h12, h1, h3, hd, ho⟩ := iType_eq.mp hw
    simp [decode, decodeSystem, ← h12, ← h1, ← h3, ← hd, ← ho]

-- `decode` finds the instruction a word encodes, and nothing else.
theorem decode_eq_some {instr : Instr} : decode w = some instr ↔ encode instr = w :=
  ⟨encode_decode, fun h ↦ h ▸ decode_encode instr⟩

theorem decode_eq_none : decode w = none ↔ ∀ instr, encode instr ≠ w := by
  rw [Option.eq_none_iff_forall_ne_some]
  exact forall_congr' fun instr ↦ not_congr decode_eq_some

end Inverse

end Rv32i
