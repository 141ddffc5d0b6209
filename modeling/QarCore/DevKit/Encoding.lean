import QarCore.DevKit.Formats

/-!
# Encoded instructions

What a line says, operand by operand, against what the core selects for the word it is encoded to.
-/

namespace QarCore

namespace Assembler

open GoText (Text trimSpace index parseInt)
open Rv32i (Instr OpFn Cond CsrFn encode)

variable (t : Tables) (labels : Text → Option Word)

/-! ## What is written -/

/-- The number that an immediate stands for: the value of a macro, of `%hi` or `%lo`, or of a literal. -/
def immediateValue (token : Text) : Option Int :=
  let token := trimSpace token
  if token = [] then none
  else
    match lookupMacro t token with
    | some val => some val.toInt
    | none =>
      match parseLabelImmediate t token with
      | some (.ok val) => some val.toInt
      | some (.error _) => none
      | none => parseInt 64 token

/-- A number of 32 bits, with or without a sign. -/
def Int32 (v : Int) : Prop := -2 ^ 31 ≤ v ∧ v < 2 ^ 32

def WrittenImm (token : Text) (w : Word) : Prop :=
  ∃ v, immediateValue t token = some v ∧ Int32 v ∧ w = BitVec.ofInt 32 v

def NamesReg (token : Text) (r : RegIdx) : Prop :=
  registerMap.lookup (t.cases.toLower (trimSpace token)) = some r.toNat

/-- The number of a CSR operand: the value of a macro, a CSR name or a literal. -/
def csrValue (token : Text) : Option Int :=
  let token := trimSpace token
  if token = [] then none
  else
    match lookupMacro t token with
    | some val => some val.toInt
    | none =>
      match csrNameMap.lookup (t.cases.toUpper token) with
      | some addr => some addr
      | none => parseInt 32 token

def WrittenCsr (token : Text) (addr : BitVec 12) : Prop := csrValue t token = some (addr.toNat : Int)

/-- The immediate of a memory operand, zero if there is none. -/
def offsetText (a : Text) : Text := if trimSpace a = [] then ['0'] else trimSpace a

/-- An operand of the form `a(b)`, with nothing after it. -/
def MemForm (arg a b : Text) : Prop :=
  trimSpace arg = a ++ '(' :: (b ++ [')']) ∧ '(' ∉ a ∧ ')' ∉ a ∧ ')' ∉ b

def WrittenMem (arg : Text) (imm : Word) (base : RegIdx) : Prop :=
  ∃ a b, MemForm arg a b ∧ WrittenImm t (offsetText a) imm ∧ NamesReg t (trimSpace b) base

/-- A branch target: an offset, or a label if it is no number. -/
def WrittenTarget (pc : Word) (token : Text) (w : Word) : Prop :=
  WrittenImm t (trimSpace token) w ∨
    (immediateValue t (trimSpace token) = none ∧ ∃ addr, labels (trimSpace token) = some addr ∧ w = addr - pc)

/-- The instruction that a mnemonic and its operands spell. -/
inductive Written (pc : Word) : Mnemonic → List Text → Instr → Prop
  | nop : Written pc .nop [] (.addi 0 0 0)
  | addi {a0 a1 a2 d s imm} (hd : NamesReg t a0 d) (hs : NamesReg t a1 s)
      (hi : WrittenImm t a2 (imm.signExtend 32)) : Written pc .addi [a0, a1, a2] (.addi d s imm)
  | rType {a0 a1 a2 d s u} (fn : OpFn) (hd : NamesReg t a0 d) (hs : NamesReg t a1 s)
      (hu : NamesReg t a2 u) : Written pc (.rType fn) [a0, a1, a2] (.op fn d s u)
  | lui {a0 a1 d imm} (hd : NamesReg t a0 d) (hi : WrittenImm t a1 (imm.setWidth 32)) :
      Written pc .lui [a0, a1] (.lui d imm)
  | auipc {a0 a1 d imm} (hd : NamesReg t a0 d) (hi : WrittenImm t a1 (imm.setWidth 32)) :
      Written pc .auipc [a0, a1] (.auipc d imm)
  | lw {a0 a1 d s imm} (hd : NamesReg t a0 d) (hm : WrittenMem t a1 (imm.signExtend 32) s) :
      Written pc .lw [a0, a1] (.lw d s imm)
  | sw {a0 a1 u s imm} (hu : NamesReg t a0 u) (hm : WrittenMem t a1 (imm.signExtend 32) s) :
      Written pc .sw [a0, a1] (.sw s u imm)
  | branch {a0 a1 a2 s u imm} (cond : Cond) (hs : NamesReg t a0 s) (hu : NamesReg t a1 u)
      (ho : WrittenTarget t labels pc a2 (Rv32i.offset imm)) :
      Written pc (.branch cond) [a0, a1, a2] (.branch cond s u imm)
  | jal {a0 a1 d imm} (hd : NamesReg t a0 d) (ho : WrittenTarget t labels pc a1 (Rv32i.offset imm)) :
      Written pc .jal [a0, a1] (.jal d imm)
  | jalr {a0 a1 a2 d s imm} (hd : NamesReg t a0 d) (hs : NamesReg t a1 s)
      (hi : WrittenImm t a2 (imm.signExtend 32)) : Written pc .jalr [a0, a1, a2] (.jalr d s imm)
  | csr {a0 a1 a2 d s addr} (fn : CsrFn) (hd : NamesReg t a0 d) (ha : WrittenCsr t a1 addr)
      (hs : NamesReg t a2 s) : Written pc (.csr fn) [a0, a1, a2] (.csr fn d s addr)
  | ecall : Written pc .ecall [] .ecall
  | mret : Written pc .mret [] .mret

/-- The core selects what the line says. -/
def Agrees (inst : AsmLine) (w : Word) : Prop :=
  ∃ m instr, mnemonicOf inst.op = some m ∧ Written t labels inst.pc m inst.args instr ∧ Selects w instr

/-- The immediate, if it is a number, is one of 32 bits. -/
def ShortImm (token : Text) : Prop := ∀ v, immediateValue t token = some v → Int32 v

/-- The operands are ones that the assembler reads in full: NOP has none, numbers have 32 bits, and
a memory operand ends with its parenthesis. -/
def Plain : Mnemonic → List Text → Prop
  | .nop, args => args = []
  | .addi, [_, _, imm] => ShortImm t imm
  | .jalr, [_, _, imm] => ShortImm t imm
  | .lui, [_, imm] => ShortImm t imm
  | .auipc, [_, imm] => ShortImm t imm
  | .lw, [_, arg] => ∃ a b, MemForm arg a b ∧ ShortImm t (offsetText a)
  | .sw, [_, arg] => ∃ a b, MemForm arg a b ∧ ShortImm t (offsetText a)
  | .branch _, [_, _, target] => ShortImm t (trimSpace target)
  | .jal, [_, target] => ShortImm t (trimSpace target)
  | _, _ => True

variable {t labels}
variable {token arg a b : Text} {w : Word} {n : Nat}

/-! ## Operands -/

theorem bind_ok {α β : Type} {x : Except String α} {f : α → Except String β} {r : β}
    (h : x.bind f = .ok r) : ∃ v, x = .ok v ∧ f v = .ok r := by
  cases x with
  | error e => cases h
  | ok v => exact ⟨v, rfl, h⟩

theorem atLine_ok {α : Type} {line : Nat} {x : Except String α} {r : α} (h : atLine line x = .ok r) :
    x = .ok r := by
  cases x with
  | error e => cases h
  | ok v => exact h

theorem mem_of_lookup {l : List (Text × Nat)} {k : Text} (h : l.lookup k = some n) : (k, n) ∈ l := by
  obtain ⟨l₁, l₂, hmem, -⟩ := List.lookup_eq_some_iff.mp h
  rw [hmem]
  exact List.mem_append_right _ List.mem_cons_self

theorem registerMap_lt : ∀ p ∈ registerMap, p.2 < 32 := by decide

theorem csrNameMap_lt : ∀ p ∈ csrNameMap, p.2 < 2 ^ 12 := by decide

theorem parseRegister_ok (h : parseRegister t token = .ok n) : n < 32 ∧ NamesReg t token (reg n) := by
  unfold parseRegister at h
  simp only at h
  cases hl : registerMap.lookup (t.cases.toLower (trimSpace token)) with
  | none =>
    rw [hl] at h
    cases h
  | some idx =>
    rw [hl] at h
    injection h with h
    subst h
    have hlt : idx < 32 := registerMap_lt _ (mem_of_lookup hl)
    refine ⟨hlt, ?_⟩
    rw [NamesReg, hl, reg, BitVec.toNat_ofNat, Nat.mod_eq_of_lt (by omega)]

theorem toInt32_of_int32 {v : Int} (h : Int32 v) : toInt32 v = some (BitVec.ofInt 32 v) := by
  obtain ⟨hl, hu⟩ := h
  unfold toInt32 maxInt32 minInt32
  by_cases hbig : 2 ^ 31 - 1 < v
  · simp only [hbig, if_true]
    rw [if_neg (by omega)]
    congr 1
    apply BitVec.eq_of_toNat_eq
    rw [BitVec.toNat_ofInt, BitVec.toNat_ofInt]
    omega
  · have hneg : ¬ v < -2 ^ 31 := by omega
    simp only [hbig, if_false, hneg, or_false]

theorem toInt_ofInt {v : Int} (hl : 0 ≤ v) (hu : v < 2 ^ 12) : (BitVec.ofInt 32 v).toInt = v := by
  rw [BitVec.toInt_ofInt_eq_self] <;> omega

theorem ofInt_toInt_eq (v : Word) : v = BitVec.ofInt 32 v.toInt := (BitVec.ofInt_toInt).symm

theorem int32_toInt (v : Word) : Int32 v.toInt := by
  have hl := BitVec.le_toInt v
  have hu := BitVec.toInt_lt (x := v)
  constructor <;> omega

-- An immediate of 32 bits is read as written, and anything else is no number.
theorem parseImmediate_cases (hshort : ShortImm t token) :
    (∃ w, parseImmediate t token = .ok w ∧ WrittenImm t token w) ∨
      (∃ e, parseImmediate t token = .error e ∧ immediateValue t token = none) := by
  unfold ShortImm immediateValue at hshort
  unfold WrittenImm immediateValue parseImmediate
  simp only at hshort ⊢
  by_cases hne : trimSpace token = []
  · rw [if_pos hne]
    exact .inr ⟨_, rfl, if_pos hne⟩
  · rw [if_neg hne] at hshort ⊢
    rw [if_neg hne]
    cases hm : lookupMacro t (trimSpace token) with
    | some val => exact .inl ⟨val, rfl, val.toInt, rfl, int32_toInt val, ofInt_toInt_eq val⟩
    | none =>
      rw [hm] at hshort
      cases hp : parseLabelImmediate t (trimSpace token) with
      | some r =>
        cases r with
        | error e => exact .inr ⟨e, rfl, rfl⟩
        | ok val => exact .inl ⟨val, rfl, val.toInt, rfl, int32_toInt val, ofInt_toInt_eq val⟩
      | none =>
        rw [hp] at hshort
        cases hv : parseInt 64 (trimSpace token) with
        | none => exact .inr ⟨_, rfl, rfl⟩
        | some v =>
          have hint := hshort v hv
          left
          simp only [toInt32_of_int32 hint]
          exact ⟨_, rfl, v, rfl, hint, rfl⟩

theorem parseImmediate_ok (hshort : ShortImm t token) (h : parseImmediate t token = .ok w) :
    WrittenImm t token w := by
  obtain ⟨w', hw, hwritten⟩ | ⟨e, he, -⟩ := parseImmediate_cases hshort
  · rw [h] at hw
    cases hw
    exact hwritten
  · rw [h] at he
    cases he

theorem parseCSR_ok (h : parseCSR t token = .ok w) : csrValue t token = some w.toInt := by
  unfold parseCSR at h
  unfold csrValue
  simp only at h ⊢
  by_cases hne : trimSpace token = []
  · rw [if_pos hne] at h
    cases h
  · rw [if_neg hne] at h ⊢
    cases hm : lookupMacro t (trimSpace token) with
    | some val =>
      rw [hm] at h
      injection h with h
      rw [h]
    | none =>
      rw [hm] at h
      cases hn : csrNameMap.lookup (t.cases.toUpper (trimSpace token)) with
      | some addr =>
        rw [hn] at h
        injection h with h
        have hlt : addr < 2 ^ 12 := csrNameMap_lt _ (mem_of_lookup hn)
        rw [← h, ← BitVec.ofInt_natCast]
        rw [toInt_ofInt (by omega) (by omega)]
      | none =>
        rw [hn] at h
        cases hv : parseInt 32 (trimSpace token) with
        | none =>
          rw [hv] at h
          cases h
        | some v =>
          rw [hv] at h
          obtain ⟨hrange, h⟩ := ok_of_check h
          injection h with h
          rw [← h]
          rw [toInt_ofInt (by omega) (by omega)]

theorem index_append {x : Char} {s r : Text} (h : x ∉ s) : index [x] (s ++ x :: r) = some s.length := by
  induction s with
  | nil => simp [index]
  | cons c s ih =>
    rw [List.mem_cons, not_or] at h
    rw [List.cons_append, index, if_neg (by simpa using h.1), ih h.2]
    rfl

/-- The texts around the parentheses of a memory operand. -/
structure MemSplit (arg x y z : Text) : Prop where
  text : trimSpace arg = x ++ '(' :: (y ++ ')' :: z)
  noOpen : '(' ∉ x
  noClose : ')' ∉ x
  baseNoClose : ')' ∉ y

namespace MemSplit

variable {x y z : Text} (h : MemSplit arg x y z)

include h

theorem not_mem_front : ')' ∉ x ++ '(' :: y := by
  rw [List.mem_append, List.mem_cons]
  rintro (hx | hx | hy)
  · exact h.noClose hx
  · exact absurd hx (by decide)
  · exact h.baseNoClose hy

theorem index_open : index ['('] (trimSpace arg) = some x.length := by
  rw [h.text]
  exact index_append h.noOpen

theorem index_close : index [')'] (trimSpace arg) = some (x.length + 1 + y.length) := by
  have hsplit : trimSpace arg = (x ++ '(' :: y) ++ ')' :: z := by
    rw [h.text, List.append_assoc, List.cons_append]
  rw [hsplit, index_append h.not_mem_front]
  simp [Nat.add_assoc, Nat.add_comm 1]

theorem take_open : (trimSpace arg).take x.length = x := by
  rw [h.text]
  exact List.take_left

theorem take_close : ((trimSpace arg).take (x.length + 1 + y.length)).drop (x.length + 1) = y := by
  rw [h.text]
  simp [List.take_append, List.drop_append, Nat.add_assoc, Nat.add_comm 1]

end MemSplit

-- What is read of a memory operand.
theorem parseOffsetArg_split {x y z : Text} (h : MemSplit arg x y z) :
    parseOffsetArg t arg = (parseImmediate t (offsetText x)).bind fun imm ↦
      (parseRegister t (trimSpace y)).bind fun base ↦ .ok (imm, base) := by
  have hne : trimSpace arg ≠ [] := by
    rw [h.text]
    exact List.append_ne_nil_of_right_ne_nil _ (List.cons_ne_nil _ _)
  have hle : ¬ x.length + 1 + y.length ≤ x.length := by omega
  unfold parseOffsetArg
  simp only [if_neg hne, h.index_open, h.index_close, h.take_open, h.take_close, if_neg hle]
  rfl

theorem parseOffsetArg_ok {r : Word × Nat} (hf : MemForm arg a b) (hshort : ShortImm t (offsetText a))
    (h : parseOffsetArg t arg = .ok r) : r.2 < 32 ∧ WrittenMem t arg r.1 (reg r.2) := by
  obtain ⟨harg, ha, ha', hb⟩ := hf
  rw [parseOffsetArg_split ⟨harg, ha, ha', hb⟩] at h
  obtain ⟨imm, hi, h⟩ := bind_ok h
  obtain ⟨base, hr, h⟩ := bind_ok h
  cases h
  obtain ⟨hlt, hreg⟩ := parseRegister_ok hr
  exact ⟨hlt, a, b, ⟨harg, ha, ha', hb⟩, parseImmediate_ok hshort hi, hreg⟩

theorem resolve_ok {pc : Word} (hshort : ShortImm t (trimSpace token))
    (h : resolveLabelOrImmediate t labels token pc = .ok w) : WrittenTarget t labels pc token w := by
  unfold resolveLabelOrImmediate at h
  simp only at h
  obtain ⟨v, hv, hwritten⟩ | ⟨e, he, hnone⟩ := parseImmediate_cases hshort
  · rw [hv] at h
    cases h
    exact .inl hwritten
  · rw [he] at h
    cases hl : labels (trimSpace token) with
    | none =>
      rw [hl] at h
      cases h
    | some addr =>
      rw [hl] at h
      cases h
      exact .inr ⟨hnone, addr, hl, rfl⟩

/-! ## Operand lists -/

variable {inst : AsmLine}

theorem parseRRI_ok {rd rs1 : Nat} {imm : Word} (h : parseRRI t inst = .ok (rd, rs1, imm)) :
    ∃ a0 a1 a2, inst.args = [a0, a1, a2] ∧ parseRegister t a0 = .ok rd ∧ parseRegister t a1 = .ok rs1 ∧
      parseImmediate t a2 = .ok imm := by
  unfold parseRRI at h
  split at h
  · rename_i a0 a1 a2 hargs
    obtain ⟨d, hd, h⟩ := bind_ok (atLine_ok h)
    obtain ⟨s, hs, h⟩ := bind_ok h
    obtain ⟨i, hi, h⟩ := bind_ok h
    cases h
    exact ⟨a0, a1, a2, hargs, hd, hs, hi⟩
  · cases h

theorem parseCSRArgs_ok {rd rs1 : Nat} {csr : Word} (h : parseCSRArgs t inst = .ok (rd, csr, rs1)) :
    ∃ a0 a1 a2, inst.args = [a0, a1, a2] ∧ parseRegister t a0 = .ok rd ∧ parseCSR t a1 = .ok csr ∧
      parseRegister t a2 = .ok rs1 := by
  unfold parseCSRArgs at h
  split at h
  · rename_i a0 a1 a2 hargs
    obtain ⟨d, hd, h⟩ := bind_ok (atLine_ok h)
    obtain ⟨c, hc, h⟩ := bind_ok h
    obtain ⟨s, hs, h⟩ := bind_ok h
    cases h
    exact ⟨a0, a1, a2, hargs, hd, hc, hs⟩
  · cases h

theorem parseLoadStoreArgs_ok {reg1 base : Nat} {imm : Word}
    (h : parseLoadStoreArgs t inst = .ok (reg1, base, imm)) :
    ∃ a0 a1, inst.args = [a0, a1] ∧ parseRegister t a0 = .ok reg1 ∧
      parseOffsetArg t a1 = .ok (imm, base) := by
  unfold parseLoadStoreArgs at h
  split at h
  · rename_i a0 a1 hargs
    obtain ⟨d, hd, h⟩ := bind_ok (atLine_ok h)
    obtain ⟨⟨i, s⟩, hm, h⟩ := bind_ok h
    cases h
    exact ⟨a0, a1, hargs, hd, hm⟩
  · cases h

/-! ## Mnemonics -/

theorem rTypeFunct_eq (fn : OpFn) : rTypeFunct fn = (fn.funct3.setWidth 32, fn.funct7.setWidth 32) := by
  cases fn <;> rfl

theorem branchFunct3_eq (cond : Cond) : branchFunct3 cond = cond.funct3.setWidth 32 := by
  cases cond <;> rfl

theorem csrFunct3_eq (fn : CsrFn) : csrFunct3 fn = fn.funct3.setWidth 32 := by
  cases fn <;> rfl

/-- The word of the instruction that the line spells. -/
def Spells (t : Tables) (labels : Text → Option Word) (inst : AsmLine) (m : Mnemonic) (w : Word) : Prop :=
  ∃ instr, Written t labels inst.pc m inst.args instr ∧ w = encode instr

theorem encodeRType_spells {fn : OpFn} (h : encodeRType t inst fn = .ok w) :
    Spells t labels inst (.rType fn) w := by
  unfold encodeRType at h
  split at h
  · rename_i a0 a1 a2 hargs
    obtain ⟨d, hd, h⟩ := bind_ok (atLine_ok h)
    obtain ⟨s, hs, h⟩ := bind_ok h
    obtain ⟨u, hu, h⟩ := bind_ok h
    obtain ⟨hd32, hdreg⟩ := parseRegister_ok hd
    obtain ⟨hs32, hsreg⟩ := parseRegister_ok hs
    obtain ⟨hu32, hureg⟩ := parseRegister_ok hu
    rw [rTypeFunct_eq] at h
    injection h with h
    refine ⟨.op fn (reg d) (reg s) (reg u), hargs ▸ .rType fn hdreg hsreg hureg, ?_⟩
    rw [← h, uint32_eq hd32, uint32_eq hs32, uint32_eq hu32]
    exact rType_layout _ _ _ _ _ 0b0110011#7
  · cases h

theorem encodeBranch_spells {cond : Cond} (hp : Plain t (.branch cond) inst.args)
    (h : encodeBranch t labels inst cond = .ok w) : Spells t labels inst (.branch cond) w := by
  unfold encodeBranch at h
  split at h
  · rename_i a0 a1 a2 hargs
    rw [hargs] at hp
    obtain ⟨s, hs, h⟩ := bind_ok (atLine_ok h)
    obtain ⟨u, hu, h⟩ := bind_ok h
    obtain ⟨o, ho, h⟩ := bind_ok h
    obtain ⟨hs32, hsreg⟩ := parseRegister_ok hs
    obtain ⟨hu32, hureg⟩ := parseRegister_ok hu
    rw [branchFunct3_eq] at h
    obtain ⟨hw, hoff⟩ := encodeBType_ok hs32 hu32 h
    refine ⟨.branch cond (reg s) (reg u) (o.extractLsb' 1 12), hargs ▸ .branch cond hsreg hureg ?_, hw⟩
    rw [hoff]
    exact resolve_ok hp ho
  · cases h

theorem encodeJType_spells (hp : Plain t .jal inst.args) (h : encodeJType t labels inst = .ok w) :
    Spells t labels inst .jal w := by
  unfold encodeJType at h
  split at h
  · rename_i a0 a1 hargs
    rw [hargs] at hp
    obtain ⟨d, hd, h⟩ := bind_ok (atLine_ok h)
    obtain ⟨o, ho, h⟩ := bind_ok h
    obtain ⟨hd32, hdreg⟩ := parseRegister_ok hd
    obtain ⟨hw, hoff⟩ := encodeJal_ok hd32 h
    refine ⟨.jal (reg d) (o.extractLsb' 1 20), hargs ▸ .jal hdreg ?_, hw⟩
    rw [hoff]
    exact resolve_ok hp ho
  · cases h

-- LUI and AUIPC.
theorem encodeUpper_ok {op : String} (opc : BitVec 7)
    (h : encodeUpper t inst op (opc.setWidth 32) = .ok w) :
    ∃ a0 a1 d imm, inst.args = [a0, a1] ∧ NamesReg t a0 d ∧
      parseImmediate t a1 = .ok (BitVec.setWidth 32 imm) ∧ w = Rv32i.uType imm d opc := by
  unfold encodeUpper at h
  split at h
  · rename_i a0 a1 hargs
    obtain ⟨d, hd, h⟩ := bind_ok (atLine_ok h)
    obtain ⟨i, hi, h⟩ := bind_ok h
    obtain ⟨hd32, hdreg⟩ := parseRegister_ok hd
    obtain ⟨hw, himm⟩ := encodeUType_ok hd32 h
    refine ⟨a0, a1, reg d, i.extractLsb' 0 20, hargs, hdreg, ?_, hw⟩
    rw [himm]
    exact hi
  · cases h

-- ADDI and JALR.
theorem encodeRRI_ok (f3 : BitVec 3) (opc : BitVec 7)
    (h : (parseRRI t inst).bind (fun (rd, rs1, imm) ↦
      atLine inst.line (encodeI rd rs1 imm (f3.setWidth 32) (opc.setWidth 32))) = .ok w) :
    ∃ a0 a1 a2 d s imm, inst.args = [a0, a1, a2] ∧ NamesReg t a0 d ∧ NamesReg t a1 s ∧
      parseImmediate t a2 = .ok (BitVec.signExtend 32 imm) ∧ w = Rv32i.iType imm s f3 d opc := by
  obtain ⟨⟨d, s, i⟩, hparse, h⟩ := bind_ok h
  obtain ⟨a0, a1, a2, hargs, hd, hs, hi⟩ := parseRRI_ok hparse
  obtain ⟨hd32, hdreg⟩ := parseRegister_ok hd
  obtain ⟨hs32, hsreg⟩ := parseRegister_ok hs
  obtain ⟨hw, himm⟩ := encodeI_ok f3 opc hd32 hs32 (atLine_ok h)
  refine ⟨a0, a1, a2, reg d, reg s, i.extractLsb' 0 12, hargs, hdreg, hsreg, ?_, hw⟩
  rw [himm]
  exact hi

theorem encodeInstruction_spells {m : Mnemonic} (hm : mnemonicOf inst.op = some m)
    (hp : Plain t m inst.args) (h : encodeInstruction t labels inst = .ok w) :
    Spells t labels inst m w := by
  unfold encodeInstruction at h
  rw [hm] at h
  cases m with
  | nop =>
    cases h
    change inst.args = [] at hp
    exact ⟨.addi 0 0 0, hp ▸ .nop, rfl⟩
  | addi =>
    obtain ⟨a0, a1, a2, d, s, i, hargs, hd, hs, hi, hw⟩ := encodeRRI_ok 0b000#3 0b0010011#7 h
    rw [hargs] at hp
    exact ⟨.addi d s i, hargs ▸ .addi hd hs (parseImmediate_ok hp hi), hw⟩
  | rType fn => exact encodeRType_spells h
  | lui =>
    obtain ⟨a0, a1, d, i, hargs, hd, hi, hw⟩ := encodeUpper_ok 0b0110111#7 h
    rw [hargs] at hp
    exact ⟨.lui d i, hargs ▸ .lui hd (parseImmediate_ok hp hi), hw⟩
  | auipc =>
    obtain ⟨a0, a1, d, i, hargs, hd, hi, hw⟩ := encodeUpper_ok 0b0010111#7 h
    rw [hargs] at hp
    exact ⟨.auipc d i, hargs ▸ .auipc hd (parseImmediate_ok hp hi), hw⟩
  | lw =>
    obtain ⟨⟨d, s, i⟩, hparse, h⟩ := bind_ok h
    obtain ⟨a0, a1, hargs, hd, hmem⟩ := parseLoadStoreArgs_ok hparse
    rw [hargs] at hp
    obtain ⟨a, b, hform, hshort⟩ := hp
    obtain ⟨hd32, hdreg⟩ := parseRegister_ok hd
    obtain ⟨hs32, hwritten⟩ := parseOffsetArg_ok hform hshort hmem
    obtain ⟨hw, himm⟩ := encodeI_ok 0b010#3 0b0000011#7 hd32 hs32 (atLine_ok h)
    refine ⟨.lw (reg d) (reg s) (i.extractLsb' 0 12), hargs ▸ .lw hdreg ?_, hw⟩
    rw [himm]
    exact hwritten
  | sw =>
    obtain ⟨⟨u, s, i⟩, hparse, h⟩ := bind_ok h
    obtain ⟨a0, a1, hargs, hu, hmem⟩ := parseLoadStoreArgs_ok hparse
    rw [hargs] at hp
    obtain ⟨a, b, hform, hshort⟩ := hp
    obtain ⟨hu32, hureg⟩ := parseRegister_ok hu
    obtain ⟨hs32, hwritten⟩ := parseOffsetArg_ok hform hshort hmem
    obtain ⟨hw, himm⟩ := encodeSType_ok 0b010#3 hu32 hs32 (atLine_ok h)
    refine ⟨.sw (reg s) (reg u) (i.extractLsb' 0 12), hargs ▸ .sw hureg ?_, hw⟩
    rw [himm]
    exact hwritten
  | branch cond => exact encodeBranch_spells hp h
  | jal => exact encodeJType_spells hp h
  | jalr =>
    obtain ⟨a0, a1, a2, d, s, i, hargs, hd, hs, hi, hw⟩ := encodeRRI_ok 0b000#3 0b1100111#7 h
    rw [hargs] at hp
    exact ⟨.jalr d s i, hargs ▸ .jalr hd hs (parseImmediate_ok hp hi), hw⟩
  | csr fn =>
    obtain ⟨⟨d, c, s⟩, hparse, h⟩ := bind_ok h
    obtain ⟨a0, a1, a2, hargs, hd, hc, hs⟩ := parseCSRArgs_ok hparse
    obtain ⟨hd32, hdreg⟩ := parseRegister_ok hd
    obtain ⟨hs32, hsreg⟩ := parseRegister_ok hs
    simp only [csrFunct3_eq] at h
    obtain ⟨hw, hcsr⟩ := encodeSystem_ok hd32 hs32 h
    refine ⟨.csr fn (reg d) (reg s) (c.extractLsb' 0 12), hargs ▸ .csr fn hdreg ?_ hsreg, hw⟩
    have hlt := (c.extractLsb' 0 12).isLt
    have hnum : c.toInt = ((c.extractLsb' 0 12).toNat : Int) := by
      conv_lhs => rw [← hcsr]
      rw [BitVec.toInt_setWidth]
      apply Int.bmod_eq_of_le_mul_two <;> omega
    rw [WrittenCsr, parseCSR_ok hc, hnum]
  | ecall =>
    obtain ⟨hargs, h⟩ := ok_of_check h
    cases h
    exact ⟨.ecall, (not_not.mp hargs) ▸ .ecall, rfl⟩
  | mret =>
    obtain ⟨hargs, h⟩ := ok_of_check h
    cases h
    exact ⟨.mret, (not_not.mp hargs) ▸ .mret, rfl⟩

theorem WrittenImm.short (h : WrittenImm t token w) : ShortImm t token := by
  obtain ⟨v, hv, hint, -⟩ := h
  intro v' hv'
  rw [hv] at hv'
  cases hv'
  exact hint

theorem WrittenTarget.short {pc : Word} (h : WrittenTarget t labels pc token w) :
    ShortImm t (trimSpace token) := by
  obtain h | ⟨hnone, -⟩ := h
  · exact h.short
  · intro v hv
    rw [hnone] at hv
    cases hv

theorem Written.plain {pc : Word} {m : Mnemonic} {args : List Text} {instr : Instr}
    (h : Written t labels pc m args instr) : Plain t m args := by
  cases h with
  | nop => rfl
  | addi hd hs hi => exact hi.short
  | rType fn hd hs hu => trivial
  | lui hd hi => exact hi.short
  | auipc hd hi => exact hi.short
  | lw hd hm =>
    obtain ⟨a, b, hform, hi, -⟩ := hm
    exact ⟨a, b, hform, hi.short⟩
  | sw hu hm =>
    obtain ⟨a, b, hform, hi, -⟩ := hm
    exact ⟨a, b, hform, hi.short⟩
  | branch cond hs hu ho => exact ho.short
  | jal hd ho => exact ho.short
  | jalr hd hs hi => exact hi.short
  | csr fn hd ha hs => trivial
  | ecall => trivial
  | mret => trivial

/-- The operands of the line are plain. -/
def PlainLine (t : Tables) (inst : AsmLine) : Prop :=
  ∀ m, mnemonicOf inst.op = some m → Plain t m inst.args

theorem mnemonicOf_ok (h : encodeInstruction t labels inst = .ok w) : ∃ m, mnemonicOf inst.op = some m := by
  unfold encodeInstruction at h
  cases hm : mnemonicOf inst.op with
  | none =>
    rw [hm] at h
    cases h
  | some m => exact ⟨m, rfl⟩

/-- An accepted line means to the core what it says exactly when the assembler reads its operands in
full. -/
theorem agrees_iff (h : encodeInstruction t labels inst = .ok w) :
    Agrees t labels inst w ↔ PlainLine t inst := by
  constructor
  · rintro ⟨m', instr, hm', hwritten, -⟩ m hm
    rw [hm] at hm'
    cases hm'
    exact hwritten.plain
  · intro hp
    obtain ⟨m, hm⟩ := mnemonicOf_ok h
    obtain ⟨instr, hwritten, rfl⟩ := encodeInstruction_spells hm (hp m hm) h
    exact ⟨m, instr, hm, hwritten, selects_encode instr⟩

/-- No macros and no labels, with the case mappings of ASCII. -/
def plainTables : Tables where
  cases := ⟨Char.toUpper, Char.toLower⟩
  macroTable _ := none
  labelTable := some fun _ ↦ none

/-- `ADDI a0, zero, imm` in line 1. -/
def addiLine (imm : String) : AsmLine where
  op := "ADDI".toList
  args := ["a0".toList, "zero".toList, imm.toList]
  line := 1
  pc := 0

theorem addiLine_agrees : Agrees plainTables (fun _ ↦ none) (addiLine "-1") 0xFFF00513#32 := by
  have hok : encodeInstruction plainTables (fun _ ↦ none) (addiLine "-1") = .ok 0xFFF00513#32 := by decide
  apply (agrees_iff hok).mpr
  intro m hm
  have haddi : mnemonicOf (addiLine "-1").op = some .addi := by decide
  rw [haddi] at hm
  cases hm
  intro v hv
  have hval : immediateValue plainTables "-1".toList = some (-1) := by decide
  change immediateValue plainTables "-1".toList = some v at hv
  rw [hval] at hv
  cases hv
  exact ⟨by decide, by decide⟩

/-- A number that needs 33 bits is accepted for the number in its lower ones. -/
theorem addiLine_truncated :
    encodeInstruction plainTables (fun _ ↦ none) (addiLine "0x100000005") = .ok 0x00500513#32 ∧
      ¬ Agrees plainTables (fun _ ↦ none) (addiLine "0x100000005") 0x00500513#32 := by
  refine ⟨by decide, ?_⟩
  rintro ⟨m, instr, hm, hwritten, -⟩
  have haddi : mnemonicOf (addiLine "0x100000005").op = some .addi := by decide
  rw [haddi] at hm
  cases hm
  have hval : immediateValue plainTables "0x100000005".toList = some 0x100000005 := by decide
  have hint : Int32 0x100000005 := hwritten.plain _ hval
  exact absurd hint.2 (by decide)

end Assembler

end QarCore
