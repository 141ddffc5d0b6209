import QarCore.DevKit.Labels
import QarCore.Rv32i.Effects

/-!
# Listings

What the lines of a program say, before there are words and addresses: a branch goes to a label, which is a
place between the lines.  The assembler preserves this meaning: in an accepted program, one step of a hart on
the image is one line of the listing.
-/

namespace QarCore

namespace Assembler

open GoText (Text Cases trimSpace)
open Rv32i (Instr Cond Effect Hart Operands Platform Reg)

universe v w

/-! ## Lines -/

/-- Where a branch or JAL goes. -/
inductive Goal
  | offset (o : Word)
  | label (name : Text)
  deriving DecidableEq

/-- A line, with the registers and the immediates it names. -/
inductive Stmt
  | plain (instr : Instr)
  | branch (cond : Cond) (rs1 rs2 : Reg) (goal : Goal)
  | jal (rd : Reg) (goal : Goal)
  deriving DecidableEq

namespace Stmt

def rd : Stmt → Reg
  | plain instr => instr.rd
  | branch _ _ _ _ => 0#5
  | jal rd _ => rd

def rs1 : Stmt → Reg
  | plain instr => instr.rs1
  | branch _ rs1 _ _ => rs1
  | jal _ _ => 0#5

def rs2 : Stmt → Reg
  | plain instr => instr.rs2
  | branch _ _ rs2 _ => rs2
  | jal _ _ => 0#5

end Stmt

/-- The address of a goal, from the addresses of the labels and the one of the line. -/
def Goal.dest (labels : Text → Option Word) (pc : Word) : Goal → Option Word
  | offset o => some (pc + o)
  | label name => labels name

/-- What a line does; a branch or JAL to nowhere does nothing. -/
def Stmt.effect (labels : Text → Option Word) (x : Operands) : Stmt → Option Effect
  | plain instr => some (Rv32i.effect x instr)
  | branch cond _ _ goal => (goal.dest labels x.pc).map fun dest ↦
      ⟨if cond.holds x.rs1 x.rs2 then dest else x.pc + 4#32, none, none, none, none⟩
  | jal _ goal => (goal.dest labels x.pc).map fun dest ↦ ⟨dest, some (x.pc + 4#32), none, none, none⟩

/-- The mnemonic takes a branch target. -/
def Mnemonic.jumps : Mnemonic → Bool
  | .branch _ => true
  | .jal => true
  | _ => false

section Text

variable (t : Tables)

/-- A target that reads as an immediate is an offset, any other one a label. -/
inductive SaysGoal (token : Text) : Goal → Prop
  | offset {o} (h : WrittenImm t (trimSpace token) o) : SaysGoal token (.offset o)
  | label (h : immediateValue t (trimSpace token) = none) : SaysGoal token (.label (trimSpace token))

/-- What a mnemonic and its operands say. -/
inductive Says : Mnemonic → List Text → Stmt → Prop
  | plain {m args instr} (hm : m.jumps = false) (h : Written t (fun _ ↦ none) 0 m args instr) :
      Says m args (.plain instr)
  | branch {a0 a1 a2 s u goal} (cond : Cond) (hs : NamesReg t a0 s) (hu : NamesReg t a1 u)
      (hg : SaysGoal t a2 goal) : Says (.branch cond) [a0, a1, a2] (.branch cond s u goal)
  | jal {a0 a1 d goal} (hd : NamesReg t a0 d) (hg : SaysGoal t a1 goal) : Says .jal [a0, a1] (.jal d goal)

end Text

/-! ## Places -/

/-- The number of lines in front of a label. -/
def place (name : Text) : List Item → Option Nat
  | [] => none
  | .label other :: items => if other = name then some 0 else place name items
  | .inst _ _ :: items => (place name items).map (· + 1)

/-- The address of a label. -/
def labelAddr (items : List Item) (name : Text) : Option Word := (place name items).map addrOf

/-- The labels and instructions of a program, what its operands are read with, and the size of the memory. -/
structure Listing where
  tables : Tables
  items : List Item
  depth : Nat

/-- The line with number `k`: after the last one there are NOPs up to the end of the memory. -/
inductive Listing.LineAt (l : Listing) (k : Nat) : Stmt → Prop
  | line {op args m stmt} (hget : (l.items.filterMap Item.parts?)[k]? = some (op, args))
      (hm : mnemonicOf op = some m) (hs : Says l.tables m args stmt) : LineAt l k stmt
  | filler (hlo : instCount l.items ≤ k) (hhi : k < l.depth) : LineAt l k (.plain (.addi 0 0 0))

/-- The assembler reads the operands of every line in full. -/
def Listing.PlainLines (l : Listing) : Prop :=
  ∀ op args m, .inst op args ∈ l.items → mnemonicOf op = some m → Plain l.tables m args

/-! ## A hart on the lines -/

section Hart

variable {C : Type v} {M : Type w} (P : Platform C M) (h : Hart C M)

/-- The values a line reads. -/
def Stmt.operands (stmt : Stmt) : Operands where
  pc := h.pc
  rs1 := h.reg stmt.rs1
  rs2 := h.reg stmt.rs2
  csr := P.csrRead h.csrs
  tvec := P.tvec h.csrs
  epc := P.epc h.csrs

end Hart

/-! ## The labels of a program -/

variable {f : Files} {u : Cases} {src : SourceLine} {items rest : List Item} {p : Program}

theorem place_append (name : Text) (items rest : List Item) :
    place name (items ++ rest) = (place name items).or ((place name rest).map (· + instCount items)) := by
  induction items with
  | nil =>
    change place name rest = (none : Option Nat).or ((place name rest).map (· + 0))
    cases place name rest <;> rfl
  | cons item items ih =>
    cases item with
    | label other =>
      have hcount : instCount (.label other :: items) = instCount items :=
        List.countP_cons_of_neg Bool.false_ne_true
      rw [List.cons_append, place, place, hcount, ih]
      by_cases hname : other = name
      · rw [if_pos hname, if_pos hname]
        rfl
      · rw [if_neg hname, if_neg hname]
    | inst op args =>
      have hcount : instCount (.inst op args :: items) = instCount items + 1 :=
        List.countP_cons_of_pos rfl
      rw [List.cons_append, place, place, hcount, ih]
      cases place name items with
      | some k => rfl
      | none =>
        cases place name rest with
        | none => rfl
        | some k => exact congrArg some (Nat.add_assoc _ _ _)

/-- The label table is the one of the items read so far. -/
structure Places (items : List Item) (p : Program) : Prop where
  pc : p.pc = addrOf (instCount items)
  labels : p.labels = labelAddr items

theorem places_start : Places [] emptyProgram := ⟨rfl, rfl⟩

theorem Places.label (h : Places items p) {name : Text} (hnew : p.labels name = none) :
    Places (items ++ [.label name]) { p with labels := Function.update p.labels name (some p.pc) } where
  pc := by
    rw [instCount_append]
    exact h.pc
  labels := by
    funext other
    change Function.update p.labels name (some p.pc) other = labelAddr _ other
    rw [labelAddr, place_append, h.labels, h.pc]
    by_cases hother : other = name
    · subst hother
      rw [h.labels, labelAddr, Option.map_eq_none_iff] at hnew
      rw [Function.update_self, hnew, place, if_pos rfl]
      simp
    · rw [Function.update_of_ne hother, place, if_neg (Ne.symm hother), place, Option.map_none, Option.or_none]
      rfl

theorem Places.inst (h : Places items p) (op : Text) (args : List Text) (line : Nat) :
    Places (items ++ [.inst op args])
      { p with insts := p.insts ++ [⟨op, args, line, p.pc⟩], pc := p.pc + 4#32 } where
  pc := by
    rw [instCount_append]
    change p.pc + 4#32 = _
    rw [h.pc]
    exact addrOf_succ _
  labels := by
    funext other
    change p.labels other = labelAddr _ other
    rw [labelAddr, place_append, h.labels, place, place, Option.map_none, Option.map_none, Option.or_none]
    rfl

theorem places_invariant : ItemInvariant Places := ⟨fun h hnew ↦ h.label hnew, Places.inst⟩

/-! ## The lines of a program -/

variable {t : Tables} {m : Mnemonic} {args : List Text}

-- Without a target, neither the labels nor the address matter.
theorem says_of_written {labels : Text → Option Word} {pc : Word} {instr : Instr}
    (h : Written t labels pc m args instr) : ∃ stmt, Says t m args stmt ∧ stmt.rd = instr.rd ∧
      stmt.rs1 = instr.rs1 ∧ stmt.rs2 = instr.rs2 ∧
      ∀ x : Operands, x.pc = pc → stmt.effect labels x = some (Rv32i.effect x instr) := by
  cases h with
  | nop => exact ⟨_, .plain rfl .nop, rfl, rfl, rfl, fun _ _ ↦ rfl⟩
  | addi hd hs hi => exact ⟨_, .plain rfl (.addi hd hs hi), rfl, rfl, rfl, fun _ _ ↦ rfl⟩
  | rType fn hd hs hu => exact ⟨_, .plain rfl (.rType fn hd hs hu), rfl, rfl, rfl, fun _ _ ↦ rfl⟩
  | lui hd hi => exact ⟨_, .plain rfl (.lui hd hi), rfl, rfl, rfl, fun _ _ ↦ rfl⟩
  | auipc hd hi => exact ⟨_, .plain rfl (.auipc hd hi), rfl, rfl, rfl, fun _ _ ↦ rfl⟩
  | lw hd hm => exact ⟨_, .plain rfl (.lw hd hm), rfl, rfl, rfl, fun _ _ ↦ rfl⟩
  | sw hu hm => exact ⟨_, .plain rfl (.sw hu hm), rfl, rfl, rfl, fun _ _ ↦ rfl⟩
  | jalr hd hs hi => exact ⟨_, .plain rfl (.jalr hd hs hi), rfl, rfl, rfl, fun _ _ ↦ rfl⟩
  | csr fn hd ha hs => exact ⟨_, .plain rfl (.csr fn hd ha hs), rfl, rfl, rfl, fun _ _ ↦ rfl⟩
  | ecall => exact ⟨_, .plain rfl .ecall, rfl, rfl, rfl, fun _ _ ↦ rfl⟩
  | mret => exact ⟨_, .plain rfl .mret, rfl, rfl, rfl, fun _ _ ↦ rfl⟩
  | branch cond hs hu ho =>
    rcases ho with himm | ⟨hnone, addr, hl, ho⟩
    · exact ⟨_, .branch cond hs hu (.offset himm), rfl, rfl, rfl, fun _ _ ↦ rfl⟩
    · refine ⟨_, .branch cond hs hu (.label hnone), rfl, rfl, rfl, fun x hx ↦ ?_⟩
      have hdest : x.pc + (addr - pc) = addr := by rw [hx, add_comm, BitVec.sub_add_cancel]
      rw [Stmt.effect, Goal.dest, hl, Rv32i.effect, ho, hdest]
      rfl
  | jal hd ho =>
    rcases ho with himm | ⟨hnone, addr, hl, ho⟩
    · exact ⟨_, .jal hd (.offset himm), rfl, rfl, rfl, fun _ _ ↦ rfl⟩
    · refine ⟨_, .jal hd (.label hnone), rfl, rfl, rfl, fun x hx ↦ ?_⟩
      have hdest : x.pc + (addr - pc) = addr := by rw [hx, add_comm, BitVec.sub_add_cancel]
      rw [Stmt.effect, Goal.dest, hl, Rv32i.effect, ho, hdest]
      rfl

-- A line says one thing only.
section Unique

variable {token : Text}

theorem NamesReg.unique {r r' : RegIdx} (h : NamesReg t token r) (h' : NamesReg t token r') : r = r' := by
  rw [NamesReg] at h h'
  exact BitVec.eq_of_toNat_eq (Option.some.inj (h.symm.trans h'))

theorem WrittenImm.unique {w w' : Word} (h : WrittenImm t token w) (h' : WrittenImm t token w') : w = w' := by
  obtain ⟨n, hn, -, rfl⟩ := h
  obtain ⟨n', hn', -, rfl⟩ := h'
  rw [Option.some.inj (hn.symm.trans hn')]

theorem WrittenMem.unique {arg : Text} {imm imm' : Word} {base base' : RegIdx} (h : WrittenMem t arg imm base)
    (h' : WrittenMem t arg imm' base') : imm = imm' ∧ base = base' := by
  obtain ⟨a, b, ⟨harg, ha, hac, hb⟩, himm, hreg⟩ := h
  obtain ⟨a', b', ⟨harg', ha', hac', hb'⟩, himm', hreg'⟩ := h'
  have hsplit : MemSplit arg a b [] := ⟨harg, ha, hac, hb⟩
  have hsplit' : MemSplit arg a' b' [] := ⟨harg', ha', hac', hb'⟩
  have hlen : a.length = a'.length := Option.some.inj (hsplit.index_open.symm.trans hsplit'.index_open)
  have haa : a = a' := by rw [← hsplit.take_open, ← hsplit'.take_open, hlen]
  have hcloseLen : a.length + 1 + b.length = a'.length + 1 + b'.length :=
    Option.some.inj (hsplit.index_close.symm.trans hsplit'.index_close)
  have hbb : b = b' := by rw [← hsplit.take_close, ← hsplit'.take_close, hcloseLen, hlen]
  subst haa hbb
  exact ⟨himm.unique himm', hreg.unique hreg'⟩

theorem WrittenCsr.unique {addr addr' : BitVec 12} (h : WrittenCsr t token addr) (h' : WrittenCsr t token addr') :
    addr = addr' := by
  rw [WrittenCsr] at h h'
  exact BitVec.eq_of_toNat_eq (Int.ofNat_inj.mp (Option.some.inj (h.symm.trans h')))

theorem SaysGoal.unique {g g' : Goal} (h : SaysGoal t token g) (h' : SaysGoal t token g') : g = g' := by
  cases h with
  | offset h =>
    cases h' with
    | offset h' => rw [h.unique h']
    | label hnone =>
      obtain ⟨n, hn, -⟩ := h
      rw [hn] at hnone
      cases hnone
  | label hnone =>
    cases h' with
    | offset h' =>
      obtain ⟨n, hn, -⟩ := h'
      rw [hn] at hnone
      cases hnone
    | label h' => rfl

-- The immediates of the formats are determined by their values.
theorem signExtend_inj {a b : BitVec 12} (h : a.signExtend 32 = b.signExtend 32) : a = b := by
  have hint := congrArg BitVec.toInt h
  rw [BitVec.toInt_signExtend_of_le (by decide), BitVec.toInt_signExtend_of_le (by decide)] at hint
  exact BitVec.eq_of_toInt_eq hint

theorem setWidth_inj {a b : BitVec 20} (h : a.setWidth 32 = b.setWidth 32) : a = b := by
  have hset := congrArg (BitVec.setWidth 20) h
  rwa [BitVec.setWidth_setWidth_of_le _ (by decide), BitVec.setWidth_setWidth_of_le _ (by decide),
    BitVec.setWidth_eq, BitVec.setWidth_eq] at hset

theorem Written.unique {labels : Text → Option Word} {pc : Word} {instr instr' : Instr} (hm : m.jumps = false)
    (h : Written t labels pc m args instr) (h' : Written t labels pc m args instr') : instr = instr' := by
  cases h with
  | nop | ecall | mret =>
    cases h'
    rfl
  | addi hd hs hi =>
    cases h' with
    | addi hd' hs' hi' => rw [hd.unique hd', hs.unique hs', signExtend_inj (hi.unique hi')]
  | jalr hd hs hi =>
    cases h' with
    | jalr hd' hs' hi' => rw [hd.unique hd', hs.unique hs', signExtend_inj (hi.unique hi')]
  | rType fn hd hs hu =>
    cases h' with
    | rType _ hd' hs' hu' => rw [hd.unique hd', hs.unique hs', hu.unique hu']
  | lui hd hi =>
    cases h' with
    | lui hd' hi' => rw [hd.unique hd', setWidth_inj (hi.unique hi')]
  | auipc hd hi =>
    cases h' with
    | auipc hd' hi' => rw [hd.unique hd', setWidth_inj (hi.unique hi')]
  | lw hd hmem =>
    cases h' with
    | lw hd' hmem' => rw [hd.unique hd', signExtend_inj (hmem.unique hmem').1, (hmem.unique hmem').2]
  | sw hu hmem =>
    cases h' with
    | sw hu' hmem' => rw [hu.unique hu', signExtend_inj (hmem.unique hmem').1, (hmem.unique hmem').2]
  | csr fn hd ha hs =>
    cases h' with
    | csr _ hd' ha' hs' => rw [hd.unique hd', ha.unique ha', hs.unique hs']
  | branch | jal => cases hm

theorem Says.unique {stmt stmt' : Stmt} (h : Says t m args stmt) (h' : Says t m args stmt') : stmt = stmt' := by
  cases h with
  | plain hm h =>
    cases h' with
    | plain _ h' => rw [h.unique hm h']
    | branch => cases hm
    | jal => cases hm
  | branch cond hs hu hg =>
    cases h' with
    | plain hm => cases hm
    | branch _ hs' hu' hg' => rw [hs.unique hs', hu.unique hu', hg.unique hg']
  | jal hd hg =>
    cases h' with
    | plain hm => cases hm
    | jal hd' hg' => rw [hd.unique hd', hg.unique hg']

theorem Listing.LineAt.lt {l : Listing} {k : Nat} {stmt : Stmt} (h : l.LineAt k stmt)
    (hfit : instCount l.items ≤ l.depth) : k < l.depth := by
  cases h with
  | line hget =>
    have hk := (List.getElem?_eq_some_iff.mp hget).1
    rw [length_filterMap_parts] at hk
    omega
  | filler _ hhi => exact hhi

theorem Listing.LineAt.unique {l : Listing} {k : Nat} {stmt stmt' : Stmt} (h : l.LineAt k stmt)
    (h' : l.LineAt k stmt') : stmt = stmt' := by
  have hlt : ∀ {x}, (l.items.filterMap Item.parts?)[k]? = some x → k < instCount l.items := by
    intro x hx
    rw [← length_filterMap_parts]
    exact (List.getElem?_eq_some_iff.mp hx).1
  cases h with
  | line hget hm hs =>
    cases h' with
    | line hget' hm' hs' =>
      cases hget.symm.trans hget'
      cases hm.symm.trans hm'
      exact hs.unique hs'
    | filler hlo => exact absurd (hlt hget) (Nat.not_lt.mpr hlo)
  | filler hlo =>
    cases h' with
    | line hget' => exact absurd (hlt hget') (Nat.not_lt.mpr hlo)
    | filler => rfl

end Unique

theorem encodeAll_length {labels : Text → Option Word} {insts : List AsmLine} {ws : List Word}
    (h : encodeAll t labels insts = .ok ws) : ws.length = insts.length := by
  induction insts generalizing ws with
  | nil =>
    cases h
    rfl
  | cons inst insts ih =>
    obtain ⟨w, -, h⟩ := bind_ok h
    obtain ⟨ws', hws, h⟩ := bind_ok h
    cases h
    exact congrArg (· + 1) (ih hws)

/-- The listing of the lines that the first pass leaves. -/
def listing (u : Cases) (parser : AsmParser) (depth : Nat) : Listing where
  tables := ⟨u, parser.macros, some (labelAddr (programItems u parser.lines))⟩
  items := programItems u parser.lines
  depth := depth

section Built

variable {paths : List Text} {depth : Nat} {words : List Word} {parser : AsmParser}
  (hb : Built f u paths depth words parser p)

include hb

theorem Built.holds : Holds (programItems u parser.lines) p :=
  holds_invariant.parseLines holds_start hb.parse

theorem Built.places : Places (programItems u parser.lines) p :=
  places_invariant.parseLines places_start hb.parse

theorem Built.tables : buildTables u parser p = (listing u parser depth).tables := by
  rw [buildTables, listing, hb.places.labels]

-- The word with number `k` does what line `k` says.
theorem Built.line (hplain : (listing u parser depth).PlainLines) {k : Nat} {w : Word}
    (hk : words[k]? = some w) : ∃ stmt instr, (listing u parser depth).LineAt k stmt ∧
      Rv32i.decode w = some instr ∧ stmt.rd = instr.rd ∧ stmt.rs1 = instr.rs1 ∧ stmt.rs2 = instr.rs2 ∧
      ∀ x : Operands, x.pc = addrOf k →
        stmt.effect (labelAddr (programItems u parser.lines)) x = some (Rv32i.effect x instr) := by
  obtain ⟨ws, hws, rfl⟩ := hb.encoded
  have hlen := encodeAll_length hws
  by_cases hlt : k < ws.length
  · -- a line of the source
    rw [List.getElem?_append_left hlt] at hk
    obtain ⟨inst, hget⟩ : ∃ inst, p.insts[k]? = some inst := by
      rw [hlen] at hlt
      exact ⟨_, List.getElem?_eq_getElem hlt⟩
    obtain ⟨w', hw', henc⟩ := encodeAll_get hws hget
    rw [hk] at hw'
    cases hw'
    have hparts : ((programItems u parser.lines).filterMap Item.parts?)[k]? = some (inst.op, inst.args) := by
      rw [← hb.holds.insts, List.getElem?_map, hget]
      rfl
    have hmem : .inst inst.op inst.args ∈ programItems u parser.lines := by
      obtain ⟨item, hitem, hpart⟩ := List.mem_filterMap.mp (List.mem_of_getElem? hparts)
      cases item with
      | label name => cases hpart
      | inst op args =>
        cases hpart
        exact hitem
    obtain ⟨m, hm⟩ := mnemonicOf_ok henc
    rw [hb.tables] at henc
    obtain ⟨instr, hwritten, rfl⟩ := encodeInstruction_spells hm (hplain _ _ _ hmem hm) henc
    rw [hb.places.labels, hb.holds.pcs k inst hget] at hwritten
    obtain ⟨stmt, hsays, hrd, hrs1, hrs2, heff⟩ := says_of_written hwritten
    exact ⟨stmt, instr, .line hparts hm hsays, Rv32i.decode_encode instr, hrd, hrs1, hrs2, heff⟩
  · -- a NOP behind the last line
    rw [List.getElem?_append_right (Nat.le_of_not_lt hlt), List.getElem?_replicate] at hk
    split at hk
    · rename_i hpad
      cases hk
      have hcount := hb.holds.length
      have hlo : instCount (listing u parser depth).items ≤ k := by
        change instCount (programItems u parser.lines) ≤ k
        omega
      have hhi : k < (listing u parser depth).depth := by
        change k < depth
        omega
      exact ⟨_, .addi 0 0 0, .filler hlo hhi, Rv32i.decode_eq_some.mpr rfl, rfl, rfl, rfl,
        fun _ _ ↦ rfl⟩
    · cases hk

theorem Built.length : instCount (programItems u parser.lines) ≤ depth ∧ words.length = depth := by
  obtain ⟨hload, hlines, h⟩ := id hb
  have hparse : parseAssemblies f u paths = .ok (p, parser.macros) := by
    rw [parseAssemblies, hload]
    change Except.bind (parseLines u parser.lines emptyProgram) _ = _
    rw [hlines]
    rfl
  obtain ⟨-, h⟩ := ok_of_check h
  obtain ⟨-, h⟩ := ok_of_check h
  rw [hparse] at h
  obtain ⟨hfit, -⟩ := ok_of_check h
  obtain ⟨ws, hws, hwords⟩ := hb.encoded
  have hlen := encodeAll_length hws
  have hcount := hb.holds.length
  refine ⟨by omega, ?_⟩
  rw [hwords, List.length_append, List.length_replicate, hlen]
  omega

-- At a line, a hart finds an instruction that does what the line says.
theorem Built.line_at {C : Type v} {M : Type w} (P : Platform C M) {imem : Word → Word} {h : Hart C M}
    (hplain : (listing u parser depth).PlainLines) (himage : ∀ k w, words[k]? = some w → imem (addrOf k) = w)
    {k : Nat} (hpc : h.pc = addrOf k) {stmt : Stmt} (hline : (listing u parser depth).LineAt k stmt) :
    ∃ instr, Rv32i.decode (imem h.pc) = some instr ∧ stmt.rd = instr.rd ∧
      stmt.effect (labelAddr (programItems u parser.lines)) (stmt.operands P h) = some (h.effect P instr) := by
  obtain ⟨hcount, hlen⟩ := hb.length
  have hget := List.getElem?_eq_getElem (l := words) (i := k) (by rw [hlen]; exact hline.lt hcount)
  obtain ⟨stmt', instr, hline', hdec, hrd, hrs1, hrs2, heff⟩ := hb.line hplain hget
  have hstmt := hline.unique hline'
  subst hstmt
  have hops : stmt.operands P h = h.operands P instr := by
    rw [Stmt.operands, Hart.operands, hrs1, hrs2]
  refine ⟨instr, ?_, hrd, by rw [hops]; exact heff _ hpc⟩
  rw [hpc, himage k _ hget]
  exact hdec

theorem Built.exists_line (hplain : (listing u parser depth).PlainLines) {k : Nat} (hk : k < depth) :
    ∃ stmt, (listing u parser depth).LineAt k stmt := by
  rw [← hb.length.2] at hk
  obtain ⟨stmt, -, hline, -⟩ := hb.line hplain (List.getElem?_eq_getElem hk)
  exact ⟨stmt, hline⟩

end Built

end Assembler

end QarCore
