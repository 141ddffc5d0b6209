import QarCore.DevKit.Encoding
import QarCore.DevKit.Source

/-!
# Labels

A program is a sequence of labels and instructions.  A label stands for the address of the next
instruction, and a branch or JAL to it goes there, unless its name reads as an immediate.
-/

namespace QarCore

namespace Assembler

open GoText (Text Cases trimSpace index fields)
open Rv32i (Instr Cond)

variable {f : Files} {u : Cases} {src : SourceLine}

/-! ## The items of a program -/

inductive Item
  | label (name : Text)
  | inst (op : Text) (args : List Text)
  deriving DecidableEq

def Item.isInst : Item → Bool
  | label _ => false
  | inst _ _ => true

def Item.parts? : Item → Option (Text × List Text)
  | label _ => none
  | inst op args => some (op, args)

/-- The labels in front of a line, and the text after them. -/
def lineLabels : Nat → Text → List Text × Text
  | 0, line => ([], line)
  | n + 1, line =>
    match index [':'] line with
    | none => ([], line)
    | some colon =>
      let (names, rest) := lineLabels n (trimSpace (line.drop (colon + 1)))
      (trimSpace (line.take colon) :: names, rest)

def instItems (u : Cases) (rest : Text) : List Item :=
  match fields rest with
  | [] => []
  | op :: args => [.inst (u.toUpper op) (parseArgs (joinSpace args))]

def lineItems (u : Cases) (src : SourceLine) : List Item :=
  let line := trimSpace (stripComment src.text)
  let (names, rest) := lineLabels line.length line
  names.map .label ++ instItems u rest

def programItems (u : Cases) (lines : List SourceLine) : List Item := lines.flatMap (lineItems u)

/-- The number of instructions among the items. -/
def instCount (items : List Item) : Nat := items.countP Item.isInst

/-- The address of the instruction after the first `n`. -/
def addrOf (n : Nat) : Word := BitVec.ofNat 32 (4 * n)

/-! ## The second pass -/

/-- The program of the items read so far. -/
structure Holds (items : List Item) (p : Program) : Prop where
  pc : p.pc = addrOf (instCount items)
  insts : p.insts.map (fun inst ↦ (inst.op, inst.args)) = items.filterMap Item.parts?
  pcs : ∀ k inst, p.insts[k]? = some inst → inst.pc = addrOf k
  labels : ∀ name pre post, items = pre ++ .label name :: post → p.labels name = some (addrOf (instCount pre))

variable {items : List Item} {p : Program}

theorem instCount_append (a b : List Item) : instCount (a ++ b) = instCount a + instCount b :=
  List.countP_append

theorem length_filterMap_parts (items : List Item) :
    (items.filterMap Item.parts?).length = instCount items := by
  induction items with
  | nil => rfl
  | cons item items ih =>
    cases item with
    | label name =>
      have hcount : instCount (.label name :: items) = instCount items :=
        List.countP_cons_of_neg Bool.false_ne_true
      rw [hcount, ← ih]
      rfl
    | inst op args =>
      have hcount : instCount (.inst op args :: items) = instCount items + 1 :=
        List.countP_cons_of_pos rfl
      rw [hcount, ← ih]
      rfl

theorem Holds.length (h : Holds items p) : p.insts.length = instCount items := by
  rw [← length_filterMap_parts, ← h.insts, List.length_map]

theorem addrOf_succ (n : Nat) : addrOf n + 4#32 = addrOf (n + 1) := by
  apply BitVec.eq_of_toNat_eq
  simp only [addrOf, BitVec.toNat_add, BitVec.toNat_ofNat]
  omega

theorem holds_start : Holds [] ⟨[], fun _ ↦ none, 0#32⟩ := by
  constructor
  · rfl
  · rfl
  · intro k inst h
    cases h
  · intro name pre post h
    exact absurd h (List.append_ne_nil_of_right_ne_nil _ (List.cons_ne_nil _ _)).symm

-- A new label stands for the address reached.
theorem Holds.label (h : Holds items p) {name : Text} (hnew : p.labels name = none) :
    Holds (items ++ [.label name]) { p with labels := Function.update p.labels name (some p.pc) } := by
  constructor
  · rw [instCount_append]
    exact h.pc
  · rw [List.filterMap_append, ← h.insts]
    exact (List.append_nil _).symm
  · exact h.pcs
  · intro name' pre post heq
    rcases List.eq_nil_or_concat post with rfl | ⟨post', last, rfl⟩
    · obtain ⟨rfl, hname⟩ := List.append_inj' heq rfl
      cases hname
      change Function.update p.labels name (some p.pc) name = _
      rw [Function.update_self, h.pc]
    · -- the label stands further in front, and is another one
      rw [List.concat_eq_append, ← List.cons_append, ← List.append_assoc] at heq
      obtain ⟨hitems, -⟩ := List.append_inj' heq rfl
      have hold := h.labels name' pre post' hitems
      have hne : name' ≠ name := by
        rintro rfl
        rw [hnew] at hold
        cases hold
      change Function.update p.labels name (some p.pc) name' = _
      rw [Function.update_of_ne hne]
      exact hold

theorem Holds.inst (h : Holds items p) (op : Text) (args : List Text) (line : Nat) :
    Holds (items ++ [.inst op args])
      { p with insts := p.insts ++ [⟨op, args, line, p.pc⟩], pc := p.pc + 4#32 } := by
  constructor
  · rw [instCount_append, h.pc]
    exact addrOf_succ _
  · rw [List.filterMap_append, ← h.insts, List.map_append]
    rfl
  · intro k inst hk
    change (p.insts ++ [(⟨op, args, line, p.pc⟩ : AsmLine)])[k]? = some inst at hk
    rw [List.getElem?_append] at hk
    split at hk
    · exact h.pcs k inst hk
    · rename_i hlen
      have hkeq : k = p.insts.length := by
        by_contra hne
        rw [List.getElem?_eq_none (by simp; omega)] at hk
        cases hk
      subst hkeq
      rw [Nat.sub_self] at hk
      cases hk
      rw [h.length]
      exact h.pc
  · intro name pre post heq
    rcases List.eq_nil_or_concat post with rfl | ⟨post', last, rfl⟩
    · obtain ⟨-, hname⟩ := List.append_inj' heq rfl
      cases hname
    · rw [List.concat_eq_append, ← List.cons_append, ← List.append_assoc] at heq
      obtain ⟨hitems, -⟩ := List.append_inj' heq rfl
      exact h.labels name pre post' hitems

/-! ## A line -/

theorem takeLabels_nil (n : Nat) (pc : Word) (labels : Text → Option Word) :
    takeLabels src pc n labels [] = .ok (labels, []) := by
  cases n <;> rfl

-- One turn of the loop takes a label off the line.
theorem takeLabels_step {n colon : Nat} {line rest : Text} {pc : Word} {old labels : Text → Option Word}
    (hc : index [':'] line = some colon) (hn : line.length ≤ n + 1)
    (hok : takeLabels src pc (n + 1) old line = .ok (labels, rest)) :
    old (trimSpace (line.take colon)) = none ∧ (trimSpace (line.drop (colon + 1))).length ≤ n ∧
      takeLabels src pc n (Function.update old (trimSpace (line.take colon)) (some pc))
        (trimSpace (line.drop (colon + 1))) = .ok (labels, rest) := by
  unfold takeLabels at hok
  rw [hc] at hok
  obtain ⟨-, hok⟩ := ok_of_check hok
  obtain ⟨hfresh, hok⟩ := ok_of_check hok
  refine ⟨by simpa using hfresh, ?_, ?_⟩
  · have htrim := GoText.trimSpace_length_le (line.drop (colon + 1))
    have hsplit := congrArg List.length (GoText.index_char hc).1
    simp only [List.length_append, List.length_cons, List.length_drop] at hsplit htrim
    omega
  · by_cases hend : trimSpace (line.drop (colon + 1)) = []
    · rw [if_pos hend] at hok
      rw [hend, takeLabels_nil, ← hok, hend]
    · rw [if_neg hend] at hok
      exact hok

theorem takeLabels_rest {n : Nat} {line rest : Text} {pc : Word} {old labels : Text → Option Word}
    (hn : line.length ≤ n) (hok : takeLabels src pc n old line = .ok (labels, rest)) :
    rest = (lineLabels n line).2 := by
  induction n generalizing old line with
  | zero =>
    cases hok
    rfl
  | succ n ih =>
    unfold lineLabels
    cases hc : index [':'] line with
    | none =>
      unfold takeLabels at hok
      rw [hc] at hok
      cases hok
      rfl
    | some colon =>
      obtain ⟨-, hlen, hrest⟩ := takeLabels_step hc hn hok
      exact ih hlen hrest

/-- What each label and each instruction that is read preserves, about the items read so far. -/
structure ItemInvariant (R : List Item → Program → Prop) : Prop where
  label : ∀ {items p name}, R items p → p.labels name = none →
    R (items ++ [.label name]) { p with labels := Function.update p.labels name (some p.pc) }
  inst : ∀ {items p}, R items p → ∀ op args line, R (items ++ [.inst op args])
    { p with insts := p.insts ++ [⟨op, args, line, p.pc⟩], pc := p.pc + 4#32 }

namespace ItemInvariant

variable {R : List Item → Program → Prop} (hR : ItemInvariant R)

include hR

theorem takeLabels {n : Nat} {line rest : Text} {labels : Text → Option Word} (h : R items p)
    (hn : line.length ≤ n) (hok : takeLabels src p.pc n p.labels line = .ok (labels, rest)) :
    R (items ++ (lineLabels n line).1.map .label) { p with labels } := by
  induction n generalizing items p line with
  | zero =>
    cases hok
    rw [lineLabels, List.map_nil, List.append_nil]
    exact h
  | succ n ih =>
    unfold lineLabels
    cases hc : index [':'] line with
    | none =>
      unfold Assembler.takeLabels at hok
      rw [hc] at hok
      cases hok
      rw [List.map_nil, List.append_nil]
      exact h
    | some colon =>
      obtain ⟨hnew, hlen, hrest⟩ := takeLabels_step hc hn hok
      have hall := ih (hR.label h hnew) hlen hrest
      rw [List.append_assoc] at hall
      exact hall

theorem parseLine {p' : Program} (h : R items p) (hok : parseLine u src p = .ok p') :
    R (items ++ lineItems u src) p' := by
  unfold Assembler.parseLine at hok
  unfold lineItems
  simp only at hok ⊢
  by_cases hempty : trimSpace (stripComment src.text) = []
  · rw [if_pos hempty] at hok
    cases hok
    rw [hempty]
    exact (List.append_nil items).symm ▸ h
  · rw [if_neg hempty] at hok
    obtain ⟨⟨labels, rest⟩, htake, hok⟩ := bind_ok hok
    have hlabels := hR.takeLabels h le_rfl htake
    have hrest := takeLabels_rest le_rfl htake
    rw [← List.append_assoc, ← hrest]
    simp only at hok
    by_cases hr : rest = []
    · rw [if_pos hr] at hok
      cases hok
      rw [hr]
      exact (List.append_nil _).symm ▸ hlabels
    · rw [if_neg hr] at hok
      unfold instItems
      cases hf : fields rest with
      | nil =>
        rw [hf] at hok
        cases hok
        exact (List.append_nil _).symm ▸ hlabels
      | cons op args =>
        rw [hf] at hok
        cases hok
        exact hR.inst hlabels (u.toUpper op) (parseArgs (joinSpace args)) src.line

-- The rule for the whole second pass.
theorem parseLines {lines : List SourceLine} {p' : Program} (h : R items p)
    (hok : parseLines u lines p = .ok p') : R (items ++ programItems u lines) p' := by
  induction lines generalizing items p with
  | nil =>
    cases hok
    exact (List.append_nil items).symm ▸ h
  | cons src rest ih =>
    obtain ⟨q, hq, hok⟩ := bind_ok hok
    have hall := ih (hR.parseLine h hq) hok
    rw [List.append_assoc] at hall
    exact hall

end ItemInvariant

theorem holds_invariant : ItemInvariant Holds := ⟨fun h hnew ↦ h.label hnew, Holds.inst⟩

/-! ## Words -/

variable {t : Tables} {labels : Text → Option Word}

theorem encodeAll_get {insts : List AsmLine} {ws : List Word} (h : encodeAll t labels insts = .ok ws)
    {k : Nat} {inst : AsmLine} (hk : insts[k]? = some inst) :
    ∃ w, ws[k]? = some w ∧ encodeInstruction t labels inst = .ok w := by
  induction insts generalizing k ws with
  | nil => cases hk
  | cons first rest ih =>
    obtain ⟨w, hw, h⟩ := bind_ok h
    obtain ⟨ws', hws, h⟩ := bind_ok h
    cases h
    cases k with
    | zero =>
      cases hk
      exact ⟨w, rfl, hw⟩
    | succ k => exact ih hws hk

/-- The start of the second pass. -/
def emptyProgram : Program := ⟨[], fun _ ↦ none, 0#32⟩

/-- The tables that the lines of a program are encoded with. -/
def buildTables (u : Cases) (parser : AsmParser) (p : Program) : Tables := ⟨u, parser.macros, some p.labels⟩

/-- What a build has gone through when it ends well. -/
structure Built (f : Files) (u : Cases) (paths : List Text) (imemDepth : Nat) (words : List Word)
    (parser : AsmParser) (p : Program) : Prop where
  load : loadFiles f u paths ⟨fun _ ↦ none, []⟩ = .ok parser
  parse : parseLines u parser.lines emptyProgram = .ok p
  build : buildProgram f u paths imemDepth = .ok words

-- An accepted build has gone through both passes.
theorem exists_built {paths : List Text} {imemDepth : Nat} {words : List Word}
    (h : buildProgram f u paths imemDepth = .ok words) :
    ∃ parser p, Built f u paths imemDepth words parser p := by
  obtain ⟨-, hsteps⟩ := ok_of_check h
  obtain ⟨-, hsteps⟩ := ok_of_check hsteps
  obtain ⟨⟨p, macros⟩, hparse, -⟩ := bind_ok hsteps
  obtain ⟨parser, hload, hparse⟩ := bind_ok hparse
  obtain ⟨p', hlines, -⟩ := bind_ok hparse
  exact ⟨parser, p', hload, hlines, h⟩

theorem Built.encoded {paths : List Text} {imemDepth : Nat} {words : List Word} {parser : AsmParser}
    (h : Built f u paths imemDepth words parser p) :
    ∃ ws, encodeAll (buildTables u parser p) p.labels p.insts = .ok ws ∧
      words = ws ++ List.replicate (imemDepth - p.insts.length) nopWord := by
  obtain ⟨hload, hlines, h⟩ := h
  have hparse : parseAssemblies f u paths = .ok (p, parser.macros) := by
    rw [parseAssemblies, hload]
    change Except.bind (parseLines u parser.lines emptyProgram) _ = _
    rw [hlines]
    rfl
  obtain ⟨-, h⟩ := ok_of_check h
  obtain ⟨-, h⟩ := ok_of_check h
  rw [hparse] at h
  obtain ⟨-, h⟩ := ok_of_check h
  obtain ⟨ws, hws, h⟩ := bind_ok h
  cases h
  exact ⟨ws, hws, rfl⟩

/-! ## Jumps -/

/-- The target operand of a branch or a JAL. -/
def targetOf : Mnemonic → List Text → Option Text
  | .branch _, [_, _, target] => some target
  | .jal, [_, target] => some target
  | _, _ => none

/-- The offsets that the format of a branch or of JAL can hold. -/
def HoldsOffset : Mnemonic → Word → Prop
  | .branch _, o => ∃ imm : BitVec 12, Rv32i.offset imm = o
  | _, o => ∃ imm : BitVec 20, Rv32i.offset imm = o

/-- The word, executed at `pc`, goes to `dest` when its jump is taken. -/
def JumpsTo (m : Mnemonic) (w pc dest : Word) : Prop :=
  ∀ x : ExIn, x.instr = w → x.pc = pc →
    match m with
    | .branch cond => x.action = if cond.holds x.rs1Val x.rs2Val then .jump dest none else .nop
    | _ => x.action = .jump dest (some (pc + 4#32))

-- A branch or JAL whose target is an offset goes there.
theorem jumpsTo_offset {m : Mnemonic} {inst : AsmLine} {w o : Word} {target : Text}
    (hm : mnemonicOf inst.op = some m) (htarget : targetOf m inst.args = some target)
    (ho : resolveLabelOrImmediate t labels target inst.pc = .ok o)
    (h : encodeInstruction t labels inst = .ok w) : HoldsOffset m o ∧ JumpsTo m w inst.pc (inst.pc + o) := by
  unfold targetOf at htarget
  unfold encodeInstruction at h
  rw [hm] at h
  split at htarget
  · rename_i cond a0 a1 a2 hargs
    cases htarget
    simp only [encodeBranch, hargs] at h
    obtain ⟨s, hs, h⟩ := bind_ok (atLine_ok h)
    obtain ⟨v, hv, h⟩ := bind_ok h
    rw [ho] at h
    change encodeBType s v o (branchFunct3 cond) = .ok w at h
    rw [branchFunct3_eq] at h
    obtain ⟨hw, hoff⟩ := encodeBType_ok (parseRegister_ok hs).1 (parseRegister_ok hv).1 h
    refine ⟨⟨_, hoff⟩, fun x hx hpc ↦ ?_⟩
    subst hw
    have hact := (selects_encode (.branch cond (reg s) (reg v) (o.extractLsb' 1 12))).2 x hx
    rw [actionOf, hoff, hpc] at hact
    exact hact
  · rename_i a0 a1 hargs
    cases htarget
    simp only [encodeJType, hargs] at h
    obtain ⟨d, hd, h⟩ := bind_ok (atLine_ok h)
    rw [ho] at h
    obtain ⟨hw, hoff⟩ := encodeJal_ok (parseRegister_ok hd).1 h
    refine ⟨⟨_, hoff⟩, fun x hx hpc ↦ ?_⟩
    subst hw
    have hact := (selects_encode (.jal (reg d) (o.extractLsb' 1 20))).2 x hx
    rw [actionOf, hoff, hpc] at hact
    exact hact
  · cases htarget

-- A target that is no immediate is the label of its name.
theorem resolve_label {token : Text} {pc addr : Word} {e : String}
    (hname : parseImmediate t (trimSpace token) = .error e) (hl : labels (trimSpace token) = some addr) :
    resolveLabelOrImmediate t labels token pc = .ok (addr - pc) := by
  unfold resolveLabelOrImmediate
  simp only [hname, hl]

theorem resolve_immediate {token : Text} {pc v : Word} (h : parseImmediate t (trimSpace token) = .ok v) :
    resolveLabelOrImmediate t labels token pc = .ok v := by
  unfold resolveLabelOrImmediate
  simp only [h]

theorem cond_satisfiable (cond : Cond) : ∃ a b, cond.holds a b = true := by
  cases cond with
  | eq => exact ⟨0, 0, rfl⟩
  | ne => exact ⟨0, 1, rfl⟩
  | lt => exact ⟨0, 1, rfl⟩
  | ge => exact ⟨0, 0, rfl⟩
  | ltu => exact ⟨0, 1, rfl⟩
  | geu => exact ⟨0, 0, rfl⟩

-- A word has one destination.
theorem JumpsTo.unique {m : Mnemonic} {w pc dest dest' : Word} (h : JumpsTo m w pc dest)
    (h' : JumpsTo m w pc dest') : dest = dest' := by
  -- operands for which a branch is taken
  obtain ⟨a, b, hab⟩ : ∃ a b, ∀ cond, m = .branch cond → cond.holds a b = true := by
    cases m with
    | branch cond =>
      obtain ⟨a, b, hab⟩ := cond_satisfiable cond
      exact ⟨a, b, fun c hc ↦ by cases hc; exact hab⟩
    | _ => exact ⟨0, 0, fun c hc ↦ by cases hc⟩
  have hx := h ⟨w, pc, a, b, ⟨0, 0, 0, 0, 0, 0, false⟩, 0, 0, false, false, fun _ ↦ 0⟩ rfl rfl
  have hx' := h' ⟨w, pc, a, b, ⟨0, 0, 0, 0, 0, 0, false⟩, 0, 0, false, false, fun _ ↦ 0⟩ rfl rfl
  cases m with
  | branch cond =>
    simp only [hab cond rfl, if_true] at hx hx'
    rw [hx] at hx'
    injection hx'
  | _ =>
    rw [hx] at hx'
    injection hx'

/-- In an accepted program, the word of a branch or JAL to a label goes to the instruction after the
label, and the distance is one that the format holds. -/
theorem label_jump {paths : List Text} {imemDepth : Nat} {words : List Word} {parser : AsmParser}
    (hbuilt : Built f u paths imemDepth words parser p)
    {before after pre post : List Item} {op target : Text} {args : List Text} {m : Mnemonic}
    (hinst : programItems u parser.lines = before ++ .inst op args :: after)
    (hm : mnemonicOf op = some m) (htarget : targetOf m args = some target)
    (hlabel : programItems u parser.lines = pre ++ .label (trimSpace target) :: post) :
    ∃ w, words[instCount before]? = some w ∧
      ((HoldsOffset m (addrOf (instCount pre) - addrOf (instCount before)) ∧
        JumpsTo m w (addrOf (instCount before)) (addrOf (instCount pre))) ↔
      ∀ v, parseImmediate (buildTables u parser p) (trimSpace target) = .ok v →
        v = addrOf (instCount pre) - addrOf (instCount before)) := by
  have hholds := holds_invariant.parseLines holds_start hbuilt.parse
  rw [List.nil_append] at hholds
  -- the instruction is line `instCount before` of the program
  have hparts : (p.insts.map fun inst ↦ (inst.op, inst.args))[instCount before]? = some (op, args) := by
    rw [hholds.insts, hinst, List.filterMap_append, ← length_filterMap_parts before,
      List.getElem?_append_right le_rfl, Nat.sub_self]
    rfl
  rw [List.getElem?_map, Option.map_eq_some_iff] at hparts
  obtain ⟨inst, hget, hop⟩ := hparts
  injection hop with hop hargs
  have hpc := hholds.pcs _ inst hget
  have haddr := hholds.labels _ _ _ hlabel
  obtain ⟨ws, hws, rfl⟩ := hbuilt.encoded
  obtain ⟨w, hw, henc⟩ := encodeAll_get hws hget
  have hlt : instCount before < ws.length := (List.getElem?_eq_some_iff.mp hw).1
  refine ⟨w, (List.getElem?_append_left hlt).trans hw, ?_⟩
  rw [← hop] at hm
  rw [← hargs] at htarget
  rw [← hpc]
  have hadd : inst.pc + (addrOf (instCount pre) - inst.pc) = addrOf (instCount pre) := by
    rw [add_comm, BitVec.sub_add_cancel]
  constructor
  · rintro ⟨-, hjump⟩ v hv
    have := (jumpsTo_offset hm htarget (resolve_immediate hv) henc).2.unique hjump
    rw [← this, add_comm, BitVec.add_sub_cancel]
  · intro hname
    have hres : resolveLabelOrImmediate (buildTables u parser p) p.labels target inst.pc =
        .ok (addrOf (instCount pre) - inst.pc) := by
      cases hv : parseImmediate (buildTables u parser p) (trimSpace target) with
      | ok v => rw [← hname v hv, resolve_immediate hv]
      | error e => exact resolve_label hv haddr
    have hgo := jumpsTo_offset hm htarget hres henc
    rw [hadd] at hgo
    exact hgo

/-- A host with the same file at every path. -/
def oneFile (lines : List String) : Files where
  openFile _ := .ok (lines.map String.toList, none)
  resolve _ path := path
  maxOpen := 8

def mainPath : Text := "main.qar".toList

/-- The lines of a loop, as the first pass leaves them. -/
def loopLines (n : Nat) : List SourceLine :=
  [⟨"loop: NOP".toList, mainPath, n⟩, ⟨"JAL zero, loop".toList, mainPath, n + 1⟩]

def loopProgram (n : Nat) : Program where
  insts := [⟨"NOP".toList, [], n, 0⟩, ⟨"JAL".toList, ["zero".toList, "loop".toList], n + 1, 4⟩]
  labels := Function.update (fun _ ↦ none) "loop".toList (some 0)
  pc := 8

def loopFile : Files := oneFile ["loop: NOP", "JAL zero, loop"]

theorem loopFile_built : Built loopFile plainTables.cases [mainPath] 2 [0x00000013#32, 0xFFDFF06F#32]
    ⟨fun _ ↦ none, loopLines 1⟩ (loopProgram 1) :=
  ⟨rfl, rfl, by decide +kernel⟩

theorem loopFile_jumps : HoldsOffset .jal (addrOf 0 - addrOf 1) ∧
    JumpsTo .jal 0xFFDFF06F#32 (addrOf 1) (addrOf 0) := by
  have hinst : programItems plainTables.cases (loopLines 1) = [.label "loop".toList, .inst "NOP".toList []] ++
      .inst "JAL".toList ["zero".toList, "loop".toList] :: [] := by decide
  have hlabel : programItems plainTables.cases (loopLines 1) = [] ++ .label (trimSpace "loop".toList) ::
      [.inst "NOP".toList [], .inst "JAL".toList ["zero".toList, "loop".toList]] := by decide
  have hjal : mnemonicOf "JAL".toList = some .jal := by decide
  obtain ⟨w, hw, hiff⟩ := label_jump loopFile_built hinst hjal rfl hlabel
  have hname : ∀ v, parseImmediate (buildTables plainTables.cases ⟨fun _ ↦ none, loopLines 1⟩ (loopProgram 1))
      (trimSpace "loop".toList) = .ok v → v = addrOf 0 - addrOf 1 := by
    intro v hv
    cases hv
  cases hw
  exact hiff.mpr hname

/-- The macro of the second file has the name of the label, in capitals. -/
def clashFile : Files := oneFile [".equ LOOP, 8", "loop: NOP", "JAL zero, loop"]

theorem clashFile_built : Built clashFile plainTables.cases [mainPath] 2 [0x00000013#32, 0x0080006F#32]
    ⟨Function.update (fun _ ↦ none) "LOOP".toList (some 8), loopLines 2⟩ (loopProgram 2) :=
  ⟨rfl, rfl, by decide +kernel⟩

/-- The JAL does not go back to the label, but on by the value of the macro. -/
theorem clashFile_leaves :
    buildProgram clashFile plainTables.cases [mainPath] 2 = .ok [0x00000013#32, 0x0080006F#32] ∧
      programItems plainTables.cases (loopLines 2) =
        [.label "loop".toList, .inst "NOP".toList [], .inst "JAL".toList ["zero".toList, "loop".toList]] ∧
      ¬ JumpsTo .jal 0x0080006F#32 (addrOf 1) (addrOf 0) := by
  refine ⟨clashFile_built.build, by decide, fun h ↦ ?_⟩
  have hword : Rv32i.encode (.jal 0 4) = 0x0080006F#32 := by decide
  have hmacro : JumpsTo .jal 0x0080006F#32 (addrOf 1) (addrOf 3) := by
    intro x hx hpc
    have hact := (selects_encode (.jal 0 4)).2 x (hx.trans hword.symm)
    rw [actionOf, hpc] at hact
    exact hact
  exact absurd (h.unique hmacro) (by decide)

end Assembler

end QarCore
