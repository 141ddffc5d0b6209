import QarCore.DevKit.Labels

/-!
# Operand text

What of a line the assembler looks at.  The operands that it encodes, printed back behind the mnemonic,
are compared with the line, token by token.
-/

namespace QarCore

namespace Assembler

open GoText (Text Cases trimSpace index fields isSpace inked)

variable {t : Tables} {labels : Text → Option Word} {u : Cases} {src : SourceLine} {inst : AsmLine}
  {m : Mnemonic} {w : Word} {a b s arg ops : Text} {c : Char}

/-! ## Tokens -/

def isPunct (c : Char) : Bool := c == ',' || c == '(' || c == ')'

/-- A text with white space around its commas and parentheses. -/
def spaced (s : Text) : Text := s.flatMap fun c ↦ if isPunct c then [' ', c, ' '] else [c]

/-- The words, commas and parentheses of a text. -/
def tokens (s : Text) : List Text := fields (spaced s)

theorem spaced_append (a b : Text) : spaced (a ++ b) = spaced a ++ spaced b := List.flatMap_append

theorem tokens_space (a b : Text) (hc : isSpace c) : tokens (a ++ c :: b) = tokens a ++ tokens b := by
  have hp : isPunct c = false := by
    rw [Bool.eq_false_iff]
    intro hp
    simp only [isPunct, Bool.or_eq_true, beq_iff_eq] at hp
    rcases hp with (rfl | rfl) | rfl <;> exact absurd hc (by decide)
  have hcons : spaced (c :: b) = c :: spaced b := by simp [spaced, hp]
  rw [tokens, spaced_append, hcons, GoText.fields_append _ _ hc]
  rfl

theorem tokens_punct (a b : Text) (hp : isPunct c) :
    tokens (a ++ c :: b) = tokens a ++ [c] :: tokens b := by
  have hcons : spaced (c :: b) = ' ' :: ([c] ++ ' ' :: spaced b) := by simp [spaced, hp]
  have hword : fields [c] = [[c]] := by
    apply GoText.fields_token (List.cons_ne_nil _ _)
    simp only [isPunct, Bool.or_eq_true, beq_iff_eq] at hp
    rintro x hx
    rw [List.mem_singleton.mp hx]
    rcases hp with (rfl | rfl) | rfl <;> decide
  rw [tokens, spaced_append, hcons, GoText.fields_append _ _ (by decide),
    GoText.fields_append _ _ (by decide), hword]
  rfl

theorem tokens_blank (h : ∀ c ∈ s, isSpace c) : tokens s = [] := by
  induction s with
  | nil => rfl
  | cons c s ih =>
    rw [List.forall_mem_cons] at h
    have hsplit := tokens_space [] s h.1
    rw [List.nil_append] at hsplit
    rw [hsplit, ih h.2]
    rfl

theorem tokens_spaces_append (ha : ∀ c ∈ a, isSpace c) : tokens (a ++ s) = tokens s := by
  induction a with
  | nil => rfl
  | cons c a ih =>
    rw [List.forall_mem_cons] at ha
    have hsplit := tokens_space [] (a ++ s) ha.1
    rw [List.nil_append] at hsplit
    rw [List.cons_append, hsplit, ih ha.2]
    rfl

theorem tokens_append_spaces (hb : ∀ c ∈ b, isSpace c) : tokens (s ++ b) = tokens s := by
  cases b with
  | nil => rw [List.append_nil]
  | cons c b =>
    rw [List.forall_mem_cons] at hb
    rw [tokens_space s b hb.1, tokens_blank hb.2, List.append_nil]

theorem tokens_trimSpace (s : Text) : tokens (trimSpace s) = tokens s := by
  obtain ⟨a, b, hs, ha, hb⟩ := GoText.trimSpace_spaces s
  conv_rhs => rw [hs]
  rw [tokens_spaces_append ha, tokens_append_spaces hb]

-- The tokens hold all that is written in a text.
theorem flatten_tokens (s : Text) : (tokens s).flatten = inked s := by
  rw [tokens, GoText.flatten_fields]
  induction s with
  | nil => rfl
  | cons c s ih =>
    show inked ((if isPunct c then [' ', c, ' '] else [c]) ++ spaced s) = _
    rw [GoText.inked_append, ih]
    by_cases hp : isPunct c
    · rw [if_pos hp]
      have hspace : isSpace ' ' := by decide
      show (List.filter _ [' ', c, ' ']) ++ inked s = List.filter _ (c :: s)
      by_cases hc : isSpace c <;> simp [hc, hspace, inked]
    · rw [if_neg hp]
      exact (GoText.inked_append [c] s).symm

-- White space separates tokens, and the fields of a text lose none of them.
theorem tokens_splitOnP (s : Text) : ∃ l ls, s.splitOnP isSpace = l :: ls ∧
    ∀ a, tokens (a ++ s) = tokens (a ++ l) ++ ls.flatMap tokens := by
  induction s with
  | nil => exact ⟨[], [], rfl, fun a ↦ (List.append_nil _).symm⟩
  | cons c s ih =>
    obtain ⟨l, ls, hs, hall⟩ := ih
    rw [List.splitOnP_cons_eq_if_modifyHead, hs]
    by_cases hc : isSpace c
    · rw [if_pos hc]
      refine ⟨[], l :: ls, rfl, ?_⟩
      intro a
      have htail : tokens s = tokens l ++ ls.flatMap tokens := hall []
      rw [tokens_space a s hc, htail, List.append_nil, List.flatMap_cons]
    · rw [if_neg hc]
      refine ⟨c :: l, ls, rfl, ?_⟩
      intro a
      have htail := hall (a ++ [c])
      rw [List.append_assoc, List.append_assoc] at htail
      exact htail

theorem flatMap_tokens_fields (s : Text) : (fields s).flatMap tokens = tokens s := by
  obtain ⟨l, ls, hs, hall⟩ := tokens_splitOnP s
  have hself : tokens s = tokens l ++ ls.flatMap tokens := hall []
  rw [fields, GoText.flatMap_filter_ne_nil rfl, hs, List.flatMap_cons, hself]

theorem tokens_joinSpace (ls : List Text) : tokens (joinSpace ls) = ls.flatMap tokens := by
  induction ls with
  | nil => rfl
  | cons l ls ih =>
    cases ls with
    | nil => simp [joinSpace, List.intercalate]
    | cons l' ls =>
      rw [joinSpace, List.intercalate_cons_of_ne_nil (List.cons_ne_nil _ _), List.append_assoc]
      show tokens (l ++ ' ' :: joinSpace (l' :: ls)) = _
      rw [tokens_space _ _ (by decide), ih]
      rfl

/-- Token lists with a comma between any two. -/
def commaList (ls : List (List Text)) : List Text := [[',']].intercalate ls

theorem commaList_cons (l l' : List Text) (ls : List (List Text)) :
    commaList (l :: l' :: ls) = l ++ [','] :: commaList (l' :: ls) := by
  rw [commaList, List.intercalate_cons_of_ne_nil (List.cons_ne_nil _ _), List.append_assoc]
  rfl

theorem commaList_singleton (l : List Text) : commaList [l] = l := List.intercalate_singleton

theorem tokens_intercalate (sep : Text) (hsep : ∀ s, tokens (sep ++ s) = [','] :: tokens s)
    (happ : ∀ a s, tokens (a ++ (sep ++ s)) = tokens a ++ tokens (sep ++ s)) (ls : List Text) :
    tokens (sep.intercalate ls) = commaList (ls.map tokens) := by
  induction ls with
  | nil => rfl
  | cons l ls ih =>
    cases ls with
    | nil => simp [List.intercalate, commaList]
    | cons l' ls =>
      rw [List.intercalate_cons_of_ne_nil (List.cons_ne_nil _ _), List.append_assoc, happ, hsep, ih]
      exact (commaList_cons _ _ _).symm

theorem tokens_comma (s : Text) : tokens (',' :: s) = [','] :: tokens s := tokens_punct [] s (by decide)

-- The tokens of a list that is separated by commas.
theorem tokens_splitOn (s : Text) : tokens s = commaList ((s.splitOn ',').map tokens) := by
  have hjoin : [','].intercalate (s.splitOn ',') = s := List.intercalate_splitOn ','
  conv_lhs => rw [← hjoin]
  apply tokens_intercalate
  · exact fun s ↦ tokens_comma s
  · intro a s
    show tokens (a ++ ',' :: s) = tokens a ++ tokens (',' :: s)
    rw [tokens_punct a s (by decide), tokens_comma]

/-! ## Operands -/

/-- A memory operand as it is read: the immediate and the register, without what follows. -/
def memOperand (arg : Text) : Text :=
  let arg := trimSpace arg
  match index ['('] arg, index [')'] arg with
  | some o, some c => trimSpace (arg.take o) ++ '(' :: (trimSpace ((arg.take c).drop (o + 1)) ++ [')'])
  | _, _ => arg

/-- The operands that an instruction is encoded from. -/
def encodedOperands : Mnemonic → List Text → List Text
  | .nop, _ => []
  | .lw, [a0, a1] => [a0, memOperand a1]
  | .sw, [a0, a1] => [a0, memOperand a1]
  | _, args => args

/-- A mnemonic and its operands, as one writes them. -/
def printLine (op : Text) (operands : List Text) : Text := op ++ ' ' :: [',', ' '].intercalate operands

theorem tokens_printLine (op : Text) (operands : List Text) :
    tokens (printLine op operands) = tokens op ++ commaList (operands.map tokens) := by
  have hskip (s : Text) : tokens (' ' :: s) = tokens s := tokens_space [] s (by decide)
  rw [printLine, tokens_space _ _ (by decide)]
  congr 1
  apply tokens_intercalate
  · intro s
    show tokens (',' :: ' ' :: s) = _
    rw [tokens_comma, hskip]
  · intro a s
    show tokens (a ++ ',' :: ' ' :: s) = tokens a ++ tokens (',' :: ' ' :: s)
    rw [tokens_punct _ _ (by decide), tokens_comma]

/-! ## The text of an instruction -/

/-- A line without its comment and its labels. -/
def instText (src : SourceLine) : Text :=
  let line := trimSpace (stripComment src.text)
  (lineLabels line.length line).2

def opText (src : SourceLine) : Text := (fields (instText src)).headD []

def operandText (src : SourceLine) : Text := joinSpace (fields (instText src)).tail

theorem tokens_instText (h : fields (instText src) ≠ []) :
    tokens (instText src) = tokens (opText src) ++ tokens (operandText src) := by
  rw [← flatMap_tokens_fields, opText, operandText, tokens_joinSpace]
  obtain ⟨op, args, hf⟩ := List.exists_cons_of_ne_nil h
  rw [hf]
  rfl

/-- The tokens of the line are those of its mnemonic and of the operands that are encoded. -/
def SaysOnly (src : SourceLine) (m : Mnemonic) (args : List Text) : Prop :=
  tokens (instText src) = tokens (printLine (opText src) (encodedOperands m args))

/-- The operand text is one that the assembler reads in full. -/
structure Tidy (m : Mnemonic) (ops : Text) : Prop where
  /-- Nothing is missing before, between or after commas. -/
  filled : trimSpace ops ≠ [] → ∀ part ∈ ops.splitOn ',', trimSpace part ≠ []
  /-- NOP stands alone. -/
  nop : m = .nop → trimSpace ops = []
  /-- A memory operand ends with its first closing parenthesis. -/
  closed : m = .lw ∨ m = .sw → ∀ part ∈ (ops.splitOn ',')[1]?, ∀ c, index [')'] part = some c →
    trimSpace (part.drop (c + 1)) = []

/-! ## Commas -/

theorem length_splitOn (s : Text) : (s.splitOn ',').length = s.count ',' + 1 := by
  induction s with
  | nil => rfl
  | cons c s ih =>
    rw [List.splitOn_cons_eq_if_modifyHead, List.count_cons]
    by_cases hc : c = ','
    · rw [if_pos (by simpa using hc), List.length_cons, ih, if_pos (by simpa using hc)]
    · rw [if_neg (by simpa using hc), List.length_modifyHead, ih, if_neg (by simpa using hc)]

theorem count_inked (s : Text) : (inked s).count ',' = s.count ',' := List.count_filter (by decide)

-- A list of operands without commas has one comma less than operands.
theorem count_commaList {l : Text} {ls : List Text} (h : ∀ a ∈ l :: ls, ',' ∉ a) :
    (commaList ((l :: ls).map tokens)).flatten.count ',' = ls.length := by
  induction ls generalizing l with
  | nil =>
    have hl : ',' ∉ l := h l List.mem_cons_self
    show (commaList [tokens l]).flatten.count ',' = 0
    rw [commaList_singleton, flatten_tokens, count_inked, List.count_eq_zero.mpr hl]
  | cons l' ls ih =>
    rw [List.forall_mem_cons] at h
    show (commaList (tokens l :: tokens l' :: ls.map tokens)).flatten.count ',' = _
    have htail : (commaList (tokens l' :: ls.map tokens)).flatten.count ',' = ls.length := ih h.2
    rw [commaList_cons, List.flatten_append, List.count_append, flatten_tokens, count_inked,
      List.count_eq_zero.mpr h.1, List.flatten_cons, List.count_append, htail, List.length_cons]
    rw [List.count_singleton_self, Nat.zero_add, Nat.add_comm]

/-! ## Memory operands -/

theorem memSplit_of_ok {r : Word × Nat} (h : parseOffsetArg t arg = .ok r) : ∃ x y z, MemSplit arg x y z := by
  unfold parseOffsetArg at h
  obtain ⟨-, h⟩ := ok_of_check h
  cases ho : index ['('] (trimSpace arg) with
  | none =>
    rw [ho] at h
    cases h
  | some o =>
    cases hc : index [')'] (trimSpace arg) with
    | none =>
      rw [ho, hc] at h
      cases h
    | some c =>
      rw [ho, hc] at h
      obtain ⟨hlt, -⟩ := ok_of_check h
      obtain ⟨hopen, hx⟩ := GoText.index_char ho
      obtain ⟨hclose, hy⟩ := GoText.index_char hc
      -- the opening parenthesis stands in front of the closing one
      have hlen : ((trimSpace arg).take o).length < ((trimSpace arg).take c).length := by
        have hlen := congrArg List.length hclose
        simp only [List.length_append, List.length_cons, List.length_drop, List.length_take] at hlen ⊢
        omega
      rcases List.append_eq_append_iff.mp (hopen.symm.trans hclose) with ⟨a, ha, hrest⟩ | ⟨a, ha, -⟩
      · cases a with
        | nil =>
          rw [ha, List.append_nil] at hlen
          exact absurd hlen (lt_irrefl _)
        | cons p y =>
          injection hrest with hp hrest
          rw [ha, List.mem_append, not_or, List.mem_cons, not_or] at hy
          rw [← hp] at ha
          refine ⟨_, y, (trimSpace arg).drop (c + 1), ?_, hx, hy.1, hy.2.2⟩
          conv_lhs => rw [hclose, ha]
          rw [List.append_assoc, List.cons_append]
      · have hle := congrArg List.length ha
        rw [List.length_append] at hle
        omega

/-- The operand without what follows its first closing parenthesis. -/
theorem MemSplit.memOperand_eq (h : MemSplit arg x y z) :
    memOperand arg = trimSpace x ++ '(' :: (trimSpace y ++ [')']) := by
  rw [memOperand]
  simp only [h.index_open, h.index_close, h.take_open, h.take_close]

-- What is printed for a memory operand is read as the operand is.
theorem MemSplit.printed (h : MemSplit arg x y z) :
    MemSplit (memOperand arg) (trimSpace x) (trimSpace y) [] := by
  refine ⟨?_, fun hc ↦ h.noOpen (GoText.mem_of_mem_trimSpace hc),
    fun hc ↦ h.noClose (GoText.mem_of_mem_trimSpace hc), fun hc ↦ h.baseNoClose (GoText.mem_of_mem_trimSpace hc)⟩
  rw [h.memOperand_eq]
  cases hx : trimSpace x with
  | nil => exact GoText.trimSpace_eq _ (by decide) (by decide)
  | cons c r =>
    have htrim := GoText.trimSpace_eq (r ++ '(' :: trimSpace y) (GoText.head_trimSpace hx)
      (show isSpace ')' = false by decide)
    rw [List.append_assoc, List.cons_append] at htrim
    exact htrim

theorem parseOffsetArg_memOperand {r : Word × Nat} (h : parseOffsetArg t arg = .ok r) :
    parseOffsetArg t (memOperand arg) = .ok r := by
  obtain ⟨x, y, z, hs⟩ := memSplit_of_ok h
  rw [parseOffsetArg_split hs] at h
  rw [parseOffsetArg_split hs.printed, ← h, offsetText, offsetText, GoText.trimSpace_trimSpace,
    GoText.trimSpace_trimSpace]

-- Only a text after the closing parenthesis is lost.
theorem MemSplit.tokens_iff (h : MemSplit arg x y z) :
    tokens (trimSpace arg) = tokens (memOperand arg) ↔ inked z = [] := by
  have hall : tokens (trimSpace arg) =
      tokens x ++ ['('] :: (tokens y ++ [')'] :: tokens z) := by
    rw [h.text, tokens_punct _ _ (by decide), tokens_punct _ _ (by decide)]
  have hread : tokens (memOperand arg) = tokens x ++ ['('] :: (tokens y ++ [')'] :: []) := by
    rw [h.memOperand_eq, tokens_punct _ _ (by decide), tokens_punct _ _ (by decide), tokens_trimSpace,
      tokens_trimSpace]
    rfl
  rw [hall, hread, List.append_cancel_left_eq, List.cons_inj_right, List.append_cancel_left_eq,
    List.cons_inj_right]
  constructor
  · intro hz
    rw [← flatten_tokens, hz]
    rfl
  · intro hz
    rw [← tokens_trimSpace, (GoText.trimSpace_eq_nil_iff z).mpr hz]
    rfl

-- The same text follows in the part between commas that the operand is cut from.
theorem MemSplit.part_iff (h : MemSplit arg x y z) :
    (∀ c, index [')'] arg = some c → trimSpace (arg.drop (c + 1)) = []) ↔ inked z = [] := by
  obtain ⟨a, b, harg, ha, hb⟩ := GoText.trimSpace_spaces arg
  have hclose : ')' ∉ a ++ (x ++ '(' :: y) := by
    rw [List.mem_append, not_or]
    exact ⟨fun hc ↦ absurd (ha _ hc) (by decide), h.not_mem_front⟩
  have hsplit : arg = (a ++ (x ++ '(' :: y)) ++ ')' :: (z ++ b) := by
    conv_lhs => rw [harg, h.text]
    simp only [List.append_assoc, List.cons_append]
  have hindex : index [')'] arg = some (a ++ (x ++ '(' :: y)).length := by
    rw [hsplit]
    exact index_append hclose
  have hrest : arg.drop ((a ++ (x ++ '(' :: y)).length + 1) = z ++ b := by
    conv_lhs => rw [hsplit]
    rw [List.drop_append, Nat.add_sub_cancel_left, List.drop_of_length_le (Nat.le_succ _)]
    rfl
  have hblank : inked b = [] := by
    rw [inked, List.filter_eq_nil_iff]
    intro c hc
    simp [hb c hc]
  rw [hindex]
  simp only [Option.some.injEq, forall_eq', hrest, GoText.trimSpace_eq_nil_iff, GoText.inked_append, hblank,
    List.append_nil]

/-! ## Accepted lines -/

-- The instruction of a line is its first word, and the operands are cut out of the others.
theorem parseLine_inst {p p' : Program} (hok : parseLine u src p = .ok p')
    (hinst : p'.insts = p.insts ++ [inst]) :
    fields (instText src) ≠ [] ∧ inst.args = parseArgs (operandText src) := by
  have hsame {labels : Text → Option Word} (h : p' = { p with labels }) : False := by
    rw [h] at hinst
    exact absurd hinst (by simp)
  unfold parseLine at hok
  simp only at hok
  by_cases hempty : trimSpace (stripComment src.text) = []
  · rw [if_pos hempty] at hok
    cases hok
    exact (hsame rfl).elim
  · rw [if_neg hempty] at hok
    obtain ⟨⟨labels, rest⟩, htake, hok⟩ := bind_ok hok
    have hrest : rest = instText src := takeLabels_rest le_rfl htake
    simp only at hok
    by_cases hr : rest = []
    · rw [if_pos hr] at hok
      cases hok
      exact (hsame rfl).elim
    · rw [if_neg hr, hrest] at hok
      cases hf : fields (instText src) with
      | nil =>
        rw [hf] at hok
        cases hok
        exact (hsame rfl).elim
      | cons op args =>
        rw [hf] at hok
        cases hok
        have hlast := List.append_cancel_left hinst
        injection hlast with hlast
        refine ⟨List.cons_ne_nil _ _, ?_⟩
        rw [← hlast, operandText, hf]
        rfl

theorem tokens_operandText_nil (h : trimSpace ops = []) : tokens ops = [] := by
  rw [← tokens_trimSpace, h]
  rfl

theorem trimSpace_of_tokens (h : tokens ops = []) : trimSpace ops = [] := by
  rw [GoText.trimSpace_eq_nil_iff, ← flatten_tokens, h]
  rfl

theorem parseArgs_blank (h : trimSpace ops = []) : parseArgs ops = [] := if_pos h

-- No part between commas is lost when none is blank.
theorem parseArgs_filled (hne : trimSpace ops ≠ []) (h : ∀ part ∈ ops.splitOn ',', trimSpace part ≠ []) :
    parseArgs ops = (ops.splitOn ',').map trimSpace := by
  rw [parseArgs, if_neg hne, List.filter_eq_self]
  intro arg harg
  obtain ⟨part, hpart, rfl⟩ := List.mem_map.mp harg
  simpa using h part hpart

theorem tokens_parseArgs (hne : trimSpace ops ≠ []) (h : ∀ part ∈ ops.splitOn ',', trimSpace part ≠ []) :
    tokens ops = commaList ((parseArgs ops).map tokens) := by
  rw [parseArgs_filled hne h, List.map_map, tokens_splitOn]
  congr 1
  apply List.map_congr_left
  exact fun part _ ↦ (tokens_trimSpace part).symm

theorem encodedOperands_nil (m : Mnemonic) : encodedOperands m [] = [] := by
  cases m <;> rfl

theorem mem_parseArgs {arg : Text} (h : arg ∈ parseArgs ops) : ',' ∉ arg := by
  rw [parseArgs] at h
  split at h
  · cases h
  · obtain ⟨part, hpart, rfl⟩ := List.mem_map.mp (List.mem_filter.mp h).1
    exact fun hc ↦ GoText.not_mem_splitOn ',' ops part hpart (GoText.mem_of_mem_trimSpace hc)

/-- What an accepted instruction does with its operands: NOP leaves them, LW and SW split the second
one, and the others take them as they are. -/
inductive Reads : Mnemonic → List Text → Prop
  | nop (args : List Text) : Reads .nop args
  | memory {m : Mnemonic} {a0 a1 x y z : Text} (hm : m = .lw ∨ m = .sw) (hs : MemSplit a1 x y z) :
      Reads m [a0, a1]
  | all {m : Mnemonic} (args : List Text) (hnop : m ≠ .nop) (hmem : ¬ (m = .lw ∨ m = .sw)) : Reads m args

variable {args : List Text}

theorem encodedOperands_memory {a0 a1 : Text} (hm : m = .lw ∨ m = .sw) :
    encodedOperands m [a0, a1] = [a0, memOperand a1] := by
  rcases hm with rfl | rfl <;> rfl

theorem encodedOperands_all (hnop : m ≠ .nop) (hmem : ¬ (m = .lw ∨ m = .sw)) :
    encodedOperands m args = args := by
  rw [not_or] at hmem
  cases m with
  | nop => exact absurd rfl hnop
  | lw => exact absurd rfl hmem.1
  | sw => exact absurd rfl hmem.2
  | _ => rfl

theorem Reads.length_le (h : Reads m args) : (encodedOperands m args).length ≤ args.length := by
  cases h with
  | nop args => exact Nat.zero_le _
  | memory hm hs =>
    rw [encodedOperands_memory hm]
    exact le_rfl
  | all args hnop hmem =>
    rw [encodedOperands_all hnop hmem]

theorem Reads.no_comma (h : Reads m args) (hargs : ∀ a ∈ args, ',' ∉ a) :
    ∀ a ∈ encodedOperands m args, ',' ∉ a := by
  cases h with
  | nop args => exact fun a ha ↦ absurd ha List.not_mem_nil
  | @memory _ a0 a1 x y z hm hs =>
    rw [List.forall_mem_cons, List.forall_mem_singleton] at hargs
    rw [encodedOperands_memory hm, List.forall_mem_cons, List.forall_mem_singleton]
    refine ⟨hargs.1, ?_⟩
    -- what is printed has no comma that the operand has not
    rw [← List.count_eq_zero, ← count_inked, hs.memOperand_eq]
    have harg := hargs.2
    rw [← List.count_eq_zero, ← count_inked, ← GoText.inked_trimSpace, hs.text] at harg
    simp only [GoText.inked_append, GoText.inked_cons _ (show isSpace '(' = false by decide),
      GoText.inked_cons _ (show isSpace ')' = false by decide), GoText.inked_trimSpace, List.count_append,
      List.count_cons] at harg ⊢
    simp only [show inked [] = [] from rfl, List.count_nil]
    omega
  | all args hnop hmem =>
    rw [encodedOperands_all hnop hmem]
    exact hargs

theorem filled_of_tokens (h : Reads m (parseArgs ops))
    (htokens : tokens ops = commaList ((encodedOperands m (parseArgs ops)).map tokens))
    (hne : trimSpace ops ≠ []) : ∀ part ∈ ops.splitOn ',', trimSpace part ≠ [] := by
  have hcomma := h.no_comma fun a ha ↦ mem_parseArgs ha
  have hle := h.length_le
  cases henc : encodedOperands m (parseArgs ops) with
  | nil =>
    rw [henc] at htokens
    exact absurd (trimSpace_of_tokens htokens) hne
  | cons e es =>
    rw [henc] at htokens hcomma hle
    -- there are as many operands as parts
    have hcount := count_commaList hcomma
    rw [← htokens, flatten_tokens, count_inked] at hcount
    have hparts := length_splitOn ops
    have hall : (((ops.splitOn ',').map trimSpace).filter (· ≠ [])).length =
        ((ops.splitOn ',').map trimSpace).length := by
      apply le_antisymm (List.length_filter_le _ _)
      rw [parseArgs, if_neg hne] at hle
      rw [List.length_map, hparts, hcount]
      exact hle
    rw [List.length_filter_eq_length_iff] at hall
    intro part hpart
    simpa using hall _ (List.mem_map_of_mem hpart)

theorem closed_iff {a0 a1 : Text} (hs : MemSplit a1 x y z) (hargs : parseArgs ops = [a0, a1])
    (hfilled : trimSpace ops ≠ [] → ∀ part ∈ ops.splitOn ',', trimSpace part ≠ []) :
    (∀ part ∈ (ops.splitOn ',')[1]?, ∀ c, index [')'] part = some c → trimSpace (part.drop (c + 1)) = []) ↔
      tokens a1 = tokens (memOperand a1) := by
  have hne : trimSpace ops ≠ [] := by
    intro hnil
    rw [parseArgs_blank hnil] at hargs
    cases hargs
  have hget := congrArg (·[1]?) ((parseArgs_filled hne (hfilled hne)).symm.trans hargs)
  rw [List.getElem?_map] at hget
  obtain ⟨part, hpart, htrim⟩ := Option.map_eq_some_iff.mp hget
  have htext : trimSpace part = trimSpace a1 := by
    rw [← htrim, GoText.trimSpace_trimSpace]
  have hsplit : MemSplit part x y z := ⟨htext.trans hs.text, hs.noOpen, hs.noClose, hs.baseNoClose⟩
  rw [hpart, ← tokens_trimSpace a1, hs.tokens_iff, ← hsplit.part_iff]
  simp only [Option.mem_def, Option.some.injEq, forall_eq']

/-- The operand text is printed back just when it is tidy. -/
theorem tokens_iff_tidy (hargs : parseArgs ops = args) (h : Reads m args) :
    tokens ops = commaList ((encodedOperands m args).map tokens) ↔ Tidy m ops := by
  constructor
  · intro htokens
    have hfilled : trimSpace ops ≠ [] → ∀ part ∈ ops.splitOn ',', trimSpace part ≠ [] := by
      subst hargs
      exact filled_of_tokens h htokens
    refine ⟨hfilled, ?_, ?_⟩
    · rintro rfl
      exact trimSpace_of_tokens htokens
    · intro hm
      cases h with
      | nop args => rcases hm with hm | hm <;> cases hm
      | memory _ hs =>
        rw [closed_iff hs hargs hfilled]
        have hne : trimSpace ops ≠ [] := by
          intro hnil
          rw [parseArgs_blank hnil] at hargs
          cases hargs
        rw [tokens_parseArgs hne (hfilled hne), hargs, encodedOperands_memory hm] at htokens
        simp only [List.map_cons, List.map_nil, commaList_cons, commaList_singleton,
          List.append_cancel_left_eq, List.cons_inj_right] at htokens
        exact htokens
      | all args _ hmem => exact absurd hm hmem
  · rintro ⟨hfilled, hnop, hclosed⟩
    by_cases hne : trimSpace ops = []
    · rw [← hargs, parseArgs_blank hne, encodedOperands_nil, tokens_operandText_nil hne]
      rfl
    · rw [tokens_parseArgs hne (hfilled hne), hargs]
      cases h with
      | nop args => exact absurd (hnop rfl) hne
      | memory hm hs =>
        have htail := (closed_iff hs hargs hfilled).mp (hclosed hm)
        rw [encodedOperands_memory hm, List.map_cons, List.map_singleton, htail]
        rfl
      | all args hnop' hmem => rw [encodedOperands_all hnop' hmem]

/-! ## Encoding -/

theorem parseLoadStoreArgs_memOperand {a0 a1 : Text} {r : Nat × Nat × Word} (hargs : inst.args = [a0, a1])
    (h : parseLoadStoreArgs t inst = .ok r) :
    parseLoadStoreArgs t { inst with args := [a0, memOperand a1] } = .ok r := by
  unfold parseLoadStoreArgs at h ⊢
  rw [hargs] at h
  obtain ⟨reg1, hreg, h⟩ := bind_ok (atLine_ok h)
  obtain ⟨⟨imm, base⟩, hoff, h⟩ := bind_ok h
  simp only [hreg, parseOffsetArg_memOperand hoff]
  exact congrArg (atLine inst.line) h

theorem reads_of_ok (hm : mnemonicOf inst.op = some m) (h : encodeInstruction t labels inst = .ok w) :
    Reads m inst.args := by
  have hmemory {r : Nat × Nat × Word} (hm : m = .lw ∨ m = .sw) (hr : parseLoadStoreArgs t inst = .ok r) :
      Reads m inst.args := by
    obtain ⟨a0, a1, hargs, -, hoff⟩ := parseLoadStoreArgs_ok hr
    obtain ⟨x, y, z, hs⟩ := memSplit_of_ok hoff
    rw [hargs]
    exact .memory hm hs
  unfold encodeInstruction at h
  rw [hm] at h
  cases m with
  | nop => exact .nop _
  | lw =>
    obtain ⟨r, hr, -⟩ := bind_ok h
    exact hmemory (.inl rfl) hr
  | sw =>
    obtain ⟨r, hr, -⟩ := bind_ok h
    exact hmemory (.inr rfl) hr
  | _ => exact .all _ (fun hc ↦ by cases hc) (fun hc ↦ by rcases hc with hc | hc <;> cases hc)

-- The operands that are printed are the ones that were encoded.
theorem encode_printed (hm : mnemonicOf inst.op = some m) (h : encodeInstruction t labels inst = .ok w) :
    encodeInstruction t labels { inst with args := encodedOperands m inst.args } = .ok w := by
  have hmemory {r : Nat × Nat × Word} (hm : m = .lw ∨ m = .sw) (hr : parseLoadStoreArgs t inst = .ok r) :
      parseLoadStoreArgs t { inst with args := encodedOperands m inst.args } = .ok r := by
    obtain ⟨a0, a1, hargs, -⟩ := parseLoadStoreArgs_ok hr
    rw [hargs, encodedOperands_memory hm]
    exact parseLoadStoreArgs_memOperand hargs hr
  unfold encodeInstruction at h ⊢
  simp only [hm] at h ⊢
  cases m with
  | nop => exact h
  | lw =>
    obtain ⟨r, hr, h⟩ := bind_ok h
    rw [hmemory (.inl rfl) hr]
    exact h
  | sw =>
    obtain ⟨r, hr, h⟩ := bind_ok h
    rw [hmemory (.inr rfl) hr]
    exact h
  | _ => exact h

/-- Printing an accepted line back gives the line exactly when its operand text is tidy. -/
theorem operands_printed_iff {p p' : Program} (hparse : parseLine u src p = .ok p')
    (hinst : p'.insts = p.insts ++ [inst]) (hm : mnemonicOf inst.op = some m)
    (henc : encodeInstruction t labels inst = .ok w) :
    encodeInstruction t labels { inst with args := encodedOperands m inst.args } = .ok w ∧
      (SaysOnly src m inst.args ↔ Tidy m (operandText src)) := by
  refine ⟨encode_printed hm henc, ?_⟩
  obtain ⟨hfields, hargs⟩ := parseLine_inst hparse hinst
  rw [SaysOnly, tokens_instText hfields, tokens_printLine, List.append_cancel_left_eq]
  exact tokens_iff_tidy hargs.symm (reads_of_ok hm henc)

def lineOf (text : String) : SourceLine := ⟨text.toList, mainPath, 1⟩

/-- The only instruction of a program. -/
def lineInst (op : String) (args : List String) : AsmLine := ⟨op.toList, args.map String.toList, 1, 0⟩

theorem lwLine_printed : SaysOnly (lineOf "start: LW x1, 4 (x2)  # load") .lw ["x1".toList, "4 (x2)".toList] := by
  have hparse : parseLine plainTables.cases (lineOf "start: LW x1, 4 (x2)  # load") emptyProgram =
      .ok ⟨[lineInst "LW" ["x1", "4 (x2)"]], Function.update (fun _ ↦ none) "start".toList (some 0), 4⟩ := rfl
  have hm : mnemonicOf (lineInst "LW" ["x1", "4 (x2)"]).op = some .lw := by decide
  have henc : encodeInstruction plainTables (fun _ ↦ none) (lineInst "LW" ["x1", "4 (x2)"]) =
      .ok 0x00412083#32 := by decide
  apply (operands_printed_iff hparse rfl hm henc).2.mpr
  have hops : operandText (lineOf "start: LW x1, 4 (x2)  # load") = "x1, 4 (x2)".toList := by decide
  rw [hops]
  refine ⟨by decide, by decide, ?_⟩
  intro _ part hpart c hc
  cases hpart
  cases hc
  decide

/-- The line is an instruction that is encoded. -/
def Accepted (text op : String) (args : List String) (w : Word) : Prop :=
  parseLine plainTables.cases (lineOf text) emptyProgram = .ok ⟨[lineInst op args], fun _ ↦ none, 4⟩ ∧
    encodeInstruction plainTables (fun _ ↦ none) (lineInst op args) = .ok w

/-- A text after the closing parenthesis, commas with nothing between them and operands of NOP are
accepted. -/
theorem untidyLines_accepted :
    (Accepted "LW x1, 4(x2)junk" "LW" ["x1", "4(x2)junk"] 0x00412083#32 ∧
      ¬ SaysOnly (lineOf "LW x1, 4(x2)junk") .lw (lineInst "LW" ["x1", "4(x2)junk"]).args) ∧
    (Accepted "ADDI x1,,x2, 3" "ADDI" ["x1", "x2", "3"] 0x00310093#32 ∧
      ¬ SaysOnly (lineOf "ADDI x1,,x2, 3") .addi (lineInst "ADDI" ["x1", "x2", "3"]).args) ∧
    Accepted "NOP x1" "NOP" ["x1"] 0x00000013#32 ∧
      ¬ SaysOnly (lineOf "NOP x1") .nop (lineInst "NOP" ["x1"]).args := by
  refine ⟨⟨⟨rfl, by decide⟩, ?_⟩, ⟨⟨rfl, by decide⟩, ?_⟩, ⟨rfl, by decide⟩, ?_⟩
  · rw [SaysOnly]
    decide
  · rw [SaysOnly]
    decide
  · rw [SaysOnly]
    decide

end Assembler

end QarCore
