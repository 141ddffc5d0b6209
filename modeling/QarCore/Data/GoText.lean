import Mathlib

/-!
# Text functions of Go

The functions of `strings`, `unicode` and `strconv` that a line-based assembler needs, on lists of
characters.
-/

namespace GoText

abbrev Text := List Char

/-- The case mappings of the `unicode` package, one character at a time. -/
structure Cases where
  upper : Char → Char
  lower : Char → Char

def Cases.toUpper (u : Cases) (s : Text) : Text := s.map u.upper

def Cases.toLower (u : Cases) (s : Text) : Text := s.map u.lower

/-! ## strings -/

/-- `unicode.IsSpace`. -/
def isSpace (c : Char) : Bool :=
  let n := c.toNat
  (9 ≤ n && n ≤ 13) || n == 0x20 || n == 0x85 || n == 0xa0 || n == 0x1680 || (0x2000 ≤ n && n ≤ 0x200a) ||
    n == 0x2028 || n == 0x2029 || n == 0x202f || n == 0x205f || n == 0x3000

def trimSpace (s : Text) : Text := (s.dropWhile isSpace).rdropWhile isSpace

theorem trimSpace_length_le (s : Text) : (trimSpace s).length ≤ s.length := by
  unfold trimSpace List.rdropWhile
  rw [List.length_reverse]
  have hl := (List.dropWhile_sublist (l := s) isSpace).length_le
  have hr := (List.dropWhile_sublist (l := (s.dropWhile isSpace).reverse) isSpace).length_le
  rw [List.length_reverse] at hr
  exact hr.trans hl

-- Nothing is trimmed off a text that begins and ends with something else than white space.
theorem trimSpace_eq {c d : Char} (s : Text) (hc : isSpace c = false) (hd : isSpace d = false) :
    trimSpace (c :: (s ++ [d])) = c :: (s ++ [d]) := by
  rw [trimSpace, List.dropWhile_cons_of_neg (by simp [hc]), ← List.cons_append]
  exact List.rdropWhile_concat_neg _ _ _ (by simp [hd])

-- What is split at a character has none of it left.
theorem not_mem_splitOn (d : Char) (s : Text) : ∀ part ∈ s.splitOn d, d ∉ part := by
  induction s with
  | nil => simp
  | cons c s ih =>
    rw [List.splitOn_cons_eq_if_modifyHead]
    obtain ⟨l, ls, hs⟩ := List.exists_cons_of_ne_nil (List.splitOn_ne_nil d s)
    rw [hs, List.forall_mem_cons] at ih
    rw [hs]
    by_cases hc : c = d
    · rw [if_pos (by simpa using hc), List.forall_mem_cons, List.forall_mem_cons]
      exact ⟨List.not_mem_nil, ih⟩
    · rw [if_neg (by simpa using hc), List.modifyHead_cons, List.forall_mem_cons, List.mem_cons, not_or]
      exact ⟨⟨Ne.symm hc, ih.1⟩, ih.2⟩

def fields (s : Text) : List Text := (s.splitOnP isSpace).filter (· ≠ [])

@[simp] theorem fields_nil : fields [] = [] := rfl

-- White space separates the fields of both its sides.
theorem fields_append {c : Char} (a b : Text) (hc : isSpace c) :
    fields (a ++ c :: b) = fields a ++ fields b := by
  rw [fields, List.splitOnP_append_cons a b hc, List.filter_append]
  rfl

theorem fields_cons {c : Char} (s : Text) (hc : isSpace c) : fields (c :: s) = fields s :=
  fields_append [] s hc

theorem fields_token {s : Text} (hne : s ≠ []) (hs : ∀ c ∈ s, isSpace c = false) : fields s = [s] := by
  rw [fields, List.splitOnP_eq_singleton hs]
  simp [hne]

theorem fields_spaces_append {a : Text} (s : Text) (ha : ∀ c ∈ a, isSpace c) :
    fields (a ++ s) = fields s := by
  induction a with
  | nil => rfl
  | cons c a ih =>
    rw [List.forall_mem_cons] at ha
    rw [List.cons_append, fields_cons _ ha.1, ih ha.2]

theorem fields_append_spaces {a : Text} (s : Text) (ha : ∀ c ∈ a, isSpace c) :
    fields (s ++ a) = fields s := by
  induction a generalizing s with
  | nil => rw [List.append_nil]
  | cons c a ih =>
    rw [List.forall_mem_cons] at ha
    have hnone := fields_spaces_append [] ha.2
    rw [List.append_nil] at hnone
    rw [fields_append s a ha.1, hnone, fields_nil, List.append_nil]

theorem trimSpace_spaces (s : Text) :
    ∃ a b, s = a ++ (trimSpace s ++ b) ∧ (∀ c ∈ a, isSpace c) ∧ ∀ c ∈ b, isSpace c := by
  refine ⟨s.takeWhile isSpace, (s.dropWhile isSpace).rtakeWhile isSpace, ?_, ?_, ?_⟩
  · rw [trimSpace, List.rdropWhile_append_rtakeWhile, List.takeWhile_append_dropWhile]
  · exact fun c ↦ List.mem_takeWhile_imp
  · exact fun c ↦ List.mem_rtakeWhile_imp

theorem mem_of_mem_trimSpace {c : Char} {s : Text} (hc : c ∈ trimSpace s) : c ∈ s := by
  obtain ⟨a, b, hs, -⟩ := trimSpace_spaces s
  rw [hs]
  exact List.mem_append_right _ (List.mem_append_left _ hc)

theorem fields_trimSpace (s : Text) : fields (trimSpace s) = fields s := by
  obtain ⟨a, b, hs, ha, hb⟩ := trimSpace_spaces s
  conv_rhs => rw [hs]
  rw [fields_spaces_append _ ha, fields_append_spaces _ hb]

/-- The characters of a text that are not white space. -/
def inked (s : Text) : Text := s.filter fun c ↦ !isSpace c

theorem inked_append (a b : Text) : inked (a ++ b) = inked a ++ inked b := List.filter_append a b

theorem inked_cons {c : Char} (s : Text) (hc : isSpace c = false) : inked (c :: s) = c :: inked s :=
  List.filter_cons_of_pos (by simp [hc])

theorem flatMap_filter_ne_nil {α : Type} {f : Text → List α} (hf : f [] = []) (ls : List Text) :
    (ls.filter (· ≠ [])).flatMap f = ls.flatMap f := by
  induction ls with
  | nil => rfl
  | cons l ls ih =>
    by_cases hl : l = []
    · rw [List.filter_cons_of_neg (by simp [hl]), ih, hl, List.flatMap_cons, hf]
      rfl
    · rw [List.filter_cons_of_pos (by simp [hl]), List.flatMap_cons, ih, List.flatMap_cons]

-- The fields hold all that is written in a text.
theorem flatten_fields (s : Text) : (fields s).flatten = inked s := by
  rw [fields, ← List.flatMap_id', flatMap_filter_ne_nil rfl, List.flatMap_id']
  induction s with
  | nil => rfl
  | cons c s ih =>
    rw [List.splitOnP_cons_eq_if_modifyHead]
    by_cases hc : isSpace c
    · rw [if_pos hc, List.flatten_cons, ih, inked, inked, List.filter_cons_of_neg (by simp [hc])]
      rfl
    · rw [if_neg hc, inked_cons s (by simpa using hc), ← ih]
      obtain ⟨l, ls, hs⟩ := List.exists_cons_of_ne_nil (List.splitOnP_ne_nil isSpace s)
      rw [hs]
      rfl

theorem inked_trimSpace (s : Text) : inked (trimSpace s) = inked s := by
  rw [← flatten_fields, fields_trimSpace, flatten_fields]

theorem trimSpace_eq_nil_iff (s : Text) : trimSpace s = [] ↔ inked s = [] := by
  constructor
  · intro h
    rw [← inked_trimSpace, h]
    rfl
  · intro h
    have hall : ∀ c ∈ s, isSpace c := by simpa [inked, List.filter_eq_nil_iff] using h
    rw [trimSpace, List.dropWhile_eq_nil_iff.mpr hall]
    rfl

theorem dropWhile_trimSpace (s : Text) : (trimSpace s).dropWhile isSpace = trimSpace s := by
  rw [List.dropWhile_eq_self_iff]
  intro hlen
  have hprefix : trimSpace s <+: s.dropWhile isSpace := List.rdropWhile_prefix isSpace _
  have hlen' : 0 < (s.dropWhile isSpace).length := hlen.trans_le hprefix.length_le
  have hget : (trimSpace s)[0] = (s.dropWhile isSpace)[0] := hprefix.getElem hlen
  rw [hget]
  exact List.dropWhile_get_zero_not isSpace s hlen'

theorem trimSpace_trimSpace (s : Text) : trimSpace (trimSpace s) = trimSpace s := by
  show ((trimSpace s).dropWhile isSpace).rdropWhile isSpace = trimSpace s
  rw [dropWhile_trimSpace]
  exact List.rdropWhile_idempotent isSpace _

theorem head_trimSpace {c : Char} {s r : Text} (h : trimSpace s = c :: r) : isSpace c = false := by
  have hdrop := dropWhile_trimSpace s
  rw [h, List.dropWhile_eq_self_iff] at hdrop
  have hc := hdrop (Nat.zero_lt_succ _)
  exact Bool.eq_false_iff.mpr hc

theorem trimSpace_of_forall {s : Text} (hs : ∀ c ∈ s, isSpace c = false) : trimSpace s = s := by
  obtain ⟨a, b, h, ha, hb⟩ := trimSpace_spaces s
  have hnil (l : Text) (hl : ∀ c ∈ l, isSpace c) (hsub : ∀ c ∈ l, c ∈ s) : l = [] := by
    apply List.eq_nil_iff_forall_not_mem.mpr
    intro c hc
    have hspace := hl c hc
    rw [hs c (hsub c hc)] at hspace
    cases hspace
  have ha' := hnil a ha fun c hc ↦ h ▸ List.mem_append_left _ hc
  have hb' := hnil b hb fun c hc ↦ h ▸ List.mem_append_right _ (List.mem_append_right _ hc)
  rw [ha', hb', List.nil_append, List.append_nil] at h
  exact h.symm

/-- `strings.Index`. -/
def index (sub : Text) : Text → Option Nat
  | [] => if sub = [] then some 0 else none
  | c :: s => if sub.isPrefixOf (c :: s) then some 0 else (index sub s).map (· + 1)

/-- `strings.LastIndex`. -/
def lastIndex (sub : Text) : Text → Option Nat
  | [] => if sub = [] then some 0 else none
  | c :: s =>
    match lastIndex sub s with
    | some i => some (i + 1)
    | none => if sub.isPrefixOf (c :: s) then some 0 else none

-- The first occurrence of a character splits the text there.
theorem index_char {x : Char} {s : Text} {i : Nat} (h : index [x] s = some i) :
    s = s.take i ++ x :: s.drop (i + 1) ∧ x ∉ s.take i := by
  induction s generalizing i with
  | nil => cases h
  | cons c s ih =>
    unfold index at h
    by_cases hc : [x].isPrefixOf (c :: s)
    · rw [if_pos hc] at h
      cases h
      have hx : x = c := by simpa using hc
      subst hx
      exact ⟨rfl, List.not_mem_nil⟩
    · rw [if_neg hc] at h
      obtain ⟨j, hj, rfl⟩ := Option.map_eq_some_iff.mp h
      obtain ⟨hs, hn⟩ := ih hj
      have hx : x ≠ c := by simpa using hc
      constructor
      · rw [List.take_succ_cons, List.drop_succ_cons, List.cons_append, ← hs]
      · rw [List.take_succ_cons, List.mem_cons, not_or]
        exact ⟨hx, hn⟩

/-! ## strconv -/

/-- The value of a digit in a base up to 36. -/
def digitValue (c : Char) : Option Nat :=
  if c.isDigit then some (c.toNat - '0'.toNat)
  else if c.isLower then some (c.toNat - 'a'.toNat + 10)
  else if c.isUpper then some (c.toNat - 'A'.toNat + 10)
  else none

/-- The digits of a number, with underscores skipped. -/
def parseDigits (base : Nat) : Text → Nat → Option Nat
  | [], n => some n
  | c :: s, n =>
    if c = '_' then parseDigits base s n
    else
      match digitValue c with
      | some d => if d < base then parseDigits base s (n * base + d) else none
      | none => none

/-- The loop of `underscoreOK`, by what the last character was: a digit `0`, an underscore `_`, or
something else. -/
def underscoresFollow (hex : Bool) : Char → Text → Bool
  | saw, [] => saw ≠ '_'
  | saw, c :: s =>
    if c.isDigit || (hex && (digitValue c).any (· < 16)) then underscoresFollow hex '0' s
    else if c = '_' then saw = '0' && underscoresFollow hex '_' s
    else saw ≠ '_' && underscoresFollow hex '!' s

/-- The base of an unsigned literal, the digits after its prefix, and whether it has one. -/
def splitBase (s : Text) : Nat × Text × Bool :=
  match s with
  | '0' :: c :: d :: t =>
    if c = 'b' ∨ c = 'B' then (2, d :: t, true)
    else if c = 'o' ∨ c = 'O' then (8, d :: t, true)
    else if c = 'x' ∨ c = 'X' then (16, d :: t, true)
    else (8, c :: d :: t, false)
  | '0' :: t => (8, t, false)
  | _ => (10, s, false)

/-- `strconv.ParseUint` in base 0, before its check of the range. -/
def parseUint (s : Text) : Option Nat :=
  if s = [] then none
  else
    let (base, digits, prefixed) := splitBase s
    if digits.contains '_' && !(if prefixed then underscoresFollow (base == 16) '0' digits
      else underscoresFollow false '^' s) then none
    else parseDigits base digits 0

/-- `strconv.ParseInt` in base 0, with the errors left out. -/
def parseInt (bitSize : Nat) (s : Text) : Option Int :=
  let (neg, t) : Bool × Text :=
    match s with
    | '+' :: t => (false, t)
    | '-' :: t => (true, t)
    | _ => (false, s)
  match parseUint t with
  | none => none
  | some un =>
    if !neg && 2 ^ (bitSize - 1) ≤ un then none
    else if neg && 2 ^ (bitSize - 1) < un then none
    else some (if neg then -un else un)

/-- The digits run past 64 bits before a character that is none. -/
def digitsOverflow (base : Nat) : Text → Nat → Bool
  | [], _ => false
  | c :: s, n =>
    if c = '_' then digitsOverflow base s n
    else
      match digitValue c with
      | some d => d < base && (2 ^ 64 ≤ n * base + d || digitsOverflow base s (n * base + d))
      | none => false

/-! ## Literals -/

/-- The sign of a literal and what follows it. -/
def splitSign (s : Text) : Bool × Text :=
  match s with
  | '+' :: t => (false, t)
  | '-' :: t => (true, t)
  | _ => (false, s)

/-- The integer that a literal in base 0 denotes, of whatever size. -/
def literalValue (s : Text) : Option Int :=
  (parseUint (splitSign s).2).map fun un : Nat ↦ if (splitSign s).1 then -(un : Int) else un

/-- `strconv.ParseInt` of 64 bits reports the range of a text that it does not read, and not its syntax.  An
overflow is reported where it happens, even if what follows is no digit. -/
def reportsRange (s : Text) : Bool :=
  digitsOverflow (splitBase (splitSign s).2).1 (splitBase (splitSign s).2).2.1 0 || (literalValue s).isSome

/-- The text of that error. -/
def parseIntError (s : Text) : String :=
  "strconv.ParseInt: parsing " ++ (String.ofList s).quote ++
    if reportsRange s then ": value out of range" else ": invalid syntax"

theorem reportsRange_literal {s : Text} {v : Int} (hv : literalValue s = some v) : reportsRange s := by
  rw [reportsRange, hv, Option.isSome_some, Bool.or_true]

-- A literal that is not read is out of range.
theorem parseIntError_literal {s : Text} {v : Int} (hv : literalValue s = some v) :
    parseIntError s = "strconv.ParseInt: parsing " ++ (String.ofList s).quote ++ ": value out of range" := by
  unfold parseIntError
  rw [if_pos (reportsRange_literal hv)]

-- `ParseInt` accepts the literals of its range.
theorem parseInt_eq {s : Text} {v : Int} (k : Nat) (h : literalValue s = some v) :
    parseInt (k + 1) s = if -2 ^ k ≤ v ∧ v < 2 ^ k then some v else none := by
  obtain ⟨un, hun, hv⟩ := Option.map_eq_some_iff.mp h
  have hparse : parseInt (k + 1) s =
      if !(splitSign s).1 && 2 ^ k ≤ un then none
      else if (splitSign s).1 && 2 ^ k < un then none
      else some (if (splitSign s).1 then -(un : Int) else un) := by
    show (match parseUint (splitSign s).2 with
      | none => none
      | some un =>
        if !(splitSign s).1 && 2 ^ k ≤ un then none
        else if (splitSign s).1 && 2 ^ k < un then none
        else some (if (splitSign s).1 then -(un : Int) else un)) = _
    rw [hun]
  have hcast : ((2 ^ k : Nat) : Int) = 2 ^ k := by push_cast; rfl
  rw [hparse]
  have hpos : 0 < 2 ^ k := Nat.two_pow_pos k
  cases hs : (splitSign s).1 with
  | false =>
    simp only [hs, Bool.false_eq_true, if_false] at hv ⊢
    by_cases hlt : 2 ^ k ≤ un
    · have hout : ¬ (-2 ^ k ≤ v ∧ v < 2 ^ k) := by omega
      simp [hlt, hout]
    · have hin : -2 ^ k ≤ v ∧ v < 2 ^ k := by omega
      simp [hlt, hin, hv]
  | true =>
    simp only [hs, if_true] at hv ⊢
    by_cases hlt : 2 ^ k < un
    · have hout : ¬ (-2 ^ k ≤ v ∧ v < 2 ^ k) := by omega
      simp [hlt, hout]
    · have hin : -2 ^ k ≤ v ∧ v < 2 ^ k := by omega
      simp [hlt, hin, hv]

/-- The characters of literals. -/
def literalChar (c : Char) : Bool := c.isAlphanum || c == '_' || c == '+' || c == '-'

theorem digitValue_char {c : Char} {d : Nat} (h : digitValue c = some d) : literalChar c := by
  unfold digitValue at h
  simp only [literalChar, Char.isAlphanum, Char.isAlpha]
  split at h
  · simp [*]
  · split at h
    · simp [*]
    · split at h
      · simp [*]
      · cases h

theorem parseDigits_chars {base n m : Nat} {s : Text} (h : parseDigits base s n = some m) :
    ∀ c ∈ s, literalChar c := by
  induction s generalizing n with
  | nil => simp
  | cons c s ih =>
    unfold parseDigits at h
    rw [List.forall_mem_cons]
    split at h
    · rename_i hc
      exact ⟨by simp [literalChar, hc], ih h⟩
    · split at h
      · rename_i d hd
        split at h
        · exact ⟨digitValue_char hd, ih h⟩
        · cases h
      · cases h

theorem splitBase_chars {s digits : Text} {base : Nat} {prefixed : Bool}
    (h : splitBase s = (base, digits, prefixed)) (hd : ∀ c ∈ digits, literalChar c) :
    ∀ c ∈ s, literalChar c := by
  unfold splitBase at h
  split at h
  · rename_i c d t
    have h0 : literalChar '0' := by decide
    split at h
    · rename_i hc
      cases h
      have hlit : literalChar c := by rcases hc with rfl | rfl <;> decide
      simpa [h0, hlit] using hd
    · split at h
      · rename_i hc
        cases h
        have hlit : literalChar c := by rcases hc with rfl | rfl <;> decide
        simpa [h0, hlit] using hd
      · split at h
        · rename_i hc
          cases h
          have hlit : literalChar c := by rcases hc with rfl | rfl <;> decide
          simpa [h0, hlit] using hd
        · cases h
          simpa [h0] using hd
  · cases h
    have h0 : literalChar '0' := by decide
    simpa [h0] using hd
  · cases h
    exact hd

theorem parseUint_chars {s : Text} {n : Nat} (h : parseUint s = some n) :
    s ≠ [] ∧ ∀ c ∈ s, literalChar c := by
  unfold parseUint at h
  split at h
  · cases h
  · rename_i hne
    refine ⟨hne, ?_⟩
    generalize hsplit : splitBase s = p at h
    obtain ⟨base, digits, prefixed⟩ := p
    have hdigits := (Option.ite_none_left_eq_some.mp h).2
    exact splitBase_chars hsplit (parseDigits_chars hdigits)

theorem literalValue_chars {s : Text} {v : Int} (h : literalValue s = some v) :
    s ≠ [] ∧ ∀ c ∈ s, literalChar c := by
  obtain ⟨un, hun, -⟩ := Option.map_eq_some_iff.mp h
  obtain ⟨hne, hall⟩ := parseUint_chars hun
  unfold splitSign at hne hall
  split at hall
  · exact ⟨List.cons_ne_nil _ _, List.forall_mem_cons.mpr ⟨by decide, hall⟩⟩
  · exact ⟨List.cons_ne_nil _ _, List.forall_mem_cons.mpr ⟨by decide, hall⟩⟩
  · rename_i hplus hminus
    refine ⟨?_, hall⟩
    rintro rfl
    exact hne rfl

theorem literalChar_not_space {c : Char} (h : literalChar c) : isSpace c = false := by
  have hrange : 43 ≤ c.toNat ∧ c.toNat ≤ 122 := by
    simp only [literalChar, Char.isAlphanum, Char.isAlpha, Char.isUpper, Char.isLower, Char.isDigit,
      Bool.or_eq_true, Bool.and_eq_true, decide_eq_true_eq, beq_iff_eq, ge_iff_le, UInt32.le_iff_toNat_le] at h
    have hn : c.val.toNat = c.toNat := rfl
    rcases h with ((((h | h) | h) | rfl) | rfl) | rfl
    · exact ⟨h.1.trans' (by decide), h.2.trans (by decide)⟩
    · exact ⟨h.1.trans' (by decide), h.2.trans (by decide)⟩
    · exact ⟨h.1.trans' (by decide), h.2.trans (by decide)⟩
    · decide
    · decide
    · decide
  simp only [isSpace, Bool.or_eq_false_iff, Bool.and_eq_false_iff, decide_eq_false_iff_not,
    beq_eq_false_iff_ne]
  omega

example : parseInt 64 "-0x1_0".toList = some (-16) := by decide

end GoText
