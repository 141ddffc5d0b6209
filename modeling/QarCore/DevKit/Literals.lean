import QarCore.DevKit.Encoding
import QarCore.DevKit.Source

/-!
# Integer literals

The two readers of 32-bit numbers, for the operands of instructions and for the values of `.equ`.  Both
take `2 ^ 32` off a number above the signed range before they test the range.
-/

namespace QarCore

namespace Assembler

open GoText (Text Cases trimSpace parseInt literalValue)

variable {t : Tables} {u : Cases} {macros : Text → Option Word} {token : Text} {v : Int}

/-- A reader of a literal with value `v` checks the range of 32 bits. -/
structure RangeChecked (r : Except String Word) (v : Int) : Prop where
  accepts : Int32 v → r = .ok (BitVec.ofInt 32 v)
  rejects : ¬ Int32 v → ∃ e, r = .error e

/-- The numbers that come into the signed range when `2 ^ 32` is taken off them, though they have more
than 32 bits. -/
def WrapsIn (v : Int) : Prop := 2 ^ 32 ≤ v ∧ v < 2 ^ 32 + 2 ^ 31

/-! ## The range test -/

theorem toInt32_of_wraps (h : WrapsIn v) : toInt32 v = some (BitVec.ofInt 32 (v - 2 ^ 32)) := by
  obtain ⟨hl, hu⟩ := h
  have hbig : 2 ^ 31 - 1 < v := by omega
  unfold toInt32 maxInt32 minInt32
  simp only [hbig, if_true]
  exact if_neg (by omega)

theorem toInt32_of_far (hn : ¬ Int32 v) (hw : ¬ WrapsIn v) : toInt32 v = none := by
  unfold Int32 at hn
  unfold WrapsIn at hw
  unfold toInt32 maxInt32 minInt32
  by_cases hbig : 2 ^ 31 - 1 < v
  · simp only [hbig, if_true]
    exact if_pos (by omega)
  · simp only [hbig, if_false]
    exact if_pos (by omega)

theorem not_int32_of_wraps (h : WrapsIn v) : ¬ Int32 v := by
  unfold WrapsIn at h
  unfold Int32
  omega

/-- A reader that takes a number for a literal in base 0, of 64 bits, and applies the range test to it. -/
structure ReadsBy (r : Except String Word) (token : Text) : Prop where
  ok : ∀ v w, parseInt 64 token = some v → toInt32 v = some w → r = .ok w
  range : ∀ v, parseInt 64 token = some v → toInt32 v = none → ∃ e, r = .error e
  long : parseInt 64 token = none → ∃ e, r = .error e

-- Such a reader checks the range of every literal but those that wrap into it.
theorem ReadsBy.rangeChecked_iff {r : Except String Word} (h : ReadsBy r token)
    (hv : literalValue token = some v) : RangeChecked r v ↔ ¬ WrapsIn v := by
  have hparse := GoText.parseInt_eq 63 hv
  constructor
  · intro hr hw
    obtain ⟨e, he⟩ := hr.rejects (not_int32_of_wraps hw)
    have hin : -2 ^ 63 ≤ v ∧ v < 2 ^ 63 := by
      unfold WrapsIn at hw
      omega
    rw [if_pos hin] at hparse
    have hok := h.ok v _ hparse (toInt32_of_wraps hw)
    rw [he] at hok
    cases hok
  · intro hw
    constructor
    · intro hint
      have hin : -2 ^ 63 ≤ v ∧ v < 2 ^ 63 := by
        unfold Int32 at hint
        omega
      rw [if_pos hin] at hparse
      exact h.ok v _ hparse (toInt32_of_int32 hint)
    · intro hint
      by_cases hin : -2 ^ 63 ≤ v ∧ v < 2 ^ 63
      · rw [if_pos hin] at hparse
        exact h.range v hparse (toInt32_of_far hint hw)
      · rw [if_neg hin] at hparse
        exact h.long hparse

/-! ## The two readers -/

theorem literal_head (hv : literalValue token = some v) : ¬ "%hi(".toList.isPrefixOf token ∧
    ¬ "%lo(".toList.isPrefixOf token := by
  obtain ⟨-, hall⟩ := GoText.literalValue_chars hv
  cases token with
  | nil => exact ⟨by decide, by decide⟩
  | cons c s =>
    have hc : c ≠ '%' := by
      rintro rfl
      exact absurd (hall '%' List.mem_cons_self) (by decide)
    constructor
    · simp [List.isPrefixOf, hc.symm]
    · simp [List.isPrefixOf, hc.symm]

theorem trimSpace_literal (hv : literalValue token = some v) : trimSpace token = token :=
  GoText.trimSpace_of_forall fun c hc ↦
    GoText.literalChar_not_space ((GoText.literalValue_chars hv).2 c hc)

-- A literal is no expression with a label.
theorem parseLabelImmediate_literal (hv : literalValue token = some v) :
    parseLabelImmediate t token = none := by
  obtain ⟨hhi, hlo⟩ := literal_head hv
  unfold parseLabelImmediate
  cases t.labelTable with
  | none => rfl
  | some labelTable =>
    simp only [trimSpace_literal hv]
    rw [if_neg fun h ↦ hhi h.1, if_neg fun h ↦ hlo h.1]

theorem parseImmediate_reads (hv : literalValue (trimSpace token) = some v)
    (hm : lookupMacro t (trimSpace token) = none) :
    ReadsBy (parseImmediate t token) (trimSpace token) := by
  have hne := (GoText.literalValue_chars hv).1
  have hlabel := parseLabelImmediate_literal (t := t) hv
  unfold parseImmediate
  simp only [if_neg hne, hm, hlabel]
  constructor
  · intro v w hp hw
    rw [hp]
    simp only [hw]
  · intro v hp hw
    rw [hp]
    simp only [hw]
    exact ⟨_, rfl⟩
  · intro hp
    rw [hp]
    exact ⟨_, rfl⟩

theorem evalMacroValue_reads (hv : literalValue (trimSpace token) = some v)
    (hm : macros (u.toUpper (trimSpace token)) = none) :
    ReadsBy (evalMacroValue u macros token) (trimSpace token) := by
  have hne := (GoText.literalValue_chars hv).1
  unfold evalMacroValue
  simp only [if_neg hne, hm]
  constructor
  · intro v w hp hw
    rw [hp]
    simp only [hw]
  · intro v hp hw
    rw [hp]
    simp only [hw]
    exact ⟨_, rfl⟩
  · intro hp
    rw [hp]
    exact ⟨_, rfl⟩

-- Beyond 64 bits the value of a macro is reported by the number parser.
theorem evalMacroValue_long (hv : literalValue (trimSpace token) = some v)
    (hm : macros (u.toUpper (trimSpace token)) = none) (hlong : ¬ (-2 ^ 63 ≤ v ∧ v < 2 ^ 63)) :
    evalMacroValue u macros token =
      .error ("strconv.ParseInt: parsing " ++ (String.ofList (trimSpace token)).quote ++ ": value out of range") := by
  have hparse := GoText.parseInt_eq 63 hv
  rw [if_neg hlong] at hparse
  unfold evalMacroValue
  simp only [if_neg (GoText.literalValue_chars hv).1, hm, hparse, GoText.parseIntError_literal hv]

/-- Both readers check the range of a literal exactly when it does not wrap into the signed range. -/
theorem literals_checked_iff (hv : literalValue (trimSpace token) = some v)
    (hm : lookupMacro t (trimSpace token) = none) (he : macros (u.toUpper (trimSpace token)) = none) :
    RangeChecked (parseImmediate t token) v ∧ RangeChecked (evalMacroValue u macros token) v ↔
      ¬ WrapsIn v := by
  rw [(parseImmediate_reads hv hm).rangeChecked_iff hv, (evalMacroValue_reads hv he).rangeChecked_iff hv,
    and_self]

/-- The largest number of 32 bits is read as -1. -/
theorem literals_checked_max :
    RangeChecked (parseImmediate plainTables "0xFFFFFFFF".toList) (2 ^ 32 - 1) ∧
      RangeChecked (evalMacroValue plainTables.cases (fun _ ↦ none) "0xFFFFFFFF".toList) (2 ^ 32 - 1) := by
  have hv : literalValue (trimSpace "0xFFFFFFFF".toList) = some (2 ^ 32 - 1) := by decide
  refine (literals_checked_iff hv rfl rfl).mpr ?_
  unfold WrapsIn
  decide

/-- A number of 33 bits is read as 5. -/
theorem literals_truncated :
    literalValue "0x100000005".toList = some 0x100000005 ∧ ¬ Int32 0x100000005 ∧
      parseImmediate plainTables "0x100000005".toList = .ok 5#32 ∧
      evalMacroValue plainTables.cases (fun _ ↦ none) "0x100000005".toList = .ok 5#32 ∧
      ¬ (RangeChecked (parseImmediate plainTables "0x100000005".toList) 0x100000005 ∧
        RangeChecked (evalMacroValue plainTables.cases (fun _ ↦ none) "0x100000005".toList)
          0x100000005) := by
  have hint : ¬ Int32 0x100000005 := by
    unfold Int32
    decide
  have hok : parseImmediate plainTables "0x100000005".toList = .ok 5#32 := by decide
  refine ⟨by decide, hint, hok, by decide, ?_⟩
  rintro ⟨h, -⟩
  obtain ⟨e, he⟩ := h.rejects hint
  rw [hok] at he
  cases he

end Assembler

end QarCore
