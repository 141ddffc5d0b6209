import QarCore.Data.HexText
import QarCore.DevKit.Encoding
import QarCore.DevKit.Source

/-!
# Data files

How `qarsim build` reads the words of a data file and lays them out in the data image, against what is
written in such a file: literals with white space and comments between them.
-/

namespace QarCore

namespace Assembler

open GoText (Text isSpace fields parseInt literalValue literalChar)

/-! ## Reading -/

/-- `reader.ReadString('\n')`: a line with its newline, and what follows it unless the file has ended. -/
def readString : Text → Text × Option Text
  | [] => ([], none)
  | c :: s => if c = '\n' then ([c], some s) else (c :: (readString s).1, (readString s).2)

/-- One field of a data file, as `ParseInt` reads it with 32 bits. -/
def dataValue (f : Text) : Except String Word :=
  let name := String.ofList f
  match parseInt 32 f with
  | none => .error s!"invalid data value {name}"
  | some val => .ok (BitVec.ofInt 32 val)

def dataValues : List Text → Except String (List Word)
  | [] => .ok []
  | f :: fs => do
    let w ← dataValue f
    let ws ← dataValues fs
    return w :: ws

/-- The loop over the lines of a file, whose length bounds it.  `readErr` is the error that ends the
file, if it does not end with EOF. -/
def parseDataLines (readErr : Option String) : Nat → Text → List Word → Except String (List Word)
  | 0, _, values => .ok values
  | n + 1, text, values =>
    let (line, rest) := readString text
    match rest, readErr with
    | none, some e => .error e
    | none, none => do
      let ws ← dataValues (fields (stripComment line))
      return values ++ ws
    | some text, _ => do
      let ws ← dataValues (fields (stripComment line))
      parseDataLines readErr n text (values ++ ws)

/-- The words of a data file, from what opening it gives. -/
def parseDataFile (file : Except String (Text × Option String)) : Except String (List Word) :=
  match file with
  | .error e => .error e
  | .ok (text, readErr) => parseDataLines readErr (text.length + 1) text []

/-- The words of the data image: those of the data file, if there is one, filled up with zeros. -/
def dataImage (file : Option (Except String (Text × Option String))) (dmemDepth : Nat) :
    Except String (List Word) :=
  match file with
  | none => .ok (List.replicate dmemDepth 0)
  | some file => do
    let vals ← parseDataFile file
    let n := vals.length
    if dmemDepth < n then .error s!"data file contains {n} words but dmem depth is {dmemDepth}"
    else return vals ++ List.replicate (dmemDepth - n) 0

/-- What `writeHexFile` prints: one word a line. -/
def hexFile (words : List Word) : Text := words.flatMap fun w ↦ HexText.print 8 w.toNat ++ ['\n']

/-! ## Layout -/

def startsComment (s : Text) : Bool := "#".toList.isPrefixOf s || "//".toList.isPrefixOf s

/-- A literal ends where the file ends, or with white space or a comment. -/
def EndsLiteral (s : Text) : Prop := s = [] ∨ (∃ c s', s = c :: s' ∧ isSpace c) ∨ startsComment s

/-- A text that lists literals, with the values that they denote. -/
inductive Lists : Text → List Int → Prop
  | done : Lists [] []
  | space {c s vs} (hc : isSpace c) (h : Lists s vs) : Lists (c :: s) vs
  | comment {body s vs} (hb : startsComment body) (hn : '\n' ∉ body) (hs : s = [] ∨ ∃ s', s = '\n' :: s')
      (h : Lists s vs) : Lists (body ++ s) vs
  | literal {tok s v vs} (hv : literalValue tok = some v) (hs : EndsLiteral s) (h : Lists s vs) :
      Lists (tok ++ s) (v :: vs)

/-- The numbers in a memory image, as a simulator reads them. -/
def imageWords (text : Text) : List Word := (fields text).map fun l ↦ BitVec.ofNat 32 (HexText.read l)

/-- The file is read as the words of its values, and the data image holds them, in order, and then
zeros. -/
structure Describes (text : Text) (vs : List Int) : Prop where
  parsed : parseDataFile (.ok (text, none)) = .ok (vs.map (BitVec.ofInt 32))
  image : ∀ depth, vs.length ≤ depth → ∃ words, dataImage (some (.ok (text, none))) depth = .ok words ∧
    imageWords (hexFile words) = vs.map (BitVec.ofInt 32) ++ List.replicate (depth - vs.length) 0

variable {text l s tok : Text} {v : Int} {vs : List Int} {c : Char}

/-! ## Comments -/

theorem cutAt_cons (sep : Text) (c : Char) (l : Text) :
    cutAt sep (c :: l) = if sep.isPrefixOf (c :: l) then [] else c :: cutAt sep l := by
  have hidx : GoText.index sep (c :: l) =
      if sep.isPrefixOf (c :: l) then some 0 else (GoText.index sep l).map (· + 1) := rfl
  unfold cutAt
  rw [hidx]
  by_cases hp : sep.isPrefixOf (c :: l)
  · rw [if_pos hp, if_pos hp]
    rfl
  · rw [if_neg hp, if_neg hp]
    cases GoText.index sep l <;> rfl

theorem stripComment_cons (h1 : c ≠ '#') (h2 : c ≠ '/') :
    stripComment (c :: l) = c :: stripComment l := by
  have hhash : ¬ "#".toList.isPrefixOf (c :: l) := by simp [List.isPrefixOf, h1.symm]
  unfold stripComment
  rw [cutAt_cons, if_neg hhash, cutAt_cons]
  apply if_neg
  simp [List.isPrefixOf, h2.symm]

theorem stripComment_of_starts (h : startsComment l) : stripComment l = [] := by
  simp only [startsComment, Bool.or_eq_true, List.isPrefixOf_iff_prefix] at h
  rcases h with ⟨r, rfl⟩ | ⟨r, rfl⟩
  · show cutAt _ (cutAt _ ('#' :: r)) = []
    rw [cutAt_cons, if_pos (by simp)]
    rfl
  · -- the two slashes are still there when the text is cut at `#`
    have hkeep : cutAt "#".toList ('/' :: '/' :: r) = '/' :: '/' :: cutAt "#".toList r := by
      rw [cutAt_cons, if_neg (by simp), cutAt_cons, if_neg (by simp)]
    show cutAt _ (cutAt _ ('/' :: '/' :: r)) = []
    rw [hkeep, cutAt_cons, if_pos (by simp)]

theorem stripComment_literal (ht : ∀ c ∈ tok, literalChar c) :
    stripComment (tok ++ l) = tok ++ stripComment l := by
  induction tok with
  | nil => rfl
  | cons c tok ih =>
    rw [List.forall_mem_cons] at ht
    have h1 : c ≠ '#' := by rintro rfl; exact absurd ht.1 (by decide)
    have h2 : c ≠ '/' := by rintro rfl; exact absurd ht.1 (by decide)
    rw [List.cons_append, stripComment_cons h1 h2, ih ht.2]
    rfl

/-! ## Fields of a line -/

/-- The fields of one line. -/
def lineFields (l : Text) : List Text := fields (stripComment l)

theorem lineFields_cons (hc : isSpace c) : lineFields (c :: l) = lineFields l := by
  have h1 : c ≠ '#' := by rintro rfl; exact absurd hc (by decide)
  have h2 : c ≠ '/' := by rintro rfl; exact absurd hc (by decide)
  rw [lineFields, stripComment_cons h1 h2, GoText.fields_cons _ hc]
  rfl

theorem lineFields_literal (hv : literalValue tok = some v) (hl : EndsLiteral l) :
    lineFields (tok ++ l) = tok :: lineFields l := by
  obtain ⟨hne, hall⟩ := GoText.literalValue_chars hv
  have hword : fields tok = [tok] :=
    GoText.fields_token hne fun c hc ↦ GoText.literalChar_not_space (hall c hc)
  unfold lineFields
  rw [stripComment_literal hall]
  rcases hl with rfl | ⟨c, s, rfl, hc⟩ | hstart
  · show fields (tok ++ []) = tok :: []
    rw [List.append_nil, hword]
  · have h1 : c ≠ '#' := by rintro rfl; exact absurd hc (by decide)
    have h2 : c ≠ '/' := by rintro rfl; exact absurd hc (by decide)
    rw [stripComment_cons h1 h2, GoText.fields_append _ _ hc, GoText.fields_cons _ hc, hword]
    rfl
  · rw [stripComment_of_starts hstart, List.append_nil, hword]
    rfl

/-! ## Fields of a file -/

/-- The fields of all lines of a file. -/
def fileFields (text : Text) : List Text := (text.splitOn '\n').flatMap lineFields

theorem fileFields_newline (s : Text) : fileFields ('\n' :: s) = fileFields s := by
  have hsplit : ('\n' :: s).splitOn '\n' = [] :: s.splitOn '\n' := List.splitOn_append_cons_self [] s
  rw [fileFields, hsplit]
  rfl

-- What stands in front of the first newline.
theorem splitOn_newline (s : Text) : ∃ l ls, s.splitOn '\n' = l :: ls ∧
    ∀ a : Text, '\n' ∉ a → (a ++ s).splitOn '\n' = (a ++ l) :: ls := by
  obtain ⟨l, ls, hs⟩ := List.exists_cons_of_ne_nil (List.splitOn_ne_nil '\n' s)
  refine ⟨l, ls, hs, ?_⟩
  intro a ha
  induction a with
  | nil => exact hs
  | cons c a ih =>
    rw [List.mem_cons, not_or] at ha
    rw [List.cons_append, List.splitOn_cons_eq_if_modifyHead, ih ha.2, if_neg (by simpa using Ne.symm ha.1)]
    rfl

theorem fileFields_append {a : Text} {fs : List Text} (ha : '\n' ∉ a)
    (h : ∀ l ls, s.splitOn '\n' = l :: ls → lineFields (a ++ l) = fs ++ lineFields l) :
    fileFields (a ++ s) = fs ++ fileFields s := by
  obtain ⟨l, ls, hs, happend⟩ := splitOn_newline s
  rw [fileFields, happend a ha, List.flatMap_cons, h l ls hs, fileFields, hs, List.flatMap_cons,
    List.append_assoc]

theorem splitOn_head {ls : List Text} (hs : s.splitOn '\n' = l :: ls) :
    s = l ∨ ∃ r, s = l ++ '\n' :: r := by
  have hjoin : ['\n'].intercalate (s.splitOn '\n') = s := List.intercalate_splitOn '\n'
  rw [hs] at hjoin
  cases ls with
  | nil => exact .inl (hjoin.symm.trans (by simp))
  | cons m ms =>
    right
    refine ⟨['\n'].intercalate (m :: ms), ?_⟩
    rw [← hjoin, List.intercalate_cons_of_ne_nil (List.cons_ne_nil m ms)]
    simp

-- The end of a literal is to be seen in its line.
theorem EndsLiteral.head {ls : List Text} (h : EndsLiteral s) (hs : s.splitOn '\n' = l :: ls) :
    EndsLiteral l := by
  rcases splitOn_head hs with rfl | ⟨r, rfl⟩
  · exact h
  · cases l with
    | nil => exact .inl rfl
    | cons c l =>
      rcases h with hnil | ⟨c', s', hcons, hc⟩ | hstart
      · cases hnil
      · injection hcons with hchar _
        exact .inr (.inl ⟨c, l, rfl, hchar ▸ hc⟩)
      · refine .inr (.inr ?_)
        simp only [startsComment, Bool.or_eq_true, List.isPrefixOf_iff_prefix] at hstart ⊢
        rcases hstart with hhash | hslash
        · left
          simpa using hhash
        · right
          cases l with
          | nil => simp at hslash
          | cons c' l => simpa using hslash

theorem literal_no_newline (hv : literalValue tok = some v) : '\n' ∉ tok := by
  intro hmem
  exact absurd ((GoText.literalValue_chars hv).2 _ hmem) (by decide)

/-- The literals of a listing are its fields, whatever its layout. -/
theorem Lists.fields (h : Lists text vs) : ∃ toks, fileFields text = toks ∧
    List.Forall₂ (fun tok v ↦ literalValue tok = some v) toks vs := by
  induction h with
  | done => exact ⟨[], rfl, .nil⟩
  | @space c s vs hc _ ih =>
    obtain ⟨toks, htoks, hvals⟩ := ih
    refine ⟨toks, ?_, hvals⟩
    by_cases hn : c = '\n'
    · rw [hn, fileFields_newline, htoks]
    · have hskip : fileFields ([c] ++ s) = [] ++ fileFields s :=
        fileFields_append (by simpa using Ne.symm hn) fun l _ _ ↦ lineFields_cons hc
      exact hskip.trans htoks
  | @comment body s vs hb hn hs _ ih =>
    obtain ⟨toks, htoks, hvals⟩ := ih
    refine ⟨toks, ?_, hvals⟩
    have hskip : fileFields (body ++ s) = [] ++ fileFields s := by
      apply fileFields_append hn
      intro l ls hl
      have hnil : l = [] := by
        rcases hs with rfl | ⟨s', rfl⟩
        · cases hl
          rfl
        · have hsplit : ('\n' :: s').splitOn '\n' = [] :: s'.splitOn '\n' :=
            List.splitOn_append_cons_self [] s'
          rw [hsplit] at hl
          cases hl
          rfl
      rw [hnil, List.append_nil, lineFields, stripComment_of_starts hb]
      rfl
    exact hskip.trans htoks
  | @literal tok s v vs hv hs _ ih =>
    obtain ⟨toks, htoks, hvals⟩ := ih
    refine ⟨tok :: toks, ?_, .cons hv hvals⟩
    have hread : fileFields (tok ++ s) = [tok] ++ fileFields s :=
      fileFields_append (literal_no_newline hv) fun l ls hl ↦ lineFields_literal hv (hs.head hl)
    rw [hread, htoks]
    rfl

/-! ## Words -/

theorem readString_cases (text : Text) : ('\n' ∉ text ∧ readString text = (text, none)) ∨
    ∃ l s, text = l ++ '\n' :: s ∧ '\n' ∉ l ∧ readString text = (l ++ ['\n'], some s) := by
  induction text with
  | nil => exact .inl ⟨List.not_mem_nil, rfl⟩
  | cons c text ih =>
    by_cases hc : c = '\n'
    · subst hc
      exact .inr ⟨[], text, rfl, List.not_mem_nil, rfl⟩
    · have hstep : readString (c :: text) = (c :: (readString text).1, (readString text).2) := if_neg hc
      rw [hstep]
      rcases ih with ⟨hn, hread⟩ | ⟨l, s, rfl, hn, hread⟩
      · left
        rw [hread]
        exact ⟨by simp [hn, Ne.symm hc], rfl⟩
      · right
        rw [hread]
        exact ⟨c :: l, s, rfl, by simp [hn, Ne.symm hc], rfl⟩

-- The newline at the end of a line is cut off or stays at the end.
theorem cutAt_newline (sep : Text) (hsep : '\n' ∉ sep) (l : Text) :
    cutAt sep (l ++ ['\n']) = cutAt sep l ∨ cutAt sep (l ++ ['\n']) = cutAt sep l ++ ['\n'] := by
  have hprefix (l : Text) : sep.isPrefixOf (l ++ ['\n']) ↔ sep.isPrefixOf l := by
    rw [List.isPrefixOf_iff_prefix, List.isPrefixOf_iff_prefix, List.prefix_concat_iff]
    apply or_iff_right
    rintro rfl
    exact hsep (by simp)
  induction l with
  | nil =>
    have hempty : cutAt sep [] = [] := by
      unfold cutAt
      split <;> simp
    rw [List.nil_append, cutAt_cons, hempty]
    split
    · exact .inl rfl
    · exact .inr rfl
  | cons c l ih =>
    have hp := hprefix (c :: l)
    rw [List.cons_append] at hp ⊢
    rw [cutAt_cons, cutAt_cons]
    by_cases h : sep.isPrefixOf (c :: l)
    · rw [if_pos h, if_pos (hp.mpr h)]
      exact .inl rfl
    · rw [if_neg h, if_neg (mt hp.mp h)]
      exact ih.imp (congrArg (c :: ·)) (congrArg (c :: ·))

theorem lineFields_newline (l : Text) : lineFields (l ++ ['\n']) = lineFields l := by
  have hspace : ∀ c ∈ ['\n'], isSpace c := List.forall_mem_singleton.mpr (by decide)
  have hslash (x : Text) : fields (cutAt "//".toList (x ++ ['\n'])) = fields (cutAt "//".toList x) := by
    rcases cutAt_newline "//".toList (by simp) x with h | h
    · rw [h]
    · rw [h, GoText.fields_append_spaces _ hspace]
  unfold lineFields stripComment
  rcases cutAt_newline "#".toList (by simp) l with h | h
  · rw [h]
  · rw [h, hslash]

theorem dataValues_append (a b : List Text) : dataValues (a ++ b) = (do
    let x ← dataValues a
    let y ← dataValues b
    return x ++ y) := by
  induction a with
  | nil =>
    rw [List.nil_append]
    show _ = (dataValues b).bind fun y ↦ .ok ([] ++ y)
    cases dataValues b <;> rfl
  | cons f a ih =>
    rw [List.cons_append, dataValues, dataValues, ih]
    cases dataValue f with
    | error e => rfl
    | ok w =>
      cases dataValues a with
      | error e => rfl
      | ok x => cases dataValues b <;> rfl

theorem parseDataLines_eq {n : Nat} {values : List Word} (h : text.length < n) :
    parseDataLines none n text values = (dataValues (fileFields text)).map (values ++ ·) := by
  induction n generalizing text values with
  | zero => omega
  | succ n ih =>
    rcases readString_cases text with ⟨hn, hread⟩ | ⟨l, s, rfl, hn, hread⟩
    · have hfile : fileFields text = lineFields text := by
        rw [fileFields, List.splitOn_eq_singleton hn]
        simp
      simp only [parseDataLines, hread]
      rw [hfile]
      show (do let ws ← dataValues (lineFields text); return values ++ ws) = _
      cases dataValues (lineFields text) <;> rfl
    · have hlen : s.length < n := by
        simp only [List.length_append, List.length_cons] at h
        omega
      have hfile : fileFields (l ++ '\n' :: s) = lineFields l ++ fileFields s := by
        rw [fileFields, List.splitOn_append_cons_self_of_not_mem hn]
        rfl
      simp only [parseDataLines, hread]
      rw [hfile, dataValues_append]
      show (do
        let ws ← dataValues (lineFields (l ++ ['\n']))
        parseDataLines none n s (values ++ ws)) = _
      rw [lineFields_newline]
      cases dataValues (lineFields l) with
      | error e => rfl
      | ok ws =>
        show parseDataLines none n s (values ++ ws) = _
        rw [ih hlen]
        cases dataValues (fileFields s) with
        | error e => rfl
        | ok ws' => exact congrArg Except.ok (List.append_assoc _ _ _)

theorem dataValues_ok {toks : List Text} (h : List.Forall₂ (fun tok v ↦ literalValue tok = some v) toks vs)
    (hlow : ∀ v ∈ vs, -2 ^ 31 ≤ v ∧ v < 2 ^ 31) : dataValues toks = .ok (vs.map (BitVec.ofInt 32)) := by
  induction h with
  | nil => rfl
  | @cons tok v toks vs hv _ ih =>
    rw [List.forall_mem_cons] at hlow
    have hparse := GoText.parseInt_eq 31 hv
    rw [if_pos hlow.1] at hparse
    have hval : dataValue tok = .ok (BitVec.ofInt 32 v) := by
      simp only [dataValue, hparse]
    rw [dataValues, hval, ih hlow.2]
    rfl

-- A literal of the upper half is an error.
theorem dataValues_error {toks : List Text}
    (h : List.Forall₂ (fun tok v ↦ literalValue tok = some v) toks vs) {v : Int} (hv : v ∈ vs)
    (hhigh : 2 ^ 31 ≤ v) : ∃ e, dataValues toks = .error e := by
  induction h with
  | nil => cases hv
  | @cons tok x toks vs hx _ ih =>
    rw [dataValues]
    rcases List.mem_cons.mp hv with rfl | hmem
    · have hparse := GoText.parseInt_eq 31 hx
      rw [if_neg (by omega)] at hparse
      simp only [dataValue, hparse]
      exact ⟨_, rfl⟩
    · obtain ⟨e, he⟩ := ih hmem
      rw [he]
      cases dataValue tok with
      | error e' => exact ⟨e', rfl⟩
      | ok w => exact ⟨e, rfl⟩

theorem parseDataFile_eq (text : Text) : parseDataFile (.ok (text, none)) = dataValues (fileFields text) := by
  show parseDataLines none (text.length + 1) text [] = _
  rw [parseDataLines_eq (Nat.lt_succ_self _)]
  cases dataValues (fileFields text) <;> rfl

/-! ## Images -/

theorem print_no_space (k n : Nat) : ∀ c ∈ HexText.print k n, isSpace c = false :=
  HexText.forall_mem_print (by decide) k n

-- A simulator reads back the words of an image.
theorem imageWords_hexFile (words : List Word) : imageWords (hexFile words) = words := by
  induction words with
  | nil => rfl
  | cons w words ih =>
    have hne : HexText.print 8 w.toNat ≠ [] := HexText.print_ne_nil 7 w.toNat
    have hfields : fields (hexFile (w :: words)) = HexText.print 8 w.toNat :: fields (hexFile words) := by
      show fields (HexText.print 8 w.toNat ++ ['\n'] ++ hexFile words) = _
      rw [List.append_assoc]
      show fields (HexText.print 8 w.toNat ++ '\n' :: hexFile words) = _
      rw [GoText.fields_append _ _ (by decide), GoText.fields_token hne (print_no_space 8 w.toNat)]
      rfl
    unfold imageWords at ih ⊢
    have hlt : w.toNat < 16 ^ 8 := w.isLt
    rw [hfields, List.map_cons, ih, HexText.read_print, Nat.mod_eq_of_lt hlt, BitVec.ofNat_toNat,
      BitVec.setWidth_eq]

/-- A data file describes the words of its literals exactly if none of them is written as an unsigned
number of the upper half. -/
theorem describes_iff (h : Lists text vs) (hint : ∀ v ∈ vs, Int32 v) :
    Describes text vs ↔ ∀ v ∈ vs, v < 2 ^ 31 := by
  obtain ⟨toks, htoks, hvals⟩ := h.fields
  have hfile : parseDataFile (.ok (text, none)) = dataValues toks := by
    rw [parseDataFile_eq, htoks]
  constructor
  · intro hd v hv
    by_contra hhigh
    obtain ⟨e, he⟩ := dataValues_error hvals hv (by omega)
    have hparsed := hd.parsed
    rw [hfile, he] at hparsed
    cases hparsed
  · intro hlow
    have hok : parseDataFile (.ok (text, none)) = .ok (vs.map (BitVec.ofInt 32)) := by
      rw [hfile]
      exact dataValues_ok hvals fun v hv ↦ ⟨(hint v hv).1, hlow v hv⟩
    refine ⟨hok, ?_⟩
    intro depth hdepth
    have hfit : ¬ depth < (vs.map (BitVec.ofInt 32)).length := by
      rw [List.length_map]
      omega
    refine ⟨vs.map (BitVec.ofInt 32) ++ List.replicate (depth - vs.length) 0, ?_, imageWords_hexFile _⟩
    simp only [dataImage, hok]
    show (if _ then _ else _) = _
    rw [if_neg hfit, List.length_map]
    rfl

/-- Two words on two lines, with a comment, and without a newline at the end. -/
def signedFile : Text := "1 # one\n -2".toList

theorem signedFile_lists : Lists signedFile [1, -2] := by
  have hlast : Lists ("-2".toList ++ []) [-2] := .literal (by decide) (.inl rfl) .done
  have hline : Lists "\n -2".toList [-2] := .space (by decide) (.space (by decide) hlast)
  have hcomment : Lists ("# one".toList ++ "\n -2".toList) [-2] :=
    .comment (by decide) (by simp) (.inr ⟨_, rfl⟩) hline
  have hspace : Lists " # one\n -2".toList [-2] := .space (by decide) hcomment
  show Lists (['1'] ++ " # one\n -2".toList) [1, -2]
  exact .literal (by decide) (.inr (.inl ⟨' ', _, rfl, by decide⟩)) hspace

theorem signedFile_describes : Describes signedFile [1, -2] := by
  refine (describes_iff signedFile_lists ?_).mpr ?_
  · unfold Int32
    decide
  · decide

/-- The word of all ones as an unsigned number. -/
def onesFile : Text := "0xFFFFFFFF\n".toList

/-- It is in the range of an immediate, but not of a data file. -/
theorem onesFile_rejected : Lists onesFile [2 ^ 32 - 1] ∧ Int32 (2 ^ 32 - 1) ∧
    parseImmediate plainTables "0xFFFFFFFF".toList = .ok 0xFFFFFFFF#32 ∧
    parseDataFile (.ok (onesFile, none)) = .error "invalid data value 0xFFFFFFFF" ∧
    ¬ Describes onesFile [2 ^ 32 - 1] := by
  have herr : parseDataFile (.ok (onesFile, none)) = .error "invalid data value 0xFFFFFFFF" := by decide
  have hlists : Lists onesFile [2 ^ 32 - 1] := by
    have hend : Lists "\n".toList [] := .space (by decide) .done
    show Lists ("0xFFFFFFFF".toList ++ "\n".toList) [2 ^ 32 - 1]
    exact .literal (by decide) (.inr (.inl ⟨'\n', _, rfl, by decide⟩)) hend
  refine ⟨hlists, ?_, by decide, herr, ?_⟩
  · unfold Int32
    decide
  · intro hd
    have hparsed := hd.parsed
    rw [herr] at hparsed
    cases hparsed

end Assembler

end QarCore
