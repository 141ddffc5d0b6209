import QarCore.Data.Unrolling
import QarCore.DevKit.Labels

/-!
# Includes

The expansion of a file, as the unlimited recursion that the source writes.  Where no file is included
from within itself, it ends, and what it puts out is the text with the includes put in place.
-/

namespace QarCore

namespace Assembler

open GoText (Text Cases trimSpace index lastIndex)
open Unrolling (Settles Local AcyclicFrom)

variable (f : Files) (u : Cases)

/-! ## The recursion -/

/-- The path that a line includes, or the error of a malformed directive; `none` for any other line. -/
def includeOf (src : SourceLine) : Option (Except String Text) :=
  let trimmed := trimSpace (stripComment src.text)
  let place := src.at
  if ".include".toList.isPrefixOf (u.toLower trimmed) then
    match index ['"'] trimmed, lastIndex ['"'] trimmed with
    | some start, some stop =>
      if stop = start then some (.error s!"{place}: malformed .include directive")
      else some (.ok (f.resolve src.file ((trimmed.take stop).drop (start + 1))))
    | _, _ => some (.error s!"{place}: malformed .include directive")
  else none

/-- A line that includes nothing. -/
def readLine (src : SourceLine) (p : AsmParser) : Except String AsmParser :=
  let trimmed := trimSpace (stripComment src.text)
  if trimmed = [] then .ok p
  else if ".equ".toList.isPrefixOf (u.toLower trimmed) then do
    let macros ← defineMacro u src (trimSpace (trimmed.drop 4)) p.macros
    return { p with macros }
  else .ok { p with lines := p.lines ++ [src] }

/-- The body of `expandFile`. -/
def expandStep (expand : Text → AsmParser → Except String AsmParser) (path : Text) (p : AsmParser) :
    Except String AsmParser :=
  match f.openFile path with
  | .error e => .error e
  | .ok (lines, scanErr) => do
    let p ← expandLines f u expand path 1 lines p
    match scanErr with
    | some e => .error e
    | none => .ok p

/-- The limit of the host. -/
def tooManyOpen (path : Text) (_ : AsmParser) : Except String AsmParser :=
  let name := String.ofList path
  .error s!"open {name}: too many open files"

theorem expandFile_eq (n : ℕ) : expandFile f u n = (expandStep f u)^[n] tooManyOpen := by
  induction n with
  | zero => rfl
  | succ n ih =>
    rw [Function.iterate_succ_apply', ← ih]
    rfl

theorem expandLine_eq (expand : Text → AsmParser → Except String AsmParser) (src : SourceLine)
    (p : AsmParser) : expandLine f u expand src p =
      match includeOf f u src with
      | none => readLine u src p
      | some (.ok path) => expand path p
      | some (.error e) => .error e := by
  unfold expandLine includeOf readLine
  by_cases hempty : trimSpace (stripComment src.text) = []
  · simp only [hempty]
    rfl
  · simp only [if_neg hempty]
    by_cases hinc : ".include".toList.isPrefixOf (u.toLower (trimSpace (stripComment src.text)))
    · simp only [hinc, if_true]
      cases hstart : index ['"'] (trimSpace (stripComment src.text)) with
      | none => rfl
      | some start =>
        cases hstop : lastIndex ['"'] (trimSpace (stripComment src.text)) with
        | none => rfl
        | some stop =>
          by_cases hquote : stop = start
          · simp only [hquote, if_true]
          · simp only [hquote, if_false]
    · simp only [hinc]
      rfl

theorem expandLines_cons (expand : Text → AsmParser → Except String AsmParser) (path raw : Text) (n : ℕ)
    (rest : List Text) (p : AsmParser) : expandLines f u expand path n (raw :: rest) p =
      (expandLine f u expand ⟨raw, path, n⟩ p).bind (expandLines f u expand path (n + 1) rest) := rfl

/-! ## The text -/

/-- What an expanded text consists of: lines that include nothing, and errors. -/
inductive Piece
  | line (src : SourceLine)
  | fail (e : String)

def runPieces : List Piece → AsmParser → Except String AsmParser
  | [], p => .ok p
  | .fail e :: _, _ => .error e
  | .line src :: rest, p => (readLine u src p).bind (runPieces rest)

/-- A line, with `text path` put in the place of an include. -/
def spliceLine (text : Text → List Piece) (src : SourceLine) : List Piece :=
  match includeOf f u src with
  | none => [.line src]
  | some (.ok path) => text path
  | some (.error e) => [.fail e]

def spliceLines (text : Text → List Piece) (path : Text) : ℕ → List Text → List Piece
  | _, [] => []
  | n, raw :: rest => spliceLine f u text ⟨raw, path, n⟩ ++ spliceLines text path (n + 1) rest

/-- The lines of a file in order, each include replaced by the text of its file. -/
def splice (text : Text → List Piece) (path : Text) : List Piece :=
  match f.openFile path with
  | .error e => [.fail e]
  | .ok (lines, scanErr) => spliceLines f u text path 1 lines ++ (scanErr.map Piece.fail).toList

variable {f u}

theorem runPieces_append (a b : List Piece) (p : AsmParser) :
    runPieces u (a ++ b) p = (runPieces u a p).bind (runPieces u b) := by
  induction a generalizing p with
  | nil => rfl
  | cons piece a ih =>
    cases piece with
    | fail e => rfl
    | line src =>
      show (readLine u src p).bind (runPieces u (a ++ b)) = ((readLine u src p).bind (runPieces u a)).bind _
      cases readLine u src p with
      | error e => rfl
      | ok q => exact ih q

theorem runPieces_spliceLine (text : Text → List Piece) (src : SourceLine) (p : AsmParser) :
    expandLine f u (fun q ↦ runPieces u (text q)) src p = runPieces u (spliceLine f u text src) p := by
  rw [expandLine_eq, spliceLine]
  cases includeOf f u src with
  | none =>
    show readLine u src p = (readLine u src p).bind Except.ok
    cases readLine u src p <;> rfl
  | some r => cases r <;> rfl

theorem runPieces_spliceLines (text : Text → List Piece) (path : Text) (n : ℕ) (lines : List Text)
    (p : AsmParser) : expandLines f u (fun q ↦ runPieces u (text q)) path n lines p =
      runPieces u (spliceLines f u text path n lines) p := by
  induction lines generalizing n p with
  | nil => rfl
  | cons raw rest ih =>
    rw [expandLines_cons, spliceLines, runPieces_append, runPieces_spliceLine]
    congr 1
    funext q
    exact ih (n + 1) q

-- Reading a file is reading its text.
theorem runPieces_splice (text : Text → List Piece) :
    expandStep f u (fun q ↦ runPieces u (text q)) = fun q ↦ runPieces u (splice f u text q) := by
  funext path p
  unfold expandStep splice
  cases f.openFile path with
  | error e => rfl
  | ok file =>
    obtain ⟨lines, scanErr⟩ := file
    simp only [runPieces_spliceLines]
    rw [runPieces_append]
    cases scanErr <;> rfl

theorem iterate_expandStep (n : ℕ) (text : Text → List Piece) :
    (expandStep f u)^[n] (fun q ↦ runPieces u (text q)) = fun q ↦ runPieces u ((splice f u)^[n] text q) := by
  induction n with
  | zero => rfl
  | succ n ih => rw [Function.iterate_succ_apply', ih, runPieces_splice, Function.iterate_succ_apply']

/-! ## The files it opens -/

variable (f u)

/-- A line, with the files that are opened for it. -/
def openedLine (expand : Text → AsmParser → Except String AsmParser × List Text) (src : SourceLine)
    (p : AsmParser) : List Text :=
  match includeOf f u src with
  | some (.ok path) => (expand path p).2
  | _ => []

def openedLines (expand : Text → AsmParser → Except String AsmParser × List Text) (path : Text) :
    ℕ → List Text → AsmParser → List Text
  | _, [], _ => []
  | n, raw :: rest, p =>
    openedLine f u expand ⟨raw, path, n⟩ p ++
      match expandLine f u (fun q p ↦ (expand q p).1) ⟨raw, path, n⟩ p with
      | .error _ => []
      | .ok p => openedLines expand path (n + 1) rest p

/-- The body of `expandFile`, with the files that it opens, in order. -/
def openStep (expand : Text → AsmParser → Except String AsmParser × List Text) (path : Text) (p : AsmParser) :
    Except String AsmParser × List Text :=
  (expandStep f u (fun q p ↦ (expand q p).1) path p,
    path :: match f.openFile path with
      | .error _ => []
      | .ok (lines, _) => openedLines f u expand path 1 lines p)

/-- A file includes another. -/
def Includes (path path' : Text) : Prop :=
  ∃ lines scanErr raw n, f.openFile path = .ok (lines, scanErr) ∧ raw ∈ lines ∧
    includeOf f u ⟨raw, path, n⟩ = some (.ok path')

/-- The number of lines of a file. -/
def lineCount (path : Text) : ℕ :=
  match f.openFile path with
  | .error _ => 0
  | .ok (lines, _) => lines.length

/-- The files that are opened for one, when includes nest to depth `n` and a file has `k` lines at most. -/
def openLimit (k : ℕ) : ℕ → ℕ
  | 0 => 0
  | n + 1 => 1 + k * openLimit k n

variable {f u}

theorem fst_iterate_openStep (n : ℕ) (g : Text → AsmParser → Except String AsmParser × List Text) :
    (fun q p ↦ ((openStep f u)^[n] g q p).1) = (expandStep f u)^[n] (fun q p ↦ (g q p).1) := by
  induction n with
  | zero => rfl
  | succ n ih =>
    rw [Function.iterate_succ_apply' (expandStep f u), ← ih, Function.iterate_succ_apply' (openStep f u)]
    rfl

theorem splice_local : Local (splice f u) (Includes f u) := by
  intro text text' path h
  unfold splice
  cases hopen : f.openFile path with
  | error e => rfl
  | ok file =>
    obtain ⟨lines, scanErr⟩ := file
    have hlines (n : ℕ) (rest : List Text) (hrest : ∀ raw ∈ rest, raw ∈ lines) :
        spliceLines f u text path n rest = spliceLines f u text' path n rest := by
      induction rest generalizing n with
      | nil => rfl
      | cons raw rest ih =>
        rw [List.forall_mem_cons] at hrest
        rw [spliceLines, spliceLines, ih _ hrest.2]
        congr 1
        unfold spliceLine
        cases hinc : includeOf f u ⟨raw, path, n⟩ with
        | none => rfl
        | some r =>
          cases r with
          | error e => rfl
          | ok path' => exact h path' ⟨lines, scanErr, raw, n, hopen, hrest.1, hinc⟩
    simp only [hlines 1 lines fun _ hraw ↦ hraw]

theorem openStep_local : Local (openStep f u) (Includes f u) := by
  intro g g' path h
  funext p
  unfold openStep expandStep
  cases hopen : f.openFile path with
  | error e => rfl
  | ok file =>
    obtain ⟨lines, scanErr⟩ := file
    have hline (n : ℕ) {raw : Text} (hraw : raw ∈ lines) (p : AsmParser) :
        expandLine f u (fun q p ↦ (g q p).1) ⟨raw, path, n⟩ p =
            expandLine f u (fun q p ↦ (g' q p).1) ⟨raw, path, n⟩ p ∧
          openedLine f u g ⟨raw, path, n⟩ p = openedLine f u g' ⟨raw, path, n⟩ p := by
      rw [expandLine_eq, expandLine_eq, openedLine, openedLine]
      cases hinc : includeOf f u ⟨raw, path, n⟩ with
      | none => exact ⟨rfl, rfl⟩
      | some r =>
        cases r with
        | error e => exact ⟨rfl, rfl⟩
        | ok path' =>
          have hsame := h path' ⟨lines, scanErr, raw, n, hopen, hraw, hinc⟩
          exact ⟨congrArg Prod.fst (congrFun hsame p), congrArg Prod.snd (congrFun hsame p)⟩
    have hlines (n : ℕ) (rest : List Text) (hrest : ∀ raw ∈ rest, raw ∈ lines) (p : AsmParser) :
        expandLines f u (fun q p ↦ (g q p).1) path n rest p =
            expandLines f u (fun q p ↦ (g' q p).1) path n rest p ∧
          openedLines f u g path n rest p = openedLines f u g' path n rest p := by
      induction rest generalizing n p with
      | nil => exact ⟨rfl, rfl⟩
      | cons raw rest ih =>
        rw [List.forall_mem_cons] at hrest
        obtain ⟨hfst, hsnd⟩ := hline n hrest.1 p
        rw [expandLines_cons, expandLines_cons, openedLines, openedLines, hfst, hsnd]
        cases expandLine f u (fun q p ↦ (g' q p).1) ⟨raw, path, n⟩ p with
        | error e => exact ⟨rfl, rfl⟩
        | ok q =>
          obtain ⟨hfst', hsnd'⟩ := ih (n + 1) hrest.2 q
          exact ⟨hfst', congrArg _ hsnd'⟩
    obtain ⟨hfst, hsnd⟩ := hlines 1 lines (fun _ hraw ↦ hraw) p
    simp only [hfst, hsnd]

theorem length_openedLines {g : Text → AsmParser → Except String AsmParser × List Text} {b : ℕ}
    (hg : ∀ q p, (g q p).2.length ≤ b) (path : Text) (n : ℕ) (lines : List Text) (p : AsmParser) :
    (openedLines f u g path n lines p).length ≤ lines.length * b := by
  induction lines generalizing n p with
  | nil => exact Nat.zero_le _
  | cons raw rest ih =>
    have hline : (openedLine f u g ⟨raw, path, n⟩ p).length ≤ b := by
      unfold openedLine
      split
      · exact hg _ _
      · exact Nat.zero_le _
    rw [openedLines, List.length_append, List.length_cons, Nat.succ_mul, Nat.add_comm]
    apply Nat.add_le_add _ hline
    split
    · exact Nat.zero_le _
    · exact ih _ _

theorem length_opened {k : ℕ} (hk : ∀ q, lineCount f q ≤ k) (e : String) (n : ℕ) (path : Text) (p : AsmParser) :
    ((openStep f u)^[n] (fun _ _ ↦ (.error e, [])) path p).2.length ≤ openLimit k n := by
  induction n generalizing path p with
  | zero => exact le_rfl
  | succ n ih =>
    rw [Function.iterate_succ_apply', openLimit, Nat.add_comm]
    apply Nat.succ_le_succ
    have hcount := hk path
    unfold lineCount at hcount
    cases hopen : f.openFile path with
    | error e => exact Nat.zero_le _
    | ok file =>
      rw [hopen] at hcount
      exact (length_openedLines ih path 1 file.1 p).trans (Nat.mul_le_mul_right _ hcount)

/-! ## Termination -/

/-- Where no file is included from within itself, the recursion ends within as many levels as there are
files: what a call further down would do makes no difference.  The number of files that it opens is
bounded, and what it reads is the text with every include replaced by the text of its file. -/
theorem includes_expand {files : Finset Text} {path : Text}
    (hfiles : ∀ q, q ∉ files → ∃ e, f.openFile q = .error e) (hacyclic : AcyclicFrom (Includes f u) path) :
    ∃ text : Text → List Piece,
      (∀ q, Relation.ReflTransGen (Includes f u) path q → text q = splice f u text q) ∧
      ∀ n > files.card, ∀ p, expandFile f u n path p = runPieces u (text path) p ∧
        ∀ g, ((openStep f u)^[n] g path p).1 = runPieces u (text path) p ∧
          ((openStep f u)^[n] g path p).2.length ≤ openLimit (files.sup (lineCount f)) (files.card + 1) := by
  have hmem (q q' : Text) (h : Includes f u q q') : q ∈ files := by
    obtain ⟨lines, scanErr, raw, n, hopen, -⟩ := h
    by_contra hq
    obtain ⟨e, he⟩ := hfiles q hq
    rw [hopen] at he
    cases he
  have hcount (q : Text) : lineCount f q ≤ files.sup (lineCount f) := by
    by_cases hq : q ∈ files
    · exact Finset.le_sup hq
    · obtain ⟨e, he⟩ := hfiles q hq
      simp only [lineCount, he]
      exact Nat.zero_le _
  let text := (splice f u)^[files.card + 1] fun _ ↦ []
  have hsettled (q : Text) (hq : Relation.ReflTransGen (Includes f u) path q) :
      Settles (splice f u) (files.card + 1) q :=
    splice_local.settles_of_acyclic hmem (hacyclic.of_reaches hq)
  have hopened : Settles (openStep f u) (files.card + 1) path := openStep_local.settles_of_acyclic hmem hacyclic
  -- a call that nothing depends on
  let stop : Text → AsmParser → Except String AsmParser × List Text := fun _ _ ↦ (.error "", [])
  have hstop (p : AsmParser) : ((openStep f u)^[files.card + 1] stop path p).1 = runPieces u (text path) p := by
    have hfst := congrFun (congrFun (fst_iterate_openStep (f := f) (u := u) (files.card + 1) stop) path) p
    have hiter := congrFun (congrFun (iterate_expandStep (f := f) (u := u) (files.card + 1)
      fun _ ↦ [Piece.fail ""]) path) p
    have htext := hsettled path .refl (fun _ ↦ [Piece.fail ""]) fun _ ↦ []
    rw [htext] at hiter
    exact hfst.trans hiter
  have hsame (n : ℕ) (hn : files.card < n) (g : Text → AsmParser → Except String AsmParser × List Text) :
      (openStep f u)^[n] g path = (openStep f u)^[files.card + 1] stop path := hopened.iterate_eq hn g stop
  refine ⟨text, ?_, ?_⟩
  · intro q hq
    show text q = (splice f u) ((splice f u)^[files.card + 1] _) q
    rw [← Function.iterate_succ_apply' (splice f u)]
    exact ((hsettled q hq).iterate_eq (Nat.le_succ _) _ _).symm
  · intro n hn p
    constructor
    · rw [expandFile_eq, ← hstop p, ← hsame n hn fun q p ↦ (tooManyOpen q p, [])]
      have hfst := fst_iterate_openStep (f := f) (u := u) n fun q p ↦ (tooManyOpen q p, [])
      exact (congrFun (congrFun hfst path) p).symm
    · intro g
      rw [hsame n hn g]
      exact ⟨hstop p, length_opened hcount "" _ path p⟩

def defsFile : Text := "defs.qar".toList

/-- A host with two files, the first of which includes the second. -/
def twoFiles : Files where
  openFile path :=
    if path = mainPath then .ok ([".include \"defs.qar\"".toList, "JAL zero, loop".toList], none)
    else if path = defsFile then .ok (["loop: NOP".toList], none)
    else .error "no such file"
  resolve _ path := path
  maxOpen := 8

theorem twoFiles_includes {q q' : Text} (h : Includes twoFiles plainTables.cases q q') :
    q = mainPath ∧ q' = defsFile := by
  obtain ⟨lines, scanErr, raw, n, hopen, hraw, hinc⟩ := h
  simp only [twoFiles] at hopen
  split at hopen
  · cases hopen
    rcases List.mem_pair.mp hraw with rfl | rfl
    · cases hinc
      exact ⟨by assumption, rfl⟩
    · cases hinc
  · split at hopen
    · cases hopen
      rw [List.mem_singleton.mp hraw] at hinc
      cases hinc
    · cases hopen

theorem twoFiles_acyclic : AcyclicFrom (Includes twoFiles plainTables.cases) mainPath := by
  apply Unrolling.acyclicFrom_of_rank fun q ↦ if q = mainPath then 1 else 0
  intro q q' h
  obtain ⟨rfl, rfl⟩ := twoFiles_includes h
  decide

theorem twoFiles_expanded : expandFile twoFiles plainTables.cases 3 mainPath ⟨fun _ ↦ none, []⟩ =
    .ok ⟨fun _ ↦ none, [⟨"loop: NOP".toList, defsFile, 1⟩, ⟨"JAL zero, loop".toList, mainPath, 2⟩]⟩ := by
  have hfiles : ∀ q, q ∉ ({mainPath, defsFile} : Finset Text) → ∃ e, twoFiles.openFile q = .error e := by
    intro q hq
    rw [Finset.mem_insert, Finset.mem_singleton, not_or] at hq
    simp only [twoFiles, if_neg hq.1, if_neg hq.2]
    exact ⟨_, rfl⟩
  obtain ⟨text, htext, hrun⟩ := includes_expand hfiles twoFiles_acyclic
  have hinc : Includes twoFiles plainTables.cases mainPath defsFile :=
    ⟨_, _, ".include \"defs.qar\"".toList, 1, rfl, List.mem_cons_self, rfl⟩
  have hmain : text mainPath = text defsFile ++ [.line ⟨"JAL zero, loop".toList, mainPath, 2⟩] :=
    (htext _ .refl).trans (List.append_nil _)
  have hdefs : text defsFile = [.line ⟨"loop: NOP".toList, defsFile, 1⟩] := htext _ (.single hinc)
  have hdepth : 3 > ({mainPath, defsFile} : Finset Text).card := by decide
  rw [(hrun 3 hdepth ⟨fun _ ↦ none, []⟩).1, hmain, hdefs]
  rfl

/-- A host with one file, which includes itself. -/
def selfFile : Files where
  openFile path := if path = mainPath then .ok ([".include \"main.qar\"".toList], none) else .error "no such file"
  resolve _ path := path
  maxOpen := 8

theorem selfFile_step (g : Text → AsmParser → Except String AsmParser × List Text) (p : AsmParser) :
    openStep selfFile plainTables.cases g mainPath p = ((g mainPath p).1, mainPath :: (g mainPath p).2) := by
  have hinc : includeOf selfFile plainTables.cases ⟨".include \"main.qar\"".toList, mainPath, 1⟩ =
      some (.ok mainPath) := rfl
  have hopen : selfFile.openFile mainPath = .ok ([".include \"main.qar\"".toList], none) := rfl
  simp only [openStep, expandStep, hopen, expandLines_cons, openedLines, expandLine_eq, openedLine, hinc]
  cases (g mainPath p).1 with
  | error e =>
    rw [List.append_nil]
    rfl
  | ok q =>
    rw [List.append_nil]
    rfl

/-- At no depth has the expansion ended: it opens the file as often as the host lets it, and only the
limit of the host ends it. -/
theorem selfFile_endless : (¬ ∃ n, Settles (openStep selfFile plainTables.cases) n mainPath) ∧
    ∀ n p, expandFile selfFile plainTables.cases n mainPath p = tooManyOpen mainPath p ∧
      ∀ g, ((openStep selfFile plainTables.cases)^[n] g mainPath p).2.length = n + (g mainPath p).2.length := by
  have hall (n : ℕ) (p : AsmParser) (g : Text → AsmParser → Except String AsmParser × List Text) :
      ((openStep selfFile plainTables.cases)^[n] g mainPath p).1 = (g mainPath p).1 ∧
        ((openStep selfFile plainTables.cases)^[n] g mainPath p).2.length = n + (g mainPath p).2.length := by
    induction n with
    | zero => exact ⟨rfl, (Nat.zero_add _).symm⟩
    | succ n ih =>
      rw [Function.iterate_succ_apply', selfFile_step, List.length_cons, ih.2]
      exact ⟨ih.1, by omega⟩
  constructor
  · rintro ⟨n, hn⟩
    let p : AsmParser := ⟨fun _ ↦ none, []⟩
    -- two calls that answer differently below the unrolled ones
    have hsame := congrFun (hn (fun _ _ ↦ (.error "", [])) fun _ p ↦ (.ok p, [])) p
    have herror := (hall n p fun _ _ ↦ (.error "", [])).1
    rw [hsame, (hall n p fun _ p ↦ (.ok p, [])).1] at herror
    cases herror
  · intro n p
    refine ⟨?_, fun g ↦ (hall n p g).2⟩
    have hfst := fst_iterate_openStep (f := selfFile) (u := plainTables.cases) n fun q p ↦ (tooManyOpen q p, [])
    rw [expandFile_eq]
    exact (congrFun (congrFun hfst mainPath) p).symm.trans (hall n p _).1

end Assembler

end QarCore
