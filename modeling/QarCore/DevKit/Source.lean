import QarCore.DevKit.Assembler

/-!
# Source files

The two passes of `qarsim build` over assembly sources: the first expands includes and collects the
macros, the second collects the labels and the instructions, which are then encoded.
-/

namespace QarCore

namespace Assembler

open GoText (Text Cases trimSpace index lastIndex fields parseInt)

/-- The files of the host.  Opening one gives its lines and the error that ended the scan, if there
was one; `resolve` is the path of an include, from the path of the file and what stands in quotes. -/
structure Files where
  openFile : Text → Except String (List Text × Option String)
  resolve : Text → Text → Text
  maxOpen : Nat

structure SourceLine where
  text : Text
  file : Text
  line : Nat
  deriving DecidableEq

/-- `path:line`, which the errors of a source line start with. -/
def SourceLine.at (src : SourceLine) : String :=
  let file := String.ofList src.file
  let line := src.line
  s!"{file}:{line}"

variable (f : Files) (u : Cases)

/-! ## Text of a line -/

def cutAt (sep : Text) (line : Text) : Text :=
  match index sep line with
  | some idx => line.take idx
  | none => line

def stripComment (line : Text) : Text := cutAt "//".toList (cutAt "#".toList line)

/-- The operands between commas, without the empty ones. -/
def parseArgs (argStr : Text) : List Text :=
  if trimSpace argStr = [] then [] else ((argStr.splitOn ',').map trimSpace).filter (· ≠ [])

/-! ## Includes and macros -/

/-- The macros of the parser and the lines it has put out. -/
structure AsmParser where
  macros : Text → Option Word
  lines : List SourceLine

def evalMacroValue (macros : Text → Option Word) (token : Text) : Except String Word :=
  let token := trimSpace token
  if token = [] then .error "empty macro value"
  else
    match macros (u.toUpper token) with
    | some val => .ok val
    | none =>
      match parseInt 64 token with
      | none => .error (GoText.parseIntError token)
      | some v =>
        match toInt32 v with
        | none =>
          let name := String.ofList token
          .error s!"macro value {name} out of range"
        | some w => .ok w

/-- `.equ name, value`, from the text after the directive. -/
def defineMacro (src : SourceLine) (payload : Text) (macros : Text → Option Word) :
    Except String (Text → Option Word) :=
  let place := src.at
  match fields (payload.map fun c ↦ if c = ',' then ' ' else c) with
  | name :: value :: _ =>
    match evalMacroValue u macros value with
    | .error e => .error s!"{place}: {e}"
    | .ok val => .ok (Function.update macros (u.toUpper name) (some val))
  | _ => .error s!"{place}: .equ expects name and value"

/-- One line of a file; `expand` is for the file of an include. -/
def expandLine (expand : Text → AsmParser → Except String AsmParser) (src : SourceLine) (p : AsmParser) :
    Except String AsmParser :=
  let trimmed := trimSpace (stripComment src.text)
  let lower := u.toLower trimmed
  let place := src.at
  if trimmed = [] then .ok p
  else if ".include".toList.isPrefixOf lower then
    match index ['"'] trimmed, lastIndex ['"'] trimmed with
    | some start, some stop =>
      if stop = start then .error s!"{place}: malformed .include directive"
      else expand (f.resolve src.file ((trimmed.take stop).drop (start + 1))) p
    | _, _ => .error s!"{place}: malformed .include directive"
  else if ".equ".toList.isPrefixOf lower then do
    let macros ← defineMacro u src (trimSpace (trimmed.drop 4)) p.macros
    return { p with macros }
  else .ok { p with lines := p.lines ++ [src] }

def expandLines (expand : Text → AsmParser → Except String AsmParser) (path : Text) :
    Nat → List Text → AsmParser → Except String AsmParser
  | _, [], p => .ok p
  | lineNum, raw :: rest, p => do
    let p ← expandLine f u expand ⟨raw, path, lineNum⟩ p
    expandLines expand path (lineNum + 1) rest p

/-- A file and what it includes, with `n` more files that may be open at once.  A file that includes
itself ends at that limit of the host. -/
def expandFile : Nat → Text → AsmParser → Except String AsmParser
  | 0, path, _ =>
    let name := String.ofList path
    .error s!"open {name}: too many open files"
  | n + 1, path, p =>
    match f.openFile path with
    | .error e => .error e
    | .ok (lines, scanErr) => do
      let p ← expandLines f u (expandFile n) path 1 lines p
      match scanErr with
      | some e => .error e
      | none => .ok p

def loadFiles : List Text → AsmParser → Except String AsmParser
  | [], p => .ok p
  | path :: paths, p => do
    let p ← expandFile f u f.maxOpen path p
    loadFiles paths p

/-! ## Labels and instructions -/

structure Program where
  insts : List AsmLine
  labels : Text → Option Word
  pc : Word

/-- The loop over the labels in front of a line, which takes a colon off it every time, so that the
length of the line bounds it. -/
def takeLabels (src : SourceLine) (pc : Word) : Nat → (Text → Option Word) → Text →
    Except String ((Text → Option Word) × Text)
  | 0, labels, line => .ok (labels, line)
  | n + 1, labels, line =>
    match index [':'] line with
    | none => .ok (labels, line)
    | some colon =>
      let label := trimSpace (line.take colon)
      let place := src.at
      let quoted := (String.ofList label).quote
      if label = [] then .error s!"{place}: empty label"
      else if (labels label).isSome then .error s!"{place}: duplicate label {quoted}"
      else
        let labels := Function.update labels label (some pc)
        let line := trimSpace (line.drop (colon + 1))
        if line = [] then .ok (labels, line) else takeLabels src pc n labels line

def joinSpace : List Text → Text := List.intercalate [' ']

def parseLine (src : SourceLine) (p : Program) : Except String Program :=
  let line := trimSpace (stripComment src.text)
  if line = [] then .ok p
  else do
    let (labels, line) ← takeLabels src p.pc line.length p.labels line
    if line = [] then return { p with labels }
    else
      match fields line with
      | [] => return { p with labels }
      | op :: args =>
        let inst : AsmLine := ⟨u.toUpper op, parseArgs (joinSpace args), src.line, p.pc⟩
        return { insts := p.insts ++ [inst], labels, pc := p.pc + 4#32 }

def parseLines : List SourceLine → Program → Except String Program
  | [], p => .ok p
  | src :: rest, p => do
    let p ← parseLine u src p
    parseLines rest p

def parseAssemblies (paths : List Text) : Except String (Program × (Text → Option Word)) := do
  let parser ← loadFiles f u paths ⟨fun _ ↦ none, []⟩
  let p ← parseLines u parser.lines ⟨[], fun _ ↦ none, 0#32⟩
  return (p, parser.macros)

/-! ## Build -/

def encodeAll (t : Tables) (labels : Text → Option Word) : List AsmLine → Except String (List Word)
  | [] => .ok []
  | inst :: rest => do
    let w ← encodeInstruction t labels inst
    let ws ← encodeAll t labels rest
    return w :: ws

def nopWord : Word := 0x00000013#32

/-- The words of the program image, filled up with NOPs. -/
def buildProgram (paths : List Text) (imemDepth : Nat) : Except String (List Word) :=
  if paths = [] then .error "--asm or --c is required"
  else if imemDepth = 0 then .error "imem depth must be positive"
  else do
    let (p, macros) ← parseAssemblies f u paths
    let tables : Tables := ⟨u, macros, some p.labels⟩
    let n := p.insts.length
    if imemDepth < n then .error s!"program has {n} instructions but imem depth is {imemDepth}"
    else do
      let words ← encodeAll tables p.labels p.insts
      return words ++ List.replicate (imemDepth - n) nopWord

end Assembler

end QarCore
