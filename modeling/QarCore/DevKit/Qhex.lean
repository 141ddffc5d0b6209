import QarCore.Core.Fields
import QarCore.Data.CText

/-!
# qhex

The tool that reads a hex file, prints statistics and can write the words as a little-endian binary.  Its
word buffer doubles when it is full, and it reads the file through a line buffer of 256 bytes.
-/

namespace QarCore

namespace Qhex

open CText (Text fgets scanHex cString cutAtChar)

abbrev Byte := BitVec 8

/-- The environment of a run: the hex file or the error text of opening it, the sizes in bytes that
`realloc` grants, what memory holds that it has just granted, whether `%x` takes a bare `0x`, the word that
it stores for a number of more than 32 bits, which C leaves open, and the error texts of opening the binary
and of writing its words. -/
structure Host where
  hexFile : Except String Text
  realloc : Nat → Bool
  indeterminate : Nat → Word
  bare : Bool
  wide : Bool → Nat → Word
  binError : Option String
  writeError : Nat → Option String

/-- A host that has memory and writes every file.  `%x` wraps a number there that is too long for 32 bits,
up to 64 bits. -/
def Host.ready (text : Text) : Host where
  hexFile := .ok text
  realloc := fun _ ↦ true
  indeterminate := fun _ ↦ 0
  bare := false
  wide := fun negative n ↦
    if n < 2 ^ 64 then if negative then -BitVec.ofNat 32 n else BitVec.ofNat 32 n else BitVec.allOnes 32
  binError := none
  writeError := fun _ ↦ none

/-! ## The word buffer -/

/-- `word_buffer`: the memory it has, `capacity` words, and how many of them are in use. -/
structure WordBuffer where
  words : List Word
  count : Nat
  inside : count ≤ words.length

namespace WordBuffer

def capacity (buf : WordBuffer) : Nat := buf.words.length

/-- `word_buffer buf = {0}` -/
def empty : WordBuffer := ⟨[], 0, Nat.le_refl 0⟩

/-- The words in use. -/
def contents (buf : WordBuffer) : List Word := buf.words.take buf.count

/-- `buf->words[buf->count++] = value` -/
def put (buf : WordBuffer) (hroom : buf.count < buf.capacity) (value : Word) : WordBuffer where
  words := buf.words.set buf.count value
  count := buf.count + 1
  inside := by
    rw [List.length_set]
    exact hroom

/-- `capacity ? capacity * 2 : 64` -/
def newCap (buf : WordBuffer) : Nat := if buf.capacity ≠ 0 then buf.capacity * 2 else 64

theorem capacity_lt_newCap (buf : WordBuffer) : buf.capacity < buf.newCap := by
  unfold newCap
  split <;> omega

/-- The buffer after a `realloc` to `newCap` words. -/
def grown (host : Host) (buf : WordBuffer) : WordBuffer where
  words := buf.words ++ (List.range' buf.capacity (buf.newCap - buf.capacity)).map host.indeterminate
  count := buf.count
  inside := Nat.le_trans buf.inside (by rw [List.length_append]; exact Nat.le_add_right _ _)

theorem capacity_grown (host : Host) (buf : WordBuffer) : (buf.grown host).capacity = buf.newCap := by
  have hlt := buf.capacity_lt_newCap
  show (buf.words ++ _).length = _
  rw [List.length_append, List.length_map, List.length_range']
  exact Nat.add_sub_of_le (Nat.le_of_lt hlt)

theorem count_lt_grown (host : Host) (buf : WordBuffer) :
    (buf.grown host).count < (buf.grown host).capacity := by
  rw [capacity_grown]
  exact Nat.lt_of_le_of_lt buf.inside buf.capacity_lt_newCap

end WordBuffer

/-- `append_word`, or `none` for -1. -/
def appendWord (host : Host) (buf : WordBuffer) (value : Word) : Option WordBuffer :=
  if hfull : buf.count = buf.capacity then
    if host.realloc (buf.newCap * 4) then some ((buf.grown host).put (buf.count_lt_grown host) value)
    else none
  else some (buf.put (Nat.lt_of_le_of_ne buf.inside hfull) value)

/-! ## Reading -/

/-- `char line[256]` -/
def lineSize : Nat := 256

/-- `*trim == ' ' || *trim == '\t'` -/
def isBlank (c : Char) : Bool := c == ' ' || c == '\t'

/-- `trim`: the line buffer up to `#`, without its leading blanks. -/
def trim (line : Text) : Text := (cutAtChar '#' (cString line)).dropWhile isBlank

/-- `*trim == '\0' || *trim == '\n'` -/
def skips (line : Text) : Bool :=
  match trim line with
  | [] => true
  | c :: _ => c == '\n'

/-- The `uint32_t` that `%x` stores: the number modulo `2 ^ 32` if its magnitude fits. -/
def stored (host : Host) (number : Bool × Nat) : Word :=
  if number.2 < 2 ^ 32 then
    if number.1 then -BitVec.ofNat 32 number.2 else BitVec.ofNat 32 number.2
  else host.wide number.1 number.2

/-- The variables of the line loop. -/
structure Loop where
  buf : WordBuffer
  nonzero : Nat
  lineNum : Nat

/-- The body of the line loop. -/
def readLine (host : Host) (hexPath : String) (line : Text) (st : Loop) : Except String Loop :=
  let lineNum := st.lineNum + 1
  if skips line then .ok { st with lineNum }
  else
    match scanHex host.bare (trim line) with
    | none =>
      let word := String.ofList (trim line)
      .error s!"qhex: {hexPath}:{lineNum}: invalid word '{word}'\n"
    | some number =>
      let value := stored host number
      match appendWord host st.buf value with
      | none => .error "qhex: out of memory\n"
      | some buf => .ok { buf, nonzero := if value ≠ 0 then st.nonzero + 1 else st.nonzero, lineNum }

/-- `while (fgets(line, sizeof(line), in))`, up to `n` times. -/
def readLines (host : Host) (hexPath : String) : Nat → Text → Loop → Except String Loop
  | 0, _, st => .ok st
  | _ + 1, [], st => .ok st
  | n + 1, c :: s, st => do
    let (line, rest) := fgets (lineSize - 1) (c :: s)
    let st ← readLine host hexPath line st
    readLines host hexPath n rest st

/-- The line loop over a whole file: each call of `fgets` reads a character at least. -/
def readHex (host : Host) (hexPath : String) (text : Text) : Except String Loop :=
  readLines host hexPath text.length text ⟨.empty, 0, 0⟩

/-! ## Output -/

/-- The bytes of a word, in the order of the binary. -/
def wordBytes (w : Word) : List Byte :=
  [w.setWidth 8, (w >>> 8).setWidth 8, (w >>> 16).setWidth 8, (w >>> 24).setWidth 8]

/-- The loop of `write_binary`, from word `i` on. -/
def writeWords (host : Host) (path : String) : Nat → List Word → Except String (List Byte)
  | _, [] => .ok []
  | i, w :: ws =>
    match host.writeError i with
    | some reason => .error s!"qhex: failed to write {path}: {reason}\n"
    | none => do
      let bytes ← writeWords host path (i + 1) ws
      return wordBytes w ++ bytes

def writeBinary (host : Host) (path : String) (buf : WordBuffer) : Except String (List Byte) :=
  match host.binError with
  | some reason => .error s!"qhex: failed to open {path} for writing: {reason}\n"
  | none => writeWords host path 0 buf.contents

/-- The statistics. -/
def summary (hexPath : String) (st : Loop) : String :=
  let count := st.buf.count
  let nonzero := st.nonzero
  let hex := String.ofList (Nat.toDigits 16 count)
  let counts := s!"qhex: {hexPath} contains {count} words (0x{hex}), {nonzero} non-zero\n"
  if count > 0 then
    let first := String.ofList (HexText.print 8 (st.buf.words.getD 0 0).toNat)
    let last := String.ofList (HexText.print 8 (st.buf.words.getD (count - 1) 0).toNat)
    counts ++ s!"qhex: word[0] = 0x{first}, word[last] = 0x{last}\n"
  else counts

/-! ## main -/

structure Options where
  hexPath : String
  binOut : Option String

/-- What a run that returns 0 has printed, and the binary that it has written. -/
structure Report where
  stdout : String
  binary : Option (List Byte)

def usage (prog : String) : String :=
  s!"Usage: {prog} [--bin output.bin] <hex-file>\n" ++
    "Reads a QAR hex file (32-bit words) and prints statistics. " ++
    "Optionally emits a raw little-endian binary image for FPGA loaders.\n"

/-- The loop over the arguments, with `bin_out` and `hex_path` so far. -/
def parseArgs (prog : String) : List String → Option String → Option String → Except String Options
  | [], _, none => .error (usage prog)
  | [], binOut, some hexPath => .ok ⟨hexPath, binOut⟩
  | arg :: args, binOut, hexPath =>
    if arg = "--bin" then
      match args with
      | [] => .error ("qhex: --bin requires a path\n" ++ usage prog)
      | path :: args => parseArgs prog args (some path) hexPath
    else
      match hexPath with
      | some _ => .error ("qhex: multiple input files specified\n" ++ usage prog)
      | none => parseArgs prog args binOut (some arg)

/-- `main` behind the options: a message on `stderr` and status 1, or the report. -/
def run (host : Host) (opts : Options) : Except String Report := do
  let hexPath := opts.hexPath
  match host.hexFile with
  | .error reason => .error s!"qhex: failed to open {hexPath}: {reason}\n"
  | .ok text =>
    let st ← readHex host hexPath text
    match opts.binOut with
    | none => return ⟨summary hexPath st, none⟩
    | some path =>
      let bytes ← writeBinary host path st.buf
      let size := st.buf.count * 4
      return ⟨summary hexPath st ++ s!"qhex: wrote {path} ({size} bytes)\n", some bytes⟩

def main (host : Host) (prog : String) (args : List String) : Except String Report := do
  let opts ← parseArgs prog args none none
  run host opts

end Qhex

end QarCore
