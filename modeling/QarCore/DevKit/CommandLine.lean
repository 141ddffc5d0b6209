import QarCore.DevKit.Build
import QarCore.DevKit.Elf2qar

/-!
# The command line of elf2qar

The arguments that `qarsim build` calls `elf2qar` with for C sources, and the loop that reads them.
-/

namespace QarCore

open GoText (Text)

/-! ## The caller -/

/-- `%d`. -/
def Assembler.decimal (n : Int) : Text := (toString n).toList

/-- The arguments of `buildFromC` after the name of the program. -/
def Assembler.elfArgs (elfPath : Text) (cfg : Assembler.BuildConfig) : List Text :=
  ["--elf".toList, elfPath, "--program".toList, cfg.programOut, "--data".toList, cfg.dataOut,
    "--imem=".toList ++ decimal cfg.imemDepth, "--dmem=".toList ++ decimal cfg.dmemDepth]

namespace Elf2qar

/-! ## The loop -/

/-- `isspace` in the C locale. -/
def isSpace (c : Char) : Bool := c == ' ' || (9 ≤ c.toNat && c.toNat ≤ 13)

def hexPrefix (s : Text) : Bool :=
  match s with
  | '0' :: x :: d :: _ => (x == 'x' || x == 'X') && (GoText.digitValue d).any (· < 16)
  | _ => false

/-- The number that the digits at the front of a text make. -/
def readDigits (base : Nat) : Text → Nat → Nat
  | [], n => n
  | c :: s, n =>
    match GoText.digitValue c with
    | some d => if d < base then readDigits base s (n * base + d) else n
    | none => n

def ulongMax : Nat := 2 ^ 64 - 1

/-- `strtoul` in base 0, for an `unsigned long` of 64 bits. -/
def strtoul (s : Text) : Nat :=
  let (neg, digits) := GoText.splitSign (s.dropWhile isSpace)
  let n :=
    if hexPrefix digits then readDigits 16 (digits.drop 2) 0
    else if digits.head? = some '0' then readDigits 8 digits 0
    else readDigits 10 digits 0
  if ulongMax < n then ulongMax else if neg then (2 ^ 64 - n) % 2 ^ 64 else n

/-- What the loop has read; `elfPath` starts as a null pointer. -/
structure Options where
  elfPath : Option String
  programHex : String
  dataHex : String
  imemWords : Nat
  dmemWords : Nat
  deriving DecidableEq

def defaultOptions : Options := ⟨none, "program.hex", "data.hex", 64, 64⟩

inductive Flag
  | elf | program | data | imem | dmem
  deriving DecidableEq

/-- The flag that an argument is, compared as `strcmp` does. -/
def flagOf (arg : Text) : Option Flag :=
  if arg = "--elf".toList then some .elf
  else if arg = "--program".toList then some .program
  else if arg = "--data".toList then some .data
  else if arg = "--imem".toList then some .imem
  else if arg = "--dmem".toList then some .dmem
  else none

/-- What the argument after a flag is for. -/
def Flag.set (flag : Flag) (value : Text) (o : Options) : Options :=
  match flag with
  | elf => { o with elfPath := some (String.ofList value) }
  | program => { o with programHex := String.ofList value }
  | data => { o with dataHex := String.ofList value }
  | imem => { o with imemWords := strtoul value % 2 ^ 32 }
  | dmem => { o with dmemWords := strtoul value % 2 ^ 32 }

/-- The loop over the arguments after the name of the program; `none` is the exit with the usage text. -/
def readArgs : List Text → Options → Option Options
  | [], o => some o
  | arg :: rest, o =>
    match flagOf arg, rest with
    | none, _ => none
    | some _, [] => none
    | some flag, value :: rest => readArgs rest (flag.set value o)

example : readArgs (["--elf", "a.elf", "--imem", "0x80", "--dmem", " 128k"].map String.toList) defaultOptions =
    some ⟨some "a.elf", "program.hex", "data.hex", 128, 128⟩ := by decide

/-- The arguments of a run, which needs an ELF path. -/
def commandLine (args : List Text) : Option Args :=
  match readArgs args defaultOptions with
  | none => none
  | some o =>
    match o.elfPath with
    | none => none
    | some elfPath => some ⟨elfPath, o.programHex, o.dataHex, o.imemWords, o.dmemWords⟩

/-! ## Agreement -/

/-- The tool is called with the paths and the depths of the build. -/
def Agrees (elfPath : Text) (cfg : Assembler.BuildConfig) : Prop :=
  ∃ args, commandLine (Assembler.elfArgs elfPath cfg) = some args ∧ args.elfPath = String.ofList elfPath ∧
    args.programHex = String.ofList cfg.programOut ∧ args.dataHex = String.ofList cfg.dataOut ∧
    (args.imemWords : Int) = cfg.imemDepth ∧ (args.dmemWords : Int) = cfg.dmemDepth

variable {elfPath : Text} {cfg : Assembler.BuildConfig}

-- A flag with its value behind an equals sign is no flag.
theorem flagOf_assigned (value : Text) : flagOf ("--imem=".toList ++ value) = none := by
  have hshort (name : String) (h : "--imem=".toList.isPrefixOf name.toList = false) :
      "--imem=".toList ++ value ≠ name.toList := by
    rintro heq
    rw [← heq, Bool.eq_false_iff] at h
    exact h (List.isPrefixOf_iff_prefix.mpr (List.prefix_append _ _))
  unfold flagOf
  rw [if_neg (hshort "--elf" (by decide)), if_neg (hshort "--program" (by decide)),
    if_neg (hshort "--data" (by decide)), if_neg (hshort "--imem" (by decide)),
    if_neg (hshort "--dmem" (by decide))]

theorem readArgs_elfArgs (o : Options) : readArgs (Assembler.elfArgs elfPath cfg) o = none := by
  -- the paths are read, and the loop comes to the depth of the program memory
  have hpaths : readArgs (Assembler.elfArgs elfPath cfg) o =
      readArgs ["--imem=".toList ++ Assembler.decimal cfg.imemDepth,
        "--dmem=".toList ++ Assembler.decimal cfg.dmemDepth]
        (Flag.data.set cfg.dataOut (Flag.program.set cfg.programOut (Flag.elf.set elfPath o))) := rfl
  rw [hpaths]
  unfold readArgs
  rw [flagOf_assigned]

/-- No build from C gets past the arguments of `elf2qar`. -/
theorem commandLine_never (elfPath : Text) (cfg : Assembler.BuildConfig) :
    commandLine (Assembler.elfArgs elfPath cfg) = none ∧ ¬ Agrees elfPath cfg := by
  have husage : commandLine (Assembler.elfArgs elfPath cfg) = none := by
    rw [commandLine, readArgs_elfArgs]
  refine ⟨husage, ?_⟩
  rintro ⟨args, hargs, -⟩
  rw [husage] at hargs
  cases hargs

/-- A build with the default options. -/
def defaultConfig : Assembler.BuildConfig where
  asmPaths := []
  cPaths := ["main.c".toList]
  dataPath := []
  programOut := "program.hex".toList
  dataOut := "data.hex".toList
  imemDepth := 64
  dmemDepth := 64

theorem defaultConfig_usage :
    Assembler.elfArgs "firmware.elf".toList defaultConfig = ["--elf", "firmware.elf", "--program", "program.hex",
      "--data", "data.hex", "--imem=64", "--dmem=64"].map String.toList ∧
    commandLine (Assembler.elfArgs "firmware.elf".toList defaultConfig) = none ∧
    ¬ Agrees "firmware.elf".toList defaultConfig := by
  have husage : commandLine (Assembler.elfArgs "firmware.elf".toList defaultConfig) = none := by decide
  refine ⟨by decide, husage, ?_⟩
  rintro ⟨args, hargs, -⟩
  rw [husage] at hargs
  cases hargs

end Elf2qar

end QarCore
