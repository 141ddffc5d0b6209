import QarCore.DevKit.DataFile
import QarCore.DevKit.Labels

/-!
# Build

`qarsim build` from the options to the two images on the disk: what is checked before the first image
is written, and what only afterwards.
-/

namespace QarCore

namespace Assembler

open GoText (Text Cases)

/-! ## The host -/

/-- The contents of the files. -/
abbrev Disk := Text → Option Text

/-- The host of a build.  `file` is the file that a path stands for; a write may fail before the file
is created, or after some of the text has reached it. -/
structure Host where
  file : Text → Text
  sources : Disk → Files
  openData : Disk → Text → Except String (Text × Option String)
  mkdirAll : Disk → Text → Option String
  create : Disk → Text → Option String
  flush : Disk → Text → Option (Nat × String)

/-- The contents of the file at a path. -/
def Host.contents (h : Host) (disk : Disk) (path : Text) : Option Text := disk (h.file path)

/-- An error of the input, or one of the host while it writes. -/
inductive BuildError
  | input (e : String)
  | output (e : String)
  deriving DecidableEq

structure BuildConfig where
  asmPaths : List Text
  cPaths : List Text
  dataPath : Text
  programOut : Text
  dataOut : Text
  imemDepth : Int
  dmemDepth : Int

variable (h : Host) (u : Cases) (cfg : BuildConfig) (disk : Disk)

/-- The disk after a write, and the error that ended it. -/
def writeHexFile (path : Text) (words : List Word) : Disk × Option String :=
  match h.mkdirAll disk path with
  | some e => (disk, some e)
  | none =>
    match h.create disk path with
    | some e => (disk, some e)
    | none =>
      match h.flush disk path with
      | some (n, e) => (Function.update disk (h.file path) (some ((hexFile words).take n)), some e)
      | none => (Function.update disk (h.file path) (some (hexFile words)), none)

/-- The data file that the options name, if they name one. -/
def dataFile : Option (Except String (Text × Option String)) :=
  if cfg.dataPath = [] then none else some (h.openData disk cfg.dataPath)

/-- The end of a build: the data image is made and written. -/
def writeData : Disk × Except BuildError Unit :=
  match dataImage (dataFile h cfg disk) cfg.dmemDepth.toNat with
  | .error e => (disk, .error (.input e))
  | .ok words =>
    match writeHexFile h disk cfg.dataOut words with
    | (disk, some e) => (disk, .error (.output e))
    | (disk, none) => (disk, .ok ())

/-- A build from assembly, when the options are in order. -/
def buildImages : Disk × Except BuildError Unit :=
  match buildProgram (h.sources disk) u cfg.asmPaths cfg.imemDepth.toNat with
  | .error e => (disk, .error (.input e))
  | .ok words =>
    match writeHexFile h disk cfg.programOut words with
    | (disk, some e) => (disk, .error (.output e))
    | (disk, none) => writeData h cfg disk

/-- The disk after a build, and its result; `buildFromC` is for C sources. -/
def doBuild (buildFromC : BuildConfig → Disk → Disk × Except BuildError Unit) : Disk × Except BuildError Unit :=
  if cfg.asmPaths = [] ∧ cfg.cPaths = [] then (disk, .error (.input "--asm or --c is required"))
  else if cfg.asmPaths ≠ [] ∧ cfg.cPaths ≠ [] then
    (disk, .error (.input
      "choose either assembly (--asm) or C (--c) inputs, not both in the same build"))
  else if cfg.imemDepth ≤ 0 then (disk, .error (.input "imem depth must be positive"))
  else if cfg.dmemDepth ≤ 0 then (disk, .error (.input "dmem depth must be positive"))
  else if cfg.cPaths ≠ [] then buildFromC cfg disk
  else buildImages h u cfg disk

/-! ## Failed builds -/

/-- The options are in order, and the assembly part of the build gives the words. -/
structure Assembles (words : List Word) : Prop where
  noC : cfg.cPaths = []
  imem : 0 < cfg.imemDepth
  dmem : 0 < cfg.dmemDepth
  program : buildProgram (h.sources disk) u cfg.asmPaths cfg.imemDepth.toNat = .ok words

/-- The output files are as they were. -/
def KeepsImages (disk' : Disk) : Prop :=
  h.contents disk' cfg.programOut = h.contents disk cfg.programOut ∧
    h.contents disk' cfg.dataOut = h.contents disk cfg.dataOut

variable {h u cfg disk} {disk' : Disk} {words : List Word} {e : String}
  {buildFromC : BuildConfig → Disk → Disk × Except BuildError Unit}

theorem writeHexFile_ok {path : Text} (hok : writeHexFile h disk path words = (disk', none)) :
    disk' = Function.update disk (h.file path) (some (hexFile words)) := by
  unfold writeHexFile at hok
  cases hmk : h.mkdirAll disk path with
  | some e =>
    rw [hmk] at hok
    cases hok
  | none =>
    cases hcreate : h.create disk path with
    | some e =>
      rw [hmk, hcreate] at hok
      cases hok
    | none =>
      cases hflush : h.flush disk path with
      | some fault =>
        rw [hmk, hcreate, hflush] at hok
        cases hok
      | none =>
        rw [hmk, hcreate, hflush] at hok
        cases hok
        rfl

-- An error of the data file leaves the disk as the program image has left it.
theorem writeData_input (herr : writeData h cfg disk = (disk', .error (.input e))) : disk' = disk := by
  unfold writeData at herr
  cases himage : dataImage (dataFile h cfg disk) cfg.dmemDepth.toNat with
  | error e' =>
    rw [himage] at herr
    cases herr
    rfl
  | ok words =>
    rw [himage] at herr
    simp only at herr
    split at herr <;> cases herr

theorem buildImages_input (herr : buildImages h u cfg disk = (disk', .error (.input e))) :
    (disk' = disk ∧ ∃ e, buildProgram (h.sources disk) u cfg.asmPaths cfg.imemDepth.toNat = .error e) ∨
      ∃ words, buildProgram (h.sources disk) u cfg.asmPaths cfg.imemDepth.toNat = .ok words ∧
        disk' = Function.update disk (h.file cfg.programOut) (some (hexFile words)) := by
  unfold buildImages at herr
  cases hprogram : buildProgram (h.sources disk) u cfg.asmPaths cfg.imemDepth.toNat with
  | error e' =>
    rw [hprogram] at herr
    cases herr
    exact .inl ⟨rfl, _, rfl⟩
  | ok words =>
    rw [hprogram] at herr
    simp only at herr
    cases hwrite : writeHexFile h disk cfg.programOut words with
    | mk disk₁ fault =>
      rw [hwrite] at herr
      cases fault with
      | some e' => cases herr
      | none =>
        right
        refine ⟨words, rfl, ?_⟩
        rw [writeData_input herr]
        exact writeHexFile_ok hwrite

-- An error of the input comes either before the program image is written or after it.
theorem doBuild_input (hasm : cfg.asmPaths ≠ [] ∨ cfg.cPaths = [])
    (herr : doBuild h u cfg disk buildFromC = (disk', .error (.input e))) :
    (disk' = disk ∧ ∀ words, ¬ Assembles h u cfg disk words) ∨
      ∃ words, Assembles h u cfg disk words ∧
        disk' = Function.update disk (h.file cfg.programOut) (some (hexFile words)) := by
  unfold doBuild at herr
  split_ifs at herr with hnone hboth himem hdmem hc
  · cases herr
    refine .inl ⟨rfl, fun words hw ↦ ?_⟩
    have hprogram := hw.program
    rw [hnone.1] at hprogram
    cases hprogram
  · cases herr
    exact .inl ⟨rfl, fun words hw ↦ hboth.2 hw.noC⟩
  · cases herr
    exact .inl ⟨rfl, fun words hw ↦ absurd hw.imem (not_lt.mpr himem)⟩
  · cases herr
    exact .inl ⟨rfl, fun words hw ↦ absurd hw.dmem (not_lt.mpr hdmem)⟩
  · exact absurd ⟨hasm.resolve_right hc, hc⟩ hboth
  · rcases buildImages_input herr with ⟨rfl, e', hprogram⟩ | ⟨words, hprogram, rfl⟩
    · refine .inl ⟨rfl, fun words hw ↦ ?_⟩
      have hprogram' := hw.program
      rw [hprogram] at hprogram'
      cases hprogram'
    · exact .inr ⟨words, ⟨not_not.mp hc, not_le.mp himem, not_le.mp hdmem, hprogram⟩, rfl⟩

/-- A build from assembly that ends with an error of the input keeps the images just when nothing was
to be written: there is no program image, or the program file holds it already. -/
theorem keepsImages_iff (hasm : cfg.asmPaths ≠ [] ∨ cfg.cPaths = [])
    (herr : doBuild h u cfg disk buildFromC = (disk', .error (.input e))) :
    KeepsImages h cfg disk disk' ↔
      ∀ words, Assembles h u cfg disk words → h.contents disk cfg.programOut = some (hexFile words) := by
  rcases doBuild_input hasm herr with ⟨rfl, hnone⟩ | ⟨words, hw, rfl⟩
  · constructor
    · exact fun _ words hw ↦ absurd hw (hnone words)
    · exact fun _ ↦ ⟨rfl, rfl⟩
  · have hnew : h.contents (Function.update disk (h.file cfg.programOut) (some (hexFile words))) cfg.programOut =
        some (hexFile words) := Function.update_self _ _ _
    constructor
    · rintro ⟨hprogram, -⟩ words' hw'
      have hsame := hw.program.symm.trans hw'.program
      cases hsame
      rw [← hprogram, hnew]
    · intro hold
      refine ⟨hnew.trans (hold words hw).symm, ?_⟩
      by_cases hfile : h.file cfg.dataOut = h.file cfg.programOut
      · rw [Host.contents, Host.contents, hfile]
        exact hnew.trans (hold words hw).symm
      · exact Function.update_of_ne hfile _ _

/-- A host without faults, with one line of assembly and a data file. -/
def plainHost (asm data : String) : Host where
  file path := path
  sources _ := oneFile [asm]
  openData _ _ := .ok (data.toList, none)
  mkdirAll _ _ := none
  create _ _ := none
  flush _ _ := none

def plainConfig : BuildConfig where
  asmPaths := [mainPath]
  cPaths := []
  dataPath := "words.txt".toList
  programOut := "program.hex".toList
  dataOut := "data.hex".toList
  imemDepth := 1
  dmemDepth := 1

/-- Every file has the contents of an old build. -/
def oldDisk : Disk := fun _ ↦ some "old".toList

def noC : BuildConfig → Disk → Disk × Except BuildError Unit := fun _ disk ↦ (disk, .ok ())

theorem badAsm_keeps : KeepsImages (plainHost "ADD x1" "1") plainConfig oldDisk oldDisk := by
  have hprogram : buildProgram (oneFile ["ADD x1"]) plainTables.cases [mainPath] 1 =
      .error "line 1: ADD expects 3 operands" := by decide +kernel
  have herr : doBuild (plainHost "ADD x1" "1") plainTables.cases plainConfig oldDisk noC =
      (oldDisk, .error (.input "line 1: ADD expects 3 operands")) := by
    show buildImages (plainHost "ADD x1" "1") plainTables.cases plainConfig oldDisk = _
    unfold buildImages
    have hsame : buildProgram ((plainHost "ADD x1" "1").sources oldDisk) plainTables.cases plainConfig.asmPaths
      plainConfig.imemDepth.toNat = _ := hprogram
    rw [hsame]
  apply (keepsImages_iff (.inr rfl) herr).mpr
  intro words hw
  have hok := hprogram.symm.trans hw.program
  cases hok

/-- A word that is none in the data file leaves the new program with the old data. -/
theorem badData_mixed : ∃ disk', doBuild (plainHost "NOP" "oops") plainTables.cases plainConfig oldDisk noC =
      (disk', .error (.input "invalid data value oops")) ∧
    disk' plainConfig.programOut = some "00000013\n".toList ∧ disk' plainConfig.dataOut = some "old".toList ∧
      ¬ KeepsImages (plainHost "NOP" "oops") plainConfig oldDisk disk' := by
  have hprogram : buildProgram (oneFile ["NOP"]) plainTables.cases [mainPath] 1 = .ok [0x00000013#32] := by
    decide +kernel
  have hnew : Function.update oldDisk plainConfig.programOut (some (hexFile [0x00000013#32]))
      plainConfig.programOut = some "00000013\n".toList := by
    rw [Function.update_self]
    rfl
  refine ⟨Function.update oldDisk plainConfig.programOut (some (hexFile [0x00000013#32])), ?_, hnew, ?_, ?_⟩
  · show buildImages (plainHost "NOP" "oops") plainTables.cases plainConfig oldDisk = _
    unfold buildImages
    have hsame : buildProgram ((plainHost "NOP" "oops").sources oldDisk) plainTables.cases plainConfig.asmPaths
      plainConfig.imemDepth.toNat = _ := hprogram
    rw [hsame]
    rfl
  · rw [Function.update_of_ne (by decide)]
    rfl
  · rintro ⟨hkeep, -⟩
    have hold := hnew.symm.trans hkeep
    exact absurd hold (by decide)

end Assembler

end QarCore
