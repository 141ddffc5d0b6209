import QarCore.Data.ByteImage
import QarCore.Data.CText

/-!
# elf2qar

The converter from ELF files to memory images, for command lines that have been parsed.  `uint32_t`
values are numbers below `2 ^ 32`, and what wraps in C is reduced here.
-/

namespace QarCore

namespace Elf2qar

open CText (Text)

abbrev Byte := BitVec 8

/-- Why a run does not reach `return 0`: it exits with status 1 and a message, or `memcpy` has left
the buffer. -/
inductive Stop where
  | exit1 (message : String)
  | undefined
  deriving DecidableEq

def orExit {α : Type} (message : String) : Option α → Except Stop α
  | some a => .ok a
  | none => .error (.exit1 message)

/-! ## The file -/

structure Stream where
  bytes : List Byte
  pos : Nat
  seekable : Bool

namespace Stream

/-- `fread` of `n` bytes, or `none` if there are fewer. -/
def fread (f : Stream) (n : Nat) : Option (List Byte × Stream) :=
  let data := (f.bytes.drop f.pos).take n
  if data.length = n then some (data, { f with pos := f.pos + n }) else none

def fseek (f : Stream) (offset : Nat) : Option Stream :=
  if f.seekable then some { f with pos := offset } else none

end Stream

/-- The two images of a run, with their outputs. -/
inductive Region
  | imem | dmem
  deriving DecidableEq

/-- The contents of the files. -/
abbrev Disk := String → Option Text

/-- The environment of a run: the ELF file or the error text of opening it, the sizes in bytes that
`calloc` grants for an image and `malloc` for the segment of a header, the file that an output path stands
for, the error text of an output that cannot be opened, and what of a text reaches the file of an output. -/
structure Host where
  elf : Except String (List Byte)
  seekable : Bool
  calloc : Region → Nat → Bool
  malloc : Nat → Nat → Bool
  target : String → String
  outputError : Region → String → Option String
  taken : Region → String → Text → Text

/-- A host without faults, on which every path stands for a file of its own. -/
def Host.plain (elf : Except String (List Byte)) : Host where
  elf := elf
  seekable := true
  calloc _ _ := true
  malloc _ _ := true
  target path := path
  outputError _ _ := none
  taken _ _ text := text

/-- The contents of the file at a path. -/
def Host.contents (host : Host) (disk : Disk) (path : String) : Option Text := disk (host.target path)

structure Args where
  elfPath : String
  programHex : String
  dataHex : String
  imemWords : Nat
  dmemWords : Nat

/-! ## Headers -/

/-- The little-endian `uint16_t` at `k`. -/
def u16 (l : List Byte) (k : Nat) : Nat := (l.getD k 0).toNat + 256 * (l.getD (k + 1) 0).toNat

def u32 (l : List Byte) (k : Nat) : Nat := u16 l k + 65536 * u16 l (k + 2)

structure Ehdr where
  ident : List Byte
  machine : Nat
  phoff : Nat
  phnum : Nat

def ehdrBytes : Nat := 52

def Ehdr.ofBytes (l : List Byte) : Ehdr where
  ident := l.take 16
  machine := u16 l 18
  phoff := u32 l 28
  phnum := u16 l 44

structure Phdr where
  type : Nat
  offset : Nat
  vaddr : Nat
  filesz : Nat

def phdrBytes : Nat := 32

def Phdr.ofBytes (l : List Byte) : Phdr where
  type := u32 l 0
  offset := u32 l 4
  vaddr := u32 l 8
  filesz := u32 l 16

def PT_LOAD : Nat := 1

def EM_RISCV : Nat := 243

def magic : List Byte := [0x7f, 0x45, 0x4c, 0x46]

/-! ## Images -/

structure Image where
  baseAddr : Nat
  sizeWords : Nat
  buffer : Nat → Byte

def imageInit (host : Host) (region : Region) (base sizeWords : Nat) : Except Stop Image :=
  if host.calloc region (sizeWords * 4) then .ok { baseAddr := base, sizeWords, buffer := fun _ ↦ 0 }
  else .error (.exit1 "elf2qar: out of memory\n")

/-- The `uint32_t` bound that `image_store` compares the end of a block with. -/
def Image.limit (img : Image) : Nat := (img.baseAddr + img.sizeWords * 4) % 2 ^ 32

def imageStore (img : Image) (addr : Nat) (data : List Byte) : Except Stop Image :=
  -- the return without a store: nothing is reported
  if addr < img.baseAddr ∨ img.limit < (addr + data.length) % 2 ^ 32 then .ok img
  else
    let offset := addr - img.baseAddr
    if offset + data.length ≤ img.sizeWords * 4 then
      .ok { img with buffer := ByteImage.store img.buffer offset data }
    else .error .undefined

/-- The `uint32_t` that a line of the image shows: the little-endian word. -/
def imageValue (img : Image) (word : Nat) : Nat :=
  let offset := word * 4 % 2 ^ 32
  (img.buffer offset).toNat + 2 ^ 8 * (img.buffer (offset + 1)).toNat +
    2 ^ 16 * (img.buffer (offset + 2)).toNat + 2 ^ 24 * (img.buffer (offset + 3)).toNat

/-- What `image_write_hex` prints: eight digits a line. -/
def imageText (img : Image) : Text :=
  (List.range img.sizeWords).flatMap fun word ↦ HexText.print 8 (imageValue img word) ++ ['\n']

def failedToOpen (path reason : String) : Stop := .exit1 s!"elf2qar: failed to open {path}: {reason}\n"

/-- The disk after an image has been written, and an error if its file cannot be opened. -/
def imageWriteHex (host : Host) (region : Region) (img : Image) (path : String) (disk : Disk) :
    Disk × Except Stop Unit :=
  match host.outputError region path with
  | some reason => (disk, .error (failedToOpen path reason))
  | none =>
    -- the results of `fprintf` and `fclose` are not looked at
    (Function.update disk (host.target path) (some (host.taken region path (imageText img))), .ok ())

/-! ## main -/

def openElf (host : Host) (args : Args) : Except Stop (Ehdr × Stream) :=
  match host.elf with
  | .error reason => .error (failedToOpen args.elfPath reason)
  | .ok bytes => do
    let elf : Stream := { bytes, pos := 0, seekable := host.seekable }
    let (raw, elf) ← orExit "elf2qar: failed to read ELF header\n" (elf.fread ehdrBytes)
    let ehdr := Ehdr.ofBytes raw
    if ehdr.ident.take 4 ≠ magic then .error (.exit1 "elf2qar: not an ELF file\n")
    else if ehdr.machine ≠ EM_RISCV then
      let machine := ehdr.machine
      .error (.exit1 s!"elf2qar: unsupported machine {machine}\n")
    else .ok (ehdr, elf)

/-- The contents of the segment of header `i`, and the file back at the next program header. -/
def readSegment (host : Host) (i : Nat) (elf : Stream) (phdr : Phdr) : Except Stop (List Byte × Stream) :=
  if ¬ host.malloc i phdr.filesz then .error (.exit1 "elf2qar: out of memory\n")
  else do
    let curr := elf.pos
    let elf ← orExit "elf2qar: failed to seek to segment data\n" (elf.fseek phdr.offset)
    let (segment, elf) ← orExit "elf2qar: failed to read segment data\n" (elf.fread phdr.filesz)
    -- the result of this seek is not looked at
    return (segment, (elf.fseek curr).getD elf)

def programEnd : Nat := 0x20000000

def storeSegment (imem dmem : Image) (phdr : Phdr) (segment : List Byte) :
    Except Stop (Image × Image) :=
  if phdr.vaddr < programEnd then do
    let imem ← imageStore imem phdr.vaddr segment
    return (imem, dmem)
  else do
    let dmem ← imageStore dmem (phdr.vaddr - programEnd) segment
    return (imem, dmem)

/-- The loop over the program headers, with `n` of them still to read from header `i` on. -/
def loadHeaders (host : Host) : Nat → Nat → Stream → Image → Image → Except Stop (Image × Image)
  | 0, _, _, imem, dmem => .ok (imem, dmem)
  | n + 1, i, elf, imem, dmem => do
    let (raw, elf) ← orExit s!"elf2qar: failed to read program header {i}\n" (elf.fread phdrBytes)
    let phdr := Phdr.ofBytes raw
    if phdr.type ≠ PT_LOAD ∨ phdr.filesz = 0 then loadHeaders host n (i + 1) elf imem dmem
    else do
      let (segment, elf) ← readSegment host i elf phdr
      let (imem, dmem) ← storeSegment imem dmem phdr segment
      loadHeaders host n (i + 1) elf imem dmem

/-- The part of a run before its outputs: the two images. -/
def loadImages (host : Host) (args : Args) : Except Stop (Image × Image) := do
  let (ehdr, elf) ← openElf host args
  let imem ← imageInit host .imem 0 args.imemWords
  let dmem ← imageInit host .dmem 0 args.dmemWords
  let elf ← orExit "elf2qar: failed to seek program headers\n" (elf.fseek ehdr.phoff)
  loadHeaders host ehdr.phnum 0 elf imem dmem

/-- The disk after a run, and how the run ends. -/
def main (host : Host) (args : Args) (disk : Disk) : Disk × Except Stop Unit :=
  match loadImages host args with
  | .error stop => (disk, .error stop)
  | .ok (imem, dmem) =>
    match imageWriteHex host .imem imem args.programHex disk with
    | (disk, .error stop) => (disk, .error stop)
    | (disk, .ok ()) => imageWriteHex host .dmem dmem args.dataHex disk

end Elf2qar

end QarCore
