import QarCore.DevKit.DataFile
import QarCore.DevKit.Elf2qarLoad

/-!
# The images of elf2qar

What is in the files of the program image and of the data image after a run.  They hold the segments, byte
by byte, if every segment fits and if the files are left with all that was written into them.
-/

namespace QarCore

namespace Elf2qar

open ByteImage (Block)
open CText (Text)

variable {host : Host} {args : Args} {bytes : List Byte} {disk : Disk}

/-! ## The text of an image -/

/-- The byte at an address of an image, read from the digits of its word. -/
def imageByte (text : Text) (a : Nat) : Option Nat :=
  (Assembler.imageWords text)[a / 4]?.map fun w ↦ w.toNat / 2 ^ (8 * (a % 4)) % 2 ^ 8

theorem imageValue_lt (img : Image) (word : Nat) : imageValue img word < 2 ^ 32 := by
  have hlt : ∀ k, (img.buffer k).toNat < 256 := fun k ↦ (img.buffer k).isLt
  unfold imageValue
  generalize word * 4 % 2 ^ 32 = w
  have h0 := hlt w
  have h1 := hlt (w + 1)
  have h2 := hlt (w + 2)
  have h3 := hlt (w + 3)
  simp only
  omega

theorem imageText_eq (img : Image) : imageText img =
    Assembler.hexFile ((List.range img.sizeWords).map fun word ↦ BitVec.ofNat 32 (imageValue img word)) := by
  unfold imageText Assembler.hexFile
  rw [List.flatMap_map]
  simp only [BitVec.toNat_ofNat, Nat.mod_eq_of_lt (imageValue_lt img _)]

theorem imageWords_imageText (img : Image) : Assembler.imageWords (imageText img) =
    (List.range img.sizeWords).map fun word ↦ BitVec.ofNat 32 (imageValue img word) := by
  rw [imageText_eq, Assembler.imageWords_hexFile]

theorem length_imageText (img : Image) : (imageText img).length = 9 * img.sizeWords := by
  unfold imageText
  simp [List.length_flatMap, HexText.length_print, Nat.mul_comm]

theorem imageByte_text (img : Image) {a : Nat} (ha : a < img.sizeWords * 4) (h32 : a < 2 ^ 32) :
    imageByte (imageText img) a = some (img.buffer a).toNat := by
  have hlt : ∀ k, (img.buffer k).toNat < 256 := fun k ↦ (img.buffer k).isLt
  have hoff : a / 4 * 4 % 2 ^ 32 = a / 4 * 4 := by omega
  unfold imageByte
  rw [imageWords_imageText, List.getElem?_map, List.getElem?_range (by omega)]
  simp only [Option.map_some, BitVec.toNat_ofNat, Nat.mod_eq_of_lt (imageValue_lt img _)]
  simp only [imageValue, hoff]
  generalize hw : a / 4 * 4 = w
  have h0 := hlt w
  have h1 := hlt (w + 1)
  have h2 := hlt (w + 2)
  have h3 := hlt (w + 3)
  have hcases : a = w ∨ a = w + 1 ∨ a = w + 2 ∨ a = w + 3 := by omega
  congr 1
  obtain ha | ha | ha | ha := hcases
  · rw [show a % 4 = 0 by omega, ha]
    omega
  · rw [show a % 4 = 1 by omega, ha]
    omega
  · rw [show a % 4 = 2 by omega, ha]
    omega
  · rw [show a % 4 = 3 by omega, ha]
    omega

-- Behind the last word there is nothing.
theorem imageByte_inside {img : Image} {a x : Nat} (h : imageByte (imageText img) a = some x) :
    a < img.sizeWords * 4 := by
  by_contra hout
  have hnone : (List.range img.sizeWords)[a / 4]? = none := by
    rw [List.getElem?_eq_none_iff, List.length_range]
    omega
  rw [imageByte, imageWords_imageText, List.getElem?_map, hnone] at h
  cases h

/-! ## Blocks -/

theorem Phdr.Apart.block {h g : Phdr} (ha : h.Apart g) (hr : h.inProgram = g.inProgram) :
    (h.block bytes).Apart (g.block bytes) := by
  have hh : (h.contents bytes).length ≤ h.filesz := List.length_take_le _ _
  have hg : (g.contents bytes).length ≤ g.filesz := List.length_take_le _ _
  have hiff : h.vaddr < programEnd ↔ g.vaddr < programEnd := decide_eq_decide.mp hr
  unfold Apart at ha
  simp only [Block.Apart, Phdr.block, address, inProgram]
  by_cases hv : g.vaddr < programEnd
  · simp only [hiff, hv, decide_true, if_true]
    omega
  · simp only [hiff, hv, decide_false, Bool.false_eq_true, if_false]
    omega

variable {i p n k : Nat}

theorem headers_split (hk : k < n) : headers bytes p n =
    headers bytes p k ++ phdr bytes p k :: headers bytes (p + 32 * (k + 1)) (n - (k + 1)) := by
  have hsum : n = k + (n - (k + 1) + 1) := by omega
  unfold headers
  conv_lhs => rw [hsum]
  rw [← List.range'_append, List.map_append]
  congr 1

theorem mem_headers {g : Phdr} (hg : g ∈ headers bytes p n) : ∃ j < n, g = phdr bytes p j := by
  obtain ⟨q, hq, rfl⟩ := List.mem_map.mp hg
  obtain ⟨j, hj, rfl⟩ := List.mem_range'.mp hq
  exact ⟨j, hj, rfl⟩

-- The blocks of a table around a segment that no other overlaps.
theorem blocks_split (hk : k < n) (hl : (phdr bytes p k).Loaded)
    (ha : ∀ j < n, j ≠ k → (phdr bytes p j).Loaded → (phdr bytes p k).Apart (phdr bytes p j)) :
    ∃ pre post, blocks bytes (phdr bytes p k).inProgram (headers bytes p n) =
        pre ++ (phdr bytes p k).block bytes :: post ∧
      ∀ y ∈ post, ((phdr bytes p k).block bytes).Apart y := by
  rw [headers_split hk, blocks, List.filter_append, List.map_append,
    List.filter_cons_of_pos (by simp [hl]), List.map_cons]
  refine ⟨_, _, rfl, ?_⟩
  intro y hy
  obtain ⟨g, hg, rfl⟩ := List.mem_map.mp hy
  obtain ⟨hmem, hsel⟩ := List.mem_filter.mp hg
  obtain ⟨j, hj, rfl⟩ := mem_headers hmem
  have hidx : phdr bytes (p + 32 * (k + 1)) j = phdr bytes p (k + 1 + j) := by
    unfold phdr
    rw [show p + 32 * (k + 1 + j) = p + 32 * (k + 1) + 32 * j by omega]
  rw [hidx] at hsel ⊢
  have hsel' := of_decide_eq_true hsel
  exact (ha _ (by omega) (by omega) hsel'.1).block hsel'.2.symm

theorem storeAll_contents (img : Image) (hk : k < n) (hl : (phdr bytes p k).Loaded)
    (ha : ∀ j < n, j ≠ k → (phdr bytes p j).Loaded → (phdr bytes p k).Apart (phdr bytes p j))
    {b : Nat} (hb : b < ((phdr bytes p k).contents bytes).length) :
    (img.storeAll (blocks bytes (phdr bytes p k).inProgram (headers bytes p n))).buffer
        ((phdr bytes p k).address + b) = ((phdr bytes p k).contents bytes)[b] := by
  obtain ⟨pre, post, hsplit, hpost⟩ := blocks_split hk hl ha
  rw [hsplit]
  exact ByteImage.storeAll_get hpost img.buffer hb

theorem contents_get {h : Phdr} {b : Nat} (hb : b < (h.contents bytes).length) :
    bytes[h.offset + b]? = some (h.contents bytes)[b] := by
  have hlen : b < h.filesz ∧ h.offset + b < bytes.length := by
    simp only [Phdr.contents, List.length_take, List.length_drop] at hb
    omega
  rw [List.getElem?_eq_getElem hlen.2]
  simp only [Phdr.contents, List.getElem_take, List.getElem_drop]

/-! ## Runs -/

/-- The run gets as far as the program headers. -/
structure Starts (host : Host) (args : Args) : Prop where
  header : ehdrBytes ≤ host.file.length
  magic : (ehdrOf host.file).ident.take 4 = magic
  machine : (ehdrOf host.file).machine = EM_RISCV
  imem : host.calloc .imem (args.imemWords * 4)
  dmem : host.calloc .dmem (args.dmemWords * 4)
  seekable : host.seekable

def freshImage (sizeWords : Nat) : Image := { baseAddr := 0, sizeWords, buffer := fun _ ↦ 0 }

/-- The loop of a run. -/
def load (host : Host) (args : Args) : Except Stop (Image × Image) :=
  loadHeaders host (ehdrOf host.file).phnum 0 ⟨host.file, (ehdrOf host.file).phoff, true⟩
    (freshImage args.imemWords) (freshImage args.dmemWords)

theorem openElf_ok (hh : ehdrBytes ≤ host.file.length) (hm : (ehdrOf host.file).ident.take 4 = magic)
    (hv : (ehdrOf host.file).machine = EM_RISCV) :
    openElf host args = .ok (ehdrOf host.file, ⟨host.file, ehdrBytes, host.seekable⟩) := by
  unfold openElf Host.file at *
  cases he : host.elf with
  | error reason =>
    rw [he] at hh
    exact absurd hh (Nat.not_le_of_lt (by decide : 0 < ehdrBytes))
  | ok bytes =>
    rw [he] at hh hm hv
    have hread := Stream.fread_of_le ⟨bytes, 0, host.seekable⟩ (n := ehdrBytes) (by simpa using hh)
    simp only [hread, orExit, bind, Except.bind, List.drop_zero]
    change (if (ehdrOf bytes).ident.take 4 ≠ Elf2qar.magic then _ else
      if (ehdrOf bytes).machine ≠ EM_RISCV then _ else _) = _
    rw [if_neg (by simpa using hm), if_neg (by simpa using hv)]
    rfl

theorem openElf_error (h : ¬ (ehdrBytes ≤ host.file.length ∧
      (ehdrOf host.file).ident.take 4 = magic ∧ (ehdrOf host.file).machine = EM_RISCV)) :
    ∃ m, openElf host args = .error (.exit1 m) := by
  unfold openElf Host.file at *
  cases he : host.elf with
  | error reason => exact ⟨_, rfl⟩
  | ok bytes =>
    rw [he] at h
    by_cases hh : ehdrBytes ≤ bytes.length
    · have hread := Stream.fread_of_le ⟨bytes, 0, host.seekable⟩ (n := ehdrBytes) (by simpa using hh)
      simp only [hread, orExit, bind, Except.bind, List.drop_zero]
      change ∃ m, (if (ehdrOf bytes).ident.take 4 ≠ Elf2qar.magic then _ else
        if (ehdrOf bytes).machine ≠ EM_RISCV then _ else _) = _
      by_cases hm : (ehdrOf bytes).ident.take 4 = Elf2qar.magic
      · by_cases hv : (ehdrOf bytes).machine = EM_RISCV
        · exact absurd ⟨hh, hm, hv⟩ h
        · rw [if_neg (by simpa using hm), if_pos hv]
          exact ⟨_, rfl⟩
      · rw [if_pos hm]
        exact ⟨_, rfl⟩
    · have hread := Stream.fread_of_lt ⟨bytes, 0, host.seekable⟩ (n := ehdrBytes) (by decide)
        (by simpa using hh)
      simp only [hread, orExit, bind, Except.bind]
      exact ⟨_, rfl⟩

theorem loadImages_of_starts (h : Starts host args) : loadImages host args = load host args := by
  unfold loadImages load
  rw [openElf_ok h.header h.magic h.machine]
  simp only [imageInit, h.imem, h.dmem, if_true, Stream.fseek, h.seekable, orExit, bind, Except.bind]
  rfl

theorem loadImages_of_not_starts (h : ¬ Starts host args) : ∃ m, loadImages host args = .error (.exit1 m) := by
  unfold loadImages
  by_cases ho : ehdrBytes ≤ host.file.length ∧ (ehdrOf host.file).ident.take 4 = magic ∧
      (ehdrOf host.file).machine = EM_RISCV
  · rw [openElf_ok ho.1 ho.2.1 ho.2.2]
    by_cases hi : host.calloc .imem (args.imemWords * 4)
    · by_cases hd : host.calloc .dmem (args.dmemWords * 4)
      · have hs : host.seekable = false := by
          by_contra hs
          exact h ⟨ho.1, ho.2.1, ho.2.2, hi, hd, Bool.ne_false_iff.mp hs⟩
        simp only [imageInit, hi, hd, if_true, Stream.fseek, hs, orExit, bind, Except.bind]
        exact ⟨_, rfl⟩
      · simp only [imageInit, hi, hd, if_true, bind, Except.bind]
        exact ⟨_, rfl⟩
    · simp only [imageInit, hi, bind, Except.bind]
      exact ⟨_, rfl⟩
  · obtain ⟨m, hm⟩ : ∃ m, openElf host args = .error (.exit1 m) := openElf_error ho
    rw [hm]
    exact ⟨m, rfl⟩

/-! ## The outputs -/

/-- Both outputs can be opened. -/
structure Opens (host : Host) (args : Args) : Prop where
  program : host.outputError .imem args.programHex = none
  data : host.outputError .dmem args.dataHex = none

/-- The disk when both images have been written. -/
def written (host : Host) (args : Args) (im : Image × Image) (disk : Disk) : Disk :=
  Function.update
    (Function.update disk (host.target args.programHex)
      (some (host.taken .imem args.programHex (imageText im.1))))
    (host.target args.dataHex) (some (host.taken .dmem args.dataHex (imageText im.2)))

theorem main_of_error {stop : Stop} (h : loadImages host args = .error stop) :
    main host args disk = (disk, .error stop) := by
  unfold main
  rw [h]

-- Once everything is loaded, only an output that cannot be opened stops the run.
theorem main_of_ok (disk : Disk) {im : Image × Image} (h : loadImages host args = .ok im) :
    (Opens host args ∧ main host args disk = (written host args im disk, .ok ())) ∨
      (¬ Opens host args ∧ ∃ disk' m, main host args disk = (disk', .error (.exit1 m))) := by
  unfold main
  rw [h]
  cases hp : host.outputError .imem args.programHex with
  | some reason =>
    right
    simp only [imageWriteHex, hp]
    refine ⟨fun ho ↦ ?_, _, _, rfl⟩
    rw [ho.program] at hp
    cases hp
  | none =>
    cases hd : host.outputError .dmem args.dataHex with
    | some reason =>
      right
      simp only [imageWriteHex, hp, hd]
      refine ⟨fun ho ↦ ?_, _, _, rfl⟩
      rw [ho.data] at hd
      cases hd
    | none =>
      left
      simp only [imageWriteHex, hp, hd]
      exact ⟨⟨hp, hd⟩, rfl⟩

/-- Whatever the text of an image of `n` words is, all of it is in the file afterwards. -/
def Host.Takes (host : Host) (region : Region) (path : String) (n : Nat) : Prop :=
  ∀ text : Text, text.length = 9 * n → host.taken region path text = text

namespace Phdr

def region (h : Phdr) : Region := if h.inProgram then .imem else .dmem

/-- The path of the image of the region. -/
def output (h : Phdr) (args : Args) : String := if h.inProgram then args.programHex else args.dataHex

/-- The file of the image takes all of it, and is not the one that the data image goes to next. -/
structure OutputKept (h : Phdr) (host : Host) (args : Args) : Prop where
  takes : host.Takes h.region (h.output args) (h.depth args)
  apart : h.inProgram → host.target args.programHex ≠ host.target args.dataHex

end Phdr

-- On a host that takes it, an image that has been written is in its file.
theorem contents_imageWriteHex {region : Region} {img : Image} {path : String} {disk' : Disk}
    (ht : host.Takes region path img.sizeWords) (h : imageWriteHex host region img path disk = (disk', .ok ())) :
    host.contents disk' path = some (imageText img) := by
  unfold imageWriteHex at h
  cases ho : host.outputError region path with
  | some reason =>
    rw [ho] at h
    cases h
  | none =>
    rw [ho] at h
    cases h
    rw [Host.contents, Function.update_self, ht _ (length_imageText img)]

theorem contents_data (ht : host.Takes .dmem args.dataHex args.dmemWords) {im : Image × Image}
    (hw : im.2.sizeWords = args.dmemWords) :
    host.contents (written host args im disk) args.dataHex = some (imageText im.2) := by
  have hlen := length_imageText im.2
  rw [hw] at hlen
  rw [Host.contents, written, Function.update_self, ht _ hlen]

theorem contents_program (ht : host.Takes .imem args.programHex args.imemWords) {im : Image × Image}
    (hw : im.1.sizeWords = args.imemWords)
    (ha : host.target args.programHex ≠ host.target args.dataHex) :
    host.contents (written host args im disk) args.programHex = some (imageText im.1) := by
  have hlen := length_imageText im.1
  rw [hw] at hlen
  rw [Host.contents, written, Function.update_of_ne ha, Function.update_self, ht _ hlen]

-- The file of a header is left with the image of its region.
theorem Phdr.OutputKept.contents {h : Phdr} (hk : h.OutputKept host args) {im : Image × Image}
    (hi : im.1.sizeWords = args.imemWords) (hd : im.2.sizeWords = args.dmemWords) :
    host.contents (written host args im disk) (h.output args) =
      some (imageText (if h.inProgram then im.1 else im.2)) := by
  obtain ⟨ht, hapart⟩ := hk
  unfold Phdr.region Phdr.output Phdr.depth at ht
  unfold Phdr.output
  cases hreg : h.inProgram with
  | true =>
    rw [hreg] at ht
    exact contents_program ht hi (hapart hreg)
  | false =>
    rw [hreg] at ht
    exact contents_data ht hd

/-! ## Losing nothing -/

/-- Program header `k` of a file. -/
abbrev segment (bytes : List Byte) (k : Nat) : Phdr := phdr bytes (ehdrOf bytes).phoff k

/-- No other loaded segment overlaps segment `k`. -/
def Alone (bytes : List Byte) (k : Nat) : Prop :=
  ∀ j < (ehdrOf bytes).phnum, j ≠ k → (segment bytes j).Loaded → (segment bytes k).Apart (segment bytes j)

/-- The images have room for every segment, and their files hold the bytes of each that no other
overlaps. -/
structure KeepsSegments (host : Host) (args : Args) (disk : Disk) : Prop where
  fits : ∀ k < (ehdrOf host.file).phnum, (segment host.file k).Loaded →
    (segment host.file k).address + (segment host.file k).filesz ≤ (segment host.file k).depth args * 4
  holds : ∀ k < (ehdrOf host.file).phnum, (segment host.file k).Loaded → Alone host.file k →
    ∃ text, host.contents disk ((segment host.file k).output args) = some text ∧
      ∀ b < (segment host.file k).filesz, ∃ x : Byte,
        host.file[(segment host.file k).offset + b]? = some x ∧
          imageByte text ((segment host.file k).address + b) = some x.toNat

/-- A run loses nothing in silence: it fails, or the files keep the segments. -/
def Lossless (host : Host) (args : Args) (disk : Disk) : Prop :=
  match main host args disk with
  | (_, .error (.exit1 _)) => True
  | (_, .error .undefined) => False
  | (disk', .ok ()) => KeepsSegments host args disk'

/-- Nothing but an overrun stops the run. -/
structure Completes (host : Host) (args : Args) : Prop where
  starts : Starts host args
  readable : AllReadable host host.file 0 (ehdrOf host.file).phoff (ehdrOf host.file).phnum
  opens : Opens host args

/-- Every segment that is reached fits its image.  A segment that does not is harmless only if it is
dropped, which is no overrun, and the run fails later. -/
structure SegmentsFit (host : Host) (args : Args) : Prop where
  noOverrun : Starts host args → ¬ ReachesOverrun host args host.file 0 (ehdrOf host.file).phoff
    (ehdrOf host.file).phnum
  fits : Completes host args → ∀ k < (ehdrOf host.file).phnum, (segment host.file k).Loaded →
    (segment host.file k).Fits args

/-- Every segment that is reached fits its image, and the file of the image is left with all of it. -/
structure AllFit (host : Host) (args : Args) : Prop extends SegmentsFit host args where
  kept : Completes host args → ∀ k < (ehdrOf host.file).phnum, (segment host.file k).Loaded →
    (segment host.file k).OutputKept host args

theorem sized_fresh : Sized args (freshImage args.imemWords) (freshImage args.dmemWords) :=
  ⟨rfl, rfl, rfl, rfl⟩

-- The byte of a segment, in the text of the image of its region.
theorem imageByte_stored (hk : k < n) (hr : AllReadable host bytes i p n) (hl : (phdr bytes p k).Loaded)
    (hf : (phdr bytes p k).Fits args)
    (ha : ∀ j < n, j ≠ k → (phdr bytes p j).Loaded → (phdr bytes p k).Apart (phdr bytes p j))
    {img : Image} (hw : img.sizeWords = (phdr bytes p k).depth args) {b : Nat}
    (hb : b < (phdr bytes p k).filesz) :
    ∃ x : Byte, bytes[(phdr bytes p k).offset + b]? = some x ∧
      imageByte (imageText (img.storeAll (blocks bytes (phdr bytes p k).inProgram (headers bytes p n))))
        ((phdr bytes p k).address + b) = some x.toNat := by
  have hlen : ((phdr bytes p k).contents bytes).length = (phdr bytes p k).filesz :=
    (hr k hk).contents_length hl
  have hb' : b < ((phdr bytes p k).contents bytes).length := by omega
  refine ⟨((phdr bytes p k).contents bytes)[b], contents_get hb', ?_⟩
  unfold Phdr.Fits at hf
  rw [← hw] at hf
  have hbyte := imageByte_text (img.storeAll (blocks bytes (phdr bytes p k).inProgram (headers bytes p n)))
    (a := (phdr bytes p k).address + b) (by change _ < img.sizeWords * 4; omega) (by omega)
  rw [storeAll_contents img hk hl ha hb'] at hbyte
  exact hbyte

theorem load_result (host : Host) (args : Args) : LoadResult host args host.file 0
    (ehdrOf host.file).phoff (ehdrOf host.file).phnum (load host args) :=
  loadHeaders_result sized_fresh

-- A run that ends well has loaded every segment of the table.
theorem load_ok {im : Image × Image} (he : load host args = .ok im) :
    AllReadable host host.file 0 (ehdrOf host.file).phoff (ehdrOf host.file).phnum := by
  obtain ⟨-, h⟩ | ⟨-, -, m, h⟩ | ⟨-, hr, -, -⟩ := load_result host args
  · rw [he] at h
    cases h
  · rw [he] at h
    cases h
  · exact hr

theorem load_fits (hr : AllReadable host host.file 0 (ehdrOf host.file).phoff (ehdrOf host.file).phnum)
    (hf : ∀ k < (ehdrOf host.file).phnum, (segment host.file k).Loaded → (segment host.file k).Fits args) :
    load host args = .ok
      ((freshImage args.imemWords).storeAll (blocks host.file true
        (headers host.file (ehdrOf host.file).phoff (ehdrOf host.file).phnum)),
      (freshImage args.dmemWords).storeAll (blocks host.file false
        (headers host.file (ehdrOf host.file).phoff (ehdrOf host.file).phnum))) :=
  loadHeaders_fits sized_fresh hr hf

theorem AllFit.keepsSegments (h : AllFit host args) (hs : Starts host args) {im : Image × Image}
    (he : load host args = .ok im) (ho : Opens host args) :
    KeepsSegments host args (written host args im disk) := by
  have hr := load_ok he
  have hc : Completes host args := ⟨hs, hr, ho⟩
  have hfit := h.fits hc
  have him := load_fits hr hfit
  rw [he] at him
  cases him
  constructor
  · intro k hk hl
    have := hfit k hk hl
    unfold Phdr.Fits at this
    omega
  · intro k hk hl ha
    refine ⟨_, (h.kept hc k hk hl).contents rfl rfl, fun b hb ↦ ?_⟩
    have hw : (freshImage ((segment host.file k).depth args)).sizeWords = (segment host.file k).depth args := rfl
    have hbyte := imageByte_stored hk hr hl (hfit k hk hl) ha hw hb
    unfold Phdr.depth at hbyte
    -- the image of the region, on both sides
    cases hreg : (segment host.file k).inProgram with
    | true =>
      rw [hreg] at hbyte
      exact hbyte
    | false =>
      rw [hreg] at hbyte
      exact hbyte

theorem AllFit.lossless (h : AllFit host args) : Lossless host args disk := by
  unfold Lossless
  by_cases hs : Starts host args
  · have hload := loadImages_of_starts hs
    obtain ⟨hu, -⟩ | ⟨-, -, m, he⟩ | ⟨-, -, im, he⟩ := load_result host args
    · exact absurd hu (h.noOverrun hs)
    · rw [main_of_error (hload.trans he)]
      trivial
    · obtain ⟨ho, hm⟩ | ⟨-, disk', m, hm⟩ := main_of_ok disk (hload.trans he)
      · rw [hm]
        exact h.keepsSegments hs he ho
      · rw [hm]
        trivial
  · obtain ⟨m, hm⟩ := loadImages_of_not_starts hs
    rw [main_of_error hm]
    trivial

-- A run that nothing stops writes both images, unless it leaves a buffer.
theorem Lossless.keeps (h : Lossless host args disk) (hc : Completes host args) :
    ∃ im, load host args = .ok im ∧ KeepsSegments host args (written host args im disk) := by
  have hload := loadImages_of_starts hc.starts
  unfold Lossless at h
  obtain ⟨-, he⟩ | ⟨-, hnot, -⟩ | ⟨-, -, im, he⟩ := load_result host args
  · rw [main_of_error (hload.trans he)] at h
    exact h.elim
  · exact absurd hc.readable hnot
  · obtain ⟨-, hm⟩ | ⟨hnot, -⟩ := main_of_ok disk (hload.trans he)
    · rw [hm] at h
      exact ⟨im, he, h⟩
    · exact absurd hc.opens hnot

theorem Lossless.segmentsFit (h : Lossless host args disk) (hi : args.imemWords < 2 ^ 30)
    (hd : args.dmemWords < 2 ^ 30) : SegmentsFit host args := by
  constructor
  · intro hs hu
    unfold Lossless at h
    obtain ⟨-, he⟩ | ⟨hu', -⟩ | ⟨hu', -⟩ := load_result host args
    · rw [main_of_error ((loadImages_of_starts hs).trans he)] at h
      exact h
    · exact hu' hu
    · exact hu' hu
  · intro hc k hk hl
    obtain ⟨im, -, hkeeps⟩ := h.keeps hc
    have hfits := hkeeps.fits k hk hl
    have hdepth : (segment host.file k).depth args < 2 ^ 30 := by
      unfold Phdr.depth
      split <;> assumption
    unfold Phdr.Fits
    omega

-- In one file, the data image replaces the program image, and a segment behind its end is gone.
theorem Lossless.oneFile (h : Lossless host args disk) (hi : args.imemWords < 2 ^ 30)
    (hd : args.dmemWords < 2 ^ 30) (hc : Completes host args)
    (hsame : host.target args.programHex = host.target args.dataHex)
    (ht : host.Takes .dmem args.dataHex args.dmemWords) {k : Nat} (hk : k < (ehdrOf host.file).phnum)
    (hl : (segment host.file k).Loaded) (hp : (segment host.file k).inProgram) (ha : Alone host.file k) :
    (segment host.file k).address + (segment host.file k).filesz ≤ args.dmemWords * 4 := by
  obtain ⟨im, he, hkeeps⟩ := h.keeps hc
  have him := load_fits hc.readable ((h.segmentsFit hi hd).fits hc)
  rw [he] at him
  cases him
  obtain ⟨text, htext, hbytes⟩ := hkeeps.holds k hk hl ha
  rw [Phdr.output, if_pos hp, Host.contents, hsame] at htext
  cases htext.symm.trans (contents_data ht rfl)
  have hlast : (segment host.file k).filesz - 1 < (segment host.file k).filesz := by
    have hne := hl.2
    omega
  obtain ⟨x, -, hx⟩ := hbytes _ hlast
  have hin := imageByte_inside hx
  change _ < args.dmemWords * 4 at hin
  omega

/-- A run loses nothing if everything fits and the files are left with the images, and only if everything
fits.  From `2 ^ 30` words on, the depth in bytes is no 32-bit number, and the lines of the image repeat. -/
theorem segments_lossless (host : Host) (args : Args) (disk : Disk) :
    (AllFit host args → Lossless host args disk) ∧
      (args.imemWords < 2 ^ 30 → args.dmemWords < 2 ^ 30 → Lossless host args disk → SegmentsFit host args) :=
  ⟨fun h ↦ h.lossless, fun hi hd h ↦ h.segmentsFit hi hd⟩

/-- A file with one segment of four bytes, for address 0x100. -/
def oneSegment : Host :=
  .plain (.ok [0x7f, 0x45, 0x4c, 0x46, 1, 1, 1, 0, 0, 0, 0, 0, 0, 0, 0, 0, 2, 0, 0xf3, 0, 1, 0, 0, 0, 0, 1, 0, 0,
    52, 0, 0, 0, 0, 0, 0, 0, 0, 0, 0, 0, 52, 0, 32, 0, 1, 0, 40, 0, 0, 0, 0, 0,
    1, 0, 0, 0, 84, 0, 0, 0, 0, 1, 0, 0, 0, 1, 0, 0, 4, 0, 0, 0, 4, 0, 0, 0, 5, 0, 0, 0, 4, 0, 0, 0,
    0x73, 0, 0, 0])

def defaultArgs (imemWords : Nat) (dataHex : String) : Args where
  elfPath := "firmware.elf"
  programHex := "program.hex"
  dataHex := dataHex
  imemWords := imemWords
  dmemWords := 64

def emptyDisk : Disk := fun _ ↦ none

theorem oneSegment_fits : Lossless oneSegment (defaultArgs 65 "data.hex") emptyDisk := by
  apply (segments_lossless oneSegment (defaultArgs 65 "data.hex") emptyDisk).1
  have hfits : (phdr oneSegment.file 52 0).Fits (defaultArgs 65 "data.hex") := by decide +kernel
  refine ⟨⟨?_, ?_⟩, ?_⟩
  · rintro - ⟨k, hk, -, -, ho⟩
    have hk0 : k = 0 := Nat.lt_one_iff.mp hk
    subst hk0
    exact absurd ho.2 (by decide +kernel)
  · intro _ k hk _
    have hk0 : k = 0 := Nat.lt_one_iff.mp hk
    subst hk0
    exact hfits
  · intro _ k _ _
    exact ⟨fun _ _ ↦ rfl, fun _ ↦ by decide⟩

theorem oneSegment_completes (imemWords : Nat) (dataHex : String) :
    Completes oneSegment (defaultArgs imemWords dataHex) := by
  refine ⟨⟨by decide +kernel, by decide +kernel, by decide +kernel, rfl, rfl, rfl⟩, fun k hk ↦ ?_, ⟨rfl, rfl⟩⟩
  have hk0 : k = 0 := Nat.lt_one_iff.mp hk
  subst hk0
  exact ⟨by decide +kernel, fun _ ↦ ⟨rfl, by decide +kernel⟩⟩

/-- Of the default depth, the image ends at 0x100: the segment is dropped and the tool succeeds. -/
theorem oneSegment_dropped : (main oneSegment (defaultArgs 64 "data.hex") emptyDisk).2.isOk ∧
    ¬ Lossless oneSegment (defaultArgs 64 "data.hex") emptyDisk := by
  refine ⟨by decide +kernel, fun h ↦ ?_⟩
  obtain ⟨im, -, hkeeps⟩ := h.keeps (oneSegment_completes 64 "data.hex")
  exact absurd (hkeeps.fits 0 (by decide +kernel) (by decide +kernel)) (by decide +kernel)

-- It fits a program memory of 65 words, and is lost if the data image goes to the same file.
theorem oneSegment_replaced : ¬ Lossless oneSegment (defaultArgs 65 "program.hex") emptyDisk := by
  intro h
  have halone : Alone oneSegment.file 0 := by
    intro j hj hne
    exact absurd (Nat.lt_one_iff.mp hj) hne
  exact absurd (h.oneFile (by decide) (by decide) (oneSegment_completes 65 "program.hex") rfl (fun _ _ ↦ rfl)
    (by decide +kernel) (by decide +kernel) (by decide +kernel) halone) (by decide +kernel)

end Elf2qar

end QarCore
