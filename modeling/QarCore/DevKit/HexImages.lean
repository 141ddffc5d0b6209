import QarCore.DevKit.Build
import QarCore.DevKit.Elf2qarImages
import QarCore.DevKit.QhexRuns

/-!
# Hex images

The hex files of `elf2qar` and of the assembler, read by `qhex`: it gets the words that were written, and its
binary holds the bytes of the image, each at its offset modulo `2 ^ 32`.
-/

namespace QarCore

namespace Qhex

open CText (Text HexNumber pieces)

variable {host : Host} {img : Elf2qar.Image} {text : Text} {hexPath : String} {words : List Word}

/-- The binary of the hex file of an image is the image, on hosts that take what is written. -/
def ImageRoundTrips (img : Elf2qar.Image) : Prop :=
  ∀ (writer : Elf2qar.Host) region path disk disk', writer.Takes region path img.sizeWords →
    Elf2qar.imageWriteHex writer region img path disk = (disk', .ok ()) →
      ∀ text, writer.contents disk' path = some text →
        ∀ host : Host, host.Serves text → ∀ hexPath binPath, ∃ report,
          run host ⟨hexPath, some binPath⟩ = .ok report ∧
            report.binary = some ((List.range (4 * img.sizeWords)).map img.buffer)

/-- The words of a hex file that has been written are read again. -/
def WordsRoundTrip (words : List Word) : Prop :=
  ∀ writer disk path disk', Assembler.writeHexFile writer disk path words = (disk', none) →
    ∀ text, writer.contents disk' path = some text →
      ∀ host : Host, host.Serves text → ∀ hexPath, readWords host hexPath text = .ok words

/-! ## Lines of eight digits -/

/-- Numbers in eight digits, one a line. -/
def printed (ms : List Nat) : Text := ms.flatMap fun m ↦ HexText.print 8 m ++ ['\n']

theorem readPiece_print (host : Host) (m : Nat) :
    readPiece host (HexText.print 8 m ++ ['\n']) = [some (BitVec.ofNat 32 m)] := by
  have htok : HexNumber (HexText.print 8 m) (m % 16 ^ 8) := CText.hexNumber_print 7 m
  have hspace : ∀ c ∈ ['\n'], CText.isspace c := List.forall_mem_singleton.mpr (by decide)
  have hread := readPiece_number host (a := []) (by simp) List.not_mem_nil htok hspace (.inl rfl)
    (t := ['\n']) (q := []) rfl
  have hsmall : m % 16 ^ 8 < 2 ^ 32 := Nat.mod_lt m (by decide)
  have hword : BitVec.ofNat 32 (m % 16 ^ 8) = BitVec.ofNat 32 m := by
    apply BitVec.eq_of_toNat_eq
    rw [BitVec.toNat_ofNat, BitVec.toNat_ofNat]
    exact Nat.mod_mod m (2 ^ 32)
  rw [stored_small host hsmall, hword] at hread
  exact hread

theorem readings_printed (host : Host) (ms : List Nat) :
    readings host (printed ms) = (ms.map (BitVec.ofNat 32)).map some := by
  induction ms with
  | nil => rfl
  | cons m ms ih =>
    have hline : '\n' ∉ HexText.print 8 m := by
      intro hmem
      have hsolid := solid_number (CText.hexNumber_print 7 m) '\n' hmem
      exact absurd hsolid.1 (by decide)
    have hfit : (HexText.print 8 m).length < lineSize - 1 := by
      rw [HexText.length_print]
      decide
    have htext : printed (m :: ms) = HexText.print 8 m ++ '\n' :: printed ms := List.append_assoc _ ['\n'] _
    rw [htext, readings, CText.pieces_short hline hfit, List.flatMap_cons, readPiece_print]
    exact congrArg (some (BitVec.ofNat 32 m) :: ·) ih

theorem readWords_printed {ms : List Nat} (hs : host.Serves (printed ms)) (hexPath : String) :
    readWords host hexPath (printed ms) = .ok (ms.map (BitVec.ofNat 32)) :=
  (readWords_eq_ok host hexPath _ hs.memory _).mpr (readings_printed host ms)

/-! ## The binary -/

theorem wordBytes_little (b₀ b₁ b₂ b₃ : Byte) :
    wordBytes (BitVec.ofNat 32 (b₀.toNat + 2 ^ 8 * b₁.toNat + 2 ^ 16 * b₂.toNat + 2 ^ 24 * b₃.toNat)) =
      [b₀, b₁, b₂, b₃] := by
  have h₀ := b₀.isLt
  have h₁ := b₁.isLt
  have h₂ := b₂.isLt
  have h₃ := b₃.isLt
  generalize hv : b₀.toNat + 2 ^ 8 * b₁.toNat + 2 ^ 16 * b₂.toNat + 2 ^ 24 * b₃.toNat = v
  have hbyte (s : Nat) (b : Byte) (h : v % 2 ^ 32 / 2 ^ s % 2 ^ 8 = b.toNat) :
      (BitVec.ofNat 32 v >>> s).setWidth 8 = b := by
    apply BitVec.eq_of_toNat_eq
    rw [BitVec.toNat_setWidth, BitVec.toNat_ushiftRight, Nat.shiftRight_eq_div_pow, BitVec.toNat_ofNat, h]
  have hlow := hbyte 0 b₀ (by omega)
  rw [BitVec.ushiftRight_zero] at hlow
  unfold wordBytes
  rw [hlow, hbyte 8 b₁ (by omega), hbyte 16 b₂ (by omega), hbyte 24 b₃ (by omega)]

/-! ## Images -/

theorem imageText_printed (img : Elf2qar.Image) :
    Elf2qar.imageText img = printed ((List.range img.sizeWords).map (Elf2qar.imageValue img)) := by
  unfold Elf2qar.imageText printed
  rw [List.flatMap_map]

theorem bytes_image (img : Elf2qar.Image) (n : Nat) :
    (((List.range n).map (Elf2qar.imageValue img)).map (BitVec.ofNat 32)).flatMap wordBytes =
      (List.range (4 * n)).map fun k ↦ img.buffer (k % 2 ^ 32) := by
  induction n with
  | zero => rfl
  | succ n ih =>
    have hword : wordBytes (BitVec.ofNat 32 (Elf2qar.imageValue img n)) =
        (List.range 4).map fun i ↦ img.buffer (n * 4 % 2 ^ 32 + i) := wordBytes_little _ _ _ _
    have hoffset : ∀ i ∈ List.range 4, img.buffer (n * 4 % 2 ^ 32 + i) = img.buffer ((4 * n + i) % 2 ^ 32) := by
      intro i hi
      rw [List.mem_range] at hi
      rw [show (4 * n + i) % 2 ^ 32 = n * 4 % 2 ^ 32 + i by omega]
    rw [List.range_succ, List.map_append, List.map_append, List.flatMap_append, ih, Nat.mul_succ, List.range_add,
      List.map_append, List.map_map]
    show _ ++ (wordBytes (BitVec.ofNat 32 (Elf2qar.imageValue img n)) ++ []) = _
    rw [List.append_nil, hword, List.map_congr_left hoffset]
    rfl

theorem run_image (hs : host.Serves (Elf2qar.imageText img)) (hexPath binPath : String) :
    ∃ report, run host ⟨hexPath, some binPath⟩ = .ok report ∧
      report.binary = some ((List.range (4 * img.sizeWords)).map fun k ↦ img.buffer (k % 2 ^ 32)) := by
  rw [imageText_printed] at hs
  refine ⟨_, run_ok hs (readWords_printed hs hexPath), ?_⟩
  rw [← bytes_image]
  rfl

theorem exists_serves (text : Text) : ∃ host : Host, host.Serves text :=
  ⟨.ready text, rfl, fun _ _ ↦ rfl, rfl, fun _ ↦ rfl⟩

theorem imageRoundTrips_of (h : ∀ k < 4 * img.sizeWords, img.buffer k = img.buffer (k % 2 ^ 32)) :
    ImageRoundTrips img := by
  intro writer region path disk disk' ht hwrite text htext host hs hexPath binPath
  rw [Elf2qar.contents_imageWriteHex ht hwrite] at htext
  cases htext
  obtain ⟨report, hrun, hbinary⟩ := run_image hs hexPath binPath
  have hbytes : (List.range (4 * img.sizeWords)).map img.buffer =
      (List.range (4 * img.sizeWords)).map fun k ↦ img.buffer (k % 2 ^ 32) :=
    List.map_congr_left fun k hk ↦ h k (List.mem_range.mp hk)
  rw [← hbytes] at hbinary
  exact ⟨report, hrun, hbinary⟩

theorem ImageRoundTrips.bytes (h : ImageRoundTrips img) {k : Nat} (hk : k < 4 * img.sizeWords) :
    img.buffer k = img.buffer (k % 2 ^ 32) := by
  obtain ⟨host, hs⟩ := exists_serves (Elf2qar.imageText img)
  obtain ⟨report, hrun, hbinary⟩ := h (.plain (.ok [])) .imem "" (fun _ ↦ none) _ (fun _ _ ↦ rfl) rfl _
    (Function.update_self _ _ _) host hs "" ""
  obtain ⟨report', hrun', hbinary'⟩ := run_image hs "" ""
  rw [hrun] at hrun'
  cases hrun'
  rw [hbinary, Option.some.injEq, List.map_inj_left] at hbinary'
  exact hbinary' k (List.mem_range.mpr hk)

/-! ## Word lists -/

theorem hexFile_printed (words : List Word) : Assembler.hexFile words = printed (words.map BitVec.toNat) := by
  unfold printed
  rw [List.flatMap_map]
  rfl

theorem wordsRoundTrip (words : List Word) : WordsRoundTrip words := by
  intro writer disk path disk' hwrite text htext host hs hexPath
  have hfile : text = printed (words.map BitVec.toNat) := by
    rw [Assembler.writeHexFile_ok hwrite, Assembler.Host.contents, Function.update_self] at htext
    rw [← hexFile_printed]
    exact (Option.some.inj htext).symm
  rw [hfile] at hs
  have hback : (words.map BitVec.toNat).map (BitVec.ofNat 32) = words := by
    have hword (w : Word) : BitVec.ofNat 32 w.toNat = w := BitVec.eq_of_toNat_eq (Nat.mod_eq_of_lt w.isLt)
    rw [List.map_map]
    exact List.map_id'' hword words
  rw [hfile, readWords_printed hs hexPath, hback]

/-- Word lists always come back; an image does exactly if each of its bytes is the one at its offset modulo
`2 ^ 32`. -/
theorem roundTrips_iff (img : Elf2qar.Image) (words : List Word) :
    ImageRoundTrips img ∧ WordsRoundTrip words ↔
      ∀ k < 4 * img.sizeWords, img.buffer k = img.buffer (k % 2 ^ 32) := by
  constructor
  · intro h k hk
    exact h.1.bytes hk
  · intro h
    exact ⟨imageRoundTrips_of h, wordsRoundTrip words⟩

-- Over 4 GiB, with a byte that is not 0 at offset 0 only.
theorem largeImage_wraps : ¬ ImageRoundTrips ⟨0, 2 ^ 30 + 1, fun k ↦ if k = 0 then 0x13 else 0⟩ := by
  intro h
  have hk : 2 ^ 32 < 4 * (2 ^ 30 + 1) := by norm_num
  have hbyte := h.bytes hk
  rw [Nat.mod_self] at hbyte
  simp at hbyte

end Qhex

end QarCore
