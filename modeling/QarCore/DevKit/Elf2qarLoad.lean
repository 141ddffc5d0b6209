import QarCore.DevKit.Elf2qar

/-! What becomes of the segments of a file: a segment that does not fit its image is dropped in
silence, and every other one is stored. -/

namespace QarCore

namespace Elf2qar

open ByteImage (Block)

variable {host : Host} {args : Args} {bytes : List Byte} {imem dmem img : Image}

/-! ## The program header table -/

/-- The contents of the file, none if it cannot be opened. -/
def Host.file (host : Host) : List Byte :=
  match host.elf with
  | .ok bytes => bytes
  | .error _ => []

def ehdrOf (bytes : List Byte) : Ehdr := Ehdr.ofBytes (bytes.take ehdrBytes)

/-- The program header at byte `p`. -/
def phdrAt (bytes : List Byte) (p : Nat) : Phdr := Phdr.ofBytes ((bytes.drop p).take phdrBytes)

/-- Program header `k` of the table at `p`. -/
def phdr (bytes : List Byte) (p k : Nat) : Phdr := phdrAt bytes (p + 32 * k)

namespace Phdr

def Loaded (h : Phdr) : Prop := h.type = PT_LOAD ∧ h.filesz ≠ 0

instance (h : Phdr) : Decidable h.Loaded := inferInstanceAs (Decidable (_ ∧ _))

def inProgram (h : Phdr) : Bool := h.vaddr < programEnd

/-- The address in the image of the region. -/
def address (h : Phdr) : Nat := if h.inProgram then h.vaddr else h.vaddr - programEnd

/-- The depth of the image of the region. -/
def depth (h : Phdr) (args : Args) : Nat := if h.inProgram then args.imemWords else args.dmemWords

/-- The segment ends below the depth, as far as 32 bits can hold it. -/
def Fits (h : Phdr) (args : Args) : Prop := h.address + h.filesz ≤ h.depth args * 4 % 2 ^ 32

instance (h : Phdr) (args : Args) : Decidable (h.Fits args) := inferInstanceAs (Decidable (_ ≤ _))

/-- The end of the segment is beyond the image, but its last 32 bits are not. -/
def Overruns (h : Phdr) (args : Args) : Prop :=
  (h.address + h.filesz) % 2 ^ 32 ≤ h.depth args * 4 % 2 ^ 32 ∧ h.depth args * 4 < h.address + h.filesz

def Apart (h g : Phdr) : Prop := h.vaddr + h.filesz ≤ g.vaddr ∨ g.vaddr + g.filesz ≤ h.vaddr

def contents (bytes : List Byte) (h : Phdr) : List Byte := (bytes.drop h.offset).take h.filesz

end Phdr

/-- Header `i`, at `p`, is in the file, and so are the bytes of its segment, for which there is memory. -/
def Readable (host : Host) (bytes : List Byte) (i p : Nat) : Prop :=
  p + phdrBytes ≤ bytes.length ∧ ((phdrAt bytes p).Loaded → host.malloc i (phdrAt bytes p).filesz ∧
    (phdrAt bytes p).offset + (phdrAt bytes p).filesz ≤ bytes.length)

/-! ## Reading -/

theorem Stream.fread_of_le (f : Stream) {n : Nat} (h : f.pos + n ≤ f.bytes.length) :
    f.fread n = some ((f.bytes.drop f.pos).take n, { f with pos := f.pos + n }) := by
  apply if_pos
  rw [List.length_take, List.length_drop]
  omega

theorem Stream.fread_of_lt (f : Stream) {n : Nat} (hn : n ≠ 0) (h : f.bytes.length < f.pos + n) :
    f.fread n = none := by
  apply if_neg
  rw [List.length_take, List.length_drop]
  omega

theorem readSegment_ok (h : Phdr) {i p : Nat} (hm : host.malloc i h.filesz)
    (hr : h.offset + h.filesz ≤ bytes.length) :
    readSegment host i ⟨bytes, p, true⟩ h = .ok (h.contents bytes, ⟨bytes, p, true⟩) := by
  have hread := Stream.fread_of_le ⟨bytes, h.offset, true⟩ hr
  rw [readSegment, if_neg (by simp [hm])]
  simp only [Stream.fseek, if_true, orExit, bind, Except.bind, hread]
  rfl

theorem readSegment_error (h : Phdr) {i p : Nat} (hz : h.filesz ≠ 0)
    (hr : ¬ (host.malloc i h.filesz ∧ h.offset + h.filesz ≤ bytes.length)) :
    ∃ m, readSegment host i ⟨bytes, p, true⟩ h = .error (.exit1 m) := by
  unfold readSegment
  by_cases hm : host.malloc i h.filesz
  · have hlt : bytes.length < h.offset + h.filesz := by
      by_contra hle
      exact hr ⟨hm, by omega⟩
    have hread := Stream.fread_of_lt ⟨bytes, h.offset, true⟩ hz hlt
    rw [if_neg (by simp [hm])]
    simp only [Stream.fseek, if_true, orExit, bind, Except.bind, hread]
    exact ⟨_, rfl⟩
  · rw [if_pos (by simp [hm])]
    exact ⟨_, rfl⟩

/-! ## One header -/

variable {n i p : Nat}

theorem loadHeaders_error (hr : ¬ Readable host bytes i p) :
    ∃ m, loadHeaders host (n + 1) i ⟨bytes, p, true⟩ imem dmem = .error (.exit1 m) := by
  unfold loadHeaders
  by_cases hp : p + phdrBytes ≤ bytes.length
  · have hread := Stream.fread_of_le ⟨bytes, p, true⟩ hp
    have hload : (phdrAt bytes p).Loaded := by
      by_contra hnot
      exact hr ⟨hp, fun h ↦ absurd h hnot⟩
    obtain ⟨m, hm⟩ := readSegment_error (phdrAt bytes p) (p := p + phdrBytes) hload.2
      fun h ↦ hr ⟨hp, fun _ ↦ h⟩
    refine ⟨m, ?_⟩
    simp only [hread, orExit, bind, Except.bind]
    change (if (phdrAt bytes p).type ≠ PT_LOAD ∨ (phdrAt bytes p).filesz = 0 then _ else _) = _
    rw [if_neg (by simp [hload.1, hload.2])]
    change Except.bind (readSegment host i ⟨bytes, p + phdrBytes, true⟩ (phdrAt bytes p)) _ = _
    rw [hm]
    rfl
  · have hread := Stream.fread_of_lt ⟨bytes, p, true⟩ (by decide : phdrBytes ≠ 0) (Nat.lt_of_not_le hp)
    simp only [hread, orExit, bind, Except.bind]
    exact ⟨_, rfl⟩

theorem loadHeaders_skip (hr : Readable host bytes i p) (hl : ¬ (phdrAt bytes p).Loaded) :
    loadHeaders host (n + 1) i ⟨bytes, p, true⟩ imem dmem =
      loadHeaders host n (i + 1) ⟨bytes, p + phdrBytes, true⟩ imem dmem := by
  have hread := Stream.fread_of_le ⟨bytes, p, true⟩ hr.1
  rw [loadHeaders]
  simp only [hread, orExit, bind, Except.bind]
  change (if (phdrAt bytes p).type ≠ PT_LOAD ∨ (phdrAt bytes p).filesz = 0 then _ else _) = _
  apply if_pos
  by_contra hnot
  exact hl (by simpa [Phdr.Loaded] using hnot)

theorem loadHeaders_store (hr : Readable host bytes i p) (hl : (phdrAt bytes p).Loaded) :
    loadHeaders host (n + 1) i ⟨bytes, p, true⟩ imem dmem =
      (storeSegment imem dmem (phdrAt bytes p) ((phdrAt bytes p).contents bytes)).bind fun im ↦
        loadHeaders host n (i + 1) ⟨bytes, p + phdrBytes, true⟩ im.1 im.2 := by
  have hread := Stream.fread_of_le ⟨bytes, p, true⟩ hr.1
  have hseg := readSegment_ok (phdrAt bytes p) (p := p + phdrBytes) (hr.2 hl).1 (hr.2 hl).2
  rw [loadHeaders]
  simp only [hread, orExit, bind, Except.bind]
  change (if (phdrAt bytes p).type ≠ PT_LOAD ∨ (phdrAt bytes p).filesz = 0 then _ else _) = _
  rw [if_neg (by simp [hl.1, hl.2])]
  change Except.bind (readSegment host i ⟨bytes, p + phdrBytes, true⟩ (phdrAt bytes p)) _ = _
  rw [hseg]
  rfl

/-! ## One store -/

theorem imageStore_dropped (h0 : img.baseAddr = 0) {addr : Nat} {data : List Byte}
    (h : img.sizeWords * 4 % 2 ^ 32 < (addr + data.length) % 2 ^ 32) :
    imageStore img addr data = .ok img := by
  apply if_pos
  right
  rw [Image.limit, h0, Nat.zero_add]
  exact h

theorem imageStore_kept (h0 : img.baseAddr = 0) {addr : Nat} {data : List Byte}
    (h : (addr + data.length) % 2 ^ 32 ≤ img.sizeWords * 4 % 2 ^ 32) :
    imageStore img addr data =
      if addr + data.length ≤ img.sizeWords * 4 then
        .ok { img with buffer := ByteImage.store img.buffer addr data }
      else .error .undefined := by
  unfold imageStore
  rw [if_neg (by rw [Image.limit, h0, Nat.zero_add]; omega), h0]
  rfl

/-- The two images of a run, before anything is stored and after. -/
structure Sized (args : Args) (imem dmem : Image) : Prop where
  imemBase : imem.baseAddr = 0
  dmemBase : dmem.baseAddr = 0
  imemWords : imem.sizeWords = args.imemWords
  dmemWords : dmem.sizeWords = args.dmemWords

def Phdr.block (bytes : List Byte) (h : Phdr) : Block Byte := ⟨h.address, h.contents bytes⟩

def Image.storeAll (img : Image) (blocks : List (Block Byte)) : Image :=
  { img with buffer := ByteImage.storeAll img.buffer blocks }

/-- The image of a region, with the segment stored if that is where it belongs. -/
def Image.put (img : Image) (region : Bool) (bytes : List Byte) (h : Phdr) : Image :=
  if h.inProgram = region then
    { img with buffer := ByteImage.store img.buffer h.address (h.contents bytes) }
  else img

variable {h : Phdr}

-- A segment is stored, is dropped or leaves the buffer.
theorem storeSegment_cases (hs : Sized args imem dmem) (hl : (h.contents bytes).length = h.filesz) :
    (¬ h.Overruns args ∧
      storeSegment imem dmem h (h.contents bytes) = .ok (imem.put true bytes h, dmem.put false bytes h)) ∨
    (¬ h.Overruns args ∧ ¬ h.Fits args ∧ storeSegment imem dmem h (h.contents bytes) = .ok (imem, dmem)) ∨
    (h.Overruns args ∧ storeSegment imem dmem h (h.contents bytes) = .error .undefined) := by
  obtain ⟨hib, hdb, hiw, hdw⟩ := hs
  unfold storeSegment Phdr.Overruns Phdr.Fits Image.put Phdr.depth Phdr.address Phdr.inProgram
  by_cases hv : h.vaddr < programEnd
  · simp only [hv, decide_true, if_true, ← hiw]
    by_cases hd : imem.sizeWords * 4 % 2 ^ 32 < (h.vaddr + h.filesz) % 2 ^ 32
    · rw [imageStore_dropped hib (by rw [hl]; exact hd)]
      exact .inr (.inl ⟨by omega, by omega, rfl⟩)
    · rw [imageStore_kept hib (by rw [hl]; omega), hl]
      by_cases hk : h.vaddr + h.filesz ≤ imem.sizeWords * 4
      · rw [if_pos hk]
        exact .inl ⟨by omega, rfl⟩
      · rw [if_neg hk]
        exact .inr (.inr ⟨by omega, rfl⟩)
  · simp only [hv, decide_false, if_false, Bool.false_eq_true, if_true, ← hdw]
    by_cases hd : dmem.sizeWords * 4 % 2 ^ 32 < (h.vaddr - programEnd + h.filesz) % 2 ^ 32
    · rw [imageStore_dropped hdb (by rw [hl]; exact hd)]
      exact .inr (.inl ⟨by omega, by omega, rfl⟩)
    · rw [imageStore_kept hdb (by rw [hl]; omega), hl]
      by_cases hk : h.vaddr - programEnd + h.filesz ≤ dmem.sizeWords * 4
      · rw [if_pos hk]
        exact .inl ⟨by omega, rfl⟩
      · rw [if_neg hk]
        exact .inr (.inr ⟨by omega, rfl⟩)

theorem Sized.put (hs : Sized args imem dmem) : Sized args (imem.put true bytes h) (dmem.put false bytes h) := by
  constructor <;> unfold Image.put <;> split
  · exact hs.imemBase
  · exact hs.imemBase
  · exact hs.dmemBase
  · exact hs.dmemBase
  · exact hs.imemWords
  · exact hs.imemWords
  · exact hs.dmemWords
  · exact hs.dmemWords

/-! ## The whole table -/

/-- The `n` headers from `p` on can be read, the first of them being header `i`. -/
def AllReadable (host : Host) (bytes : List Byte) (i p n : Nat) : Prop :=
  ∀ k < n, Readable host bytes (i + k) (p + 32 * k)

/-- A segment that overruns its image is reached, all headers before it having been read. -/
def ReachesOverrun (host : Host) (args : Args) (bytes : List Byte) (i p n : Nat) : Prop :=
  ∃ k < n, (∀ j ≤ k, Readable host bytes (i + j) (p + 32 * j)) ∧ (phdr bytes p k).Loaded ∧
    (phdr bytes p k).Overruns args

theorem phdr_succ (bytes : List Byte) (p k : Nat) : phdr bytes p (k + 1) = phdr bytes (p + 32) k := by
  unfold phdr
  rw [show p + 32 * (k + 1) = p + 32 + 32 * k by omega]

theorem readable_succ (host : Host) (bytes : List Byte) (i p k : Nat) :
    Readable host bytes (i + (k + 1)) (p + 32 * (k + 1)) ↔ Readable host bytes (i + 1 + k) (p + 32 + 32 * k) := by
  rw [show p + 32 * (k + 1) = p + 32 + 32 * k by omega, show i + (k + 1) = i + 1 + k by omega]

theorem allReadable_succ : AllReadable host bytes i p (n + 1) ↔
    Readable host bytes i p ∧ AllReadable host bytes (i + 1) (p + 32) n := by
  constructor
  · intro h
    exact ⟨h 0 (by omega), fun k hk ↦ (readable_succ host bytes i p k).mp (h (k + 1) (by omega))⟩
  · rintro ⟨h0, h⟩ k hk
    cases k with
    | zero => exact h0
    | succ k => exact (readable_succ host bytes i p k).mpr (h k (by omega))

theorem reachesOverrun_succ : ReachesOverrun host args bytes i p (n + 1) ↔
    Readable host bytes i p ∧ (((phdrAt bytes p).Loaded ∧ (phdrAt bytes p).Overruns args) ∨
      ReachesOverrun host args bytes (i + 1) (p + 32) n) := by
  constructor
  · rintro ⟨k, hk, hr, hl, ho⟩
    refine ⟨hr 0 (by omega), ?_⟩
    cases k with
    | zero => exact .inl ⟨hl, ho⟩
    | succ k =>
      rw [phdr_succ] at hl ho
      exact .inr ⟨k, by omega, fun j hj ↦ (readable_succ host bytes i p j).mp (hr (j + 1) (by omega)), hl, ho⟩
  · rintro ⟨hr, ⟨hl, ho⟩ | ⟨k, hk, hrs, hl, ho⟩⟩
    · refine ⟨0, by omega, fun j hj ↦ ?_, hl, ho⟩
      rw [Nat.le_zero.mp hj]
      exact hr
    · rw [← phdr_succ] at hl ho
      refine ⟨k + 1, by omega, fun j hj ↦ ?_, hl, ho⟩
      cases j with
      | zero => exact hr
      | succ j => exact (readable_succ host bytes i p j).mpr (hrs j (by omega))

/-- How the loop ends. -/
inductive LoadResult (host : Host) (args : Args) (bytes : List Byte) (i p n : Nat)
    (r : Except Stop (Image × Image)) : Prop
  | undefined (h : ReachesOverrun host args bytes i p n) (hr : r = .error .undefined)
  | failed (h : ¬ ReachesOverrun host args bytes i p n) (ha : ¬ AllReadable host bytes i p n) (m : String)
      (hr : r = .error (.exit1 m))
  | loaded (h : ¬ ReachesOverrun host args bytes i p n) (ha : AllReadable host bytes i p n)
      (im : Image × Image) (hr : r = .ok im)

theorem LoadResult.next {r : Except Stop (Image × Image)} (hr : Readable host bytes i p)
    (ho : ¬ ((phdrAt bytes p).Loaded ∧ (phdrAt bytes p).Overruns args))
    (h : LoadResult host args bytes (i + 1) (p + 32) n r) : LoadResult host args bytes i p (n + 1) r := by
  have hreach : ReachesOverrun host args bytes i p (n + 1) ↔
      ReachesOverrun host args bytes (i + 1) (p + 32) n := by
    rw [reachesOverrun_succ]
    exact ⟨fun h ↦ h.2.resolve_left ho, fun h ↦ ⟨hr, .inr h⟩⟩
  have hall : AllReadable host bytes i p (n + 1) ↔ AllReadable host bytes (i + 1) (p + 32) n := by
    rw [allReadable_succ]
    exact and_iff_right hr
  cases h with
  | undefined h h' => exact .undefined (hreach.mpr h) h'
  | failed h ha m h' => exact .failed (fun hn ↦ h (hreach.mp hn)) (fun hn ↦ ha (hall.mp hn)) m h'
  | loaded h ha im h' => exact .loaded (fun hn ↦ h (hreach.mp hn)) (hall.mpr ha) im h'

theorem Readable.contents_length (hr : Readable host bytes i p) (hl : (phdrAt bytes p).Loaded) :
    ((phdrAt bytes p).contents bytes).length = (phdrAt bytes p).filesz := by
  have := (hr.2 hl).2
  rw [Phdr.contents, List.length_take, List.length_drop]
  omega

theorem loadHeaders_result (hs : Sized args imem dmem) :
    LoadResult host args bytes i p n (loadHeaders host n i ⟨bytes, p, true⟩ imem dmem) := by
  induction n generalizing p i imem dmem with
  | zero =>
    refine .loaded ?_ (fun k hk ↦ absurd hk (Nat.not_lt_zero k)) (imem, dmem) rfl
    rintro ⟨k, hk, -⟩
    exact absurd hk (Nat.not_lt_zero k)
  | succ n ih =>
    by_cases hr : Readable host bytes i p
    · by_cases hl : (phdrAt bytes p).Loaded
      · rw [loadHeaders_store hr hl]
        obtain ⟨ho, he⟩ | ⟨ho, -, he⟩ | ⟨ho, he⟩ := storeSegment_cases hs (hr.contents_length hl)
        · rw [he]
          exact (ih hs.put).next hr fun h ↦ ho h.2
        · rw [he]
          exact (ih hs).next hr fun h ↦ ho h.2
        · rw [he]
          exact .undefined (reachesOverrun_succ.mpr ⟨hr, .inl ⟨hl, ho⟩⟩) rfl
      · rw [loadHeaders_skip hr hl]
        exact (ih hs).next hr fun h ↦ hl h.1
    · obtain ⟨m, hm⟩ : ∃ m, loadHeaders host (n + 1) i ⟨bytes, p, true⟩ imem dmem = .error (.exit1 m) :=
        loadHeaders_error hr
      exact .failed (fun h ↦ hr (reachesOverrun_succ.mp h).1) (fun h ↦ hr (allReadable_succ.mp h).1) m hm

/-! ## What is stored -/

def headers (bytes : List Byte) (p n : Nat) : List Phdr := (List.range' p n 32).map (phdrAt bytes)

/-- The blocks that the segments of a region make, in the order of the table. -/
def blocks (bytes : List Byte) (region : Bool) (hs : List Phdr) : List (Block Byte) :=
  (hs.filter fun h ↦ h.Loaded ∧ h.inProgram = region).map (Phdr.block bytes)

theorem storeAll_skip (img : Image) (region : Bool) {hs : List Phdr} (hl : ¬ h.Loaded) :
    img.storeAll (blocks bytes region (h :: hs)) = img.storeAll (blocks bytes region hs) := by
  rw [blocks, List.filter_cons_of_neg (by simp [hl])]
  rfl

theorem storeAll_put (img : Image) (region : Bool) {hs : List Phdr} (hl : h.Loaded) :
    (img.put region bytes h).storeAll (blocks bytes region hs) =
      img.storeAll (blocks bytes region (h :: hs)) := by
  unfold Image.put
  by_cases hp : h.inProgram = region
  · rw [if_pos hp, blocks, blocks, List.filter_cons_of_pos (by simp [hl, hp])]
    rfl
  · rw [if_neg hp, blocks, blocks, List.filter_cons_of_neg (by simp [hp])]

theorem loadHeaders_fits (hs : Sized args imem dmem) (ha : AllReadable host bytes i p n)
    (hf : ∀ k < n, (phdr bytes p k).Loaded → (phdr bytes p k).Fits args) :
    loadHeaders host n i ⟨bytes, p, true⟩ imem dmem =
      .ok (imem.storeAll (blocks bytes true (headers bytes p n)),
        dmem.storeAll (blocks bytes false (headers bytes p n))) := by
  induction n generalizing p i imem dmem with
  | zero => rfl
  | succ n ih =>
    obtain ⟨hr, ha'⟩ := allReadable_succ.mp ha
    have hf' : ∀ k < n, (phdr bytes (p + 32) k).Loaded → (phdr bytes (p + 32) k).Fits args := by
      intro k hk
      rw [← phdr_succ]
      exact hf (k + 1) (by omega)
    have hcons : headers bytes p (n + 1) = phdrAt bytes p :: headers bytes (p + 32) n := rfl
    rw [hcons]
    by_cases hl : (phdrAt bytes p).Loaded
    · have hfit : (phdrAt bytes p).Fits args := hf 0 (by omega) hl
      have hnot : ¬ (phdrAt bytes p).Overruns args := by
        unfold Phdr.Overruns
        unfold Phdr.Fits at hfit
        omega
      rw [loadHeaders_store hr hl, ← storeAll_put imem true hl, ← storeAll_put dmem false hl]
      obtain ⟨-, he⟩ | ⟨-, hd, -⟩ | ⟨ho, -⟩ := storeSegment_cases hs (hr.contents_length hl)
      · rw [he]
        exact ih hs.put ha' hf'
      · exact absurd hfit hd
      · exact absurd ho hnot
    · rw [loadHeaders_skip hr hl, storeAll_skip imem true hl, storeAll_skip dmem false hl]
      exact ih hs ha' hf'

end Elf2qar

end QarCore
