import QarCore.Data.GoText
import QarCore.DevKit.Qhex

/-!
# Which texts qhex reads line by line

What the line loop makes of a text depends on the pieces in which `fgets` delivers it.  It is what the
lines of the text say exactly if every line is well formed and all but one of its pieces are skipped, or if
the tool has to fail anyway and finds a piece at which it does.
-/

namespace QarCore

namespace Qhex

open CText (Text HexNumber isspace linePieces pieces)

variable {host : Host} {buf : WordBuffer} {st : Loop} {l p s : Text} {w : Word} {ws : List Word} {n : Nat}

/-! ## What a line says -/

/-- What stands in front of a comment. -/
def beforeHash (l : Text) : Text := l.takeWhile (· ≠ '#')

def BlankLine (l : Text) : Prop := ∀ c ∈ beforeHash l, isBlank c

/-- A single hexadecimal word, with white space around it. -/
def HasWord (l : Text) (w : Word) : Prop :=
  ∃ a tok b n, beforeHash l = a ++ (tok ++ b) ∧ (∀ c ∈ a, isspace c) ∧ (∀ c ∈ b, isspace c) ∧
    HexNumber tok n ∧ n < 2 ^ 32 ∧ w = BitVec.ofNat 32 n

def WellFormed (l : Text) : Prop := BlankLine l ∨ ∃ w, HasWord l w

/-- The words that lines contribute, if all are well formed. -/
inductive Contributes : List Text → List Word → Prop
  | done : Contributes [] []
  | blank {l ls ws} (hl : BlankLine l) (h : Contributes ls ws) : Contributes (l :: ls) ws
  | word {l ls w ws} (hl : HasWord l w) (h : Contributes ls ws) : Contributes (l :: ls) (w :: ws)

/-- The words that the line loop has read. -/
def readWords (host : Host) (hexPath : String) (text : Text) : Except String (List Word) :=
  (readHex host hexPath text).map fun st ↦ st.buf.contents

/-- The tool reads lines: it gets the words that the lines contribute, and fails if one is not well formed. -/
def ReadsLines (host : Host) (hexPath : String) (text : Text) : Prop :=
  ∀ ws, readWords host hexPath text = .ok ws ↔ Contributes (text.splitOn '\n') ws

/-- Memory for `n` words. -/
def Host.Ample (host : Host) (n : Nat) : Prop := ∀ c ≤ max 64 (2 * n), host.realloc (c * 4)

/-! ## When it is read -/

/-- The pieces in which `fgets` delivers a line. -/
def filePieces (l : Text) : List Text := linePieces (lineSize - 1) l

/-- The number of pieces that are not skipped. -/
def lookedAt (ps : List Text) : Nat := ps.countP fun p ↦ !skips p

/-- Only the piece with the word of the line, if it has one, is not skipped. -/
inductive Tidy (l : Text) : Prop
  | blank (hl : BlankLine l) (hskip : ∀ p ∈ filePieces l, skips p)
  | word (w : Word) (hl : HasWord l w) (hone : lookedAt (filePieces l) = 1)

/-- No number stands where the tool looks for one. -/
def Unreadable (host : Host) (p : Text) : Prop := skips p = false ∧ CText.scanHex host.bare (trim p) = none

/-- Some line is not well formed, and some piece is unreadable. -/
def FailsAnyway (host : Host) (ls : List Text) : Prop :=
  (∃ l ∈ ls, ¬ WellFormed l) ∧ ∃ l ∈ ls, ∃ p ∈ filePieces l, Unreadable host p

/-! ## The word buffer -/

theorem contents_put (hroom : buf.count < buf.capacity) (w : Word) :
    (buf.put hroom w).contents = buf.contents ++ [w] := by
  have hlen : buf.count < (buf.words.set buf.count w).length := by
    rw [List.length_set]
    exact hroom
  show (buf.words.set buf.count w).take (buf.count + 1) = buf.words.take buf.count ++ [w]
  rw [List.take_add_one, List.getElem?_eq_getElem hlen, List.getElem_set_self, List.take_set_of_le (Nat.le_refl _)]
  rfl

theorem contents_grown : (buf.grown host).contents = buf.contents :=
  List.take_append_of_le_length buf.inside

-- A word is appended behind the others, whether the buffer has to grow or not.
theorem appendWord_some (buf : WordBuffer) (hm : host.Ample n) (hn : buf.count ≤ n) (w : Word) :
    ∃ buf', appendWord host buf w = some buf' ∧ buf'.contents = buf.contents ++ [w] ∧
      buf'.count = buf.count + 1 := by
  unfold appendWord
  by_cases hfull : buf.count = buf.capacity
  · have hcap : buf.newCap ≤ max 64 (2 * n) := by
      unfold WordBuffer.newCap
      split <;> omega
    rw [dif_pos hfull, if_pos (hm _ hcap)]
    exact ⟨_, rfl, by rw [contents_put, contents_grown], rfl⟩
  · rw [dif_neg hfull]
    exact ⟨_, rfl, contents_put _ w, rfl⟩

/-! ## The line loop -/

/-- What a piece contributes: nothing, a word, or `none` where the tool stops. -/
def readPiece (host : Host) (p : Text) : List (Option Word) :=
  if skips p then [] else [(CText.scanHex host.bare (trim p)).map (stored host)]

section

variable (path : String)

theorem readLine_ok (hm : host.Ample n) (h : readPiece host p = ws.map some)
    (hn : st.buf.count + ws.length ≤ n) : ∃ st', readLine host path p st = .ok st' ∧
      st'.buf.contents = st.buf.contents ++ ws ∧ st'.buf.count = st.buf.count + ws.length := by
  unfold readPiece at h
  unfold readLine
  by_cases hskip : skips p
  · rw [if_pos hskip] at h
    rw [List.map_eq_nil_iff.mp h.symm, if_pos hskip]
    exact ⟨_, rfl, (List.append_nil _).symm, rfl⟩
  · rw [if_neg hskip] at h
    rw [if_neg hskip]
    cases hscan : CText.scanHex host.bare (trim p) with
    | none =>
      rw [hscan] at h
      cases ws <;> cases h
    | some number =>
      obtain ⟨w, rfl, hw⟩ := List.map_eq_singleton_iff.mp h.symm
      rw [hscan, Option.map_some, Option.some.injEq] at hw
      obtain ⟨buf, happend, hcontents, hcount⟩ :=
        appendWord_some st.buf hm (Nat.le_of_add_right_le hn) w
      simp only [← hw, happend]
      exact ⟨_, rfl, hcontents, hcount⟩

theorem readLine_error (st : Loop) (h : none ∈ readPiece host p) : ∃ m, readLine host path p st = .error m := by
  unfold readPiece at h
  unfold readLine
  by_cases hskip : skips p
  · rw [if_pos hskip] at h
    cases h
  · rw [if_neg hskip, List.mem_singleton] at h
    rw [if_neg hskip, Option.map_eq_none_iff.mp h.symm]
    exact ⟨_, rfl⟩

/-- What all pieces of a text contribute. -/
def readings (host : Host) (s : Text) : List (Option Word) :=
  (pieces (lineSize - 1) s).flatMap (readPiece host)

theorem readLines_ok (st : Loop) (hm : host.Ample n) {k : Nat} (hk : s.length ≤ k) (h : readings host s = ws.map some)
    (hn : st.buf.count + ws.length ≤ n) : ∃ st', readLines host path k s st = .ok st' ∧
      st'.buf.contents = st.buf.contents ++ ws := by
  induction k generalizing s st ws with
  | zero =>
    rw [List.eq_nil_of_length_eq_zero (Nat.le_zero.mp hk)] at h
    rw [List.map_eq_nil_iff.mp h.symm]
    exact ⟨st, rfl, (List.append_nil _).symm⟩
  | succ k ih =>
    cases s with
    | nil =>
      rw [List.map_eq_nil_iff.mp h.symm]
      exact ⟨st, rfl, (List.append_nil _).symm⟩
    | cons c s =>
      have hrest := CText.fgets_rest_length (show 0 < lineSize - 1 by decide) c s
      rw [List.length_cons] at hk
      rw [readings, CText.pieces_cons (by decide), List.flatMap_cons] at h
      obtain ⟨vs, us, rfl, hvs, hus⟩ := List.append_eq_map_iff.mp h
      rw [List.length_append] at hn
      have hfirst : st.buf.count + vs.length ≤ n := by omega
      obtain ⟨st₁, hline, hcontents, hcount⟩ := readLine_ok path hm hvs.symm hfirst
      have hroom : st₁.buf.count + us.length ≤ n := by omega
      obtain ⟨st₂, hlines, hall⟩ := ih st₁ (by omega) hus.symm hroom
      refine ⟨st₂, ?_, ?_⟩
      · simp only [readLines, hline, bind, Except.bind]
        exact hlines
      · rw [hall, hcontents, List.append_assoc]

theorem readLines_error (st : Loop) {k : Nat} (hk : s.length ≤ k) (h : none ∈ readings host s) :
    ∃ m, readLines host path k s st = .error m := by
  induction k generalizing s st with
  | zero =>
    rw [List.eq_nil_of_length_eq_zero (Nat.le_zero.mp hk)] at h
    cases h
  | succ k ih =>
    cases s with
    | nil => cases h
    | cons c s =>
      have hrest := CText.fgets_rest_length (show 0 < lineSize - 1 by decide) c s
      rw [List.length_cons] at hk
      rw [readings, CText.pieces_cons (by decide), List.flatMap_cons, List.mem_append] at h
      cases hline : readLine host path (CText.fgets (lineSize - 1) (c :: s)).1 st with
      | error m =>
        simp only [readLines, hline, bind, Except.bind]
        exact ⟨m, rfl⟩
      | ok st₁ =>
        simp only [readLines, hline, bind, Except.bind]
        rcases h with hnow | hlater
        · obtain ⟨m, herror⟩ := readLine_error path st hnow
          rw [herror] at hline
          cases hline
        · exact ih st₁ (by omega) hlater

end

/-! ## One piece -/

variable {a b r tok : Text} {c : Char}

/-- A character that is neither white space nor the end of what is read. -/
def Solid (c : Char) : Prop := isspace c = false ∧ c ≠ '#' ∧ c ≠ '\x00'

theorem isBlank_isspace (hc : isBlank c) : isspace c := by
  simp only [isBlank, Bool.or_eq_true, beq_iff_eq] at hc
  rcases hc with rfl | rfl <;> decide

theorem isspace_read (hc : isspace c) : c ≠ '#' ∧ c ≠ '\x00' := by
  constructor
  · rintro rfl
    exact absurd hc (by decide)
  · rintro rfl
    exact absurd hc (by decide)

theorem solid_not_blank (hc : Solid c) : isBlank c = false := by
  rw [← Bool.not_eq_true]
  intro hb
  have hspace := isBlank_isspace hb
  rw [hc.1] at hspace
  cases hspace

theorem solid_number {k : Nat} (h : HexNumber tok k) : ∀ c ∈ tok, Solid c := by
  have hdigit {c : Char} (hc : CText.isxdigit c) : Solid c := by
    refine ⟨CText.isxdigit_not_space hc, ?_, ?_⟩
    · rintro rfl
      exact absurd hc (by decide)
    · rintro rfl
      exact absurd hc (by decide)
  cases h with
  | plain hne hall => exact fun c hc ↦ hdigit (hall c hc)
  | prefixed hx hne hall =>
    rw [List.forall_mem_cons, List.forall_mem_cons]
    refine ⟨⟨by decide, by decide, by decide⟩, ?_, fun c hc ↦ hdigit (hall c hc)⟩
    rcases hx with rfl | rfl
    · exact ⟨by decide, by decide, by decide⟩
    · exact ⟨by decide, by decide, by decide⟩

/-- The part of a piece that the tool looks at. -/
def cut (p : Text) : Text := CText.cutAtChar '#' (CText.cString p)

theorem cut_cons (h1 : c ≠ '#') (h0 : c ≠ '\x00') (s : Text) : cut (c :: s) = c :: cut s := by
  unfold cut CText.cutAtChar CText.cString
  rw [List.takeWhile_cons_of_pos (by simpa using h0), List.takeWhile_cons_of_pos (by simpa using h1)]

theorem cut_append (ha : ∀ c ∈ a, c ≠ '#' ∧ c ≠ '\x00') (s : Text) : cut (a ++ s) = a ++ cut s := by
  induction a with
  | nil => rfl
  | cons c a ih =>
    rw [List.forall_mem_cons] at ha
    rw [List.cons_append, cut_cons ha.1.1 ha.1.2, ih ha.2]
    rfl

-- Leading blanks are white space that `%x` skips anyway.
theorem scanHex_trim (bare : Bool) (p : Text) : CText.scanHex bare (trim p) = CText.scanHex bare (cut p) := by
  have hdrop (s : Text) : (s.dropWhile isBlank).dropWhile isspace = s.dropWhile isspace := by
    induction s with
    | nil => rfl
    | cons c s ih =>
      by_cases hc : isBlank c
      · rw [List.dropWhile_cons_of_pos hc, List.dropWhile_cons_of_pos (isBlank_isspace hc), ih]
      · rw [List.dropWhile_cons_of_neg hc]
  show CText.scanHex bare ((cut p).dropWhile isBlank) = _
  unfold CText.scanHex
  rw [hdrop]

theorem skips_blank (hc : isBlank c) (s : Text) : skips (c :: s) = skips s := by
  have hread := isspace_read (isBlank_isspace hc)
  have htrim : trim (c :: s) = trim s := by
    show (cut (c :: s)).dropWhile isBlank = _
    rw [cut_cons hread.1 hread.2, List.dropWhile_cons_of_pos hc]
    rfl
  rw [skips, htrim]
  rfl

theorem skips_cons (h1 : c ≠ '#') (h0 : c ≠ '\x00') (hc : isBlank c = false) (s : Text) :
    skips (c :: s) = (c == '\n') := by
  have htrim : trim (c :: s) = c :: cut s := by
    show (cut (c :: s)).dropWhile isBlank = _
    rw [cut_cons h1 h0, List.dropWhile_cons_of_neg (by simp [hc])]
  rw [skips, htrim]

-- A piece is not skipped if something solid comes before its newline.
theorem skips_solid (ha : ∀ c ∈ a, isspace c) (hn : '\n' ∉ a) (hc : Solid c) (s : Text) :
    skips (a ++ c :: s) = false := by
  induction a with
  | nil =>
    rw [List.nil_append, skips_cons hc.2.1 hc.2.2 (solid_not_blank hc), beq_eq_false_iff_ne]
    rintro rfl
    exact absurd hc.1 (by decide)
  | cons d a ih =>
    rw [List.forall_mem_cons] at ha
    rw [List.mem_cons, not_or] at hn
    by_cases hb : isBlank d
    · rw [List.cons_append, skips_blank hb, ih ha.2 hn.2]
    · have hread := isspace_read ha.1
      rw [List.cons_append, skips_cons hread.1 hread.2 (by simpa using hb)]
      exact beq_eq_false_iff_ne.mpr (Ne.symm hn.1)

theorem readPiece_of_skips (h : skips p) : readPiece host p = [] := if_pos h

theorem lookedAt_cons (p : Text) (ps : List Text) :
    lookedAt (p :: ps) = (if skips p then 0 else 1) + lookedAt ps := by
  unfold lookedAt
  rw [List.countP_cons, Nat.add_comm]
  cases skips p <;> rfl

theorem length_readPiece (host : Host) (p : Text) : (readPiece host p).length = if skips p then 0 else 1 := by
  unfold readPiece
  split <;> rfl

theorem length_readings (host : Host) (ps : List Text) :
    (ps.flatMap (readPiece host)).length = lookedAt ps := by
  induction ps with
  | nil => rfl
  | cons p ps ih =>
    rw [List.flatMap_cons, List.length_append, length_readPiece, ih, lookedAt_cons]

-- The newline at the end of a piece does not matter.
theorem readPiece_newline (hp : '\n' ∉ p) : readPiece host (p ++ ['\n']) = readPiece host p := by
  have hskips : skips (p ++ ['\n']) = skips p := by
    induction p with
    | nil => decide
    | cons c p ih =>
      rw [List.mem_cons, not_or] at hp
      by_cases hb : isBlank c
      · rw [List.cons_append, skips_blank hb, skips_blank hb, ih hp.2]
      · by_cases hend : c = '#' ∨ c = '\x00'
        · rcases hend with rfl | rfl <;> rfl
        · rw [not_or] at hend
          rw [List.cons_append, skips_cons hend.1 hend.2 (by simpa using hb),
            skips_cons hend.1 hend.2 (by simpa using hb)]
  have hcut : cut (p ++ ['\n']) = cut p ∨ cut (p ++ ['\n']) = cut p ++ ['\n'] := by
    clear hp hskips
    induction p with
    | nil => exact .inr rfl
    | cons c p ih =>
      by_cases hend : c = '#' ∨ c = '\x00'
      · rcases hend with rfl | rfl
        · exact .inl rfl
        · exact .inl rfl
      · rw [not_or] at hend
        rw [List.cons_append, cut_cons hend.1 hend.2, cut_cons hend.1 hend.2]
        exact ih.imp (congrArg (c :: ·)) (congrArg (c :: ·))
  have hscan : CText.scanHex host.bare (trim (p ++ ['\n'])) = CText.scanHex host.bare (trim p) := by
    rw [scanHex_trim, scanHex_trim]
    rcases hcut with h | h
    · rw [h]
    · rw [h, CText.scanHex_append_space _ _ (by decide)]
  rw [readPiece, readPiece, hskips, hscan]

/-! ## The pieces of a line -/

variable {ps : List Text}

-- White space and then the end of what is read: nothing of it is a digit.
theorem cut_head {t q : Text} (hb : ∀ c ∈ b, isspace c) (hr : r = [] ∨ ∃ r', r = '#' :: r')
    (h : b ++ r = t ++ q) : ∀ c, (cut t).head? = some c → isspace c := by
  intro c hc
  cases t with
  | nil => cases hc
  | cons d t =>
    cases b with
    | nil =>
      rcases hr with rfl | ⟨r', rfl⟩
      · cases h
      · cases h
        cases hc
    | cons e b =>
      rw [List.forall_mem_cons] at hb
      injection h with hde _
      subst hde
      have hread := isspace_read hb.1
      rw [cut_cons hread.1 hread.2] at hc
      cases hc
      exact hb.1

-- A piece with the whole number in it.
theorem readPiece_number (host : Host) {t q : Text} {k : Nat} (ha : ∀ c ∈ a, isspace c) (hn : '\n' ∉ a)
    (htok : HexNumber tok k) (hb : ∀ c ∈ b, isspace c) (hr : r = [] ∨ ∃ r', r = '#' :: r')
    (h : b ++ r = t ++ q) :
    readPiece host (a ++ (tok ++ t)) = [some (stored host (false, k))] := by
  obtain ⟨c, u, rfl, hc⟩ := htok.head
  have hsolid := solid_number htok
  have hskip : skips (a ++ (c :: u ++ t)) = false := skips_solid ha hn (hsolid c List.mem_cons_self) _
  have hcut : cut (a ++ (c :: u ++ t)) = a ++ (c :: u ++ cut t) := by
    rw [cut_append (fun d hd ↦ isspace_read (ha d hd)), cut_append fun d hd ↦ (hsolid d hd).2]
  have hscan := CText.scanHex_number ha htok (cut_head hb hr h) host.bare
  rw [readPiece, hskip, if_neg Bool.false_ne_true, scanHex_trim, hcut, hscan]
  rfl

theorem lookedAt_pos (hne : ∀ p ∈ ps, p ≠ []) (hc : Solid c) (h : ps.flatten = c :: s) : 0 < lookedAt ps := by
  cases ps with
  | nil => cases h
  | cons p ps =>
    obtain ⟨d, q, rfl⟩ := List.exists_cons_of_ne_nil (hne p List.mem_cons_self)
    rw [List.flatten_cons, List.cons_append] at h
    injection h with hdc _
    subst hdc
    have hskip : skips ([] ++ d :: q) = false := skips_solid (by simp) List.not_mem_nil hc q
    rw [List.nil_append] at hskip
    rw [lookedAt_cons, hskip]
    exact Nat.lt_add_right _ Nat.one_pos

/-- Some piece is not skipped, and if it is only one, a number is read. -/
def ReadsNumber (host : Host) (ps : List Text) (k : Nat) : Prop :=
  0 < lookedAt ps ∧ (lookedAt ps = 1 → ps.flatMap (readPiece host) = [some (stored host (false, k))])

theorem ReadsNumber.cons {k : Nat} (h : ReadsNumber host ps k) (p : Text) : ReadsNumber host (p :: ps) k := by
  obtain ⟨hpos, hone⟩ := h
  unfold ReadsNumber
  rw [lookedAt_cons, List.flatMap_cons]
  refine ⟨Nat.lt_add_left _ hpos, fun h1 ↦ ?_⟩
  by_cases hskip : skips p
  · rw [if_pos hskip, Nat.zero_add] at h1
    rw [readPiece_of_skips hskip, hone h1]
    rfl
  · rw [if_neg hskip] at h1
    omega

-- The number starts in this piece, with the character `d`.
theorem readsNumber_here {d : Char} {t : Text} {k : Nat} (hne : ∀ q ∈ ps, q ≠ []) (ha : ∀ c ∈ a, isspace c)
    (hn : '\n' ∉ a) (htok : HexNumber tok k) (hb : ∀ c ∈ b, isspace c) (hr : r = [] ∨ ∃ r', r = '#' :: r')
    (hd : d ∈ tok) (h : tok ++ (b ++ r) = d :: t ++ ps.flatten) : ReadsNumber host ((a ++ d :: t) :: ps) k := by
  have hsolid := solid_number htok
  have hskip : skips (a ++ d :: t) = false := skips_solid ha hn (hsolid d hd) t
  unfold ReadsNumber
  rw [lookedAt_cons, hskip, if_neg Bool.false_ne_true, List.flatMap_cons]
  refine ⟨Nat.lt_add_right _ Nat.one_pos, fun h1 ↦ ?_⟩
  have hothers : lookedAt ps = 0 := by omega
  have hnone : ps.flatMap (readPiece host) = [] := by
    rw [← List.length_eq_zero_iff, length_readings, hothers]
  rw [hnone, List.append_nil]
  have hwhole (t' : Text) (ht : d :: t = tok ++ t') (hb' : b ++ r = t' ++ ps.flatten) :
      readPiece host (a ++ d :: t) = [some (stored host (false, k))] := by
    rw [ht]
    exact readPiece_number host ha hn htok hb hr hb'
  rcases List.append_eq_append_iff.mp h with ⟨t', ht, hb'⟩ | ⟨t', ht, hb'⟩
  · exact hwhole t' ht hb'
  · cases t' with
    | nil => exact hwhole [] (by rw [ht, List.append_nil, List.append_nil]) hb'.symm
    | cons e t' =>
      -- the rest of the number would be looked at too
      have he : Solid e := hsolid e (by rw [ht]; simp)
      have hpos := lookedAt_pos hne he hb'
      omega

theorem readsNumber_pieces {k : Nat} (hne : ∀ p ∈ ps, p ≠ []) (ha : ∀ c ∈ a, isspace c) (hn : '\n' ∉ a)
    (htok : HexNumber tok k) (hb : ∀ c ∈ b, isspace c) (hr : r = [] ∨ ∃ r', r = '#' :: r')
    (h : ps.flatten = a ++ (tok ++ (b ++ r))) : ReadsNumber host ps k := by
  obtain ⟨c, u, htok', hc⟩ := htok.head
  induction ps generalizing a with
  | nil =>
    rw [htok'] at h
    exact absurd h.symm (by simp)
  | cons p ps ih =>
    rw [List.forall_mem_cons] at hne
    rw [List.flatten_cons] at h
    have hlater (a' : Text) (hpa : a = p ++ a') (hrest : ps.flatten = a' ++ (tok ++ (b ++ r))) :
        ReadsNumber host (p :: ps) k := by
      rw [hpa] at ha hn
      have hread := ih hne.2 (fun d hd ↦ ha d (List.mem_append_right p hd)) (mt (List.mem_append_right p) hn) hrest
      exact hread.cons p
    rcases List.append_eq_append_iff.mp h with ⟨a', hpa, hrest⟩ | ⟨t, hp, hrest⟩
    · exact hlater a' hpa hrest
    · cases t with
      | nil => exact hlater [] (by rw [hp, List.append_nil, List.append_nil]) hrest.symm
      | cons d t =>
        have hd : d ∈ tok := by
          rw [htok'] at hrest ⊢
          injection hrest with hcd _
          rw [← hcd]
          exact List.mem_cons_self
        rw [hp]
        exact readsNumber_here hne.2 ha hn htok hb hr hd hrest

/-! ## A line -/

/-- What a line contributes. -/
def lineReadings (host : Host) (l : Text) : List (Option Word) := (filePieces l).flatMap (readPiece host)

theorem readings_lines (host : Host) (s : Text) :
    readings host s = (s.splitOn '\n').flatMap (lineReadings host) :=
  CText.flatMap_pieces (by decide) rfl (fun _ hp ↦ readPiece_newline hp) s

theorem flatten_filePieces (l : Text) : (filePieces l).flatten = l ++ ['\n'] :=
  CText.pieces_flatten (by decide) _

theorem beforeHash_append (l : Text) : ∃ r, beforeHash l ++ r = l ∧ (r = [] ∨ ∃ r', r = '#' :: r') := by
  refine ⟨l.dropWhile (· ≠ '#'), List.takeWhile_append_dropWhile, ?_⟩
  cases hr : l.dropWhile (· ≠ '#') with
  | nil => exact .inl rfl
  | cons c r' =>
    have hc := List.head?_dropWhile_not (· ≠ '#') l
    rw [hr] at hc
    exact .inr ⟨r', by simpa using hc⟩

theorem stored_small (host : Host) {k : Nat} (hk : k < 2 ^ 32) : stored host (false, k) = BitVec.ofNat 32 k := if_pos hk

theorem HasWord.reads (h : HasWord l w) (host : Host) (hl : '\n' ∉ l) : 0 < lookedAt (filePieces l) ∧
    (lookedAt (filePieces l) = 1 → lineReadings host l = [some w]) := by
  obtain ⟨a, tok, b, k, hbefore, ha, hb, htok, hk, rfl⟩ := h
  obtain ⟨r, hlr, hr⟩ := beforeHash_append l
  rw [hbefore] at hlr
  have hn : '\n' ∉ a := by
    intro hmem
    rw [← hlr] at hl
    exact hl (List.mem_append_left r (List.mem_append_left _ hmem))
  have hne : ∀ p ∈ filePieces l, p ≠ [] := fun _ hp ↦ CText.pieces_ne_nil (by decide) hp
  have hflat := flatten_filePieces l
  rw [← stored_small host hk]
  rcases hr with rfl | ⟨r', rfl⟩
  · -- the newline belongs to the white space behind the word
    have hb' : ∀ c ∈ b ++ ['\n'], isspace c := by
      rw [List.forall_mem_append, List.forall_mem_singleton]
      exact ⟨hb, by decide⟩
    refine readsNumber_pieces hne ha hn htok hb' (.inl rfl) ?_
    rw [hflat, ← hlr]
    simp
  · refine readsNumber_pieces hne ha hn htok hb (.inr ⟨r' ++ ['\n'], rfl⟩) ?_
    rw [hflat, ← hlr]
    simp

theorem BlankLine.no_word (h : BlankLine l) : ¬ HasWord l w := by
  rintro ⟨a, tok, b, k, hbefore, -, -, htok, -, -⟩
  obtain ⟨c, u, rfl, -⟩ := htok.head
  have hblank := h c (by rw [hbefore]; simp)
  rw [solid_not_blank (solid_number htok c List.mem_cons_self)] at hblank
  cases hblank

theorem lineReadings_skipped (h : ∀ p ∈ filePieces l, skips p) : lineReadings host l = [] :=
  List.flatMap_eq_nil_iff.mpr fun p hp ↦ readPiece_of_skips (h p hp)

theorem skipped_of_lookedAt (h : lookedAt ps = 0) : ∀ p ∈ ps, skips p := by
  intro p hp
  simpa using List.countP_eq_zero.mp h p hp

theorem length_lineReadings (host : Host) (l : Text) : (lineReadings host l).length = lookedAt (filePieces l) :=
  length_readings host _

/-! ## A text -/

variable {ls : List Text}

theorem readings_tidy (htidy : ∀ l ∈ ls, Tidy l) (hls : ∀ l ∈ ls, '\n' ∉ l) (h : Contributes ls ws) :
    ls.flatMap (lineReadings host) = ws.map some := by
  induction h with
  | done => rfl
  | blank hl h ih =>
    rw [List.forall_mem_cons] at htidy hls
    rw [List.flatMap_cons, ih htidy.2 hls.2]
    cases htidy.1 with
    | blank _ hskip => rw [lineReadings_skipped hskip, List.nil_append]
    | word w hw _ => exact absurd hw hl.no_word
  | word hl h ih =>
    rw [List.forall_mem_cons] at htidy hls
    rw [List.flatMap_cons, ih htidy.2 hls.2]
    cases htidy.1 with
    | blank hb _ => exact absurd hl hb.no_word
    | word _ _ hone =>
      rw [(hl.reads host hls.1).2 hone]
      rfl

-- A text contributes at least as many readings as words, and not more only if its lines are tidy.
theorem tidy_of_length (host : Host) (hls : ∀ l ∈ ls, '\n' ∉ l) (h : Contributes ls ws) :
    ws.length ≤ (ls.flatMap (lineReadings host)).length ∧
      ((ls.flatMap (lineReadings host)).length = ws.length → ∀ l ∈ ls, Tidy l) := by
  induction h with
  | done => exact ⟨Nat.le_refl _, fun _ ↦ by simp⟩
  | blank hl h ih =>
    rw [List.forall_mem_cons] at hls
    obtain ⟨hle, htidy⟩ := ih hls.2
    rw [List.flatMap_cons, List.length_append, length_lineReadings]
    refine ⟨Nat.le_add_left_of_le hle, fun heq ↦ ?_⟩
    rw [List.forall_mem_cons]
    exact ⟨.blank hl (skipped_of_lookedAt (by omega)), htidy (by omega)⟩
  | word hl h ih =>
    rw [List.forall_mem_cons] at hls
    obtain ⟨hle, htidy⟩ := ih hls.2
    have hpos := (hl.reads host hls.1).1
    rw [List.flatMap_cons, List.length_append, length_lineReadings, List.length_cons]
    refine ⟨by omega, fun heq ↦ ?_⟩
    rw [List.forall_mem_cons]
    exact ⟨.word _ hl (by omega), htidy (by omega)⟩

theorem contributes_of_wellFormed (h : ∀ l ∈ ls, WellFormed l) : ∃ ws, Contributes ls ws := by
  induction ls with
  | nil => exact ⟨[], .done⟩
  | cons l ls ih =>
    rw [List.forall_mem_cons] at h
    obtain ⟨ws, hws⟩ := ih h.2
    rcases h.1 with hl | ⟨w, hl⟩
    · exact ⟨ws, .blank hl hws⟩
    · exact ⟨w :: ws, .word hl hws⟩

theorem Contributes.wellFormed (h : Contributes ls ws) : ∀ l ∈ ls, WellFormed l := by
  induction h with
  | done => simp
  | blank hl _ ih => exact List.forall_mem_cons.mpr ⟨.inl hl, ih⟩
  | word hl _ ih => exact List.forall_mem_cons.mpr ⟨.inr ⟨_, hl⟩, ih⟩

theorem Tidy.wellFormed (h : Tidy l) : WellFormed l := by
  cases h with
  | blank hl _ => exact .inl hl
  | word w hl _ => exact .inr ⟨w, hl⟩

theorem none_mem_readPiece : none ∈ readPiece host p ↔ Unreadable host p := by
  unfold readPiece Unreadable
  by_cases hskip : skips p
  · simp [hskip]
  · rw [if_neg hskip, List.mem_singleton, eq_comm, Option.map_eq_none_iff]
    simp [hskip]

theorem none_mem_readings (host : Host) (s : Text) :
    none ∈ readings host s ↔ ∃ l ∈ s.splitOn '\n', ∃ p ∈ filePieces l, Unreadable host p := by
  rw [readings_lines]
  simp only [List.mem_flatMap, lineReadings, none_mem_readPiece]

theorem readings_some (h : none ∉ readings host s) : ∃ ws : List Word, readings host s = ws.map some := by
  have hrange : readings host s ∈ Set.range (List.map (some : Word → Option Word)) := by
    rw [Set.range_list_map]
    intro o ho
    cases o with
    | none => exact absurd ho h
    | some w => exact ⟨w, rfl⟩
  obtain ⟨ws, hws⟩ := hrange
  exact ⟨ws, hws.symm⟩

theorem length_readings_le (host : Host) (s : Text) : (readings host s).length ≤ s.length := by
  have hcount : lookedAt (pieces (lineSize - 1) s) ≤ (pieces (lineSize - 1) s).length := List.countP_le_length
  have hpieces := CText.length_pieces_le (lineSize - 1) s
  rw [readings, length_readings]
  omega

/-- What the tool reads from a text is what its pieces contribute. -/
theorem readWords_eq_ok (host : Host) (path : String) (text : Text) (hm : host.Ample text.length) (ws : List Word) :
    readWords host path text = .ok ws ↔ readings host text = ws.map some := by
  have hread (ws : List Word) (h : readings host text = ws.map some) : readWords host path text = .ok ws := by
    have hlen := length_readings_le host text
    rw [h, List.length_map] at hlen
    obtain ⟨st, hst, hcontents⟩ :=
      readLines_ok path ⟨.empty, 0, 0⟩ hm (Nat.le_refl _) h (by simpa [WordBuffer.empty] using hlen)
    unfold readWords readHex
    rw [hst]
    show Except.ok st.buf.contents = _
    rw [hcontents]
    rfl
  refine ⟨fun hok ↦ ?_, hread ws⟩
  by_cases hnone : none ∈ readings host text
  · obtain ⟨m, herror⟩ := readLines_error path ⟨.empty, 0, 0⟩ (Nat.le_refl _) hnone
    rw [readWords, readHex, herror] at hok
    cases hok
  · obtain ⟨ws', hws'⟩ := readings_some hnone
    rw [hread ws' hws'] at hok
    cases hok
    exact hws'

/-- A text is read line by line exactly if all of its lines are tidy, or if the tool has to fail and finds a
piece that is unreadable. -/
theorem readsLines_iff (host : Host) (path : String) (text : Text) (hm : host.Ample text.length) :
    ReadsLines host path text ↔
      (∀ l ∈ text.splitOn '\n', Tidy l) ∨ FailsAnyway host (text.splitOn '\n') := by
  have hls : ∀ l ∈ text.splitOn '\n', '\n' ∉ l := GoText.not_mem_splitOn '\n' text
  constructor
  · intro h
    by_cases hwell : ∀ l ∈ text.splitOn '\n', WellFormed l
    · obtain ⟨ws, hws⟩ := contributes_of_wellFormed hwell
      have hread := (readWords_eq_ok host path text hm ws).mp ((h ws).mpr hws)
      rw [readings_lines] at hread
      exact .inl ((tidy_of_length host hls hws).2 (by rw [hread, List.length_map]))
    · rw [not_forall₂] at hwell
      obtain ⟨l, hl, hbad⟩ := hwell
      have hnone : none ∈ readings host text := by
        by_contra hsome
        obtain ⟨ws, hws⟩ := readings_some hsome
        exact hbad (((h ws).mp ((readWords_eq_ok host path text hm ws).mpr hws)).wellFormed l hl)
      exact .inr ⟨⟨l, hl, hbad⟩, (none_mem_readings host text).mp hnone⟩
  · rintro (htidy | ⟨⟨l, hl, hbad⟩, hnone⟩) ws
    · rw [readWords_eq_ok host path text hm]
      obtain ⟨ws', hws'⟩ := contributes_of_wellFormed fun l hl ↦ (htidy l hl).wellFormed
      have hread (vs : List Word) (hvs : Contributes (text.splitOn '\n') vs) : readings host text = vs.map some := by
        rw [readings_lines]
        exact readings_tidy htidy hls hvs
      refine ⟨fun h ↦ ?_, hread ws⟩
      rw [hread ws' hws', List.map_inj_right (fun _ _ ↦ Option.some.inj)] at h
      rw [← h]
      exact hws'
    · refine ⟨fun h ↦ ?_, fun h ↦ absurd (h.wellFormed l hl) hbad⟩
      rw [← none_mem_readings host, (readWords_eq_ok host path text hm ws).mp h] at hnone
      simp at hnone

-- A word, a comment and an empty line.
theorem readsLines_short : ReadsLines (.ready "12 # 3\n\t# 4\n".toList) "program.hex" "12 # 3\n\t# 4\n".toList := by
  have hlines : "12 # 3\n\t# 4\n".toList.splitOn '\n' = ["12 # 3".toList, "\t# 4".toList, []] := by decide
  refine (readsLines_iff _ _ _ (fun _ _ ↦ rfl)).mpr (.inl ?_)
  have hdigits : ∀ c ∈ ['1', '2'], CText.isxdigit c := by
    rw [List.forall_mem_cons, List.forall_mem_singleton]
    decide
  have hspace : ∀ c ∈ [' '], isspace c := List.forall_mem_singleton.mpr (by decide)
  have hword : HasWord "12 # 3".toList 0x12 :=
    ⟨[], ['1', '2'], [' '], 0x12, by decide, by simp, hspace, .plain (by decide) hdigits, by decide, rfl⟩
  rw [hlines, List.forall_mem_cons, List.forall_mem_cons, List.forall_mem_singleton]
  refine ⟨.word _ hword (by decide), .blank ?_ (by decide), .blank ?_ (by decide)⟩
  · show ∀ c ∈ ['\t'], isBlank c
    exact List.forall_mem_singleton.mpr (by decide)
  · show ∀ c ∈ [], isBlank c
    simp

-- The tool takes the number at the head of a line, whatever follows it.
theorem reads_junk : ¬ ReadsLines (.ready "1g\n".toList) "program.hex" "1g\n".toList := by
  intro h
  have hread : readWords (.ready "1g\n".toList) "program.hex" "1g\n".toList = .ok [1] :=
    (readWords_eq_ok _ _ _ (fun _ _ ↦ rfl) _).mpr (by decide)
  have hlines : "1g\n".toList.splitOn '\n' = ["1g".toList, []] := by decide
  have hwell := ((h [1]).mp hread).wellFormed
  rw [hlines, List.forall_mem_cons] at hwell
  rcases hwell.1 with hblank | ⟨w, hword⟩
  · exact absurd (hblank 'g' (by decide)) (by decide)
  · obtain ⟨a, tok, b, k, hbefore, ha, hb, htok, -⟩ := hword
    have hmem : 'g' ∈ a ++ (tok ++ b) := by
      rw [← hbefore]
      decide
    rw [List.mem_append, List.mem_append] at hmem
    rcases hmem with hmem | hmem | hmem
    · exact absurd (ha _ hmem) (by decide)
    · cases htok with
      | plain _ hall => exact absurd (hall _ hmem) (by decide)
      | prefixed hx _ hall =>
        rw [List.mem_cons, List.mem_cons] at hmem
        rcases hmem with hmem | hmem | hmem
        · exact absurd hmem (by decide)
        · rw [← hmem] at hx
          exact absurd hx (by decide)
        · exact absurd (hall _ hmem) (by decide)
    · exact absurd (hb _ hmem) (by decide)

end Qhex

end QarCore
