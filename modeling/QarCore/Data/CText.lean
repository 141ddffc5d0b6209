import QarCore.Data.HexText

/-!
# Text functions of C

What `fgets`, `isspace` and the `%x` of `scanf` do to a text, in the locale "C", where a character is a
byte.  A line reader that is built on `fgets` sees the pieces of a line, as many characters at a time as
its buffer has room for.
-/

namespace CText

abbrev Text := List Char

/-! ## Characters and strings -/

def isspace (c : Char) : Bool :=
  let n := c.toNat
  n == 0x20 || (9 ≤ n && n ≤ 13)

def isxdigit (c : Char) : Bool :=
  let n := c.toNat
  ('0'.toNat ≤ n && n ≤ '9'.toNat) || ('A'.toNat ≤ n && n ≤ 'F'.toNat) || ('a'.toNat ≤ n && n ≤ 'f'.toNat)

/-- The string in a buffer, up to the terminating null character. -/
def cString (buffer : Text) : Text := buffer.takeWhile (· ≠ '\x00')

/-- A string after `*strchr(s, c) = '\0'`, if there is a `c` in it. -/
def cutAtChar (c : Char) (s : Text) : Text := s.takeWhile (· ≠ c)

/-! ## scanf -/

/-- The sign in front of a number, and what follows it. -/
def scanSign : Text → Bool × Text
  | '-' :: s => (true, s)
  | '+' :: s => (false, s)
  | s => (false, s)

def skipHexPrefix : Text → Text
  | '0' :: c :: s => if c = 'x' ∨ c = 'X' then s else '0' :: c :: s
  | s => s

def startsHexPrefix : Text → Bool
  | '0' :: c :: _ => c == 'x' || c == 'X'
  | _ => false

/-- `%x`: white space, a sign, the prefix `0x` and digits; the number is the sign with the magnitude.
A prefix without digits is none in the standard; `bare` is for libraries that take it as 0. -/
def scanHex (bare : Bool) (s : Text) : Option (Bool × Nat) :=
  let (negative, s) := scanSign (s.dropWhile isspace)
  let digits := (skipHexPrefix s).takeWhile isxdigit
  if digits = [] then if bare && startsHexPrefix s then some (negative, 0) else none
  else some (negative, HexText.read digits)

/-! ## fgets -/

/-- `fgets` into a buffer of `room + 1` characters: what it stores, and what is left of the text. -/
def fgets : Nat → Text → Text × Text
  | 0, s => ([], s)
  | _ + 1, [] => ([], [])
  | room + 1, c :: s => if c = '\n' then ([c], s) else (c :: (fgets room s).1, (fgets room s).2)

/-- What the first `n` calls of `fgets` store, up to the end of the text. -/
def fgetsUpTo (room : Nat) : Nat → Text → List Text
  | 0, _ => []
  | _ + 1, [] => []
  | n + 1, c :: s => (fgets room (c :: s)).1 :: fgetsUpTo room n (fgets room (c :: s)).2

/-- The pieces in which `fgets` delivers a text. -/
def pieces (room : Nat) (s : Text) : List Text := fgetsUpTo room s.length s

/-- The pieces in which it delivers one line. -/
def linePieces (room : Nat) (line : Text) : List Text := pieces room (line ++ ['\n'])

variable {room n m : Nat} {l s : Text} {c : Char}

/-! ## Pieces -/

theorem fgets_append (room : Nat) (s : Text) : (fgets room s).1 ++ (fgets room s).2 = s := by
  induction room generalizing s with
  | zero => rfl
  | succ room ih =>
    cases s with
    | nil => rfl
    | cons c s =>
      rw [fgets]
      split
      · rfl
      · exact congrArg (c :: ·) (ih s)

theorem fgets_ne_nil (hroom : 0 < room) (c : Char) (s : Text) : (fgets room (c :: s)).1 ≠ [] := by
  obtain ⟨room, rfl⟩ := Nat.exists_eq_succ_of_ne_zero (Nat.pos_iff_ne_zero.mp hroom)
  rw [fgets]
  split <;> exact List.cons_ne_nil _ _

theorem fgets_rest_length (hroom : 0 < room) (c : Char) (s : Text) :
    (fgets room (c :: s)).2.length ≤ s.length := by
  have hlen := congrArg List.length (fgets_append room (c :: s))
  have hpos := List.length_pos_iff.mpr (fgets_ne_nil hroom c s)
  rw [List.length_append, List.length_cons] at hlen
  omega

-- As many calls as there are characters are enough.
theorem fgetsUpTo_eq (hroom : 0 < room) (hn : s.length ≤ n) : fgetsUpTo room n s = pieces room s := by
  have henough (n m : Nat) (s : Text) (hn : s.length ≤ n) (hm : s.length ≤ m) :
      fgetsUpTo room n s = fgetsUpTo room m s := by
    induction n generalizing m s with
    | zero =>
      rw [List.eq_nil_of_length_eq_zero (Nat.le_zero.mp hn)]
      cases m <;> rfl
    | succ n ih =>
      cases s with
      | nil => cases m <;> rfl
      | cons c s =>
        cases m with
        | zero => cases hm
        | succ m =>
          have hrest := fgets_rest_length hroom c s
          rw [List.length_cons] at hn hm
          rw [fgetsUpTo, fgetsUpTo, ih m _ (by omega) (by omega)]
  exact henough n s.length s hn (Nat.le_refl _)

@[simp] theorem pieces_nil : pieces room [] = [] := rfl

theorem pieces_cons (hroom : 0 < room) (c : Char) (s : Text) :
    pieces room (c :: s) = (fgets room (c :: s)).1 :: pieces room (fgets room (c :: s)).2 := by
  show fgetsUpTo room (s.length + 1) (c :: s) = _
  rw [fgetsUpTo, fgetsUpTo_eq hroom (fgets_rest_length hroom c s)]

theorem pieces_of_ne_nil (hroom : 0 < room) (hs : s ≠ []) :
    pieces room s = (fgets room s).1 :: pieces room (fgets room s).2 := by
  obtain ⟨c, s, rfl⟩ := List.exists_cons_of_ne_nil hs
  exact pieces_cons hroom c s

theorem pieces_flatten (hroom : 0 < room) (s : Text) : (pieces room s).flatten = s := by
  induction hn : s.length using Nat.strong_induction_on generalizing s with
  | h n ih =>
    cases s with
    | nil => rfl
    | cons c s =>
      have hrest := fgets_rest_length hroom c s
      rw [List.length_cons] at hn
      rw [pieces_cons hroom, List.flatten_cons, ih _ (by omega) _ rfl, fgets_append]

theorem pieces_ne_nil (hroom : 0 < room) {p : Text} (hp : p ∈ pieces room s) : p ≠ [] := by
  induction hn : s.length using Nat.strong_induction_on generalizing s with
  | h n ih =>
    cases s with
    | nil => cases hp
    | cons c s =>
      have hrest := fgets_rest_length hroom c s
      rw [List.length_cons] at hn
      rw [pieces_cons hroom, List.mem_cons] at hp
      rcases hp with rfl | hp
      · exact fgets_ne_nil hroom c s
      · exact ih _ (by omega) hp rfl

theorem length_pieces_le (room : Nat) (s : Text) : (pieces room s).length ≤ s.length := by
  have hcalls (n : Nat) (s : Text) : (fgetsUpTo room n s).length ≤ n := by
    induction n generalizing s with
    | zero => exact Nat.le_refl 0
    | succ n ih =>
      cases s with
      | nil => exact Nat.zero_le _
      | cons c s => exact Nat.succ_le_succ (ih _)
  exact hcalls s.length s

/-! ## Lines -/

-- A line that fits is delivered with its newline.
theorem fgets_line (hl : '\n' ∉ l) (hfit : l.length < room) (s : Text) :
    fgets room (l ++ '\n' :: s) = (l ++ ['\n'], s) := by
  induction l generalizing room with
  | nil =>
    obtain ⟨room, rfl⟩ := Nat.exists_eq_succ_of_ne_zero (Nat.pos_iff_ne_zero.mp hfit)
    exact if_pos rfl
  | cons c l ih =>
    rw [List.mem_cons, not_or] at hl
    obtain ⟨room, rfl⟩ := Nat.exists_eq_succ_of_ne_zero (Nat.ne_zero_of_lt hfit)
    rw [List.length_cons] at hfit
    rw [List.cons_append, fgets, if_neg (Ne.symm hl.1), ih hl.2 (by omega)]
    rfl

theorem fgets_last (hl : '\n' ∉ l) (hfit : l.length ≤ room) : fgets room l = (l, []) := by
  induction l generalizing room with
  | nil => cases room <;> rfl
  | cons c l ih =>
    rw [List.mem_cons, not_or] at hl
    rw [List.length_cons] at hfit
    obtain ⟨room, rfl⟩ := Nat.exists_eq_succ_of_ne_zero (Nat.ne_zero_of_lt hfit)
    rw [fgets, if_neg (Ne.symm hl.1), ih hl.2 (by omega)]

-- The first piece of a line that does not.
theorem fgets_long (hl : '\n' ∉ l) (hlong : room ≤ l.length) (s : Text) :
    fgets room (l ++ s) = (l.take room, l.drop room ++ s) := by
  induction room generalizing l with
  | zero => rfl
  | succ room ih =>
    cases l with
    | nil => cases hlong
    | cons c l =>
      rw [List.mem_cons, not_or] at hl
      rw [List.length_cons] at hlong
      rw [List.cons_append, fgets, if_neg (Ne.symm hl.1), ih hl.2 (by omega)]
      rfl

theorem pieces_short (hl : '\n' ∉ l) (hfit : l.length < room) (s : Text) :
    pieces room (l ++ '\n' :: s) = (l ++ ['\n']) :: pieces room s := by
  have hne : l ++ '\n' :: s ≠ [] := by simp
  rw [pieces_of_ne_nil (Nat.zero_lt_of_lt hfit) hne, fgets_line hl hfit]

theorem pieces_long (hroom : 0 < room) (hl : '\n' ∉ l) (hlong : room ≤ l.length) (s : Text) :
    pieces room (l ++ s) = l.take room :: pieces room (l.drop room ++ s) := by
  have hne : l ++ s ≠ [] := by
    intro hnil
    rw [List.append_eq_nil_iff] at hnil
    rw [hnil.1] at hlong
    exact absurd hlong (Nat.not_le_of_lt hroom)
  rw [pieces_of_ne_nil hroom hne, fgets_long hl hlong]

theorem not_mem_drop (hl : '\n' ∉ l) (n : Nat) : '\n' ∉ l.drop n := mt List.mem_of_mem_drop hl

-- The pieces of a line do not depend on what follows it.
theorem pieces_line (hroom : 0 < room) (hl : '\n' ∉ l) (s : Text) :
    pieces room (l ++ '\n' :: s) = linePieces room l ++ pieces room s := by
  induction hn : l.length using Nat.strong_induction_on generalizing l with
  | h n ih =>
    unfold linePieces
    by_cases hfit : l.length < room
    · rw [pieces_short hl hfit, pieces_short hl hfit]
      rfl
    · have hless : (l.drop room).length < n := by
        rw [List.length_drop]
        omega
      have hdrop := ih _ hless (not_mem_drop hl room) rfl
      rw [pieces_long hroom hl (Nat.le_of_not_lt hfit), pieces_long hroom hl (Nat.le_of_not_lt hfit), hdrop]
      rfl

section

variable {α : Type*} {f : Text → List α}

-- What is read from pieces is the same whether the last line has its newline or not.
theorem flatMap_last (hroom : 0 < room) (hnl : f ['\n'] = [])
    (hf : ∀ p, '\n' ∉ p → f (p ++ ['\n']) = f p) (hl : '\n' ∉ l) :
    (pieces room l).flatMap f = (linePieces room l).flatMap f := by
  induction hn : l.length using Nat.strong_induction_on generalizing l with
  | h n ih =>
    unfold linePieces
    by_cases hfit : l.length < room
    · rw [pieces_short hl hfit, pieces_nil, List.flatMap_cons, hf l hl]
      by_cases h0 : l = []
      · rw [h0, pieces_nil, ← hf [] List.not_mem_nil]
        exact hnl.symm.trans (List.append_nil _).symm
      · rw [pieces_of_ne_nil hroom h0, fgets_last hl (Nat.le_of_lt hfit)]
        rfl
    · have hless : (l.drop room).length < n := by
        rw [List.length_drop]
        omega
      have hdrop := ih _ hless (not_mem_drop hl room) rfl
      have hlast := pieces_long hroom hl (Nat.le_of_not_lt hfit) []
      rw [List.append_nil, List.append_nil] at hlast
      rw [hlast, pieces_long hroom hl (Nat.le_of_not_lt hfit), List.flatMap_cons, hdrop]
      rfl

-- What is read from the pieces of a text, line by line.
theorem flatMap_pieces (hroom : 0 < room) (hnl : f ['\n'] = [])
    (hf : ∀ p, '\n' ∉ p → f (p ++ ['\n']) = f p) (s : Text) :
    (pieces room s).flatMap f = (s.splitOn '\n').flatMap fun l ↦ (linePieces room l).flatMap f := by
  induction hn : s.length using Nat.strong_induction_on generalizing s with
  | h n ih =>
    by_cases hs : '\n' ∈ s
    · obtain ⟨l, r, rfl, hl⟩ := List.eq_append_cons_of_mem hs
      have hless : r.length < n := by
        rw [← hn, List.length_append, List.length_cons]
        omega
      rw [pieces_line hroom hl, List.splitOn_append_cons_self_of_not_mem hl, List.flatMap_append,
        List.flatMap_cons, ih _ hless _ rfl]
    · rw [List.splitOn_eq_singleton hs, flatMap_last hroom hnl hf hs]
      exact (List.append_nil _).symm

end

/-! ## Numbers -/

/-- A text that is a hexadecimal number, with or without the prefix `0x`. -/
inductive HexNumber : Text → Nat → Prop
  | plain {digits} (hne : digits ≠ []) (hall : ∀ c ∈ digits, isxdigit c) :
      HexNumber digits (HexText.read digits)
  | prefixed {digits x} (hx : x = 'x' ∨ x = 'X') (hne : digits ≠ []) (hall : ∀ c ∈ digits, isxdigit c) :
      HexNumber ('0' :: x :: digits) (HexText.read digits)

theorem isxdigit_not_space (hc : isxdigit c) : isspace c = false := by
  simp only [isxdigit, isspace, Char.reduceToNat, Bool.or_eq_true, Bool.and_eq_true, decide_eq_true_eq,
    Bool.or_eq_false_iff, beq_eq_false_iff_ne, Bool.and_eq_false_iff, decide_eq_false_iff_not] at hc ⊢
  omega

theorem HexNumber.head (h : HexNumber s n) : ∃ c r, s = c :: r ∧ isxdigit c := by
  cases h with
  | plain hne hall =>
    obtain ⟨c, r, rfl⟩ := List.exists_cons_of_ne_nil hne
    exact ⟨c, r, rfl, hall c List.mem_cons_self⟩
  | prefixed hx hne hall => exact ⟨'0', _, rfl, by decide⟩

theorem scanSign_digit (hc : isxdigit c) (s : Text) : scanSign (c :: s) = (false, c :: s) := by
  unfold scanSign
  split
  · rename_i heq
    cases heq
    exact absurd hc (by decide)
  · rename_i heq
    cases heq
    exact absurd hc (by decide)
  · rfl

-- Digits end where white space or the text ends.
theorem takeWhile_digits {digits r : Text} (hall : ∀ c ∈ digits, isxdigit c)
    (hr : ∀ c, r.head? = some c → isspace c) : (digits ++ r).takeWhile isxdigit = digits := by
  rw [List.takeWhile_append_of_pos hall]
  cases r with
  | nil => exact List.append_nil _
  | cons c r =>
    have hstop : ¬ isxdigit c = true := by
      intro hc
      have hspace := hr c rfl
      rw [isxdigit_not_space hc] at hspace
      cases hspace
    rw [List.takeWhile_cons_of_neg hstop, List.append_nil]

theorem skipHexPrefix_digits {digits r : Text} (hne : digits ≠ []) (hall : ∀ c ∈ digits, isxdigit c)
    (hr : ∀ c, r.head? = some c → isspace c) : skipHexPrefix (digits ++ r) = digits ++ r := by
  unfold skipHexPrefix
  split
  · rename_i c s heq
    have hno : ¬ (c = 'x' ∨ c = 'X') := by
      -- the second character is a digit or white space
      have hsecond : isxdigit c ∨ isspace c := by
        match digits with
        | [] => exact absurd rfl hne
        | [d] =>
          injection heq with _ hr'
          exact .inr (hr c (by rw [show r = c :: s from hr']; rfl))
        | d :: e :: digits =>
          injection heq with _ htail
          injection htail with he _
          exact .inl (he ▸ hall e (by simp))
      rintro (rfl | rfl)
      · exact absurd hsecond (by decide)
      · exact absurd hsecond (by decide)
    rw [if_neg hno, heq]
  · rfl

-- A number with white space around it is read as what it is.
theorem scanHex_number {a r : Text} (ha : ∀ c ∈ a, isspace c) (h : HexNumber s n)
    (hr : ∀ c, r.head? = some c → isspace c) (bare : Bool) : scanHex bare (a ++ (s ++ r)) = some (false, n) := by
  obtain ⟨c, t, hs, hc⟩ := h.head
  have hspace : ¬ isspace c = true := by simp [isxdigit_not_space hc]
  have hdrop : (a ++ (s ++ r)).dropWhile isspace = s ++ r := by
    rw [List.dropWhile_append_of_pos ha, hs, List.cons_append, List.dropWhile_cons_of_neg hspace]
  have hsign : scanSign (s ++ r) = (false, s ++ r) := by
    rw [hs, List.cons_append, scanSign_digit hc]
  unfold scanHex
  rw [hdrop, hsign]
  cases h with
  | plain hne hall =>
    simp only [skipHexPrefix_digits hne hall hr, takeWhile_digits hall hr, if_neg hne]
  | @prefixed digits x hx hne hall =>
    have hskip : skipHexPrefix ('0' :: x :: digits ++ r) = digits ++ r := if_pos hx
    simp only [hskip, takeWhile_digits hall hr, if_neg hne]

theorem takeWhile_append_space (u : Text) (hc : isspace c) :
    (u ++ [c]).takeWhile isxdigit = u.takeWhile isxdigit := by
  have hstop : ¬ isxdigit c = true := by
    intro hd
    rw [isxdigit_not_space hd] at hc
    cases hc
  rw [List.takeWhile_append]
  split
  · rename_i hlen
    have hall : u.takeWhile isxdigit = u := (List.takeWhile_sublist _).eq_of_length hlen
    rw [List.takeWhile_cons_of_neg hstop, List.append_nil, hall]
  · rfl

theorem scanSign_append (d : Char) (u : Text) :
    scanSign (d :: u ++ [c]) = ((scanSign (d :: u)).1, (scanSign (d :: u)).2 ++ [c]) := by
  by_cases hminus : d = '-'
  · rw [hminus]
    rfl
  · by_cases hplus : d = '+'
    · rw [hplus]
      rfl
    · have hnone (v : Text) : scanSign (d :: v) = (false, d :: v) := by
        unfold scanSign
        split <;> simp_all
      rw [List.cons_append, hnone, hnone]
      rfl

theorem skipHexPrefix_append (u : Text) (hc : isspace c) : skipHexPrefix (u ++ [c]) = skipHexPrefix u ++ [c] := by
  have hno : ¬ (c = 'x' ∨ c = 'X') := by
    rintro (rfl | rfl)
    · exact absurd hc (by decide)
    · exact absurd hc (by decide)
  match u with
  | [] =>
    unfold skipHexPrefix
    split <;> simp_all
  | [d] =>
    by_cases h0 : d = '0'
    · rw [h0]
      exact if_neg hno
    · unfold skipHexPrefix
      split <;> simp_all
  | d :: e :: u =>
    by_cases h0 : d = '0'
    · rw [h0]
      show (if e = 'x' ∨ e = 'X' then u ++ [c] else '0' :: e :: (u ++ [c])) =
        (if e = 'x' ∨ e = 'X' then u else '0' :: e :: u) ++ [c]
      split <;> rfl
    · unfold skipHexPrefix
      split <;> simp_all

theorem startsHexPrefix_append (u : Text) (hc : isspace c) : startsHexPrefix (u ++ [c]) = startsHexPrefix u := by
  match u with
  | [] =>
    unfold startsHexPrefix
    split <;> simp_all
  | [d] =>
    by_cases h0 : d = '0'
    · rw [h0]
      show (c == 'x' || c == 'X') = false
      rw [Bool.or_eq_false_iff, beq_eq_false_iff_ne, beq_eq_false_iff_ne]
      constructor
      · rintro rfl
        exact absurd hc (by decide)
      · rintro rfl
        exact absurd hc (by decide)
    · unfold startsHexPrefix
      split <;> simp_all
  | d :: e :: u =>
    by_cases h0 : d = '0'
    · rw [h0]
      rfl
    · unfold startsHexPrefix
      split <;> simp_all

-- White space behind a text changes nothing.
theorem scanHex_append_space (bare : Bool) (s : Text) (hc : isspace c) :
    scanHex bare (s ++ [c]) = scanHex bare s := by
  have hdrop : (s ++ [c]).dropWhile isspace = if (s.dropWhile isspace).isEmpty then []
      else s.dropWhile isspace ++ [c] := by
    rw [List.dropWhile_append, List.dropWhile_cons_of_pos hc]
    rfl
  unfold scanHex
  rw [hdrop]
  cases hs : s.dropWhile isspace with
  | nil => rfl
  | cons d u =>
    rw [List.isEmpty_cons, if_neg Bool.false_ne_true, scanSign_append]
    simp only [skipHexPrefix_append _ hc, takeWhile_append_space _ hc, startsHexPrefix_append _ hc]

theorem isxdigit_digit : ∀ d < 16, isxdigit (HexText.digit d) := by decide

-- What is printed with `%0kx` is a number.
theorem hexNumber_print (k n : Nat) :
    HexNumber (HexText.print (k + 1) n) (n % 16 ^ (k + 1)) := by
  rw [← HexText.read_print]
  exact .plain (HexText.print_ne_nil k n) (HexText.forall_mem_print isxdigit_digit (k + 1) n)

end CText
