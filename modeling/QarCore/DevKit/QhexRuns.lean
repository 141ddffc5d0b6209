import QarCore.DevKit.QhexLines

/-!
# Runs of qhex

From the arguments to the exit status, and what a run prints and writes for the words that it reads.
-/

namespace QarCore

namespace Qhex

open CText (Text)

/-- The hex file holds a text, there is memory for its words, and the binary can be written. -/
structure Host.Serves (host : Host) (text : Text) : Prop where
  file : host.hexFile = .ok text
  memory : host.Ample text.length
  opens : host.binError = none
  writes : ∀ i, host.writeError i = none

/-! ## The arguments -/

/-- The paths behind `--bin` among the arguments, and the other arguments. -/
inductive Names : List String → List String → List String → Prop
  | done : Names [] [] []
  | bin {path args bins paths} (h : Names args bins paths) : Names ("--bin" :: path :: args) (path :: bins) paths
  | file {arg args bins paths} (hne : arg ≠ "--bin") (h : Names args bins paths) :
      Names (arg :: args) bins (arg :: paths)

variable {host : Host} {text line : Text} {ws : List Word} {buf buf' : WordBuffer} {st st' : Loop} {opts : Options}
  {prog path : String} {args bins paths : List String} {report : Report}

theorem Names.of_bin (h : Names ("--bin" :: path :: args) bins paths) :
    ∃ bins', bins = path :: bins' ∧ Names args bins' paths := by
  cases h with
  | bin h => exact ⟨_, rfl, h⟩
  | file hne _ => exact absurd rfl hne

theorem Names.of_file {arg : String} (hne : arg ≠ "--bin") (h : Names (arg :: args) bins paths) :
    ∃ paths', paths = arg :: paths' ∧ Names args bins paths' := by
  cases h with
  | bin _ => exact absurd rfl hne
  | file _ h => exact ⟨_, rfl, h⟩

theorem getLast?_or (path : String) (bins : List String) (binOut : Option String) :
    (path :: bins).getLast?.or binOut = bins.getLast?.or (some path) := by
  rw [List.getLast?_cons]
  cases bins.getLast? <;> rfl

-- The loop over the arguments, with what it has read so far.
theorem parseArgs_iff (binOut hexPath : Option String) : parseArgs prog args binOut hexPath = .ok opts ↔
    ∃ bins paths, Names args bins paths ∧ hexPath.toList ++ paths = [opts.hexPath] ∧
      opts.binOut = bins.getLast?.or binOut := by
  induction args, binOut, hexPath using parseArgs.induct with
  | case1 binOut =>
    constructor
    · rintro ⟨⟩
    · rintro ⟨bins, paths, hnames, hone, -⟩
      cases hnames
      cases hone
  | case2 binOut hexPath =>
    constructor
    · rintro ⟨⟩
      exact ⟨[], [], .done, rfl, rfl⟩
    · rintro ⟨bins, paths, hnames, hone, hbin⟩
      cases hnames
      have hpath : hexPath = opts.hexPath := List.singleton_inj.mp hone
      have hout : opts.binOut = binOut := hbin
      rw [parseArgs, hpath, ← hout]
  | case3 binOut hexPath =>
    constructor
    · intro h
      rw [parseArgs.eq_def] at h
      cases (if_pos rfl).symm.trans h
    · rintro ⟨bins, paths, hnames, -, -⟩
      cases hnames with
      | file hne _ => exact absurd rfl hne
  | case4 binOut hexPath path args ih =>
    have hnext : parseArgs prog ("--bin" :: path :: args) binOut hexPath = parseArgs prog args (some path) hexPath := by
      rw [parseArgs.eq_def]
      exact if_pos rfl
    rw [hnext]
    refine ih.trans ⟨?_, ?_⟩
    · rintro ⟨bins, paths, hnames, hone, hbin⟩
      exact ⟨path :: bins, paths, hnames.bin, hone, hbin.trans (getLast?_or path bins binOut).symm⟩
    · rintro ⟨bins, paths, hnames, hone, hbin⟩
      obtain ⟨bins', rfl, hnames'⟩ := hnames.of_bin
      exact ⟨bins', paths, hnames', hone, hbin.trans (getLast?_or path bins' binOut)⟩
  | case5 arg args binOut hne hexPath =>
    have hstop : parseArgs prog (arg :: args) binOut (some hexPath) =
        .error ("qhex: multiple input files specified\n" ++ usage prog) := by
      rw [parseArgs.eq_def]
      exact if_neg hne
    rw [hstop]
    constructor
    · rintro ⟨⟩
    · rintro ⟨bins, paths, hnames, hone, -⟩
      obtain ⟨paths', rfl, -⟩ := hnames.of_file hne
      cases hone
  | case6 arg args binOut hne ih =>
    have hnext : parseArgs prog (arg :: args) binOut none = parseArgs prog args binOut (some arg) := by
      rw [parseArgs.eq_def]
      exact if_neg hne
    rw [hnext]
    refine ih.trans ⟨?_, ?_⟩
    · rintro ⟨bins, paths, hnames, hone, hbin⟩
      exact ⟨bins, arg :: paths, hnames.file hne, hone, hbin⟩
    · rintro ⟨bins, paths, hnames, hone, hbin⟩
      obtain ⟨paths', rfl, hnames'⟩ := hnames.of_file hne
      exact ⟨bins, paths', hnames', hone, hbin⟩

/-! ## The statistics -/

/-- The statistics of a list of words. -/
def statistics (hexPath : String) (ws : List Word) : String :=
  let count := ws.length
  let nonzero := ws.countP (· ≠ 0)
  let hex := String.ofList (Nat.toDigits 16 count)
  let counts := s!"qhex: {hexPath} contains {count} words (0x{hex}), {nonzero} non-zero\n"
  if count > 0 then
    let first := String.ofList (HexText.print 8 (ws.getD 0 0).toNat)
    let last := String.ofList (HexText.print 8 (ws.getD (count - 1) 0).toNat)
    counts ++ s!"qhex: word[0] = 0x{first}, word[last] = 0x{last}\n"
  else counts

/-- `nonzero` is the number of words in use that are not 0. -/
def Loop.Counts (st : Loop) : Prop := st.nonzero = st.buf.contents.countP (· ≠ 0)

theorem length_contents (buf : WordBuffer) : buf.contents.length = buf.count :=
  List.length_take_of_le buf.inside

theorem getD_contents (buf : WordBuffer) {i : Nat} (hi : i < buf.count) :
    buf.contents.getD i 0 = buf.words.getD i 0 := by
  rw [List.getD_eq_getElem?_getD, List.getD_eq_getElem?_getD, WordBuffer.contents, List.getElem?_take_of_lt hi]

theorem contents_appendWord {w : Word} (h : appendWord host buf w = some buf') :
    buf'.contents = buf.contents ++ [w] := by
  unfold appendWord at h
  split_ifs at h with hfull hgrant
  · cases h
    rw [contents_put, contents_grown]
  · cases h
    exact contents_put _ w

theorem Loop.Counts.readLine (hst : st.Counts) (h : readLine host path line st = .ok st') : st'.Counts := by
  unfold Qhex.readLine at h
  by_cases hskip : skips line
  · rw [if_pos hskip] at h
    cases h
    exact hst
  · rw [if_neg hskip] at h
    cases hscan : CText.scanHex host.bare (trim line) with
    | none =>
      rw [hscan] at h
      cases h
    | some number =>
      rw [hscan] at h
      cases happend : appendWord host st.buf (stored host number) with
      | none =>
        simp only [happend] at h
        cases h
      | some buf =>
        simp only [happend] at h
        cases h
        unfold Loop.Counts at hst ⊢
        rw [contents_appendWord happend, List.countP_append, List.countP_singleton, ← hst]
        split <;> simp_all

theorem Loop.Counts.readLines (hst : st.Counts) {n : Nat} (h : readLines host path n text st = .ok st') :
    st'.Counts := by
  induction n generalizing text st with
  | zero =>
    cases h
    exact hst
  | succ n ih =>
    cases text with
    | nil =>
      cases h
      exact hst
    | cons c s =>
      simp only [Qhex.readLines, bind, Except.bind] at h
      cases hline : Qhex.readLine host path (CText.fgets (lineSize - 1) (c :: s)).1 st with
      | error m =>
        rw [hline] at h
        cases h
      | ok st₁ =>
        rw [hline] at h
        exact ih (hst.readLine hline) h

theorem Loop.Counts.summary (hst : st.Counts) (path : String) :
    summary path st = statistics path st.buf.contents := by
  unfold Loop.Counts at hst
  simp only [Qhex.summary, statistics, length_contents, ← hst, gt_iff_lt]
  by_cases hpos : 0 < st.buf.count
  · rw [getD_contents _ hpos, getD_contents _ (Nat.sub_lt hpos Nat.one_pos)]
  · rw [if_neg hpos, if_neg hpos]

-- What the line loop leaves shows the statistics of the words that it has read.
theorem readHex_of_words (h : readWords host path text = .ok ws) : ∃ st, readHex host path text = .ok st ∧
    st.buf.contents = ws ∧ summary path st = statistics path ws := by
  unfold readWords at h
  cases hst : readHex host path text with
  | error m =>
    rw [hst] at h
    cases h
  | ok st =>
    rw [hst] at h
    cases h
    have hstart : Loop.Counts ⟨.empty, 0, 0⟩ := rfl
    have hcounts : st.Counts := hstart.readLines hst
    exact ⟨st, rfl, rfl, hcounts.summary path⟩

/-! ## The binary -/

theorem writeWords_ok (hw : ∀ i, host.writeError i = none) (path : String) (i : Nat) (ws : List Word) :
    writeWords host path i ws = .ok (ws.flatMap wordBytes) := by
  induction ws generalizing i with
  | nil => rfl
  | cons w ws ih =>
    simp only [writeWords, hw i, ih (i + 1), bind, Except.bind]
    rfl

/-- What a run prints and writes for the words of a file. -/
def reportOf (opts : Options) (ws : List Word) : Report :=
  match opts.binOut with
  | none => ⟨statistics opts.hexPath ws, none⟩
  | some path =>
    let size := ws.length * 4
    ⟨statistics opts.hexPath ws ++ s!"qhex: wrote {path} ({size} bytes)\n", some (ws.flatMap wordBytes)⟩

theorem run_ok (hs : host.Serves text) (h : readWords host opts.hexPath text = .ok ws) :
    run host opts = .ok (reportOf opts ws) := by
  obtain ⟨st, hst, hwords, hsummary⟩ := readHex_of_words h
  have hsize : st.buf.count = ws.length := by rw [← hwords, length_contents]
  unfold reportOf
  cases hbin : opts.binOut with
  | none =>
    simp only [run, hs.file, hst, hbin, hsummary, bind, Except.bind]
    rfl
  | some path =>
    have hbytes := writeWords_ok hs.writes path 0 ws
    simp only [run, hs.file, hst, hbin, hsummary, writeBinary, hs.opens, hwords, hbytes, hsize, bind, Except.bind]
    rfl

/-- The tool fails where its line loop does, and with the same message. -/
theorem run_error {m : String} (hfile : host.hexFile = .ok text)
    (h : readWords host opts.hexPath text = .error m) : run host opts = .error m := by
  unfold readWords at h
  cases hst : readHex host opts.hexPath text with
  | error m' =>
    rw [hst] at h
    cases h
    simp only [run, hfile, hst, bind, Except.bind]
  | ok st =>
    rw [hst] at h
    cases h

/-! ## The exit status -/

/-- A run ends with status 0 exactly if its arguments name one hex file and the words of the file can be
read; it prints and writes what belongs to these words. -/
theorem main_ok_iff (hs : host.Serves text) : main host prog args = .ok report ↔
    ∃ opts ws, parseArgs prog args none none = .ok opts ∧ readWords host opts.hexPath text = .ok ws ∧
      report = reportOf opts ws := by
  unfold main
  cases hparse : parseArgs prog args none none with
  | error m =>
    constructor
    · rintro ⟨⟩
    · rintro ⟨opts, ws, ⟨⟩, -⟩
  | ok opts =>
    show run host opts = .ok report ↔ _
    cases hread : readWords host opts.hexPath text with
    | error m =>
      rw [run_error hs.file hread]
      constructor
      · rintro ⟨⟩
      · rintro ⟨opts', ws, ⟨⟩, hok, -⟩
        rw [hread] at hok
        cases hok
    | ok ws =>
      rw [run_ok hs hread]
      constructor
      · rintro ⟨⟩
        exact ⟨opts, ws, rfl, hread, rfl⟩
      · rintro ⟨opts', ws', ⟨⟩, hok, hreport⟩
        rw [hread] at hok
        cases hok
        rw [hreport]

/-- On a text that is read line by line, the status is 0 exactly if there is one hex file among the arguments
and each of its lines is well formed. -/
theorem main_status_iff (hs : host.Serves text) (hreads : ∀ path, ReadsLines host path text) :
    (∃ report, main host prog args = .ok report) ↔
      (∃ bins path, Names args bins [path]) ∧ ∀ l ∈ text.splitOn '\n', WellFormed l := by
  constructor
  · rintro ⟨report, hmain⟩
    obtain ⟨opts, ws, hparse, hread, -⟩ := (main_ok_iff hs).mp hmain
    obtain ⟨bins, paths, hnames, hone, -⟩ := (parseArgs_iff none none).mp hparse
    have hpaths : paths = [opts.hexPath] := hone
    rw [hpaths] at hnames
    exact ⟨⟨bins, _, hnames⟩, ((hreads _ ws).mp hread).wellFormed⟩
  · rintro ⟨⟨bins, path, hnames⟩, hwell⟩
    obtain ⟨ws, hws⟩ := contributes_of_wellFormed hwell
    have hparse : parseArgs prog args none none = .ok ⟨path, bins.getLast?⟩ :=
      (parseArgs_iff none none).mpr ⟨bins, [path], hnames, rfl, Option.or_none.symm⟩
    exact ⟨_, (main_ok_iff hs).mpr ⟨_, ws, hparse, (hreads path ws).mpr hws, rfl⟩⟩

end Qhex

end QarCore
