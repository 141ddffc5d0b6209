import QarCore.DevKit.Listing
import QarCore.Soc.Refinement

/-!
# Listings on the chip

From the lines of an assembly program down to the pipeline: a machine that executes one line at a time, next to
its peripherals, and the chip with the image of the program in its memory.
-/

namespace QarCore

universe u

open Assembler (Built Item Listing Stmt addrOf labelAddr listing programItems)
open Rv32i (Effect Hart)
open Soc (Decodes)

variable {M : Type u}

/-! ## The machine on the lines -/

/-- A line is executed with its effect. -/
def Machine.does (m : Machine M) (d : DataMem M) (i : Pins) (stmt : Stmt) (e : Effect) : Machine M where
  hart := m.hart.apply (m.platform d i) e stmt.rd
  mip := m.nextMip i e.csrWrite
  mtime := m.nextMtime e.csrWrite
  devices := m.devices.posedge (e.access.elim .idle busOfAccess) i.toDevicePins

/-- Nothing is executed, and the hart becomes `hart`. -/
def Machine.pauses (m : Machine M) (i : Pins) (hart : Hart Csr M) : Machine M where
  hart := hart
  mip := m.nextMip i none
  mtime := m.nextMtime none
  devices := m.devices.posedge .idle i.toDevicePins

/-- A turn of the machine: the line at the pc, an interrupt, or nothing. -/
inductive ListingStep (l : Listing) (d : DataMem M) (i : Pins) : Machine M → Turn → Machine M → Prop
  | exec {m k stmt e} (hpc : m.hart.pc = addrOf k) (hline : l.LineAt k stmt)
      (he : stmt.effect (labelAddr l.items) (stmt.operands (m.platform d i) m.hart) = some e) :
      ListingStep l d i m .exec (m.does d i stmt e)
  | irq {m} (cause : Word) : ListingStep l d i m (.irq cause)
      (m.pauses i { m.hart with pc := m.hart.csrs.mtvec
                                csrs := trapEntry m.hart.csrs cause m.hart.pc m.hart.csrs })
  | wait {m} : ListingStep l d i m .wait (m.pauses i m.hart)

variable {imem : Word → Word} {d : DataMem M} {f : Assembler.Files} {u : GoText.Cases} {paths : List GoText.Text}
  {depth : Nat} {words : List Word} {parser : Assembler.AsmParser} {p : Assembler.Program}

section Image

variable (hb : Built f u paths depth words parser p)
  (hplain : (listing u parser depth).PlainLines)
  (himage : ∀ k w, words[k]? = some w → imem (addrOf k) = w)

include hb hplain himage

-- At a line, the machine on the image does what the line says.
theorem Machine.step_line {m : Machine M} (i : Pins) {k : Nat} {stmt : Stmt} (hpc : m.hart.pc = addrOf k)
    (hline : (listing u parser depth).LineAt k stmt) :
    Decodes imem m .exec ∧ ∃ e,
      stmt.effect (labelAddr (programItems u parser.lines)) (stmt.operands (m.platform d i) m.hart) = some e ∧
        m.step imem d (.exec, i) = m.does d i stmt e := by
  obtain ⟨instr, hdec, hrd, he⟩ := hb.line_at (m.platform d i) hplain himage hpc hline
  refine ⟨fun _ ↦ Option.isSome_iff_exists.mpr ⟨instr, hdec⟩, _, he, ?_⟩
  have hhart : m.hart.step (m.platform d i) imem =
      m.hart.apply (m.platform d i) (m.hart.effect (m.platform d i) instr) stmt.rd := by
    rw [Hart.step, hdec, hrd]
    exact m.hart.exec_eq_apply _ instr
  have hcsr : m.csrWrite imem d i .exec = (m.hart.effect (m.platform d i) instr).csrWrite := by
    change (Rv32i.decode (imem m.hart.pc)).bind _ = _
    rw [hdec]
    rfl
  have hbus : m.access imem d i .exec = (m.hart.effect (m.platform d i) instr).access := by
    change (Rv32i.decode (imem m.hart.pc)).bind _ = _
    rw [hdec]
    rfl
  rw [Machine.step, Machine.does, Machine.bus, hcsr, hbus, Machine.nextHart, hhart]

-- A turn on the lines is the turn of the machine on the image.
theorem ListingStep.eq_step {m n : Machine M} {i : Pins} {turn : Turn}
    (h : ListingStep (listing u parser depth) d i m turn n) :
    Decodes imem m turn ∧ n = m.step imem d (turn, i) := by
  cases h with
  | exec hpc hline he =>
    obtain ⟨hdec, e, he', hstep⟩ := Machine.step_line (d := d) hb hplain himage i hpc hline
    rw [hstep, Option.some.inj (he.symm.trans he')]
    exact ⟨hdec, rfl⟩
  | irq cause => exact ⟨nofun, rfl⟩
  | wait => exact ⟨nofun, rfl⟩

theorem Machine.listingStep (m : Machine M) (i : Pins) (turn : Turn)
    (hin : turn = .exec → ∃ k < depth, m.hart.pc = addrOf k) :
    ListingStep (listing u parser depth) d i m turn
      (m.step imem d (turn, i)) := by
  cases turn with
  | wait => exact .wait
  | irq cause => exact .irq cause
  | exec =>
    obtain ⟨k, hk, hpc⟩ := hin rfl
    obtain ⟨stmt, hline⟩ := hb.exists_line hplain hk
    obtain ⟨-, e, he, hstep⟩ := Machine.step_line (d := d) hb hplain himage i hpc hline
    rw [hstep]
    exact .exec hpc hline he

end Image

/-! ## Runs of the chip -/

namespace Soc

/-- The machine on the lines, in the turns that the chip takes in its first `t` cycles. -/
structure RunsLines (l : Listing) (cfg : Config) (imem : Word → Word) (d : DataMem M) (regs : RegIdx → Word)
    (mem : M) (v : Devices) (inp : Nat → SocInputs) (T : Nat)
    (ms : Nat → Machine M) : Prop where
  start : ms 0 = Machine.reset regs mem v
  step : ∀ c < T, ListingStep l d (inp c).pins (ms c) (turnAt cfg imem d regs mem v inp c) (ms (c + 1))

variable {cfg : Config} {regs : RegIdx → Word} {mem : M} {v : Devices} {inp : Nat → SocInputs} {T : Nat}
  {ms : Nat → Machine M}

-- Such a run is the one of the machine on the image.
theorem RunsLines.eq_machineAt (hb : Built f u paths depth words parser p)
    (hplain : (listing u parser depth).PlainLines)
    (himage : ∀ k w, words[k]? = some w → imem (addrOf k) = w)
    (h : RunsLines (listing u parser depth) cfg imem d regs mem v inp T ms)
    {c : Nat} (hc : c ≤ T) : ms c = machineAt cfg imem d regs mem v inp c := by
  induction c with
  | zero => exact h.start
  | succ c ih =>
    rw [((h.step c hc).eq_step hb hplain himage).2, ih (Nat.le_of_succ_le hc)]
    rfl

/-- From source to silicon.  The image of an accepted program makes the chip execute the lines of the program, if the
assembler reads its operands in full (`PlainLines`: numbers of 32 bits, nothing after NOP, memory operands that end
with their parenthesis).  In every clean run, with any wait states, pins and initial peripherals, the machine that goes
from line to line in the turns of the chip is in the state of the chip in every cycle, and there is such a run of it as
long as the pc stays in the memory of the program. -/
theorem runs_listing (cfg : Config) (imem : Word → Word) (d : DataMem M) (regs : RegIdx → Word) (mem : M)
    (v : Devices) (inp : Nat → SocInputs) (T : Nat) (hb : Built f u paths depth words parser p)
    (hplain : (listing u parser depth).PlainLines)
    (himage : ∀ k w, words[k]? = some w → imem (addrOf k) = w)
    (hw : cfg.icacheEnabled → Front.WordFits (HoldsWord imem)) (hc : CleanUntil cfg imem d regs mem v inp T) :
    (∀ ms, RunsLines (listing u parser depth) cfg imem d regs mem v inp T ms →
        ∀ c ≤ T, SameState (after cfg imem d regs mem v inp c) (ms c)) ∧
      ((∀ c < T, turnAt cfg imem d regs mem v inp c = .exec →
          ∃ k < depth, (machineAt cfg imem d regs mem v inp c).hart.pc = addrOf k) →
        ∃ ms, RunsLines (listing u parser depth) cfg imem d regs mem v inp T ms) := by
  constructor
  · intro ms h c hcT
    have hdec : DecodesUntil cfg imem d regs mem v inp c := by
      intro k hk
      have hkT : k < T := Nat.lt_of_lt_of_le hk hcT
      rw [← h.eq_machineAt hb hplain himage (Nat.le_of_lt hkT)]
      exact ((h.step k hkT).eq_step hb hplain himage).1
    rw [h.eq_machineAt hb hplain himage hcT]
    exact (follows_after hw (fun k hk ↦ hc k (Nat.lt_of_lt_of_le hk hcT)) hdec).sameState
  · intro hin
    refine ⟨machineAt cfg imem d regs mem v inp, rfl, fun c hcT ↦ ?_⟩
    exact Machine.listingStep hb hplain himage _ _ _ (hin c hcT)

/-! ## A source -/

/-- The source of `pollCounter`. -/
def pollSource : Assembler.Files :=
  Assembler.oneFile [".equ TIMER_BASE_HI, 0x40005", "LUI x5, TIMER_BASE_HI", "ADDI x6, x0, 1", "SW x6, 0(x5)",
    "wait: LW x7, 8(x5)", "JAL x0, wait"]

def pollParser : Assembler.AsmParser where
  macros := Function.update (fun _ ↦ none) "TIMER_BASE_HI".toList (some 0x40005)
  lines := [⟨"LUI x5, TIMER_BASE_HI".toList, Assembler.mainPath, 2⟩,
    ⟨"ADDI x6, x0, 1".toList, Assembler.mainPath, 3⟩, ⟨"SW x6, 0(x5)".toList, Assembler.mainPath, 4⟩,
    ⟨"wait: LW x7, 8(x5)".toList, Assembler.mainPath, 5⟩,
    ⟨"JAL x0, wait".toList, Assembler.mainPath, 6⟩]

def pollListing : Listing := listing Assembler.plainTables.cases pollParser 5

def pollItems : List Item :=
  [.inst "LUI".toList ["x5".toList, "TIMER_BASE_HI".toList], .inst "ADDI".toList ["x6".toList, "x0".toList, "1".toList],
    .inst "SW".toList ["x6".toList, "0(x5)".toList], .label "wait".toList,
    .inst "LW".toList ["x7".toList, "8(x5)".toList], .inst "JAL".toList ["x0".toList, "wait".toList]]

def pollProgram : Assembler.Program where
  insts := [⟨"LUI".toList, ["x5".toList, "TIMER_BASE_HI".toList], 2, 0⟩,
    ⟨"ADDI".toList, ["x6".toList, "x0".toList, "1".toList], 3, 4⟩,
    ⟨"SW".toList, ["x6".toList, "0(x5)".toList], 4, 8⟩,
    ⟨"LW".toList, ["x7".toList, "8(x5)".toList], 5, 12⟩, ⟨"JAL".toList, ["x0".toList, "wait".toList], 6, 16⟩]
  labels := Function.update (fun _ ↦ none) "wait".toList (some 12)
  pc := 20

def pollWords : List Word := [0x400052B7#32, 0x00100313#32, 0x0062A023#32, 0x0082A383#32, 0xFFDFF06F#32]

theorem pollSource_built :
    Built pollSource Assembler.plainTables.cases [Assembler.mainPath] 5 pollWords pollParser pollProgram :=
  ⟨rfl, rfl, by decide +kernel⟩

theorem pollItems_eq : pollListing.items = pollItems := by decide +kernel

-- The operands of a line are read in full.
theorem pollListing_plain : pollListing.PlainLines := by
  have hshort : ∀ {token : GoText.Text} (n : Int),
      Assembler.immediateValue pollListing.tables token = some n →
      Assembler.Int32 n → Assembler.ShortImm pollListing.tables token := by
    intro token n hn hint n' hn'
    rw [hn] at hn'
    cases hn'
    exact hint
  have hop : ∀ {op : GoText.Text} {m m' : Assembler.Mnemonic}, Assembler.mnemonicOf op = some m →
      Assembler.mnemonicOf op = some m' → m = m' := fun h h' ↦ Option.some.inj (h.symm.trans h')
  intro op args m hmem hm
  rw [pollItems_eq] at hmem
  simp only [pollItems, List.mem_cons, List.not_mem_nil, or_false, reduceCtorEq, false_or, Item.inst.injEq] at hmem
  rcases hmem with ⟨rfl, rfl⟩ | ⟨rfl, rfl⟩ | ⟨rfl, rfl⟩ | ⟨rfl, rfl⟩ | ⟨rfl, rfl⟩
  · cases hop hm (show _ = some .lui by decide)
    exact hshort 0x40005 (by decide +kernel) ⟨by decide, by decide⟩
  · cases hop hm (show _ = some .addi by decide)
    exact hshort 1 (by decide +kernel) ⟨by decide, by decide⟩
  · cases hop hm (show _ = some .sw by decide)
    exact ⟨"0".toList, "x5".toList, ⟨by decide, by decide, by decide, by decide⟩,
      hshort 0 (by decide +kernel) ⟨by decide, by decide⟩⟩
  · cases hop hm (show _ = some .lw by decide)
    exact ⟨"8".toList, "x5".toList, ⟨by decide, by decide, by decide, by decide⟩,
      hshort 8 (by decide +kernel) ⟨by decide, by decide⟩⟩
  · cases hop hm (show _ = some .jal by decide)
    intro n hn
    have hnone : Assembler.immediateValue pollListing.tables
        (GoText.trimSpace "wait".toList) = none := by decide +kernel
    rw [hnone] at hn
    cases hn

theorem pollWords_image (k : Nat) (w : Word) (h : pollWords[k]? = some w) : pollCounter (addrOf k) = w := by
  have hk : k < 5 := (List.getElem?_eq_some_iff.mp h).1
  interval_cases k <;> cases h <;> rfl

/-- The assembled source on the chip: after 14 cycles the machine on the lines and the chip are in the same state,
and the loop has read the counter once. -/
theorem runs_pollSource : ∃ ms : Nat → Machine (Word → Word),
    RunsLines pollListing .noCache pollCounter wordMem (fun _ ↦ 0) (fun _ ↦ 0) idleDevices quick 14 ms ∧
    SameState (after .noCache pollCounter wordMem (fun _ ↦ 0) (fun _ ↦ 0) idleDevices quick 14) (ms 14) ∧
    (ms 14).hart.regs 7#5 = 1#32 := by
  obtain ⟨hsame, hexists⟩ := runs_listing .noCache pollCounter wordMem (fun _ ↦ 0) (fun _ ↦ 0) idleDevices
    quick 14 pollSource_built pollListing_plain pollWords_image nofun (pollCounter_plain.clean rfl 14).1
  obtain ⟨ms, hms⟩ := hexists (by decide +kernel)
  have hfinal := hsame ms hms 14 le_rfl
  refine ⟨ms, hms, hfinal, ?_⟩
  rw [← hfinal.regs]
  decide +kernel

end Soc

end QarCore
