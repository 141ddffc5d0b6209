import QarCore.Programs.SumPositive

/-!
# The text of the sum of the positives

`sum_positive.qar` with the file it includes, as the assembler finds them: its image is the program, and the chip
with any data in its memory ends with the sum.
-/

namespace QarCore

namespace SumPositive

open Assembler (addrOf buildProgram plainTables)

/-- `sum_positive.qar`. -/
def sumPositive : List String :=
  [".include \"common.inc\"", "", "    ADDI x1, x0, SRC_BASE   # base pointer (bytes)",
    "    ADDI x2, x0, ARRAY_LEN  # length (elements)", "    ADDI x10, x0, 0         # accumulator for positives",
    "", "loop:", "    LW   x3, 0(x1)", "    ADDI x1, x1, 4", "    ADDI x2, x2, -1", "    BLT  x3, x0, skip_add",
    "    ADD  x10, x10, x3", "skip_add:", "    BNE  x2, x0, loop", "", "done:",
    "    JAL  x5, store_sum      # call subroutine", "    ADDI x12, x0, 0x123     # marker showing we returned",
    "    SW   x12, RETURN_FLAG_ADDR(x0)", "    JAL  x0, program_end", "", "store_sum:",
    "    SW   x10, STORE_SUM_ADDR(x0)", "    JALR x0, x5, 0", "", "program_end:", "    JAL  x0, program_end"]

def path : GoText.Text := examplePath "sum_positive.qar"

def files : Assembler.Files :=
  exampleFiles "sum_positive.qar" (sumPositive.map String.toList) (commonInc.map String.toList)

/-- The assembler turns the two files into the program, filled up with NOPs. -/
theorem built : buildProgram files plainTables.cases [path] 128 = .ok (image code 128) := by
  unfold files
  rw [show sumPositive.map String.toList = _ from by
    unfold sumPositive
    repeat apply toList_cons rfl
    exact List.map_nil]
  rw [show commonInc.map String.toList = _ from by
    unfold commonInc
    repeat apply toList_cons rfl
    exact List.map_nil]
  decide +kernel

/-! ## The chip -/

section Chip

variable {imem : Word → Word} {regs : RegIdx → Word} {m : Dmem 8} {v : Devices} {inp : Nat → SocInputs}

theorem At.mem_cases (a : At m) :
    a.mem = m ∨ a.mem = Function.update m 16#8 (expected m 6) ∨ a.mem = result m := by
  cases a with
  | back | marker | flag => exact .inr (.inl rfl)
  | leave | programEnd => exact .inr (.inr rfl)
  | _ => exact .inl rfl

theorem At.mem_of_holds {a : At m} {h : Rv32i.Hart Csr (Dmem 8)} (hh : a.facts.Holds h) :
    h.mem = m ∨ h.mem = Function.update m 16#8 (expected m 6) ∨ h.mem = result m := by
  rw [hh.mem]
  exact a.mem_cases

theorem end_of_shows {b : Board (Dmem 8)} {h : Rv32i.Hart Csr (Dmem 8)} (hb : b.Shows h)
    (hh : (At.programEnd : At m).facts.Holds h) : b.mem = result m ∧ b.core.regs 10#5 = expected m 6 := by
  refine ⟨hb.mem.trans hh.mem, ?_⟩
  rw [hb.regs]
  exact hh.regs (10#5, expected m 6) (List.mem_singleton.mpr rfl)

variable {words : List Word}

/-- The randomized regression for all data: the chip on the image of the two files ends with the sum of the six words
that are not negative in `x10` and in the memory, next to the mark and with the rest of the memory as it was, whatever
the data, the registers, the wait states, the pins and the peripherals are; and on the way the memory never shows
anything but that sum and that mark. -/
theorem chip_sums (hb : buildProgram files plainTables.cases [path] 128 = .ok words)
    (himage : ∀ k w, words[k]? = some w → imem (addrOf k) = w)
    (ha : Soc.Answered imem (testMem 8) regs m v inp) :
    (∃ T, ∀ t, T ≤ t → (Soc.after .noCache imem (testMem 8) regs m v inp t).board.mem = result m ∧
      (Soc.after .noCache imem (testMem 8) regs m v inp t).board.core.regs 10#5 = expected m 6) ∧
    ∀ t, (Soc.after .noCache imem (testMem 8) regs m v inp t).board.mem = m ∨
      (Soc.after .noCache imem (testMem 8) regs m v inp t).board.mem = Function.update m 16#8 (expected m 6) ∨
      (Soc.after .noCache imem (testMem 8) regs m v inp t).board.mem = result m := by
  have hcode := codeAt_of_build built hb himage
  have hs := selfContained regs m hcode
  constructor
  · obtain ⟨T, hT⟩ := hs.settles (hart_settles regs m hcode) ha.fair
    refine ⟨T, fun t ht ↦ ?_⟩
    rw [Soc.board_after]
    obtain ⟨h, hh, hshow⟩ := hT t ht
    exact end_of_shows hshow hh
  · intro t
    rw [Soc.board_after, (hs.shows _ t).mem, Rv32i.Hart.after_eq_iterate]
    obtain ⟨a, ha⟩ := (outline m hcode).always (holds_reset regs m) _
    exact At.mem_of_holds ha

/-- How long that takes: `54 * (2 * W + 6)` cycles where every request is answered within `W` cycles. -/
theorem chip_sums_within (W : Nat)
    (hb : buildProgram files plainTables.cases [path] 128 = .ok words)
    (himage : ∀ k w, words[k]? = some w → imem (addrOf k) = w)
    (ha : Soc.AnsweredIn W imem (testMem 8) regs m v inp) (t : Nat) (ht : 54 * (2 * W + 6) ≤ t) :
    (Soc.after .noCache imem (testMem 8) regs m v inp t).board.mem = result m ∧
      (Soc.after .noCache imem (testMem 8) regs m v inp t).board.core.regs 10#5 = expected m 6 := by
  have hcode := codeAt_of_build built hb himage
  have hs := selfContained regs m hcode
  rw [Soc.board_after]
  obtain ⟨h, hh, hshow⟩ := hs.settles_within (hart_settles regs m hcode) ha.answeredWithin t ht
  exact end_of_shows hshow hh

/-- The words of `sum_positive.data`. -/
def sample : Dmem 8
  | 0#8 => 1#32
  | 1#8 => -2#32
  | 2#8 => 3#32
  | 3#8 => 4#32
  | 4#8 => -5#32
  | 5#8 => 6#32
  | _ => 0#32

def sampleImem : Word → Word := imemOf (image code 128)

theorem sampleImem_image (k : Nat) (w : Word) (h : (image code 128)[k]? = some w) : sampleImem (addrOf k) = w :=
  imemOf_addrOf (by decide +kernel) k w h

theorem chip_sums_sample :
    ∃ T, ∀ t, T ≤ t →
      (Soc.after .noCache sampleImem (testMem 8) (fun _ ↦ 0) sample Soc.idleDevices Soc.quick t).board.mem 16#8 =
        14#32 := by
  obtain ⟨⟨T, hT⟩, -⟩ := @chip_sums sampleImem (fun _ ↦ 0) sample Soc.idleDevices Soc.quick _ built sampleImem_image
    Soc.quick_answeredIn.answered
  refine ⟨T, fun t ht ↦ ?_⟩
  rw [(hT t ht).1]
  decide

theorem chip_sums_within_sample :
    (Soc.after .noCache sampleImem (testMem 8) (fun _ ↦ 0) sample Soc.idleDevices Soc.quick 324).board.mem 16#8 =
      14#32 := by
  have h := @chip_sums_within sampleImem (fun _ ↦ 0) sample Soc.idleDevices Soc.quick _ 0 built sampleImem_image
    Soc.quick_answeredIn 324 le_rfl
  rw [h.1]
  decide

end Chip

end SumPositive

end QarCore
