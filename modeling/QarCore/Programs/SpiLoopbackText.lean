import QarCore.Programs.SpiLoopback

/-!
# The text of the SPI loopback

`spi_loopback.qar` with the file it includes, as the assembler finds them: its image is the program, and the chip
ends with the two bytes in its memory.
-/

namespace QarCore

namespace SpiLoopback

open Assembler (addrOf buildProgram plainTables)

/-- `spi_loopback.qar`. -/
def spiLoopback : List String :=
  [".include \"common.inc\"", "", "    LUI  x5, SPI_BASE_HI", "    ADDI x5, x5, SPI_BASE_LO", "",
    "    ADDI x1, x0, 0        # DMEM pointer", "", "    ADDI x6, x0, 0x11     # enable SPI + loopback",
    "    SW   x6, SPI_CTRL(x5)", "", "    ADDI x6, x0, 1        # small divider", "    SW   x6, SPI_CLKDIV(x5)", "",
    "    ADDI x6, x0, 1        # select CS0", "    SW   x6, SPI_CS(x5)", "", "    ADDI x7, x0, 0xA5",
    "    SW   x7, SPI_TXDATA(x5)", "", "    ADDI x8, x0, 2        # RX ready mask", "", "wait_rx0:",
    "    LW   x9, SPI_STATUS(x5)", "    AND  x10, x9, x8", "    BEQ  x10, x0, wait_rx0", "",
    "    LW   x11, SPI_RXDATA(x5)", "    SW   x11, 0(x1)", "    ADDI x1, x1, 4", "", "    ADDI x7, x0, 0x3C",
    "    SW   x7, SPI_TXDATA(x5)", "", "wait_rx1:", "    LW   x9, SPI_STATUS(x5)", "    AND  x10, x9, x8",
    "    BEQ  x10, x0, wait_rx1", "", "    LW   x11, SPI_RXDATA(x5)", "    SW   x11, 0(x1)", "    ADDI x1, x1, 4", "",
    "    LW   x12, SPI_STATUS(x5)", "    SW   x12, 0(x1)", "", "done:", "    JAL  x0, done"]

def path : GoText.Text := examplePath "spi_loopback.qar"

def files : Assembler.Files :=
  exampleFiles "spi_loopback.qar" (spiLoopback.map String.toList) (commonInc.map String.toList)

/-- The assembler turns the two files into the program, filled up with NOPs. -/
theorem built : buildProgram files plainTables.cases [path] 64 = .ok (image code 64) := by
  unfold files
  rw [show spiLoopback.map String.toList = _ from by
    unfold spiLoopback
    repeat apply toList_cons rfl
    exact List.map_nil]
  rw [show commonInc.map String.toList = _ from by
    unfold commonInc
    repeat apply toList_cons rfl
    exact List.map_nil]
  decide +kernel

/-! ## The chip -/

section Chip

variable {imem : Word → Word} {regs : RegIdx → Word} {m : Dmem 6} {v : Devices} {inp : Nat → SocInputs}

-- The end of the program, for the answers its accesses have got.
theorem At.mem_of_final {a : At} {h : Rv32i.Hart Csr (Dmem 6)} {r : Word × Word × Word} (hfinal : a.Final)
    (hleft : a.left = .done r) (hh : (a.facts m).Holds h) :
    h.mem = Function.update (Function.update (Function.update m 0#6 r.1) 1#6 r.2.1) 2#6 r.2.2 := by
  cases a with
  | done r₀ r₁ s =>
    cases hleft
    exact hh.mem
  | _ => exact hfinal.elim

variable {words : List Word}

/-- The SPI demo: the chip on the image of the two files, with an SPI master at rest, ends with the two bytes it has
sent in its memory, and behind them a status that shows room to send and nothing to read, whatever the data, the
registers, the wait states and the pins are; the rest of the memory stays as it was. -/
theorem chip_loops_back (hb : buildProgram files plainTables.cases [path] 64 = .ok words)
    (himage : ∀ k w, words[k]? = some w → imem (addrOf k) = w) (hv : v.spi0.Quiet)
    (ha : Soc.Answered imem (testMem 6) regs m v inp) :
    ∃ s, Drained s ∧ ∃ T, ∀ t, T ≤ t → (Soc.after .noCache imem (testMem 6) regs m v inp t).board.mem =
      Function.update (Function.update (Function.update m 0#6 0xA5#32) 1#6 0x3C#32) 2#6 s := by
  have hcode := codeAt_of_build built hb himage
  have h0 : ((At.base).facts m).Holds (Hart.reset regs m) := ⟨rfl, nofun, rfl, rfl⟩
  obtain ⟨r, ⟨n, h₀, h₁, hs⟩, T, a, hfinal, hleft, hend⟩ :=
    Soc.program_ends (implements m hcode) h0 accesses_end hv ha
  refine ⟨r.2.2, hs, T, fun t ht ↦ ?_⟩
  obtain ⟨x, hx, hshow⟩ := hend t ht
  rw [hshow.mem, At.mem_of_final hfinal hleft hx, h₀, h₁]

def sampleImem : Word → Word := imemOf (image code 64)

theorem sampleImem_image (k : Nat) (w : Word) (h : (image code 64)[k]? = some w) : sampleImem (addrOf k) = w :=
  imemOf_addrOf (by decide +kernel) k w h

theorem chip_loops_back_sample :
    ∃ T, (Soc.after .noCache sampleImem (testMem 6) (fun _ ↦ 0) (fun _ ↦ 0) Soc.idleDevices Soc.quick T).board.mem 1#6 =
      0x3C#32 := by
  obtain ⟨s, -, T, hT⟩ := @chip_loops_back sampleImem (fun _ ↦ 0) (fun _ ↦ 0) Soc.idleDevices Soc.quick _ built
    sampleImem_image ⟨rfl, rfl, rfl⟩ Soc.quick_answeredIn.answered
  refine ⟨T, ?_⟩
  rw [hT T le_rfl]
  rfl

end Chip

end SpiLoopback

end QarCore
