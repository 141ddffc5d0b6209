import QarCore.Hal.Spi
import QarCore.Programs.Implements
import QarCore.Programs.Testbench

/-!
# The SPI loopback

`spi_loopback.qar` as instructions, next to the accesses it makes: it sets the SPI master up in loopback, sends two
bytes, each of which it waits for and stores, and stores the status at last.
-/

namespace QarCore

namespace SpiLoopback

open Assembler (addrOf)
open Clocked (Ends)
open Hal
open Rv32i (Access Facts Instr)

/-! ## The program -/

/-- The lines with their labels resolved. -/
def code : List Instr :=
  [.lui 5 0x40004, .addi 5 5 0, .addi 1 0 0, .addi 6 0 0x11, .sw 5 6 0x0, .addi 6 0 1, .sw 5 6 0x8, .addi 6 0 1,
    .sw 5 6 0x14, .addi 7 0 0xA5, .sw 5 7 0xC, .addi 8 0 2,
    -- wait_rx0
    .lw 9 5 0x4, .op .and 10 9 8, .branch .eq 10 0 (-4), .lw 11 5 0x10, .sw 1 11 0, .addi 1 1 4, .addi 7 0 0x3C,
    .sw 5 7 0xC,
    -- wait_rx1
    .lw 9 5 0x4, .op .and 10 9 8, .branch .eq 10 0 (-4), .lw 11 5 0x10, .sw 1 11 0, .addi 1 1 4, .lw 12 5 0x4,
    .sw 1 12 0,
    -- done
    .jal 0 0]

/-! ## Its accesses -/

/-- A byte is sent, and the one that comes back read. -/
def transfer (value : Word) : Code Word := do
  mmio32Write qarSpi0Base qarSpiTxdata value
  let _ ← mmio32Await qarSpi0Base qarSpiStatus fun s ↦ s &&& qarSpiStatusRxValid != 0#32
  mmio32Read qarSpi0Base qarSpiRxdata

def accesses : Code (Word × Word × Word) := do
  mmio32Write qarSpi0Base qarSpiCtrl 0x11#32
  mmio32Write qarSpi0Base qarSpiClkdiv 1#32
  mmio32Write qarSpi0Base qarSpiCs 1#32
  let r₀ ← transfer 0xA5#32
  let r₁ ← transfer 0x3C#32
  let s ← mmio32Read qarSpi0Base qarSpiStatus
  return (r₀, r₁, s)

/-! ## What holds at the lines -/

/-- The two exchanges; the second one comes with the word that the first one got. -/
inductive Exchange
  | first
  | second (r₀ : Word)

namespace Exchange

def sent : Exchange → Word
  | first => 0xA5#32
  | second _ => 0x3C#32

def pointer : Exchange → Word
  | first => 0#32
  | second _ => 4#32

def byteLine : Exchange → Nat
  | first => 9
  | second _ => 18

def waitLine : Exchange → Nat
  | first => 12
  | second _ => 20

/-- The memory before the exchange. -/
def before (m : Dmem 6) : Exchange → Dmem 6
  | first => m
  | second r₀ => Function.update m 0#6 r₀

/-- The memory with the word of the exchange. -/
def stored (m : Dmem 6) (r : Word) : Exchange → Dmem 6
  | first => Function.update m 0#6 r
  | second r₀ => Function.update (Function.update m 0#6 r₀) 1#6 r

/-- What is left after the exchange has got a word. -/
def rest (r : Word) : Exchange → Code (Word × Word × Word)
  | first => do
    let r₁ ← transfer 0x3C#32
    let s ← mmio32Read qarSpi0Base qarSpiStatus
    return (r, r₁, s)
  | second r₀ => do
    let s ← mmio32Read qarSpi0Base qarSpiStatus
    return (r₀, r, s)

def receiving (e : Exchange) : Code (Word × Word × Word) :=
  .act (.load (qarSpi0Base + qarSpiRxdata)) fun r ↦ e.rest r

def waiting (e : Exchange) : Code (Word × Word × Word) :=
  .poll (.load (qarSpi0Base + qarSpiStatus)) (fun s ↦ s &&& qarSpiStatusRxValid != 0#32) fun _ ↦ e.receiving

def sending (e : Exchange) : Code (Word × Word × Word) :=
  .act (.store (qarSpi0Base + qarSpiTxdata) e.sent) fun _ ↦ e.waiting

def byteRegs (e : Exchange) : List (Rv32i.Reg × Word) :=
  match e with
  | first => [(1#5, 0#32), (5#5, qarSpi0Base)]
  | second _ => [(1#5, 4#32), (5#5, qarSpi0Base), (8#5, 2#32)]

def waitRegs (e : Exchange) : List (Rv32i.Reg × Word) := [(1#5, e.pointer), (5#5, qarSpi0Base), (8#5, 2#32)]

end Exchange

/-- The lines, with the answers of the SPI master that matter. -/
inductive At
  | base | low | pointer | ctrlWord | ctrl | clkdivWord | clkdiv | csWord | cs
  | byte (e : Exchange) | send (e : Exchange) | mask
  | wait (e : Exchange) | test (e : Exchange) (s : Word) | branch (e : Exchange) (s : Word)
  | receive (e : Exchange) | save (e : Exchange) (r : Word) | advance (e : Exchange) (r : Word)
  | status (r₀ r₁ : Word) | saveStatus (r₀ r₁ s : Word) | done (r₀ r₁ s : Word)

namespace At

def line : At → Nat
  | base => 0
  | low => 1
  | pointer => 2
  | ctrlWord => 3
  | ctrl => 4
  | clkdivWord => 5
  | clkdiv => 6
  | csWord => 7
  | cs => 8
  | byte e => e.byteLine
  | send e => e.byteLine + 1
  | mask => 11
  | wait e => e.waitLine
  | test e _ => e.waitLine + 1
  | branch e _ => e.waitLine + 2
  | receive e => e.waitLine + 3
  | save e _ => e.waitLine + 4
  | advance e _ => e.waitLine + 5
  | status _ _ => 26
  | saveStatus _ _ _ => 27
  | done _ _ _ => 28

/-- The number of steps to the next access, or to the end. -/
def rank : At → Nat
  | base => 4
  | low => 3
  | pointer => 2
  | ctrlWord | clkdivWord | csWord | byte _ | mask | branch _ _ | saveStatus _ _ _ => 1
  | test _ _ | advance _ _ => 2
  | save _ _ => 3
  | _ => 0

/-- The registers that matter from a line on. -/
def regs : At → List (Rv32i.Reg × Word)
  | base => []
  | low | pointer => [(5#5, qarSpi0Base)]
  | ctrlWord | clkdivWord | csWord | mask => [(1#5, 0#32), (5#5, qarSpi0Base)]
  | ctrl => [(1#5, 0#32), (5#5, qarSpi0Base), (6#5, 0x11#32)]
  | clkdiv | cs => [(1#5, 0#32), (5#5, qarSpi0Base), (6#5, 1#32)]
  | byte e => e.byteRegs
  | send e => (7#5, e.sent) :: e.byteRegs
  | wait e | receive e | advance e _ => e.waitRegs
  | test e s => (9#5, s) :: e.waitRegs
  | branch e s => (10#5, s &&& 2#32) :: e.waitRegs
  | save e r => (11#5, r) :: e.waitRegs
  | status _ _ => [(1#5, 8#32), (5#5, qarSpi0Base)]
  | saveStatus _ _ s => [(1#5, 8#32), (12#5, s)]
  | done _ _ _ => []

def mem (m : Dmem 6) : At → Dmem 6
  | byte e | send e | wait e | test e _ | branch e _ | receive e | save e _ => e.before m
  | advance e r => e.stored m r
  | status r₀ r₁ | saveStatus r₀ r₁ _ => (Exchange.second r₀).stored m r₁
  | done r₀ r₁ s => Function.update ((Exchange.second r₀).stored m r₁) 2#6 s
  | _ => m

/-- The accesses that are left. -/
def left : At → Code (Word × Word × Word)
  | clkdivWord | clkdiv => accesses.resume 0
  | csWord | cs => (accesses.resume 0).resume 0
  | byte e | send e => e.sending
  | mask => Exchange.first.waiting
  | wait e => e.waiting
  | test e s | branch e s => e.waiting.resume s
  | receive e => e.receiving
  | save e r | advance e r => e.rest r
  | status r₀ r₁ => (Exchange.second r₀).rest r₁
  | saveStatus r₀ r₁ s | done r₀ r₁ s => .done (r₀, r₁, s)
  | _ => accesses

def facts (m : Dmem 6) (a : At) : Facts Csr (Dmem 6) := ⟨addrOf a.line, a.regs, Csr.reset, a.mem m⟩

def Final : At → Prop
  | done _ _ _ => True
  | _ => False

end At

/-! ## The steps -/

-- What a load from the SPI master gets is the answer.
theorem load_spi (w : Word) (m : Dmem 6) : (wordPlatform (testMem 6) w).load m 0x40004004#32 = w ∧
    (wordPlatform (testMem 6) w).load m 0x40004010#32 = w := ⟨rfl, rfl⟩

-- A store to the SPI master leaves the memory alone.
theorem store_spi {w data : Word} {m : Dmem 6} (addr : Word) (h : (windowOf addr).isSome) :
    m = (wordPlatform (testMem 6) w).store m addr data := (if_pos h).symm

theorem store_dmem {w data : Word} {m : Dmem 6} (addr : Word) (h : windowOf addr = none) :
    Function.update m (dmemIndex 6 addr) data = (wordPlatform (testMem 6) w).store m addr data :=
  (if_neg (by rw [h]; exact Bool.false_ne_true)).symm

-- A store that hits no window.
theorem outside {x : Option Access} {data : Word} (addr : Word) (hx : x = some (.store addr data))
    (hwin : windowOf addr = none) : ∀ acc, x = some acc → windowOf acc.addr = none := by
  intro acc hacc
  rw [hx] at hacc
  cases hacc
  exact hwin

section Steps

variable {imem : Word → Word} (m : Dmem 6) (hcode : CodeAt imem code)

include hcode

attribute [local simp] At.facts At.line At.rank At.regs At.mem Exchange.byteRegs Exchange.waitRegs Exchange.pointer
  Exchange.sent Exchange.before Exchange.stored Instr.rd Instr.rs1 Instr.rs2
  Rv32i.effect Rv32i.Effect.written Rv32i.Effect.stored Rv32i.Effect.value Facts.effect Facts.Reads
  Rv32i.Cond.holds Rv32i.OpFn.apply Rv32i.Access.addr Rv32i.csrsAfter qarSpi0Base Assembler.addrOf_succ load_spi

/-- A step of the program. -/
abbrev AtMoves (imem : Word → Word) (m : Dmem 6) (a : At) : Prop :=
  Moves imem (testMem 6) (At.facts m) At.left At.rank At.Final a

theorem moves_base : AtMoves imem m .base :=
  .quiet (.lui 5 0x40004) 0 0 .low (hcode 0 _ rfl) rfl nofun ⟨by simp, by simp, rfl, by simp, rfl, rfl⟩ rfl
    (.inl ⟨id, by simp⟩)

theorem moves_low : AtMoves imem m .low :=
  .quiet (.addi 5 5 0) qarSpi0Base 0 .pointer (hcode 1 _ rfl) rfl nofun
    ⟨by simp, by simp, rfl, by simp, rfl, rfl⟩ rfl (.inl ⟨id, by simp⟩)

theorem moves_pointer : AtMoves imem m .pointer :=
  .quiet (.addi 1 0 0) 0 0 .ctrlWord (hcode 2 _ rfl) rfl nofun ⟨by simp, by simp, rfl, by simp, rfl, rfl⟩ rfl
    (.inl ⟨id, by simp⟩)

theorem moves_ctrlWord : AtMoves imem m .ctrlWord :=
  .quiet (.addi 6 0 0x11) 0 0 .ctrl (hcode 3 _ rfl) rfl nofun ⟨by simp, by simp, rfl, by simp, rfl, rfl⟩ rfl
    (.inl ⟨id, by simp⟩)

theorem moves_ctrl : AtMoves imem m .ctrl :=
  .access (.sw 5 6 0x0) qarSpi0Base 0x11#32 (.store (qarSpi0Base + qarSpiCtrl) 0x11#32) (hcode 4 _ rfl) rfl rfl rfl rfl
    fun _ ↦ ⟨.clkdivWord, ⟨by simp, by simp, rfl, by simp, rfl, store_spi (qarSpi0Base + qarSpiCtrl) rfl⟩, rfl⟩

theorem moves_clkdivWord : AtMoves imem m .clkdivWord :=
  .quiet (.addi 6 0 1) 0 0 .clkdiv (hcode 5 _ rfl) rfl nofun ⟨by simp, by simp, rfl, by simp, rfl, rfl⟩ rfl
    (.inl ⟨id, by simp⟩)

theorem moves_clkdiv : AtMoves imem m .clkdiv :=
  .access (.sw 5 6 0x8) qarSpi0Base 1#32 (.store (qarSpi0Base + qarSpiClkdiv) 1#32) (hcode 6 _ rfl) rfl rfl rfl rfl
    fun _ ↦ ⟨.csWord, ⟨by simp, by simp, rfl, by simp, rfl, store_spi (qarSpi0Base + qarSpiClkdiv) rfl⟩, rfl⟩

theorem moves_csWord : AtMoves imem m .csWord :=
  .quiet (.addi 6 0 1) 0 0 .cs (hcode 7 _ rfl) rfl nofun ⟨by simp, by simp, rfl, by simp, rfl, rfl⟩ rfl
    (.inl ⟨id, by simp⟩)

theorem moves_cs : AtMoves imem m .cs :=
  .access (.sw 5 6 0x14) qarSpi0Base 1#32 (.store (qarSpi0Base + qarSpiCs) 1#32) (hcode 8 _ rfl) rfl rfl rfl rfl
    fun _ ↦ ⟨.byte .first, ⟨by simp, by simp, rfl, by simp, rfl, store_spi (qarSpi0Base + qarSpiCs) rfl⟩, rfl⟩

theorem moves_mask : AtMoves imem m .mask :=
  .quiet (.addi 8 0 2) 0 0 (.wait .first) (hcode 11 _ rfl) rfl nofun ⟨by simp, by simp, rfl, by simp, rfl, rfl⟩ rfl
    (.inl ⟨id, by simp⟩)

/-! ### An exchange -/

variable (e : Exchange) (r s : Word)

theorem moves_byte : AtMoves imem m (.byte e) := by
  cases e with
  | first =>
    exact .quiet (.addi 7 0 0xA5) 0 0 (.send .first) (hcode 9 _ rfl) rfl nofun
      ⟨by simp, by simp, rfl, by simp, rfl, rfl⟩ rfl (.inl ⟨id, by simp⟩)
  | second r₀ =>
    exact .quiet (.addi 7 0 0x3C) 0 0 (.send (.second r₀)) (hcode 18 _ rfl) rfl nofun
      ⟨by simp, by simp, rfl, by simp, rfl, rfl⟩ rfl (.inl ⟨id, by simp⟩)

theorem moves_send : AtMoves imem m (.send e) := by
  cases e with
  | first =>
    exact .access (.sw 5 7 0xC) qarSpi0Base 0xA5#32 (.store (qarSpi0Base + qarSpiTxdata) 0xA5#32) (hcode 10 _ rfl) rfl
      rfl rfl rfl fun _ ↦
        ⟨.mask, ⟨by simp, by simp, rfl, by simp, rfl, store_spi (qarSpi0Base + qarSpiTxdata) rfl⟩, rfl⟩
  | second r₀ =>
    exact .access (.sw 5 7 0xC) qarSpi0Base 0x3C#32 (.store (qarSpi0Base + qarSpiTxdata) 0x3C#32) (hcode 19 _ rfl) rfl
      rfl rfl rfl fun _ ↦
        ⟨.wait (.second r₀), ⟨by simp, by simp, rfl, by simp, rfl, store_spi (qarSpi0Base + qarSpiTxdata) rfl⟩, rfl⟩

-- What a line of the loop is, whichever exchange it belongs to.
theorem wait_lines : imem (addrOf e.waitLine) = Rv32i.encode (.lw 9 5 0x4) ∧
    imem (addrOf (e.waitLine + 1)) = Rv32i.encode (.op .and 10 9 8) ∧
    imem (addrOf (e.waitLine + 2)) = Rv32i.encode (.branch .eq 10 0 (-4)) ∧
    imem (addrOf (e.waitLine + 3)) = Rv32i.encode (.lw 11 5 0x10) ∧
    imem (addrOf (e.waitLine + 4)) = Rv32i.encode (.sw 1 11 0) ∧
    imem (addrOf (e.waitLine + 5)) = Rv32i.encode (.addi 1 1 4) := by
  cases e <;> exact ⟨hcode _ _ rfl, hcode _ _ rfl, hcode _ _ rfl, hcode _ _ rfl, hcode _ _ rfl, hcode _ _ rfl⟩

theorem moves_wait : AtMoves imem m (.wait e) :=
  .access (.lw 9 5 0x4) qarSpi0Base 0 (.load (qarSpi0Base + qarSpiStatus)) (wait_lines hcode e).1 rfl rfl rfl rfl
    fun s ↦ ⟨.test e s, ⟨by simp, by simp, (Assembler.addrOf_succ _).symm, by simp, rfl, rfl⟩, rfl⟩

theorem moves_test : AtMoves imem m (.test e s) :=
  .quiet (.op .and 10 9 8) s 2#32 (.branch e s) (wait_lines hcode e).2.1 rfl nofun
    ⟨by simp, by simp, (Assembler.addrOf_succ _).symm, by simp, rfl, rfl⟩ rfl (.inl ⟨id, by simp⟩)

omit hcode in
theorem back_to_wait : addrOf e.waitLine = addrOf (e.waitLine + 2) + Rv32i.offset (-4 : BitVec 12) := by
  cases e with
  | first => exact (by decide : addrOf 12 = addrOf 14 + Rv32i.offset (-4 : BitVec 12))
  | second r₀ => exact (by decide : addrOf 20 = addrOf 22 + Rv32i.offset (-4 : BitVec 12))

omit hcode in
theorem waiting_resume : e.waiting.resume s = if s &&& 2#32 = 0#32 then e.waiting else e.receiving := by
  change (if (s &&& 2#32 != 0#32) = true then e.receiving else e.waiting) = _
  by_cases h : s &&& 2#32 = 0#32
  · rw [if_pos h, h]
    rfl
  · rw [if_neg h, if_pos (bne_iff_ne.mpr h)]

theorem moves_branch : AtMoves imem m (.branch e s) := by
  by_cases h : s &&& 2#32 = 0#32
  · refine .quiet (.branch .eq 10 0 (-4)) (s &&& 2#32) 0 (.wait e) (wait_lines hcode e).2.2.1 rfl nofun
      ⟨by simp, by simp, ?_, by simp, rfl, rfl⟩ ?_ (.inl ⟨id, by simp⟩)
    · simp [h]
      exact back_to_wait e
    · exact ((waiting_resume e s).trans (if_pos h)).symm
  · refine .quiet (.branch .eq 10 0 (-4)) (s &&& 2#32) 0 (.receive e) (wait_lines hcode e).2.2.1 rfl nofun
      ⟨by simp, by simp, ?_, by simp, rfl, rfl⟩ ?_ (.inl ⟨id, by simp⟩)
    · simp [h]
    · exact ((waiting_resume e s).trans (if_neg h)).symm

theorem moves_receive : AtMoves imem m (.receive e) :=
  .access (.lw 11 5 0x10) qarSpi0Base 0 (.load (qarSpi0Base + qarSpiRxdata)) (wait_lines hcode e).2.2.2.1 rfl rfl rfl
    rfl fun r ↦ ⟨.save e r, ⟨by simp, by simp, (Assembler.addrOf_succ _).symm, by simp, rfl, rfl⟩, rfl⟩

theorem moves_save : AtMoves imem m (.save e r) := by
  have hw := (wait_lines hcode e).2.2.2.2.1
  cases e with
  | first =>
    exact .quiet (.sw 1 11 0) 0#32 r (.advance .first r) hw rfl (outside 0#32 rfl (by decide))
      ⟨by simp, by simp, rfl, by simp, rfl, store_dmem 0#32 (by decide)⟩ rfl (.inl ⟨id, by simp⟩)
  | second r₀ =>
    exact .quiet (.sw 1 11 0) 4#32 r (.advance (.second r₀) r) hw rfl (outside 4#32 rfl (by decide))
      ⟨by simp, by simp, rfl, by simp, rfl, store_dmem 4#32 (by decide)⟩ rfl (.inl ⟨id, by simp⟩)

theorem moves_advance : AtMoves imem m (.advance e r) := by
  have hw := (wait_lines hcode e).2.2.2.2.2
  cases e with
  | first =>
    exact .quiet (.addi 1 1 4) 0#32 0 (.byte (.second r)) hw rfl nofun ⟨by simp, by simp, rfl, by simp, rfl, rfl⟩ rfl
      (.inl ⟨id, by simp⟩)
  | second r₀ =>
    exact .quiet (.addi 1 1 4) 4#32 0 (.status r₀ r) hw rfl nofun ⟨by simp, by simp, rfl, by simp, rfl, rfl⟩ rfl
      (.inl ⟨id, by simp⟩)

/-! ### The end -/

variable (r₀ r₁ : Word)

theorem moves_status : AtMoves imem m (.status r₀ r₁) :=
  .access (.lw 12 5 0x4) qarSpi0Base 0 (.load (qarSpi0Base + qarSpiStatus)) (hcode 26 _ rfl) rfl rfl rfl rfl
    fun s ↦ ⟨.saveStatus r₀ r₁ s, ⟨by simp, by simp, rfl, by simp, rfl, rfl⟩, rfl⟩

theorem moves_saveStatus : AtMoves imem m (.saveStatus r₀ r₁ s) :=
  .quiet (.sw 1 12 0) 8#32 s (.done r₀ r₁ s) (hcode 27 _ rfl) rfl (outside 8#32 rfl (by decide))
    ⟨by simp, by simp, rfl, by simp, rfl, store_dmem 8#32 (by decide)⟩ rfl (.inl ⟨id, by simp⟩)

theorem moves_done : AtMoves imem m (.done r₀ r₁ s) :=
  .quiet (.jal 0 0) 0 0 (.done r₀ r₁ s) (hcode 28 _ rfl) rfl nofun ⟨by simp, by simp, rfl, by simp, rfl, rfl⟩ rfl
    (.inr ⟨trivial, rfl⟩)

/-- The program makes the accesses. -/
theorem implements : Implements imem (testMem 6) (At.facts m) At.left At.rank At.Final where
  moves a := by
    cases a with
    | base => exact moves_base m hcode
    | low => exact moves_low m hcode
    | pointer => exact moves_pointer m hcode
    | ctrlWord => exact moves_ctrlWord m hcode
    | ctrl => exact moves_ctrl m hcode
    | clkdivWord => exact moves_clkdivWord m hcode
    | clkdiv => exact moves_clkdiv m hcode
    | csWord => exact moves_csWord m hcode
    | cs => exact moves_cs m hcode
    | byte e => exact moves_byte m hcode e
    | send e => exact moves_send m hcode e
    | mask => exact moves_mask m hcode
    | wait e => exact moves_wait m hcode e
    | test e s => exact moves_test m hcode e s
    | branch e s => exact moves_branch m hcode e s
    | receive e => exact moves_receive m hcode e
    | save e r => exact moves_save m hcode e r
    | advance e r => exact moves_advance m hcode e r
    | status r₀ r₁ => exact moves_status m hcode r₀ r₁
    | saveStatus r₀ r₁ s => exact moves_saveStatus m hcode s r₀ r₁
    | done r₀ r₁ s => exact moves_done m hcode s r₀ r₁
  done a h := by
    cases a with
    | done r₀ r₁ s => exact ⟨_, rfl⟩
    | _ => exact h.elim
  masked _ := (by decide : Csr.reset.mstatus.getLsbD 3 = false)

end Steps

/-! ## What the SPI master answers -/

theorem transfer_ends (b : Byte) :
    Ends chip anyOutside (SpiHolds []) (transfer (b.setWidth 32)) fun r v ↦ r = b.setWidth 32 ∧ SpiHolds [] v := by
  refine Ends.access (M := fun _ ↦ SpiHolds [b]) (fun _ _ _ h ↦ h.idle) (fun v o _ h ↦ ?_) (fun _ _ _ _ h ↦ h.idle)
    fun _ ↦ spi_poll_ends fun _ ↦ spi_rxdata_ends <| Ends.done fun _ h ↦ ⟨rfl, h⟩
  have hsent : SpiHolds ([] ++ [(b.setWidth 32).setWidth 8])
      (chip.step v (some (.store (qarSpi0Base + qarSpiTxdata) (b.setWidth 32))) o) := h.write (by decide)
  rwa [setWidth_byte] at hsent

/-- A status of a master that has nothing under way: room to send, and nothing to read. -/
def Drained (s : Word) : Prop := s.getLsbD 0 = true ∧ s.getLsbD 1 = false

theorem drained_of_holds {v : Devices} (h : SpiHolds [] v) : Drained v.spi0.statusValue := by
  have hpipe := h.pipe
  rw [Spi.pipe, List.append_eq_nil_iff, List.append_eq_nil_iff] at hpipe
  have hrx : v.spi0.rxFifo.count = 0 := by
    rw [← Clocked.Ring.contents_length, hpipe.1.1]
    rfl
  have htx : v.spi0.txFifo.count = 0 := by
    rw [← Clocked.Ring.contents_length, hpipe.2]
    rfl
  constructor
  · have hfull : v.spi0.txFifo.wideFull = false := by
      rw [← Bool.not_eq_true, Clocked.Ring.wideFull_iff (by decide), htx]
      exact fun hf ↦ absurd hf.1 (by decide)
    rw [Spi.statusValue_fifos.1, hfull]
    rfl
  · rw [Spi.statusValue_fifos.2, Clocked.Ring.count_eq_zero.mp hrx]
    rfl

theorem status_ends :
    Ends chip anyOutside (SpiHolds []) (mmio32Read qarSpi0Base qarSpiStatus) fun s _ ↦ Drained s := by
  refine Ends.access (M := fun s _ ↦ Drained s) (fun _ _ _ h ↦ h.idle) (fun v o _ h ↦ ?_) (fun _ _ _ _ h ↦ h)
    fun _ ↦ Ends.done fun _ h ↦ h
  rw [chip_status]
  exact drained_of_holds h

theorem setUp_ends : Ends chip anyOutside (fun v ↦ v.spi0.Quiet)
    (do mmio32Write qarSpi0Base qarSpiCtrl 0x11#32
        mmio32Write qarSpi0Base qarSpiClkdiv 1#32
        mmio32Write qarSpi0Base qarSpiCs 1#32) fun _ ↦ SpiHolds [] := by
  have hctrl : Ends chip anyOutside (SpiSetUp none none) (mmio32Write qarSpi0Base qarSpiCtrl 0x11#32) fun _ ↦
      SpiSetUp (some 0x11#32) none := spi_store_ends qarSpiCtrl rfl (by decide)
  have hclkdiv : Ends chip anyOutside (SpiSetUp (some 0x11#32) none) (mmio32Write qarSpi0Base qarSpiClkdiv 1#32)
      fun _ ↦ SpiSetUp (some 0x11#32) none := spi_store_ends qarSpiClkdiv rfl (by decide)
  have hcs : Ends chip anyOutside (SpiSetUp (some 0x11#32) none) (mmio32Write qarSpi0Base qarSpiCs 1#32) fun _ ↦
      SpiSetUp (some 0x11#32) (some 1#32) := spi_store_ends qarSpiCs rfl (by decide)
  refine (Ends.bind hctrl fun _ ↦ Ends.bind hclkdiv fun _ ↦ hcs).mono (fun v hv ↦ ⟨hv, nofun, nofun⟩) fun _ v h ↦ ?_
  exact h.holds rfl rfl (by decide)

/-- However the accesses are spaced, both bytes come back, and the status at last shows that nothing is under way. -/
theorem accesses_end : Ends chip anyOutside (fun v ↦ v.spi0.Quiet) accesses fun r _ ↦
    r.1 = 0xA5#32 ∧ r.2.1 = 0x3C#32 ∧ Drained r.2.2 := by
  have hrest : Ends chip anyOutside (SpiHolds []) ((transfer 0xA5#32).bind fun r₀ ↦ (transfer 0x3C#32).bind fun r₁ ↦
      (mmio32Read qarSpi0Base qarSpiStatus).bind fun s ↦ .done (r₀, r₁, s)) fun r _ ↦
        r.1 = 0xA5#32 ∧ r.2.1 = 0x3C#32 ∧ Drained r.2.2 := by
    refine Ends.bind (transfer_ends 0xA5#8) fun r₀ ↦ Ends.of_fact fun h₀ ↦
      Ends.bind (transfer_ends 0x3C#8) fun r₁ ↦ Ends.of_fact fun h₁ ↦ Ends.bind status_ends fun s ↦ ?_
    exact Ends.done fun _ h ↦ ⟨h₀, h₁, h⟩
  have hall := Ends.bind setUp_ends fun _ ↦ hrest
  exact hall

end SpiLoopback

end QarCore
