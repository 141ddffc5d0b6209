import QarCore.Clocked.Outline
import QarCore.Programs.OnChip
import QarCore.Programs.Testbench

/-!
# The sum of the positives

`sum_positive.qar` as instructions, with what holds at each of its lines: it adds up the words of an array
that are not negative, stores the sum in a subroutine and leaves a mark.
-/

namespace QarCore

namespace SumPositive

open Assembler (addrOf)
open Rv32i (Facts Hart Instr)

/-! ## The program -/

/-- The lines with their labels resolved. -/
def code : List Instr :=
  [.addi 1 0 0, .addi 2 0 6, .addi 10 0 0,
    -- loop
    .lw 3 1 0, .addi 1 1 4, .addi 2 2 (-1), .branch .lt 3 0 4, .op .add 10 10 3,
    -- skip_add
    .branch .ne 2 0 (-10),
    -- done
    .jal 5 8, .addi 12 0 0x123, .sw 0 12 68, .jal 0 6,
    -- store_sum
    .sw 0 10 64, .jalr 0 5 0,
    -- program_end
    .jal 0 0]

/-- `expected` of the testbench after `i` words. -/
def expected (m : Dmem 8) : Nat → Word
  | 0 => 0#32
  | i + 1 => expected m i + if (m (BitVec.ofNat 8 i)).slt 0#32 then 0#32 else m (BitVec.ofNat 8 i)

/-- The data memory the program leaves. -/
def result (m : Dmem 8) : Dmem 8 :=
  Function.update (Function.update m 16#8 (expected m 6)) 17#8 0x123#32

/-! ## What holds at the lines -/

/-- The lines, those of the loop with the number of words done before.  The line that adds a word is only
reached with one that is not negative. -/
inductive At (m : Dmem 8)
  | base | length | accumulator
  | load (i : Fin 6) | pointer (i : Fin 6) | count (i : Fin 6) | sign (i : Fin 6)
  | add (i : Fin 6) (h : (m (BitVec.ofNat 8 i)).slt 0#32 = false)
  | skipAdd (i : Fin 6)
  | done | marker | flag | leave | storeSum | back | programEnd

namespace At

variable {m : Dmem 8}

def line : At m → Nat
  | base => 0
  | length => 1
  | accumulator => 2
  | load _ => 3
  | pointer _ => 4
  | count _ => 5
  | sign _ => 6
  | add _ _ => 7
  | skipAdd _ => 8
  | done => 9
  | marker => 10
  | flag => 11
  | leave => 12
  | storeSum => 13
  | back => 14
  | programEnd => 15

/-- The number of steps to the end, and a few more where words are skipped. -/
def rank : At m → Nat
  | base => 54
  | length => 53
  | accumulator => 52
  | load i => 6 * (6 - i) + 15
  | pointer i => 6 * (6 - i) + 14
  | count i => 6 * (6 - i) + 13
  | sign i => 6 * (6 - i) + 12
  | add i _ => 6 * (6 - i) + 11
  | skipAdd i => 6 * (6 - i) + 10
  | done => 9
  | storeSum => 8
  | back => 7
  | marker => 6
  | flag => 5
  | leave => 4
  | programEnd => 0

/-- The registers that matter from a line on. -/
def regs : At m → List (Rv32i.Reg × Word)
  | base => []
  | length => [(1#5, addrOf 0)]
  | accumulator => [(1#5, addrOf 0), (2#5, 6#32)]
  | load i => [(1#5, addrOf i), (2#5, BitVec.ofNat 32 (6 - i)), (10#5, expected m i)]
  | pointer i => [(1#5, addrOf i), (2#5, BitVec.ofNat 32 (6 - i)), (3#5, m (BitVec.ofNat 8 i)), (10#5, expected m i)]
  | count i => [(1#5, addrOf (i + 1)), (2#5, BitVec.ofNat 32 (6 - i)), (3#5, m (BitVec.ofNat 8 i)),
      (10#5, expected m i)]
  | sign i => [(1#5, addrOf (i + 1)), (2#5, BitVec.ofNat 32 (6 - (i + 1))), (3#5, m (BitVec.ofNat 8 i)),
      (10#5, expected m i)]
  | add i _ => [(1#5, addrOf (i + 1)), (2#5, BitVec.ofNat 32 (6 - (i + 1))), (3#5, m (BitVec.ofNat 8 i)),
      (10#5, expected m i)]
  | skipAdd i => [(1#5, addrOf (i + 1)), (2#5, BitVec.ofNat 32 (6 - (i + 1))), (10#5, expected m (i + 1))]
  | done => [(10#5, expected m 6)]
  | storeSum => [(5#5, addrOf 10), (10#5, expected m 6)]
  | back => [(5#5, addrOf 10), (10#5, expected m 6)]
  | marker => [(10#5, expected m 6)]
  | flag => [(10#5, expected m 6), (12#5, 0x123#32)]
  | leave => [(10#5, expected m 6)]
  | programEnd => [(10#5, expected m 6)]

def mem : At m → Dmem 8
  | back => Function.update m 16#8 (expected m 6)
  | marker => Function.update m 16#8 (expected m 6)
  | flag => Function.update m 16#8 (expected m 6)
  | leave => result m
  | programEnd => result m
  | _ => m

def facts (a : At m) : Facts Csr (Dmem 8) := ⟨addrOf a.line, a.regs, Csr.reset, a.mem⟩

end At

/-- What the line of `a` reads and where it goes. -/
structure Step (m : Dmem 8) (a b : At m) (instr : Instr) (x y : Word) : Prop where
  line : code[a.line]? = some instr
  next : a.facts.Next (hartPlatform (testMem 8)) instr x y b.facts
  rank : a.line ≠ 15 → b.rank < a.rank
  access : ∀ acc, (a.facts.effect (hartPlatform (testMem 8)) instr x y).access = some acc → windowOf acc.addr = none

/-! ### The words of the array -/

theorem addrOf_word (i : Fin 6) : dmemIndex 8 (addrOf i) = BitVec.ofNat 8 i ∧ windowOf (addrOf i) = none := by
  revert i
  decide

theorem words_left (i : Fin 6) :
    BitVec.ofNat 32 (6 - i) + 4294967295#32 = BitVec.ofNat 32 (5 - i) ∧
      (BitVec.ofNat 32 (5 - i) = 0#32 ↔ i = 5) := by
  revert i
  decide

theorem testMem_load (m : Dmem 8) (addr : Word) :
    (hartPlatform (testMem 8)).load m addr = m (dmemIndex 8 addr) := rfl

theorem testMem_store (m : Dmem 8) (addr data : Word) :
    (hartPlatform (testMem 8)).store m addr data = Function.update m (dmemIndex 8 addr) data := rfl

theorem load_word (m : Dmem 8) (i : Fin 6) :
    (hartPlatform (testMem 8)).load m (addrOf i) = m (BitVec.ofNat 8 i) := by
  rw [testMem_load, (addrOf_word i).1]

theorem store_sum (m : Dmem 8) (data : Word) :
    (hartPlatform (testMem 8)).store m 64#32 data = Function.update m 16#8 data := by
  rw [testMem_store]
  rfl

theorem store_marker (m : Dmem 8) (data : Word) :
    (hartPlatform (testMem 8)).store m 68#32 data = Function.update m 17#8 data := by
  rw [testMem_store]
  rfl

/-! ### The lines -/

section Lines

variable (m : Dmem 8) (i : Fin 6)

attribute [local simp] At.facts At.line At.rank At.regs At.mem Rv32i.Instr.rd Rv32i.Instr.rs1 Rv32i.Instr.rs2
  Rv32i.effect Rv32i.Effect.written Rv32i.Effect.stored Rv32i.Effect.value Facts.effect Facts.Reads
  Rv32i.Cond.holds Rv32i.OpFn.apply Rv32i.Access.addr Rv32i.csrsAfter load_word store_sum store_marker
  addrOf_word Assembler.addrOf_succ

theorem step_base : Step m .base .length (.addi 1 0 0) 0 0 where
  line := rfl
  next := ⟨by simp, by simp, rfl, by simp; rfl, rfl, rfl⟩
  rank := by simp
  access := nofun

theorem step_length : Step m .length .accumulator (.addi 2 0 6) 0 0 where
  line := rfl
  next := ⟨by simp, by simp, rfl, by simp, rfl, rfl⟩
  rank := by simp
  access := nofun

theorem step_accumulator : Step m .accumulator (.load 0) (.addi 10 0 0) 0 0 where
  line := rfl
  next := ⟨by simp, by simp, rfl, by simp; rfl, rfl, rfl⟩
  rank := by simp
  access := nofun

theorem step_load : Step m (.load i) (.pointer i) (.lw 3 1 0) (addrOf i) 0 where
  line := rfl
  next := ⟨by simp, by simp, rfl, by simp, rfl, rfl⟩
  rank := by simp
  access := by simp

theorem step_pointer : Step m (.pointer i) (.count i) (.addi 1 1 4) (addrOf i) 0 where
  line := rfl
  next := ⟨by simp, by simp, rfl, by simp, rfl, rfl⟩
  rank := by simp
  access := nofun

theorem step_count : Step m (.count i) (.sign i) (.addi 2 2 (-1)) (BitVec.ofNat 32 (6 - i)) 0 where
  line := rfl
  next := ⟨by simp, by simp, rfl, by simpa using (words_left i).1, rfl, rfl⟩
  rank := by simp
  access := nofun

theorem step_sign_skip (h : (m (BitVec.ofNat 8 i)).slt 0#32) :
    Step m (.sign i) (.skipAdd i) (.branch .lt 3 0 4) (m (BitVec.ofNat 8 i)) 0 where
  line := rfl
  next := ⟨by simp, by simp, by simp [h]; rfl, by simp [expected, h], rfl, rfl⟩
  rank := by simp
  access := nofun

theorem step_sign_add (h : (m (BitVec.ofNat 8 i)).slt 0#32 = false) :
    Step m (.sign i) (.add i h) (.branch .lt 3 0 4) (m (BitVec.ofNat 8 i)) 0 where
  line := rfl
  next := ⟨by simp, by simp, by simp [h], by simp, rfl, rfl⟩
  rank := by simp
  access := nofun

theorem step_add (h : (m (BitVec.ofNat 8 i)).slt 0#32 = false) :
    Step m (.add i h) (.skipAdd i) (.op .add 10 10 3) (expected m i) (m (BitVec.ofNat 8 i)) where
  line := rfl
  next := ⟨by simp, by simp, by simp, by simp [expected, h], rfl, rfl⟩
  rank := by simp
  access := nofun

theorem step_skipAdd_loop (h : i ≠ 5) :
    Step m (.skipAdd i) (.load ⟨i + 1, by omega⟩) (.branch .ne 2 0 (-10)) (BitVec.ofNat 32 (5 - i)) 0 where
  line := rfl
  next := ⟨by simp, by simp, by simp [(words_left i).2, h]; rfl, by simp, rfl, rfl⟩
  rank := by
    simp
    omega
  access := nofun

theorem step_skipAdd_done : Step m (.skipAdd 5) .done (.branch .ne 2 0 (-10)) 0 0 where
  line := rfl
  next := ⟨by simp, by simp, by simp, by simp, rfl, rfl⟩
  rank := by simp
  access := nofun

theorem step_done : Step m .done .storeSum (.jal 5 8) 0 0 where
  line := rfl
  next := ⟨by simp, by simp, rfl, by simp, rfl, rfl⟩
  rank := by simp
  access := nofun

theorem step_storeSum : Step m .storeSum .back (.sw 0 10 64) 0 (expected m 6) where
  line := rfl
  next := ⟨by simp, by simp, rfl, by simp, rfl, by simp⟩
  rank := by simp
  access := by simp; decide

theorem step_back : Step m .back .marker (.jalr 0 5 0) (addrOf 10) 0 where
  line := rfl
  next := ⟨by simp, by simp, by simp; decide, by simp, by simp, by simp⟩
  rank := by simp
  access := nofun

theorem step_marker : Step m .marker .flag (.addi 12 0 0x123) 0 0 where
  line := rfl
  next := ⟨by simp, by simp, rfl, by simp, rfl, rfl⟩
  rank := by simp
  access := nofun

theorem step_flag : Step m .flag .leave (.sw 0 12 68) 0 0x123 where
  line := rfl
  next := ⟨by simp, by simp, rfl, by simp, rfl, by simp [result]⟩
  rank := by simp
  access := by simp; decide

theorem step_leave : Step m .leave .programEnd (.jal 0 6) 0 0 where
  line := rfl
  next := ⟨by simp, by simp, rfl, by simp, rfl, rfl⟩
  rank := by simp
  access := nofun

theorem step_programEnd : Step m .programEnd .programEnd (.jal 0 0) 0 0 where
  line := rfl
  next := ⟨by simp, by simp, rfl, by simp, rfl, rfl⟩
  rank := by simp
  access := nofun

end Lines

/-! ## The run -/

variable {m : Dmem 8} {imem : Word → Word} {h : Hart Csr (Dmem 8)} {a : At m}

theorem At.exists_step (a : At m) : ∃ b instr x y, Step m a b instr x y := by
  cases a with
  | base => exact ⟨_, _, _, _, step_base m⟩
  | length => exact ⟨_, _, _, _, step_length m⟩
  | accumulator => exact ⟨_, _, _, _, step_accumulator m⟩
  | load i => exact ⟨_, _, _, _, step_load m i⟩
  | pointer i => exact ⟨_, _, _, _, step_pointer m i⟩
  | count i => exact ⟨_, _, _, _, step_count m i⟩
  | sign i =>
    cases h : (m (BitVec.ofNat 8 i)).slt 0#32 with
    | true => exact ⟨_, _, _, _, step_sign_skip m i h⟩
    | false => exact ⟨_, _, _, _, step_sign_add m i h⟩
  | add i h => exact ⟨_, _, _, _, step_add m i h⟩
  | skipAdd i =>
    by_cases h : i = 5
    · rw [h]
      exact ⟨_, _, _, _, step_skipAdd_done m⟩
    · exact ⟨_, _, _, _, step_skipAdd_loop m i h⟩
  | done => exact ⟨_, _, _, _, step_done m⟩
  | marker => exact ⟨_, _, _, _, step_marker m⟩
  | flag => exact ⟨_, _, _, _, step_flag m⟩
  | leave => exact ⟨_, _, _, _, step_leave m⟩
  | storeSum => exact ⟨_, _, _, _, step_storeSum m⟩
  | back => exact ⟨_, _, _, _, step_back m⟩
  | programEnd => exact ⟨_, _, _, _, step_programEnd m⟩

theorem At.eq_programEnd (h : a.line = 15) : a = .programEnd := by
  cases a <;> first | rfl | cases h

theorem Step.holds {b : At m} {instr : Instr} {x y : Word} (hs : Step m a b instr x y) (hcode : CodeAt imem code)
    (ha : a.facts.Holds h) : b.facts.Holds (h.step (hartPlatform (testMem 8)) imem) :=
  ha.step (hcode a.line instr hs.line) hs.next

theorem outline (m : Dmem 8) (hcode : CodeAt imem code) :
    Clocked.Outline (fun h ↦ h.step (hartPlatform (testMem 8)) imem) (fun (a : At m) h ↦ a.facts.Holds h) At.rank
      (· = .programEnd) where
  next a h ha hne := by
    obtain ⟨b, instr, x, y, hs⟩ := a.exists_step
    exact ⟨b, hs.rank fun hline ↦ hne (At.eq_programEnd hline), hs.holds hcode ha⟩
  stay a h ha hend := by
    subst hend
    exact (step_programEnd m).holds hcode ha

-- At every line the instruction is documented and keeps to the data memory.
theorem At.documented (a : At m) (ha : a.facts.Holds h) (hcode : CodeAt imem code) : Documented imem (testMem 8) h := by
  obtain ⟨b, instr, x, y, hs⟩ := a.exists_step
  have hdec : Rv32i.decode (imem h.pc) = some instr := by
    rw [ha.pc]
    exact Rv32i.decode_eq_some.mpr (hcode a.line instr hs.line).symm
  have hcsr : instr.csrAddr = none := by
    have hall : ∀ instr ∈ code, instr.csrAddr = none := by decide
    exact hall instr (List.mem_of_getElem? hs.line)
  refine ⟨instr, hdec, by rw [hcsr]; nofun, by rw [hcsr]; nofun, ?_⟩
  rw [ha.effect_eq hs.next.rs1 hs.next.rs2]
  exact hs.access

theorem holds_reset (regs : RegIdx → Word) (m : Dmem 8) :
    (At.base : At m).facts.Holds (Hart.reset regs m) := ⟨rfl, nofun, rfl, rfl⟩

theorem selfContained (regs : RegIdx → Word) (m : Dmem 8) (hcode : CodeAt imem code) :
    SelfContained imem (testMem 8) regs m where
  documented n := by
    rw [Hart.after_eq_iterate]
    obtain ⟨a, ha⟩ := (outline m hcode).always (holds_reset regs m) n
    exact a.documented ha hcode
  masked n := by
    rw [Hart.after_eq_iterate]
    obtain ⟨a, ha⟩ := (outline m hcode).always (holds_reset regs m) n
    rw [ha.csrs]
    exact (by decide : Csr.reset.mstatus.getLsbD 3 = false)

/-- After 54 steps the hart is at the end: the sum is stored and in `x10`, and nothing else in memory has changed. -/
theorem hart_settles (regs : RegIdx → Word) (m : Dmem 8) (hcode : CodeAt imem code) (n : Nat) (hn : 54 ≤ n) :
    (At.programEnd : At m).facts.Holds (Hart.after (hartPlatform (testMem 8)) imem n (Hart.reset regs m)) := by
  obtain ⟨b, rfl, hb⟩ := (outline m hcode).settles (holds_reset regs m)
  rw [Hart.after_eq_iterate]
  exact hb n hn

end SumPositive

end QarCore
