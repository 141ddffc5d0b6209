import QarCore.Core.PipelineIsa

/-!
# The instruction cache is transparent while no hit is lost

A cached and an uncached run of one program let the same instructions leave EX, as long as the
cached run loses no hit (`Front.hitLost`).  A two-instruction loop in a two-entry cache loses one.
-/

namespace QarCore

universe u

open Rv32i (Hart decode)

variable {M : Type u} {cfg : Config} {imem : Word → Word} {d : DataMem M} {a : Arch M}
  {regs : RegIdx → Word} {m : M}

/-- An instruction memory of 32-bit words, addressed like the internal ROM: without the two low
address bits. -/
def romWord (rom : Nat → Word) (addr : Word) : Word := rom (addr.toNat / 4)

theorem wordFits_romWord (rom : Nat → Word) : Front.WordFits (HoldsWord (romWord rom)) := by
  intro x y instr hxy hx
  unfold HoldsWord romWord at *
  rw [hx, hxy]

/-! ## Equal answers -/

/-- The instructions at one place of the two lists ask for the same: where they read `mip`, `mtime`
or a peripheral, they read the same. -/
def SameAnswers (imem : Word → Word) (d : DataMem M) (regs : RegIdx → Word) (m : M)
    (es fs : List Event) : Prop :=
  ∀ n v v', es[n]? = some (.exec v) → fs[n]? = some (.exec v') →
    ((es.take n).foldl (Arch.step imem d) (Arch.reset regs m)).action imem v =
      ((es.take n).foldl (Arch.step imem d) (Arch.reset regs m)).action imem v'

theorem agreeAt_of_sameAnswers {es fs : List Event} (h : SameAnswers imem d regs m es fs)
    (he : ∀ e ∈ es, ∃ v, e = .exec v) (hf : ∀ e ∈ fs, ∃ v, e = .exec v) :
    Clocked.AgreeAt (Arch.step imem d) (Arch.left imem) (Arch.reset regs m) es fs := by
  intro n e f hn hn'
  obtain ⟨v, rfl⟩ := he e (List.mem_of_getElem? hn)
  obtain ⟨v', rfl⟩ := hf f (List.mem_of_getElem? hn')
  refine ⟨?_, rfl⟩
  simp only [Arch.step]
  rw [h n v v' hn hn']

-- Documented instructions read nothing volatile.
theorem action_documented (hd : Documented imem d a.toHart) (v v' : Volatile) :
    a.action imem v = a.action imem v' := by
  obtain ⟨instr, h, h1, h2, hw⟩ := hd
  cases ha : (a.toHart.effect (hartPlatform d) instr).access with
  | some acc => rw [action_of_access h h1 h2 hw ha, action_of_access h h1 h2 hw ha]
  | none =>
    rw [action_eq_actionOf h, action_eq_actionOf h]
    cases instr with
    | csr fn rd rs1 addr =>
      have hread : ∀ w : Volatile, (a.exIn imem w).operands.csr addr = csrRead a.csr 0 0 addr :=
        fun w ↦ csrRead_noVolatile (fun he ↦ h1 (by rw [he]; rfl)) fun he ↦ h2 (by rw [he]; rfl)
      cases fn <;> simp only [actionOf, hread] <;> rfl
    | lw rd rs1 imm => cases ha
    | _ => rfl

theorem sameAnswers_of_documented {es fs : List Event} (hes : ∀ e ∈ es, ∃ v, e = .exec v)
    (hdoc : ∀ n, Documented imem d (Hart.after (hartPlatform d) imem n (Hart.reset regs m))) :
    SameAnswers imem d regs m es fs := by
  intro n v v' _ _
  have htake : ∀ e ∈ es.take n, ∃ v, e = .exec v := fun e he ↦ hes e (List.mem_of_mem_take he)
  refine action_documented (d := d) ?_ v v'
  rw [toHart_foldl _ _ htake hdoc]
  exact hdoc _

/-! ## Transparency -/

-- As many instructions have left EX as the reference machine has made steps.
theorem left_length {env : Nat → Inputs} {t : Nat} (hw : Front.WordFits (HoldsWord imem))
    (hirq : NoInterruptUntil cfg imem d regs m env t)
    (hlost : NoHitLostUntil cfg imem d regs m env t) :
    (Board.shown leftObs cfg imem d regs m env t).length =
      (events cfg imem d regs m env t).length := by
  rw [shown_run (Arch.left imem) (fun _ _ _ hs _ ↦ hs.left_shown) (fun _ ↦ hw)
    (clean_of_noInterrupt hirq hlost)]
  refine Clocked.emitted_length_of_isSome (fun a e he ↦ ?_) _
  obtain ⟨v, rfl⟩ := events_exec hirq e he
  rfl

/-- While no hit is lost, what leaves EX is what leaves EX without a cache; and if no hit is ever
lost and the buses answer, the instructions keep leaving. -/
theorem icache_transparent (rom : Nat → Word) (d : DataMem M) (regs : RegIdx → Word) (m : M)
    (env env' : Nat → Inputs) (t t' : Nat)
    (hirq : NoInterruptUntil cfg (romWord rom) d regs m env t)
    (hlost : NoHitLostUntil cfg (romWord rom) d regs m env t)
    (hirq' : NoInterruptUntil .noCache (romWord rom) d regs m env' t')
    (hsame : SameAnswers (romWord rom) d regs m (events cfg (romWord rom) d regs m env t)
      (events .noCache (romWord rom) d regs m env' t')) :
    (Board.shown leftObs cfg (romWord rom) d regs m env t <+:
        Board.shown leftObs .noCache (romWord rom) d regs m env' t' ∨
      Board.shown leftObs .noCache (romWord rom) d regs m env' t' <+:
        Board.shown leftObs cfg (romWord rom) d regs m env t) ∧
    ((∀ u, NoInterruptUntil cfg (romWord rom) d regs m env u) →
      (∀ u, NoHitLostUntil cfg (romWord rom) d regs m env u) →
      Fair cfg (romWord rom) d regs m env →
      ∀ n, ∃ u, n ≤ (Board.shown leftObs cfg (romWord rom) d regs m env u).length) := by
  have hw := wordFits_romWord rom
  refine ⟨?_, fun hi hl hfair n ↦ ?_⟩
  · rw [shown_run (Arch.left (romWord rom)) (fun _ _ _ hs _ ↦ hs.left_shown) (fun _ ↦ hw)
        (clean_of_noInterrupt hirq hlost),
      shown_run (Arch.left (romWord rom)) (fun _ _ _ hs _ ↦ hs.left_shown) (fun _ ↦ hw)
        (clean_of_disabled rfl hirq')]
    exact Clocked.emitted_prefix
      (agreeAt_of_sameAnswers hsame (events_exec hirq) (events_exec hirq'))
  · obtain ⟨u, hu⟩ := events_unbounded (fun _ ↦ hw) (fun u ↦ clean_of_noInterrupt (hi u) (hl u))
      hfair n
    exact ⟨u, by rw [left_length hw (hi u) (hl u)]; exact hu⟩

/-! ## A lost hit -/

/-- `addi x1, x1, 1; jal x0, -4`. -/
def countLoop (n : Nat) : Word := if n = 0 then 0x00108093#32 else 0xFFDFF06F#32

/-- `ICACHE_ENTRIES = 2`. -/
def twoEntries : Config := .withCache 1 (by decide) (by decide)

/-- Both buses answer in every cycle. -/
def fastBuses (_ : Nat) : Inputs := { quietInputs with imemReady := true, memReady := true }

/-- The loop stays at its two pcs. -/
def InCountLoop (h : Hart Csr (Word → Word)) : Prop := h.pc = 0#32 ∨ h.pc = 4#32

theorem inCountLoop_step (h : Hart Csr (Word → Word)) (hl : InCountLoop h) :
    InCountLoop (h.step (hartPlatform wordMem) (romWord countLoop)) := by
  unfold Hart.step
  rcases hl with hpc | hpc <;> rw [hpc]
  · rw [show decode (romWord countLoop 0#32) = some (.addi 1#5 1#5 1#12) from
      Rv32i.decode_eq_some.mpr (by decide)]
    refine .inr ?_
    change h.pc + 4#32 = 4#32
    rw [hpc]; rfl
  · rw [show decode (romWord countLoop 4#32) = some (.jal 0#5 0xFFFFE#20) from
      Rv32i.decode_eq_some.mpr (by decide)]
    have hjal : ∀ imm, (h.exec (hartPlatform wordMem) (.jal 0#5 imm)).pc =
        h.pc + Rv32i.offset imm := fun _ ↦ rfl
    exact .inl ((hjal _).trans (by rw [hpc]; decide))

theorem countLoop_documented (n : Nat) : Documented (romWord countLoop) wordMem
    (Hart.after (hartPlatform wordMem) (romWord countLoop) n
      (Hart.reset (fun _ ↦ 0#32) fun _ ↦ 0#32)) := by
  have hin : InCountLoop (Hart.after (hartPlatform wordMem) (romWord countLoop) n
      (Hart.reset (fun _ ↦ 0#32) fun _ ↦ 0#32)) :=
    Rv32i.Hart.after_invariant _ _ inCountLoop_step n _ (.inl rfl)
  unfold Documented
  rcases hin with hpc | hpc <;> rw [hpc]
  · exact ⟨.addi 1#5 1#5 1#12, Rv32i.decode_eq_some.mpr (by decide), nofun, nofun, nofun⟩
  · exact ⟨.jal 0#5 0xFFFFE#20, Rv32i.decode_eq_some.mpr (by decide), nofun, nofun, nofun⟩

/-- In its first 9 cycles the cached loop takes a hit and loses none. -/
theorem icache_transparent_countLoop :
    NoInterruptUntil twoEntries (romWord countLoop) wordMem (fun _ ↦ 0#32) (fun _ ↦ 0#32)
        fastBuses 9 ∧
      NoHitLostUntil twoEntries (romWord countLoop) wordMem (fun _ ↦ 0#32) (fun _ ↦ 0#32)
        fastBuses 9 ∧
      (Board.shown leftObs twoEntries (romWord countLoop) wordMem (fun _ ↦ 0#32) (fun _ ↦ 0#32)
          fastBuses 9 <+:
        Board.shown leftObs .noCache (romWord countLoop) wordMem (fun _ ↦ 0#32) (fun _ ↦ 0#32)
          fastBuses 20 ∨
      Board.shown leftObs .noCache (romWord countLoop) wordMem (fun _ ↦ 0#32) (fun _ ↦ 0#32)
          fastBuses 20 <+:
        Board.shown leftObs twoEntries (romWord countLoop) wordMem (fun _ ↦ 0#32) (fun _ ↦ 0#32)
          fastBuses 9) := by
  have hirq : NoInterruptUntil twoEntries (romWord countLoop) wordMem (fun _ ↦ 0#32)
      (fun _ ↦ 0#32) fastBuses 9 := by decide +kernel
  have hlost : NoHitLostUntil twoEntries (romWord countLoop) wordMem (fun _ ↦ 0#32)
      (fun _ ↦ 0#32) fastBuses 9 := by decide +kernel
  have hirq' : NoInterruptUntil .noCache (romWord countLoop) wordMem (fun _ ↦ 0#32)
      (fun _ ↦ 0#32) fastBuses 20 := by decide +kernel
  exact ⟨hirq, hlost, (icache_transparent countLoop wordMem (fun _ ↦ 0#32) (fun _ ↦ 0#32)
    fastBuses fastBuses 9 20 hirq hlost hirq'
    (sameAnswers_of_documented (events_exec hirq) countLoop_documented)).1⟩

/-- The second pass of the loop drops the jump: after `addi` at pc 0 the cached core executes the
word at pc 8, the uncached one the jump at pc 4. -/
theorem countLoop_drops :
    NoInterruptUntil twoEntries (romWord countLoop) wordMem (fun _ ↦ 0#32) (fun _ ↦ 0#32)
        fastBuses 20 ∧
      NoInterruptUntil .noCache (romWord countLoop) wordMem (fun _ ↦ 0#32) (fun _ ↦ 0#32)
        fastBuses 20 ∧
      (Board.shown leftObs twoEntries (romWord countLoop) wordMem (fun _ ↦ 0#32) (fun _ ↦ 0#32)
        fastBuses 20).map Prod.fst = [0#32, 4#32, 0#32, 8#32, 4#32] ∧
      (Board.shown leftObs .noCache (romWord countLoop) wordMem (fun _ ↦ 0#32) (fun _ ↦ 0#32)
        fastBuses 20).map Prod.fst = [0#32, 4#32, 0#32, 4#32, 0#32] := by
  refine ⟨?_, ?_, ?_, ?_⟩ <;> decide +kernel

end QarCore
