import QarCore.Core.Cache
import QarCore.Core.PrefetchQueue

/-!
# What the instruction cache holds

Every valid line is the memory word at the address made of its tag and its index, because it was filled
for such an address: a request remembers index and tag of its own address, and a flush forgets it.
-/

namespace QarCore

namespace Front

variable {cfg : Config} {f : Front} {w : FrontWires} {fits : Word → Word → Prop} {k : Nat}

/-- `{tag, index, 2'b00}`, for a cache of `2 ^ k` lines. -/
def lineAddr (k tag index : Nat) : Word := BitVec.ofNat 32 ((tag * 2 ^ k + index) * 4)

/-- The cache of `2 ^ k` lines of a core on the instruction memory `imem`. -/
structure HoldsMemory (k : Nat) (cfg : Config) (imem : Word → Word) (f : Front) : Prop where
  line : ∀ j, (f.icache j).valid → j < 2 ^ k ∧ (f.icache j).tag < 2 ^ (30 - k) ∧
    (f.icache j).data = imem (lineAddr k (f.icache j).tag j)
  hit : f.icacheLookupHit cfg → f.icacheLookupWord cfg = imem f.pcFetch

/-- Every valid line has been filled for some address. -/
def FilledLines (cfg : Config) (f : Front) : Prop :=
  ∀ j, (f.icache j).valid → ∃ a, j = cacheIndex cfg a ∧ (f.icache j).tag = cacheTag cfg a

theorem icacheIndexBits_withCache (h1 : 1 ≤ k) (h29 : k ≤ 29) :
    (Config.withCache k h1 h29).icacheIndexBits = k := by
  have hlog : ∀ n ≤ 29, 1 ≤ n → clog2 (2 ^ n) = n := by decide
  have hpos : 2 ^ k > 0 := Nat.two_pow_pos k
  rw [Config.icacheIndexBits, Config.withCache, if_pos hpos]
  exact hlog k h29 h1

theorem icacheEnabled_withCache (h1 : 1 ≤ k) (h29 : k ≤ 29) :
    (Config.withCache k h1 h29).icacheEnabled := decide_eq_true (Nat.two_pow_pos k)

-- The address of a line is the one it was filled for, but for the two low bits.
theorem lineAddr_word (k : Nat) (a : Word) :
    (lineAddr k (a.toNat / 4 / 2 ^ k) (a.toNat / 4 % 2 ^ k)).toNat / 4 = a.toNat / 4 := by
  have ha := a.isLt
  have hjoin : a.toNat / 4 / 2 ^ k * 2 ^ k + a.toNat / 4 % 2 ^ k = a.toNat / 4 := Nat.div_add_mod' _ _
  rw [lineAddr, hjoin, BitVec.toNat_ofNat]
  omega

theorem cacheTag_lt (hk : k ≤ 29) (a : Word) : a.toNat / 4 / 2 ^ k < 2 ^ (30 - k) := by
  have ha := a.isLt
  have hpow : 2 ^ k * 2 ^ (30 - k) = 2 ^ 30 := by rw [← pow_add, show k + (30 - k) = 30 by omega]
  apply Nat.div_lt_of_lt_mul
  rw [hpow]
  omega

theorem FilledLines.next (h : FilledLines cfg f) (hc : CacheOk cfg fits f) :
    FilledLines cfg (f.next cfg w) := by
  by_cases hf : w.flush
  · rw [next_flush hf]
    exact h
  · rw [Bool.not_eq_true] at hf
    unfold FilledLines
    rw [next_icache hf]
    by_cases hfill : f.answered w && f.fetchReqCacheable && cfg.icacheEnabled
    · simp only [hfill, ↓reduceIte]
      simp only [answered, Bool.and_eq_true] at hfill
      obtain ⟨hidx, htag⟩ := hc.fill hfill.1.1.1 hfill.1.2
      intro j hj
      by_cases hline : j = f.icacheFillIndex
      · simp only [hline, ↓reduceIte]
        exact ⟨f.fetchReqAddr, hidx, htag⟩
      · simp only [hline, ↓reduceIte] at hj ⊢
        exact h j hj
    · simp only [hfill]
      exact h

-- A filled line is at the address it was filled for.
theorem CacheOk.holdsMemory {rom : Nat → Word} (hc : CacheOk cfg (HoldsWord (romWord rom)) f)
    (h : FilledLines cfg f) (he : cfg.icacheEnabled) (hbits : cfg.icacheIndexBits = k) (hk : k ≤ 29) :
    f.HoldsMemory k cfg (romWord rom) := by
  refine ⟨fun j hj ↦ ?_, hc.lookup⟩
  obtain ⟨a, rfl, htag⟩ := h j hj
  have hword : _ = romWord rom a := hc.line a hj htag
  have hindex : cacheIndex cfg a = a.toNat / 4 % 2 ^ k := by rw [cacheIndex, if_pos he, hbits]
  rw [htag, hword, cacheTag, hbits, hindex, romWord, romWord, lineAddr_word]
  exact ⟨Nat.mod_lt _ (Nat.two_pow_pos k), cacheTag_lt hk a, rfl⟩

end Front

section

variable {cfg : Config} {rom : Nat → Word} {regs : RegIdx → Word} {inp : Nat → Inputs}

theorem cache_run (h : FetchesFrom (romWord rom) cfg regs inp) (t : Nat) :
    (Core.run cfg regs inp t).front.CacheOk cfg (HoldsWord (romWord rom)) ∧
      (Core.run cfg regs inp t).front.FilledLines cfg := by
  induction t with
  | zero => exact ⟨Front.cacheOk_reset, fun j hj ↦ by cases hj⟩
  | succ t ih =>
    rw [front_succ]
    exact ⟨ih.1.next (fun _ ↦ wordFits_romWord rom) (h.answered t), ih.2.next ih.1⟩

/-- No stale hit, in any cycle of any run: every valid line holds the word at the address of its tag and
index, and what a hit delivers is the word at `pc_fetch`. -/
theorem no_stale_hit (k : Nat) (h1 : 1 ≤ k) (h29 : k ≤ 29) (rom : Nat → Word) (regs : RegIdx → Word)
    (inp : Nat → Inputs) (h : FetchesFrom (romWord rom) (.withCache k h1 h29) regs inp) (t : Nat) :
    (Core.run (.withCache k h1 h29) regs inp t).front.HoldsMemory k (.withCache k h1 h29) (romWord rom) := by
  obtain ⟨hc, hfilled⟩ := cache_run h t
  exact hc.holdsMemory hfilled (Front.icacheEnabled_withCache h1 h29)
    (Front.icacheIndexBits_withCache h1 h29) h29

end

/-- The loop hits in its two-entry cache in cycle 8, and the word is the one at `pc_fetch`. -/
theorem countLoop_hits : ∃ inp, FetchesFrom (romWord countLoop) twoEntries (fun _ ↦ 0#32) inp ∧
    (Core.run twoEntries (fun _ ↦ 0#32) inp 8).front.icacheLookupHit twoEntries ∧
    (Core.run twoEntries (fun _ ↦ 0#32) inp 8).front.icacheLookupWord twoEntries =
      romWord countLoop (Core.run twoEntries (fun _ ↦ 0#32) inp 8).front.pcFetch := by
  have h : FetchesFrom (romWord countLoop) twoEntries (fun _ ↦ 0#32)
      (Board.inputs twoEntries (romWord countLoop) wordMem (fun _ ↦ 0#32) (fun _ ↦ 0#32) fastBuses) :=
    fetchesFrom_board wordMem (fun _ ↦ 0#32) fastBuses
  have hhit : (Core.run twoEntries (fun _ ↦ 0#32) (Board.inputs twoEntries (romWord countLoop) wordMem
      (fun _ ↦ 0#32) (fun _ ↦ 0#32) fastBuses) 8).front.icacheLookupHit twoEntries := by
    rw [Core.run_inputs]
    decide +kernel
  exact ⟨_, h, hhit, (no_stale_hit 1 (by decide) (by decide) countLoop _ _ h 8).hit hhit⟩

end QarCore
