import QarCore.Core.Latency
import QarCore.Soc.Refinement

/-!
# Programs on the chip

A program that uses documented instructions, leaves the peripherals alone and never enables interrupts is a
hart of the instruction set on the chip, whatever the pins, the wait states and the peripherals do.  Where the
hart settles the chip settles.
-/

namespace QarCore

universe u

open Rv32i (Hart)

variable {M : Type u} {imem : Word → Word} {d : DataMem M} {regs : RegIdx → Word} {mem : M}

/-- The program keeps to itself: no step reads what the hart does not own, and interrupts stay masked. -/
structure SelfContained (imem : Word → Word) (d : DataMem M) (regs : RegIdx → Word) (mem : M) : Prop where
  documented : ∀ n, Documented imem d (Hart.after (hartPlatform d) imem n (Hart.reset regs mem))
  masked : ∀ n, (Hart.after (hartPlatform d) imem n (Hart.reset regs mem)).csrs.mstatus.getLsbD 3 = false

/-- The registers, the CSRs and the data memory of the board are those of the hart. -/
structure Board.Shows (b : Board M) (h : Hart Csr M) : Prop where
  regs : b.core.regs = h.regs
  csrs : b.core.csr = h.csrs
  mem : b.mem = h.mem

section Board

variable {env : Nat → Inputs}

-- In every cycle the board shows the hart after as many instructions as have left EX.
theorem SelfContained.shows (hs : SelfContained imem d regs mem) (env : Nat → Inputs) (t : Nat) :
    (Board.run .noCache imem d regs mem env t).Shows
      (Hart.after (hartPlatform d) imem (events .noCache imem d regs mem env t).length (Hart.reset regs mem)) := by
  have hw : Config.noCache.icacheEnabled → Front.WordFits (HoldsWord imem) := nofun
  have hirq := @noInterrupt_of_masked _ _ _ _ _ env hs.documented hs.masked
  have hsim := sim_run hw (clean_of_disabled rfl (t := t) fun u _ ↦ hirq u)
  have hhart := toHart_foldl _ (Arch.reset regs mem) (events_exec (t := t) fun u _ ↦ hirq u) hs.documented
  change (archAt .noCache imem d regs mem env t).toHart = Hart.after _ _ _ (Hart.reset regs mem) at hhart
  rw [← hhart]
  exact ⟨hsim.regs, hsim.csr, hsim.mem⟩

section Settles

variable (hs : SelfContained imem d regs mem) {Q : Hart Csr M → Prop} {n : Nat}
  (hQ : ∀ k, n ≤ k → Q (Hart.after (hartPlatform d) imem k (Hart.reset regs mem)))

include hs

theorem SelfContained.clean (env : Nat → Inputs) (t : Nat) : CleanUntil .noCache imem d regs mem env t :=
  clean_of_disabled rfl fun u _ ↦ noInterrupt_of_masked hs.documented hs.masked u

include hQ

theorem SelfContained.shows_of_le {t : Nat} (ht : n ≤ (events .noCache imem d regs mem env t).length) :
    ∃ h, Q h ∧ (Board.run .noCache imem d regs mem env t).Shows h :=
  ⟨_, hQ _ ht, hs.shows env t⟩

-- What holds of the hart from a step on holds of a board from a cycle on, if its requests are answered.
theorem SelfContained.settles (hfair : Fair .noCache imem d regs mem env) :
    ∃ T, ∀ t, T ≤ t → ∃ h, Q h ∧ (Board.run .noCache imem d regs mem env t).Shows h := by
  have hw : Config.noCache.icacheEnabled → Front.WordFits (HoldsWord imem) := nofun
  obtain ⟨T, hT⟩ := events_unbounded hw (hs.clean env) hfair n
  exact ⟨T, fun t ht ↦ hs.shows_of_le hQ (hT.trans (Clocked.trace_length_mono _ ht))⟩

-- With answers in time the cycle is known.
theorem SelfContained.settles_within {W : Nat} (ha : AnsweredWithin W .noCache imem d regs mem env) (t : Nat)
    (ht : n * (2 * W + 6) ≤ t) : ∃ h, Q h ∧ (Board.run .noCache imem d regs mem env t).Shows h := by
  have hw : Config.noCache.icacheEnabled → Front.WordFits (HoldsWord imem) := nofun
  have hsteps := steps_in_time W .noCache imem d regs mem env hw (hs.clean env) ha 0 n
  rw [Nat.zero_add] at hsteps
  exact hs.shows_of_le hQ (le_trans (by omega) (hsteps.trans (Clocked.trace_length_mono _ ht)))

end Settles

end Board

namespace Soc

variable {v : Devices} {inp : Nat → SocInputs}

/-- Every request of the chip on either bus is answered in the end. -/
def Answered (imem : Word → Word) (d : DataMem M) (regs : RegIdx → Word) (mem : M) (v : Devices)
    (inp : Nat → SocInputs) : Prop :=
  (∀ t, (after .noCache imem d regs mem v inp t).board.core.front.fetchReqPending →
    ∃ u, t ≤ u ∧ (inp u).imemReady) ∧
  ∀ t, (after .noCache imem d regs mem v inp t).board.core.dmem.memReqValid → ∃ u, t ≤ u ∧ (inp u).memReady

theorem Answered.fair (h : Answered imem d regs mem v inp) :
    QarCore.Fair .noCache imem d regs mem (boardEnv .noCache imem d regs mem v inp) := by
  constructor
  · intro t ht
    rw [← board_after] at ht
    exact h.1 t ht
  · intro t ht
    rw [← board_after] at ht
    exact h.2 t ht

/-- Every request of the chip on either bus is answered within `W` cycles. -/
def AnsweredIn (W : Nat) (imem : Word → Word) (d : DataMem M) (regs : RegIdx → Word) (mem : M) (v : Devices)
    (inp : Nat → SocInputs) : Prop :=
  (∀ t, (after .noCache imem d regs mem v inp t).board.core.front.fetchReqPending →
    Clocked.Within W (fun u ↦ (inp u).imemReady) t) ∧
  ∀ t, (after .noCache imem d regs mem v inp t).board.core.dmem.memReqValid →
    Clocked.Within W (fun u ↦ (inp u).memReady) t

theorem AnsweredIn.answeredWithin {W : Nat} (h : AnsweredIn W imem d regs mem v inp) :
    AnsweredWithin W .noCache imem d regs mem (boardEnv .noCache imem d regs mem v inp) := by
  constructor
  · intro t ht
    rw [← board_after] at ht
    exact h.1 t ht
  · intro t ht
    rw [← board_after] at ht
    exact h.2 t ht

theorem AnsweredIn.answered {W : Nat} (h : AnsweredIn W imem d regs mem v inp) : Answered imem d regs mem v inp := by
  constructor
  · intro t ht
    obtain ⟨u, htu, -, hu⟩ := h.1 t ht
    exact ⟨u, htu, hu⟩
  · intro t ht
    obtain ⟨u, htu, -, hu⟩ := h.2 t ht
    exact ⟨u, htu, hu⟩

-- Memories that answer at once.
theorem quick_answeredIn : AnsweredIn 0 imem d regs mem v quick := ⟨fun _ _ ↦ .now rfl, fun _ _ ↦ .now rfl⟩

end Soc

end QarCore
