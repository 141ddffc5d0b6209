import Mathlib.Data.Finset.Card
import Mathlib.Logic.Function.Iterate
import Mathlib.Logic.Relation

/-!
# Unrolled recursions

A recursive function that may not end is given by its functional: the body, with the recursive calls
as an argument.  The recursion ends at an argument when some number of unrollings leaves no call open
there.
-/

namespace QarCore

namespace Unrolling

variable {α β : Type} {F : (α → β) → α → β} {R : α → α → Prop} {n m : ℕ} {x : α}

/-- After `n` unrollings no call is left at `x`: what would be called makes no difference. -/
def Settles (F : (α → β) → α → β) (n : ℕ) (x : α) : Prop := ∀ g g' : α → β, F^[n] g x = F^[n] g' x

/-- The body calls the function only at the successors of its argument. -/
def Local (F : (α → β) → α → β) (R : α → α → Prop) : Prop :=
  ∀ g g' x, (∀ y, R x y → g y = g' y) → F g x = F g' x

-- More unrollings change nothing.
theorem Settles.iterate_eq (h : Settles F n x) (hm : n ≤ m) (g g' : α → β) : F^[m] g x = F^[n] g' x := by
  obtain ⟨k, rfl⟩ := Nat.exists_eq_add_of_le hm
  rw [Function.iterate_add_apply]
  exact h _ _

theorem Local.settles_succ (hl : Local F R) (h : ∀ y, R x y → Settles F n y) : Settles F (n + 1) x := by
  intro g g'
  rw [Function.iterate_succ_apply', Function.iterate_succ_apply']
  apply hl
  exact fun y hy ↦ h y hy g g'

/-- No chain of successors from `x` comes to an element twice. -/
def AcyclicFrom (R : α → α → Prop) (x : α) : Prop :=
  ∀ y, Relation.ReflTransGen R x y → ¬ Relation.TransGen R y y

theorem AcyclicFrom.of_reaches {y : α} (h : AcyclicFrom R x) (hy : Relation.ReflTransGen R x y) :
    AcyclicFrom R y :=
  fun _ hz ↦ h _ (hy.trans hz)

theorem acyclicFrom_of_rank (r : α → ℕ) (h : ∀ x y, R x y → r y < r x) : AcyclicFrom R x := by
  intro y _ hcycle
  have hless : Relation.TransGen (fun m n : ℕ ↦ n < m) (r y) (r y) := hcycle.lift r h
  rw [Relation.transGen_eq_self] at hless
  exact absurd hless (lt_irrefl _)

-- A chain leaves fewer and fewer elements, where `visited` are those it has gone through.
theorem Local.settles_of_visited [DecidableEq α] (hl : Local F R) {S : Finset α} (hS : ∀ x y, R x y → x ∈ S)
    (visited : Finset α) (hv : ∀ v ∈ visited, Relation.TransGen R v x) (hx : AcyclicFrom R x)
    (hn : (S \ visited).card < n) : Settles F n x := by
  induction n generalizing x visited with
  | zero => exact absurd hn (Nat.not_lt_zero _)
  | succ n ih =>
    apply hl.settles_succ
    intro y hy
    have hnew : x ∉ visited := fun hmem ↦ hx x .refl (hv x hmem)
    apply ih (insert x visited)
    · intro v hmem
      rcases Finset.mem_insert.mp hmem with rfl | hmem
      · exact .single hy
      · exact (hv v hmem).tail hy
    · exact hx.of_reaches (.single hy)
    · have hless : (S \ insert x visited).card < (S \ visited).card := by
        apply Finset.card_lt_card
        rw [Finset.sdiff_insert]
        exact Finset.erase_ssubset (Finset.mem_sdiff.mpr ⟨hS x y hy, hnew⟩)
      omega

-- A recursion over a finite relation ends where there is no cycle.
theorem Local.settles_of_acyclic [DecidableEq α] (hl : Local F R) {S : Finset α} (hS : ∀ x y, R x y → x ∈ S)
    (hx : AcyclicFrom R x) : Settles F (S.card + 1) x := by
  apply hl.settles_of_visited hS ∅ _ hx
  · rw [Finset.sdiff_empty]
    exact Nat.lt_succ_self _
  · exact fun v hv ↦ absurd hv (Finset.notMem_empty v)

end Unrolling

end QarCore
