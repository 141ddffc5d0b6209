import QarCore.Clocked.RingFifo

/-!
# Sticky bits

A sticky bit is set by its causes and then keeps its value until it is cleared.  Where a cause meets a
clear, the cause has the last word.  Two such bits report on a FIFO: one is set when it drains, and one
when it takes a word.
-/

namespace Clocked

universe u

/-- One edge of a sticky bit. -/
def latch (set clear old : Bool) : Bool := set || old && !clear

variable {set clear old : Bool}

theorem latch_iff : latch set clear old ↔ set ∨ old ∧ clear = false := by
  simp [latch]

theorem latch_of_set (h : set) : latch set clear old := by
  simp [latch, h]

@[simp] theorem latch_false : latch false clear old = (old && !clear) := rfl

-- Two assignments of one edge, the later one outside.
theorem latch_latch {set' clear' : Bool} :
    latch set clear (latch set' clear' old) = latch (set || (set' && !clear)) (clear' || clear) old := by
  cases set <;> cases clear <;> simp [latch]

/-- A sticky bit in a run, with its causes and its clears. -/
structure Sticky where
  bit : Nat → Bool
  set : Nat → Bool
  clear : Nat → Bool

structure Sticky.Law (b : Sticky) : Prop where
  start : b.bit 0 = false
  step : ∀ t, b.bit (t + 1) = latch (b.set t) (b.clear t) (b.bit t)

-- A sticky bit is set exactly if one of its causes has come since it was cleared.
theorem Sticky.Law.bit_iff {b : Sticky} (h : b.Law) (t : Nat) :
    b.bit t ↔ ∃ u < t, b.set u ∧ ∀ v, u < v → v < t → b.clear v = false := by
  induction t with
  | zero =>
    rw [h.start]
    constructor
    · intro hf
      cases hf
    · rintro ⟨u, hu, -⟩
      omega
  | succ t ih =>
    rw [h.step, latch_iff, ih]
    constructor
    · rintro (hset | ⟨⟨u, hu, hset, hkeep⟩, hclear⟩)
      · exact ⟨t, Nat.lt_succ_self t, hset, fun v h1 h2 ↦ by omega⟩
      · refine ⟨u, by omega, hset, fun v h1 h2 ↦ ?_⟩
        by_cases hv : v = t
        · rw [hv]
          exact hclear
        · exact hkeep v h1 (by omega)
    · rintro ⟨u, hu, hset, hkeep⟩
      by_cases hut : u = t
      · rw [← hut]
        exact .inl hset
      · exact .inr ⟨⟨u, by omega, hset, fun v h1 h2 ↦ hkeep v h1 (by omega)⟩,
          hkeep t (by omega) (Nat.lt_succ_self t)⟩

/-! ## Bits that report on a FIFO -/

namespace Ring

variable {n : Nat} {α : Type u} {r : Ring n α} {push : Option α} {pop : Bool}

-- How an edge leaves a FIFO empty: nothing was there and nothing came, the last word went, or a word too many
-- closed the circle.
theorem empty_next_iff (hpop : pop → r.empty = false) : (r.next push pop).empty ↔
    if push.isSome then pop = false ∧ r.count + 1 = 2 ^ (n + 1)
    else if pop then r.count = 1 else r.empty := by
  have hlt : r.count < 2 ^ (n + 1) := (r.head - r.tail).isLt
  have hone : 1 < 2 ^ (n + 1) := Nat.one_lt_two_pow (by omega)
  cases push with
  | none =>
    cases pop with
    | false => exact Iff.rfl
    | true =>
      have hpos : 0 < r.count := by
        apply Nat.pos_of_ne_zero
        rw [ne_eq, count_eq_zero, hpop rfl]
        decide
      show (r.popAt r.tail).empty ↔ r.count = 1
      rw [← count_eq_zero, count_popAt hpos]
      omega
  | some x =>
    cases pop with
    | false =>
      show (r.pushAt r.head x).empty ↔ false = false ∧ r.count + 1 = 2 ^ (n + 1)
      rw [← count_eq_zero]
      by_cases hlast : r.count + 1 = 2 ^ (n + 1)
      · -- the pointers meet again
        have hzero : (r.pushAt r.head x).count = 0 := by
          show (r.head + 1 - r.tail).toNat = 0
          rw [head_succ_sub, BitVec.toNat_add]
          show (r.count + 1 % 2 ^ (n + 1)) % 2 ^ (n + 1) = 0
          rw [Nat.mod_eq_of_lt hone, hlast, Nat.mod_self]
        simp [hzero, hlast]
      · rw [count_pushAt_of_lt (by omega)]
        simp [hlast]
    | true =>
      have hne := hpop rfl
      rw [empty, beq_eq_false_iff_ne] at hne
      have hmoved : ((r.next (some x) true).empty) = false := by
        show (r.head + 1 == r.tail + 1) = false
        rw [beq_eq_false_iff_ne]
        exact fun h ↦ hne (add_right_cancel h)
      simp [hmoved]

-- A bit that says the FIFO has drained stays true to it unless a word comes in the very cycle in which the
-- bit is set.
theorem drained_next_iff (hpop : pop → r.empty = false) (hpush : push.isSome → clear)
    (hset : set → r.count + 1 < 2 ^ (n + 1))
    (hdrained : set → push = none → (r.next none pop).empty) (hold : old → r.empty) :
    (latch set clear old → (r.next push pop).empty) ↔ ¬ (set ∧ push.isSome) := by
  rw [empty_next_iff hpop]
  cases push with
  | none =>
    have hkeep : latch set clear old → if pop then r.count = 1 else r.empty := by
      intro h
      rcases latch_iff.mp h with hs | ⟨ho, -⟩
      · exact (empty_next_iff hpop).mp (hdrained hs rfl)
      · -- an empty FIFO gives no word
        have hno : pop = false := by
          rw [← Bool.not_eq_true]
          intro hp
          have hne := hpop hp
          rw [hold ho] at hne
          cases hne
        rw [if_neg (by rw [hno]; decide)]
        exact hold ho
    simpa using hkeep
  | some x =>
    have hc := hpush rfl
    simp only [Option.isSome_some, ↓reduceIte, and_true, latch_iff, hc, Bool.true_eq_false, and_false,
      or_false]
    constructor
    · intro h hs
      have hroom := hset hs
      have hfull := (h hs).2
      omega
    · intro h hs
      exact absurd hs h

-- A bit that says the FIFO holds a word is true to it unless a word too many closes the circle, or the last
-- word goes and the bit stays.
theorem ready_next_iff (hpop : pop → r.empty = false) (hset : set = push.isSome)
    (hold : r.empty → old = false) :
    ((r.next push pop).empty → latch set clear old = false) ↔
      ¬ (push.isSome ∧ pop = false ∧ r.count + 1 = 2 ^ (n + 1)) ∧
        ¬ (push = none ∧ pop ∧ r.count = 1 ∧ old ∧ clear = false) := by
  rw [empty_next_iff hpop, hset]
  cases push with
  | none =>
    cases pop with
    | false => simpa [latch] using fun h ↦ by simp [hold h]
    | true => simp [latch]
  | some x => simp [latch]

end Ring

end Clocked
