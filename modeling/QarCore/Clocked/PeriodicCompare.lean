import QarCore.Clocked.Run

/-!
# Compare registers that reload themselves

A free-running counter of `w` bits and a compare register that moves on by a fixed period whenever the
counter reaches it, with 0 for a channel that is switched off.  The channel fires every period until
the compare register happens to wrap around to 0, and the greatest common divisor of the period and
`2 ^ w` tells whether it ever does.
-/

namespace Clocked

structure PeriodicCompare (w : Nat) where
  count : Nat → BitVec w
  cmp : Nat → BitVec w
  tick : Nat → Bool
  period : BitVec w

namespace PeriodicCompare

variable {w : Nat} {c : PeriodicCompare w} {n : Nat}

/-- The counter has reached a compare register that is switched on. -/
def fires (c : PeriodicCompare w) (n : Nat) : Bool :=
  c.tick n && c.cmp n != 0 && c.count n == c.cmp n

/-- The ticks of the first `n` cycles. -/
def ticks (c : PeriodicCompare w) (n : Nat) : Nat := Nat.count (fun d ↦ c.tick d) n

/-- What one cycle does to the two registers, under a clock that keeps ticking. -/
structure Law (c : PeriodicCompare w) : Prop where
  count_succ : ∀ n, c.count (n + 1) = if c.tick n then c.count n + 1 else c.count n
  cmp_succ : ∀ n, c.cmp (n + 1) = if c.fires n then c.cmp n + c.period else c.cmp n
  ticking : ∀ n, ∃ m, n ≤ m ∧ c.tick m

/-- The channel fires on every tick whose number is a multiple of the period, and on no other, for
ever. -/
structure Periodic (c : PeriodicCompare w) : Prop where
  every : ∀ n, c.fires n ↔ c.tick n ∧ c.period.toNat ∣ c.ticks n
  forever : ∀ n, ∃ m, n ≤ m ∧ c.fires m

theorem ticks_succ : c.ticks (n + 1) = c.ticks n + if c.tick n then 1 else 0 := Nat.count_succ _ _

/-- How often a channel that fires on tick 0 and on every `p`-th tick after it has fired before tick
`k`. -/
def firings (p k : Nat) : Nat := (k + p - 1) / p

theorem firings_succ {p : Nat} (hp : 0 < p) (k : Nat) :
    firings p (k + 1) = firings p k + if p ∣ k then 1 else 0 := by
  unfold firings
  rw [show k + 1 + p - 1 = (k + p - 1) + 1 by omega, Nat.succ_div, show k + p - 1 + 1 = k + p by omega]
  simp only [Nat.dvd_add_self_right]

theorem firings_zero {p : Nat} (hp : 0 < p) : firings p 0 = 0 := Nat.div_eq_of_lt (by omega)

-- The next firing is less than a period away.
theorem le_mul_firings {p : Nat} (hp : 0 < p) (k : Nat) :
    k ≤ p * firings p k ∧ p * firings p k < k + p := by
  have hmod := Nat.div_add_mod (k + p - 1) p
  have hlt := Nat.mod_lt (k + p - 1) hp
  unfold firings
  omega

theorem dvd_iff_mul_firings {p : Nat} (hp : 0 < p) (k : Nat) : p ∣ k ↔ p * firings p k = k := by
  obtain ⟨hle, hlt⟩ := le_mul_firings hp k
  constructor
  · rintro ⟨q, rfl⟩
    -- two multiples less than a period apart
    have h1 : q ≤ firings p (p * q) := Nat.le_of_mul_le_mul_left hle hp
    have h2 : firings p (p * q) < q + 1 := by
      apply Nat.lt_of_mul_lt_mul_left (a := p)
      rw [Nat.mul_add, Nat.mul_one]
      exact hlt
    rw [show firings p (p * q) = q by omega]
  · intro h
    exact ⟨_, h.symm⟩

-- The multiples of `p` reach `-a` modulo `m` exactly if the greatest common divisor divides `a`.
theorem exists_dvd_add_mul_iff {m : Nat} (hm : 0 < m) (a p : Nat) :
    (∃ k, m ∣ a + p * k) ↔ Nat.gcd p m ∣ a := by
  constructor
  · rintro ⟨k, hk⟩
    have hsum : Nat.gcd p m ∣ a + p * k := (Nat.gcd_dvd_right p m).trans hk
    exact (Nat.dvd_add_iff_left ((Nat.gcd_dvd_left p m).mul_right k)).mpr hsum
  · intro h
    obtain ⟨x, y, hxy⟩ : ∃ x y : Int, (a : Int) = p * x + m * y := by
      rw [← Int.gcd_dvd_iff]
      exact h
    refine ⟨(-x % m).toNat, ?_⟩
    rw [← Int.natCast_dvd_natCast, Int.natCast_add, Int.natCast_mul,
      Int.toNat_of_nonneg (Int.emod_nonneg _ (by omega))]
    refine ⟨y - p * (-x / m), ?_⟩
    have hdiv := Int.emod_add_mul_ediv (-x) m
    rw [hxy]
    linear_combination (p : Int) * hdiv

section

variable (h : c.Law)
include h

theorem count_eq (n : Nat) : c.count n = c.count 0 + BitVec.ofNat w (c.ticks n) := by
  induction n with
  | zero =>
    show c.count 0 = c.count 0 + BitVec.ofNat w 0
    rw [BitVec.add_zero]
  | succ n ih =>
    rw [h.count_succ, ih, ticks_succ]
    by_cases ht : c.tick n
    · simp only [ht, ↓reduceIte, BitVec.ofNat_add, BitVec.add_assoc]
      rfl
    · simp only [ht, Bool.false_eq_true, ↓reduceIte, Nat.add_zero]

-- The compare register, as long as the channel keeps its period.
theorem cmp_eq (hp : 0 < c.period.toNat)
    (hevery : ∀ m < n, c.fires m ↔ c.tick m ∧ c.period.toNat ∣ c.ticks m) :
    c.cmp n = c.cmp 0 + BitVec.ofNat w (c.period.toNat * firings c.period.toNat (c.ticks n)) := by
  induction n with
  | zero =>
    rw [show c.ticks 0 = 0 from rfl, firings_zero hp, Nat.mul_zero, BitVec.add_zero]
  | succ n ih =>
    have hprev := ih fun m hm ↦ hevery m (by omega)
    have hnow := hevery n (Nat.lt_succ_self n)
    rw [h.cmp_succ, ticks_succ]
    by_cases ht : c.tick n
    · rw [if_pos ht, firings_succ hp]
      by_cases hd : c.period.toNat ∣ c.ticks n
      · rw [if_pos (hnow.mpr ⟨ht, hd⟩), if_pos hd, hprev, Nat.mul_add, Nat.mul_one, BitVec.ofNat_add,
          BitVec.ofNat_toNat, BitVec.setWidth_eq, BitVec.add_assoc]
      · rw [if_neg fun hf ↦ hd (hnow.mp hf).2, if_neg hd, hprev, Nat.add_zero]
    · rw [if_neg fun hf ↦ ht (hnow.mp hf).1, if_neg ht, hprev, Nat.add_zero]

-- The compare register is at zero exactly if the firings so far have carried it there.
theorem cmp_eq_zero_iff (hp : 0 < c.period.toNat)
    (hevery : ∀ m < n, c.fires m ↔ c.tick m ∧ c.period.toNat ∣ c.ticks m) : c.cmp n = 0 ↔
      2 ^ w ∣ (c.cmp 0).toNat + c.period.toNat * firings c.period.toNat (c.ticks n) := by
  rw [cmp_eq h hp hevery, ← BitVec.toNat_inj, BitVec.toNat_add, BitVec.toNat_ofNat, Nat.add_mod_mod,
    Nat.dvd_iff_mod_eq_zero]
  rfl

-- A compare register that is not at zero fires its channel on the ticks of its period.
theorem fires_iff (h0 : c.count 0 = c.cmp 0) (hp : 0 < c.period.toNat)
    (hevery : ∀ m < n, c.fires m ↔ c.tick m ∧ c.period.toNat ∣ c.ticks m) (hz : c.cmp n ≠ 0) :
    c.fires n ↔ c.tick n ∧ c.period.toNat ∣ c.ticks n := by
  obtain ⟨hle, hlt⟩ := le_mul_firings hp (c.ticks n)
  have hperiod := c.period.isLt
  have hreach : c.count n = c.cmp n ↔ c.period.toNat ∣ c.ticks n := by
    rw [dvd_iff_mul_firings hp, count_eq h n, cmp_eq h hp hevery, h0, BitVec.add_right_inj,
      ← BitVec.toNat_inj, BitVec.toNat_ofNat, BitVec.toNat_ofNat]
    constructor
    · intro hmod
      -- less than a period apart, the two counts cannot differ by a multiple of `2 ^ w`
      have hdvd := (Nat.modEq_iff_dvd' hle).mp hmod
      have hdiff := Nat.eq_zero_of_dvd_of_lt hdvd (by omega)
      omega
    · intro heq
      rw [heq]
  simp only [fires, Bool.and_eq_true, bne_iff_ne, beq_iff_eq, hreach, ne_eq, hz, not_false_eq_true,
    and_true]

-- Every number of ticks is reached, in a cycle that ticks.
theorem exists_ticks_eq (k : Nat) : ∃ n, c.tick n ∧ c.ticks n = k := by
  have hinf : (Set.ofPred fun d ↦ c.tick d = true).Infinite := by
    apply Set.infinite_of_forall_exists_gt
    intro n
    obtain ⟨m, hm, ht⟩ := h.ticking (n + 1)
    exact ⟨m, ht, by omega⟩
  exact ⟨Nat.nth (fun d ↦ c.tick d) k, Nat.nth_mem_of_infinite hinf k, Nat.count_nth_of_infinite hinf k⟩

-- A channel that has fired keeps firing every period for ever exactly if its compare register never wraps
-- around to zero.
theorem periodic_iff (h0 : c.fires 0) (hp : c.period ≠ 0) :
    c.Periodic ↔ ¬ Nat.gcd c.period.toNat (2 ^ w) ∣ (c.cmp 0).toNat := by
  have hpos : 0 < c.period.toNat := by
    apply Nat.pos_of_ne_zero
    intro hz
    exact hp (BitVec.eq_of_toNat_eq hz)
  have heq : c.count 0 = c.cmp 0 := by
    simp only [fires, Bool.and_eq_true, beq_iff_eq] at h0
    exact h0.2
  rw [← exists_dvd_add_mul_iff (Nat.two_pow_pos w)]
  constructor
  · rintro ⟨hevery, -⟩ ⟨k, hk⟩
    obtain ⟨n, ht, hn⟩ := exists_ticks_eq h (c.period.toNat * k)
    have hf : c.fires n := (hevery n).mpr ⟨ht, hn ▸ Nat.dvd_mul_right _ k⟩
    have hz : c.cmp n = 0 := by
      rw [cmp_eq_zero_iff h hpos fun m _ ↦ hevery m, hn,
        (dvd_iff_mul_firings hpos _).mp (Nat.dvd_mul_right _ k)]
      exact hk
    simp [fires, hz] at hf
  · intro hnone
    have hevery (n : Nat) : c.fires n ↔ c.tick n ∧ c.period.toNat ∣ c.ticks n := by
      induction n using Nat.strong_induction_on with
      | h n ih =>
        apply fires_iff h heq hpos ih
        intro hz
        exact hnone ⟨_, (cmp_eq_zero_iff h hpos ih).mp hz⟩
    refine ⟨hevery, ?_⟩
    intro n
    obtain ⟨m, ht, hm⟩ := exists_ticks_eq h (c.period.toNat * n)
    refine ⟨m, ?_, (hevery m).mpr ⟨ht, hm ▸ Nat.dvd_mul_right _ n⟩⟩
    -- there is at most one tick a cycle
    calc n ≤ c.period.toNat * n := Nat.le_mul_of_pos_left n hpos
      _ = c.ticks m := hm.symm
      _ ≤ m := Nat.count_le _

end

end PeriodicCompare

end Clocked
