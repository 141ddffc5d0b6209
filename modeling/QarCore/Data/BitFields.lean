import Mathlib

/-!
# Fields of a word

Words that are put together from fields by shifts and masks, and slices that are extended back.
-/

namespace BitFields

variable {l m n : Nat}

/-- The mask of the lowest `n` bits. -/
def ones (l n : Nat) : BitVec l := (BitVec.allOnes n).setWidth l

theorem getLsbD_ones (j : Nat) : (ones l n).getLsbD j = (decide (j < l) && decide (j < n)) := by
  rw [ones, BitVec.getLsbD_setWidth, BitVec.getLsbD_allOnes]

-- A field that is shifted above the lower ones stands before them.
theorem shl_or (hi : BitVec m) (lo : BitVec n) :
    hi.setWidth l <<< n ||| lo.setWidth l = (hi ++ lo).setWidth l :=
  BitVec.setWidth_append_eq_shiftLeft_setWidth_or.symm

theorem and_ones (x : BitVec l) (n : Nat) : x &&& ones l n = (x.extractLsb' 0 n).setWidth l := by
  apply BitVec.eq_of_getLsbD_eq
  intro j hj
  rw [BitVec.getLsbD_and, getLsbD_ones, BitVec.getLsbD_setWidth, BitVec.getLsbD_extractLsb',
    Nat.zero_add]
  simp only [hj, decide_true, Bool.true_and]
  exact Bool.and_comm _ _

-- A field of the lowest `m` bits.
theorem shr_and_ones (x : BitVec l) {k : Nat} (h : k + n ≤ m) :
    (x &&& ones l m) >>> k &&& ones l n = (x.extractLsb' k n).setWidth l := by
  apply BitVec.eq_of_getLsbD_eq
  intro j hj
  rw [BitVec.getLsbD_and, BitVec.getLsbD_ushiftRight, BitVec.getLsbD_and, getLsbD_ones, getLsbD_ones,
    BitVec.getLsbD_setWidth, BitVec.getLsbD_extractLsb']
  by_cases hn : j < n
  · have hm : k + j < m := by omega
    simp only [hj, hn, hm, decide_true, Bool.true_and, Bool.and_true]
    by_cases hl : k + j < l
    · simp only [hl, decide_true, Bool.and_true]
    · rw [BitVec.getLsbD_of_ge x (k + j) (by omega), Bool.false_and]
  · simp only [hn, decide_false, Bool.and_false, Bool.false_and]

theorem extractLsb'_slice (x : BitVec l) {j k : Nat} (h : k + n ≤ m) :
    (x.extractLsb' j m).extractLsb' k n = x.extractLsb' (j + k) n := by
  apply BitVec.eq_of_getLsbD_eq
  intro i hi
  have hm : k + i < m := by omega
  simp only [BitVec.getLsbD_extractLsb', hi, hm, decide_true, Bool.true_and, Nat.add_assoc]

theorem getLsbD_zero_of_even {x : BitVec l} (hl : 0 < l) (h : (2 : Int) ∣ x.toInt) :
    x.getLsbD 0 = false := by
  have hpow : (2 : Nat) ∣ 2 ^ l := dvd_pow_self 2 (by omega)
  have hmod : x.toNat % 2 = 0 := by
    rw [BitVec.toInt_eq_toNat_cond] at h
    split at h <;> omega
  rw [BitVec.getLsbD, Nat.testBit_zero, hmod]
  rfl

-- A number that fits an unsigned field is what the field is extended to.
theorem setWidth_extractLsb' (x : BitVec l) (hl : 0 ≤ x.toInt) (hu : x.toInt < 2 ^ n) :
    (x.extractLsb' 0 n).setWidth l = x := by
  have htoNat : x.toInt = x.toNat := by
    rw [BitVec.toInt_eq_toNat_cond] at hl ⊢
    have := x.isLt
    split
    · rfl
    · rename_i hbig
      rw [if_neg hbig] at hl
      omega
  have hlt : x.toNat < 2 ^ n := by
    rw [htoNat] at hu
    exact_mod_cast hu
  apply BitVec.eq_of_toNat_eq
  rw [BitVec.toNat_setWidth, BitVec.extractLsb'_toNat, Nat.shiftRight_zero, Nat.mod_eq_of_lt hlt,
    Nat.mod_eq_of_lt x.isLt]

-- A number that fits a signed field is what the field is extended to.
theorem signExtend_extractLsb' (x : BitVec l) {k : Nat} (hk : k < l) (hl : -2 ^ k ≤ x.toInt)
    (hu : x.toInt < 2 ^ k) : (x.extractLsb' 0 (k + 1)).signExtend l = x := by
  have htoInt : (x.extractLsb' 0 (k + 1)).toInt = x.toInt := by
    rw [← BitVec.setWidth_eq_extractLsb' hk, BitVec.toInt_setWidth]
    have hdvd : (2 ^ (k + 1) : Nat) ∣ 2 ^ l := pow_dvd_pow 2 hk
    rw [BitVec.toInt_eq_toNat_bmod] at hl hu ⊢
    rw [← Int.bmod_bmod_of_dvd hdvd]
    apply Int.bmod_eq_of_le_mul_two
    · push_cast
      rw [pow_succ]
      omega
    · push_cast
      rw [pow_succ]
      omega
  rw [BitVec.signExtend, htoInt, BitVec.ofInt_toInt]

-- The same for an even number, of which the field leaves out the last bit.
theorem signExtend_even (x : BitVec l) {k : Nat} (hk : k + 1 < l) (hl : -2 ^ (k + 1) ≤ x.toInt)
    (hu : x.toInt < 2 ^ (k + 1)) (he : x.getLsbD 0 = false) :
    (x.extractLsb' 1 (k + 1) ++ 0#1).signExtend l = x := by
  have happ : x.extractLsb' 1 (k + 1) ++ 0#1 = x.extractLsb' 0 (k + 1 + 1) := by
    apply BitVec.eq_of_getLsbD_eq
    intro j hj
    rw [BitVec.getLsbD_append, BitVec.getLsbD_extractLsb', BitVec.getLsbD_extractLsb', Nat.zero_add]
    cases j with
    | zero => simp [he]
    | succ j =>
      rw [if_neg (by omega), Nat.add_sub_cancel]
      simp [show j < k + 1 by omega, show j + 1 < k + 1 + 1 by omega, Nat.add_comm 1 j]
  rw [happ]
  exact signExtend_extractLsb' x hk hl hu

end BitFields
