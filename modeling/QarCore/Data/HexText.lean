import Mathlib

/-!
# Hexadecimal text

Numbers as fixed-width lower-case hexadecimal digits, and the number such a text stands for.
-/

namespace HexText

/-- The digit of a number below 16. -/
def digit (d : Nat) : Char := if d < 10 then Char.ofNat ('0'.toNat + d) else Char.ofNat ('a'.toNat + (d - 10))

/-- The number of a digit, in either case. -/
def value (c : Char) : Nat :=
  if c.toNat < 'A'.toNat then c.toNat - '0'.toNat
  else if c.toNat < 'a'.toNat then c.toNat - 'A'.toNat + 10
  else c.toNat - 'a'.toNat + 10

/-- The last `k` digits of a number, as `%0kx` prints them when there are no more. -/
def print : Nat → Nat → List Char
  | 0, _ => []
  | k + 1, n => print k (n / 16) ++ [digit (n % 16)]

def read (l : List Char) : Nat := l.foldl (fun v c ↦ v * 16 + value c) 0

theorem length_print (k n : Nat) : (print k n).length = k := by
  induction k generalizing n with
  | zero => rfl
  | succ k ih => rw [print, List.length_append, ih, List.length_singleton]

theorem print_ne_nil (k n : Nat) : print (k + 1) n ≠ [] := by
  intro h
  have hlen := length_print (k + 1) n
  rw [h] at hlen
  cases hlen

-- What is true of every digit is true of what is printed.
theorem forall_mem_print {p : Char → Prop} (hp : ∀ d < 16, p (digit d)) (k n : Nat) : ∀ c ∈ print k n, p c := by
  induction k generalizing n with
  | zero => exact fun c hc ↦ absurd hc List.not_mem_nil
  | succ k ih =>
    rw [print, List.forall_mem_append, List.forall_mem_singleton]
    exact ⟨ih _, hp _ (Nat.mod_lt n (by decide))⟩

theorem value_digit : ∀ d < 16, value (digit d) = d := by decide

theorem read_concat (l : List Char) (c : Char) : read (l ++ [c]) = read l * 16 + value c := by
  rw [read, List.foldl_append]
  rfl

theorem read_print (k n : Nat) : read (print k n) = n % 16 ^ k := by
  induction k generalizing n with
  | zero => rw [pow_zero, Nat.mod_one]; rfl
  | succ k ih =>
    have hd : n % 16 < 16 := Nat.mod_lt n (by decide)
    rw [print, read_concat, ih, value_digit _ hd, pow_succ', Nat.mod_mul]
    omega

end HexText
