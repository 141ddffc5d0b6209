import Mathlib

/-!
# Images made of stored blocks

A memory into which blocks are stored one after the other.  A block that no later block overlaps is
there in the end.
-/

namespace ByteImage

universe u

variable {β : Type u}

/-- The memory with a block stored at `a`. -/
def store (mem : Nat → β) (a : Nat) (data : List β) : Nat → β := fun j ↦
  if a ≤ j then data[j - a]?.getD (mem j) else mem j

theorem store_inside (mem : Nat → β) (a : Nat) (data : List β) (j : Nat) (hj : j < data.length) :
    store mem a data (a + j) = data[j] := by
  rw [store, if_pos (Nat.le_add_right a j), Nat.add_sub_cancel_left, List.getElem?_eq_getElem hj]
  rfl

theorem store_outside (mem : Nat → β) {a j : Nat} {data : List β} (h : j < a ∨ a + data.length ≤ j) :
    store mem a data j = mem j := by
  unfold store
  by_cases ha : a ≤ j
  · rw [if_pos ha, List.getElem?_eq_none (by omega)]
    rfl
  · rw [if_neg ha]

/-- A block: its address and its contents. -/
structure Block (β : Type u) where
  base : Nat
  data : List β

/-- Two blocks have no address in common. -/
def Block.Apart (x y : Block β) : Prop :=
  x.base + x.data.length ≤ y.base ∨ y.base + y.data.length ≤ x.base

def storeAll (mem : Nat → β) (blocks : List (Block β)) : Nat → β :=
  blocks.foldl (fun m b ↦ store m b.base b.data) mem

theorem storeAll_apart {x : Block β} {blocks : List (Block β)} (h : ∀ y ∈ blocks, x.Apart y)
    (mem : Nat → β) {j : Nat} (hj : j < x.data.length) :
    storeAll mem blocks (x.base + j) = mem (x.base + j) := by
  induction blocks generalizing mem with
  | nil => rfl
  | cons y ys ih =>
    have hy := h y List.mem_cons_self
    rw [storeAll, List.foldl_cons]
    refine (ih (fun z hz ↦ h z (List.mem_cons_of_mem y hz)) _).trans ?_
    apply store_outside
    unfold Block.Apart at hy
    omega

-- A block that the later ones keep apart from is stored for good.
theorem storeAll_get {pre post : List (Block β)} {x : Block β} (h : ∀ y ∈ post, x.Apart y)
    (mem : Nat → β) {j : Nat} (hj : j < x.data.length) :
    storeAll mem (pre ++ x :: post) (x.base + j) = x.data[j] := by
  rw [storeAll, List.foldl_append, List.foldl_cons]
  exact (storeAll_apart h _ hj).trans (store_inside _ _ _ j hj)

end ByteImage
