import QarCore.Clocked.Run

/-!
# Ring-buffer FIFOs

A FIFO of `2 ^ n` slots with a read and a write pointer that are one bit wider than the slot index, as
hardware builds it, and the bounded queue it is meant to be.  `count` is the pointer difference at the
pointers' own width; `wideFull` is the full test of a design that takes the difference at 32 bits.
-/

namespace Clocked

universe u

/-- The registers of a FIFO with `2 ^ n` slots. -/
structure Ring (n : Nat) (α : Type u) where
  head : BitVec (n + 1)
  tail : BitVec (n + 1)
  mem : BitVec n → α

namespace Ring

variable {n : Nat} {α : Type u} {r : Ring n α} {x : α}

/-- The slot a pointer selects: all but its top bit. -/
def slotOf (p : BitVec (n + 1)) : BitVec n := p.setWidth n

def count (r : Ring n α) : Nat := (r.head - r.tail).toNat

def empty (r : Ring n α) : Bool := r.head == r.tail

/-- The word at the read pointer. -/
def front (r : Ring n α) : α := r.mem (slotOf r.tail)

/-- `(head - tail) == DEPTH` with the operands extended to 32 bits first. -/
def wideFull (r : Ring n α) : Bool :=
  r.head.setWidth 32 - r.tail.setWidth 32 == BitVec.ofNat 32 (2 ^ n)

/-- Writes a word at the write pointer `p` and moves the pointer on. -/
def pushAt (r : Ring n α) (p : BitVec (n + 1)) (x : α) : Ring n α :=
  { r with head := p + 1, mem := fun j ↦ if j = slotOf p then x else r.mem j }

/-- Moves the read pointer on from `p`. -/
def popAt (r : Ring n α) (p : BitVec (n + 1)) : Ring n α := { r with tail := p + 1 }

/-- One clock edge: an accepted push and an accepted pop, both from the pointers before the edge. -/
def next (r : Ring n α) (push : Option α) (pop : Bool) : Ring n α :=
  let pushed := push.elim r (r.pushAt r.head)
  if pop then pushed.popAt r.tail else pushed

/-- The stored words, oldest first. -/
def contents (r : Ring n α) : List α :=
  (List.range r.count).map fun i ↦ r.mem (slotOf (r.tail + BitVec.ofNat (n + 1) i))

/-! ## Pointers -/

theorem slotOf_add_toNat (p : BitVec (n + 1)) (i : Nat) :
    (slotOf (p + BitVec.ofNat (n + 1) i)).toNat = (p.toNat + i) % 2 ^ n := by
  have hdvd : 2 ^ n ∣ 2 ^ (n + 1) := Nat.pow_dvd_pow 2 (Nat.le_succ n)
  rw [slotOf, BitVec.toNat_setWidth, BitVec.toNat_add, BitVec.toNat_ofNat,
    Nat.mod_mod_of_dvd _ hdvd, Nat.add_mod, Nat.mod_mod_of_dvd _ hdvd, ← Nat.add_mod]

-- The write pointer is `count` slots after the read pointer.
theorem tail_add_count : r.tail + BitVec.ofNat (n + 1) r.count = r.head := by
  rw [count, BitVec.ofNat_toNat, BitVec.setWidth_eq, BitVec.add_comm, BitVec.sub_add_cancel]

theorem count_eq_zero : r.count = 0 ↔ r.empty := by
  rw [count, empty, beq_iff_eq]
  constructor
  · intro h
    have hz : r.head - r.tail = 0#(n + 1) := BitVec.eq_of_toNat_eq h
    rw [← BitVec.sub_add_cancel r.head r.tail, hz, BitVec.zero_add]
  · intro h
    rw [h, BitVec.sub_self]
    rfl

-- The 32-bit test sees a full FIFO only while the read pointer is in its lower half.
theorem wideFull_iff (hn : n < 31) :
    r.wideFull ↔ r.count = 2 ^ n ∧ r.tail.toNat < 2 ^ n := by
  have hh := r.head.isLt
  have ht := r.tail.isLt
  have hpow : 2 ^ (n + 1) = 2 * 2 ^ n := Nat.pow_succ'
  -- both pointers fit into 32 bits with room to spare
  have hle : 2 ^ n ≤ 2 ^ 30 := Nat.pow_le_pow_right (by omega) (by omega)
  rw [wideFull, beq_iff_eq, ← BitVec.toNat_inj, BitVec.toNat_sub, BitVec.toNat_setWidth,
    BitVec.toNat_setWidth, BitVec.toNat_ofNat, count]
  generalize hP : 2 ^ n = P at *
  rw [hpow] at hh ht
  have h1 : r.head.toNat % 2 ^ 32 = r.head.toNat := Nat.mod_eq_of_lt (by omega)
  have h2 : r.tail.toNat % 2 ^ 32 = r.tail.toNat := Nat.mod_eq_of_lt (by omega)
  have h3 : P % 2 ^ 32 = P := Nat.mod_eq_of_lt (by omega)
  rw [h1, h2, h3]
  by_cases hlt : r.head < r.tail
  · -- the pointers have wrapped: at 32 bits the difference is huge
    have hsub := BitVec.toNat_sub_of_lt hlt
    rw [BitVec.lt_def] at hlt
    rw [hsub, hpow]
    omega
  · have hle : r.tail ≤ r.head := BitVec.not_lt.mp hlt
    have hsub := BitVec.toNat_sub_of_le hle
    rw [BitVec.le_def] at hle
    rw [hsub]
    omega

/-! ## Push and pop -/

theorem head_succ_sub : r.head + 1 - r.tail = (r.head - r.tail) + 1 := by
  rw [BitVec.sub_eq_add_neg, BitVec.sub_eq_add_neg, BitVec.add_assoc, BitVec.add_comm 1,
    ← BitVec.add_assoc]

-- A push that does not overflow the pointers counts, whether there is a free slot or not.
theorem count_pushAt_of_lt (h : r.count + 1 < 2 ^ (n + 1)) :
    (r.pushAt r.head x).count = r.count + 1 := by
  have hone : (1 : BitVec (n + 1)).toNat = 1 :=
    Nat.mod_eq_of_lt (Nat.one_lt_two_pow (by omega))
  unfold count at h
  show (r.head + 1 - r.tail).toNat = (r.head - r.tail).toNat + 1
  rw [head_succ_sub, BitVec.toNat_add_of_lt]
  · rw [hone]
  · rw [hone]
    exact h

theorem count_pushAt (h : r.count < 2 ^ n) : (r.pushAt r.head x).count = r.count + 1 := by
  have hpow : 2 ^ (n + 1) = 2 * 2 ^ n := Nat.pow_succ'
  apply count_pushAt_of_lt
  omega

theorem count_popAt (h : 0 < r.count) : (r.popAt r.tail).count = r.count - 1 := by
  have hsub : r.head - (r.tail + 1) = (r.head - r.tail) - 1 := by
    rw [BitVec.sub_eq_add_neg, BitVec.sub_eq_add_neg, BitVec.sub_eq_add_neg, BitVec.neg_add,
      BitVec.sub_eq_add_neg, BitVec.add_assoc]
  have hone : (1 : BitVec (n + 1)).toNat = 1 :=
    Nat.mod_eq_of_lt (Nat.one_lt_two_pow (by omega))
  unfold count at h
  show (r.head - (r.tail + 1)).toNat = (r.head - r.tail).toNat - 1
  rw [hsub, BitVec.toNat_sub_of_le]
  · rw [hone]
  · rw [BitVec.le_def, hone]
    exact h

@[simp] theorem contents_length : r.contents.length = r.count := by
  rw [contents, List.length_map, List.length_range]

-- A push appends its word; it overwrites the free slot at the write pointer only.
theorem contents_pushAt (h : r.count < 2 ^ n) :
    (r.pushAt r.head x).contents = r.contents ++ [x] := by
  rw [contents, contents, count_pushAt h, List.range_succ, List.map_append, List.map_singleton]
  congr 1
  · apply List.map_congr_left
    intro i hi
    rw [List.mem_range] at hi
    -- an older word sits in another slot
    have hne : slotOf (r.tail + BitVec.ofNat (n + 1) i) ≠ slotOf r.head := by
      intro heq
      rw [← r.tail_add_count, ← BitVec.toNat_inj, slotOf_add_toNat, slotOf_add_toNat] at heq
      have hmod : i % 2 ^ n = r.count % 2 ^ n := Nat.ModEq.add_left_cancel' r.tail.toNat heq
      rw [Nat.mod_eq_of_lt (by omega), Nat.mod_eq_of_lt h] at hmod
      omega
    exact if_neg hne
  · show [if slotOf (r.tail + BitVec.ofNat (n + 1) r.count) = slotOf r.head then x else _] = [x]
    rw [tail_add_count, if_pos rfl]

-- A pop removes the oldest word.
theorem contents_popAt (h : 0 < r.count) : r.contents = r.front :: (r.popAt r.tail).contents := by
  have hc : r.count = (r.popAt r.tail).count + 1 := by
    rw [count_popAt h]
    omega
  rw [contents, contents, hc, List.range_succ_eq_map, List.map_cons, List.map_map]
  congr 1
  · rw [front]
    congr 2
    show r.tail + 0#(n + 1) = r.tail
    exact BitVec.add_zero r.tail
  · apply List.map_congr_left
    intro i _
    show r.mem (slotOf (r.tail + BitVec.ofNat (n + 1) (i + 1))) =
      r.mem (slotOf (r.tail + 1 + BitVec.ofNat (n + 1) i))
    congr 2
    rw [BitVec.add_assoc, Nat.add_comm i 1, BitVec.ofNat_add]
    rfl

theorem popAt_pushAt (p q : BitVec (n + 1)) :
    (r.pushAt p x).popAt q = (r.popAt q).pushAt p x := rfl

theorem contents_eq_nil (h : r.empty) : r.contents = [] := by
  rw [← List.length_eq_zero_iff, contents_length, count_eq_zero, h]

-- The words after one edge.
theorem contents_next {push : Option α} {pop : Bool} (hpush : push.isSome → r.count < 2 ^ n)
    (hpop : pop → 0 < r.count) :
    (r.next push pop).contents =
      (if pop then r.contents.tail else r.contents) ++ push.toList := by
  have hpushed : (push.elim r (r.pushAt r.head)).contents = r.contents ++ push.toList := by
    cases push with
    | none => exact (List.append_nil _).symm
    | some x => exact contents_pushAt (hpush rfl)
  unfold next
  cases pop
  · exact hpushed
  · -- the FIFO with the new word has at least the words of the old one
    show ((push.elim r (r.pushAt r.head)).popAt r.tail).contents = r.contents.tail ++ _
    have htail : (push.elim r (r.pushAt r.head)).tail = r.tail := by cases push <;> rfl
    have hne : r.contents ≠ [] := by
      rw [← List.length_pos_iff, contents_length]
      exact hpop rfl
    have hpos : 0 < (push.elim r (r.pushAt r.head)).count := by
      rw [← contents_length, hpushed, List.length_append, contents_length]
      have := hpop rfl
      omega
    have hpopped := contents_popAt hpos
    rw [htail, hpushed] at hpopped
    rw [← List.tail_append_of_ne_nil hne, hpopped, List.tail_cons]

-- With a pop in the same cycle even a full FIFO takes a word: the slot it is written to is the one that
-- becomes free.
theorem contents_next_pop {push : Option α} (hc : r.count ≤ 2 ^ n) (hpop : 0 < r.count) :
    (r.next push true).contents = r.contents.tail ++ push.toList := by
  have hpopped := contents_popAt hpop
  have hcount := count_popAt hpop
  cases push with
  | none =>
    rw [hpopped, List.tail_cons]
    exact (List.append_nil _).symm
  | some x =>
    show ((r.pushAt r.head x).popAt r.tail).contents = r.contents.tail ++ [x]
    rw [popAt_pushAt, hpopped, List.tail_cons]
    exact contents_pushAt (r := r.popAt r.tail) (by omega)

-- A push needs a free slot, or a pop beside it.
theorem contents_next_of_room {push : Option α} {pop : Bool} (hc : r.count ≤ 2 ^ n)
    (hpush : push.isSome → r.count < 2 ^ n ∨ pop) (hpop : pop → 0 < r.count) :
    (r.next push pop).contents =
      (if pop then r.contents.tail else r.contents) ++ push.toList := by
  cases pop with
  | true => exact contents_next_pop hc (hpop rfl)
  | false => exact contents_next (fun h ↦ (hpush h).resolve_right Bool.false_ne_true) hpop

end Ring

/-! ## A FIFO in a running design -/

/-- The registers of one FIFO over the cycles of a run, and what is asked of it in each cycle. -/
structure FifoRun (n : Nat) (α : Type u) where
  ring : Nat → Ring n α
  push : Nat → Option α
  pop : Nat → Bool

namespace FifoRun

variable {n : Nat} {α : Type u} {F : FifoRun n α} {t : Nat}

/-- The push is accepted unless the 32-bit test says full. -/
def accepted (F : FifoRun n α) (t : Nat) : Option α :=
  if (F.ring t).wideFull then none else F.push t

/-- The pop takes a word unless the FIFO is empty. -/
def takes (F : FifoRun n α) (t : Nat) : Bool := F.pop t && !(F.ring t).empty

/-- The word a pop returns. -/
def popped (F : FifoRun n α) (t : Nat) : Option α :=
  if F.takes t then some (F.ring t).front else none

/-- The design starts with the FIFO empty and moves it, in the first `t` cycles, only by accepted
pushes and pops. -/
structure Runs (F : FifoRun n α) (t : Nat) : Prop where
  reset : (F.ring 0).empty
  step : ∀ u, u < t → F.ring (u + 1) = (F.ring u).next (F.accepted u) (F.takes u)

/-- In cycle `t` the FIFO behaves as a queue of at most `2 ^ n` words. -/
structure BoundedAt (F : FifoRun n α) (t : Nat) : Prop where
  count_le : (F.ring t).count ≤ 2 ^ n
  accepts : (F.push t).isSome → ((F.accepted t).isSome ↔ (F.ring t).count < 2 ^ n)
  rejected : F.accepted t = none → (F.ring (t + 1)).contents =
    if F.takes t then (F.ring t).contents.tail else (F.ring t).contents
  order : trace F.accepted t = trace F.popped t ++ (F.ring t).contents

/-- No word is pushed while the FIFO is full with its read pointer in the upper half. -/
def PushSafe (F : FifoRun n α) (t : Nat) : Prop :=
  (F.push t).isSome → ¬((F.ring t).count = 2 ^ n ∧ 2 ^ n ≤ (F.ring t).tail.toNat)

theorem count_pos_of_takes (h : F.takes t) : 0 < (F.ring t).count := by
  rw [takes, Bool.and_eq_true, Bool.not_eq_true'] at h
  apply Nat.pos_of_ne_zero
  intro hz
  rw [Ring.count_eq_zero, h.2] at hz
  cases hz

-- A safe push is accepted exactly if there is room.
theorem accepted_isSome_iff (hn : n < 31) (hc : (F.ring t).count ≤ 2 ^ n) (hs : F.PushSafe t)
    (hp : (F.push t).isSome) : (F.accepted t).isSome ↔ (F.ring t).count < 2 ^ n := by
  have hfull := Ring.wideFull_iff (r := F.ring t) hn
  have hsafe := hs hp
  unfold accepted
  by_cases hw : (F.ring t).wideFull
  · rw [if_pos hw]
    have hcount := (hfull.mp hw).1
    exact iff_of_false nofun (by omega)
  · rw [if_neg hw]
    rw [hfull] at hw
    exact iff_of_true hp (by omega)

theorem count_lt_of_accepted (hn : n < 31) (hc : (F.ring t).count ≤ 2 ^ n) (hs : F.PushSafe t)
    (ha : (F.accepted t).isSome) : (F.ring t).count < 2 ^ n := by
  have hp : (F.push t).isSome := by
    unfold accepted at ha
    split at ha
    · cases ha
    · exact ha
  exact (accepted_isSome_iff hn hc hs hp).mp ha

theorem contents_step (hn : n < 31) (hc : (F.ring t).count ≤ 2 ^ n) (hs : F.PushSafe t)
    (hstep : F.ring (t + 1) = (F.ring t).next (F.accepted t) (F.takes t)) :
    (F.ring (t + 1)).contents =
      (if F.takes t then (F.ring t).contents.tail else (F.ring t).contents) ++
        (F.accepted t).toList := by
  rw [hstep]
  exact Ring.contents_next (count_lt_of_accepted hn hc hs) count_pos_of_takes

-- What is stored, after what has been popped, is what has been accepted.
theorem order_step (hstep : (F.ring (t + 1)).contents =
      (if F.takes t then (F.ring t).contents.tail else (F.ring t).contents) ++
        (F.accepted t).toList)
    (h : trace F.accepted t = trace F.popped t ++ (F.ring t).contents) :
    trace F.accepted (t + 1) = trace F.popped (t + 1) ++ (F.ring (t + 1)).contents := by
  rw [trace_succ, trace_succ, h, hstep, popped]
  by_cases ht : F.takes t
  · rw [if_pos ht, if_pos ht, Ring.contents_popAt (count_pos_of_takes ht), List.tail_cons]
    simp
  · rw [if_neg ht, if_neg ht]
    simp

-- Safe pushes keep the FIFO within its bound and in order.
theorem bounded_of_safe (hn : n < 31) (hr : F.Runs t) (hs : ∀ u, u < t → F.PushSafe u) :
    (F.ring t).count ≤ 2 ^ n ∧
      trace F.accepted t = trace F.popped t ++ (F.ring t).contents := by
  induction t with
  | zero =>
    rw [Ring.count_eq_zero.mpr hr.reset, Ring.contents_eq_nil hr.reset]
    exact ⟨Nat.zero_le _, rfl⟩
  | succ t ih =>
    have hprev := ih ⟨hr.reset, fun u hu ↦ hr.step u (by omega)⟩ fun u hu ↦ hs u (by omega)
    have hsafe := hs t (Nat.lt_succ_self t)
    have hstep := contents_step hn hprev.1 hsafe (hr.step t (Nat.lt_succ_self t))
    refine ⟨?_, order_step hstep hprev.2⟩
    have hlen := congrArg List.length hstep
    rw [List.length_append, Ring.contents_length] at hlen
    have hlt := count_lt_of_accepted hn hprev.1 hsafe
    have hle : (if F.takes t then (F.ring t).contents.tail else (F.ring t).contents).length ≤
        (F.ring t).count := by
      split
      · rw [List.length_tail, Ring.contents_length]
        omega
      · rw [Ring.contents_length]
    cases ha : F.accepted t with
    | none =>
      rw [ha, Option.toList_none, List.length_nil] at hlen
      omega
    | some x =>
      rw [ha] at hlen hlt
      rw [Option.toList_some, List.length_singleton] at hlen
      have := hlt rfl
      omega

-- A FIFO is a bounded queue up to cycle `t` exactly if no push finds it full with the read pointer in the
-- upper half, where the 32-bit test misses that it is full.
theorem bounded_iff_safe (hn : n < 31) (hr : F.Runs (t + 1)) :
    (∀ u, u ≤ t → F.BoundedAt u) ↔ ∀ u, u ≤ t → F.PushSafe u := by
  constructor
  · intro hb u hu hp hfull
    -- the missed push is accepted although nothing is free
    have hw : ¬(F.ring u).wideFull := by
      rw [Ring.wideFull_iff hn]
      omega
    have hacc := ((hb u hu).accepts hp).mp (by rw [accepted, if_neg hw]; exact hp)
    omega
  · intro hs u hu
    have hrun : F.Runs u := ⟨hr.reset, fun v hv ↦ hr.step v (by omega)⟩
    have hbound := bounded_of_safe hn hrun fun v hv ↦ hs v (by omega)
    refine ⟨hbound.1, accepted_isSome_iff hn hbound.1 (hs u hu), fun ha ↦ ?_, hbound.2⟩
    rw [contents_step hn hbound.1 (hs u hu) (hr.step u (by omega)), ha, Option.toList_none,
      List.append_nil]

-- As long as a FIFO holds no more words than it has slots, it keeps them in order, whether its full test is
-- right or not.
theorem order_of_count_le (hn : 0 < n) (hr : F.Runs t) (hc : ∀ u, u ≤ t → (F.ring u).count ≤ 2 ^ n) :
    trace F.accepted t = trace F.popped t ++ (F.ring t).contents := by
  induction t with
  | zero =>
    rw [Ring.contents_eq_nil hr.reset]
    rfl
  | succ t ih =>
    have hprev := ih ⟨hr.reset, fun u hu ↦ hr.step u (by omega)⟩ fun u hu ↦ hc u (by omega)
    have hstep := hr.step t (Nat.lt_succ_self t)
    apply order_step _ hprev
    by_cases ht : F.takes t
    · rw [hstep, ht]
      exact Ring.contents_next_pop (hc t (by omega)) (count_pos_of_takes ht)
    · rw [Bool.not_eq_true] at ht
      rw [hstep, ht]
      apply Ring.contents_next
      · intro ha
        obtain ⟨x, hx⟩ := Option.isSome_iff_exists.mp ha
        -- a word pushed into a full FIFO would be one too many
        by_contra hfull
        have hle := hc t (by omega)
        have hle' := hc (t + 1) (Nat.le_refl _)
        have hpow : 2 ^ (n + 1) = 2 * 2 ^ n := Nat.pow_succ'
        have hone : 2 ^ 1 ≤ 2 ^ n := Nat.pow_le_pow_right (by decide) hn
        have hcount : ((F.ring t).pushAt (F.ring t).head x).count = (F.ring t).count + 1 :=
          Ring.count_pushAt_of_lt (by omega)
        rw [hstep, ht, hx] at hle'
        replace hle' : ((F.ring t).pushAt (F.ring t).head x).count ≤ 2 ^ n := hle'
        omega
      · nofun

-- The 32-bit test shows whether the FIFO is full exactly outside those states.
theorem full_shown_iff (hn : n < 31) :
    ((F.ring t).wideFull ↔ (F.ring t).count = 2 ^ n) ↔
      ¬((F.ring t).count = 2 ^ n ∧ 2 ^ n ≤ (F.ring t).tail.toNat) := by
  rw [Ring.wideFull_iff hn]
  constructor
  · intro h hfull
    have := (h.mpr hfull.1).2
    omega
  · intro h
    omega

end FifoRun

end Clocked
