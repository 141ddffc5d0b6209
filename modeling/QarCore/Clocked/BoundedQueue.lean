import QarCore.Clocked.RingFifo

/-!
# Bounded queues that are pushed, popped and flushed

A queue of at most `cap` words on which one operation is done at a time, what enters and leaves it, and
the ring buffer with an exact full test that implements it.
-/

namespace Clocked

universe u

/-- What is done to a queue in one cycle. -/
inductive QueueOp (α : Type u)
  | push (x : α)
  | pop
  | flush
  | idle

namespace QueueOp

variable {α : Type u}

/-- The queue after the operation; a push to a full queue is dropped. -/
def apply (cap : Nat) (q : List α) : QueueOp α → List α
  | push x => if q.length < cap then q ++ [x] else q
  | pop => q.tail
  | flush => []
  | idle => q

/-- The words that enter. -/
def accepted (cap : Nat) (q : List α) : QueueOp α → List α
  | push x => if q.length < cap then [x] else []
  | pop | flush | idle => []

/-- The words that leave. -/
def removed (q : List α) : QueueOp α → List α
  | pop => q.take 1
  | flush => q
  | push _ | idle => []

theorem removed_append_apply (cap : Nat) (q : List α) (op : QueueOp α) :
    op.removed q ++ op.apply cap q = q ++ op.accepted cap q := by
  cases op with
  | push x =>
    show [] ++ (if q.length < cap then q ++ [x] else q) = q ++ if q.length < cap then [x] else []
    split <;> simp
  | pop =>
    show q.take 1 ++ q.tail = q ++ []
    rw [← List.drop_one, List.take_append_drop, List.append_nil]
  | flush => rfl
  | idle => exact (List.append_nil q).symm

theorem apply_length_le {cap : Nat} {q : List α} {op : QueueOp α} (h : q.length ≤ cap) :
    (op.apply cap q).length ≤ cap := by
  cases op with
  | push x =>
    show (if q.length < cap then q ++ [x] else q).length ≤ cap
    split
    · rw [List.length_append, List.length_singleton]
      omega
    · exact h
  | pop =>
    show q.tail.length ≤ cap
    rw [List.length_tail]
    omega
  | flush => exact Nat.zero_le cap
  | idle => exact h

/-- The queue over a run of operations. -/
def contents (cap : Nat) (op : Nat → QueueOp α) : Nat → List α
  | 0 => []
  | t + 1 => (op t).apply cap (contents cap op t)

theorem contents_length_le (cap : Nat) (op : Nat → QueueOp α) (t : Nat) :
    (contents cap op t).length ≤ cap := by
  induction t with
  | zero => exact Nat.zero_le cap
  | succ t ih => exact apply_length_le ih

-- What has entered is what has left, followed by what is still there.
theorem entered_eq_left_append (cap : Nat) (op : Nat → QueueOp α) (t : Nat) :
    ((List.range t).flatMap fun u ↦ (op u).accepted cap (contents cap op u)) =
      ((List.range t).flatMap fun u ↦ (op u).removed (contents cap op u)) ++ contents cap op t := by
  induction t with
  | zero => rfl
  | succ t ih =>
    rw [List.range_succ, List.flatMap_append, List.flatMap_append, ih, List.append_assoc,
      List.append_assoc]
    congr 1
    simp only [List.flatMap_cons, List.flatMap_nil, List.append_nil]
    exact (removed_append_apply cap _ (op t)).symm

end QueueOp

namespace Ring

variable {n : Nat} {α : Type u} {r : Ring n α}

/-- The operation on the registers of a ring that tests the pointer difference itself. -/
def exec (r : Ring n α) : QueueOp α → Ring n α
  | .push x => if r.count < 2 ^ n then r.pushAt r.head x else r
  | .pop => if r.count = 0 then r else r.popAt r.tail
  | .flush => { r with tail := r.head }
  | .idle => r

-- Such a ring is a bounded queue.
theorem contents_exec (r : Ring n α) (op : QueueOp α) :
    (r.exec op).contents = op.apply (2 ^ n) r.contents := by
  cases op with
  | push x =>
    show (if r.count < 2 ^ n then r.pushAt r.head x else r).contents =
      if r.contents.length < 2 ^ n then r.contents ++ [x] else r.contents
    rw [contents_length]
    split
    next h => exact contents_pushAt h
    next => rfl
  | pop =>
    show (if r.count = 0 then r else r.popAt r.tail).contents = r.contents.tail
    split
    next h =>
      rw [contents_eq_nil (count_eq_zero.mp h)]
      rfl
    next h => rw [contents_popAt (Nat.pos_of_ne_zero h), List.tail_cons]
  | flush => exact contents_eq_nil (beq_iff_eq.mpr rfl)
  | idle => rfl

-- The ring over a run of operations holds the queue.
theorem contents_eq_of_exec {op : Nat → QueueOp α} (ring : Nat → Ring n α) (h0 : (ring 0).empty)
    (hstep : ∀ t, ring (t + 1) = (ring t).exec (op t)) (t : Nat) :
    (ring t).contents = QueueOp.contents (2 ^ n) op t := by
  induction t with
  | zero => exact contents_eq_nil h0
  | succ t ih =>
    rw [hstep, contents_exec, ih]
    rfl

-- The word at the read pointer is the oldest one.
theorem contents_head {x : α} {rest : List α} (h : r.contents = x :: rest) : r.front = x := by
  have hpos : 0 < r.count := by
    rw [← contents_length, h, List.length_cons]
    omega
  rw [contents_popAt hpos] at h
  exact List.head_eq_of_cons_eq h

end Ring

end Clocked
