import QarCore.Core.Frontend

/-!
# The fetch queue holds consecutive addresses

The valid ones among EX, ID, IF buffer, prefetch slot, outstanding request and then `pc_fetch` hold
consecutive pcs.  One clock edge keeps this order unless a cache hit is lost (`hitLost`): it either
starts a new queue at the redirect address, or lets the instruction in EX leave at the head.
-/

namespace QarCore.Front

variable {cfg : Config} {f : Front} {w : FrontWires} {fits : Word → Word → Prop} {p q : Word}

/-! ## What one edge does to each register -/

/-- A cache hit is taken in this cycle. -/
def takesHit (cfg : Config) (f : Front) : Bool := f.canFetch && f.icacheLookupHit cfg

/-- A miss starts a request in this cycle. -/
def startsFetch (cfg : Config) (f : Front) : Bool := f.canFetch && !f.icacheLookupHit cfg

/-- The outstanding request is answered in this cycle. -/
def answered (f : Front) (w : FrontWires) : Bool := f.fetchReqPending && w.imemReady

theorem canFetch_not_pending (h : f.canFetch) : f.fetchReqPending = false := by
  simp only [canFetch, Bool.and_eq_true, Bool.not_eq_true'] at h
  exact h.1

theorem idAccept_ifBuf (h : f.idAccept w) : f.ifBuf.valid := by
  simp only [idAccept, Bool.and_eq_true] at h
  exact h.1.1

theorem idAccept_id (h : f.idAccept w) : f.id.valid = false := by
  simp only [idAccept, Bool.and_eq_true, Bool.not_eq_true'] at h
  exact h.1.2

theorem idToEx_id (h : f.idToEx w) : f.id.valid := by
  simp only [idToEx, Bool.and_eq_true] at h
  exact h.1.1

-- ID gives and takes in different cycles.
theorem idAccept_of_idToEx (h : f.idToEx w) : f.idAccept w = false := by
  rw [← Bool.not_eq_true]
  exact fun ha ↦ absurd (idToEx_id h) (by simp [idAccept_id ha])

theorem next_flush (h : w.flush) : f.next cfg w = flushPipe w f := by
  unfold next
  rw [if_pos h]

theorem next_ex (h : w.flush = false) :
    (f.next cfg w).ex =
      if f.idToEx w then ⟨true, f.id.instr, f.id.pc, w.forwardRs1, w.forwardRs2⟩
      else if f.ex.valid && !w.stallEx then { f.ex with valid := false } else f.ex := by
  simp only [next, h, Bool.false_eq_true, ↓reduceIte, advanceEx, fetchResponse, fillCache, shiftSlot,
    acceptId, issueFetch, apply_ite Front.ex, ite_self]

theorem next_id (h : w.flush = false) :
    (f.next cfg w).id =
      if f.idToEx w then { f.id with valid := false }
      else if f.idAccept w then ⟨true, f.ifBuf.instr, f.ifBuf.pc⟩ else f.id := by
  simp only [next, h, Bool.false_eq_true, ↓reduceIte, advanceEx, fetchResponse, fillCache, shiftSlot,
    acceptId, issueFetch, apply_ite Front.id, ite_self]
  by_cases hx : f.idToEx w
  · simp [hx, idAccept_of_idToEx hx]
  · simp [hx]

theorem next_ifBuf (h : w.flush = false) :
    (f.next cfg w).ifBuf =
      if f.answered w && f.ifFetchTarget w then ⟨true, w.imemRdata, f.fetchReqAddr⟩
      else if f.slotToIf w then ⟨true, f.prefetchSlot.instr, f.prefetchSlot.pc⟩
      else if f.takesHit cfg && f.ifFetchTarget w then
        ⟨!f.idAccept w, f.icacheLookupWord cfg, f.pcFetch⟩
      else if f.idAccept w then { f.ifBuf with valid := false } else f.ifBuf := by
  simp only [next, h, Bool.false_eq_true, ↓reduceIte, advanceEx, fetchResponse, fillCache, shiftSlot,
    acceptId, issueFetch, apply_ite Front.ifBuf, ite_self, answered, takesHit]
  by_cases hr : f.fetchReqPending && w.imemReady <;> by_cases ht : f.ifFetchTarget w <;>
    by_cases hs : f.slotToIf w <;> by_cases hc : f.canFetch <;>
    by_cases hh : f.icacheLookupHit cfg <;> by_cases ha : f.idAccept w <;>
    simp [hr, ht, hs, hc, hh, ha]

theorem next_prefetchSlot (h : w.flush = false) :
    (f.next cfg w).prefetchSlot =
      if f.answered w && !f.ifFetchTarget w then ⟨true, w.imemRdata, f.fetchReqAddr⟩
      else if f.takesHit cfg && !f.ifFetchTarget w then
        ⟨!f.slotToIf w, f.icacheLookupWord cfg, f.pcFetch⟩
      else if f.slotToIf w then { f.prefetchSlot with valid := false } else f.prefetchSlot := by
  simp only [next, h, Bool.false_eq_true, ↓reduceIte, advanceEx, fetchResponse, fillCache, shiftSlot,
    acceptId, issueFetch, apply_ite Front.prefetchSlot, ite_self, answered, takesHit]
  by_cases hr : f.fetchReqPending && w.imemReady <;> by_cases ht : f.ifFetchTarget w <;>
    by_cases hs : f.slotToIf w <;> by_cases hc : f.canFetch <;>
    by_cases hh : f.icacheLookupHit cfg <;> simp [hr, ht, hs, hc, hh]

theorem next_pcFetch (h : w.flush = false) :
    (f.next cfg w).pcFetch = if f.canFetch then f.pcFetch + 4#32 else f.pcFetch := by
  simp only [next, h, Bool.false_eq_true, ↓reduceIte, advanceEx, fetchResponse, fillCache, shiftSlot,
    acceptId, issueFetch, apply_ite Front.pcFetch, ite_self]

theorem next_fetchReqPending (h : w.flush = false) :
    (f.next cfg w).fetchReqPending =
      (f.startsFetch cfg || f.fetchReqPending && !w.imemReady) := by
  simp only [next, h, Bool.false_eq_true, ↓reduceIte, advanceEx, fetchResponse, fillCache, shiftSlot,
    acceptId, issueFetch, apply_ite Front.fetchReqPending, ite_self, startsFetch]
  by_cases hc : f.canFetch
  · have hp := canFetch_not_pending hc
    cases f.icacheLookupHit cfg <;> simp [hc, hp]
  · cases f.fetchReqPending <;> cases w.imemReady <;> simp [hc]

theorem next_fetchReqAddr (h : w.flush = false) :
    (f.next cfg w).fetchReqAddr = if f.startsFetch cfg then f.pcFetch else f.fetchReqAddr := by
  simp only [next, h, Bool.false_eq_true, ↓reduceIte, advanceEx, fetchResponse, fillCache, shiftSlot,
    acceptId, issueFetch, apply_ite Front.fetchReqAddr, ite_self, startsFetch]
  by_cases hc : f.canFetch <;> by_cases hh : f.icacheLookupHit cfg <;> simp [hc, hh]

theorem next_fetchReqCacheable (h : w.flush = false) :
    (f.next cfg w).fetchReqCacheable =
      if f.answered w then false
      else if f.startsFetch cfg then cfg.icacheEnabled else f.fetchReqCacheable := by
  simp only [next, h, Bool.false_eq_true, ↓reduceIte, advanceEx, fetchResponse, fillCache, shiftSlot,
    acceptId, issueFetch, apply_ite Front.fetchReqCacheable, ite_self, startsFetch, answered]
  by_cases hc : f.canFetch <;> by_cases hh : f.icacheLookupHit cfg <;> simp [hc, hh]

theorem next_icacheFill (h : w.flush = false) :
    (f.next cfg w).icacheFillIndex =
        (if f.startsFetch cfg then f.nextCacheIndex cfg else f.icacheFillIndex) ∧
      (f.next cfg w).icacheFillTag =
        (if f.startsFetch cfg then f.nextCacheTag cfg else f.icacheFillTag) := by
  simp only [next, h, Bool.false_eq_true, ↓reduceIte, advanceEx, fetchResponse, fillCache, shiftSlot,
    acceptId, issueFetch, apply_ite Front.icacheFillIndex, apply_ite Front.icacheFillTag, ite_self,
    startsFetch]
  by_cases hc : f.canFetch <;> by_cases hh : f.icacheLookupHit cfg <;> simp [hc, hh]

theorem next_icache (h : w.flush = false) :
    (f.next cfg w).icache =
      if f.answered w && f.fetchReqCacheable && cfg.icacheEnabled then
        fun j ↦ if j = f.icacheFillIndex then ⟨true, f.icacheFillTag, w.imemRdata⟩ else f.icache j
      else f.icache := by
  simp only [next, h, Bool.false_eq_true, ↓reduceIte, advanceEx, fetchResponse, fillCache, shiftSlot,
    acceptId, issueFetch, apply_ite Front.icache, ite_self, answered]
  by_cases hr : f.fetchReqPending && w.imemReady <;>
    by_cases hc : f.fetchReqCacheable && cfg.icacheEnabled <;> simp [hr, hc]

/-! ## Order -/

/-- A cache hit aimed at the IF buffer in the cycle that ID empties it: `id_accept` clears
`if_valid` after the hit has set it, so the word is gone while `pc_fetch` has moved on. -/
def hitLost (cfg : Config) (f : Front) (w : FrontWires) : Bool :=
  !w.flush && f.takesHit cfg && f.ifFetchTarget w && f.idAccept w

/-- The pc that follows an optional instruction at `p`. -/
def after (present : Bool) (p : Word) : Word := if present then p + 4#32 else p

@[simp] theorem after_true (p : Word) : after true p = p + 4#32 := rfl
@[simp] theorem after_false (p : Word) : after false p = p := rfl

/-- IF buffer, prefetch slot, outstanding request and `pc_fetch` hold the pcs from `q` on, and each
held word `fits` its pc. -/
structure QueueOrdered (fits : Word → Word → Prop) (f : Front) (q : Word) : Prop where
  ifBuf : f.ifBuf.valid → f.ifBuf.pc = q ∧ fits q f.ifBuf.instr
  slot : f.prefetchSlot.valid →
    f.prefetchSlot.pc = q + 4#32 ∧ fits (q + 4#32) f.prefetchSlot.instr
  fetch : f.fetchReqPending → f.fetchReqAddr = after f.ifBuf.valid q
  pcFetch : f.pcFetch =
    after f.fetchReqPending (after f.prefetchSlot.valid (after f.ifBuf.valid q))
  slot_ifBuf : f.prefetchSlot.valid → f.ifBuf.valid
  fetch_slot : f.fetchReqPending → f.prefetchSlot.valid = false

/-- EX, ID and then the queue hold the pcs from `p` on. -/
structure Ordered (fits : Word → Word → Prop) (f : Front) (p : Word) : Prop where
  ex : f.ex.valid → f.ex.pc = p ∧ fits p f.ex.instr
  id : f.id.valid → f.id.pc = after f.ex.valid p ∧ fits (after f.ex.valid p) f.id.instr
  queue : QueueOrdered fits f (after f.id.valid (after f.ex.valid p))

theorem QueueOrdered.canFetch_eq (h : QueueOrdered fits f q) :
    f.canFetch = (!f.fetchReqPending && !f.prefetchSlot.valid) := by
  have hs := h.slot_ifBuf
  unfold canFetch fetchBufferOccupancy prefetchDepth
  cases hv : f.prefetchSlot.valid
  · cases f.ifBuf.valid <;> rfl
  · rw [hs hv]; simp

-- The slot is filled behind the IF buffer only, and nothing is fetched while it is full.
theorem QueueOrdered.occupancy (h : QueueOrdered fits f q) :
    (f.prefetchSlot.valid = true ∧ f.ifBuf.valid = true ∧ f.fetchReqPending = false) ∨
      (f.prefetchSlot.valid = false ∧ f.fetchReqPending = false) ∨
      (f.prefetchSlot.valid = false ∧ f.fetchReqPending = true) := by
  cases hs : f.prefetchSlot.valid with
  | true =>
    have hp : f.fetchReqPending = false := by
      rw [← Bool.not_eq_true]
      intro hp
      rw [h.fetch_slot hp] at hs
      cases hs
    exact .inl ⟨rfl, h.slot_ifBuf hs, hp⟩
  | false =>
    cases f.fetchReqPending with
    | false => exact .inr (.inl ⟨rfl, rfl⟩)
    | true => exact .inr (.inr ⟨rfl, rfl⟩)

/-! The three states of the queue: free, with a request out, and full. -/

theorem queueOrdered_free (hs : f.prefetchSlot.valid = false) (hp : f.fetchReqPending = false)
    (hif : f.ifBuf.valid → f.ifBuf.pc = q ∧ fits q f.ifBuf.instr) (hpc : f.pcFetch = after f.ifBuf.valid q) :
    QueueOrdered fits f q where
  ifBuf := hif
  slot := by simp [hs]
  fetch := by simp [hp]
  pcFetch := by rw [hp, hs]; exact hpc
  slot_ifBuf := by simp [hs]
  fetch_slot := by simp [hp]

theorem queueOrdered_requested (hs : f.prefetchSlot.valid = false) (hp : f.fetchReqPending = true)
    (hif : f.ifBuf.valid → f.ifBuf.pc = q ∧ fits q f.ifBuf.instr)
    (haddr : f.fetchReqAddr = after f.ifBuf.valid q) (hpc : f.pcFetch = after f.ifBuf.valid q + 4#32) :
    QueueOrdered fits f q where
  ifBuf := hif
  slot := by simp [hs]
  fetch := fun _ ↦ haddr
  pcFetch := by rw [hp, hs]; exact hpc
  slot_ifBuf := by simp [hs]
  fetch_slot := fun _ ↦ hs

theorem queueOrdered_full (hb : f.ifBuf.valid = true) (hs : f.prefetchSlot.valid = true)
    (hp : f.fetchReqPending = false) (hif : f.ifBuf.pc = q ∧ fits q f.ifBuf.instr)
    (hslot : f.prefetchSlot.pc = q + 4#32 ∧ fits (q + 4#32) f.prefetchSlot.instr)
    (hpc : f.pcFetch = q + 4#32 + 4#32) : QueueOrdered fits f q where
  ifBuf := fun _ ↦ hif
  slot := fun _ ↦ hslot
  fetch := by simp [hp]
  pcFetch := by rw [hp, hs, hb]; exact hpc
  slot_ifBuf := fun _ ↦ hb
  fetch_slot := by simp [hp]

-- ID takes the IF buffer or leaves it, and one request is out.
theorem QueueOrdered.requested_next {g : Front} (h : QueueOrdered fits f q)
    (hif : g.ifBuf = if f.idAccept w then { f.ifBuf with valid := false } else f.ifBuf)
    (hs : g.prefetchSlot.valid = false) (hp : g.fetchReqPending = true)
    (haddr : g.fetchReqAddr = after f.ifBuf.valid q) (hpc : g.pcFetch = after f.ifBuf.valid q + 4#32) :
    QueueOrdered fits g (after (f.idAccept w) q) := by
  by_cases ha : f.idAccept w
  · rw [if_pos ha] at hif
    rw [idAccept_ifBuf ha] at haddr hpc
    rw [ha]
    apply queueOrdered_requested hs hp
    · rw [hif]
      exact fun hv ↦ absurd hv Bool.false_ne_true
    · rw [haddr, hif]
      rfl
    · rw [hpc, hif]
      rfl
  · rw [if_neg ha] at hif
    rw [Bool.not_eq_true _ |>.mp ha]
    apply queueOrdered_requested hs hp
    · rw [hif]
      exact h.ifBuf
    · rw [haddr, hif]
      rfl
    · rw [hpc, hif]
      rfl

-- ID takes the IF buffer and the slot moves up, or nothing happens.
theorem QueueOrdered.next_full (h : QueueOrdered fits f q) (hf : w.flush = false)
    (hs : f.prefetchSlot.valid = true) (hb : f.ifBuf.valid = true) (hp : f.fetchReqPending = false) :
    QueueOrdered fits (f.next cfg w) (after (f.idAccept w) q) := by
  have hcan : f.canFetch = false := by simp [h.canFetch_eq, hs]
  have hpc : f.pcFetch = q + 4#32 + 4#32 := by
    rw [h.pcFetch, hp, hs, hb]
    rfl
  have hslot := h.slot hs
  have hp' : (f.next cfg w).fetchReqPending = false := by
    rw [next_fetchReqPending hf, startsFetch, hcan, hp]
    rfl
  have hpc' : (f.next cfg w).pcFetch = f.pcFetch := by simp [next_pcFetch hf, hcan]
  by_cases ha : f.idAccept w
  · have hif' : (f.next cfg w).ifBuf = ⟨true, f.prefetchSlot.instr, f.prefetchSlot.pc⟩ := by
      simp [next_ifBuf hf, answered, slotToIf, hs, hp, ha]
    have hs' : (f.next cfg w).prefetchSlot.valid = false := by
      simp [next_prefetchSlot hf, answered, takesHit, slotToIf, hs, hp, hcan, ha]
    rw [ha, after_true]
    apply queueOrdered_free hs' hp'
    · rw [hif']
      exact fun _ ↦ hslot
    · rw [hpc', hif']
      exact hpc
  · have hif' : (f.next cfg w).ifBuf = f.ifBuf := by
      simp [next_ifBuf hf, answered, takesHit, slotToIf, hb, hp, hcan, ha]
    have hs' : (f.next cfg w).prefetchSlot = f.prefetchSlot := by
      simp [next_prefetchSlot hf, answered, takesHit, slotToIf, hb, hp, hcan, ha]
    rw [Bool.not_eq_true _ |>.mp ha, after_false]
    apply queueOrdered_full
    · rw [hif', hb]
    · rw [hs', hs]
    · exact hp'
    · rw [hif']
      exact h.ifBuf hb
    · rw [hs']
      exact hslot
    · rw [hpc', hpc]

-- A hit fills the next place, and a miss starts a request.
theorem QueueOrdered.next_free (h : QueueOrdered fits f q) (hf : w.flush = false) (hl : f.hitLost cfg w = false)
    (hc : f.icacheLookupHit cfg → fits f.pcFetch (f.icacheLookupWord cfg))
    (hs : f.prefetchSlot.valid = false) (hp : f.fetchReqPending = false) :
    QueueOrdered fits (f.next cfg w) (after (f.idAccept w) q) := by
  have hcan : f.canFetch = true := by simp [h.canFetch_eq, hs, hp]
  have hpc : f.pcFetch = after f.ifBuf.valid q := by
    rw [h.pcFetch, hp, hs]
    rfl
  have hpc' : (f.next cfg w).pcFetch = f.pcFetch + 4#32 := by simp [next_pcFetch hf, hcan]
  by_cases hhit : f.icacheLookupHit cfg
  · have hp' : (f.next cfg w).fetchReqPending = false := by
      rw [next_fetchReqPending hf, startsFetch, hhit, hp]
      simp
    have ha : f.idAccept w = false := by
      rw [← Bool.not_eq_true]
      intro ha
      simp [hitLost, takesHit, ifFetchTarget, slotToIf, hf, hcan, hhit, hs, ha] at hl
    rw [ha, after_false]
    by_cases hb : f.ifBuf.valid
    · have hif' : (f.next cfg w).ifBuf = f.ifBuf := by
        simp [next_ifBuf hf, answered, takesHit, ifFetchTarget, slotToIf, hb, hs, hp, ha]
      have hs' : (f.next cfg w).prefetchSlot = ⟨true, f.icacheLookupWord cfg, f.pcFetch⟩ := by
        simp [next_prefetchSlot hf, answered, takesHit, ifFetchTarget, slotToIf, hb, hs, hp, hcan, hhit, ha]
      rw [hb, after_true] at hpc
      apply queueOrdered_full
      · rw [hif', hb]
      · rw [hs']
      · exact hp'
      · rw [hif']
        exact h.ifBuf hb
      · rw [hs']
        exact ⟨hpc, hpc ▸ hc hhit⟩
      · rw [hpc', hpc]
    · rw [Bool.not_eq_true] at hb
      have hif' : (f.next cfg w).ifBuf = ⟨true, f.icacheLookupWord cfg, f.pcFetch⟩ := by
        simp [next_ifBuf hf, answered, takesHit, ifFetchTarget, slotToIf, hb, hs, hp, hcan, hhit, ha]
      have hs' : (f.next cfg w).prefetchSlot.valid = false := by
        simp [next_prefetchSlot hf, answered, takesHit, ifFetchTarget, slotToIf, hb, hs, hp]
      rw [hb, after_false] at hpc
      apply queueOrdered_free hs' hp'
      · rw [hif']
        exact fun _ ↦ ⟨hpc, hpc ▸ hc hhit⟩
      · rw [hpc', hif', hpc]
        rfl
  · have hp' : (f.next cfg w).fetchReqPending = true := by
      simp [next_fetchReqPending hf, startsFetch, hcan, hhit]
    have haddr' : (f.next cfg w).fetchReqAddr = f.pcFetch := by
      simp [next_fetchReqAddr hf, startsFetch, hcan, hhit]
    have hs' : (f.next cfg w).prefetchSlot.valid = false := by
      simp [next_prefetchSlot hf, answered, takesHit, slotToIf, hs, hp, hhit]
    have hif' : (f.next cfg w).ifBuf = if f.idAccept w then { f.ifBuf with valid := false } else f.ifBuf := by
      simp [next_ifBuf hf, answered, takesHit, slotToIf, hs, hp, hhit]
    exact h.requested_next hif' hs' hp' (haddr'.trans hpc) (by rw [hpc', hpc])

-- The answer fills the next place.
theorem QueueOrdered.next_answered (h : QueueOrdered fits f q) (hf : w.flush = false)
    (hr : fits f.fetchReqAddr w.imemRdata) (hs : f.prefetchSlot.valid = false)
    (hp : f.fetchReqPending = true) (hready : w.imemReady = true) :
    QueueOrdered fits (f.next cfg w) (after (f.idAccept w) q) := by
  have hcan : f.canFetch = false := by simp [h.canFetch_eq, hp]
  have haddr := h.fetch hp
  have hpc : f.pcFetch = after f.ifBuf.valid q + 4#32 := by
    rw [h.pcFetch, hp, hs]
    rfl
  have hp' : (f.next cfg w).fetchReqPending = false := by
    simp [next_fetchReqPending hf, startsFetch, hcan, hready]
  have hpc' : (f.next cfg w).pcFetch = f.pcFetch := by simp [next_pcFetch hf, hcan]
  by_cases hkeep : f.ifBuf.valid = true ∧ f.idAccept w = false
  · obtain ⟨hb, ha⟩ := hkeep
    have hif' : (f.next cfg w).ifBuf = f.ifBuf := by
      simp [next_ifBuf hf, takesHit, ifFetchTarget, slotToIf, hb, hs, hcan, ha]
    have hs' : (f.next cfg w).prefetchSlot = ⟨true, w.imemRdata, f.fetchReqAddr⟩ := by
      simp [next_prefetchSlot hf, answered, ifFetchTarget, slotToIf, hb, hs, hp, hready, ha]
    rw [hb, after_true] at haddr hpc
    rw [ha, after_false]
    apply queueOrdered_full
    · rw [hif', hb]
    · rw [hs']
    · exact hp'
    · rw [hif']
      exact h.ifBuf hb
    · rw [hs']
      exact ⟨haddr, haddr ▸ hr⟩
    · rw [hpc', hpc]
  · -- the IF buffer is empty, or ID empties it
    have hsame : f.ifBuf.valid = f.idAccept w := by
      have hb := @idAccept_ifBuf f w
      cases ha : f.idAccept w
      · rw [ha] at hkeep
        simpa using hkeep
      · exact hb ha
    have hif' : (f.next cfg w).ifBuf = ⟨true, w.imemRdata, f.fetchReqAddr⟩ := by
      simp [next_ifBuf hf, answered, ifFetchTarget, slotToIf, hs, hp, hready, hsame]
    have hs' : (f.next cfg w).prefetchSlot.valid = false := by
      simp [next_prefetchSlot hf, answered, takesHit, ifFetchTarget, slotToIf, hs, hcan, hsame]
    rw [hsame] at haddr hpc
    apply queueOrdered_free hs' hp'
    · rw [hif']
      exact fun _ ↦ ⟨haddr, haddr ▸ hr⟩
    · rw [hpc', hpc, hif']
      rfl

theorem QueueOrdered.next_waiting (h : QueueOrdered fits f q) (hf : w.flush = false)
    (hs : f.prefetchSlot.valid = false) (hp : f.fetchReqPending = true) (hready : w.imemReady = false) :
    QueueOrdered fits (f.next cfg w) (after (f.idAccept w) q) := by
  have hcan : f.canFetch = false := by simp [h.canFetch_eq, hp]
  have hpc : f.pcFetch = after f.ifBuf.valid q + 4#32 := by
    rw [h.pcFetch, hp, hs]
    rfl
  have hif' : (f.next cfg w).ifBuf = if f.idAccept w then { f.ifBuf with valid := false } else f.ifBuf := by
    simp [next_ifBuf hf, answered, takesHit, slotToIf, hs, hcan, hready]
  have hs' : (f.next cfg w).prefetchSlot.valid = false := by
    simp [next_prefetchSlot hf, answered, takesHit, slotToIf, hs, hcan, hready]
  apply h.requested_next hif' hs'
  · simp [next_fetchReqPending hf, hp, hready]
  · rw [next_fetchReqAddr hf, startsFetch, hcan]
    exact h.fetch hp
  · rw [next_pcFetch hf, hcan]
    exact hpc

theorem QueueOrdered.next (h : QueueOrdered fits f q) (hf : w.flush = false)
    (hl : f.hitLost cfg w = false) (hr : f.answered w → fits f.fetchReqAddr w.imemRdata)
    (hc : f.icacheLookupHit cfg → fits f.pcFetch (f.icacheLookupWord cfg)) :
    QueueOrdered fits (f.next cfg w) (after (f.idAccept w) q) := by
  rcases h.occupancy with ⟨hs, hb, hp⟩ | ⟨hs, hp⟩ | ⟨hs, hp⟩
  · exact h.next_full hf hs hb hp
  · exact h.next_free hf hl hc hs hp
  · cases hready : w.imemReady with
    | true => exact h.next_answered hf (hr (by simp [answered, hp, hready])) hs hp hready
    | false => exact h.next_waiting hf hs hp hready

-- A flush starts a new, empty queue at the redirect address.
theorem ordered_flush (hf : w.flush) : Ordered fits (f.next cfg w) w.redirect := by
  rw [next_flush hf]
  exact ⟨by simp [flushPipe], by simp [flushPipe], ⟨by simp [flushPipe], by simp [flushPipe],
    by simp [flushPipe], rfl, by simp [flushPipe], by simp [flushPipe]⟩⟩

-- Without a flush only the instruction in EX can leave, at the head of the queue.
theorem Ordered.next (h : Ordered fits f p) (hf : w.flush = false) (hl : f.hitLost cfg w = false)
    (hr : f.answered w → fits f.fetchReqAddr w.imemRdata)
    (hc : f.icacheLookupHit cfg → fits f.pcFetch (f.icacheLookupWord cfg)) :
    Ordered fits (f.next cfg w) (after (f.ex.valid && !w.stallEx) p) := by
  have hq := h.queue.next hf hl hr hc
  have hifq := h.queue.ifBuf
  obtain ⟨hex, hid, -⟩ := h
  by_cases hx : f.idToEx w
  · -- ID moves up: EX was empty or leaves
    have hidv := idToEx_id hx
    have hacc := idAccept_of_idToEx hx
    have hleave : after (f.ex.valid && !w.stallEx) p = after f.ex.valid p := by
      simp only [idToEx, exCanAccept, Bool.and_eq_true, Bool.or_eq_true, Bool.not_eq_true'] at hx
      rcases hx.2 with hv | hs
      · simp [hv]
      · simp [hs]
    have hex' : (f.next cfg w).ex = ⟨true, f.id.instr, f.id.pc, w.forwardRs1, w.forwardRs2⟩ := by
      rw [next_ex hf, if_pos hx]
    have hid' : (f.next cfg w).id.valid = false := by rw [next_id hf, if_pos hx]
    rw [hleave]
    refine ⟨fun _ ↦ ?_, fun hv ↦ ?_, ?_⟩
    · rw [hex']; exact hid hidv
    · rw [hid'] at hv; cases hv
    · rw [hid', hex']
      simpa [hacc, hidv] using hq
  · -- EX keeps its instruction or becomes empty; ID keeps its own or takes the one in IF
    have hex' : (f.next cfg w).ex =
        if f.ex.valid && !w.stallEx then { f.ex with valid := false } else f.ex := by
      rw [next_ex hf, if_neg hx]
    have hhead : after (f.next cfg w).ex.valid (after (f.ex.valid && !w.stallEx) p) =
        after f.ex.valid p := by
      rw [hex']
      cases hv : f.ex.valid <;> cases hs : w.stallEx <;> simp [hv]
    have hid' : (f.next cfg w).id =
        if f.idAccept w then ⟨true, f.ifBuf.instr, f.ifBuf.pc⟩ else f.id := by
      rw [next_id hf, if_neg hx]
    refine ⟨fun hv ↦ ?_, fun hv ↦ ?_, ?_⟩
    · rw [hex'] at hv ⊢
      cases hxv : f.ex.valid <;> cases hs : w.stallEx <;> simp_all
    · rw [hhead]
      rw [hid'] at hv ⊢
      by_cases ha : f.idAccept w
      · simpa [ha, idAccept_id ha] using hifq (idAccept_ifBuf ha)
      · simpa [ha] using hid (by simpa [ha] using hv)
    · rw [hhead, hid']
      by_cases ha : f.idAccept w
      · simpa [ha, idAccept_id ha] using hq
      · simpa [ha] using hq

/-! ## The oldest instruction -/

/-- Only an outstanding request is left of the queue. -/
def onlyFetchInFlight (f : Front) : Bool :=
  !f.ex.valid && !f.id.valid && !f.ifBuf.valid && f.fetchReqPending

-- The first valid one of EX, ID and IF is the oldest instruction, and `pc_fetch` is its address when there is
-- none, except that `pc_fetch` is already one instruction further when a request is out.
theorem Ordered.head (h : Ordered fits f p) :
    (if f.ex.valid then f.ex.pc else if f.id.valid then f.id.pc
      else if f.ifBuf.valid then f.ifBuf.pc else f.pcFetch) =
      if f.onlyFetchInFlight then p + 4#32 else p := by
  unfold onlyFetchInFlight
  have hq := h.queue
  cases hx : f.ex.valid
  · cases hi : f.id.valid
    · cases hb : f.ifBuf.valid
      · have hs : f.prefetchSlot.valid = false := by
          rw [← Bool.not_eq_true]
          exact fun hs ↦ absurd (hq.slot_ifBuf hs) (by simp [hb])
        have hp := hq.pcFetch
        simp only [hx, hi, hb, hs, after_false] at hp
        rw [hp]
        cases f.fetchReqPending <;> simp
      · simpa [hx, hi] using (hq.ifBuf hb).1
    · simpa [hx] using (h.id hi).1
  · simpa using (h.ex hx).1

/-! ## The instruction cache -/

/-- A held word depends on the word address only: what the bus and the cache lines deliver. -/
def WordFits (fits : Word → Word → Prop) : Prop :=
  ∀ a b instr, a.toNat / 4 = b.toNat / 4 → fits a instr → fits b instr

/-- Every valid line holds the word of each address that maps to it, and the outstanding cacheable
request remembers where its answer goes. -/
structure CacheOk (cfg : Config) (fits : Word → Word → Prop) (f : Front) : Prop where
  line : ∀ a, (f.icache (cacheIndex cfg a)).valid → (f.icache (cacheIndex cfg a)).tag = cacheTag cfg a →
    fits a (f.icache (cacheIndex cfg a)).data
  fill : f.fetchReqPending → f.fetchReqCacheable →
    f.icacheFillIndex = cacheIndex cfg f.fetchReqAddr ∧
      f.icacheFillTag = cacheTag cfg f.fetchReqAddr

-- Index and tag together are the word address.
theorem word_of_index_tag (he : cfg.icacheEnabled) {a b : Word}
    (hi : cacheIndex cfg a = cacheIndex cfg b) (ht : cacheTag cfg a = cacheTag cfg b) :
    a.toNat / 4 = b.toNat / 4 := by
  simp only [cacheIndex, he, ↓reduceIte, cacheTag] at hi ht
  rw [← Nat.mod_add_div (a.toNat / 4) (2 ^ cfg.icacheIndexBits), hi, ht, Nat.mod_add_div]

theorem CacheOk.lookup (h : CacheOk cfg fits f) (hh : f.icacheLookupHit cfg) :
    fits f.pcFetch (f.icacheLookupWord cfg) := by
  unfold icacheLookupWord
  rw [if_pos hh]
  simp only [icacheLookupHit, Bool.and_eq_true, beq_iff_eq] at hh
  exact h.line f.pcFetch hh.1.2 hh.2

theorem CacheOk.next (h : CacheOk cfg fits f) (hw : cfg.icacheEnabled → WordFits fits)
    (hr : f.answered w → fits f.fetchReqAddr w.imemRdata) : CacheOk cfg fits (f.next cfg w) := by
  by_cases hf : w.flush
  · rw [next_flush hf]
    exact ⟨h.line, by simp [flushPipe]⟩
  · rw [Bool.not_eq_true] at hf
    refine ⟨fun a ↦ ?_, fun hp hc ↦ ?_⟩
    · rw [next_icache hf]
      by_cases hfill : f.answered w && f.fetchReqCacheable && cfg.icacheEnabled
      · simp only [hfill, ↓reduceIte]
        simp only [Bool.and_eq_true] at hfill
        obtain ⟨⟨ha, hcb⟩, he⟩ := hfill
        have hpend : f.fetchReqPending := by
          simp only [answered, Bool.and_eq_true] at ha
          exact ha.1
        obtain ⟨hidx, htag⟩ := h.fill hpend hcb
        by_cases hj : cacheIndex cfg a = f.icacheFillIndex
        · simp only [hj, ↓reduceIte]
          intro _ ht
          exact hw he f.fetchReqAddr a _
            (word_of_index_tag he (hidx.symm.trans hj.symm) (htag.symm.trans ht)) (hr ha)
        · simp only [hj, ↓reduceIte]
          exact h.line a
      · simp only [hfill]
        exact h.line a
    · rw [next_fetchReqPending hf] at hp
      rw [next_fetchReqCacheable hf] at hc
      rw [(next_icacheFill hf).1, (next_icacheFill hf).2, next_fetchReqAddr hf]
      by_cases hs : f.startsFetch cfg
      · simp [hs, nextCacheIndex, nextCacheTag]
      · have hpend : f.fetchReqPending := by
          simp only [hs, Bool.false_or, Bool.and_eq_true] at hp
          exact hp.1
        have ha : f.answered w = false := by
          rw [← Bool.not_eq_true]
          intro ha
          simp [ha] at hc
        simp only [hs, ha] at hc ⊢
        exact h.fill hpend (by simpa using hc)

theorem ordered_reset : Ordered fits Front.reset 0#32 :=
  ⟨by simp [reset], by simp [reset, Slot.reset], ⟨by simp [reset, Slot.reset],
    by simp [reset, Slot.reset], by simp [reset], rfl, by simp [reset, Slot.reset],
    by simp [reset]⟩⟩

theorem cacheOk_reset : CacheOk cfg fits Front.reset :=
  ⟨by simp [reset], by simp [reset]⟩

-- Without a cache nothing ever hits.
theorem takesHit_of_disabled (h : cfg.icacheEnabled = false) : f.takesHit cfg = false := by
  simp [takesHit, icacheLookupHit, h]

theorem hitLost_of_disabled (h : cfg.icacheEnabled = false) : f.hitLost cfg w = false := by
  simp [hitLost, takesHit_of_disabled h]

end QarCore.Front
