import QarCore.Core.Handshake

/-!
# What the fetch queue holds

The pcs and words of EX, ID, IF buffer and prefetch slot, then the outstanding request and `pc_fetch`, as
one list.  Without a cache an edge takes the instruction that leaves EX off its front and puts what has
been fetched at its end, and nothing else happens to it.
-/

namespace QarCore

namespace Front

variable {f : Front} {w : FrontWires} {fits : Word → Word → Prop} {imem : Word → Word} {p q : Word}

/-- The instructions in EX and ID with their pcs, oldest first. -/
def staged (f : Front) : List (Word × Word) :=
  (if f.ex.valid then [(f.ex.pc, f.ex.instr)] else []) ++ if f.id.valid then [(f.id.pc, f.id.instr)] else []

/-- The instructions in the IF buffer and the prefetch slot. -/
def buffered (f : Front) : List (Word × Word) :=
  (if f.ifBuf.valid then [(f.ifBuf.pc, f.ifBuf.instr)] else []) ++
    if f.prefetchSlot.valid then [(f.prefetchSlot.pc, f.prefetchSlot.instr)] else []

def held (f : Front) : List (Word × Word) := f.staged ++ f.buffered

/-- The address of the outstanding request, and `pc_fetch`. -/
def fetching (f : Front) : List Word := (if f.fetchReqPending then [f.fetchReqAddr] else []) ++ [f.pcFetch]

def queuePcs (f : Front) : List Word := f.held.map Prod.fst ++ f.fetching

/-- The fetch queue of a core on the instruction memory `imem`. -/
structure QueueInvariant (imem : Word → Word) (f : Front) : Prop where
  slot_ifBuf : f.prefetchSlot.valid → f.ifBuf.valid
  fetch_buffered : f.fetchReqPending → f.fetchBufferOccupancy ≤ 1
  consecutive : f.queuePcs.IsChain fun p q ↦ q = p + 4#32
  words : ∀ x ∈ f.held, x.2 = imem x.1

/-- The instruction in EX leaves in this cycle. -/
def exPops (f : Front) (w : FrontWires) : Bool := f.ex.valid && !w.stallEx

/-- One cycle takes the queue from `f` to `g`: nothing is dropped, duplicated or moved. -/
structure FetchesInOrder (f : Front) (w : FrontWires) (g : Front) : Prop where
  flushed : w.flush → g.held = [] ∧ g.queuePcs = [w.redirect]
  held : w.flush = false → g.held =
    f.held.drop (f.exPops w).toNat ++ if f.answered w then [(f.fetchReqAddr, w.imemRdata)] else []
  pcs : w.flush = false → g.queuePcs =
    f.queuePcs.drop (f.exPops w).toNat ++ if f.canFetch then [f.pcFetch + 4#32] else []

/-! ## One edge -/

theorem held_flush (cfg : Config) (hf : w.flush) :
    (f.next cfg w).held = [] ∧ (f.next cfg w).queuePcs = [w.redirect] := by
  rw [next_flush hf]
  exact ⟨rfl, rfl⟩

-- EX gives its instruction away, and ID takes one from the IF buffer.
theorem staged_next (cfg : Config) (hf : w.flush = false) : (f.next cfg w).staged =
    f.staged.drop (f.exPops w).toNat ++ if f.idAccept w then [(f.ifBuf.pc, f.ifBuf.instr)] else [] := by
  unfold staged exPops
  rw [next_ex hf, next_id hf]
  by_cases hx : f.idToEx w
  · -- ID moves up: EX was empty or leaves
    have hid := idToEx_id hx
    have hacc := idAccept_of_idToEx hx
    simp only [idToEx, exCanAccept, Bool.and_eq_true, Bool.or_eq_true, Bool.not_eq_true'] at hx
    rcases hx.2 with hv | hs
    · simp [idToEx, exCanAccept, hx.1.1, hx.1.2, hv, hacc]
    · cases hv : f.ex.valid <;> simp [idToEx, exCanAccept, hx.1.1, hx.1.2, hv, hs, hacc]
  · -- EX keeps its instruction or becomes empty
    rw [if_neg hx, if_neg hx]
    by_cases ha : f.idAccept w
    · have hid := idAccept_id ha
      cases hv : f.ex.valid <;> cases hs : w.stallEx <;> simp [ha, hid, hv]
    · cases hv : f.ex.valid <;> cases hs : w.stallEx <;> simp [ha, hv]

theorem takesHit_noCache : f.takesHit .noCache = false := takesHit_of_disabled rfl

theorem startsFetch_noCache : f.startsFetch .noCache = f.canFetch := by
  simp [startsFetch, icacheLookupHit, Config.icacheEnabled, Config.noCache]

-- ID empties the IF buffer, and an answered request fills the first free place.
theorem QueueOrdered.buffered_next (h : QueueOrdered fits f q) (hf : w.flush = false) :
    (if f.idAccept w then [(f.ifBuf.pc, f.ifBuf.instr)] else []) ++ (f.next .noCache w).buffered =
      f.buffered ++ if f.answered w then [(f.fetchReqAddr, w.imemRdata)] else [] := by
  have ha := @idAccept_ifBuf f w
  unfold buffered
  rw [next_ifBuf hf, next_prefetchSlot hf, takesHit_noCache]
  rcases h.occupancy with ⟨hs, hb, hp⟩ | ⟨hs, hp⟩ | ⟨hs, hp⟩
  · cases hacc : f.idAccept w <;> simp [answered, slotToIf, hs, hb, hp, hacc]
  · cases hacc : f.idAccept w
    · simp [answered, slotToIf, hs, hp, hacc]
    · simp [answered, slotToIf, hs, hp, hacc, ha hacc]
  · cases hr : w.imemReady <;> cases hacc : f.idAccept w
    · simp [answered, slotToIf, hs, hr, hacc]
    · simp [answered, slotToIf, hs, hr, hacc, ha hacc]
    · cases hb : f.ifBuf.valid <;> simp [answered, slotToIf, ifFetchTarget, hs, hb, hp, hr, hacc]
    · simp [answered, slotToIf, ifFetchTarget, hs, hp, hr, hacc, ha hacc]

-- A request that is answered leaves, and a new one carries `pc_fetch`.
theorem fetching_next (hf : w.flush = false) :
    (if f.answered w then [f.fetchReqAddr] else []) ++ (f.next .noCache w).fetching =
      f.fetching ++ if f.canFetch then [f.pcFetch + 4#32] else [] := by
  unfold fetching
  rw [next_fetchReqPending hf, next_fetchReqAddr hf, next_pcFetch hf, startsFetch_noCache]
  by_cases hc : f.canFetch
  · have hp := canFetch_not_pending hc
    simp [answered, hc, hp]
  · cases hp : f.fetchReqPending <;> cases hr : w.imemReady <;> simp [answered, hc, hp, hr]

theorem QueueOrdered.held_next (h : QueueOrdered fits f q) (hf : w.flush = false) :
    (f.next .noCache w).held = f.held.drop (f.exPops w).toNat ++
      if f.answered w then [(f.fetchReqAddr, w.imemRdata)] else [] := by
  have hlen : (f.exPops w).toNat ≤ f.staged.length := by
    unfold exPops staged
    cases f.ex.valid <;> cases w.stallEx <;> simp
  rw [held, staged_next .noCache hf, List.append_assoc, h.buffered_next hf, held,
    List.drop_append_of_le_length hlen, List.append_assoc]

theorem QueueOrdered.queuePcs_next (h : QueueOrdered fits f q) (hf : w.flush = false) :
    (f.next .noCache w).queuePcs = f.queuePcs.drop (f.exPops w).toNat ++
      if f.canFetch then [f.pcFetch + 4#32] else [] := by
  have hlen : (f.exPops w).toNat ≤ (f.held.map Prod.fst).length := by
    unfold exPops held staged
    cases f.ex.valid <;> cases w.stallEx <;> simp
  have hanswer : (if f.answered w then [(f.fetchReqAddr, w.imemRdata)] else []).map Prod.fst =
      if f.answered w then [f.fetchReqAddr] else [] := by
    cases f.answered w <;> rfl
  rw [queuePcs, h.held_next hf, List.map_append, hanswer, List.append_assoc, fetching_next hf, queuePcs,
    List.drop_append_of_le_length hlen, List.map_drop, List.append_assoc]

theorem QueueOrdered.fetchesInOrder (h : QueueOrdered fits f q) (w : FrontWires) :
    FetchesInOrder f w (f.next .noCache w) :=
  ⟨held_flush .noCache, h.held_next, h.queuePcs_next⟩

/-! ## The order -/

theorem QueueOrdered.fetch_buffered (h : QueueOrdered fits f q) (hp : f.fetchReqPending) :
    f.fetchBufferOccupancy ≤ 1 := by
  rw [fetchBufferOccupancy, h.fetch_slot hp]
  exact Bool.toNat_le f.ifBuf.valid

-- What `Ordered` says of each place, said of the list.
theorem Ordered.queueInvariant (h : Ordered (HoldsWord imem) f p) : QueueInvariant imem f := by
  obtain ⟨hex, hid, hq⟩ := h
  have hocc := hq.occupancy
  refine ⟨hq.slot_ifBuf, hq.fetch_buffered, ?_, ?_⟩
  · obtain ⟨hif, hslot, hfetch, hpc, hsi, hfs⟩ := hq
    unfold queuePcs held staged buffered fetching
    cases hx : f.ex.valid <;> cases hi : f.id.valid <;> cases hb : f.ifBuf.valid <;>
      rcases hocc with ⟨hs, hb', hp⟩ | ⟨hs, hp⟩ | ⟨hs, hp⟩ <;> simp_all
  · intro x hx
    simp only [held, staged, buffered, List.mem_append, List.mem_ite_nil_right, List.mem_singleton] at hx
    rcases hx with (⟨hv, rfl⟩ | ⟨hv, rfl⟩) | ⟨hv, rfl⟩ | ⟨hv, rfl⟩
    · obtain ⟨hpc, hw⟩ := hex hv
      exact hpc ▸ hw
    · obtain ⟨hpc, hw⟩ := hid hv
      exact hpc ▸ hw
    · obtain ⟨hpc, hw⟩ := hq.ifBuf hv
      exact hpc ▸ hw
    · obtain ⟨hpc, hw⟩ := hq.slot hv
      exact hpc ▸ hw

end Front

/-! ## Runs -/

/-- The instruction bus answers from a constant memory: whenever `imem_valid` and `imem_ready` are high,
`imem_rdata` is the word at `imem_addr`. -/
def FetchesFrom (imem : Word → Word) (cfg : Config) (regs : RegIdx → Word) (inp : Nat → Inputs) : Prop :=
  ∀ t addr, imemReq (Core.run cfg regs inp t) = some addr → (inp t).imemReady → (inp t).imemRdata = imem addr

section

variable {cfg : Config} {imem : Word → Word} {regs : RegIdx → Word} {inp : Nat → Inputs}

/-- What the front end is told in cycle `t`. -/
def wiresAt (cfg : Config) (regs : RegIdx → Word) (inp : Nat → Inputs) (t : Nat) : FrontWires :=
  frontWires (Core.run cfg regs inp t) (inp t) (control (Core.run cfg regs inp t) (inp t))

theorem front_succ (t : Nat) : (Core.run cfg regs inp (t + 1)).front =
    (Core.run cfg regs inp t).front.next cfg (wiresAt cfg regs inp t) := rfl

theorem FetchesFrom.answered (h : FetchesFrom imem cfg regs inp) (t : Nat)
    (ha : (Core.run cfg regs inp t).front.answered (wiresAt cfg regs inp t)) :
    HoldsWord imem (Core.run cfg regs inp t).front.fetchReqAddr (wiresAt cfg regs inp t).imemRdata := by
  simp only [Front.answered, Bool.and_eq_true] at ha
  exact h t _ (by rw [imemReq, if_pos ha.1]) ha.2

-- The pins of a board are such inputs.
theorem fetchesFrom_board {M : Type*} (d : DataMem M) (m : M) (env : Nat → Inputs) :
    FetchesFrom imem cfg regs (Board.inputs cfg imem d regs m env) := by
  intro t addr hreq hr
  rw [Core.run_inputs, imemReq] at hreq
  split at hreq
  · rename_i hp
    cases hreq
    have hready : (env t).imemReady = true := hr
    simp only [Board.inputs, Board.pins, hp, hready, Bool.and_self, ↓reduceIte]
  · cases hreq

theorem ordered_run (h : FetchesFrom imem .noCache regs inp) (t : Nat) :
    ∃ p, (Core.run .noCache regs inp t).front.Ordered (HoldsWord imem) p := by
  induction t with
  | zero => exact ⟨0#32, Front.ordered_reset⟩
  | succ t ih =>
    obtain ⟨p, hp⟩ := ih
    rw [front_succ]
    by_cases hf : (wiresAt .noCache regs inp t).flush
    · exact ⟨_, Front.ordered_flush hf⟩
    · have hhit : (Core.run .noCache regs inp t).front.icacheLookupHit .noCache = false := rfl
      refine ⟨_, hp.next (Bool.not_eq_true _ |>.mp hf) (Front.hitLost_of_disabled rfl) (h.answered t) ?_⟩
      rw [hhit]
      exact nofun

/-- Without a cache, in every cycle of every run: the fetch queue is in order, each word in it is the one of
its pc, and the edge moves it on in order. -/
theorem prefetch_in_order (imem : Word → Word) (regs : RegIdx → Word) (inp : Nat → Inputs)
    (h : FetchesFrom imem .noCache regs inp) (t : Nat) :
    (Core.run .noCache regs inp t).front.QueueInvariant imem ∧
      (Core.run .noCache regs inp t).front.FetchesInOrder (wiresAt .noCache regs inp t)
        (Core.run .noCache regs inp (t + 1)).front := by
  obtain ⟨p, hp⟩ := ordered_run h t
  exact ⟨hp.queueInvariant, hp.queue.fetchesInOrder _⟩

end

/-- The queue of a program, in the cycle of an interrupt and in the one before. -/
theorem tickLoop_in_order :
    ((Core.run .noCache (fun _ ↦ 0#32) (tickPins 23) 23).front.QueueInvariant tickLoop ∧
      (Core.run .noCache (fun _ ↦ 0#32) (tickPins 23) 23).front.FetchesInOrder
        (wiresAt .noCache (fun _ ↦ 0#32) (tickPins 23) 23)
        (Core.run .noCache (fun _ ↦ 0#32) (tickPins 23) 24).front) ∧
    (Core.run .noCache (fun _ ↦ 0#32) (tickPins 23) 24).front.QueueInvariant tickLoop :=
  have h : FetchesFrom tickLoop .noCache (fun _ ↦ 0#32) (tickPins 23) := fetchesFrom_board _ _ _
  ⟨prefetch_in_order tickLoop (fun _ ↦ 0#32) (tickPins 23) h 23,
    (prefetch_in_order tickLoop (fun _ ↦ 0#32) (tickPins 23) h 24).1⟩

end QarCore
