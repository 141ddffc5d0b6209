import QarCore.Clocked.Handshake
import QarCore.Core.Interrupts

/-!
# The memory buses

Both buses show their request from registers.  The DMEM request is there until it is answered, across
every flush; a flush withdraws an IMEM request that has not been answered.
-/

namespace QarCore

open Clocked (KeepsRequestAt)

variable {cfg : Config} {s : Core} {i : Inputs}

/-- `imem_valid` and `imem_addr`. -/
def imemReq (s : Core) : Option Word :=
  if s.front.fetchReqPending then some s.front.fetchReqAddr else none

/-- `mem_valid`, and `mem_we`, `mem_addr` and `mem_wdata`. -/
def dmemReq (s : Core) : Option (Bool × Word × Word) :=
  if s.dmem.memReqValid then some (s.dmem.memReqWe, s.dmem.memReqAddr, s.dmem.memReqWdata) else none

/-- A fetch request is unanswered while an interrupt is taken or the instruction in EX traps, jumps,
branches or returns. -/
def withdrawsFetch (s : Core) (i : Inputs) : Bool :=
  s.front.fetchReqPending && !i.imemReady &&
    (irqTaken s i || s.front.ex.valid && ((exAction s i).traps || (exAction s i).redirects))

theorem posedge_fetchReq_of_flush (h : flushes s i) :
    (posedge cfg s i).front.fetchReqPending = false := by
  change (s.front.next cfg (frontWires s i (control s i))).fetchReqPending = false
  rw [Front.next_flush h]
  rfl

-- Without a flush an unanswered request stays on the bus.
theorem posedge_fetchReq (cfg : Config) (h : flushes s i = false) (hp : s.front.fetchReqPending)
    (hr : i.imemReady = false) :
    (posedge cfg s i).front.fetchReqPending ∧
      (posedge cfg s i).front.fetchReqAddr = s.front.fetchReqAddr := by
  have hf : (frontWires s i (control s i)).flush = false := h
  have hr' : (frontWires s i (control s i)).imemReady = false := hr
  have hstart : s.front.startsFetch cfg = false := by
    simp [Front.startsFetch, Front.canFetch, hp]
  change (s.front.next cfg _).fetchReqPending ∧ (s.front.next cfg _).fetchReqAddr = _
  rw [Front.next_fetchReqPending hf, Front.next_fetchReqAddr hf, hstart, hp, hr']
  exact ⟨rfl, rfl⟩

-- An unanswered DMEM request stays on the bus, whatever happens to the pipeline.
theorem posedge_dmem (hp : s.dmem.pending) (hr : i.memReady = false) :
    (posedge cfg s i).dmem = s.dmem := by
  change dmemNext s.dmem (control s i).mem i.memReady = s.dmem
  simp [dmemNext, hp, hr]

section Run

variable (cfg : Config) (regs : RegIdx → Word) (inp : Nat → Inputs)

theorem run_reqValid (t : Nat) :
    (Core.run cfg regs inp t).dmem.memReqValid = (Core.run cfg regs inp t).dmem.pending :=
  Clocked.run_invariant (fun s : Core ↦ s.dmem.memReqValid = s.dmem.pending) rfl
    (fun _ _ h ↦ dmemNext_reqValid h) t

theorem dmem_keepsRequest (t : Nat) :
    KeepsRequestAt (fun t ↦ dmemReq (Core.run cfg regs inp t)) (fun t ↦ (inp t).memReady) t := by
  intro a ha hr
  have hp : (Core.run cfg regs inp t).dmem.pending := by
    rw [← run_reqValid]
    by_contra hv
    simp [dmemReq, hv] at ha
  change dmemReq (posedge cfg (Core.run cfg regs inp t) (inp t)) = some a
  rw [← ha]
  unfold dmemReq
  rw [posedge_dmem hp hr]

theorem imem_keepsRequest_iff (t : Nat) :
    KeepsRequestAt (fun t ↦ imemReq (Core.run cfg regs inp t)) (fun t ↦ (inp t).imemReady) t ↔
      withdrawsFetch (Core.run cfg regs inp t) (inp t) = false := by
  unfold withdrawsFetch
  rw [← control_flush]
  change _ ↔ (_ && flushes (Core.run cfg regs inp t) (inp t)) = false
  constructor
  · intro hk
    by_contra hw
    simp only [Bool.not_eq_false, Bool.and_eq_true, Bool.not_eq_true'] at hw
    obtain ⟨⟨hp, hr⟩, hf⟩ := hw
    have hnext : imemReq (posedge cfg (Core.run cfg regs inp t) (inp t)) = _ :=
      hk _ (if_pos hp) hr
    rw [imemReq, posedge_fetchReq_of_flush hf] at hnext
    cases hnext
  · intro hw a ha hr
    have hp : (Core.run cfg regs inp t).front.fetchReqPending := by
      by_contra hv
      simp [imemReq, hv] at ha
    rw [hp, show (inp t).imemReady = false from hr, Bool.not_false, Bool.true_and,
      Bool.true_and] at hw
    obtain ⟨hp', haddr⟩ := posedge_fetchReq cfg hw hp hr
    change imemReq (posedge cfg (Core.run cfg regs inp t) (inp t)) = some a
    rw [← ha, imemReq, if_pos hp', haddr]
    exact (if_pos hp).symm

/-- The DMEM bus obeys the handshake in every cycle.  The IMEM bus obeys it in exactly the cycles in
which no flush meets an unanswered fetch; over a stretch of such cycles a request stays until it is
accepted. -/
theorem buses_obey_handshake :
    (∀ t, KeepsRequestAt (fun t ↦ dmemReq (Core.run cfg regs inp t)) (fun t ↦ (inp t).memReady) t) ∧
    (∀ t, KeepsRequestAt (fun t ↦ imemReq (Core.run cfg regs inp t)) (fun t ↦ (inp t).imemReady) t ↔
      withdrawsFetch (Core.run cfg regs inp t) (inp t) = false) ∧
    (∀ t d a, dmemReq (Core.run cfg regs inp t) = some a →
      (∀ u, t ≤ u → u < t + d → (inp u).memReady = false) →
      dmemReq (Core.run cfg regs inp (t + d)) = some a) ∧
    (∀ t d a, (∀ u, t ≤ u → u < t + d → withdrawsFetch (Core.run cfg regs inp u) (inp u) = false) →
      imemReq (Core.run cfg regs inp t) = some a →
      (∀ u, t ≤ u → u < t + d → (inp u).imemReady = false) →
      imemReq (Core.run cfg regs inp (t + d)) = some a) := by
  refine ⟨dmem_keepsRequest cfg regs inp, imem_keepsRequest_iff cfg regs inp, fun t d a ha hr ↦ ?_,
    fun t d a hw ha hr ↦ ?_⟩
  · exact Clocked.request_held (fun t ↦ dmemReq (Core.run cfg regs inp t))
      (fun u _ _ ↦ dmem_keepsRequest cfg regs inp u) ha hr
  · exact Clocked.request_held (fun t ↦ imemReq (Core.run cfg regs inp t))
      (fun u hu hud ↦ (imem_keepsRequest_iff cfg regs inp u).mpr (hw u hu hud)) ha hr

end Run

/-- The request for the second instruction waits from cycle 3 to its answer in cycle 5. -/
theorem buses_obey_handshake_tickLoop :
    imemReq (Core.run .noCache (fun _ ↦ 0#32) (tickPins 27) 5) = some 4#32 := by
  have hshown : imemReq (Core.run .noCache (fun _ ↦ 0#32) (tickPins 27) 3) = some 4#32 := by
    rw [tickPins, Core.run_inputs]
    decide +kernel
  have hkept : ∀ u, 3 ≤ u → u < 5 →
      withdrawsFetch (Core.run .noCache (fun _ ↦ 0#32) (tickPins 27) u) (tickPins 27 u) = false ∧
        (tickPins 27 u).imemReady = false := by
    intro u hu hu5
    obtain rfl | rfl : u = 3 ∨ u = 4 := by omega
    · rw [tickPins, Core.run_inputs]
      decide +kernel
    · rw [tickPins, Core.run_inputs]
      decide +kernel
  exact (buses_obey_handshake .noCache (fun _ ↦ 0#32) (tickPins 27)).2.2.2 3 2 4#32
    (fun u hu hud ↦ (hkept u hu hud).1) hshown fun u hu hud ↦ (hkept u hu hud).2

/-- The jump of the loop leaves EX in cycle 24 while the fetch of 24 is unanswered: the request is
withdrawn. -/
theorem tickLoop_withdraws :
    imemReq (Core.run .noCache (fun _ ↦ 0#32) (tickPins 27) 24) = some 24#32 ∧
      (tickPins 27 24).imemReady = false ∧
      imemReq (Core.run .noCache (fun _ ↦ 0#32) (tickPins 27) 25) = none ∧
      ¬KeepsRequestAt (fun t ↦ imemReq (Core.run .noCache (fun _ ↦ 0#32) (tickPins 27) t))
        (fun t ↦ (tickPins 27 t).imemReady) 24 := by
  have hshown : imemReq (Core.run .noCache (fun _ ↦ 0#32) (tickPins 27) 24) = some 24#32 := by
    rw [tickPins, Core.run_inputs]
    decide +kernel
  have hgone : imemReq (Core.run .noCache (fun _ ↦ 0#32) (tickPins 27) 25) = none := by
    rw [tickPins, Core.run_inputs]
    decide +kernel
  refine ⟨hshown, rfl, hgone, fun hk ↦ ?_⟩
  have hnext := hk _ hshown rfl
  change imemReq (Core.run .noCache (fun _ ↦ 0#32) (tickPins 27) 25) = _ at hnext
  rw [hgone] at hnext
  cases hnext

end QarCore
