import QarCore.Clocked.LeadsTo

/-!
# Drivers

Firmware as the accesses it makes, one after the other, against a device that moves on in every cycle.
When an access comes is up to the outside; only the cycle after one is always free.  `Ends P c Q` is total
correctness: from every state of `P` the driver ends, and then `Q` holds of what it returns and of the
device.
-/

namespace Clocked

universe u v

/-- What firmware does: an access whose answer decides how it goes on, or an access that is made again and
again until the answer is right. -/
inductive Driver (A D α : Type) : Type
  | done (a : α)
  | act (req : A) (next : D → Driver A D α)
  | poll (req : A) (ready : D → Bool) (next : D → Driver A D α)

namespace Driver

variable {A D α β γ : Type}

def bind (c : Driver A D α) (f : α → Driver A D β) : Driver A D β :=
  match c with
  | done a => f a
  | act req next => act req fun d ↦ (next d).bind f
  | poll req ready next => poll req ready fun d ↦ (next d).bind f

instance : Monad (Driver A D) where
  pure := done
  bind := bind

/-- One access. -/
def perform (req : A) : Driver A D D := act req done

/-- One access after the other until the answer is right; the last answer. -/
def await (req : A) (ready : D → Bool) : Driver A D D := poll req ready done

/-- The results of a driver on every element of a list. -/
def collect (f : β → Driver A D α) : List β → Driver A D (List α)
  | [] => done []
  | b :: bs => do
    let a ← f b
    let as ← collect f bs
    return a :: as

/-- The access that comes next. -/
def request? : Driver A D α → Option A
  | done _ => none
  | act req _ => some req
  | poll req _ _ => some req

/-- What is left after the answer to the next access. -/
def resume (c : Driver A D α) (d : D) : Driver A D α :=
  match c with
  | done a => done a
  | act _ next => next d
  | poll req ready next => if ready d then next d else poll req ready next

@[simp] theorem pure_eq (a : α) : (pure a : Driver A D α) = done a := rfl

@[simp] theorem bind_eq (c : Driver A D α) (f : α → Driver A D β) : c >>= f = c.bind f := rfl

theorem bind_done (c : Driver A D α) : c.bind done = c := by
  induction c with
  | done a => rfl
  | act req next ih => exact congrArg (act req) (funext ih)
  | poll req ready next ih => exact congrArg (poll req ready) (funext ih)

theorem bind_assoc (c : Driver A D α) (f : α → Driver A D β) (g : β → Driver A D γ) :
    (c.bind f).bind g = c.bind fun a ↦ (f a).bind g := by
  induction c with
  | done a => rfl
  | act req next ih => exact congrArg (act req) (funext ih)
  | poll req ready next ih => exact congrArg (poll req ready) (funext ih)

end Driver

/-- A device on a bus: a cycle of it, with or without an access, and what it answers. -/
structure Target (σ : Type u) (A D : Type) (ι : Type v) where
  step : σ → Option A → ι → σ
  answer : σ → A → ι → D

/-- The device, what is left of the driver, and whether the last cycle had an access. -/
structure Firmware (σ : Type u) (A D α : Type) where
  device : σ
  driver : Driver A D α
  gap : Bool

variable {σ : Type u} {ι : Type v} {A D α β : Type}

namespace Firmware

/-- One cycle; the access waits for its turn. -/
def step (T : Target σ A D ι) (x : Firmware σ A D α) (e : Bool × ι) : Firmware σ A D α :=
  match e.1 && !x.gap, x.driver with
  | true, .act req next => ⟨T.step x.device (some req) e.2, next (T.answer x.device req e.2), true⟩
  | true, .poll req ready next =>
    let d := T.answer x.device req e.2
    ⟨T.step x.device (some req) e.2, if ready d then next d else x.driver, true⟩
  | _, _ => ⟨T.step x.device none e.2, x.driver, false⟩

/-- The driver `c` is about to go on. -/
def Stands (P : σ → Prop) (c : Driver A D α) (x : Firmware σ A D α) : Prop :=
  P x.device ∧ x.driver = c ∧ x.gap = false

/-- An access has been made, and the driver `c` is left. -/
def Rests (P : σ → Prop) (c : Driver A D α) (x : Firmware σ A D α) : Prop :=
  P x.device ∧ x.driver = c ∧ x.gap = true

end Firmware

open Firmware (Stands Rests)

/-- What a device keeps while it is left alone. -/
def Lasts (T : Target σ A D ι) (Env : ι → Prop) (P : σ → Prop) : Prop :=
  ∀ s i, Env i → P s → P (T.step s none i)

/-- From every state of `P` the driver comes to its end, and to whatever is next, with `Q`. -/
def Ends (T : Target σ A D ι) (Env : ι → Prop) (P : σ → Prop) (c : Driver A D α) (Q : α → σ → Prop) : Prop :=
  ∀ (β : Type) (next : α → Driver A D β),
    LeadsTo (Firmware.step T) Env (Stands P (c.bind next)) fun x ↦ ∃ a, Stands (Q a) (next a) x

namespace Firmware

variable {T : Target σ A D ι} {Env : ι → Prop} {P N : σ → Prop} {c : Driver A D α}

theorem step_gap {s : σ} {go : Bool} {i : ι} :
    step T ⟨s, c, true⟩ (go, i) = ⟨T.step s none i, c, false⟩ := by
  simp [step]

theorem step_access {s : σ} {i : ι} {req : A} (h : c.request? = some req) :
    step T ⟨s, c, false⟩ (true, i) = ⟨T.step s (some req) i, c.resume (T.answer s req i), true⟩ := by
  cases c with
  | done a => cases h
  | act req' next =>
    cases h
    rfl
  | poll req' ready next =>
    cases h
    rfl

-- A driver at its end makes no access.
theorem step_done {s : σ} {a : α} {gap go : Bool} {i : ι} :
    step T ⟨s, (.done a : Driver A D α), gap⟩ (go, i) = ⟨T.step s none i, .done a, false⟩ := by
  cases go <;> cases gap <;> rfl

theorem step_wait {s : σ} {gap : Bool} {i : ι} :
    step T ⟨s, c, gap⟩ (false, i) = ⟨T.step s none i, c, false⟩ := by
  simp [step]

-- The cycle after an access has none.
theorem rests_leadsTo (h : ∀ s i, Env i → P s → N (T.step s none i)) :
    LeadsTo (step T) Env (Rests P c) (Stands N c) := by
  refine .cycle ?_
  rintro ⟨s, c, gap⟩ go i hi ⟨hP, rfl, rfl⟩
  rw [step_gap]
  exact ⟨h s i hi hP, rfl, rfl⟩

-- An access that can wait is made.
theorem stands_act_leadsTo {req : A} {next : D → Driver A D α} {M : D → σ → Prop}
    (hidle : Lasts T Env P)
    (hact : ∀ s i, Env i → P s → M (T.answer s req i) (T.step s (some req) i)) :
    LeadsTo (step T) Env (Stands P (.act req next)) fun x ↦ ∃ d, Rests (M d) (next d) x := by
  refine .turn ?_ ?_
  · rintro ⟨s, c, gap⟩ i hi ⟨hP, rfl, rfl⟩
    rw [step_wait]
    exact .inl ⟨hidle s i hi hP, rfl, rfl⟩
  · rintro ⟨s, c, gap⟩ i hi ⟨hP, rfl, rfl⟩
    exact ⟨_, hact s i hi hP, rfl, rfl⟩

end Firmware

namespace Ends

variable {T : Target σ A D ι} {Env : ι → Prop} {P P' : σ → Prop} {Q Q' : α → σ → Prop}

-- What it means for a run that starts with the driver alone.
theorem reaches {c : Driver A D α} (h : Ends T Env P c Q) {inp : Nat → Bool × ι} (hfair : Fair Env inp) {s : σ}
    (hs : P s) : ∃ n a, (run (Firmware.step T) ⟨s, c, false⟩ inp n).driver = .done a ∧
      Q a (run (Firmware.step T) ⟨s, c, false⟩ inp n).device := by
  obtain ⟨n, a, hQ, hdone, -⟩ := h α .done inp hfair ⟨s, c, false⟩ ⟨hs, c.bind_done.symm, rfl⟩
  exact ⟨n, a, hdone, hQ⟩

/-! ## Rules -/

theorem done {a : α} (h : ∀ s, P s → Q a s) : Ends T Env P (.done a) Q :=
  fun _ _ ↦ .of_imp fun _ hx ↦ ⟨a, h _ hx.1, hx.2⟩

theorem mono {c : Driver A D α} (h : Ends T Env P c Q) (hpre : ∀ s, P' s → P s)
    (hpost : ∀ a s, Q a s → Q' a s) : Ends T Env P' c Q' :=
  fun _ next ↦ (h _ next).mono (fun _ hx ↦ ⟨hpre _ hx.1, hx.2⟩) fun _ ⟨a, hQ, hx⟩ ↦ ⟨a, hpost a _ hQ, hx⟩

theorem of_exists {γ : Type*} {P : γ → σ → Prop} {c : Driver A D α} (h : ∀ k, Ends T Env (P k) c Q) :
    Ends T Env (fun s ↦ ∃ k, P k s) c Q :=
  fun _ next ↦ (LeadsTo.of_exists fun k ↦ h k _ next).mono (fun _ ⟨⟨k, hk⟩, hx⟩ ↦ ⟨k, hk, hx⟩) fun _ hx ↦ hx

theorem bind {c : Driver A D α} {f : α → Driver A D β} {Q' : β → σ → Prop} (hc : Ends T Env P c Q)
    (hf : ∀ a, Ends T Env (Q a) (f a) Q') : Ends T Env P (c.bind f) Q' := by
  intro γ next
  rw [Driver.bind_assoc]
  exact (hc _ _).trans (.of_exists fun a ↦ hf a _ next)

-- An access: what it finds, what it leaves behind it, and the idle cycle after it.
theorem act {req : A} {next : D → Driver A D α} {M N : D → σ → Prop} (hidle : Lasts T Env P)
    (hact : ∀ s i, Env i → P s → M (T.answer s req i) (T.step s (some req) i))
    (hgap : ∀ d s i, Env i → M d s → N d (T.step s none i))
    (hnext : ∀ d, Ends T Env (N d) (next d) Q) : Ends T Env P (.act req next) Q := by
  intro β f
  refine (Firmware.stands_act_leadsTo hidle hact).trans (.of_exists fun d ↦ ?_)
  exact (Firmware.rests_leadsTo (hgap d)).trans (hnext d _ f)

-- The same where the device keeps what the access has left.
theorem access {req : A} {next : D → Driver A D α} {M : D → σ → Prop} (hP : Lasts T Env P)
    (hact : ∀ s i, Env i → P s → M (T.answer s req i) (T.step s (some req) i))
    (hM : ∀ d, Lasts T Env (M d)) (hnext : ∀ d, Ends T Env (M d) (next d) Q) :
    Ends T Env P (.act req next) Q :=
  act hP hact hM hnext

-- A fact that does not depend on the device can be assumed.
theorem of_fact {φ : Prop} {c : Driver A D α} (h : φ → Ends T Env P c Q) :
    Ends T Env (fun s ↦ φ ∧ P s) c Q := by
  intro β next inp hfair x hx
  exact h hx.1.1 _ next inp hfair x ⟨hx.1.2, hx.2⟩

-- A list of the same task, each part of which ends where the next one starts.
theorem collect {γ : Type} {f : γ → Driver A D α} {Inv : σ → Prop} {R : γ → α → Prop}
    (bs : List γ) (h : ∀ b ∈ bs, Ends T Env Inv (f b) fun a s ↦ R b a ∧ Inv s) :
    Ends T Env Inv (Driver.collect f bs) fun as s ↦ List.Forall₂ R bs as ∧ Inv s := by
  induction bs with
  | nil => exact done fun _ hs ↦ ⟨.nil, hs⟩
  | cons b bs ih =>
    refine bind (h b List.mem_cons_self) fun a ↦ of_fact fun hb ↦
      bind (ih fun b' hb' ↦ h b' (List.mem_cons_of_mem _ hb')) fun as ↦ ?_
    exact done fun _ hs ↦ ⟨.cons hb hs.1, hs.2⟩

theorem collect_map {γ : Type} {f : γ → Driver A D α} {g : γ → α} {Inv : σ → Prop} (bs : List γ)
    (h : ∀ b ∈ bs, Ends T Env Inv (f b) fun a s ↦ a = g b ∧ Inv s) :
    Ends T Env Inv (Driver.collect f bs) fun as s ↦ as = bs.map g ∧ Inv s := by
  refine (collect (R := fun b a ↦ a = g b) bs h).mono (fun _ hs ↦ hs) fun as _ hs ↦ ⟨?_, hs.2⟩
  have hmap : List.Forall₂ Eq (bs.map g) as :=
    List.forall₂_map_left_iff.mpr (hs.1.imp fun _ _ hab ↦ hab.symm)
  rw [List.forall₂_eq_eq_eq] at hmap
  exact hmap.symm

end Ends

/-! ## Polling -/

/-- An access that is made again and again: `P` is what lasts until the answer is right, `R` says that it is
right, and the rank falls in every cycle until then. -/
structure Polls (T : Target σ A D ι) (Env : ι → Prop) (P : σ → Prop) (req : A) (ready : D → Bool)
    (R : σ → Prop) (rank : σ → Nat) : Prop where
  answer : ∀ s i, Env i → P s → (ready (T.answer s req i) ↔ R s)
  idle : Lasts T Env P
  keeps : ∀ s i, Env i → P s → R s → R (T.step s none i)
  idleFalls : ∀ s i, Env i → P s → ¬ R s → R (T.step s none i) ∨ rank (T.step s none i) < rank s
  miss : ∀ s i, Env i → P s → ¬ R s → P (T.step s (some req) i)
  missFalls : ∀ s i, Env i → P s → ¬ R s → R (T.step s (some req) i) ∨ rank (T.step s (some req) i) < rank s

namespace Polls

variable {T : Target σ A D ι} {Env : ι → Prop} {P R : σ → Prop} {Q : α → σ → Prop} {req : A}
  {ready : D → Bool} {rank : σ → Nat}

/-- The driver `c` has not gone on, whether or not the last cycle had an access. -/
def Waits (P : σ → Prop) (c : Driver A D α) (x : Firmware σ A D α) : Prop := P x.device ∧ x.driver = c

-- Sooner or later the answer will be right, however often it is asked for.
theorem waits_leadsTo (h : Polls T Env P req ready R rank) {next : D → Driver A D α} :
    LeadsTo (Firmware.step T) Env (Waits P (.poll req ready next))
      (Waits (fun s ↦ P s ∧ R s) (.poll req ready next)) := by
  classical
  have hfalls : LeadsTo (Firmware.step T) Env (Waits (fun s ↦ P s ∧ ¬ R s) (.poll req ready next))
      (Waits (fun s ↦ P s ∧ R s) (.poll req ready next)) := by
    refine .falls (fun x ↦ rank x.device) ?_
    rintro ⟨s, c, gap⟩ go i hi ⟨⟨hP, hR⟩, rfl⟩
    have hidle : Waits (fun s ↦ P s ∧ R s) (.poll req ready next) ⟨T.step s none i, .poll req ready next, false⟩ ∨
        Waits (fun s ↦ P s ∧ ¬ R s) (.poll req ready next) ⟨T.step s none i, .poll req ready next, false⟩ ∧
          rank (T.step s none i) < rank s := by
      by_cases hnext : R (T.step s none i)
      · exact .inl ⟨⟨h.idle s i hi hP, hnext⟩, rfl⟩
      · exact .inr ⟨⟨⟨h.idle s i hi hP, hnext⟩, rfl⟩, (h.idleFalls s i hi hP hR).resolve_left hnext⟩
    cases gap with
    | true =>
      rw [Firmware.step_gap]
      exact hidle
    | false =>
      cases go with
      | false =>
        rw [Firmware.step_wait]
        exact hidle
      | true =>
        have hno : ready (T.answer s req i) = false := by
          rw [← Bool.not_eq_true, h.answer s i hi hP]
          exact hR
        have hstep : Firmware.step T ⟨s, .poll req ready next, false⟩ (true, i) =
            ⟨T.step s (some req) i, .poll req ready next, true⟩ := by
          simp [Firmware.step, hno]
        rw [hstep]
        by_cases hnext : R (T.step s (some req) i)
        · exact .inl ⟨⟨h.miss s i hi hP hR, hnext⟩, rfl⟩
        · exact .inr ⟨⟨⟨h.miss s i hi hP hR, hnext⟩, rfl⟩, (h.missFalls s i hi hP hR).resolve_left hnext⟩
  refine (LeadsTo.or (.of_imp fun _ hx ↦ hx) hfalls).mono ?_ fun _ hx ↦ hx
  rintro x ⟨hP, hc⟩
  by_cases hR : R x.device
  · exact .inl ⟨⟨hP, hR⟩, hc⟩
  · exact .inr ⟨⟨hP, hR⟩, hc⟩

-- Once the answer is right, the next access ends the loop.
theorem stands_poll_leadsTo (h : Polls T Env P req ready R rank) {next : D → Driver A D α} {M : D → σ → Prop}
    (hact : ∀ s i, Env i → P s → R s → M (T.answer s req i) (T.step s (some req) i)) :
    LeadsTo (Firmware.step T) Env (Stands (fun s ↦ P s ∧ R s) (.poll req ready next))
      fun x ↦ ∃ d, Rests (M d) (next d) x := by
  refine .turn ?_ ?_
  · rintro ⟨s, c, gap⟩ i hi ⟨⟨hP, hR⟩, rfl, rfl⟩
    rw [Firmware.step_wait]
    exact .inl ⟨⟨h.idle s i hi hP, h.keeps s i hi hP hR⟩, rfl, rfl⟩
  · rintro ⟨s, c, gap⟩ i hi ⟨⟨hP, hR⟩, rfl, rfl⟩
    have hyes : ready (T.answer s req i) = true := (h.answer s i hi hP).mpr hR
    have hstep : Firmware.step T ⟨s, .poll req ready next, false⟩ (true, i) =
        ⟨T.step s (some req) i, next (T.answer s req i), true⟩ := by
      simp [Firmware.step, hyes]
    rw [hstep]
    exact ⟨_, hact s i hi hP hR, rfl, rfl⟩

theorem ends (h : Polls T Env P req ready R rank) {next : D → Driver A D α} {M N : D → σ → Prop}
    (hact : ∀ s i, Env i → P s → R s → M (T.answer s req i) (T.step s (some req) i))
    (hgap : ∀ d s i, Env i → M d s → N d (T.step s none i))
    (hnext : ∀ d, Ends T Env (N d) (next d) Q) : Ends T Env P (.poll req ready next) Q := by
  intro β f
  have hwaits : LeadsTo (Firmware.step T) Env
      (Waits (fun s ↦ P s ∧ R s) (.poll req ready fun d ↦ (next d).bind f))
      (Stands (fun s ↦ P s ∧ R s) (.poll req ready fun d ↦ (next d).bind f)) := by
    have hgapped : LeadsTo (Firmware.step T) Env
        (Rests (fun s ↦ P s ∧ R s) (.poll req ready fun d ↦ (next d).bind f))
        (Stands (fun s ↦ P s ∧ R s) (.poll req ready fun d ↦ (next d).bind f)) :=
      Firmware.rests_leadsTo fun s i hi hs ↦ ⟨h.idle s i hi hs.1, h.keeps s i hi hs.1 hs.2⟩
    refine (LeadsTo.or hgapped (.of_imp fun _ hx ↦ hx)).mono ?_ fun _ hx ↦ hx
    rintro ⟨s, c, gap⟩ ⟨hs, hc⟩
    cases gap with
    | true => exact .inl ⟨hs, hc, rfl⟩
    | false => exact .inr ⟨hs, hc, rfl⟩
  have hstart : LeadsTo (Firmware.step T) Env (Stands P (.poll req ready fun d ↦ (next d).bind f))
      (Waits P (.poll req ready fun d ↦ (next d).bind f)) := .of_imp fun _ hx ↦ ⟨hx.1, hx.2.1⟩
  refine hstart.trans (h.waits_leadsTo.trans (hwaits.trans ((h.stands_poll_leadsTo hact).trans ?_)))
  exact .of_exists fun d ↦ (Firmware.rests_leadsTo (hgap d)).trans (hnext d _ f)

end Polls

end Clocked
