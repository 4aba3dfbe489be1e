import Mathlib.Logic.Basic

/-- What a call leaves behind: its result or the fault that ended it, and in either case
the state. -/
structure Outcome (ε σ α : Type) where
  result : Except ε α
  state : σ

namespace Outcome

variable {ε σ α β : Type}

/-- The call returns. -/
def done (s : σ) (a : α) : Outcome ε σ α := ⟨.ok a, s⟩

/-- The call ends with a fault. -/
def fail (s : σ) (e : ε) : Outcome ε σ α := ⟨.error e, s⟩

/-- Go on with what the first call leaves, unless it has ended with a fault. -/
def andThen (o : Outcome ε σ α) (f : α → σ → Outcome ε σ β) : Outcome ε σ β :=
  match o.result with
  | .ok a => f a o.state
  | .error e => fail o.state e

@[simp] theorem result_done (s : σ) (a : α) : (done s a : Outcome ε σ α).result = .ok a := rfl

@[simp] theorem state_done (s : σ) (a : α) : (done s a : Outcome ε σ α).state = s := rfl

@[simp] theorem result_fail (s : σ) (e : ε) : (fail s e : Outcome ε σ α).result = .error e := rfl

@[simp] theorem state_fail (s : σ) (e : ε) : (fail s e : Outcome ε σ α).state = s := rfl

theorem and_then_ok {o : Outcome ε σ α} {a : α} (h : o.result = .ok a)
    (f : α → σ → Outcome ε σ β) : o.andThen f = f a o.state := by
  simp only [andThen, h]

theorem and_then_error {o : Outcome ε σ α} {e : ε} (h : o.result = .error e)
    (f : α → σ → Outcome ε σ β) : o.andThen f = fail o.state e := by
  simp only [andThen, h]

/-- The rule for the state after two calls, however they end. -/
theorem state_and_then {P : σ → Prop} {o : Outcome ε σ α} {f : α → σ → Outcome ε σ β}
    (h : P o.state) (hf : ∀ a s, P s → P (f a s).state) : P (o.andThen f).state := by
  cases hr : o.result with
  | ok a =>
    rw [and_then_ok hr]
    exact hf a o.state h
  | error e =>
    rw [and_then_error hr]
    exact h

/-- A second call that does not touch the state. -/
theorem state_and_then_same (o : Outcome ε σ α) {f : α → σ → Outcome ε σ β}
    (hf : ∀ a s, (f a s).state = s) : (o.andThen f).state = o.state :=
  state_and_then (P := fun s => s = o.state) rfl (fun a s hs => (hf a s).trans hs)

/-- The call returns, with a result and a state that meet `Q`. -/
def Returns (o : Outcome ε σ α) (Q : α → σ → Prop) : Prop := ∃ a, o.result = .ok a ∧ Q a o.state

theorem returns_done {Q : α → σ → Prop} {s : σ} {a : α} (h : Q a s) :
    (done s a : Outcome ε σ α).Returns Q :=
  ⟨a, rfl, h⟩

/-- The rule for two calls after one another. -/
theorem Returns.and_then {Q : α → σ → Prop} {R : β → σ → Prop} {o : Outcome ε σ α}
    {f : α → σ → Outcome ε σ β} (h : o.Returns Q) (hf : ∀ a s, Q a s → (f a s).Returns R) :
    (o.andThen f).Returns R := by
  obtain ⟨a, ha, hq⟩ := h
  rw [and_then_ok ha]
  exact hf a o.state hq

/-- If the call returns, its result and the state meet `Q`; if it ends with a fault, the fault
and the state meet `R`. -/
def Leaves (o : Outcome ε σ α) (Q : α → σ → Prop) (R : ε → σ → Prop) : Prop :=
  match o.result with
  | .ok a => Q a o.state
  | .error e => R e o.state

theorem leaves_done {Q : α → σ → Prop} {R : ε → σ → Prop} {s : σ} {a : α} (h : Q a s) :
    (done s a : Outcome ε σ α).Leaves Q R := h

theorem leaves_fail {Q : α → σ → Prop} {R : ε → σ → Prop} {s : σ} {e : ε} (h : R e s) :
    (fail s e : Outcome ε σ α).Leaves Q R := h

theorem Leaves.mono {Q Q' : α → σ → Prop} {R R' : ε → σ → Prop} {o : Outcome ε σ α}
    (h : o.Leaves Q R) (hq : ∀ a s, Q a s → Q' a s) (hr : ∀ e s, R e s → R' e s) :
    o.Leaves Q' R' := by
  unfold Leaves at h ⊢
  split <;> simp_all

/-- The rule for two calls after one another, with the faults of both. -/
theorem Leaves.and_then {Q : α → σ → Prop} {Q' : β → σ → Prop} {R : ε → σ → Prop}
    {o : Outcome ε σ α} {f : α → σ → Outcome ε σ β} (h : o.Leaves Q R)
    (hf : ∀ a s, Q a s → (f a s).Leaves Q' R) : (o.andThen f).Leaves Q' R := by
  cases hr : o.result with
  | ok a =>
    rw [and_then_ok hr]
    rw [Leaves, hr] at h
    exact hf a o.state h
  | error e =>
    rw [and_then_error hr]
    rw [Leaves, hr] at h
    exact h

/-- The rule for a call of which only the state matters. -/
theorem leaves_of_forall {Q : α → σ → Prop} {R : ε → σ → Prop} {o : Outcome ε σ α}
    (hq : ∀ a, Q a o.state) (hr : ∀ e, R e o.state) : o.Leaves Q R := by
  unfold Leaves
  split
  · exact hq _
  · exact hr _

/-- The state of the call is a part of a larger one. -/
def into {τ : Type} (o : Outcome ε σ α) (put : σ → τ) : Outcome ε τ α := ⟨o.result, put o.state⟩

theorem Leaves.into {τ : Type} {Q : α → τ → Prop} {R : ε → τ → Prop} {o : Outcome ε σ α}
    {put : σ → τ} (h : o.Leaves (fun a s => Q a (put s)) (fun e s => R e (put s))) :
    (o.into put).Leaves Q R := h

theorem into_and_then_ok {τ : Type} {o : Outcome ε σ α} {a : α} (h : o.result = .ok a)
    (put : σ → τ) (f : α → τ → Outcome ε τ β) : (o.into put).andThen f = f a (put o.state) :=
  and_then_ok (o := o.into put) h f

theorem into_and_then_error {τ : Type} {o : Outcome ε σ α} {e : ε} (h : o.result = .error e)
    (put : σ → τ) (f : α → τ → Outcome ε τ β) : (o.into put).andThen f = fail (put o.state) e :=
  and_then_error (o := o.into put) h f

/-- The same call, its faults under another type. -/
def mapFault {δ : Type} (o : Outcome ε σ α) (f : ε → δ) : Outcome δ σ α :=
  ⟨o.result.mapError f, o.state⟩

theorem Leaves.map_fault {δ : Type} {Q : α → σ → Prop} {R : δ → σ → Prop} {o : Outcome ε σ α}
    {f : ε → δ} (h : o.Leaves Q (fun e s => R (f e) s)) : (o.mapFault f).Leaves Q R := by
  unfold Leaves at h ⊢
  unfold mapFault
  cases hr : o.result with
  | ok a =>
    rw [hr] at h
    exact h
  | error e =>
    rw [hr] at h
    exact h

/-- A fault that neither call ends with. -/
theorem and_then_result_ne {o : Outcome ε σ α} {f : α → σ → Outcome ε σ β} {e : ε}
    (h : o.result ≠ .error e) (hf : ∀ a s, (f a s).result ≠ .error e) :
    (o.andThen f).result ≠ .error e := by
  cases hr : o.result with
  | ok a =>
    rw [and_then_ok hr]
    exact hf a o.state
  | error d =>
    rw [and_then_error hr]
    intro heq
    cases heq
    exact h hr

end Outcome
