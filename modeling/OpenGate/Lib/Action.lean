import Mathlib

/-!
# Actions that may fail part way

An action reads and changes a state and then gives a value or an error; what it
did to the state before an error stays.  A run is taken apart at each bind, and a
loop over a list carries an invariant from element to element.
-/

namespace OpenGate.Lib

/-- A computation over a state `σ` that may fail with an `ε`. -/
def Action (σ ε α : Type) : Type := σ → Except ε α × σ

namespace Action

variable {σ ε α β : Type} {a : α}

protected def pure (a : α) : Action σ ε α := fun s => (.ok a, s)

protected def bind (x : Action σ ε α) (f : α → Action σ ε β) : Action σ ε β := fun s =>
  match x s with
  | (.ok a, s') => f a s'
  | (.error e, s') => (.error e, s')

instance : Monad (Action σ ε) where
  pure := Action.pure
  bind := Action.bind

/-- A computation that leaves the state alone. -/
def lift (r : Except ε α) : Action σ ε α := fun s => (r, s)

def gets (f : σ → α) : Action σ ε α := fun s => (.ok (f s), s)

/-- A change of the state. -/
def modify (f : σ → σ) : Action σ ε Unit := fun s => (.ok (), f s)

def each (f : α → Action σ ε Unit) : List α → Action σ ε Unit
  | [] => pure ()
  | x :: xs => do
      f x
      each f xs

@[simp] theorem lift_apply (r : Except ε α) {s : σ} : (lift r : Action σ ε α) s = (r, s) := rfl

@[simp] theorem modify_apply (f : σ → σ) (s : σ) : (modify f : Action σ ε Unit) s = (.ok (), f s) :=
  rfl

theorem bind_apply {x : Action σ ε α} {f : α → Action σ ε β} {s : σ} :
    (x >>= f) s = match x s with
      | (.ok a, s') => f a s'
      | (.error e, s') => (.error e, s') := rfl

variable {x : Action σ ε α} {f : α → Action σ ε β}

variable {s : σ} {s' : σ} {e : ε}

theorem bind_of_ok (ran : x s = (.ok a, s')) : (x >>= f) s = f a s' := by
  rw [bind_apply, ran]

theorem bind_of_error (failed : x s = (.error e, s')) : (x >>= f) s = (.error e, s') := by
  rw [bind_apply, failed]

@[simp] theorem lift_ok_bind (a : α) (f : α → Action σ ε β) (s : σ) :
    ((lift (.ok a) : Action σ ε α) >>= f) s = f a s := rfl

@[simp] theorem gets_bind (g : σ → α) (f : α → Action σ ε β) (s : σ) :
    ((gets g : Action σ ε α) >>= f) s = f (g s) s := rfl

@[simp] theorem modify_bind (g : σ → σ) (f : Unit → Action σ ε β) (s : σ) :
    ((modify g : Action σ ε Unit) >>= f) s = f () (g s) := rfl

/-- A run of two actions that succeeds: both do. -/
theorem bind_ok {b : β} (ran : (x >>= f) s = (.ok b, s')) :
    ∃ a s₁, x s = (.ok a, s₁) ∧ f a s₁ = (.ok b, s') := by
  cases first : x s with
  | mk r s₁ =>
    cases r with
    | ok a => exact ⟨a, s₁, rfl, by rwa [bind_of_ok first] at ran⟩
    | error e =>
      rw [bind_of_error first] at ran
      cases ran

/-- A run of two actions that fails: the first fails, or it succeeds and the second
fails after it. -/
theorem bind_error (failed : (x >>= f) s = (.error e, s')) :
    x s = (.error e, s') ∨ ∃ a s₁, x s = (.ok a, s₁) ∧ f a s₁ = (.error e, s') := by
  cases first : x s with
  | mk r s₁ =>
    cases r with
    | ok a => exact .inr ⟨a, s₁, rfl, by rwa [bind_of_ok first] at failed⟩
    | error e₁ =>
      rw [bind_of_error first] at failed
      cases failed
      exact .inl rfl

/-- What holds of every run from a state: `Q` of one that gives a value, `E` of one
that fails. -/
def Ensures (x : Action σ ε α) (s : σ) (Q : α → σ → Prop) (E : ε → σ → Prop) : Prop :=
  match x s with
  | (.ok a, s') => Q a s'
  | (.error e, s') => E e s'

variable {E : ε → σ → Prop}

variable {Q : α → σ → Prop}

theorem Ensures.bind {R : β → σ → Prop} (first : Ensures x s Q E)
    (second : ∀ a s', Q a s' → Ensures (f a) s' R E) : Ensures (x >>= f) s R E := by
  unfold Ensures at first ⊢
  rw [bind_apply]
  cases ran : x s with
  | mk r s₁ =>
    rw [ran] at first
    cases r with
    | ok a => exact second a s₁ first
    | error e => exact first

theorem Ensures.imp {Q' : α → σ → Prop} {E' : ε → σ → Prop} (holds : Ensures x s Q E)
    (weaker : ∀ a s', Q a s' → Q' a s') (weaker' : ∀ e s', E e s' → E' e s') :
    Ensures x s Q' E' := by
  unfold Ensures at holds ⊢
  cases ran : x s with
  | mk r s₁ =>
    rw [ran] at holds
    cases r with
    | ok a => exact weaker a s₁ holds
    | error e => exact weaker' e s₁ holds

theorem Ensures.ok (holds : Ensures x s Q E) (ran : x s = (.ok a, s')) : Q a s' := by
  unfold Ensures at holds
  rwa [ran] at holds

theorem Ensures.error (holds : Ensures x s Q E) (failed : x s = (.error e, s')) : E e s' := by
  unfold Ensures at holds
  rwa [failed] at holds

/-- The loop rule: an invariant that each turn keeps, indexed by what is left. -/
theorem Ensures.each {f : α → Action σ ε Unit} {I : List α → σ → Prop}
    (turn : ∀ x xs s, I (x :: xs) s → Ensures (f x) s (fun _ => I xs) E) {xs : List α}
    (start : I xs s) : Ensures (Action.each f xs) s (fun _ => I []) E := by
  induction xs generalizing s with
  | nil => exact start
  | cons x xs ih => exact (turn x xs s start).bind fun _ _ next => ih next

end Action

end OpenGate.Lib
