import Mathlib

/-!
# Step relations that emit

A machine that answers with a list of instructions takes an event in several
small steps, each emitting part of the list.  `Emits R` is the closure of a step
relation `R` under that: from one state to another with everything emitted on
the way.

An invariant of `R` is one of `Emits R` (`Emits.invariant`), and a relation
between state, output and state that composes is implied by `Emits R` as soon as
it is by one step (`Emits.closed`).
-/

namespace OpenGate.Lib

variable {S O : Type}

inductive Emits (R : S → List O → S → Prop) : S → List O → S → Prop
  | refl (s : S) : Emits R s [] s
  | head {s t u : S} {out more : List O} :
    R s out t → Emits R t more u → Emits R s (out ++ more) u

variable {R R' : S → List O → S → Prop} {s t u : S} {out more : List O}

theorem Emits.single (step : R s out t) : Emits R s out t := by
  have whole := Emits.head step (.refl t)
  rwa [List.append_nil] at whole

theorem Emits.trans (first : Emits R s out t) (second : Emits R t more u) :
    Emits R s (out ++ more) u := by
  induction first with
  | refl => exact second
  | head step _ ih =>
    rw [List.append_assoc]
    exact .head step (ih second)

theorem Emits.tail (first : Emits R s out t) (step : R t more u) : Emits R s (out ++ more) u :=
  first.trans (.single step)

theorem Emits.mono (weaken : ∀ {s out t}, R s out t → R' s out t) (run : Emits R s out t) :
    Emits R' s out t := by
  induction run with
  | refl => exact .refl _
  | head step _ ih => exact .head (weaken step) ih

/-- What every step keeps, a run keeps. -/
theorem Emits.invariant {P : S → Prop} (keep : ∀ {s out t}, R s out t → P s → P t)
    (run : Emits R s out t) (start : P s) : P t := by
  induction run with
  | refl => exact start
  | head step _ ih => exact ih (keep step start)

/-- What is true of everything each step emits is true of everything a run does. -/
theorem Emits.emitted {P : O → Prop} (each : ∀ {s out t}, R s out t → ∀ o ∈ out, P o)
    (run : Emits R s out t) : ∀ o ∈ out, P o := by
  induction run with
  | refl => exact fun o inside => absurd inside List.not_mem_nil
  | head step _ ih =>
    intro o inside
    rcases List.mem_append.mp inside with first | later
    · exact each step o first
    · exact ih o later

/-- A relation that holds of a silent stay and of every step, and composes,
holds of a run. -/
theorem Emits.closed {Q : S → List O → S → Prop} (stay : ∀ s, Q s [] s)
    (compose : ∀ {s t u out more}, Q s out t → Q t more u → Q s (out ++ more) u)
    (step : ∀ {s out t}, R s out t → Q s out t) (run : Emits R s out t) : Q s out t := by
  induction run with
  | refl => exact stay _
  | head one _ ih => exact compose (step one) ih

end OpenGate.Lib
