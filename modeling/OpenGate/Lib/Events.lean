import Mathlib

/-!
# Runs by events

A machine whose steps are named: `act` gives the next state, or none where the event
cannot happen.  `Runs` are the states that events within a guard lead to; an invariant is
shown of the start and of one event (`Runs.invariant`), and a list of events that can be
followed is a run (`runs_of_follow`).
-/

namespace OpenGate.Lib

variable {σ ε : Type}

inductive Runs (act : σ → ε → Option σ) (guard : σ → ε → Prop) (start : σ) : σ → Prop
  | start : Runs act guard start start
  | step {s s' : σ} (event : ε) (reached : Runs act guard start s) (allowed : guard s event)
    (acts : act s event = some s') : Runs act guard start s'

variable {act : σ → ε → Option σ} {guard guard' : σ → ε → Prop} {start s : σ}

theorem Runs.mono (weaker : ∀ s event, guard s event → guard' s event)
    (reached : Runs act guard start s) : Runs act guard' start s := by
  induction reached with
  | start => exact .start
  | step event _ allowed acts ih => exact .step event ih (weaker _ _ allowed) acts

theorem Runs.trans {later : σ} (reached : Runs act guard start s)
    (goesOn : Runs act guard s later) : Runs act guard start later := by
  induction goesOn with
  | start => exact reached
  | step event _ allowed acts ih => exact .step event ih allowed acts

theorem Runs.invariant {I : σ → Prop} (first : I start)
    (keeps : ∀ s event s', guard s event → act s event = some s' → I s → I s')
    (reached : Runs act guard start s) : I s := by
  induction reached with
  | start => exact first
  | step event _ allowed acts ih => exact keeps _ event _ allowed acts ih

def followEvents (act : σ → ε → Option σ) (guard : σ → ε → Prop)
    [∀ s event, Decidable (guard s event)] : List ε → σ → Option σ
  | [], s => some s
  | event :: rest, s =>
    if guard s event then (act s event).bind (followEvents act guard rest) else none

theorem runs_of_follow [∀ s event, Decidable (guard s event)] {events : List ε} {earlier : σ}
    (reached : Runs act guard start earlier)
    (followed : followEvents act guard events earlier = some s) : Runs act guard start s := by
  induction events generalizing earlier with
  | nil => exact Option.some.inj followed ▸ reached
  | cons event rest ih =>
    rw [followEvents] at followed
    split at followed
    next allowed =>
      obtain ⟨next, acts, followed⟩ := Option.bind_eq_some_iff.mp followed
      exact ih (.step event reached allowed acts) followed
    · cases followed

/-- Events that lead to a state of some kind. -/
theorem exists_run_of_follow [∀ s event, Decidable (guard s event)] {P : σ → Prop} [DecidablePred P]
    (events : List ε) (followed : (followEvents act guard events start).any (decide <| P ·)) :
    ∃ s, Runs act guard start s ∧ P s := by
  obtain ⟨s, here, holds⟩ := (Option.any_eq_true _ _).mp followed
  exact ⟨s, runs_of_follow .start here, of_decide_eq_true holds⟩

end OpenGate.Lib
