import OpenGate.Relay.Teardown

/-!
# What `End` has ended

`End` marks a session under its lock and then, when it saw no pipe, releases it under the
lock again.  What it answered true for is over as long as no pipe is started in between
(`ended_stays_ended`).  A pipe that is goes on relaying (`ended_goes_on_relaying`): the
release leaves a piping session alone, and nothing cancels the pipe.
-/

namespace OpenGate.Relay

open OpenGate.Lib List
open Function (update update_of_ne update_self)

variable {Token : Type} [DecidableEq Token] {r r' : Relay Token}
  {before after next : List (Task Token)} {task : Task Token}

/-- The object a step may start a pipe on. -/
def Task.starts : Task Token → Option Nat
  | .on i .startPipeIfReady => some i
  | _ => none

/-- No pipe is started on a session while an `End` of it is between its two sections. -/
def NoPipeUnderEnd (w : World Token) (task : Task Token) : Prop :=
  ∀ i ∈ task.starts, (w.shared.objects i).pairs = true → .on i (.release true) ∉ w.tasks

instance (w : World Token) (task : Task Token) : Decidable (NoPipeUnderEnd w task) :=
  inferInstanceAs (Decidable (∀ i ∈ task.starts,
    (w.shared.objects i).pairs = true → .on i (.release true) ∉ w.tasks))

section

variable {op : Op} {rest : List Op} {s : Session} {s' : Session}
  (acted : s.act op = some (s', rest))
include acted

/-- Only `startPipeIfReady` starts a pipe. -/
theorem Session.act_piping : s'.piping = s.piping ∨ op = .startPipeIfReady ∧ s.pairs := by
  cases op with
  | startPipeIfReady =>
    rw [act] at acted
    split at acted
    next pairs => exact .inr ⟨rfl, pairs⟩
    · cases acted
      exact .inl rfl
  | setSide side =>
    rw [act] at acted
    split at acted
    · cases acted
      exact .inl rfl
    · split at acted <;> cases acted <;> cases side <;> exact .inl rfl
  | mark _ | release _ | pipeSelect | pipeWait =>
    rw [act] at acted
    split at acted <;> cases acted <;> exact .inl rfl
  | _ =>
    cases acted
    exact .inl rfl

/-- Only `End`'s locked section leads to its release, and not for a piping session. -/
theorem Session.act_release (ends : .release true ∈ rest) : s'.piping = false := by
  cases op with
  | mark reason =>
    rw [act] at acted
    split at acted
    · cases acted
      cases ends
    · cases acted
      cases piping : s.piping
      · rfl
      · simp [piping] at ends
  | setSide side =>
    rw [act] at acted
    split at acted
    · cases acted
      cases ends
    · split at acted <;> cases acted <;> simp at ends
  | startPipeIfReady | release _ | pipeSelect | pipeWait =>
    rw [act] at acted
    split at acted <;> cases acted <;> simp at ends
  | _ =>
    cases acted
    simp at ends

end

/-- A step that lets an `End` answer true leaves the object released or cancelled, or finds
it piping. -/
theorem answered_act {i k : Nat} {op : Op} {s : Session} {rest : List Op}
    (fits : op.Fits (r.objects i)) (acted : (r.objects i).act op = some (s, rest))
    (answered : k ∈ (r.effect i op).answered) :
    k ∈ r.answered ∨ k = i ∧ (s.released = true ∨ s.cancelled ∨
      op = .release true ∧ (r.objects i).piping) := by
  have returned : ∀ byEnd, k ∈ (r.returns i byEnd).answered →
      k ∈ r.answered ∨ k = i ∧ byEnd := by
    intro byEnd here
    cases byEnd with
    | false => exact .inl here
    | true =>
      rcases mem_cons.mp here with same | old
      · exact .inr ⟨same, rfl⟩
      · exact .inl old
  cases op with
  | stop =>
    cases acted
    exact (returned true answered).imp_right fun mine => ⟨mine.1, .inr (.inl rfl)⟩
  | release byEnd =>
    rw [effect] at answered
    rw [Session.act] at acted
    split at answered
    next held =>
      rw [if_pos held] at acted
      cases acted
      refine (returned byEnd answered).imp_right fun mine => ⟨mine.1, ?_⟩
      rcases Bool.or_eq_true_iff.mp held with piping | released
      · exact .inr (.inr ⟨by rw [mine.2], piping⟩)
      · exact .inl released
    · exact .inl answered
  | releaseEnd byEnd =>
    have grown := (Session.act_grows acted).released fits
    exact (returned byEnd answered).imp_right fun mine => ⟨mine.1, .inl grown⟩
  | setSide _ | releaseDelete _ _ | releaseCount _ _ =>
    rw [effect] at answered
    split at answered <;> exact .inl answered
  | _ => exact .inl answered

/-- What `End` promises, and what it needs on the way. -/
structure Ending (r : Relay Token) (tasks : List (Task Token)) : Prop where
  kept : Kept r tasks
  ended : ∀ i ∈ r.answered, (r.objects i).released = true ∨ (r.objects i).cancelled = true
  unpiped : ∀ i, .on i (.release true) ∈ tasks → (r.objects i).piping = false

theorem Ending.run (ending : Ending r (before ++ task :: after))
    (ran : r.exec task = some (r', next))
    (orderly : NoPipeUnderEnd ⟨r, before ++ task :: after⟩ task) :
    Ending r' (before ++ next ++ after) := by
  refine ⟨ending.kept.run ran, ?_, ?_⟩ <;>
    rcases exec_cases ran with ⟨token, j, op, found, call, rfl, rfl, kind⟩ |
      ⟨token, side, -, called, rfl, rfl⟩ | ⟨call, rfl, rfl⟩ | ⟨j, op, s, rest, rfl, acted, rfl, rfl⟩
  · exact ending.ended
  · intro i here
    by_cases new : i = r.created
    · -- Nothing was answered for an object that did not exist.
      have fresh := ending.kept.fresh i (by omega)
      have old := ending.ended i here
      rw [fresh] at old
      rcases old with h | h <;> cases h
    · show (update r.objects r.created .new i).released = true ∨
        (update r.objects r.created .new i).cancelled
      rw [update_of_ne new]
      exact ending.ended i here
  · exact ending.ended
  · intro i here
    obtain ⟨objects, -⟩ := r.effect_keeps j op
    have fits := ending.kept.fits j op (by simp)
    have grows := Session.act_grows acted
    show (update (r.effect j op).objects j s i).released = true ∨
      (update (r.effect j op).objects j s i).cancelled
    rw [objects]
    rcases answered_act fits acted here with old | ⟨rfl, over'⟩
    · by_cases same : i = j
      · subst same
        rw [update_self]
        exact (ending.ended i old).imp grows.released grows.cancelled
      · rw [update_of_ne same]
        exact ending.ended i old
    · rw [update_self]
      rcases over' with released | cancelled | ⟨rfl, piping⟩
      · exact .inl released
      · exact .inr cancelled
      · rw [ending.unpiped i (by simp)] at piping
        cases piping
  · intro i here
    refine ending.unpiped i ?_
    rw [mem_append, mem_cons]
    rcases kind with ⟨_, rfl⟩ | ⟨_, rfl⟩ | rfl <;> simp at here <;> tauto
  · intro i here
    have old : .on i (.release true) ∈ before ++ task :: after := by
      simp only [append_assoc, mem_append, mem_singleton, Task.on.injEq,
        reduceCtorEq, and_false, false_or] at here
      rw [mem_append, mem_cons]
      tauto
    have place := ending.kept.placed i _ old
    show (update r.objects r.created .new i).piping = false
    rw [update_of_ne (by omega)]
    exact ending.unpiped i old
  · intro i here
    refine ending.unpiped i ?_
    simp only [append_nil, mem_append] at here
    rw [mem_append, mem_cons]
    tauto
  · intro i here
    obtain ⟨objects, -⟩ := r.effect_keeps j op
    show (update (r.effect j op).objects j s i).piping = false
    rw [objects]
    have tasks : .on i (.release true) ∈ before ++ .on j op :: after ∨
        i = j ∧ .release true ∈ rest := by
      simp only [append_assoc, mem_append, mem_map, Task.on.injEq] at here
      rw [mem_append, mem_cons]
      rcases here with old | ⟨x, inside, rfl, rfl⟩ | old
      · exact .inl (.inl old)
      · exact .inr ⟨rfl, inside⟩
      · exact .inl (.inr (.inr old))
    by_cases same : i = j
    · subst same
      rw [update_self]
      rcases tasks with old | ⟨-, new⟩
      · rcases Session.act_piping acted with stays | ⟨rfl, pairs⟩
        · rw [stays]
          exact ending.unpiped i old
        · exact absurd old (orderly i rfl pairs)
      · exact Session.act_release acted new
    · rw [update_of_ne same]
      rcases tasks with old | ⟨rfl, -⟩
      · exact ending.unpiped i old
      · exact absurd rfl same

theorem ending_of_reached [Inhabited Token] {w : World Token} (reached : Reached NoPipeUnderEnd w) :
    Ending w.shared w.tasks := by
  refine reached.invariant ⟨kept_new, nofun, nofun⟩ ?_ fun _ _ _ _ _ _ ran orderly ending =>
    ending.run ran orderly
  intro r tasks task call ending
  refine ⟨ending.kept.begin call, ending.ended, fun i here => ending.unpiped i ?_⟩
  rcases mem_append.mp here with old | new
  · exact old
  · rw [← mem_singleton.mp new] at call
    cases call

/-- What an `End` answered true for is over, in every run in which no pipe is started under
an `End`: it is released and relays nothing, or its pipe is cancelled. -/
theorem ended_stays_ended [Inhabited Token] (w : World Token) (reached : Reached NoPipeUnderEnd w) :
    ∀ i ∈ w.shared.answered,
      ((w.shared.objects i).released = true ∧ .on i .pipe ∉ w.tasks ∧ .on i .copyAgent ∉ w.tasks ∧
        .on i .copyBrowser ∉ w.tasks) ∨
      (w.shared.objects i).cancelled = true := by
  intro i here
  have ending := ending_of_reached reached
  refine (ending.ended i here).imp_left fun released => ⟨released, ?_⟩
  exact ending.kept.no_loops (.inl released)

/-- `End` of a session that waits for its peer. -/
theorem ended_stays_ended_waiting :
    ∃ w : World Nat, w.shared.answered = [0] ∧
      (((w.shared.objects 0).released = true ∧ .on 0 .pipe ∉ w.tasks ∧ .on 0 .copyAgent ∉ w.tasks ∧
        .on 0 .copyBrowser ∉ w.tasks) ∨ (w.shared.objects 0).cancelled = true) := by
  obtain ⟨w, reached, answered⟩ : ∃ w : World Nat, Reached NoPipeUnderEnd w ∧
    w.shared.answered = [0] :=
    exists_reached_of_follow [.begin (.register 7 .agent), .run 0, .run 0, .run 0, .run 0,
      .begin (.endSession 7 "ended by an administrator"), .run 0, .run 0, .run 0, .run 0, .run 0,
      .run 0, .run 0, .run 0, .run 0] (by decide) (by decide +kernel)
  exact ⟨w, answered, ended_stays_ended w reached 0 (by simp [answered])⟩

/-- The browser's side arrives while an `End` is between its two sections: the pipe starts,
the release finds it piping and leaves it, and `End` answers true.  All calls are over and
the copy loops run on. -/
theorem ended_goes_on_relaying :
    ∃ w : World Nat, Reached (fun _ _ => True) w ∧ AtRest w ∧
      0 ∈ w.shared.answered ∧ (w.shared.objects 0).released = false ∧
      (w.shared.objects 0).cancelled = false ∧ .on 0 .copyAgent ∈ w.tasks := by
  exact exists_reached_of_follow [.begin (.register 7 .agent), .run 0, .run 0, .run 0, .run 0,
    .begin (.register 7 .browser), .run 0, .run 0,
    .begin (.endSession 7 "ended by an administrator"), .run 1, .run 1, .run 0, .run 0, .run 3]
    (by decide) (by decide +kernel)

end OpenGate.Relay
