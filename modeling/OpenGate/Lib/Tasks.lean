import Mathlib

/-!
# Interleaved tasks

Calls that run at once, each a chain of atomic steps on a shared state.  A task is what a
call has still to do; `exec` runs one atomic step of it, which changes the shared state
and leaves the tasks that follow (none when the call is over, several when it starts
another), or refuses while the task has to wait.  A pool is a shared state with the tasks
under way, and `PoolStep` takes any of them one step on, or lets a new call begin, under
a guard on the step.

Accounts over a pool: what the tasks still owe (`owed`) is balanced against the shared
state, and a step that pays what it no longer owes keeps the balance (`owed_run`).
-/

namespace OpenGate.Lib

open List

variable {σ τ : Type}

structure Pool (σ τ : Type) where
  shared : σ
  tasks : List τ
  deriving DecidableEq

inductive PoolStep (calls : τ → Prop) (exec : σ → τ → Option (σ × List τ))
    (guard : Pool σ τ → τ → Prop) : Pool σ τ → Pool σ τ → Prop
  | begin (pool : Pool σ τ) (task : τ) (call : calls task) :
    PoolStep calls exec guard pool ⟨pool.shared, pool.tasks ++ [task]⟩
  | run (s s' : σ) (before after next : List τ) (task : τ) (ran : exec s task = some (s', next))
    (allowed : guard ⟨s, before ++ task :: after⟩ task) :
    PoolStep calls exec guard ⟨s, before ++ task :: after⟩ ⟨s', before ++ next ++ after⟩

/-- The pools that steps within the guard lead to. -/
abbrev PoolReached (calls : τ → Prop) (exec : σ → τ → Option (σ × List τ))
    (guard : Pool σ τ → τ → Prop) (start : σ) (pool : Pool σ τ) : Prop :=
  Relation.ReflTransGen (PoolStep calls exec guard) ⟨start, []⟩ pool

variable {calls : τ → Prop} {exec : σ → τ → Option (σ × List τ)}
  {guard guard' : Pool σ τ → τ → Prop} {start : σ} {pool : Pool σ τ} {I : σ → List τ → Prop}

/-- The rule for what holds of every pool reached: it holds at the start, a new call keeps
it, and so does a step of a task. -/
theorem PoolReached.invariant (first : I start [])
    (begins : ∀ s tasks task, calls task → I s tasks → I s (tasks ++ [task]))
    (runs : ∀ s s' before after next task, exec s task = some (s', next) →
      guard ⟨s, before ++ task :: after⟩ task → I s (before ++ task :: after) →
      I s' (before ++ next ++ after)) (reached : PoolReached calls exec guard start pool) :
    I pool.shared pool.tasks := by
  induction reached with
  | refl => exact first
  | tail _ step ih =>
    cases step with
    | begin _ task call => exact begins _ _ task call ih
    | run s s' before after next task ran allowed =>
      exact runs s s' before after next task ran allowed ih

variable {task : τ} {before after : List τ} {tasks : List τ}

/-- What holds of each task after a step: the tasks the step leaves have it, and so has every
other one. -/
theorem tasks_run {P Q : τ → Prop} {next : List τ}
    (was : ∀ other ∈ before ++ task :: after, P other)
    (keeps : ∀ other ∈ before ++ after, P other → Q other) (left : ∀ other ∈ next, Q other) :
    ∀ other ∈ before ++ next ++ after, Q other := by
  intro other here
  rcases mem_append.mp here with here | late
  · rcases mem_append.mp here with early | new
    · exact keeps other (mem_append_left _ early) (was other (mem_append_left _ early))
    · exact left other new
  · exact keeps other (mem_append_right _ late)
      (was other (mem_append_right _ (mem_cons_of_mem _ late)))

/-- A task of a kind is still there after a step, unless it was the one that ran. -/
theorem exists_task_run {P : τ → Prop} (was : ∃ other ∈ before ++ task :: after, P other)
    (next : List τ) : P task ∨ ∃ other ∈ before ++ next ++ after, P other := by
  obtain ⟨other, here, this⟩ := was
  rcases mem_append.mp here with early | late
  · exact .inr ⟨other, mem_append_left _ (mem_append_left _ early), this⟩
  · rcases mem_cons.mp late with rfl | late
    · exact .inl this
    · exact .inr ⟨other, mem_append_right _ late, this⟩

theorem mem_run {other : τ} (was : other ∈ before ++ task :: after) (distinct : task ≠ other)
    (next : List τ) : other ∈ before ++ next ++ after := by
  obtain ⟨_, here, rfl⟩ :=
    (exists_task_run (P := (· = other)) ⟨_, was, rfl⟩ next).resolve_left distinct
  exact here

theorem tasks_begin {P : τ → Prop} (was : ∀ other ∈ tasks, P other) (new : P task) :
    ∀ other ∈ tasks ++ [task], P other := by
  intro other here
  rcases mem_append.mp here with earlier | this
  · exact was other earlier
  · exact mem_singleton.mp this ▸ new

/-- What tasks owe, each by its own weight. -/
def owed (weight : τ → Nat) (tasks : List τ) : Nat := (tasks.map weight).sum

variable (weight : τ → Nat)

@[simp] theorem owed_nil : owed weight [] = 0 := rfl

@[simp] theorem owed_cons : owed weight (task :: tasks) = weight task + owed weight tasks := by
  simp [owed]

@[simp] theorem owed_append (tasks more : List τ) :
    owed weight (tasks ++ more) = owed weight tasks + owed weight more := by
  simp [owed]

theorem weight_le_owed (here : task ∈ tasks) : weight task ≤ owed weight tasks :=
  single_le_sum (by simp) _ (mem_map_of_mem here)

theorem owed_mono {weight weight' : τ → Nat} (le : ∀ task ∈ tasks, weight task ≤ weight' task) :
    owed weight tasks ≤ owed weight' tasks :=
  sum_le_sum le

/-- A task under way owes what it weighs. -/
theorem weight_le_owed_middle (task : τ) (before after : List τ) :
    weight task ≤ owed weight (before ++ task :: after) :=
  weight_le_owed weight (by simp)

/-- A step keeps a balance when what it pays is what it no longer owes. -/
theorem owed_run {weight : τ → Nat} {paid paid' due due' : Nat} {next : List τ}
    (step : paid' + owed weight next + due = paid + weight task + due')
    (balance : paid + owed weight (before ++ task :: after) = due) :
    paid' + owed weight (before ++ next ++ after) = due' := by
  simp only [owed_append, owed_cons] at balance ⊢
  omega

/-! ## One at a time -/

/-- The monitor rule: at most one task is inside a section; what the section guards holds while
none is, and the one inside knows where it stands. -/
structure Sole (inside : τ → Bool) (free : σ → Prop) (within : σ → τ → Prop) (s : σ)
    (tasks : List τ) : Prop where
  once : tasks.countP inside ≤ 1
  free : tasks.countP inside = 0 → free s
  within : ∀ task ∈ tasks, inside task = true → within s task

section Sole

variable {inside : τ → Bool} {free : σ → Prop} {within : σ → τ → Prop} {s s' : σ} {next : List τ}

/-- A step inside the section, or one taken while nobody is. -/
theorem Sole.run (sole : Sole inside free within s (before ++ task :: after))
    (alone : inside task ∨ (before ++ task :: after).countP inside = 0)
    (few : next.length ≤ 1) (leaves : next.countP inside = 0 → free s')
    (left : ∀ other ∈ next, inside other → within s' other) :
    Sole inside free within s' (before ++ next ++ after) := by
  have once := sole.once
  have most : next.countP inside ≤ 1 := countP_le_length.trans few
  have rest : before.countP inside = 0 ∧ after.countP inside = 0 := by
    simp only [countP_append, countP_cons] at once alone
    rcases alone with inner | none
    · rw [if_pos inner] at once
      omega
    · omega
  have count : (before ++ next ++ after).countP inside = next.countP inside := by
    simp [countP_append, rest]
  refine ⟨count ▸ most, fun none => leaves (count ▸ none), fun other here inner => ?_⟩
  have outer : ∀ {l : List τ}, l.countP inside = 0 → other ∉ l := fun none here =>
    countP_eq_zero.mp none other here inner
  rcases mem_append.mp here with here | late
  · rcases mem_append.mp here with early | new
    · exact absurd early (outer rest.1)
    · exact left other new inner
  · exact absurd late (outer rest.2)

/-- A step outside the section that keeps what it guards. -/
theorem Sole.pass (sole : Sole inside free within s (before ++ task :: after))
    (outside : inside task = false) (none : next.countP inside = 0) (same : free s → free s')
    (keeps : ∀ other ∈ before ++ after, inside other → within s other → within s' other) :
    Sole inside free within s' (before ++ next ++ after) := by
  have count : (before ++ next ++ after).countP inside
      = (before ++ task :: after).countP inside := by
    simp [countP_append, none, outside]
  refine ⟨count ▸ sole.once, fun empty => same (sole.free (count ▸ empty)), ?_⟩
  refine tasks_run sole.within (fun other here was inner => keeps other here inner (was inner)) ?_
  exact fun other here inner => absurd inner (countP_eq_zero.mp none other here)

theorem Sole.begin (sole : Sole inside free within s tasks) (outside : inside task = false) :
    Sole inside free within s (tasks ++ [task]) := by
  have count : (tasks ++ [task]).countP inside = tasks.countP inside := by
    simp [countP_append, outside]
  refine ⟨count ▸ sole.once, fun empty => sole.free (count ▸ empty), tasks_begin sole.within ?_⟩
  exact fun inner => absurd inner (by simp [outside])

/-- What both the free section and a task inside it have. -/
theorem Sole.holds {Q : Prop} (sole : Sole inside free within s tasks) (first : free s → Q)
    (inner : ∀ task, inside task → within s task → Q) : Q := by
  by_cases none : tasks.countP inside = 0
  · exact first (sole.free none)
  · obtain ⟨task, here, busy⟩ := countP_pos_iff.mp (Nat.pos_of_ne_zero none)
    exact inner task busy (sole.within task here busy)

end Sole

/-- Schedules: which call begins, or which task in the list goes on. -/
inductive Choice (τ : Type) where
  | begin (task : τ)
  | run (place : Nat)

/-- Follows a schedule, as far as its steps can be taken within the guard. -/
def follow (exec : σ → τ → Option (σ × List τ)) (guard : Pool σ τ → τ → Prop)
    [∀ pool task, Decidable (guard pool task)] :
    List (Choice τ) → Pool σ τ → Option (Pool σ τ)
  | [], pool => some pool
  | .begin task :: rest, pool => follow exec guard rest ⟨pool.shared, pool.tasks ++ [task]⟩
  | .run place :: rest, pool =>
    match pool.tasks[place]? with
    | none => none
    | some task =>
      match exec pool.shared task with
      | none => none
      | some (shared, next) =>
        if guard pool task then
          follow exec guard rest
            ⟨shared, pool.tasks.take place ++ next ++ pool.tasks.drop (place + 1)⟩
        else none

variable {schedule : List (Choice τ)} {P : Pool σ τ → Prop} {earlier : Pool σ τ}

/-- A schedule that can be followed is a run of steps. -/
theorem steps_of_follow [∀ pool task, Decidable (guard pool task)]
    (calling : ∀ task, .begin task ∈ schedule → calls task)
    (followed : follow exec guard schedule earlier = some pool) :
    Relation.ReflTransGen (PoolStep calls exec guard) earlier pool := by
  induction schedule generalizing earlier with
  | nil => exact Option.some.inj followed ▸ .refl
  | cons choice rest ih =>
    have later : ∀ task, .begin task ∈ rest → calls task := fun task here =>
      calling task (mem_cons_of_mem _ here)
    cases choice with
    | begin task =>
      exact .head (.begin _ task (calling task mem_cons_self)) (ih later followed)
    | run place =>
      rw [follow] at followed
      split at followed
      · cases followed
      next task here =>
        split at followed
        · cases followed
        next shared next ran =>
          split at followed
          next allowed =>
            refine .head ?_ (ih later followed)
            obtain ⟨short, rfl⟩ := List.getElem?_eq_some_iff.mp here
            have whole : earlier.tasks.take place
                ++ earlier.tasks[place] :: earlier.tasks.drop (place + 1) = earlier.tasks := by
              rw [getElem_cons_drop, take_append_drop]
            have step : PoolStep calls exec guard _ _ :=
              .run earlier.shared shared (earlier.tasks.take place)
                (earlier.tasks.drop (place + 1)) next _ ran (by rwa [whole])
            rwa [whole] at step
          · cases followed

theorem reached_of_follow [∀ pool task, Decidable (guard pool task)]
    (calling : ∀ task, .begin task ∈ schedule → calls task)
    (reached : PoolReached calls exec guard start earlier)
    (followed : follow exec guard schedule earlier = some pool) :
    PoolReached calls exec guard start pool :=
  reached.trans (steps_of_follow calling followed)

/-- What begins is a call. -/
def Choice.begins (calls : τ → Prop) [DecidablePred calls] : Choice τ → Bool
  | .begin task => calls task
  | .run _ => true

theorem calls_of_begins [DecidablePred calls] (calling : schedule.all (Choice.begins calls))
    (task : τ) (here : .begin task ∈ schedule) : calls task :=
  of_decide_eq_true (all_eq_true.mp calling _ here)

/-- A schedule of calls that leads to a pool with a property. -/
theorem exists_reached_of_follow [DecidablePred calls] [∀ pool task, Decidable (guard pool task)]
    [DecidablePred P] (schedule : List (Choice τ)) (calling : schedule.all (Choice.begins calls))
    (followed : (follow exec guard schedule ⟨start, []⟩).any (decide <| P ·)) :
    ∃ pool, PoolReached calls exec guard start pool ∧ P pool := by
  obtain ⟨pool, here, good⟩ := (Option.any_eq_true _ _).mp followed
  exact ⟨pool, reached_of_follow (calls_of_begins calling) .refl here, of_decide_eq_true good⟩

/-! ## Restarts -/

/-- A step, or a restart: what it leaves of the shared state, and no call under way. -/
inductive RestartStep (restart : σ → σ → Prop) (calls : τ → Prop)
    (exec : σ → τ → Option (σ × List τ)) (guard : Pool σ τ → τ → Prop) : Pool σ τ → Pool σ τ → Prop
  | step {pool pool' : Pool σ τ} (steps : PoolStep calls exec guard pool pool') :
    RestartStep restart calls exec guard pool pool'
  | restart (pool : Pool σ τ) {left : σ} (leaves : restart pool.shared left) :
    RestartStep restart calls exec guard pool ⟨left, []⟩

/-- The pools that steps within the guard and restarts lead to. -/
abbrev RestartReached (restart : σ → σ → Prop) (calls : τ → Prop)
    (exec : σ → τ → Option (σ × List τ))
    (guard : Pool σ τ → τ → Prop) (start : σ) (pool : Pool σ τ) : Prop :=
  Relation.ReflTransGen (RestartStep restart calls exec guard) ⟨start, []⟩ pool

variable {restart : σ → σ → Prop}

theorem RestartReached.invariant (first : I start [])
    (begins : ∀ s tasks task, calls task → I s tasks → I s (tasks ++ [task]))
    (runs : ∀ s s' before after next task, exec s task = some (s', next) →
      guard ⟨s, before ++ task :: after⟩ task → I s (before ++ task :: after) →
      I s' (before ++ next ++ after))
    (restarts : ∀ s left tasks, restart s left → I s tasks → I left [])
    (reached : RestartReached restart calls exec guard start pool) : I pool.shared pool.tasks := by
  induction reached with
  | refl => exact first
  | tail _ step ih =>
    cases step with
    | restart leaves => exact restarts _ _ _ leaves ih
    | step steps =>
      cases steps with
      | begin _ task call => exact begins _ _ task call ih
      | run s s' before after next task ran allowed =>
        exact runs s s' before after next task ran allowed ih

/-- A schedule of calls, before any restart. -/
theorem exists_restartReached_of_follow [DecidablePred calls]
    [∀ pool task, Decidable (guard pool task)] [DecidablePred P] (schedule : List (Choice τ))
    (calling : schedule.all (Choice.begins calls))
    (followed : (follow exec guard schedule ⟨start, []⟩).any (decide <| P ·)) :
    ∃ pool, RestartReached restart calls exec guard start pool ∧ P pool := by
  obtain ⟨pool, reached, good⟩ := exists_reached_of_follow schedule calling followed
  exact ⟨pool, Relation.ReflTransGen.mono (fun _ _ => .step) _ _ reached, good⟩

end OpenGate.Lib
