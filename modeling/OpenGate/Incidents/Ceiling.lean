import OpenGate.Lib.Tasks

/-!
# A customer's hourly alert ceiling

`Record` of `alerts/postgres.go` for one customer: the time is taken, the inserting statement
counts the rows of the hour before among those committed, and the row is committed after the
fold.  The count does not see what other transactions have not committed; where none is among
the last to fit, the ceiling holds in every rolling hour (`stored_le_ceiling`).
-/

namespace OpenGate.Incidents.Ceiling

open OpenGate.Lib List

def hour : Int := 3600000000

/-- The store's clock, and identity and `received_at` of the customer's committed rows. -/
structure Book where
  clock : Int
  rows : List (Nat × Int)
  deriving DecidableEq

/-- What a `Record` has still to do, with whether its transaction commits; `tick` is the clock. -/
inductive Record where
  | tick (micros : Nat)
  | record (identity : Nat) (commits : Bool)
  | storeAlert (identity : Nat) (commits : Bool) (now : Int)
  | commit (identity : Nat) (commits : Bool) (now : Int)
  deriving DecidableEq

def Record.calls : Record → Bool
  | .tick _ | .record .. => true
  | _ => false

variable {limit : Nat} {s s' : Book} {task : Record} {before after next : List Record}

def Book.exec (limit : Nat) (s : Book) : Record → Option (Book × List Record)
  | .tick micros => some ({ s with clock := s.clock + micros }, [])
  | .record identity commits => some (s, [.storeAlert identity commits s.clock])
  | .storeAlert identity commits now =>
    some (s,
      if s.rows.countP (now - hour < ·.2) < limit then [.commit identity commits now] else [])
  | .commit identity commits now =>
    -- `ON CONFLICT`: the insert has waited for a transaction with the same identity.
    some (if commits ∧ identity ∉ s.rows.map (·.1) then
      { s with rows := s.rows ++ [(identity, now)] } else s, [])

/-- The rows received in the hour up to a time. -/
def Book.within (s : Book) (time : Int) : Nat :=
  s.rows.countP fun row => time - hour < row.2 ∧ row.2 ≤ time

abbrev Reached (guard : Pool Book Record → Record → Bool) (limit : Nat) (clock : Int) :
    Pool Book Record → Prop :=
  PoolReached (Record.calls ·) (Book.exec limit) (guard · ·) ⟨clock, []⟩

/-- The records with such a time that have counted the rows and will commit one. -/
def Record.uncommitted (p : Int → Bool) : Record → Nat
  | .commit _ commits now => if commits ∧ p now then 1 else 0
  | _ => 0

/-- A record that will commit finds room in its hour for itself and for those that have counted
before it and not committed, unless it is refused. -/
def leavesRoom (limit : Nat) (pool : Pool Book Record) : Record → Bool
  | .storeAlert _ commits now =>
    let counted := pool.shared.rows.countP (now - hour < ·.2)
    commits → counted < limit →
      counted + owed (Record.uncommitted (now - hour < ·)) pool.tasks < limit
  | _ => true

/-- No hour has too many rows, with those to be committed. -/
def Kept (limit : Nat) (s : Book) (tasks : List Record) : Prop :=
  ∀ time, s.within time + owed (Record.uncommitted fun t => time - hour < t ∧ t ≤ time) tasks
    ≤ limit

/-- A step that commits nothing, and leaves nothing more to be committed. -/
theorem Kept.idle (kept : Kept limit s (before ++ task :: after)) (rows : s'.rows = s.rows)
    (fewer : ∀ p, owed (Record.uncommitted p) next ≤ task.uncommitted p) :
    Kept limit s' (before ++ next ++ after) := by
  intro time
  have few := kept time
  have less := fewer fun t => time - hour < t ∧ t ≤ time
  unfold Book.within at few ⊢
  simp only [owed_append, owed_cons] at few ⊢
  rw [rows]
  omega

/-- An hour that a record falls into has no more rows than it counts, nor more to be committed. -/
theorem within_le_counted {now time : Int} (later : now ≤ time) (tasks : List Record) :
    s.within time ≤ s.rows.countP (now - hour < ·.2) ∧
      owed (Record.uncommitted fun t => time - hour < t ∧ t ≤ time) tasks
        ≤ owed (Record.uncommitted (now - hour < ·)) tasks := by
  constructor
  · refine countP_mono_left fun row _ inside => ?_
    simp only [decide_eq_true_eq] at inside ⊢
    omega
  · refine owed_mono fun task _ => ?_
    cases task with
    | commit _ commits started =>
      simp only [Record.uncommitted, decide_eq_true_eq]
      by_cases inside : commits ∧ time - hour < started ∧ started ≤ time
      · rw [if_pos inside, if_pos ⟨inside.1, by omega⟩]
      · rw [if_neg inside]
        exact Nat.zero_le _
    | _ => exact le_rfl

theorem exec_kept (ran : s.exec limit task = some (s', next))
    (guarded : leavesRoom limit ⟨s, before ++ task :: after⟩ task)
    (kept : Kept limit s (before ++ task :: after)) : Kept limit s' (before ++ next ++ after) := by
  cases task with
  | tick | record =>
    cases ran
    exact kept.idle rfl fun _ => Nat.zero_le _
  | storeAlert identity commits now =>
    cases ran
    split
    next room =>
      intro time
      have few := kept time
      have left : commits → s.rows.countP (now - hour < ·.2) < limit →
          s.rows.countP (now - hour < ·.2) + owed (Record.uncommitted (now - hour < ·))
            (before ++ .storeAlert identity commits now :: after) < limit :=
              of_decide_eq_true guarded
      have counted (later : now ≤ time) := within_le_counted (s := s) later
        (before ++ .storeAlert identity commits now :: after)
      simp only [owed_append, owed_cons, owed_nil, Record.uncommitted, decide_eq_true_eq]
        at few left counted ⊢
      by_cases inside : commits ∧ time - hour < now ∧ now ≤ time
      · have := left inside.1 room
        have := counted inside.2.2
        rw [if_pos inside]
        omega
      · rw [if_neg inside]
        omega
    · exact kept.idle rfl fun _ => Nat.zero_le _
  | commit identity commits now =>
    cases ran
    intro time
    have few := kept time
    simp only [owed_append, owed_cons, owed_nil, Record.uncommitted, decide_eq_true_eq] at few ⊢
    split
    next adds =>
      simp only [Book.within, countP_append, countP_singleton, decide_eq_true_eq] at few ⊢
      simp only [adds.1, true_and] at few
      omega
    · omega

/-- In every run where no record counts the last room of its hour while another is to commit in
it, no rolling hour has more rows than the ceiling. -/
theorem stored_le_ceiling {clock : Int} {pool : Pool Book Record}
    (reached : Reached (leavesRoom limit) limit clock pool) (time : Int) :
    pool.shared.within time ≤ limit := by
  have kept : Kept limit pool.shared pool.tasks := by
    refine PoolReached.invariant (I := Kept limit) (fun _ => Nat.zero_le _) ?_ ?_ reached
    · intro s tasks task call kept
      cases task with
      | tick | record => exact fun time => by simpa [Record.uncommitted] using kept time
      | _ => cases call
    · exact fun _ _ _ _ _ _ ran guarded kept => exec_kept ran guarded kept
  exact (Nat.le_add_right ..).trans (kept time)

/-- A ceiling of two, met by two alerts that are counted before either is committed; a third is
refused. -/
theorem stored_le_ceiling_met : ∃ pool : Pool Book Record,
    pool.shared.rows = [(1, 0), (2, 0)] ∧ pool.shared.within 0 ≤ 2 := by
  have run : ∃ pool, Reached (leavesRoom 2) 2 0 pool ∧ pool.shared.rows = [(1, 0), (2, 0)] :=
    exists_reached_of_follow
      ([.begin (.record 1 true), .begin (.record 2 true)] ++ [0, 1, 0, 1, 0, 0].map .run
        ++ .begin (.record 3 true) :: [0, 0].map .run) (by decide) (by decide +kernel)
  obtain ⟨pool, reached, rows⟩ := run
  exact ⟨pool, rows, stored_le_ceiling reached 0⟩

/-- Two alerts counted before either is committed, with a ceiling of one. -/
theorem stored_past_ceiling : ∃ pool : Pool Book Record, Reached (fun _ _ => true) 1 0 pool ∧
    pool.tasks = [] ∧ ¬ pool.shared.within 0 ≤ 1 :=
  exists_reached_of_follow
    ([.begin (.record 1 true), .begin (.record 2 true)] ++ [0, 1, 0, 1, 0, 0].map .run)
    (by decide) (by decide +kernel)

end OpenGate.Incidents.Ceiling
