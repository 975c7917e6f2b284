import OpenGate.Relay.Teardown

/-!
# The relay's count and registry

A registration stores the session, marks it started and counted, and saves its record; a
teardown takes back the map entry, the count and the record.  These are separate steps,
and the books agree at rest as long as a teardown does not run into the registration it
undoes, nor a registration into the teardown before it (`Orderly`).

`counts_exact_at_rest` is the result for such runs, and `count_without_session` a run
that is not: an `Unregister` of the token releases a session that was stored and not yet
started, whose registration then counts and records it for good.
-/

namespace OpenGate.Relay

open OpenGate.Lib Session Finset
open Function (update)
open Function (update_of_ne update_self)

/-- What the relay's books say of a session. -/
structure Entry where
  started : Bool
  saved : Nat
  deleted : Nat
  lowered : Nat
  unrecorded : Nat

def Session.entry (s : Session) : Entry :=
  ⟨s.started, s.tally.saved, s.tally.deleted, s.tally.lowered, s.tally.unrecorded⟩

/-- What a session counts for: one from its start until its teardown lowers the count. -/
def Entry.counted (e : Entry) : Int := e.started.toNat - e.lowered

variable {Token : Type}

/-- Stored objects that are in the session map. -/
def held [DecidableEq Token] (r : Relay Token) : Finset Nat :=
  (Finset.range r.created).filter fun i => r.sessions (r.token i) = some i

/-! ## Runs that keep registrations and teardowns apart -/

/-- The object whose teardown a step begins: a release that claims it, or the pipe's
teardown where it takes the entry out of the map. -/
def tearsDown (r : Relay Token) : Task Token → Option Nat
  | .on i (.release _) =>
    if (r.objects i).piping || (r.objects i).released then none else some i
  | .on i .pipeDelete => some i
  | _ => none

/-- The token a step registers anew. -/
def opens (r : Relay Token) : Task Token → Option Token
  | .register token _ => if (r.sessions token).isNone then some token else none
  | _ => none

variable [DecidableEq Token]

/-- Whether a task has yet to delete the registry record of a token. -/
def unrecords (r : Relay Token) (token : Token) : Task Token → Bool
  | .on i op => decide (r.token i = token) && decide (0 < op.owes .record)
  | _ => false

/-- A session is torn down only once the registration that opened it has marked it started
and saved its record; a token is registered anew only once the record of the session
before is deleted. -/
def Orderly (w : World Token) (task : Task Token) : Prop :=
  (∀ i ∈ tearsDown w.shared task,
    (w.shared.objects i).started = true ∧ .on i .saveSession ∉ w.tasks) ∧
  ∀ token ∈ opens w.shared task, ∀ other ∈ w.tasks, unrecords w.shared token other = false

instance (w : World Token) (task : Task Token) : Decidable (Orderly w task) :=
  inferInstanceAs (Decidable (_ ∧ _))

/-! ## What a step does to the books -/

variable {r r' : Relay Token} {tasks before after next : List (Task Token)} {task : Task Token}
  {i : Nat} {op : Op} {s : Session} {rest : List Op} {account : Account} {token : Token}
  {side : Side} {s' : Session}

/-- What a step on an object does to the map, the count and the registry, and to the
entry of the object. -/
inductive BookStep (r : Relay Token) (i : Nat) (s' : Session) : Op → Relay Token → Prop
  | quiet (op : Op) (answered : List Nat) (entry : s'.entry = (r.objects i).entry) :
    BookStep r i s' op { r with answered }
  | start (side : Side) (before : (r.objects i).entry.started = false)
    (entry : s'.entry = { (r.objects i).entry with started := true }) :
    BookStep r i s' (.setSide side) { r with count := r.count + 1, started := r.started + 1 }
  | save (entry : s'.entry = { (r.objects i).entry with saved := (r.objects i).entry.saved + 1 }) :
    BookStep r i s' .saveSession
      { r with registry := Function.update r.registry (r.token i) true }
  | delete (op : Op) (owes : 0 < op.owes .delete)
    (turn : op = .pipeDelete ∨ ∃ started byEnd, op = .releaseDelete started byEnd)
    (sessions : Token → Option Nat)
    (entry : s'.entry = { (r.objects i).entry with deleted := (r.objects i).entry.deleted + 1 })
    (gone : r.sessions (r.token i) = some i →
      sessions = Function.update r.sessions (r.token i) none) :
    BookStep r i s' op { r with sessions }
  | lower (op : Op)
    (entry : s'.entry = { (r.objects i).entry with lowered := (r.objects i).entry.lowered + 1 }) :
    BookStep r i s' op { r with count := r.count - 1 }
  | unrecord (op : Op) (owes : 0 < op.owes .record)
    (entry : s'.entry
      = { (r.objects i).entry with unrecorded := (r.objects i).entry.unrecorded + 1 }) :
    BookStep r i s' op { r with registry := Function.update r.registry (r.token i) false }

theorem bookStep (acted : (r.objects i).act op = some (s, rest)) :
    BookStep r i s op (r.effect i op) := by
  have returned : ∀ op byEnd s', s'.entry = (r.objects i).entry →
      BookStep r i s' op (r.returns i byEnd) := by
    intro op byEnd s' entry
    obtain ⟨answered, eq⟩ := r.returns_eq i byEnd
    rw [eq]
    exact .quiet op answered entry
  cases op with
  | setSide side =>
    rw [Session.act] at acted
    rw [effect]
    split at acted
    next has =>
      cases acted
      rw [has, Bool.true_or, if_pos rfl]
      exact .quiet _ r.answered rfl
    next hasnt =>
      split at acted
      next started =>
        cases acted
        rw [started, Bool.or_true, if_pos rfl]
        refine .quiet _ r.answered ?_
        cases side <;> rfl
      next unstarted =>
        cases acted
        have first : (r.objects i).started = false := by simpa using unstarted
        rw [if_neg (by simp [first, hasnt])]
        refine .start side first ?_
        cases side <;> rfl
  | saveSession =>
    cases acted
    exact .save rfl
  | startPipeIfReady | mark _ | pipeSelect | pipeWait =>
    rw [Session.act] at acted
    split at acted <;> cases acted <;> exact .quiet _ r.answered rfl
  | release byEnd =>
    rw [Session.act] at acted
    rw [effect]
    split at acted <;> cases acted
    next held =>
      rw [if_pos held]
      exact returned _ byEnd _ rfl
    next free =>
      rw [if_neg free]
      exact .quiet _ r.answered rfl
  | releaseDelete started byEnd =>
    cases acted
    rw [effect]
    split
    · exact .delete (.releaseDelete started byEnd) Nat.one_pos (.inr ⟨_, _, rfl⟩) _ rfl fun _ => rfl
    next other =>
      exact .delete (.releaseDelete started byEnd) Nat.one_pos (.inr ⟨_, _, rfl⟩) r.sessions rfl
        fun here => absurd here other
  | pipeDelete =>
    cases acted
    exact .delete .pipeDelete Nat.one_pos (.inl rfl) _ rfl fun _ => rfl
  | releaseCount started byEnd =>
    cases acted
    cases started with
    | true => exact .lower _ rfl
    | false => exact .quiet _ r.answered rfl
  | pipeCount =>
    cases acted
    exact .lower _ rfl
  | releaseRegistry byEnd =>
    cases acted
    exact .unrecord (.releaseRegistry byEnd) Nat.one_pos rfl
  | pipeRegistry =>
    cases acted
    exact .unrecord .pipeRegistry Nat.one_pos rfl
  | stop =>
    cases acted
    exact returned _ true _ rfl
  | releaseEnd byEnd =>
    cases acted
    exact returned _ byEnd _ rfl
  | _ =>
    cases acted
    exact .quiet _ r.answered rfl

/-- The count moves with what the object counts for. -/
theorem count_act (acted : (r.objects i).act op = some (s, rest)) :
    (r.effect i op).count + (r.objects i).entry.counted = r.count + s.entry.counted := by
  have step := bookStep acted
  generalize r.effect i op = after at step
  cases step with
  | quiet op answered entry => rw [entry]
  | start side before entry =>
    simp only [entry, Entry.counted, before, Bool.toNat_true, Bool.toNat_false]
    omega
  | save entry | delete op owes turn sessions entry gone | unrecord op owes entry =>
    rw [entry]
    rfl
  | lower op entry =>
    simp only [entry, Entry.counted]
    omega

/-- A sum in which one summand changes. -/
theorem sum_update (n : Nat) (small : i < n) (f g : Nat → Int) (same : ∀ j, j ≠ i → g j = f j) :
    ∑ j ∈ range n, g j + f i = ∑ j ∈ range n, f j + g i := by
  have here : i ∈ range n := mem_range.mpr small
  have rest : ∑ j ∈ (range n).erase i, g j = ∑ j ∈ (range n).erase i, f j :=
    sum_congr rfl fun j inside => same j (ne_of_mem_erase inside)
  rw [← add_sum_erase _ f here, ← add_sum_erase _ g here, rest]
  ring

/-- The relay's count is what its sessions count for. -/
def Counted (r : Relay Token) : Prop :=
  r.count = ∑ i ∈ range r.created, (r.objects i).entry.counted

theorem Counted.run (counted : r.Counted) (kept : Kept r (before ++ task :: after))
    (ran : r.exec task = some (r', next)) : r'.Counted := by
  rcases exec_cases ran with ⟨-, -, -, -, -, rfl, -, -⟩ | ⟨token, -, -, -, rfl, -⟩ | ⟨-, rfl, -⟩ |
    ⟨i, op, s, rest, rfl, acted, rfl, -⟩
  · exact counted
  · show r.count = ∑ i ∈ range (r.created + 1), _
    have new : (r.store token).objects r.created = .new := update_self ..
    rw [sum_range_succ, new, counted]
    refine (add_zero _).symm.trans (congrArg₂ _ (sum_congr rfl fun i small => ?_) rfl)
    have old : (r.store token).objects i = r.objects i := update_of_ne (mem_range.mp small).ne ..
    rw [old]
  · exact counted
  · obtain ⟨objects, -, created, -⟩ := r.effect_keeps i op
    have moves := count_act acted
    have total := sum_update r.created (kept.placed i op (by simp))
      (fun j => (r.objects j).entry.counted) (fun j => (update r.objects i s j).entry.counted)
      fun j other => by rw [update_of_ne other]
    simp only [update_self] at total
    show (r.effect i op).count
      = ∑ j ∈ range (r.effect i op).created, (update (r.effect i op).objects i s j).entry.counted
    rw [created, objects]
    unfold Counted at counted
    omega

theorem counted_of_reached [Inhabited Token] {guard : World Token → Task Token → Prop}
    {w : World Token} (reached : Reached guard w) : w.shared.Counted :=
  (reached.invariant (I := fun r tasks => Kept r tasks ∧ r.Counted) ⟨kept_new, rfl⟩
    (fun _ _ _ call was => ⟨was.1.begin call, was.2⟩)
    fun _ _ _ _ _ _ ran _ was => ⟨was.1.run ran, was.2.run was.1 ran⟩).2

/-! ## One owner -/

/-- One owner tears a session down, and the relay's count is one for each session from its start
until the count is lowered for it. -/
theorem one_owner_tears_down [Inhabited Token] (w : World Token)
    (reached : Reached (fun _ _ => True) w) (i : Nat) :
    (w.shared.objects i).tally.pipes + (w.shared.objects i).tally.releases ≤ 1 ∧
    (w.shared.objects i).tally.closed ≤ 1 ∧
    (0 < (w.shared.objects i).tally.closed →
      .on i .pipe ∉ w.tasks ∧ .on i .copyAgent ∉ w.tasks ∧ .on i .copyBrowser ∉ w.tasks) ∧
    (w.shared.objects i).tally.notified ≤ 1 ∧
    (w.shared.objects i).tally.lowered ≤ 1 ∧
    w.shared.count = ∑ j ∈ range w.shared.created,
      ((w.shared.objects j).started.toNat - (w.shared.objects j).tally.lowered : Int) := by
  have kept := kept_of_reached reached
  have sound := kept.sound i
  have due := kept.due_le_one .finish i
  have lowered := kept.paid_le_one .lower i
  refine ⟨?_, ?_, fun closed => kept.no_loops (sound.quiet ?_), kept.paid_le_one .notify i, ?_,
    counted_of_reached reached⟩
  · rw [sound.pipes, sound.releases]
    exact due
  · rw [sound.once]
    exact Bool.toNat_le _
  · rw [sound.once] at closed
    cases done : (w.shared.objects i).endOnce
    · rw [done] at closed
      cases closed
    · rfl
  · exact (Nat.le_add_right _ _).trans lowered

/-- A paired session whose agent hangs up, torn down by its pipe while `Unregister` of the
same token finds it. -/
def hangUpAndUnregister : List (Choice (Task Nat)) :=
  [.begin (.register 7 .agent), .run 0, .run 0, .run 0, .run 0,
    .begin (.register 7 .browser), .run 0, .run 0, .run 0, .run 0,
    .run 0, .run 0, .run 0, .run 0, .begin (.unregister 7), .run 1, .run 0, .run 0, .run 0, .run 0,
    .run 0, .run 0, .run 0, .run 0, .run 0]

theorem one_owner_tears_down_pipe :
    ∃ w : World Nat, (w.shared.objects 0).tally.closed = 1 ∧
      (w.shared.objects 0).tally.notified ≤ 1 ∧ .on 0 .copyAgent ∉ w.tasks := by
  obtain ⟨w, reached, closed⟩ : ∃ w : World Nat, Reached (fun _ _ => True) w ∧
      (w.shared.objects 0).tally.closed = 1 :=
    exists_reached_of_follow hangUpAndUnregister (by decide) (by decide +kernel)
  have owner := one_owner_tears_down w reached 0
  exact ⟨w, closed, owner.2.2.2.1, (owner.2.2.1 (by omega)).2.1⟩

/-! ## The books of a run -/

/-- What the books say while registrations and teardowns keep apart. -/
structure Exact (r : Relay Token) (tasks : List (Task Token)) : Prop where
  kept : Kept r tasks
  mapped : ∀ i < r.created, r.sessions (r.token i) = some i ↔ (r.objects i).entry.deleted = 0
  opening : ∀ i < r.created, (r.objects i).started = true ∨ ∃ side, .on i (.setSide side) ∈ tasks
  torn : ∀ i, (r.objects i).released = true ∨ 0 < (r.objects i).entry.deleted →
    (r.objects i).entry.saved = 1
  onTime : ∀ i, (r.objects i).tally.unstarted = 0
  unique : ∀ i < r.created, ∀ j < r.created, r.token i = r.token j →
    (r.objects i).entry.unrecorded = 0 → (r.objects j).entry.unrecorded = 0 → i = j
  registry : ∀ token, r.registry token = true ↔ ∃ i < r.created, r.token i = token ∧
    (r.objects i).entry.saved = 1 ∧ (r.objects i).entry.unrecorded = 0

omit [DecidableEq Token] in
theorem exact_new [Inhabited Token] : Exact (Relay.new : Relay Token) [] where
  kept := kept_new
  mapped := nofun
  opening := nofun
  torn _ := by
    rintro (released | deleted)
    · cases released
    · cases deleted
  onTime _ := rfl
  unique := nofun
  registry token := by
    refine ⟨nofun, ?_⟩
    rintro ⟨_, small, -⟩
    cases small

omit [DecidableEq Token] in
/-- The record of a torn-down session is deleted after its map entry. -/
theorem Kept.unrecorded_le (kept : Kept r tasks) (i : Nat) :
    (r.objects i).entry.unrecorded ≤ (r.objects i).entry.deleted := by
  have delete := kept.balance .delete i
  have record := kept.balance .record i
  have later : owed (Task.weight .delete i) tasks ≤ owed (Task.weight .record i) tasks := by
    refine List.sum_le_sum fun task _ => ?_
    cases task with
    | on j op =>
      rw [Task.weight, Task.weight]
      split
      · cases op <;> simp [Op.owes]
      · exact Nat.le_refl 0
    | _ => exact Nat.le_refl 0
  simp only [paid, Session.due] at delete record
  show (r.objects i).tally.unrecorded ≤ (r.objects i).tally.deleted
  omega

omit [DecidableEq Token] in
/-- A started session whose save is not under way is saved. -/
theorem Kept.saved_eq_one (kept : Kept r tasks) (started : (r.objects i).started)
    (idle : .on i .saveSession ∉ tasks) : (r.objects i).entry.saved = 1 := by
  have balance := kept.balance .save i
  have none : owed (Task.weight .save i) tasks = 0 := by
    refine List.sum_eq_zero fun n inside => ?_
    obtain ⟨task, here, rfl⟩ := List.mem_map.mp inside
    cases task with
    | on j op =>
      rw [Task.weight]
      split
      next same =>
        subst same
        cases op with
        | saveSession => exact absurd here idle
        | _ => rfl
      · rfl
    | _ => rfl
  rw [none] at balance
  show (r.objects i).tally.saved = 1
  simpa [paid, Session.due, started] using balance

omit [DecidableEq Token] in
/-- What is owed on an account is owed by some step under way. -/
theorem exists_of_owed (owing : 0 < owed (Task.weight account i) tasks) :
    ∃ op, .on i op ∈ tasks ∧ 0 < op.owes account := by
  by_contra none
  refine absurd owing (Nat.not_lt.mpr (Nat.le_of_eq (List.sum_eq_zero fun n inside => ?_)))
  obtain ⟨task, here, rfl⟩ := List.mem_map.mp inside
  cases task with
  | on j op =>
    rw [Task.weight]
    split
    next same =>
      subst same
      by_contra some
      exact none ⟨op, here, Nat.pos_of_ne_zero some⟩
    · rfl
  | _ => rfl

omit [DecidableEq Token] in
/-- A call that looks up its token changes no books. -/
theorem Exact.replace (books : Exact r (before ++ task :: after))
    (kept : Kept r (before ++ next ++ after))
    (call : task.isCall) : Exact r (before ++ next ++ after) where
  kept := kept
  mapped := books.mapped
  opening i small := by
    refine (books.opening i small).imp_right fun ⟨side, here⟩ => ⟨side, ?_⟩
    simp only [List.append_assoc, List.mem_append, List.mem_cons] at here ⊢
    rcases here with old | rfl | old
    · exact .inl old
    · cases call
    · exact .inr (.inr old)
  torn := books.torn
  onTime := books.onTime
  unique := books.unique
  registry := books.registry

omit [DecidableEq Token] in
theorem Exact.begin (books : Exact r tasks) (call : task.isCall) : Exact r (tasks ++ [task]) where
  kept := books.kept.begin call
  mapped := books.mapped
  opening i small := by
    refine (books.opening i small).imp_right fun ⟨side, here⟩ => ⟨side, ?_⟩
    exact List.mem_append_left _ here
  torn := books.torn
  onTime := books.onTime
  unique := books.unique
  registry := books.registry

/-- A session without a map entry whose record is still there has a step under way that
deletes it. -/
theorem Exact.recorded_of_unmapped (books : Exact r tasks) (missing : r.sessions token = none)
    (none : ∀ other ∈ tasks, unrecords r token other = false) {j : Nat} (small : j < r.created)
    (same : r.token j = token) : (r.objects j).entry.unrecorded ≠ 0 := by
  intro recorded
  have unmapped : (r.objects j).tally.deleted ≠ 0 := by
    intro deleted
    have here := (books.mapped j small).mpr deleted
    rw [same, missing] at here
    cases here
  have delete := books.kept.balance .delete j
  have record := books.kept.balance .record j
  have recorded : (r.objects j).tally.unrecorded = 0 := recorded
  simp only [paid, Session.due] at delete record
  have owing : 0 < owed (Task.weight .record j) tasks := by omega
  obtain ⟨op, here, owes⟩ := exists_of_owed owing
  have free := none _ here
  simp [unrecords, same, owes] at free

theorem Exact.store (books : Exact r (before ++ task :: after)) (missing : r.sessions token = none)
    (called : task = .register token side)
    (alone : ∀ other ∈ before ++ task :: after, unrecords r token other = false) :
    Exact (r.store token) (before ++ [.on r.created (.setSide side)] ++ after) := by
  have old : ∀ i, i < r.created → (r.store token).objects i = r.objects i ∧
      (r.store token).token i = r.token i := fun i small =>
    ⟨update_of_ne (by omega) _ _, update_of_ne (by omega) _ _⟩
  have new : (r.store token).objects r.created = .new ∧ (r.store token).token r.created = token :=
    ⟨update_self .., update_self ..⟩
  have entries : ∀ i, ((r.store token).objects i) = r.objects i := by
    intro i
    by_cases here : i = r.created
    · rw [here, new.1, books.kept.fresh _ (Nat.le_refl _)]
    · exact update_of_ne here _ _
  have bound : ∀ i, i < (r.store token).created ↔ i < r.created ∨ i = r.created := fun i =>
    Nat.lt_succ_iff_lt_or_eq
  have gone : ∀ j < r.created, r.token j = token → (r.objects j).entry.unrecorded ≠ 0 :=
    fun j small same => books.recorded_of_unmapped missing alone small same
  refine ⟨books.kept.store called, ?_, ?_, ?_, ?_, ?_, ?_⟩
  · intro i small
    rw [entries]
    show update r.sessions token _ _ = some i ↔ _
    rcases (bound i).mp small with earlier | rfl
    · rw [(old i earlier).2]
      by_cases same : r.token i = token
      · -- The earlier session of the token is out of the map.
        have unmapped := (books.mapped i earlier).not.mp (by rw [same, missing]; exact nofun)
        rw [same, update_self]
        refine ⟨fun here => ?_, fun deleted => absurd deleted unmapped⟩
        cases here
        omega
      · rw [update_of_ne same]
        exact books.mapped i earlier
    · rw [new.2, update_self, books.kept.fresh _ (Nat.le_refl _)]
      exact ⟨fun _ => rfl, fun _ => rfl⟩
  · intro i small
    rw [entries]
    rcases (bound i).mp small with earlier | rfl
    · refine (books.opening i earlier).imp_right fun ⟨which, here⟩ => ⟨which, ?_⟩
      simp only [List.append_assoc, List.mem_append, List.mem_cons] at here ⊢
      rcases here with old | rfl | old
      · exact .inl old
      · cases called
      · exact .inr (.inr old)
    · exact .inr ⟨side, by simp⟩
  · intro i
    rw [entries]
    exact books.torn i
  · intro i
    rw [entries]
    exact books.onTime i
  · intro i small j small'
    rw [entries, entries]
    rcases (bound i).mp small with earlier | rfl <;> rcases (bound j).mp small' with earlier' | rfl
    · rw [(old i earlier).2, (old j earlier').2]
      exact books.unique i earlier j earlier'
    · rw [(old i earlier).2, new.2]
      exact fun same recorded _ => absurd recorded (gone i earlier same)
    · rw [(old j earlier').2, new.2]
      exact fun same _ recorded => absurd recorded (gone j earlier' same.symm)
    · exact fun _ _ _ => rfl
  · intro t
    show r.registry t = true ↔ _
    rw [books.registry t]
    constructor
    · rintro ⟨i, small, same, record⟩
      exact ⟨i, (bound i).mpr (.inl small), by rw [(old i small).2, same], by rwa [entries]⟩
    · rintro ⟨i, small, same, record⟩
      rw [entries] at record
      rcases (bound i).mp small with earlier | rfl
      · exact ⟨i, earlier, by rw [← (old i earlier).2, same], record⟩
      · -- The new session is not saved yet.
        rw [books.kept.fresh _ (Nat.le_refl _)] at record
        exact absurd record.1 (by decide)

/-- A step that claims an object for release, or leaves it as it was. -/
theorem Session.act_claims (acted : s.act op = some (s', rest)) :
    s'.released = s.released ∧ s'.tally.unstarted = s.tally.unstarted ∨
    (∃ byEnd, op = .release byEnd) ∧ (s.piping || s.released) = false ∧
      s'.tally.unstarted = s.tally.unstarted + (!s.started).toNat := by
  cases op with
  | setSide side =>
    rw [act] at acted
    split at acted
    · cases acted
      exact .inl ⟨rfl, rfl⟩
    · split at acted <;> cases acted <;> cases side <;> exact .inl ⟨rfl, rfl⟩
  | release byEnd =>
    rw [act] at acted
    split at acted
    · cases acted
      exact .inl ⟨rfl, rfl⟩
    next free =>
      cases acted
      exact .inr ⟨⟨byEnd, rfl⟩, by simpa using free, rfl⟩
  | startPipeIfReady | mark _ | pipeSelect | pipeWait =>
    rw [act] at acted
    split at acted <;> cases acted <;> exact .inl ⟨rfl, rfl⟩
  | _ =>
    cases acted
    exact .inl ⟨rfl, rfl⟩

/-- A registration's first section leaves the object started. -/
theorem Session.act_setSide (sound : s.Sound) (acted : s.act (.setSide side) = some (s', rest)) :
    s'.started := by
  rw [act] at acted
  split at acted
  next has =>
    cases acted
    cases side
    · exact sound.sided (.inl has)
    · exact sound.sided (.inr has)
  · split at acted <;> cases acted
    next started => exact (s.grows_setSide side).started started
    · rfl

section Act

variable (books : Exact r (before ++ .on i op :: after))
  (acted : (r.objects i).act op = some (s, rest))

include books

omit [DecidableEq Token] in
/-- A step that still owes has not paid. -/
theorem Exact.unpaid (account : Account) (owes : 0 < op.owes account) :
    (r.objects i).paid account = 0 := by
  have balance := books.kept.balance account i
  have due := books.kept.due_le_one account i
  have weight := weight_le_owed_middle (Task.weight account i) (.on i op) before after
  rw [Task.weight, if_pos rfl] at weight
  omega

include acted

theorem Exact.mapped_act : ∀ j < r.created,
    (r.effect i op).sessions (r.token j) = some j
      ↔ (update r.objects i s j).entry.deleted = 0 := by
  have place : i < r.created := books.kept.placed i op (by simp)
  have quiet : s.entry.deleted = (r.objects i).entry.deleted →
      ∀ j < r.created, r.sessions (r.token j) = some j
        ↔ (update r.objects i s j).entry.deleted = 0 := by
    intro same j small
    by_cases here : j = i
    · subst here
      rw [update_self, same]
      exact books.mapped j small
    · rw [update_of_ne here]
      exact books.mapped j small
  have step := bookStep acted
  generalize r.effect i op = later at step
  cases step with
  | quiet op answered entry | start side before entry | save entry | lower op entry
  | unrecord op owes entry => exact quiet (by rw [entry])
  | delete op owes turn sessions entry gone =>
    intro j small
    have mapped : r.sessions (r.token i) = some i :=
      (books.mapped i place).mpr (books.unpaid _ owes)
    dsimp only
    rw [gone mapped]
    by_cases here : j = i
    · subst here
      rw [update_self, update_self, entry]
      exact ⟨nofun, nofun⟩
    · rw [update_of_ne here, ← books.mapped j small]
      by_cases same : r.token j = r.token i
      · -- The entry was the torn-down session's own.
        rw [same, update_self, mapped]
        exact ⟨nofun, fun other => absurd (Option.some.inj other).symm here⟩
      · rw [update_of_ne same]

theorem Exact.torn_act (orderly : Orderly ⟨r, before ++ .on i op :: after⟩ (.on i op)) :
    (s.released = true ∨ 0 < s.entry.deleted → s.entry.saved = 1) ∧ s.tally.unstarted = 0 := by
  have saved : (r.objects i).entry.saved = 1 → s.entry.saved = 1 := by
    intro one
    have step := bookStep acted
    generalize r.effect i op = later at step
    cases step with
    | save entry =>
      -- A save is due once.
      have none : (r.objects i).entry.saved = 0 := books.unpaid .save Nat.one_pos
      omega
    | quiet op answered entry | start side before entry | delete op owes turn sessions entry gone
    | lower op entry | unrecord op owes entry => rw [entry, one]
  have claimed : tearsDown r (.on i op) = some i → (r.objects i).started ∧
      (r.objects i).entry.saved = 1 := by
    intro tears
    obtain ⟨started, idle⟩ := orderly.1 i tears
    exact ⟨started, books.kept.saved_eq_one started idle⟩
  rcases act_claims acted with ⟨released, unstarted⟩ | ⟨⟨byEnd, rfl⟩, free, unstarted⟩
  · refine ⟨?_, by rw [unstarted]; exact books.onTime i⟩
    rintro (now | now)
    · exact saved (books.torn i (.inl (released ▸ now)))
    · have step := bookStep acted
      generalize r.effect i op = later at step
      have old : s.entry.deleted = (r.objects i).entry.deleted → s.entry.saved = 1 := fun same =>
        saved (books.torn i (.inr (same ▸ now)))
      cases step with
      | quiet op answered entry | start side before entry | save entry | lower op entry
      | unrecord op owes entry => exact old (by rw [entry])
      | delete op owes turn sessions entry gone =>
        rcases turn with rfl | ⟨started, byEnd, rfl⟩
        · exact saved (claimed rfl).2
        · have released := books.kept.fits i (.releaseDelete started byEnd) (by simp)
          exact saved (books.torn i (.inl released))
  · obtain ⟨started, one⟩ := claimed (by simp [tearsDown, free])
    refine ⟨fun _ => saved one, ?_⟩
    rw [unstarted, books.onTime i, started]
    rfl

theorem Exact.unrecorded_act : (r.objects i).entry.unrecorded ≤ s.entry.unrecorded := by
  have step := bookStep acted
  generalize r.effect i op = later at step
  cases step with
  | unrecord op owes entry =>
    rw [entry]
    exact Nat.le_succ _
  | quiet op answered entry | start side before entry | save entry
  | delete op owes turn sessions entry gone | lower op entry => rw [entry]

theorem Exact.registry_act :
    (r.effect i op).registry token ↔ ∃ j < r.created, r.token j = token ∧
      (update r.objects i s j).entry.saved = 1 ∧
      (update r.objects i s j).entry.unrecorded = 0 := by
  have place : i < r.created := books.kept.placed i op (by simp)
  have quiet : s.entry.saved = (r.objects i).entry.saved →
      s.entry.unrecorded = (r.objects i).entry.unrecorded →
      (r.registry token = true ↔ ∃ j < r.created, r.token j = token ∧
        (update r.objects i s j).entry.saved = 1 ∧
        (update r.objects i s j).entry.unrecorded = 0) := by
    intro saved unrecorded
    rw [books.registry token]
    refine exists_congr fun j => and_congr_right fun _ => and_congr_right fun _ => ?_
    by_cases here : j = i
    · rw [here, update_self, saved, unrecorded]
    · rw [update_of_ne here]
  have step := bookStep acted
  generalize r.effect i op = later at step
  cases step with
  | quiet op answered entry | start side before entry | delete op owes turn sessions entry gone
  | lower op entry => exact quiet (by rw [entry]) (by rw [entry])
  | save entry =>
    have unsaved : (r.objects i).entry.saved = 0 := books.unpaid .save Nat.one_pos
    -- A session that is not saved is not torn down, so its record is not deleted.
    have kept : (r.objects i).entry.unrecorded = 0 := by
      have order := books.kept.unrecorded_le i
      by_contra some
      have torn := books.torn i (.inr (by omega))
      omega
    dsimp only
    by_cases same : token = r.token i
    · subst same
      rw [update_self]
      refine ⟨fun _ => ⟨i, place, rfl, ?_⟩, fun _ => rfl⟩
      rw [update_self, entry]
      exact ⟨by rw [unsaved], kept⟩
    · rw [update_of_ne same, books.registry token]
      refine exists_congr fun j => and_congr_right fun _ => and_congr_right fun here => ?_
      have other : j ≠ i := fun eq => same (by rw [← here, eq])
      rw [update_of_ne other]
  | unrecord op owes entry =>
    have recorded : (r.objects i).entry.unrecorded = 0 := books.unpaid _ owes
    dsimp only
    by_cases same : token = r.token i
    · subst same
      rw [update_self]
      refine ⟨nofun, ?_⟩
      rintro ⟨j, small, token, -, unrecorded⟩
      by_cases here : j = i
      · rw [here, update_self, entry] at unrecorded
        cases unrecorded
      · rw [update_of_ne here] at unrecorded
        exact absurd (books.unique j small i place token unrecorded recorded) here
    · rw [update_of_ne same, books.registry token]
      refine exists_congr fun j => and_congr_right fun _ => and_congr_right fun here => ?_
      have other : j ≠ i := fun eq => same (by rw [← here, eq])
      rw [update_of_ne other]

theorem Exact.act (orderly : Orderly ⟨r, before ++ .on i op :: after⟩ (.on i op)) :
    Exact ((r.effect i op).put i s) (before ++ rest.map (.on i) ++ after) := by
  have place : i < r.created := books.kept.placed i op (by simp)
  obtain ⟨objects, tokens, created, -⟩ := r.effect_keeps i op
  have entry : ∀ j, ((r.effect i op).put i s).objects j = update r.objects i s j := by
    intro j
    show update (r.effect i op).objects i s j = _
    rw [objects]
  obtain ⟨torn, onTime⟩ := books.torn_act acted orderly
  refine ⟨books.kept.act acted, ?_, ?_, ?_, ?_, ?_, ?_⟩
  · intro j small
    rw [entry]
    show (r.effect i op).sessions ((r.effect i op).token j) = some j ↔ _
    rw [tokens]
    exact books.mapped_act acted j (created ▸ small)
  · intro j small
    have within : j < r.created := created ▸ small
    rw [entry]
    by_cases here : j = i
    · subst here
      rw [update_self]
      have grows := act_grows acted
      rcases books.opening j within with started | ⟨side, waiting⟩
      · exact .inl (grows.started started)
      · simp only [List.mem_append, List.mem_cons, Task.on.injEq, true_and] at waiting
        rcases waiting with old | rfl | old
        · exact .inr ⟨side, by simp [old]⟩
        · exact .inl (act_setSide (books.kept.sound j) acted)
        · exact .inr ⟨side, by simp [old]⟩
    · rw [update_of_ne here]
      refine (books.opening j within).imp_right fun ⟨side, waiting⟩ => ⟨side, ?_⟩
      simp only [List.append_assoc, List.mem_append, List.mem_cons, Task.on.injEq, here, false_and,
        false_or] at waiting ⊢
      exact waiting.imp_right .inr
  · intro j
    rw [entry]
    by_cases here : j = i
    · rw [here, update_self]
      exact torn
    · rw [update_of_ne here]
      exact books.torn j
  · intro j
    rw [entry]
    by_cases here : j = i
    · rw [here, update_self]
      exact onTime
    · rw [update_of_ne here]
      exact books.onTime j
  · have earlier : ∀ j, (update r.objects i s j).entry.unrecorded = 0 →
        (r.objects j).entry.unrecorded = 0 := by
      intro j none
      by_cases here : j = i
      · rw [here, update_self] at none
        have grown := books.unrecorded_act acted
        rw [here]
        omega
      · rwa [update_of_ne here] at none
    intro j small k small' same
    rw [entry, entry]
    have same : r.token j = r.token k := tokens ▸ same
    exact fun first second => books.unique j (created ▸ small) k (created ▸ small') same
      (earlier j first) (earlier k second)
  · intro token
    show (r.effect i op).registry token = true ↔ ∃ j < (r.effect i op).created,
      (r.effect i op).token j = token ∧ _
    rw [books.registry_act acted, created, tokens]
    refine exists_congr fun j => and_congr_right fun _ => and_congr_right fun _ => ?_
    rw [entry]

end Act

theorem Exact.run (books : Exact r (before ++ task :: after)) (ran : r.exec task = some (r', next))
    (orderly : Orderly ⟨r, before ++ task :: after⟩ task) : Exact r' (before ++ next ++ after) := by
  have kept := books.kept.run ran
  rcases exec_cases ran with ⟨token, i, op, found, call, rfl, rfl, kind⟩ |
    ⟨token, side, missing, called, rfl, rfl⟩ | ⟨call, rfl, rfl⟩
    | ⟨i, op, s, rest, rfl, acted, rfl, rfl⟩
  · exact books.replace kept call
  · refine books.store missing called (orderly.2 token ?_)
    rw [called]
    simp [opens, missing]
  · exact books.replace kept call
  · exact books.act acted orderly

theorem exact_of_reached [Inhabited Token] {w : World Token} (reached : Reached Orderly w) :
    Exact w.shared w.tasks :=
  reached.invariant exact_new (fun _ _ _ call books => books.begin call)
    fun _ _ _ _ _ _ ran orderly books => books.run ran orderly

/-! ## At rest -/

omit [DecidableEq Token] in
/-- At rest a pipe owes its whole teardown or none of it. -/
theorem owed_at_rest (rest : ∀ task ∈ tasks, task.relays)
    (teardown : account = .lower ∨ account = .record) :
    owed (Task.weight account i) tasks = owed (Task.weight .delete i) tasks := by
  refine congrArg List.sum (List.map_congr_left fun task here => ?_)
  have relays := rest task here
  cases task with
  | on j op =>
    rw [Task.weight, Task.weight]
    split
    · rcases teardown with rfl | rfl <;> cases op <;> first | rfl | cases relays
    · rfl
  | _ => rfl

omit [DecidableEq Token] in
/-- At rest a session is started and saved; it counts, and has its record, exactly while
it is in the map. -/
theorem Exact.at_rest (books : Exact r tasks) (rest : ∀ task ∈ tasks, task.relays)
    (small : i < r.created) :
    (r.objects i).entry.saved = 1 ∧
      (r.objects i).entry.unrecorded = (r.objects i).entry.deleted ∧
      (r.objects i).entry.counted = if (r.objects i).entry.deleted = 0 then 1 else 0 := by
  have started : (r.objects i).started := by
    rcases books.opening i small with started | ⟨side, waiting⟩
    · exact started
    · cases rest _ waiting
  have saved : (r.objects i).entry.saved = 1 :=
    books.kept.saved_eq_one started fun saving => nomatch rest _ saving
  have delete := books.kept.balance .delete i
  have record := books.kept.balance .record i
  have lower := books.kept.balance .lower i
  have onTime := books.onTime i
  have once := books.kept.paid_le_one .delete i
  rw [owed_at_rest rest (.inr rfl)] at record
  rw [owed_at_rest rest (.inl rfl)] at lower
  simp only [paid, Session.due] at delete record lower once
  refine ⟨saved, ?_, ?_⟩
  · show (r.objects i).tally.unrecorded = (r.objects i).tally.deleted
    omega
  · show ((r.objects i).started.toNat : Int) - (r.objects i).tally.lowered
      = if (r.objects i).tally.deleted = 0 then 1 else 0
    rw [started, Bool.toNat_true]
    split <;> omega

/-- The relay's count and registry are exact at rest, in every run that keeps registrations
and teardowns apart. -/
theorem counts_exact_at_rest [Inhabited Token] (w : World Token) (reached : Reached Orderly w)
    (rest : AtRest w) :
    w.shared.count = {i | ∃ token, w.shared.sessions token = some i}.ncard ∧
      ∀ token, w.shared.registry token = true ↔ (w.shared.sessions token).isSome = true := by
  have books := exact_of_reached reached
  have inMap : {i | ∃ token, w.shared.sessions token = some i} = held w.shared := by
    ext i
    simp only [Set.mem_ofPred_eq, held, coe_filter, mem_range]
    constructor
    · rintro ⟨token, here⟩
      obtain ⟨small, rfl⟩ := books.kept.mapped token i here
      exact ⟨small, here⟩
    · exact fun ⟨_, here⟩ => ⟨_, here⟩
  refine ⟨?_, fun token => ?_⟩
  · rw [inMap, Set.ncard_coe_finset, counted_of_reached reached, held, card_filter, Nat.cast_sum]
    refine sum_congr rfl fun i here => ?_
    have small := mem_range.mp here
    rw [(books.at_rest rest small).2.2]
    simp only [books.mapped i small]
    split <;> rfl
  · rw [books.registry token, Option.isSome_iff_exists]
    constructor
    · rintro ⟨i, small, rfl, -, unrecorded⟩
      rw [(books.at_rest rest small).2.1] at unrecorded
      exact ⟨i, (books.mapped i small).mpr unrecorded⟩
    · rintro ⟨i, here⟩
      obtain ⟨small, rfl⟩ := books.kept.mapped token i here
      obtain ⟨saved, same, -⟩ := books.at_rest rest small
      exact ⟨i, small, rfl, saved, same.trans ((books.mapped i small).mp here)⟩

/-- A session that pairs, beside one that was released. -/
theorem counts_exact_at_rest_two :
    ∃ w : World Nat, w.shared.count = 1 ∧ w.shared.registry 8 = false ∧
      w.shared.count = {i | ∃ token, w.shared.sessions token = some i}.ncard := by
  obtain ⟨w, reached, rest, count, registry⟩ : ∃ w : World Nat, Reached Orderly w ∧ AtRest w ∧
      w.shared.count = 1 ∧ w.shared.registry 8 = false :=
    exists_reached_of_follow [.begin (.register 7 .agent), .run 0, .run 0, .run 0, .run 0,
      .begin (.register 7 .browser), .run 0, .run 0, .run 0, .run 0,
      .begin (.register 8 .agent), .run 3, .run 3, .run 3, .run 3,
      .begin (.unregister 8), .run 3, .run 3, .run 3, .run 3, .run 3, .run 3, .run 3, .run 3]
      (by decide) (by decide +kernel)
  exact ⟨w, count, registry, (counts_exact_at_rest w reached rest).1⟩

/-- An `Unregister` releases a session between its storing and its start.  All calls have
returned and the map is empty; the count is one and the registry holds a record. -/
theorem count_without_session :
    ∃ w : World Nat, Reached (fun _ _ => True) w ∧ AtRest w ∧ w.shared.count = 1 ∧
      {i | ∃ token, w.shared.sessions token = some i}.ncard = 0 ∧ w.shared.registry 7 = true ∧
      w.shared.sessions 7 = none := by
  obtain ⟨w, reached, rest, count, missing, registry, created, token⟩ : ∃ w : World Nat,
      Reached (fun _ _ => True) w ∧ AtRest w ∧ w.shared.count = 1 ∧ w.shared.sessions 7 = none ∧
      w.shared.registry 7 ∧ w.shared.created = 1 ∧ w.shared.token 0 = 7 :=
    exists_reached_of_follow
      [.begin (.register 7 .agent), .run 0, .begin (.unregister 7), .run 1, .run 1, .run 1, .run 1,
        .run 1, .run 1, .run 1, .run 1, .run 0, .run 0, .run 0] (by decide) (by decide +kernel)
  have empty : {i | ∃ token, w.shared.sessions token = some i} = ∅ := by
    refine Set.eq_empty_iff_forall_notMem.mpr fun i ⟨t, here⟩ => ?_
    obtain ⟨small, own⟩ := (kept_of_reached reached).mapped t i here
    obtain rfl : i = 0 := by omega
    rw [← own, token, missing] at here
    cases here
  exact ⟨w, reached, rest, count, by rw [empty, Set.ncard_empty], registry, missing⟩

end OpenGate.Relay
