import OpenGate.Lib.Tasks

/-!
# Requests that wait for their answer

`agentapi/conn_history.go` and `agentapi/conn_logs.go`: a call opens a channel of one place,
takes the slot of its kind for it, sends its request and waits for the channel or for the end of
its context; the read loop offers an arriving answer to the channel that is in the slot.  The two
kinds of request share the connection, which is a queue each way.

Answers carry no number, so a call that gives up leaves its answer on the way to whoever holds
the slot by then.  `answers_own_request` is the result for runs where a slot is taken only while
no earlier request of its kind is unanswered.
-/

namespace OpenGate.Agents.Requests

open OpenGate.Lib List Option
open Function (update update_of_ne update_self)

variable {Point Entry : Type}

inductive Kind where
  | history
  | logs
  deriving DecidableEq

structure LogFilter where
  level : String
  timeFrom : String
  timeTo : String
  search : String
  offset : Int
  limit : Int
  source : String
  unit : String
  deriving DecidableEq

inductive Query where
  | localHistory (dim : String) (fromTS toTS : Int) (maxPoints : Nat)
  | deviceLogs (filter : LogFilter)
  deriving DecidableEq

inductive Request where
  | requestLocalHistory (dim : String) (fromTS toTS : Int) (maxPoints : Nat)
  | requestDeviceLogs (logLevel timeFrom timeTo search : String) (logOffset logLimit : Nat)
      (source unit : String)
  deriving DecidableEq

inductive Response (Point Entry : Type) where
  | localHistoryResponse (points : List Point) (truncated : Option Bool)
  | deviceLogsResponse (entries : List Entry) (totalCount : Nat) (availableUnits : List String)
  | deviceLogsError (ackError : String)
  deriving DecidableEq

inductive RequestError where
  | capabilityNotAdvertised
  | busy
  | timedOut
  | agent (text : String)
  | send
  | context
  deriving DecidableEq

inductive Result (Point Entry : Type) where
  | history (points : List Point) (truncated : Bool)
  | logs (entries : List Entry) (total : Nat) (units : List String)
  | failed (err : RequestError)
  deriving DecidableEq

def Result.ok : Result Point Entry → Bool
  | .failed _ => false
  | _ => true

def Query.kind : Query → Kind
  | .localHistory .. => .history
  | .deviceLogs _ => .logs

def Request.kind : Request → Kind
  | .requestLocalHistory .. => .history
  | .requestDeviceLogs .. => .logs

def Response.kind : Response Point Entry → Kind
  | .localHistoryResponse .. => .history
  | .deviceLogsResponse .. | .deviceLogsError _ => .logs

def clampNonNegativeUint32 (v : Int) : Nat := min v.toNat (2 ^ 32 - 1)

def Query.message : Query → Request
  | .localHistory dim fromTS toTS maxPoints => .requestLocalHistory dim fromTS toTS maxPoints
  | .deviceLogs filter =>
    .requestDeviceLogs filter.level filter.timeFrom filter.timeTo filter.search
      (clampNonNegativeUint32 filter.offset) (clampNonNegativeUint32 filter.limit) filter.source
      filter.unit

@[simp] theorem Query.kind_message (q : Query) : q.message.kind = q.kind := by
  cases q <;> rfl

/-- What the handlers of the answers make of them. -/
def Response.result : Response Point Entry → Result Point Entry
  | .localHistoryResponse points truncated => .history points (truncated.getD false)
  | .deviceLogsResponse entries totalCount units =>
    .logs entries (max totalCount entries.length) units
  | .deviceLogsError "busy" => .failed .busy
  | .deviceLogsError "timed out" => .failed .timedOut
  | .deviceLogsError ackError => .failed (.agent ackError)

/-- A connection: the two slots, the channel of each call by the call's number, the contexts
that have ended and whether the call then prefers that to an answer it could also take, the
queues with the number of the call each message belongs to, whether the read loop is at work on
a message, and what the calls returned. -/
structure AgentConn (Point Entry : Type) where
  waiter : Kind → Option Nat
  chans : List (Option (Result Point Entry))
  cancelled : List (Nat × Bool)
  toAgent : List (Nat × Request)
  fromAgent : List (Nat × Response Point Entry)
  reading : Bool
  returned : List (Nat × Result Point Entry)

def AgentConn.new : AgentConn Point Entry := ⟨fun _ => none, [], [], [], [], false, []⟩

/-- What a call, the read loop or the agent has still to do; a request can be sent or not. -/
inductive Task (Point Entry : Type) where
  | request (q : Query) (sent : Bool)
  | send (id : Nat) (q : Query) (sent : Bool)
  | wait (id : Nat) (kind : Kind)
  | clear (id : Nat) (kind : Kind) (result : Result Point Entry)
  | cancel (id : Nat) (wins : Bool)
  | answer
  | receive
  | deliver (id : Nat) (response : Response Point Entry)
  | offer (ch : Nat) (result : Result Point Entry)

def requestLocalHistorySync (dim : String) (fromTS toTS : Int) (maxPoints : Nat) (sent : Bool) :
    Task Point Entry :=
  .request (.localHistory dim fromTS toTS maxPoints) sent

def Task.Calls : Task Point Entry → Prop
  | .request .. | .cancel .. | .answer | .receive => True
  | _ => False

/-- One step.  The answer the agent gives to the request with a number is `agent` of the number. -/
def AgentConn.exec (capable : Kind → Bool) (agent : Nat → Response Point Entry)
    (a : AgentConn Point Entry) :
    Task Point Entry → Option (AgentConn Point Entry × List (Task Point Entry))
  | .request q sent =>
    let id := a.chans.length
    let opened := { a with chans := a.chans ++ [none] }
    if !capable q.kind then
      some ({ opened with returned := (id, .failed .capabilityNotAdvertised) :: a.returned }, [])
    else if (a.waiter q.kind).isSome then
      some ({ opened with returned := (id, .failed .busy) :: a.returned }, [])
    else
      some ({ opened with waiter := Function.update a.waiter q.kind (some id) }, [.send id q sent])
  | .send id q sent =>
    if sent then some ({ a with toAgent := a.toAgent ++ [(id, q.message)] }, [.wait id q.kind])
    else some (a, [.clear id q.kind (.failed .send)])
  | .wait id kind =>
    match a.chans[id]?.join, a.cancelled.lookup id with
    | none, none => none
    | some result, none | some result, some false =>
      some ({ a with chans := a.chans.set id none }, [.clear id kind result])
    | _, some _ => some (a, [.clear id kind (.failed .context)])
  | .clear id kind result =>
    some ({ a with
      waiter := Function.update a.waiter kind none
      returned := (id, result) :: a.returned }, [])
  | .cancel id wins => some ({ a with cancelled := (id, wins) :: a.cancelled }, [])
  | .answer =>
    match a.toAgent with
    | [] => none
    | (id, request) :: rest =>
      if (agent id).kind = request.kind then
        some ({ a with toAgent := rest, fromAgent := a.fromAgent ++ [(id, agent id)] }, [])
      else none
  | .receive =>
    match a.reading, a.fromAgent with
    | false, (id, response) :: rest =>
      some ({ a with fromAgent := rest, reading := true }, [.deliver id response])
    | _, _ => none
  | .deliver _ response =>
    match a.waiter response.kind with
    | none => some ({ a with reading := false }, [])
    | some ch => some (a, [.offer ch response.result])
  | .offer ch result =>
    match a.chans[ch]? with
    | some none => some ({ a with chans := a.chans.set ch (some result), reading := false }, [])
    -- The send does not block: a channel that is full keeps what it has.
    | _ => some ({ a with reading := false }, [])

abbrev World (Point Entry : Type) := Pool (AgentConn Point Entry) (Task Point Entry)

abbrev Reached (capable : Kind → Bool) (agent : Nat → Response Point Entry)
    (guard : World Point Entry → Task Point Entry → Prop) : World Point Entry → Prop :=
  PoolReached Task.Calls (AgentConn.exec capable agent) guard AgentConn.new

/-- The kind of an answer that was read and has not been matched with a slot yet. -/
def Task.delivers : Task Point Entry → Option Kind
  | .deliver _ response => some response.kind
  | _ => none

/-- A free slot is taken only while no earlier request of its kind is unanswered. -/
def Unanswered (w : World Point Entry) : Task Point Entry → Prop
  | .request q _ => w.shared.waiter q.kind = none →
      (∀ asked ∈ w.shared.toAgent, asked.2.kind ≠ q.kind) ∧
      (∀ answered ∈ w.shared.fromAgent, answered.2.kind ≠ q.kind) ∧
      ∀ task ∈ w.tasks, task.delivers ≠ some q.kind
  | _ => True

instance (w : World Point Entry) (task : Task Point Entry) : Decidable (Unanswered w task) := by
  unfold Unanswered
  split <;> infer_instance

/-! ## The messages on the way belong to the slot -/

/-- A message of a kind on the way is the holder's, or nobody's. -/
def Awaited (waiter : Kind → Option Nat) (kind : Kind) (id : Nat) : Prop :=
  waiter kind = some id ∨ waiter kind = none

theorem Awaited.update {waiter : Kind → Option Nat} {kind slot : Kind} {id : Nat}
    (was : Awaited waiter kind id) (distinct : kind ≠ slot) (value : Option Nat) :
    Awaited (update waiter slot value) kind id := by
  rwa [Awaited, update_of_ne distinct]

def Task.holds (kind : Kind) : Task Point Entry → Nat
  | .send _ q _ => if q.kind = kind then 1 else 0
  | .wait _ other | .clear _ other _ => if other = kind then 1 else 0
  | _ => 0

def Task.Matches (agent : Nat → Response Point Entry) (waiter : Kind → Option Nat) :
    Task Point Entry → Prop
  | .send id q _ => waiter q.kind = some id
  | .clear id _ result => result.ok = true → result = (agent id).result
  | .deliver id response => response = agent id ∧ Awaited waiter response.kind id
  | .offer ch result => result = (agent ch).result
  | _ => True

/-- What is on the way or was returned belongs to the call it has the number of. -/
structure Sound (agent : Nat → Response Point Entry) (waiter : Kind → Option Nat)
    (a : AgentConn Point Entry) : Prop where
  asked : ∀ m ∈ a.toAgent, Awaited waiter m.2.kind m.1
  answered : ∀ m ∈ a.fromAgent, m.2 = agent m.1 ∧ Awaited waiter m.2.kind m.1
  buffered : ∀ (id : Nat) (result : Result Point Entry), a.chans[id]? = some (some result) →
    result = (agent id).result
  returned : ∀ r ∈ a.returned, r.2.ok = true → r.2 = (agent r.1).result

structure Matched (agent : Nat → Response Point Entry) (a : AgentConn Point Entry)
    (tasks : List (Task Point Entry)) : Prop where
  sound : Sound agent a.waiter a
  matching : ∀ task ∈ tasks, task.Matches agent a.waiter
  held : ∀ kind, owed (Task.holds kind) tasks = (a.waiter kind).isSome.toNat

section Steps

variable {capable : Kind → Bool} {agent : Nat → Response Point Entry} {a a' : AgentConn Point Entry}
  {before after next : List (Task Point Entry)} {task : Task Point Entry}

/-- A step that leaves the slots alone. -/
theorem Matched.run (matched : Matched agent a (before ++ task :: after))
    (waiter : a'.waiter = a.waiter)
    (sound : Sound agent a.waiter a') (left : ∀ other ∈ next, other.Matches agent a.waiter)
    (held : ∀ kind, owed (Task.holds kind) next = task.holds kind) :
    Matched agent a' (before ++ next ++ after) := by
  refine ⟨waiter ▸ sound, ?_, fun kind => ?_⟩
  · rw [waiter]
    exact tasks_run matched.matching (fun _ _ was => was) left
  · have was := matched.held kind
    have step := held kind
    simp only [owed_append, owed_cons] at was ⊢
    rw [waiter]
    omega

section Sound

variable {waiter : Kind → Option Nat}

section

variable (sound : Sound agent waiter a)
include sound

/-- Opening an empty channel. -/
theorem Sound.opened : Sound agent waiter { a with chans := a.chans ++ [none] } := by
  refine { sound with buffered := fun id result here => ?_ }
  rw [List.getElem?_append] at here
  split at here
  · exact sound.buffered id result here
  · have last := mem_singleton.mp (mem_of_getElem? here)
    cases last

theorem Sound.set (ch : Nat) (value : Option (Result Point Entry))
    (own : ∀ result ∈ value, result = (agent ch).result) :
    Sound agent waiter { a with chans := a.chans.set ch value } := by
  refine { sound with buffered := fun id result here => ?_ }
  rw [List.getElem?_set] at here
  split at here
  next same =>
    split at here
    · cases here
      exact same ▸ own result rfl
    · cases here
  · exact sound.buffered id result here

theorem Sound.return (id : Nat) (result : Result Point Entry)
    (own : result.ok → result = (agent id).result) :
    Sound agent waiter { a with returned := (id, result) :: a.returned } :=
  { sound with returned := forall_mem_cons.mpr ⟨own, sound.returned⟩ }

/-- Another holder, of whom the messages on the way still are. -/
theorem Sound.hold {waiter' : Kind → Option Nat}
    (asked : ∀ m ∈ a.toAgent, Awaited waiter m.2.kind m.1 → Awaited waiter' m.2.kind m.1)
    (answered : ∀ m ∈ a.fromAgent, Awaited waiter m.2.kind m.1 → Awaited waiter' m.2.kind m.1) :
    Sound agent waiter' a :=
  { sound with
    asked := fun m here => asked m here (sound.asked m here)
    answered :=
      fun m here => ⟨(sound.answered m here).1, answered m here (sound.answered m here).2⟩ }

end

end Sound

/-- The slot of a kind is taken by a call while nothing of the kind is on the way. -/
theorem Matched.take {q : Query} {sent : Bool}
    (matched : Matched agent a (before ++ .request q sent :: after)) (free : a.waiter q.kind = none)
    (quiet : Unanswered ⟨a, before ++ .request q sent :: after⟩ (.request q sent)) (id : Nat) :
    Matched agent { a with chans := a.chans ++ [none], waiter := update a.waiter q.kind (some id) }
      (before ++ [.send id q sent] ++ after) := by
  obtain ⟨asked, answered, delivered⟩ := quiet free
  have other : ∀ kind ≠ q.kind, update a.waiter q.kind (some id) kind = a.waiter kind :=
    fun kind distinct => update_of_ne distinct _ _
  refine ⟨?_, ?_, fun kind => ?_⟩
  · exact { matched.sound.opened.hold (fun m here was => was.update (asked m here) _)
      fun m here was => was.update (answered m here) _ with }
  · refine tasks_run matched.matching (fun task here was => ?_) fun task here => ?_
    · cases task with
      | send id' q' sent' =>
        have distinct : q'.kind ≠ q.kind := fun same => by
          have taken : a.waiter q'.kind = some id' := was
          rw [same, free] at taken
          cases taken
        exact (other _ distinct).trans was
      | deliver id' response =>
        have distinct : response.kind ≠ q.kind := fun same =>
          delivered (.deliver id' response) (by
            simp only [mem_append, mem_cons] at here ⊢
            tauto) (congrArg some same)
        exact ⟨was.1, was.2.update distinct _⟩
      | request | wait | cancel | answer | receive => trivial
      | clear | offer => exact was
    · rw [mem_singleton.mp here]
      exact update_self ..
  · have was := matched.held kind
    simp only [owed_append, owed_cons, owed_nil, Task.holds] at was ⊢
    by_cases same : q.kind = kind
    · subst same
      rw [free] at was
      rw [if_pos rfl, update_self]
      simp only [isSome_none, Bool.toNat_false, isSome_some, Bool.toNat_true] at was ⊢
      omega
    · rw [if_neg same, other _ (Ne.symm same)]
      omega

/-- The holder of a slot returns. -/
theorem Matched.clear {id : Nat} {kind : Kind} {result : Result Point Entry}
    (matched : Matched agent a (before ++ .clear id kind result :: after)) :
    Matched agent
      { a with waiter := update a.waiter kind none, returned := (id, result) :: a.returned }
      (before ++ [] ++ after) := by
  have own := matched.matching (.clear id kind result) (by simp)
  have awaited : ∀ (other : Kind) (id' : Nat), Awaited a.waiter other id' →
      Awaited (update a.waiter kind none) other id' := by
    intro other id' was
    by_cases same : other = kind
    · exact .inr (same ▸ update_self ..)
    · exact was.update same none
  -- The slot is held once, so no other call is about to send a request of the kind.
  have alone : ∀ other ∈ before ++ after, other.holds kind = 0 := by
    intro other here
    have weighs := weight_le_owed (Task.holds kind) here
    have was := matched.held kind
    have one : (a.waiter kind).isSome.toNat ≤ 1 := Bool.toNat_le _
    have self : (Task.clear id kind result).holds kind = 1 := if_pos rfl
    simp only [owed_append, owed_cons, self] at was weighs
    omega
  refine ⟨?_, ?_, fun other => ?_⟩
  · exact { (matched.sound.return _ _ own).hold (fun m _ was => awaited _ _ was) fun m _ was =>
      awaited _ _ was with }
  · refine tasks_run matched.matching (fun task here was => ?_) (forall_mem_nil _)
    cases task with
    | send id' q sent =>
      have distinct : q.kind ≠ kind := fun same => by
        have none : (if q.kind = kind then 1 else 0) = 0 := alone _ here
        rw [if_pos same] at none
        cases none
      exact (update_of_ne distinct _ _).trans was
    | deliver id' response => exact ⟨was.1, awaited _ _ was.2⟩
    | request | wait | cancel | answer | receive => trivial
    | clear | offer => exact was
  · have was := matched.held other
    simp only [owed_append, owed_cons, owed_nil, Task.holds] at was ⊢
    by_cases same : kind = other
    · subst same
      have one : (a.waiter kind).isSome.toNat ≤ 1 := Bool.toNat_le _
      rw [update_self]
      rw [if_pos rfl] at was
      simp only [isSome_none, Bool.toNat_false]
      omega
    · rw [update_of_ne (Ne.symm same)]
      rw [if_neg same] at was
      omega

theorem exec_matched (ran : a.exec capable agent task = some (a', next))
    (quiet : Unanswered ⟨a, before ++ task :: after⟩ task)
    (matched : Matched agent a (before ++ task :: after)) :
    Matched agent a' (before ++ next ++ after) := by
  have own := matched.matching task (by simp)
  have sound := matched.sound
  have nothing := forall_mem_nil fun other : Task Point Entry => other.Matches agent a.waiter
  cases task with
  | request q sent =>
    rw [AgentConn.exec] at ran
    split at ran
    · cases ran
      exact matched.run rfl { sound.opened.return _ (.failed .capabilityNotAdvertised) nofun with }
        nothing fun _ => rfl
    · split at ran
      · cases ran
        exact matched.run rfl { sound.opened.return _ (.failed .busy) nofun with } nothing fun _ =>
          rfl
      next free =>
        cases ran
        exact matched.take (not_isSome_iff_eq_none.mp free) quiet _
  | send id q sent =>
    cases sent with
    | true =>
      cases ran
      refine matched.run rfl { sound with asked := forall_mem_append.mpr ⟨sound.asked, ?_⟩ }
        (forall_mem_singleton.mpr trivial) fun _ => rfl
      exact forall_mem_singleton.mpr (.inl (q.kind_message ▸ own))
    | false =>
      cases ran
      exact matched.run rfl sound (forall_mem_singleton.mpr nofun) fun _ => rfl
  | wait id kind =>
    have takes : ∀ result, a.chans[id]?.join = some result →
        Matched agent { a with chans := a.chans.set id none }
          (before ++ [.clear id kind result] ++ after) := by
      intro result here
      have answer := sound.buffered id result (join_eq_some_iff.mp here)
      exact matched.run rfl (sound.set id none nofun) (forall_mem_singleton.mpr fun _ => answer)
        fun _ => rfl
    rw [AgentConn.exec] at ran
    split at ran
    · cases ran
    next result here _ =>
      cases ran
      exact takes result here
    next result here _ =>
      cases ran
      exact takes result here
    · cases ran
      exact matched.run rfl sound (forall_mem_singleton.mpr nofun) fun _ => rfl
  | clear id kind result =>
    cases ran
    exact matched.clear
  | cancel id wins =>
    cases ran
    exact matched.run rfl { sound with } nothing fun _ => rfl
  | answer =>
    rw [AgentConn.exec] at ran
    split at ran
    · cases ran
    next id request rest queue =>
      split at ran
      next same =>
        cases ran
        have asked := sound.asked
        rw [queue, forall_mem_cons] at asked
        refine matched.run rfl { sound with asked := asked.2, answered := ?_ } nothing fun _ => rfl
        exact forall_mem_append.mpr ⟨sound.answered, forall_mem_singleton.mpr ⟨rfl, same ▸ asked.1⟩⟩
      · cases ran
  | receive =>
    rw [AgentConn.exec] at ran
    split at ran
    next id response rest _ queue =>
      cases ran
      have answered := sound.answered
      rw [queue, forall_mem_cons] at answered
      exact matched.run rfl { sound with answered := answered.2 }
        (forall_mem_singleton.mpr answered.1) fun _ => rfl
    · cases ran
  | deliver id response =>
    obtain ⟨rfl, awaited⟩ := own
    rw [AgentConn.exec] at ran
    split at ran
    · cases ran
      exact matched.run rfl { sound with } nothing fun _ => rfl
    next ch taken =>
      cases ran
      have holder : ch = id := by
        rcases awaited with own | free
        · exact Option.some.inj (taken.symm.trans own)
        · rw [taken] at free
          cases free
      exact matched.run rfl sound (forall_mem_singleton.mpr (holder ▸ rfl)) fun _ => rfl
  | offer ch result =>
    rw [AgentConn.exec] at ran
    split at ran
    · cases ran
      refine matched.run rfl { sound.set ch (some result) ?_ with } nothing fun _ => rfl
      rintro _ ⟨⟩
      exact own
    · cases ran
      exact matched.run rfl { sound with } nothing fun _ => rfl

/-- A call that returns without an error returns the answer to its own request, in every run
where a slot is taken only while no earlier request of its kind is unanswered. -/
theorem answers_own_request {w : World Point Entry} (reached : Reached capable agent Unanswered w)
    (id : Nat) (result : Result Point Entry) (returned : (id, result) ∈ w.shared.returned)
    (ok : result.ok = true) : result = (agent id).result := by
  have matched : Matched agent w.shared w.tasks := by
    refine PoolReached.invariant (I := Matched agent) ?_ ?_ ?_ reached
    · exact ⟨⟨nofun, nofun, nofun, nofun⟩, nofun, fun _ => rfl⟩
    · rintro a tasks task call ⟨sound, matching, held⟩
      refine ⟨sound, tasks_begin matching ?_, fun kind => ?_⟩
      · cases task <;> cases call <;> trivial
      · rw [owed_append, held kind]
        cases task <;> cases call <;> rfl
    · exact fun a a' before after next task ran quiet matched => exec_matched ran quiet matched
  exact matched.sound.returned (id, result) returned ok

end Steps

/-! ## Two pulls of history, the first of which gives up -/

instance (task : Task Point Entry) : Decidable task.Calls := by
  unfold Task.Calls
  split <;> infer_instance

/-- An agent whose answers can be told apart. -/
def numbered (id : Nat) : Response Nat Nat := .localHistoryResponse [id] none

def pull : Choice (Task Nat Nat) := .begin (requestLocalHistorySync "cpu" 0 60 10 true)

def givenUp : List (Choice (Task Nat Nat)) :=
  [pull, .run 0, .run 0, .begin (.cancel 0 true), .run 1, .run 0, .run 0]

/-- The agent answers one request, and the read loop begins with it, beside so many tasks. -/
def oneAnswer (place : Nat) : List (Choice (Task Nat Nat)) :=
  [.begin .answer, .run place, .begin .receive, .run place, .run place]

/-- The second call takes the slot after the first answer was dropped, or before it arrives. -/
def secondPull (dropped : Bool) : List (Choice (Task Nat Nat)) :=
  givenUp ++ (if dropped then oneAnswer 0 else []) ++ [pull, .run 0, .run 0] ++ oneAnswer 1
    ++ [.run 1, .run 0, .run 0]

/-- What the calls returned, the second one without an error. -/
def returnedPoints (points : List Nat) (w : World Nat Nat) : Bool :=
  w.shared.returned == [(1, .history points false), (0, .failed .context)]

theorem answers_own_request_second :
    ∃ w : World Nat Nat, returnedPoints [1] w = true ∧
      ∃ result, (1, result) ∈ w.shared.returned ∧ result = (numbered 1).result := by
  obtain ⟨w, reached, good⟩ : ∃ w, Reached (fun _ => true) numbered Unanswered w ∧
      returnedPoints [1] w :=
    exists_reached_of_follow (secondPull true) (by decide) (by decide +kernel)
  have returned : (1, .history [1] false) ∈ w.shared.returned := by
    rw [beq_iff_eq.mp good]
    exact mem_cons_self
  exact ⟨w, good, .history [1] false, returned, answers_own_request reached 1 _ returned rfl⟩

/-- The first call gives up while its request is on the way; the second one takes the slot, and
returns the answer to the first. -/
theorem late_answer_to_next_caller :
    ∃ w : World Nat Nat, Reached (fun _ => true) numbered (fun _ _ => True) w ∧
      w.shared.returned = [(1, .history [0] false), (0, .failed .context)] ∧
      (numbered 1).result = .history [1] false := by
  exact exists_reached_of_follow (secondPull false) (by decide) (by decide +kernel)

end OpenGate.Agents.Requests
