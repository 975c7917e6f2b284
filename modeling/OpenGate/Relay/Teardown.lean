import OpenGate.Relay.Session

/-!
# Who tears a session down

The pipe and `release` both undo a registration, and only one of them may.  What a
teardown has still to do is kept in accounts (`Account`): for each session object, what
was done and what the tasks under way still owe is what its flags make due
(`Kept.balance`).  The flags admit one owner, so everything is due at most once
(`Kept.paid_le_one`).
-/

namespace OpenGate.Relay

open OpenGate.Lib

/-! ## Accounts of one object -/

/-- What is done once to a session, by the registration that starts it and by its
teardown. -/
inductive Account where
  | save
  | delete
  | lower
  | record
  | notify
  | finish
  | agentLoop
  | browserLoop
  deriving DecidableEq

variable {account : Account}

def Session.paid (s : Session) : Account → Nat
  | .save => s.tally.saved
  | .delete => s.tally.deleted
  | .lower => s.tally.lowered + s.tally.unstarted
  | .record => s.tally.unrecorded
  | .notify => s.tally.notified
  | .finish => s.tally.ended
  | .agentLoop => s.agentToBrowser.toNat
  | .browserLoop => s.browserToAgent.toNat

def Session.due (s : Session) : Account → Nat
  | .save => s.started.toNat
  | .agentLoop | .browserLoop => s.piping.toNat
  | _ => s.piping.toNat + s.released.toNat

/-- What a step and the ones after it still do for an account. -/
def Op.owes (account : Account) : Op → Nat
  | .saveSession =>
    match account with
    | .save => 1
    | _ => 0
  | .pipe =>
    match account with
    | .save => 0
    | _ => 1
  | .pipeSelect | .pipeCancel | .pipeDelete =>
    match account with
    | .save | .agentLoop | .browserLoop => 0
    | _ => 1
  | .releaseDelete started _ =>
    match account with
    | .save | .agentLoop | .browserLoop => 0
    | .lower => started.toNat
    | _ => 1
  | .pipeCount =>
    match account with
    | .lower | .record | .notify | .finish => 1
    | _ => 0
  | .releaseCount started _ =>
    match account with
    | .lower => started.toNat
    | .record | .notify | .finish => 1
    | _ => 0
  | .pipeRegistry | .releaseRegistry _ =>
    match account with
    | .record | .notify | .finish => 1
    | _ => 0
  | .pipeNotify | .releaseNotify _ =>
    match account with
    | .notify | .finish => 1
    | _ => 0
  | .pipeClose | .pipeWait | .pipeEnd | .releaseClose _ | .releaseEnd _ =>
    match account with
    | .finish => 1
    | _ => 0
  | .copyAgent =>
    match account with
    | .agentLoop => 1
    | _ => 0
  | .copyBrowser | .copyBrowserClose =>
    match account with
    | .browserLoop => 1
    | _ => 0
  | _ => 0

structure Session.Sound (s : Session) : Prop where
  exclusive : s.piping = true → s.released = false
  pipes : s.tally.pipes = s.piping.toNat
  releases : s.tally.releases = s.released.toNat
  once : s.tally.closed = s.endOnce.toNat
  quiet : s.endOnce = true → s.released = true ∨ s.agentToBrowser = true ∧ s.browserToAgent = true
  sided : s.agent = true ∨ s.browser = true → s.started = true
  piped : s.piping = true → s.agent = true

def Op.Fits (s : Session) : Op → Prop
  | .saveSession | .startPipeIfReady => s.started = true
  | .stop | .pipe | .copyAgent | .copyBrowser | .copyBrowserClose | .pipeSelect | .pipeCancel
  | .pipeDelete | .pipeCount | .pipeRegistry | .pipeNotify | .pipeClose | .pipeWait =>
    s.piping = true
  | .releaseDelete _ _ | .releaseCount _ _ | .releaseRegistry _ | .releaseNotify _
  | .releaseClose _ | .releaseEnd _ => s.released = true
  | .pipeEnd => s.agentToBrowser = true ∧ s.browserToAgent = true
  | _ => True

variable {s s' : Session} {op : Op} {next : List Op}

theorem Session.sound_new : Session.new.Sound :=
  ⟨nofun, rfl, rfl, rfl, nofun, (by decide), nofun⟩

/-- The flags of an object are raised, never lowered. -/
structure Session.Grows (s s' : Session) : Prop where
  started : s.started = true → s'.started = true
  piping : s.piping = true → s'.piping = true
  released : s.released = true → s'.released = true
  cancelled : s.cancelled = true → s'.cancelled = true
  agentToBrowser : s.agentToBrowser = true → s'.agentToBrowser = true
  browserToAgent : s.browserToAgent = true → s'.browserToAgent = true

theorem Session.Grows.refl (s : Session) : s.Grows s := ⟨id, id, id, id, id, id⟩

theorem Op.Fits.grows (fits : op.Fits s) (grows : s.Grows s') : op.Fits s' := by
  cases op <;> first
    | trivial
    | exact grows.started fits
    | exact grows.piping fits
    | exact grows.released fits
    | exact ⟨grows.agentToBrowser fits.1, grows.browserToAgent fits.2⟩

theorem Session.grows_setSide (s : Session) (side : Side) : s.Grows (s.setSide side) := by
  cases side <;> exact ⟨id, id, id, id, id, id⟩

theorem Session.act_grows (acted : s.act op = some (s', next)) : s.Grows s' := by
  cases op with
  | setSide side =>
    rw [act] at acted
    split at acted
    · cases acted
      exact .refl s
    · split at acted <;> cases acted
      · exact s.grows_setSide side
      · cases side <;> exact ⟨fun _ => rfl, id, id, id, id, id⟩
  | startPipeIfReady =>
    rw [act] at acted
    split at acted <;> cases acted
    · exact ⟨id, fun _ => rfl, id, id, id, id⟩
    · exact .refl s
  | mark reason =>
    rw [act] at acted
    split at acted <;> cases acted
    · exact .refl s
    · exact ⟨id, id, id, id, id, id⟩
  | release byEnd =>
    rw [act] at acted
    split at acted <;> cases acted
    · exact .refl s
    · exact ⟨id, id, fun _ => rfl, id, id, id⟩
  | pipeSelect | pipeWait =>
    rw [act] at acted
    split at acted <;> cases acted
    exact .refl s
  | stop | pipeCancel =>
    cases acted
    exact ⟨id, id, id, fun _ => rfl, id, id⟩
  | copyAgent =>
    cases acted
    exact ⟨id, id, id, id, fun _ => rfl, id⟩
  | copyBrowserClose =>
    cases acted
    exact ⟨id, id, id, id, id, fun _ => rfl⟩
  | _ =>
    cases acted
    exact ⟨id, id, id, id, id, id⟩

/-- A step pays what it no longer owes. -/
theorem Session.act_pays (acted : s.act op = some (s', next))
    (owing : s.paid account + op.owes account ≤ s.due account) :
    s'.paid account + owed (Op.owes account) next + s.due account
      = s.paid account + op.owes account + s'.due account := by
  -- The channel of a loop that is owed is open: a loop is due once.
  have opened {closed : Bool} (owing : closed.toNat + 1 ≤ s.piping.toNat) : closed = false := by
    have most := s.piping.toNat_le
    cases closed
    · rfl
    · rw [Bool.toNat_true] at owing
      omega
  cases op with
  | setSide side =>
    rw [act] at acted
    split at acted
    · cases acted
      rfl
    · split at acted
      · cases acted
        cases side <;> cases account <;> simp [setSide, paid, due, Op.owes]
      next unstarted =>
        have first : s.started = false := by simpa using unstarted
        cases acted
        cases side <;> cases account <;> simp [setSide, paid, due, Op.owes, first]
  | startPipeIfReady =>
    rw [act] at acted
    split at acted
    next pairs =>
      cases acted
      have idle : s.piping = false := by
        revert pairs
        cases piping : s.piping <;> simp [Session.pairs, piping]
      cases account <;> simp [paid, due, Op.owes, idle] <;> omega
    · cases acted
      rfl
  | mark reason =>
    rw [act] at acted
    split at acted <;> cases acted
    · rfl
    · split <;> cases account <;> simp [paid, due, Op.owes]
  | release byEnd =>
    rw [act] at acted
    split at acted
    · cases acted
      rfl
    next free =>
      cases acted
      obtain ⟨-, unclaimed⟩ : s.piping = false ∧ s.released = false := by simpa using free
      cases started : s.started <;> cases account <;>
        simp [paid, due, Op.owes, unclaimed] <;> omega
  | copyAgent =>
    cases acted
    cases account with
    | agentLoop => simp [paid, due, Op.owes, opened owing]
    | _ => simp [paid, due, Op.owes]
  | copyBrowserClose =>
    cases acted
    cases account with
    | browserLoop => simp [paid, due, Op.owes, opened owing]
    | _ => simp [paid, due, Op.owes]
  | pipeSelect | pipeWait =>
    rw [act] at acted
    split at acted <;> cases acted
    cases account <;> simp [Op.owes]
  | _ =>
    cases acted
    cases account <;> simp [paid, due, Op.owes, finish] <;> omega

theorem Session.finish_once (once : s.tally.closed = s.endOnce.toNat) :
    s.finish.tally.closed = s.finish.endOnce.toNat := by
  cases done : s.endOnce <;> simp [finish, done, once]

theorem Session.act_sound (sound : s.Sound) (fits : op.Fits s)
    (acted : s.act op = some (s', next)) : s'.Sound := by
  cases op with
  | setSide side =>
    rw [act] at acted
    split at acted
    · cases acted
      exact { sound with }
    · split at acted <;> cases acted
      · cases side
        · exact { sound with sided := fun _ => ‹_›, piped := fun _ => rfl }
        · exact { sound with sided := fun _ => ‹_› }
      · cases side
        · exact { sound with sided := fun _ => rfl, piped := fun _ => rfl }
        · exact { sound with sided := fun _ => rfl }
  | startPipeIfReady =>
    rw [act] at acted
    split at acted
    next pairs =>
      cases acted
      obtain ⟨⟨⟨idle, free⟩, agent⟩, -⟩ :
          ((s.piping = false ∧ s.released = false) ∧ s.agent) ∧ s.browser := by
        simpa [Session.pairs] using pairs
      refine { sound with exclusive := fun _ => free, pipes := ?_, piped := fun _ => agent }
      simp [sound.pipes, idle]
    · cases acted
      exact { sound with }
  | mark reason =>
    rw [act] at acted
    split at acted <;> cases acted <;>
      exact { sound with }
  | release byEnd =>
    rw [act] at acted
    split at acted
    · cases acted
      exact { sound with }
    next free =>
      cases acted
      obtain ⟨idle, unclaimed⟩ : s.piping = false ∧ s.released = false := by simpa using free
      refine { sound with
        exclusive := fun piping => absurd (idle.symm.trans piping) Bool.false_ne_true
        releases := ?_
        quiet := fun _ => .inl rfl }
      simp [sound.releases, unclaimed]
  | pipeSelect | pipeWait =>
    rw [act] at acted
    split at acted <;> cases acted
    exact { sound with }
  | copyAgent =>
    cases acted
    exact { sound with quiet := fun h => (sound.quiet h).imp_right fun both => ⟨rfl, both.2⟩ }
  | copyBrowserClose =>
    cases acted
    exact { sound with quiet := fun h => (sound.quiet h).imp_right fun both => ⟨both.1, rfl⟩ }
  | releaseEnd byEnd =>
    cases acted
    exact { sound with once := finish_once sound.once, quiet := fun _ => .inl fits }
  | pipeEnd =>
    cases acted
    exact { sound with once := finish_once sound.once, quiet := fun _ => .inr fits }
  | _ =>
    cases acted
    exact { sound with }

/-- What a step leaves to do fits the object it leaves. -/
theorem Session.act_fits (fits : op.Fits s) (acted : s.act op = some (s', next)) :
    ∀ later ∈ next, later.Fits s' := by
  have grows := act_grows acted
  cases op with
  | setSide side =>
    rw [act] at acted
    split at acted
    · cases acted
      exact nofun
    · split at acted <;> cases acted <;> simp only [List.mem_singleton, forall_eq]
      · exact grows.started ‹_›
      · rfl
  | startPipeIfReady =>
    rw [act] at acted
    split at acted <;> cases acted
    · simp [Op.Fits]
    · exact nofun
  | mark reason =>
    rw [act] at acted
    split at acted <;> cases acted
    · exact nofun
    · split
      next piping => simpa [Op.Fits] using piping
      · simp [Op.Fits]
  | release byEnd =>
    rw [act] at acted
    split at acted <;> cases acted
    · exact nofun
    · simp [Op.Fits]
  | pipeSelect =>
    rw [act] at acted
    split at acted <;> cases acted
    simpa [Op.Fits] using fits
  | pipeWait =>
    rw [act] at acted
    split at acted <;> cases acted
    next both => simpa [Op.Fits] using both
  | saveSession =>
    cases acted
    simpa [Op.Fits] using fits
  | releaseDelete _ _ | releaseCount _ _ | releaseRegistry _ | releaseNotify _ | releaseClose _
  | pipe | copyBrowser | pipeCancel | pipeDelete | pipeCount | pipeRegistry | pipeNotify
    | pipeClose =>
    cases acted
    simpa [Op.Fits] using fits
  | _ =>
    cases acted
    simp [Op.Fits]

end OpenGate.Relay

namespace OpenGate.Relay

open OpenGate.Lib

variable {Token : Type}

/-! ## The rest of the relay -/

section Effect

variable (r : Relay Token) (i : Nat) (op : Op)

theorem returns_eq (byEnd : Bool) : ∃ answered, r.returns i byEnd = { r with answered } := by
  unfold returns
  split
  · exact ⟨_, rfl⟩
  · exact ⟨r.answered, rfl⟩

variable [DecidableEq Token]

/-- A step on an object leaves the objects to `act`, and takes entries out of the session map
at most. -/
theorem effect_keeps : (r.effect i op).objects = r.objects ∧ (r.effect i op).token = r.token ∧
    (r.effect i op).created = r.created ∧
    ∀ token k, (r.effect i op).sessions token = some k → r.sessions token = some k := by
  have same : ∀ byEnd, (r.returns i byEnd).objects = r.objects ∧
      (r.returns i byEnd).token = r.token ∧
        (r.returns i byEnd).created = r.created ∧
        ∀ token k, (r.returns i byEnd).sessions token = some k → r.sessions token = some k := by
    intro byEnd
    obtain ⟨answered, eq⟩ := r.returns_eq i byEnd
    rw [eq]
    exact ⟨rfl, rfl, rfl, fun _ _ => id⟩
  have removed : ∀ gone token k, Function.update r.sessions gone none token = some k →
      r.sessions token = some k := by
    intro gone token k here
    by_cases same : token = gone
    · subst same
      rw [Function.update_self] at here
      cases here
    · rwa [Function.update_of_ne same] at here
  cases op with
  | stop => exact same true
  | release byEnd =>
    rw [effect]
    split
    · exact same byEnd
    · exact ⟨rfl, rfl, rfl, fun _ _ => id⟩
  | releaseEnd byEnd => exact same byEnd
  | setSide _ | releaseCount _ _ =>
    rw [effect]
    split <;> exact ⟨rfl, rfl, rfl, fun _ _ => id⟩
  | releaseDelete _ _ =>
    rw [effect]
    split
    · exact ⟨rfl, rfl, rfl, removed _⟩
    · exact ⟨rfl, rfl, rfl, fun _ _ => id⟩
  | pipeDelete => exact ⟨rfl, rfl, rfl, removed _⟩
  | _ => exact ⟨rfl, rfl, rfl, fun _ _ => id⟩

end Effect

/-! ## Every object in every world -/

/-- What a task owes on the account of one object. -/
def Task.weight (account : Account) (i : Nat) : Task Token → Nat
  | .on j op => if j = i then op.owes account else 0
  | _ => 0

theorem owed_on (i j : Nat) (ops : List Op) :
    owed (Task.weight account i) (ops.map (Task.on j : Op → Task Token))
      = if j = i then owed (Op.owes account) ops else 0 := by
  induction ops with
  | nil => simp
  | cons op ops ih =>
    rw [List.map_cons, owed_cons, ih, owed_cons, Task.weight]
    split <;> rfl

/-- What holds in every world: of the objects, of the tasks on them, and of the map. -/
structure Kept (r : Relay Token) (tasks : List (Task Token)) : Prop where
  sound : ∀ i, (r.objects i).Sound
  fits : ∀ i op, .on i op ∈ tasks → op.Fits (r.objects i)
  balance : ∀ account i, (r.objects i).paid account + owed (Task.weight account i) tasks
    = (r.objects i).due account
  fresh : ∀ i, r.created ≤ i → r.objects i = .new
  placed : ∀ i op, .on i op ∈ tasks → i < r.created
  mapped : ∀ token i, r.sessions token = some i → i < r.created ∧ r.token i = token

variable {r r' : Relay Token} {tasks before after next : List (Task Token)} {task : Task Token}

theorem kept_new [Inhabited Token] : Kept (Relay.new : Relay Token) [] where
  sound _ := Session.sound_new
  fits _ _ := nofun
  balance account i := by cases account <;> rfl
  fresh _ _ := rfl
  placed _ _ := nofun
  mapped _ _ := nofun

/-- Tasks that owe nothing and are placed may be added. -/
theorem Kept.replace (kept : Kept r (before ++ task :: after))
    (nothing : ∀ account i, task.weight account i = 0)
    (light : ∀ account i, owed (Task.weight account i) next = 0)
    (fits : ∀ i op, .on i op ∈ next → op.Fits (r.objects i) ∧ i < r.created) :
    Kept r (before ++ next ++ after) where
  sound := kept.sound
  fits i op here := by
    rw [List.append_assoc, List.mem_append, List.mem_append] at here
    rcases here with old | new | old
    · exact kept.fits i op (by simp [old])
    · exact (fits i op new).1
    · exact kept.fits i op (by simp [old])
  balance account i := by
    refine owed_run ?_ (kept.balance account i)
    rw [nothing, light]
  fresh := kept.fresh
  placed i op here := by
    rw [List.append_assoc, List.mem_append, List.mem_append] at here
    rcases here with old | new | old
    · exact kept.placed i op (by simp [old])
    · exact (fits i op new).2
    · exact kept.placed i op (by simp [old])
  mapped := kept.mapped

theorem Kept.begin (kept : Kept r tasks) (call : task.isCall) : Kept r (tasks ++ [task]) := by
  have other : ∀ i op, .on i op ∈ tasks ++ [task] → .on i op ∈ tasks := by
    intro i op here
    rcases List.mem_append.mp here with old | new
    · exact old
    · rw [← List.mem_singleton.mp new] at call
      cases call
  refine ⟨kept.sound, fun i op here => kept.fits i op (other i op here), ?_, kept.fresh,
    fun i op here => kept.placed i op (other i op here), kept.mapped⟩
  intro account i
  rw [← kept.balance account i, owed_append]
  cases task with
  | on => cases call
  | _ => rfl

variable [DecidableEq Token]

/-- A new object has no tasks but the one that registers on it. -/
theorem Kept.store (kept : Kept r (before ++ task :: after)) {token : Token} {side : Side}
    (called : task = .register token side) :
    Kept (r.store token) (before ++ [.on r.created (.setSide side)] ++ after) := by
  have other : ∀ i op, .on i op ∈ before ++ [Task.on r.created (.setSide side)] ++ after →
      .on i op ∈ before ++ task :: after ∨ i = r.created ∧ op = .setSide side := by
    intro i op here
    simp only [List.append_assoc, List.mem_append, List.mem_singleton, Task.on.injEq] at here
    rw [List.mem_append, List.mem_cons]
    tauto
  have objects : ∀ i, i < r.created → (r.store token).objects i = r.objects i := fun i small =>
    Function.update_of_ne (by omega) _ _
  have new : (r.store token).objects r.created = .new := Function.update_self ..
  refine ⟨?_, ?_, ?_, ?_, ?_, ?_⟩
  · intro i
    by_cases here : i = r.created
    · rw [here, new]
      exact Session.sound_new
    · show (Function.update r.objects r.created .new i).Sound
      rw [Function.update_of_ne here]
      exact kept.sound i
  · intro i op here
    rcases other i op here with old | ⟨-, rfl⟩
    · rw [objects i (kept.placed i op old)]
      exact kept.fits i op old
    · trivial
  · intro account i
    have same : (r.store token).objects i = r.objects i := by
      by_cases here : i = r.created
      · rw [here, new, kept.fresh r.created (Nat.le_refl _)]
      · exact Function.update_of_ne here _ _
    rw [same]
    refine owed_run ?_ (kept.balance account i)
    rw [called]
    simp [Task.weight, Op.owes]
  · intro i late
    have later : r.created + 1 ≤ i := late
    show Function.update r.objects r.created .new i = _
    rw [Function.update_of_ne (by omega)]
    exact kept.fresh i (by omega)
  · intro i op here
    show i < r.created + 1
    rcases other i op here with old | ⟨rfl, -⟩
    · have := kept.placed i op old
      omega
    · omega
  · intro t i here
    show i < r.created + 1 ∧ Function.update r.token r.created token i = t
    have found : Function.update r.sessions token (some r.created) t = some i := here
    by_cases same : t = token
    · rw [same, Function.update_self] at found
      cases found
      exact ⟨by omega, by rw [Function.update_self, same]⟩
    · rw [Function.update_of_ne same] at found
      obtain ⟨small, old⟩ := kept.mapped t i found
      exact ⟨by omega, by rw [Function.update_of_ne (by omega), old]⟩

theorem Kept.act {i : Nat} {op : Op} {s : Session} {rest : List Op}
    (kept : Kept r (before ++ .on i op :: after))
    (acted : (r.objects i).act op = some (s, rest)) :
    Kept ((r.effect i op).put i s) (before ++ rest.map (.on i) ++ after) := by
  obtain ⟨objects, tokens, created, sessions⟩ := r.effect_keeps i op
  have place : i < r.created := kept.placed i op (by simp)
  have fits : op.Fits (r.objects i) := kept.fits i op (by simp)
  have self : ((r.effect i op).put i s).objects i = s := Function.update_self ..
  have others : ∀ j, j ≠ i → ((r.effect i op).put i s).objects j = r.objects j := by
    intro j differ
    show Function.update (r.effect i op).objects i s j = _
    rw [Function.update_of_ne differ, objects]
  have tasks : ∀ j later, .on j later ∈ before ++ rest.map (.on i) ++ after →
      .on j later ∈ before ++ .on i op :: after ∨ j = i ∧ later ∈ rest := by
    intro j later here
    simp only [List.append_assoc, List.mem_append, List.mem_map, Task.on.injEq] at here
    rw [List.mem_append, List.mem_cons]
    rcases here with old | ⟨x, inside, rfl, rfl⟩ | old
    · exact .inl (.inl old)
    · exact .inr ⟨rfl, inside⟩
    · exact .inl (.inr (.inr old))
  refine ⟨?_, ?_, ?_, ?_, ?_, ?_⟩
  · intro j
    by_cases same : j = i
    · rw [same, self]
      exact Session.act_sound (kept.sound i) fits acted
    · rw [others j same]
      exact kept.sound j
  · intro j later here
    rcases tasks j later here with old | ⟨rfl, new⟩
    · by_cases same : j = i
      · subst same
        rw [self]
        exact (kept.fits j later old).grows (Session.act_grows acted)
      · rw [others j same]
        exact kept.fits j later old
    · rw [self]
      exact Session.act_fits fits acted later new
  · intro account j
    refine owed_run ?_ (kept.balance account j)
    rw [owed_on, Task.weight]
    by_cases same : i = j
    · subst same
      rw [self, if_pos rfl, if_pos rfl]
      have owing := weight_le_owed_middle (Task.weight account i) (.on i op) before after
      rw [Task.weight, if_pos rfl] at owing
      have balance := kept.balance account i
      exact Session.act_pays acted (by omega)
    · rw [others j (Ne.symm same), if_neg same, if_neg same]
  · intro j late
    have late : r.created ≤ j := created ▸ late
    rw [others j (by omega)]
    exact kept.fresh j late
  · intro j later here
    show j < (r.effect i op).created
    rw [created]
    rcases tasks j later here with old | ⟨rfl, -⟩
    · exact kept.placed j later old
    · exact place
  · intro token j here
    show j < (r.effect i op).created ∧ (r.effect i op).token j = token
    rw [created, tokens]
    exact kept.mapped token j (sessions token j here)

/-- Every step keeps what holds of the objects. -/
theorem Kept.run (kept : Kept r (before ++ task :: after)) (ran : r.exec task = some (r', next)) :
    Kept r' (before ++ next ++ after) := by
  have silent : task.isCall → ∀ account i, task.weight account i = 0 := by
    intro call account i
    cases task with
    | on => cases call
    | _ => rfl
  rcases exec_cases ran with ⟨token, i, op, found, call, rfl, rfl, kind⟩ |
    ⟨token, side, -, called, rfl, rfl⟩ | ⟨call, rfl, rfl⟩ | ⟨i, op, s, rest, rfl, acted, rfl, rfl⟩
  · refine kept.replace (silent call) ?_ ?_
    · intro account j
      rcases kind with ⟨_, rfl⟩ | ⟨_, rfl⟩ | rfl <;> simp [Task.weight, Op.owes]
    · intro j later here
      cases List.mem_singleton.mp here
      refine ⟨?_, (kept.mapped token i found).1⟩
      rcases kind with ⟨_, rfl⟩ | ⟨_, rfl⟩ | rfl <;> trivial
  · exact kept.store called
  · exact kept.replace (silent call) (fun _ _ => rfl) nofun
  · exact kept.act acted

theorem kept_of_reached [Inhabited Token] {guard : World Token → Task Token → Prop}
    {w : World Token} (reached : Reached guard w) : Kept w.shared w.tasks :=
  reached.invariant kept_new (fun _ _ _ call kept => kept.begin call)
    fun _ _ _ _ _ _ ran _ kept => kept.run ran

/-! ## One owner -/

omit [DecidableEq Token] in
/-- What the flags of an object make due, they make due once. -/
theorem Kept.due_le_one (kept : Kept r tasks) (account : Account) (i : Nat) :
    (r.objects i).due account ≤ 1 := by
  have exclusive := (kept.sound i).exclusive
  have started := (r.objects i).started.toNat_le
  cases piping : (r.objects i).piping
  · have most := (r.objects i).released.toNat_le
    cases account <;> simp only [Session.due, piping, Bool.toNat_false] <;> omega
  · cases account <;> simp [Session.due, piping, exclusive piping, started]

omit [DecidableEq Token] in
theorem Kept.paid_le_one (kept : Kept r tasks) (account : Account) (i : Nat) :
    (r.objects i).paid account ≤ 1 := by
  have balance := kept.balance account i
  have due := kept.due_le_one account i
  omega

omit [DecidableEq Token] in
/-- Where nothing is owed, no step that owes is under way. -/
theorem Kept.not_mem_of_paid (kept : Kept r tasks) {i : Nat} {op : Op}
    (settled : (r.objects i).due account ≤ (r.objects i).paid account)
    (owes : 0 < op.owes account) : .on i op ∉ tasks := by
  intro here
  have weight := weight_le_owed (Task.weight account i) here
  rw [Task.weight, if_pos rfl] at weight
  have balance := kept.balance account i
  omega

omit [DecidableEq Token] in
/-- A session that is over has no copy loop, running or to come. -/
theorem Kept.no_loops (kept : Kept r tasks) {i : Nat}
    (quiet : (r.objects i).released ∨
      (r.objects i).agentToBrowser ∧ (r.objects i).browserToAgent) :
    .on i .pipe ∉ tasks ∧ .on i .copyAgent ∉ tasks ∧ .on i .copyBrowser ∉ tasks := by
  have most := (r.objects i).piping.toNat_le
  have settled : (r.objects i).due .agentLoop ≤ (r.objects i).paid .agentLoop ∧
      (r.objects i).due .browserLoop ≤ (r.objects i).paid .browserLoop := by
    rcases quiet with released | ⟨agent, browser⟩
    · have idle : (r.objects i).piping = false := by
        cases piping : (r.objects i).piping
        · rfl
        · rw [(kept.sound i).exclusive piping] at released
          cases released
      simp [Session.due, idle]
    · simp only [Session.due, Session.paid, agent, browser, Bool.toNat_true]
      exact ⟨most, most⟩
  refine ⟨kept.not_mem_of_paid settled.1 ?_, kept.not_mem_of_paid settled.1 ?_,
    kept.not_mem_of_paid settled.2 ?_⟩ <;> exact Nat.one_pos

end OpenGate.Relay
