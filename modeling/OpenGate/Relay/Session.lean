import OpenGate.Lib.Tasks

/-!
# The relay

`relay/relay.go` of the server: a session object per token, the two sides that register
on it, the pipe that starts when both are there, and the two ways out, the pipe's own
teardown and `release`.

Every section under a session's lock, every operation on the session map, the counters,
the registry and the pipe's context is one atomic step.  A step is given in two halves:
what it does to the session object and what is left to do (`Session.act`), and what it
does to the rest of the relay (`Relay.effect`).  A call is the chain of its steps, and
calls interleave.

Connections are outside: a copy loop may stop at any time, so closing a connection
changes nothing here.  Registry writes succeed.
-/

namespace OpenGate.Relay

open OpenGate.Lib

inductive Side where
  | agent
  | browser
  deriving DecidableEq, Repr

structure Tally where
  pipes : Nat
  /-- Times it was claimed for release, and of these before it was started. -/
  releases : Nat
  unstarted : Nat
  saved : Nat
  deleted : Nat
  lowered : Nat
  unrecorded : Nat
  notified : Nat
  /-- Calls of `end`, and of these the ones that closed the done channel. -/
  ended : Nat
  closed : Nat
  deriving DecidableEq

structure Session where
  agent : Bool
  browser : Bool
  ready : Bool
  endOnce : Bool
  started : Bool
  piping : Bool
  released : Bool
  endReason : String
  cancelled : Bool
  /-- Whether the channels of the pipe's copy loops are closed. -/
  agentToBrowser : Bool
  browserToAgent : Bool
  tally : Tally
  deriving DecidableEq

/-- What is left of a call on one session object.  A `release` knows whether it is
`End`'s. -/
inductive Op where
  /-- `Register` on the object: the section of `setSide` and `markStarted`, the registry
  record, `startPipeIfReady`. -/
  | setSide (side : Side)
  | saveSession
  | startPipeIfReady
  | mark (reason : String)
  | stop
  /-- `release`: the locked section, then what undoes the registration. -/
  | release (byEnd : Bool)
  | releaseDelete (started byEnd : Bool)
  | releaseCount (started byEnd : Bool)
  | releaseRegistry (byEnd : Bool)
  | releaseNotify (byEnd : Bool)
  | releaseClose (byEnd : Bool)
  | releaseEnd (byEnd : Bool)
  /-- `pipe`: the copy loops are started, then one of three channels wakes it. -/
  | pipe
  | copyAgent
  | copyBrowser
  | copyBrowserClose
  | pipeSelect
  | pipeCancel
  | pipeDelete
  | pipeCount
  | pipeRegistry
  | pipeNotify
  | pipeClose
  | pipeWait
  | pipeEnd
  deriving DecidableEq

namespace Session

def new : Session :=
  ⟨false, false, false, false, false, false, false, "", false, false, false,
    ⟨0, 0, 0, 0, 0, 0, 0, 0, 0, 0⟩⟩

def has (s : Session) : Side → Bool
  | .agent => s.agent
  | .browser => s.browser

def setSide (s : Session) : Side → Session
  | .agent => { s with agent := true }
  | .browser => { s with browser := true }

/-- `startPipeIfReady` starts the pipe. -/
def pairs (s : Session) : Bool := !(s.piping || s.released || !s.agent || !s.browser)

/-- `end`: the first call closes the done channel. -/
def finish (s : Session) : Session :=
  { s with
    endOnce := true
    tally := { s.tally with
      ended := s.tally.ended + 1
      closed := if s.endOnce then s.tally.closed else s.tally.closed + 1 } }

/-- One step on the object: the object after it and what is left to do, or none while the
step has to wait. -/
def act (s : Session) : Op → Option (Session × List Op)
  | .setSide side =>
    -- `ErrDuplicateSide`
    if s.has side then some (s, [])
    else if s.started then some (s.setSide side, [.startPipeIfReady])
    else some ({ s.setSide side with started := true }, [.saveSession])
  | .saveSession =>
    some ({ s with tally := { s.tally with saved := s.tally.saved + 1 } }, [.startPipeIfReady])
  | .startPipeIfReady =>
    if s.pairs then
      some ({ s with
        piping := true
        ready := true
        tally := { s.tally with pipes := s.tally.pipes + 1 } }, [.pipe])
    else some (s, [])
  | .mark reason =>
    if s.released || s.endReason ≠ "" then some (s, [])
    else some ({ s with endReason := reason }, [if s.piping then .stop else .release true])
  | .stop => some ({ s with cancelled := true }, [])
  | .release byEnd =>
    if s.piping || s.released then some (s, [])
    else some ({ s with
        released := true
        tally := { s.tally with
          releases := s.tally.releases + 1
          unstarted := s.tally.unstarted + (!s.started).toNat } },
      [.releaseDelete s.started byEnd])
  | .releaseDelete started byEnd =>
    some ({ s with tally := { s.tally with deleted := s.tally.deleted + 1 } },
      [.releaseCount started byEnd])
  | .releaseCount started byEnd =>
    some ({ s with tally := { s.tally with lowered := s.tally.lowered + started.toNat } },
      [.releaseRegistry byEnd])
  | .releaseRegistry byEnd =>
    some ({ s with tally := { s.tally with unrecorded := s.tally.unrecorded + 1 } },
      [.releaseNotify byEnd])
  | .releaseNotify byEnd =>
    some ({ s with tally := { s.tally with notified := s.tally.notified + 1 } },
      [.releaseClose byEnd])
  | .releaseClose byEnd => some (s, [.releaseEnd byEnd])
  | .releaseEnd _ => some (s.finish, [])
  | .pipe => some (s, [.copyAgent, .copyBrowser, .pipeSelect])
  | .copyAgent => some ({ s with agentToBrowser := true }, [])
  | .copyBrowser => some (s, [.copyBrowserClose])
  | .copyBrowserClose => some ({ s with browserToAgent := true }, [])
  | .pipeSelect =>
    if s.cancelled || s.agentToBrowser || s.browserToAgent then some (s, [.pipeCancel]) else none
  | .pipeCancel => some ({ s with cancelled := true }, [.pipeDelete])
  | .pipeDelete =>
    some ({ s with tally := { s.tally with deleted := s.tally.deleted + 1 } }, [.pipeCount])
  | .pipeCount =>
    some ({ s with tally := { s.tally with lowered := s.tally.lowered + 1 } }, [.pipeRegistry])
  | .pipeRegistry =>
    some ({ s with tally := { s.tally with unrecorded := s.tally.unrecorded + 1 } }, [.pipeNotify])
  | .pipeNotify =>
    some ({ s with tally := { s.tally with notified := s.tally.notified + 1 } }, [.pipeClose])
  | .pipeClose => some (s, [.pipeWait])
  | .pipeWait => if s.agentToBrowser && s.browserToAgent then some (s, [.pipeEnd]) else none
  | .pipeEnd => some (s.finish, [])

end Session

/-- What is left of a call: a call of the interface that has not looked up its token, or
what it does on the object it found. -/
inductive Task (Token : Type) where
  | register (token : Token) (side : Side)
  | endSession (token : Token) (reason : String)
  | unregister (token : Token)
  | on (object : Nat) (op : Op)
  deriving DecidableEq

variable {Token : Type}

def Task.isCall : Task Token → Bool
  | on _ _ => false
  | _ => true

/-- A step of a pipe that has not begun its teardown. -/
def Task.relays : Task Token → Bool
  | .on _ .pipe | .on _ .copyAgent | .on _ .copyBrowser | .on _ .copyBrowserClose
  | .on _ .pipeSelect => true
  | _ => false

end OpenGate.Relay

namespace OpenGate

open Lib Relay

structure Relay (Token : Type) where
  sessions : Token → Option Nat
  objects : Nat → Session
  token : Nat → Token
  created : Nat
  count : Int
  started : Nat
  registry : Token → Bool
  /-- The objects an `End` has answered true for. -/
  answered : List Nat

namespace Relay

variable {Token : Type}

def new [Inhabited Token] : Relay Token where
  sessions _ := none
  objects _ := .new
  token _ := default
  created := 0
  count := 0
  started := 0
  registry _ := false
  answered := []

variable [DecidableEq Token]

def returns (r : Relay Token) (i : Nat) (byEnd : Bool) : Relay Token :=
  if byEnd then { r with answered := i :: r.answered } else r

def effect (r : Relay Token) (i : Nat) : Op → Relay Token
  | .setSide side =>
    if (r.objects i).has side || (r.objects i).started then r
    else { r with count := r.count + 1, started := r.started + 1 }
  | .saveSession => { r with registry := Function.update r.registry (r.token i) true }
  | .stop => r.returns i true
  | .release byEnd =>
    if (r.objects i).piping || (r.objects i).released then r.returns i byEnd else r
  | .releaseDelete _ _ =>
    -- `CompareAndDelete`
    if r.sessions (r.token i) = some i then
      { r with sessions := Function.update r.sessions (r.token i) none }
    else r
  | .releaseCount started _ => if started then { r with count := r.count - 1 } else r
  | .releaseRegistry _ => { r with registry := Function.update r.registry (r.token i) false }
  | .releaseEnd byEnd => r.returns i byEnd
  | .pipeDelete => { r with sessions := Function.update r.sessions (r.token i) none }
  | .pipeCount => { r with count := r.count - 1 }
  | .pipeRegistry => { r with registry := Function.update r.registry (r.token i) false }
  | _ => r

def put (r : Relay Token) (i : Nat) (s : Session) : Relay Token :=
  { r with objects := Function.update r.objects i s }

def store (r : Relay Token) (token : Token) : Relay Token :=
  { r with
    sessions := Function.update r.sessions token (some r.created)
    objects := Function.update r.objects r.created .new
    token := Function.update r.token r.created token
    created := r.created + 1 }

def exec (r : Relay Token) : Task Token → Option (Relay Token × List (Task Token))
  | .register token side =>
    -- `LoadOrStore`
    match r.sessions token with
    | some i => some (r, [.on i (.setSide side)])
    | none => some (r.store token, [.on r.created (.setSide side)])
  | .endSession token reason =>
    match r.sessions token with
    | some i => some (r, [.on i (.mark reason)])
    | none => some (r, [])
  | .unregister token =>
    match r.sessions token with
    | some i => some (r, [.on i (.release false)])
    | none => some (r, [])
  | .on i op =>
    match (r.objects i).act op with
    | some (s, next) => some ((r.effect i op).put i s, next.map (.on i))
    | none => none

abbrev World (Token : Type) := Pool (Relay Token) (Task Token)

abbrev Reached [Inhabited Token] (guard : World Token → Task Token → Prop) (w : World Token) :
    Prop :=
  PoolReached (fun task => task.isCall = true) exec guard .new w

/-- All calls have returned; pipes relay, or their teardown is over. -/
def AtRest (w : World Token) : Prop := ∀ task ∈ w.tasks, task.relays = true

instance (w : World Token) : Decidable (AtRest w) :=
  inferInstanceAs (Decidable (∀ task ∈ w.tasks, task.relays = true))

/-! ## What a step changes -/

/-- A step of a task: a call that finds an object, one that stores one, one that finds
none, or a step on an object. -/
theorem exec_cases {r r' : Relay Token} {task : Task Token} {next : List (Task Token)}
    (ran : r.exec task = some (r', next)) :
    (∃ token i op, r.sessions token = some i ∧ task.isCall ∧ r' = r ∧ next = [.on i op] ∧
      ((∃ side, op = .setSide side) ∨ (∃ reason, op = .mark reason) ∨ op = .release false)) ∨
    (∃ token side, r.sessions token = none ∧ task = .register token side ∧ r' = r.store token ∧
      next = [.on r.created (.setSide side)]) ∨
    (task.isCall = true ∧ r' = r ∧ next = []) ∨
    ∃ i op s rest, task = .on i op ∧ (r.objects i).act op = some (s, rest) ∧
      r' = (r.effect i op).put i s ∧ next = rest.map (.on i) := by
  cases task with
  | register token side =>
    rw [exec] at ran
    split at ran
    next i found =>
      cases ran
      exact .inl ⟨token, i, _, found, rfl, rfl, rfl, .inl ⟨side, rfl⟩⟩
    next missing =>
      cases ran
      exact .inr (.inl ⟨token, side, missing, rfl, rfl, rfl⟩)
  | endSession token reason =>
    rw [exec] at ran
    split at ran
    next i found =>
      cases ran
      exact .inl ⟨token, i, _, found, rfl, rfl, rfl, .inr (.inl ⟨reason, rfl⟩)⟩
    next missing =>
      cases ran
      exact .inr (.inr (.inl ⟨rfl, rfl, rfl⟩))
  | unregister token =>
    rw [exec] at ran
    split at ran
    next i found =>
      cases ran
      exact .inl ⟨token, i, _, found, rfl, rfl, rfl, .inr (.inr rfl)⟩
    next missing =>
      cases ran
      exact .inr (.inr (.inl ⟨rfl, rfl, rfl⟩))
  | on i op =>
    rw [exec] at ran
    split at ran
    next s rest acted =>
      cases ran
      exact .inr (.inr (.inr ⟨i, op, s, rest, rfl, acted, rfl, rfl⟩))
    · cases ran

end Relay

end OpenGate
