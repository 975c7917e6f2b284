import Mathlib

/-!
# Links to one receiver

A receiver that connects again and again to a sender, each connection a queue of messages, and
that keeps the last message it received.  The sender accepts a connection once, holds the one it
accepted last, and releases a connection before it lets go of it; nothing is sent on a released
connection.  The receiver is on the connection it dialed last, until it hangs up.

What the receiver will have applied once the queue of a connection is empty is `shown`, and a
connection is `Live` when the sender holds it, has not released it, and the receiver is on it.
An operation other than an accept `Moves` the links: it makes no connection live and, on the live
ones, shows nothing but what it sends.
-/

namespace OpenGate.Lib

variable {μ : Type}

structure Link (μ : Type) where
  accepted : Bool
  released : Bool
  queue : List μ
  deriving DecidableEq

structure Links (μ : Type) where
  conns : List (Link μ)
  held : Option Nat
  on : Option Nat
  applied : μ
  deriving DecidableEq

namespace Links

def new (applied : μ) : Links μ := ⟨[], none, none, applied⟩

def dial (l : Links μ) (applied : μ) : Links μ :=
  ⟨l.conns ++ [⟨false, false, []⟩], l.held, some l.conns.length, applied⟩

def hangUp (l : Links μ) : Links μ := { l with on := none }

def accept (l : Links μ) (n : Nat) : Option (Links μ) :=
  match l.conns[n]? with
  | some ⟨false, released, queue⟩ =>
    some { l with conns := l.conns.set n ⟨true, released, queue⟩, held := some n }
  | _ => none

def release (l : Links μ) (n : Nat) : Option (Links μ) :=
  match l.conns[n]? with
  | some ⟨true, false, queue⟩ => some { l with conns := l.conns.set n ⟨true, true, queue⟩ }
  | _ => none

/-- The sender lets go of a connection, if it is the one it holds. -/
def forget (l : Links μ) (n : Nat) : Links μ :=
  { l with held := if l.held = some n then none else l.held }

def send (l : Links μ) (n : Nat) (message : μ) : Links μ :=
  match l.conns[n]? with
  | some ⟨accepted, false, queue⟩ =>
    { l with conns := l.conns.set n ⟨accepted, false, queue ++ [message]⟩ }
  | _ => l

/-- The receiver applies the next message of the connection it is on. -/
def receive (l : Links μ) : Option (Links μ) :=
  match l.on with
  | none => none
  | some n =>
    match l.conns[n]? with
    | some ⟨accepted, released, message :: queue⟩ =>
      some { l with conns := l.conns.set n ⟨accepted, released, queue⟩, applied := message }
    | _ => none

def queue (l : Links μ) (n : Nat) : List μ := (l.conns[n]?.map Link.queue).getD []

def shown (l : Links μ) (n : Nat) : μ := (l.queue n).getLastD l.applied

def accepted (l : Links μ) (n : Nat) : Prop := ∃ c ∈ l.conns[n]?, c.accepted = true

instance (l : Links μ) (n : Nat) : Decidable (l.accepted n) :=
  inferInstanceAs (Decidable (∃ c ∈ l.conns[n]?, c.accepted = true))

def released (l : Links μ) (n : Nat) : Prop := ∃ c ∈ l.conns[n]?, c.released = true

structure Live (l : Links μ) (n : Nat) : Prop where
  held : l.held = some n
  on : l.on = some n
  unreleased : ¬ l.released n

/-- What is held was accepted, and nothing was sent or released before it was accepted. -/
structure Sound (l : Links μ) : Prop where
  held : ∀ n, l.held = some n → l.accepted n
  untouched : ∀ (n : Nat) (c : Link μ), l.conns[n]? = some c → c.accepted = false →
    c.queue = [] ∧ c.released = false

theorem sound_new (applied : μ) : (new applied).Sound :=
  ⟨nofun, nofun⟩

/-- What an operation does that may send on one connection and release one. -/
structure Moves (sent gone : Option Nat) (l l' : Links μ) : Prop where
  sound : l.Sound → l'.Sound
  accepted : ∀ n, l.accepted n → l'.accepted n
  held : ∀ n, l'.held = some n → l.held = some n
  released : ∀ n, l'.released n → l.released n ∨ gone = some n
  live : l.Sound → ∀ n, l'.Live n → l.Live n
  shown : l.Sound → ∀ n, l'.Live n → sent ≠ some n → l'.shown n = l.shown n

variable {l l' : Links μ} {n m : Nat} {message applied : μ} {queue : List μ}

theorem Moves.of_eq {sent gone : Option Nat} (same : l' = l) : Moves sent gone l l' := by
  subst same
  exact ⟨id, fun _ known => known, fun _ held => held, fun _ gone => .inl gone, fun _ _ live =>
    live, fun _ _ _ _ => rfl⟩

theorem accepted.lt (known : l.accepted n) : n < l.conns.length := by
  obtain ⟨c, here, -⟩ := known
  exact (List.getElem?_eq_some_iff.mp here).1

/-! ## Connections that are replaced by one with some of its fields changed -/

section Set

variable {c c' : Link μ}

theorem getElem?_set_of_some (here : l.conns[n]? = some c) (c' : Link μ) (m : Nat) :
    (l.conns.set n c')[m]? = if m = n then some c' else l.conns[m]? := by
  have short : n < l.conns.length := (List.getElem?_eq_some_iff.mp here).1
  rw [List.getElem?_set]
  split
  next same =>
    subst same
    rw [if_pos rfl]
  next distinct => rw [if_neg (Ne.symm distinct)]

theorem sound_set (sound : l.Sound) (here : l.conns[n]? = some c)
    (conns : l'.conns = l.conns.set n c')
    (held : ∀ m, l'.held = some m → m = n ∧ c'.accepted ∨ l.held = some m)
    (accepted : c.accepted → c'.accepted)
    (untouched : c'.accepted = false → c'.queue = [] ∧ c'.released = false) : l'.Sound := by
  have found := getElem?_set_of_some here c'
  refine ⟨fun m holds => ?_, fun m other there fresh => ?_⟩
  · rw [Links.accepted, conns, found]
    rcases held m holds with ⟨rfl, taken⟩ | was
    · rw [if_pos rfl]
      exact ⟨c', rfl, taken⟩
    · obtain ⟨other, there, taken⟩ := sound.held m was
      split
      next same =>
        subst same
        cases here.symm.trans there
        exact ⟨c', rfl, accepted taken⟩
      · exact ⟨other, there, taken⟩
  · rw [conns, found] at there
    split at there
    · cases there
      exact untouched fresh
    · exact sound.untouched m other there fresh

theorem queue_set (here : l.conns[n]? = some c) (conns : l'.conns = l.conns.set n c') :
    l'.queue m = if m = n then c'.queue else l.queue m := by
  rw [queue, queue, conns, getElem?_set_of_some here c']
  split <;> rfl

theorem released_set (here : l.conns[n]? = some c) (conns : l'.conns = l.conns.set n c') :
    l'.released m ↔ if m = n then c'.released = true else l.released m := by
  rw [released, released, conns, getElem?_set_of_some here c']
  split
  · simp
  · rfl

theorem accepted_set (here : l.conns[n]? = some c) (conns : l'.conns = l.conns.set n c') :
    l'.accepted m ↔ if m = n then c'.accepted = true else l.accepted m := by
  rw [Links.accepted, Links.accepted, conns, getElem?_set_of_some here c']
  split
  · simp
  · rfl

end Set

/-! ## What each operation does -/

theorem getElem?_dial {c : Link μ} (there : (l.dial applied).conns[m]? = some c) :
    c = ⟨false, false, []⟩ ∨ l.conns[m]? = some c := by
  rw [dial, List.getElem?_append] at there
  split at there
  · exact .inr there
  · exact .inl (List.mem_singleton.mp (List.mem_of_getElem? there))

/-- A connection that was just dialed is not held yet. -/
theorem not_live_dial (sound : l.Sound) : ¬ (l.dial applied).Live n := by
  rintro ⟨held, on, -⟩
  have short := (sound.held n held).lt
  cases on
  exact absurd short (Nat.lt_irrefl _)

theorem moves_dial : Moves none none l (l.dial applied) := by
  have accepted : ∀ m, l.accepted m → (l.dial applied).accepted m := by
    rintro m ⟨c, there, taken⟩
    have short := (List.getElem?_eq_some_iff.mp there).1
    exact ⟨c, (List.getElem?_append_left short).trans there, taken⟩
  refine ⟨fun sound => ⟨fun m holds => accepted m (sound.held m holds), fun m c there fresh => ?_⟩,
    accepted, fun _ held => held, ?_, fun sound _ live => absurd live (not_live_dial sound),
    fun sound _ live => absurd live (not_live_dial sound)⟩
  · rcases getElem?_dial there with rfl | was
    · exact ⟨rfl, rfl⟩
    · exact sound.untouched m c was fresh
  · rintro m ⟨c, there, left⟩
    rcases getElem?_dial there with rfl | was
    · cases left
    · exact .inl ⟨c, was, left⟩

theorem moves_hangUp : Moves none none l l.hangUp := by
  refine ⟨fun sound => ⟨sound.held, sound.untouched⟩, fun _ known => known, fun _ held => held,
    fun _ gone => .inl gone, ?_, ?_⟩
  · rintro - n ⟨-, on, -⟩
    cases on
  · rintro - n ⟨-, on, -⟩
    cases on

section

variable (accepts : l.accept n = some l')
include accepts

theorem accept_cases :
    ∃ c, l.conns[n]? = some c ∧ c.accepted = false ∧
      l' = { l with conns := l.conns.set n { c with accepted := true }, held := some n } := by
  rw [accept] at accepts
  split at accepts
  next released queue here =>
    cases accepts
    exact ⟨_, here, rfl, rfl⟩
  · cases accepts

theorem held_accept : l'.held = some n := by
  obtain ⟨c, -, -, rfl⟩ := accept_cases accepts
  rfl

theorem on_accept : l'.on = l.on := by
  obtain ⟨c, -, -, rfl⟩ := accept_cases accepts
  rfl

theorem applied_accept : l'.applied = l.applied := by
  obtain ⟨c, -, -, rfl⟩ := accept_cases accepts
  rfl

end

theorem accept_sound (sound : l.Sound) (accepts : l.accept n = some l') : l'.Sound := by
  obtain ⟨c, here, -, rfl⟩ := accept_cases accepts
  refine sound_set sound here rfl (fun m holds => .inl ⟨?_, rfl⟩) (fun _ => rfl) nofun
  exact (Option.some.inj holds).symm

/-- After an accept only the connection accepted can be live, and nothing was sent on it. -/
theorem live_accept (sound : l.Sound) (accepts : l.accept n = some l') (live : l'.Live m) :
    m = n ∧ l.on = some m ∧ ¬ l.accepted m ∧ l'.shown m = l.applied := by
  obtain ⟨c, here, fresh, rfl⟩ := accept_cases accepts
  obtain rfl : m = n := Option.some.inj live.held.symm
  refine ⟨rfl, live.on, ?_, ?_⟩
  · rintro ⟨other, there, taken⟩
    cases here.symm.trans there
    cases fresh.symm.trans taken
  · have empty : c.queue = [] := (sound.untouched m c here fresh).1
    rw [shown, queue_set here rfl, if_pos rfl, empty]
    rfl

theorem accepted_accept (accepts : l.accept n = some l') (known : l.accepted m ∨ m = n) :
    l'.accepted m := by
  obtain ⟨c, here, -, rfl⟩ := accept_cases accepts
  rw [accepted_set here rfl]
  split
  · rfl
  next distinct => exact known.resolve_right distinct

theorem not_released_accept (sound : l.Sound) (accepts : l.accept n = some l') :
    ¬ l'.released n := by
  obtain ⟨c, here, fresh, rfl⟩ := accept_cases accepts
  rw [released_set here rfl, if_pos rfl]
  exact Bool.eq_false_iff.mp (sound.untouched n c here fresh).2

section

variable (releases : l.release n = some l')
include releases

theorem release_cases :
    ∃ c, l.conns[n]? = some c ∧ c.accepted ∧ c.released = false ∧
      l' = { l with conns := l.conns.set n { c with released := true } } := by
  rw [release] at releases
  split at releases
  next queue here =>
    cases releases
    exact ⟨_, here, rfl, rfl, rfl⟩
  · cases releases

theorem on_release : l'.on = l.on := by
  obtain ⟨c, -, -, -, rfl⟩ := release_cases releases
  rfl

theorem applied_release : l'.applied = l.applied := by
  obtain ⟨c, -, -, -, rfl⟩ := release_cases releases
  rfl

theorem moves_release : Moves none (some n) l l' := by
  obtain ⟨c, here, taken, -, rfl⟩ := release_cases releases
  refine ⟨fun sound => ?_, fun m known => ?_, fun _ held => held, fun m gone => ?_, fun _ m live =>
    ?_, fun _ m live _ => ?_⟩
  · refine sound_set sound here rfl (fun m holds => .inr holds) id fun fresh => ?_
    exact absurd (taken.symm.trans fresh) nofun
  · rw [accepted_set here rfl]
    split
    · exact taken
    · exact known
  · rw [released_set here rfl] at gone
    split at gone
    next same => exact .inr (congrArg some same.symm)
    · exact .inl gone
  · refine ⟨live.held, live.on, fun gone => live.unreleased ((released_set here rfl).mpr ?_)⟩
    split
    · rfl
    · exact gone
  · have distinct : m ≠ n := by
      rintro rfl
      exact live.unreleased ((released_set here rfl).mpr (by rw [if_pos rfl]))
    rw [shown, shown, queue_set here rfl, if_neg distinct]

end

theorem held_forget (held : (l.forget n).held = some m) : m ≠ n ∧ l.held = some m := by
  rw [forget] at held
  split at held
  · cases held
  next kept => exact ⟨fun same => kept (same ▸ held), held⟩

theorem moves_forget : Moves none none l (l.forget n) :=
  ⟨fun sound => ⟨fun m holds => sound.held m (held_forget holds).2, sound.untouched⟩,
    fun _ known => known, fun _ holds => (held_forget holds).2, fun _ gone => .inl gone,
    fun _ _ live => ⟨(held_forget live.held).2, live.on, live.unreleased⟩, fun _ _ _ _ => rfl⟩

theorem send_cases (l : Links μ) (n : Nat) (message : μ) :
    l.send n message = l ∧ (l.accepted n → l.released n)
      ∨ ∃ c, l.conns[n]? = some c ∧ c.released = false ∧
        l.send n message
        = { l with conns := l.conns.set n { c with queue := c.queue ++ [message] } } := by
  rw [send]
  split
  next accepted queue here => exact .inr ⟨_, here, rfl, rfl⟩
  next others =>
    refine .inl ⟨rfl, ?_⟩
    rintro ⟨⟨accepted, released, queue⟩, here, taken⟩
    cases released with
    | false => exact absurd here (others accepted queue)
    | true => exact ⟨_, here, rfl⟩

/-- A connection of which only the queue changes is accepted, and released, as before. -/
theorem accepted_of_queue {c : Link μ} (here : l.conns[n]? = some c)
    (conns : l'.conns = l.conns.set n { c with queue := queue }) :
    l'.accepted m ↔ l.accepted m := by
  rw [accepted_set here conns]
  split
  next same =>
    subst same
    simp [Links.accepted, here]
  · rfl

theorem released_of_queue {c : Link μ} (here : l.conns[n]? = some c)
    (conns : l'.conns = l.conns.set n { c with queue := queue }) :
    l'.released m ↔ l.released m := by
  rw [released_set here conns]
  split
  next same =>
    subst same
    simp [Links.released, here]
  · rfl

theorem accepted_send : (l.send n message).accepted m ↔ l.accepted m := by
  rcases send_cases l n message with ⟨same, -⟩ | ⟨c, here, -, same⟩
  · rw [same]
  · rw [same]
    exact accepted_of_queue here rfl

theorem on_send : (l.send n message).on = l.on := by
  rcases send_cases l n message with ⟨same, -⟩ | ⟨c, -, -, same⟩ <;> rw [same]

theorem applied_send : (l.send n message).applied = l.applied := by
  rcases send_cases l n message with ⟨same, -⟩ | ⟨c, -, -, same⟩ <;> rw [same]

/-- Sending on a connection that was accepted. -/
theorem moves_send (known : l.accepted n) : Moves (some n) none l (l.send n message) := by
  rcases send_cases l n message with ⟨same, -⟩ | ⟨c, here, -, same⟩
  · exact .of_eq same
  · rw [same]
    refine ⟨fun sound => ?_, fun m => (accepted_of_queue here rfl).mpr, fun _ held => held,
      fun m gone => .inl ((released_of_queue here rfl).mp gone), fun _ m live => ?_,
      fun _ m live distinct => ?_⟩
    · obtain ⟨c', there, taken⟩ := known
      cases here.symm.trans there
      refine sound_set sound here rfl (fun m holds => .inr holds) id fun fresh => ?_
      exact absurd (taken.symm.trans fresh) nofun
    · exact ⟨live.held, live.on,
        fun gone => live.unreleased ((released_of_queue here rfl).mpr gone)⟩
    · rw [shown, shown, queue_set here rfl, if_neg fun same => distinct (congrArg some same.symm)]

theorem shown_send (known : l.accepted n) (live : (l.send n message).Live n) :
    (l.send n message).shown n = message := by
  rcases send_cases l n message with ⟨same, gone⟩ | ⟨c, here, -, same⟩
  · rw [same] at live
    exact absurd (gone known) live.unreleased
  · rw [same, shown, queue_set here rfl, if_pos rfl]
    exact List.getLastD_concat

theorem receive_cases (receives : l.receive = some l') :
    ∃ n c message rest, l.on = some n ∧ l.conns[n]? = some c ∧ c.queue = message :: rest ∧
      l' = { l with conns := l.conns.set n { c with queue := rest }, applied := message } := by
  rw [receive] at receives
  split at receives
  · cases receives
  next n on =>
    split at receives
    next accepted released message queue here =>
      cases receives
      exact ⟨n, _, message, queue, on, here, rfl, rfl⟩
    · cases receives

/-- Receiving a message changes nothing in what a live connection shows. -/
theorem moves_receive (receives : l.receive = some l') : Moves none none l l' := by
  obtain ⟨n, c, message, rest, on, here, queue, rfl⟩ := receive_cases receives
  refine ⟨fun sound => ?_, fun m => (accepted_of_queue here rfl).mpr, fun _ held => held,
    fun m gone => .inl ((released_of_queue here rfl).mp gone), fun _ m live => ?_, fun _ m live _ =>
      ?_⟩
  · refine sound_set sound here rfl (fun m holds => .inr holds) id fun fresh => ?_
    rw [(sound.untouched n c here fresh).1] at queue
    cases queue
  · exact ⟨live.held, live.on, fun gone => live.unreleased ((released_of_queue here rfl).mpr gone)⟩
  · obtain rfl : m = n := Option.some.inj (live.on.symm.trans on)
    have was : l.queue m = message :: rest := by
      rw [Links.queue, here]
      exact queue
    rw [shown, shown, queue_set here rfl, if_pos rfl, was, List.getLastD_cons]

/-- A message arrives only on a connection that was accepted. -/
theorem accepted_of_receive (sound : l.Sound) (receives : l.receive = some l')
    (on : l'.on = some n) : l'.accepted n := by
  obtain ⟨n', c, message, rest, on', here, queue, rfl⟩ := receive_cases receives
  obtain rfl : n = n' := Option.some.inj (on.symm.trans on')
  refine (accepted_of_queue here rfl).mpr ⟨c, here, Bool.of_not_eq_false fun fresh => ?_⟩
  rw [(sound.untouched n c here fresh).1] at queue
  cases queue

end Links

end OpenGate.Lib
