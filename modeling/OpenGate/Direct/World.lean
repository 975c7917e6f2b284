import OpenGate.Direct.OneAttempt
import OpenGate.Direct.Direction

/-!
# Two hand-offs, a relay and a link

The system the hand-off is part of: two machines with one configuration, a relay
that carries every frame in order both ways, and a link of three channels each
way that can be cut channel by channel, losing everything in flight and
everything later.  An action is one event of one side, and every instruction it
returns is carried out in order.

The world keeps what no machine does: the frames each side was given to send and
the frames it was told to deliver.
-/

namespace OpenGate.Direct

open Lib List

/-- The two ends of a session. -/
inductive Party where
  | a
  | b
  deriving DecidableEq, Repr

def Party.peer : Party → Party
  | .a => .b
  | .b => .a

@[simp] theorem Party.peer_peer {p : Party} : p.peer.peer = p := by cases p <;> rfl

theorem Party.eq_or_peer (p q : Party) : q = p ∨ q = p.peer := by
  cases p <;> cases q <;> simp [peer]

/-- One value for each end. -/
structure Both (α : Type) where
  a : α
  b : α
  deriving DecidableEq, Repr

namespace Both

variable {α : Type}

def get (x : Both α) : Party → α
  | .a => x.a
  | .b => x.b

def set (x : Both α) : Party → α → Both α
  | .a, v => { x with a := v }
  | .b, v => { x with b := v }

end Both

/-- One side: its machine, the frames it was given to send and told to deliver,
and whether it closed its link. -/
structure Side where
  machine : Handoff
  sent : List Bytes
  delivered : List Bytes
  closed : Bool
  deriving DecidableEq, Repr

/-- The relay and the link are indexed by the side they lead to. -/
structure World where
  side : Both Side
  relay : Both (List Bytes)
  link : Both (PerChannel (List Bytes))
  cut : Both (PerChannel Bool)
  deriving DecidableEq, Repr

namespace World

/-- Both on the relay, and nothing on the way. -/
def new (config : Config) : World where
  side := ⟨⟨.new config, [], [], false⟩, ⟨.new config, [], [], false⟩⟩
  relay := ⟨[], []⟩
  link := ⟨.fill [], .fill []⟩
  cut := ⟨.fill false, .fill false⟩

def machine (w : World) (p : Party) : Handoff := (w.side.get p).machine

def setMachine (w : World) (p : Party) (h : Handoff) : World :=
  { w with side := w.side.set p { w.side.get p with machine := h } }

/-- What an owner does with one instruction.  A piece is lost where the link is cut or closed. -/
def carryOut (w : World) (p : Party) : Instruction → World
  | .relay frame => { w with relay := w.relay.set p.peer (w.relay.get p.peer ++ [frame]) }
  | .link channel piece =>
    if (w.cut.get p.peer).get channel || (w.side.get p).closed then w
    else
      let link := w.link.get p.peer
      { w with link := w.link.set p.peer (link.set channel (link.get channel ++ [piece])) }
  | .deliver frame =>
    let side := w.side.get p
    { w with side := w.side.set p { side with delivered := side.delivered ++ [frame] } }
  | .closeLink => { w with side := w.side.set p { w.side.get p with closed := true } }
  | .signal _ | .end | .outcome _ | .left _ | .confirmed _ => w

def apply (w : World) (p : Party) (out : List Instruction) : World :=
  out.foldl (fun w i => w.carryOut p i) w

/-- Side `p` moves to `h`, and what it says is carried out. -/
def emit (w : World) (p : Party) (h : Handoff) (out : List Instruction) : World :=
  (w.setMachine p h).apply p out

/-- A call at one end, with what it is told to do done at once. -/
def event [WireCodec] (w : World) (p : Party) (e : Event) : World :=
  w.emit p ((w.machine p).event e).1 ((w.machine p).event e).2

/-- What can happen next: a call at one end, the first frame or piece on the way arrives, or the
link is cut on a channel. -/
inductive Action where
  | beginAttempt (p : Party) (now : Nat)
  | linkOpen (p : Party) (now : Nat) (layout : Layout)
  | send (p : Party) (frame : Bytes) (now : Nat)
  | carryRelay (dest : Party) (now : Nat)
  | carryLink (dest : Party) (channel : Channel) (now : Nat)
  | linkLost (p : Party) (reason : LeaveReason) (now : Nat)
  | tick (p : Party) (now : Nat)
  | cut (dest : Party) (channel : Channel)
  deriving DecidableEq, Repr

def noteSent (w : World) (p : Party) (frame : Bytes) : World :=
  let side := w.side.get p
  { w with side := w.side.set p { side with sent := side.sent ++ [frame] } }

def popRelay (w : World) (dest : Party) (more : List Bytes) : World :=
  { w with relay := w.relay.set dest more }

def popLink (w : World) (dest : Party) (channel : Channel) (more : List Bytes) : World :=
  { w with link := w.link.set dest ((w.link.get dest).set channel more) }

/-- One action.  Carrying from an empty queue does nothing. -/
def step [WireCodec] (w : World) : Action → World
  | .beginAttempt p now => w.event p (.beginAttempt now)
  | .linkOpen p now layout => w.event p (.linkOpen now layout)
  | .send p frame now => (w.noteSent p frame).event p (.send frame now)
  | .carryRelay dest now =>
    match w.relay.get dest with
    | [] => w
    | frame :: more => (w.popRelay dest more).event dest (.fromRelay frame now)
  | .carryLink dest channel now =>
    match (w.link.get dest).get channel with
    | [] => w
    | piece :: more => (w.popLink dest channel more).event dest (.fromLink channel piece now)
  | .linkLost p reason now => w.event p (.linkLost reason now)
  | .tick p now => w.event p (.tick now)
  | .cut dest channel =>
    { w with
      link := w.link.set dest ((w.link.get dest).set channel [])
      cut := w.cut.set dest ((w.cut.get dest).set channel true) }

/-- The call an action makes, if it makes one. -/
def eventOf (w : World) : Action → Option (Party × Event)
  | .beginAttempt p now => some (p, .beginAttempt now)
  | .linkOpen p now layout => some (p, .linkOpen now layout)
  | .send p frame now => some (p, .send frame now)
  | .carryRelay dest now => (w.relay.get dest).head?.map fun frame => (dest, .fromRelay frame now)
  | .carryLink dest channel now =>
    ((w.link.get dest).get channel).head?.map fun piece => (dest, .fromLink channel piece now)
  | .linkLost p reason now => some (p, .linkLost reason now)
  | .tick p now => some (p, .tick now)
  | .cut _ _ => none

/-- What an end is told to do by an action. -/
def told [WireCodec] (w : World) (p : Party) (a : Action) : List Instruction :=
  match w.eventOf a with
  | some (q, e) => if q = p then ((w.machine p).event e).2 else []
  | none => []

/-- Whether the sending point may give side `p` the frame: its channel has room,
it is one session frame, and its number fits the 64 bits the source counts in. -/
structure MaySend [WireCodec] (h : Handoff) (frame : Bytes) : Prop where
  room : h.canTake (Channel.of frame) = true
  session : SessionFrame frame
  number : (h.sending.get (h.slot (Channel.of frame))).nextNumber < 2 ^ 64

/-- The actions the system can take: any at any time, but for the sending
point's promise. -/
def Admissible [WireCodec] (w : World) : Action → Prop
  | .send p frame _ => MaySend (w.machine p) frame
  | _ => True

/-- Every interleaving of admissible actions. -/
inductive Reachable [WireCodec] (config : Config) : World → Prop
  | new : Reachable config (new config)
  | step {w : World} {a : Action} : Reachable config w → w.Admissible a →
    Reachable config (w.step a)

/-! ## Carrying out instructions -/

theorem apply_append {w : World} {p : Party} {out more : List Instruction} :
    w.apply p (out ++ more) = (w.apply p out).apply p more :=
  foldl_append

theorem apply_cons {w : World} {p : Party} {i : Instruction} {out : List Instruction} :
    w.apply p (i :: out) = (w.carryOut p i).apply p out := rfl

variable {h : Handoff}

/-- What an owner does and what its machine is do not touch. -/
theorem carryOut_setMachine {w : World} {p : Party} {i : Instruction} :
    (w.setMachine p h).carryOut p i = (w.carryOut p i).setMachine p h := by
  cases i with
  | link c piece =>
    have stops : ((((w.setMachine p h).cut.get p.peer).get c ||
        ((w.setMachine p h).side.get p).closed) : Bool) =
        ((w.cut.get p.peer).get c || (w.side.get p).closed) := by
      cases p <;> rfl
    simp only [carryOut, stops]
    split <;> rfl
  | deliver frame | closeLink => cases p <;> rfl
  | _ => rfl

theorem apply_setMachine {w : World} {p : Party} {out : List Instruction} :
    (w.setMachine p h).apply p out = (w.apply p out).setMachine p h := by
  induction out generalizing w with
  | nil => rfl
  | cons i out ih => rw [apply_cons, carryOut_setMachine, ih, apply_cons]

theorem setMachine_setMachine {w : World} {p : Party} {h h' : Handoff} :
    (w.setMachine p h).setMachine p h' = w.setMachine p h' := by
  cases p <;> rfl

/-- A machine's moves can be carried out one after the other. -/
theorem emit_emit {w : World} {p : Party} {h h' : Handoff} {out more : List Instruction} :
    (w.emit p h out).emit p h' more = w.emit p h' (out ++ more) := by
  unfold emit
  rw [apply_append, ← apply_setMachine, setMachine_setMachine]

theorem machine_apply {w : World} {p q : Party} {out : List Instruction} :
    (w.apply p out).machine q = w.machine q := by
  induction out generalizing w with
  | nil => rfl
  | cons i out ih =>
    rw [apply_cons, ih]
    cases i with
    | link c piece =>
      simp only [carryOut]
      split <;> rfl
    | deliver frame | closeLink => cases p <;> cases q <;> rfl
    | _ => rfl

@[simp] theorem machine_emit_self (w : World) (p : Party) (h : Handoff) (out : List Instruction) :
    (w.emit p h out).machine p = h := by
  rw [emit, machine_apply]
  cases p <;> rfl

/-- The peer's machine changes only by a call there. -/
@[simp] theorem machine_emit_peer {w : World} {p : Party} {out : List Instruction} :
    (w.emit p h out).machine p.peer = w.machine p.peer := by
  rw [emit, machine_apply]
  cases p <;> rfl

theorem emit_self {w : World} {p : Party} : w.emit p (w.machine p) [] = w := by
  cases p <;> rfl

theorem machine_noteSent (w : World) (p q : Party) (frame : Bytes) :
    (w.noteSent p frame).machine q = w.machine q := by
  cases p <;> cases q <;> rfl

variable {w : World} {p : Party} {a : Action} {now : Nat}

/-- A call at one end changes that end's machine alone. -/
theorem machine_event [WireCodec] {w' : World} (same : w'.machine p = w.machine p) (q : Party)
    (e : Event) :
    (w'.event q e).machine p = if q = p then ((w.machine p).event e).1 else w.machine p := by
  rcases q.eq_or_peer p with rfl | rfl
  · rw [if_pos rfl, World.event, machine_emit_self, same]
  · rw [if_neg (by cases q <;> decide), World.event, machine_emit_peer, same]

/-- An action moves a machine by the event it is. -/
theorem machine_step [WireCodec] :
    (w.step a).machine p =
      match w.eventOf a with
      | some (q, e) => if q = p then ((w.machine p).event e).1 else w.machine p
      | none => w.machine p := by
  cases a with
  | beginAttempt q now | linkOpen q now layout | linkLost q reason now | tick q now =>
    exact machine_event rfl q _
  | send q frame now => exact machine_event (machine_noteSent w q p frame) q _
  | carryRelay dest now =>
    simp only [step, eventOf]
    cases w.relay.get dest with
    | nil => rfl
    | cons frame more => exact machine_event rfl dest _
  | carryLink dest channel now =>
    simp only [step, eventOf]
    cases (w.link.get dest).get channel with
    | nil => rfl
    | cons piece more => exact machine_event rfl dest _
  | cut dest channel => rfl

theorem eventOf_tick (is : w.eventOf a = some (p, .tick now)) : a = .tick p now := by
  cases a <;> simp_all [eventOf]

theorem eventOf_send {frame : Bytes} (is : w.eventOf a = some (p, .send frame now)) :
    a = .send p frame now := by
  cases a <;> simp_all [eventOf]

theorem eventOf_linkLost {reason : LeaveReason}
    (is : w.eventOf a = some (p, .linkLost reason now)) : a = .linkLost p reason now := by
  cases a <;> simp_all [eventOf]

/-- Only a piece in flight comes off the link. -/
theorem eventOf_fromLink {c : Channel} {piece : Bytes}
    (is : w.eventOf a = some (p, .fromLink c piece now)) :
    ∃ more, (w.link.get p).get c = piece :: more := by
  cases a with
  | carryLink dest channel now' =>
    simp only [eventOf, Option.map_eq_some_iff, Prod.mk.injEq, Event.fromLink.injEq] at is
    obtain ⟨_, front, rfl, rfl, rfl, -⟩ := is
    exact ⟨_, eq_cons_of_mem_head? (Option.mem_def.mpr front)⟩
  | _ => simp [eventOf] at is

/-! ## The two directions -/

/-- What goes from one end to the other, with what each of them knows of it. -/
def direction (w : World) (p : Party) : Direction where
  sender := (w.machine p).sendView
  receiver := (w.machine p.peer).receiveView
  relay := w.relay.get p.peer
  link := w.link.get p.peer
  cut := w.cut.get p.peer
  sent := (w.side.get p).sent
  delivered := (w.side.get p.peer).delivered

/-- The frames that go by the relay. -/
def relayed (out : List Instruction) : List Bytes :=
  out.filterMap fun
    | .relay frame => some frame
    | _ => none

/-- The frames handed to the session. -/
def delivers (out : List Instruction) : List Bytes :=
  out.filterMap fun
    | .deliver frame => some frame
    | _ => none

variable (i : Instruction) (out : List Instruction)

theorem relayed_cons :
    relayed (i :: out) = relayed [i] ++ relayed out := filterMap_append (l := [i])

theorem delivers_cons :
    delivers (i :: out) = delivers [i] ++ delivers out := filterMap_append (l := [i])

/-- A side that puts nothing on the link. -/
theorem direction_apply_self {out : List Instruction} (noLink : ∀ i ∈ out, i.isLink = false) :
    (w.apply p out).direction p =
      { w.direction p with relay := (w.direction p).relay ++ relayed out } := by
  induction out generalizing w with
  | nil =>
    simp only [relayed, filterMap_nil, append_nil]
    rfl
  | cons i out ih =>
    have one : (w.carryOut p i).direction p =
        { w.direction p with relay := (w.direction p).relay ++ relayed [i] } := by
      cases i with
      | link c piece => exact absurd (noLink _ (mem_cons_self ..)) (by simp [Instruction.isLink])
      | relay frame => cases p <;> rfl
      | deliver frame | closeLink =>
        simp only [relayed, filterMap_cons, filterMap_nil, append_nil]
        cases p <;> rfl
      | _ =>
        simp only [relayed, filterMap_cons, filterMap_nil, append_nil]
        rfl
    rw [apply_cons, ih fun i' inside => noLink i' (mem_cons_of_mem _ inside), one,
      relayed_cons i out, append_assoc]

/-- The other direction only sees what is delivered. -/
theorem direction_apply_peer {out : List Instruction} :
    (w.apply p out).direction p.peer =
      { w.direction p.peer with delivered := (w.direction p.peer).delivered ++ delivers out } := by
  induction out generalizing w with
  | nil =>
    simp only [delivers, filterMap_nil, append_nil]
    rfl
  | cons i out ih =>
    have one : (w.carryOut p i).direction p.peer =
        { w.direction p.peer with
          delivered := (w.direction p.peer).delivered ++ delivers [i] } := by
      cases i with
      | link c piece =>
        simp only [delivers, filterMap_cons, filterMap_nil, append_nil, carryOut]
        split
        · rfl
        · cases p <;> rfl
      | deliver frame => cases p <;> rfl
      | relay frame | closeLink =>
        simp only [delivers, filterMap_cons, filterMap_nil, append_nil]
        cases p <;> rfl
      | _ =>
        simp only [delivers, filterMap_cons, filterMap_nil, append_nil]
        rfl
    rw [apply_cons, ih, one, delivers_cons i out, append_assoc]

end World

end OpenGate.Direct
