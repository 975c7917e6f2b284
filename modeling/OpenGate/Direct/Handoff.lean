import OpenGate.Direct.Pieces

/-!
# The hand-off

`handoff.rs`: one side's hand-off between relay and link, events in and
instructions out.  A method that mutates the machine and returns instructions
is a function to the new machine and the list.

Byte counts, frame numbers and milliseconds are natural numbers; the counts a
notice carries are the 64-bit words the wire has room for.

Two fields of `Handoff` are not in the source.  `paths` lists every value `path`
has held, since one event can pass through `Holding`, and `leftAt` is the moment
of the call that left the link.  Nothing reads them.
-/

namespace OpenGate.Direct

/-- The bytes one channel may have numbered that the peer has not confirmed. -/
def windowBytes : Nat := 4 * 1024 * 1024

/-- The typing channel's window when each job has a channel of its own. -/
def typingWindowBytes : Nat := 256 * 1024

/-- A receiver confirms this long after the first frame it has not confirmed. -/
def ackDelayMs : Nat := 250

/-- How long a side holding new frames waits for the peer's fall-back notice. -/
def peerFallbackWaitMs : Nat := 10000

/-- How long an attempt may take until both sides have switched. -/
def attemptBudgetMs : Nat := 8000

/-- The numbers the hand-off works to; the defaults are those shipped. -/
structure Config where
  window : Nat
  typingWindow : Nat
  attemptBudgetMs : Nat
  deriving DecidableEq, Repr

def Config.default : Config := ⟨windowBytes, typingWindowBytes, Direct.attemptBudgetMs⟩

/-! ## Channels -/

inductive Channel where
  | typing
  | screen
  | files
  deriving DecidableEq, Repr

/-- A listing page's message after its map header: `\xa4type\xb0FileListResponse`. -/
def listingPageType : Bytes :=
  [0xa4, 0x74, 0x79, 0x70, 0x65, 0xb0, 0x46, 0x69, 0x6c, 0x65, 0x4c, 0x69, 0x73, 0x74,
    0x52, 0x65, 0x73, 0x70, 0x6f, 0x6e, 0x73, 0x65]

/-- Whether a control frame carries a listing page: past the type byte and the
length, a one-byte map header and the page's type. -/
def isListingPage (frame : Bytes) : Bool :=
  match frame.drop 5 with
  | [] => false
  | head :: rest => 0x80 ≤ head && head ≤ 0x8f && listingPageType.isPrefixOf rest

/-- The channel of a frame by its type byte; a listing page is file data. -/
def Channel.of (frame : Bytes) : Channel :=
  match frame with
  | [] => .typing
  | kind :: _ =>
    if kind = frameDesktop then .screen
    else if kind = frameFile then .files
    else if kind = frameControl && isListingPage frame then .files
    else .typing

/-- An array of three, indexed by a channel's position in `Channel::ALL`. -/
structure PerChannel (α : Type) where
  typing : α
  screen : α
  files : α
  deriving DecidableEq, Repr

namespace PerChannel

variable {α β : Type}

def fill (a : α) : PerChannel α := ⟨a, a, a⟩

def get (x : PerChannel α) : Channel → α
  | .typing => x.typing
  | .screen => x.screen
  | .files => x.files

def set (x : PerChannel α) : Channel → α → PerChannel α
  | .typing, a => { x with typing := a }
  | .screen, a => { x with screen := a }
  | .files, a => { x with files := a }

def map (f : α → β) (x : PerChannel α) : PerChannel β := ⟨f x.typing, f x.screen, f x.files⟩

def toList (x : PerChannel α) : List α := [x.typing, x.screen, x.files]

def sum (x : PerChannel Nat) : Nat := x.typing + x.screen + x.files

@[ext] theorem ext {x y : PerChannel α} (same : ∀ c, x.get c = y.get c) : x = y := by
  cases x
  cases y
  have t := same .typing
  have s := same .screen
  have f := same .files
  simp only [get] at t s f
  rw [t, s, f]

variable (x : PerChannel α) (a : α) (c : Channel)

@[simp] theorem get_fill : (fill a).get c = a := by cases c <;> rfl

@[simp] theorem get_map (f : α → β) (x : PerChannel α) (c : Channel) :
    (x.map f).get c = f (x.get c) := by cases c <;> rfl

@[simp] theorem get_set_self (a : α) : (x.set c a).get c = a := by
  cases c <;> rfl

theorem get_set_ne {c c' : Channel} (ne : c' ≠ c) : (x.set c a).get c' = x.get c' := by
  cases c <;> cases c' <;> first | rfl | exact (ne rfl).elim

theorem get_set (c' : Channel) (a : α) : (x.set c a).get c' = if c' = c then a else x.get c' := by
  split
  next same => rw [same, get_set_self]
  next ne => exact get_set_ne x a ne

/-- What a new value of one channel does not change. -/
theorem get_set_congr {f : α → β} {a : α} (same : f a = f (x.get c)) (c' : Channel) :
    f ((x.set c a).get c') = f (x.get c') := by
  rw [get_set]
  split
  next is => rw [is, same]
  · rfl

end PerChannel

/-! ## Vocabulary -/

/-- How the link's channels carry a session: one for every frame, or one a job. -/
inductive Layout where
  | shared
  | separate
  deriving DecidableEq, Repr

/-- Where new frames go: to the relay, to the link, nowhere while holding, nowhere at all. -/
inductive Path where
  | relay
  | link
  | holding
  | ended
  deriving DecidableEq, Repr

/-- Why a side gave up the link. -/
inductive LeaveReason where
  | silence
  | closed
  | channelError
  | budget
  | reassembly
  | overflow
  | peerFellBack
  deriving DecidableEq, Repr

/-- What becomes of the attempt, as it is reported once. -/
inductive Outcome where
  | direct
  | noRoute
  | dropped
  deriving DecidableEq, Repr

/-- What the machine tells its owner to do. -/
inductive Instruction where
  | relay (frame : Bytes)
  | link (channel : Channel) (piece : Bytes)
  | deliver (frame : Bytes)
  | signal (msg : ControlMessage)
  | closeLink
  | end
  | outcome (outcome : Outcome)
  | left (reason : LeaveReason)
  | confirmed (bytes : Nat)
  deriving DecidableEq, Repr

/-- What this side sent on one channel and the peer has not yet confirmed. -/
structure Sending where
  nextNumber : Nat
  kept : List (Nat × Bytes)
  unconfirmed : Nat
  deriving DecidableEq, Repr

/-- What came on one channel: what is held until the peer switches, and what is counted. -/
structure Receiving where
  held : List Bytes
  heldBytes : Nat
  reassembler : Reassembler
  delivered : Nat
  unackedBytes : Nat
  deriving DecidableEq, Repr

def Sending.new : Sending := ⟨1, [], 0⟩

def Receiving.new : Receiving := ⟨[], 0, .new, 0, 0⟩

abbrev Counts := PerChannel UInt64

structure Handoff where
  config : Config
  path : Path
  layout : Layout
  attempted : Bool
  switched : Bool
  leftLink : Bool
  direct : Bool
  budgetDeadline : Option Nat
  holdingDeadline : Option Nat
  sending : PerChannel Sending
  receiving : PerChannel Receiving
  peerSwitched : Bool
  peerFallback : Option Counts
  firstUnacked : Option Nat
  paths : List Path
  leftAt : Option Nat
  deriving DecidableEq, Repr

namespace Handoff

def new (config : Config) : Handoff where
  config := config
  path := .relay
  layout := .shared
  attempted := false
  switched := false
  leftLink := false
  direct := false
  budgetDeadline := none
  holdingDeadline := none
  sending := .fill .new
  receiving := .fill .new
  peerSwitched := false
  peerFallback := none
  firstUnacked := none
  paths := [.relay]
  leftAt := none

/-- Every change of the path goes through here, so that `paths` has them all. -/
def setPath (h : Handoff) (path : Path) : Handoff :=
  { h with path := path, paths := h.paths ++ [path] }

def delivered (h : Handoff) : Nat := (h.receiving.map Receiving.delivered).sum

def kept (h : Handoff) : Nat := (h.sending.map fun s => s.kept.length).sum

/-- The channel whose numbers and window a frame uses: with one channel, `typing`. -/
def slot (h : Handoff) (channel : Channel) : Channel :=
  match h.layout with
  | .separate => channel
  | .shared => .typing

def window (h : Handoff) (slot : Channel) : Nat :=
  if slot = .typing ∧ h.layout = .separate then h.config.typingWindow else h.config.window

/-- Whether a frame would be taken now; on the link, while the window has room. -/
def canTake (h : Handoff) (channel : Channel) : Bool :=
  match h.path with
  | .relay => true
  | .link => (h.sending.get (h.slot channel)).unconfirmed < h.window (h.slot channel)
  | .holding | .ended => false

/-- The earliest moment `tick` has work to do. -/
def nextDeadline (h : Handoff) : Option Nat :=
  [h.budgetDeadline, h.holdingDeadline, h.firstUnacked.map (· + ackDelayMs)].reduceOption.min?

/-- The most a side holds ahead of the peer's switch notice. -/
def heldLimit (h : Handoff) : Nat :=
  2 * h.config.window + h.config.typingWindow + maxLinkFrame

/-- The counts a notice carries, in the wire's words. -/
def deliveredEach (h : Handoff) : Counts :=
  h.receiving.map fun r => UInt64.ofNat r.delivered

def heldBytes (h : Handoff) : Nat := (h.receiving.map Receiving.heldBytes).sum

def beginAttempt (h : Handoff) (now : Nat) : Handoff :=
  if h.attempted then h
  else { h with attempted := true, budgetDeadline := some (now + h.config.attemptBudgetMs) }

/-- Both sides have switched: the attempt is over, and that is reported once. -/
def noteDirect (h : Handoff) : Handoff × List Instruction :=
  if h.switched && h.peerSwitched && !h.direct then
    ({ h with direct := true, budgetDeadline := none }, [.outcome .direct])
  else (h, [])

end Handoff

def pieces (channel : Channel) (frame : Bytes) : List Instruction :=
  (split frame).map (.link channel)

/-- The next number is the frame's, and it is kept until it is confirmed. -/
def Sending.take (s : Sending) (frame : Bytes) : Sending where
  nextNumber := s.nextNumber + 1
  kept := s.kept ++ [(s.nextNumber, frame)]
  unconfirmed := s.unconfirmed + frame.length

/-- Drops the frames at the front of `kept` numbered up to `received`, and
returns their bytes. -/
def Sending.confirmUpTo (s : Sending) (received : Nat) : Sending × Nat :=
  let bytes := ((s.kept.takeWhile fun k => k.1 ≤ received).map fun k => k.2.length).sum
  ({ s with
      kept := s.kept.dropWhile fun k => k.1 ≤ received
      unconfirmed := s.unconfirmed - bytes }, bytes)

/-- The kept frames that the peer does not have. -/
def Sending.above (s : Sending) (received : Nat) : List Bytes :=
  (s.kept.filter fun k => received < k.1).map Prod.snd

/-- What draining `kept` leaves. -/
def Sending.drained (s : Sending) : Sending := { s with kept := [], unconfirmed := 0 }

def Receiving.acked (r : Receiving) : Receiving := { r with unackedBytes := 0 }

def Receiving.count (r : Receiving) (frame : Bytes) : Receiving :=
  { r with delivered := r.delivered + 1, unackedBytes := r.unackedBytes + frame.length }

def Receiving.dropped (r : Receiving) : Receiving :=
  { r with held := [], heldBytes := 0, reassembler := .new, unackedBytes := 0 }

def Receiving.hold (r : Receiving) (frame : Bytes) : Receiving :=
  { r with heldBytes := r.heldBytes + frame.length, held := r.held ++ [frame] }

namespace Handoff

variable [WireCodec]

def switchFrame : Bytes := encode .directSwitch

def fallbackFrame (received : Counts) : Bytes :=
  encode (.directFallback received.typing received.screen received.files)

def ackFrame (received : Counts) : Bytes :=
  encode (.directAck received.typing received.screen received.files)

/-- The link is up: tell the peer by the relay, and send on the link from here on. -/
def linkOpen (h : Handoff) (_now : Nat) (layout : Layout) : Handoff × List Instruction :=
  if h.switched || h.leftLink || h.path != .relay then (h, [])
  else
    let h := { h with switched := true, layout := layout }.setPath .link
    let (h, out) := h.noteDirect
    (h, .relay switchFrame :: out)

/-- A frame of the session.  Nothing is asked of `canTake` here; the owner asks it. -/
def send (h : Handoff) (frame : Bytes) (_now : Nat) : Handoff × List Instruction :=
  match h.path with
  | .relay => (h, [.relay frame])
  | .link =>
    let slot := h.slot (Channel.of frame)
    ({ h with sending := h.sending.set slot ((h.sending.get slot).take frame) }, pieces slot frame)
  | .holding | .ended => (h, [])

/-- Confirms everything delivered, with one notice for the three channels. -/
def confirm (h : Handoff) : Handoff × List Instruction :=
  let h := { h with receiving := h.receiving.map Receiving.acked, firstUnacked := none }
  if h.leftLink then (h, []) else (h, pieces .typing (ackFrame h.deliveredEach))

/-- A quarter of the window unconfirmed is confirmed at once. -/
def deliverLink (h : Handoff) (slot : Channel) (frame : Bytes) (now : Nat) :
    Handoff × List Instruction :=
  let ackAt := h.window slot / 4
  let r := (h.receiving.get slot).count frame
  let h := { h with
    receiving := h.receiving.set slot r
    firstUnacked := h.firstUnacked.or (some now) }
  if ackAt ≤ r.unackedBytes then
    let (h, ack) := h.confirm
    (h, .deliver frame :: ack)
  else (h, [.deliver frame])

/-- What the peer confirms is kept no longer. -/
def confirmed (h : Handoff) (received : Counts) : Handoff × List Instruction :=
  let typing := h.sending.typing.confirmUpTo received.typing.toNat
  let screen := h.sending.screen.confirmUpTo received.screen.toNat
  let files := h.sending.files.confirmUpTo received.files.toNat
  let total := typing.2 + screen.2 + files.2
  ({ h with sending := ⟨typing.1, screen.1, files.1⟩ }, if total = 0 then []
    else [.confirmed total])

/-- The frames above the peer's counts go by the relay, typing first. -/
def resend (h : Handoff) (received : Counts) : Handoff × List Instruction :=
  let out := h.sending.typing.above received.typing.toNat ++
    h.sending.screen.above received.screen.toNat ++ h.sending.files.above received.files.toNat
  ({ h with sending := h.sending.map Sending.drained, holdingDeadline := none }.setPath .relay,
    out.map .relay)

/-- Leaves the link for good: tells the peer what arrived, and holds new frames until the peer has
said the same, which it may have done already. -/
def leave (h : Handoff) (reason : LeaveReason) (now : Nat) : Handoff × List Instruction :=
  if h.leftLink then (h, [])
  else
    let h := { h with
      leftLink := true
      attempted := true
      budgetDeadline := none
      receiving := h.receiving.map Receiving.dropped
      firstUnacked := none
      leftAt := some now }
    let out : List Instruction :=
      [.closeLink, .relay (fallbackFrame h.deliveredEach),
        .outcome (if h.direct then .dropped else .noRoute), .left reason]
    let h := if h.path = .link then
        { h with holdingDeadline := some (now + peerFallbackWaitMs) }.setPath .holding
      else h
    match h.peerFallback with
    | some received =>
      if h.path = .holding then
        let (h, more) := h.resend received
        (h, out ++ more)
      else (h, out)
    | none => (h, out)

def releaseHeld (slot : Channel) (now : Nat) :
    List Bytes → Handoff → Handoff × List Instruction
  | [], h => (h, [])
  | frame :: held, h =>
    let r := { h.receiving.get slot with held := held }
    let h := { h with receiving := h.receiving.set slot r }
    let (h, out) := h.deliverLink slot frame now
    let (h, more) := releaseHeld slot now held h
    (h, out ++ more)

def releaseSlot (h : Handoff) (slot : Channel) (now : Nat) : Handoff × List Instruction :=
  let r := { h.receiving.get slot with heldBytes := 0 }
  releaseHeld slot now r.held { h with receiving := h.receiving.set slot r }

/-- The peer's switch notice releases what was held for it. -/
def notePeerSwitched (h : Handoff) (now : Nat) : Handoff × List Instruction :=
  if h.peerSwitched || h.leftLink then (h, [])
  else
    let (h, out) := { h with peerSwitched := true }.noteDirect
    let (h, typing) := h.releaseSlot .typing now
    let (h, screen) := h.releaseSlot .screen now
    let (h, files) := h.releaseSlot .files now
    (h, out ++ typing ++ screen ++ files)

/-- The peer's fall-back notice makes this side leave too, or answers its own. -/
def peerFellBack (h : Handoff) (received : Counts) (now : Nat) : Handoff × List Instruction :=
  let h := { h with peerFallback := some received }
  if !h.leftLink then h.leave .peerFellBack now
  else if h.path = .holding then h.resend received
  else (h, [])

/-- The switch and the fall-back notice move the machine, link set-up is handed on as such, and the
rest is the session's. -/
def fromRelay (h : Handoff) (frame : Bytes) (now : Nat) : Handoff × List Instruction :=
  match controlOf frame with
  | some .directSwitch => h.notePeerSwitched now
  | some (.directFallback received receivedScreen receivedFiles) =>
    h.peerFellBack ⟨received, receivedScreen, receivedFiles⟩ now
  | some msg => if isLinkSetup msg then (h, [.signal msg]) else (h, [.deliver frame])
  | none => (h, [.deliver frame])

/-- Holds a frame that arrived ahead of the peer's switch notice. -/
def hold (h : Handoff) (slot : Channel) (frame : Bytes) : Handoff :=
  { h with receiving := h.receiving.set slot ((h.receiving.get slot).hold frame) }

/-- On the link only a confirmation is for the machine. -/
def linkFrame (h : Handoff) (slot : Channel) (frame : Bytes) (now : Nat) :
    Handoff × List Instruction :=
  match controlOf frame with
  | some (.directAck received receivedScreen receivedFiles) =>
    h.confirmed ⟨received, receivedScreen, receivedFiles⟩
  | _ =>
    if !h.peerSwitched then
      let h := h.hold slot frame
      if h.heldLimit < h.heldBytes then h.leave .overflow now else (h, [])
    else h.deliverLink slot frame now

/-- A frame that makes this side leave is the last one taken. -/
def linkFrames (slot : Channel) (now : Nat) : List Bytes → Handoff → Handoff × List Instruction
  | [], h => (h, [])
  | frame :: frames, h =>
    let (h, out) := h.linkFrame slot frame now
    if h.leftLink then (h, out)
    else
      let (h, more) := linkFrames slot now frames h
      (h, out ++ more)

def fromLink (h : Handoff) (channel : Channel) (piece : Bytes) (now : Nat) :
    Handoff × List Instruction :=
  if h.leftLink then (h, [])
  else
    let r := h.receiving.get channel
    let (reassembler, result) := r.reassembler.push piece
    let h := { h with receiving := h.receiving.set channel { r with reassembler := reassembler } }
    match result with
    | .ok frames => linkFrames channel now frames h
    | .error _ => h.leave .reassembly now

/-- This side's link failed, went silent, closed or errored. -/
def linkLost (h : Handoff) (reason : LeaveReason) (now : Nat) : Handoff × List Instruction :=
  h.leave reason now

def tickAck (h : Handoff) (now : Nat) : Handoff × List Instruction :=
  if h.firstUnacked.any fun t => t + ackDelayMs ≤ now then h.confirm else (h, [])

def tickBudget (h : Handoff) (now : Nat) : Handoff × List Instruction :=
  if h.budgetDeadline.any (· ≤ now) then
    let h := { h with budgetDeadline := none }
    if !(h.switched && h.peerSwitched) then h.leave .budget now else (h, [])
  else (h, [])

/-- The peer never said what arrived: the session ends. -/
def tickHolding (h : Handoff) (now : Nat) : Handoff × List Instruction :=
  if h.holdingDeadline.any (· ≤ now) then
    ({ h with holdingDeadline := none }.setPath .ended, [.end])
  else (h, [])

def tick (h : Handoff) (now : Nat) : Handoff × List Instruction :=
  let (h, ack) := h.tickAck now
  let (h, budget) := h.tickBudget now
  let (h, holding) := h.tickHolding now
  (h, ack ++ budget ++ holding)

end Handoff

/-! ## Events and runs -/

/-- The calls an owner makes. -/
inductive Event where
  | beginAttempt (now : Nat)
  | linkOpen (now : Nat) (layout : Layout)
  | send (frame : Bytes) (now : Nat)
  | fromRelay (frame : Bytes) (now : Nat)
  | fromLink (channel : Channel) (piece : Bytes) (now : Nat)
  | linkLost (reason : LeaveReason) (now : Nat)
  | tick (now : Nat)
  deriving DecidableEq, Repr

namespace Handoff

variable [WireCodec]

def event (h : Handoff) : Event → Handoff × List Instruction
  | .beginAttempt now => (h.beginAttempt now, [])
  | .linkOpen now layout => h.linkOpen now layout
  | .send frame now => h.send frame now
  | .fromRelay frame now => h.fromRelay frame now
  | .fromLink channel piece now => h.fromLink channel piece now
  | .linkLost reason now => h.linkLost reason now
  | .tick now => h.tick now

def run (h : Handoff) : List Event → Handoff × List Instruction
  | [] => (h, [])
  | e :: es =>
    let (h, out) := h.event e
    let (h, more) := h.run es
    (h, out ++ more)

theorem run_append (h : Handoff) (es es' : List Event) :
    h.run (es ++ es') =
      (((h.run es).1.run es').1, (h.run es).2 ++ ((h.run es).1.run es').2) := by
  induction es generalizing h with
  | nil => rfl
  | cons e es ih => simp only [List.cons_append, run, ih, List.append_assoc]

end Handoff

end OpenGate.Direct
