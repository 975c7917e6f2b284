import OpenGate.Web.Pieces

/-!
# The browser's hand-off

`lib/direct/handoff.ts`: the hand-off written a second time, for the browser.
The vocabulary (paths, layouts, reasons, instructions, configuration) is the
host's; the machine is translated on its own.

A `number` is a double.  Everything counted here is an integer, and doubles are
exact on integers below 2^53, so a number is a natural number; `unconfirmed`,
the one that is subtracted from, is an integer, and the confirmation threshold
`window / 4` a rational.
-/

namespace OpenGate.Web

open Direct

/-! ## Channels -/

def isListingPage (frame : Bytes) : Bool :=
  match frame[5]? with
  | none => false
  | some head =>
    if head < 0x80 ∨ 0x8f < head then false
    else listingPageType.zipIdx.all fun entry => frame[6 + entry.2]? == some entry.1

def channelOf (frame : Bytes) : Channel :=
  if frame[0]? = some frameDesktop then .screen
  else if frame[0]? = some frameFile ∨ frame[0]? = some frameControl ∧ isListingPage frame then
    .files
  else .typing

/-! ## Notices -/

abbrev Counts := PerChannel Nat

/-- The per-channel counts a notice carries; an absent count is zero. -/
def counts (received receivedScreen receivedFiles : Option Nat) : Counts :=
  ⟨received.getD 0, receivedScreen.getD 0, receivedFiles.getD 0⟩

/-- One count, left out when it is zero. -/
def wireCount (key : String) (count : Nat) : WireMap :=
  if count = 0 then [] else [(key, .uint (UInt64.ofNat count))]

/-- A notice's counts with each zero left out, as the host's encoder writes them. -/
def wireCounts (each : Counts) : WireMap :=
  wireCount "received" each.typing ++ wireCount "received_screen" each.screen ++
    wireCount "received_files" each.files

section

variable [WireCodec]

def encodeFrame (message : WireMap) : Except String Bytes :=
  let payload := WireCodec.pack message
  if maxFrameSize < payload.length then
    .error
      ("frame payload too large: " ++ toString payload.length ++ " > " ++ toString maxFrameSize)
  else .ok (frameControl :: (toBe32 payload.length ++ payload))

/-- A notice encoded.  The error arm throws in the source; no notice is that
large. -/
def encode (message : WireMap) : Bytes :=
  match encodeFrame message with
  | .ok bytes => bytes
  | .error _ => []

/-- The control message a frame carries, or none for any other frame or one that
does not decode. -/
def controlMessage (frame : Bytes) : Option ControlMessage :=
  if frame[0]? ≠ some frameControl then none else controlOf frame

end

def pieces (channel : Channel) (frame : Bytes) : List Instruction :=
  (split frame).map (.link channel)

/-! ## The machine -/

/-- What this side sent on one channel and the peer has not yet confirmed. -/
structure Sending where
  nextNumber : Nat
  kept : List (Nat × Bytes)
  unconfirmed : Int
  deriving DecidableEq, Repr

structure Receiving where
  held : List Bytes
  heldBytes : Nat
  reassembler : Reassembler
  delivered : Nat
  unackedBytes : Nat
  deriving DecidableEq, Repr

structure Handoff where
  config : Config
  currentPath : Path
  currentLayout : Layout
  hasAttempted : Bool
  switched : Bool
  leftLink : Bool
  direct : Bool
  budgetDeadline : Option Nat
  holdingDeadline : Option Nat
  sending : PerChannel Sending
  receiving : PerChannel Receiving
  peerHasSwitched : Bool
  peerFallback : Option Counts
  firstUnacked : Option Nat
  deriving DecidableEq, Repr

namespace Handoff

def new (config : Config) : Handoff where
  config := config
  currentPath := .relay
  currentLayout := .shared
  hasAttempted := false
  switched := false
  leftLink := false
  direct := false
  budgetDeadline := none
  holdingDeadline := none
  sending := .fill ⟨1, [], 0⟩
  receiving := .fill ⟨[], 0, .new, 0, 0⟩
  peerHasSwitched := false
  peerFallback := none
  firstUnacked := none

/-- This side's link frames the peer has not yet confirmed, on every channel. -/
def kept (h : Handoff) : Nat :=
  (h.sending.toList).foldl (fun sum s => sum + s.kept.length) 0

def laneOf (h : Handoff) (channel : Channel) : Channel :=
  if h.currentLayout = .separate then channel else .typing

def window (h : Handoff) (channel : Channel) : Nat :=
  if channel = .typing ∧ h.currentLayout = .separate then h.config.typingWindow
  else h.config.window

def canTake (h : Handoff) (channel : Channel) : Bool :=
  match h.currentPath with
  | .relay => true
  | .link => (h.sending.get (h.laneOf channel)).unconfirmed < (h.window (h.laneOf channel) : Int)
  | _ => false

/-- The earliest moment `tick` has work to do, or none. -/
def nextDeadline (h : Handoff) : Option Nat :=
  let due := [h.budgetDeadline, h.holdingDeadline,
    match h.firstUnacked with
    | none => none
    | some first => some (first + ackDelayMs)].filterMap id
  match due with
  | [] => none
  | first :: more => some (more.foldl min first)

/-- The most a side holds ahead of the peer's switch notice. -/
def heldLimit (h : Handoff) : Nat :=
  2 * h.config.window + h.config.typingWindow + maxLinkFrame

def deliveredEach (h : Handoff) : Counts := h.receiving.map Receiving.delivered

def beginAttempt (h : Handoff) (now : Nat) : Handoff :=
  if !h.hasAttempted then
    { h with hasAttempted := true, budgetDeadline := some (now + h.config.attemptBudgetMs) }
  else h

def noteDirect (h : Handoff) (out : List Instruction) : Handoff × List Instruction :=
  if h.switched && h.peerHasSwitched && !h.direct then
    ({ h with direct := true, budgetDeadline := none }, out ++ [.outcome .direct])
  else (h, out)

def send (h : Handoff) (frame : Bytes) : Handoff × List Instruction :=
  match h.currentPath with
  | .relay => (h, [.relay frame])
  | .link =>
    let lane := h.laneOf (channelOf frame)
    let sending := h.sending.get lane
    ({ h with
        sending := h.sending.set lane
          { unconfirmed := sending.unconfirmed + frame.length
            kept := sending.kept ++ [(sending.nextNumber, frame)]
            nextNumber := sending.nextNumber + 1 } },
      pieces lane frame)
  | _ => (h, [])

/-- The loop of `confirmed` over one channel's kept frames. -/
def shiftUpTo (upTo : Nat) : List (Nat × Bytes) → Nat → List (Nat × Bytes) × Nat
  | [], bytes => ([], bytes)
  | (n, frame) :: kept, bytes =>
    if n ≤ upTo then shiftUpTo upTo kept (bytes + frame.length) else ((n, frame) :: kept, bytes)

def confirmedOn (sending : Sending) (upTo : Nat) : Sending × Nat :=
  let (kept, bytes) := shiftUpTo upTo sending.kept 0
  ({ sending with kept := kept, unconfirmed := sending.unconfirmed - bytes }, bytes)

def confirmed (h : Handoff) (received : Counts) : Handoff × List Instruction :=
  let (typing, bytes) := confirmedOn h.sending.typing received.typing
  let total := 0 + bytes
  let (screen, bytes) := confirmedOn h.sending.screen received.screen
  let total := total + bytes
  let (files, bytes) := confirmedOn h.sending.files received.files
  let total := total + bytes
  ({ h with sending := ⟨typing, screen, files⟩ }, if total = 0 then [] else [.confirmed total])

/-- One turn of the loop of `resend`: what goes back on the relay. -/
def resendOn (sending : Sending) (upTo : Nat) : List Instruction :=
  sending.kept.flatMap fun (n, frame) => if upTo < n then [.relay frame] else []

def resend (h : Handoff) (received : Counts) : Handoff × List Instruction :=
  ({ h with
      sending := h.sending.map fun s => { s with kept := [], unconfirmed := 0 }
      currentPath := .relay
      holdingDeadline := none },
    resendOn h.sending.typing received.typing ++ resendOn h.sending.screen received.screen ++
      resendOn h.sending.files received.files)

variable [WireCodec]

/-- This side's link is open: its switch notice is its last session frame on the
relay. -/
def linkOpen (h : Handoff) (layout : Layout) : Handoff × List Instruction :=
  if h.switched || h.leftLink then (h, [])
  else
    { h with switched := true, currentLayout := layout, currentPath := .link }.noteDirect
      [.relay (encode [("type", .str "DirectSwitch")])]

def confirm (h : Handoff) : Handoff × List Instruction :=
  let h := { h with
    receiving := h.receiving.map fun r => { r with unackedBytes := 0 }
    firstUnacked := none }
  (h, pieces .typing (encode (("type", .str "DirectAck") :: wireCounts h.deliveredEach)))

def deliverLink (h : Handoff) (channel : Channel) (frame : Bytes) (now : Nat) :
    Handoff × List Instruction :=
  let receiving := h.receiving.get channel
  let receiving := { receiving with
    delivered := receiving.delivered + 1
    unackedBytes := receiving.unackedBytes + frame.length }
  let h := { h with
    receiving := h.receiving.set channel receiving
    firstUnacked := some (h.firstUnacked.getD now) }
  if (h.window channel : ℚ) / 4 ≤ (receiving.unackedBytes : ℚ) then
    let (h, ack) := h.confirm
    (h, .deliver frame :: ack)
  else (h, [.deliver frame])

def leave (h : Handoff) (reason : LeaveReason) (now : Nat) : Handoff × List Instruction :=
  if h.leftLink then (h, [])
  else
    let h := { h with
      leftLink := true
      hasAttempted := true
      budgetDeadline := none
      receiving := h.receiving.map fun r =>
        { r with held := [], heldBytes := 0, reassembler := .new, unackedBytes := 0 }
      firstUnacked := none }
    let out : List Instruction :=
      [.closeLink, .relay (encode (("type", .str "DirectFallback") :: wireCounts h.deliveredEach)),
        .outcome (if h.direct then .dropped else .noRoute), .left reason]
    if h.currentPath = .link then
      let h := { h with
        currentPath := .holding
        holdingDeadline := some (now + peerFallbackWaitMs) }
      match h.peerFallback with
      | some received =>
        let (h, more) := h.resend received
        (h, out ++ more)
      | none => (h, out)
    else (h, out)

/-- The inner loop of `peerSwitched` over one channel's held frames. -/
def releaseHeld (channel : Channel) (now : Nat) :
    List Bytes → Handoff → Handoff × List Instruction
  | [], h => (h, [])
  | frame :: held, h =>
    let (h, out) := h.deliverLink channel frame now
    let (h, more) := releaseHeld channel now held h
    (h, out ++ more)

/-- One turn of the outer loop of `peerSwitched`. -/
def releaseChannel (h : Handoff) (channel : Channel) (now : Nat) : Handoff × List Instruction :=
  let receiving := h.receiving.get channel
  releaseHeld channel now receiving.held { h with
    receiving := h.receiving.set channel { receiving with held := [], heldBytes := 0 } }

def peerSwitched (h : Handoff) (now : Nat) : Handoff × List Instruction :=
  if h.peerHasSwitched || h.leftLink then (h, [])
  else
    let (h, out) := { h with peerHasSwitched := true }.noteDirect []
    let (h, typing) := h.releaseChannel .typing now
    let (h, screen) := h.releaseChannel .screen now
    let (h, files) := h.releaseChannel .files now
    (h, out ++ typing ++ screen ++ files)

def peerFellBack (h : Handoff) (received : Counts) (now : Nat) : Handoff × List Instruction :=
  let h := { h with peerFallback := some received }
  if !h.leftLink then h.leave .peerFellBack now
  else if h.currentPath = .holding then h.resend received
  else (h, [])

def fromRelay (h : Handoff) (frame : Bytes) (now : Nat) : Handoff × List Instruction :=
  match controlMessage frame with
  | some .directSwitch => h.peerSwitched now
  | some (.directFallback received receivedScreen receivedFiles) =>
    h.peerFellBack
      (counts (some received.toNat) (some receivedScreen.toNat) (some receivedFiles.toNat)) now
  | some message => if isLinkSetup message then (h, [.signal message]) else (h, [.deliver frame])
  | none => (h, [.deliver frame])

def linkFrame (h : Handoff) (channel : Channel) (frame : Bytes) (now : Nat) :
    Handoff × List Instruction :=
  match controlMessage frame with
  | some (.directAck received receivedScreen receivedFiles) =>
    h.confirmed
      (counts (some received.toNat) (some receivedScreen.toNat) (some receivedFiles.toNat))
  | _ =>
    if !h.peerHasSwitched then
      let receiving := h.receiving.get channel
      let receiving := { receiving with
        heldBytes := receiving.heldBytes + frame.length
        held := receiving.held ++ [frame] }
      let h := { h with receiving := h.receiving.set channel receiving }
      let held : Nat := h.receiving.toList.foldl (fun sum r => sum + r.heldBytes) 0
      if h.heldLimit < held then h.leave .overflow now else (h, [])
    else h.deliverLink channel frame now

def linkFrames (channel : Channel) (now : Nat) :
    List Bytes → Handoff → Handoff × List Instruction
  | [], h => (h, [])
  | frame :: frames, h =>
    let (h, out) := h.linkFrame channel frame now
    if h.leftLink then (h, out)
    else
      let (h, more) := linkFrames channel now frames h
      (h, out ++ more)

def fromLink (h : Handoff) (channel : Channel) (piece : Bytes) (now : Nat) :
    Handoff × List Instruction :=
  if h.leftLink then (h, [])
  else
    let receiving := h.receiving.get channel
    let (reassembler, frames) := receiving.reassembler.push piece
    let h := { h with
      receiving := h.receiving.set channel { receiving with reassembler := reassembler } }
    match frames with
    | .ok frames => linkFrames channel now frames h
    | .error _ => h.leave .reassembly now

/-- This side's link failed, went silent, closed or errored. -/
def linkLost (h : Handoff) (reason : LeaveReason) (now : Nat) : Handoff × List Instruction :=
  h.leave reason now

def tickAck (h : Handoff) (now : Nat) : Handoff × List Instruction :=
  match h.firstUnacked with
  | some first => if first + ackDelayMs ≤ now then h.confirm else (h, [])
  | none => (h, [])

def tickBudget (h : Handoff) (now : Nat) : Handoff × List Instruction :=
  match h.budgetDeadline with
  | some deadline =>
    if deadline ≤ now then
      let h := { h with budgetDeadline := none }
      if !(h.switched && h.peerHasSwitched) then h.leave .budget now else (h, [])
    else (h, [])
  | none => (h, [])

/-- The peer's silence, the last timer of `tick`. -/
def tickHolding (h : Handoff) (now : Nat) : Handoff × List Instruction :=
  match h.holdingDeadline with
  | some deadline =>
    if deadline ≤ now then
      ({ h with holdingDeadline := none, currentPath := .ended }, [.end])
    else (h, [])
  | none => (h, [])

/-- Runs the timers due at `now`. -/
def tick (h : Handoff) (now : Nat) : Handoff × List Instruction :=
  let (h, ack) := h.tickAck now
  let (h, budget) := h.tickBudget now
  let (h, holding) := h.tickHolding now
  (h, ack ++ budget ++ holding)

def event (h : Handoff) : Event → Handoff × List Instruction
  | .beginAttempt now => (h.beginAttempt now, [])
  | .linkOpen _ layout => h.linkOpen layout
  | .send frame _ => h.send frame
  | .fromRelay frame now => h.fromRelay frame now
  | .fromLink channel piece now => h.fromLink channel piece now
  | .linkLost reason now => h.linkLost reason now
  | .tick now => h.tick now

end Handoff

end OpenGate.Web
