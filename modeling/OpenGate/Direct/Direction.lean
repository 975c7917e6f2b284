import OpenGate.Direct.HandoffSteps
import OpenGate.Lib.Numbered

/-!
# One direction of a session

What one side sends and the other delivers, with everything between them: the
relay's queue, the link's pieces, the frames the sender still keeps and those
the receiver still holds.  A direction sees of each machine only the fields that
matter to it (`SendView`, `ReceiveView`), so most small steps leave it as it was.

`Direction.Inv` is the invariant behind exactly-once delivery.  Its ghost record
says how the queues came to be: `numbered` is every frame the sender put on each
link channel, `ready` and `rest` the whole frames that are off the pieces and
still on them, and the relay is the session frames before the sender's notices,
the notices in flight, and the session frames after.

Each operation below keeps the invariant; which operations a machine performs is
a matter for `World.lean`.
-/

namespace OpenGate.Direct

open Lib Handoff List
open Handoff (ackFrame controlOf_switchFrame switchFrame)
open PerChannel (get_set)

variable [WireCodec] (c : Channel)

/-! ## Session frames -/

/-- A frame that is for the session and not for the hand-off. -/
def isSession (frame : Bytes) : Bool :=
  match controlOf frame with
  | some msg => !msg.isDirect
  | none => true

structure SessionFrame (frame : Bytes) : Prop where
  whole : Whole frame
  session : isSession frame = true

/-- A frame one side puts on the link: session data, or a confirmation of no
more than it delivered. -/
structure LinkFrame (counts : PerChannel Nat) (frame : Bytes) : Prop where
  whole : Whole frame
  kind : isSession frame = true ∨
    ∃ received : Counts, frame = Handoff.ackFrame received ∧
      ∀ s, (received.get s).toNat ≤ counts.get s

/-- The frames of one channel. -/
def only (c : Channel) (frames : List Bytes) : List Bytes :=
  frames.filter fun f => Channel.of f = c

omit [WireCodec] in
@[simp] theorem only_append (frames more : List Bytes) :
    only c (frames ++ more) = only c frames ++ only c more := filter_append ..

omit [WireCodec] in
@[simp] theorem only_nil : only c [] = [] := rfl

variable {counts : PerChannel Nat}

theorem LinkFrame.mono {counts' : PerChannel Nat} {frame : Bytes}
    (up : ∀ s, counts.get s ≤ counts'.get s)
    (link : LinkFrame counts frame) : LinkFrame counts' frame := by
  refine ⟨link.whole, link.kind.imp_right ?_⟩
  rintro ⟨received, is, below⟩
  exact ⟨received, is, fun s => (below s).trans (up s)⟩

/-! ## The state of a direction -/

/-- What a direction sees of its sender.  `counts` is what the sender itself
delivered from the link: its notices carry it. -/
structure SendView where
  path : Path
  layout : Layout
  switched : Bool
  left : Bool
  sending : PerChannel Sending
  counts : PerChannel Nat

/-- What the receiving end of a direction knows. -/
structure ReceiveView where
  left : Bool
  peerSwitched : Bool
  peerFallback : Option Counts
  held : PerChannel (List Bytes)
  buf : PerChannel Bytes
  delivered : PerChannel Nat

def Handoff.sendView (h : Handoff) : SendView where
  path := h.path
  layout := h.layout
  switched := h.switched
  left := h.leftLink
  sending := h.sending
  counts := h.receiving.map Receiving.delivered

def Handoff.receiveView (h : Handoff) : ReceiveView where
  left := h.leftLink
  peerSwitched := h.peerSwitched
  peerFallback := h.peerFallback
  held := h.receiving.map Receiving.held
  buf := h.receiving.map fun r => r.reassembler.buf
  delivered := h.receiving.map Receiving.delivered

/-- One way between the ends: both views, what is on the way, what was sent and delivered. -/
structure Direction where
  sender : SendView
  receiver : ReceiveView
  relay : List Bytes
  link : PerChannel (List Bytes)
  cut : PerChannel Bool
  sent : List Bytes
  delivered : List Bytes

def counts64 (counts : PerChannel Nat) : Counts := counts.map UInt64.ofNat

def slotOf (layout : Layout) (channel : Channel) : Channel :=
  match layout with
  | .separate => channel
  | .shared => .typing

/-- How the queues of a direction came to be. -/
structure Ghost where
  numbered : PerChannel (List Bytes)
  ready : PerChannel (List Bytes)
  rest : PerChannel (List Bytes)
  before : List Bytes
  after : List Bytes
  switching : Bool
  fallingBack : Bool

def Ghost.new : Ghost where
  numbered := .fill []
  ready := .fill []
  rest := .fill []
  before := []
  after := []
  switching := false
  fallingBack := false

def Ghost.put (g : Ghost) (s : Channel) (frame : Bytes) : Ghost :=
  { g with rest := g.rest.set s (g.rest.get s ++ [frame]) }

def Ghost.number (g : Ghost) (s : Channel) (frame : Bytes) : Ghost :=
  { g.put s frame with numbered := g.numbered.set s (g.numbered.get s ++ [frame]) }

def Ghost.notices (g : Ghost) (counts : PerChannel Nat) : List Bytes :=
  (if g.switching then [Handoff.switchFrame] else []) ++
    if g.fallingBack then [Handoff.fallbackFrame (counts64 counts)] else []

/-- One slot keeps a tail of what it numbered, with all that is not delivered. -/
def Kept (sending : Sending) (numbered : List Bytes) (delivered : Nat) : Prop :=
  ∃ k ≤ delivered, sending.kept = numberFrom (k + 1) (numbered.drop k)

/-- The frames of one slot on their way to a receiver still on the link: those
numbered and not delivered are held or still to come, in order, and the pieces
in flight are what they say, as far as the channel is not cut. -/
structure Stream (counts : PerChannel Nat) (numbered : List Bytes) (delivered : Nat)
    (held ready rest : List Bytes) (buf : Bytes) (link : List Bytes) (cut : Bool) : Prop where
  tail : numbered.drop delivered = held ++ (ready ++ rest).filter isSession
  frames : ∀ f ∈ ready ++ rest, LinkFrame counts f
  bytes : buf ++ link.flatten <+: rest.flatten
  uncut : cut = false → buf ++ link.flatten = rest.flatten

namespace Direction

/-- The sender came back to the relay after a time on the link. -/
def Back (d : Direction) : Prop := d.sender.path = .relay ∧ d.sender.switched = true

/-- The frames of a job the receiver has not delivered and the relay does not
carry. -/
def undelivered (d : Direction) (g : Ghost) (c : Channel) : List Bytes :=
  if d.sender.path = .relay then []
  else only c ((g.numbered.get (slotOf d.sender.layout c)).drop
    (d.receiver.delivered.get (slotOf d.sender.layout c)))

structure Inv (d : Direction) (g : Ghost) : Prop where
  next : ∀ s, (d.sender.sending.get s).nextNumber = (g.numbered.get s).length + 1
  room : ∀ s, (g.numbered.get s).length < 2 ^ 64
  kept : ¬ d.Back → ∀ s,
    Kept (d.sender.sending.get s) (g.numbered.get s) (d.receiver.delivered.get s)
  unnumbered : d.sender.switched = false → ∀ s, g.numbered.get s = []
  ours : ∀ s, ∀ f ∈ g.numbered.get s, SessionFrame f ∧ slotOf d.sender.layout (Channel.of f) = s
  got : ∀ s, d.receiver.delivered.get s ≤ (g.numbered.get s).length
  early : d.receiver.peerSwitched = false → ∀ s, d.receiver.delivered.get s = 0
  stream : d.receiver.left = false → ∀ s,
    Stream d.sender.counts (g.numbered.get s) (d.receiver.delivered.get s)
      (d.receiver.held.get s) (g.ready.get s) (g.rest.get s) (d.receiver.buf.get s)
      (d.link.get s) (d.cut.get s)
  relay : d.relay = g.before ++ g.notices d.sender.counts ++ g.after
  session : ∀ f ∈ g.before ++ g.after, isSession f = true
  switching : g.switching = true → d.sender.switched = true ∧ d.receiver.peerSwitched = false
  unswitched : d.sender.switched = false → d.receiver.peerSwitched = false
  switched : d.sender.switched = true → g.switching = false → g.before = []
  fallingBack : g.fallingBack = true → d.sender.left = true ∧ d.receiver.peerFallback = none
  onLink : d.sender.left = false → d.receiver.peerFallback = none
  fellBack : d.sender.left = true → g.fallingBack = false →
    d.receiver.peerFallback = some (counts64 d.sender.counts) ∧ g.before = [] ∧
      g.switching = false
  after : g.after ≠ [] → d.sender.left = true ∧ d.sender.path = .relay
  account : ∀ c, only c d.sent =
    only c d.delivered ++ only c (g.before ++ g.after) ++ d.undelivered g c
  back : d.Back → d.receiver.left = true

end Direction

/-! ## Putting a frame on the link -/

def putPieces (cut : Bool) (link : List Bytes) (frame : Bytes) : List Bytes :=
  if cut then link else link ++ split frame

variable {numbered : List Bytes} {delivered : Nat} {piece : Bytes} {cut : Bool}

/-- A frame put on the link is one more to come; a session frame is one more
numbered. -/
theorem Stream.put {held ready rest : List Bytes} {buf : Bytes} {link : List Bytes}
    (stream : Stream counts numbered delivered held ready rest buf link cut)
    (got : delivered ≤ numbered.length) {frame : Bytes} (ours : LinkFrame counts frame) :
    Stream counts (numbered ++ [frame].filter isSession) delivered held ready (rest ++ [frame])
      buf (putPieces cut link frame) cut where
  tail := by
    rw [drop_append_of_le_length got, stream.tail, ← append_assoc ready,
      filter_append (ready ++ rest), append_assoc]
  frames f inside := by
    rw [← append_assoc, mem_append, mem_singleton] at inside
    rcases inside with before | rfl
    · exact stream.frames f before
    · exact ours
  bytes := by
    rw [flatten_append, flatten_singleton, putPieces]
    cases isCut : cut with
    | true => exact stream.bytes.trans (prefix_append _ _)
    | false =>
      rw [if_neg Bool.false_ne_true, flatten_append, flatten_split, ← append_assoc,
        stream.uncut isCut]
  uncut isUncut := by
    rw [flatten_append, flatten_singleton, putPieces, if_neg (by rw [isUncut]; decide),
      flatten_append, flatten_split, ← append_assoc, stream.uncut isUncut]

/-- A piece taken off a link channel completes the frames at the front of those
to come. -/
theorem Stream.push {held rest : List Bytes} {r : Reassembler} {more : List Bytes}
    (stream : Stream counts numbered delivered held [] rest r.buf (piece :: more) cut) :
    ∃ frames later buf, r.push piece = (⟨buf⟩, .ok frames) ∧
      Stream counts numbered delivered held frames later buf more cut := by
  have bytes := stream.bytes
  rw [flatten_cons, ← append_assoc] at bytes
  obtain ⟨frames, buf, later, push, split, parts, -⟩ := Reassembler.push_stream
    (fun f inside => (stream.frames f inside).whole) ((prefix_append _ _).trans bytes)
  rw [nil_append] at split
  refine ⟨frames, later, buf, push, ?_, ?_, ?_, fun isUncut => ?_⟩
  · rw [stream.tail, split, nil_append]
  · rw [← split]
    exact stream.frames
  · rw [parts, split, flatten_append, append_assoc] at bytes
    exact (prefix_append_right_inj _).mp bytes
  · have whole := stream.uncut isUncut
    rw [flatten_cons, ← append_assoc, parts, split, flatten_append, append_assoc] at whole
    exact append_cancel_left whole

/-! ## The frames kept -/

section

variable {sending : Sending} (kept : Kept sending numbered delivered)
include kept

omit [WireCodec] in
theorem Kept.take (got : delivered ≤ numbered.length)
    (next : sending.nextNumber = numbered.length + 1)
    (frame : Bytes) : Kept (sending.take frame) (numbered ++ [frame]) delivered := by
  obtain ⟨k, below, is⟩ := kept
  refine ⟨k, below, ?_⟩
  rw [Sending.take, is, drop_append_of_le_length (by omega), numberFrom_append,
    length_drop, next, show k + 1 + (numbered.length - k) = numbered.length + 1 by omega]
  rfl

omit [WireCodec] in
/-- A confirmation of no more than is delivered drops no frame that may have to
be sent again. -/
theorem Kept.confirm {received : Nat} (below : received ≤ delivered) :
    Kept (sending.confirmUpTo received).1 numbered delivered := by
  obtain ⟨k, low, is⟩ := kept
  refine ⟨max k received, by omega, ?_⟩
  have drop : k + (received + 1 - (k + 1)) = max k received := by omega
  rw [Sending.confirmUpTo, is]
  simp only
  rw [dropWhile_numberFrom, drop_drop, drop,
    show max (k + 1) (received + 1) = max k received + 1 by omega]

omit [WireCodec] in
/-- What goes back on the relay is exactly what was not delivered. -/
theorem Kept.above : sending.above delivered = numbered.drop delivered := by
  obtain ⟨k, low, is⟩ := kept
  rw [Sending.above, is, filter_numberFrom, drop_drop,
    show k + (delivered + 1 - (k + 1)) = delivered by omega]

end

namespace Direction

variable {d : Direction} {g : Ghost}

/-! ## What the sender does -/

section

variable (inv : d.Inv g)
include inv

/-- A sender still on the link has no fall-back under way and nothing behind one. -/
theorem Inv.of_on (on : d.sender.left = false) : g.fallingBack = false ∧ g.after = [] := by
  constructor
  · by_contra falling
    have left := (inv.fallingBack (by simpa using falling)).1
    simp only [on, reduceCtorEq] at left
  · by_contra some'
    have left := (inv.after some').1
    simp only [on, reduceCtorEq] at left

/-- A sender that has not switched has no switch under way. -/
theorem Inv.of_unswitched (unswitched : d.sender.switched = false) : g.switching = false := by
  by_contra switching
  have switched := (inv.switching (by simpa using switching)).1
  simp only [unswitched, reduceCtorEq] at switched

/-- The switch notice is the last frame on the relay. -/
theorem Inv.switch (unswitched : d.sender.switched = false) (on : d.sender.left = false)
    (path : d.sender.path = .relay) (layout : Layout) :
    Inv { d with
        sender := { d.sender with path := .link, layout := layout, switched := true }
        relay := d.relay ++ [switchFrame] }
      { g with switching := true } := by
  obtain ⟨notFalling, noAfter⟩ := inv.of_on on
  have notSwitching := inv.of_unswitched unswitched
  have none := inv.unnumbered unswitched
  refine { inv with
    kept := fun _ s => inv.kept (fun back => ?_) s
    unnumbered := nofun
    ours := fun s f inside => ?_
    relay := ?_
    switching := fun _ => ⟨rfl, inv.unswitched unswitched⟩
    unswitched := nofun
    switched := fun _ => nofun
    fellBack := fun left => ?_
    after := fun some' => absurd noAfter some'
    account := fun c => ?_
    back := fun back => ?_ }
  · exact absurd back.2 (by rw [unswitched]; decide)
  · rw [none s] at inside
    cases inside
  · rw [inv.relay]
    simp only [Ghost.notices, notSwitching, notFalling, noAfter, Bool.false_eq_true, if_false,
      if_true, append_nil]
  · simp only [on, reduceCtorEq] at left
  · have account := inv.account c
    simp only [undelivered, path, if_true] at account
    simp only [undelivered, none, drop_nil, only_nil, ite_self]
    exact account
  · exact absurd back.1 (by simp)

theorem Inv.ack (received : Counts) (below : ∀ s, (received.get s).toNat ≤ d.sender.counts.get s)
    [LawfulCodec] :
    Inv { d with
        link := d.link.set .typing
          (putPieces (d.cut.get .typing) (d.link.get .typing) (ackFrame received)) }
      (g.put .typing (ackFrame received)) := by
  have silent : isSession (ackFrame received) = false := by
    simp only [isSession, controlOf_ackFrame]
    rfl
  have link : LinkFrame d.sender.counts (ackFrame received) :=
    ⟨whole_encode rfl, .inr ⟨received, rfl, below⟩⟩
  refine { inv with stream := fun on s => ?_ }
  simp only [Ghost.put, get_set]
  split
  next is =>
    have put := (inv.stream on .typing).put (inv.got .typing) link
    rw [filter_singleton, silent, cond_false, append_nil] at put
    rw [is]
    exact put
  · exact inv.stream on s

/-- The fall-back notice carries what arrived. -/
theorem Inv.leave (on : d.sender.left = false) :
    Inv { d with
        sender := { d.sender with
          left := true
          path := if d.sender.path = .link then .holding else d.sender.path }
        relay := d.relay ++ [fallbackFrame (counts64 d.sender.counts)] }
      { g with fallingBack := true } := by
  obtain ⟨notFalling, noAfter⟩ := inv.of_on on
  have relayIff : (if d.sender.path = .link then .holding else d.sender.path) = Path.relay ↔
      d.sender.path = .relay := by
    by_cases link : d.sender.path = .link <;> simp [link]
  refine { inv with
    kept := fun notBack s => inv.kept (fun b => notBack ⟨relayIff.mpr b.1, b.2⟩) s
    relay := ?_
    fallingBack := fun _ => ⟨rfl, inv.onLink on⟩
    onLink := nofun
    fellBack := fun _ => nofun
    after := fun some' => absurd noAfter some'
    account := fun c => ?_
    back := fun b => inv.back ⟨relayIff.mp b.1, b.2⟩ }
  · rw [inv.relay]
    simp only [Ghost.notices, notFalling, noAfter, Bool.false_eq_true, if_false, if_true,
      append_nil, append_assoc]
  · have account := inv.account c
    simp only [undelivered, relayIff]
    exact account

theorem Inv.expire (path : d.sender.path = .holding) :
    Inv { d with sender := { d.sender with path := .ended } } g := by
  refine { inv with
    kept := fun _ s => inv.kept (fun back => ?_) s
    after := fun some' => ?_
    account := fun c => ?_
    back := fun back => ?_ }
  · exact absurd back.1 (by rw [path]; decide)
  · have relay := (inv.after some').2
    simp only [path, reduceCtorEq] at relay
  · have account := inv.account c
    simp only [undelivered, path, reduceCtorEq, if_false] at account
    simp only [undelivered, reduceCtorEq, if_false]
    exact account
  · exact absurd back.1 (by simp)

/-- The sender delivers more of what it receives itself. -/
theorem Inv.recount (on : d.sender.left = false) (up : ∀ s, d.sender.counts.get s ≤ counts.get s) :
    Inv { d with sender := { d.sender with counts := counts } } g := by
  have notFalling := (inv.of_on on).1
  refine { inv with
    stream := fun onLink s =>
      have stream := inv.stream onLink s
      { stream with frames := fun f inside => (stream.frames f inside).mono up }
    relay := ?_
    fellBack := fun left => ?_ }
  · have relay := inv.relay
    simp only [Ghost.notices, notFalling, Bool.false_eq_true, if_false] at relay ⊢
    exact relay
  · simp only [on, reduceCtorEq] at left

variable {frame : Bytes}

theorem Inv.sendRelay (path : d.sender.path = .relay)
    (course : d.sender.left = false → d.sender.switched = false) (session : isSession frame) :
    ∃ g', g'.ready = g.ready ∧
      Inv { d with relay := d.relay ++ [frame], sent := d.sent ++ [frame] } g' := by
  have account : ∀ c, only c (d.sent ++ [frame]) =
      only c d.delivered ++ (only c (g.before ++ g.after) ++ only c [frame]) := by
    intro c
    have account := inv.account c
    simp only [undelivered, path, if_true, append_nil] at account
    rw [only_append, account, append_assoc]
  cases left : d.sender.left with
  | true =>
    refine ⟨{ g with after := g.after ++ [frame] }, rfl, { inv with
      relay := ?_
      session := fun f inside => ?_
      after := fun _ => ⟨left, path⟩
      account := fun c => ?_ }⟩
    · rw [inv.relay, append_assoc]
      rfl
    · rw [← append_assoc, mem_append, mem_singleton] at inside
      rcases inside with old | rfl
      · exact inv.session f old
      · exact session
    · simp only [undelivered, path, if_true, append_nil]
      rw [account, ← append_assoc g.before, only_append c _ [frame]]
  | false =>
    have unswitched := course left
    have notSwitching := inv.of_unswitched unswitched
    obtain ⟨notFalling, noAfter⟩ := inv.of_on left
    refine ⟨{ g with before := g.before ++ [frame] }, rfl, { inv with
      relay := ?_
      session := fun f inside => ?_
      switched := fun switched => ?_
      fellBack := fun gone => ?_
      account := fun c => ?_ }⟩
    · rw [inv.relay]
      simp only [Ghost.notices, notSwitching, notFalling, noAfter, Bool.false_eq_true, if_false,
        append_nil]
    · rw [noAfter, append_nil, mem_append, mem_singleton] at inside
      rcases inside with old | rfl
      · exact inv.session f (mem_append_left _ old)
      · exact session
    · simp only [unswitched, reduceCtorEq] at switched
    · simp only [left, reduceCtorEq] at gone
    · simp only [undelivered, path, if_true, append_nil]
      rw [account, noAfter, append_nil, append_nil, only_append c _ [frame]]

variable {s : Channel} {sending : PerChannel Sending}

theorem Inv.sendLink (path : d.sender.path = .link) (switched : d.sender.switched)
    (ours : SessionFrame frame) (slot : slotOf d.sender.layout (Channel.of frame) = s)
    (room : (d.sender.sending.get s).nextNumber < 2 ^ 64) :
    Inv { d with
        sender := { d.sender with
          sending := d.sender.sending.set s ((d.sender.sending.get s).take frame) }
        link := d.link.set s (putPieces (d.cut.get s) (d.link.get s) frame)
        sent := d.sent ++ [frame] }
      (g.number s frame) := by
  have notRelay : d.sender.path ≠ .relay := by rw [path]; decide
  have notBack : ¬ d.Back := fun back => notRelay back.1
  refine { inv with
    next := fun s' => ?_
    room := fun s' => ?_
    kept := fun _ s' => ?_
    unnumbered := fun unswitched => ?_
    ours := fun s' f inside => ?_
    got := fun s' => ?_
    stream := fun on s' => ?_
    account := fun c => ?_ }
  · simp only [Ghost.number, Ghost.put, get_set]
    split
    · simp only [Sending.take, inv.next, length_append, length_singleton]
    · exact inv.next s'
  · simp only [Ghost.number, Ghost.put, get_set]
    split
    · rw [inv.next] at room
      rw [length_append, length_singleton]
      exact room
    · exact inv.room s'
  · simp only [Ghost.number, Ghost.put, get_set]
    split
    next is =>
      rw [is]
      exact (inv.kept notBack s).take (inv.got s) (inv.next s) frame
    · exact inv.kept notBack s'
  · simp only [switched, reduceCtorEq] at unswitched
  · simp only [Ghost.number, Ghost.put, get_set] at inside
    split at inside
    next is =>
      rcases mem_append.mp inside with old | new
      · exact is ▸ inv.ours s f old
      · rw [mem_singleton.mp new, is]
        exact ⟨ours, slot⟩
    · exact inv.ours s' f inside
  · simp only [Ghost.number, Ghost.put, get_set]
    split
    next is =>
      have got := inv.got s
      rw [length_append, length_singleton, is]
      omega
    · exact inv.got s'
  · simp only [Ghost.number, Ghost.put, get_set]
    split
    next is =>
      have put := (inv.stream on s).put (inv.got s) ⟨ours.whole, .inl ours.session⟩
      rw [filter_singleton, ours.session, cond_true] at put
      rw [is]
      exact put
    · exact inv.stream on s'
  · have account := inv.account c
    have got := inv.got s
    simp only [Ghost.number, Ghost.put, undelivered, if_neg notRelay, get_set, only_append]
      at account ⊢
    rw [account]
    split
    next is =>
      rw [is, drop_append_of_le_length got, only_append]
      simp only [append_assoc]
    next other =>
      -- the frame's own job is on the slot it took
      have none : only c [frame] = [] := by
        refine filter_eq_nil_iff.mpr fun f inside => ?_
        rw [mem_singleton.mp inside]
        simp only [decide_eq_true_eq]
        rintro rfl
        exact other slot
      rw [none, append_nil]

theorem Inv.confirm {received : Counts}
    (below : ∀ s, (received.get s).toNat ≤ d.receiver.delivered.get s)
    (is : ∀ s, sending.get s = ((d.sender.sending.get s).confirmUpTo (received.get s).toNat).1) :
    Inv { d with sender := { d.sender with sending := sending } } g := by
  refine { inv with next := fun s => ?_, kept := fun notBack s => ?_ }
  · rw [is s]
    exact inv.next s
  · rw [is s]
    exact (inv.kept notBack s).confirm (below s)

/-- The frames a side takes back to the relay, channel by channel. -/
def backlog (d : Direction) (g : Ghost) : List Bytes :=
  (g.numbered.get .typing).drop (d.receiver.delivered.get .typing) ++
    (g.numbered.get .screen).drop (d.receiver.delivered.get .screen) ++
    (g.numbered.get .files).drop (d.receiver.delivered.get .files)

/-- The job's frames in the backlog are those of its slot. -/
theorem Inv.only_backlog :
    only c (d.backlog g) = only c ((g.numbered.get (slotOf d.sender.layout c)).drop
      (d.receiver.delivered.get (slotOf d.sender.layout c))) := by
  have other : ∀ s, s ≠ slotOf d.sender.layout c →
      only c ((g.numbered.get s).drop (d.receiver.delivered.get s)) = [] := by
    intro s ne
    refine filter_eq_nil_iff.mpr fun f inside => ?_
    have slot := (inv.ours s f (mem_of_mem_drop inside)).2
    simp only [decide_eq_true_eq]
    rintro rfl
    exact ne slot.symm
  simp only [backlog, only_append]
  cases is : slotOf d.sender.layout c with
  | typing => rw [other .screen (by simp [is]), other .files (by simp [is]), append_nil, append_nil]
  | screen => rw [other .typing (by simp [is]), other .files (by simp [is]), append_nil, nil_append]
  | files => rw [other .typing (by simp [is]), other .screen (by simp [is]), append_nil, nil_append]

/-- What the peer does not have goes by the relay behind everything there. -/
theorem Inv.resend (path : d.sender.path = .holding) (switched : d.sender.switched)
    (left : d.sender.left) (peerLeft : d.receiver.left)
    (next : ∀ s, (sending.get s).nextNumber = (d.sender.sending.get s).nextNumber) :
    Inv { d with
        sender := { d.sender with path := .relay, sending := sending }
        relay := d.relay ++ d.backlog g }
      { g with after := g.after ++ d.backlog g } := by
  have notRelay : d.sender.path ≠ .relay := by rw [path]; decide
  refine { inv with
    next := fun s => (next s).trans (inv.next s)
    kept := fun notBack => absurd ⟨rfl, switched⟩ notBack
    relay := ?_
    session := fun f inside => ?_
    after := fun _ => ⟨left, rfl⟩
    account := fun c => ?_
    back := fun _ => peerLeft }
  · rw [inv.relay, append_assoc]
    rfl
  · rw [← append_assoc, mem_append] at inside
    rcases inside with old | new
    · exact inv.session f old
    · simp only [backlog, mem_append] at new
      rcases new with (new | new) | new <;>
        exact (inv.ours _ f (mem_of_mem_drop new)).1.session
  · have account := inv.account c
    simp only [undelivered, if_neg notRelay] at account
    simp only [undelivered, if_true, append_nil]
    rw [account, ← inv.only_backlog c, ← append_assoc g.before, only_append c _ (d.backlog g),
      append_assoc]

/-! ## What the receiver does -/

/-- What the relay's next frame can be. -/
inductive Inv.Head (d : Direction) (g : Ghost) (frame : Bytes) (more : List Bytes) : Prop
  | before (before : List Bytes) : g.before = frame :: before → isSession frame = true →
    more = before ++ g.notices d.sender.counts ++ g.after → Inv.Head d g frame more
  | switch : g.before = [] → g.switching = true → frame = Handoff.switchFrame →
    more = { g with switching := false }.notices d.sender.counts ++ g.after →
    Inv.Head d g frame more
  | fallback : g.before = [] → g.switching = false → g.fallingBack = true →
    frame = Handoff.fallbackFrame (counts64 d.sender.counts) → more = g.after →
    Inv.Head d g frame more
  | after (after : List Bytes) : g.before = [] → g.switching = false → g.fallingBack = false →
    g.after = frame :: after → isSession frame = true → more = after → Inv.Head d g frame more

variable {more : List Bytes}

theorem Inv.head (relay : d.relay = frame :: more) : Inv.Head d g frame more := by
  have parts := inv.relay.symm.trans relay
  cases before : g.before with
  | cons f before' =>
    rw [before, cons_append, cons_append, List.cons.injEq] at parts
    obtain ⟨rfl, rest⟩ := parts
    exact .before before' before
      (inv.session f (mem_append_left _ (before ▸ mem_cons_self ..))) rest.symm
  | nil =>
    rw [before, nil_append, Ghost.notices] at parts
    cases switching : g.switching with
    | true =>
      rw [switching, if_pos rfl, append_assoc, singleton_append, List.cons.injEq] at parts
      refine .switch before switching parts.1.symm ?_
      rw [← parts.2]
      rfl
    | false =>
      rw [switching, if_neg Bool.false_ne_true, nil_append] at parts
      cases falling : g.fallingBack with
      | true =>
        rw [falling, if_pos rfl, singleton_append, List.cons.injEq] at parts
        exact .fallback before switching falling parts.1.symm parts.2.symm
      | false =>
        rw [falling, if_neg Bool.false_ne_true, nil_append] at parts
        exact .after more before switching falling parts
          (inv.session frame (mem_append_right _ (parts ▸ mem_cons_self ..))) rfl

/-- A session frame off the relay is delivered. -/
theorem Inv.takeRelay (relay : d.relay = frame :: more) (session : isSession frame) [LawfulCodec] :
    ∃ g', g'.ready = g.ready ∧
      Inv { d with relay := more, delivered := d.delivered ++ [frame] } g' := by
  rcases inv.head relay with ⟨before, is, -, rest⟩ | ⟨-, -, is, -⟩ | ⟨-, -, -, is, -⟩ |
    ⟨after, none, notSwitching, notFalling, is, -, rest⟩
  · refine ⟨{ g with before := before }, rfl, { inv with
      relay := rest
      session := fun f inside => inv.session f ?_
      switched := fun switched notSwitching => ?_
      fellBack := fun left notFalling => ?_
      account := fun c => ?_ }⟩
    · rw [is, cons_append]
      exact mem_cons_of_mem _ inside
    · have empty := inv.switched switched notSwitching
      simp only [is, reduceCtorEq] at empty
    · have empty := (inv.fellBack left notFalling).2.1
      simp only [is, reduceCtorEq] at empty
    · have account := inv.account c
      rw [is, cons_append, ← singleton_append, only_append c [frame]] at account
      simp only [only_append c d.delivered, append_assoc] at account ⊢
      exact account
  · rw [is, isSession, controlOf_switchFrame] at session
    exact absurd session Bool.false_ne_true
  · rw [is, isSession, controlOf_fallbackFrame] at session
    exact absurd session Bool.false_ne_true
  · refine ⟨{ g with after := after }, rfl, { inv with
      relay := ?_
      session := fun f inside => inv.session f ?_
      after := fun _ => inv.after (by rw [is]; exact cons_ne_nil _ _)
      account := fun c => ?_ }⟩
    · simp only [Ghost.notices, none, notSwitching, notFalling, Bool.false_eq_true, if_false,
        nil_append, rest]
    · rw [none, nil_append] at inside ⊢
      rw [is]
      exact mem_cons_of_mem _ inside
    · have account := inv.account c
      rw [none, nil_append, is, ← singleton_append, only_append c [frame]] at account
      simp only [only_append c d.delivered, none, nil_append, append_assoc] at account ⊢
      exact account

/-- The switch notice comes off the relay.  A receiver that left does not look at
it. -/
theorem Inv.takeSwitch (relay : d.relay = switchFrame :: more) [LawfulCodec] :
    ∃ g', g'.ready = g.ready ∧ d.receiver.peerSwitched = false ∧
      Inv { d with relay := more } g' ∧
      Inv { d with relay := more, receiver := { d.receiver with peerSwitched := true } } g' := by
  have notSession : isSession switchFrame = false := by
    rw [isSession, controlOf_switchFrame]
    rfl
  rcases inv.head relay with ⟨before, -, session, -⟩ | ⟨none, switching, -, rest⟩ |
    ⟨-, -, -, is, -⟩ | ⟨after, -, -, -, -, session, -⟩
  · exact absurd (notSession.symm.trans session) Bool.false_ne_true
  · obtain ⟨switched, fresh⟩ := inv.switching switching
    have off : Inv { d with relay := more } { g with switching := false } := { inv with
      relay := by rw [rest, none, nil_append]
      switching := nofun
      switched := fun _ _ => none
      fellBack := fun left notFalling => ⟨(inv.fellBack left notFalling).1, none, rfl⟩ }
    refine ⟨{ g with switching := false }, rfl, fresh, off, { off with
      early := nofun
      switching := nofun
      unswitched := fun unswitched => ?_ }⟩
    simp only [switched, reduceCtorEq] at unswitched
  · have same : some ControlMessage.directSwitch = some (.directFallback _ _ _) :=
      Handoff.controlOf_switchFrame.symm.trans
        ((congrArg controlOf is).trans (controlOf_fallbackFrame _))
    simp only [Option.some.injEq, reduceCtorEq] at same
  · exact absurd (notSession.symm.trans session) Bool.false_ne_true

/-- A fall-back notice comes off the relay, with what the sender delivered. -/
theorem Inv.takeFallback (relay : d.relay = frame :: more) {r s f : UInt64}
    (notice : controlOf frame = some (.directFallback r s f)) [LawfulCodec] :
    ∃ g', g'.ready = g.ready ∧ d.sender.left ∧ counts64 d.sender.counts = ⟨r, s, f⟩ ∧
      Inv { d with
        relay := more
        receiver := { d.receiver with peerFallback := some (counts64 d.sender.counts) } } g' := by
  have notSession : isSession frame = false := by
    rw [isSession, notice]
    rfl
  rcases inv.head relay with ⟨before, -, session, -⟩ | ⟨-, -, is, -⟩ |
    ⟨none, notSwitching, falling, is, rest⟩ | ⟨after, -, -, -, -, session, -⟩
  · exact absurd (notSession.symm.trans session) Bool.false_ne_true
  · have same := notice.symm.trans ((congrArg controlOf is).trans controlOf_switchFrame)
    simp only [Option.some.injEq, reduceCtorEq] at same
  · have same := notice.symm.trans
      ((congrArg controlOf is).trans (controlOf_fallbackFrame _))
    rw [Option.some.injEq, ControlMessage.directFallback.injEq] at same
    obtain ⟨left, -⟩ := inv.fallingBack falling
    refine ⟨{ g with fallingBack := false }, rfl, left, ?_, { inv with
      relay := ?_
      fallingBack := nofun
      onLink := fun on => ?_
      fellBack := fun _ _ => ⟨rfl, none, notSwitching⟩ }⟩
    · rw [same.1, same.2.1, same.2.2]
    · simp only [Ghost.notices, none, notSwitching, Bool.false_eq_true, if_false, nil_append, rest]
    · simp only [left, reduceCtorEq] at on
  · exact absurd (notSession.symm.trans session) Bool.false_ne_true

/-- A piece completes the next frames of its channel, or none. -/
theorem Inv.takePiece (on : d.receiver.left = false) (idle : g.ready.get s = [])
    (link : d.link.get s = piece :: more) :
    ∃ frames later buf,
      (Reassembler.mk (d.receiver.buf.get s)).push piece = (⟨buf⟩, .ok frames) ∧
      Inv { d with
          link := d.link.set s more
          receiver := { d.receiver with buf := d.receiver.buf.set s buf } }
        { g with ready := g.ready.set s frames, rest := g.rest.set s later } := by
  have stream := inv.stream on s
  rw [idle, link] at stream
  obtain ⟨frames, later, buf, push, next⟩ :=
    Stream.push (r := ⟨d.receiver.buf.get s⟩) stream
  refine ⟨frames, later, buf, push, { inv with stream := fun on s' => ?_ }⟩
  simp only [get_set]
  split
  next is =>
    rw [is]
    exact next
  · exact inv.stream on s'

/-- A piece that reaches a side that left is dropped. -/
theorem Inv.dropPiece (left : d.receiver.left) (link : PerChannel (List Bytes)) :
    Inv { d with link := link } g :=
  { inv with stream := fun on => by simp only [left, reduceCtorEq] at on }

/-- So are the frames it had taken off the pieces. -/
theorem Inv.dropReady (left : d.receiver.left) (ready : PerChannel (List Bytes)) :
    Inv d { g with ready := ready } :=
  { inv with stream := fun on => by simp only [left, reduceCtorEq] at on }

theorem Inv.hold (on : d.receiver.left = false) (ready : g.ready.get s = frame :: more)
    (session : isSession frame) : Inv { d with receiver := { d.receiver with
          held := d.receiver.held.set s (d.receiver.held.get s ++ [frame]) } }
      { g with ready := g.ready.set s more } := by
  refine { inv with stream := fun _ s' => ?_ }
  simp only [get_set]
  split
  next is =>
    have stream := inv.stream on s
    rw [ready] at stream
    rw [is]
    refine ⟨?_, fun f inside => stream.frames f (mem_cons_of_mem _ inside), stream.bytes,
      stream.uncut⟩
    rw [stream.tail, cons_append, filter_cons_of_pos session, append_assoc]
    rfl
  · exact inv.stream on s'

theorem Inv.takeAck (ready : g.ready.get s = frame :: more) (ack : isSession frame = false) :
    Inv d { g with ready := g.ready.set s more } := by
  refine { inv with stream := fun on s' => ?_ }
  simp only [get_set]
  split
  next is =>
    have stream := inv.stream on s
    rw [ready] at stream
    rw [is]
    refine ⟨?_, fun f inside => stream.frames f (mem_cons_of_mem _ inside), stream.bytes,
      stream.uncut⟩
    rw [stream.tail, cons_append, filter_cons_of_neg (by rw [ack]; exact Bool.false_ne_true)]
  · exact inv.stream on s'

end

section

variable (inv : d.Inv g) (on : d.receiver.left = false) (peer : d.receiver.peerSwitched = true)
include inv on peer

/-- While a receiver takes frames from the link, the relay carries none. -/
theorem Inv.relay_quiet : g.before = [] ∧ g.after = [] ∧ d.sender.path ≠ .relay := by
  have switched : d.sender.switched := by
    by_contra unswitched
    have fresh := inv.unswitched (by simpa using unswitched)
    simp only [peer, reduceCtorEq] at fresh
  have notSwitching : g.switching = false := by
    by_contra switching
    have fresh := (inv.switching (by simpa using switching)).2
    simp only [peer, reduceCtorEq] at fresh
  have notRelay : d.sender.path ≠ .relay := by
    intro relay
    have left := inv.back ⟨relay, switched⟩
    simp only [on, reduceCtorEq] at left
  refine ⟨inv.switched switched notSwitching, ?_, notRelay⟩
  by_contra some'
  exact notRelay (inv.after some').2

/-- The next undelivered frame of a slot is delivered. -/
theorem Inv.deliverNext {later : List Bytes}
    (next : (g.numbered.get s).drop (d.receiver.delivered.get s) = frame :: later)
    {held : PerChannel (List Bytes)} {ready : PerChannel (List Bytes)}
    (stream : ∀ s', Stream d.sender.counts (g.numbered.get s')
      ((d.receiver.delivered.set s (d.receiver.delivered.get s + 1)).get s') (held.get s')
      (ready.get s') (g.rest.get s') (d.receiver.buf.get s') (d.link.get s') (d.cut.get s')) :
    Inv { d with
        receiver := { d.receiver with
          held := held
          delivered := d.receiver.delivered.set s (d.receiver.delivered.get s + 1) }
        delivered := d.delivered ++ [frame] }
      { g with ready := ready } := by
  obtain ⟨noBefore, noAfter, notRelay⟩ := inv.relay_quiet on peer
  have notBack : ¬ d.Back := fun back => notRelay back.1
  have longer : d.receiver.delivered.get s < (g.numbered.get s).length := by
    by_contra short
    rw [drop_of_length_le (by omega)] at next
    simp only [reduceCtorEq] at next
  have drop : (g.numbered.get s).drop (d.receiver.delivered.get s + 1) = later := by
    rw [← drop_drop, next]
    rfl
  have inside : frame ∈ g.numbered.get s :=
    mem_of_mem_drop (i := d.receiver.delivered.get s) (next ▸ mem_cons_self ..)
  refine { inv with
    kept := fun _ s' => ?_
    got := fun s' => ?_
    early := fun fresh => ?_
    stream := fun _ => stream
    account := fun c => ?_ }
  · obtain ⟨k, below, is⟩ := inv.kept notBack s'
    refine ⟨k, below.trans ?_, is⟩
    simp only [get_set]
    split
    next same =>
      rw [same]
      exact Nat.le_succ _
    · exact le_rfl
  · simp only [get_set]
    split
    next same =>
      rw [same]
      exact longer
    · exact inv.got s'
  · simp only [peer, reduceCtorEq] at fresh
  · have account := inv.account c
    have slot := (inv.ours s frame inside).2
    simp only [undelivered, if_neg notRelay, noBefore, noAfter, append_nil, only_nil,
      only_append, get_set] at account ⊢
    rw [account]
    split
    next same =>
      rw [same, drop, next, ← singleton_append, only_append, append_assoc]
    next other =>
      have none : only c [frame] = [] := by
        refine filter_eq_nil_iff.mpr fun f among => ?_
        rw [mem_singleton.mp among]
        simp only [decide_eq_true_eq]
        rintro rfl
        exact other slot
      rw [none, append_nil]

/-- The next frame of its channel is delivered. -/
theorem Inv.count (none : d.receiver.held.get s = []) (ready : g.ready.get s = frame :: more)
    (session : isSession frame) :
    Inv { d with
        receiver := { d.receiver with
          delivered := d.receiver.delivered.set s (d.receiver.delivered.get s + 1) }
        delivered := d.delivered ++ [frame] }
      { g with ready := g.ready.set s more } := by
  have here := inv.stream on s
  have next := here.tail
  rw [none, ready, nil_append, cons_append, filter_cons_of_pos session] at next
  refine inv.deliverNext on peer next fun s' => ?_
  simp only [get_set]
  split
  next is =>
    rw [ready] at here
    rw [is]
    refine ⟨?_, fun f inside => here.frames f (mem_cons_of_mem _ inside), here.bytes, here.uncut⟩
    rw [none, nil_append, ← drop_drop, next]
    rfl
  · exact inv.stream on s'

theorem Inv.release {held : List Bytes} (front : d.receiver.held.get s = frame :: held) :
    Inv { d with
        receiver := { d.receiver with
          held := d.receiver.held.set s held
          delivered := d.receiver.delivered.set s (d.receiver.delivered.get s + 1) }
        delivered := d.delivered ++ [frame] } g := by
  have here := inv.stream on s
  have next := here.tail
  rw [front, cons_append] at next
  refine inv.deliverNext on peer next fun s' => ?_
  simp only [get_set]
  split
  next is =>
    rw [is]
    refine ⟨?_, here.frames, here.bytes, here.uncut⟩
    rw [← drop_drop, next]
    rfl
  · exact inv.stream on s'

end

/-- A link channel loses everything in flight and everything later. -/
theorem Inv.cutOff (inv : d.Inv g) {s : Channel} :
    Inv { d with link := d.link.set s [], cut := d.cut.set s true } g := by
  refine { inv with stream := fun on s' => ?_ }
  have here := inv.stream on s'
  simp only [get_set]
  split
  next is =>
    refine ⟨here.tail, here.frames, ?_, fun absurd => ?_⟩
    · rw [flatten_nil, append_nil]
      exact (prefix_append _ _).trans here.bytes
    · simp only [reduceCtorEq] at absurd
  · exact here

end Direction

end OpenGate.Direct
