import OpenGate.Direct.HandoffInv
import OpenGate.Direct.Msgpack
import OpenGate.Web.Handoff

/-!
# One hand-off, written twice

The browser's machine and the host's are the same.  `ofHost` forgets of a host
machine what the browser does not have, and every event of the browser's machine
is the host's seen through it: where the two guard a branch differently, the
host's invariants (`Wf`) say that the guards agree.

The windows are multiples of four, so that a quarter of one is a whole number of
bytes, and the counts a notice carries are below 2^52, where both sides' numbers
are exact.
-/

namespace OpenGate.Web

open Direct Lib Direct.Handoff List Option Nat

/-! ## Frames and notices -/

variable (frame : Bytes) {now : Nat} {channel : Channel} {s : Direct.Sending}

/-- Comparing byte by byte at an offset is comparing with what lies there. -/
theorem all_zipIdx_eq_isPrefixOf (type rest : Bytes) (n : Nat)
    (here : ∀ i, frame[6 + n + i]? = rest[i]?) :
    ((type.zipIdx n).all fun entry => frame[6 + entry.2]? == some entry.1) =
      type.isPrefixOf rest := by
  induction type generalizing rest n with
  | nil => rfl
  | cons byte type ih =>
    have first := here 0
    rw [add_zero] at first
    cases rest with
    | nil =>
      rw [zipIdx_cons, all_cons, first]
      rfl
    | cons b rest =>
      have later : ∀ i, frame[6 + (n + 1) + i]? = rest[i]? := fun i => by
        rw [← List.getElem?_cons_succ (a := b) (l := rest), ← here (i + 1)]
        congr 1
        omega
      rw [zipIdx_cons, all_cons, first, isPrefixOf_cons_cons, ih rest (n + 1) later,
        List.getElem?_cons_zero, some_beq_some, BEq.comm]

theorem isListingPage_eq : isListingPage frame = Direct.isListingPage frame := by
  unfold isListingPage Direct.isListingPage
  cases rest : frame.drop 5 with
  | nil =>
    have short : frame[5]? = none := by
      rw [List.getElem?_eq_none_iff, ← drop_eq_nil_iff, rest]
    rw [short]
  | cons head rest' =>
    have at' : ∀ i, frame[5 + i]? = (head :: rest')[i]? := fun i => by
      rw [← rest, List.getElem?_drop]
    have first : frame[5]? = some head := at' 0
    rw [first]
    have later : ∀ i, frame[6 + 0 + i]? = rest'[i]? := fun i => by
      rw [← List.getElem?_cons_succ (a := head) (l := rest'), ← at' (i + 1)]
      congr 1
      omega
    rw [all_zipIdx_eq_isPrefixOf frame listingPageType rest' 0 later]
    by_cases low : head < 0x80
    · have no : ¬ 0x80 ≤ head := UInt8.not_le.mpr low
      simp [low, no]
    · have le : 0x80 ≤ head := UInt8.not_lt.mp low
      by_cases high : 0x8f < head
      · have no : ¬ head ≤ 0x8f := UInt8.not_le.mpr high
        simp [high, no]
      · have le' : head ≤ 0x8f := UInt8.not_lt.mp high
        simp [low, high, le, le']

theorem channelOf_eq : channelOf frame = Channel.of frame := by
  unfold channelOf Channel.of
  rw [isListingPage_eq]
  cases frame with
  | nil => rfl
  | cons kind tail =>
    simp only [List.getElem?_cons_zero, Option.some.injEq]
    split
    · rfl
    · by_cases file : kind = frameFile
      · simp [file]
      · simp [file]

theorem pieces_eq {frame : Bytes} : pieces channel frame = Direct.pieces channel frame := by
  rw [pieces, Direct.pieces, split_eq]

/-- A count that fits the wire is left out by both sides or written by both. -/
theorem wireCount_eq (key : String) {count : Nat} (fits : count < 2 ^ 64) :
    wireCount key count = countField key (UInt64.ofNat count) := by
  have zero : UInt64.ofNat count = 0 ↔ count = 0 := by
    rw [← UInt64.toNat_inj, UInt64.toNat_ofNat', mod_eq_of_lt fits]
    rfl
  simp only [wireCount, countField, zero]

section

variable [WireCodec]

theorem encode_eq (message : ControlMessage) : encode message.wire = Direct.encode message := by
  unfold encode encodeFrame Direct.encode Direct.encodeFrame
  simp only
  split
  next payload is =>
    split at is
    · simp at is
    next fits =>
      rw [if_neg fits]
      simp only [Except.ok.injEq] at is
      exact is.symm
  next error is =>
    split at is
    next large => rw [if_pos large]
    · simp at is

/-- Only a control frame decodes to a control message. -/
theorem controlOf_of_kind {frame : Bytes} (other : frame[0]? ≠ some frameControl) :
    controlOf frame = none := by
  cases frame with
  | nil => rfl
  | cons kind tail =>
    have notControl : kind ≠ frameControl := by simpa using other
    simp only [controlOf, Frame.decode, decodePayload, if_neg notControl]
    split
    next msg len is =>
      split_ifs at is <;> simp at is
    · rfl

theorem controlMessage_eq (frame : Bytes) : controlMessage frame = controlOf frame := by
  unfold controlMessage
  split
  next other => exact (controlOf_of_kind other).symm
  · rfl

end

/-! ## The host's machine as the browser has it -/

def Sending.ofHost (s : Direct.Sending) : Sending := ⟨s.nextNumber, s.kept, s.unconfirmed⟩

def Receiving.ofHost (r : Direct.Receiving) : Receiving :=
  ⟨r.held, r.heldBytes, ⟨r.reassembler.buf⟩, r.delivered, r.unackedBytes⟩

def ofHost (h : Direct.Handoff) : Handoff where
  config := h.config
  currentPath := h.path
  currentLayout := h.layout
  hasAttempted := h.attempted
  switched := h.switched
  leftLink := h.leftLink
  direct := h.direct
  budgetDeadline := h.budgetDeadline
  holdingDeadline := h.holdingDeadline
  sending := h.sending.map Sending.ofHost
  receiving := h.receiving.map Receiving.ofHost
  peerHasSwitched := h.peerSwitched
  peerFallback := h.peerFallback.map fun received => received.map UInt64.toNat
  firstUnacked := h.firstUnacked

theorem map_set {α β : Type} (f : α → β) (x : PerChannel α) (c : Channel) (a : α) :
    (x.set c a).map f = (x.map f).set c (f a) := by
  cases c <;> rfl

theorem ofHost_new (config : Config) : ofHost (.new config) = .new config := rfl

theorem laneOf_ofHost {h : Direct.Handoff} : (ofHost h).laneOf channel = h.slot channel := by
  unfold Handoff.laneOf slot
  cases layout : h.layout <;> simp [ofHost, layout]

theorem window_ofHost (h : Direct.Handoff) (slot : Channel) :
    (ofHost h).window slot = h.window slot := rfl

/-- Windows whose quarter is a whole number. -/
structure Quartered (config : Config) : Prop where
  window : config.window % 4 = 0
  typingWindow : config.typingWindow % 4 = 0

/-- The counts a notice would carry are exact on both sides. -/
def Small (h : Direct.Handoff) : Prop := ∀ c, (h.receiving.get c).delivered < 2 ^ 52

/-- The rational threshold of the browser is the host's. -/
theorem quarter_le {h : Direct.Handoff} (quartered : Quartered h.config) (slot : Channel)
    (bytes : Nat) : ((h.window slot : ℚ) / 4 ≤ (bytes : ℚ)) ↔ h.window slot / 4 ≤ bytes := by
  have four : 4 * (h.window slot / 4) = h.window slot := by
    have typing := quartered.typingWindow
    have other := quartered.window
    unfold window
    split <;> omega
  generalize h.window slot / 4 = quarter at four
  rw [← four]
  push_cast
  rw [mul_div_cancel_left₀ _ (by norm_num : (4 : ℚ) ≠ 0), cast_le]

/-- What the host answers, as the browser has it. -/
abbrev viewed (answer : Direct.Handoff × List Instruction) : Handoff × List Instruction :=
  (ofHost answer.1, answer.2)

/-! ## Event by event -/

theorem noteDirect_ofHost (h : Direct.Handoff) (out : List Instruction) :
    (ofHost h).noteDirect out = (ofHost h.noteDirect.1, out ++ h.noteDirect.2) := by
  unfold Handoff.noteDirect noteDirect
  split
  next both =>
    rw [if_pos (by exact both)]
    rfl
  next no =>
    rw [if_neg (by exact no), append_nil]

theorem beginAttempt_ofHost {h : Direct.Handoff} :
    (ofHost h).beginAttempt now = ofHost (h.beginAttempt now) := by
  unfold Handoff.beginAttempt beginAttempt
  cases attempted : h.attempted with
  | true => simp [ofHost, attempted]
  | false =>
    simp only [Bool.false_eq_true, if_false]
    rw [if_pos (by simp [ofHost, attempted])]
    rfl

theorem send_ofHost (h : Direct.Handoff) (frame : Bytes) (now : Nat) :
    (ofHost h).send frame = viewed (h.send frame now) := by
  unfold Handoff.send send
  cases path : h.path with
  | relay | holding | ended => simp only [viewed, ofHost, path]
  | link =>
    have link : (ofHost h).currentPath = .link := path
    simp only [link, channelOf_eq, laneOf_ofHost, pieces_eq]
    congr 1
    simp only [ofHost, PerChannel.get_map, map_set, path]
    rfl

/-- Shifting the confirmed frames off is dropping them, with their bytes. -/
theorem shiftUpTo_eq (upTo : Nat) (kept : List (Nat × Bytes)) (bytes : Nat) :
    Handoff.shiftUpTo upTo kept bytes = (kept.dropWhile fun k => k.1 ≤ upTo,
      bytes + ((kept.takeWhile fun k => k.1 ≤ upTo).map fun k => k.2.length).sum) := by
  induction kept generalizing bytes with
  | nil => rfl
  | cons first kept ih =>
    obtain ⟨n, frame⟩ := first
    rw [Handoff.shiftUpTo]
    split
    next low =>
      rw [ih, dropWhile_cons_of_pos (by simpa using low),
        takeWhile_cons_of_pos (by simpa using low), map_cons, sum_cons,
        add_assoc]
    next high =>
      rw [dropWhile_cons_of_neg (by simpa using high),
        takeWhile_cons_of_neg (by simpa using high)]
      rfl

/-- The host's subtraction never goes below zero. -/
theorem confirmedOn_ofHost (exact' : s.unconfirmed = keptBytes s.kept) (upTo : Nat) :
    Handoff.confirmedOn (Sending.ofHost s) upTo =
      (Sending.ofHost (s.confirmUpTo upTo).1, (s.confirmUpTo upTo).2) := by
  have parts := keptBytes_confirmUpTo s upTo
  have fits : (s.confirmUpTo upTo).2 ≤ s.unconfirmed := by omega
  have shift := shiftUpTo_eq upTo s.kept 0
  rw [zero_add] at shift
  simp only [Handoff.confirmedOn, Sending.ofHost, shift]
  have less : ((s.confirmUpTo upTo).1.unconfirmed : Int) =
      (s.unconfirmed : Int) - ((s.confirmUpTo upTo).2 : Int) := by
    rw [← cast_sub fits]
    rfl
  rw [less]
  rfl

theorem confirmed_ofHost {h : Direct.Handoff}
    (exact' : ∀ c, (h.sending.get c).unconfirmed = keptBytes (h.sending.get c).kept)
    (received : Direct.Counts) :
    (ofHost h).confirmed (received.map UInt64.toNat) = viewed (h.confirmed received) := by
  have typing := confirmedOn_ofHost (exact' .typing) received.typing.toNat
  have screen := confirmedOn_ofHost (exact' .screen) received.screen.toNat
  have files := confirmedOn_ofHost (exact' .files) received.files.toNat
  simp only [PerChannel.get] at typing screen files
  simp only [viewed, Handoff.confirmed, ofHost, PerChannel.map, typing, screen, files, confirmed,
    zero_add]

theorem resendOn_ofHost {upTo : Nat} :
    Handoff.resendOn (Sending.ofHost s) upTo = (s.above upTo).map .relay := by
  simp only [Handoff.resendOn, Sending.ofHost, Sending.above]
  induction s.kept with
  | nil => rfl
  | cons first kept ih =>
    rw [flatMap_cons, ih, filter_cons]
    by_cases above : upTo < first.1 <;> simp [above]

theorem resend_ofHost (h : Direct.Handoff) (received : Direct.Counts) :
    (ofHost h).resend (received.map UInt64.toNat) = viewed (h.resend received) := by
  have on : ∀ c, Handoff.resendOn ((ofHost h).sending.get c) ((received.map UInt64.toNat).get c) =
      ((h.sending.get c).above (received.get c).toNat).map .relay := fun c => by
    simp only [ofHost, PerChannel.get_map, resendOn_ofHost]
  have typing := on .typing
  have screen := on .screen
  have files := on .files
  simp only [PerChannel.get] at typing screen files
  simp only [Handoff.resend, typing, screen, files, resend, map_append]
  rfl

section

variable [WireCodec]

variable {h : Direct.Handoff}

omit [WireCodec] in
theorem wireCounts_ofHost (small : Small h) :
    wireCounts (ofHost h).deliveredEach =
      countFields h.deliveredEach.typing h.deliveredEach.screen h.deliveredEach.files := by
  have fits : ∀ c, (h.receiving.get c).delivered < 2 ^ 64 := fun c =>
    (small c).trans (by norm_num)
  have typing := wireCount_eq "received" (fits .typing)
  have screen := wireCount_eq "received_screen" (fits .screen)
  have files := wireCount_eq "received_files" (fits .files)
  simp only [PerChannel.get] at typing screen files
  simp only [wireCounts, Handoff.deliveredEach, ofHost, PerChannel.map, Receiving.ofHost, typing,
    screen, files, countFields, deliveredEach]

omit [WireCodec] in
/-- What the browser does to every channel, seen from the host. -/
theorem map_ofHost {f : Receiving → Receiving} {g : Direct.Receiving → Direct.Receiving}
    (same : ∀ r, f (Receiving.ofHost r) = Receiving.ofHost (g r))
    (x : PerChannel Direct.Receiving) :
    (x.map Receiving.ofHost).map f = (x.map g).map Receiving.ofHost := by
  ext c
  simp only [PerChannel.get_map, same]

theorem confirm_ofHost (on : h.leftLink = false) (small : Small h) :
    (ofHost h).confirm = viewed h.confirm := by
  have acked : Small h.acked := fun c => by
    simp only [Direct.Handoff.acked, PerChannel.get_map, Receiving.acked]
    exact small c
  have notice := wireCounts_ofHost acked
  have host : h.confirm = (h.acked, Direct.pieces .typing
      (ackFrame h.acked.deliveredEach)) := by
    simp only [confirm, on, Bool.false_eq_true, if_false, Direct.Handoff.acked]
  have machine : { ofHost h with
      receiving := (ofHost h).receiving.map fun r => { r with unackedBytes := 0 }
      firstUnacked := none } = ofHost h.acked := by
    simp only [ofHost, Direct.Handoff.acked]
    rw [map_ofHost (g := Receiving.acked) fun _ => rfl]
  rw [host, Handoff.confirm]
  simp only [machine, notice, pieces_eq]
  rw [ackFrame, ← encode_eq]
  rfl

def Handoff.counted (h : Handoff) (channel : Channel) (frame : Bytes) (now : Nat) : Handoff :=
  { h with
    receiving := h.receiving.set channel { h.receiving.get channel with
      delivered := (h.receiving.get channel).delivered + 1
      unackedBytes := (h.receiving.get channel).unackedBytes + frame.length }
    firstUnacked := some (h.firstUnacked.getD now) }

theorem Handoff.deliverLink_eq (h : Handoff) (channel : Channel) (frame : Bytes) (now : Nat) :
    h.deliverLink channel frame now =
      if (h.window channel : ℚ) / 4 ≤
          (((h.receiving.get channel).unackedBytes + frame.length : Nat) : ℚ) then
        ((h.counted channel frame now).confirm.1,
          .deliver frame :: (h.counted channel frame now).confirm.2)
      else (h.counted channel frame now, [.deliver frame]) := rfl

theorem host_deliverLink_eq (h : Direct.Handoff) (slot : Channel) (frame : Bytes) (now : Nat) :
    h.deliverLink slot frame now =
      if h.window slot / 4 ≤ (h.receiving.get slot).unackedBytes + frame.length then
        ((h.counted slot frame now).confirm.1,
          .deliver frame :: (h.counted slot frame now).confirm.2)
      else (h.counted slot frame now, [.deliver frame]) := rfl

omit [WireCodec] in
theorem counted_ofHost (h : Direct.Handoff) (slot : Channel) (frame : Bytes) (now : Nat) :
    (ofHost h).counted slot frame now = ofHost (h.counted slot frame now) := by
  simp only [Handoff.counted, ofHost, Direct.Handoff.counted, PerChannel.get_map, map_set]
  cases h.firstUnacked <;> rfl

variable {Why : LeaveReason → Prop} {out : List Instruction} {h' : Direct.Handoff} (slot : Channel)
  {held : List Bytes}

/-- What a chain of link steps ends with bounds what it started with. -/
theorem Small.of_linked (chain : Emits (Linked Why) h out h') (small : Small h') :
    Small h := fun c =>
  lt_of_le_of_lt (chain.invariant
    (P := fun h' => (h.receiving.get c).delivered ≤ (h'.receiving.get c).delivered)
    (fun step below => below.trans (step.delivered_le c)) le_rfl) (small c)

theorem Small.of_quiets (chain : Emits (Quiet Why) h out h') (small : Small h') : Small h :=
  .of_linked (chain.mono .quiet) small

/-- Handing over a link frame: the one rational comparison. -/
theorem deliverLink_ofHost (on : h.leftLink = false) (quartered : Quartered h.config)
    (slot : Channel) (frame : Bytes) (now : Nat) (small : Small (h.deliverLink slot frame now).1) :
    (ofHost h).deliverLink slot frame now = viewed (h.deliverLink slot frame now) := by
  have counted : Small (h.counted slot frame now) := by
    obtain ⟨more, -, quiet⟩ := deliverLink_cases h slot frame now
    exact .of_quiets (quiet : Emits (Quiet AnyReason) _ _ _) small
  have bytes : ((ofHost h).receiving.get slot).unackedBytes =
      (h.receiving.get slot).unackedBytes := by
    simp only [ofHost, PerChannel.get_map, Receiving.ofHost]
  have confirm : (ofHost (h.counted slot frame now)).confirm = _ := confirm_ofHost on counted
  have threshold := quarter_le quartered slot ((h.receiving.get slot).unackedBytes + frame.length)
  rw [Handoff.deliverLink_eq, host_deliverLink_eq, window_ofHost, bytes, counted_ofHost, confirm]
  by_cases due : h.window slot / 4 ≤ (h.receiving.get slot).unackedBytes + frame.length
  · rw [if_pos (threshold.mpr due), if_pos due]
  · rw [if_neg (fun le => due (threshold.mp le)), if_neg due]

/-- What leaving the link leaves of one channel. -/
def Receiving.dropped (r : Receiving) : Receiving :=
  { r with held := [], heldBytes := 0, reassembler := .new, unackedBytes := 0 }

def Handoff.departed (h : Handoff) (now : Nat) : Handoff :=
  let h := { h with
    leftLink := true
    hasAttempted := true
    budgetDeadline := none
    receiving := h.receiving.map Receiving.dropped
    firstUnacked := none }
  if h.currentPath = .link then
    { h with currentPath := .holding, holdingDeadline := some (now + peerFallbackWaitMs) }
  else h

def Handoff.farewell (h : Handoff) (reason : LeaveReason) : List Instruction :=
  [.closeLink, .relay (encode (("type", .str "DirectFallback") :: wireCounts h.deliveredEach)),
    .outcome (if h.direct then .dropped else .noRoute), .left reason]

theorem Handoff.leave_eq {h : Handoff} (on : h.leftLink = false) (reason : LeaveReason)
    (now : Nat) :
    h.leave reason now =
      if h.currentPath = .link then
        match h.peerFallback with
        | some received =>
          (((h.departed now).resend received).1,
            h.farewell reason ++ ((h.departed now).resend received).2)
        | none => (h.departed now, h.farewell reason)
      else (h.departed now, h.farewell reason) := by
  have each : (h.receiving.map Receiving.dropped).map Receiving.delivered = h.deliveredEach := by
    ext c
    simp only [PerChannel.get_map, Handoff.deliveredEach, Receiving.dropped]
  unfold leave
  rw [if_neg (by rw [on]; exact Bool.false_ne_true)]
  by_cases path : h.currentPath = .link
  · simp only [departed, farewell, path, if_true, ← each]
    rfl
  · simp only [departed, farewell, path, if_false, ← each]
    rfl

omit [WireCodec] in
theorem departed_ofHost : (ofHost h).departed now = ofHost (h.departed now) := by
  have empty : (ofHost h).receiving.map Receiving.dropped =
      (h.receiving.map Direct.Receiving.dropped).map Receiving.ofHost :=
    map_ofHost (fun _ => rfl) h.receiving
  unfold Handoff.departed departed
  rw [empty]
  by_cases path : h.path = .link
  · simp only [ofHost, path, if_true]
    rfl
  · simp only [ofHost, path, if_false]

theorem farewell_ofHost (small : Small h) {reason : LeaveReason} :
    (ofHost h).farewell reason = h.farewell reason := by
  rw [Handoff.farewell, wireCounts_ofHost small, farewell, fallbackFrame, ← encode_eq]
  rfl

/-- Leaving the link: a side that has not left is on the relay or on the link, so
it holds exactly when it was on the link. -/
theorem leave_ofHost (small : Small h)
    (course : h.leftLink = false → h.path = .relay ∨ h.path = .link)
    (reason : LeaveReason) (now : Nat) :
    (ofHost h).leave reason now = viewed (h.leave reason now) := by
  cases left : h.leftLink with
  | true => rw [leave_left left, Handoff.leave, if_pos (by exact left)]
  | false =>
    rw [leave_eq left, Handoff.leave_eq (by exact left), departed_ofHost,
      farewell_ofHost small]
    rcases course left with path | path
    · have stays : (h.departed now).path ≠ .holding := by
        simp only [departed, path, reduceCtorEq, if_false, ne_eq, not_false_eq_true]
      rw [if_neg (by rw [show (ofHost h).currentPath = h.path from rfl, path]; decide)]
      cases h.peerFallback with
      | none => rfl
      | some received => simp only [if_neg stays]
    · have holds : (h.departed now).path = .holding := by
        simp only [departed, path, if_true, setPath]
      rw [if_pos (by exact path)]
      cases known : h.peerFallback with
      | none => simp only [viewed, ofHost, known, map_none]
      | some received =>
        have resent := resend_ofHost (h.departed now) received
        simp only [if_pos holds]
        rw [show (ofHost h).peerFallback = some (received.map UInt64.toNat) by
          simp only [ofHost, known, map_some]]
        simp only [resent]

theorem linkOpen_ofHost (wf : Wf h) (layout : Layout) (now : Nat) :
    (ofHost h).linkOpen layout = viewed (h.linkOpen now layout) := by
  have switch : encode [("type", .str "DirectSwitch")] = switchFrame :=
    encode_eq .directSwitch
  unfold Handoff.linkOpen linkOpen
  by_cases closed : h.switched ∨ h.leftLink
  · rw [if_pos (by simpa [ofHost] using closed), if_pos (by simpa using Or.inl closed)]
  · -- a side that has not switched is on the relay, so the host's third guard is idle
    obtain ⟨unswitched, on⟩ := not_or.mp closed
    have path := (wf.course.of_unswitched (by simpa using unswitched)).2.1
    have theirs : (h.switched || h.leftLink || h.path != .relay) = false := by
      simp [unswitched, on, path]
    rw [if_neg (by simpa [ofHost] using closed), if_neg (by rw [theirs]; exact Bool.false_ne_true)]
    simp only
    rw [← singleton_append (l := Prod.snd _), ← switch]
    exact noteDirect_ofHost ({ h with switched := true, layout := layout }.setPath .link) _

/-! ### The switch notice -/

theorem quiets_config (chain : Emits (Quiet Why) h out h') : h'.config = h.config :=
  chain.invariant (P := fun h' => h'.config = h.config) (fun step same => step.config.trans same)
    rfl

/-- Handing over a frame does not look at what is held. -/
theorem deliverLink_withHeld {slot : Channel} {frame : Bytes} :
    (h.withHeld slot held).deliverLink slot frame now =
      ((h.deliverLink slot frame now).1.withHeld slot held, (h.deliverLink slot frame now).2) := by
  have counted : (h.withHeld slot held).counted slot frame now =
      (h.counted slot frame now).withHeld slot held := by
    cases slot <;> rfl
  have confirm : ∀ h : Direct.Handoff, (h.withHeld slot held).confirm =
      (h.confirm.1.withHeld slot held, h.confirm.2) := by
    intro h
    unfold confirm
    cases left : h.leftLink <;> cases slot <;>
      simp only [withHeld, left, Bool.false_eq_true, if_false, if_true] <;> rfl
  have bytes : ((h.withHeld slot held).receiving.get slot).unackedBytes =
      (h.receiving.get slot).unackedBytes := by
    cases slot <;> rfl
  rw [host_deliverLink_eq, host_deliverLink_eq, counted, confirm, bytes,
    show (h.withHeld slot held).window slot = h.window slot from rfl]
  split <;> rfl

/-- The host takes the held frames off one by one, the browser all at once. -/
theorem releaseHeld_ofHost (on : h.leftLink = false) (peer : h.peerSwitched)
    (quartered : Quartered h.config) (here : (h.receiving.get slot).held = held)
    (small : Small (releaseHeld slot now held h).1) :
    Handoff.releaseHeld slot now held (ofHost (h.withHeld slot [])) =
      viewed (releaseHeld slot now held h) := by
  induction held generalizing h with
  | nil =>
    have same : h.withHeld slot [] = h := by
      rw [withHeld, ← here]
      cases slot <;> rfl
    rw [same]
    rfl
  | cons frame held ih =>
    have turn : releaseHeld slot now (frame :: held) h =
        ((releaseHeld slot now held
            ((h.withHeld slot held).deliverLink slot frame now).1).1,
          ((h.withHeld slot held).deliverLink slot frame now).2 ++
            (releaseHeld slot now held
              ((h.withHeld slot held).deliverLink slot frame now).1).2) := rfl
    rw [turn] at small ⊢
    have on' : ((h.withHeld slot held).deliverLink slot frame now).1.leftLink = false := by
      rw [deliverLink_leftLink]
      exact on
    have peer' : ((h.withHeld slot held).deliverLink slot frame now).1.peerSwitched := by
      rw [deliverLink_peerSwitched]
      exact peer
    have here' : (((h.withHeld slot held).deliverLink slot frame now).1.receiving.get slot).held =
        held := by
      rw [deliverLink_held]
      simp only [withHeld, PerChannel.get_set_self]
    obtain ⟨ack, -, quiet⟩ :
        ∃ more, _ = _ :: more ∧ Emits (Quiet AnyReason) _ more _ :=
      deliverLink_cases (h.withHeld slot held) slot frame now
    have quartered' : Quartered ((h.withHeld slot held).deliverLink slot frame now).1.config := by
      rw [quiets_config quiet]
      exact quartered
    obtain ⟨rest, -, -⟩ :
        Emits (Quiet AnyReason) _ _ _ ∧ _ ∧ _ :=
      releaseHeld_quiet slot now held _ on' peer' here'
    have later := ih on' peer' quartered' here' small
    have delivered := deliverLink_ofHost (h := h.withHeld slot []) on quartered slot frame now
    have again : h.withHeld slot [] = (h.withHeld slot held).withHeld slot [] := by
      cases slot <;> rfl
    rw [again, deliverLink_withHeld] at delivered
    have smallFirst : Small (((h.withHeld slot held).deliverLink slot frame now).1.withHeld
        slot []) := by
      intro c
      have bound := Small.of_quiets rest small c
      simp only [withHeld, PerChannel.get_set]
      split
      next same => exact same ▸ bound
      · exact bound
    rw [Handoff.releaseHeld, again, delivered smallFirst]
    simp only [later]

theorem releaseSlot_ofHost (on : h.leftLink = false) (peer : h.peerSwitched)
    (quartered : Quartered h.config) (small : Small (h.releaseSlot slot now).1) :
    (ofHost h).releaseChannel slot now = viewed (h.releaseSlot slot now) := by
  have released := releaseHeld_ofHost slot
    (h := h.withoutHeldBytes slot) on peer quartered
    (by simp only [withoutHeldBytes, PerChannel.get_set_self]) small
  have held : ((ofHost h).receiving.get slot).held = (h.receiving.get slot).held := by
    simp only [ofHost, PerChannel.get_map, Receiving.ofHost]
  have cleared : { ofHost h with
      receiving := (ofHost h).receiving.set slot { (ofHost h).receiving.get slot with
        held := [], heldBytes := 0 } } = ofHost ((h.withoutHeldBytes slot).withHeld slot []) := by
    cases slot <;> rfl
  rw [Handoff.releaseChannel]
  simp only [held, cleared]
  exact released

theorem notePeerSwitched_ofHost (quartered : Quartered h.config)
    (small : Small (h.notePeerSwitched now).1) :
    (ofHost h).peerSwitched now = viewed (h.notePeerSwitched now) := by
  unfold Handoff.peerSwitched
  unfold notePeerSwitched at small ⊢
  by_cases stale : (h.peerSwitched || h.leftLink)
  · rw [if_pos (by exact stale), if_pos stale]
  · rw [if_neg stale] at small ⊢
    rw [if_neg (by exact stale)]
    simp only [Bool.or_eq_true, not_or, Bool.not_eq_true] at stale
    have direct : { ofHost h with peerHasSwitched := true }.noteDirect [] = _ :=
      noteDirect_ofHost { h with peerSwitched := true } []
    generalize is : ({ h with peerSwitched := true } : Direct.Handoff).noteDirect = first at *
    have on0 : first.1.leftLink = false := by
      rw [← is, noteDirect_leftLink]
      exact stale.2
    have peer0 : first.1.peerSwitched := by
      rw [← is, noteDirect_peerSwitched]
    have quartered0 : Quartered first.1.config := by
      rw [← is]
      unfold noteDirect
      split <;> exact quartered
    obtain ⟨typing, on1, peer1⟩ :
        Emits (Quiet AnyReason) _ _ _ ∧ _ ∧ _ :=
      releaseSlot_quiet first.1 .typing now on0 peer0
    obtain ⟨screen, on2, peer2⟩ :
        Emits (Quiet AnyReason) _ _ _ ∧ _ ∧ _ :=
      releaseSlot_quiet _ .screen now on1 peer1
    obtain ⟨files, -, -⟩ :
        Emits (Quiet AnyReason) _ _ _ ∧ _ ∧ _ :=
      releaseSlot_quiet _ .files now on2 peer2
    have small2 := Small.of_quiets files small
    have small1 := Small.of_quiets screen small2
    have quartered1 := (quiets_config typing).symm ▸ quartered0
    have quartered2 := (quiets_config screen).symm ▸ quartered1
    simp only [direct, releaseSlot_ofHost .typing on0 peer0 quartered0 small1,
      releaseSlot_ofHost .screen on1 peer1 quartered1 small2,
      releaseSlot_ofHost .files on2 peer2 quartered2 small, nil_append]

/-! ### The events -/

omit [WireCodec] in
/-- A side that has not left is on the relay or on the link. -/
theorem relay_or_link (wf : Wf h) (on : h.leftLink = false) :
    h.path = .relay ∨ h.path = .link := by
  cases switched : h.switched with
  | false => exact .inl (wf.course.of_unswitched switched).2.1
  | true => exact .inr (wf.course.on_link switched on)

theorem peerFellBack_ofHost (wf : Wf h) (received : Direct.Counts) (now : Nat)
    (small : Small (h.peerFellBack received now).1) :
    (ofHost h).peerFellBack (received.map UInt64.toNat) now =
      viewed (h.peerFellBack received now) := by
  have chain : Emits (Quiet AnyReason) _ _ _ :=
    peerFellBack_quiet h received trivial now
  have course := @relay_or_link h wf
  have left := leave_ofHost (h := { h with peerFallback := some received })
    (Small.of_quiets chain small) (by exact course) .peerFellBack now
  have resent := resend_ofHost { h with peerFallback := some received } received
  unfold Handoff.peerFellBack peerFellBack
  by_cases on : (!h.leftLink)
  · rw [if_pos (by exact on), if_pos on]
    exact left
  · rw [if_neg (by exact on), if_neg on]
    by_cases path : h.path = .holding
    · rw [if_pos (by exact path), if_pos path]
      exact resent
    · rw [if_neg (by exact path), if_neg path]
      rfl

theorem fromRelay_ofHost (wf : Wf h) (quartered : Quartered h.config) {frame : Bytes}
    (small : Small (h.fromRelay frame now).1) :
    (ofHost h).fromRelay frame now = viewed (h.fromRelay frame now) := by
  unfold Handoff.fromRelay
  unfold fromRelay at small ⊢
  rw [controlMessage_eq]
  cases decoded : controlOf frame with
  | none => rfl
  | some msg =>
    rw [decoded] at small
    cases msg with
    | directSwitch => exact notePeerSwitched_ofHost quartered small
    | directFallback r s f => exact peerFellBack_ofHost wf ⟨r, s, f⟩ now small
    | directOffer | directAnswer | iceCandidate | directRefused | directAck | other => rfl

/-- A frame of the session from the link: held ahead of the peer's notice, handed
over behind it. -/
theorem session_ofHost (wf : Wf h) (on : h.leftLink = false)
    (quartered : Quartered h.config) (before : Small h) (slot : Channel) (frame : Bytes) (now : Nat)
    {host : Direct.Handoff × List Instruction} (small : Small host.1)
    (is : host = if !h.peerSwitched then
        if (h.hold slot frame).heldLimit < (h.hold slot frame).heldBytes then
          (h.hold slot frame).leave .overflow now
        else (h.hold slot frame, [])
      else h.deliverLink slot frame now) :
    (if !(ofHost h).peerHasSwitched then
        if (ofHost (h.hold slot frame)).heldLimit < (h.hold slot frame).heldBytes then
          (ofHost (h.hold slot frame)).leave .overflow now
        else (ofHost (h.hold slot frame), [])
      else (ofHost h).deliverLink slot frame now) = viewed host := by
  have course := @relay_or_link h wf
  have kept : Small (h.hold slot frame) := by
    intro c
    simp only [hold, PerChannel.get_set, Receiving.hold]
    split
    next same => exact same ▸ before c
    · exact before c
  have limit : (ofHost (h.hold slot frame)).heldLimit = (h.hold slot frame).heldLimit := rfl
  rw [show (ofHost h).peerHasSwitched = h.peerSwitched from rfl, limit]
  cases peer : h.peerSwitched with
  | false =>
    simp only [peer, Bool.not_false, if_true] at is ⊢
    by_cases past : (h.hold slot frame).heldLimit < (h.hold slot frame).heldBytes
    · rw [if_pos past] at is ⊢
      rw [is]
      exact leave_ofHost kept (by exact course) .overflow now
    · rw [if_neg past] at is ⊢
      rw [is]
  | true =>
    simp only [peer, Bool.not_true, Bool.false_eq_true, if_false] at is ⊢
    rw [is] at small ⊢
    exact deliverLink_ofHost on quartered slot frame now small

theorem linkFrame_ofHost (wf : Wf h) (on : h.leftLink = false)
    (quartered : Quartered h.config) (slot : Channel) (frame : Bytes) (now : Nat)
    (small : Small (h.linkFrame slot frame now).1) :
    (ofHost h).linkFrame slot frame now = viewed (h.linkFrame slot frame now) := by
  have chain := linkFrame_linked on
    (show AnyReason .overflow from trivial) slot frame now
  have session := session_ofHost wf on quartered (Small.of_linked chain small) slot frame now small
  have held : { ofHost h with
      receiving := (ofHost h).receiving.set slot { (ofHost h).receiving.get slot with
        heldBytes := ((ofHost h).receiving.get slot).heldBytes + frame.length
        held := ((ofHost h).receiving.get slot).held ++ [frame] } }
          = ofHost (h.hold slot frame) := by
    cases slot <;> rfl
  have total : ∀ h : Direct.Handoff,
      (ofHost h).receiving.toList.foldl (fun sum r => sum + r.heldBytes) 0 = h.heldBytes := by
    intro h
    simp only [ofHost, PerChannel.toList, PerChannel.map, Receiving.ofHost, foldl_cons,
      foldl_nil, heldBytes, PerChannel.sum, zero_add]
  have receiving := congrArg Handoff.receiving held
  simp only at receiving
  unfold Handoff.linkFrame
  simp only [receiving, total, controlMessage_eq]
  unfold linkFrame at session ⊢
  cases decoded : controlOf frame with
  | none =>
    rw [decoded] at session
    exact session rfl
  | some msg =>
    rw [decoded] at session
    cases msg with
    | directAck r s f => exact confirmed_ofHost wf.unconfirmed ⟨r, s, f⟩
    | directOffer | directAnswer | iceCandidate | directRefused | directSwitch | directFallback
    | other => exact session rfl

theorem linkFrames_ofHost (frames : List Bytes) (wf : Wf h) (on : h.leftLink = false)
    (quartered : Quartered h.config) (small : Small (linkFrames slot now frames h).1) :
    Handoff.linkFrames slot now frames (ofHost h) =
      viewed (linkFrames slot now frames h) := by
  induction frames generalizing h with
  | nil => rfl
  | cons frame frames ih =>
    have chain := linkFrame_linked on
      (show AnyReason .overflow from trivial) slot frame now
    rw [Handoff.linkFrames]
    rw [linkFrames] at small ⊢
    simp only at small ⊢
    cases left : (h.linkFrame slot frame now).1.leftLink with
    | true =>
      rw [left, if_pos rfl] at small
      have first := linkFrame_ofHost wf on quartered slot frame now small
      rw [first, if_pos (by exact left), if_pos rfl]
    | false =>
      rw [left, if_neg Bool.false_ne_true] at small
      have rest := linkFrames_linked slot now frames left
        (show AnyReason .overflow from trivial)
      have first := linkFrame_ofHost wf on quartered slot frame now
        (Small.of_linked rest small)
      have config : (h.linkFrame slot frame now).1.config = h.config :=
        chain.invariant (P := fun h' => h'.config = h.config)
          (fun step same => step.config.trans same) rfl
      have later := ih (chain.invariant (fun step => step.wf) wf) left
        (config.symm ▸ quartered) small
      rw [first, if_neg (by
        rw [show (ofHost (h.linkFrame slot frame now).1).leftLink = _ from left]
        exact Bool.false_ne_true), if_neg Bool.false_ne_true]
      simp only [later]

theorem fromLink_ofHost (wf : Wf h) (quartered : Quartered h.config) (piece : Bytes)
    (small : Small (h.fromLink channel piece now).1) :
    (ofHost h).fromLink channel piece now = viewed (h.fromLink channel piece now) := by
  cases left : h.leftLink with
  | true =>
    rw [Handoff.fromLink, if_pos (by exact left), fromLink, if_pos left]
  | false =>
    obtain ⟨same, frames⟩ := push_eq piece
    have ours : ((ofHost h).receiving.get channel).reassembler =
        ⟨(h.receiving.get channel).reassembler.buf⟩ := by
      simp only [ofHost, PerChannel.get_map, Receiving.ofHost]
    generalize pushed : (h.receiving.get channel).reassembler.push piece = theirs at *
    have step : Linked AnyReason h [] _ :=
      .reassemble h channel theirs.1 left
    have machine : { ofHost h with
        receiving := (ofHost h).receiving.set channel { (ofHost h).receiving.get channel with
          reassembler := ⟨theirs.1.buf⟩ } } = ofHost (h.withReassembler channel theirs.1) := by
      cases channel <;> rfl
    rw [Handoff.fromLink, if_neg (by
      rw [show (ofHost h).leftLink = h.leftLink from rfl, left]
      exact Bool.false_ne_true)]
    rw [fromLink, if_neg (by rw [left]; exact Bool.false_ne_true)] at small ⊢
    simp only [pushed] at small ⊢
    simp only [ours, same, machine]
    cases taken : theirs.2 with
    | ok whole =>
      rw [taken] at frames small
      have got : ((⟨(h.receiving.get channel).reassembler.buf⟩ : Reassembler).push piece).2 =
          .ok whole := by
        cases result : ((⟨(h.receiving.get channel).reassembler.buf⟩ : Reassembler).push
          piece).2 <;> simp_all [Except.toOption]
      simp only [got]
      exact linkFrames_ofHost channel whole (step.wf wf) left quartered small
    | error e =>
      rw [taken] at frames small
      have threw : ∃ message, ((⟨(h.receiving.get channel).reassembler.buf⟩ :
          Reassembler).push piece).2 = .error message := by
        cases result : ((⟨(h.receiving.get channel).reassembler.buf⟩ : Reassembler).push
          piece).2 <;> simp_all [Except.toOption]
      obtain ⟨message, threw⟩ := threw
      have chain : Emits (Quiet AnyReason) _ _ _ :=
        leave_quiet (h.withReassembler channel theirs.1)
          (show AnyReason .reassembly from trivial) now
      simp only [threw]
      exact leave_ofHost (Small.of_quiets chain small) (relay_or_link (step.wf wf))
        .reassembly now

/-! ### The timers -/

theorem tickAck_ofHost (wf : Wf h) (small : Small h) :
    (ofHost h).tickAck now = viewed (h.tickAck now) := by
  unfold Handoff.tickAck tickAck
  rw [show (ofHost h).firstUnacked = h.firstUnacked from rfl]
  cases unacked : h.firstUnacked with
  | none => rfl
  | some first =>
    -- a side that left has nothing to confirm, so the host's guard is idle
    have on : h.leftLink = false := by
      by_contra left
      have none := (wf.emptied (by simpa using left)).firstUnacked
      simp only [unacked, reduceCtorEq] at none
    by_cases due : first + ackDelayMs ≤ now
    · simp only [any_some, due, decide_true, if_true]
      exact confirm_ofHost on small
    · simp only [any_some, due, decide_false, if_false, Bool.false_eq_true]

theorem tickBudget_ofHost (wf : Wf h) (small : Small h) :
    (ofHost h).tickBudget now = viewed (h.tickBudget now) := by
  have course := @relay_or_link h wf
  unfold Handoff.tickBudget tickBudget
  rw [show (ofHost h).budgetDeadline = h.budgetDeadline from rfl]
  cases h.budgetDeadline with
  | none => rfl
  | some deadline =>
    by_cases due : deadline ≤ now
    · simp only [any_some, due, decide_true, if_true]
      by_cases late : (!(h.switched && h.peerSwitched))
      · rw [if_pos (by exact late), if_pos late]
        exact leave_ofHost (h := { h with budgetDeadline := none }) small (by exact course)
          .budget now
      · rw [if_neg (by exact late), if_neg late]
        rfl
    · simp only [any_some, due, decide_false, if_false, Bool.false_eq_true]

omit [WireCodec] in
theorem tickHolding_ofHost : (ofHost h).tickHolding now = viewed (h.tickHolding now) := by
  unfold Handoff.tickHolding tickHolding
  rw [show (ofHost h).holdingDeadline = h.holdingDeadline from rfl]
  cases h.holdingDeadline with
  | none => rfl
  | some deadline =>
    by_cases due : deadline ≤ now
    · simp only [any_some, due, decide_true, if_true]
      rfl
    · simp only [any_some, due, decide_false, if_false, Bool.false_eq_true]

theorem tick_ofHost (wf : Wf h) (small : Small (h.tick now).1) :
    (ofHost h).tick now = viewed (h.tick now) := by
  have ack : Emits (Quiet AnyReason) _ _ _ :=
    tickAck_quiet h now
  have budget : Emits (Quiet AnyReason) _ _ _ :=
    tickBudget_quiet (h.tickAck now).1 trivial now
  have last : Small ((h.tickAck now).1.tickBudget now).1 := by
    intro c
    have bound := small c
    unfold tick tickHolding at bound
    simp only at bound
    split at bound <;> exact bound
  have middle := Small.of_quiets budget last
  have wf' : Wf (h.tickAck now).1 := ack.invariant (fun step => step.wf) wf
  simp only [Handoff.tick, tickAck_ofHost wf (Small.of_quiets ack middle),
    tickBudget_ofHost wf' middle, tickHolding_ofHost, tick]

/-! ## Every run -/

/-- One event of the browser's machine is the host's. -/
theorem event_ofHost (wf : Wf h) (quartered : Quartered h.config) (e : Event)
    (small : Small (h.event e).1) : (ofHost h).event e = viewed (h.event e) := by
  cases e with
  | beginAttempt now =>
    simp only [Handoff.event, event, beginAttempt_ofHost]
  | linkOpen now layout => exact linkOpen_ofHost wf layout now
  | send frame now => exact send_ofHost h frame now
  | fromRelay frame now => exact fromRelay_ofHost wf quartered small
  | fromLink channel piece now => exact fromLink_ofHost wf quartered piece small
  | linkLost reason now =>
    have chain : Emits (Quiet AnyReason) _ _ _ :=
      leave_quiet h (show AnyReason reason from trivial) now
    exact leave_ofHost (Small.of_quiets chain small) (relay_or_link wf) reason now
  | tick now => exact tick_ofHost wf small

end

/-- What a caller can ask a hand-off between two events. -/
structure Seen where
  path : Path
  layout : Layout
  kept : Nat
  canTake : PerChannel Bool
  nextDeadline : Option Nat
  deriving DecidableEq, Repr

def Handoff.seen (h : Handoff) : Seen :=
  ⟨h.currentPath, h.currentLayout, h.kept,
    ⟨h.canTake .typing, h.canTake .screen, h.canTake .files⟩, h.nextDeadline⟩

def hostSeen (h : Direct.Handoff) : Seen :=
  ⟨h.path, h.layout, h.kept, ⟨h.canTake .typing, h.canTake .screen, h.canTake .files⟩,
    h.nextDeadline⟩

theorem canTake_ofHost {h : Direct.Handoff} : (ofHost h).canTake channel = h.canTake channel := by
  unfold Handoff.canTake canTake
  rw [show (ofHost h).currentPath = h.path from rfl, laneOf_ofHost, window_ofHost]
  cases h.path with
  | relay | holding | ended => rfl
  | link =>
    simp only [ofHost, PerChannel.get_map, Sending.ofHost, cast_lt]

theorem nextDeadline_ofHost {h : Direct.Handoff} : (ofHost h).nextDeadline = h.nextDeadline := by
  unfold Handoff.nextDeadline nextDeadline
  simp only [ofHost]
  cases h.budgetDeadline <;> cases h.holdingDeadline <;> cases h.firstUnacked <;> rfl

theorem seen_ofHost {h : Direct.Handoff} : (ofHost h).seen = hostSeen h := by
  have kept : (ofHost h).kept = h.kept := by
    simp only [Handoff.kept, ofHost, PerChannel.toList, PerChannel.map, Sending.ofHost,
      foldl_cons, foldl_nil, kept, PerChannel.sum, zero_add]
  simp only [Handoff.seen, hostSeen, canTake_ofHost, nextDeadline_ofHost, kept]
  rfl

section

variable [WireCodec]

/-- The browser's machine along the events: what it answers to each, and what can
be seen of it after. -/
def Handoff.trace (h : Handoff) : List Event → List (List Instruction × Seen)
  | [] => []
  | e :: es => ((h.event e).2, (h.event e).1.seen) :: (h.event e).1.trace es

def hostTrace (h : Direct.Handoff) : List Event → List (List Instruction × Seen)
  | [] => []
  | e :: es => ((h.event e).2, hostSeen (h.event e).1) :: hostTrace (h.event e).1 es

theorem trace_ofHost (es : List Event) {h : Direct.Handoff} (wf : Wf h)
    (quartered : Quartered h.config) (small : Small (h.run es).1) :
    (ofHost h).trace es = hostTrace h es := by
  induction es generalizing h with
  | nil => rfl
  | cons e es ih =>
    have later : Small ((h.event e).1.run es).1 := small
    have first : Small (h.event e).1 := fun c =>
      lt_of_le_of_lt (run_delivered_le) (later c)
    have quartered' : Quartered (h.event e).1.config := by
      rw [event_config]
      exact quartered
    rw [Handoff.trace, event_ofHost wf quartered e first]
    simp only [seen_ofHost, ih (event_wf wf) quartered' later, hostTrace]

/-- **One hand-off, written twice.**  From one configuration, both machines answer
every event with the same instructions and can be seen in the same state after
it. -/
theorem same_machine (config : Config) (quartered : Quartered config) (es : List Event)
    (small : Small ((Direct.Handoff.new config).run es).1) :
    (Handoff.new config).seen = hostSeen (.new config) ∧
      (Handoff.new config).trace es = hostTrace (.new config) es := by
  rw [← ofHost_new]
  exact ⟨seen_ofHost, trace_ofHost es (wf_new config) quartered small⟩

end

end OpenGate.Web

namespace OpenGate.Web

open Direct

/-- Both machines with the shipped numbers, out to the link and back. -/
theorem same_machine_out_and_back :
    let es : List Event := [.beginAttempt 0, .linkOpen 1 .separate, .send [0x05] 2,
      .fromLink .typing [0x06] 3, .linkLost .silence 4, .tick 10004]
    Quartered .default ∧ Small ((Direct.Handoff.new .default).run es).1 ∧
      (Handoff.new .default).trace es = hostTrace (.new .default) es := by
  intro es
  have quartered : Quartered .default := ⟨rfl, rfl⟩
  have small : Small ((Direct.Handoff.new .default).run es).1 := by
    intro c
    cases c <;> decide
  exact ⟨quartered, small, (same_machine .default quartered es small).2⟩

end OpenGate.Web
