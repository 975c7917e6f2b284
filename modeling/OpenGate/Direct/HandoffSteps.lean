import OpenGate.Direct.Handoff
import OpenGate.Lib.Emits

/-!
# What an event can do

Every event of the hand-off is a chain of small steps, and the steps are few.
`Quiet` lists those the machine takes by itself: open the attempt, switch, note
the direct outcome, confirm, leave, re-send, release a held frame.  `Linked` adds
what a piece from the link can bring, and `Micro` the frames to send, what the
relay brings, and the end of a wait that ran out.

`event_micro` is the inversion everything else uses: whatever holds of each small
step holds of each event.
-/

namespace OpenGate.Direct

open Lib PerChannel Emits

namespace Handoff

/-- Everything delivered is confirmed. -/
def acked (h : Handoff) : Handoff :=
  { h with receiving := h.receiving.map Receiving.acked, firstUnacked := none }

/-- One more frame delivered; its confirmation waits from the first that is not confirmed. -/
def counted (h : Handoff) (slot : Channel) (frame : Bytes) (now : Nat) : Handoff :=
  { h with
    receiving := h.receiving.set slot ((h.receiving.get slot).count frame)
    firstUnacked := h.firstUnacked.or (some now) }

def withHeld (h : Handoff) (slot : Channel) (held : List Bytes) : Handoff :=
  { h with receiving := h.receiving.set slot { h.receiving.get slot with held := held } }

def withoutHeldBytes (h : Handoff) (slot : Channel) : Handoff :=
  { h with receiving := h.receiving.set slot { h.receiving.get slot with heldBytes := 0 } }

def withReassembler (h : Handoff) (slot : Channel) (r : Reassembler) : Handoff :=
  { h with receiving := h.receiving.set slot { h.receiving.get slot with reassembler := r } }

/-- A frame taken for the link. -/
def numbered (h : Handoff) (frame : Bytes) : Handoff :=
  let slot := h.slot (Channel.of frame)
  { h with sending := h.sending.set slot ((h.sending.get slot).take frame) }

/-- The link left, by the state alone; `farewell` is what is said. -/
def departed (h : Handoff) (now : Nat) : Handoff :=
  let h := { h with
    leftLink := true
    attempted := true
    budgetDeadline := none
    receiving := h.receiving.map Receiving.dropped
    firstUnacked := none
    leftAt := some now }
  if h.path = .link then
    { h with holdingDeadline := some (now + peerFallbackWaitMs) }.setPath .holding
  else h

@[simp] theorem noteDirect_leftLink (h : Handoff) : h.noteDirect.1.leftLink = h.leftLink := by
  unfold noteDirect
  split <;> rfl

@[simp] theorem noteDirect_peerSwitched (h : Handoff) :
    h.noteDirect.1.peerSwitched = h.peerSwitched := by
  unfold noteDirect
  split <;> rfl

@[simp] theorem departed_leftLink {h : Handoff} {now : Nat} : (h.departed now).leftLink := by
  unfold departed
  simp only
  split <;> rfl

@[simp] theorem departed_peerFallback {h : Handoff} {now : Nat} :
    (h.departed now).peerFallback = h.peerFallback := by
  unfold departed
  simp only
  split <;> rfl

theorem departed_receiving (h : Handoff) (now : Nat) :
    (h.departed now).receiving = h.receiving.map Receiving.dropped := by
  unfold departed
  simp only
  split <;> rfl

variable [WireCodec] {received : Counts}

section

variable [LawfulCodec]

theorem controlOf_switchFrame : controlOf switchFrame = some .directSwitch := controlOf_encode rfl

theorem controlOf_fallbackFrame (received : Counts) : controlOf (fallbackFrame received) =
    some (.directFallback received.typing received.screen received.files) := controlOf_encode rfl

theorem controlOf_ackFrame : controlOf (ackFrame received) =
    some (.directAck received.typing received.screen received.files) := controlOf_encode rfl

end

/-- The wait for the peer is over. -/
def expired (h : Handoff) : Handoff := { h with holdingDeadline := none }.setPath .ended

/-- What a side that leaves is told to do, before what it may have to send again. -/
def farewell (h : Handoff) (reason : LeaveReason) : List Instruction :=
  [.closeLink, .relay (fallbackFrame h.deliveredEach),
    .outcome (if h.direct then .dropped else .noRoute), .left reason]

/-- A step the machine takes by itself.  `Why` is what the reasons to leave
satisfy. -/
inductive Quiet (Why : LeaveReason → Prop) : Handoff → List Instruction → Handoff → Prop
  | attempt (h : Handoff) (now : Nat) : h.attempted = false →
    Quiet Why h []
    { h with attempted := true, budgetDeadline := some (now + h.config.attemptBudgetMs) }
  | switch (h : Handoff) (layout : Layout) :
    h.switched = false → h.leftLink = false → h.path = .relay →
    Quiet Why h [.relay switchFrame] ({ h with switched := true, layout := layout }.setPath .link)
  | direct (h : Handoff) : h.switched = true → h.peerSwitched = true → h.direct = false →
    h.leftLink = false →
    Quiet Why h [.outcome .direct] { h with direct := true, budgetDeadline := none }
  | ack (h : Handoff) : h.leftLink = false →
    Quiet Why h (pieces .typing (ackFrame h.deliveredEach)) h.acked
  | lateAck (h : Handoff) : h.leftLink = true → Quiet Why h [] h.acked
  | dropBudget (h : Handoff) : Quiet Why h [] { h with budgetDeadline := none }
  | leave (h : Handoff) (reason : LeaveReason) (now : Nat) : Why reason → h.leftLink = false →
    Quiet Why h (h.farewell reason) (h.departed now)
  | resend (h : Handoff) (received : Counts) :
    h.path = .holding → h.peerFallback = some received →
    Quiet Why h (h.resend received).2 (h.resend received).1
  | forgetHeldBytes (h : Handoff) (slot : Channel) : h.leftLink = false → h.peerSwitched = true →
    Quiet Why h [] (h.withoutHeldBytes slot)
  | release (h : Handoff) (slot : Channel) (frame : Bytes) (held : List Bytes) (now : Nat) :
    h.leftLink = false → h.peerSwitched = true → (h.receiving.get slot).held = frame :: held →
    Quiet Why h [.deliver frame] ((h.withHeld slot held).counted slot frame now)

/-- A step on what the link brings. -/
inductive Linked (Why : LeaveReason → Prop) : Handoff → List Instruction → Handoff → Prop
  | quiet {h h' : Handoff} {out : List Instruction} : Quiet Why h out h' → Linked Why h out h'
  | reassemble (h : Handoff) (slot : Channel) (r : Reassembler) : h.leftLink = false →
    Linked Why h [] (h.withReassembler slot r)
  | hold (h : Handoff) (slot : Channel) (frame : Bytes) : h.leftLink = false →
    h.peerSwitched = false → Linked Why h [] (h.hold slot frame)
  | count (h : Handoff) (slot : Channel) (frame : Bytes) (now : Nat) : h.leftLink = false →
    h.peerSwitched = true → Linked Why h [.deliver frame] (h.counted slot frame now)
  | confirmed (h : Handoff) (received : Counts) :
    Linked Why h (h.confirmed received).2 (h.confirmed received).1

/-- No reason for leaving is ruled out. -/
def AnyReason (_ : LeaveReason) : Prop := True

/-- A step of the machine, by itself or on something it is given.  `Sent` is what
the frames given to `send` satisfy. -/
inductive Micro (Sent : Bytes → Prop) : Handoff → List Instruction → Handoff → Prop
  | linked {h h' : Handoff} {out : List Instruction} :
    Linked AnyReason h out h' → Micro Sent h out h'
  | sendRelay (h : Handoff) (frame : Bytes) : Sent frame → h.path = .relay →
    Micro Sent h [.relay frame] h
  | sendLink (h : Handoff) (frame : Bytes) : Sent frame → h.path = .link →
    Micro Sent h (pieces (h.slot (Channel.of frame)) frame) (h.numbered frame)
  | deliver (h : Handoff) (frame : Bytes) : Micro Sent h [.deliver frame] h
  | signal (h : Handoff) (msg : ControlMessage) : Micro Sent h [.signal msg] h
  | peerSwitch (h : Handoff) : h.peerSwitched = false → h.leftLink = false →
    Micro Sent h [] { h with peerSwitched := true }
  | peerFallback (h : Handoff) (received : Counts) :
    Micro Sent h [] { h with peerFallback := some received }
  | expire (h : Handoff) (deadline now : Nat) : h.holdingDeadline = some deadline →
    deadline ≤ now → Micro Sent h [.end] h.expired

variable {h : Handoff}

theorem Micro.quiet {Sent : Bytes → Prop} {h' : Handoff} {out : List Instruction}
    (step : Quiet AnyReason h out h') : Micro Sent h out h' :=
  .linked (.quiet step)

/-! ## The functions as chains -/

variable {Why : LeaveReason → Prop} {reason : LeaveReason} {now deadline : Nat} (slot : Channel)

/-- The outcome is reported by at most one step. -/
theorem noteDirect_quiet (h : Handoff) (on : h.leftLink = false) :
    Emits (Quiet Why) h h.noteDirect.2 h.noteDirect.1 := by
  unfold noteDirect
  split
  next both =>
    simp only [Bool.and_eq_true, Bool.not_eq_true'] at both
    exact .single (.direct h both.1.1 both.1.2 both.2 on)
  · exact .refl h

/-- A confirmation is one step, and silent after leaving. -/
theorem confirm_quiet : Emits (Quiet Why) h h.confirm.2 h.confirm.1 := by
  cases left : h.leftLink with
  | true =>
    have eq : h.confirm = (h.acked, []) := by simp only [confirm, left, if_true, acked]
    rw [eq]
    exact .single (.lateAck h left)
  | false =>
    have same : h.acked.deliveredEach = h.deliveredEach := by
      simp only [deliveredEach, acked]
      ext c
      simp only [get_map, Receiving.acked]
    have eq : h.confirm = (h.acked, pieces .typing (ackFrame h.deliveredEach)) := by
      simp only [confirm, left, Bool.false_eq_true, if_false, ← same, acked]
    rw [eq]
    exact .single (.ack h left)

/-- Handing over a link frame counts it, and may confirm. -/
theorem deliverLink_cases (h : Handoff) (slot : Channel) (frame : Bytes) (now : Nat) :
    ∃ more, (h.deliverLink slot frame now).2 = .deliver frame :: more ∧
      Emits (Quiet Why) (h.counted slot frame now) more (h.deliverLink slot frame now).1 := by
  unfold deliverLink
  simp only
  split
  · exact ⟨_, rfl, confirm_quiet⟩
  · exact ⟨[], rfl, .refl _⟩

theorem resend_holding_quiet (path : h.path = .holding) (known : h.peerFallback = some received) :
    Emits (Quiet Why) h (h.resend received).2 (h.resend received).1 :=
  .single (.resend h received path known)

theorem leave_left (left : h.leftLink) : h.leave reason now = (h, []) := by
  simp only [leave, left, if_true]

/-- A side on the link leaves in one step, and re-sends at once if the peer's
notice is already there. -/
theorem leave_eq (on : h.leftLink = false) (reason : LeaveReason) (now : Nat) :
    h.leave reason now =
      match h.peerFallback with
      | some received =>
        if (h.departed now).path = .holding then
          (((h.departed now).resend received).1,
            h.farewell reason ++ ((h.departed now).resend received).2)
        else (h.departed now, h.farewell reason)
      | none => (h.departed now, h.farewell reason) := by
  unfold leave
  rw [if_neg (by rw [on]; exact Bool.false_ne_true)]
  by_cases path : h.path = .link
  · simp only [departed, path, if_true, setPath]
    rfl
  · simp only [departed, path, if_false]
    rfl

section

variable (h)

/-- To leave is one step, and a second one where the peer's counts are there already. -/
theorem leave_quiet (why : Why reason) (now : Nat) :
    Emits (Quiet Why) h (h.leave reason now).2 (h.leave reason now).1 := by
  cases left : h.leftLink with
  | true =>
    rw [leave_left left]
    exact .refl h
  | false =>
    have go := single (Quiet.leave h reason now why left)
    rw [leave_eq left]
    split
    next received known =>
      split
      next path =>
        exact go.trans (resend_holding_quiet path (by rw [departed_peerFallback, known]))
      · exact go
    · exact go

theorem confirm_leftLink : h.confirm.1.leftLink = h.leftLink := by
  unfold confirm
  simp only
  split <;> rfl

theorem deliverLink_leftLink (frame : Bytes) (now : Nat) :
    (h.deliverLink slot frame now).1.leftLink = h.leftLink := by
  unfold deliverLink
  simp only
  split
  · exact confirm_leftLink _
  · rfl

theorem confirm_peerSwitched : h.confirm.1.peerSwitched = h.peerSwitched := by
  unfold confirm
  simp only
  split <;> rfl

theorem deliverLink_peerSwitched (frame : Bytes) (now : Nat) :
    (h.deliverLink slot frame now).1.peerSwitched = h.peerSwitched := by
  unfold deliverLink
  simp only
  split
  · exact confirm_peerSwitched _
  · rfl

/-- Confirming leaves the held frames of every slot alone. -/
theorem confirm_held : (h.confirm.1.receiving.get slot).held = (h.receiving.get slot).held := by
  unfold confirm
  simp only
  split <;> simp only [get_map, Receiving.acked]

/-- A delivery does not touch what is held. -/
theorem deliverLink_held (slot slot' : Channel) (frame : Bytes) (now : Nat) :
    ((h.deliverLink slot frame now).1.receiving.get slot').held =
      (h.receiving.get slot').held := by
  have counted : ((h.counted slot frame now).receiving.get slot').held =
      (h.receiving.get slot').held := get_set_congr _ _ (by rfl) slot'
  unfold deliverLink
  simp only
  split
  · exact (confirm_held (h.counted slot frame now) slot').trans counted
  · exact counted

end

/-- By induction on what is held: each turn gives up one frame and delivers it. -/
theorem releaseHeld_quiet (now : Nat) (held : List Bytes) (h : Handoff) (on : h.leftLink = false)
    (peer : h.peerSwitched) (here : (h.receiving.get slot).held = held) :
    Emits (Quiet Why) h (releaseHeld slot now held h).2 (releaseHeld slot now held h).1 ∧
      (releaseHeld slot now held h).1.leftLink = false ∧
      (releaseHeld slot now held h).1.peerSwitched := by
  induction held generalizing h with
  | nil => exact ⟨.refl h, on, peer⟩
  | cons frame held ih =>
    obtain ⟨ack, out, quiet⟩ :
        ∃ more, _ = _ :: more ∧ Emits (Quiet Why) _ more _ :=
      deliverLink_cases (h.withHeld slot held) slot frame now
    have on' : ((h.withHeld slot held).deliverLink slot frame now).1.leftLink = false := by
      rw [deliverLink_leftLink]
      exact on
    have peer' : ((h.withHeld slot held).deliverLink slot frame now).1.peerSwitched := by
      rw [deliverLink_peerSwitched]
      exact peer
    have here' : (((h.withHeld slot held).deliverLink slot frame now).1.receiving.get slot).held =
        held := by
      rw [deliverLink_held]
      simp only [withHeld, get_set_self]
    obtain ⟨rest, left, switched⟩ := ih _ on' peer' here'
    have first : Emits (Quiet Why) h _ _ := .single (.release h slot frame held now on peer here)
    refine ⟨?_, left, switched⟩
    have whole := (first.trans quiet).trans rest
    rw [List.cons_append, List.nil_append, ← out] at whole
    exact whole

theorem releaseSlot_quiet (h : Handoff) (slot : Channel) (now : Nat)
    (on : h.leftLink = false) (peer : h.peerSwitched) :
    Emits (Quiet Why) h (h.releaseSlot slot now).2 (h.releaseSlot slot now).1 ∧
      (h.releaseSlot slot now).1.leftLink = false ∧
      (h.releaseSlot slot now).1.peerSwitched := by
  obtain ⟨rest, left, switched⟩ :=
    releaseHeld_quiet slot now (h.receiving.get slot).held (h.withoutHeldBytes slot) on peer
      (by simp only [withoutHeldBytes, get_set_self])
  exact ⟨(single (.forgetHeldBytes h slot on peer)).trans rest, left, switched⟩

/-- The switch notice, past the flag it sets, is a chain of quiet steps. -/
theorem notePeerSwitched_quiet (fresh : h.peerSwitched = false) (on : h.leftLink = false)
    (now : Nat) : Emits (Quiet Why) { h with peerSwitched := true } (h.notePeerSwitched now).2
      (h.notePeerSwitched now).1 := by
  have direct : Emits (Quiet Why) _ _ _ := noteDirect_quiet { h with peerSwitched := true } on
  have on0 : ({ h with peerSwitched := true } : Handoff).noteDirect.1.leftLink = false := by
    rw [noteDirect_leftLink]
    exact on
  have peer0 : ({ h with peerSwitched := true } : Handoff).noteDirect.1.peerSwitched := by
    rw [noteDirect_peerSwitched]
  obtain ⟨typing, on1, peer1⟩ := releaseSlot_quiet _ .typing now on0 peer0
  obtain ⟨screen, on2, peer2⟩ := releaseSlot_quiet _ .screen now on1 peer1
  obtain ⟨files, -, -⟩ := releaseSlot_quiet _ .files now on2 peer2
  have whole := ((direct.trans typing).trans screen).trans files
  unfold notePeerSwitched
  rw [if_neg (by rw [fresh, on]; exact Bool.false_ne_true)]
  exact whole

/-- A second switch notice, or one that comes after leaving, does nothing. -/
theorem notePeerSwitched_skip (stale : ¬ (h.peerSwitched = false ∧ h.leftLink = false))
    (now : Nat) : h.notePeerSwitched now = (h, []) := by
  rw [notePeerSwitched, if_pos]
  cases peer : h.peerSwitched <;> cases left : h.leftLink <;> simp_all

/-- The fall-back notice, past the counts it records, is a chain of quiet steps. -/
theorem peerFellBack_quiet (h : Handoff) (received : Counts) (why : Why .peerFellBack)
    (now : Nat) :
    Emits (Quiet Why) { h with peerFallback := some received } (h.peerFellBack received now).2
      (h.peerFellBack received now).1 := by
  unfold peerFellBack
  simp only
  split
  · exact leave_quiet _ why _
  · split
    next path => exact resend_holding_quiet path rfl
    · exact .refl _

theorem tickAck_quiet (h : Handoff) (now : Nat) :
    Emits (Quiet Why) h (h.tickAck now).2 (h.tickAck now).1 := by
  unfold tickAck
  split
  · exact confirm_quiet
  · exact .refl h

theorem tickBudget_quiet (h : Handoff) (why : Why .budget) (now : Nat) :
    Emits (Quiet Why) h (h.tickBudget now).2 (h.tickBudget now).1 := by
  unfold tickBudget
  split
  · simp only
    split
    · exact (single (.dropBudget h)).trans (leave_quiet _ why _)
    · exact .single (.dropBudget h)
  · exact .refl h

theorem tickAck_holdingDeadline : (h.tickAck now).1.holdingDeadline = h.holdingDeadline := by
  unfold tickAck confirm
  simp only
  split
  · split <;> rfl
  · rfl

/-- A wait that starts with the leaving is not over at the same moment. -/
theorem leave_holdingDeadline (waits : (h.leave reason now).1.holdingDeadline = some deadline)
    (due : deadline ≤ now) : h.holdingDeadline = some deadline := by
  cases left : h.leftLink with
  | true =>
    rw [leave_left left] at waits
    exact waits
  | false =>
    have depart : (h.departed now).holdingDeadline = some deadline →
        h.holdingDeadline = some deadline := by
      unfold departed
      simp only
      split
      · intro later
        simp only [setPath, Option.some.injEq] at later
        simp only [peerFallbackWaitMs] at later
        omega
      · exact id
    rw [leave_eq left] at waits
    split at waits
    · split at waits
      · simp only [resend, setPath, reduceCtorEq] at waits
      · exact depart waits
    · exact depart waits

/-- A wait that the budget's end begins is not over in the same tick. -/
theorem tickBudget_holdingDeadline (waits : (h.tickBudget now).1.holdingDeadline = some deadline)
    (due : deadline ≤ now) : h.holdingDeadline = some deadline := by
  unfold tickBudget at waits
  split at waits
  · simp only at waits
    split at waits
    · have before := leave_holdingDeadline waits due
      exact before
    · exact waits
  · exact waits

/-- The timers of a tick: quiet steps, and then the session may end, if it was
waiting before. -/
theorem tick_cases (h : Handoff) (why : Why .budget) (now : Nat) :
    ∃ h₁ out₁, Emits (Quiet Why) h out₁ h₁ ∧
      (h.tick now = (h₁, out₁) ∨
        ∃ deadline, h.holdingDeadline = some deadline ∧ h₁.holdingDeadline = some deadline ∧
          deadline ≤ now ∧ h.tick now = (h₁.expired, out₁ ++ [.end])) := by
  refine ⟨_, _, (tickAck_quiet h now).trans (tickBudget_quiet _ why now), ?_⟩
  unfold tick tickHolding
  simp only
  split
  next due =>
    rw [Option.any_eq_true] at due
    obtain ⟨deadline, waits, past⟩ := due
    have past' : deadline ≤ now := by simpa using past
    have before := tickBudget_holdingDeadline waits past'
    rw [tickAck_holdingDeadline] at before
    exact .inr ⟨deadline, before, waits, past', rfl⟩
  · exact .inl (by rw [List.append_nil])

theorem linkOpen_quiet (h : Handoff) (now : Nat) (layout : Layout) :
    Emits (Quiet Why) h (h.linkOpen now layout).2 (h.linkOpen now layout).1 := by
  unfold linkOpen
  split
  · exact .refl h
  next closed =>
    simp only [Bool.or_eq_true, bne_iff_ne, ne_eq, not_or, Bool.not_eq_true, not_not] at closed
    obtain ⟨⟨switched, left⟩, path⟩ := closed
    exact (single (Quiet.switch h layout switched left path)).trans
      (noteDirect_quiet _ left)

theorem beginAttempt_quiet : Emits (Quiet Why) h [] (h.beginAttempt now) := by
  unfold beginAttempt
  split
  · exact .refl h
  next fresh =>
    simp only [Bool.not_eq_true] at fresh
    exact .single (.attempt h now fresh)

/-! ## The events -/

/-- One frame from the link: a confirmation, a frame to hold, or a frame to
deliver; then quiet steps. -/
theorem linkFrame_linked (on : h.leftLink = false) (why : Why .overflow) (slot : Channel)
    (frame : Bytes) (now : Nat) :
    Emits (Linked Why) h (h.linkFrame slot frame now).2 (h.linkFrame slot frame now).1 := by
  unfold linkFrame
  split
  · exact .single (.confirmed h _)
  · cases peer : h.peerSwitched with
    | false =>
      have held : Emits (Linked Why) h [] _ := .single (.hold h slot frame on peer)
      simp only [Bool.not_false, if_true]
      split
      · exact held.trans ((leave_quiet _ why _).mono .quiet)
      · exact held
    | true =>
      obtain ⟨ack, out, quiet⟩ := deliverLink_cases h slot frame now
      simp only [Bool.not_true, Bool.false_eq_true, if_false, out]
      exact (single (Linked.count h slot frame now on peer)).trans (quiet.mono .quiet)

/-- By induction on the frames; it stops where one makes the side leave. -/
theorem linkFrames_linked (now : Nat) (frames : List Bytes) (on : h.leftLink = false)
    (why : Why .overflow) :
    Emits (Linked Why) h (linkFrames slot now frames h).2 (linkFrames slot now frames h).1 := by
  induction frames generalizing h with
  | nil => exact .refl h
  | cons frame frames ih =>
    have first := linkFrame_linked on why slot frame now
    unfold linkFrames
    simp only
    split
    · exact first
    next still =>
      simp only [Bool.not_eq_true] at still
      exact first.trans (ih still)

/-- A piece is a step of the reassembler and then a step a frame, or leaving. -/
theorem fromLink_linked (overflow : Why .overflow) (reassembly : Why .reassembly)
    (channel : Channel) (piece : Bytes) :
    Emits (Linked Why) h (h.fromLink channel piece now).2 (h.fromLink channel piece now).1 := by
  cases left : h.leftLink with
  | true =>
    simp only [fromLink, left, if_true]
    exact .refl h
  | false =>
    have set : Emits (Linked Why) h [] _ := .single
      (.reassemble h channel ((h.receiving.get channel).reassembler.push piece).1 left)
    have on : (h.withReassembler channel
        ((h.receiving.get channel).reassembler.push piece).1).leftLink = false := left
    unfold fromLink
    rw [if_neg (by rw [left]; exact Bool.false_ne_true)]
    simp only
    split
    next frames _ => exact set.trans (linkFrames_linked channel now frames on overflow)
    · exact set.trans ((leave_quiet _ reassembly _).mono .quiet)

variable {Sent : Bytes → Prop} {frame : Bytes} {e : Event}

/-- What comes by the relay, by the kind of frame it is. -/
theorem fromRelay_micro :
    Emits (Micro Sent) h (h.fromRelay frame now).2 (h.fromRelay frame now).1 := by
  unfold fromRelay
  split
  · by_cases open' : h.peerSwitched = false ∧ h.leftLink = false
    · exact (single (Micro.peerSwitch h open'.1 open'.2)).trans
        ((notePeerSwitched_quiet open'.1 open'.2 now).mono .quiet)
    · rw [notePeerSwitched_skip open']
      exact .refl h
  next received screen files _ =>
    exact (single (Micro.peerFallback h _)).trans ((peerFellBack_quiet h _ trivial now).mono .quiet)
  next msg _ _ _ =>
    split
    · exact .single (.signal h msg)
    · exact .single (.deliver h frame)
  · exact .single (.deliver h frame)

theorem fromRelay_switch [LawfulCodec] (h : Handoff) (now : Nat) :
    h.fromRelay switchFrame now = h.notePeerSwitched now := by
  simp only [fromRelay, controlOf_switchFrame]

omit [WireCodec] in
theorem send_relay (path : h.path = .relay) (frame : Bytes) (now : Nat) :
    h.send frame now = (h, [.relay frame]) := by
  unfold send
  split <;> simp_all

omit [WireCodec] in
theorem send_link (path : h.path = .link) (frame : Bytes) (now : Nat) :
    h.send frame now = (h.numbered frame, pieces (h.slot (Channel.of frame)) frame) := by
  unfold send
  split
  next other => simp only [path, reduceCtorEq] at other
  · rfl
  next other => simp only [path, reduceCtorEq] at other
  next other => simp only [path, reduceCtorEq] at other

/-- A frame sent, by the path. -/
theorem send_micro (h : Handoff) (sent : Sent frame) (now : Nat) :
    Emits (Micro Sent) h (h.send frame now).2 (h.send frame now).1 := by
  unfold send
  split
  next path => exact .single (.sendRelay h frame sent path)
  next path => exact .single (.sendLink h frame sent path)
  · exact .refl h
  · exact .refl h

/-- The three timers in turn. -/
theorem tick_micro : Emits (Micro Sent) h (h.tick now).2 (h.tick now).1 := by
  obtain ⟨h₁, out₁, chain, is | ⟨deadline, -, waits, due, is⟩⟩ :=
    tick_cases h (show AnyReason .budget from trivial) now
  · rw [is]
    exact chain.mono .quiet
  · rw [is]
    exact (chain.mono .quiet).tail (.expire h₁ deadline now waits due)

/-- The frames an event gives to `send` satisfy `Sent`. -/
def EventSends (Sent : Bytes → Prop) (e : Event) : Prop :=
  ∀ frame now, e = .send frame now → Sent frame

/-- **Every event is a chain of small steps.** -/
theorem event_micro (h : Handoff) (sends : EventSends Sent e) :
    Emits (Micro Sent) h (h.event e).2 (h.event e).1 := by
  cases e with
  | beginAttempt now => exact (beginAttempt_quiet).mono .quiet
  | linkOpen now layout => exact (linkOpen_quiet h now layout).mono .quiet
  | send frame now => exact send_micro h (sends frame now rfl) now
  | fromRelay frame now => exact fromRelay_micro
  | fromLink channel piece now => exact (fromLink_linked trivial trivial channel piece).mono .linked
  | linkLost reason now => exact (leave_quiet h trivial now).mono .quiet
  | tick now => exact tick_micro

/-- Every run is a chain of steps, so that what each step keeps a run keeps. -/
theorem run_micro (h : Handoff) {es : List Event} (sends : ∀ e ∈ es, EventSends Sent e) :
    Emits (Micro Sent) h (h.run es).2 (h.run es).1 := by
  induction es generalizing h with
  | nil => exact .refl h
  | cons e es ih =>
    have first := event_micro h (sends e (List.mem_cons_self ..))
    exact first.trans (ih _ fun e' inside => sends e' (List.mem_cons_of_mem _ inside))

omit [WireCodec] in
theorem eventSends_true : EventSends (fun _ => True) e := fun _ _ _ => trivial

end Handoff

end OpenGate.Direct
