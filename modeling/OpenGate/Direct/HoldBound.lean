import OpenGate.Direct.WorldInv

/-!
# An honest peer never overflows the hold

A side holds what the link brings ahead of the peer's switch notice, and leaves
if it comes to hold more than `heldLimit`.  What it holds on a slot the peer has
put on the link and still keeps, so it is bounded by the peer's unconfirmed
bytes, and those by the window the sending point closes one frame late.

The caps are those of the sending point's lanes, `session/outbox.rs`.
-/

namespace OpenGate.Direct

open Lib PerChannel List

def interactiveFrameCap : Nat := maxPiece

/-- The bytes of a file's piece. -/
def filePiece : Nat := 256 * 1024

/-- Largest bulk frame: one file piece and the frame's header and fields. -/
def bulkFrameCap : Nat := filePiece + 64

/-- The largest frame of the lane a channel's frames wait in. -/
def laneCap : Channel → Nat
  | .typing => interactiveFrameCap
  | .screen | .files => bulkFrameCap

/-- The largest frame that can be put on a slot of the link. -/
def slotCap (layout : Layout) (slot : Channel) : Nat :=
  if slot = .typing ∧ layout = .separate then interactiveFrameCap else bulkFrameCap

variable (layout : Layout)

theorem slotCap_pos (slot : Channel) : 0 < slotCap layout slot := by
  cases layout <;> cases slot <;> decide

theorem laneCap_le_slotCap (c : Channel) : laneCap c ≤ slotCap layout (slotOf layout c) := by
  cases layout <;> cases c <;> decide

variable {frame : Bytes}

namespace Handoff

/-! ## The sender's windows -/

/-- Every window is closed by at most one frame too many. -/
structure Windowed (h : Handoff) : Prop where
  fresh : h.switched = false → ∀ s, (h.sending.get s).unconfirmed = 0
  bound : ∀ s, (h.sending.get s).unconfirmed < h.window s + slotCap h.layout s

variable (config : Config)

theorem windowed_new : Windowed (new config) where
  fresh _ s := by cases s <;> rfl
  bound s := by
    have cap := slotCap_pos (new config).layout s
    have none : ((new config).sending.get s).unconfirmed = 0 := by cases s <;> rfl
    omega

variable {h h' : Handoff}

theorem Windowed.congr (windowed : Windowed h)
    (same : (h'.config, h'.layout, h'.switched, h'.sending) =
      (h.config, h.layout, h.switched, h.sending)) : Windowed h' := by
  simp only [Prod.mk.injEq] at same
  obtain ⟨config, layout, switched, sending⟩ := same
  refine ⟨fun unswitched s => ?_, fun s => ?_⟩
  · rw [sending]
    exact windowed.fresh (switched.symm.trans unswitched) s
  · have bound := windowed.bound s
    unfold window at bound ⊢
    rwa [config, layout, sending]

/-- A window only opens when bytes are confirmed or sent again. -/
theorem Windowed.less (windowed : Windowed h)
    (same : (h'.config, h'.layout, h'.switched) = (h.config, h.layout, h.switched))
    (less : ∀ s, (h'.sending.get s).unconfirmed ≤ (h.sending.get s).unconfirmed) : Windowed h' := by
  simp only [Prod.mk.injEq] at same
  obtain ⟨config, layout, switched⟩ := same
  refine ⟨fun unswitched s => ?_, fun s => ?_⟩
  · have none := windowed.fresh (switched.symm.trans unswitched) s
    have fewer := less s
    omega
  · have bound := windowed.bound s
    have fewer := less s
    unfold window at bound ⊢
    rw [config, layout]
    omega

variable [WireCodec]

variable {Why : LeaveReason → Prop} {out : List Instruction} {e : Event}

/-- No quiet step takes a frame. -/
theorem Quiet.windowed (step : Quiet Why h out h') (windowed : Windowed h) : Windowed h' := by
  cases step with
  | switch layout unswitched on path =>
    -- a layout is chosen before anything is numbered
    have none := windowed.fresh unswitched
    refine ⟨fun absurd => by simp only [setPath, reduceCtorEq] at absurd, fun s => ?_⟩
    have cap := slotCap_pos layout s
    simp only [setPath, none s]
    omega
  | leave reason now why on =>
    refine windowed.congr ?_
    unfold departed
    simp only
    split <;> rfl
  | resend received path known =>
    refine windowed.less rfl fun s => ?_
    simp only [Handoff.resend, setPath, get_map, Sending.drained, Nat.zero_le]
  | attempt | direct | ack | lateAck | dropBudget | forgetHeldBytes | release =>
    exact windowed.congr rfl

theorem Linked.windowed (step : Linked Why h out h') (windowed : Windowed h) : Windowed h' := by
  cases step with
  | quiet step => exact step.windowed windowed
  | confirmed received =>
    refine windowed.less rfl fun s => ?_
    rw [confirmed_sending]
    exact Nat.sub_le _ _
  | reassemble | hold | count => exact windowed.congr rfl

/-- Every step but the sending of a frame keeps the windows. -/
theorem Micro.windowed (step : Micro (fun _ => False) h out h') (windowed : Windowed h) :
    Windowed h' := by
  cases step with
  | linked step => exact step.windowed windowed
  | sendLink frame sent path => exact sent.elim
  | sendRelay | deliver | signal | peerSwitch | peerFallback | expire => exact windowed.congr rfl

omit [WireCodec] in
/-- A frame the sending point may send closes its window by at most itself. -/
theorem send_windowed (wf : Wf h) (windowed : Windowed h) (room : h.canTake (Channel.of frame))
    (cap : frame.length ≤ laneCap (Channel.of frame)) (now : Nat) :
    Windowed (h.send frame now).1 := by
  cases path : h.path with
  | relay =>
    rw [send_relay path]
    exact windowed
  | link =>
    have switched := (wf.course.of_path_link path).2.1
    rw [send_link path]
    refine ⟨fun unswitched => ?_, fun s => ?_⟩
    · simp only [numbered, switched, reduceCtorEq] at unswitched
    · simp only [numbered, get_set]
      split
      next same =>
        have below : (h.sending.get (h.slot (Channel.of frame))).unconfirmed <
            h.window (h.slot (Channel.of frame)) := by
          simpa only [canTake, path, decide_eq_true_eq] using room
        have fits := cap.trans (laneCap_le_slotCap h.layout (Channel.of frame))
        rw [same, show h.slot (Channel.of frame) = slotOf h.layout (Channel.of frame) from rfl]
          at *
        simp only [Sending.take, window] at below ⊢
        omega
      · exact windowed.bound s
  | holding | ended => simp only [canTake, path, reduceCtorEq] at room

/-- An event keeps the windows, if a frame given to `send` is one the sending
point may send. -/
theorem event_windowed (wf : Wf h) (windowed : Windowed h) (may : ∀ frame now, e = .send frame now →
      h.canTake (Channel.of frame) ∧ frame.length ≤ laneCap (Channel.of frame)) :
    Windowed (h.event e).1 := by
  by_cases sends : ∃ frame now, e = .send frame now
  · obtain ⟨frame, now, rfl⟩ := sends
    obtain ⟨room, cap⟩ := may frame now rfl
    exact send_windowed wf windowed room cap now
  · have silent : EventSends (fun _ => False) e := fun frame now is => sends ⟨frame, now, is⟩
    exact (event_micro h silent).invariant (fun step => step.windowed) windowed

/-! ## What is held -/

/-- Until the peer's notice, the held bytes are those of the held frames. -/
def Tallied (h : Handoff) : Prop :=
  h.peerSwitched = false → ∀ s,
    (h.receiving.get s).heldBytes = ((h.receiving.get s).held.map List.length).sum

omit [WireCodec] in
theorem tallied_new : Tallied (new config) := fun _ s => by cases s <;> rfl

omit [WireCodec] in
theorem Tallied.of_peer (peer : h.peerSwitched) : Tallied h := fun fresh => by
  simp only [peer, reduceCtorEq] at fresh

omit [WireCodec] in
theorem Tallied.congr (tallied : Tallied h) (peer : h'.peerSwitched = h.peerSwitched)
    (same : ∀ s, ((h'.receiving.get s).held, (h'.receiving.get s).heldBytes) =
      ((h.receiving.get s).held, (h.receiving.get s).heldBytes)) : Tallied h' := by
  intro fresh s
  have both := same s
  simp only [Prod.mk.injEq] at both
  rw [both.1, both.2]
  exact tallied (peer.symm.trans fresh) s

theorem Quiet.tallied (step : Quiet Why h out h') (tallied : Tallied h) : Tallied h' := by
  cases step with
  | ack on | lateAck left => exact tallied.congr rfl fun s => by cases s <;> rfl
  | leave reason now why on =>
    intro _ s
    rw [departed_receiving, get_map]
    rfl
  | forgetHeldBytes slot on peer | release slot frame held now on peer front => exact .of_peer peer
  | attempt | switch | direct | dropBudget | resend => exact tallied.congr rfl fun _ => rfl

theorem Linked.tallied (step : Linked Why h out h') (tallied : Tallied h) : Tallied h' := by
  cases step with
  | quiet step => exact step.tallied tallied
  | reassemble slot r on =>
    exact tallied.congr rfl fun s => by cases s <;> cases slot <;> rfl
  | hold slot frame on fresh =>
    intro _ s
    simp only [Handoff.hold, get_set]
    split
    · simp only [Receiving.hold, map_append, map_cons, map_nil, sum_append,
        sum_cons, sum_nil, Nat.add_zero, tallied fresh slot]
    · exact tallied fresh s
  | count slot frame now on peer => exact .of_peer peer
  | confirmed received => exact tallied.congr rfl fun _ => rfl

/-- The bytes held are counted with every step. -/
theorem Micro.tallied {Sent : Bytes → Prop} (step : Micro Sent h out h') (tallied : Tallied h) :
    Tallied h' := by
  cases step with
  | linked step => exact step.tallied tallied
  | peerSwitch fresh on => exact .of_peer rfl
  | sendRelay | sendLink | deliver | signal | peerFallback | expire =>
    exact tallied.congr rfl fun _ => rfl

/-! ## Reasons to leave -/

/-- A leaving it reports is for one of the reasons. -/
def Instruction.LeftFor (Why : LeaveReason → Prop) (i : Instruction) : Prop :=
  ∀ reason, i = .left reason → Why reason

omit [WireCodec] in
theorem pieces_leftFor (Why : LeaveReason → Prop) (slot : Channel) (frame : Bytes) :
    ∀ i ∈ pieces slot frame, Instruction.LeftFor Why i := by
  intro i inside reason is
  simp only [pieces, is, mem_map, reduceCtorEq, and_false, exists_false] at inside

theorem Quiet.leftFor (step : Quiet Why h out h') : ∀ i ∈ out, Instruction.LeftFor Why i := by
  cases step with
  | leave reason' now why on =>
    rintro i inside reason rfl
    simp only [farewell, mem_cons, Instruction.left.injEq, reduceCtorEq, not_mem_nil,
      or_false, false_or] at inside
    exact inside ▸ why
  | ack on => exact pieces_leftFor Why _ _
  | resend received path known =>
    intro i inside reason is
    simp only [Handoff.resend, is, mem_map, reduceCtorEq, and_false, exists_false] at inside
  | attempt | switch | direct | lateAck | dropBudget | forgetHeldBytes | release =>
    simp [Instruction.LeftFor]

def NotOverflow (reason : LeaveReason) : Prop := reason ≠ .overflow

instance (reason : LeaveReason) : Decidable (NotOverflow reason) :=
  inferInstanceAs (Decidable (reason ≠ .overflow))

theorem quiets_no_overflow (chain : Emits (Quiet NotOverflow) h out h') :
    .left .overflow ∉ out := fun inside =>
  chain.emitted (fun step => step.leftFor) _ inside _ rfl rfl

/-- An event that takes nothing off the link leaves for no overflow, unless it is
told that reason. -/
theorem event_no_overflow (h : Handoff) (notLink : ∀ c piece now, e ≠ .fromLink c piece now)
    (notTold : ∀ now, e ≠ .linkLost .overflow now) : .left .overflow ∉ (h.event e).2 := by
  have onLink : ∀ {slot : Channel} {frame : Bytes}, .left .overflow ∉ pieces slot frame :=
    fun inside => pieces_leftFor NotOverflow _ _ _ inside _ rfl rfl
  cases e with
  | beginAttempt now => simp [event]
  | linkOpen now layout => exact quiets_no_overflow (linkOpen_quiet h now layout)
  | send frame now =>
    simp only [event, send]
    split
    · simp
    · exact onLink
    · simp
    · simp
  | fromRelay frame now =>
    simp only [event, fromRelay]
    split
    · by_cases open' : h.peerSwitched = false ∧ h.leftLink = false
      · exact quiets_no_overflow (notePeerSwitched_quiet open'.1 open'.2 now)
      · rw [notePeerSwitched_skip open']
        exact not_mem_nil
    · exact quiets_no_overflow (peerFellBack_quiet h _ (by decide) now)
    · split <;> simp
    · simp
  | fromLink c piece now => exact (notLink c piece now rfl).elim
  | linkLost reason now =>
    exact quiets_no_overflow (leave_quiet h (fun is => notTold now (by rw [is])) now)
  | tick now =>
    have why : NotOverflow .budget := by decide
    obtain ⟨h₁, out₁, chain, is | ⟨deadline, -, -, -, is⟩⟩ := tick_cases h why now
    · simp only [event, is]
      exact quiets_no_overflow chain
    · simp only [event, is, mem_append, mem_singleton, reduceCtorEq, or_false]
      exact quiets_no_overflow chain

end Handoff

/-! ## Held by one side, kept by the other -/

variable [WireCodec] {s : Channel}

namespace Direction

variable {d : Direction} {g : Ghost}

/-- What a receiver on the link holds ahead of the notice the sender still keeps. -/
theorem Inv.held_le (inv : d.Inv g) (on : d.receiver.left = false)
    (fresh : d.receiver.peerSwitched = false) :
    ((d.receiver.held.get s).map List.length).sum ≤
      Handoff.keptBytes (d.sender.sending.get s).kept := by
  have ahead : ¬ d.Back := fun back => by
    have left := inv.back back
    simp only [on, reduceCtorEq] at left
  obtain ⟨k, low, kept⟩ := inv.kept ahead s
  rw [inv.early fresh s] at low
  obtain rfl := Nat.le_zero.mp low
  have bytes : Handoff.keptBytes (d.sender.sending.get s).kept =
      ((g.numbered.get s).map List.length).sum := by
    have snd := map_snd_numberFrom 1 (g.numbered.get s)
    rw [Handoff.keptBytes, kept, drop_zero]
    nth_rewrite 2 [← snd]
    rw [map_map]
    rfl
  have tail := (inv.stream on s).tail
  rw [inv.early fresh s, drop_zero] at tail
  rw [bytes, tail, map_append, sum_append]
  exact Nat.le_add_right _ _

/-- On a shared link nothing is held but on its one slot. -/
theorem Inv.held_shared (inv : d.Inv g) (on : d.receiver.left = false)
    (shared : d.sender.layout = .shared) (other : s ≠ .typing) : d.receiver.held.get s = [] := by
  have tail := (inv.stream on s).tail
  have none : g.numbered.get s = [] := by
    refine eq_nil_iff_forall_not_mem.mpr fun f inside => other ?_
    have slot := (inv.ours s f inside).2
    rw [shared] at slot
    exact slot.symm
  rw [none, drop_nil, eq_comm, append_eq_nil_iff] at tail
  exact tail.1

end Direction

namespace World

open Handoff

variable {config : Config} {w : World} {p : Party} {g : Both Ghost} {out : List Instruction}
  {h : Handoff}

/-- What the two machines owe each other for the hold not to overflow. -/
structure Balanced (w : World) (p : Party) : Prop where
  windowed : Windowed (w.machine p.peer)
  tallied : Tallied (w.machine p)
  config : (w.machine p.peer).config = (w.machine p).config

/-- What is held is unconfirmed at the peer, whose windows bound it. -/
theorem Ok.heldBytes_le (ok : Ok w g) (balanced : Balanced w p)
    (on : (w.machine p).leftLink = false) (fresh : (w.machine p).peerSwitched = false) :
    (w.machine p).heldBytes ≤ (w.machine p).heldLimit := by
  have inv := ok.inv p.peer
  have view := receiver_peer w p
  have onView : (w.direction p.peer).receiver.left = false := by rw [view]; exact on
  have freshView : (w.direction p.peer).receiver.peerSwitched = false := by rw [view]; exact fresh
  have held : ∀ s, (w.direction p.peer).receiver.held.get s =
      ((w.machine p).receiving.get s).held := fun s => by
    rw [view, receiveView, get_map]
  have each : ∀ s, ((w.machine p).receiving.get s).heldBytes ≤
      ((w.machine p.peer).sending.get s).unconfirmed := by
    intro s
    rw [balanced.tallied fresh s, (ok.wf p.peer).unconfirmed s, ← held s]
    exact inv.held_le onView freshView
  have total : (w.machine p).heldBytes = ((w.machine p).receiving.get .typing).heldBytes +
      ((w.machine p).receiving.get .screen).heldBytes +
        ((w.machine p).receiving.get .files).heldBytes := rfl
  have typing := balanced.windowed.bound .typing
  have screen := balanced.windowed.bound .screen
  have files := balanced.windowed.bound .files
  have eachTyping := each .typing
  have eachScreen := each .screen
  have eachFiles := each .files
  rw [total, heldLimit, ← balanced.config]
  cases layout : (w.machine p.peer).layout with
  | separate =>
    simp only [window, slotCap, layout, reduceCtorEq, false_and, and_self, if_true, if_false,
      interactiveFrameCap, bulkFrameCap, filePiece, maxPiece] at typing screen files
    simp only [maxLinkFrame]
    omega
  | shared =>
    have empty : ∀ s, s ≠ .typing → ((w.machine p).receiving.get s).heldBytes = 0 := by
      intro s other
      rw [balanced.tallied fresh s, ← held s, inv.held_shared onView layout other]
      rfl
    have noScreen := empty .screen (by decide)
    have noFiles := empty .files (by decide)
    simp only [window, slotCap, layout, reduceCtorEq, and_false, if_false, bulkFrameCap,
      filePiece] at typing
    simp only [maxLinkFrame]
    omega

omit [WireCodec] in
/-- The balance looks at the sender's machine and at what the receiver holds. -/
theorem Balanced.emit (balanced : Balanced w p) (tallied : Tallied h)
    (config : h.config = (w.machine p).config) :
    Balanced (w.emit p h out) p where
  windowed := by
    rw [machine_emit_peer]
    exact balanced.windowed
  tallied := by
    rw [machine_emit_self]
    exact tallied
  config := by
    rw [machine_emit_peer, machine_emit_self, config]
    exact balanced.config

theorem Balanced.linked (balanced : Balanced w p) {Why : LeaveReason → Prop}
    (chain : Emits (Linked Why) (w.machine p) out h) : Balanced (w.emit p h out) p :=
  balanced.emit (chain.invariant (fun step => step.tallied) balanced.tallied)
    (chain.invariant (P := fun h => h.config = (w.machine p).config)
      (fun step same => step.config.trans same) rfl)

variable [LawfulCodec] {more : List Bytes}

/-- One frame off the pieces does not overflow the hold. -/
theorem Ok.linkFrame_no_overflow (ok : Ok w g) (balanced : Balanced w p)
    (on : (w.machine p).leftLink = false) (ready : (g.get p.peer).ready.get s = frame :: more)
    (now : Nat) : .left .overflow ∉ ((w.machine p).linkFrame s frame now).2 := by
  rcases (ok.link_frame on ready).kind with session | ⟨received, rfl, below⟩
  · rw [linkFrame_session session]
    cases peer : (w.machine p).peerSwitched with
    | false =>
      have step : Linked AnyReason _ _ _ := .hold (w.machine p) s frame on peer
      have after := ok.hold on peer ready session
      have fits := after.heldBytes_le (p := p) (balanced.linked (.single step))
        (by rw [machine_emit_self]; exact on) (by rw [machine_emit_self]; exact peer)
      rw [machine_emit_self] at fits
      simp only [Bool.not_false, if_true, if_neg (Nat.not_lt.mpr fits)]
      exact not_mem_nil
    | true =>
      obtain ⟨ack, out, quiet⟩ := deliverLink_cases (w.machine p) s frame now
      simp only [Bool.not_true, Bool.false_eq_true, if_false, out, mem_cons, reduceCtorEq,
        false_or]
      exact quiets_no_overflow quiet
  · rw [linkFrame_ack]
    simp only [Handoff.confirmed]
    split <;> simp

/-- All the frames a piece completed do not. -/
theorem Ok.linkFrames_no_overflow (s : Channel) (now : Nat) (frames : List Bytes) (ok : Ok w g)
    (settled : Settled (w.machine p)) (balanced : Balanced w p)
    (on : (w.machine p).leftLink = false) (ready : (g.get p.peer).ready.get s = frames) :
    .left .overflow ∉ (Handoff.linkFrames s now frames (w.machine p)).2 := by
  induction frames generalizing w g with
  | nil => exact not_mem_nil
  | cons frame frames ih =>
    have first := ok.linkFrame_no_overflow balanced on ready now
    obtain ⟨g₁, ready₁, ok₁⟩ := ok.linkFrame settled on ready now
    have chain := linkFrame_linked on (show AnyReason .overflow from trivial) s frame now
    have settled₁ := chain.invariant (fun step => step.settled) settled
    rw [Handoff.linkFrames]
    simp only
    split
    · exact first
    next still =>
      simp only [Bool.not_eq_true] at still
      have later := ih ok₁ (by rwa [machine_emit_self]) (balanced.linked chain)
        (by rwa [machine_emit_self]) (by rw [ready₁, handled, get_ghosts_peer, get_set_self])
      rw [machine_emit_self] at later
      rw [mem_append]
      exact fun inside => inside.elim first later

theorem Good.fromLink_no_overflow (good : Good w) (balanced : Balanced w p) {piece : Bytes}
    (link : (w.link.get p).get s = piece :: more) {now : Nat} :
    .left .overflow ∉ ((w.machine p).fromLink s piece now).2 := by
  cases left : (w.machine p).leftLink with
  | true =>
    rw [fromLink, if_pos left]
    exact not_mem_nil
  | false =>
    obtain ⟨frames, buf, g, event, ready, -, taken⟩ := good.takePiece left link now
    have step : Linked AnyReason _ _ _ := .reassemble (w.machine p) s ⟨buf⟩ left
    have popped : Balanced (w.popLink p s more) p :=
      ⟨balanced.windowed, balanced.tallied, balanced.config⟩
    have later := taken.linkFrames_no_overflow s now frames
      (by rw [machine_emit_self]; exact step.settled (good.settled p))
      (popped.linked (.single step))
      (by rw [machine_emit_self]; exact left) (by rw [ready, get_set_self])
    rw [machine_emit_self] at later
    rwa [event]

/-- The frames side `p` sends respect the lane caps. -/
def Capped (p : Party) : Action → Prop
  | .send q frame _ => q = p → frame.length ≤ laneCap (Channel.of frame)
  | _ => True

/-- The worlds the system can come to while side `p` respects the lane caps. -/
inductive ReachableCapped (config : Config) (p : Party) : World → Prop
  | new : ReachableCapped config p (new config)
  | step {w : World} {a : Action} : ReachableCapped config p w → w.Admissible a → Capped p a →
    ReachableCapped config p (w.step a)

omit [LawfulCodec] in
theorem ReachableCapped.reachable (reach : ReachableCapped config p w) : Reachable config w := by
  induction reach with
  | new => exact .new
  | step _ may _ ih => exact .step ih may

omit [LawfulCodec] in
/-- What every event keeps, every reachable machine has. -/
theorem Reachable.machine_invariant {P : Handoff → Prop} (reach : Reachable config w)
    (start : P (.new config)) (keep : ∀ {h : Handoff} (e : Event), P h → P (h.event e).1)
    (q : Party) : P (w.machine q) := by
  induction reach with
  | new => cases q <;> exact start
  | step _ _ ih =>
    rw [machine_step]
    split
    next q' e _ =>
      split
      · exact keep e ih
      · exact ih
    · exact ih

theorem ReachableCapped.windowed (reach : ReachableCapped config p w) :
    Windowed (w.machine p) := by
  induction reach with
  | new => cases p <;> exact windowed_new config
  | @step w a before may capped ih =>
    rw [machine_step]
    split
    next q e is =>
      split
      next same =>
        subst same
        refine event_windowed (before.reachable.good.sound.wf q) ih fun frame now sends => ?_
        subst sends
        have send := eventOf_send is
        subst send
        exact ⟨MaySend.room may, capped rfl⟩
      · exact ih
    · exact ih

theorem ReachableCapped.balanced (reach : ReachableCapped config p w) : Balanced w p.peer := by
  have config' : ∀ q, (w.machine q).config = config :=
    reach.reachable.machine_invariant (P := fun h => h.config = config) rfl
      fun {h} e same => (event_config).trans same
  refine ⟨?_, reach.reachable.machine_invariant (tallied_new config) (fun {h} e tallied =>
    (event_micro h (eventSends_true)).invariant (fun step => step.tallied) tallied) p.peer, ?_⟩
  · rw [Party.peer_peer]
    exact reach.windowed
  · rw [config', config']

/-- **An honest peer never overflows the hold.**  While side `p` sends within the
lane caps and only into open windows, its peer leaves for an overflow only if it
is told that its link was lost for that reason; each slot of `p` has exactly its
kept bytes unconfirmed, less than its window and one frame; and no counts confirm
more than that. -/
theorem never_overflows (reach : ReachableCapped config p w) :
    (∀ a, .left .overflow ∈ w.told p.peer a → ∃ now, a = .linkLost p.peer .overflow now) ∧
    (∀ s, ((w.machine p).sending.get s).unconfirmed =
        (((w.machine p).sending.get s).kept.map fun k => k.2.length).sum ∧
      ((w.machine p).sending.get s).unconfirmed <
        (w.machine p).window s + slotCap (w.machine p).layout s) ∧
    ∀ s received, (((w.machine p).sending.get s).confirmUpTo received).2 ≤
      ((w.machine p).sending.get s).unconfirmed := by
  have wf := reach.reachable.good.sound.wf p
  refine ⟨fun a left => ?_, fun s => ⟨wf.unconfirmed s, reach.windowed.bound s⟩, fun s received =>
    ?_⟩
  · unfold told at left
    split at left
    next q e is =>
      split at left
      next same =>
        subst same
        by_contra notTold
        refine event_no_overflow _ (fun c piece now link => ?_) (fun now told => ?_) left
        · subst link
          obtain ⟨more, queue⟩ := eventOf_fromLink is
          exact reach.reachable.good.fromLink_no_overflow reach.balanced queue left
        · subst told
          exact notTold ⟨now, eventOf_linkLost is⟩
      · exact absurd left not_mem_nil
    · exact absurd left not_mem_nil
  · have parts := keptBytes_confirmUpTo ((w.machine p).sending.get s) received
    have exact' := wf.unconfirmed s
    omega

end World

end OpenGate.Direct

namespace OpenGate.Direct.World

open Handoff

/-- Side `a` switched and sent a ping over the link, which `b` holds: the notice is
still on the relay. -/
def held : World := (((new .default).step (.linkOpen .a 0 .separate)).step
  (.send .a [0x05] 1)).step (.carryLink .b .typing 2)

theorem reachable_held : ReachableCapped .default .a held :=
  .step (.step (.step .new trivial trivial) ⟨rfl, ⟨rfl, rfl⟩, by decide⟩ fun _ => by decide)
    trivial trivial

theorem never_overflows_held :
    (held.machine .b).heldBytes = 1 ∧ ((held.machine .a).sending.get .typing).unconfirmed = 1 ∧
      ((held.machine .a).sending.get .typing).unconfirmed <
        typingWindowBytes + interactiveFrameCap :=
  ⟨rfl, rfl, ((never_overflows reachable_held).2.1 .typing).2⟩

end OpenGate.Direct.World
