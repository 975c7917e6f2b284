import OpenGate.Direct.HandoffSteps

/-!
# What every run keeps

`Course` places a hand-off on its one way from the relay to the link and back:
each value of `path` comes with the values of `switched`, `leftLink` and the
holding deadline it can stand with, and with the whole list of paths before it.
`Wf` adds what the fields owe each other.  Both hold of a new hand-off and are
kept by every small step, so by every run, whatever the events.
-/

namespace OpenGate.Direct.Handoff

open Lib PerChannel Receiving List

/-- Where a hand-off stands on its one way out and back. -/
inductive Course (h : Handoff) : Prop
  | relay : h.paths = [.relay] → h.path = .relay → h.switched = false →
    h.holdingDeadline = none → Course h
  | link : h.paths = [.relay, .link] → h.path = .link → h.switched = true →
    h.leftLink = false → h.holdingDeadline = none → Course h
  | holding (since : Nat) : h.paths = [.relay, .link, .holding] → h.path = .holding →
    h.switched = true → h.leftLink = true → h.leftAt = some since →
    h.holdingDeadline = some (since + peerFallbackWaitMs) → Course h
  | back : h.paths = [.relay, .link, .holding, .relay] → h.path = .relay →
    h.switched = true → h.leftLink = true → h.holdingDeadline = none → Course h
  | ended : h.paths = [.relay, .link, .holding, .ended] → h.path = .ended →
    h.switched = true → h.leftLink = true → h.holdingDeadline = none → Course h

/-- What leaving the link left: no timer but the holding one, nothing held and
nothing half reassembled. -/
structure Emptied (h : Handoff) : Prop where
  firstUnacked : h.firstUnacked = none
  budgetDeadline : h.budgetDeadline = none
  attempted : h.attempted = true
  receiving : ∀ c, (h.receiving.get c).held = [] ∧ (h.receiving.get c).heldBytes = 0 ∧
    (h.receiving.get c).reassembler = .new

/-- The bytes of the frames kept. -/
def keptBytes (kept : List (Nat × Bytes)) : Nat := (kept.map fun k => k.2.length).sum

/-- What holds of a machine after any calls: its course, the bytes it counts as unconfirmed, that
`direct` is two switches, and that a side that left has nothing pending. -/
structure Wf (h : Handoff) : Prop where
  course : Course h
  unconfirmed : ∀ c, (h.sending.get c).unconfirmed = keptBytes (h.sending.get c).kept
  direct : h.direct = true → h.switched = true ∧ h.peerSwitched = true
  emptied : h.leftLink = true → Emptied h

/-! ## Consequences of the course -/

variable {h : Handoff} {s : Sending} {frame : Bytes}

section

variable (course : Course h)
include course

theorem Course.of_path_link (path : h.path = .link) :
    h.paths = [.relay, .link] ∧ h.switched ∧ h.leftLink = false ∧
      h.holdingDeadline = none := by
  cases course with
  | link paths _ switched on deadline => exact ⟨paths, switched, on, deadline⟩
  | relay _ path' _ _ | holding _ _ path' _ _ _ _ | back _ path' _ _ _ | ended _ path' _ _ _ =>
    simp only [path', reduceCtorEq] at path

/-- A side that holds has left the link at a known time, and waits from there. -/
theorem Course.of_path_holding (path : h.path = .holding) :
    h.paths = [.relay, .link, .holding] ∧ h.switched ∧ h.leftLink ∧
      ∃ since, h.leftAt = some since ∧ h.holdingDeadline = some (since + peerFallbackWaitMs) := by
  cases course with
  | holding since paths _ switched left at' deadline =>
    exact ⟨paths, switched, left, since, at', deadline⟩
  | relay _ path' _ _ | link _ path' _ _ _ | back _ path' _ _ _ | ended _ path' _ _ _ =>
    simp only [path', reduceCtorEq] at path

/-- Only a side that is holding has a holding deadline. -/
theorem Course.path_of_deadline {deadline : Nat} (waits : h.holdingDeadline = some deadline) :
    h.path = .holding := by
  cases course with
  | holding _ _ path _ _ _ _ => exact path
  | relay _ _ _ none | link _ _ _ _ none | back _ _ _ _ none | ended _ _ _ _ none =>
    simp only [none, reduceCtorEq] at waits

/-- A side that has not switched is on the relay it started on. -/
theorem Course.of_unswitched (unswitched : h.switched = false) :
    h.paths = [.relay] ∧ h.path = .relay ∧ h.holdingDeadline = none := by
  cases course with
  | relay paths path _ deadline => exact ⟨paths, path, deadline⟩
  | link _ _ switched _ _ | holding _ _ _ switched _ _ _ | back _ _ switched _ _
  | ended _ _ switched _ _ => simp only [switched, reduceCtorEq] at unswitched

/-- A side that has switched and not left is on the link. -/
theorem Course.on_link (switched : h.switched) (on : h.leftLink = false) : h.path = .link := by
  cases course with
  | link _ path _ _ _ => exact path
  | relay _ _ unswitched _ => simp only [unswitched, reduceCtorEq] at switched
  | holding _ _ _ _ left _ _ | back _ _ _ left _ | ended _ _ _ left _ =>
    simp only [left, reduceCtorEq] at on

/-- The fields that the course is about. -/
def courseFields (h : Handoff) : List Path × Path × Bool × Bool × Option Nat × Option Nat :=
  (h.paths, h.path, h.switched, h.leftLink, h.holdingDeadline, h.leftAt)

variable {h' : Handoff}

theorem Course.congr (same : h'.courseFields = h.courseFields) : Course h' := by
  simp only [courseFields, Prod.mk.injEq] at same
  obtain ⟨paths', path', switched', left', deadline', at'⟩ := same
  cases course with
  | relay paths path switched deadline =>
    exact .relay (paths'.trans paths) (path'.trans path) (switched'.trans switched)
      (deadline'.trans deadline)
  | link paths path switched on deadline =>
    exact .link (paths'.trans paths) (path'.trans path) (switched'.trans switched)
      (left'.trans on) (deadline'.trans deadline)
  | holding since paths path switched left at₀ deadline =>
    exact .holding since (paths'.trans paths) (path'.trans path) (switched'.trans switched)
      (left'.trans left) (at'.trans at₀) (deadline'.trans deadline)
  | back paths path switched left deadline =>
    exact .back (paths'.trans paths) (path'.trans path) (switched'.trans switched)
      (left'.trans left) (deadline'.trans deadline)
  | ended paths path switched left deadline =>
    exact .ended (paths'.trans paths) (path'.trans path) (switched'.trans switched)
      (left'.trans left) (deadline'.trans deadline)

end

theorem Emptied.congr (emptied : Emptied h)
    (same : (h'.firstUnacked, h'.budgetDeadline, h'.attempted, h'.receiving) =
      (h.firstUnacked, h.budgetDeadline, h.attempted, h.receiving)) : Emptied h' := by
  simp only [Prod.mk.injEq] at same
  obtain ⟨unacked, budget, attempted, receiving⟩ := same
  refine ⟨unacked.trans emptied.firstUnacked, budget.trans emptied.budgetDeadline,
    attempted.trans emptied.attempted, fun c => ?_⟩
  rw [receiving]
  exact emptied.receiving c

/-- Leaving takes a side on the link to holding, and one on the relay nowhere. -/
theorem Course.departed (course : Course h) (on : h.leftLink = false) (now : Nat) :
    Course (h.departed now) := by
  cases course with
  | relay paths path switched deadline =>
    simp only [Handoff.departed, path, reduceCtorEq, if_false]
    exact .relay paths rfl switched deadline
  | link paths path switched _ _ =>
    simp only [Handoff.departed, path, if_true, setPath, paths]
    exact .holding now rfl rfl switched rfl rfl rfl
  | holding _ _ _ _ left _ _ | back _ _ _ left _ | ended _ _ _ left _ =>
    simp only [left, reduceCtorEq] at on

/-! ## Frames kept -/

theorem keptBytes_append (kept more : List (Nat × Bytes)) :
    keptBytes (kept ++ more) = keptBytes kept + keptBytes more := by
  simp only [keptBytes, map_append, sum_append]

/-- What is confirmed and what is still kept make up what was kept. -/
theorem keptBytes_confirmUpTo (s : Sending) (received : Nat) :
    (s.confirmUpTo received).2 + keptBytes (s.confirmUpTo received).1.kept = keptBytes s.kept := by
  have parts := keptBytes_append (s.kept.takeWhile fun k => k.1 ≤ received)
    (s.kept.dropWhile fun k => k.1 ≤ received)
  rw [takeWhile_append_dropWhile] at parts
  exact parts.symm

theorem take_unconfirmed (exact' : s.unconfirmed = keptBytes s.kept) :
    (s.take frame).unconfirmed = keptBytes (s.take frame).kept := by
  have one : keptBytes [(s.nextNumber, frame)] = frame.length := by
    simp only [keptBytes, map_cons, map_nil, sum_cons, sum_nil, Nat.add_zero]
  simp only [Sending.take, keptBytes_append, one, exact']

theorem confirmed_sending (h : Handoff) (received : Counts) (c : Channel) :
    (h.confirmed received).1.sending.get c =
      ((h.sending.get c).confirmUpTo (received.get c).toNat).1 := by
  cases c <;> rfl

/-! ## Every small step keeps it -/

theorem wf_new (config : Config) : Wf (new config) where
  course := .relay rfl rfl rfl rfl
  unconfirmed c := by
    simp only [new, get_fill]
    rfl
  direct absurd := by simp only [new, reduceCtorEq] at absurd
  emptied absurd := by simp only [new, reduceCtorEq] at absurd

/-- A side still on the link has emptied nothing. -/
theorem Wf.on_link (course : Course h)
    (unconfirmed : ∀ c, (h.sending.get c).unconfirmed = keptBytes (h.sending.get c).kept)
    (direct : h.direct → h.switched ∧ h.peerSwitched) (on : h.leftLink = false) : Wf h :=
  ⟨course, unconfirmed, direct, fun left => absurd (on.symm.trans left) Bool.false_ne_true⟩

variable [WireCodec] {Sent : Bytes → Prop} {Why : LeaveReason → Prop}

variable {out : List Instruction} {e : Event} {es : List Event}

/-- One case for each kind of step. -/
theorem Quiet.wf (step : Quiet Why h out h') (wf : Wf h) : Wf h' := by
  cases step with
  | attempt now fresh =>
    refine ⟨wf.course.congr rfl, wf.unconfirmed, wf.direct, fun left => ?_⟩
    -- a side that left has its attempt behind it
    have attempted := (wf.emptied left).attempted
    simp only [fresh, reduceCtorEq] at attempted
  | switch layout unswitched on path =>
    obtain ⟨paths, -, deadline⟩ := wf.course.of_unswitched unswitched
    refine .on_link (.link ?_ rfl rfl on deadline) wf.unconfirmed (fun direct => ?_) on
    · simp only [setPath, paths, cons_append, nil_append]
    · exact ⟨rfl, (wf.direct direct).2⟩
  | direct switched peer _ on =>
    exact .on_link (wf.course.congr rfl) wf.unconfirmed (fun _ => ⟨switched, peer⟩) on
  | ack on => exact .on_link (wf.course.congr rfl) wf.unconfirmed wf.direct on
  | lateAck left =>
    have emptied := wf.emptied left
    refine ⟨wf.course.congr rfl, wf.unconfirmed, wf.direct, fun _ => ?_⟩
    refine ⟨rfl, emptied.budgetDeadline, emptied.attempted, fun c => ?_⟩
    simp only [acked, get_map, acked]
    exact emptied.receiving c
  | dropBudget =>
    refine ⟨wf.course.congr rfl, wf.unconfirmed, wf.direct, fun left => ?_⟩
    have emptied := wf.emptied left
    exact ⟨emptied.firstUnacked, rfl, emptied.attempted, emptied.receiving⟩
  | leave reason now why on =>
    have receiving := departed_receiving h now
    refine ⟨wf.course.departed on now, ?_, ?_, fun _ => ⟨?_, ?_, ?_, fun c => ?_⟩⟩
    · unfold departed
      simp only
      split <;> exact wf.unconfirmed
    · unfold departed
      simp only
      split <;> exact wf.direct
    · unfold departed
      simp only
      split <;> rfl
    · unfold departed
      simp only
      split <;> rfl
    · unfold departed
      simp only
      split <;> rfl
    · rw [receiving, get_map]
      exact ⟨rfl, rfl, rfl⟩
  | resend received path known =>
    obtain ⟨paths, switched, left, -⟩ := wf.course.of_path_holding path
    refine ⟨.back ?_ rfl switched left rfl, fun c => ?_, wf.direct,
      fun left => (wf.emptied left).congr rfl⟩
    · simp only [Handoff.resend, setPath, paths, cons_append, nil_append]
    · simp only [Handoff.resend, setPath, get_map, Sending.drained]
      rfl
  | forgetHeldBytes slot on | release slot frame held now on =>
    exact .on_link (wf.course.congr rfl) wf.unconfirmed wf.direct on

theorem Linked.wf (step : Linked Why h out h') (wf : Wf h) : Wf h' := by
  cases step with
  | quiet step => exact step.wf wf
  | reassemble slot r on | hold slot frame on | count slot frame now on =>
    exact .on_link (wf.course.congr rfl) wf.unconfirmed wf.direct on
  | confirmed received =>
    refine ⟨wf.course.congr rfl, fun c => ?_, wf.direct, fun left => (wf.emptied left).congr rfl⟩
    rw [confirmed_sending]
    have parts := keptBytes_confirmUpTo (h.sending.get c) (received.get c).toNat
    rw [← wf.unconfirmed c] at parts
    exact Nat.sub_eq_of_eq_add' parts.symm

/-- Every step keeps it, and so does every call. -/
theorem Micro.wf (step : Micro Sent h out h') (wf : Wf h) : Wf h' := by
  cases step with
  | linked step => exact step.wf wf
  | sendRelay frame sent path | deliver frame | signal msg => exact wf
  | sendLink frame sent path =>
    refine ⟨wf.course.congr rfl, fun c => ?_, wf.direct, fun left => (wf.emptied left).congr rfl⟩
    simp only [numbered, get_set]
    split
    · exact take_unconfirmed (wf.unconfirmed _)
    · exact wf.unconfirmed c
  | peerSwitch fresh on =>
    refine ⟨wf.course.congr rfl, wf.unconfirmed, fun direct => ?_,
      fun left => (wf.emptied left).congr rfl⟩
    exact ⟨(wf.direct direct).1, rfl⟩
  | peerFallback received =>
    exact ⟨wf.course.congr rfl, wf.unconfirmed, wf.direct, fun left => (wf.emptied left).congr rfl⟩
  | expire deadline now waits due =>
    obtain ⟨paths, switched, left, -⟩ :=
      wf.course.of_path_holding (wf.course.path_of_deadline waits)
    refine ⟨.ended ?_ rfl switched left rfl, wf.unconfirmed, wf.direct,
      fun left => (wf.emptied left).congr rfl⟩
    simp only [expired, setPath, paths, cons_append, nil_append]

theorem event_wf (wf : Wf h) : Wf (h.event e).1 :=
  (event_micro h (eventSends_true)).invariant (fun step => step.wf) wf

/-- **Every run of a hand-off is well formed.** -/
theorem run_wf {config : Config} : Wf ((new config).run es).1 :=
  (run_micro (new config) fun _ _ => eventSends_true).invariant (fun step => step.wf)
    (wf_new config)

/-! ## What never changes or never falls -/

theorem Quiet.config (step : Quiet Why h out h') : h'.config = h.config := by
  cases step with
  | leave reason now why on =>
    unfold departed
    simp only
    split <;> rfl
  | _ => rfl

theorem Linked.config (step : Linked Why h out h') : h'.config = h.config := by
  cases step with
  | quiet step => exact step.config
  | _ => rfl

theorem Micro.config (step : Micro Sent h out h') : h'.config = h.config := by
  cases step with
  | linked step => exact step.config
  | _ => rfl

/-- The counts of what is delivered never go back. -/
theorem Quiet.delivered_le (step : Quiet Why h out h') (c : Channel) :
    (h.receiving.get c).delivered ≤ (h'.receiving.get c).delivered := by
  cases step with
  | ack | lateAck =>
    simp only [acked, get_map, acked]
    exact le_rfl
  | leave reason now why on =>
    rw [departed_receiving, get_map]
    exact le_rfl
  | forgetHeldBytes slot on peer => exact (get_set_congr _ _ (by rfl) c).ge
  | release slot frame held now on peer front =>
    simp only [counted, withHeld, Receiving.count, get_set]
    split
    next same =>
      simp only [same, if_true]
      exact Nat.le_succ _
    · exact le_rfl
  | attempt | switch | direct | dropBudget | resend => exact le_rfl

theorem Linked.delivered_le (step : Linked Why h out h') (c : Channel) :
    (h.receiving.get c).delivered ≤ (h'.receiving.get c).delivered := by
  cases step with
  | quiet step => exact step.delivered_le c
  | reassemble slot | hold slot => exact (get_set_congr _ _ (by rfl) c).ge
  | count slot frame now on peer =>
    simp only [counted, Receiving.count, get_set]
    split
    next same =>
      rw [same]
      exact Nat.le_succ _
    · exact le_rfl
  | confirmed received => exact le_rfl

theorem Micro.delivered_le (step : Micro Sent h out h') (c : Channel) :
    (h.receiving.get c).delivered ≤ (h'.receiving.get c).delivered := by
  cases step with
  | linked step => exact step.delivered_le c
  | _ => exact le_rfl

/-- Over any run. -/
theorem run_delivered_le {c : Channel} :
    (h.receiving.get c).delivered ≤ ((h.run es).1.receiving.get c).delivered :=
  (run_micro h fun _ _ => eventSends_true).invariant
    (P := fun h' => (h.receiving.get c).delivered ≤ (h'.receiving.get c).delivered)
    (fun step below => below.trans (step.delivered_le c)) le_rfl

/-- No call changes the configuration. -/
theorem event_config : (h.event e).1.config = h.config :=
  (event_micro h (eventSends_true)).invariant (P := fun h' => h'.config = h.config)
    (fun step same => step.config.trans same) rfl

/-! ## Between events -/

/-- What holds of a hand-off between two events, though not in the middle of one:
a peer's switch notice has released everything held, and a peer's fall-back
notice has been answered. -/
structure Settled (h : Handoff) : Prop where
  flushed : h.peerSwitched = true → ∀ c, (h.receiving.get c).held = []
  answered : h.peerFallback.isSome = true → h.leftLink = true ∧ h.path ≠ .holding

omit [WireCodec] in
theorem settled_new {config : Config} : Settled (new config) where
  flushed absurd := by simp only [new, reduceCtorEq] at absurd
  answered absurd := by simp [new] at absurd

omit [WireCodec] in
/-- Where the side has not left, the peer's counts have not come. -/
theorem Settled.unanswered (settled : Settled h) (on : h.leftLink = false) :
    h.peerFallback = none := by
  cases known : h.peerFallback with
  | none => rfl
  | some received =>
    have left := (settled.answered (by rw [known]; rfl)).1
    simp only [on, reduceCtorEq] at left

theorem Quiet.peerFallback_eq (step : Quiet Why h out h') : h'.peerFallback = h.peerFallback := by
  cases step with
  | leave reason now why on => exact departed_peerFallback
  | _ => rfl

theorem Quiet.settled (step : Quiet Why h out h') (settled : Settled h) : Settled h' := by
  cases step with
  | attempt now fresh | direct switched peer undirect on | dropBudget =>
    exact ⟨settled.flushed, settled.answered⟩
  | switch layout unswitched on path =>
    refine ⟨settled.flushed, fun some' => ?_⟩
    have left := (settled.answered some').1
    simp only [on, reduceCtorEq] at left
  | ack on | lateAck left =>
    refine ⟨fun peer c => ?_, settled.answered⟩
    simp only [acked, get_map, acked]
    exact settled.flushed peer c
  | leave reason now why on =>
    refine ⟨fun _ c => ?_, fun some' => ?_⟩
    · rw [departed_receiving, get_map]
      rfl
    · rw [departed_peerFallback, settled.unanswered on] at some'
      simp only [Option.isSome_none, reduceCtorEq] at some'
  | resend received path known =>
    have away := (settled.answered (by rw [known]; rfl)).2
    exact absurd path away
  | forgetHeldBytes slot on peer =>
    refine ⟨fun peer c => ?_, settled.answered⟩
    exact (get_set_congr _ _ (by rfl) c).trans (settled.flushed peer c)
  | release slot frame held now on peer front =>
    have none := settled.flushed peer slot
    simp only [front, reduceCtorEq] at none

theorem Linked.settled (step : Linked Why h out h') (settled : Settled h) : Settled h' := by
  cases step with
  | quiet step => exact step.settled settled
  | hold slot frame on fresh =>
    refine ⟨fun peer => ?_, settled.answered⟩
    simp only [Handoff.hold, fresh, reduceCtorEq] at peer
  | reassemble slot | count slot =>
    refine ⟨fun peer c => ?_, settled.answered⟩
    exact (get_set_congr _ _ (by rfl) c).trans (settled.flushed peer c)
  | confirmed received => exact ⟨settled.flushed, settled.answered⟩

/-- Releasing one slot empties it and leaves the others alone. -/
theorem releaseHeld_held (slot : Channel) (now : Nat) (held : List Bytes) (h : Handoff)
    (here : (h.receiving.get slot).held = held) (c : Channel) :
    ((releaseHeld slot now held h).1.receiving.get c).held =
      if c = slot then [] else (h.receiving.get c).held := by
  induction held generalizing h with
  | nil =>
    simp only [releaseHeld]
    split
    next is => rw [is, here]
    · rfl
  | cons frame held ih =>
    have here' : (((h.withHeld slot held).deliverLink slot frame now).1.receiving.get slot).held =
        held := by
      rw [deliverLink_held]
      simp only [withHeld, get_set_self]
    have rest := ih ((h.withHeld slot held).deliverLink slot frame now).1 here'
    simp only [releaseHeld]
    refine rest.trans ?_
    split
    · rfl
    next ne =>
      rw [deliverLink_held]
      simp only [withHeld, get_set_ne _ _ ne]

/-- What is held on one channel goes, and the others keep theirs. -/
theorem releaseSlot_held (h : Handoff) (slot : Channel) (now : Nat) (c : Channel) :
    ((h.releaseSlot slot now).1.receiving.get c).held =
      if c = slot then [] else (h.receiving.get c).held := by
  have rest := releaseHeld_held slot now (h.receiving.get slot).held (h.withoutHeldBytes slot)
    (by simp only [withoutHeldBytes, get_set_self]) c
  refine rest.trans ?_
  split
  · rfl
  next ne => simp only [withoutHeldBytes, get_set_ne _ _ ne]

section

variable (settled : Settled h) (now : Nat)
include settled

/-- Nothing is held after the peer's switch notice. -/
theorem notePeerSwitched_settled : Settled (h.notePeerSwitched now).1 := by
  by_cases fresh : h.peerSwitched = false ∧ h.leftLink = false
  · refine ⟨fun _ c => ?_, fun some' => ?_⟩
    · unfold notePeerSwitched
      rw [if_neg (by rw [fresh.1, fresh.2]; exact Bool.false_ne_true)]
      simp only [releaseSlot_held]
      cases c <;> rfl
    · have chain : Emits (Quiet AnyReason) _ _ _ := notePeerSwitched_quiet fresh.1 fresh.2 now
      have same := chain.invariant
        (P := fun k => k.peerFallback = h.peerFallback)
        (fun step same => step.peerFallback_eq.trans same) rfl
      rw [same, settled.unanswered fresh.2] at some'
      simp only [Option.isSome_none, reduceCtorEq] at some'
  · rw [notePeerSwitched_skip fresh]
    exact settled

/-- The peer's counts are used where they come. -/
theorem peerFellBack_settled {received : Counts} {now : Nat} :
    Settled (h.peerFellBack received now).1 := by
  unfold peerFellBack
  simp only
  split
  next on =>
    have still : ({ h with peerFallback := some received } : Handoff).leftLink = false := by
      simpa using on
    have empty : ∀ c, ((({ h with peerFallback := some received } : Handoff).departed
        now).receiving.get c).held = [] := by
      intro c
      rw [departed_receiving, get_map]
      rfl
    rw [leave_eq still]
    simp only
    split
    · exact ⟨fun _ => empty, fun _ => ⟨departed_leftLink, by simp [resend, setPath]⟩⟩
    next away => exact ⟨fun _ => empty, fun _ => ⟨departed_leftLink, away⟩⟩
  next left =>
    simp only [Bool.not_eq_eq_eq_not, Bool.not_true, Bool.not_eq_false] at left
    split
    · exact ⟨settled.flushed, fun _ => ⟨left, by simp [resend, setPath]⟩⟩
    next away => exact ⟨settled.flushed, fun _ => ⟨left, away⟩⟩

theorem fromRelay_settled {now : Nat} : Settled (h.fromRelay frame now).1 := by
  unfold fromRelay
  split
  · exact notePeerSwitched_settled settled now
  · exact peerFellBack_settled settled
  · split <;> exact settled
  · exact settled

theorem tick_settled : Settled (h.tick now).1 := by
  obtain ⟨h₁, out₁, chain, is | ⟨deadline, -, waits, due, is⟩⟩ :=
    tick_cases h (show AnyReason .budget from trivial) now
  · rw [is]
    exact chain.invariant (fun step => step.settled) settled
  · have settled₁ := chain.invariant (fun step => step.settled) settled
    rw [is]
    exact ⟨settled₁.flushed, fun some' =>
      ⟨(settled₁.answered some').1, by simp [expired, setPath]⟩⟩

/-- Between two calls everything that could be done is done. -/
theorem event_settled : Settled (h.event e).1 := by
  have quietly : ∀ {k : Handoff} {out : List Instruction}, Emits (Quiet AnyReason) h out k →
      Settled k :=
    fun chain => chain.invariant (fun step => step.settled) settled
  cases e with
  | beginAttempt now => exact quietly (beginAttempt_quiet)
  | linkOpen now layout => exact quietly (linkOpen_quiet h now layout)
  | send frame now =>
    simp only [event, send]
    split
    · exact settled
    · exact ⟨settled.flushed, settled.answered⟩
    · exact settled
    · exact settled
  | fromRelay frame now => exact fromRelay_settled settled
  | fromLink channel piece now =>
    exact (fromLink_linked (show AnyReason _ from trivial) trivial channel piece).invariant
      (fun step => step.settled) settled
  | linkLost reason now => exact quietly (leave_quiet h trivial now)
  | tick now => exact tick_settled settled now

end

/-! ## The end of a session -/

/-- Only the end of the wait ends a session. -/
theorem Quiet.not_ended (step : Quiet Why h out h') (going : h.path ≠ .ended) :
    h'.path ≠ .ended := by
  cases step with
  | switch layout unswitched on path => simp [setPath]
  | leave reason now why on =>
    unfold departed
    simp only
    split
    · simp [setPath]
    · exact going
  | resend received path known => simp [Handoff.resend, setPath]
  | _ => exact going

theorem Linked.not_ended (step : Linked Why h out h') (going : h.path ≠ .ended) :
    h'.path ≠ .ended := by
  cases step with
  | quiet step => exact step.not_ended going
  | _ => exact going

/-- No other event than a tick ends a session. -/
theorem event_not_ended (going : h.path ≠ .ended) (other : ∀ now, e ≠ .tick now) :
    (h.event e).1.path ≠ .ended := by
  have quietly : ∀ {k k' : Handoff} {out : List Instruction}, Emits (Quiet AnyReason) k out k' →
      k.path ≠ .ended → k'.path ≠ .ended :=
    fun chain => chain.invariant (P := fun k => k.path ≠ .ended) fun step => step.not_ended
  cases e with
  | beginAttempt now => exact quietly (beginAttempt_quiet) going
  | linkOpen now layout => exact quietly (linkOpen_quiet h now layout) going
  | send frame now =>
    simp only [event, send]
    split <;> exact going
  | fromRelay frame now =>
    simp only [event, fromRelay]
    split
    · by_cases fresh : h.peerSwitched = false ∧ h.leftLink = false
      · exact quietly (notePeerSwitched_quiet fresh.1 fresh.2 now) going
      · rw [notePeerSwitched_skip fresh]
        exact going
    · exact quietly (peerFellBack_quiet h _ trivial now) going
    · split <;> exact going
    · exact going
  | fromLink channel piece now =>
    exact (fromLink_linked (show AnyReason _ from trivial) trivial channel piece).invariant
      (P := fun k => k.path ≠ .ended) (fun step => step.not_ended) going
  | linkLost reason now => exact quietly (leave_quiet h trivial now) going
  | tick now => exact absurd rfl (other now)

/-- A tick ends the session of a holding side only, after the whole wait. -/
theorem tick_ended (wf : Wf h) (going : h.path ≠ .ended) {now : Nat}
    (ended : (h.tick now).1.path = .ended) :
    h.path = .holding ∧ ∃ since, h.leftAt = some since ∧ since + peerFallbackWaitMs ≤ now := by
  obtain ⟨h₁, out₁, chain, is | ⟨deadline, waits, -, due, -⟩⟩ :=
    tick_cases h (show AnyReason .budget from trivial) now
  · have still := chain.invariant (P := fun k => k.path ≠ .ended) (fun step => step.not_ended) going
    rw [is] at ended
    exact absurd ended still
  · have path := wf.course.path_of_deadline waits
    obtain ⟨-, -, -, since, left, until'⟩ := wf.course.of_path_holding path
    rw [waits, Option.some.injEq] at until'
    exact ⟨path, since, left, until' ▸ due⟩

end OpenGate.Direct.Handoff
