import OpenGate.Direct.WorldInv

/-!
# Exactly once, in order, and never stuck

The two results about the system of `World.lean`: whatever the interleaving and
wherever the link breaks, each side delivers its peer's frames of each job
exactly once and in order; and a side that holds its frames back always has a
notice in flight that will move it.
-/

namespace OpenGate.Direct.World

open Handoff List

section

variable [WireCodec] [LawfulCodec] {config : Config} {w : World}

/-- **Exactly once and in order.**  The frames of a job the peer of `p` was told to
deliver are a prefix of those `p` was given to send, and all of them once `p` is
on the relay with nothing of its own in flight there. -/
theorem exactly_once_in_order (reach : Reachable config w) (p : Party) (c : Channel) :
    only c (w.side.get p.peer).delivered <+: only c (w.side.get p).sent ∧
      ((w.machine p).path = .relay → w.relay.get p.peer = [] →
        only c (w.side.get p.peer).delivered = only c (w.side.get p).sent) := by
  obtain ⟨g, ok, -⟩ := reach.good.ok
  have inv := ok.inv p
  have account : only c (w.side.get p).sent =
      only c (w.side.get p.peer).delivered ++ only c ((g.get p).before ++ (g.get p).after) ++
        (w.direction p).undelivered (g.get p) c := inv.account c
  refine ⟨?_, fun path empty => ?_⟩
  · rw [account, append_assoc]
    exact prefix_append _ _
  · have parts : w.relay.get p.peer = _ := inv.relay
    rw [empty, eq_comm, append_eq_nil_iff, append_eq_nil_iff] at parts
    have none : (w.direction p).undelivered (g.get p) c = [] := if_pos path
    rw [account, none, parts.1.1, parts.2, append_nil, append_nil, only_nil, append_nil]

/-- **One path at a time.**  A side that is on the link and has its peer's switch
has no session frame on its way over the relay, and its peer is off the relay. -/
theorem one_path_at_a_time (reach : Reachable config w) (p : Party)
    (on : (w.machine p).leftLink = false) (switched : (w.machine p).peerSwitched) :
    (w.machine p.peer).path ≠ .relay ∧ ∀ f ∈ w.relay.get p, isSession f = false := by
  obtain ⟨g, ok, -⟩ := reach.good.ok
  have inv := ok.inv p.peer
  have view := receiver_peer w p
  obtain ⟨before, after, off⟩ :=
    inv.relay_quiet (by rw [view]; exact on) (by rw [view]; exact switched)
  refine ⟨off, fun f here => ?_⟩
  have parts : w.relay.get p.peer.peer = _ := inv.relay
  rw [Party.peer_peer, before, after, nil_append, append_nil] at parts
  simp only [parts, Ghost.notices, mem_append, mem_ite_nil_right, mem_singleton] at here
  rcases here with ⟨-, rfl⟩ | ⟨-, rfl⟩
  · rw [isSession, controlOf_switchFrame]; rfl
  · rw [isSession, controlOf_fallbackFrame]; rfl

end

/-- Both sides switch to the link; one of two frames sent over it arrives, the other is lost with
the link. -/
def lostFrame : World :=
  [.linkOpen .a 0 .separate, .linkOpen .b 0 .separate, .carryRelay .b 1, .carryRelay .a 1,
    .send .a [0x05] 2, .carryLink .b .typing 2, .send .a [0x06] 2, .cut .b .typing,
    .linkLost .a .closed 3].foldl step (new .default)

/-- Both sides fall back, and the frame is sent again. -/
def fellBack : World :=
  [.carryRelay .b 4, .carryRelay .a 4, .carryRelay .b 5].foldl step lostFrame

theorem reachable_fellBack : Reachable .default fellBack := by
  have start : Reachable .default (new .default) := .new
  have switched := start.step (a := .linkOpen .a 0 .separate) trivial
    |>.step (a := .linkOpen .b 0 .separate) trivial
    |>.step (a := .carryRelay .b 1) trivial |>.step (a := .carryRelay .a 1) trivial
  have sent := switched.step (a := .send .a [0x05] 2) ⟨rfl, ⟨rfl, rfl⟩, by decide⟩
    |>.step (a := .carryLink .b .typing 2) trivial
    |>.step (a := .send .a [0x06] 2) ⟨rfl, ⟨rfl, rfl⟩, by decide⟩
  exact sent.step (a := .cut .b .typing) trivial |>.step (a := .linkLost .a .closed 3) trivial
    |>.step (a := .carryRelay .b 4) trivial |>.step (a := .carryRelay .a 4) trivial
    |>.step (a := .carryRelay .b 5) trivial

theorem exactly_once_in_order_fellBack :
    only .typing (lostFrame.side.get .b).delivered = [[0x05]] ∧
      (lostFrame.machine .a).path = .holding ∧ (fellBack.machine .a).path = .relay ∧
      fellBack.relay.get .b = [] ∧
        only .typing (fellBack.side.get .b).delivered = [[0x05], [0x06]] ∧
      only .typing (fellBack.side.get .b).delivered = only .typing (fellBack.side.get .a).sent :=
  ⟨rfl, rfl, rfl, rfl, rfl, (exactly_once_in_order reachable_fellBack .a .typing).2 rfl rfl⟩

def linked : World := ((new .default).step (.linkOpen .a 0 .separate)).step (.carryRelay .b 1)

theorem one_path_at_a_time_linked :
    (linked.machine .a).path ≠ .relay ∧ ∀ f ∈ linked.relay.get .b, isSession f = false :=
  have reach : Reachable .default linked := .step (.step .new trivial) trivial
  one_path_at_a_time reach .b rfl rfl

section

variable [WireCodec] [LawfulCodec] {config : Config} {w : World} {p : Party}

/-- A side that left the link has its fall-back notice in flight, or its peer has
left too. -/
theorem fallback_in_flight (reach : Reachable config w) (left : (w.machine p).leftLink) :
    fallbackFrame (w.machine p).deliveredEach ∈ w.relay.get p.peer ∨
      (w.machine p.peer).leftLink ∧ (w.machine p.peer).peerFallback.isSome := by
  obtain ⟨g, ok, -⟩ := reach.good.ok
  have inv := ok.inv p
  cases flying : (g.get p).fallingBack with
  | true =>
    left
    have parts : w.relay.get p.peer = _ := inv.relay
    rw [parts, Ghost.notices, flying]
    exact mem_append_left _ (mem_append_right _
      (mem_append_right _ (mem_singleton.mpr rfl)))
  | false =>
    right
    have told : (w.machine p.peer).peerFallback = _ := (inv.fellBack left flying).1
    have known : (w.machine p.peer).peerFallback.isSome := by rw [told]; rfl
    exact ⟨((reach.good.settled p.peer).answered known).1, known⟩

/-- Only a tick of a holding side ends its session. -/
theorem ended_by_tick (reach : Reachable config w) {a : Action}
    (going : (w.machine p).path ≠ .ended) (ended : ((w.step a).machine p).path = .ended) :
    (w.machine p).path = .holding ∧
      ∃ now since, a = .tick p now ∧ (w.machine p).leftAt = some since ∧
        since + peerFallbackWaitMs ≤ now := by
  rw [machine_step] at ended
  split at ended
  next q e is =>
    split at ended
    next same =>
      subst same
      by_cases tick : ∃ now, e = .tick now
      · obtain ⟨now, rfl⟩ := tick
        obtain ⟨path, since, left, waited⟩ := tick_ended (reach.good.sound.wf q) going ended
        exact ⟨path, now, since, eventOf_tick is, left, waited⟩
      · exact absurd ended (event_not_ended going fun now is => tick ⟨now, is⟩)
    · exact absurd ended going
  · exact absurd ended going

/-- **A reachable peer never leaves a side stuck.**  A side that holds its frames has
its own fall-back notice in flight or its peer's; with both relay queues empty no
side holds, and both or neither left the link; and a session ends only by a tick
of a holding side, no sooner than the wait after it left. -/
theorem never_stuck (reach : Reachable config w) :
    (∀ p, (w.machine p).path = .holding →
      fallbackFrame (w.machine p).deliveredEach ∈ w.relay.get p.peer ∨
        fallbackFrame (w.machine p.peer).deliveredEach ∈ w.relay.get p) ∧
    (w.relay.get .a = [] → w.relay.get .b = [] → (∀ p, (w.machine p).path ≠ .holding) ∧
        (w.machine .a).leftLink = (w.machine .b).leftLink) ∧
    (∀ p a, (w.machine p).path ≠ .ended → ((w.step a).machine p).path = .ended →
      (w.machine p).path = .holding ∧
        ∃ now since, a = .tick p now ∧ (w.machine p).leftAt = some since ∧
          since + peerFallbackWaitMs ≤ now) := by
  have flying : ∀ p, (w.machine p).path = .holding →
      fallbackFrame (w.machine p).deliveredEach ∈ w.relay.get p.peer ∨
        fallbackFrame (w.machine p.peer).deliveredEach ∈ w.relay.get p := by
    intro p path
    have left := ((reach.good.sound.wf p).course.of_path_holding path).2.2.1
    rcases fallback_in_flight reach left with own | ⟨peerLeft, -⟩
    · exact .inl own
    · rcases fallback_in_flight reach peerLeft with peers | ⟨-, known⟩
      · exact .inr (by rwa [Party.peer_peer] at peers)
      · rw [Party.peer_peer] at known
        exact absurd path ((reach.good.settled p).answered known).2
  refine ⟨flying, fun emptyA emptyB => ?_, fun p a going ended => ended_by_tick reach going ended⟩
  have empty : ∀ p, w.relay.get p = [] := fun p => by cases p <;> assumption
  have follows : ∀ p, (w.machine p).leftLink → (w.machine p.peer).leftLink := by
    intro p left
    rcases fallback_in_flight reach left with own | ⟨peerLeft, -⟩
    · rw [empty] at own
      exact absurd own not_mem_nil
    · exact peerLeft
  refine ⟨fun p path => ?_, Bool.eq_iff_iff.mpr ⟨follows .a, follows .b⟩⟩
  rcases flying p path with own | peers
  · rw [empty] at own
    exact absurd own not_mem_nil
  · rw [empty] at peers
    exact absurd peers not_mem_nil

end

def lostLink : World := ((new .default).step (.linkOpen .a 0 .separate)).step
  (.linkLost .a .closed 1)

theorem reachable_lostLink : Reachable .default lostLink := .step (.step .new trivial) trivial

theorem never_stuck_lostLink :
    (lostLink.machine .a).path = .holding ∧
      (fallbackFrame (lostLink.machine .a).deliveredEach ∈ lostLink.relay.get .b ∨
        fallbackFrame (lostLink.machine .b).deliveredEach ∈ lostLink.relay.get .a) :=
  ⟨rfl, (never_stuck reachable_lostLink).1 .a rfl⟩

end OpenGate.Direct.World
