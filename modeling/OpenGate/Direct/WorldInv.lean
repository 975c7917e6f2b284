import OpenGate.Direct.World

/-!
# What every interleaving keeps

`World.Ok` is the invariant of both directions with the machines' own.  Every
small step of a side, carried out, keeps it: the direction the side sends on and
the one it receives on each move by one operation of `Direction.lean`, or not at
all.  From the steps follow the events, and from the events every reachable
world (`Reachable.good`).
-/

namespace OpenGate.Direct

open Lib Handoff PerChannel Instruction
open List (append_nil filterMap_map not_mem_nil)

namespace PerChannel

variable {α : Type}

variable (x : PerChannel α) (c : Channel)

@[simp] theorem set_get_self : x.set c (x.get c) = x := by
  cases c <;> rfl

@[simp] theorem set_set (a b : α) : (x.set c a).set c b = x.set c b := by
  cases c <;> rfl

end PerChannel

variable (counts : PerChannel Nat) {now : Nat}

theorem le_set_succ (slot s : Channel) :
    counts.get s ≤ (counts.set slot (counts.get slot + 1)).get s := by
  rw [get_set]
  split
  next is =>
    rw [is]
    exact Nat.le_succ _
  · exact le_rfl

/-! ## What a direction sees of a step -/

namespace Handoff

section

variable (h : Handoff) (slot : Channel) (frame : Bytes) (held : List Bytes) (r : Reassembler)

/-- A delivery shows in the counts that this side will tell. -/
theorem sendView_counted :
    (h.counted slot frame now).sendView = { h.sendView with
      counts := h.sendView.counts.set slot (h.sendView.counts.get slot + 1) } := by
  cases slot <;> rfl

theorem receiveView_counted (now : Nat) :
    (h.counted slot frame now).receiveView = { h.receiveView with
      delivered := h.receiveView.delivered.set slot (h.receiveView.delivered.get slot + 1) } := by
  cases slot <;> rfl

theorem sendView_withHeld : (h.withHeld slot held).sendView = h.sendView := by
  cases slot <;> rfl

theorem receiveView_withHeld :
    (h.withHeld slot held).receiveView = { h.receiveView with
      held := h.receiveView.held.set slot held } := by
  cases slot <;> rfl

theorem sendView_withoutHeldBytes : (h.withoutHeldBytes slot).sendView = h.sendView := by
  cases slot <;> rfl

theorem receiveView_withoutHeldBytes : (h.withoutHeldBytes slot).receiveView = h.receiveView := by
  cases slot <;> rfl

theorem sendView_withReassembler : (h.withReassembler slot r).sendView = h.sendView := by
  cases slot <;> rfl

theorem receiveView_withReassembler :
    (h.withReassembler slot r).receiveView = { h.receiveView with
      buf := h.receiveView.buf.set slot r.buf } := by
  cases slot <;> rfl

theorem sendView_hold : (h.hold slot frame).sendView = h.sendView := by
  cases slot <;> rfl

theorem receiveView_hold :
    (h.hold slot frame).receiveView = { h.receiveView with
      held := h.receiveView.held.set slot (h.receiveView.held.get slot ++ [frame]) } := by
  cases slot <;> rfl

end

/-- Leaving, as the sending side of a direction sees it. -/
theorem sendView_departed {h : Handoff} :
    (h.departed now).sendView = { h.sendView with
      left := true
      path := if h.path = .link then .holding else h.path } := by
  unfold departed
  simp only
  split <;> rfl

/-- What was held or half reassembled is dropped. -/
theorem receiveView_departed (h : Handoff) (now : Nat) :
    (h.departed now).receiveView = { h.receiveView with
      left := true
      held := .fill []
      buf := .fill [] } := by
  unfold departed
  simp only
  split <;> rfl

end Handoff

namespace World

variable {w : World} {p : Party} (frames : List Bytes)

/-! ## What a direction sees of an emission -/

theorem direction_setMachine_self {h : Handoff} :
    (w.setMachine p h).direction p = { w.direction p with sender := h.sendView } := by
  cases p <;> rfl

theorem direction_setMachine_peer {h : Handoff} :
    (w.setMachine p h).direction p.peer =
      { w.direction p.peer with receiver := h.receiveView } := by
  cases p <;> rfl

/-- What an end is told to do, in the direction it sends: its view and the relay. -/
theorem direction_emit_self {h : Handoff} {out : List Instruction}
    (noLink : ∀ i ∈ out, i.isLink = false) :
    (w.emit p h out).direction p =
      { w.direction p with
        sender := h.sendView
        relay := (w.direction p).relay ++ relayed out } := by
  rw [emit, direction_apply_self noLink, direction_setMachine_self]

/-- And in the direction it receives: its view and what is delivered. -/
theorem direction_emit_peer (w : World) (p : Party) (h : Handoff) (out : List Instruction) :
    (w.emit p h out).direction p.peer =
      { w.direction p.peer with
        receiver := h.receiveView
        delivered := (w.direction p.peer).delivered ++ delivers out } := by
  rw [emit, direction_apply_peer, direction_setMachine_peer]

/-- Pieces put on an open link reach the channel, unless it is cut. -/
theorem direction_apply_links (open' : (w.side.get p).closed = false) {s : Channel}
    (ps : List Bytes) :
    (w.apply p (ps.map (.link s))).direction p =
      { w.direction p with
        link := (w.direction p).link.set s
          (if (w.direction p).cut.get s then (w.direction p).link.get s
            else (w.direction p).link.get s ++ ps) } := by
  induction ps generalizing w with
  | nil =>
    simp only [append_nil, ite_self, set_get_self]
    rfl
  | cons piece ps ih =>
    rw [List.map_cons, apply_cons]
    by_cases isCut : (w.cut.get p.peer).get s
    · have stay : w.carryOut p (.link s piece) = w := by
        simp only [carryOut, isCut, Bool.true_or, if_true]
      have cut' : (w.direction p).cut.get s := isCut
      rw [stay, ih open', if_pos cut', if_pos cut']
    · have cut' : ¬ (w.direction p).cut.get s := isCut
      have go : (w.carryOut p (.link s piece)).direction p = { w.direction p with
          link := (w.direction p).link.set s ((w.direction p).link.get s ++ [piece]) } := by
        simp only [carryOut, isCut, open', Bool.or_self, Bool.false_eq_true, if_false]
        cases p <;> rfl
      have still : ((w.carryOut p (.link s piece)).side.get p).closed = false := by
        simp only [carryOut, isCut, open', Bool.or_self, Bool.false_eq_true, if_false]
      rw [ih still, go]
      simp only [if_neg cut', get_set_self, set_set, List.append_assoc]
      rfl

/-- A frame sent on the link is put there in pieces, unless the channel is cut. -/
theorem direction_emit_pieces {h : Handoff} (open' : (w.side.get p).closed = false) {s : Channel}
    {frame : Bytes} :
    (w.emit p h (pieces s frame)).direction p =
      { w.direction p with
        sender := h.sendView
        link := (w.direction p).link.set s
          (putPieces ((w.direction p).cut.get s) ((w.direction p).link.get s) frame) } := by
  have open'' : ((w.setMachine p h).side.get p).closed = false := by
    rw [← open']
    cases p <;> rfl
  rw [emit, pieces, direction_apply_links open'', direction_setMachine_self]
  rfl

theorem delivers_pieces (s : Channel) (frame : Bytes) : delivers (pieces s frame) = [] := by
  simp only [delivers, pieces, filterMap_map, List.filterMap_eq_nil_iff]
  exact fun _ _ => rfl

theorem delivers_relays : delivers (frames.map .relay) = [] := by
  simp only [delivers, filterMap_map, List.filterMap_eq_nil_iff]
  exact fun _ _ => rfl

theorem relayed_relays : relayed (frames.map .relay) = frames := by
  rw [relayed, filterMap_map]
  exact List.filterMap_some

theorem closed_apply_peer {out : List Instruction} :
    ((w.apply p out).side.get p.peer).closed = (w.side.get p.peer).closed := by
  induction out generalizing w with
  | nil => rfl
  | cons i out ih =>
    rw [apply_cons, ih]
    cases i with
    | link c piece =>
      simp only [carryOut]
      split <;> rfl
    | deliver frame | closeLink => cases p <;> rfl
    | _ => rfl

/-- A link is closed only on being told. -/
theorem closed_apply_self {out : List Instruction}
    (closed : ((w.apply p out).side.get p).closed) :
    (w.side.get p).closed ∨ .closeLink ∈ out := by
  induction out generalizing w with
  | nil => exact .inl closed
  | cons i out ih =>
    rcases ih closed with before | later
    · cases i with
      | closeLink => exact .inr (List.mem_cons_self ..)
      | link c piece =>
        left
        simp only [carryOut] at before
        split at before <;> exact before
      | deliver frame =>
        left
        rw [← before]
        cases p <;> rfl
      | _ => exact .inl before
    · exact .inr (List.mem_cons_of_mem _ later)

/-! ## The invariant -/

section

/-- What a world owes its machines. -/
structure Sides (w : World) : Prop where
  wf : ∀ p, Wf (w.machine p)
  closed : ∀ p, (w.side.get p).closed = true → (w.machine p).leftLink = true

/-- A side that has not left has its link open. -/
theorem Sides.open_of_on (sides : Sides w) (on : (w.machine p).leftLink = false) :
    (w.side.get p).closed = false := by
  by_contra closed
  have left := sides.closed p (by simpa using closed)
  simp only [on, reduceCtorEq] at left

variable {h : Handoff} {out : List Instruction} {g : Both Ghost} {received : Counts} {k : Ghost}

/-- The ghosts of both directions, from the side that moved. -/
def ghosts (p : Party) (sends receives : Ghost) : Both Ghost :=
  match p with
  | .a => ⟨sends, receives⟩
  | .b => ⟨receives, sends⟩

@[simp] theorem get_ghosts_self (p : Party) (sends receives : Ghost) :
    (ghosts p sends receives).get p = sends := by cases p <;> rfl

@[simp] theorem get_ghosts_peer (p : Party) (sends receives : Ghost) :
    (ghosts p sends receives).get p.peer = receives := by cases p <;> rfl

/-- Two cases for the two directions. -/
theorem forall_ghosts {P : Party → Ghost → Prop} {sends receives : Ghost} (self : P p sends)
    (peer : P p.peer receives) (q : Party) : P q ((ghosts p sends receives).get q) := by
  rcases p.eq_or_peer q with rfl | rfl
  · rwa [get_ghosts_self]
  · rwa [get_ghosts_peer]

theorem direction_emit_peer_still (view : h.receiveView = (w.machine p).receiveView)
    (silent : delivers out = []) : (w.emit p h out).direction p.peer = w.direction p.peer := by
  rw [direction_emit_peer, view, silent, append_nil]
  simp only [direction, Party.peer_peer]

theorem receiver_peer (w : World) (p : Party) :
    (w.direction p.peer).receiver = (w.machine p).receiveView := by
  cases p <;> rfl

/-- The wire's count is the true one as long as that fits a word. -/
theorem toNat_counts64 {s : Channel} : ((counts64 counts).get s).toNat = counts.get s % 2 ^ 64 := by
  rw [counts64, get_map, UInt64.toNat_ofNat']

/-! ## Worlds just before a move -/

section

variable (w) (p) (more : List Bytes) (s : Channel)

theorem direction_noteSent_self {frame : Bytes} :
    (w.noteSent p frame).direction p =
      { w.direction p with sent := (w.direction p).sent ++ [frame] } := by
  cases p <;> rfl

theorem direction_noteSent_peer {frame : Bytes} :
    (w.noteSent p frame).direction p.peer = w.direction p.peer := by
  cases p <;> rfl

theorem direction_popRelay_self : (w.popRelay p more).direction p = w.direction p := by
  cases p <;> rfl

theorem direction_popRelay_peer :
    (w.popRelay p more).direction p.peer = { w.direction p.peer with relay := more } := by
  cases p <;> rfl

theorem direction_popLink_self (more : List Bytes) :
    (w.popLink p s more).direction p = w.direction p := by
  cases p <;> rfl

theorem direction_popLink_peer (more : List Bytes) :
    (w.popLink p s more).direction p.peer =
      { w.direction p.peer with link := (w.direction p.peer).link.set s more } := by
  cases p <;> rfl

end

/-- A world whose machines are those of a good world. -/
structure Sound (w : World) : Prop extends Sides w where
  settled : ∀ p, Settled (w.machine p)

/-- What is sent and what is on the way is nothing to `Sound`. -/
theorem Sound.congr {w' : World} (sound : Sound w) (machines : ∀ q, w'.machine q = w.machine q)
    (closeds : ∀ q, (w'.side.get q).closed = (w.side.get q).closed) : Sound w' := by
  refine ⟨⟨fun q => ?_, fun q closed => ?_⟩, fun q => ?_⟩
  · rw [machines]
    exact sound.wf q
  · rw [closeds] at closed
    rw [machines]
    exact sound.closed q closed
  · rw [machines]
    exact sound.settled q

theorem Sound.noteSent (sound : Sound w) (p : Party) (frame : Bytes) : Sound (w.noteSent p frame) :=
  sound.congr (fun q => machine_noteSent w p q frame) fun q => by cases p <;> cases q <;> rfl

theorem Sound.popRelay (sound : Sound w) (p : Party) (more : List Bytes) :
    Sound (w.popRelay p more) :=
  sound.congr (fun _ => rfl) fun _ => rfl

theorem Sound.popLink (sound : Sound w) (p : Party) (s : Channel) (more : List Bytes) :
    Sound (w.popLink p s more) :=
  sound.congr (fun _ => rfl) fun _ => rfl

/-! ## What rests on no law of the codec -/

variable [WireCodec]

/-- Both directions keep their invariant, each with its own ghost. -/
structure Ok (w : World) (g : Both Ghost) : Prop extends Sides w where
  inv : ∀ p, (w.direction p).Inv (g.get p)

/-- What a move of one side must show. -/
theorem Sides.emit (sides : Sides w) (wf : Wf h) (moves : Moves (w.machine p) out h)
    (inv : ∀ q, ((w.emit p h out).direction q).Inv (g.get q)) : Ok (w.emit p h out) g := by
  refine ⟨⟨fun q => ?_, fun q closed => ?_⟩, inv⟩
  · rcases p.eq_or_peer q with rfl | rfl
    · rw [machine_emit_self]
      exact wf
    · rw [machine_emit_peer]
      exact sides.wf p.peer
  · rcases p.eq_or_peer q with rfl | rfl
    · rw [machine_emit_self]
      rcases closed_apply_self closed with before | closing
      · refine moves.left (sides.closed q ?_)
        rw [← before]
        cases q <;> rfl
      · exact moves.left_of_closing closing
    · rw [machine_emit_peer]
      apply sides.closed p.peer
      rw [World.emit, closed_apply_peer] at closed
      rw [← closed]
      cases p <;> rfl

/-- Both directions after a move of one side. -/
theorem Sides.emit_ghosts (sides : Sides w) (wf : Wf h) (moves : Moves (w.machine p) out h)
    (sends receives : Ghost) (outward : ((w.emit p h out).direction p).Inv sends)
    (inward : ((w.emit p h out).direction p.peer).Inv receives) :
    Ok (w.emit p h out) (ghosts p sends receives) :=
  sides.emit wf moves
    (forall_ghosts (P := fun q k => ((w.emit p h out).direction q).Inv k) outward inward)

/-- A step that this direction sees nothing of. -/
theorem inv_emit_still (inv : (w.direction p).Inv k) (view : h.sendView = (w.machine p).sendView)
    (noLink : ∀ i ∈ out, i.isLink = false) (silent : relayed out = []) :
    ((w.emit p h out).direction p).Inv k := by
  rw [direction_emit_self noLink, view, silent, append_nil]
  exact inv

theorem inv_emit_peer_still (inv : (w.direction p.peer).Inv k)
    (view : h.receiveView = (w.machine p).receiveView) (silent : delivers out = []) :
    ((w.emit p h out).direction p.peer).Inv k := by
  rw [direction_emit_peer_still view silent]
  exact inv

/-- The peer's fall-back notice, once taken, says what the peer delivered. -/
theorem Ok.told (ok : Ok w g) (known : (w.machine p).peerFallback = some received) :
    (w.machine p.peer).leftLink ∧
      received = counts64 (w.machine p.peer).sendView.counts := by
  have inv := ok.inv p.peer
  have told : (w.direction p.peer).receiver.peerFallback = some received := by
    rw [← known]
    simp only [direction, Party.peer_peer]
    rfl
  have left : (w.direction p.peer).sender.left := by
    by_contra on
    have none := inv.onLink (by simpa using on)
    simp only [told, reduceCtorEq] at none
  have arrived : (g.get p.peer).fallingBack = false := by
    by_contra flying
    have none := (inv.fallingBack (by simpa using flying)).2
    simp only [told, reduceCtorEq] at none
  have counts := (inv.fellBack left arrived).1
  rw [told, Option.some.injEq] at counts
  exact ⟨left, counts⟩

/-- What goes back on the relay is what the peer did not deliver. -/
theorem Ok.resent (ok : Ok w g) (path : (w.machine p).path = .holding)
    (known : (w.machine p).peerFallback = some received) :
    ((w.machine p).resend received).2 = ((w.direction p).backlog (g.get p)).map .relay := by
  have inv := ok.inv p
  have counts := (ok.told known).2
  have exact' : ∀ s, (received.get s).toNat = (w.direction p).receiver.delivered.get s := by
    intro s
    have got := inv.got s
    have room := inv.room s
    rw [counts, toNat_counts64, Nat.mod_eq_of_lt]
    · rfl
    · exact lt_of_le_of_lt got room
  have notBack : ¬ (w.direction p).Back := fun back => by
    have relay : (w.machine p).path = .relay := back.1
    simp only [path, reduceCtorEq] at relay
  have above : ∀ s, ((w.machine p).sending.get s).above (received.get s).toNat =
      ((g.get p).numbered.get s).drop ((w.direction p).receiver.delivered.get s) := by
    intro s
    rw [exact' s]
    exact (inv.kept notBack s).above
  have typing := above .typing
  have screen := above .screen
  have files := above .files
  simp only [PerChannel.get] at typing screen files
  simp only [Handoff.resend, Direction.backlog, typing, screen, files, PerChannel.get]

/-- A quiet step of one side keeps the direction it receives on. -/
theorem Ok.quiet_peer (ok : Ok w g) (step : Quiet AnyReason (w.machine p) out h) :
    ((w.emit p h out).direction p.peer).Inv (g.get p.peer) := by
  have inv := ok.inv p.peer
  have view := receiver_peer w p
  cases step with
  | leave reason now why on =>
    rw [direction_emit_peer, receiveView_departed, show delivers (farewell _ reason) = [] from rfl,
      append_nil, ← view]
    -- What it held and had half reassembled is gone.
    exact { inv with
      stream := fun on => by simp only [reduceCtorEq] at on
      back := fun _ => rfl }
  | release slot frame held now on peerSwitched front =>
    rw [direction_emit_peer, receiveView_counted, receiveView_withHeld, ← view]
    refine inv.release ?_ ?_ ?_
    · rw [view]
      exact on
    · rw [view]
      exact peerSwitched
    · rw [view, receiveView, get_map]
      exact front
  | ack on => exact inv_emit_peer_still inv rfl (delivers_pieces _ _)
  | resend received path known => exact inv_emit_peer_still inv rfl (delivers_relays _)
  | forgetHeldBytes slot on peerSwitched =>
    exact inv_emit_peer_still inv (receiveView_withoutHeldBytes _ slot) rfl
  | _ => exact inv_emit_peer_still inv rfl rfl

variable {e : Event} (config : Config)

/-- What a world owes between two actions. -/
structure Good (w : World) : Prop where
  ok : ∃ g, Ok w g ∧ ∀ p, (g.get p).ready = .fill []
  settled : ∀ p, Settled (w.machine p)

theorem Good.sound (good : Good w) : Sound w := by
  obtain ⟨g, ok, -⟩ := good.ok
  exact ⟨ok.toSides, good.settled⟩

/-- A call, by the chain of its steps. -/
theorem event_moves (wf : Wf h) : Moves h (h.event e).2 (h.event e).1 := by
  have moves := (run_moves wf [e]).2
  simpa only [Handoff.run, append_nil] using moves

/-- An event leaves a good world behind if it leaves both directions right. -/
theorem Sound.event (sound : Sound w) (e : Event) (ok : Ok (w.event p e) g)
    (idle : ∀ q, (g.get q).ready = .fill []) : Good (w.event p e) := by
  refine ⟨⟨g, ok, idle⟩, fun q => ?_⟩
  rcases p.eq_or_peer q with rfl | rfl
  · rw [World.event, machine_emit_self]
    exact event_settled (sound.settled q)
  · rw [World.event, machine_emit_peer]
    exact sound.settled p.peer

/-- The same, from the directions. -/
theorem Sound.event_directions (sound : Sound w) (e : Event) (sends receives : Ghost)
    (outward : ((w.event p e).direction p).Inv sends)
    (inward : ((w.event p e).direction p.peer).Inv receives)
    (idleOut : sends.ready = .fill []) (idleIn : receives.ready = .fill []) :
    Good (w.event p e) := by
  exact sound.event e
    (sound.emit_ghosts (event_wf (sound.wf p)) (event_moves (sound.wf p)) sends receives outward
      inward)
    (forall_ghosts (P := fun _ k => k.ready = .fill []) idleOut idleIn)

/-- The end of a session keeps both directions. -/
theorem Ok.expire (ok : Ok w g) {deadline now : Nat}
    (waits : (w.machine p).holdingDeadline = some deadline) (due : deadline ≤ now) :
    Ok (w.emit p (w.machine p).expired [.end]) g := by
  have step : Micro (fun _ => True) (w.machine p) [.end] (w.machine p).expired :=
    .expire _ deadline now waits due
  refine ok.toSides.emit (step.wf (ok.wf p)) (step.moves (ok.wf p)) fun q => ?_
  rcases p.eq_or_peer q with rfl | rfl
  · rw [direction_emit_self (by simp [isLink]), show relayed [.end] = [] from rfl, append_nil]
    exact (ok.inv q).expire ((ok.wf q).course.path_of_deadline waits)
  · exact inv_emit_peer_still (ok.inv p.peer) rfl rfl

/-- A cut takes away what is on the way, which is what the invariant leaves open. -/
theorem Good.cut (good : Good w) (dest : Party) (s : Channel) :
    Good (w.step (.cut dest s)) := by
  obtain ⟨g, ok, idle⟩ := good.ok
  refine ⟨⟨g, ⟨⟨ok.wf, ok.closed⟩, fun q => ?_⟩, idle⟩, good.settled⟩
  have inv := ok.inv q
  cases dest <;> cases q
  · exact inv
  · exact inv.cutOff
  · exact inv.cutOff
  · exact inv

/-- Nothing is sent, numbered, held or in flight. -/
def idle (config : Config) : Direction where
  sender := (Handoff.new config).sendView
  receiver := (Handoff.new config).receiveView
  relay := []
  link := .fill []
  cut := .fill false
  sent := []
  delivered := []

theorem inv_idle : (idle config).Inv .new where
  next s := by cases s <;> rfl
  room s := by cases s <;> decide
  kept _ s := by cases s <;> exact ⟨0, le_rfl, rfl⟩
  unnumbered _ s := by cases s <;> rfl
  ours s f inside := by
    rw [Ghost.new, get_fill] at inside
    exact absurd inside not_mem_nil
  got s := by cases s <;> exact le_rfl
  early _ s := by cases s <;> rfl
  stream _ s := by
    cases s <;>
      exact ⟨rfl, fun f inside => absurd inside not_mem_nil, List.prefix_rfl, fun _ => rfl⟩
  relay := rfl
  session f inside := absurd inside not_mem_nil
  switching absurd := by simp [Ghost.new] at absurd
  unswitched _ := rfl
  switched absurd := by simp [idle, sendView, Handoff.new] at absurd
  fallingBack absurd := by simp [Ghost.new] at absurd
  onLink _ := rfl
  fellBack absurd := by simp [idle, sendView, Handoff.new] at absurd
  after absurd := (absurd rfl).elim
  account c := by simp [idle, Direction.undelivered, Ghost.new, sendView, Handoff.new]
  back back := by simp [Direction.Back, idle, sendView, Handoff.new] at back

/-- Nothing sent, nothing delivered. -/
theorem good_new : Good (new config) := by
  have machine : ∀ p, (new config).machine p = .new config := fun p => by cases p <;> rfl
  refine ⟨⟨⟨.new, .new⟩, ⟨⟨fun p => ?_, fun p closed => ?_⟩, fun p => ?_⟩, fun p => ?_⟩,
    fun p => ?_⟩
  · rw [machine]
    exact wf_new config
  · cases p <;> simp [new, Both.get] at closed
  · cases p <;> exact inv_idle config
  · cases p <;> rfl
  · rw [machine]
    exact settled_new

variable {frame : Bytes} {piece : Bytes} {slot s : Channel} {more : List Bytes}

/-- A session frame by the relay is delivered as it comes. -/
theorem fromRelay_session (h : Handoff) (session : isSession frame) (now : Nat) :
    h.fromRelay frame now = (h, [.deliver frame]) := by
  unfold isSession at session
  unfold fromRelay
  split at session
  next msg known =>
    cases msg with
    | other fields => simp only [known, isLinkSetup, Bool.false_eq_true, if_false]
    | _ => simp only [ControlMessage.isDirect, Bool.not_true, reduceCtorEq] at session
  next unknown => simp only [unknown]

/-- A session frame by the link waits for the peer's switch notice. -/
theorem linkFrame_session (session : isSession frame) :
    h.linkFrame slot frame now =
      if !h.peerSwitched then
        if (h.hold slot frame).heldLimit < (h.hold slot frame).heldBytes then
          (h.hold slot frame).leave .overflow now
        else (h.hold slot frame, [])
      else h.deliverLink slot frame now := by
  unfold isSession at session
  unfold linkFrame
  split
  next ack => simp only [ack, ControlMessage.isDirect, Bool.not_true, reduceCtorEq] at session
  · rfl

/-- The ghosts once the next frame off the pieces of slot `s` is handled. -/
def handled (g : Both Ghost) (p : Party) (s : Channel) (more : List Bytes) : Both Ghost :=
  ghosts p (g.get p) { g.get p.peer with ready := (g.get p.peer).ready.set s more }

/-- A frame ahead of the switch notice is held behind those held already. -/
theorem Ok.hold (ok : Ok w g) (on : (w.machine p).leftLink = false)
    (fresh : (w.machine p).peerSwitched = false)
    (ready : (g.get p.peer).ready.get s = frame :: more) (session : isSession frame) :
    Ok (w.emit p ((w.machine p).hold s frame) []) (handled g p s more) := by
  have view := receiver_peer w p
  have step : Linked AnyReason _ _ _ := .hold _ s frame on fresh
  refine ok.emit_ghosts (step.wf (ok.wf p)) step.moves _ _
    (inv_emit_still (ok.inv p) (sendView_hold _ s frame) (by simp) rfl) ?_
  rw [direction_emit_peer, receiveView_hold, ← view, show delivers [] = [] from rfl, append_nil]
  exact (ok.inv p.peer).hold (by rw [view]; exact on) ready session

/-- A frame after it is the next one to be delivered. -/
theorem Ok.count (ok : Ok w g) (settled : Settled (w.machine p))
    (on : (w.machine p).leftLink = false) (peer : (w.machine p).peerSwitched)
    (ready : (g.get p.peer).ready.get s = frame :: more) (session : isSession frame)
    (now : Nat) :
    Ok (w.emit p ((w.machine p).counted s frame now) [.deliver frame]) (handled g p s more) := by
  have view := receiver_peer w p
  have empty : (w.direction p.peer).receiver.held.get s = [] := by
    rw [view, receiveView, get_map]
    exact settled.flushed peer s
  have step : Linked AnyReason _ _ _ := .count _ s frame now on peer
  refine ok.emit_ghosts (step.wf (ok.wf p)) step.moves _ _ ?_ ?_
  · rw [direction_emit_self (by simp [isLink]), sendView_counted,
      show relayed [.deliver frame] = [] from rfl, append_nil]
    exact (ok.inv p).recount on (le_set_succ _ s)
  · rw [direction_emit_peer, receiveView_counted, ← view]
    exact (ok.inv p.peer).count (by rw [view]; exact on) (by rw [view]; exact peer) empty ready
      session

/-- What a frame off the pieces can be. -/
theorem Ok.link_frame (ok : Ok w g) (on : (w.machine p).leftLink = false)
    (ready : (g.get p.peer).ready.get s = frame :: more) :
    LinkFrame (w.direction p.peer).sender.counts frame := by
  have onView : (w.direction p.peer).receiver.left = false := by
    rw [receiver_peer]
    exact on
  exact ((ok.inv p.peer).stream onView s).frames frame
    (List.mem_append_left _ (ready ▸ List.mem_cons_self ..))

/-! ## Sending -/

/-- On the relay frames are not numbered. -/
theorem Good.sendRelay (good : Good w) (session : SessionFrame frame)
    (path : (w.machine p).path = .relay)
    (now : Nat) : Good ((w.noteSent p frame).event p (.send frame now)) := by
  obtain ⟨g, ok, idle⟩ := good.ok
  have course : (w.machine p).leftLink = false → (w.machine p).switched = false := by
    intro on
    by_contra switched
    have link := (ok.wf p).course.on_link (by simpa using switched) on
    simp only [path, reduceCtorEq] at link
  have is : ((w.noteSent p frame).machine p).event (.send frame now) =
      (w.machine p, [.relay frame]) := by
    rw [machine_noteSent]
    exact send_relay path frame now
  obtain ⟨sends, ready, inv⟩ := (ok.inv p).sendRelay path course session.session
  refine (good.sound.noteSent p frame).event_directions _ sends (g.get p.peer) ?_ ?_
    (ready.trans (idle p)) (idle p.peer)
  · rw [World.event, is, direction_emit_self (by simp [isLink]), direction_noteSent_self]
    exact inv
  · rw [World.event, is, direction_emit_peer_still (by rw [machine_noteSent]) rfl,
      direction_noteSent_peer]
    exact ok.inv p.peer

/-- On the link a frame takes the next number of its channel. -/
theorem Good.sendLink (good : Good w) (may : MaySend (w.machine p) frame)
    (path : (w.machine p).path = .link) (now : Nat) :
    Good ((w.noteSent p frame).event p (.send frame now)) := by
  obtain ⟨g, ok, idle⟩ := good.ok
  obtain ⟨-, switched, on, -⟩ := (ok.wf p).course.of_path_link path
  have is : ((w.noteSent p frame).machine p).event (.send frame now) =
      ((w.machine p).numbered frame,
        pieces ((w.machine p).slot (Channel.of frame)) frame) := by
    rw [machine_noteSent]
    exact send_link path frame now
  have open' : ((w.noteSent p frame).side.get p).closed = false := by
    rw [← ok.toSides.open_of_on on]
    cases p <;> rfl
  refine (good.sound.noteSent p frame).event_directions _
    ((g.get p).number ((w.machine p).slot (Channel.of frame)) frame) (g.get p.peer) ?_ ?_
    (idle p) (idle p.peer)
  · rw [World.event, is, direction_emit_pieces open', direction_noteSent_self]
    exact (ok.inv p).sendLink path switched may.session rfl may.number
  · rw [World.event, is, direction_emit_peer_still (by rw [machine_noteSent]; rfl)
      (delivers_pieces _ _), direction_noteSent_peer]
    exact ok.inv p.peer

/-! ## Taking a piece -/

/-- A side on the link takes a piece: the frames it completes are ready, and the
event is to handle them. -/
theorem Good.takePiece (good : Good w) (on : (w.machine p).leftLink = false) {s : Channel}
    {more : List Bytes} (link : (w.link.get p).get s = piece :: more) (now : Nat) :
    ∃ frames buf g, (w.machine p).fromLink s piece now =
        linkFrames s now frames ((w.machine p).withReassembler s ⟨buf⟩) ∧
      (g.get p.peer).ready = PerChannel.set (.fill []) s frames ∧ (g.get p).ready = .fill [] ∧
      Ok ((w.popLink p s more).emit p ((w.machine p).withReassembler s ⟨buf⟩) []) g := by
  obtain ⟨g, ok, idle⟩ := good.ok
  have view := receiver_peer w p
  have here : (w.direction p.peer).link.get s = piece :: more := by
    rw [← link]
    cases p <;> rfl
  obtain ⟨frames, later, buf, push, inv'⟩ := (ok.inv p.peer).takePiece (by rw [view]; exact on)
    (by rw [idle, get_fill]) here
  have push' : ((w.machine p).receiving.get s).reassembler.push piece = (⟨buf⟩, .ok frames) := by
    rw [← push, view, receiveView, get_map]
  have step : Linked AnyReason _ _ _ := .reassemble (w.machine p) s ⟨buf⟩ on
  refine ⟨frames, buf, ghosts p (g.get p) { g.get p.peer with
    ready := (g.get p.peer).ready.set s frames
    rest := (g.get p.peer).rest.set s later }, ?_, ?_, ?_, ?_⟩
  · rw [fromLink, if_neg (by rw [on]; exact Bool.false_ne_true)]
    simp only [push']
    rfl
  · rw [get_ghosts_peer, idle]
  · rw [get_ghosts_self, idle]
  · refine (good.sound.popLink p s more).emit_ghosts (step.wf (ok.wf p)) step.moves _ _ ?_ ?_
    · refine inv_emit_still ?_ (sendView_withReassembler _ s _) (by simp) rfl
      rw [direction_popLink_self]
      exact ok.inv p
    · rw [direction_emit_peer, direction_popLink_peer, receiveView_withReassembler, ← view,
        show delivers [] = [] from rfl, append_nil]
      exact inv'

/-! ## Quiet steps -/

variable [LawfulCodec]

/-- A quiet step of one side keeps both directions. -/
theorem Ok.quiet (ok : Ok w g) (step : Quiet AnyReason (w.machine p) out h) :
    ∃ g', (∀ q, (g'.get q).ready = (g.get q).ready) ∧ Ok (w.emit p h out) g' := by
  have inv := ok.inv p
  suffices sends : ∃ sends, sends.ready = (g.get p).ready ∧
      ((w.emit p h out).direction p).Inv sends by
    obtain ⟨sends, ready, outward⟩ := sends
    exact ⟨ghosts p sends (g.get p.peer),
      forall_ghosts (P := fun q k => k.ready = (g.get q).ready) ready rfl,
      ok.emit_ghosts (step.wf (ok.wf p)) step.moves sends (g.get p.peer) outward
      (ok.quiet_peer step)⟩
  cases step with
  | attempt now fresh | lateAck left | dropBudget =>
    exact ⟨_, rfl, inv_emit_still inv rfl (by simp) rfl⟩
  | switch layout unswitched on path =>
    refine ⟨{ g.get p with switching := true }, rfl, ?_⟩
    rw [direction_emit_self (by simp [isLink])]
    exact inv.switch unswitched on path layout
  | direct switched peer undirect on =>
    exact ⟨_, rfl, inv_emit_still inv rfl (by simp [isLink]) rfl⟩
  | ack on =>
    refine ⟨(g.get p).put .typing (ackFrame (w.machine p).deliveredEach), rfl, ?_⟩
    rw [direction_emit_pieces (ok.open_of_on on)]
    refine inv.ack _ fun s => ?_
    rw [show (w.machine p).deliveredEach = counts64 (w.direction p).sender.counts from rfl,
      toNat_counts64]
    exact Nat.mod_le _ _
  | leave reason now why on =>
    refine ⟨{ g.get p with fallingBack := true }, rfl, ?_⟩
    rw [direction_emit_self (by simp [farewell, isLink]), sendView_departed]
    exact inv.leave on
  | resend received path known =>
    obtain ⟨-, switched, left, -⟩ := (ok.wf p).course.of_path_holding path
    refine ⟨{ g.get p with after := (g.get p).after ++ (w.direction p).backlog (g.get p) }, rfl, ?_⟩
    rw [ok.resent path known, direction_emit_self (by simp [isLink]), relayed_relays]
    refine inv.resend path switched left (ok.told known).1 fun s => ?_
    cases s <;> rfl
  | forgetHeldBytes slot on peer =>
    exact ⟨_, rfl, inv_emit_still inv (sendView_withoutHeldBytes _ slot) (by simp) rfl⟩
  | release slot frame held now on peer front =>
    refine ⟨_, rfl, ?_⟩
    rw [direction_emit_self (by simp [isLink]), sendView_counted, sendView_withHeld,
      show relayed [.deliver frame] = [] from rfl, append_nil]
    exact inv.recount on (le_set_succ _ slot)

/-- A chain of quiet steps keeps both directions. -/
theorem Ok.quiets (ok : Ok w g) (chain : Emits (Quiet AnyReason) (w.machine p) out h) :
    ∃ g', (∀ q, (g'.get q).ready = (g.get q).ready) ∧ Ok (w.emit p h out) g' := by
  generalize is : w.machine p = start at chain
  induction chain generalizing w g with
  | refl =>
    subst is
    exact ⟨g, fun _ => rfl, by rwa [emit_self]⟩
  | head step _ ih =>
    subst is
    obtain ⟨g₁, ready₁, ok₁⟩ := ok.quiet step
    obtain ⟨g₂, ready₂, ok₂⟩ := ih ok₁ (machine_emit_self ..)
    rw [emit_emit] at ok₂
    exact ⟨g₂, fun q => (ready₂ q).trans (ready₁ q), ok₂⟩

/-- A move of one side followed by moves of its own, with the frames still to
handle after the first. -/
theorem Ok.then_quiets {h' : Handoff} {more : List Instruction} (ok : Ok (w.emit p h out) g)
    (chain : Emits (Quiet AnyReason) h more h') :
    ∃ g', (∀ q, (g'.get q).ready = (g.get q).ready) ∧ Ok (w.emit p h' (out ++ more)) g' := by
  have start : (w.emit p h out).machine p = h := machine_emit_self ..
  rw [← start] at chain
  obtain ⟨g', ready, ok'⟩ := ok.quiets chain
  rw [emit_emit] at ok'
  exact ⟨g', ready, ok'⟩

/-! ## Events that take nothing in -/

/-- A call all of whose steps are quiet. -/
theorem Good.quiets (good : Good w)
    (chain : Emits (Quiet AnyReason) (w.machine p) ((w.machine p).event e).2
      ((w.machine p).event e).1) :
    Good (w.event p e) := by
  obtain ⟨g, ok, idle⟩ := good.ok
  obtain ⟨g', ready, ok'⟩ := ok.quiets chain
  exact good.sound.event e ok' fun q => (ready q).trans (idle q)

/-- The timers; an expired wait is the one step of theirs that is not quiet. -/
theorem Good.tick (good : Good w) (now : Nat) : Good (w.event p (.tick now)) := by
  obtain ⟨g, ok, idle⟩ := good.ok
  obtain ⟨h₁, out₁, chain, is | ⟨deadline, -, waits, due, is⟩⟩ :=
    tick_cases (w.machine p) (show AnyReason .budget from trivial) now
  · refine good.quiets ?_
    rw [show (w.machine p).event (.tick now) = _ from is]
    exact chain
  · obtain ⟨g₁, ready, ok₁⟩ := ok.quiets chain
    have ended := ok₁.expire (p := p) (by rwa [machine_emit_self]) due
    rw [machine_emit_self, emit_emit] at ended
    refine good.sound.event _ (g := g₁) ?_ fun q => (ready q).trans (idle q)
    rw [World.event, show (w.machine p).event (.tick now) = _ from is]
    exact ended

/-! ## The relay brings a frame -/

/-- An event that sets a field and then moves by itself. -/
theorem Sound.then_quiets (sound : Sound w) (e : Event) (wf : Wf h)
    (silent : Moves (w.machine p) [] h)
    (sends receives : Ghost) (outward : ((w.emit p h []).direction p).Inv sends)
    (inward : ((w.emit p h []).direction p.peer).Inv receives) (idleOut : sends.ready = .fill [])
    (idleIn : receives.ready = .fill [])
    (chain : Emits (Quiet AnyReason) h ((w.machine p).event e).2 ((w.machine p).event e).1) :
    Good (w.event p e) := by
  have ok := sound.emit_ghosts wf silent sends receives outward inward
  obtain ⟨g, ready, ok'⟩ := ok.then_quiets chain
  exact sound.event e ok' fun q =>
    (ready q).trans (forall_ghosts (P := fun _ k => k.ready = .fill []) idleOut idleIn q)

/-- The first frame on the relay arrives: a notice, or the session's. -/
theorem Good.carryRelay (good : Good w) {more : List Bytes} (relay : w.relay.get p = frame :: more)
    (now : Nat) : Good ((w.popRelay p more).event p (.fromRelay frame now)) := by
  obtain ⟨g, ok, idle⟩ := good.ok
  have inv := ok.inv p.peer
  have view := receiver_peer w p
  have sound := good.sound.popRelay p more
  have here : (w.direction p.peer).relay = frame :: more := by
    rw [← relay]
    cases p <;> rfl
  have outward : ((w.popRelay p more).direction p).Inv (g.get p) := by
    rw [direction_popRelay_self]
    exact ok.inv p
  by_cases session : isSession frame
  · obtain ⟨receives, ready, inv'⟩ := inv.takeRelay here session
    have is : ((w.popRelay p more).machine p).event (.fromRelay frame now) =
        (w.machine p, [.deliver frame]) := fromRelay_session _ session now
    refine sound.event_directions _ (g.get p) receives ?_ ?_ (idle p) (ready.trans (idle p.peer))
    · rw [World.event, is]
      exact inv_emit_still outward rfl (by simp [isLink]) rfl
    · rw [World.event, is, direction_emit_peer, direction_popRelay_peer, ← view]
      exact inv'
  · rcases inv.head here with ⟨_, _, isSession', _⟩ | ⟨_, _, rfl, _⟩ | ⟨_, _, _, is, _⟩ |
      ⟨_, _, _, _, _, isSession', _⟩
    · exact absurd isSession' session
    · obtain ⟨receives, ready, fresh, off, seen⟩ := inv.takeSwitch here
      rw [view] at fresh
      have event : ((w.popRelay p more).machine p).event (.fromRelay switchFrame now) =
          (w.machine p).notePeerSwitched now := fromRelay_switch _ now
      cases left : (w.machine p).leftLink with
      | true =>
        have skip : (w.machine p).notePeerSwitched now = (w.machine p, []) := by
          rw [notePeerSwitched, if_pos (by rw [left, Bool.or_true])]
        rw [skip] at event
        refine sound.event_directions _ (g.get p) receives ?_ ?_ (idle p)
          (ready.trans (idle p.peer))
        · rw [World.event, event]
          exact inv_emit_still outward rfl (by simp) rfl
        · rw [World.event, event, direction_emit_peer, direction_popRelay_peer, ← view,
            show delivers [] = [] from rfl, append_nil]
          exact off
      | false =>
        have step : Micro (fun _ => True) (w.machine p) []
            { w.machine p with peerSwitched := true } := .peerSwitch _ fresh left
        refine sound.then_quiets _ (step.wf (ok.wf p)) (step.moves (ok.wf p)) (g.get p) receives
          (inv_emit_still outward rfl (by simp) rfl) ?_ (idle p) (ready.trans (idle p.peer)) ?_
        · rw [direction_emit_peer, direction_popRelay_peer, show delivers [] = [] from rfl,
            append_nil]
          rw [view] at seen
          exact seen
        · rw [event]
          exact notePeerSwitched_quiet fresh left now
    · have notice := (congrArg controlOf is).trans (controlOf_fallbackFrame _)
      obtain ⟨receives, ready, -, counts, inv'⟩ := inv.takeFallback here notice
      have event : ((w.popRelay p more).machine p).event (.fromRelay frame now) =
          ((w.popRelay p more).machine p).peerFellBack
            (counts64 (w.direction p.peer).sender.counts) now := by
        simp only [Handoff.event, fromRelay, notice]
      have step : Micro (fun _ => True) (w.machine p) [] { w.machine p with
          peerFallback := some (counts64 (w.direction p.peer).sender.counts) } :=
        .peerFallback _ _
      refine sound.then_quiets _ (step.wf (ok.wf p)) (step.moves (ok.wf p)) (g.get p) receives
        (inv_emit_still outward rfl (by simp) rfl) ?_ (idle p) (ready.trans (idle p.peer)) ?_
      · rw [direction_emit_peer, direction_popRelay_peer, show delivers [] = [] from rfl,
          append_nil]
        rw [view] at inv'
        exact inv'
      · rw [event, machine]
        exact peerFellBack_quiet _ _ trivial now
    · exact absurd isSession' session

/-! ## The link brings a piece -/

theorem linkFrame_ack : h.linkFrame slot (ackFrame received) now = h.confirmed received := by
  simp only [linkFrame, controlOf_ackFrame]

/-- Confirmed frames were delivered, so that nothing needs them again. -/
theorem Ok.confirm (ok : Ok w g) (ready : (g.get p.peer).ready.get s = ackFrame received :: more)
    (below : ∀ c, (received.get c).toNat ≤ (w.direction p.peer).sender.counts.get c) :
    Ok (w.emit p ((w.machine p).confirmed received).1 ((w.machine p).confirmed received).2)
      (handled g p s more) := by
  have silent : isSession (ackFrame received) = false := by
    rw [isSession, controlOf_ackFrame]
    rfl
  have step : Linked AnyReason _ _ _ := .confirmed (w.machine p) received
  have plain : (∀ i ∈ ((w.machine p).confirmed received).2, i.isLink = false) ∧
      relayed ((w.machine p).confirmed received).2 = [] ∧
      delivers ((w.machine p).confirmed received).2 = [] := by
    simp only [Handoff.confirmed]
    split <;> simp [isLink, relayed, delivers]
  refine ok.emit_ghosts (step.wf (ok.wf p)) step.moves _ _ ?_
    (inv_emit_peer_still ((ok.inv p.peer).takeAck ready silent) rfl plain.2.2)
  rw [direction_emit_self plain.1, plain.2.1, append_nil]
  exact (ok.inv p).confirm below (confirmed_sending (w.machine p) received)

/-- One frame that came off the pieces is handled. -/
theorem Ok.linkFrame (ok : Ok w g) (settled : Settled (w.machine p))
    (on : (w.machine p).leftLink = false)
    (ready : (g.get p.peer).ready.get s = frame :: more) (now : Nat) :
    ∃ g', (∀ q, (g'.get q).ready = ((handled g p s more).get q).ready) ∧
      Ok (w.emit p ((w.machine p).linkFrame s frame now).1
        ((w.machine p).linkFrame s frame now).2) g' := by
  rcases (ok.link_frame on ready).kind with session | ⟨received, rfl, below⟩
  · rw [linkFrame_session session]
    cases peer : (w.machine p).peerSwitched with
    | false =>
      have held := ok.hold on peer ready session
      simp only [Bool.not_false, if_true]
      split
      · exact held.then_quiets (leave_quiet _ trivial _)
      · exact ⟨_, fun _ => rfl, held⟩
    | true =>
      obtain ⟨ack, out, quiet⟩ := deliverLink_cases (w.machine p) s frame now
      simp only [Bool.not_true, Bool.false_eq_true, if_false, out]
      exact (ok.count settled on peer ready session now).then_quiets quiet
  · rw [linkFrame_ack]
    exact ⟨_, fun _ => rfl, ok.confirm ready below⟩

/-- All the frames a piece completed are handled, or dropped by a side that left
on the way. -/
theorem Ok.linkFrames (s : Channel) (now : Nat) (frames : List Bytes) (ok : Ok w g)
    (settled : Settled (w.machine p)) (on : (w.machine p).leftLink = false)
    (ready : (g.get p.peer).ready.get s = frames) :
    ∃ g', (∀ q, (g'.get q).ready = ((handled g p s []).get q).ready) ∧
      Ok (w.emit p (linkFrames s now frames (w.machine p)).1
        (linkFrames s now frames (w.machine p)).2) g' := by
  induction frames generalizing w g with
  | nil =>
    refine ⟨g, forall_ghosts (P := fun q k => (g.get q).ready = k.ready) rfl ?_, ?_⟩
    · rw [← ready, set_get_self]
    · rw [Handoff.linkFrames, emit_self]
      exact ok
  | cons frame frames ih =>
    obtain ⟨g₁, ready₁, ok₁⟩ := ok.linkFrame settled on ready now
    have out₁ : (g₁.get p).ready = (g.get p).ready := by
      rw [ready₁, handled, get_ghosts_self]
    have in₁ : (g₁.get p.peer).ready = (g.get p.peer).ready.set s frames := by
      rw [ready₁, handled, get_ghosts_peer]
    have settled₁ := (linkFrame_linked on (show AnyReason .overflow from trivial) s frame
      now).invariant (fun step => step.settled) settled
    rw [Handoff.linkFrames]
    simp only
    split
    next left =>
      refine ⟨handled g₁ p s [], fun q => ?_, ok₁.toSides, fun q => ?_⟩
      · rcases p.eq_or_peer q with rfl | rfl
        · rw [handled, handled, get_ghosts_self, get_ghosts_self, out₁]
        · rw [handled, handled, get_ghosts_peer, get_ghosts_peer, in₁, set_set]
      · rcases p.eq_or_peer q with rfl | rfl
        · rw [handled, get_ghosts_self]
          exact ok₁.inv q
        · rw [handled, get_ghosts_peer]
          refine (ok₁.inv p.peer).dropReady ?_ _
          rw [receiver_peer, machine_emit_self]
          exact left
    next still =>
      simp only [Bool.not_eq_true] at still
      obtain ⟨g₂, ready₂, ok₂⟩ := ih ok₁ (by rwa [machine_emit_self]) (by rwa [machine_emit_self])
        (by rw [in₁, get_set_self])
      rw [machine_emit_self, emit_emit] at ok₂
      refine ⟨g₂, fun q => (ready₂ q).trans ?_, ok₂⟩
      rcases p.eq_or_peer q with rfl | rfl
      · rw [handled, handled, get_ghosts_self, get_ghosts_self, out₁]
      · rw [handled, handled, get_ghosts_peer, get_ghosts_peer, in₁, set_set]

/-- The first piece on a channel arrives, and with it perhaps some whole frames. -/
theorem Good.carryLink (good : Good w) {s : Channel} {more : List Bytes}
    (link : (w.link.get p).get s = piece :: more) (now : Nat) :
    Good ((w.popLink p s more).event p (.fromLink s piece now)) := by
  have sound := good.sound.popLink p s more
  cases left : (w.machine p).leftLink with
  | true =>
    obtain ⟨g, ok, idle⟩ := good.ok
    have is : ((w.popLink p s more).machine p).event (.fromLink s piece now) =
        (w.machine p, []) := by
      show (w.machine p).fromLink s piece now = _
      rw [fromLink, if_pos left]
    refine sound.event_directions _ (g.get p) (g.get p.peer) ?_ ?_ (idle p) (idle p.peer)
    · rw [World.event, is]
      refine inv_emit_still ?_ rfl (by simp) rfl
      rw [direction_popLink_self]
      exact ok.inv p
    · rw [World.event, is]
      refine inv_emit_peer_still ?_ rfl rfl
      rw [direction_popLink_peer]
      exact (ok.inv p.peer).dropPiece (by rw [receiver_peer]; exact left) _
  | false =>
    obtain ⟨frames, buf, g, event, ready, idle, taken⟩ := good.takePiece left link now
    have step : Linked AnyReason _ _ _ := .reassemble (w.machine p) s ⟨buf⟩ left
    obtain ⟨g', ready', ok'⟩ := taken.linkFrames s now frames
      (by rw [machine_emit_self]; exact step.settled (good.settled p))
      (by rw [machine_emit_self]; exact left) (by rw [ready, get_set_self])
    rw [machine_emit_self, emit_emit, List.nil_append] at ok'
    refine sound.event _ (g := g') ?_ fun q => (ready' q).trans ?_
    · rw [World.event, show ((w.popLink p s more).machine p).event (.fromLink s piece now) = _
        from event]
      exact ok'
    · rcases p.eq_or_peer q with rfl | rfl
      · rw [handled, get_ghosts_self, idle]
      · rw [handled, get_ghosts_peer, ready, set_set]
        cases s <;> rfl

/-! ## Every action -/

/-- Every action keeps the invariant. -/
theorem Good.step (good : Good w) {a : Action} (may : w.Admissible a) : Good (w.step a) := by
  cases a with
  | beginAttempt p now => exact good.quiets (beginAttempt_quiet)
  | linkOpen p now layout => exact good.quiets (linkOpen_quiet _ now layout)
  | send p frame now =>
    have room := may.room
    cases path : (w.machine p).path with
    | relay => exact good.sendRelay may.session path now
    | link => exact good.sendLink may path now
    | holding | ended => simp only [canTake, path, reduceCtorEq] at room
  | carryRelay dest now =>
    rw [World.step]
    split
    · exact good
    next relay => exact good.carryRelay relay now
  | carryLink dest s now =>
    rw [World.step]
    split
    · exact good
    next link => exact good.carryLink link now
  | linkLost p reason now => exact good.quiets (leave_quiet _ trivial now)
  | tick p now => exact good.tick now
  | cut dest s => exact good.cut dest s

/-- **Every reachable world is good.** -/
theorem Reachable.good {config : Config} (reach : Reachable config w) : Good w := by
  induction reach with
  | new => exact good_new config
  | step _ may ih => exact ih.step may

end

end World

end OpenGate.Direct
