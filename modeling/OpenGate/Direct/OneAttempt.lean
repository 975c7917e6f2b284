import OpenGate.Direct.HandoffInv
import OpenGate.Direct.Msgpack

/-!
# One attempt

A hand-off goes out to the link once and comes back once.  `Moves` is what a step
may say beside where it goes: it holds of every small step and composes, so it
holds between any two moments of a run.  Two marks of the state carry it: the
outcomes reported so far and the link closed so far are functions of the flags
(`reported`, `closes`).

The two notices are the machine's own as long as nobody hands it one to send, so
what it says of them (`Speaks`) is kept apart.
-/

namespace OpenGate.Direct

open Lib List Nat

/-! ## Reading instructions -/

/-- The outcomes reported. -/
def outcomesOf (out : List Instruction) : List Outcome :=
  out.filterMap fun
    | .outcome o => some o
    | _ => none

def Instruction.isLink : Instruction → Bool
  | .link _ _ => true
  | _ => false

def Instruction.isPlain : Instruction → Bool
  | .outcome _ | .closeLink => false
  | _ => true

section

variable [WireCodec]

def isSwitchFrame (frame : Bytes) : Bool := controlOf frame == some .directSwitch

def isFallbackFrame (frame : Bytes) : Bool :=
  match controlOf frame with
  | some (.directFallback ..) => true
  | _ => false

def Instruction.isSwitch : Instruction → Bool
  | .relay frame => isSwitchFrame frame
  | _ => false

def Instruction.isFallback : Instruction → Bool
  | .relay frame => isFallbackFrame frame
  | _ => false

/-- A frame that is not one of the two notices of a change of path. -/
def NoPathNotice (frame : Bytes) : Prop :=
  isSwitchFrame frame = false ∧ isFallbackFrame frame = false

end

variable {i : Instruction} {channel : Channel} {frame : Bytes}

theorem outcomesOf_append (out more : List Instruction) :
    outcomesOf (out ++ more) = outcomesOf out ++ outcomesOf more :=
  filterMap_append

theorem mem_pieces (inside : i ∈ pieces channel frame) : ∃ piece, i = .link channel piece := by
  simp only [pieces, mem_map] at inside
  obtain ⟨piece, -, is⟩ := inside
  exact ⟨piece, is.symm⟩

namespace Handoff

/-- What a machine has reported by now, read off its state. -/
def reported (h : Handoff) : List Outcome :=
  (if h.direct then [.direct] else []) ++
    if h.leftLink then [if h.direct then .dropped else .noRoute] else []

/-- How often a machine has closed its link, read off its state. -/
def closes (h : Handoff) : Nat := if h.leftLink then 1 else 0

/-- What a step may say and must leave alone. -/
structure Moves (h : Handoff) (out : List Instruction) (h' : Handoff) : Prop where
  left : h.leftLink = true → h'.leftLink = true
  frozen : h.leftLink = true → h'.delivered = h.delivered
  outcomes : h'.reported = h.reported ++ outcomesOf out
  closings : h'.closes = h.closes + out.count .closeLink
  noLink : h.leftLink = true → ∀ i ∈ out, i.isLink = false
  order : out.Pairwise fun i j => i = .closeLink → j.isLink = false

theorem Moves.refl (h : Handoff) : Moves h [] h where
  left := id
  frozen _ := rfl
  outcomes := (List.append_nil _).symm
  closings := rfl
  noLink _ := nofun
  order := .nil

variable {h h' : Handoff} {out : List Instruction} {Why : LeaveReason → Prop}
  {more : List Instruction} {h₁ h₂ : Handoff} {received : Counts} {now : Nat}

theorem Moves.left_of_closing (moves : Moves h out h') (closing : .closeLink ∈ out) :
    h'.leftLink := by
  have once := count_pos_iff.mpr closing
  have closings := moves.closings
  unfold closes at closings
  by_contra on
  rw [if_neg on] at closings
  omega

theorem Moves.trans (first : Moves h out h₁) (second : Moves h₁ more h₂) :
    Moves h (out ++ more) h₂ where
  left := second.left ∘ first.left
  frozen left := (second.frozen (first.left left)).trans (first.frozen left)
  outcomes := by rw [second.outcomes, first.outcomes, outcomesOf_append, append_assoc]
  closings := by rw [second.closings, first.closings, count_append, add_assoc]
  noLink left i inside := by
    rcases mem_append.mp inside with before | after
    · exact first.noLink left i before
    · exact second.noLink (first.left left) i after
  order := by
    refine pairwise_append.mpr ⟨first.order, second.order, fun i before j after is => ?_⟩
    subst is
    exact second.noLink (first.left_of_closing before) j after

/-- A step that reports nothing and closes nothing. -/
theorem Moves.of_plain (left : h'.leftLink = h.leftLink) (direct : h'.direct = h.direct)
    (frozen : h.leftLink → h'.delivered = h.delivered)
    (noLink : h.leftLink → ∀ i ∈ out, i.isLink = false) (plain : ∀ i ∈ out, i.isPlain) :
    Moves h out h' := by
  have open' : ∀ i ∈ out, i ≠ .closeLink := fun i inside is => by
    have := plain i inside
    simp only [is, Instruction.isPlain, reduceCtorEq] at this
  have quiet : outcomesOf out = [] := by
    refine filterMap_eq_nil_iff.mpr fun i inside => ?_
    cases i with
    | outcome o => exact absurd (plain _ inside) Bool.false_ne_true
    | _ => rfl
  refine ⟨left.trans, frozen, ?_, ?_, noLink, ?_⟩
  · rw [quiet, List.append_nil, reported, reported, left, direct]
  · rw [count_eq_zero_of_not_mem fun inside => open' _ inside rfl, closes, closes, left,
      add_zero]
  · exact pairwise_of_forall_mem_list fun i inside _ _ is => absurd is (open' i inside)

/-- A step of a side still on the link that reports nothing and closes nothing. -/
theorem Moves.of_on (on : h.leftLink = false) (left : h'.leftLink = h.leftLink)
    (direct : h'.direct = h.direct) (plain : ∀ i ∈ out, i.isPlain) : Moves h out h' :=
  .of_plain left direct (fun left => nomatch on.symm.trans left)
    (fun left => nomatch on.symm.trans left) plain

/-- A step that says nothing. -/
theorem Moves.of_silent (left : h'.leftLink = h.leftLink) (direct : h'.direct = h.direct)
    (delivered : h'.delivered = h.delivered) : Moves h [] h' :=
  .of_plain left direct (fun _ => delivered) (fun _ => nofun) nofun

theorem departed_direct : (h.departed now).direct = h.direct := by
  unfold departed
  simp only
  split <;> rfl

theorem departed_switched : (h.departed now).switched = h.switched := by
  unfold departed
  simp only
  split <;> rfl

theorem departed_sending : (h.departed now).sending = h.sending := by
  unfold departed
  simp only
  split <;> rfl

/-- A side goes to the link once and comes back once. -/
theorem Course.paths_prefix (course : Course h) :
    h.paths <+: [.relay, .link, .holding, .relay] ∨
      h.paths <+: [.relay, .link, .holding, .ended] := by
  cases course with
  | relay paths _ _ _ | link paths _ _ _ _ | holding _ paths _ _ _ _ _ | back paths _ _ _ _
  | ended paths _ _ _ _ => rw [paths]; decide

/-- At most a success and its loss, or no route. -/
theorem reported_prefix : h.reported <+: [.direct, .dropped] ∨ h.reported = [.noRoute] := by
  unfold reported
  cases h.direct <;> cases h.leftLink <;> decide

theorem closes_le : h.closes ≤ 1 := by
  unfold closes
  split <;> decide

variable [WireCodec]

/-- One case for each kind of step. -/
theorem Quiet.moves (step : Quiet Why h out h') : Moves h out h' := by
  cases step with
  | attempt now fresh | lateAck left | dropBudget => exact .of_silent rfl rfl rfl
  | switch layout unswitched on path | release slot frame held now on peer front =>
    exact .of_on on rfl rfl fun i inside => by
      rw [mem_singleton.mp inside]
      rfl
  | direct switched peer undirect on =>
    refine ⟨id, fun _ => rfl, ?_, rfl, fun left => ?_, pairwise_singleton _ _⟩
    · simp only [reported, undirect, on]
      rfl
    · simp only [on, reduceCtorEq] at left
  | ack on =>
    exact .of_on on rfl rfl fun i inside => by
      obtain ⟨piece, is⟩ := mem_pieces inside
      rw [is]
      rfl
  | leave reason now why on =>
    refine ⟨fun _ => departed_leftLink, fun left => ?_, ?_, ?_, fun left => ?_, ?_⟩
    · simp only [on, reduceCtorEq] at left
    · simp only [reported, departed_leftLink, departed_direct, on, if_true, Bool.false_eq_true,
        if_false, List.append_nil]
      rfl
    · simp only [closes, departed_leftLink, on, if_true, Bool.false_eq_true, if_false]
      rfl
    · simp only [on, reduceCtorEq] at left
    · -- what follows the closing of the link goes to the relay or to the log
      simp [farewell, Instruction.isLink]
  | resend received path known =>
    refine .of_plain rfl rfl (fun _ => rfl) (fun _ i inside => ?_) (fun i inside => ?_) <;>
    · obtain ⟨frame, -, is⟩ := mem_map.mp inside
      rw [← is]
      rfl
  | forgetHeldBytes slot on peer => exact .of_on on rfl rfl nofun

theorem Linked.moves (step : Linked Why h out h') : Moves h out h' := by
  cases step with
  | quiet step => exact step.moves
  | reassemble slot r on | hold slot frame on fresh => exact .of_on on rfl rfl nofun
  | count slot frame now on peer =>
    exact .of_on on rfl rfl fun i inside => by
      rw [mem_singleton.mp inside]
      rfl
  | confirmed received =>
    have plain : ∀ i ∈ (h.confirmed received).2, i.isLink = false ∧ i.isPlain := by
      intro i inside
      simp only [Handoff.confirmed] at inside
      split at inside
      · cases inside
      · rw [mem_singleton.mp inside]
        exact ⟨rfl, rfl⟩
    exact .of_plain rfl rfl (fun _ => rfl) (fun _ i inside => (plain i inside).1)
      fun i inside => (plain i inside).2

/-- A frame sent on the link goes there before the side leaves. -/
theorem Micro.moves {Sent : Bytes → Prop} (wf : Wf h) (step : Micro Sent h out h') :
    Moves h out h' := by
  cases step with
  | linked step => exact step.moves
  | sendRelay frame sent path | deliver frame | signal msg | expire deadline now waits due =>
    refine .of_plain rfl rfl (fun _ => rfl) (fun _ i inside => ?_) (fun i inside => ?_) <;>
    · rw [mem_singleton.mp inside]
      rfl
  | sendLink frame sent path =>
    exact .of_on (wf.course.of_path_link path).2.2.1 rfl rfl fun i inside => by
      obtain ⟨piece, is⟩ := mem_pieces inside
      rw [is]
      rfl
  | peerSwitch fresh on | peerFallback received => exact .of_silent rfl rfl rfl

/-- Along the chain of a run's steps. -/
theorem run_moves (wf : Wf h) (es : List Event) :
    Wf (h.run es).1 ∧ Moves h (h.run es).2 (h.run es).1 := by
  have chain := run_micro h fun e (_ : e ∈ es) => eventSends_true
  refine chain.closed (Q := fun s out t => Wf s → Wf t ∧ Moves s out t) ?_ ?_ ?_ wf
  · exact fun s wf => ⟨wf, .refl s⟩
  · intro s t u out more first second wf
    obtain ⟨wf₁, moves₁⟩ := first wf
    obtain ⟨wf₂, moves₂⟩ := second wf₁
    exact ⟨wf₂, moves₁.trans moves₂⟩
  · exact fun step wf => ⟨step.wf wf, step.moves wf⟩

/-! ## The machine's own notices -/

/-- No frame kept for re-sending is a path notice. -/
def KeptPlain (h : Handoff) : Prop :=
  ∀ c, ∀ k ∈ (h.sending.get c).kept, NoPathNotice k.2

/-- What a step may say of the path, when no frame given to `send` does. -/
structure Speaks (h : Handoff) (out : List Instruction) (h' : Handoff) : Prop where
  kept : KeptPlain h → KeptPlain h'
  frozen : h.leftLink = true → h'.switched = h.switched
  switches : KeptPlain h → h'.switched.toNat = h.switched.toNat + out.countP Instruction.isSwitch
  fallbacks : KeptPlain h →
    h'.leftLink.toNat = h.leftLink.toNat + out.countP Instruction.isFallback
  order : KeptPlain h →
    out.Pairwise fun i j => i.isFallback = true → j.isSwitch = false

theorem Speaks.refl (h : Handoff) : Speaks h [] h :=
  ⟨id, fun _ => rfl, fun _ => rfl, fun _ => rfl, fun _ => .nil⟩

/-- A side that says it fell back has left. -/
theorem Speaks.left_of_fallback (speaks : Speaks h out h') (plain : KeptPlain h) (inside : i ∈ out)
    (fallback : i.isFallback) : h'.leftLink := by
  have once := countP_pos_iff.mpr ⟨i, inside, fallback⟩
  have fallbacks := speaks.fallbacks plain
  cases left : h'.leftLink with
  | true => rfl
  | false =>
    rw [left, Bool.toNat_false] at fallbacks
    omega

/-- A side that has left never says that it switched. -/
theorem Speaks.noSwitch_of_left (speaks : Speaks h out h') (plain : KeptPlain h)
    (left : h.leftLink) : ∀ i ∈ out, i.isSwitch = false := by
  have switches := speaks.switches plain
  rw [speaks.frozen left] at switches
  have none : out.countP Instruction.isSwitch = 0 := by omega
  intro i inside
  simpa using countP_eq_zero.mp none i inside

theorem Speaks.trans (left : Moves h out h₁) (first : Speaks h out h₁)
    (second : Speaks h₁ more h₂) : Speaks h (out ++ more) h₂ where
  kept := second.kept ∘ first.kept
  frozen gone := (second.frozen (left.left gone)).trans (first.frozen gone)
  switches plain := by
    rw [second.switches (first.kept plain), first.switches plain, countP_append, add_assoc]
  fallbacks plain := by
    rw [second.fallbacks (first.kept plain), first.fallbacks plain, countP_append, add_assoc]
  order plain := by
    refine pairwise_append.mpr
      ⟨first.order plain, second.order (first.kept plain), fun i before j after fallback => ?_⟩
    exact second.noSwitch_of_left (first.kept plain)
      (first.left_of_fallback plain before fallback) j after

/-- A step that neither switches nor leaves and names neither notice. -/
theorem Speaks.of_plain (switched : h'.switched = h.switched) (left : h'.leftLink = h.leftLink)
    (kept : KeptPlain h → KeptPlain h')
    (plain : KeptPlain h → ∀ i ∈ out, i.isSwitch = false ∧ i.isFallback = false) :
    Speaks h out h' := by
  refine ⟨kept, fun _ => switched, fun clean => ?_, fun clean => ?_, fun clean => ?_⟩
  · rw [countP_eq_zero.mpr fun i inside => by rw [(plain clean i inside).1]; simp, switched,
      add_zero]
  · rw [countP_eq_zero.mpr fun i inside => by rw [(plain clean i inside).2]; simp, left,
      add_zero]
  · exact pairwise_of_forall_mem_list fun i _ j inside _ => (plain clean j inside).1

/-- A step whose one instruction is no relay frame. -/
theorem Speaks.of_one (switched : h'.switched = h.switched) (left : h'.leftLink = h.leftLink)
    (kept : KeptPlain h → KeptPlain h') (plain : i.isSwitch = false ∧ i.isFallback = false) :
    Speaks h [i] h' :=
  .of_plain switched left kept fun _ _ inside => mem_singleton.mp inside ▸ plain

theorem Speaks.of_silent (switched : h'.switched = h.switched) (left : h'.leftLink = h.leftLink)
    (kept : KeptPlain h → KeptPlain h') : Speaks h [] h' :=
  .of_plain switched left kept fun _ => nofun

theorem pieces_plain : ∀ i ∈ pieces channel frame, i.isSwitch = false ∧ i.isFallback = false := by
  intro i inside
  obtain ⟨piece, is⟩ := mem_pieces inside
  rw [is]
  exact ⟨rfl, rfl⟩

/-- What is sent again are the session's frames, and none of them is a notice. -/
theorem resend_plain (plain : KeptPlain h) :
    ∀ i ∈ (h.resend received).2, i.isSwitch = false ∧ i.isFallback = false := by
  have above : ∀ c n, ∀ f ∈ (h.sending.get c).above n, NoPathNotice f := by
    intro c n f inside
    obtain ⟨k, kept, rfl⟩ := mem_map.mp inside
    exact plain c k (mem_filter.mp kept).1
  intro i inside
  obtain ⟨f, among, rfl⟩ := mem_map.mp inside
  simp only [mem_append] at among
  rcases among with (typing | screen) | files
  · exact above .typing _ f typing
  · exact above .screen _ f screen
  · exact above .files _ f files

section

variable [LawfulCodec]

theorem isSwitch_switchFrame : (Instruction.relay switchFrame).isSwitch := by
  simp only [Instruction.isSwitch, isSwitchFrame, controlOf_switchFrame, beq_self_eq_true]

theorem isFallback_switchFrame : (Instruction.relay switchFrame).isFallback = false := by
  simp only [Instruction.isFallback, isFallbackFrame, controlOf_switchFrame]

theorem isSwitch_fallbackFrame : (Instruction.relay (fallbackFrame received)).isSwitch = false := by
  simp [Instruction.isSwitch, isSwitchFrame, controlOf_fallbackFrame]

theorem isFallback_fallbackFrame : (Instruction.relay (fallbackFrame received)).isFallback := by
  simp only [Instruction.isFallback, isFallbackFrame, controlOf_fallbackFrame]

variable {h : Handoff}

theorem Quiet.speaks (step : Quiet Why h out h') : Speaks h out h' := by
  cases step with
  | attempt now fresh | lateAck left | dropBudget | forgetHeldBytes slot on peer =>
    exact .of_silent rfl rfl id
  | switch layout unswitched on path =>
    refine ⟨id, fun left => ?_, fun _ => ?_, fun _ => ?_, fun _ => pairwise_singleton _ _⟩
    · simp only [on, reduceCtorEq] at left
    · rw [countP_singleton, if_pos isSwitch_switchFrame, unswitched]
      rfl
    · rw [countP_singleton, isFallback_switchFrame]
      rfl
  | direct switched peer undirect on | release slot frame held now on peer front =>
    exact .of_one rfl rfl id ⟨rfl, rfl⟩
  | ack on => exact .of_plain rfl rfl id fun _ => pieces_plain
  | leave reason now why on =>
    have noSwitch : ∀ i ∈ h.farewell reason, i.isSwitch = false := by
      simp only [farewell, forall_mem_cons, isSwitch_fallbackFrame]
      exact ⟨rfl, trivial, rfl, rfl, fun _ inside => absurd inside List.not_mem_nil⟩
    refine ⟨fun plain => ?_, fun _ => departed_switched, fun _ => ?_, fun _ => ?_, fun _ => ?_⟩
    · unfold KeptPlain
      rw [departed_sending]
      exact plain
    · rw [departed_switched, countP_eq_zero.mpr fun i inside => by rw [noSwitch i inside]; simp,
        add_zero]
    · rw [departed_leftLink, on, farewell, countP_cons_of_neg Bool.false_ne_true,
        List.countP_cons_of_pos (isFallback_fallbackFrame),
        countP_cons_of_neg Bool.false_ne_true, countP_cons_of_neg Bool.false_ne_true]
      rfl
    · exact pairwise_of_forall_mem_list fun _ _ j inside _ => noSwitch j inside
  | resend received path known =>
    refine .of_plain rfl rfl (fun _ c k inside => ?_) fun plain => resend_plain plain
    simp only [Handoff.resend, setPath, PerChannel.get_map, Sending.drained, List.not_mem_nil]
      at inside

theorem Linked.speaks (step : Linked Why h out h') : Speaks h out h' := by
  cases step with
  | quiet step => exact step.speaks
  | reassemble slot r on | hold slot frame on fresh => exact .of_silent rfl rfl id
  | count slot frame now on peer => exact .of_one rfl rfl id ⟨rfl, rfl⟩
  | confirmed received =>
    refine .of_plain rfl rfl (fun plain c k inside => ?_) fun _ i inside => ?_
    · rw [confirmed_sending] at inside
      exact plain c k ((dropWhile_sublist _).subset inside)
    · simp only [Handoff.confirmed] at inside
      split at inside
      · cases inside
      · rw [mem_singleton.mp inside]
        exact ⟨rfl, rfl⟩

/-- The session's own frames are no notices. -/
theorem Micro.speaks (step : Micro NoPathNotice h out h') : Speaks h out h' := by
  cases step with
  | linked step => exact step.speaks
  | sendRelay frame sent path => exact .of_one rfl rfl id sent
  | sendLink frame sent path =>
    refine .of_plain rfl rfl (fun plain c k inside => ?_) fun _ => pieces_plain
    simp only [numbered, PerChannel.get_set] at inside
    split at inside
    · rcases mem_append.mp inside with before | new
      · exact plain _ k before
      · rw [mem_singleton.mp new]
        exact sent
    · exact plain c k inside
  | deliver frame | signal msg | expire deadline now waits due =>
    exact .of_one rfl rfl id ⟨rfl, rfl⟩
  | peerSwitch fresh on | peerFallback received => exact .of_silent rfl rfl id

/-! ## Whole runs -/

/-- Along the chain of a run's steps. -/
theorem run_speaks (wf : Wf h) {es : List Event} (sends : ∀ e ∈ es, EventSends NoPathNotice e) :
    Speaks h (h.run es).2 (h.run es).1 := by
  have chain := run_micro h sends
  refine (chain.closed (Q := fun s out t => Wf s → Wf t ∧ Moves s out t ∧ Speaks s out t)
    ?_ ?_ ?_ wf).2.2
  · exact fun s wf => ⟨wf, .refl s, .refl s⟩
  · intro s t u out more first second wf
    obtain ⟨wf₁, moves₁, speaks₁⟩ := first wf
    obtain ⟨wf₂, moves₂, speaks₂⟩ := second wf₁
    exact ⟨wf₂, moves₁.trans moves₂, .trans moves₁ speaks₁ speaks₂⟩
  · exact fun step wf => ⟨step.wf wf, step.moves wf, step.speaks⟩

/-- **One attempt, at most two path changes, whatever the events.**  The paths go
out to the link once and come back once; the link is closed at most once and
nothing is put on it afterwards; the outcomes are `Direct`, `Dropped` as far as
they come, or `NoRoute` alone; what was delivered from the link stays as it was
when the side left it.  As long as no frame given to `send` is itself a switch
or fall-back notice, each of the two is put on the relay at most once, and no
switch after a fall-back. -/
theorem one_attempt (config : Config) (es : List Event) :
    let h := ((new config).run es).1
    let out := ((new config).run es).2
    (h.paths <+: [.relay, .link, .holding, .relay] ∨
      h.paths <+: [.relay, .link, .holding, .ended]) ∧
    out.count .closeLink ≤ 1 ∧
    (outcomesOf out <+: [.direct, .dropped] ∨ outcomesOf out = [.noRoute]) ∧
    (∀ before after, out = before ++ .closeLink :: after → ∀ i ∈ after, i.isLink = false) ∧
    (∀ first later, es = first ++ later → ((new config).run first).1.leftLink = true →
      h.delivered = ((new config).run first).1.delivered) ∧
    ((∀ frame now, .send frame now ∈ es → NoPathNotice frame) →
      out.countP Instruction.isSwitch ≤ 1 ∧ out.countP Instruction.isFallback ≤ 1 ∧
      ∀ before i after, out = before ++ i :: after → i.isFallback = true →
        ∀ j ∈ after, j.isSwitch = false) := by
  intro h out
  obtain ⟨wf, moves⟩ := run_moves (wf_new config) es
  have outcomes : h.reported = outcomesOf out := moves.outcomes
  have closings : h.closes = 0 + out.count .closeLink := moves.closings
  rw [zero_add] at closings
  refine ⟨wf.course.paths_prefix, closings ▸ closes_le, outcomes ▸ reported_prefix, ?_, ?_, ?_⟩
  · intro before after split i inside
    have order := moves.order
    rw [show ((new config).run es).2 = _ from split, pairwise_append] at order
    exact (pairwise_cons.mp order.2.1).1 i inside rfl
  · intro first later split left
    have rest := run_moves (run_moves (wf_new config) first).1 later
    have whole : h = (((new config).run first).1.run later).1 := by
      simp only [h, split, run_append]
    rw [whole]
    exact rest.2.frozen left
  · intro sends
    have given : ∀ e ∈ es, EventSends NoPathNotice e :=
      fun e inside frame now is => sends frame now (is ▸ inside)
    have speaks := run_speaks (wf_new config) given
    have plain : KeptPlain (new config) := by
      intro c k inside
      simp only [new, PerChannel.get_fill, Sending.new, List.not_mem_nil] at inside
    have switches : h.switched.toNat = 0 + out.countP Instruction.isSwitch := speaks.switches plain
    have fallbacks : h.leftLink.toNat = 0 + out.countP Instruction.isFallback :=
      speaks.fallbacks plain
    refine ⟨?_, ?_, fun before i after split fallback j inside => ?_⟩
    · have bit := Bool.toNat_le h.switched
      omega
    · have bit := Bool.toNat_le h.leftLink
      omega
    · have order := speaks.order plain
      rw [show ((new config).run es).2 = _ from split, pairwise_append] at order
      exact (pairwise_cons.mp order.2.1).1 j inside fallback

end

end Handoff

end OpenGate.Direct

namespace OpenGate.Direct.Handoff

/-- A run out to the link and back, with one ping sent on each. -/
theorem one_attempt_out_and_back :
    let es : List Event := [.beginAttempt 0, .send [0x05] 1, .linkOpen 2 .separate,
      .send [0x05] 3, .linkLost .closed 4]
    let out := ((new .default).run es).2
    (∀ frame now, .send frame now ∈ es → NoPathNotice frame) ∧
      out.countP Instruction.isSwitch ≤ 1 ∧ out.countP Instruction.isFallback ≤ 1 := by
  intro es out
  have sends : ∀ frame now, .send frame now ∈ es → NoPathNotice frame := by
    intro frame now inside
    have ping : frame = [0x05] := by
      simp only [es, List.mem_cons, Event.send.injEq, reduceCtorEq, List.not_mem_nil, or_false,
        false_or] at inside
      rcases inside with is | is <;> exact is.1
    rw [ping]
    exact ⟨rfl, rfl⟩
  have notices := (one_attempt .default es).2.2.2.2.2 sends
  exact ⟨sends, notices.1, notices.2.1⟩

/-- The sending point passes on what it is given: a switch notice handed to `send`
twice is on the relay twice. -/
theorem switch_given_to_send :
    ((new .default).run [.send switchFrame 0, .send switchFrame 0]).2.countP
      Instruction.isSwitch = 2 := by
  have switch := isSwitch_switchFrame
  simp only [run, event, send, new, List.append_nil, List.cons_append, List.nil_append,
    List.countP_cons_of_pos switch, List.countP_nil]

end OpenGate.Direct.Handoff
