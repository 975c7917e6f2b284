import Mathlib.Logic.Function.Basic

/-!
# The turn between the link's channels

`session/share.rs`: typing first, then whichever of screen and files has sent fewer
bytes.  The counters are numbers without a bound.
-/

namespace OpenGate.Direct

inductive Slot where
  | screen
  | files
  deriving DecidableEq

def Slot.other : Slot → Slot
  | .screen => .files
  | .files => .screen

structure Share where
  sent : Slot → Nat
  /-- Which had nothing waiting at the last pick. -/
  idle : Slot → Bool

/-- What the writer sends next. -/
inductive Next where
  | typing
  | bulk (slot : Slot)
  deriving DecidableEq

namespace Share

def new : Share := ⟨fun _ => 0, fun _ => false⟩

/-- Which of screen and files goes next; the screen goes first on a tie. -/
def pick (share : Share) (waiting : Slot → Bool) : Share × Option (Slot) :=
  ({ share with idle := fun slot => !waiting slot },
    match waiting .screen, waiting .files with
    | true, true => some (if share.sent .files < share.sent .screen then .files else .screen)
    | true, false => some .screen
    | false, true => some .files
    | false, false => none)

/-- `Share::sent`: a side idle at the last pick keeps level with the one that sends. -/
def addSent (share : Share) (slot : Slot) (bytes : Nat) : Share :=
  let sent := Function.update share.sent slot (share.sent slot + bytes)
  let other := slot.other
  { share with
    sent := if share.idle other then Function.update sent other (max (sent other) (sent slot))
      else sent }

/-- Which waiting piece, by length, goes on the link now; an idle path always takes one. -/
def sendNow (share : Share) (waiting : Slot → Option Nat) (outstanding limit : Nat) :
    Share × Option (Slot) :=
  let (picking, picked) := share.pick fun slot => (waiting slot).isSome
  match picked.bind fun slot => (waiting slot).map (slot, ·) with
  | none => (picking, none)
  | some (slot, len) =>
    if 0 < outstanding ∧ limit < outstanding + len then (picking, none)
    else (picking.addSent slot len, some slot)

/-- What the link's writer knows when it asks what goes next. -/
structure Call where
  typing : Option Nat
  typingOutstanding : Nat
  bulk : Slot → Option Nat
  outstanding : Nat
  limit : Nat

/-- Typing goes first, at once while it has nothing unconfirmed. -/
def linkNext (share : Share) (c : Call) : Share × Option Next :=
  match c.typing with
  | some len =>
    (share, if c.typingOutstanding = 0 ∨ c.outstanding + len ≤ c.limit then some .typing else none)
  | none =>
    let (share, slot) := share.sendNow c.bulk c.outstanding c.limit
    (share, slot.map .bulk)
/-- Where a sequence of calls ends, and the bytes each lane sends on the way. -/
def run (share : Share) : List Call → Share × (Slot → Nat)
  | [] => (share, fun _ => 0)
  | c :: calls =>
    let (share, sends) := share.linkNext c
    let (share, bytes) := share.run calls
    (share,
      fun slot => (if sends = some (.bulk slot) then (c.bulk slot).getD 0 else 0) + bytes slot)

/-! ## What a turn does -/

variable {share : Share} {slot : Slot} {len P : Nat} {calls : List Call}

theorem other_ne (slot : Slot) : slot.other ≠ slot := by
  cases slot <;> nofun

theorem other_other (slot : Slot) : slot.other.other = slot := by
  cases slot <;> rfl

theorem forall_slots {p : Slot → Prop} (slot : Slot) (here : p slot) (other : p slot.other) :
    ∀ s, p s := by
  intro s
  cases slot <;> cases s <;> assumption

theorem sent_addSent : (share.addSent slot len).sent slot = share.sent slot + len := by
  simp only [addSent]
  split
  · exact (Function.update_of_ne (other_ne slot).symm ..).trans (Function.update_self ..)
  · exact Function.update_self ..

theorem sent_addSent_other :
    (share.addSent slot len).sent slot.other
      = if share.idle slot.other then max (share.sent slot.other) (share.sent slot + len)
        else share.sent slot.other := by
  simp only [addSent, Function.update_self, Function.update_of_ne (other_ne slot)]
  split
  · exact Function.update_self ..
  · exact Function.update_of_ne (other_ne slot) ..

/-- The side that goes is behind, unless the other has nothing waiting. -/
theorem pick_behind {waiting : Slot → Bool} (picked : (share.pick waiting).2 = some slot)
    (waits : waiting slot.other = true) : share.sent slot ≤ share.sent slot.other := by
  simp only [pick] at picked
  split at picked
  next =>
    split at picked
    next ahead =>
      cases picked
      exact Nat.le_of_lt ahead
    next behind =>
      cases picked
      exact Nat.not_lt.mp behind
  next idle =>
    cases picked
    cases idle.symm.trans waits
  next idle _ =>
    cases picked
    cases idle.symm.trans waits
  next => cases picked

/-- Nothing goes, or typing, or the piece of the side that is behind. -/
inductive Turn (share : Share) (c : Call) : Share × Option Next → Prop where
  | rest (idle : Slot → Bool) : Turn share c ({ share with idle }, none)
  | typing (len : Nat) (piece : c.typing = some len)
      (may : c.typingOutstanding = 0 ∨ c.outstanding + len ≤ c.limit) :
          Turn share c (share, some .typing)
  | bulk (slot : Slot) (len : Nat) (piece : c.bulk slot = some len)
      (behind : (c.bulk slot.other).isSome → share.sent slot ≤ share.sent slot.other)
      (may : c.outstanding = 0 ∨ c.outstanding + len ≤ c.limit) :
    Turn share c
      (addSent { share with idle := fun slot => !(c.bulk slot).isSome } slot len, some (.bulk slot))

/-- By the branches of `linkNext`. -/
theorem linkNext_turn (share : Share) (c : Call) : Turn share c (share.linkNext c) := by
  rw [linkNext]
  split
  next len piece =>
    split
    next may => exact .typing len piece may
    next => exact .rest share.idle
  next =>
    simp only [sendNow]
    split
    next => exact .rest _
    next slot len taken =>
      obtain ⟨_, picked, piece⟩ := Option.bind_eq_some_iff.mp taken
      obtain ⟨_, piece, ⟨⟩⟩ := Option.map_eq_some_iff.mp piece
      split
      next => exact .rest _
      next fits => exact .bulk slot len piece (pick_behind picked) (by omega)
/-! ## Any calls -/

/-- The lanes' counters differ by at most `P`. -/
def Level (P : Nat) (share : Share) : Prop := ∀ slot, share.sent slot ≤ share.sent slot.other + P

theorem Level.addSent (level : share.Level P) (small : len ≤ P)
    (behind : share.idle slot.other = false → share.sent slot ≤ share.sent slot.other) :
    (share.addSent slot len).Level P := by
  have mine := level slot
  have theirs := level slot.other
  rw [other_other] at theirs
  refine forall_slots slot ?_ ?_
  · rw [sent_addSent, sent_addSent_other]
    split
    next => omega
    next waits =>
      have := behind (Bool.not_eq_true _ ▸ waits)
      omega
  · rw [other_other, sent_addSent, sent_addSent_other]
    split <;> omega

/-- By induction on the calls. -/
theorem Level.run (level : share.Level P)
    (small : ∀ c ∈ calls, ∀ slot, ∀ len ∈ c.bulk slot, len ≤ P) : (share.run calls).1.Level P := by
  induction calls generalizing share with
  | nil => exact level
  | cons c calls ih =>
    rw [List.forall_mem_cons] at small
    have kept : (share.linkNext c).1.Level P := by
      have turn := linkNext_turn share c
      generalize share.linkNext c = after at turn ⊢
      cases turn with
      | rest | typing => exact level
      | bulk slot len piece behind =>
        exact Level.addSent level (small.1 slot len piece) fun waits =>
          behind (by simpa using waits)
    exact ih kept small.2

/-- While both lanes wait, the counters count what they send. -/
theorem sent_run (wait : ∀ c ∈ calls, ∀ slot, (c.bulk slot).isSome) :
    ∀ slot, (share.run calls).1.sent slot = share.sent slot + (share.run calls).2 slot := by
  induction calls generalizing share with
  | nil => exact fun _ => rfl
  | cons c calls ih =>
    rw [List.forall_mem_cons] at wait
    have counted : ∀ slot, (share.linkNext c).1.sent slot = share.sent slot
        + if (share.linkNext c).2 = some (.bulk slot) then (c.bulk slot).getD 0 else 0 := by
      have turn := linkNext_turn share c
      generalize share.linkNext c = after at turn ⊢
      cases turn with
      | rest | typing => exact fun _ => rfl
      | bulk slot len piece =>
        refine forall_slots slot ?_ ?_
        · rw [sent_addSent, if_pos rfl, piece]
          rfl
        · rw [sent_addSent_other, if_neg (by simp [wait.1]),
            if_neg (by simp [(other_ne slot).symm])]
          rfl
    intro slot
    have later := @ih (share.linkNext c).1 wait.2 slot
    rw [counted] at later
    exact later.trans (Nat.add_assoc ..)

end Share

/-! ## The link's writer -/

/-- The turn, and the unconfirmed bytes of typing and of the lanes by how they were sent. -/
structure SharedLink where
  share : Share
  /-- Within the limit, with all that was outstanding. -/
  fitted : Bool → Nat
  /-- Past it, while nothing was outstanding, or as typing while nothing of typing was. -/
  alone : Bool → Nat
  /-- Past it otherwise. -/
  past : Bool → Nat

inductive SharedLink.Event where
  /-- The writer asks for the next piece. -/
  | write (typing : Option Nat) (bulk : Slot → Option Nat) (limit : Nat)
  /-- Bytes are confirmed, any of those outstanding. -/
  | confirm (fitted alone past : Bool → Nat)

namespace SharedLink

def new : SharedLink := ⟨.new, fun _ => 0, fun _ => 0, fun _ => 0⟩

def unconfirmed (link : SharedLink) (typing : Bool) : Nat :=
  link.fitted typing + link.alone typing + link.past typing

def outstanding (link : SharedLink) : Nat := link.unconfirmed true + link.unconfirmed false

def send (link : SharedLink) (typing : Bool) (len limit : Nat) : SharedLink :=
  let add (bytes : Bool → Nat) := Function.update bytes typing (bytes typing + len)
  if link.outstanding + len ≤ limit then { link with fitted := add link.fitted }
  else if link.outstanding = 0 ∨ typing = true ∧ link.unconfirmed true = 0 then
    { link with alone := add link.alone }
  else { link with past := add link.past }

def step (link : SharedLink) : Event → SharedLink
  | .write typing bulk limit =>
    let (share, next) :=
      link.share.linkNext ⟨typing, link.unconfirmed true, bulk, link.outstanding, limit⟩
    let link := { link with share }
    match next with
    | none => link
    | some .typing => link.send true (typing.getD 0) limit
    | some (.bulk slot) => link.send false ((bulk slot).getD 0) limit
  | .confirm fitted alone past =>
    { link with
      fitted := fun typing => link.fitted typing - fitted typing
      alone := fun typing => link.alone typing - alone typing
      past := fun typing => link.past typing - past typing }

def Event.limit : Event → Nat
  | .write _ _ limit => limit
  | .confirm .. => 0

/-- What was sent within the limit is within it, and what was sent past it was sent alone. -/
def Within (limit : Nat) (link : SharedLink) : Prop :=
  link.fitted true + link.fitted false ≤ limit ∧ ∀ typing, link.past typing = 0

variable {link : SharedLink} {limit bound : Nat}

theorem within_send {typing : Bool} {len : Nat} (within : link.Within bound) (low : limit ≤ bound)
    (may : link.outstanding = 0 ∨ typing = true ∧ link.unconfirmed true = 0 ∨
      link.outstanding + len ≤ limit) : (link.send typing len limit).Within bound := by
  unfold send
  split
  next fits =>
    refine ⟨?_, within.2⟩
    simp only [outstanding, unconfirmed] at fits
    cases typing <;> simp only [Function.update_self, ne_eq, reduceCtorEq, not_false_eq_true,
      Function.update_of_ne] <;> omega
  next past =>
    have alone : link.outstanding = 0 ∨ typing = true ∧ link.unconfirmed true = 0 := by grind
    rw [if_pos alone]
    exact within

theorem within_step {event : Event} (within : link.Within bound) (low : event.limit ≤ bound) :
    (link.step event).Within bound := by
  cases event with
  | confirm fitted alone past =>
    have := within.1
    refine ⟨?_, fun typing => ?_⟩
    · simp only [step]
      omega
    · simp only [step, within.2 typing, Nat.zero_sub]
  | write typing bulk limit =>
    have turn :=
      Share.linkNext_turn link.share ⟨typing, link.unconfirmed true, bulk, link.outstanding, limit⟩
    rw [step]
    generalize link.share.linkNext _ = after at turn ⊢
    cases turn with
    | rest => exact within
    | typing len piece may =>
      cases piece
      exact within_send within low (.inr (may.imp_left fun none => ⟨rfl, none⟩))
    | bulk slot len piece _ may =>
      have sends : (bulk slot).getD 0 = len := by
        rw [show bulk slot = some len from piece, Option.getD_some]
      subst sends
      exact within_send within low (may.imp_right .inr)

/-- By induction on what happens. -/
theorem within_run {events : List Event} (within : link.Within bound)
    (low : ∀ event ∈ events, event.limit ≤ bound) : (events.foldl step link).Within bound := by
  induction events generalizing link with
  | nil => exact within
  | cons event events ih =>
    rw [List.forall_mem_cons] at low
    exact ih (within_step within low.1) low.2

end SharedLink

open Share SharedLink

/-- With pieces of at most `P` bytes the lanes' counters never differ by more than `P`; while
both lanes wait, what they send differs by at most `2 P`; and what is outstanding is within the
limit but for pieces sent alone. -/
theorem link_shared (P : Nat) (calls stretch : List Call)
    (small : ∀ c ∈ calls ++ stretch, ∀ slot, ∀ len ∈ c.bulk slot, len ≤ P) :
    let share := (Share.new.run calls).1
    (∀ slot, share.sent slot ≤ share.sent slot.other + P) ∧
      ((∀ c ∈ stretch, ∀ slot, (c.bulk slot).isSome) →
        ∀ slot, (share.run stretch).2 slot ≤ (share.run stretch).2 slot.other + 2 * P) ∧
      ∀ (limit : Nat) (events : List SharedLink.Event), (∀ event ∈ events, event.limit ≤ limit) →
        let link := events.foldl step .new
        (∀ typing, link.past typing = 0) ∧
          link.outstanding ≤ limit + link.alone true + link.alone false := by
  intro share
  rw [List.forall_mem_append] at small
  have level : share.Level P := Level.run (fun _ => Nat.zero_le _) small.1
  refine ⟨level, fun wait slot => ?_, fun limit events low => ?_⟩
  · have after := level.run small.2 slot
    have before := level slot.other
    rw [sent_run wait, sent_run wait] at after
    rw [other_other] at before
    omega
  · intro link
    obtain ⟨fitted, past⟩ : link.Within limit := within_run ⟨Nat.zero_le _, fun _ => rfl⟩ low
    refine ⟨past, ?_⟩
    rw [outstanding, unconfirmed, unconfirmed, past, past]
    omega

/-- The files wait while the screen sends, and both wait after that. -/
theorem link_shared_pair :
    let share :=
      (Share.new.run [⟨none, 0, fun _ => some 3, 0, 8⟩, ⟨none, 0, fun _ => some 5, 9, 8⟩]).1
    share.sent .screen = 3 ∧ share.sent .files = 0 ∧
      share.sent .screen ≤ share.sent .files + 5 := by
  refine ⟨by decide, by decide, (link_shared 5 [⟨none, 0, fun _ => some 3, 0, 8⟩,
    ⟨none, 0, fun _ => some 5, 9, 8⟩] [] ?_).1 .screen⟩
  simp

end OpenGate.Direct
