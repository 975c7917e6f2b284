import OpenGate.Alerts.Condition

/-!
# The alert sink

`alerts/sink.rs`: a bounded queue that drops its oldest alert on overflow, and an hourly
ceiling over the pushes it admits.  The queue never looks into an alert, so the sink is
modelled over any type of alerts.

The books are kept over runs (`Books`): every pushed alert carries the number of its
push, and a run remembers what was accepted and when, what was handed out and what was
lost.  `sink_keeps_books` is the result: the ceiling holds over the hour that ends at an
accepted push, the queue is bounded and in the order of acceptance, and every pushed
alert is in exactly one place.
-/

namespace OpenGate.Alerts

open OpenGate.Lib List
open Multiset (coe_add coe_eq_coe coe_nil)
open UInt64 (ofNat ofNat_add)

/-- The width of the ceiling's rolling window, in microseconds. -/
def ceilingWindowMicros : Int64 := 3600 * 1000000

/-- Whether an alert describes something happening now or found in the device's history. -/
inductive AlertOrigin where
  | live
  | backfilled
  deriving DecidableEq, Repr

/-- Packed context for why a rule fired, and how it was packed. -/
structure PackedEvidence where
  bytes : List UInt8
  codec : String
  deriving DecidableEq

structure EdgeAlert (F : Type) where
  ruleId : String
  ruleVersion : UInt32
  severity : AlertSeverity
  tsMicros : Int64
  windowStartMicros : Int64
  windowEndMicros : Int64
  /-- The dimension the rule watched; empty for a rule that watches log text. -/
  metric : String
  value : Option F
  subject : String
  summary : String
  evidence : PackedEvidence
  origin : AlertOrigin
  deriving DecidableEq

variable {α : Type} {times : List Int64}

inductive PushOutcome where
  | queued
  | droppedOldest
  | suppressedByCeiling
  deriving DecidableEq, Repr

structure AlertSink (α : Type) where
  queue : List α
  capacity : Nat
  ceiling : UInt32
  /-- Raise times of alerts admitted inside the current window, oldest first. -/
  admitted : List Int64
  droppedOldest : UInt64
  suppressedByCeiling : UInt64
  deriving DecidableEq

namespace AlertSink

def new (capacity : Nat) (ceiling : UInt32) : AlertSink α := ⟨[], capacity, ceiling, [], 0, 0⟩

/-- `while queue.len() > capacity`: what is left of the queue, and how many it lost. -/
def trimLoop (capacity : Nat) : List α → UInt64 → List α × UInt64
  | [], dropped => ([], dropped)
  | oldest :: queue, dropped =>
    if capacity < (oldest :: queue).length then trimLoop capacity queue (dropped + 1)
    else (oldest :: queue, dropped)

/-- Drops the oldest until the queue is inside its bound, counts each loss and returns
how many. -/
def trimToCapacity (sink : AlertSink α) : AlertSink α × UInt64 :=
  let trimmed := trimLoop sink.capacity sink.queue 0
  ({ sink with queue := trimmed.1, droppedOldest := sink.droppedOldest + trimmed.2 }, trimmed.2)

/-- Forgets admissions that have aged out of the rolling window. -/
def expireAdmitted (sink : AlertSink α) (nowMicros : Int64) : AlertSink α :=
  { sink with
    admitted := sink.admitted.dropWhile fun oldest =>
      decide (ceilingWindowMicros ≤ saturatingSub nowMicros oldest) }

/-- Offers an alert raised at `nowMicros`; an alert over the ceiling is dropped, not
deferred. -/
def push (sink : AlertSink α) (alert : α) (nowMicros : Int64) : AlertSink α × PushOutcome :=
  let sink := sink.expireAdmitted nowMicros
  if sink.ceiling.toNat ≤ sink.admitted.length then
    ({ sink with suppressedByCeiling := sink.suppressedByCeiling + 1 }, .suppressedByCeiling)
  else
    let sink :=
      { sink with admitted := sink.admitted ++ [nowMicros], queue := sink.queue ++ [alert] }
    let trimmed := sink.trimToCapacity
    (trimmed.1, if 0 < trimmed.2 then .droppedOldest else .queued)

/-- Hands over every queued alert, oldest first, and empties the queue. -/
def drain (sink : AlertSink α) : AlertSink α × List α := ({ sink with queue := [] }, sink.queue)

/-- Puts undelivered alerts back at the front of the queue without charging the ceiling
again. -/
def returnUnsent (sink : AlertSink α) (alerts : List α) : AlertSink α :=
  if alerts.isEmpty then sink
  else
    -- Pushed to the front newest first, so they stand in the order they were drained in.
    let queue := alerts.reverse.foldl (fun queue alert => alert :: queue) sink.queue
    ({ sink with queue } : AlertSink α).trimToCapacity.1

/-- Sets the hourly ceiling; a ceiling of zero is ignored. -/
def setCeiling (sink : AlertSink α) (ceiling : UInt32) : AlertSink α :=
  if ceiling = 0 then sink else { sink with ceiling }

/-! ## What one call does -/

def excess (capacity : Nat) (queue : List α) : Nat := queue.length - capacity

variable (capacity : Nat) {queue : List α}

theorem trimLoop_eq (dropped : UInt64) :
    trimLoop capacity queue dropped
      = (queue.drop (excess capacity queue), dropped + ofNat (excess capacity queue)) := by
  induction queue generalizing dropped with
  | nil => simp [trimLoop, excess]
  | cons oldest queue ih =>
    unfold trimLoop
    split
    next longer =>
      rw [length_cons] at longer
      have one : excess capacity (oldest :: queue) = excess capacity queue + 1 := by
        rw [excess, excess, length_cons]
        omega
      rw [ih, one, drop_succ_cons, ofNat_add, add_assoc, add_comm (ofNat _)]
      rfl
    next within =>
      have none : excess capacity (oldest :: queue) = 0 := by
        rw [excess]
        omega
      simp [none]

theorem trimToCapacity_fst {sink : AlertSink α} :
    sink.trimToCapacity.1 = { sink with
      queue := sink.queue.drop (excess sink.capacity sink.queue),
      droppedOldest := sink.droppedOldest + ofNat (excess sink.capacity sink.queue) } := by
  simp [trimToCapacity, trimLoop_eq]

theorem length_drop_excess_le : (queue.drop (excess capacity queue)).length ≤ capacity := by
  rw [length_drop, excess]
  omega

variable {sink : AlertSink α} {nowMicros : Int64} {alert : α}

theorem push_suppressed
    (full : sink.ceiling.toNat ≤ (sink.expireAdmitted nowMicros).admitted.length) :
    sink.push alert nowMicros = ({ sink.expireAdmitted nowMicros with
      suppressedByCeiling := sink.suppressedByCeiling + 1 }, .suppressedByCeiling) := by
  have whole : (sink.expireAdmitted nowMicros).ceiling.toNat
      ≤ (sink.expireAdmitted nowMicros).admitted.length := full
  rw [push]
  rw [if_pos whole]
  rfl

theorem push_accepted (free : (sink.expireAdmitted nowMicros).admitted.length < sink.ceiling.toNat)
    :
    (sink.push alert nowMicros).1 = ({ sink with
        admitted := (sink.expireAdmitted nowMicros).admitted ++ [nowMicros],
        queue := sink.queue ++ [alert] } : AlertSink α).trimToCapacity.1 ∧
      (sink.push alert nowMicros).2 ≠ .suppressedByCeiling := by
  have open' : ¬ (sink.expireAdmitted nowMicros).ceiling.toNat
      ≤ (sink.expireAdmitted nowMicros).admitted.length := Nat.not_le.mpr free
  rw [push]
  dsimp only
  rw [if_neg open']
  refine ⟨rfl, ?_⟩
  split <;> exact nofun

theorem returnUnsent_eq (sink : AlertSink α) {alerts : List α} (some : alerts ≠ []) :
    sink.returnUnsent alerts
      = ({ sink with queue := alerts ++ sink.queue } : AlertSink α).trimToCapacity.1 := by
  have front : alerts.reverse.foldl (fun queue alert => alert :: queue) sink.queue
      = alerts ++ sink.queue := by
    simp
  rw [returnUnsent, if_neg (by simpa using some), front]

end AlertSink

/-! ## The rolling hour -/

/-- In the hour that ends at `now`: an admission an hour old is out of it. -/
def inHour (now earlier : Int64) : Bool :=
  decide (now.toInt - earlier.toInt < ceilingWindowMicros.toInt)

theorem expires_iff (now earlier : Int64) :
    ceilingWindowMicros ≤ saturatingSub now earlier ↔ inHour now earlier = false := by
  have wide : ceilingWindowMicros ≠ Int64.minValue := by decide
  rw [le_saturatingSub_iff, inHour, decide_eq_false_iff_not]
  simp only [wide, or_false]
  omega

/-- Of times in order, the ones that expire are in front. -/
theorem dropWhile_expired (ordered : times.Pairwise (· ≤ ·)) {now : Int64} :
    times.dropWhile (fun oldest => decide (ceilingWindowMicros ≤ saturatingSub now oldest))
      = times.filter (inHour now) := by
  induction times with
  | nil => rfl
  | cons oldest times ih =>
    obtain ⟨first, ordered⟩ := pairwise_cons.mp ordered
    cases recent : inHour now oldest with
    | false =>
      rw [dropWhile_cons_of_pos (by simpa using (expires_iff now oldest).mpr recent),
        ih ordered, filter_cons_of_neg (by simp [recent])]
    | true =>
      have kept : ¬ ceilingWindowMicros ≤ saturatingSub now oldest := by
        rw [expires_iff, recent]
        exact Bool.noConfusion
      have all : ∀ time ∈ oldest :: times, inHour now time := by
        rw [forall_mem_cons]
        refine ⟨recent, fun time here => ?_⟩
        have later := first time here
        rw [Int64.le_iff_toInt_le] at later
        rw [inHour, decide_eq_true_eq] at recent ⊢
        omega
      rw [dropWhile_cons_of_neg (by simpa using kept), filter_eq_self.mpr all]

/-- What was out of an hour stays out of a later one. -/
theorem filter_inHour_filter {now later : Int64} (forward : now ≤ later) :
    (times.filter (inHour now)).filter (inHour later) = times.filter (inHour later) := by
  rw [Int64.le_iff_toInt_le] at forward
  rw [filter_filter]
  refine filter_congr fun time _ => ?_
  simp only [inHour, ← Bool.decide_and, decide_eq_decide]
  omega

/-! ## Runs and their books -/

/-- A sink in use, with what a run remembers of it.  An alert is paired with the number of
the push that brought it. -/
structure Books (α : Type) where
  sink : AlertSink (Nat × α)
  pushes : Nat
  now : Option Int64
  accepted : List (Int64 × Nat)
  /-- The latest drained batch, as long as a tail of it may come back. -/
  batch : List (Nat × α)
  /-- Handed out for good. -/
  gone : List (Nat × α)
  dropped : List (Nat × α)
  suppressed : List (Nat × α)

namespace Books

def opened (capacity : Nat) (ceiling : UInt32) : Books α :=
  ⟨.new capacity ceiling, 0, none, [], [], [], [], []⟩

def trimmed (sink : AlertSink (Nat × α)) (queue : List (Nat × α)) : List (Nat × α) :=
  queue.take (AlertSink.excess sink.capacity queue)

def refuse (books : Books α) (alert : α) (now : Int64) : Books α :=
  { books with
    sink := (books.sink.push (books.pushes, alert) now).1
    pushes := books.pushes + 1
    now := some now
    suppressed := books.suppressed ++ [(books.pushes, alert)] }

def accept (books : Books α) (alert : α) (now : Int64) : Books α :=
  { books with
    sink := (books.sink.push (books.pushes, alert) now).1
    pushes := books.pushes + 1
    now := some now
    accepted := books.accepted ++ [(now, books.pushes)]
    dropped := books.dropped ++ trimmed books.sink (books.sink.queue ++ [(books.pushes, alert)]) }

def push (books : Books α) (alert : α) (now : Int64) : Books α :=
  if (books.sink.push (books.pushes, alert) now).2 = .suppressedByCeiling
  then books.refuse alert now
  else books.accept alert now

/-- A drain: the batch before it can no longer come back. -/
def drain (books : Books α) : Books α :=
  { books with
    sink := books.sink.drain.1
    batch := books.sink.drain.2
    gone := books.gone ++ books.batch }

/-- What is left of the batch after its first `sent` alerts comes back. -/
def returnUnsent (books : Books α) (sent : Nat) : Books α :=
  { books with
    sink := books.sink.returnUnsent (books.batch.drop sent)
    batch := []
    gone := books.gone ++ books.batch.take sent
    dropped := books.dropped ++ trimmed books.sink (books.batch.drop sent ++ books.sink.queue) }

/-- One call on the sink.  Times do not go back. -/
inductive Step : Books α → Books α → Prop
  | push (books : Books α) (alert : α) (now : Int64) (forward : ∀ last ∈ books.now, last ≤ now) :
    Step books (books.push alert now)
  | drain (books : Books α) : Step books books.drain
  | returnUnsent (books : Books α) (sent : Nat) : Step books (books.returnUnsent sent)
  | setCeiling (books : Books α) (ceiling : UInt32) :
    Step books { books with sink := books.sink.setCeiling ceiling }

abbrev Reached (capacity : Nat) (ceiling : UInt32) (books : Books α) : Prop :=
  Relation.ReflTransGen Step (opened capacity ceiling) books

def acceptedInHour (books : Books α) (now : Int64) : List (Int64 × Nat) :=
  books.accepted.filter fun p => inHour now p.1

/-- Every place an alert can be in. -/
def everywhere (books : Books α) : List (Nat × α) :=
  books.sink.queue ++ (books.batch ++ books.gone) ++ books.dropped ++ books.suppressed

/-- The admissions are the accepted pushes of the hour that ends at the latest push. -/
structure Admits (books : Books α) : Prop where
  ordered : (books.accepted.map Prod.fst).Pairwise (· ≤ ·)
  past : ∀ now, books.now = some now → ∀ time ∈ books.accepted.map Prod.fst, time ≤ now
  recent : ∀ now, books.now = some now →
    books.sink.admitted = (books.accepted.map Prod.fst).filter (inHour now)
  fresh : books.now = none → books.accepted = [] ∧ books.sink.admitted = []

/-- What holds of the books at all times. -/
structure Kept (capacity : Nat) (books : Books α) : Prop where
  sized : books.sink.capacity = capacity
  bounded : books.sink.queue.length ≤ capacity
  inOrder : ((books.batch ++ books.sink.queue).map Prod.fst).Sublist (books.accepted.map Prod.snd)
  everyone : (books.everywhere.map Prod.fst).Perm (List.range books.pushes)
  losses : books.sink.droppedOldest = UInt64.ofNat books.dropped.length
  refusals : books.sink.suppressedByCeiling = UInt64.ofNat books.suppressed.length
  admits : books.Admits

variable {ceiling : UInt32}

theorem kept_opened {capacity : Nat} :
    Kept capacity (opened capacity ceiling : Books α) where
  sized := rfl
  bounded := Nat.zero_le _
  inOrder := .slnil
  everyone := .nil
  losses := rfl
  refusals := rfl
  admits := ⟨.nil, nofun, nofun, fun _ => ⟨rfl, rfl⟩⟩

variable {capacity : Nat} {books : Books α}

variable {now : Int64}

/-- The admissions a push at `now` counts. -/
theorem Admits.expired (admits : books.Admits) (forward : ∀ last ∈ books.now, last ≤ now) :
    (books.sink.expireAdmitted now).admitted
      = (books.accepted.map Prod.fst).filter (inHour now) := by
  cases last : books.now with
  | none =>
    obtain ⟨nothing, noone⟩ := admits.fresh last
    simp [AlertSink.expireAdmitted, nothing, noone]
  | some before =>
    have sorted : books.sink.admitted.Pairwise (· ≤ ·) := by
      rw [admits.recent before last]
      exact admits.ordered.filter _
    show books.sink.admitted.dropWhile _ = _
    rw [dropWhile_expired sorted, admits.recent before last,
      filter_inHour_filter (forward before last)]

theorem Admits.times_le (admits : books.Admits) (forward : ∀ last ∈ books.now, last ≤ now) :
    ∀ time ∈ books.accepted.map Prod.fst, time ≤ now := by
  intro time here
  cases last : books.now with
  | none =>
    rw [(admits.fresh last).1] at here
    cases here
  | some before => exact Int64.le_trans (admits.past before last time here) (forward before last)

section

variable (sink : AlertSink (Nat × α)) (queue : List (Nat × α))

/-- What is lost moves from the queue to the losses. -/
theorem perm_trimmed (out dropped suppressed : List (Nat × α)) :
    (queue.drop (AlertSink.excess sink.capacity queue) ++ out ++ (dropped ++ trimmed sink queue)
      ++ suppressed).Perm (queue ++ out ++ dropped ++ suppressed) := by
  conv_rhs => rw [← take_append_drop (AlertSink.excess sink.capacity queue) queue]
  rw [trimmed, ← coe_eq_coe]
  simp only [← coe_add]
  abel

theorem length_trimmed : (trimmed sink queue).length = AlertSink.excess sink.capacity queue := by
  rw [trimmed, length_take, AlertSink.excess]
  omega

end

variable {alert : α}

theorem refuse_eq
    (full : books.sink.ceiling.toNat ≤ (books.sink.expireAdmitted now).admitted.length) :
    books.refuse alert now = { books with
      sink := { books.sink with
        admitted := (books.sink.expireAdmitted now).admitted
        suppressedByCeiling := books.sink.suppressedByCeiling + 1 }
      pushes := books.pushes + 1
      now := some now
      suppressed := books.suppressed ++ [(books.pushes, alert)] } := by
  rw [refuse, AlertSink.push_suppressed full]
  rfl

theorem kept_refuse (kept : Kept capacity books) (forward : ∀ last ∈ books.now, last ≤ now)
    (full : books.sink.ceiling.toNat ≤ (books.sink.expireAdmitted now).admitted.length) :
    Kept capacity (books.refuse alert now) := by
  rw [refuse_eq full]
  refine ⟨kept.sized, kept.bounded, kept.inOrder, ?_, kept.losses, ?_, kept.admits.ordered, ?_, ?_,
    nofun⟩
  · rw [everywhere, range_succ, ← append_assoc, map_append]
    exact kept.everyone.append_right _
  · rw [length_append, ofNat_add, ← kept.refusals]
    rfl
  · rintro _ ⟨⟩
    exact kept.admits.times_le forward
  · rintro _ ⟨⟩
    exact kept.admits.expired forward

theorem accept_eq
    (free : (books.sink.expireAdmitted now).admitted.length < books.sink.ceiling.toNat)
    {queue : List (Nat × α)} (whole : queue = books.sink.queue ++ [(books.pushes, alert)]) :
    books.accept alert now = { books with
      sink := { books.sink with
        queue := queue.drop (AlertSink.excess books.sink.capacity queue)
        admitted := (books.sink.expireAdmitted now).admitted ++ [now]
        droppedOldest := books.sink.droppedOldest
          + ofNat (AlertSink.excess books.sink.capacity queue) }
      pushes := books.pushes + 1
      now := some now
      accepted := books.accepted ++ [(now, books.pushes)]
      dropped := books.dropped ++ trimmed books.sink queue } := by
  rw [accept, (AlertSink.push_accepted free).1, AlertSink.trimToCapacity_fst, whole]

section

variable (kept : Kept capacity books) (sent : Nat)
include kept

theorem kept_accept (forward : ∀ last ∈ books.now, last ≤ now)
    (free : (books.sink.expireAdmitted now).admitted.length < books.sink.ceiling.toNat) :
    Kept capacity (books.accept alert now) := by
  obtain ⟨queue, whole⟩ : ∃ queue, queue = books.sink.queue ++ [(books.pushes, alert)] := ⟨_, rfl⟩
  rw [accept_eq free whole]
  refine ⟨kept.sized, ?_, ?_, ?_, ?_, kept.refusals, ?_, ?_, ?_, nofun⟩
  · rw [← kept.sized]
    exact AlertSink.length_drop_excess_le _
  · have tail : (books.batch ++ queue.drop (AlertSink.excess books.sink.capacity queue)).Sublist
        (books.batch ++ books.sink.queue ++ [(books.pushes, alert)]) := by
      rw [append_assoc, ← whole]
      exact (drop_sublist _ _).append_left _
    refine (tail.map Prod.fst).trans ?_
    have longer := kept.inOrder.append_right [books.pushes]
    simpa using longer
  · have last : (queue ++ (books.batch ++ books.gone) ++ books.dropped ++ books.suppressed).Perm
        (books.everywhere ++ [(books.pushes, alert)]) := by
      rw [everywhere, ← coe_eq_coe, whole]
      simp only [← coe_add]
      abel
    refine ((perm_trimmed books.sink queue _ books.dropped books.suppressed).map Prod.fst).trans ?_
    refine (last.map Prod.fst).trans ?_
    rw [map_append, range_succ]
    exact kept.everyone.append_right _
  · rw [length_append, ofNat_add, ← kept.losses, length_trimmed]
  · rw [map_append, pairwise_append]
    refine ⟨kept.admits.ordered, pairwise_singleton _ _, fun time here last newest => ?_⟩
    rw [map_singleton, mem_singleton] at newest
    exact newest ▸ kept.admits.times_le forward time here
  · rintro _ ⟨⟩
    rw [map_append, forall_mem_append]
    exact ⟨kept.admits.times_le forward, by simp⟩
  · rintro _ ⟨⟩
    rw [map_append, filter_append, ← kept.admits.expired forward]
    simp [inHour, ceilingWindowMicros]

theorem kept_push (forward : ∀ last ∈ books.now, last ≤ now) :
    Kept capacity (books.push alert now) := by
  rw [push]
  rcases Nat.lt_or_ge (books.sink.expireAdmitted now).admitted.length books.sink.ceiling.toNat
    with free | full
  · rw [if_neg (AlertSink.push_accepted free).2]
    exact kept_accept kept forward free
  · rw [if_pos (by rw [AlertSink.push_suppressed full])]
    exact kept_refuse kept forward full

theorem kept_drain : Kept capacity books.drain where
  sized := kept.sized
  bounded := Nat.zero_le _
  inOrder := by
    show ((books.sink.queue ++ []).map Prod.fst).Sublist _
    rw [append_nil]
    exact ((sublist_append_right _ _).map _).trans kept.inOrder
  everyone := by
    refine List.Perm.trans (List.Perm.map _ ?_) kept.everyone
    show ([] ++ (books.sink.queue ++ (books.gone ++ books.batch)) ++ _ ++ _).Perm _
    rw [everywhere, ← coe_eq_coe]
    simp only [← coe_add, coe_nil]
    abel
  losses := kept.losses
  refusals := kept.refusals
  admits := ⟨kept.admits.ordered, kept.admits.past, kept.admits.recent, kept.admits.fresh⟩

theorem returnUnsent_eq {queue : List (Nat × α)}
    (whole : queue = books.batch.drop sent ++ books.sink.queue) :
    books.returnUnsent sent = { books with
      sink := { books.sink with
        queue := queue.drop (AlertSink.excess books.sink.capacity queue)
        droppedOldest := books.sink.droppedOldest
          + ofNat (AlertSink.excess books.sink.capacity queue) }
      batch := []
      gone := books.gone ++ books.batch.take sent
      dropped := books.dropped ++ trimmed books.sink queue } := by
  have sink : books.sink.returnUnsent (books.batch.drop sent)
      = ({ books.sink with queue } : AlertSink (Nat × α)).trimToCapacity.1 := by
    cases back : books.batch.drop sent with
    | nil =>
      have none : AlertSink.excess books.sink.capacity books.sink.queue = 0 :=
        Nat.sub_eq_zero_of_le (kept.sized ▸ kept.bounded)
      rw [AlertSink.trimToCapacity_fst]
      simp [AlertSink.returnUnsent, none, whole, back]
    | cons oldest rest =>
      rw [whole, back]
      exact AlertSink.returnUnsent_eq _ (cons_ne_nil _ _)
  rw [returnUnsent, sink, AlertSink.trimToCapacity_fst, whole]

theorem kept_returnUnsent : Kept capacity (books.returnUnsent sent) := by
  obtain ⟨queue, whole⟩ : ∃ queue, queue = books.batch.drop sent ++ books.sink.queue := ⟨_, rfl⟩
  rw [returnUnsent_eq kept sent whole]
  refine ⟨kept.sized, ?_, ?_, ?_, ?_, kept.refusals, kept.admits.ordered, kept.admits.past,
    kept.admits.recent, kept.admits.fresh⟩
  · rw [← kept.sized]
    exact AlertSink.length_drop_excess_le _
  · refine (List.Sublist.map _ ?_).trans kept.inOrder
    rw [nil_append, whole]
    exact (drop_sublist _ _).trans ((drop_sublist _ _).append_right _)
  · have batch := take_append_drop sent books.batch
    refine ((perm_trimmed books.sink queue _ books.dropped books.suppressed).map Prod.fst).trans ?_
    refine List.Perm.trans (List.Perm.map _ ?_) kept.everyone
    rw [everywhere, ← coe_eq_coe, whole]
    conv_rhs => rw [← batch]
    simp only [← coe_add, coe_nil]
    abel
  · rw [length_append, ofNat_add, ← kept.losses, length_trimmed]

theorem kept_setCeiling : Kept capacity { books with sink := books.sink.setCeiling ceiling } := by
  rw [AlertSink.setCeiling]
  split
  · exact kept
  · exact ⟨kept.sized, kept.bounded, kept.inOrder, kept.everyone, kept.losses, kept.refusals,
      kept.admits.ordered, kept.admits.past, kept.admits.recent, kept.admits.fresh⟩

end

theorem kept_step {after : Books α} (step : Step books after) (kept : Kept capacity books) :
    Kept capacity after := by
  cases step with
  | push alert now forward => exact kept_push kept forward
  | drain => exact kept_drain kept
  | returnUnsent sent => exact kept_returnUnsent kept sent
  | setCeiling ceiling => exact kept_setCeiling kept

theorem kept_of_reached (reached : Reached capacity ceiling books) : Kept capacity books := by
  induction reached with
  | refl => exact kept_opened
  | tail _ step ih => exact kept_step step ih

/-- An accepted push leaves the hour that ends at it within the ceiling. -/
theorem length_acceptedInHour_push (kept : Kept capacity books)
    (forward : ∀ last ∈ books.now, last ≤ now)
    (accepted : (books.sink.push (books.pushes, alert) now).2 ≠ .suppressedByCeiling) :
    ((books.push alert now).acceptedInHour now).length ≤ books.sink.ceiling.toNat := by
  have free : (books.sink.expireAdmitted now).admitted.length < books.sink.ceiling.toNat := by
    by_contra full
    exact accepted (congrArg Prod.snd (AlertSink.push_suppressed (Nat.not_lt.mp full)))
  have before : (books.acceptedInHour now).length
      = (books.sink.expireAdmitted now).admitted.length := by
    rw [kept.admits.expired forward, filter_map, length_map]
    rfl
  have one : (books.push alert now).acceptedInHour now
      = books.acceptedInHour now ++ [(now, books.pushes)] := by
    rw [push, if_neg accepted]
    show (books.accepted ++ [(now, books.pushes)]).filter _ = _
    rw [filter_append]
    congr 1
    simp [inHour, ceilingWindowMicros]
  rw [one, length_append, before]
  exact free

/-- The sink keeps its ceiling, its order and its books. -/
theorem sink_keeps_books (capacity : Nat) (ceiling : UInt32) (books : Books α)
    (reached : Reached capacity ceiling books) :
    (∀ alert now, (∀ last ∈ books.now, last ≤ now) →
      (books.sink.push (books.pushes, alert) now).2 ≠ .suppressedByCeiling →
        ((books.push alert now).acceptedInHour now).length ≤ books.sink.ceiling.toNat) ∧
    books.sink.queue.length ≤ capacity ∧
    (books.sink.queue.map Prod.fst).Sublist (books.accepted.map Prod.snd) ∧
    ((books.sink.queue ++ (books.batch ++ books.gone) ++ books.dropped
      ++ books.suppressed).map Prod.fst).Perm (List.range books.pushes) ∧
    books.sink.droppedOldest = UInt64.ofNat books.dropped.length ∧
    books.sink.suppressedByCeiling = UInt64.ofNat books.suppressed.length := by
  have kept := kept_of_reached reached
  refine ⟨fun alert now forward accepted => ?_, kept.bounded, ?_, kept.everyone, kept.losses,
    kept.refusals⟩
  · exact length_acceptedInHour_push kept forward accepted
  · exact ((sublist_append_right _ _).map _).trans kept.inOrder

/-- Two alerts through a sink that holds one: the second pushes the first out, is drained,
comes back behind nothing and is drained again. -/
theorem sink_keeps_books_overflow :
    ∃ books : Books Unit, books.dropped = [(0, ())] ∧ books.batch = [(1, ())] ∧
      ((books.sink.queue ++ (books.batch ++ books.gone) ++ books.dropped
        ++ books.suppressed).map Prod.fst).Perm (List.range books.pushes) := by
  have run : Reached 1 2 ((((opened 1 2 : Books Unit).push () 0).push () 5).drain.returnUnsent
      0).drain := by
    refine .tail (.tail (.tail (.tail (.tail .refl (.push _ () 0 ?_)) (.push _ () 5 ?_)) (.drain _))
      (.returnUnsent _ 0)) (.drain _)
    · exact nofun
    · rintro _ ⟨⟩
      decide
  exact ⟨_, by decide +kernel, by decide +kernel, (sink_keeps_books 1 2 _ run).2.2.2.1⟩

end Books

end OpenGate.Alerts
