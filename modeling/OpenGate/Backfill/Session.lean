import OpenGate.Backfill.Replay

/-!
# One connection's session

As long as every batch is acked, exactly one thing is under way on a connection: a
message in flight or an armed timer, until the coordinator goes quiescent (`Live`).
A batch that is left without an ack takes it away.  On a store at rest, with grants
that last, the batches go one by one until none is left.
-/

namespace OpenGate.Backfill

open OpenGate.Tsdb OpenGate.Lib Replay List
open BackfillCoordinator (nextBatch startSession)
open Function (update update_of_ne update_self)

variable {F : Type} [Float64 F] [NegInfinity F] {d : BackfillDrain F} {b : PlannedBatch F}
  {fuel : Nat} {r : Result (List (PlannedBatch F))} {bs bs' : List (PlannedBatch F)}

/-! ## After an ack -/

theorem Drains.unique (drains : Drains d bs) (drains' : Drains d bs') : bs = bs' := by
  induction drains generalizing bs' with
  | drained ended =>
    cases drains' with
    | drained => rfl
    | again turned | batch turned => cases ended.symm.trans turned
  | again turned _ ih =>
    cases drains' with
    | drained ended => cases turned.symm.trans ended
    | again turned' rest =>
      cases turned.symm.trans turned'
      exact ih rest
    | batch turned' => cases turned.symm.trans turned'
  | batch turned _ ih =>
    cases drains' with
    | drained ended => cases turned.symm.trans ended
    | again turned' => cases turned.symm.trans turned'
    | batch turned' rest =>
      cases turned.symm.trans turned'
      rw [ih rest]

section Ack

variable {now : Int64} {cfg : BackfillConfig} {series : List SeriesId} {cursors : BackfillCursors}
  {c : Content F} {tier : BackfillTier}

theorem readBuckets_cursors (cursors cursors' : BackfillCursors) (phase : Phase) (pos : Int64)
    (ready : Bool) (step start stop : Int64) :
    (drainAt c now cfg series cursors phase pos ready).readBuckets tier step start stop
      = (drainAt c now cfg series cursors' phase pos ready).readBuckets tier step start stop := by
  have gathered (xs : List SeriesId) (acc) :
      (drainAt c now cfg series cursors phase pos ready).gather tier step start stop xs acc
        = (drainAt c now cfg series cursors' phase pos ready).gather tier step start stop xs
        acc := by
    induction xs generalizing acc with
    | nil => rfl
    | cons x xs ih =>
      exact congrArg _ (funext fun points => ih _)
  unfold BackfillDrain.readBuckets
  rw [show (drainAt c now cfg series cursors phase pos ready).series
    = (drainAt c now cfg series cursors' phase pos ready).series from rfl, gathered]
  rfl

/-- The batch of a slice is the same whatever the watermarks are, and there is one. -/
theorem BatchAt.unique {cursors' : BackfillCursors} {p : Int} {b' : PlannedBatch F}
    (batch : BatchAt c now cfg series cursors tier p b)
    (batch' : BatchAt c now cfg series cursors' tier p b') : b = b' := by
  obtain ⟨pos, stop, rows, newest, at_, ends, read, last, rfl⟩ := batch
  obtain ⟨pos', stop', rows', newest', at_', ends', read', last', rfl⟩ := batch'
  cases Int64.toInt_inj.mp (at_.trans at_'.symm)
  cases Int64.toInt_inj.mp (ends.trans ends'.symm)
  rw [readBuckets_cursors cursors cursors', read'] at read
  cases read
  rw [last'] at last
  cases last
  rfl

theorem batches_unique (cursors' : BackfillCursors) {out : List Int}
    (paired : List.Forall₂ (BatchAt c now cfg series cursors tier) out bs)
    (paired' : List.Forall₂ (BatchAt c now cfg series cursors' tier) out bs') : bs = bs' := by
  induction paired generalizing bs' with
  | nil =>
    cases paired'
    rfl
  | cons batch _ ih =>
    cases paired' with
    | cons batch' rest => rw [batch.unique batch', ih rest]

omit [Float64 F] [NegInfinity F] in
theorem get_set (cursors : BackfillCursors) (tier tier' : BackfillTier) (cursor : Int64) :
    (cursors.set tier cursor).get tier' = if tier' = tier then some cursor
    else cursors.get tier' := by
  cases tier <;> cases tier' <;> rfl

/-- A batch ends at the newest bucket found. -/
theorem InRange.toInt_cursor (range : InRange now cfg series cursors) {p : Int}
    (batch : BatchAt c now cfg series cursors tier p b)
    (some : c.found now cfg series tier p ≠ []) :
    b.tier = tier ∧ b.cursor.toInt = (c.found now cfg series tier p).getLast some := by
  obtain ⟨pos, stop, rows, newest, rfl, ends, read, last, rfl⟩ := batch
  obtain ⟨rows', read', keys, -⟩ := range.readBuckets c tier pos
    (show stop.toInt ≤ tier.hi now cfg by omega) pos true
  rw [read] at read'
  cases read'
  rw [ends] at keys
  obtain ⟨front, rfl⟩ := List.getLast?_eq_some_iff.mp last
  refine ⟨rfl, ?_⟩
  have same : (c.found now cfg series tier pos.toInt).getLast? = Option.some newest.1.toInt := by
    rw [Content.found, sliceAt, ← keys]
    simp
  rw [List.getLast?_eq_some_getLast some] at same
  exact (Option.some.inj same).symm

/-- A fresh drain from the watermark of the first batch has the other batches left. -/
theorem InRange.drains_ack (range : InRange now cfg series cursors) {rest : List (PlannedBatch F)}
    (drains : Drains (BackfillDrain.new c.reader now cfg series cursors) (b :: rest)) :
    InRange now cfg series (cursors.set b.tier b.cursor) ∧
      Drains (BackfillDrain.new c.reader now cfg series (cursors.set b.tier b.cursor)) rest := by
  obtain ⟨out, batches, walks, paired, all⟩ := range.drains c
  have split := drains.unique all
  -- the batch is the first of its tier, and the tiers before it have none
  have own : ∃ tier bs, batches tier = b :: bs ∧
      rest = update batches tier bs .recent60s ++ (update batches tier bs .rollup1m
        ++ (update batches tier bs .rollup1h ++ [])) := by
    cases recent : batches .recent60s with
    | cons b' bs =>
      rw [recent] at split
      cases split
      exact ⟨.recent60s, bs, recent, by simp⟩
    | nil =>
      rw [recent] at split
      cases mid : batches .rollup1m with
      | cons b' bs =>
        rw [mid] at split
        cases split
        exact ⟨.rollup1m, bs, mid, by simp [recent]⟩
      | nil =>
        rw [mid] at split
        cases old : batches .rollup1h with
        | cons b' bs =>
          rw [old] at split
          cases split
          exact ⟨.rollup1h, bs, old, by simp [recent, mid]⟩
        | nil =>
          rw [old] at split
          cases split
  obtain ⟨tier, bs, first, rfl⟩ := own
  have pairedOwn := paired tier
  rw [first] at pairedOwn
  cases shipping : out tier with
  | nil =>
    rw [shipping] at pairedOwn
    cases pairedOwn
  | cons p later =>
    rw [shipping] at pairedOwn
    obtain ⟨batch, pairedLater⟩ := forall₂_cons.mp pairedOwn
    have walk := walks tier
    rw [shipping] at walk
    obtain ⟨some, next⟩ := walk.tail
    obtain ⟨rfl, cursorIs⟩ := range.toInt_cursor batch some
    have slicing := range.slicing c b.tier
    obtain ⟨t, read, resumed, -, is⟩ := walk.sound slicing b.tier.secs_pos
      (b.tier.secs_le_width cfg series) _
      (mem_flatMap.mpr ⟨p, mem_cons_self, getLast_mem some⟩)
    have low := (range.shippable read resumed).low
    rw [is, ← cursorIs] at low
    have high := (slicing.getLast_span some).2
    rw [← cursorIs] at high
    have slice := range.slice b.tier
    have wide := b.tier.secs_le_width cfg series
    have range' : InRange now cfg series (cursors.set b.tier b.cursor) := by
      refine ⟨range.lo, range.hi, range.width, range.slice, fun tier' k => ?_⟩
      rw [get_set]
      split
      next same =>
        intro is
        cases is
        rw [same]
        omega
      · exact range.cursor tier' k
    have resumes : ∀ tier', BackfillTier.resumeAt now cfg (cursors.set b.tier b.cursor) tier'
        = if tier' = b.tier then (c.found now cfg series b.tier p).getLast some + b.tier.secs
          else tier'.resumeAt now cfg cursors := by
      intro tier'
      unfold BackfillTier.resumeAt
      rw [get_set]
      by_cases same : tier' = b.tier
      · subst same
        have positive := b.tier.secs_pos
        rw [if_pos rfl, if_pos rfl, ← cursorIs]
        exact max_eq_left (by omega)
      · rw [if_neg same, if_neg same]
    have walks' : ∀ tier' : BackfillTier, SliceWalk tier'.secs (tier'.width cfg series)
        (tier'.hi now cfg) (c.slice now cfg series tier')
        (tier'.resumeAt now cfg (cursors.set b.tier b.cursor))
        (update out b.tier later tier') := by
      intro tier'
      rw [resumes]
      by_cases same : tier' = b.tier
      · subst same
        rw [if_pos rfl, update_self]
        exact next
      · rw [if_neg same, update_of_ne same]
        exact walks tier'
    obtain ⟨batches', paired', drains'⟩ := range'.drains_of_walks walks'
    have same : batches' = update batches b.tier bs := by
      funext tier'
      refine batches_unique cursors (paired' tier') ?_
      by_cases same : tier' = b.tier
      · subst same
        rw [update_self, update_self]
        exact pairedLater
      · rw [update_of_ne same, update_of_ne same]
        exact paired tier'
    rw [same] at drains'
    exact ⟨range', drains'⟩

end Ack

theorem BackfillDrain.drainAll_mono {n m : Nat} (le : n ≤ m) (ran : d.drainAll n = some r) :
    d.drainAll m = some r := by
  induction n generalizing d m r with
  | zero => cases ran
  | succ n ih =>
    obtain ⟨m, rfl⟩ := Nat.exists_eq_add_of_le' (Nat.le_trans (Nat.le_add_left 1 n) le)
    unfold drainAll at ran ⊢
    cases first : d.nextBatch (n + 1) with
    | none =>
      rw [first] at ran
      cases ran
    | some q =>
      rw [first] at ran
      rw [nextBatch_mono le first]
      rcases q with e | ⟨_ | b, d'⟩
      · exact ran
      · exact ran
      · dsimp only at ran ⊢
        cases later : d'.drainAll n with
        | none =>
          rw [later] at ran
          cases ran
        | some q' =>
          rw [later] at ran
          rw [ih (by omega) later]
          exact ran

/-- What a whole drain returns is all the batches. -/
theorem Drains.drainAll_eq (drains : Drains d bs) (ran : d.drainAll fuel = some r) :
    r = .ok bs := by
  obtain ⟨enough, all⟩ := drains.drainAll
  have both := (BackfillDrain.drainAll_mono (Nat.le_max_left fuel enough) ran).symm.trans
    (all _ (Nat.le_max_right fuel enough))
  exact Option.some.inj both

/-! ## Stages -/

inductive Stage (F : Type) where
  | asked (pending : Nat) (oldest : Int64)
  | answered (decision : BackfillDecision)
  | sending (rate : UInt32) (deadline : Int64) (lastLen : Nat) (delay : Duration)
  | sent (rate : UInt32) (deadline : Int64) (lastLen : Nat) (tier : BackfillTier)
      (samples : List (BackfillSample F)) (cursor : Int64)
  | acked (rate : UInt32) (deadline : Int64) (lastLen : Nat) (tier : BackfillTier) (cursor : Int64)
  | quiet (retry : Option Duration)

omit [Float64 F] [NegInfinity F] in
/-- The connection at a stage: one message in flight or one armed timer. -/
def Stage.connection (cfg : BackfillConfig) (store : LocalStore F) (now : Int64) :
    Stage F → Connection F
  | .asked pending oldest =>
    ⟨⟨cfg, .awaitingGrant⟩, none, none, [.requestBackfillSlot pending oldest], [], store, now⟩
  | .answered decision => ⟨⟨cfg, .awaitingGrant⟩, none, none, [], [decision.answer], store, now⟩
  | .sending rate deadline lastLen delay =>
    ⟨⟨cfg, .draining rate deadline false lastLen⟩, some delay, none, [], [], store, now⟩
  | .sent rate deadline lastLen tier samples cursor =>
    ⟨⟨cfg, .draining rate deadline true lastLen⟩, none, none,
      [.metricBackfillBatch tier samples cursor], [], store, now⟩
  | .acked rate deadline lastLen tier cursor =>
    ⟨⟨cfg, .draining rate deadline true lastLen⟩, none, none, [], [.metricBackfillAck tier cursor],
      store, now⟩
  | .quiet retry => ⟨⟨cfg, .quiescent⟩, none, retry, [], [], store, now⟩

inductive Opens (cfg : BackfillConfig) (store : LocalStore F) (now : Int64) : Stage F → Prop where
  | asks {fuel pending : Nat} {oldest : Int64} :
      store.read (fun reader => pendingHint fuel reader now cfg backfillSeries store.cursors)
        = some (.ok (pending, oldest)) → pending ≠ 0 → Opens cfg store now (.asked pending oldest)
  | nothing {fuel : Nat} {oldest : Int64} :
      store.read (fun reader => pendingHint fuel reader now cfg backfillSeries store.cursors)
        = some (.ok (0, oldest)) → Opens cfg store now (.quiet none)
  | fails {fuel : Nat} {e : Stop} :
      store.read (fun reader => pendingHint fuel reader now cfg backfillSeries store.cursors)
        = some (.error e) → Opens cfg store now (.quiet none)

/-- What an event makes of a stage, when the server acks every batch. -/
inductive Next (cfg : BackfillConfig) (store : LocalStore F) (now : Int64) :
    Stage F → Event F → Stage F → LocalStore F → Int64 → Prop where
  | answer {pending : Nat} {oldest : Int64} {decision : BackfillDecision} :
      Next cfg store now (.asked pending oldest) (.slot decision) (.answered decision) store now
  | granted {rate : UInt32} {deadline : Int64} {jitter : Nat} {saves : Bool} :
      Next cfg store now (.answered (.grant rate deadline)) (.receive jitter saves)
        (.sending rate deadline 0 0) store now
  | deferred {retryAfter : UInt32} {jitter : Nat} {saves : Bool} {delay : Duration} :
      Next cfg store now (.answered (.deferred retryAfter)) (.receive jitter saves)
        (.quiet (some delay)) store now
  | draw {rate : UInt32} {deadline : Int64} {lastLen : Nat} {delay : Duration} {fuel : Nat}
      {b : PlannedBatch F} {d : BackfillDrain F} : now ≤ deadline →
      store.read (fun reader =>
        (BackfillDrain.new reader now cfg backfillSeries store.cursors).nextBatch fuel)
        = some (.ok (some b, d)) →
      Next cfg store now (.sending rate deadline lastLen delay) .sendDue
        (.sent rate deadline b.samples.length b.tier b.samples b.cursor) store now
  | drained {rate : UInt32} {deadline : Int64} {lastLen : Nat} {delay : Duration} {fuel : Nat}
      {d : BackfillDrain F} : now ≤ deadline →
      store.read (fun reader =>
        (BackfillDrain.new reader now cfg backfillSeries store.cursors).nextBatch fuel)
        = some (.ok (none, d)) →
      Next cfg store now (.sending rate deadline lastLen delay) .sendDue (.quiet none) store now
  | failed {rate : UInt32} {deadline : Int64} {lastLen : Nat} {delay : Duration} {fuel : Nat}
      {e : Stop} : now ≤ deadline →
      store.read (fun reader =>
        (BackfillDrain.new reader now cfg backfillSeries store.cursors).nextBatch fuel)
        = some (.error e) →
      Next cfg store now (.sending rate deadline lastLen delay) .sendDue (.quiet none) store now
  | expired {rate : UInt32} {deadline : Int64} {lastLen : Nat} {delay : Duration}
    {stage : Stage F} :
      deadline < now → Opens cfg store now stage →
      Next cfg store now (.sending rate deadline lastLen delay) .sendDue stage store now
  | ack {rate : UInt32} {deadline : Int64} {lastLen : Nat} {tier : BackfillTier}
      {samples : List (BackfillSample F)} {cursor : Int64} {conn : ServerConn} {payloadLen : Nat}
      {written : Bool} :
      Next cfg store now (.sent rate deadline lastLen tier samples cursor)
        (.batch conn payloadLen written) (.acked rate deadline lastLen tier cursor) store now
  | record {rate : UInt32} {deadline : Int64} {lastLen : Nat} {tier : BackfillTier} {cursor : Int64}
      {jitter : Nat} {saves : Bool} :
      Next cfg store now (.acked rate deadline lastLen tier cursor) (.receive jitter saves)
        (.sending rate deadline lastLen (paceDelay lastLen rate))
        (store.recordAck tier cursor saves) now
  | retry {delay : Duration} {stage : Stage F} : Opens cfg store now stage →
      Next cfg store now (.quiet (some delay)) .retryDue stage store now
  | world {stage : Stage F} {snapshot : Result (TierReader F)} {now' : Int64} : now ≤ now' →
      Next cfg store now stage (.world snapshot now') stage { store with snapshot := snapshot } now'

omit [Float64 F] [NegInfinity F] in
def Event.Answered : Event F → Prop
  | .batch conn payloadLen _ => conn.telemetry = true ∧ conn.backfill = true ∧ conn.tenant = true ∧
      payloadLen ≤ maxTelemetryPayloadBytes
  | _ => True

omit [Float64 F] [NegInfinity F] in
/-- No write of a batch fails. -/
def Event.Persisted : Event F → Prop
  | .batch _ _ written => written = true
  | _ => True

omit [Float64 F] [NegInfinity F] in
/-- A batch that is taken and written is acked. -/
theorem handle_acks {conn : ServerConn} {tier : BackfillTier} {samples : List (BackfillSample F)}
    {cursor : Int64} {payloadLen : Nat} (telemetry : conn.telemetry)
    (backfill : conn.backfill) (tenant : conn.tenant)
    (fits : payloadLen ≤ maxTelemetryPayloadBytes) :
    conn.handleMetricBackfillBatch tier samples cursor payloadLen true
      = some (.metricBackfillAck tier cursor) := by
  simp [ServerConn.handleMetricBackfillBatch, telemetry, backfill, tenant, Nat.not_lt.mpr fits]

variable {store : LocalStore F}

variable {now : Int64} {events : List (Event F)} {s₀ s : Connection F} {msg : Option (ToServer F)}
  {e : Event F}

/-- How a session starts. -/
theorem startSession_opens {bf bf' : BackfillCoordinator}
    (ran : bf.startSession fuel store now = some (msg, bf')) :
    ∃ stage, Opens bf.cfg store now stage ∧
      (⟨bf', none, none, msg.toList, [], store, now⟩ : Connection F)
      = stage.connection bf.cfg store now := by
  obtain ⟨r, read, is⟩ := Option.map_eq_some_iff.mp ran
  match r with
  | .error e =>
    cases is
    exact ⟨.quiet none, .fails read, rfl⟩
  | .ok (pending, oldest) =>
    dsimp only at is
    split at is
    next none =>
      cases is
      subst none
      exact ⟨.quiet none, .nothing read, rfl⟩
    next some =>
      cases is
      exact ⟨.asked pending oldest, .asks read some, rfl⟩

/-- What a timer does when it is due. -/
theorem nextBatch_next {cfg : BackfillConfig} {rate : UInt32} {deadline : Int64} {lastLen : Nat}
    {delay : Duration} {bf : BackfillCoordinator}
    (ran : nextBatch fuel ⟨cfg, .draining rate deadline false lastLen⟩ store now = some (msg, bf)) :
    ∃ stage, Next cfg store now (.sending rate deadline lastLen delay) .sendDue stage store now ∧
      (⟨bf, none, none, msg.toList, [], store, now⟩ : Connection F)
      = stage.connection cfg store now := by
  unfold nextBatch at ran
  simp only [Bool.false_eq_true, if_false] at ran
  split at ran
  next late =>
    obtain ⟨stage, opens, is⟩ := startSession_opens ran
    exact ⟨stage, .expired late opens, is⟩
  next early =>
    obtain ⟨r, read, is⟩ := Option.map_eq_some_iff.mp ran
    have inTime := Int64.not_lt.mp early
    match r with
    | .ok (some b, d) =>
      cases is
      exact ⟨_, .draw inTime read, rfl⟩
    | .ok (none, d) =>
      cases is
      exact ⟨_, .drained inTime read, rfl⟩
    | .error e =>
      cases is
      exact ⟨_, .failed inTime read, rfl⟩

/-- Each event leads from stage to stage. -/
theorem Connection.Step.next {cfg : BackfillConfig} {stage : Stage F}
    (step : Connection.Step (stage.connection cfg store now) e s) (answered : e.Answered)
    (persisted : e.Persisted) :
    ∃ stage' store' now', s = stage'.connection cfg store' now' ∧
      Next cfg store now stage e stage' store' now' := by
  generalize from_ : stage.connection cfg store now = t at step
  cases step with
  | @sendDue delay fuel msg bf armed ran =>
    subst from_
    cases stage with
    | sending rate deadline lastLen delay =>
      obtain ⟨stage, next, is⟩ := nextBatch_next ran
      exact ⟨stage, store, now, is, next⟩
    | _ => cases armed
  | @retryDue delay fuel msg bf armed ran =>
    subst from_
    cases stage with
    | quiet retry =>
      cases armed
      obtain ⟨stage, opens, is⟩ := startSession_opens ran
      exact ⟨stage, store, now, is, .retry opens⟩
    | _ => cases armed
  | @receive msg rest jitter saves waiting =>
    subst from_
    cases stage with
    | answered decision =>
      cases waiting
      cases decision with
      | grant rate deadline => exact ⟨_, _, _, rfl, .granted⟩
      | deferred retryAfter => exact ⟨_, _, _, rfl, .deferred⟩
    | acked rate deadline lastLen tier cursor =>
      cases waiting
      exact ⟨_, _, _, rfl, .record⟩
    | _ => cases waiting
  | @slot pending oldest rest decision waiting =>
    subst from_
    cases stage with
    | asked =>
      cases waiting
      exact ⟨_, _, _, rfl, .answer⟩
    | _ => cases waiting
  | @batch tier samples cursor rest conn payloadLen written waiting =>
    subst from_
    cases stage with
    | sent rate deadline lastLen tier samples cursor =>
      cases waiting
      obtain ⟨telemetry, backfill, tenant, fits⟩ := answered
      cases persisted
      rw [handle_acks telemetry backfill tenant fits]
      exact ⟨_, _, _, rfl, .ack⟩
    | _ => cases waiting
  | @world snapshot now' later =>
    subst from_
    refine ⟨stage, { store with snapshot := snapshot }, now', ?_, .world ?_⟩
    · cases stage <;> rfl
    · cases stage <;> exact later

/-! ## Never wedged -/

namespace Connection

/-- A drain of the store has a batch. -/
def Pending (s : Connection F) : Prop :=
  ∃ reader fuel b d, s.store.snapshot = .ok reader ∧
    (BackfillDrain.new reader s.now s.bf.cfg backfillSeries s.store.cursors).nextBatch fuel
      = some (.ok (some b, d))

/-- History is pending in the draining phase, and nothing is under way. -/
structure Wedged (s : Connection F) : Prop where
  pending : s.Pending
  draining : ∃ rate deadline awaitingAck lastLen,
    s.bf.phase = .draining rate deadline awaitingAck lastLen
  toServer : s.toServer = []
  toAgent : s.toAgent = []
  sendAt : s.sendAt = none
  retryAt : s.retryAt = none

/-- Every batch is taken, written and so acked. -/
def Acked (_ : Connection F) (e : Event F) : Prop := e.Answered ∧ e.Persisted

theorem Starts.opens (starts : Starts s) :
    ∃ stage, s = stage.connection s.bf.cfg s.store s.now ∧ Opens s.bf.cfg s.store s.now stage := by
  obtain ⟨ran⟩ := starts
  rename_i bf bf' store now fuel msg
  obtain ⟨stage, opens, is⟩ := startSession_opens ran
  have cfg : bf'.cfg = bf.cfg := by
    have both := congrArg (fun s : Connection F => s.bf.cfg) is
    cases stage <;> exact both
  exact ⟨stage, by rw [is, ← cfg]; cases stage <;> rfl, by simpa only [cfg] using opens⟩

theorem Run.mono {allowed allowed' : Connection F → Event F → Prop} (run : Run allowed s₀ events s)
    (more : ∀ s e, allowed s e → allowed' s e) : Run allowed' s₀ events s := by
  induction run with
  | nil => exact .nil s₀
  | snoc _ ok step ih => exact .snoc ih (more _ _ ok) step

/-- In a run whose batches are acked there is always a stage. -/
theorem Run.staged (starts : Starts s₀) (run : Run Acked s₀ events s) :
    ∃ (stage : Stage F) (cfg : BackfillConfig) (store : LocalStore F) (now : Int64),
      s = stage.connection cfg store now := by
  induction run with
  | nil =>
    obtain ⟨stage, is, -⟩ := starts.opens
    exact ⟨stage, _, _, _, is⟩
  | snoc _ acked step ih =>
    obtain ⟨stage, cfg, store, now, rfl⟩ := ih
    obtain ⟨stage', store', now', is, -⟩ := step.next acked.1 acked.2
    exact ⟨stage', cfg, store', now', is⟩

end Connection

theorem Stage.not_wedged (stage : Stage F) (cfg : BackfillConfig) (store : LocalStore F)
    (now : Int64) : ¬ (stage.connection cfg store now).Wedged := by
  intro wedged
  obtain ⟨rate, deadline, awaitingAck, lastLen, phase⟩ := wedged.draining
  cases stage with
  | asked | answered | quiet => cases phase
  | sending => cases wedged.sendAt
  | sent => cases wedged.toServer
  | acked => cases wedged.toAgent

/-! ## Drained in the end -/

structure AtRest (c : Content F) (left : List (PlannedBatch F)) (store : LocalStore F)
    (now : Int64) : Prop where
  snapshot : store.snapshot = .ok c.reader
  range : InRange now {} backfillSeries store.cursors
  drains : Drains (BackfillDrain.new c.reader now {} backfillSeries store.cursors) left

section Rest

variable {c : Content F} {left : List (PlannedBatch F)} {store : LocalStore F} {now : Int64}

/-- What the next batch is. -/
theorem AtRest.nextBatch_eq (rest : AtRest c left store now)
    {r : Result (Option (PlannedBatch F) × BackfillDrain F)} (ran : store.read (fun reader =>
      (BackfillDrain.new reader now {} backfillSeries store.cursors).nextBatch fuel) = some r) :
    ∃ d, r = .ok (left.head?, d) := by
  rw [LocalStore.read, rest.snapshot] at ran
  exact rest.drains.nextBatch_eq ran

/-- The batches of a drain all have samples. -/
theorem AtRest.samples_ne_nil (rest : AtRest c left store now) :
    ∀ b ∈ left, b.samples ≠ [] := by
  obtain ⟨out, batches, -, paired, drains⟩ := rest.range.drains c
  rw [rest.drains.unique drains]
  intro b mem none
  obtain ⟨tier, p, -, batch⟩ := exists_batchAt paired mem
  have newest := (rest.range.batchAt backfillSeries_known (by decide) batch).2.1
  rw [none] at newest
  cases newest

/-- A session asks while batches are left. -/
theorem AtRest.opens (rest : AtRest c left store now) {stage : Stage F}
    (opens : Opens {} store now stage) :
    (∃ pending oldest, stage = .asked pending oldest) ∨ (stage = .quiet none ∧ left = []) := by
  have hint {fuel : Nat} {r : Result (Nat × Int64)}
      (read : store.read (fun reader => pendingHint fuel reader now {} backfillSeries store.cursors)
        = some r) : r = .ok (hintOf left) := by
    rw [LocalStore.read, rest.snapshot] at read
    obtain ⟨drained, ran, rfl⟩ := Option.map_eq_some_iff.mp read
    rw [rest.drains.drainAll_eq ran]
    rfl
  cases opens with
  | asks => exact .inl ⟨_, _, rfl⟩
  | nothing read =>
    refine .inr ⟨rfl, ?_⟩
    have none : (hintOf left).1 = 0 := (congrArg Prod.fst (Except.ok.inj (hint read))).symm
    have empty := flatMap_eq_nil_iff.mp (length_eq_zero_iff.mp none)
    exact eq_nil_iff_forall_not_mem.mpr fun b mem => rest.samples_ne_nil b mem (empty b mem)
  | fails read => cases hint read

end Rest

/-- What is known at a stage of an undisturbed session. -/
def Stage.Holds (now : Int64) (left : List (PlannedBatch F)) : Stage F → Prop
  | .asked _ _ => True
  | .answered (.grant _ deadline) => now ≤ deadline
  | .answered (.deferred _) => True
  | .sending _ deadline _ _ => now ≤ deadline
  | .sent _ deadline _ tier _ cursor =>
    now ≤ deadline ∧ ∃ b ∈ left.head?, tier = b.tier ∧ cursor = b.cursor
  | .acked _ deadline _ tier cursor =>
    now ≤ deadline ∧ ∃ b ∈ left.head?, tier = b.tier ∧ cursor = b.cursor
  | .quiet none => left = []
  | .quiet (some _) => True

/-- How far an undisturbed session still has to go. -/
def Stage.rank (left : Nat) : Stage F → Nat
  | .asked _ _ => 3 * left + 3
  | .answered (.grant _ _) => 3 * left + 2
  | .answered (.deferred _) => 3 * left + 5
  | .sending _ _ _ _ => 3 * left + 1
  | .sent _ _ _ _ _ _ => 3 * left
  | .acked _ _ _ _ _ => 3 * left - 1
  | .quiet none => 0
  | .quiet (some _) => 3 * left + 4

/-- An event of an undisturbed session: batches are acked, watermarks saved, grants
last, and the store and the clock rest. -/
def Connection.Undisturbed (s : Connection F) (e : Event F) : Prop :=
  Connection.Acked s e ∧
    match e with
    | .world _ _ => False
    | .receive _ saves => saves = true
    | .slot (.grant _ deadline) => s.now ≤ deadline
    | _ => True

def Event.deferrals : Event F → Nat
  | .slot (.deferred _) => 1
  | _ => 0

section

variable {c : Content F} {left : List (PlannedBatch F)} {stage : Stage F}
  (rest : AtRest c left store now) (holds : stage.Holds now left)
include rest holds

/-- Each event brings an undisturbed session nearer to its end, but a deferral. -/
theorem AtRest.next {store' : LocalStore F} {now' : Int64} {stage' : Stage F}
    (next : Next {} store now stage e stage' store' now')
    (undisturbed : (stage.connection {} store now).Undisturbed e) :
    now' = now ∧ ∃ left', AtRest c left' store' now ∧ stage'.Holds now left' ∧
      stage'.rank left'.length + 1 ≤ stage.rank left.length + 3 * e.deferrals := by
  cases next with
  | @answer _ _ decision =>
    refine ⟨rfl, left, rest, ?_, ?_⟩
    · cases decision with
      | grant => exact undisturbed.2
      | deferred => trivial
    · cases decision with
      | grant | deferred => exact Nat.le_refl _
  | granted => exact ⟨rfl, left, rest, holds, Nat.le_refl _⟩
  | deferred => exact ⟨rfl, left, rest, trivial, Nat.le_refl _⟩
  | @draw _ _ _ _ _ b d inTime read =>
    obtain ⟨d', is⟩ := rest.nextBatch_eq read
    have first : left.head? = some b := (congrArg Prod.fst (Except.ok.inj is)).symm
    exact ⟨rfl, left, rest, ⟨inTime, b, first, rfl, rfl⟩, Nat.le_refl _⟩
  | @drained _ _ _ _ _ d inTime read =>
    obtain ⟨d', is⟩ := rest.nextBatch_eq read
    have none : left.head? = none := (congrArg Prod.fst (Except.ok.inj is)).symm
    exact ⟨rfl, left, rest, List.head?_eq_none_iff.mp none, Nat.le_add_left _ _⟩
  | failed _ read =>
    obtain ⟨d', is⟩ := rest.nextBatch_eq read
    cases is
  | expired late => exact absurd late (Int64.not_lt.mpr holds)
  | ack =>
    obtain ⟨inTime, b, first, same⟩ := holds
    refine ⟨rfl, left, rest, ⟨inTime, b, first, same⟩, ?_⟩
    cases left with
    | nil => cases first
    | cons _ left =>
      simp only [Stage.rank, length_cons]
      omega
  | record =>
    obtain ⟨inTime, b, first, rfl, rfl⟩ := holds
    cases left with
    | nil => cases first
    | cons _ left =>
      cases first
      obtain ⟨-, saved⟩ := undisturbed
      cases saved
      obtain ⟨range, drains⟩ := rest.range.drains_ack rest.drains
      refine ⟨rfl, left, ⟨rest.snapshot, range, drains⟩, inTime, ?_⟩
      simp only [Stage.rank, length_cons]
      omega
  | retry opens =>
    rcases rest.opens opens with ⟨pending, oldest, rfl⟩ | ⟨rfl, none⟩
    · exact ⟨rfl, left, rest, trivial, Nat.le_refl _⟩
    · exact ⟨rfl, left, rest, none, Nat.le_add_left _ _⟩
  | world => exact undisturbed.2.elim

/-- A session that is not at its end goes on. -/
theorem AtRest.progress (more : stage ≠ .quiet none) :
    ∃ e s, (stage.connection {} store now).Undisturbed e ∧
      Connection.Step (stage.connection {} store now) e s := by
  have acked {e : Event F} (answered : e.Answered) (persisted : e.Persisted) :
      Connection.Acked (stage.connection {} store now) e := ⟨answered, persisted⟩
  cases stage with
  | asked => exact ⟨.slot (.deferred 0), _, ⟨acked trivial trivial, trivial⟩, .slot rfl⟩
  | answered | acked => exact ⟨.receive 0 true, _, ⟨acked trivial trivial, rfl⟩, .receive rfl⟩
  | sending rate deadline lastLen delay =>
    obtain ⟨r, fuel, ran⟩ : ∃ r fuel, store.read (fun reader =>
      (BackfillDrain.new reader now {} backfillSeries store.cursors).nextBatch fuel) = some r := by
      simp only [LocalStore.read, rest.snapshot]
      rcases rest.drains.nextBatch with ⟨-, d, fuel, ends⟩ | ⟨b, later, d, -, -, fuel, yields⟩
      · exact ⟨_, fuel, ends fuel (Nat.le_refl _)⟩
      · exact ⟨_, fuel, yields fuel (Nat.le_refl _)⟩
    have due : ∃ out, nextBatch fuel ⟨{}, .draining rate deadline false lastLen⟩
        store now = some out := by
      unfold nextBatch
      simp only [Bool.false_eq_true, if_false, if_neg (Int64.not_lt.mpr holds), ran]
      exact ⟨_, rfl⟩
    obtain ⟨⟨msg, bf⟩, due⟩ := due
    exact ⟨.sendDue, _, ⟨acked trivial trivial, trivial⟩, .sendDue rfl due⟩
  | sent =>
    exact ⟨.batch ⟨true, true, true, 0⟩ 0 true, _,
      ⟨acked ⟨rfl, rfl, rfl, Nat.zero_le _⟩ rfl, trivial⟩, .batch rfl⟩
  | quiet retry =>
    cases retry with
    | none => exact absurd rfl more
    | some delay =>
      obtain ⟨fuel, all⟩ := rest.drains.drainAll
      have due : ∃ out, startSession fuel ⟨{}, .quiescent⟩ store now = some out := by
        unfold startSession LocalStore.read pendingHint
        simp only [rest.snapshot, all fuel (Nat.le_refl _)]
        exact ⟨_, rfl⟩
      obtain ⟨⟨msg, bf⟩, due⟩ := due
      exact ⟨.retryDue, _, ⟨acked trivial trivial, trivial⟩, .retryDue rfl due⟩

end

namespace Connection

/-- The runs of an undisturbed session. -/
theorem Run.atRest {c : Content F} {batches : List (PlannedBatch F)} (starts : Starts s₀)
    (cfg : s₀.bf.cfg = {}) (rest : AtRest c batches s₀.store s₀.now)
    (run : Run Undisturbed s₀ events s) :
    ∃ stage left, s = Stage.connection {} s.store s₀.now stage ∧ AtRest c left s.store s₀.now ∧
      stage.Holds s₀.now left ∧
      stage.rank left.length + events.length
        ≤ 3 * batches.length + 3 + 3 * (events.map Event.deferrals).sum := by
  induction run with
  | nil =>
    obtain ⟨stage, is, opens⟩ := starts.opens
    rw [cfg] at is opens
    rcases rest.opens opens with ⟨pending, oldest, rfl⟩ | ⟨rfl, none⟩
    · exact ⟨_, batches, is, rest, trivial, Nat.le_refl _⟩
    · exact ⟨_, batches, is, rest, none, Nat.zero_le _⟩
  | @snoc t u events e _ undisturbed step ih =>
    obtain ⟨stage, left, is, rest', holds, bound⟩ := ih
    generalize t.store = store at is rest'
    subst is
    obtain ⟨stage', store', now', rfl, next⟩ := step.next undisturbed.1.1 undisturbed.1.2
    obtain ⟨rfl, left', rest'', holds', nearer⟩ := rest'.next holds next undisturbed
    have storeIs : (Stage.connection {} store' s₀.now stage').store = store' := by
      cases stage' <;> rfl
    rw [storeIs]
    refine ⟨stage', left', rfl, rest'', holds', ?_⟩
    rw [length_append, map_append, sum_append, length_singleton,
      map_singleton, sum_singleton]
    omega

/-- When every batch is acked, a connection is never wedged: history pending, in the
draining phase, and nothing under way.  An undisturbed session on a store at rest is
over after three events a batch and three a deferral, and then no batch is left. -/
theorem replay_never_wedges {s₀ s : Connection F} {events : List (Event F)} (starts : Starts s₀)
    (run : Run Acked s₀ events s) :
    ¬ s.Wedged ∧
      ∀ (c : Content F) (batches : List (PlannedBatch F)), s₀.bf.cfg = {} →
        AtRest c batches s₀.store s₀.now → Run Undisturbed s₀ events s →
        events.length ≤ 3 * batches.length + 3 + 3 * (events.map Event.deferrals).sum ∧
        ((∀ e s', s.Undisturbed e → ¬ Step s e s') → AtRest c [] s.store s.now) := by
  constructor
  · obtain ⟨stage, cfg, store, now, rfl⟩ := run.staged starts
    exact stage.not_wedged cfg store now
  · intro c batches cfg rest undisturbed
    obtain ⟨stage, left, is, rest', holds, bound⟩ := undisturbed.atRest starts cfg rest
    refine ⟨by omega, fun stuck => ?_⟩
    have ended : stage = .quiet none := by
      by_contra more
      obtain ⟨e, s', undisturbed, step⟩ := rest'.progress holds more
      rw [← is] at undisturbed step
      exact stuck e s' undisturbed step
    subst ended
    have nowIs : s.now = s₀.now := by
      rw [is]
      rfl
    rw [nowIs]
    exact holds ▸ rest'

/-! ## A batch and its ack -/

def oneSample : LocalStore Int64 := ⟨.ok (oneMinute 8591980 6000000 (by decide)).reader, {}⟩

/-- A session asks for its slot, is granted it and sends the batch. -/
theorem exists_sent :
    ∃ s₀ : Connection Int64, Starts s₀ ∧ ∃ events : List (Event Int64), events.length = 3 ∧
      Run Acked s₀ events
      ((Stage.sent 500 8592060 2 .recent60s (cpuBatch .recent60s 8591940).samples
        8591940).connection {} oneSample 8592000) := by
  have range : InRange 8592000 {} backfillSeries oneSample.cursors := by decide +kernel
  obtain ⟨out, batches, -, -, drains⟩ := range.drains (oneMinute 8591980 6000000 (by decide))
  have rest : AtRest (oneMinute 8591980 6000000 (by decide)) _ oneSample 8592000 :=
    ⟨rfl, range, drains⟩
  obtain ⟨d, first⟩ := exists_nextBatch (BackfillDrain.new
    (oneMinute 8591980 6000000 (by decide)).reader 8592000 {} backfillSeries {}) 100
    (cpuBatch .recent60s 8591940) (by decide +kernel)
  -- the session asks, since there is a batch
  obtain ⟨fuel, all⟩ := drains.drainAll
  obtain ⟨⟨msg, bf⟩, started⟩ : ∃ o, startSession fuel {} oneSample 8592000 = some o := by
    unfold startSession LocalStore.read pendingHint
    simp only [rest.snapshot, all fuel (Nat.le_refl _)]
    exact ⟨_, rfl⟩
  obtain ⟨stage, opens, is⟩ := startSession_opens started
  have starts := Starts.mk started
  rw [is] at starts
  rcases rest.opens opens with ⟨pending, oldest, rfl⟩ | ⟨-, none⟩
  · refine ⟨_, starts, [.slot (.grant 500 8592060), .receive 0 true, .sendDue], rfl, ?_⟩
    have none : Run Acked ((Stage.asked pending oldest).connection {} oneSample 8592000) [] _ :=
      .nil _
    have granted := none.snoc (e := .slot (.grant 500 8592060)) ⟨trivial, trivial⟩ (.slot rfl)
    have taken := granted.snoc (e := .receive 0 true) ⟨trivial, trivial⟩ (.receive rfl)
    refine taken.snoc (e := .sendDue) ⟨trivial, trivial⟩ (@Step.sendDue _ _ _ _ 0 100
      (some (.metricBackfillBatch .recent60s (cpuBatch .recent60s 8591940).samples 8591940))
      ⟨{}, .draining 500 8592060 true 2⟩ rfl ?_)
    show nextBatch 100 ⟨{}, .draining 500 8592060 false 0⟩ oneSample 8592000 = _
    unfold nextBatch LocalStore.read
    have early : ¬ (8592000 : Int64) > 8592060 := by decide
    simp only [Bool.false_eq_true, if_false, if_neg early, rest.snapshot]
    rw [show oneSample.cursors = {} from rfl, first]
    rfl
  · obtain ⟨d', is⟩ := drains.nextBatch_eq first
    rw [none] at is
    cases is

/-- The batch is written and acked, and the ack recorded. -/
theorem replay_never_wedges_acked :
    ∃ (s₀ s : Connection Int64) (events : List (Event Int64)), Starts s₀ ∧ Run Acked s₀ events s ∧
      events.length = 5 ∧ s.store.cursors = { recent60s := some 8591940 } ∧ ¬ s.Wedged := by
  obtain ⟨s₀, starts, events, three, sent⟩ := exists_sent
  have acked := sent.snoc (e := .batch ⟨true, true, true, 8592000⟩ 0 true)
    ⟨⟨rfl, rfl, rfl, by decide⟩, rfl⟩ (.batch rfl)
  have recorded := acked.snoc (e := .receive 0 true) ⟨trivial, trivial⟩ (.receive rfl)
  exact ⟨s₀, _, _, starts, recorded, by simp [three], rfl, (replay_never_wedges starts recorded).1⟩

/-- One failed write leaves the session without a message or a timer, and nothing but
the store and the clock moves any more. -/
theorem failed_persist_wedges :
    ∃ (s₀ s : Connection Int64) (events : List (Event Int64)), Starts s₀ ∧
      Run (fun _ e => e.Answered) s₀ events s ∧ events.length = 4 ∧ s.Wedged ∧
      ∀ e s', Step s e s' → ∃ snapshot now, e = .world snapshot now := by
  obtain ⟨s₀, starts, events, three, sent⟩ := exists_sent
  have answered : Run (fun _ e => e.Answered) s₀ events _ := sent.mono fun _ _ acked => acked.1
  have failed := answered.snoc (e := .batch ⟨true, true, true, 8592000⟩ 0 false)
    ⟨rfl, rfl, rfl, by decide⟩ (.batch rfl)
  have silent : ServerConn.handleMetricBackfillBatch ⟨true, true, true, 8592000⟩ .recent60s
      (cpuBatch .recent60s 8591940).samples 8591940 0 false = none := by decide
  obtain ⟨d, first⟩ := exists_nextBatch (BackfillDrain.new
    (oneMinute 8591980 6000000 (by decide)).reader 8592000 {} backfillSeries {}) 100
    (cpuBatch .recent60s 8591940) (by decide +kernel)
  refine ⟨s₀, _, _, starts, failed, by simp [three],
    ⟨⟨_, 100, _, d, rfl, first⟩, ⟨500, 8592060, true, 2, rfl⟩, rfl, rfl, rfl, rfl⟩, ?_⟩
  intro e s' step
  cases step with
  | sendDue armed | retryDue armed => cases armed
  | receive waiting | slot waiting | batch waiting => cases waiting
  | world => exact ⟨_, _, rfl⟩

end Connection

end OpenGate.Backfill
