import OpenGate.Backfill.Drain

/-!
# The coordinator and its connection

`backfill_loop.rs` drives the drain over one control stream: it asks for a slot,
sends one batch at a time under a grant and records what the server acked.
`control_loop.rs` keeps the two timers, and the server answers in
`agentapi/conn_backfill.go`.  A connection holds all of it with the messages in
flight, and every event changes it in one step.  Delays are exact seconds; when an
armed timer is due is left open.
-/

namespace OpenGate.Backfill

open OpenGate.Tsdb

/-! ## Messages -/

inductive ToServer (F : Type) where
  | requestBackfillSlot (pendingSamples : Nat) (oldestTs : Int64)
  | metricBackfillBatch (tier : BackfillTier) (samples : List (BackfillSample F)) (cursor : Int64)
  deriving DecidableEq

inductive ToAgent where
  | grantBackfill (rate : UInt32) (deadline : Int64)
  | deferBackfill (retryAfter : UInt32)
  | metricBackfillAck (tier : BackfillTier) (cursor : Int64)
  deriving DecidableEq

/-- Seconds. -/
abbrev Duration := Rat

/-! ## The store -/

def BackfillCursors.set (cursors : BackfillCursors) (tier : BackfillTier) (cursor : Int64) :
    BackfillCursors :=
  match tier with
  | .recent60s => { cursors with recent60s := some cursor }
  | .rollup1m => { cursors with rollup1m := some cursor }
  | .rollup1h => { cursors with rollup1h := some cursor }

/-- What the coordinator sees of the local store: a snapshot, which may fail, and the
persisted watermarks. -/
structure LocalStore (F : Type) where
  snapshot : Result (TierReader F)
  cursors : BackfillCursors

/-- `record_ack`; a save that fails leaves the watermark. -/
def LocalStore.recordAck {F : Type} (store : LocalStore F) (tier : BackfillTier) (cursor : Int64)
    (saves : Bool) : LocalStore F :=
  if saves then { store with cursors := store.cursors.set tier cursor } else store

def LocalStore.read {F α : Type} (store : LocalStore F) (f : TierReader F → Option (Result α)) :
    Option (Result α) :=
  match store.snapshot with
  | .error e => some (.error e)
  | .ok reader => f reader

section Hint

variable {F : Type}

/-- The number of samples and their oldest timestamp, zero without samples. -/
def hintOf (batches : List (PlannedBatch F)) : Nat × Int64 :=
  let samples := batches.flatMap PlannedBatch.samples
  (samples.length, if samples.length = 0 then 0
    else samples.foldl (fun oldest s => min oldest s.ts) Int64.maxValue)

/-- The pending sample count and oldest pending timestamp, from a throwaway drain. -/
def pendingHint [Float64 F] [NegInfinity F] (fuel : Nat) (reader : TierReader F) (now : Int64)
    (cfg : BackfillConfig) (series : List SeriesId) (cursors : BackfillCursors) :
    Option (Result (Nat × Int64)) :=
  ((BackfillDrain.new reader now cfg series cursors).drainAll fuel).map fun drained =>
    drained.map hintOf

end Hint

def paceDelay (sampleCount : Nat) (rate : UInt32) : Duration :=
  if rate = 0 ∨ sampleCount = 0 then 0 else sampleCount / rate.toNat

/-! ## The coordinator -/

/-- Where a coordinator is in the request, grant, drain lifecycle. -/
inductive CoordinatorPhase where
  | idle
  | awaitingGrant
  | draining (rate : UInt32) (deadline : Int64) (awaitingAck : Bool) (lastLen : Nat)
  | quiescent
  deriving DecidableEq

structure BackfillCoordinator where
  cfg : BackfillConfig := {}
  phase : CoordinatorPhase := .idle
  deriving DecidableEq

namespace BackfillCoordinator

def onGrant (bf : BackfillCoordinator) (rate : UInt32) (deadline : Int64) : BackfillCoordinator :=
  { bf with phase := .draining rate deadline false 0 }

/-- Goes quiescent; the delay is three quarters of the base and a jitter of up to half
of it. -/
def onDefer (bf : BackfillCoordinator) (retryAfter : UInt32) (jitter : Nat) :
    Duration × BackfillCoordinator :=
  let base := max retryAfter.toNat 1
  ((base - base / 4 + min jitter (max (base / 2) 1) : Nat), { bf with phase := .quiescent })

variable {F : Type}

/-- Advances the watermark and frees the drain for the next batch; an ack outside the
draining phase is ignored. -/
def onAck (bf : BackfillCoordinator) (store : LocalStore F) (tier : BackfillTier) (cursor : Int64)
    (saves : Bool) : Duration × BackfillCoordinator × LocalStore F :=
  match bf.phase with
  | .draining rate deadline _ lastLen =>
    (paceDelay lastLen rate, { bf with phase := .draining rate deadline false lastLen },
      store.recordAck tier cursor saves)
  | _ => (0, bf, store)

variable [Float64 F] [NegInfinity F]

/-- Begins a backfill cycle: the slot request to send, or nothing when no history is
pending. -/
def startSession (fuel : Nat) (bf : BackfillCoordinator) (store : LocalStore F) (now : Int64) :
    Option (Option (ToServer F) × BackfillCoordinator) :=
  (store.read fun reader => pendingHint fuel reader now bf.cfg backfillSeries store.cursors).map fun
    | .error _ => (none, { bf with phase := .quiescent })
    | .ok (pending, oldest) =>
      if pending = 0 then (none, { bf with phase := .quiescent })
      else (some (.requestBackfillSlot pending oldest), { bf with phase := .awaitingGrant })

/-- The next batch while draining, one at a time; a grant past its deadline asks for a
fresh slot. -/
def nextBatch (fuel : Nat) (bf : BackfillCoordinator) (store : LocalStore F) (now : Int64) :
    Option (Option (ToServer F) × BackfillCoordinator) :=
  match bf.phase with
  | .draining rate deadline awaitingAck _ =>
    if awaitingAck then some (none, bf)
    else if now > deadline then startSession fuel bf store now
    else
      (store.read fun reader =>
        (BackfillDrain.new reader now bf.cfg backfillSeries store.cursors).nextBatch fuel).map fun
        | .ok (some batch, _) =>
          (some (.metricBackfillBatch batch.tier batch.samples batch.cursor),
            { bf with phase := .draining rate deadline true batch.samples.length })
        | .ok (none, _) => (none, { bf with phase := .quiescent })
        | .error _ => (none, { bf with phase := .quiescent })
  | _ => some (none, bf)

end BackfillCoordinator

/-! ## The server -/

structure ServerConn where
  telemetry : Bool
  backfill : Bool
  tenant : Bool
  now : Int64

def maxTelemetryPayloadBytes : Nat := 64 * 1024

def backfillRetentionSecs : Int64 := 90 * 24 * 3600

def backfillFutureSkewSecs : Int64 := 3600

/-- Every dimension an agent may write to central metrics. -/
def vitalDims : List String :=
  ["cpu.total", "cpu.total.max", "mem.used_percent", "mem.used_percent.max", "disk.used_percent",
    "net.rx_bps", "net.rx_bps.max", "net.tx_bps", "net.tx_bps.max", "disk.mounts_critical",
    "stall.cpu.some", "stall.mem.some", "stall.mem.full", "stall.io.some", "stall.io.full",
    "disk.await_ms", "disk.await_ms.max", "disk.queue_depth"]

def ServerConn.kept {F : Type} (conn : ServerConn) (samples : List (BackfillSample F)) :
    List (BackfillSample F) :=
  samples.filter fun s =>
    ¬ (s.ts < conn.now - backfillRetentionSecs ∨ s.ts > conn.now + backfillFutureSkewSecs) ∧
      s.name ∈ vitalDims

/-- Persists the samples and acks; a failed write leaves the batch without an ack. -/
def ServerConn.handleMetricBackfillBatch {F : Type} (conn : ServerConn) (tier : BackfillTier)
    (samples : List (BackfillSample F)) (cursor : Int64) (payloadLen : Nat) (written : Bool) :
    Option ToAgent :=
  if conn.telemetry = false then none
  else if payloadLen > maxTelemetryPayloadBytes then none
  else if conn.backfill = false then none
  else if conn.tenant = false then none
  else if conn.kept samples ≠ [] ∧ written = false then none
  else some (.metricBackfillAck tier cursor)

inductive BackfillDecision where
  | grant (rate : UInt32) (deadline : Int64)
  | deferred (retryAfter : UInt32)

def BackfillDecision.answer : BackfillDecision → ToAgent
  | .grant rate deadline => .grantBackfill rate deadline
  | .deferred retryAfter => .deferBackfill retryAfter

/-! ## The connection -/

/-- One connection: the coordinator, the two timers with the delay they were armed
with, the messages in flight, and the store and clock of the agent. -/
structure Connection (F : Type) where
  bf : BackfillCoordinator
  sendAt : Option Duration
  retryAt : Option Duration
  toServer : List (ToServer F)
  toAgent : List ToAgent
  store : LocalStore F
  now : Int64

inductive Event (F : Type) where
  | sendDue
  | retryDue
  /-- The agent takes the next message. -/
  | receive (jitter : Nat) (saves : Bool)
  | slot (decision : BackfillDecision)
  | batch (conn : ServerConn) (payloadLen : Nat) (written : Bool)
  /-- The agent's clock goes on, and its store changes. -/
  | world (snapshot : Result (TierReader F)) (now : Int64)

namespace Connection

variable {F : Type}

def dispatchBackfill (s : Connection F) (msg : ToAgent) (jitter : Nat) (saves : Bool) :
    Connection F :=
  match msg with
  | .grantBackfill rate deadline => { s with bf := s.bf.onGrant rate deadline, sendAt := some 0 }
  | .deferBackfill retryAfter =>
    let (delay, bf) := s.bf.onDefer retryAfter jitter
    { s with bf := bf, retryAt := some delay }
  | .metricBackfillAck tier cursor =>
    let (delay, bf, store) := s.bf.onAck s.store tier cursor saves
    { s with bf := bf, store := store, sendAt := some delay }

variable [Float64 F] [NegInfinity F]

inductive Step : Connection F → Event F → Connection F → Prop where
  | sendDue {s : Connection F} {delay : Duration} {fuel : Nat} {msg : Option (ToServer F)}
      {bf : BackfillCoordinator} : s.sendAt = some delay →
      s.bf.nextBatch fuel s.store s.now = some (msg, bf) →
      Step s .sendDue { s with sendAt := none, bf := bf, toServer := s.toServer ++ msg.toList }
  | retryDue {s : Connection F} {delay : Duration} {fuel : Nat} {msg : Option (ToServer F)}
      {bf : BackfillCoordinator} : s.retryAt = some delay →
      s.bf.startSession fuel s.store s.now = some (msg, bf) →
      Step s .retryDue { s with retryAt := none, bf := bf, toServer := s.toServer ++ msg.toList }
  | receive {s : Connection F} {msg : ToAgent} {rest : List ToAgent} {jitter : Nat} {saves : Bool} :
      s.toAgent = msg :: rest →
      Step s (.receive jitter saves) ({ s with toAgent := rest }.dispatchBackfill msg jitter saves)
  | slot {s : Connection F} {pending : Nat} {oldest : Int64} {rest : List (ToServer F)}
      {decision : BackfillDecision} : s.toServer = .requestBackfillSlot pending oldest :: rest →
      Step s (.slot decision) { s with toServer := rest, toAgent := s.toAgent ++ [decision.answer] }
  | batch {s : Connection F} {tier : BackfillTier} {samples : List (BackfillSample F)}
    {cursor : Int64}
      {rest : List (ToServer F)} {conn : ServerConn} {payloadLen : Nat} {written : Bool} :
      s.toServer = .metricBackfillBatch tier samples cursor :: rest →
      Step s (.batch conn payloadLen written)
        { s with
          toServer := rest
          toAgent := s.toAgent ++
            (conn.handleMetricBackfillBatch tier samples cursor payloadLen written).toList }
  | world {s : Connection F} {snapshot : Result (TierReader F)} {now : Int64} : s.now ≤ now →
      Step s (.world snapshot now)
      { s with store := { s.store with snapshot := snapshot }, now := now }

inductive Starts : Connection F → Prop where
  | mk {bf bf' : BackfillCoordinator} {store : LocalStore F} {now : Int64} {fuel : Nat}
      {msg : Option (ToServer F)} : bf.startSession fuel store now = some (msg, bf') →
      Starts ⟨bf', none, none, msg.toList, [], store, now⟩

inductive Run (allowed : Connection F → Event F → Prop) : Connection F → List (Event F) →
    Connection F → Prop where
  | nil (s : Connection F) : Run allowed s [] s
  | snoc {s t u : Connection F} {events : List (Event F)} {e : Event F} : Run allowed s events t →
      allowed t e → Step t e u → Run allowed s (events ++ [e]) u

end Connection

end OpenGate.Backfill
