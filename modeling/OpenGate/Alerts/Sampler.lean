import OpenGate.Alerts.Evaluator

/-!
# The sampler's tick

`edge_sentinel/tick.rs` with the emission tests of `edge_sentinel/mod.rs`: what the
sampler does with one second, and the mailbox in which the control loop leaves a pushed
ruleset for it.  The anomaly ensemble is given (`Ensemble`).
-/

namespace OpenGate.Alerts

open OpenGate.Lib OpenGate.Tsdb

/-- The anomaly ensemble: `train_staggered` on warm-up features, and its verdict. -/
structure Ensemble (M S : Type) where
  train : List S → Option M
  isAnomaly : M → S → Bool

structure MetricSample (F S : Type) where
  features : S
  readings : DimReadings F

structure AlertBreach (F : Type) where
  ruleId : String
  metric : String
  value : F

/-- The two kinds of `AgentHealthSummary` the sampler sends. -/
inductive HealthSummary (F : Type) where
  | breach (ts : Int64) (breaches : List (AlertBreach F)) (coverage : List RuleCoverage)
  | anomaly (ts : Int64) (rate : F) (bitmask : List UInt8) (coverage : List RuleCoverage)

structure SamplerState (F M S : Type) where
  warmup : List S
  ensemble : Option M
  alertEval : AlertEvaluator F
  lastHealthEmit : Option Int64
  lastBreaching : Bool
  anomalyBits : List Bool
  lastAnomalyEmit : Option Int64
  /-- The state `MaintenanceTransition` tracks. -/
  wasInMaintenance : Bool

def warmupSamples : Nat := 30

def anomalyWindow : Nat := 64

def anomalyEmitIntervalSecs : Int64 := 60

def healthEmitIntervalSecs : Int64 := 15

def shouldEmitAnomaly (lastEmit : Option Int64) (now : Int64) : Bool :=
  lastEmit.all fun last => decide (anomalyEmitIntervalSecs ≤ saturatingSub now last)

/-- Whether a health summary is due: while breaching and once more on clearing. -/
def shouldEmitHealth (lastEmit : Option Int64) (now : Int64) (breaching lastBreaching : Bool) :
    Bool :=
  let due := match lastEmit with
    | none => breaching
    | some last => decide (healthEmitIntervalSecs ≤ saturatingSub now last)
  due && (breaching || lastBreaching)

/-- The verdicts packed into bytes, oldest first and the most significant bit first. -/
def packBitmask (bits : List Bool) : List UInt8 :=
  (bits.toChunks 8).map fun chunk =>
    UInt8.ofNat ((chunk ++ List.replicate (8 - chunk.length) false).foldl
      (fun byte bit => 2 * byte + bit.toNat) 0)

def AlertEvaluator.install {F : Type} [RuleFloat F] (evaluator : AlertEvaluator F) :
    Option (List (ThresholdRule F)) → AlertEvaluator F
  | some rules => evaluator.setRules rules
  | none => evaluator

namespace SamplerState

variable {F M S : Type}

def new : SamplerState F M S := ⟨[], none, .new [], none, false, [], none, false⟩

/-- Whether this tick samples; leaving maintenance discards the trained ensemble and what
was last emitted. -/
def beginTick (state : SamplerState F M S) (inMaintenance : Bool) : SamplerState F M S × Bool :=
  let exited := state.wasInMaintenance && !inMaintenance
  let state := { state with wasInMaintenance := inMaintenance }
  let state :=
    if exited then
      { state with
        ensemble := none, warmup := [], lastHealthEmit := none, lastBreaching := false,
        anomalyBits := [], lastAnomalyEmit := none }
    else state
  (state, !inMaintenance)

/-- The ensemble's verdict on this reading; a warm-up reading yields false. -/
def classify (state : SamplerState F M S) (ml : Ensemble M S) (features : S) :
    SamplerState F M S :=
  match state.ensemble with
  | none =>
    let warmup := state.warmup ++ [features]
    if warmup.length < warmupSamples then { state with warmup }
    else { state with warmup, ensemble := ml.train warmup }
  | some model =>
    let bits := if state.anomalyBits.length = anomalyWindow then state.anomalyBits.drop 1
      else state.anomalyBits
    { state with anomalyBits := bits ++ [ml.isAnomaly model features] }

variable [RuleFloat F]

def windowAnomalyRate (bits : List Bool) : F :=
  if bits.isEmpty then Float64.zero
  else Float64.div (Float64.ofU64 (UInt64.ofNat (bits.count true)))
    (Float64.ofU64 (UInt64.ofNat bits.length))

/-- Installs a pushed ruleset, evaluates, and emits a throttled breach summary while
breaching plus one reporting the clear. -/
def evaluateRules (state : SamplerState F M S) (pushed : Option (List (ThresholdRule F)))
    (eventCoverage : List RuleCoverage) (readings : DimReadings F) (now : Int64) :
    SamplerState F M S × List (Firing F) × Option (HealthSummary F) :=
  let evaluated := (state.alertEval.install pushed).evaluateReadings readings now
  let firing := evaluated.2
  let breaching := !firing.isEmpty
  let state := { state with alertEval := evaluated.1 }
  if shouldEmitHealth state.lastHealthEmit now breaching state.lastBreaching then
    ({ state with lastHealthEmit := some now, lastBreaching := breaching }, firing,
      some (.breach now (firing.map fun f => ⟨f.ruleId, f.metric, f.value⟩)
        (evaluated.1.coverage ++ eventCoverage)))
  else (state, firing, none)

def emitAnomalyRate (state : SamplerState F M S) (eventCoverage : List RuleCoverage)
    (now : Int64) : SamplerState F M S × Option (HealthSummary F) :=
  if state.ensemble.isNone || !shouldEmitAnomaly state.lastAnomalyEmit now then (state, none)
  else
    ({ state with lastAnomalyEmit := some now },
      some (.anomaly now (windowAnomalyRate state.anomalyBits) (packBitmask state.anomalyBits)
        (state.alertEval.coverage ++ eventCoverage)))

end SamplerState

/-! ## The sampler and its mailbox -/

/-- The sampler task and the slot the control loop fills with a pushed ruleset. -/
structure Sentinel (F M S : Type) where
  sampler : SamplerState F M S
  mailbox : Option (List (ThresholdRule F))

/-- What happens to the sampler: a ruleset arrives, or a second passes.  In a second
outside maintenance the host is sampled, which may fail. -/
inductive SentinelEvent (F S : Type) where
  | push (rules : List (ThresholdRule F))
  | tick (inMaintenance : Bool) (sample : Option (MetricSample F S))
      (eventCoverage : List RuleCoverage) (now : Int64)

def SentinelEvent.reading {F S : Type} : SentinelEvent F S → Option (DimReadings F × Int64)
  | .tick false (some sample) _ now => some (sample.readings, now)
  | _ => none

structure TickOutput (F : Type) where
  rules : List (ThresholdRule F)
  firings : List (Firing F)
  summaries : List (HealthSummary F)

namespace Sentinel

variable {F M S : Type}

def new : Sentinel F M S := ⟨.new, none⟩

variable [RuleFloat F]

def onSample (s : Sentinel F M S) (ml : Ensemble M S) (sample : MetricSample F S)
    (eventCoverage : List RuleCoverage) (now : Int64) : Sentinel F M S × TickOutput F :=
  let classified := s.sampler.classify ml sample.features
  let (evaluated, firings, breach) :=
    classified.evaluateRules s.mailbox eventCoverage sample.readings now
  let (state, anomaly) := evaluated.emitAnomalyRate eventCoverage now
  (⟨state, none⟩,
    ⟨evaluated.alertEval.entries.map (·.rule), firings, breach.toList ++ anomaly.toList⟩)

def step (ml : Ensemble M S) (s : Sentinel F M S) :
    SentinelEvent F S → Sentinel F M S × Option (TickOutput F)
  | .push rules => ({ s with mailbox := some rules }, none)
  | .tick inMaintenance sample eventCoverage now =>
    let (sampler, active) := s.sampler.beginTick inMaintenance
    let s := { s with sampler }
    match active, sample with
    | true, some sample =>
      let (s, output) := s.onSample ml sample eventCoverage now
      (s, some output)
    | _, _ => (s, none)

/-- A run: where it ends, and what its sampled seconds put out. -/
def run (ml : Ensemble M S) (s : Sentinel F M S) :
    List (SentinelEvent F S) → Sentinel F M S × List (TickOutput F)
  | [] => (s, [])
  | event :: events =>
    let stepped := s.step ml event
    let rest := run ml stepped.1 events
    (rest.1, stepped.2.toList ++ rest.2)

end Sentinel

end OpenGate.Alerts
