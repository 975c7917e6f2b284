import OpenGate.Alerts.Evaluator
import OpenGate.Alerts.Sink

/-!
# Re-running a rule over stored history

`alerts/retro/mod.rs` and `alerts/retro/scan.rs`: how a rule reads against stored minutes,
and the scan that walks them in chunks, minute by minute, with an evaluator of its own.  A
scan leaves a cursor, and a scan resumed from one reads some minutes again to rebuild what
the rule carries.

A chunk hands its findings to the alert sink; here it returns them.  How evidence is packed
and a threshold printed is given (`Dress`).  The time a chunk takes, and so its stand-down,
is left out.
-/

namespace OpenGate.Alerts

open OpenGate.Lib OpenGate.Tsdb OpenGate.Backfill Std

variable {F : Type}

def retroBucketSecs : Int64 := 60

def evidenceReadings : Nat := 5

/-- Why a rule cannot be re-run over stored history. -/
inductive RetroUnsupported where
  | finerThanAMinute
  | metricNotStored
  | conflictingReadings
  | shapeNotReconstructible
  deriving DecidableEq, Repr

inductive BucketStat where
  | min
  | max
  | avg
  | last
  deriving DecidableEq, Repr

structure RetroBucket (F : Type) where
  bucket : Int64
  min : F
  max : F
  avg : F
  last : F
  deriving DecidableEq

def BucketStat.of (stat : BucketStat) (bucket : RetroBucket F) : F :=
  match stat with
  | .min => bucket.min
  | .max => bucket.max
  | .avg => bucket.avg
  | .last => bucket.last

/-- The history a scan walks; reading it may fail. -/
structure RetroHistory (F : Type) where
  span : SeriesId → Except String (Option (Int64 × Int64))
  buckets : SeriesId → Int64 → Int64 → Except String (List (RetroBucket F))

/-! ## The plan -/

structure RetroPlan (F : Type) where
  rule : ThresholdRule F
  reads : List (SeriesId × BucketStat)
  metric : String
  /-- How far before a resume point the scan has to re-read. -/
  lookbackSecs : Int64

/-- Whether a declared span is not zero but shorter than one stored minute. -/
def finerThanAMinute (secs : UInt32) : Bool := decide (0 < secs) && decide (secs.toNat < 60)

/-- The statistic that answers a condition: an instant rule reads the most breaching reading,
or the least breaching when sustained. -/
def bucketStat (predicate : RulePredicate) (comparator : AlertComparator) (sustained : Bool) :
    BucketStat :=
  match predicate, comparator, sustained with
  | .instant, .gt, true | .instant, .gte, true => .min
  | .instant, .gt, false | .instant, .gte, false => .max
  | .instant, .lt, true | .instant, .lte, true => .max
  | .instant, .lt, false | .instant, .lte, false => .min
  | .windowMax, _, _ => .max
  | .windowMean, _, _ => .avg
  | .rate, _, _ => .last

structure PlanDraft where
  bySeries : ExtTreeMap SeriesId BucketStat Ord.compare
  widestWindow : UInt32
  metric : Option String

structure ConditionShape where
  metric : String
  comparator : AlertComparator
  predicate : RulePredicate
  windowSecs : UInt32

def ThresholdRule.shapes (rule : ThresholdRule F) : List ConditionShape :=
  ⟨rule.metric, rule.comparator, rule.predicate, rule.windowSecs⟩ ::
    rule.all.map fun term => ⟨term.metric, term.comparator, term.predicate, term.windowSecs⟩

def PlanDraft.add (sustained : Bool) (draft : PlanDraft) (shape : ConditionShape) :
    Except RetroUnsupported PlanDraft :=
  match canonicalRuleMetric shape.metric with
  | none => .error .metricNotStored
  | some canonical =>
    match dimSeries canonical with
    | none => .error .metricNotStored
    | some series =>
      if !windowIsExpressible shape.predicate shape.windowSecs then .error .shapeNotReconstructible
      else if finerThanAMinute shape.windowSecs then .error .finerThanAMinute
      else
        let stat := bucketStat shape.predicate shape.comparator sustained
        if (draft.bySeries[series]?).any (· != stat) then .error .conflictingReadings
        else
          .ok ⟨draft.bySeries.insert series stat, max draft.widestWindow shape.windowSecs,
            some (draft.metric.getD canonical)⟩

/-- Works out how a rule reads against stored minutes, or why it cannot. -/
def RetroPlan.forRule (rule : ThresholdRule F) : Except RetroUnsupported (RetroPlan F) :=
  if maxRuleTerms < rule.all.length then .error .shapeNotReconstructible
  else if finerThanAMinute rule.sustainSecs then .error .finerThanAMinute
  else do
    let draft ← rule.shapes.foldlM (PlanDraft.add (decide (0 < rule.sustainSecs))) ⟨∅, 0, none⟩
    match draft.metric with
    | none => .error .shapeNotReconstructible
    | some metric =>
      .ok ⟨rule, draft.bySeries.toList, metric, Int64.ofNat rule.sustainSecs.toNat
        + Int64.ofNat draft.widestWindow.toNat + retroBucketSecs⟩

/-! ## The scan -/

structure RetroBudget where
  chunkPoints : Nat

def RetroBudget.default : RetroBudget := ⟨4096⟩

/-- The oldest minute not yet evaluated and delivered; none is the oldest stored. -/
abbrev RetroCursor := Option Int64

structure RetroStats where
  chunks : Nat
  pointsRead : Nat
  bucketsEvaluated : Nat
  findings : Nat
  deriving DecidableEq

/-- One rule being re-run over one device's history. -/
structure RetroScan (F : Type) where
  plan : RetroPlan F
  budget : RetroBudget
  evaluator : AlertEvaluator F
  /-- Findings before this minute were delivered by an earlier run of the scan. -/
  emitFrom : Int64
  /-- Where the next read starts; none is the oldest minute stored. -/
  nextRead : Option Int64
  cursor : RetroCursor
  scope : Option (Int64 × Int64)
  firing : Bool
  recent : List (Int64 × F)
  stats : RetroStats

inductive Progress where
  | more
  | done
  | empty
  deriving DecidableEq

/-- How a finding's evidence is packed and its threshold printed. -/
structure Dress (F : Type) where
  pack : String → List (Int64 × F) → Int64 → PackedEvidence
  display : F → String

def floorToMinute (ts : Int64) : Int64 :=
  Tsdb.saturatingMul (divEuclid ts retroBucketSecs) retroBucketSecs

def DimReadings.set (readings : DimReadings F) (series : SeriesId) (value : F) : DimReadings F :=
  match backfillSeries.idxOf? series with
  | none => readings
  | some index => ⟨readings.values.setIfInBounds index (some value)⟩

def DimReadings.none : DimReadings F := ⟨Vector.replicate 13 Option.none⟩

abbrev Rows (F : Type) := ExtTreeMap Int64 (DimReadings F) Ord.compare

def relation : AlertComparator → String
  | .gt => "above"
  | .gte => "at or above"
  | .lt => "below"
  | .lte => "at or below"

namespace RetroScan

def resume (plan : RetroPlan F) (budget : RetroBudget) (cursor : RetroCursor) : RetroScan F where
  plan := plan
  budget := budget
  evaluator := .new [plan.rule]
  emitFrom := cursor.getD Int64.minValue
  nextRead := cursor.map fun bucket => saturatingSub bucket plan.lookbackSecs
  cursor := cursor
  scope := none
  firing := false
  recent := []
  stats := ⟨0, 0, 0, 0⟩

def new (plan : RetroPlan F) (budget : RetroBudget) : RetroScan F := resume plan budget none

/-- What the rule means, in the words the queue shows first. -/
def summary (dress : Dress F) (scan : RetroScan F) : String :=
  let rule := scan.plan.rule
  let held :=
    if 60 ≤ rule.sustainSecs.toNat then " for " ++ toString (rule.sustainSecs.toNat / 60) ++ " min"
    else ""
  scan.plan.metric ++ " " ++ relation rule.comparator ++ " " ++ dress.display rule.threshold ++ held

def finding (dress : Dress F) (scan : RetroScan F) (bucket : Int64) : EdgeAlert F where
  ruleId := scan.plan.rule.id
  ruleVersion := scan.plan.rule.version
  severity := scan.plan.rule.severity
  tsMicros := Tsdb.saturatingMul bucket 1000000
  windowStartMicros :=
    Tsdb.saturatingMul (saturatingSub bucket (Int64.ofNat scan.plan.rule.sustainSecs.toNat)) 1000000
  windowEndMicros := Tsdb.saturatingMul bucket 1000000
  metric := scan.plan.metric
  value := scan.recent.getLast?.map (·.2)
  subject := scan.plan.metric
  summary := scan.summary dress
  evidence := dress.pack scan.plan.metric scan.recent bucket
  origin := .backfilled

/-- Forgets everything the rule was carrying, at a hole in history. -/
def restart (scan : RetroScan F) : RetroScan F :=
  { scan with evaluator := .new [scan.plan.rule], firing := false, recent := [] }

def remember (recent : List (Int64 × F)) (bucket : Int64) (value : Option F) : List (Int64 × F) :=
  match value with
  | none => recent
  | some value =>
    (if recent.length = evidenceReadings then recent.drop 1 else recent) ++ [(bucket, value)]

/-- The stretch covering every series the rule reads; a missing series gives none. -/
def historySpan (history : RetroHistory F) : List (SeriesId × BucketStat) → Option (Int64 × Int64) →
    Except String (Option (Int64 × Int64))
  | [], span => .ok span
  | (series, _) :: reads, span =>
    match history.span series with
    | .error e => .error e
    | .ok none => .ok none
    | .ok (some (oldest, newest)) =>
      historySpan history reads <| some <|
        span.elim (oldest, newest) fun sofar => (min sofar.1 oldest, max sofar.2 newest)

def readSeries (series : SeriesId) (stat : BucketStat) (rows : Rows F)
    (buckets : List (RetroBucket F)) : Rows F :=
  buckets.foldl (fun rows bucket =>
    rows.insert bucket.bucket ((rows[bucket.bucket]?.getD .none).set series (stat.of bucket))) rows

def readRows (history : RetroHistory F) (start stop : Int64) :
    List (SeriesId × BucketStat) → Rows F × Nat → Except String (Rows F × Nat)
  | [], rows => .ok rows
  | (series, stat) :: reads, rows =>
    match history.buckets series start stop with
    | .error e => .error e
    | .ok buckets =>
      readRows history start stop reads
        (readSeries series stat rows.1 buckets, rows.2 + buckets.length)

def complete (reads : List (SeriesId × BucketStat)) (readings : DimReadings F) : Bool :=
  reads.all fun read => (readings.get read.1).isSome

def chunkSpan (scan : RetroScan F) : Int64 :=
  let perSeries := max (scan.budget.chunkPoints / max scan.plan.reads.length 1) 1
  (if perSeries < 2 ^ 63 then Int64.ofNat perSeries else Int64.maxValue / retroBucketSecs)
    * retroBucketSecs

/-- `(start..stop).step_by(60)`. -/
def minutes (start stop : Int64) : List Int64 :=
  (List.range ((stop.toInt - start.toInt + 59) / 60).toNat).map fun i => start + Int64.ofNat i * 60

variable [RuleFloat F] (dress : Dress F)

/-- Evaluates one reconstructed minute; only the moment a rule starts firing is a finding. -/
def step (scan : RetroScan F) (readings : DimReadings F) (bucket : Int64) :
    RetroScan F × List (EdgeAlert F) :=
  let recent := remember scan.recent bucket (readings.ofMetric scan.plan.metric)
  let evaluated := scan.evaluator.evaluateReadings readings bucket
  let firing := !evaluated.2.isEmpty
  let found := firing && !scan.firing && decide (scan.emitFrom ≤ bucket)
  let scan := { scan with
    recent, firing, evaluator := evaluated.1
    stats := { scan.stats with
      bucketsEvaluated := scan.stats.bucketsEvaluated + 1
      findings := scan.stats.findings + found.toNat } }
  (scan, if found then [scan.finding dress bucket] else [])

/-- One minute of a chunk; one that misses a reading the rule needs is a hole. -/
def minute (scan : RetroScan F) (row : Option (DimReadings F)) (bucket : Int64) :
    RetroScan F × List (EdgeAlert F) :=
  match row with
  | some readings => scan.step dress readings bucket
  | none => (scan.restart, [])

def walk (rows : Int64 → Option (DimReadings F)) : List Int64 → RetroScan F →
    RetroScan F × List (EdgeAlert F)
  | [], scan => (scan, [])
  | bucket :: buckets, scan =>
    let stepped := scan.minute dress (rows bucket) bucket
    let rest := walk rows buckets stepped.1
    (rest.1, stepped.2 ++ rest.2)

def chunk (history : RetroHistory F) (scan : RetroScan F) :
    RetroScan F × List (EdgeAlert F) × Except String Progress :=
  match historySpan history scan.plan.reads none with
  | .error e => (scan, [], .error e)
  | .ok none => (scan, [], .ok .empty)
  | .ok (some (oldest, newest)) =>
    let scan := { scan with scope := some (oldest, newest) }
    let start := floorToMinute (max (scan.nextRead.getD oldest) oldest)
    if newest < start then (scan, [], .ok .done)
    else
      let stop := min (Lib.saturatingAdd start scan.chunkSpan)
        (Lib.saturatingAdd newest retroBucketSecs)
      match readRows history start stop scan.plan.reads (∅, 0) with
      | .error e => (scan, [], .error e)
      | .ok (rows, read) =>
        let rows := rows.filter fun _ readings => complete scan.plan.reads readings
        let scan :=
          { scan with stats := { scan.stats with pointsRead := scan.stats.pointsRead + read } }
        let (scan, findings) := scan.walk dress (fun bucket => rows[bucket]?) (minutes start stop)
        let scan := { scan with nextRead := some stop, cursor := some (max stop scan.emitFrom) }
        (scan, findings, .ok (if newest < stop then .done else .more))

end RetroScan

end OpenGate.Alerts
