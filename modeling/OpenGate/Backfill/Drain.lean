import OpenGate.Tsdb.Store

/-!
# The backfill drain

`ml/backfill/mod.rs`, `ml/backfill/drain.rs` and the series tables of
`ml/store_sink.rs`: the tier walk that turns durable history into batches.  All
timestamps are `i64` and wrap as they do in a release build.  `next_batch` loops,
so it runs on fuel here: `none` is a loop that has not ended yet.
-/

namespace OpenGate.Backfill

open OpenGate.Tsdb Std

/-! ## Series -/

inductive WindowReduction where
  | mean
  | last
  deriving DecidableEq, Repr

def seriesReduction : SeriesId → WindowReduction
  | 6 => .last
  | 7 => .last
  | 8 => .last
  | 9 => .last
  | 10 => .last
  | _ => .mean

def backfillSeries : List SeriesId := [0, 1, 2, 3, 4, 5, 6, 7, 8, 9, 10, 11, 12]

def seriesDimName : SeriesId → Option String
  | 0 => some "cpu.total"
  | 1 => some "mem.used_percent"
  | 2 => some "disk.used_percent"
  | 3 => some "net.rx_bps"
  | 4 => some "net.tx_bps"
  | 5 => some "disk.mounts_critical"
  | 6 => some "stall.cpu.some"
  | 7 => some "stall.mem.some"
  | 8 => some "stall.mem.full"
  | 9 => some "stall.io.some"
  | 10 => some "stall.io.full"
  | 11 => some "disk.await_ms"
  | 12 => some "disk.queue_depth"
  | _ => none

def seriesMaxDimName : SeriesId → Option String
  | 0 => some "cpu.total.max"
  | 1 => some "mem.used_percent.max"
  | 3 => some "net.rx_bps.max"
  | 4 => some "net.tx_bps.max"
  | 11 => some "disk.await_ms.max"
  | _ => none

/-! ## Reading -/

structure TierReader (F : Type) where
  rangeRaw : SeriesId → Int64 → Int64 → Result (List (Sample F × Bool))
  rangeTier : SeriesId → Tier → Int64 → Int64 → Result (List (TierPoint F))

class NegInfinity (F : Type) where
  negInfinity : F

def recentStep : Int64 := 60

def minStep : Int64 := 60

def hourStep : Int64 := 3600

/-- The 60 s window start shared by the live emitter and backfill. -/
def windowStart60s (ts : Int64) : Int64 := divEuclid ts recentStep * recentStep

structure Rolled60s (F : Type) where
  sum : F
  max : F
  count : UInt32
  lastTs : Int64
  last : F

section Roll

variable {F : Type} [Float64 F] [NegInfinity F]

def Rolled60s.fresh : Rolled60s F :=
  ⟨Float64.zero, NegInfinity.negInfinity, 0, Int64.minValue, Float64.zero⟩

def Rolled60s.add (e : Rolled60s F) (s : Sample F) : Rolled60s F where
  sum := Float64.add e.sum s.value
  max := Float64.max e.max s.value
  count := e.count + 1
  lastTs := if s.ts ≥ e.lastTs then s.ts else e.lastTs
  last := if s.ts ≥ e.lastTs then s.value else e.last

def Rolled60s.value (e : Rolled60s F) : WindowReduction → F
  | .mean => Float64.div e.sum (Float64.ofU32 e.count)
  | .last => e.last

def rollTo60s (samples : List (Sample F × Bool)) (reduction : WindowReduction) :
    List (Int64 × F × F) :=
  let acc : ExtTreeMap Int64 (Rolled60s F) := samples.foldl
    (fun acc e =>
      let window := windowStart60s e.1.ts
      acc.insert window ((acc[window]?.getD .fresh).add e.1)) ∅
  acc.toList.map fun e => (e.1, e.2.value reduction, e.2.max)

end Roll

/-! ## Configuration -/

inductive BackfillTier where
  | recent60s
  | rollup1m
  | rollup1h
  deriving DecidableEq, Repr

/-- Age bands by `now - ts`. -/
structure BackfillConfig where
  retentionSecs : Int64 := 90 * 24 * 3600
  recentSecs : Int64 := 48 * 3600
  midSecs : Int64 := 30 * 24 * 3600
  futureSkewSecs : Int64 := 3600
  maxBatchSamples : UInt64 := 1000
  deriving DecidableEq

structure BackfillCursors where
  recent60s : Option Int64 := none
  rollup1m : Option Int64 := none
  rollup1h : Option Int64 := none
  deriving DecidableEq

def BackfillCursors.get (c : BackfillCursors) : BackfillTier → Option Int64
  | .recent60s => c.recent60s
  | .rollup1m => c.rollup1m
  | .rollup1h => c.rollup1h

/-! ## The drain -/

structure BackfillSample (F : Type) where
  name : String
  ts : Int64
  value : F
  deriving DecidableEq

structure PlannedBatch (F : Type) where
  tier : BackfillTier
  samples : List (BackfillSample F)
  cursor : Int64
  deriving DecidableEq

inductive Phase where
  | recent
  | mid
  | old
  | done
  deriving DecidableEq, Repr

def Phase.tier : Phase → Option BackfillTier
  | .recent => some .recent60s
  | .mid => some .rollup1m
  | .old => some .rollup1h
  | .done => none

def Phase.next : Phase → Phase
  | .recent => .mid
  | .mid => .old
  | .old => .done
  | .done => .done

def samplesPerBucket (series : List SeriesId) : Nat :=
  max 1 (series.map fun x =>
    (if (seriesDimName x).isSome then 1 else 0) + if (seriesMaxDimName x).isSome then 1 else 0).sum

def bucketsPerBatch (cfg : BackfillConfig) (series : List SeriesId) : Nat :=
  max 1 (cfg.maxBatchSamples.toNat / samplesPerBucket series)

/-- The oldest and the newest timestamp of a phase, and its bucket size. -/
def band (now : Int64) (cfg : BackfillConfig) : Phase → Int64 × Int64 × Int64
  | .recent => (now - cfg.recentSecs, now + cfg.futureSkewSecs, recentStep)
  | .mid => (now - cfg.midSecs, now - cfg.recentSecs, minStep)
  | .old => (now - cfg.retentionSecs, now - cfg.midSecs, hourStep)
  | .done => (Int64.maxValue, Int64.minValue, recentStep)

/-- Whether a bucket may ship in a phase; a rollup bucket must lie entirely in its
band. -/
def emitOk (now : Int64) (cfg : BackfillConfig) (phase : Phase) (ts step : Int64) : Bool :=
  let (lo, hi, _) := band now cfg phase
  match phase with
  | .recent => ts ≥ lo && ts ≤ hi
  | .mid => ts ≥ lo && ts + step ≤ hi
  | .old => ts ≥ lo && ts + step ≤ hi
  | .done => false

structure BackfillDrain (F : Type) where
  reader : TierReader F
  now : Int64
  cfg : BackfillConfig
  series : List SeriesId
  cursors : BackfillCursors
  phase : Phase
  pos : Int64
  posReady : Bool

/-- One bucket's readings for a series: its average and its maximum. -/
abbrev BucketReduction (F : Type) := SeriesId × F × F

inductive Turn (F : Type) where
  | drained
  | again (d : BackfillDrain F)
  | batch (b : PlannedBatch F) (d : BackfillDrain F)

namespace BackfillDrain

variable {F : Type}

def new (reader : TierReader F) (now : Int64) (cfg : BackfillConfig) (series : List SeriesId)
    (cursors : BackfillCursors) : BackfillDrain F where
  reader := reader
  now := now
  cfg := cfg
  series := series
  cursors := cursors
  phase := .recent
  pos := 0
  posReady := false

def advancePhase (d : BackfillDrain F) : BackfillDrain F :=
  { d with phase := d.phase.next, posReady := false }

/-- `buckets_per_batch() as i64`. -/
def perBatch (d : BackfillDrain F) : Int64 := Int64.ofNat (bucketsPerBatch d.cfg d.series)

/-- The position a phase starts from: strictly after the watermark and never before
the band floor. -/
def resume (d : BackfillDrain F) (tier : BackfillTier) : Int64 :=
  let (lo, _, step) := band d.now d.cfg d.phase
  match d.cursors.get tier with
  | none => lo
  | some c => max (c + step) lo

variable [Float64 F] [NegInfinity F]

def readPoints (reader : TierReader F) (tier : BackfillTier) (series : SeriesId)
    (start stop : Int64) : Result (List (Int64 × F × F)) :=
  let reduction := seriesReduction series
  match tier with
  | .recent60s => do
      let samples ← reader.rangeRaw series start stop
      .ok (rollTo60s samples reduction)
  | .rollup1m => do
      let points ← reader.rangeTier series .t1 start stop
      .ok (points.map fun p =>
        (p.bucket, (match reduction with
          | .mean => p.avg
          | .last => p.last), p.max))
  | .rollup1h => do
      let points ← reader.rangeTier series .t2 start stop
      .ok (points.map fun p => (p.bucket, p.avg, p.max))

def addPoints (d : BackfillDrain F) (step : Int64) (series : SeriesId)
    (acc : ExtTreeMap Int64 (List (BucketReduction F))) (points : List (Int64 × F × F)) :
    ExtTreeMap Int64 (List (BucketReduction F)) :=
  points.foldl
    (fun acc p =>
      if emitOk d.now d.cfg d.phase p.1 step then
        acc.insert p.1 ((acc[p.1]?.getD []) ++ [(series, p.2)])
      else acc) acc

def gather (d : BackfillDrain F) (tier : BackfillTier) (step start stop : Int64) :
    List SeriesId → ExtTreeMap Int64 (List (BucketReduction F)) →
      Result (ExtTreeMap Int64 (List (BucketReduction F)))
  | [], acc => .ok acc
  | x :: xs, acc => do
      let points ← readPoints d.reader tier x start stop
      gather d tier step start stop xs (d.addPoints step x acc points)

/-- Reads a range into per-bucket readings, cut at the first bucket past the cap. -/
def readBuckets (d : BackfillDrain F) (tier : BackfillTier) (step start stop : Int64) :
    Result (List (Int64 × List (BucketReduction F))) := do
  let acc ← d.gather tier step start stop d.series ∅
  .ok (acc.toList.take d.perBatch.toUInt64.toNat)

def bucketSamples (bucket : Int64 × List (BucketReduction F)) : List (BackfillSample F) :=
  bucket.2.flatMap fun r =>
    ((seriesDimName r.1).elim [] fun name => [⟨name, bucket.1, r.2.1⟩]) ++
      (seriesMaxDimName r.1).elim [] fun name => [⟨name, bucket.1, r.2.2⟩]

def turnAt (d : BackfillDrain F) (tier : BackfillTier) : Result (Turn F) := do
  let (_, hi, step) := band d.now d.cfg d.phase
  if d.pos > hi then .ok (.again d.advancePhase)
  else
    let readEnd := min (d.pos + step * d.perBatch) hi
    let buckets ← d.readBuckets tier step d.pos readEnd
    match buckets.getLast? with
    | none =>
      if readEnd ≥ hi then .ok (.again d.advancePhase)
      else .ok (.again { d with pos := readEnd + step })
    | some newest =>
      .ok (.batch ⟨tier, buckets.flatMap bucketSamples, newest.1⟩ { d with pos := newest.1 + step })

def turn (d : BackfillDrain F) : Result (Turn F) :=
  match d.phase.tier with
  | none => .ok .drained
  | some tier =>
    if d.posReady then d.turnAt tier
    else turnAt { d with pos := d.resume tier, posReady := true } tier

def nextBatch : Nat → BackfillDrain F → Option (Result (Option (PlannedBatch F) × BackfillDrain F))
  | 0, _ => none
  | fuel + 1, d =>
    match d.turn with
    | .error e => some (.error e)
    | .ok .drained => some (.ok (none, d))
    | .ok (.again d') => nextBatch fuel d'
    | .ok (.batch b d') => some (.ok (some b, d'))

def drainAll : Nat → BackfillDrain F → Option (Result (List (PlannedBatch F)))
  | 0, _ => none
  | fuel + 1, d =>
    match nextBatch (fuel + 1) d with
    | none => none
    | some (.error e) => some (.error e)
    | some (.ok (none, _)) => some (.ok [])
    | some (.ok (some b, d')) =>
      match drainAll fuel d' with
      | none => none
      | some (.error e) => some (.error e)
      | some (.ok batches) => some (.ok (b :: batches))

end BackfillDrain

end OpenGate.Backfill
