import OpenGate.Lib.Msgpack
import OpenGate.Backfill.Minutes
import OpenGate.Backfill.Session

/-!
# The size of a batch

`MetricBackfillBatch` as `rmp_serde::to_vec_named` encodes it, and its size: a bucket
holds each name at most once, and a batch is cut at `buckets_per_batch` buckets,
whatever its timestamps are and however they wrap.
-/

namespace OpenGate.Backfill

open OpenGate.Tsdb OpenGate.Lib Std BackfillDrain BackfillSample Msgpack List

variable {F : Type} [Float64 F] [NegInfinity F] {d d' : BackfillDrain F} {b : PlannedBatch F}
  {c : Content F} {fuel : Nat}

/-! ## Encoding -/

def BackfillTier.name : BackfillTier → String
  | .recent60s => "Recent60s"
  | .rollup1m => "Rollup1m"
  | .rollup1h => "Rollup1h"

def BackfillSample.encode (s : BackfillSample F) : List UInt8 :=
  Msgpack.mapHeader 3 ++ Msgpack.packStr "name" ++ Msgpack.packStr s.name ++
    Msgpack.packStr "ts" ++ Msgpack.packInt s.ts ++
    Msgpack.packStr "value" ++ Msgpack.packFloat (Float64.toBits s.value)

def encodeMetricBackfillBatch (tier : BackfillTier) (samples : List (BackfillSample F))
    (cursor : Int64) : List UInt8 :=
  Msgpack.mapHeader 4 ++ Msgpack.packStr "type" ++ Msgpack.packStr "MetricBackfillBatch" ++
    Msgpack.packStr "tier" ++ Msgpack.packStr tier.name ++
    Msgpack.packStr "samples" ++ Msgpack.arrayHeader samples.length ++
    samples.flatMap BackfillSample.encode ++
    Msgpack.packStr "cursor" ++ Msgpack.packInt cursor

/-! ## Sizes -/

/-- The bytes of the names of a series, and of the samples that carry them. -/
def nameBytes (name : Option String) : Nat := name.elim 0 fun n => 34 + n.utf8ByteSize

def seriesBytes (x : SeriesId) : Nat := nameBytes (seriesDimName x) + nameBytes (seriesMaxDimName x)

omit [NegInfinity F] in
theorem length_encode_le {s : BackfillSample F} (short : s.name.utf8ByteSize < 32) :
    s.encode.length ≤ 34 + s.name.utf8ByteSize := by
  have ts := length_packInt_le s.ts
  have field (n : String) (short : n.utf8ByteSize < 32) := length_packStr short
  unfold encode
  simp only [length_append, length_packFloat, field s.name short,
    field "name" (by decide), field "ts" (by decide), field "value" (by decide),
    length_mapHeader (show 3 < 16 by decide), show "name".utf8ByteSize = 4 from rfl,
    show "ts".utf8ByteSize = 2 from rfl, show "value".utf8ByteSize = 5 from rfl]
  omega

/-- All names are short. -/
theorem name_short {x : SeriesId} {name : String}
    (is : seriesDimName x = some name ∨ seriesMaxDimName x = some name) :
    name.utf8ByteSize < 32 := by
  rcases is with is | is
  · unfold seriesDimName at is
    split at is <;> first | (cases is; decide) | cases is
  · unfold seriesMaxDimName at is
    split at is <;> first | (cases is; decide) | cases is

omit [NegInfinity F] in
/-- The samples of one series in a bucket. -/
theorem length_entry_le {b : Int64} (e : BucketReduction F) :
    ((((seriesDimName e.1).elim [] fun name => [(⟨name, b, e.2.1⟩ : BackfillSample F)]) ++
      (seriesMaxDimName e.1).elim [] fun name => [(⟨name, b, e.2.2⟩ : BackfillSample F)]).flatMap
        encode).length ≤ seriesBytes e.1 := by
  have one {name : Option String} (v : F) (short : ∀ n, name = some n → n.utf8ByteSize < 32) :
      ((name.elim [] fun n => [(⟨n, b, v⟩ : BackfillSample F)]).flatMap encode).length
        ≤ nameBytes name := by
    cases name with
    | none => exact Nat.le_refl 0
    | some n =>
      have size := length_encode_le (s := (⟨n, b, v⟩ : BackfillSample F)) (short n rfl)
      simpa [nameBytes] using size
  rw [flatMap_append, length_append]
  exact Nat.add_le_add (one e.2.1 fun n is => name_short (.inl is))
    (one e.2.2 fun n is => name_short (.inr is))

omit [NegInfinity F] in
/-- A bucket's samples, of each series at most once. -/
theorem length_bucket_le {points : SeriesId → List (Int64 × F × F)}
    (distinct : ∀ x, ((points x).map Prod.fst).Nodup) (xs : List SeriesId) {b : Int64} :
    ((bucketSamples (b, pointsAt points xs b)).flatMap
      encode).length ≤ (xs.map seriesBytes).sum := by
  induction xs with
  | nil => exact Nat.le_refl 0
  | cons x xs ih =>
    have split : bucketSamples (b, pointsAt points (x :: xs) b)
        = bucketSamples (b, ((points x).filter fun p => p.1 = b).map fun p => (x, p.2))
          ++ bucketSamples (b, pointsAt points xs b) := by
      unfold bucketSamples pointsAt
      rw [flatMap_cons, flatMap_append]
    have own :
        ((bucketSamples (b, ((points x).filter fun p => p.1 = b).map fun p => (x, p.2))).flatMap
        encode).length ≤ seriesBytes x := by
      have few := length_filter_le_one (distinct x) b
      generalize (points x).filter (fun p => p.1 = b) = found at few
      cases found with
      | nil => exact Nat.zero_le _
      | cons p rest =>
        cases rest with
        | nil =>
          rw [map_singleton, bucketSamples, flatMap_singleton]
          exact length_entry_le (x, p.2)
        | cons =>
          rw [length_cons, length_cons] at few
          omega
    rw [split, flatMap_append, length_append, map_cons, sum_cons]
    exact Nat.add_le_add own ih

/-! ## What is read -/

/-- The size of the buckets a turn reads. -/
theorem length_rows_le (reader : d.reader = c.reader) {tier : BackfillTier}
    {rows : List (Int64 × List (BucketReduction F))} (read : d.rows tier = .ok rows) :
    ((rows.flatMap bucketSamples).flatMap encode).length
      ≤ d.perBatch.toUInt64.toNat * (d.series.map seriesBytes).sum := by
  unfold BackfillDrain.rows at read
  generalize readyIs : (if d.posReady then d else { d with pos := d.resume tier, posReady := true })
    = e at read
  have same : e.reader = c.reader ∧ e.series = d.series ∧ e.perBatch = d.perBatch := by
    rw [← readyIs]
    split <;> exact ⟨reader, rfl, rfl⟩
  obtain ⟨readerE, seriesE, perBatchE⟩ := same
  dsimp only at read
  have each := fun x => readPoints_content c tier x e.pos
    (min (e.pos + (band e.now e.cfg e.phase).2.2 * e.perBatch) (band e.now e.cfg e.phase).2.1)
  choose points reads _ using each
  have distinct := fun x => readPoints_nodup (reads x)
  rw [← readerE] at reads
  obtain ⟨all, is, entries⟩ := readBuckets_ok (d := e) _ fun x _ => reads x
  rw [is] at read
  cases read
  have row : ∀ r ∈ all.toList.take e.perBatch.toUInt64.toNat,
      ((bucketSamples r).flatMap encode).length
        ≤ (d.series.map seriesBytes).sum := by
    intro r mem
    have stored := ExtTreeMap.mem_toList_iff_getElem?_eq_some.mp (mem_of_mem_take mem)
    rw [entries] at stored
    split at stored
    · have is : r = (r.1, pointsAt points e.series r.1) :=
        Prod.ext rfl (Option.some.inj stored).symm
      rw [is, ← seriesE]
      exact length_bucket_le distinct e.series
    · cases stored
  rw [flatMap_assoc, length_flatMap]
  calc _ ≤ (all.toList.take e.perBatch.toUInt64.toNat).length * (d.series.map seriesBytes).sum :=
        sum_le_card_nsmul _ _ (by
          intro n mem
          obtain ⟨r, inside, rfl⟩ := mem_map.mp mem
          exact row r inside) |>.trans (by simp)
    _ ≤ d.perBatch.toUInt64.toNat * (d.series.map seriesBytes).sum := by
      refine Nat.mul_le_mul_right _ ?_
      rw [← perBatchE]
      exact (length_take_le _ _)

/-- The batch of `next_batch` is made of buckets that a turn read. -/
theorem BackfillDrain.nextBatch_rows (ran : d.nextBatch fuel = some (.ok (some b, d'))) :
    ∃ e rows, d.Keeps e ∧ e.rows b.tier = .ok rows ∧ b.samples = rows.flatMap bucketSamples := by
  induction fuel generalizing d with
  | zero => cases ran
  | succ fuel ih =>
    unfold nextBatch at ran
    cases turned : d.turn with
    | error =>
      rw [turned] at ran
      cases ran
    | ok t =>
      rw [turned] at ran
      have followed := turn_follows turned
      cases t with
      | drained => cases ran
      | again e =>
        obtain ⟨e', rows, keeps, read, samples⟩ := ih ran
        exact ⟨e', rows, ⟨keeps.reader.trans followed.1.reader, keeps.cfg.trans followed.1.cfg,
          keeps.series.trans followed.1.series⟩, read, samples⟩
      | batch b' e =>
        cases ran
        obtain ⟨-, -, -, rows, read, samples⟩ := followed
        exact ⟨d, rows, ⟨rfl, rfl, rfl⟩, read, samples⟩

/-- The size of a batch of the default drain. -/
theorem length_batch_le (reader : d.reader = c.reader) (cfg : d.cfg = {})
    (series : d.series = backfillSeries) (ran : d.nextBatch fuel = some (.ok (some b, d'))) :
    (encodeMetricBackfillBatch b.tier b.samples b.cursor).length ≤ maxTelemetryPayloadBytes := by
  obtain ⟨e, rows, keeps, read, samples⟩ := nextBatch_rows ran
  have size := length_rows_le (keeps.reader.trans reader) read
  have cap : e.perBatch.toUInt64.toNat * (e.series.map seriesBytes).sum = 55 * 869 := by
    unfold perBatch
    rw [keeps.cfg, keeps.series, cfg, series]
    decide +kernel
  rw [← samples, cap] at size
  have field (n : String) (short : n.utf8ByteSize < 32) := length_packStr short
  have tierField : (packStr b.tier.name).length ≤ 10 := by
    cases b.tier <;> decide
  have count := length_arrayHeader_le b.samples.length
  have cursor := length_packInt_le b.cursor
  unfold encodeMetricBackfillBatch maxTelemetryPayloadBytes
  simp only [length_append, length_mapHeader (show 4 < 16 by decide),
    field "type" (by decide), field "MetricBackfillBatch" (by decide), field "tier" (by decide),
    field "samples" (by decide), field "cursor" (by decide), show "type".utf8ByteSize = 4 from rfl,
    show "MetricBackfillBatch".utf8ByteSize = 19 from rfl, show "tier".utf8ByteSize = 4 from rfl,
    show "samples".utf8ByteSize = 7 from rfl, show "cursor".utf8ByteSize = 6 from rfl]
  omega

/-- Every batch of the default drain fits the server's limit, so that one that is
written is acked whatever its size. -/
theorem batch_fits_limit (c : Content F) (d d' : BackfillDrain F) (fuel : Nat) (b : PlannedBatch F)
    (reader : d.reader = c.reader) (cfg : d.cfg = {}) (series : d.series = backfillSeries)
    (ran : d.nextBatch fuel = some (.ok (some b, d'))) :
    (encodeMetricBackfillBatch b.tier b.samples b.cursor).length ≤ maxTelemetryPayloadBytes ∧
      ∀ conn : ServerConn, conn.telemetry = true → conn.backfill = true → conn.tenant = true →
        conn.handleMetricBackfillBatch b.tier b.samples b.cursor
          (encodeMetricBackfillBatch b.tier b.samples b.cursor).length true
          = some (.metricBackfillAck b.tier b.cursor) := by
  have fits := length_batch_le reader cfg series ran
  exact ⟨fits, fun conn telemetry backfill tenant => handle_acks telemetry backfill tenant fits⟩

/-- The drain of a minute. -/
theorem batch_fits_limit_minute :
    ∃ b : PlannedBatch Int64, b = Replay.cpuBatch .recent60s 8591940 ∧
      (encodeMetricBackfillBatch b.tier b.samples b.cursor).length ≤ maxTelemetryPayloadBytes := by
  obtain ⟨d, first⟩ := Replay.exists_nextBatch (BackfillDrain.new
    (oneMinute 8591980 6000000 (by decide)).reader 8592000 {} backfillSeries {}) 100
    (Replay.cpuBatch .recent60s 8591940) (by decide +kernel)
  exact ⟨_, rfl,
    (batch_fits_limit (oneMinute 8591980 6000000 (by decide)) _ d 100 _ rfl rfl rfl first).1⟩

end OpenGate.Backfill
