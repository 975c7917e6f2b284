import OpenGate.Lib.Int64
import OpenGate.Lib.SliceWalk
import OpenGate.Backfill.Content

/-!
# The drain as a walk

Where no sum of the drain leaves the range of an `i64`, its run over one tier is a
walk slice by slice (`Lib.SliceWalk`) over the readings of the tier that may ship,
and a whole drain is the three walks one after the other.
-/

namespace OpenGate.Backfill

open OpenGate.Tsdb OpenGate.Lib Std BackfillDrain BackfillTier List Int64 ExtTreeMap

variable {F : Type} {ts : Int64}

/-! ## Sums that stay in range -/

/-- A window's start, where it is not below the least timestamp. -/
theorem toInt_windowStart60s_of_le (fits : -2 ^ 63 ≤ ts.toInt - ts.toInt % 60) :
    (windowStart60s ts).toInt = ts.toInt - ts.toInt % 60 := by
  have high := toInt_lt ts
  have quotient : (divEuclid ts recentStep).toInt = ts.toInt / 60 :=
    toInt_divEuclid ts (by decide)
  have sixty : recentStep.toInt = 60 := rfl
  rw [windowStart60s, toInt_mul_of_range] <;> rw [quotient, sixty] <;> omega

/-- A window's start, unless it is below the least timestamp and wraps. -/
theorem toInt_windowStart60s :
    (windowStart60s ts).toInt = ts.toInt - ts.toInt % 60 ∨
      2 ^ 63 - 60 ≤ (windowStart60s ts).toInt := by
  by_cases fits : -2 ^ 63 ≤ ts.toInt - ts.toInt % 60
  · exact .inl (toInt_windowStart60s_of_le fits)
  · have low := le_toInt ts
    have quotient : (divEuclid ts recentStep).toInt = ts.toInt / 60 :=
      toInt_divEuclid ts (by decide)
    have product : (windowStart60s ts).toInt = (ts.toInt / 60 * 60).bmod (2 ^ 64) := by
      rw [windowStart60s, toInt_mul, quotient]
      rfl
    right
    rw [product, Int.bmod_def]
    omega

/-! ## Bands and steps as integers -/

def BackfillTier.phase : BackfillTier → Phase
  | .recent60s => .recent
  | .rollup1m => .mid
  | .rollup1h => .old

@[simp] theorem BackfillTier.tier_phase {tier : BackfillTier} : tier.phase.tier = some tier := by
  cases tier <;> rfl

def BackfillTier.secs : BackfillTier → Int
  | .recent60s => 60
  | .rollup1m => 60
  | .rollup1h => 3600

def BackfillTier.lo (now : Int64) (cfg : BackfillConfig) : BackfillTier → Int
  | .recent60s => now.toInt - cfg.recentSecs.toInt
  | .rollup1m => now.toInt - cfg.midSecs.toInt
  | .rollup1h => now.toInt - cfg.retentionSecs.toInt

def BackfillTier.hi (now : Int64) (cfg : BackfillConfig) : BackfillTier → Int
  | .recent60s => now.toInt + cfg.futureSkewSecs.toInt
  | .rollup1m => now.toInt - cfg.recentSecs.toInt
  | .rollup1h => now.toInt - cfg.midSecs.toInt

def BackfillTier.width (cfg : BackfillConfig) (series : List SeriesId) (tier : BackfillTier) :
    Int :=
  tier.secs * bucketsPerBatch cfg series

/-- No sum of the drain leaves the range of an `i64`. -/
structure InRange (now : Int64) (cfg : BackfillConfig) (series : List SeriesId)
    (cursors : BackfillCursors) : Prop where
  lo : ∀ tier : BackfillTier, -2 ^ 63 ≤ tier.lo now cfg ∧ tier.lo now cfg < 2 ^ 63
  hi : ∀ tier : BackfillTier, -2 ^ 63 ≤ tier.hi now cfg
  width : ∀ tier : BackfillTier, tier.width cfg series < 2 ^ 63
  slice : ∀ tier : BackfillTier, tier.hi now cfg + tier.width cfg series < 2 ^ 63
  cursor : ∀ (tier : BackfillTier) (c : Int64), cursors.get tier = some c →
    c.toInt + tier.secs < 2 ^ 63

instance (now : Int64) (cfg : BackfillConfig) (series : List SeriesId) (cursors : BackfillCursors) :
    Decidable (InRange now cfg series cursors) :=
  decidable_of_iff
    ((∀ tier ∈ [BackfillTier.recent60s, .rollup1m, .rollup1h],
      (-2 ^ 63 ≤ tier.lo now cfg ∧ tier.lo now cfg < 2 ^ 63) ∧ -2 ^ 63 ≤ tier.hi now cfg ∧
      tier.width cfg series < 2 ^ 63 ∧ tier.hi now cfg + tier.width cfg series < 2 ^ 63 ∧
      (cursors.get tier).all fun c => c.toInt + tier.secs < 2 ^ 63))
    ⟨fun all => by
      have each : ∀ tier : BackfillTier, tier ∈ [BackfillTier.recent60s, .rollup1m, .rollup1h] := by
        intro tier
        cases tier <;> decide
      exact ⟨fun tier => (all tier (each tier)).1, fun tier => (all tier (each tier)).2.1,
        fun tier => (all tier (each tier)).2.2.1, fun tier => (all tier (each tier)).2.2.2.1,
        fun tier c is => by simpa [is] using (all tier (each tier)).2.2.2.2⟩,
    fun range tier _ => ⟨range.lo tier, range.hi tier, range.width tier, range.slice tier, by
      simpa [Option.all_eq_true] using range.cursor tier⟩⟩

theorem BackfillTier.secs_pos (tier : BackfillTier) : 0 < tier.secs := by
  cases tier <;> decide

theorem one_le_bucketsPerBatch (cfg : BackfillConfig) (series : List SeriesId) :
    1 ≤ bucketsPerBatch cfg series := Nat.le_max_left _ _

theorem BackfillTier.secs_le_width (cfg : BackfillConfig) (series : List SeriesId)
    (tier : BackfillTier) : tier.secs ≤ tier.width cfg series := by
  have some := one_le_bucketsPerBatch cfg series
  have positive := tier.secs_pos
  unfold width
  nlinarith

variable {now : Int64} {cfg : BackfillConfig} {series : List SeriesId} {cursors : BackfillCursors}
  {c : Content F} {tier : BackfillTier}

/-- The band of a tier, computed without a wrap. -/
theorem InRange.band_toInt (range : InRange now cfg series cursors) (tier : BackfillTier) :
    (band now cfg tier.phase).1.toInt = tier.lo now cfg ∧
      (band now cfg tier.phase).2.1.toInt = tier.hi now cfg ∧
      (band now cfg tier.phase).2.2.toInt = tier.secs := by
  have width := tier.secs_le_width cfg series
  have positive := tier.secs_pos
  have lo := range.lo tier
  have hi := range.hi tier
  have slice := range.slice tier
  cases tier with
  | recent60s =>
    exact ⟨toInt_sub_of_range lo.1 lo.2,
      toInt_add_of_range hi (by simp only [BackfillTier.hi] at slice; omega), rfl⟩
  | rollup1m | rollup1h =>
    exact ⟨toInt_sub_of_range lo.1 lo.2,
      toInt_sub_of_range hi (by simp only [BackfillTier.hi] at slice; omega), rfl⟩

theorem InRange.perBatch (range : InRange now cfg series cursors) :
    (Int64.ofNat (bucketsPerBatch cfg series)).toInt = bucketsPerBatch cfg series ∧
      (Int64.ofNat (bucketsPerBatch cfg series)).toUInt64.toNat = bucketsPerBatch cfg series := by
  have width := range.width .recent60s
  simp only [BackfillTier.width, BackfillTier.secs] at width
  have small : bucketsPerBatch cfg series < 2 ^ 63 := by omega
  have toInt : (Int64.ofNat (bucketsPerBatch cfg series)).toInt = bucketsPerBatch cfg series :=
    toInt_ofNat_of_lt small
  refine ⟨toInt, ?_⟩
  have word : (Int64.ofNat (bucketsPerBatch cfg series)).toUInt64
      = UInt64.ofNat (bucketsPerBatch cfg series) := rfl
  rw [word, UInt64.toNat_ofNat_of_lt' (Nat.lt_of_lt_of_le small (by decide))]

/-! ## Readings as integers -/

def emits (now : Int64) (cfg : BackfillConfig) (tier : BackfillTier) (b : Int64) : Bool :=
  emitOk now cfg tier.phase b (band now cfg tier.phase).2.2

def Content.eligible (c : Content F) (now : Int64) (cfg : BackfillConfig) (series : List SeriesId)
    (tier : BackfillTier) : List Int :=
  (series.flatMap fun x => (c.readings tier x).filter fun t =>
    emits now cfg tier (tier.bucket t)).map Int64.toInt

/-- Those that lie before the end of the band. -/
def Content.below (c : Content F) (now : Int64) (cfg : BackfillConfig) (series : List SeriesId)
    (tier : BackfillTier) : List Int :=
  (c.eligible now cfg series tier).filter (· < tier.hi now cfg)

def BackfillTier.bucketInt (tier : BackfillTier) (t : Int) : Int :=
  match tier.source with
  | none => t - t % 60
  | some _ => t

def Content.slice (c : Content F) (now : Int64) (cfg : BackfillConfig) (series : List SeriesId)
    (tier : BackfillTier) : Int → Int → List Int :=
  bucketsIn tier.bucketInt (c.below now cfg series tier) (bucketsPerBatch cfg series)

theorem mem_below {t : Int} : t ∈ c.below now cfg series tier ↔
    ∃ x ∈ series, ∃ ts ∈ c.readings tier x, emits now cfg tier (tier.bucket ts) ∧
      ts.toInt = t ∧ t < tier.hi now cfg := by
  rw [Content.below, mem_filter, Content.eligible, mem_map]
  constructor
  · rintro ⟨⟨ts, mem, rfl⟩, below⟩
    obtain ⟨x, inSeries, mem⟩ := mem_flatMap.mp mem
    rw [mem_filter] at mem
    exact ⟨x, inSeries, ts, mem.1, mem.2, rfl, by simpa using below⟩
  · rintro ⟨x, inSeries, ts, mem, ok, rfl, below⟩
    exact ⟨⟨ts, mem_flatMap.mpr ⟨x, inSeries, mem_filter.mpr ⟨mem, ok⟩⟩, rfl⟩,
      by simpa using below⟩

theorem emits_recent {b : Int64} : emits now cfg .recent60s b ↔
    (band now cfg .recent).1 ≤ b ∧ b ≤ (band now cfg .recent).2.1 := by
  show (decide (b ≥ (band now cfg .recent).1) && decide (b ≤ (band now cfg .recent).2.1)) = true ↔ _
  rw [Bool.and_eq_true, decide_eq_true_eq, decide_eq_true_eq]

/-- A bucket that may ship has not wrapped. -/
theorem InRange.toInt_bucket (range : InRange now cfg series cursors)
    (ok : emits now cfg tier (tier.bucket ts)) :
    (tier.bucket ts).toInt = tier.bucketInt ts.toInt := by
  have slice := range.slice tier
  have wide := tier.secs_le_width cfg series
  cases tier with
  | recent60s =>
    have hiIs : (band now cfg .recent).2.1.toInt = _ := (range.band_toInt .recent60s).2.1
    have upper := le_iff_toInt_le.mp (emits_recent.mp ok).2
    simp only [BackfillTier.secs, bucket, source] at wide upper ⊢
    rcases toInt_windowStart60s with plain | wrapped
    · exact plain
    · omega
  | rollup1m | rollup1h => rfl

/-- The readings above raw samples lie on the grid of their tier, but for a bucket that wrapped. -/
theorem Content.on_grid (c : Content F) {x : SeriesId} (reading : ts ∈ c.readings tier x)
    (rolled : tier ≠ .recent60s) : ts.toInt % tier.secs = 0 ∨ 2 ^ 63 - tier.secs ≤ ts.toInt := by
  cases tier with
  | recent60s => exact absurd rfl rolled
  | rollup1m | rollup1h =>
    obtain ⟨p, stored, rfl⟩ := mem_map.mp reading
    exact c.aligned _ x p stored

/-- The buckets that are read lie on the grid of their tier. -/
theorem InRange.dvd_bucketInt (range : InRange now cfg series cursors) {xs : List SeriesId}
    {t : Int} (read : t ∈ c.below now cfg xs tier) : tier.secs ∣ tier.bucketInt t := by
  obtain ⟨x, -, ts, reading, -, rfl, below⟩ := mem_below.mp read
  have slice := range.slice tier
  have wide := tier.secs_le_width cfg series
  cases tier with
  | recent60s =>
    simp only [bucketInt, source, BackfillTier.secs]
    omega
  | rollup1m | rollup1h =>
    have grid := c.on_grid reading (by decide)
    simp only [bucketInt, source, BackfillTier.secs] at wide grid ⊢
    omega

/-- The readings of a tier lie on its grid. -/
theorem InRange.slicing (range : InRange now cfg series cursors) (c : Content F)
    (tier : BackfillTier) :
    Slicing tier.secs (· ∈ c.below now cfg series tier) tier.bucketInt
      (c.slice now cfg series tier) := by
  refine slicing_bucketsIn (fun t => ?_) (fun t memT u memU lt => ?_)
    (one_le_bucketsPerBatch cfg series)
  · cases tier <;> simp only [bucketInt, source, BackfillTier.secs] <;> omega
  · have apart := Int.le_of_dvd (Int.sub_pos.mpr lt)
      ((range.dvd_bucketInt memU).sub (range.dvd_bucketInt memT))
    omega

/-! ## The drain at a position -/

def drainAt (c : Content F) (now : Int64) (cfg : BackfillConfig) (series : List SeriesId)
    (cursors : BackfillCursors) (phase : Phase) (pos : Int64) (ready : Bool) : BackfillDrain F :=
  ⟨c.reader, now, cfg, series, cursors, phase, pos, ready⟩

section Drains

variable [Float64 F] [NegInfinity F]

/-- What one read gives: the buckets of the slice, each with readings of the series. -/
theorem InRange.readBuckets (range : InRange now cfg series cursors) (c : Content F)
    (tier : BackfillTier) (start : Int64) {stop : Int64}
    (within : stop.toInt ≤ tier.hi now cfg) (pos : Int64) (ready : Bool) :
    ∃ rows, (drainAt c now cfg series cursors tier.phase pos ready).readBuckets tier
          (band now cfg tier.phase).2.2 start stop = .ok rows ∧
      rows.map (fun r => r.1.toInt) = c.slice now cfg series tier start.toInt stop.toInt ∧
      ∀ r ∈ rows, r.2 ≠ [] ∧ (series.Nodup → (r.2.map Prod.fst).Nodup) ∧
        ∀ e, e ∈ r.2 ↔ e.1 ∈ series ∧ ∃ points,
          readPoints c.reader tier e.1 start stop = .ok points ∧ (r.1, e.2) ∈ points := by
  have each := fun x => readPoints_content c tier x start stop
  choose points reads buckets using each
  obtain ⟨all, read, rows⟩ := readBuckets_ok
    (d := drainAt c now cfg series cursors tier.phase pos ready) (band now cfg tier.phase).2.2
    fun x _ => reads x
  have cap : (drainAt c now cfg series cursors tier.phase pos ready).perBatch.toUInt64.toNat
      = bucketsPerBatch cfg series := range.perBatch.2
  have points_ne_nil (b : Int64) : pointsAt points series b ≠ [] ↔
      ∃ x ∈ series, b ∈ (points x).map Prod.fst := by
    simp [pointsAt, flatMap_eq_nil_iff]
  have keys : all.toList.map (fun r => r.1.toInt)
      = ((((c.below now cfg series tier).filter fun t => start.toInt ≤ t ∧ t < stop.toInt).map
          tier.bucketInt).dedup.insertionSort (· ≤ ·)) := by
    refine eq_of_ascending ?_ (ascending_buckets _) fun b => ?_
    · rw [pairwise_map]
      exact all.ordered_keys_toList.imp fun lt =>
        lt_iff_toInt_lt.mp (Std.compare_eq_lt.mp lt)
    · rw [mem_insertionSort, mem_dedup, mem_map, mem_map]
      constructor
      · rintro ⟨r, stored, rfl⟩
        have here := mem_toList_iff_getElem?_eq_some.mp stored
        rw [rows] at here
        split at here
        next ok =>
          obtain ⟨x, inSeries, mem⟩ := (points_ne_nil r.1).mp ok.2
          obtain ⟨t, reading, inRange, same⟩ := (buckets x r.1).mp mem
          have allowed : emits now cfg tier (tier.bucket t) := by
            rw [same]
            exact ok.1
          have low := le_iff_toInt_le.mp inRange.1
          have high := lt_iff_toInt_lt.mp inRange.2
          refine ⟨t.toInt, mem_filter.mpr ⟨mem_below.mpr ⟨x, inSeries, t, reading, allowed, rfl,
            by omega⟩, by simp [low, high]⟩, ?_⟩
          rw [← range.toInt_bucket allowed, same]
        · cases here
      · rintro ⟨t, mem, rfl⟩
        rw [mem_filter] at mem
        obtain ⟨x, inSeries, ts, reading, allowed, rfl, -⟩ := mem_below.mp mem.1
        have bounds : start.toInt ≤ ts.toInt ∧ ts.toInt < stop.toInt := by simpa using mem.2
        have point := (buckets x (tier.bucket ts)).mpr ⟨ts, reading,
          ⟨le_iff_toInt_le.mpr bounds.1, lt_iff_toInt_lt.mpr bounds.2⟩, rfl⟩
        have here := rows (tier.bucket ts)
        rw [if_pos ⟨allowed, (points_ne_nil _).mpr ⟨x, inSeries, point⟩⟩] at here
        exact ⟨_, mem_toList_iff_getElem?_eq_some.mpr here, range.toInt_bucket allowed⟩
  refine ⟨_, read, ?_, fun r mem => ?_⟩
  · rw [map_take, keys, cap]
    rfl
  · have here := mem_toList_iff_getElem?_eq_some.mp (mem_of_mem_take mem)
    rw [rows] at here
    split at here
    next ok =>
      rw [← Option.some.inj here]
      refine ⟨ok.2, nodup_pointsAt fun x => readPoints_nodup (reads x),
        fun e => BackfillDrain.mem_pointsAt.trans (and_congr_right fun _ => ?_)⟩
      constructor
      · intro point
        exact ⟨_, reads e.1, point⟩
      · rintro ⟨_, read, point⟩
        rw [reads] at read
        cases read
        exact point
    · cases here

/-! ## Whole drains -/

inductive Drains : BackfillDrain F → List (PlannedBatch F) → Prop where
  | drained {d : BackfillDrain F} : d.turn = .ok .drained → Drains d []
  | again {d d' : BackfillDrain F} {bs : List (PlannedBatch F)} :
      d.turn = .ok (.again d') → Drains d' bs → Drains d bs
  | batch {d d' : BackfillDrain F} {b : PlannedBatch F} {bs : List (PlannedBatch F)} :
      d.turn = .ok (.batch b d') → Drains d' bs → Drains d (b :: bs)

variable {bs : List (PlannedBatch F)} {d : BackfillDrain F}

theorem Drains.of_turn {d' : BackfillDrain F} (same : d.turn = d'.turn) (drains : Drains d' bs) :
    Drains d bs := by
  cases drains with
  | drained ended => exact .drained (same.trans ended)
  | again turned rest => exact .again (same.trans turned) rest
  | batch turned rest => exact .batch (same.trans turned) rest

/-- The call of `next_batch` that a drain makes first. -/
theorem Drains.nextBatch (drains : Drains d bs) :
    (bs = [] ∧ ∃ d' fuel, ∀ n ≥ fuel, d.nextBatch n = some (.ok (none, d'))) ∨
      ∃ b rest d', bs = b :: rest ∧ Drains d' rest ∧
        ∃ fuel, ∀ n ≥ fuel, d.nextBatch n = some (.ok (some b, d')) := by
  induction drains with
  | @drained d ended =>
    refine .inl ⟨rfl, d, 1, fun n enough => ?_⟩
    obtain ⟨m, rfl⟩ := Nat.exists_eq_add_of_le' enough
    rw [BackfillDrain.nextBatch, ended]
  | @again d d' bs turned rest ih =>
    have shift {r : Option (PlannedBatch F) × BackfillDrain F} {fuel : Nat}
        (later : ∀ n ≥ fuel, d'.nextBatch n = some (.ok r)) :
        ∀ n ≥ fuel + 1, d.nextBatch n = some (.ok r) := by
      intro n enough
      obtain ⟨m, rfl⟩ := Nat.exists_eq_add_of_le' (Nat.le_trans (Nat.le_add_left 1 fuel) enough)
      rw [BackfillDrain.nextBatch, turned]
      exact later m (by omega)
    rcases ih with ⟨none, last, fuel, ends⟩ | ⟨b, bs', next, cons, drains, fuel, yields⟩
    · exact .inl ⟨none, last, fuel + 1, shift ends⟩
    · exact .inr ⟨b, bs', next, cons, drains, fuel + 1, shift yields⟩
  | @batch d d' b bs turned rest =>
    refine .inr ⟨b, bs, d', rfl, rest, 1, fun n enough => ?_⟩
    obtain ⟨m, rfl⟩ := Nat.exists_eq_add_of_le' enough
    rw [BackfillDrain.nextBatch, turned]

/-- Enough fuel gives all of them. -/
theorem Drains.drainAll (drains : Drains d bs) :
    ∃ fuel, ∀ n ≥ fuel, d.drainAll n = some (.ok bs) := by
  induction bs generalizing d with
  | nil =>
    rcases drains.nextBatch with ⟨-, d', fuel, ends⟩ | ⟨b, rest, d', cons, -⟩
    · refine ⟨fuel + 1, fun n enough => ?_⟩
      obtain ⟨m, rfl⟩ := Nat.exists_eq_add_of_le' (Nat.le_trans (Nat.le_add_left 1 fuel) enough)
      rw [BackfillDrain.drainAll, ends (m + 1) (by omega)]
    · cases cons
  | cons b bs ih =>
    rcases drains.nextBatch with ⟨none, -⟩ | ⟨b', rest, d', cons, later, fuel, yields⟩
    · cases none
    · cases cons
      obtain ⟨fuel', all⟩ := ih later
      refine ⟨fuel + fuel' + 1, fun n enough => ?_⟩
      obtain ⟨m, rfl⟩ :=
        Nat.exists_eq_add_of_le' (Nat.le_trans (Nat.le_add_left 1 (fuel + fuel')) enough)
      rw [BackfillDrain.drainAll, yields (m + 1) (by omega)]
      simp only [all m (by omega)]

/-! ## One tier -/

/-- The batch of a slice: the rows read at a position, cut at the end of the band. -/
def BatchAt (c : Content F) (now : Int64) (cfg : BackfillConfig) (series : List SeriesId)
    (cursors : BackfillCursors) (tier : BackfillTier) (at_ : Int) (b : PlannedBatch F) : Prop :=
  ∃ pos stop rows newest, pos.toInt = at_ ∧
    stop.toInt = min (at_ + tier.width cfg series) (tier.hi now cfg) ∧
    (drainAt c now cfg series cursors tier.phase pos true).readBuckets tier
      (band now cfg tier.phase).2.2 pos stop = .ok rows ∧
    rows.getLast? = some newest ∧ b = ⟨tier, rows.flatMap BackfillDrain.bucketSamples, newest.1⟩

abbrev Content.found (c : Content F) (now : Int64) (cfg : BackfillConfig) (series : List SeriesId)
    (tier : BackfillTier) (pos : Int) : List Int :=
  sliceAt (tier.width cfg series) (tier.hi now cfg) (c.slice now cfg series tier) pos

def readEnd (now : Int64) (cfg : BackfillConfig) (series : List SeriesId) (tier : BackfillTier)
    (pos : Int64) : Int64 :=
  min (pos + (band now cfg tier.phase).2.2 * Int64.ofNat (bucketsPerBatch cfg series))
    (band now cfg tier.phase).2.1

variable {pos : Int64}

theorem InRange.toInt_readEnd (range : InRange now cfg series cursors) (tier : BackfillTier)
    (inside : pos.toInt ≤ tier.hi now cfg) :
    (readEnd now cfg series tier pos).toInt
      = min (pos.toInt + tier.width cfg series) (tier.hi now cfg) := by
  obtain ⟨-, hiIs, stepIs⟩ := range.band_toInt tier
  have positive := tier.secs_pos
  have wide := tier.secs_le_width cfg series
  have small := range.width tier
  have slice := range.slice tier
  have low := le_toInt pos
  have product : (band now cfg tier.phase).2.2.toInt
      * (Int64.ofNat (bucketsPerBatch cfg series)).toInt = tier.width cfg series := by
    rw [stepIs, range.perBatch.1]
    rfl
  have width := toInt_mul_of_range (a := (band now cfg tier.phase).2.2)
    (b := Int64.ofNat (bucketsPerBatch cfg series)) (by omega) (by omega)
  rw [product] at width
  have sum := toInt_add_of_range (a := pos) (b := (band now cfg tier.phase).2.2
    * Int64.ofNat (bucketsPerBatch cfg series)) (by omega) (by omega)
  rw [← width, ← sum, ← hiIs, readEnd, min_eq_if, min_def]
  simp only [le_iff_toInt_le]
  split <;> rfl

theorem turn_ready : (drainAt c now cfg series cursors tier.phase pos true).turn
    = (drainAt c now cfg series cursors tier.phase pos true).turnAt tier := by
  rw [turn]
  simp only [drainAt, tier_phase, if_true]

theorem turn_unready : (drainAt c now cfg series cursors tier.phase pos false).turn
    = (drainAt c now cfg series cursors tier.phase
        ((drainAt c now cfg series cursors tier.phase pos false).resume tier) true).turn := by
  rw [turn_ready, turn]
  simp only [drainAt, tier_phase, Bool.false_eq_true, if_false]

section

variable (range : InRange now cfg series cursors)
include range

/-- What a turn inside the band reads, and what comes of it. -/
theorem InRange.turn_read (inside : pos.toInt ≤ tier.hi now cfg) :
    ∃ rows, (drainAt c now cfg series cursors tier.phase pos true).readBuckets tier
        (band now cfg tier.phase).2.2 pos (readEnd now cfg series tier pos) = .ok rows ∧
      rows.map (fun r => r.1.toInt) = c.found now cfg series tier pos.toInt ∧
      (drainAt c now cfg series cursors tier.phase pos true).turn = match rows.getLast? with
        | none =>
          if readEnd now cfg series tier pos ≥ (band now cfg tier.phase).2.1 then
            .ok (.again (drainAt c now cfg series cursors tier.phase.next pos false))
          else .ok (.again (drainAt c now cfg series cursors tier.phase
            (readEnd now cfg series tier pos + (band now cfg tier.phase).2.2) true))
        | some newest =>
          .ok (.batch ⟨tier, rows.flatMap bucketSamples, newest.1⟩
            (drainAt c now cfg series cursors tier.phase
              (newest.1 + (band now cfg tier.phase).2.2) true)) := by
  obtain ⟨-, hiIs, -⟩ := range.band_toInt tier
  have ends := range.toInt_readEnd tier inside
  obtain ⟨rows, read, keys, -⟩ := range.readBuckets c tier pos
    (show (readEnd now cfg series tier pos).toInt ≤ _ by omega) pos true
  rw [ends] at keys
  have notPast : ¬ pos > (band now cfg tier.phase).2.1 := by
    intro past
    have := lt_iff_toInt_lt.mp past
    omega
  refine ⟨rows, read, keys, ?_⟩
  rw [turn_ready, turnAt]
  exact (if_neg notPast).trans (congrArg (· >>= _) read)

theorem InRange.turn_past (past : tier.hi now cfg < pos.toInt) :
    (drainAt c now cfg series cursors tier.phase pos true).turn
      = .ok (.again (drainAt c now cfg series cursors tier.phase.next pos false)) := by
  have hiIs := (range.band_toInt tier).2.1
  have above : pos > (band now cfg tier.phase).2.1 := lt_iff_toInt_lt.mpr (by omega)
  rw [turn_ready, turnAt]
  exact if_pos above

/-- A turn that finds nothing. -/
theorem InRange.turn_empty (inside : pos.toInt ≤ tier.hi now cfg)
    (none : c.found now cfg series tier pos.toInt = []) :
    (tier.hi now cfg ≤ pos.toInt + tier.width cfg series →
      (drainAt c now cfg series cursors tier.phase pos true).turn
        = .ok (.again (drainAt c now cfg series cursors tier.phase.next pos false))) ∧
    (pos.toInt + tier.width cfg series < tier.hi now cfg →
      ∃ pos', pos'.toInt = pos.toInt + tier.width cfg series + tier.secs ∧
        (drainAt c now cfg series cursors tier.phase pos true).turn
          = .ok (.again (drainAt c now cfg series cursors tier.phase pos' true))) := by
  obtain ⟨-, hiIs, stepIs⟩ := range.band_toInt tier
  have ends := range.toInt_readEnd tier inside
  obtain ⟨rows, -, keys, turned⟩ := range.turn_read (c := c) inside
  rw [turned, map_eq_nil_iff.mp (keys.trans none)]
  constructor
  · intro short
    have last : readEnd now cfg series tier pos ≥ (band now cfg tier.phase).2.1 :=
      le_iff_toInt_le.mpr (by omega)
    simp [last]
  · intro room
    have slice := range.slice tier
    have positive := tier.secs_pos
    have wide := tier.secs_le_width cfg series
    have more : ¬ readEnd now cfg series tier pos ≥ (band now cfg tier.phase).2.1 := by
      intro last
      have := le_iff_toInt_le.mp last
      omega
    have low := le_toInt pos
    refine ⟨readEnd now cfg series tier pos + (band now cfg tier.phase).2.2, ?_, by simp [more]⟩
    rw [toInt_add_of_range (by omega) (by omega)]
    omega

/-- A turn that finds something. -/
theorem InRange.turn_ship (inside : pos.toInt ≤ tier.hi now cfg)
    (some : c.found now cfg series tier pos.toInt ≠ []) :
    ∃ pos' b, pos'.toInt = (c.found now cfg series tier pos.toInt).getLast some + tier.secs ∧
      BatchAt c now cfg series cursors tier pos.toInt b ∧
      (drainAt c now cfg series cursors tier.phase pos true).turn
        = .ok (.batch b (drainAt c now cfg series cursors tier.phase pos' true)) := by
  obtain ⟨-, hiIs, stepIs⟩ := range.band_toInt tier
  obtain ⟨rows, read, keys, turned⟩ := range.turn_read (c := c) inside
  have rowsSome : rows ≠ [] := by
    rintro rfl
    exact some keys.symm
  have last : rows.getLast? = Option.some (rows.getLast rowsSome) :=
    List.getLast?_eq_some_getLast rowsSome
  have newest : (rows.getLast rowsSome).1.toInt = (c.found now cfg series tier pos.toInt).getLast
      some := by
    have mapped : rows.map (fun r => r.1.toInt) ≠ [] :=
      fun none => rowsSome (map_eq_nil_iff.mp none)
    have both := getLast_map (f := fun r : Int64 × List (BucketReduction F) => r.1.toInt) mapped
    rw [← both]
    congr 1
  have span : pos.toInt < (c.found now cfg series tier pos.toInt).getLast some + tier.secs ∧
      (c.found now cfg series tier pos.toInt).getLast some < tier.hi now cfg :=
    (range.slicing c tier).getLast_span some
  have slice := range.slice tier
  have wide := tier.secs_le_width cfg series
  have low := le_toInt pos
  refine ⟨(rows.getLast rowsSome).1 + (band now cfg tier.phase).2.2, _, ?_,
    ⟨pos, readEnd now cfg series tier pos, rows, _, rfl,
      range.toInt_readEnd tier inside, read, last, rfl⟩, ?_⟩
  · rw [toInt_add_of_range (by omega) (by omega), newest, stepIs]
  · rw [turned, last]

/-- A walk over a tier, and the drain that follows it. -/
theorem InRange.drains_tier {q : Int} {out : List Int}
    (walk : SliceWalk tier.secs (tier.width cfg series) (tier.hi now cfg)
      (c.slice now cfg series tier) q out) {rest : List (PlannedBatch F)}
    (after : ∀ pos, Drains (drainAt c now cfg series cursors tier.phase.next pos false) rest)
    (at_ : pos.toInt = q) :
    ∃ batches, List.Forall₂ (BatchAt c now cfg series cursors tier) out batches ∧
      Drains (drainAt c now cfg series cursors tier.phase pos true) (batches ++ rest) := by
  induction walk generalizing pos with
  | past above =>
    subst at_
    exact ⟨[], .nil, .again (range.turn_past above) (after pos)⟩
  | last inside short none =>
    subst at_
    exact ⟨[], .nil, .again ((range.turn_empty inside none).1 short) (after pos)⟩
  | skip room none _ ih =>
    subst at_
    have positive := tier.secs_pos
    have wide := tier.secs_le_width cfg series
    obtain ⟨pos', next, turned⟩ := (range.turn_empty (by omega) none).2 room
    obtain ⟨batches, paired, drains⟩ := ih next
    exact ⟨batches, paired, .again turned drains⟩
  | ship inside some _ ih =>
    subst at_
    obtain ⟨pos', b, next, batch, turned⟩ := range.turn_ship inside some
    obtain ⟨batches, paired, drains⟩ := ih next
    exact ⟨b :: batches, .cons batch paired, .batch turned drains⟩

def BackfillTier.resumeAt (now : Int64) (cfg : BackfillConfig) (cursors : BackfillCursors)
    (tier : BackfillTier) : Int :=
  match cursors.get tier with
  | none => tier.lo now cfg
  | some c => max (c.toInt + tier.secs) (tier.lo now cfg)

omit [Float64 F] [NegInfinity F] in
/-- A phase starts behind the watermark, inside its band. -/
theorem InRange.toInt_resume (c : Content F) (tier : BackfillTier) (pos : Int64) :
    ((drainAt c now cfg series cursors tier.phase pos false).resume tier).toInt
      = tier.resumeAt now cfg cursors := by
  obtain ⟨loIs, -, stepIs⟩ := range.band_toInt tier
  unfold resume resumeAt
  simp only [drainAt]
  cases cursor : cursors.get tier with
  | none => exact loIs
  | some k =>
    have fits := range.cursor tier k cursor
    have positive := tier.secs_pos
    have low := le_toInt k
    have sum := toInt_add_of_range (a := k)
      (b := (band now cfg tier.phase).2.2) (by omega) (by omega)
    simp only
    rw [← stepIs, ← sum, ← loIs, max_eq_if, max_def]
    simp only [le_iff_toInt_le]
    split <;> rfl

/-- The walks of the three tiers make up a drain. -/
theorem InRange.drains_of_walks {out : BackfillTier → List Int}
    (walk : ∀ tier : BackfillTier, SliceWalk tier.secs (tier.width cfg series) (tier.hi now cfg)
      (c.slice now cfg series tier) (tier.resumeAt now cfg cursors) (out tier)) :
    ∃ batches : BackfillTier → List (PlannedBatch F),
      (∀ tier, List.Forall₂ (BatchAt c now cfg series cursors tier) (out tier) (batches tier)) ∧
      Drains (BackfillDrain.new c.reader now cfg series cursors)
        (batches .recent60s ++ (batches .rollup1m ++ (batches .rollup1h ++ []))) := by
  have ends (pos : Int64) : Drains (drainAt c now cfg series cursors .done pos false) [] :=
    .drained rfl
  -- a tier in front of what drains after it
  have lead (tier : BackfillTier) {rest : List (PlannedBatch F)}
      (after : ∀ pos, Drains (drainAt c now cfg series cursors tier.phase.next pos false) rest) :
      ∃ batches, List.Forall₂ (BatchAt c now cfg series cursors tier) (out tier) batches ∧
        ∀ pos, Drains (drainAt c now cfg series cursors tier.phase pos false)
        (batches ++ rest) := by
    obtain ⟨batches, paired, drains⟩ := range.drains_tier (walk tier) after
      (range.toInt_resume c tier 0)
    exact ⟨batches, paired, fun pos => .of_turn turn_unready drains⟩
  obtain ⟨old, oldAt, oldDrains⟩ := lead .rollup1h ends
  obtain ⟨mid, midAt, midDrains⟩ := lead .rollup1m oldDrains
  obtain ⟨recent, recentAt, recentDrains⟩ := lead .recent60s midDrains
  refine ⟨fun tier => match tier with
    | .recent60s => recent
    | .rollup1m => mid
    | .rollup1h => old, fun tier => ?_, recentDrains 0⟩
  cases tier with
  | recent60s => exact recentAt
  | rollup1m => exact midAt
  | rollup1h => exact oldAt

/-- The walks of the three tiers, and the drain they make up. -/
theorem InRange.drains (c : Content F) :
    ∃ (out : BackfillTier → List Int) (batches : BackfillTier → List (PlannedBatch F)),
      (∀ tier, SliceWalk tier.secs (tier.width cfg series) (tier.hi now cfg)
        (c.slice now cfg series tier) (tier.resumeAt now cfg cursors) (out tier)) ∧
      (∀ tier, List.Forall₂ (BatchAt c now cfg series cursors tier) (out tier) (batches tier)) ∧
      Drains (BackfillDrain.new c.reader now cfg series cursors)
        (batches .recent60s ++ (batches .rollup1m ++ (batches .rollup1h ++ []))) := by
  have walks := fun tier : BackfillTier => exists_sliceWalk (tier.hi now cfg)
    (range.slicing c tier) tier.secs_pos (tier.secs_le_width cfg series)
    (tier.resumeAt now cfg cursors)
  choose out walk using walks
  obtain ⟨batches, paired, drains⟩ := range.drains_of_walks walk
  exact ⟨out, batches, walk, paired, drains⟩

end

omit [Float64 F] [NegInfinity F] in
theorem exists_pair {α β : Type} {R : α → β → Prop} {xs : List α} {ys : List β}
    (paired : List.Forall₂ R xs ys) {y : β} (mem : y ∈ ys) : ∃ x ∈ xs, R x y := by
  induction paired with
  | nil => cases mem
  | @cons x _ _ _ related _ ih =>
    rcases mem_cons.mp mem with rfl | later
    · exact ⟨x, mem_cons_self, related⟩
    · obtain ⟨x', inside, related'⟩ := ih later
      exact ⟨x', .tail _ inside, related'⟩

/-- Every batch of a drain is that of a slice. -/
theorem exists_batchAt {out : BackfillTier → List Int}
    {batches : BackfillTier → List (PlannedBatch F)}
    (paired : ∀ tier,
      List.Forall₂ (BatchAt c now cfg series cursors tier) (out tier) (batches tier))
    {b : PlannedBatch F}
    (mem : b ∈ batches .recent60s ++ (batches .rollup1m ++ (batches .rollup1h ++ []))) :
    ∃ tier, ∃ p ∈ out tier, BatchAt c now cfg series cursors tier p b := by
  obtain ⟨tier, own⟩ : ∃ tier, b ∈ batches tier := by
    simp only [append_nil, mem_append] at mem
    rcases mem with recent | mid | old
    · exact ⟨_, recent⟩
    · exact ⟨_, mid⟩
    · exact ⟨_, old⟩
  exact ⟨tier, exists_pair (paired tier) own⟩

end Drains

end OpenGate.Backfill
