import OpenGate.Backfill.Walk
import OpenGate.Tsdb.Whole

/-!
# What a complete drain ships

A drain called until it is drained, compared with the buckets that are pending.
What it ships is pending, ascending and shipped once; what it leaves behind are the
buckets whose readings lie only in the gaps between slices that were empty, or
behind the end of the band.
-/

namespace OpenGate.Backfill

open OpenGate.Tsdb OpenGate.Lib Std BackfillDrain PlannedBatch List

variable {F : Type}

/-! ## Pending and shipped buckets -/

def behind (watermark : Option Int64) (b : Int64) : Bool :=
  match watermark with
  | none => true
  | some c => c < b

/-- The buckets of a tier that hold data, may ship and start after the tier's cursor,
ascending. -/
def Content.pending (c : Content F) (now : Int64) (cfg : BackfillConfig) (series : List SeriesId)
    (cursors : BackfillCursors) (tier : BackfillTier) : List Int64 :=
  ((series.flatMap fun x => (c.readings tier x).map tier.bucket).filter fun b =>
    emits now cfg tier b && behind (cursors.get tier) b).dedup.insertionSort (· ≤ ·)

def PlannedBatch.buckets (b : PlannedBatch F) : List Int64 :=
  (b.samples.map BackfillSample.ts).dedup

/-- The timestamps a batch carries of a series. -/
def PlannedBatch.of (b : PlannedBatch F) (x : SeriesId) : List Int64 :=
  (b.samples.filter fun s => seriesDimName x = some s.name).map BackfillSample.ts

def shippedOf (batches : List (PlannedBatch F)) (tier : BackfillTier) (x : SeriesId) : List Int64 :=
  (batches.filter fun b => b.tier = tier).flatMap (·.of x)

/-- Every pending bucket of a tier has a reading that is in no gap.  From the end of
the pending bucket before it (the first: from where the tier resumes) a slice is
read, and then nothing for one step, over and over. -/
def Unskipped (c : Content F) (now : Int64) (cfg : BackfillConfig) (series : List SeriesId)
    (cursors : BackfillCursors) (tier : BackfillTier) : Prop :=
  Ungapped tier.secs (tier.width cfg series) (tier.hi now cfg)
    (· ∈ c.below now cfg series tier) tier.bucketInt (tier.resumeAt now cfg cursors)
    ((c.pending now cfg series cursors tier).map Int64.toInt)

/-- Every pending bucket of a series has a reading of it, which the first slice holds if that ships
the bucket.  It starts where the tier resumes, which need not be on the grid, and may cut a bucket
between the readings of two series. -/
def Carried (c : Content F) (now : Int64) (cfg : BackfillConfig) (series : List SeriesId)
    (cursors : BackfillCursors) (tier : BackfillTier) (x : SeriesId) : Prop :=
  ∀ b ∈ c.pending now cfg [x] cursors tier, ∃ t, t ∈ c.below now cfg [x] tier ∧
    tier.bucketInt t = b.toInt ∧ ∀ p, FirstSlice tier.secs (tier.width cfg series) (tier.hi now cfg)
        (· ∈ c.below now cfg series tier) (tier.resumeAt now cfg cursors) p →
      b.toInt ∈ c.found now cfg series tier p → p ≤ t ∧ t < p + tier.width cfg series

/-- The buckets a slice ships of a series. -/
def Content.foundOf (c : Content F) (now : Int64) (cfg : BackfillConfig) (series : List SeriesId)
    (tier : BackfillTier) (x : SeriesId) (p : Int) : List Int :=
  (c.found now cfg series tier p).filter fun b => ∃ t ∈ c.below now cfg [x] tier,
    tier.bucketInt t = b ∧ p ≤ t ∧ t < p + tier.width cfg series

instance (c : Content F) (now : Int64) (cfg : BackfillConfig) (series : List SeriesId)
    (cursors : BackfillCursors) (tier : BackfillTier) :
    Decidable (Unskipped c now cfg series cursors tier) :=
  inferInstanceAs (Decidable (Ungapped ..))

theorem mem_pending {c : Content F} {now : Int64} {cfg : BackfillConfig} {series : List SeriesId}
    {cursors : BackfillCursors} {tier : BackfillTier} {b : Int64} :
    b ∈ c.pending now cfg series cursors tier ↔
      (∃ x ∈ series, ∃ t ∈ c.readings tier x, tier.bucket t = b) ∧ emits now cfg tier b ∧
        behind (cursors.get tier) b := by
  rw [Content.pending, mem_insertionSort, mem_dedup, mem_filter, mem_flatMap,
    Bool.and_eq_true]
  simp only [mem_map]

theorem pending_ascending {c : Content F} {now : Int64} {cfg : BackfillConfig}
    {series : List SeriesId} {cursors : BackfillCursors} {tier : BackfillTier} :
    ((c.pending now cfg series cursors tier).map Int64.toInt).Pairwise (· < ·) := by
  have sorted : (c.pending now cfg series cursors tier).Pairwise (· ≤ ·) :=
    pairwise_insertionSort _ _
  have distinct : (c.pending now cfg series cursors tier).Pairwise (· ≠ ·) :=
    (perm_insertionSort _ _).nodup_iff.mpr (nodup_dedup _)
  rw [pairwise_map]
  refine (sorted.and distinct).imp fun {a b} both => ?_
  have le := Int64.le_iff_toInt_le.mp both.1
  have ne : a.toInt ≠ b.toInt := fun same => both.2 (Int64.toInt_inj.mp same)
  omega

/-! ## The buckets of a batch -/

theorem ts_of_mem_bucketSamples {r : Int64 × List (BucketReduction F)} {s : BackfillSample F}
    (mem : s ∈ bucketSamples r) : s.ts = r.1 := by
  have one {name : Option String} {v : F} (own : s ∈ name.elim [] fun n => [⟨n, r.1, v⟩]) :
      s.ts = r.1 := by
    cases name with
    | none => cases own
    | some n => rw [mem_singleton.mp own]
  obtain ⟨e, -, inside⟩ := mem_flatMap.mp mem
  exact (mem_append.mp inside).elim one one

/-- A bucket with a reading of a known series has samples. -/
theorem getLast?_bucketSamples {r : Int64 × List (BucketReduction F)} (some : r.2 ≠ [])
    (known : ∀ e ∈ r.2, (seriesDimName e.1).isSome) :
    ((bucketSamples r).map BackfillSample.ts).getLast? = .some r.1 := by
  obtain ⟨e, mem⟩ := exists_mem_of_ne_nil _ some
  obtain ⟨name, is⟩ := Option.isSome_iff_exists.mp (known e mem)
  have sample : (⟨name, r.1, e.2.1⟩ : BackfillSample F) ∈ bucketSamples r := by
    refine mem_flatMap.mpr ⟨e, mem, mem_append_left _ ?_⟩
    rw [is]
    exact mem_cons_self
  rw [List.getLast?_map, List.getLast?_eq_some_getLast (ne_nil_of_mem sample), Option.map_some,
    ts_of_mem_bucketSamples (getLast_mem _)]

/-- The names of two series differ, and the name of a maximum is none of a series. -/
theorem seriesDimName_inj {x y : SeriesId} (known : (seriesDimName x).isSome) :
    (seriesDimName x = seriesDimName y → x = y) ∧ seriesDimName x ≠ seriesMaxDimName y := by
  have listed {z : SeriesId} : (seriesDimName z).isSome → z ∈ backfillSeries := by
    unfold seriesDimName
    split <;> simp [backfillSeries]
  have max {z : SeriesId} : (seriesMaxDimName z).isSome → z ∈ backfillSeries := by
    unfold seriesMaxDimName
    split <;> simp [backfillSeries]
  have apart : backfillSeries.all fun x => backfillSeries.all fun y =>
      (seriesDimName x = seriesDimName y → x = y) ∧ seriesDimName x ≠ seriesMaxDimName y := by
    decide +kernel
  simp only [all_eq_true, decide_eq_true_eq] at apart
  constructor
  · intro same
    exact (apart x (listed known) y (listed (same ▸ known))).1 same
  · intro same
    exact (apart x (listed known) y (max (same ▸ known))).2 same

/-- What a bucket ships of a series. -/
theorem of_bucketSamples {r : Int64 × List (BucketReduction F)} {x : SeriesId}
    (known : (seriesDimName x).isSome) (distinct : (r.2.map Prod.fst).Nodup) :
    ((bucketSamples r).filter fun s => seriesDimName x = some s.name).map BackfillSample.ts
      = if x ∈ r.2.map Prod.fst then [r.1] else [] := by
  have one (name : Option String) (v : F) :
      ((name.elim [] fun n => [(⟨n, r.1, v⟩ : BackfillSample F)]).filter
        fun s => seriesDimName x = some s.name).map BackfillSample.ts
        = if seriesDimName x = name then [r.1] else [] := by
    cases name with
    | none => rw [if_neg (Option.isSome_iff_ne_none.mp known)]; rfl
    | some n => by_cases same : seriesDimName x = some n <;> simp [same]
  have count (es : List (BucketReduction F)) :
      ((bucketSamples (r.1, es)).filter fun s => seriesDimName x = some s.name).map
        BackfillSample.ts = List.replicate ((es.map Prod.fst).count x) r.1 := by
    induction es with
    | nil => rfl
    | cons e es ih =>
      have apart := seriesDimName_inj (y := e.1) known
      have own : seriesDimName x = seriesDimName e.1 ↔ e.1 = x :=
        ⟨fun same => (apart.1 same).symm, fun same => by rw [same]⟩
      unfold bucketSamples at ih ⊢
      rw [flatMap_cons, filter_append, filter_append, map_append, map_append, one, one,
        if_neg apart.2, append_nil, ih, map_cons, count_cons]
      by_cases same : e.1 = x <;> simp [own, same, replicate_succ]
  rw [count r.2, distinct.count]
  split <;> rfl

section Batches

variable [Float64 F] [NegInfinity F] {now : Int64} {cfg : BackfillConfig} {series : List SeriesId}
  {cursors : BackfillCursors} {c : Content F} {tier : BackfillTier} {x : SeriesId}

section

variable (range : InRange now cfg series cursors) {out : List Int}
include range

omit [Float64 F] [NegInfinity F] in
/-- Readings of a series that may ship, by their bucket. -/
theorem InRange.mem_below_bucket {b : Int64} (ok : emits now cfg tier b) {P : Int → Prop} :
    (∃ t ∈ c.below now cfg [x] tier, tier.bucketInt t = b.toInt ∧ P t) ↔
      ∃ t ∈ c.readings tier x, tier.bucket t = b ∧ t.toInt < tier.hi now cfg ∧ P t.toInt := by
  constructor
  · rintro ⟨t, read, same, holds⟩
    obtain ⟨y, own, ts, reading, allowed, rfl, below⟩ := mem_below.mp read
    cases mem_singleton.mp own
    rw [← range.toInt_bucket allowed, Int64.toInt_inj] at same
    exact ⟨ts, reading, same, below, holds⟩
  · rintro ⟨ts, reading, rfl, below, holds⟩
    exact ⟨ts.toInt, mem_below.mpr ⟨x, mem_singleton_self x, ts, reading, ok, rfl, below⟩,
      (range.toInt_bucket ok).symm, holds⟩

/-- The series of a bucket that is read are those with a reading of it in the slice. -/
theorem InRange.row_of_iff {pos stop : Int64} {r : Int64 × List (BucketReduction F)}
    (listed : x ∈ series)
    (stopIs : stop.toInt = min (pos.toInt + tier.width cfg series) (tier.hi now cfg))
    (ok : emits now cfg tier r.1) (entries : ∀ e, e ∈ r.2 ↔ e.1 ∈ series ∧ ∃ points,
      readPoints c.reader tier e.1 pos stop = .ok points ∧ (r.1, e.2) ∈ points) :
    x ∈ r.2.map Prod.fst ↔ ∃ t ∈ c.below now cfg [x] tier, tier.bucketInt t = r.1.toInt ∧
      pos.toInt ≤ t ∧ t < pos.toInt + tier.width cfg series := by
  obtain ⟨points, readX, buckets⟩ := readPoints_content c tier x pos stop
  have own : x ∈ r.2.map Prod.fst ↔ r.1 ∈ points.map Prod.fst := by
    constructor
    · intro own
      obtain ⟨e, inside, rfl⟩ := mem_map.mp own
      obtain ⟨-, points', again, point⟩ := (entries e).mp inside
      cases readX.symm.trans again
      exact mem_map.mpr ⟨_, point, rfl⟩
    · intro own
      obtain ⟨point, stored, same⟩ := mem_map.mp own
      refine mem_map.mpr ⟨(x, point.2), (entries _).mpr ⟨listed, points, readX, ?_⟩, rfl⟩
      rw [← same]
      exact stored
  rw [own, buckets, range.mem_below_bucket ok]
  refine exists_congr fun t => and_congr_right fun _ => ?_
  rw [Int64.le_iff_toInt_le, Int64.lt_iff_toInt_lt, stopIs, lt_min_iff]
  tauto

/-- The batch of a slice ships the slice's buckets, each of the series with a reading of it in
the slice, and ends at the newest. -/
theorem InRange.batchAt (known : ∀ x ∈ series, (seriesDimName x).isSome) (nodup : series.Nodup)
    {p : Int} {b : PlannedBatch F} (batch : BatchAt c now cfg series cursors tier p b) :
    b.tier = tier ∧ (b.samples.map BackfillSample.ts).getLast? = some b.cursor ∧
      (∀ s ∈ b.samples, s.ts.toInt ∈ c.found now cfg series tier p) ∧
      ∀ x ∈ series, (b.of x).map Int64.toInt = c.foundOf now cfg series tier x p := by
  obtain ⟨pos, stop, rows, newest, rfl, stopIs, read, last, rfl⟩ := batch
  obtain ⟨rows', read', keys, entries⟩ := range.readBuckets c tier pos
    (show stop.toInt ≤ tier.hi now cfg by omega) pos true
  rw [read] at read'
  cases read'
  rw [stopIs] at keys
  refine ⟨rfl, ?_, fun s mem => ?_, fun x listed => ?_⟩
  · obtain ⟨front, rfl⟩ := List.getLast?_eq_some_iff.mp last
    have newestIn : newest ∈ front ++ [newest] := mem_append_right _ mem_cons_self
    rw [flatMap_append, flatMap_singleton, map_append, List.getLast?_append,
      getLast?_bucketSamples (entries newest newestIn).1 fun e inside =>
        known e.1 (((entries newest newestIn).2.2 e).mp inside).1]
    rfl
  · obtain ⟨r, row, inside⟩ := mem_flatMap.mp mem
    rw [ts_of_mem_bucketSamples inside, Content.found, sliceAt, ← keys]
    exact mem_map.mpr ⟨r, row, rfl⟩
  · have each : ∀ r ∈ rows, _ := fun r mem =>
      of_bucketSamples (known x listed) ((entries r mem).2.1 nodup)
    have picked (rows : List (Int64 × List (BucketReduction F))) :
        (rows.flatMap fun r => if x ∈ r.2.map Prod.fst then [r.1] else [])
          = (rows.filter fun r => x ∈ r.2.map Prod.fst).map Prod.fst := by
      induction rows with
      | nil => rfl
      | cons r rows ih =>
        rw [flatMap_cons, ih, filter_cons]
        by_cases own : x ∈ r.2.map Prod.fst <;> simp only [own, if_true, decide_true] <;> rfl
    rw [PlannedBatch.of, filter_flatMap, map_flatMap, flatMap_congr each, picked, map_map,
      Content.foundOf, Content.found, sliceAt, ← keys, filter_map]
    refine congrArg _ (filter_congr fun r mem => decide_eq_decide.mpr ?_)
    refine range.row_of_iff listed stopIs ?_ (entries r mem).2.2
    obtain ⟨t, read, -, -, same⟩ := (range.slicing c tier).sound (keys ▸ mem_map_of_mem mem)
    obtain ⟨y, -, ts, -, allowed, rfl, -⟩ := mem_below.mp read
    rw [← range.toInt_bucket allowed, Int64.toInt_inj] at same
    exact same ▸ allowed

theorem InRange.batches (known : ∀ x ∈ series, (seriesDimName x).isSome) (nodup : series.Nodup)
    {bs : List (PlannedBatch F)}
    (paired : List.Forall₂ (BatchAt c now cfg series cursors tier) out bs) :
    (∀ b ∈ bs, b.tier = tier) ∧ ∀ x ∈ series, (bs.flatMap (·.of x)).map Int64.toInt
      = out.flatMap (c.foundOf now cfg series tier x) := by
  induction paired with
  | nil => exact ⟨forall_mem_nil _, fun _ _ => rfl⟩
  | cons batch _ ih =>
    obtain ⟨own, -, -, ships⟩ := range.batchAt known nodup batch
    refine ⟨forall_mem_cons.mpr ⟨own, ih.1⟩, fun x listed => ?_⟩
    rw [flatMap_cons, map_append, ih.2 x listed, ships x listed, flatMap_cons]

omit [Float64 F] [NegInfinity F] in
/-- A reading ahead of where the tier resumes is of a pending bucket. -/
theorem InRange.below_pending {t : Int} (read : t ∈ c.below now cfg series tier)
    (ahead : tier.resumeAt now cfg cursors ≤ t) :
    tier.bucketInt t ∈ (c.pending now cfg series cursors tier).map Int64.toInt := by
  have span := (range.slicing c tier).span t
  obtain ⟨x, inSeries, ts, reading, ok, rfl, -⟩ := mem_below.mp read
  refine mem_map.mpr ⟨tier.bucket ts, mem_pending.mpr ⟨⟨x, inSeries, ts, reading, rfl⟩, ok, ?_⟩,
    range.toInt_bucket ok⟩
  unfold BackfillTier.resumeAt at ahead
  cases cursor : cursors.get tier with
  | none => rfl
  | some k =>
    rw [cursor] at ahead
    have after : k < tier.bucket ts := by
      rw [Int64.lt_iff_toInt_lt, range.toInt_bucket ok]
      dsimp only at ahead
      omega
    simpa [behind] using after

section

variable (walk : SliceWalk tier.secs (tier.width cfg series) (tier.hi now cfg)
  (c.slice now cfg series tier) (tier.resumeAt now cfg cursors) out)
include walk

omit [Float64 F] [NegInfinity F] in
/-- A walk over a tier ships what is pending exactly when none of it is skipped. -/
theorem InRange.ships_pending_iff :
    (∀ b ∈ (c.pending now cfg series cursors tier).map Int64.toInt,
        b ∈ shipped (tier.width cfg series) (tier.hi now cfg) (c.slice now cfg series tier) out)
      ↔ Unskipped c now cfg series cursors tier := by
  have slicing := range.slicing c tier
  have complete (read : ∀ b ∈ (c.pending now cfg series cursors tier).map Int64.toInt,
      ∃ t, t ∈ c.below now cfg series tier ∧ tier.bucketInt t = b) :=
    walk.complete_iff slicing tier.secs_pos (tier.secs_le_width cfg series)
      ⟨pending_ascending, read, fun t is low => range.below_pending is low⟩
  constructor
  · intro all
    refine (complete fun b mem => ?_).mp all
    obtain ⟨t, read, -, -, is⟩ :=
      walk.sound slicing tier.secs_pos (tier.secs_le_width cfg series) b (all b mem)
    exact ⟨t, read, is⟩
  · intro unskipped
    exact (complete unskipped.read).mpr unskipped

omit [Float64 F] [NegInfinity F] in
/-- What a walk ships of a series is pending. -/
theorem InRange.foundOf_pending {p : Int} (here : p ∈ out) {b : Int}
    (own : b ∈ c.foundOf now cfg series tier x p) :
    b ∈ (c.pending now cfg [x] cursors tier).map Int64.toInt := by
  obtain ⟨found, holds⟩ := mem_filter.mp own
  obtain ⟨t, read, ahead, -, rfl⟩ := walk.sound (range.slicing c tier) tier.secs_pos
    (tier.secs_le_width cfg series) b (mem_flatMap.mpr ⟨p, here, found⟩)
  obtain ⟨k, pending, same⟩ := mem_map.mp (range.below_pending read ahead)
  obtain ⟨-, ok, after⟩ := mem_pending.mp pending
  rw [← same, decide_eq_true_eq, range.mem_below_bucket ok] at holds
  obtain ⟨ts, reading, is, -⟩ := holds
  rw [← same]
  exact mem_map_of_mem (mem_pending.mpr ⟨⟨x, mem_singleton_self x, ts, reading, is⟩, ok, after⟩)

omit [Float64 F] [NegInfinity F] in
/-- A walk over a tier ships of each series what is pending of it, exactly when no bucket is
skipped and the slices carry every series of it. -/
theorem InRange.shipped_iff :
    (∀ x ∈ series, out.flatMap (c.foundOf now cfg series tier x)
        = (c.pending now cfg [x] cursors tier).map Int64.toInt)
      ↔ Unskipped c now cfg series cursors tier ∧
        ∀ x ∈ series, Carried c now cfg series cursors tier x := by
  have slicing := range.slicing c tier
  have positive := tier.secs_pos
  have wide := tier.secs_le_width cfg series
  have even : tier.secs ∣ tier.width cfg series := Int.dvd_mul_right _ _
  have carried {p b : Int} (x : SeriesId) (here : p ∈ out)
      (found : b ∈ c.found now cfg series tier p) :=
    walk.carried_iff slicing positive wide (fun _ => range.dvd_bucketInt) even
      (· ∈ c.below now cfg [x] tier) here found
  constructor
  · intro all
    refine ⟨(range.ships_pending_iff walk).mp fun b mem => ?_, fun x listed b pending => ?_⟩
    · obtain ⟨k, pending, rfl⟩ := mem_map.mp mem
      obtain ⟨⟨x, listed, reading⟩, ok⟩ := mem_pending.mp pending
      have own : k.toInt ∈ out.flatMap (c.foundOf now cfg series tier x) := all x listed ▸
        mem_map_of_mem (mem_pending.mpr ⟨⟨x, mem_singleton_self x, reading⟩, ok⟩)
      obtain ⟨p, here, found⟩ := mem_flatMap.mp own
      exact mem_flatMap.mpr ⟨p, here, (mem_filter.mp found).1⟩
    · have own : b.toInt ∈ out.flatMap (c.foundOf now cfg series tier x) :=
        all x listed ▸ mem_map_of_mem pending
      obtain ⟨p, here, found⟩ := mem_flatMap.mp own
      exact (carried x here (mem_filter.mp found).1).mp (of_decide_eq_true (mem_filter.mp found).2)
  · rintro ⟨unskipped, each⟩ x listed
    have ascending : (out.flatMap (c.foundOf now cfg series tier x)).Pairwise (· < ·) := by
      obtain ⟨inner, outer⟩ := pairwise_flatMap.mp (walk.ascending slicing positive wide)
      exact pairwise_flatMap.mpr ⟨fun p here => (inner p here).filter _, outer.imp
        fun apart a memA b memB => apart a (mem_filter.mp memA).1 b (mem_filter.mp memB).1⟩
    refine eq_of_ascending ascending pending_ascending fun b => ⟨fun mem => ?_, fun mem => ?_⟩
    · obtain ⟨p, here, own⟩ := mem_flatMap.mp mem
      exact range.foundOf_pending walk here own
    · obtain ⟨k, pending, rfl⟩ := mem_map.mp mem
      obtain ⟨⟨y, own, reading⟩, ok⟩ := mem_pending.mp pending
      cases mem_singleton.mp own
      obtain ⟨p, here, found⟩ :=
        mem_flatMap.mp ((range.ships_pending_iff walk).mpr unskipped k.toInt
        (mem_map_of_mem (mem_pending.mpr ⟨⟨x, listed, reading⟩, ok⟩)))
      exact mem_flatMap.mpr ⟨p, here, mem_filter.mpr ⟨found,
        decide_eq_true ((carried x here found).mpr (each x listed k pending))⟩⟩

end

omit [Float64 F] [NegInfinity F] in
/-- A tier that resumes on its grid cuts no bucket. -/
theorem InRange.carried_of_aligned (start : tier.secs ∣ tier.resumeAt now cfg cursors)
    (read : ∀ b ∈ (c.pending now cfg [x] cursors tier).map Int64.toInt,
      ∃ t ∈ c.below now cfg [x] tier, tier.bucketInt t = b) :
    Carried c now cfg series cursors tier x := by
  intro b pending
  obtain ⟨t, is, same⟩ := read b.toInt (mem_map_of_mem pending)
  refine ⟨t, is, same, fun p first found => ?_⟩
  have even : tier.secs ∣ tier.width cfg series := Int.dvd_mul_right _ _
  obtain ⟨k, rfl⟩ := first.turn
  exact (range.slicing c tier).whole_of_aligned (fun _ => range.dvd_bucketInt) even
    (start.add (Dvd.dvd.mul_left (even.add (Int.dvd_refl _)) _)) (same ▸ found)

end

end Batches

/-- A complete drain ships of every series its pending buckets in each tier, once and in ascending
order, with each batch ending at its newest bucket, exactly when no pending bucket is skipped and
the slices carry every series of it. -/
theorem drain_complete_iff [Float64 F] [NegInfinity F] (c : Content F) (now : Int64)
    (cfg : BackfillConfig) (series : List SeriesId) (cursors : BackfillCursors)
    (known : ∀ x ∈ series, (seriesDimName x).isSome) (nodup : series.Nodup)
    (range : InRange now cfg series cursors) :
    ∃ batches,
      (∃ fuel, ∀ n ≥ fuel,
        (BackfillDrain.new c.reader now cfg series cursors).drainAll n = some (.ok batches)) ∧
      (((∀ tier, ∀ x ∈ series, shippedOf batches tier x = c.pending now cfg [x] cursors tier) ∧
          ∀ b ∈ batches, (b.samples.map BackfillSample.ts).getLast? = some b.cursor)
        ↔ ∀ tier, Unskipped c now cfg series cursors tier ∧
          ∀ x ∈ series, Carried c now cfg series cursors tier x) := by
  obtain ⟨out, batches, walks, paired, drains⟩ := range.drains c
  refine ⟨_, drains.drainAll, ?_⟩
  have own := fun tier => range.batches known nodup (paired tier)
  have shippedIs (tier : BackfillTier) (x : SeriesId) :
      shippedOf (batches .recent60s ++ (batches .rollup1m ++ (batches .rollup1h ++ []))) tier x
        = (batches tier).flatMap (·.of x) := by
    have mine (tier' : BackfillTier) : (batches tier').filter (fun b => b.tier = tier)
        = if tier' = tier then batches tier' else [] := by
      split
      next same => exact filter_eq_self.mpr fun b mem => by simp [(own tier').1 b mem, same]
      next other => exact filter_eq_nil_iff.mpr fun b mem => by simp [(own tier').1 b mem, other]
    rw [shippedOf, append_nil, filter_append, filter_append, mine, mine, mine]
    cases tier <;> simp
  have each (tier : BackfillTier) :
      (∀ x ∈ series,
        shippedOf (batches .recent60s ++ (batches .rollup1m ++ (batches .rollup1h ++ []))) tier x
          = c.pending now cfg [x] cursors tier)
        ↔ Unskipped c now cfg series cursors tier ∧
          ∀ x ∈ series, Carried c now cfg series cursors tier x := by
    rw [← range.shipped_iff (walks tier)]
    refine forall₂_congr fun x listed => ?_
    rw [shippedIs, ← (own tier).2 x listed]
    exact ⟨congrArg _, fun same => map_injective_iff.mpr (fun _ _ => Int64.toInt_inj.mp) same⟩
  constructor
  · rintro ⟨all, -⟩ tier
    exact (each tier).mp (all tier)
  · intro carried
    refine ⟨fun tier => (each tier).mpr (carried tier), fun b mem => ?_⟩
    obtain ⟨tier, p, -, batch⟩ := exists_batchAt paired mem
    exact (range.batchAt known nodup batch).2.1

/-! ## Whole numbers -/

instance : NegInfinity Int64 := ⟨Int64.minValue⟩

def oneSeries (raw : List (Sample Int64 × Bool)) (points : Tier → List (TierPoint Int64))
    (sorted : raw.Pairwise fun a b => a.1.ts ≤ b.1.ts)
    (ascending : ∀ tier, (points tier).Pairwise fun p q => p.bucket < q.bucket)
    (aligned : ∀ tier, ∀ p ∈ points tier, p.bucket.toInt % (tierGeometry tier).1.toInt = 0) :
    Content Int64 where
  raw x := if x = 0 then raw else []
  points tier x := if x = 0 then points tier else []
  sorted x := by
    split
    · exact sorted
    · exact List.Pairwise.nil
  ascending tier x := by
    split
    · exact ascending tier
    · exact List.Pairwise.nil
  aligned tier x p mem := by
    split at mem
    · exact .inl (aligned tier p mem)
    · cases mem

def oneMinute (ts bucket : Int64) (grid : bucket.toInt % 60 = 0) : Content Int64 :=
  oneSeries [(⟨ts, 5⟩, false)] (fun tier => if tier = .t1 then [⟨bucket, 5, 5, 5, 5, 1⟩] else [])
    (pairwise_singleton _ _)
    (fun tier => by
      split
      · exact pairwise_singleton _ _
      · exact List.Pairwise.nil)
    (fun tier p mem => by
      split at mem
      next minute =>
          rw [mem_singleton.mp mem, minute]
          exact grid
      · cases mem)

/-- A sample of each series in one minute, of the first at another second. -/
def twoSeries (cpu mem : Int64) : Content Int64 :=
  { oneMinute cpu 6000 (by decide) with
    raw := fun x => [(⟨if x = 0 then cpu else mem, 5⟩, false)]
    sorted := fun _ => pairwise_singleton _ _ }

theorem drain_complete_minute :
    ∃ batches,
      (∃ fuel, ∀ n ≥ fuel, (BackfillDrain.new (twoSeries 8593180 8593150).reader 8593200 {}
        [0, 1] {}).drainAll n = some (.ok batches)) ∧
      shippedOf batches .recent60s 0 = [8593140] ∧ shippedOf batches .recent60s 1 = [8593140] := by
  have range : InRange 8593200 {} [0, 1] {} := by decide +kernel
  obtain ⟨batches, drained, complete⟩ := drain_complete_iff (twoSeries 8593180 8593150)
    8593200 {} [0, 1] {} (by simp [seriesDimName]) (by decide) range
  have carried : ∀ tier, Unskipped (twoSeries 8593180 8593150) 8593200 {} [0, 1] {} tier ∧
      ∀ x ∈ [0, 1], Carried (twoSeries 8593180 8593150) 8593200 {} [0, 1] {} tier x := by
    refine fun tier => ⟨by cases tier <;> decide +kernel, ?_⟩
    rw [forall_mem_cons, forall_mem_singleton]
    cases tier <;> exact ⟨range.carried_of_aligned (by decide +kernel) (by decide +kernel),
      range.carried_of_aligned (by decide +kernel) (by decide +kernel)⟩
  have all := (complete.mpr carried).1 .recent60s
  refine ⟨batches, drained, (all 0 (by decide)).trans ?_, (all 1 (by decide)).trans ?_⟩
  · decide +kernel
  · decide +kernel

/-- The first slice of the minutes is empty and ends at 6030000; the walk goes on at
6030060, and the minute between them is left out. -/
theorem drain_skips_minute :
    (BackfillDrain.new (oneMinute 8591980 6030000 (by decide)).reader 8592000 {} [0] {}).drainAll
          100
        = some (.ok
          [⟨.recent60s, [⟨"cpu.total", 8591940, 5⟩, ⟨"cpu.total.max", 8591940, 5⟩], 8591940⟩]) ∧
      (oneMinute 8591980 6030000 (by decide)).pending 8592000 {} [0] {} .rollup1m = [6030000] := by
  decide +kernel

end OpenGate.Backfill
