import OpenGate.Backfill.Drain

/-!
# What the drain reads

The content of a store as its half-open range reads show it, and what
`read_buckets` makes of it: under each bucket that may ship, the points of the
series in their order.
-/

namespace OpenGate.Backfill

open OpenGate.Tsdb OpenGate.Lib Std List

variable {F : Type} {b : Int64}

/-- What a store holds: raw samples by time, rollup points by bucket on their grid. -/
structure Content (F : Type) where
  raw : SeriesId → List (Sample F × Bool)
  points : Tier → SeriesId → List (TierPoint F)
  sorted : ∀ x, (raw x).Pairwise fun a b => a.1.ts ≤ b.1.ts
  ascending : ∀ tier x, (points tier x).Pairwise fun p q => p.bucket < q.bucket
  /-- A bucket is a multiple of its interval, unless its start was below the least
  timestamp and wrapped. -/
  aligned : ∀ tier x, ∀ p ∈ points tier x, p.bucket.toInt % (tierGeometry tier).1.toInt = 0 ∨
    2 ^ 63 - (tierGeometry tier).1.toInt ≤ p.bucket.toInt

/-- Range reads, half-open as the store's are. -/
def Content.reader (c : Content F) : TierReader F where
  rangeRaw x start stop := .ok ((c.raw x).filter fun e => start ≤ e.1.ts ∧ e.1.ts < stop)
  rangeTier x tier start stop :=
    .ok ((c.points tier x).filter fun p => start ≤ p.bucket ∧ p.bucket < stop)

/-- The local tier a backfill tier is read from, above raw samples. -/
def BackfillTier.source : BackfillTier → Option Tier
  | .recent60s => none
  | .rollup1m => some .t1
  | .rollup1h => some .t2

def Content.readings (c : Content F) (tier : BackfillTier) (x : SeriesId) : List Int64 :=
  match tier.source with
  | none => (c.raw x).map fun e => e.1.ts
  | some source => (c.points source x).map TierPoint.bucket

def BackfillTier.bucket (tier : BackfillTier) (t : Int64) : Int64 :=
  match tier.source with
  | none => windowStart60s t
  | some _ => t

/-! ## Folding points into buckets -/

/-- A map of lists to which items are added one by one, under their keys. -/
theorem foldl_push_getElem? {α β : Type} (key : α → Int64) (item : α → β) (ok : Int64 → Bool)
    (items : List α) (acc : ExtTreeMap Int64 (List β)) :
    (items.foldl (fun acc a =>
        if ok (key a) then acc.insert (key a) ((acc[key a]?.getD []) ++ [item a]) else acc) acc)[b]?
      = if ok b ∧ items.filter (fun a => key a = b) ≠ [] then
          some (acc[b]?.getD [] ++ (items.filter fun a => key a = b).map item)
        else acc[b]? := by
  induction items generalizing acc with
  | nil => simp
  | cons a items ih =>
    rw [foldl_cons, ih]
    by_cases allowed : ok (key a)
    · rw [if_pos allowed, insert_self]
      by_cases here : key a = b
      · subst here
        by_cases more : items.filter (fun a' => key a' = key a) = []
        · simp [allowed, more]
        · simp [allowed, more]
      · have skip : (a :: items).filter (fun a' => key a' = b) = items.filter fun a' =>
            key a' = b := by
          simp [here]
        rw [if_neg here, skip]
    · rw [if_neg allowed]
      by_cases here : key a = b
      · subst here
        simp [allowed]
      · have skip : (a :: items).filter (fun a' => key a' = b) = items.filter fun a' =>
            key a' = b := by
          simp [here]
        rw [skip]

namespace BackfillDrain

variable [Float64 F] [NegInfinity F]

def pointsAt (points : SeriesId → List (Int64 × F × F)) (xs : List SeriesId) (b : Int64) :
    List (BucketReduction F) :=
  xs.flatMap fun x => ((points x).filter fun p => p.1 = b).map fun p => (x, p.2)

variable {points : SeriesId → List (Int64 × F × F)} {d : BackfillDrain F} {tier : BackfillTier}
  {xs : List SeriesId}

omit [Float64 F] [NegInfinity F] in
theorem mem_pointsAt {e : BucketReduction F} :
    e ∈ pointsAt points xs b ↔ e.1 ∈ xs ∧ (b, e.2) ∈ points e.1 := by
  rw [pointsAt, mem_flatMap]
  constructor
  · rintro ⟨x, inSeries, mem⟩
    obtain ⟨⟨w, p⟩, stored, rfl⟩ := mem_map.mp mem
    rw [mem_filter, decide_eq_true_eq] at stored
    obtain ⟨stored, rfl⟩ := stored
    exact ⟨inSeries, stored⟩
  · rintro ⟨inSeries, stored⟩
    exact ⟨e.1, inSeries, mem_map.mpr ⟨(b, e.2), mem_filter.mpr ⟨stored, by simp⟩, rfl⟩⟩

theorem gather_ok {step start stop : Int64}
    (reads : ∀ x ∈ xs, readPoints d.reader tier x start stop = .ok (points x))
    (acc : ExtTreeMap Int64 (List (BucketReduction F))) :
    ∃ all, d.gather tier step start stop xs acc = .ok all ∧
      ∀ b, all[b]? = if emitOk d.now d.cfg d.phase b step ∧ pointsAt points xs b ≠ [] then
          some (acc[b]?.getD [] ++ pointsAt points xs b)
        else acc[b]? := by
  induction xs generalizing acc with
  | nil => exact ⟨acc, rfl, fun b => by simp [pointsAt]⟩
  | cons x xs ih =>
    obtain ⟨all, gathered, rows⟩ := ih (fun y mem => reads y (.tail _ mem))
      (d.addPoints step x acc (points x))
    refine ⟨all, ?_, fun b => ?_⟩
    · rw [gather, reads x mem_cons_self, ok_bind]
      exact gathered
    · have cons : pointsAt points (x :: xs) b
          = ((points x).filter fun p => p.1 = b).map (fun p => (x, p.2)) ++ pointsAt points xs b :=
        flatMap_cons
      rw [rows, addPoints,
        foldl_push_getElem? Prod.fst (fun p => (x, p.2)) (emitOk d.now d.cfg d.phase · step), cons]
      by_cases allowed : emitOk d.now d.cfg d.phase b step
      · by_cases own : (points x).filter (fun p => p.1 = b) = []
        · simp [allowed, own]
        · by_cases others : pointsAt points xs b = []
          · simp [allowed, own, others]
          · simp [allowed, own, others]
      · simp [allowed]

/-- What `read_buckets` gives. -/
theorem readBuckets_ok (step : Int64) {start stop : Int64}
    (reads : ∀ x ∈ d.series, readPoints d.reader tier x start stop = .ok (points x)) :
    ∃ all : ExtTreeMap Int64 (List (BucketReduction F)),
      d.readBuckets tier step start stop = .ok (all.toList.take d.perBatch.toUInt64.toNat) ∧
      ∀ b, all[b]? = if emitOk d.now d.cfg d.phase b step ∧ pointsAt points d.series b ≠ [] then
        some (pointsAt points d.series b) else none := by
  obtain ⟨all, gathered, rows⟩ := gather_ok reads ∅
  refine ⟨all, ?_, fun b => ?_⟩
  · rw [readBuckets, gathered, ok_bind]
  · rw [rows]
    simp

end BackfillDrain

/-! ## Points of a content -/

section Points

variable [Float64 F] [NegInfinity F]

/-- What a window keeps of its samples. -/
def Rolled60s.roll (own : List (Sample F × Bool)) (e : Rolled60s F) : Rolled60s F :=
  own.foldl (fun e s => e.add s.1) e

/-- A roll keeps the windows apart: each is rolled from its own samples. -/
theorem mem_rollTo60s {samples : List (Sample F × Bool)} {reduction : WindowReduction} {w : Int64}
    {v m : F} :
    (w, v, m) ∈ rollTo60s samples reduction ↔
      samples.filter (fun e => windowStart60s e.1.ts = w) ≠ [] ∧
        (Rolled60s.roll (samples.filter fun e => windowStart60s e.1.ts = w) .fresh).value reduction
        = v ∧
        (Rolled60s.roll (samples.filter fun e => windowStart60s e.1.ts = w) .fresh).max = m := by
  have fold (acc : ExtTreeMap Int64 (Rolled60s F)) :
      (samples.foldl (fun acc e =>
        acc.insert (windowStart60s e.1.ts)
          ((acc[windowStart60s e.1.ts]?.getD Rolled60s.fresh).add e.1)) acc)[w]?
        = if samples.filter (fun e => windowStart60s e.1.ts = w) = [] then acc[w]?
          else some (Rolled60s.roll (samples.filter fun e => windowStart60s e.1.ts = w)
            (acc[w]?.getD .fresh)) := by
    induction samples generalizing acc with
    | nil => simp
    | cons e samples ih =>
      rw [foldl_cons, ih, insert_self]
      by_cases here : windowStart60s e.1.ts = w
      · by_cases more : samples.filter (fun e => windowStart60s e.1.ts = w) = []
        · simp [here, more, Rolled60s.roll]
        · simp [here, more, Rolled60s.roll]
      · have skip : (e :: samples).filter (fun e => windowStart60s e.1.ts = w)
            = samples.filter fun e => windowStart60s e.1.ts = w := by simp [here]
        rw [if_neg here, skip]
  have empty := fold ∅
  constructor
  · intro mem
    obtain ⟨e, stored, is⟩ := mem_map.mp mem
    cases is
    have here := ExtTreeMap.mem_toList_iff_getElem?_eq_some.mp stored
    rw [empty] at here
    split at here
    · cases here
    next some =>
        have is := Option.some.inj here
        exact ⟨some, congrArg (·.value reduction) is, congrArg Rolled60s.max is⟩
  · rintro ⟨some, rfl, rfl⟩
    rw [if_neg some] at empty
    exact mem_map.mpr ⟨_, ExtTreeMap.mem_toList_iff_getElem?_eq_some.mpr empty, rfl⟩

/-- The windows of a roll. -/
theorem mem_windows_rollTo60s (samples : List (Sample F × Bool)) (reduction : WindowReduction)
    (w : Int64) :
    w ∈ (rollTo60s samples reduction).map Prod.fst ↔ ∃ e ∈ samples, windowStart60s e.1.ts = w := by
  constructor
  · intro mem
    obtain ⟨⟨w, v, m⟩, point, rfl⟩ := mem_map.mp mem
    obtain ⟨e, own⟩ := exists_mem_of_ne_nil _ (mem_rollTo60s.mp point).1
    rw [mem_filter, decide_eq_true_eq] at own
    exact ⟨e, own⟩
  · rintro ⟨e, mem, same⟩
    have own : samples.filter (fun e => windowStart60s e.1.ts = w) ≠ [] :=
      ne_nil_of_mem (mem_filter.mpr ⟨mem, by simpa using same⟩)
    exact mem_map.mpr ⟨_, mem_rollTo60s.mpr ⟨own, rfl, rfl⟩, rfl⟩

omit [Float64 F] [NegInfinity F] in
/-- The buckets of the rollup points in a range. -/
theorem mem_buckets_filter (points : List (TierPoint F)) (f : TierPoint F → F × F)
    (start stop b : Int64) :
    b ∈ ((points.filter fun p => start ≤ p.bucket ∧ p.bucket < stop).map
        fun p => (p.bucket, f p)).map Prod.fst ↔
      ∃ t ∈ points.map TierPoint.bucket, (start ≤ t ∧ t < stop) ∧ t = b := by
  rw [map_map]
  constructor
  · intro mem
    obtain ⟨p, inRange, rfl⟩ := mem_map.mp mem
    rw [mem_filter] at inRange
    exact ⟨p.bucket, mem_map.mpr ⟨p, inRange.1, rfl⟩, by simpa using inRange.2, rfl⟩
  · rintro ⟨t, mem, range, rfl⟩
    obtain ⟨p, stored, rfl⟩ := mem_map.mp mem
    exact mem_map.mpr ⟨p, mem_filter.mpr ⟨stored, by simpa using range⟩, rfl⟩

/-- Reads of a content succeed, and have a point at each bucket with a reading in the
range. -/
theorem readPoints_content (c : Content F) (tier : BackfillTier) (x : SeriesId)
    (start stop : Int64) :
    ∃ points, BackfillDrain.readPoints c.reader tier x start stop = .ok points ∧
      ∀ b, b ∈ points.map Prod.fst ↔
        ∃ t ∈ c.readings tier x, (start ≤ t ∧ t < stop) ∧ tier.bucket t = b := by
  cases tier with
  | recent60s =>
    refine ⟨_, rfl, fun b => ?_⟩
    rw [mem_windows_rollTo60s]
    constructor
    · rintro ⟨e, mem, same⟩
      rw [mem_filter] at mem
      exact ⟨e.1.ts, mem_map.mpr ⟨e, mem.1, rfl⟩, by simpa using mem.2, same⟩
    · rintro ⟨t, mem, range, same⟩
      obtain ⟨e, stored, rfl⟩ := mem_map.mp mem
      exact ⟨e, mem_filter.mpr ⟨stored, by simpa using range⟩, same⟩
  | rollup1m => exact ⟨_, rfl, mem_buckets_filter (c.points .t1 x) _ start stop⟩
  | rollup1h => exact ⟨_, rfl, mem_buckets_filter (c.points .t2 x) _ start stop⟩

/-- A read of a content gives each bucket once. -/
theorem readPoints_nodup {c : Content F} {tier : BackfillTier} {x : SeriesId} {start stop : Int64}
    {points : List (Int64 × F × F)}
    (read : BackfillDrain.readPoints c.reader tier x start stop = .ok points) :
    (points.map Prod.fst).Nodup := by
  have rollup (source : Tier) (f : TierPoint F → F × F) :
      ((((c.points source x).filter fun p => start ≤ p.bucket ∧ p.bucket < stop).map
        fun p => (p.bucket, f p)).map Prod.fst).Nodup := by
    rw [map_map]
    refine pairwise_map.mpr (((c.ascending source x).filter _).imp fun {p q} lt same => ?_)
    have same : p.bucket = q.bucket := same
    rw [same] at lt
    exact Int64.lt_irrefl lt
  cases tier with
  | recent60s =>
    cases read
    rw [rollTo60s, map_map]
    refine pairwise_map.mpr (ExtTreeMap.ordered_keys_toList.imp fun {a b} lt same => ?_)
    rw [Function.comp_apply, Function.comp_apply] at same
    rw [same] at lt
    exact absurd lt (by simp [compare_self])
  | rollup1m | rollup1h =>
    cases read
    exact rollup _ _

section

omit [Float64 F] [NegInfinity F]

theorem length_filter_le_one {points : List (Int64 × F × F)}
    (distinct : (points.map Prod.fst).Nodup)
    (b : Int64) : (points.filter fun p => p.1 = b).length ≤ 1 := by
  have count := nodup_iff_count_le_one.mp distinct b
  rwa [count_eq_countP, countP_map, countP_eq_length_filter] at count

theorem nodup_pointsAt {points : SeriesId → List (Int64 × F × F)}
    (distinct : ∀ x, ((points x).map Prod.fst).Nodup) {xs : List SeriesId} (nodup : xs.Nodup) :
    ((BackfillDrain.pointsAt points xs b).map Prod.fst).Nodup := by
  rw [BackfillDrain.pointsAt, map_flatMap, nodup_flatMap]
  refine ⟨fun x _ => ?_, nodup.imp fun {x y} ne z memX memY => ?_⟩
  · rw [map_map, show Prod.fst ∘ (fun p : Int64 × F × F => (x, p.2)) = fun _ => x from rfl,
      map_const', nodup_replicate]
    exact length_filter_le_one (distinct x) b
  · obtain ⟨e, own, rfl⟩ := mem_map.mp memX
    obtain ⟨e', other, same⟩ := mem_map.mp memY
    obtain ⟨_, -, rfl⟩ := mem_map.mp own
    obtain ⟨_, -, rfl⟩ := mem_map.mp other
    exact ne same.symm

end

end Points

end OpenGate.Backfill
