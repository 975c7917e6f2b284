import OpenGate.Alerts.Plan

/-!
# A scan minute by minute

The stored minutes a scan walks stand on a grid, and what the scan carries at one of them is
what its rule carries after the minutes since the last hole (`segment`).  A chunk goes from
one minute of the grid to a later one, and its findings are those of the minutes between
(`chunk_walks`): where chunks begin and end does not matter.
-/

namespace OpenGate.Alerts

open OpenGate.Lib OpenGate.Tsdb OpenGate.Backfill Std RetroScan List Int64

variable {F : Type} {cs : List (Condition F)} {rule : ThresholdRule F} {tick : Tick F}

/-! ## Stored minutes -/

structure MinuteHistory (F : Type) where
  points : SeriesId → List (RetroBucket F)
  ascending : ∀ x, (points x).Pairwise fun a b => a.bucket < b.bucket
  aligned : ∀ x, ∀ p ∈ points x, p.bucket.toInt % 60 = 0

namespace MinuteHistory

/-- Reads as the store answers them: the ends of a series, and half-open ranges. -/
def reader (h : MinuteHistory F) : RetroHistory F where
  span x := .ok ((h.points x).head?.bind fun oldest =>
    (h.points x).getLast?.map fun newest => (oldest.bucket, newest.bucket))
  buckets x start stop := .ok ((h.points x).filter fun p => start ≤ p.bucket ∧ p.bucket < stop)

def put (h : MinuteHistory F) (minute : Int64) (row : Option (DimReadings F))
    (read : SeriesId × BucketStat) : Option (DimReadings F) :=
  ((h.points read.1).filter fun p => p.bucket = minute).foldl
    (fun row p => some ((row.getD .none).set read.1 (read.2.of p))) row

def row (h : MinuteHistory F) (reads : List (SeriesId × BucketStat)) (minute : Int64) :
    Option (DimReadings F) :=
  (reads.foldl (h.put minute) none).filter (RetroScan.complete reads)

theorem getElem?_readSeries (series : SeriesId) (stat : BucketStat) {rows : Rows F}
    (buckets : List (RetroBucket F)) (minute : Int64) :
    (readSeries series stat rows buckets)[minute]?
      = (buckets.filter fun p => p.bucket = minute).foldl
          (fun row p => some ((row.getD .none).set series (stat.of p))) rows[minute]? := by
  induction buckets generalizing rows with
  | nil => rfl
  | cons p buckets ih =>
    have turn : readSeries series stat rows (p :: buckets)
        = readSeries series stat
            (rows.insert p.bucket ((rows[p.bucket]?.getD .none).set series (stat.of p))) buckets :=
              rfl
    rw [turn, ih, insert_self]
    by_cases here : p.bucket = minute
    · subst here
      simp
    · simp [here]

/-- A chunk's rows are the history's, whatever else the chunk reads. -/
theorem readRows_reader (h : MinuteHistory F) (start stop : Int64)
    (reads : List (SeriesId × BucketStat)) (rows : Rows F) (read : Nat) :
    ∃ after read', readRows h.reader start stop reads (rows, read) = .ok (after, read') ∧
      ∀ minute, start ≤ minute → minute < stop →
        after[minute]? = reads.foldl (h.put minute) rows[minute]? := by
  induction reads generalizing rows read with
  | nil => exact ⟨rows, read, rfl, fun _ _ _ => rfl⟩
  | cons one reads ih =>
    obtain ⟨after, read', walked, inside⟩ := ih
      (readSeries one.1 one.2 rows
        ((h.points one.1).filter fun p => start ≤ p.bucket ∧ p.bucket < stop))
      (read + ((h.points one.1).filter fun p => start ≤ p.bucket ∧ p.bucket < stop).length)
    refine ⟨after, read', walked, fun minute low high => ?_⟩
    have same : ((h.points one.1).filter fun p => start ≤ p.bucket ∧ p.bucket < stop).filter
        (fun p => p.bucket = minute) = (h.points one.1).filter fun p => p.bucket = minute := by
      rw [filter_filter]
      refine filter_congr fun p _ => ?_
      by_cases here : p.bucket = minute
      · subst here
        simp [low, high]
      · simp [here]
    rw [inside minute low high, getElem?_readSeries, same]
    rfl

/-- Rows of a chunk, once those that miss a reading are dropped. -/
theorem rows_eq_row (h : MinuteHistory F) (start stop : Int64)
    (reads : List (SeriesId × BucketStat)) :
    ∃ rows read, readRows h.reader start stop reads (∅, 0) = .ok (rows, read) ∧
      ∀ minute, start ≤ minute → minute < stop →
        (rows.filter fun _ readings => complete reads readings)[minute]? = h.row reads minute := by
  obtain ⟨rows, read, walked, inside⟩ := h.readRows_reader start stop reads ∅ 0
  refine ⟨rows, read, walked, fun minute low high => ?_⟩
  rw [filter_getElem?, inside minute low high, ExtTreeMap.getElem?_empty]
  rfl

end MinuteHistory

/-! ## The grid -/

structure Grid where
  first : Int
  count : Nat
  pos : 0 < count
  low : -2 ^ 63 ≤ first
  high : first + 60 * count < 2 ^ 63 + 60
  whole : first % 60 = 0

namespace Grid

variable (g : Grid)

/-- The start of a minute; the end of the last one may be past what an `i64` holds. -/
def time (i : Nat) : Int64 := saturate (g.first + 60 * i)

variable {g} {i k : Nat}

theorem toInt_time {i : Nat} (inside : i < g.count) : (g.time i).toInt = g.first + 60 * i := by
  have low := g.low
  have high := g.high
  rw [time, toInt_saturate]
  omega

theorem time_eq {i : Nat} (inside : i < g.count) : g.time i = Int64.ofInt (g.first + 60 * i) := by
  rw [← toInt_time inside, ofInt_toInt]

theorem toInt_time_le (i : Nat) :
    (g.time i).toInt = min (2 ^ 63 - 1) (g.first + 60 * i) := by
  have low := g.low
  rw [time, toInt_saturate]
  omega

theorem time_le_iff (inside : i ≤ g.count) (inside' : k ≤ g.count) :
    g.time i ≤ g.time k ↔ i ≤ k := by
  have high := g.high
  have whole := g.whole
  rw [le_iff_toInt_le, toInt_time_le, toInt_time_le]
  omega

theorem max_time : max (g.time i) (g.time k) = g.time (max i k) := by
  rw [← toInt_inj, toInt_max, toInt_time_le, toInt_time_le, toInt_time_le]
  omega

/-- The minutes between two of the grid. -/
theorem minutes_time {n c : Nat} (start : n < g.count) (stop : n + c ≤ g.count) :
    minutes (g.time n) (g.time (n + c)) = (List.range c).map fun i => g.time (n + i) := by
  have high := g.high
  have whole := g.whole
  have length : (((g.time (n + c)).toInt - (g.time n).toInt + 59) / 60).toNat = c := by
    rw [toInt_time start, toInt_time_le]
    omega
  rw [minutes, length]
  refine map_congr_left fun i here => ?_
  have inside := mem_range.mp here
  rw [time_eq start, time_eq (show n + i < g.count by omega), ← ofInt_eq_ofNat,
    show (60 : Int64) = Int64.ofInt 60 from rfl, ← ofInt_mul, ← ofInt_add]
  congr 1
  omega

end Grid

/-- The start of the minute of a time that is not before every minute. -/
theorem toInt_floorToMinute (ts : Int64) :
    (floorToMinute ts).toInt = max (-2 ^ 63) (ts.toInt / 60 * 60) := by
  have minute : retroBucketSecs.toInt = 60 := rfl
  have high := toInt_lt ts
  rw [floorToMinute, toInt_saturatingMul, toInt_divEuclid _ (by rw [minute]; omega), minute]
  omega

def Ends (span : Int64 × Int64) : Prop :=
  span.1.toInt % 60 = 0 ∧ span.2.toInt % 60 = 0 ∧ span.1.toInt ≤ span.2.toInt

theorem Ends.join {a b : Int64 × Int64} (left : Ends a) (right : Ends b) :
    Ends (min a.1 b.1, max a.2 b.2) := by
  obtain ⟨wholeA, wholeA', orderA⟩ := left
  obtain ⟨wholeB, wholeB', orderB⟩ := right
  refine ⟨?_, ?_, ?_⟩ <;> simp only [toInt_min, toInt_max] <;> omega

theorem Ends.grid {span : Int64 × Int64} (ends : Ends span) :
    ∃ g : Grid, span = (g.time 0, g.time (g.count - 1)) := by
  obtain ⟨whole, whole', order⟩ := ends
  have low := le_toInt span.1
  have high := toInt_lt span.2
  let g : Grid :=
    ⟨span.1.toInt, ((span.2.toInt - span.1.toInt) / 60).toNat + 1, Nat.succ_pos _, low, by omega,
      whole⟩
  have count : g.count = ((span.2.toInt - span.1.toInt) / 60).toNat + 1 := rfl
  have first : g.first = span.1.toInt := rfl
  refine ⟨g, Prod.ext ?_ ?_⟩
  · rw [← toInt_inj, Grid.toInt_time g.pos, first]
    omega
  · rw [← toInt_inj, Grid.toInt_time (Nat.sub_lt g.pos Nat.one_pos), first, count]
    omega

namespace MinuteHistory

theorem span_reader (h : MinuteHistory F) (x : SeriesId) :
    ∃ span, h.reader.span x = .ok span ∧ ∀ ends ∈ span, Ends ends := by
  refine ⟨_, rfl, fun ends here => ?_⟩
  rw [Option.mem_def, Option.bind_eq_some_iff] at here
  obtain ⟨oldest, first, here⟩ := here
  obtain ⟨newest, last, rfl⟩ := Option.map_eq_some_iff.mp here
  have ascending := h.ascending x
  refine ⟨h.aligned x _ (mem_of_head? first), h.aligned x _ (mem_of_getLast? last), ?_⟩
  cases points : h.points x with
  | nil =>
    rw [points] at first
    cases first
  | cons p rest =>
    rw [points] at first last ascending
    cases first
    rcases mem_cons.mp (mem_of_getLast? last) with rfl | later
    · exact le_rfl
    · exact Int.le_of_lt (lt_iff_toInt_lt.mp ((pairwise_cons.mp ascending).1 _ later))

theorem historySpan_reader (h : MinuteHistory F) (reads : List (SeriesId × BucketStat))
    {sofar : Option (Int64 × Int64)} (ends : ∀ e ∈ sofar, Ends e) :
    ∃ span, historySpan h.reader reads sofar = .ok span ∧ ∀ e ∈ span, Ends e := by
  induction reads generalizing sofar with
  | nil => exact ⟨sofar, rfl, ends⟩
  | cons read reads ih =>
    obtain ⟨span, answered, own⟩ := h.span_reader read.1
    rw [historySpan, answered]
    cases span with
    | none => exact ⟨none, rfl, nofun⟩
    | some span =>
      refine ih fun e here => ?_
      cases sofar with
      | none =>
        cases here
        exact own _ rfl
      | some before =>
        cases here
        exact (ends _ rfl).join (own _ rfl)

/-- A scan finds no history, or the ends of a grid. -/
theorem historySpan_cases (h : MinuteHistory F) (reads : List (SeriesId × BucketStat)) :
    historySpan h.reader reads none = .ok none ∨
      ∃ g : Grid, historySpan h.reader reads none
        = .ok (some (g.time 0, g.time (g.count - 1))) := by
  obtain ⟨span, answered, ends⟩ :=
    h.historySpan_reader reads (show ∀ e ∈ (none : Option (Int64 × Int64)), Ends e from nofun)
  cases span with
  | none => exact .inl answered
  | some span =>
    obtain ⟨g, rfl⟩ := (ends _ rfl).grid
    exact .inr ⟨g, answered⟩

end MinuteHistory

/-! ## What a scan carries -/

section Segments

variable (rows : Int64 → Option (DimReadings F)) (time : Nat → Int64)

/-- The minutes since the last hole, of the first `k` from minute `j` on. -/
def segment (j : Nat) : Nat → List (Tick F)
  | 0 => []
  | k + 1 => (rows (time (j + k))).elim [] fun readings => segment j k ++ [⟨time (j + k), readings⟩]

variable {rows time} {j k : Nat}

theorem segment_hole (hole : rows (time (j + k)) = none) : segment rows time j (k + 1) = [] := by
  rw [segment, hole]
  rfl

theorem segment_row {readings : DimReadings F} (row : rows (time (j + k)) = some readings) :
    segment rows time j (k + 1) = segment rows time j k ++ [⟨time (j + k), readings⟩] := by
  rw [segment, row]
  rfl

variable (rows time) in
/-- Minutes from a later one on are the end of those from an earlier one on, and all of them
where there is a hole. -/
theorem segment_later :
    ∃ before, segment rows time 0 (j + k) = before ++ segment rows time j k ∧
      (before = [] ∨ (segment rows time j k).length = k) := by
  induction k with
  | zero => exact ⟨segment rows time 0 j, (append_nil _).symm, .inr rfl⟩
  | succ k ih =>
    obtain ⟨before, later, all⟩ := ih
    cases row : rows (time (j + k)) with
    | none =>
      refine ⟨[], ?_, .inl rfl⟩
      rw [segment_hole row, Nat.add_succ, segment_hole (by rwa [Nat.zero_add])]
      rfl
    | some readings =>
      refine ⟨before, ?_, all.imp_right fun length => ?_⟩
      · rw [segment_row row, Nat.add_succ, segment_row (by rwa [Nat.zero_add]), later, Nat.zero_add,
          append_assoc]
      · rw [segment_row row, length_append, length, length_singleton]

theorem mem_segment (here : tick ∈ segment rows time j k) : rows tick.ts = some tick.readings := by
  induction k with
  | zero => cases here
  | succ k ih =>
    cases row : rows (time (j + k)) with
    | none =>
      rw [segment_hole row] at here
      cases here
    | some readings =>
      rw [segment_row row] at here
      rcases mem_append.mp here with earlier | last
      · exact ih earlier
      · rw [mem_singleton.mp last]
        exact row

variable (rows) in
/-- The minutes of a segment of a grid follow each other. -/
theorem minutely_segment {g : Grid} (inside : j + k ≤ g.count) :
    Minutely (g.first + 60 * ((j + k : Nat) - (segment rows g.time j k).length))
    (segment rows g.time j k) := by
  induction k with
  | zero => nofun
  | succ k ih =>
    have before := ih (by omega)
    cases row : rows (g.time (j + k)) with
    | none =>
      rw [segment_hole row]
      nofun
    | some readings =>
      rw [segment_row row]
      intro i tick here
      rw [length_append, length_singleton]
      rcases Nat.lt_or_ge i (segment rows g.time j k).length with early | last
      · rw [List.getElem?_append_left early] at here
        have := before i tick here
        omega
      · rw [List.getElem?_append_right last, List.getElem?_singleton] at here
        split at here
        next end_ =>
          cases here
          rw [Grid.toInt_time (by omega)]
          omega
        · cases here

end Segments

/-! ## Rows that can be evaluated -/

def Full (plan : RetroPlan F) (rows : Int64 → Option (DimReadings F)) : Prop :=
  ∀ minute readings, rows minute = some readings → RetroScan.complete plan.reads readings = true

theorem MinuteHistory.full_row (h : MinuteHistory F) (plan : RetroPlan F) :
    Full plan (h.row plan.reads) :=
  fun _ _ row => (Option.filter_eq_some_iff.mp row).2

theorem readable_segment {plan : RetroPlan F} {rows : Int64 → Option (DimReadings F)}
    {time : Nat → Int64} {j k : Nat} (accepts : plan.Accepts rule cs) (full : Full plan rows) :
    ∀ tick ∈ segment rows time j k, Readable cs tick := by
  intro tick here c listed
  obtain ⟨series, named, reads⟩ := accepts.reads c listed
  rw [DimReadings.ofMetric, named, Option.bind_some]
  exact all_eq_true.mp (full _ _ (mem_segment here)) _ reads

variable [RuleFloat F] {ticks : List (Tick F)}

def fires (rule : ThresholdRule F) (ticks : List (Tick F)) : Bool :=
  ticks.getLast?.elim false fun tick =>
    (((RuleEntry.new rule).run ticks.dropLast).step tick.readings tick.ts).2.isSome

theorem fires_concat :
    fires rule (ticks ++ [tick])
      = (((RuleEntry.new rule).run ticks).step tick.readings tick.ts).2.isSome := by
  rw [fires, List.getLast?_concat, dropLast_concat]
  rfl

/-- A rule reports a minute that decides and leaves it firing. -/
theorem fires_concat_iff {first : Int} (conditions : Conditions rule cs)
    (minutely : Minutely first (ticks ++ [tick])) (readable : ∀ t ∈ ticks ++ [tick], Readable cs t)
    :
    fires rule (ticks ++ [tick]) ↔ (valuesAfter cs (ticks ++ [tick])).isSome ∧
      stateAfter rule (ticks ++ [tick]) = .firing := by
  obtain ⟨reported, stepped, only⟩ := step_carried conditions minutely
    (readable tick (mem_append_right _ mem_cons_self))
  rw [fires_concat, run_eq_carried conditions minutely.left fun t here =>
    readable t (mem_append_left _ here),
    stepped, only, ← stateAfter_concat conditions minutely readable]

def recentOf (metric : String) (ticks : List (Tick F)) : List (Int64 × F) :=
  ticks.foldl (fun recent tick => RetroScan.remember recent tick.ts (tick.readings.ofMetric metric))
    []

omit [RuleFloat F] in
theorem recentOf_concat (metric : String) :
    recentOf metric (ticks ++ [tick])
      = remember (recentOf metric ticks) tick.ts (tick.readings.ofMetric metric) := by
  rw [recentOf, foldl_append]
  rfl

structure RetroScan.Tracks (plan : RetroPlan F) (ticks : List (Tick F)) (scan : RetroScan F) :
    Prop where
  same : scan.plan = plan
  evaluator : scan.evaluator = ⟨[(RuleEntry.new plan.rule).run ticks]⟩
  firing : scan.firing = fires plan.rule ticks
  recent : scan.recent = recentOf plan.metric ticks

theorem tracks_resume (plan : RetroPlan F) (budget : RetroBudget) (cursor : RetroCursor) :
    RetroScan.Tracks plan [] (resume plan budget cursor) := ⟨rfl, rfl, rfl, rfl⟩

def findingOf (dress : Dress F) (plan : RetroPlan F) (recent : List (Int64 × F)) (bucket : Int64) :
    EdgeAlert F :=
  ({ RetroScan.new plan .default with recent } : RetroScan F).finding dress bucket

section Walks

variable {dress : Dress F} {rows : Int64 → Option (DimReadings F)} {time : Nat → Int64}
  {plan : RetroPlan F} {scan : RetroScan F} {j k : Nat}

variable (dress rows time plan) in
/-- What minute `j + k` adds to the findings of a scan that began at minute `j`. -/
def foundAt (j k : Nat) : List (EdgeAlert F) :=
  if fires plan.rule (segment rows time j (k + 1)) && !fires plan.rule (segment rows time j k) then
    [findingOf dress plan (recentOf plan.metric (segment rows time j (k + 1))) (time (j + k))]
  else []

def RetroScan.SetUp (a b : RetroScan F) : Prop :=
  b.plan = a.plan ∧ b.budget = a.budget ∧ b.emitFrom = a.emitFrom

variable (dress) in
/-- One minute of a scan. -/
theorem minute_tracks (tracks : scan.Tracks plan (segment rows time j k)) :
    (scan.minute dress (rows (time (j + k))) (time (j + k))).1.Tracks plan
    (segment rows time j (k + 1)) ∧
      scan.SetUp (scan.minute dress (rows (time (j + k))) (time (j + k))).1 ∧
      (scan.minute dress (rows (time (j + k))) (time (j + k))).2
        = if scan.emitFrom ≤ time (j + k) then foundAt dress rows time plan j k else [] := by
  obtain ⟨rfl, evaluator, firing, recent⟩ := tracks
  cases row : rows (time (j + k)) with
  | none =>
    refine ⟨?_, ⟨rfl, rfl, rfl⟩, ?_⟩
    · rw [segment_hole row]
      exact ⟨rfl, rfl, rfl, rfl⟩
    · rw [foundAt, segment_hole row]
      show [] = _
      simp [fires]
  | some readings =>
    have reported : (scan.evaluator.evaluateReadings readings (time (j + k))).2.isEmpty
        = !fires scan.plan.rule (segment rows time j (k + 1)) := by
      rw [evaluator, segment_row row, fires_concat]
      simp only [AlertEvaluator.evaluateReadings, RuleEntry.evaluate, map_cons, map_nil]
      cases (((RuleEntry.new scan.plan.rule).run (segment rows time j k)).step readings
        (time (j + k))).2 <;> rfl
    have after : remember scan.recent (time (j + k)) (readings.ofMetric scan.plan.metric)
        = recentOf scan.plan.metric (segment rows time j (k + 1)) := by
      rw [recent, segment_row row, recentOf_concat]
    refine ⟨⟨rfl, ?_, ?_, after⟩, ⟨rfl, rfl, rfl⟩, ?_⟩
    · show (scan.evaluator.evaluateReadings readings (time (j + k))).1 = _
      rw [evaluator, segment_row row, run_concat]
      rfl
    · show (!(scan.evaluator.evaluateReadings readings (time (j + k))).2.isEmpty) = _
      rw [reported, Bool.not_not]
    · show (if (!(scan.evaluator.evaluateReadings readings (time (j + k))).2.isEmpty
          && !scan.firing && decide (scan.emitFrom ≤ time (j + k))) = true then
        [findingOf dress scan.plan (remember scan.recent (time (j + k))
          (readings.ofMetric scan.plan.metric)) (time (j + k))] else []) = _
      rw [reported, after, firing, Bool.not_not, foundAt]
      by_cases late : scan.emitFrom ≤ time (j + k)
      · rw [if_pos late, decide_eq_true late, Bool.and_true]
      · rw [if_neg late, decide_eq_false late, Bool.and_false]
        rfl

theorem walk_congr {rows rows' : Int64 → Option (DimReadings F)} {buckets : List Int64}
    (same : ∀ bucket ∈ buckets, rows bucket = rows' bucket) :
    scan.walk dress rows buckets = scan.walk dress rows' buckets := by
  induction buckets generalizing scan with
  | nil => rfl
  | cons bucket buckets ih =>
    rw [walk, walk, same bucket mem_cons_self,
      ih fun later here => same later (mem_cons_of_mem _ here)]

variable (dress) in
/-- A walk over consecutive minutes. -/
theorem walk_tracks (c : Nat) (tracks : scan.Tracks plan (segment rows time j k)) :
    (scan.walk dress rows ((range' k c).map fun i => time (j + i))).1.Tracks plan
        (segment rows time j (k + c)) ∧
      scan.SetUp (scan.walk dress rows ((range' k c).map fun i => time (j + i))).1 ∧
      (scan.walk dress rows ((range' k c).map fun i => time (j + i))).2
        = (range' k c).flatMap fun i =>
            if scan.emitFrom ≤ time (j + i) then foundAt dress rows time plan j i else [] := by
  induction c generalizing k scan with
  | zero => exact ⟨tracks, ⟨rfl, rfl, rfl⟩, rfl⟩
  | succ c ih =>
    obtain ⟨next, ⟨samePlan, sameBudget, sameEmit⟩, found⟩ := minute_tracks dress tracks
    obtain ⟨later, ⟨samePlan', sameBudget', sameEmit'⟩, foundLater⟩ := ih next
    rw [List.range'_succ, map_cons, walk]
    refine ⟨?_, ⟨samePlan'.trans samePlan, sameBudget'.trans sameBudget, sameEmit'.trans sameEmit⟩,
      ?_⟩
    · rwa [Nat.add_right_comm] at later
    · rw [flatMap_cons]
      rw [foundLater, found, sameEmit]

end Walks

/-! ## A chunk -/

def RetroScan.pace (scan : RetroScan F) : Nat :=
  max (scan.budget.chunkPoints / max scan.plan.reads.length 1) 1

omit [RuleFloat F] in
theorem toInt_chunkSpan {scan : RetroScan F} (fits : scan.budget.chunkPoints * 60 < 2 ^ 63) :
    scan.chunkSpan.toInt = 60 * scan.pace := by
  have le := Nat.div_le_self scan.budget.chunkPoints (max scan.plan.reads.length 1)
  have pace : scan.pace = max (scan.budget.chunkPoints / max scan.plan.reads.length 1) 1 := rfl
  have minute : retroBucketSecs.toInt = 60 := rfl
  have small : scan.pace < 2 ^ 63 := by omega
  show ((if scan.pace < 2 ^ 63 then Int64.ofNat scan.pace else Int64.maxValue / retroBucketSecs)
    * retroBucketSecs).toInt = _
  rw [if_pos small, toInt_mul_of_range] <;> rw [toInt_ofNat_of_lt small, minute] <;> omega

def RetroScan.StartsAt (g : Grid) (n : Nat) (scan : RetroScan F) : Prop :=
  floorToMinute (max (scan.nextRead.getD (g.time 0)) (g.time 0)) = g.time n

/-- A minute of the grid is its own start. -/
theorem floor_time {g : Grid} {n : Nat} (inside : n < g.count) :
    floorToMinute (max (g.time n) (g.time 0)) = g.time n := by
  have whole := g.whole
  have low := g.low
  rw [Grid.max_time, max_eq_left (Nat.zero_le n), ← toInt_inj, toInt_floorToMinute,
    Grid.toInt_time inside]
  omega

variable {dress : Dress F} {h : MinuteHistory F} {g : Grid} {plan : RetroPlan F}
  {scan : RetroScan F}

omit [RuleFloat F] in
/-- Where a chunk from minute `n` on stops. -/
theorem chunk_stop (scan : RetroScan F) {n : Nat} (fits : scan.budget.chunkPoints * 60 < 2 ^ 63)
    (inside : n < g.count) : min (Lib.saturatingAdd (g.time n) scan.chunkSpan)
        (Lib.saturatingAdd (g.time (g.count - 1)) retroBucketSecs)
      = g.time (min (n + scan.pace) g.count) := by
  have low := g.low
  have minute : retroBucketSecs.toInt = 60 := rfl
  rw [← toInt_inj, toInt_min, Lib.saturatingAdd, Lib.saturatingAdd, toInt_saturate, toInt_saturate,
    toInt_chunkSpan fits, minute, Grid.toInt_time inside, Grid.toInt_time (by omega),
    Grid.toInt_time_le]
  omega

/-- A chunk's loop walks the history's own rows. -/
theorem walk_rows {rows : Int64 → Option (DimReadings F)} {reads : List (SeriesId × BucketStat)}
    {j k c : Nat} (inside : j + k < g.count) (within : j + k + c ≤ g.count)
    (same : ∀ minute, g.time (j + k) ≤ minute → minute < g.time (j + k + c) →
      rows minute = h.row reads minute) :
    scan.walk dress rows (minutes (g.time (j + k)) (g.time (j + k + c)))
      = scan.walk dress (h.row reads) ((range' k c).map fun i => g.time (j + i)) := by
  have names : minutes (g.time (j + k)) (g.time (j + k + c))
      = (range' k c).map fun i => g.time (j + i) := by
    rw [Grid.minutes_time inside within, List.range'_eq_map_range, map_map]
    exact map_congr_left fun i _ => by rw [Function.comp_apply, Nat.add_assoc]
  rw [names]
  refine walk_congr fun bucket here => ?_
  obtain ⟨i, range, rfl⟩ := mem_map.mp here
  obtain ⟨low, high⟩ := mem_range'_1.mp range
  have whole := g.whole
  have bound := g.high
  refine same _ ?_ ?_
  · rw [Grid.time_le_iff (by omega) (by omega)]
    omega
  · rw [lt_iff_toInt_lt, Grid.toInt_time (by omega), Grid.toInt_time_le]
    omega

variable (dress) in
/-- A chunk of a scan that began at minute `j` and stands at minute `j + k`: it goes on to a
later minute, and is done at the end of the grid. -/
theorem chunk_walks {j k : Nat}
    (spans : historySpan h.reader plan.reads none = .ok (some (g.time 0, g.time (g.count - 1))))
    (fits : scan.budget.chunkPoints * 60 < 2 ^ 63) (starts : scan.StartsAt g (j + k))
    (inside : j + k < g.count)
    (tracks : scan.Tracks plan (segment (h.row plan.reads) g.time j k)) :
    ∃ c, 0 < c ∧ j + k + c ≤ g.count ∧
      (scan.chunk dress h.reader).1.Tracks plan (segment (h.row plan.reads) g.time j (k + c)) ∧
      scan.SetUp (scan.chunk dress h.reader).1 ∧
      (scan.chunk dress h.reader).1.nextRead = some (g.time (j + k + c)) ∧
      (scan.chunk dress h.reader).1.cursor = some (max (g.time (j + k + c)) scan.emitFrom) ∧
      (scan.chunk dress h.reader).2.1 = ((range' k c).flatMap fun i =>
        if scan.emitFrom ≤ g.time (j + i) then foundAt dress (h.row plan.reads) g.time plan j i
        else []) ∧
      (scan.chunk dress h.reader).2.2 = .ok (if j + k + c = g.count then .done else .more) := by
  have pos : 0 < scan.pace := Nat.lt_of_lt_of_le Nat.one_pos (Nat.le_max_right _ _)
  obtain ⟨c, reach⟩ : ∃ c, min (j + k + scan.pace) g.count = j + k + c :=
    Nat.exists_eq_add_of_le (by omega)
  have within : j + k + c ≤ g.count := by omega
  refine ⟨c, by omega, within, ?_⟩
  have newest : ¬ g.time (g.count - 1) < g.time (j + k) := by
    rw [lt_iff_toInt_lt, Grid.toInt_time (by omega), Grid.toInt_time inside]
    omega
  have done : g.time (g.count - 1) < g.time (j + k + c) ↔ j + k + c = g.count := by
    have high := g.high
    have whole := g.whole
    rw [lt_iff_toInt_lt, Grid.toInt_time (by omega), Grid.toInt_time_le]
    omega
  obtain ⟨rows, read, answered, same⟩ :=
    h.rows_eq_row (g.time (j + k)) (g.time (j + k + c)) plan.reads
  obtain ⟨rfl, evaluator, firing, recent⟩ := tracks
  let begun : RetroScan F :=
    { scan with
      scope := some (g.time 0, g.time (g.count - 1))
      stats := { scan.stats with pointsRead := scan.stats.pointsRead + read } }
  have tracks : begun.Tracks scan.plan (segment (h.row scan.plan.reads) g.time j k) :=
    ⟨rfl, evaluator, firing, recent⟩
  obtain ⟨after, ⟨samePlan, sameBudget, sameEmit⟩, found⟩ := walk_tracks dress c tracks
  have chunk : scan.chunk dress h.reader
      = ({ (begun.walk dress (h.row scan.plan.reads) ((range' k c).map fun i => g.time (j + i))).1
        with
            nextRead := some (g.time (j + k + c))
            cursor := some (max (g.time (j + k + c)) scan.emitFrom) },
          (begun.walk dress (h.row scan.plan.reads) ((range' k c).map fun i => g.time (j + i))).2,
          .ok (if j + k + c = g.count then .done else .more)) := by
    have stop :=
      (chunk_stop { scan with scope := some (g.time 0, g.time (g.count - 1)) } fits inside).trans
      (congrArg g.time reach)
    rw [chunk, spans]
    dsimp only
    rw [show floorToMinute (max (scan.nextRead.getD (g.time 0)) (g.time 0)) = g.time (j + k)
      from starts, if_neg newest, stop, answered]
    dsimp only
    rw [walk_rows inside within same, sameEmit]
    simp only [done]
    rfl
  rw [chunk]
  exact ⟨⟨after.same, after.evaluator, after.firing, after.recent⟩,
    ⟨samePlan, sameBudget, sameEmit⟩, rfl, rfl, found, rfl⟩

end OpenGate.Alerts
