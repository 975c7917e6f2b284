import OpenGate.Alerts.Evaluator
import OpenGate.Alerts.Sink
import OpenGate.Backfill.Content

/-!
# The evidence of a live alert

`correlate/ks.rs`, `correlate/rank.rs` and `correlate/window.rs` with
`edge_sentinel/raise.rs`: when a rule starts firing, the store's dimensions are ranked by
how far their readings around the event are from those before it, and the ranking goes
into the alert.

The baseline of a live alert runs up to the event and `split` asks for it first, so a
reading of the last five minutes counts as baseline; the focus is left with readings of
the event's second and later, which are not stored yet.  So nothing is ever ranked
(`rankedDimensions_eq_nil`).
-/

namespace OpenGate.Alerts

open OpenGate.Lib OpenGate.Tsdb OpenGate.Backfill List

/-- What the scores ask of `f64` beyond what rules do. -/
class SignalFloat (F : Type) extends RuleFloat F where
  isFinite : F → Bool
  sqrt : F → F
  /-- `f64::total_cmp`, as less or equal. -/
  totalLe : F → F → Bool
  /-- The literal nearest to a fraction. -/
  fraction : Nat → Nat → F

variable {F : Type}

/-! ## The signals -/

section Signals

variable [SignalFloat F]

/-- `n as f64`. -/
def countAsFloat (n : Nat) : F := Float64.ofU64 (UInt64.ofNat n)

/-- The walk over both sorted windows, past each distinct value in turn; `d` is the widest
gap so far.  Every turn passes a reading at least, so the fuel is their number. -/
def ksWalk (na nb : Nat) : Nat → List F → List F → F → F
  | fuel + 1, a :: as, b :: bs, d =>
    let x := Float64.min a b
    let as := (a :: as).dropWhile fun v => Ieee.le v x
    let bs := (b :: bs).dropWhile fun v => Ieee.le v x
    let diff := Float64.abs (RuleFloat.sub
      (Float64.div (countAsFloat (na - as.length)) (countAsFloat na))
      (Float64.div (countAsFloat (nb - bs.length)) (countAsFloat nb)))
    ksWalk na nb fuel as bs (if Float64.lt d diff then diff else d)
  | _, _, _, d => d

def ksStatistic (a b : List F) : F :=
  if a.isEmpty || b.isEmpty then Float64.zero
  else
    ksWalk a.length b.length (a.length + b.length) (a.mergeSort SignalFloat.totalLe)
      (b.mergeSort SignalFloat.totalLe) Float64.zero

def meanStdDev (xs : List F) : F × F :=
  if xs.isEmpty then (Float64.zero, Float64.zero)
  else
    let n := countAsFloat xs.length
    let mean := Float64.div (xs.foldl Float64.add Float64.zero) n
    let variance := Float64.div ((xs.map fun v =>
      Float64.mul (RuleFloat.sub v mean) (RuleFloat.sub v mean)).foldl Float64.add Float64.zero) n
    (mean, SignalFloat.sqrt variance)

/-- The share of focus readings outside the baseline's band. -/
def anomalyRate (baseline focus : List F) : F :=
  if focus.isEmpty then Float64.zero
  else
    let (mean, std) := meanStdDev baseline
    let band := Float64.mul (SignalFloat.fraction 3 1) std
    let anomalous := focus.countP fun v =>
      if Float64.eq std Float64.zero then !Float64.eq v mean
      else Float64.lt band (Float64.abs (RuleFloat.sub v mean))
    Float64.div (countAsFloat anomalous) (countAsFloat focus.length)

def shiftMagnitude (baseline focus : List F) : F :=
  if baseline.isEmpty || focus.isEmpty then Float64.zero
  else
    let (baselineMean, baselineStd) := meanStdDev baseline
    let (focusMean, _) := meanStdDev focus
    let scale := Float64.add (Float64.abs baselineMean) baselineStd
    if Float64.eq scale Float64.zero then
      if Float64.eq focusMean Float64.zero then Float64.zero else SignalFloat.fraction 1 1
    else
      Float64.min (Float64.div (Float64.abs (RuleFloat.sub focusMean baselineMean)) scale)
        (SignalFloat.fraction 1 1)

end Signals

/-! ## The ranking -/

/-- The fewest readings a window needs before a shift can be judged. -/
def minWindowSamples : Nat := 2

structure DimWindows (F : Type) where
  dim : String
  baseline : List F
  focus : List F

structure Ranked (F : Type) where
  dim : String
  score : F
  ksStatistic : F
  anomalyRate : F
  shiftMagnitude : F
  baselineSamples : Nat
  focusSamples : Nat

structure Ranking (F : Type) where
  ranked : List (Ranked F)
  dimsConsidered : Nat
  dimsTruncated : Bool
  budgetExhausted : Bool

/-- What one correlation may cost, its wall-clock budget apart. -/
structure CorrelationLimits where
  topN : Nat := 8
  maxDims : Nat := 32
  maxPointsPerWindow : Nat := 3600

section Rank

variable [SignalFloat F]

def clamp01 (v : F) : F :=
  if Float64.lt v Float64.zero then Float64.zero
  else if Float64.lt (SignalFloat.fraction 1 1) v then SignalFloat.fraction 1 1
  else v

def scoreDimension (dim : DimWindows F) : Option (Ranked F) :=
  if dim.baseline.length < minWindowSamples || dim.focus.length < minWindowSamples then none
  else
    let ks := ksStatistic dim.baseline dim.focus
    let anomaly := anomalyRate dim.baseline dim.focus
    let magnitude := shiftMagnitude dim.baseline dim.focus
    some {
      dim := dim.dim
      score := Float64.add
        (Float64.add (Float64.mul (SignalFloat.fraction 4 10) ks)
          (Float64.mul (SignalFloat.fraction 3 10) (clamp01 anomaly)))
        (Float64.mul (SignalFloat.fraction 3 10) magnitude)
      ksStatistic := ks
      anomalyRate := anomaly
      shiftMagnitude := magnitude
      baselineSamples := dim.baseline.length
      focusSamples := dim.focus.length }

/-- `partial_cmp(..).unwrap_or(Equal)`. -/
def partialCmp (a b : F) : Ordering :=
  if Float64.lt a b then .lt else if Float64.lt b a then .gt else .eq

def mostAnomalousFirst (a b : Ranked F) : Ordering :=
  ((partialCmp b.score a.score).then (partialCmp b.ksStatistic a.ksStatistic)).then
    (Ord.compare a.dim b.dim)

/-- The loop over the candidates; `late` tells whether the budget has run out once so many
were considered. -/
def rankLoop (late : Nat → Bool) : Nat → List (Ranked F) → List (DimWindows F) →
    List (Ranked F) × Nat × Bool
  | considered, ranked, [] => (ranked, considered, false)
  | considered, ranked, dim :: dims =>
    if decide (0 < considered) && late considered then (ranked, considered, true)
    else rankLoop late (considered + 1) (ranked ++ (scoreDimension dim).toList) dims

/-- Scores every dimension, ordering by score and shape change descending, then by label. -/
def rankDimensions (late : Nat → Bool) (dims : List (DimWindows F)) (limits : CorrelationLimits) :
    Ranking F :=
  let (ranked, considered, exhausted) := rankLoop late 0 [] (dims.take limits.maxDims)
  { ranked := (ranked.mergeSort fun a b => (mostAnomalousFirst a b).isLE).take limits.topN
    dimsConsidered := considered
    dimsTruncated := limits.maxDims < dims.length
    budgetExhausted := exhausted }

end Rank

/-! ## The two windows -/

/-- A baseline and a focus window in Unix seconds; the baseline end is exclusive, the focus
end inclusive. -/
structure CorrelationWindow where
  baselineStart : Int64
  baselineEnd : Int64
  focusStart : Int64
  focusEnd : Int64

namespace CorrelationWindow

/-- None when either half does not run forwards. -/
def new (baselineStart baselineEnd focusStart focusEnd : Int64) : Option CorrelationWindow :=
  if baselineEnd ≤ baselineStart ∨ focusEnd ≤ focusStart then none
  else some ⟨baselineStart, baselineEnd, focusStart, focusEnd⟩

/-- One reading put into its window; a window that is full drops it. -/
def place [SignalFloat F] (window : CorrelationWindow) (maxPoints : Nat) (split : List F × List F)
    (point : Int64 × F) : List F × List F :=
  if !SignalFloat.isFinite point.2 then split
  else if window.baselineStart ≤ point.1 ∧ point.1 < window.baselineEnd then
    if split.1.length < maxPoints then (split.1 ++ [point.2], split.2) else split
  else if window.focusStart ≤ point.1 ∧ point.1 ≤ window.focusEnd ∧ split.2.length < maxPoints then
    (split.1, split.2 ++ [point.2])
  else split

def split [SignalFloat F] (window : CorrelationWindow) (points : List (Int64 × F))
    (maxPoints : Nat) : List F × List F :=
  points.foldl (window.place maxPoints) ([], [])

end CorrelationWindow

section Correlate

variable [SignalFloat F] {dims : List (DimWindows F)} {content : Content F} {late : Nat → Bool}

def readWindows (reader : TierReader F) (window : CorrelationWindow) (limits : CorrelationLimits) :
    List SeriesId → Result (List (DimWindows F))
  | [] => .ok []
  | series :: rest =>
    match seriesDimName series with
    | none => readWindows reader window limits rest
    | some dim => do
        let samples ← reader.rangeRaw series window.baselineStart
          (Lib.saturatingAdd window.focusEnd 1)
        let (baseline, focus) := window.split (samples.map fun e => (e.1.ts, e.1.value))
          limits.maxPointsPerWindow
        let dims ← readWindows reader window limits rest
        .ok (⟨dim, baseline, focus⟩ :: dims)

def correlateSnapshot (late : Nat → Bool) (reader : TierReader F) (window : CorrelationWindow)
    (limits : CorrelationLimits) : Result (Ranking F) := do
  let dims ← readWindows reader window limits (backfillSeries.take limits.maxDims)
  .ok (rankDimensions late dims limits)

/-! ## Raising -/

/-- Seconds either side of the firing instant that the evidence's readings reach. -/
def evidenceSpanSecs : Int64 := 300

/-- Seconds of history the ranking compares the event against. -/
def evidenceBaselineSecs : Int64 := 1800

def liveWindow (ts : Int64) : Option CorrelationWindow :=
  CorrelationWindow.new (saturatingSub ts evidenceBaselineSecs) ts
    (saturatingSub ts evidenceSpanSecs) (Lib.saturatingAdd ts evidenceSpanSecs)

/-- Ranks the readings that broke pattern around the event; there may be no store, or none
that can be read. -/
def rankedDimensions (late : Nat → Bool) (store : Option (TierReader F)) (ts : Int64) :
    List (Ranked F) :=
  match liveWindow ts, store with
  | some window, some snapshot =>
    match correlateSnapshot late snapshot window {} with
    | .ok ranking => ranking.ranked
    | .error _ => []
  | _, _ => []

/-! ## What is ranked -/

/-- Readings that all lie in the baseline leave the focus empty. -/
theorem CorrelationWindow.split_focus_eq_nil (window : CorrelationWindow)
    (points : List (Int64 × F)) (maxPoints : Nat)
    (inside : ∀ p ∈ points, window.baselineStart ≤ p.1 ∧ p.1 < window.baselineEnd) :
    (window.split points maxPoints).2 = [] := by
  have kept : ∀ (points : List (Int64 × F)) (split : List F × List F),
      (∀ p ∈ points, window.baselineStart ≤ p.1 ∧ p.1 < window.baselineEnd) →
      (points.foldl (window.place maxPoints) split).2 = split.2 := by
    intro points
    induction points with
    | nil => exact fun split _ => rfl
    | cons p points ih =>
      intro split inside
      rw [foldl_cons, ih _ fun q here => inside q (mem_cons_of_mem _ here), place]
      rw [if_pos (inside p mem_cons_self)]
      split
      · rfl
      · split <;> rfl
  exact kept points ([], []) inside

/-- What is read up to the event has nothing in focus. -/
theorem readWindows_focus_eq_nil {window : CorrelationWindow} {limits : CorrelationLimits}
    {series : List SeriesId}
    (before : ∀ x ∈ series, ∀ e ∈ content.raw x, e.1.ts < window.baselineEnd)
    (read : readWindows content.reader window limits series = .ok dims) :
    ∀ dim ∈ dims, dim.focus = [] := by
  induction series generalizing dims with
  | nil =>
    cases read
    exact fun dim here => nomatch here
  | cons x series ih =>
    have rest : ∀ dims, readWindows content.reader window limits series = .ok dims →
        ∀ dim ∈ dims, dim.focus = [] := fun _ =>
      ih fun y here => before y (mem_cons_of_mem _ here)
    rw [readWindows] at read
    split at read
    · exact rest dims read
    next name =>
      obtain ⟨samples, sampled, read⟩ := bind_ok read
      obtain ⟨others, also, read⟩ := bind_ok read
      cases sampled
      cases read
      intro dim here
      rcases mem_cons.mp here with rfl | later
      · refine window.split_focus_eq_nil _ _ fun p inside => ?_
        obtain ⟨e, stored, rfl⟩ := mem_map.mp inside
        obtain ⟨stored, ranged⟩ := mem_filter.mp stored
        exact ⟨(decide_eq_true_eq.mp ranged).1, before x mem_cons_self e stored⟩
      · exact rest others also dim later

/-- A dimension with nothing in focus is not scored. -/
theorem rankLoop_eq (unfocused : ∀ dim ∈ dims, dim.focus = []) (considered : Nat)
    (ranked : List (Ranked F)) : (rankLoop late considered ranked dims).1 = ranked := by
  induction dims generalizing considered ranked with
  | nil => rfl
  | cons dim dims ih =>
    have unscored : scoreDimension dim = none := by
      rw [scoreDimension, unfocused dim mem_cons_self]
      simp [minWindowSamples]
    rw [rankLoop]
    split
    · rfl
    · rw [unscored, ih fun d here => unfocused d (mem_cons_of_mem _ here)]
      exact append_nil ranked

/-- While the store holds only what came before the event, nothing is ranked. -/
theorem rankedDimensions_eq_nil {ts : Int64}
    (before : ∀ x ∈ backfillSeries, ∀ e ∈ content.raw x, e.1.ts < ts) :
    rankedDimensions late (some content.reader) ts = [] := by
  unfold rankedDimensions
  split
  next window snapshot opened same =>
    cases same
    have upTo : window.baselineEnd = ts := by
      unfold liveWindow CorrelationWindow.new at opened
      split at opened
      · cases opened
      · cases opened
        rfl
    split
    next ranking correlated =>
      obtain ⟨dims, read, ranks⟩ := bind_ok correlated
      cases ranks
      have unfocused := readWindows_focus_eq_nil (fun x here e stored => by
        rw [upTo]
        exact before x (mem_of_mem_take here) e stored) read
      have nothing : (rankLoop late 0 [] (dims.take ({} : CorrelationLimits).maxDims)).1 = [] :=
        rankLoop_eq (fun dim here => unfocused dim (mem_of_mem_take here)) 0 []
      unfold rankDimensions
      dsimp only
      rw [nothing, mergeSort_nil, take_nil]
    · rfl
  · rfl

def finiteReadings (content : Content F) (series : SeriesId) (start stop : Int) : Nat :=
  (content.raw series).countP fun e =>
    SignalFloat.isFinite e.1.value && decide (start ≤ e.1.ts.toInt ∧ e.1.ts.toInt < stop)

/-- Enough readings in the five minutes up to the event, and enough in the baseline before. -/
def HasEvidence (content : Content F) (ts : Int64) (series : SeriesId) : Prop :=
  minWindowSamples ≤ finiteReadings content series (ts.toInt - 300) ts.toInt ∧
    minWindowSamples ≤ finiteReadings content series (ts.toInt - 1800) (ts.toInt - 300)

/-- The ranking of a live alert has every dimension with evidence exactly when there is no
such dimension. -/
theorem ranks_evidence_iff (late : Nat → Bool) (content : Content F) (firing : Firing F)
    (before : ∀ x ∈ backfillSeries, ∀ e ∈ content.raw x, e.1.ts < firing.atTs) :
    (∀ x ∈ backfillSeries, HasEvidence content firing.atTs x →
        ∃ r ∈ rankedDimensions late (some content.reader) firing.atTs,
          seriesDimName x = some r.dim) ↔
      ∀ x ∈ backfillSeries, ¬ HasEvidence content firing.atTs x := by
  rw [rankedDimensions_eq_nil before]
  constructor
  · intro ranks x here has
    obtain ⟨r, listed, -⟩ := ranks x here has
    cases listed
  · intro none x here has
    exact absurd has (none x here)

end Correlate

/-! ## Whole numbers as readings -/

instance : SignalFloat Int64 where
  isFinite _ := true
  sqrt v := Int64.ofNat v.toInt.toNat.sqrt
  totalLe a b := decide (a ≤ b)
  fraction num den := Int64.ofNat (num / den)

def busySamples : List (Sample Int64 × Bool) :=
  [(⟨2500, 10⟩, false), (⟨2501, 10⟩, false), (⟨3900, 90⟩, false), (⟨3999, 95⟩, false)]

def busyContent : Content Int64 where
  raw x := if x = 0 then busySamples else []
  points _ _ := []
  sorted x := by
    split
    · decide
    · exact .nil
  ascending _ _ := .nil
  aligned _ _ p here := by cases here

def busyFiring : Firing Int64 where
  ruleId := "cpu-high"
  ruleVersion := 1
  severity := .warning
  metric := "cpu.total"
  value := 95
  since := 4000
  atTs := 4000
  started := true

theorem busyContent_before :
    ∀ x ∈ backfillSeries, ∀ e ∈ busyContent.raw x, e.1.ts < busyFiring.atTs := by
  intro x _ e here
  simp only [busyContent] at here
  split at here
  · revert e
    decide
  · cases here

theorem ranks_evidence_iff_busy :
    (∀ x ∈ backfillSeries, HasEvidence busyContent 4000 x →
        ∃ r ∈ rankedDimensions (fun _ => false) (some busyContent.reader) 4000,
          seriesDimName x = some r.dim) ↔
      ∀ x ∈ backfillSeries, ¬ HasEvidence busyContent 4000 x :=
  ranks_evidence_iff (fun _ => false) busyContent busyFiring busyContent_before

/-- The processor was busy for minutes, and the ranking is empty. -/
theorem evidence_not_ranked :
    HasEvidence busyContent 4000 0 ∧ (0 : SeriesId) ∈ backfillSeries ∧
      rankedDimensions (fun _ => false) (some busyContent.reader) 4000 = [] := by
  refine ⟨⟨by decide +kernel, by decide +kernel⟩, by decide, ?_⟩
  exact rankedDimensions_eq_nil busyContent_before

end OpenGate.Alerts
