import OpenGate.Lib.Ieee
import OpenGate.Lib.Int64
import OpenGate.Backfill.Drain
import OpenGate.Tsdb.Whole

/-!
# Rules and their conditions

The rule grammar of `mesh-protocol/src/control.rs` and `alerts/evaluator/condition.rs`.
A condition keeps the readings of its window, oldest first, and reduces them to the
number it compares.
-/

namespace OpenGate.Alerts

open OpenGate.Lib OpenGate.Tsdb OpenGate.Backfill Option

/-- What rules ask of `f64`: besides arithmetic, its comparisons. -/
class RuleFloat (F : Type) extends Float64 F, Ieee F where
  sub : F → F → F
  lowest : F

/-! ## The grammar -/

inductive AlertComparator where
  | gt
  | lt
  | gte
  | lte
  deriving DecidableEq, Repr

inductive RulePredicate where
  | instant
  | rate
  | windowMax
  | windowMean
  deriving DecidableEq, Repr

inductive AlertSeverity where
  | info
  | warning
  | critical
  deriving DecidableEq, Repr

inductive RuleCoverageState where
  | active
  | unsupported
  | throttled
  deriving DecidableEq, Repr

def ruleMetrics : List String :=
  ["cpu.total", "mem.used_percent", "disk.used_percent", "disk.mounts_critical", "net.rx_bps",
    "net.tx_bps", "stall.cpu.some", "stall.mem.some", "stall.mem.full", "stall.io.some",
    "stall.io.full", "disk.await_ms", "disk.queue_depth"]

def ruleMetricAliases : List (String × String) :=
  [("mem.used", "mem.used_percent"), ("disk.used", "disk.used_percent")]

def maxRuleWindowSecs : UInt32 := 900

def maxRuleTerms : Nat := 4

def canonicalRuleMetric (name : String) : Option String :=
  match ruleMetrics.find? (· == name) with
  | some canonical => some canonical
  | none => (ruleMetricAliases.find? (·.1 == name)).map (·.2)

theorem mem_ruleMetrics {metric canonical : String}
    (known : canonicalRuleMetric metric = some canonical) : canonical ∈ ruleMetrics := by
  have aliases : ∀ pair ∈ ruleMetricAliases, pair.2 ∈ ruleMetrics := by decide +kernel
  unfold canonicalRuleMetric at known
  split at known
  next name found => exact Option.some.inj known ▸ List.mem_of_find?_eq_some found
  · obtain ⟨pair, found, rfl⟩ := map_eq_some_iff.mp known
    exact aliases pair (List.mem_of_find?_eq_some found)

structure RuleTerm (F : Type) where
  metric : String
  comparator : AlertComparator
  threshold : F
  clear : F
  predicate : RulePredicate
  windowSecs : UInt32

structure ThresholdRule (F : Type) where
  id : String
  version : UInt32
  severity : AlertSeverity
  metric : String
  comparator : AlertComparator
  threshold : F
  clear : F
  sustainSecs : UInt32
  predicate : RulePredicate
  windowSecs : UInt32
  all : List (RuleTerm F)

variable {F : Type} {predicate : RulePredicate} {windowSecs : UInt32}

/-! ## One instant's readings -/

def dimSeries : String → Option SeriesId
  | "cpu.total" | "cpu.total.max" => some 0
  | "mem.used_percent" | "mem.used_percent.max" => some 1
  | "disk.used_percent" => some 2
  | "net.rx_bps" | "net.rx_bps.max" => some 3
  | "net.tx_bps" | "net.tx_bps.max" => some 4
  | "disk.mounts_critical" => some 5
  | "stall.cpu.some" => some 6
  | "stall.mem.some" => some 7
  | "stall.mem.full" => some 8
  | "stall.io.some" => some 9
  | "stall.io.full" => some 10
  | "disk.await_ms" | "disk.await_ms.max" => some 11
  | "disk.queue_depth" => some 12
  | _ => none

/-- One instant's readings in the order of the backfill series; a reading that does
not exist is none, never a zero. -/
structure DimReadings (F : Type) where
  values : Vector (Option F) 13

def DimReadings.get (readings : DimReadings F) (series : SeriesId) : Option F :=
  ((backfillSeries.idxOf? series).bind (readings.values[·]?)).join

def DimReadings.ofMetric (readings : DimReadings F) (metric : String) : Option F :=
  (dimSeries metric).bind readings.get

/-! ## A condition -/

inductive Reading (F : Type) where
  | value (v : F)
  | unsupported
  | notEnoughData
  deriving DecidableEq

structure Condition (F : Type) where
  metric : String
  comparator : AlertComparator
  threshold : F
  clear : F
  predicate : RulePredicate
  windowSecs : UInt32
  /-- Readings retained for a windowed predicate, oldest first. -/
  history : List (Int64 × F)
  deriving DecidableEq

def windowIsExpressible (predicate : RulePredicate) (windowSecs : UInt32) : Bool :=
  match predicate with
  | .instant => windowSecs == 0
  | _ => decide (1 ≤ windowSecs) && decide (windowSecs ≤ maxRuleWindowSecs)

theorem windowIsExpressible_instant :
    windowIsExpressible .instant windowSecs ↔ windowSecs = 0 := beq_iff_eq

theorem windowIsExpressible_windowed (windowed : predicate ≠ .instant) :
    windowIsExpressible predicate windowSecs ↔
      1 ≤ windowSecs.toNat ∧ windowSecs.toNat ≤ 900 := by
  have most : maxRuleWindowSecs.toNat = 900 := rfl
  have least : (1 : UInt32).toNat = 1 := rfl
  cases predicate with
  | instant => exact absurd rfl windowed
  | rate | windowMax | windowMean =>
    simp only [windowIsExpressible, Bool.and_eq_true, decide_eq_true_eq, UInt32.le_iff_toNat_le,
      most, least]

theorem toNat_le_of_expressible (expressible : windowIsExpressible predicate windowSecs) :
    windowSecs.toNat ≤ 900 := by
  by_cases kind : predicate = .instant
  · rw [kind, windowIsExpressible_instant] at expressible
    rw [expressible]
    decide
  · exact ((windowIsExpressible_windowed kind).mp expressible).2

/-- The readings one predicate retains and may touch. -/
def predicateCost (predicate : RulePredicate) (windowSecs : UInt32) : Nat :=
  match predicate with
  | .instant => 1
  | _ => windowSecs.toNat + 1

/-- The readings a predicate runs over to answer once. -/
def deriveCost (predicate : RulePredicate) (windowLen : Nat) : Nat :=
  match predicate with
  | .rate => 2
  | _ => windowLen

namespace Condition

/-- Builds a condition from a declared shape; none for an unknown metric or an invalid
predicate and window pair. -/
def new (metric : String) (comparator : AlertComparator) (threshold clear : F)
    (predicate : RulePredicate) (windowSecs : UInt32) : Option (Condition F) := do
  let metric ← canonicalRuleMetric metric
  if windowIsExpressible predicate windowSecs then
    some ⟨metric, comparator, threshold, clear, predicate, windowSecs, []⟩
  else none

theorem new_eq_some_iff {metric : String} {comparator : AlertComparator} {threshold clear : F}
    {c : Condition F} :
    new metric comparator threshold clear predicate windowSecs = some c ↔
      ∃ canonical, canonicalRuleMetric metric = some canonical ∧
        windowIsExpressible predicate windowSecs ∧
        c = ⟨canonical, comparator, threshold, clear, predicate, windowSecs, []⟩ := by
  rw [new, bind_eq_bind, bind_eq_some_iff]
  refine exists_congr fun canonical => and_congr_right fun _ => ?_
  split
  next expressible => simp [expressible, eq_comm]
  next inexpressible => simp [inexpressible]

def primary (rule : ThresholdRule F) : Option (Condition F) :=
  new rule.metric rule.comparator rule.threshold rule.clear rule.predicate rule.windowSecs

def extra (term : RuleTerm F) : Option (Condition F) :=
  new term.metric term.comparator term.threshold term.clear term.predicate term.windowSecs

def retain (c : Condition F) (ts : Int64) (value : F) : Condition F :=
  let oldestKept := saturatingSub ts (Int64.ofNat c.windowSecs.toNat)
  let kept := (c.history ++ [(ts, value)]).dropWhile fun reading => decide (reading.1 < oldestKept)
  { c with history := kept.drop (kept.length - predicateCost c.predicate c.windowSecs) }

/-- The retained readings, once they actually span the declared window. -/
def spannedWindow (c : Condition F) : Option (List (Int64 × F)) := do
  let oldest ← c.history.head?
  let newest ← c.history.getLast?
  if Int64.ofNat c.windowSecs.toNat ≤ saturatingSub newest.1 oldest.1 then some c.history
  else none

def reset (c : Condition F) : Condition F := { c with history := [] }

variable (c : Condition F)

@[simp] theorem reset_reset : c.reset.reset = c.reset := rfl

variable (ts : Int64) (v : F)

@[simp] theorem reset_retain : (c.retain ts v).reset = c.reset := rfl

theorem length_retain_le :
    (c.retain ts v).history.length ≤ predicateCost c.predicate c.windowSecs := by
  rw [retain, List.length_drop]
  omega

theorem spannedWindow_eq {c : Condition F} {window : List (Int64 × F)}
    (spanned : c.spannedWindow = some window) : window = c.history := by
  simp only [spannedWindow, bind_eq_bind, bind_eq_some_iff] at spanned
  obtain ⟨oldest, -, newest, -, spans⟩ := spanned
  split at spans
  · exact (Option.some.inj spans).symm
  · cases spans

end Condition

/-! ## Comparing and deriving -/

variable [RuleFloat F]

/-- The derived `PartialEq`: a term with a NaN is not equal to itself. -/
instance : BEq (RuleTerm F) where
  beq a b := a.metric == b.metric && a.comparator == b.comparator &&
    Ieee.eq a.threshold b.threshold && Ieee.eq a.clear b.clear &&
    a.predicate == b.predicate && a.windowSecs == b.windowSecs

instance : BEq (ThresholdRule F) where
  beq a b := a.id == b.id && a.version == b.version && a.severity == b.severity &&
    a.metric == b.metric && a.comparator == b.comparator &&
    Ieee.eq a.threshold b.threshold && Ieee.eq a.clear b.clear &&
    a.sustainSecs == b.sustainSecs && a.predicate == b.predicate &&
    a.windowSecs == b.windowSecs && a.all.isEqv b.all (· == ·)

def compare (comparator : AlertComparator) (value bound : F) : Bool :=
  match comparator with
  | .gt => Ieee.lt bound value
  | .lt => Ieee.lt value bound
  | .gte => Ieee.le bound value
  | .lte => Ieee.le value bound

def derive (predicate : RulePredicate) (window : List (Int64 × F)) : F :=
  match predicate with
  | .windowMax => window.foldl (fun most reading => Float64.max most reading.2) RuleFloat.lowest
  | .windowMean =>
    Float64.div (window.foldl (fun sum reading => Float64.add sum reading.2) Float64.zero)
      (Float64.ofU64 (UInt64.ofNat window.length))
  | .rate =>
    let oldest := window.head?.getD (0, Float64.zero)
    let newest := window.getLast?.getD (0, Float64.zero)
    let elapsed := saturatingSub newest.1 oldest.1
    if elapsed ≤ 0 then Float64.zero
    else Float64.div (RuleFloat.sub newest.2 oldest.2) (Float64.ofI64 elapsed)
  | .instant => Float64.zero

namespace Condition

/-- Derives the number the comparators see, and the readings touched. -/
def step (c : Condition F) (readings : DimReadings F) (ts : Int64) :
    Condition F × Reading F × Nat :=
  match readings.ofMetric c.metric with
  | none => (c, .unsupported, 1)
  | some value =>
    if c.predicate = .instant then (c, .value value, 1)
    else
      let c := c.retain ts value
      match c.spannedWindow with
      | none => (c, .notEnoughData, 1)
      | some window =>
        (c, .value (derive c.predicate window), 1 + deriveCost c.predicate window.length)

def breaching (c : Condition F) (value : F) : Bool := compare c.comparator value c.threshold

def cleared (c : Condition F) (value : F) : Bool := !compare c.comparator value c.clear

variable (c : Condition F) (sample : DimReadings F) (ts : Int64)

@[simp] theorem reset_step : (c.step sample ts).1.reset = c.reset := by
  unfold step
  split
  · rfl
  · split
    · rfl
    · dsimp only
      split <;> exact reset_retain c ts _

@[simp] theorem predicate_step : (c.step sample ts).1.predicate = c.predicate := by
  show (c.step sample ts).1.reset.predicate = c.reset.predicate
  rw [reset_step]

end Condition

/-! ## Whole numbers as readings -/

instance : RuleFloat Int64 where
  place v := some v.toInt
  lt_iff a b := by
    show decide (a < b) = true ↔ _
    simp [Int64.lt_iff_toInt_lt]
  eq_iff a b := by
    show decide (a = b) = true ↔ _
    simp [← Int64.toInt_inj, eq_comm]
  sub := (· - ·)
  lowest := Int64.minValue

end OpenGate.Alerts
