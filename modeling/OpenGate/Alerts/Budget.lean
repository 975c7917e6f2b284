import OpenGate.Alerts.Evaluator

/-!
# What a rule may cost and what it costs

A rule is admitted on the readings it retains (`rule_cost`) and charged for the readings
it touches.  A second touches the new reading of each condition and, once the window is
spanned, what the predicate runs over, so a windowed condition is charged one more than
it was admitted with.  A rule is never throttled exactly when what its full windows
touch in a second is within the allowance of a second (`never_throttled_iff`).
-/

namespace OpenGate.Alerts

open OpenGate.Lib OpenGate.Tsdb OpenGate.Backfill Condition Float64 RuleBudget RuleEntry List
open Int64 (le_refl lt_iff_toInt_lt ofNat)

variable {F : Type}

structure Tick (F : Type) where
  ts : Int64
  readings : DimReadings F

/-- Evaluations at strictly increasing seconds, no two further apart than an `i64` can
tell. -/
def Steady (ticks : List (Tick F)) : Prop :=
  ticks.Pairwise fun a b => a.ts < b.ts ∧ b.ts.toInt - a.ts.toInt < 2 ^ 63

/-- The readings a condition touches in a second once its window is full. -/
def touchedCost (predicate : RulePredicate) (windowSecs : UInt32) : Nat :=
  match predicate with
  | .instant => 1
  | _ => 1 + deriveCost predicate (predicateCost predicate windowSecs)

/-- The readings a rule touches in a second once its windows are full. -/
def touchedByRule (rule : ThresholdRule F) : Nat :=
  touchedCost rule.predicate rule.windowSecs
    + (rule.all.map fun term => touchedCost term.predicate term.windowSecs).sum

/-! ## One condition -/

namespace Condition

/-- The readings a condition touches in a second once its window is full. -/
def touched (c : Condition F) : Nat := touchedCost c.predicate c.windowSecs

@[simp] theorem touched_reset {c : Condition F} : c.reset.touched = c.touched := rfl

theorem one_le_touched (c : Condition F) : 1 ≤ c.touched := by
  unfold touched touchedCost
  split <;> omega

end Condition

variable [RuleFloat F]

namespace Condition

/-- A second touches no more than a full window does. -/
theorem cost_step_le (c : Condition F) (sample : DimReadings F) (ts : Int64) :
    (c.step sample ts).2.2 ≤ c.touched := by
  have one := c.one_le_touched
  unfold step
  split
  · exact one
  · next v available =>
    split
    · exact one
    · next windowed =>
      dsimp only
      split
      · exact one
      · next window spanned =>
        have short := c.length_retain_le ts v
        rw [← spannedWindow_eq spanned] at short
        show 1 + deriveCost c.predicate window.length ≤ touchedCost c.predicate c.windowSecs
        cases kind : c.predicate <;> simp_all [touchedCost, deriveCost]

end Condition

/-! ## One evaluation -/

/-- What a list of conditions touches in a second once their windows are full. -/
def touchedByAll (conditions : List (Condition F)) : Nat := (conditions.map (·.touched)).sum

omit [RuleFloat F] in
theorem touchedByAll_eq_of_reset {cs ds : List (Condition F)}
    (same : cs.map reset = ds.map reset) :
    touchedByAll cs = touchedByAll ds := by
  have touched := congrArg (fun l : List (Condition F) => (l.map (·.touched)).sum) same
  simp only [map_map, Function.comp_def, touched_reset] at touched
  exact touched

theorem workOf_le {conditions : List (Condition F)} {sample : DimReadings F} {ts : Int64} :
    workOf (conditions.map (·.step sample ts)) ≤ touchedByAll conditions := by
  rw [workOf_eq, map_map]
  exact (min_le_left _ _).trans
    (sum_le_sum fun c _ => c.cost_step_le sample ts)

variable {c : Condition F} {comparator : AlertComparator} {predicate : RulePredicate}
  {threshold clear : F} {windowSecs : UInt32} {metric : String}

omit [RuleFloat F] in
theorem Condition.touched_new
    (built : Condition.new metric comparator threshold clear predicate windowSecs = some c) :
    c.touched = touchedCost predicate windowSecs := by
  obtain ⟨canonical, -, -, rfl⟩ := Condition.new_eq_some_iff.mp built
  rfl

variable {rule : ThresholdRule F} {conditions : List (Condition F)}

omit [RuleFloat F] in
theorem touchedByAll_of_built (built : buildConditions rule = some conditions) :
    touchedByAll conditions = touchedByRule rule := by
  obtain ⟨-, own, extras, primary, terms, rfl⟩ := buildConditions_eq_some_iff.mp built
  have rest : extras.map (·.touched)
      = rule.all.map fun term => touchedCost term.predicate term.windowSecs := by
    rw [eq_comm, ← forall₂_eq_eq_eq, forall₂_map_left_iff, forall₂_map_right_iff]
    exact terms.imp fun _ _ term => (touched_new term).symm
  rw [touchedByAll, map_cons, sum_cons, rest, touched_new primary, touchedByRule]

/-! ## A whole span within the allowance -/

namespace RuleBudget

variable {budget : RuleBudget} {ts : Int64}

theorem charge_within (inside : budget.within ts) (work : Nat) :
    budget.charge ts work = ⟨budget.windowStart, saturatingAdd budget.spent work,
      budget.throttled || decide (ruleBudgetPerWindow < saturatingAdd budget.spent work)⟩ := by
  simp only [charge, if_pos inside]

theorem charge_outside (outside : budget.within ts = false) (work : Nat) :
    budget.charge ts work = ⟨some ts, saturatingAdd 0 work,
      budget.throttled || decide (ruleBudgetPerWindow < saturatingAdd 0 work)⟩ := by
  simp only [charge, outside, Bool.false_eq_true, if_false]

theorem within_iff {start : Int64} (here : budget.windowStart = some start)
    (near : ts.toInt - start.toInt < 2 ^ 63) :
    budget.within ts ↔ start ≤ ts ∧ ts.toInt - start.toInt < 60 := by
  have sixty : ruleBudgetWindowSecs.toInt = 60 := rfl
  rw [within, here, Option.any_some, Bool.and_eq_true, decide_eq_true_eq, decide_eq_true_eq]
  refine and_congr_right fun order => ?_
  rw [Int64.le_iff_toInt_le] at order
  rw [lt_iff_toInt_lt, toInt_sub_of_range (by omega) near, sixty]

end RuleBudget

/-- A budget after an evaluation at `last`: not spent, in a span that began no earlier than
`first`, with at most `most` charged for each second of it. -/
structure Affordable (most : Nat) (first last : Int64) (budget : RuleBudget) : Prop where
  running : budget.throttled = false
  spent : ∃ start, budget.windowStart = some start ∧ first ≤ start ∧ start ≤ last ∧
    last.toInt - start.toInt < 60 ∧
    (budget.spent : Int) ≤ (last.toInt - start.toInt + 1) * most

section Affordable

variable {most work : Nat} {first last ts : Int64} {budget : RuleBudget}

/-- A span opened by an evaluation. -/
theorem affordable_opened (running : budget.throttled = false) (outside : budget.within ts = false)
    (first_le : first ≤ ts) (cheap : work ≤ most) (fits : most ≤ ruleBudgetReadingsPerSec) :
    Affordable most first ts (budget.charge ts work) := by
  have allowance : ruleBudgetPerWindow = 3600 * 60 := rfl
  have rate : ruleBudgetReadingsPerSec = 3600 := rfl
  have spent : saturatingAdd 0 work ≤ work := by
    rw [saturatingAdd]
    omega
  rw [charge_outside outside]
  refine ⟨?_, ts, rfl, first_le, le_refl ts, by omega, ?_⟩
  · rw [running, Bool.false_or, decide_eq_false_iff_not]
    omega
  · dsimp only
    omega

/-- An evaluation later than the last leaves the budget unspent. -/
theorem Affordable.charge (affordable : Affordable most first last budget) (later : last < ts)
    (near : ts.toInt - first.toInt < 2 ^ 63) (cheap : work ≤ most)
    (fits : most ≤ ruleBudgetReadingsPerSec) :
    Affordable most first ts (budget.charge ts work) := by
  have allowance : ruleBudgetPerWindow = 3600 * 60 := rfl
  have rate : ruleBudgetReadingsPerSec = 3600 := rfl
  obtain ⟨running, start, here, after, before, -, spent⟩ := affordable
  simp only [Int64.le_iff_toInt_le, lt_iff_toInt_lt] at after before later
  cases inside : budget.within ts with
  | false =>
    refine affordable_opened running inside ?_ cheap fits
    rw [Int64.le_iff_toInt_le]
    omega
  | true =>
    obtain ⟨-, span⟩ := (RuleBudget.within_iff here (by omega)).mp inside
    -- One more second of the span pays for the new work.
    have charged : ((saturatingAdd budget.spent work : Nat) : Int)
        ≤ (ts.toInt - start.toInt + 1) * most := by
      have second : (last.toInt - start.toInt + 1 + 1) * (most : Int)
          ≤ (ts.toInt - start.toInt + 1) * most :=
        Int.mul_le_mul_of_nonneg_right (by omega) (by omega)
      rw [Int.add_mul, one_mul] at second
      rw [saturatingAdd]
      omega
    have whole : (ts.toInt - start.toInt + 1) * (most : Int) ≤ 60 * 3600 :=
      Int.mul_le_mul (by omega) (by omega) (by omega) (by omega)
    rw [charge_within inside]
    refine ⟨?_, start, here, ?_, ?_, span, charged⟩
    · rw [running, Bool.false_or, decide_eq_false_iff_not]
      omega
    · rw [Int64.le_iff_toInt_le]
      exact after
    · rw [Int64.le_iff_toInt_le]
      omega

end Affordable

/-! ## Runs -/

def RuleEntry.run (entry : RuleEntry F) (ticks : List (Tick F)) : RuleEntry F :=
  ticks.foldl (fun entry tick => (entry.step tick.readings tick.ts).1) entry

@[simp] theorem RuleEntry.run_cons {entry : RuleEntry F} {tick : Tick F} {ticks : List (Tick F)} :
    entry.run (tick :: ticks) = (entry.step tick.readings tick.ts).1.run ticks := rfl

/-- An entry whose conditions are built and whose budget is affordable. -/
structure WithinMeans (first last : Int64) (entry : RuleEntry F) : Prop where
  built : ∃ conditions, entry.conditions = some conditions ∧
    touchedByAll conditions ≤ ruleBudgetReadingsPerSec ∧
    Affordable (touchedByAll conditions) first last entry.budget
  covered : entry.coverage ≠ .throttled

variable {entry : RuleEntry F} {ticks : List (Tick F)} {tick : Tick F} (start count : Nat)

theorem withinMeans_of_charge {first : Int64} (running : entry.budget.throttled = false)
    (built : entry.conditions = some conditions)
    (fits : touchedByAll conditions ≤ ruleBudgetReadingsPerSec)
    (affordable : Affordable (touchedByAll conditions) first tick.ts
      (entry.budget.charge tick.ts (workOf (conditions.map (·.step tick.readings tick.ts))))) :
    WithinMeans first tick.ts (entry.step tick.readings tick.ts).1 := by
  obtain ⟨budget, ⟨after, conditions', shape⟩, throttled⟩ :=
    step_built running built
  rw [← touchedByAll_eq_of_reset shape] at fits affordable
  rw [← budget] at affordable
  refine ⟨⟨after, conditions', fits, affordable⟩, ?_⟩
  rw [Ne, throttled, affordable.running]
  exact Bool.false_ne_true

theorem WithinMeans.run {first last : Int64} (means : WithinMeans first last entry)
    (steady : Steady ticks)
    (after : ∀ tick ∈ ticks, last < tick.ts ∧ tick.ts.toInt - first.toInt < 2 ^ 63) :
    (entry.run ticks).coverage ≠ .throttled := by
  induction ticks generalizing entry last with
  | nil => exact means.covered
  | cons tick ticks ih =>
    obtain ⟨later, steady⟩ := pairwise_cons.mp steady
    obtain ⟨⟨next, near⟩, rest⟩ := forall_mem_cons.mp after
    obtain ⟨⟨conditions, built, fits, affordable⟩, -⟩ := means
    refine ih (withinMeans_of_charge affordable.running built fits
      (affordable.charge next near workOf_le fits)) steady ?_
    intro t here
    exact ⟨(later t here).1, (rest t here).2⟩

/-- A rule whose full windows are within the allowance is never throttled. -/
theorem never_throttled (shape : (buildConditions rule).isSome)
    (fits : touchedByRule rule ≤ ruleBudgetReadingsPerSec) (steady : Steady ticks) :
    ((RuleEntry.new rule).run ticks).coverage ≠ .throttled := by
  obtain ⟨conditions, built⟩ := Option.isSome_iff_exists.mp shape
  rw [← touchedByAll_of_built built] at fits
  cases ticks with
  | nil =>
    rw [RuleEntry.new, if_pos shape]
    exact RuleCoverageState.noConfusion
  | cons tick ticks =>
    obtain ⟨later, steady⟩ := pairwise_cons.mp steady
    have opened : WithinMeans tick.ts tick.ts
        ((RuleEntry.new rule).step tick.readings tick.ts).1 :=
      withinMeans_of_charge rfl built fits
        (affordable_opened rfl rfl (le_refl _) workOf_le fits)
    rw [run_cons]
    exact opened.run steady later

/-! ## Every second, every metric

The other way: a rule past the allowance is throttled when every second brings a reading
of every metric.  From second 900 on all windows are full, so the span that begins there
is charged the full cost sixty times. -/

def zeroes : DimReadings F := ⟨Vector.replicate 13 (some Float64.zero)⟩

def everySecond (n : Nat) : List (Tick F) :=
  (List.range n).map fun i => ⟨Int64.ofNat i, zeroes⟩

theorem ofMetric_zeroes {canonical : String} (known : canonicalRuleMetric metric = some canonical) :
    (zeroes : DimReadings F).ofMetric canonical = some zero := by
  have indexed : ∀ name ∈ ruleMetrics,
      ((dimSeries name).bind (backfillSeries.idxOf? ·)).any (· < 13) := by
    decide +kernel
  obtain ⟨i, found, small⟩ :=
    (Option.any_eq_true _ _).mp (indexed canonical (mem_ruleMetrics known))
  obtain ⟨series, named, index⟩ := Option.bind_eq_some_iff.mp found
  have within : i < 13 := of_decide_eq_true small
  rw [DimReadings.ofMetric, named, Option.bind_some, DimReadings.get, index, Option.bind_some,
    zeroes]
  simp [within]

def secondsFrom (start count : Nat) : List (Int64 × F) :=
  (List.range' start count).map fun i => (Int64.ofNat i, Float64.zero)

def windowAt (w n : Nat) : List (Int64 × F) := secondsFrom (n - (w + 1)) (min n (w + 1))

theorem secondsFrom_succ :
    (secondsFrom start (count + 1) : List (Int64 × F))
      = (ofNat start, zero) :: secondsFrom (start + 1) count := rfl

theorem secondsFrom_concat :
    (secondsFrom start count : List (Int64 × F)) ++ [(ofNat (start + count), zero)]
      = secondsFrom start (count + 1) := by
  rw [secondsFrom, secondsFrom, List.range'_1_concat, map_append, map_singleton]

@[simp] theorem length_secondsFrom :
    (secondsFrom start count : List (Int64 × F)).length = count := by
  rw [secondsFrom, length_map, length_range']

variable {n : Nat}

theorem toInt_second (small : n < 2 ^ 32) : (ofNat n).toInt = n :=
  Int64.toInt_ofNat_of_lt (by omega)

/-- A second before the window of another is older than what it keeps. -/
theorem second_lt_iff {i : Nat} {w : UInt32} (small : i < 2 ^ 32) (small' : n < 2 ^ 32) :
    ofNat i < saturatingSub (ofNat n) (ofNat w.toNat) ↔ i + w.toNat < n := by
  rw [lt_saturatingSub_iff (by rw [toInt_ofNat_toNat]; omega), toInt_ofNat_toNat,
    toInt_second small, toInt_second small']
  omega

theorem retain_windowAt (small : n < 2 ^ 32) (windowed : c.predicate ≠ .instant)
    (here : c.history = windowAt c.windowSecs.toNat n) :
    (c.retain (ofNat n) zero).history = windowAt c.windowSecs.toNat (n + 1) := by
  have cap : predicateCost c.predicate c.windowSecs = c.windowSecs.toNat + 1 := by
    cases kind : c.predicate <;> first | rfl | exact absurd kind windowed
  rw [retain, here, cap]
  by_cases filling : n < c.windowSecs.toNat + 1
  · -- The window is not full yet and keeps everything.
    have all : (windowAt c.windowSecs.toNat n : List (Int64 × F)) ++ [(ofNat n, zero)]
        = secondsFrom 0 (n + 1) := by
      rw [← secondsFrom_concat, windowAt, Nat.sub_eq_zero_of_le filling.le, min_eq_left filling.le,
        Nat.zero_add]
    have first : ¬ ofNat 0 < saturatingSub (ofNat n) (ofNat c.windowSecs.toNat) := by
      rw [second_lt_iff (by omega) small]
      omega
    rw [all, secondsFrom_succ, dropWhile_cons_of_neg (by simpa using first), ← secondsFrom_succ,
      length_secondsFrom, Nat.sub_eq_zero_of_le (by omega), drop_zero, windowAt,
      Nat.sub_eq_zero_of_le (by omega), min_eq_left (by omega)]
  · -- A full window gives up its oldest second.
    obtain ⟨k, rfl⟩ : ∃ k, n = k + (c.windowSecs.toNat + 1) :=
      ⟨n - (c.windowSecs.toNat + 1), by omega⟩
    have all : (windowAt c.windowSecs.toNat (k + (c.windowSecs.toNat + 1)) : List (Int64 × F))
          ++ [(ofNat (k + (c.windowSecs.toNat + 1)), zero)]
        = secondsFrom k (c.windowSecs.toNat + 1 + 1) := by
      rw [← secondsFrom_concat, windowAt, Nat.add_sub_cancel, min_eq_right (by omega)]
    have first : ofNat k < saturatingSub (ofNat (k + (c.windowSecs.toNat + 1)))
        (ofNat c.windowSecs.toNat) := by
      rw [second_lt_iff (by omega) small]
      omega
    have second : ¬ ofNat (k + 1) < saturatingSub
        (ofNat (k + (c.windowSecs.toNat + 1))) (ofNat c.windowSecs.toNat) := by
      rw [second_lt_iff (by omega) small]
      omega
    rw [all, secondsFrom_succ, dropWhile_cons_of_pos (by simpa using first), secondsFrom_succ,
      dropWhile_cons_of_neg (by simpa using second), ← secondsFrom_succ, length_secondsFrom,
      Nat.sub_self, drop_zero, windowAt, min_eq_right (by omega), Nat.add_right_comm,
      Nat.add_sub_cancel]

structure Condition.Ticked (n : Nat) (c : Condition F) : Prop where
  known : ∃ name, canonicalRuleMetric name = some c.metric
  bounded : c.windowSecs.toNat ≤ 900
  window : c.predicate ≠ .instant → c.history = windowAt c.windowSecs.toNat n

theorem Condition.Ticked.spannedWindow (ticked : c.Ticked (n + 1)) (small : n < 2 ^ 32)
    (windowed : c.predicate ≠ .instant) (full : c.windowSecs.toNat ≤ n) :
    c.spannedWindow = some (windowAt c.windowSecs.toNat (n + 1)) := by
  have window := ticked.window windowed
  obtain ⟨k, rfl⟩ : ∃ k, n = k + c.windowSecs.toNat := ⟨n - c.windowSecs.toNat, by omega⟩
  have seconds : (windowAt c.windowSecs.toNat (k + c.windowSecs.toNat + 1) : List (Int64 × F))
      = secondsFrom k (c.windowSecs.toNat + 1) := by
    rw [windowAt, min_eq_right (by omega), Nat.add_assoc, Nat.add_sub_cancel]
  have oldest : c.history.head? = some (ofNat k, zero) := by
    rw [window, seconds, secondsFrom_succ, List.head?_cons]
  have newest : c.history.getLast?
      = some (ofNat (k + c.windowSecs.toNat), zero) := by
    rw [window, seconds, ← secondsFrom_concat, List.getLast?_concat]
  have spans : ofNat c.windowSecs.toNat
      ≤ saturatingSub (ofNat (k + c.windowSecs.toNat)) (ofNat k) := by
    rw [le_saturatingSub_iff, toInt_ofNat_toNat, toInt_second small, toInt_second (by omega)]
    exact .inl (by omega)
  rw [← window]
  simp only [spannedWindow, oldest, newest, Option.bind_eq_bind, Option.bind_some, if_pos spans]

/-- A second with every metric: the window moves on, the condition can be read, and once
its window is full the second costs what the full window touches. -/
theorem Condition.Ticked.step (ticked : c.Ticked n) (small : n < 2 ^ 32) :
    (c.step zeroes (ofNat n)).1.Ticked (n + 1) ∧
      (c.step zeroes (ofNat n)).2.1.isUnsupported = false ∧
      (c.windowSecs.toNat ≤ n → (c.step zeroes (ofNat n)).2.2 = c.touched) := by
  obtain ⟨name, known⟩ := ticked.known
  have value := ofMetric_zeroes (F := F) known
  unfold Condition.step
  rw [value]
  dsimp only
  by_cases kind : c.predicate = .instant
  · rw [if_pos kind]
    refine ⟨⟨ticked.known, ticked.bounded, fun windowed => absurd kind windowed⟩, rfl, fun _ => ?_⟩
    rw [touched, kind, touchedCost]
  · rw [if_neg kind]
    have next : (c.retain (ofNat n) zero).Ticked (n + 1) :=
      ⟨ticked.known, ticked.bounded, fun _ => retain_windowAt small kind (ticked.window kind)⟩
    by_cases full : c.windowSecs.toNat ≤ n
    · rw [next.spannedWindow small kind full]
      refine ⟨next, rfl, fun _ => ?_⟩
      have length : (windowAt c.windowSecs.toNat (n + 1) : List (Int64 × F)).length
          = c.windowSecs.toNat + 1 := by
        rw [windowAt, length_secondsFrom, min_eq_right (by omega)]
      show 1 + deriveCost c.predicate
        (windowAt c.windowSecs.toNat (n + 1) : List (Int64 × F)).length
        = touchedCost c.predicate c.windowSecs
      rw [length]
      cases kind' : c.predicate <;> first | rfl | exact absurd kind' kind
    · split
      · exact ⟨next, rfl, fun late => absurd late full⟩
      · exact ⟨next, rfl, fun late => absurd late full⟩

/-- The work of a second from which on all windows are full. -/
theorem workOf_ticked (ticked : ∀ c ∈ conditions, c.Ticked n) (small : n < 2 ^ 32)
    (full : 900 ≤ n) : workOf (conditions.map (·.step zeroes (ofNat n)))
      = min (touchedByAll conditions) (2 ^ 64 - 1) := by
  have costs : (conditions.map (·.step zeroes (ofNat n))).map (·.2.2)
      = conditions.map (·.touched) := by
    rw [map_map]
    refine map_congr_left fun c here => ?_
    exact ((ticked c here).step small).2.2 ((ticked c here).bounded.trans full)
  rw [workOf_eq, costs, touchedByAll]

/-- An entry after the first `n` seconds, while it is not throttled: the span under way
began with the minute, and from second 900 on it is charged the full cost. -/
structure Ticking (most n : Nat) (entry : RuleEntry F) : Prop where
  running : entry.budget.throttled = false
  conditions : ∃ conditions, entry.conditions = some conditions ∧ touchedByAll conditions = most ∧
    ∀ c ∈ conditions, c.Ticked n
  start : entry.budget.windowStart = if n = 0 then none else some (Int64.ofNat ((n - 1) / 60 * 60))
  spent : 900 < n → entry.budget.spent = (n - 900) * most
  unspent : entry.budget.spent ≤ ruleBudgetPerWindow

theorem RuleBudget.throttled_charge {budget : RuleBudget} {ts : Int64} {work : Nat} :
    (budget.charge ts work).throttled
      = (budget.throttled || decide (ruleBudgetPerWindow < (budget.charge ts work).spent)) := by
  cases inside : budget.within ts with
  | true => rw [charge_within inside]
  | false => rw [charge_outside inside]

theorem Ticking.within_iff {most : Nat} (ticking : Ticking most n entry) (small : n < 2 ^ 32) :
    entry.budget.within (ofNat n) ↔ n % 60 ≠ 0 := by
  have start := ticking.start
  split at start
  next zero =>
    rw [within, start, zero]
    simp
  next later =>
    have began := toInt_second (show (n - 1) / 60 * 60 < 2 ^ 32 by omega)
    have now := toInt_second small
    rw [RuleBudget.within_iff start (by omega), Int64.le_iff_toInt_le]
    omega

/-- One second more: the rule is throttled, or it goes on ticking. -/
theorem Ticking.step {most : Nat} (ticking : Ticking most n entry) (early : n < 960) :
    (entry.step zeroes (ofNat n)).1.budget.throttled ∨
      Ticking most (n + 1) (entry.step zeroes (ofNat n)).1 := by
  obtain ⟨conditions, built, total, ticked⟩ := ticking.conditions
  obtain ⟨charged, ⟨after, here, shape⟩, -⟩ :=
    step_built ticking.running built
  have inside := ticking.within_iff (by omega)
  cases spent : (entry.step zeroes (ofNat n)).1.budget.throttled with
  | true => exact .inl rfl
  | false =>
    -- What is not throttled has not reached the end of the range.
    have below := spent
    rw [charged, throttled_charge, ticking.running, Bool.false_or, decide_eq_false_iff_not] at below
    refine .inr ⟨spent, ⟨after, here, ?_, ?_⟩, ?_, ?_, ?_⟩
    · rw [touchedByAll_eq_of_reset shape, total]
    · have supported := conditions_step ticking.running built (charged ▸ spent)
        (fun c mem => ((ticked c mem).step (by omega)).2.1)
      rw [here, Option.some.injEq] at supported
      rw [supported, forall_mem_map]
      exact fun c mem => ((ticked c mem).step (by omega)).1
    · rw [charged, if_neg (Nat.succ_ne_zero n), Nat.add_sub_cancel]
      by_cases minute : n % 60 = 0
      · rw [charge_outside (Bool.eq_false_iff.mpr (inside.not.mpr (not_not.mpr minute)))]
        exact congrArg (fun i => some (ofNat i)) (by omega)
      · have start := ticking.start
        rw [if_neg (by omega)] at start
        rw [charge_within (inside.mpr minute)]
        exact start.trans (congrArg (fun i => some (ofNat i)) (by omega))
    · intro late
      have work := workOf_ticked ticked (by omega) (Nat.lt_succ_iff.mp late)
      have allowance : ruleBudgetPerWindow = 3600 * 60 := rfl
      rw [charged]
      obtain ⟨k, rfl⟩ : ∃ k, n = 900 + k := ⟨n - 900, by omega⟩
      have earlier := ticking.spent
      rw [Nat.add_sub_cancel_left] at earlier
      rw [Nat.add_assoc, Nat.add_sub_cancel_left, Nat.succ_mul]
      by_cases minute : (900 + k) % 60 = 0
      · obtain rfl : k = 0 := by omega
        have opened := charge_outside
          (Bool.eq_false_iff.mpr (inside.not.mpr (not_not.mpr minute)))
          (workOf (conditions.map (·.step zeroes (ofNat (900 + 0)))))
        rw [opened, work] at below ⊢
        simp only [saturatingAdd] at below ⊢
        omega
      · have went := charge_within (inside.mpr minute)
          (workOf (conditions.map (·.step zeroes (ofNat (900 + k)))))
        rw [went, work, earlier (by omega)] at below ⊢
        simp only [saturatingAdd] at below ⊢
        omega
    · rw [charged]
      exact Nat.not_lt.mp below

/-- The span from second 900 on, when it is over. -/
theorem Ticking.fits {most : Nat} (ticking : Ticking most 960 entry) :
    most ≤ ruleBudgetReadingsPerSec := by
  have allowance : ruleBudgetPerWindow = 3600 * 60 := rfl
  have rate : ruleBudgetReadingsPerSec = 3600 := rfl
  have spent := ticking.spent (by decide)
  have unspent := ticking.unspent
  omega

theorem everySecond_succ :
    (everySecond (n + 1) : List (Tick F)) = everySecond n ++ [⟨ofNat n, zeroes⟩] := by
  rw [everySecond, range_succ, map_append, map_singleton, everySecond]

theorem steady_everySecond (small : n ≤ 2 ^ 32) : Steady (everySecond n : List (Tick F)) := by
  rw [Steady, everySecond, pairwise_map]
  refine pairwise_lt_range.imp_of_mem ?_
  intro i j here there less
  have last := mem_range.mp there
  rw [lt_iff_toInt_lt, toInt_second (by omega), toInt_second (by omega)]
  omega

theorem RuleEntry.run_everySecond_succ :
    entry.run (everySecond (n + 1)) = ((entry.run (everySecond n)).step zeroes (ofNat n)).1 := by
  rw [run, everySecond_succ, foldl_concat, ← run]

theorem ticked_new
    (built : Condition.new metric comparator threshold clear predicate windowSecs = some c) :
    c.Ticked 0 := by
  obtain ⟨canonical, known, expressible, rfl⟩ := Condition.new_eq_some_iff.mp built
  exact ⟨⟨metric, known⟩, toNat_le_of_expressible expressible, fun _ => rfl⟩

theorem ticking_new (built : buildConditions rule = some conditions) :
    Ticking (touchedByRule rule) 0 (RuleEntry.new rule) := by
  refine ⟨rfl, ⟨conditions, built, touchedByAll_of_built built, ?_⟩, rfl, ?_, Nat.zero_le _⟩
  · obtain ⟨-, own, extras, primary, terms, rfl⟩ := buildConditions_eq_some_iff.mp built
    rw [forall_mem_cons]
    refine ⟨ticked_new primary, fun c here => ?_⟩
    obtain ⟨term, -, extra⟩ := exists_of_forall₂ terms here
    exact ticked_new extra
  · intro late
    exact absurd late (by omega)

theorem ticking_run (built : buildConditions rule = some conditions) (early : n ≤ 960) :
    ((RuleEntry.new rule).run (everySecond n)).budget.throttled ∨
      Ticking (touchedByRule rule) n ((RuleEntry.new rule).run (everySecond n)) := by
  induction n with
  | zero => exact .inr (ticking_new built)
  | succ n ih =>
    rw [run_everySecond_succ]
    rcases ih (by omega) with throttled | ticking
    · rw [step_throttled throttled]
      exact .inl throttled
    · exact ticking.step (by omega)

/-- A rule past the allowance is throttled within the first 960 seconds. -/
theorem throttled_of_touched (shape : (buildConditions rule).isSome)
    (costly : ruleBudgetReadingsPerSec < touchedByRule rule) :
    ((RuleEntry.new rule).run (everySecond 960)).coverage = .throttled := by
  obtain ⟨conditions, built⟩ := Option.isSome_iff_exists.mp shape
  have throttled : ((RuleEntry.new rule).run (everySecond 960)).budget.throttled := by
    rcases ticking_run built le_rfl with throttled | ticking
    · exact throttled
    · exact absurd ticking.fits (Nat.not_le.mpr costly)
  obtain ⟨n, last⟩ : ∃ n, 960 = n + 1 := ⟨959, rfl⟩
  rw [last, run_everySecond_succ] at throttled ⊢
  exact coverage_step throttled

/-! ## When a rule is never throttled -/

/-- A rule that can be built is never throttled, at whatever seconds it is evaluated and
whatever it reads, exactly when its full windows touch no more in a second than the
allowance of a second. -/
theorem never_throttled_iff (rule : ThresholdRule F)
    (shape : (buildConditions rule).isSome = true) :
    (∀ ticks : List (Tick F), Steady ticks →
      ((RuleEntry.new rule).run ticks).coverage ≠ .throttled) ↔
      touchedByRule rule ≤ ruleBudgetReadingsPerSec := by
  constructor
  · intro never
    by_contra costly
    exact never _ (steady_everySecond (by decide))
      (throttled_of_touched shape (Nat.not_le.mp costly))
  · intro fits ticks steady
    exact never_throttled shape fits steady

/-- A mean of processor and memory load over whole windows of `windowSecs` seconds. -/
def patient (windowSecs : UInt32) (terms : Nat) : ThresholdRule Int64 where
  id := "patient"
  version := 1
  severity := .warning
  metric := "cpu.total"
  comparator := .gte
  threshold := 0
  clear := -1
  sustainSecs := 0
  predicate := .windowMean
  windowSecs := windowSecs
  all := List.replicate terms ⟨"mem.used_percent", .gte, 0, -1, .windowMean, windowSecs⟩

theorem never_throttled_three_windows :
    ruleCost (patient 900 2) ≤ ruleBudgetReadingsPerSec ∧
      ∀ ticks : List (Tick Int64), Steady ticks →
        ((RuleEntry.new (patient 900 2)).run ticks).coverage ≠ .throttled :=
  ⟨by decide +kernel,
    (never_throttled_iff (patient 900 2) (by decide +kernel)).mpr (by decide +kernel)⟩

/-- Four means over 899 seconds retain 3600 readings, which is the most a rule may, and
touch 3604 of them a second. -/
theorem throttled_at_admitted_cost :
    (buildConditions (patient 899 3)).isSome = true ∧
      ruleCost (patient 899 3) = ruleBudgetReadingsPerSec ∧
      Steady (everySecond 960 : List (Tick Int64)) ∧
      ((RuleEntry.new (patient 899 3)).run (everySecond 960)).coverage = .throttled :=
  ⟨by decide +kernel, by decide +kernel, steady_everySecond (by decide),
    throttled_of_touched (by decide +kernel) (by decide +kernel)⟩

end OpenGate.Alerts
