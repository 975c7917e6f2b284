import OpenGate.Alerts.Condition
import OpenGate.Lib.Vectors

/-!
# The alert evaluator

`alerts/evaluator/mod.rs`: the allowance a rule spends, the Clear → Pending → Firing →
Clear machine of a rule, and the evaluator that keeps an entry for every installed
rule.  Allowances are `u64` that stop at the end of the range.
-/

namespace OpenGate.Alerts

open OpenGate.Lib OpenGate.Tsdb Condition List

/-! ## The allowance -/

/-- The readings one rule may touch per second before the evaluator stops running it. -/
def ruleBudgetReadingsPerSec : Nat := 3600

def ruleBudgetWindowSecs : Int64 := 60

def ruleBudgetPerWindow : Nat := ruleBudgetReadingsPerSec * 60

def saturatingAdd (a b : Nat) : Nat := min (a + b) (2 ^ 64 - 1)

variable {F : Type} {conditions : List (Condition F)} {rule : ThresholdRule F}

/-- A rule's whole evaluation cost: its own condition plus every extra one. -/
def ruleCost (rule : ThresholdRule F) : Nat :=
  rule.all.foldl
    (fun cost term => saturatingAdd cost (predicateCost term.predicate term.windowSecs))
    (predicateCost rule.predicate rule.windowSecs)

structure RuleBudget where
  /-- Start of the span the current allowance is being spent against. -/
  windowStart : Option Int64
  spent : Nat
  throttled : Bool
  deriving DecidableEq

namespace RuleBudget

def new : RuleBudget := ⟨none, 0, false⟩

/-- Whether a timestamp is in the current span; a backwards clock step is not. -/
def within (budget : RuleBudget) (ts : Int64) : Bool :=
  budget.windowStart.any fun start =>
    decide (start ≤ ts) && decide (ts - start < ruleBudgetWindowSecs)

def charge (budget : RuleBudget) (ts : Int64) (work : Nat) : RuleBudget :=
  let current := if budget.within ts then budget
    else { budget with windowStart := some ts, spent := 0 }
  let spent := saturatingAdd current.spent work
  { current with spent, throttled := current.throttled || decide (ruleBudgetPerWindow < spent) }

end RuleBudget

/-! ## A rule and its state -/

inductive RuleState where
  | clear
  | pending (since : Int64)
  | firing
  deriving DecidableEq, Repr

/-- Advance the Clear → Pending → Firing → Clear machine for one decided second. -/
def advance (state : RuleState) (sustainSecs : UInt32) (breaching cleared : Bool) (ts : Int64) :
    RuleState :=
  match state with
  | .clear =>
    if breaching then if sustainSecs = 0 then .firing else .pending ts
    else .clear
  | .pending since =>
    if !breaching then .clear
    else if Int64.ofNat sustainSecs.toNat ≤ saturatingSub ts since then .firing
    else .pending since
  | .firing => if cleared then .clear else .firing

section Advance

variable {state : RuleState} {sustainSecs : UInt32} {breaching cleared : Bool} {ts begun : Int64}

/-- What a decided second can leave pending. -/
theorem advance_eq_pending
    (pending : advance state sustainSecs breaching cleared ts = .pending begun) :
    breaching ∧ (state = .clear ∧ begun = ts ∨ state = .pending begun) ∧
      ts.toInt - begun.toInt < sustainSecs.toNat := by
  cases state with
  | clear =>
    simp only [advance] at pending
    split at pending
    next breaches =>
      split at pending
      · cases pending
      next sustained =>
        cases pending
        have positive : sustainSecs.toNat ≠ 0 := fun zero => sustained (UInt32.toNat_inj.mp zero)
        exact ⟨breaches, .inl ⟨rfl, rfl⟩, by omega⟩
    · cases pending
  | pending since =>
    simp only [advance] at pending
    split at pending
    · cases pending
    next breaches =>
      split at pending
      · cases pending
      next short =>
        cases pending
        rw [ofNat_le_saturatingSub] at short
        exact ⟨by simpa using breaches, .inr rfl, by omega⟩
  | firing =>
    simp only [advance] at pending
    split at pending <;> cases pending

/-- What a decided second can set firing. -/
theorem advance_eq_firing (calm : state ≠ .firing)
    (fires : advance state sustainSecs breaching cleared ts = .firing) :
    breaching ∧ (sustainSecs = 0 ∨
      ∃ since, state = .pending since ∧ (sustainSecs.toNat : Int) ≤ ts.toInt - since.toInt) := by
  cases state with
  | clear =>
    simp only [advance] at fires
    split at fires
    next breaches =>
      split at fires
      next unsustained => exact ⟨breaches, .inl unsustained⟩
      · cases fires
    · cases fires
  | pending since =>
    simp only [advance] at fires
    split at fires
    · cases fires
    next breaches =>
      split at fires
      next long =>
        exact ⟨by simpa using breaches, .inr ⟨since, rfl, (ofNat_le_saturatingSub ..).mp long⟩⟩
      · cases fires
  | firing => exact absurd rfl calm

end Advance

/-- Every condition a rule requires, its own first; none when any is invalid or the rule
has too many extra conditions. -/
def buildConditions (rule : ThresholdRule F) : Option (List (Condition F)) := do
  if maxRuleTerms < rule.all.length then none
  else
    let own ← Condition.primary rule
    let extras ← rule.all.mapM Condition.extra
    some (own :: extras)

theorem buildConditions_eq_some_iff :
    buildConditions rule = some conditions ↔
      rule.all.length ≤ maxRuleTerms ∧ ∃ own extras, primary rule = some own ∧
        List.Forall₂ (fun term c => extra term = some c) rule.all extras ∧
        conditions = own :: extras := by
  unfold buildConditions
  split
  next long =>
    simp only [false_iff, not_and, reduceCtorEq]
    intro short
    omega
  next short =>
    simp only [Option.bind_eq_bind, Option.bind_eq_some_iff, mapM_eq_some_iff, Option.some.injEq,
      exists_and_left, Nat.not_lt.mp short, true_and]
    simp only [eq_comm]

structure RuleEntry (F : Type) where
  rule : ThresholdRule F
  state : RuleState
  /-- None marks the rule unsupported. -/
  conditions : Option (List (Condition F))
  coverage : RuleCoverageState
  budget : RuleBudget

def RuleEntry.new (rule : ThresholdRule F) : RuleEntry F where
  rule := rule
  state := .clear
  conditions := buildConditions rule
  coverage := if (buildConditions rule).isSome then .active else .unsupported
  budget := .new

@[simp] theorem RuleEntry.rule_new : (new rule).rule = rule := rfl

def Reading.isUnsupported : Reading F → Bool
  | .unsupported => true
  | _ => false

def Reading.value? : Reading F → Option F
  | .value v => some v
  | _ => none

def workOf (stepped : List (Condition F × Reading F × Nat)) : Nat :=
  stepped.foldl (fun work s => saturatingAdd work s.2.2) 0

/-- The work of a second is the sum of the conditions' costs, as far as a `u64` goes. -/
theorem workOf_eq {stepped : List (Condition F × Reading F × Nat)} :
    workOf stepped = min (stepped.map (·.2.2)).sum (2 ^ 64 - 1) := by
  have general : ∀ start ≤ 2 ^ 64 - 1,
      stepped.foldl (fun work s => saturatingAdd work s.2.2) start
        = min (start + (stepped.map (·.2.2)).sum) (2 ^ 64 - 1) := by
    induction stepped with
    | nil =>
      intro start small
      simpa using small
    | cons s stepped ih =>
      intro start small
      have bounded : saturatingAdd start s.2.2 ≤ 2 ^ 64 - 1 := min_le_right _ _
      rw [foldl_cons, ih _ bounded, map_cons, sum_cons, saturatingAdd]
      omega
  rw [workOf, general 0 (Nat.zero_le _), Nat.zero_add]

section

variable {stepped : List (Condition F × Reading F × Nat)}
  {stepped' : List (Condition F × Reading F × Nat)}
  (answers : stepped.map (·.2) = stepped'.map (·.2))
include answers

/-- Conditions that answer the same cost the same. -/
theorem workOf_congr : workOf stepped = workOf stepped' := by
  have costs := congrArg (List.map Prod.snd) answers
  simp only [map_map, Function.comp_def] at costs
  rw [workOf_eq, workOf_eq, costs]

/-- Conditions that answer the same read the same. -/
theorem readings_congr : stepped.map (·.2.1) = stepped'.map (·.2.1) := by
  have readings := congrArg (List.map Prod.fst) answers
  simp only [map_map, Function.comp_def] at readings
  exact readings

end

structure Firing (F : Type) where
  ruleId : String
  ruleVersion : UInt32
  severity : AlertSeverity
  metric : String
  value : F
  since : Int64
  atTs : Int64
  started : Bool
  deriving DecidableEq

/-- The canonical name of the metric a rule watches, whatever alias it was written in. -/
def RuleEntry.metricName (entry : RuleEntry F) : String :=
  match entry.conditions.bind (·.head?) with
  | some own => own.metric
  | none => entry.rule.metric

def RuleEntry.firing (entry : RuleEntry F) (ts : Int64) (breach : F × Int64 × Bool) : Firing F where
  ruleId := entry.rule.id
  ruleVersion := entry.rule.version
  severity := entry.rule.severity
  metric := entry.metricName
  value := breach.1
  since := breach.2.1
  atTs := ts
  started := breach.2.2

structure AlertEvaluator (F : Type) where
  entries : List (RuleEntry F)

structure RuleCoverage where
  ruleId : String
  state : RuleCoverageState
  deriving DecidableEq

def AlertEvaluator.new (rules : List (ThresholdRule F)) : AlertEvaluator F := ⟨rules.map .new⟩

def AlertEvaluator.coverage (evaluator : AlertEvaluator F) : List RuleCoverage :=
  evaluator.entries.map fun entry => ⟨entry.rule.id, entry.coverage⟩

/-! ## Evaluating -/

variable [RuleFloat F]

namespace RuleEntry

/-- The machine on the values of a decided second: the primary value, the breach start and
whether it began this second, while firing. -/
def decided (entry : RuleEntry F) (conditions : List (Condition F)) (values : List F) (ts : Int64) :
    RuleEntry F × Option (F × Int64 × Bool) :=
  let breaching := (conditions.zip values).all fun p => p.1.breaching p.2
  -- The breach is over once any one condition has recovered past its own boundary.
  let cleared := (conditions.zip values).any fun p => p.1.cleared p.2
  let before := entry.state
  let entry := { entry with state := advance before entry.rule.sustainSecs breaching cleared ts }
  if entry.state ≠ .firing then (entry, none)
  else
    let since := match before with
      | .pending since => since
      | _ => ts
    (entry, values.head?.map fun value => (value, since, before ≠ .firing))

def step (entry : RuleEntry F) (sample : DimReadings F) (ts : Int64) :
    RuleEntry F × Option (F × Int64 × Bool) :=
  -- A throttled rule stays stopped until a different rule definition replaces it.
  if entry.budget.throttled then ({ entry with coverage := .throttled }, none)
  else match entry.conditions with
    | none => ({ entry with coverage := .unsupported, state := .clear }, none)
    | some conditions =>
      let stepped := conditions.map (·.step sample ts)
      let conditions := stepped.map (·.1)
      let readings := stepped.map (·.2.1)
      let budget := entry.budget.charge ts (workOf stepped)
      if budget.throttled then
        -- The overspending second's result and history are dropped.
        ({ entry with
            budget, coverage := .throttled, state := .clear,
            conditions := some (conditions.map .reset) }, none)
      else if readings.any Reading.isUnsupported then
        ({ entry with
            budget, coverage := .unsupported, state := .clear,
            conditions := some (conditions.map .reset) }, none)
      else
        let entry := { entry with budget, coverage := .active, conditions := some conditions }
        match readings.mapM Reading.value? with
        -- Still warming up: no decision this second, and no transition.
        | none => (entry, none)
        | some values => entry.decided conditions values ts

variable {entry : RuleEntry F} {sample : DimReadings F} {ts : Int64}

theorem step_throttled (throttled : entry.budget.throttled) :
    entry.step sample ts = ({ entry with coverage := .throttled }, none) := by
  rw [step, if_pos throttled]

/-- A rule that runs: its budget is charged, and a condition changes in its history only.
The coverage is throttled exactly when the budget is. -/
theorem step_built (running : entry.budget.throttled = false)
    (built : entry.conditions = some conditions) :
    (entry.step sample ts).1.budget
        = entry.budget.charge ts (workOf (conditions.map (·.step sample ts))) ∧
      (∃ after, (entry.step sample ts).1.conditions = some after ∧
        after.map reset = conditions.map reset) ∧
      ((entry.step sample ts).1.coverage = .throttled
        ↔ (entry.step sample ts).1.budget.throttled) := by
  have shapes : ((conditions.map (·.step sample ts)).map (·.1)).map reset
      = conditions.map reset := by
    simp
  simp only [step, running, built, Bool.false_eq_true, if_false]
  split
  · next spent => exact ⟨rfl, ⟨_, rfl, by simp⟩, by simp [spent]⟩
  · next unspent =>
    split
    · exact ⟨rfl, ⟨_, rfl, by simp⟩, by simp [unspent]⟩
    · split
      · exact ⟨rfl, ⟨_, rfl, shapes⟩, by simp [unspent]⟩
      · rw [decided]
        split <;> exact ⟨rfl, ⟨_, rfl, shapes⟩, by simp [unspent]⟩

theorem step_unbuilt (unbuilt : entry.conditions = none) :
    (entry.step sample ts).1.conditions = none ∧
      (entry.step sample ts).1.budget = entry.budget := by
  cases running : entry.budget.throttled with
  | true =>
    rw [step_throttled running]
    exact ⟨unbuilt, rfl⟩
  | false => simp [step, running, unbuilt]

/-- An evaluation changes the histories of the conditions only. -/
theorem reset_conditions_step (entry : RuleEntry F) (sample : DimReadings F) (ts : Int64) :
    (entry.step sample ts).1.conditions.map (·.map reset)
      = entry.conditions.map (·.map reset) := by
  cases built : entry.conditions with
  | none => rw [(step_unbuilt built).1]
  | some conditions =>
    cases running : entry.budget.throttled with
    | true => rw [step_throttled running, ← built]
    | false =>
      obtain ⟨-, ⟨after, here, shape⟩, -⟩ := step_built running built
      rw [here, Option.map_some, Option.map_some, shape]

/-- What holds of the conditions of an entry and is kept by a second and by forgetting
holds of them after an evaluation. -/
theorem forall_conditions_step {P : Condition F → Prop} (second : ∀ c, P c → P (c.step sample ts).1)
    (forget : ∀ c, P c → P c.reset) (holds : ∀ cs, entry.conditions = some cs → ∀ c ∈ cs, P c) :
    ∀ cs, (entry.step sample ts).1.conditions = some cs → ∀ c ∈ cs, P c := by
  unfold step
  split
  · exact holds
  · split
    next unbuilt => exact holds
    next conditions built =>
      have stepped : ∀ c ∈ (conditions.map (·.step sample ts)).map (·.1), P c := by
        rw [map_map, forall_mem_map]
        exact fun c here => second c (holds conditions built c here)
      have forgotten : ∀ c ∈ ((conditions.map (·.step sample ts)).map (·.1)).map .reset, P c := by
        rw [forall_mem_map]
        exact fun c here => forget c (stepped c here)
      dsimp only
      split
      · rintro _ ⟨⟩
        exact forgotten
      · split
        · rintro _ ⟨⟩
          exact forgotten
        · split
          · rintro _ ⟨⟩
            exact stepped
          · rw [decided]
            split <;> rintro _ ⟨⟩ <;> exact stepped

@[simp] theorem rule_step : (entry.step sample ts).1.rule = entry.rule := by
  unfold step
  split
  · rfl
  · split
    · rfl
    · dsimp only
      split
      · rfl
      · split
        · rfl
        · split
          · rfl
          · rw [decided]
            split <;> rfl

/-- The state after an evaluation: as before, cleared, or advanced; what is reported is a
firing state. -/
theorem state_step (entry : RuleEntry F) (sample : DimReadings F) (ts : Int64) :
    ((entry.step sample ts).1.state = entry.state ∨ (entry.step sample ts).1.state = .clear ∨
      ∃ breaching cleared, (entry.step sample ts).1.state
        = advance entry.state entry.rule.sustainSecs breaching cleared ts) ∧
    ((entry.step sample ts).2.isSome = true → (entry.step sample ts).1.state = .firing) := by
  unfold step
  split
  · exact ⟨.inl rfl, fun reported => nomatch reported⟩
  · split
    · exact ⟨.inr (.inl rfl), fun reported => nomatch reported⟩
    · dsimp only
      split
      · exact ⟨.inr (.inl rfl), fun reported => nomatch reported⟩
      · split
        · exact ⟨.inr (.inl rfl), fun reported => nomatch reported⟩
        · split
          · exact ⟨.inl rfl, fun reported => nomatch reported⟩
          · rw [decided]
            split
            · exact ⟨.inr (.inr ⟨_, _, rfl⟩), fun reported => nomatch reported⟩
            · next firing => exact ⟨.inr (.inr ⟨_, _, rfl⟩), fun _ => not_not.mp firing⟩

/-- A rule whose budget is spent says so. -/
theorem coverage_step (spent : (entry.step sample ts).1.budget.throttled) :
    (entry.step sample ts).1.coverage = .throttled := by
  cases running : entry.budget.throttled with
  | true => rw [step_throttled running]
  | false =>
    cases built : entry.conditions with
    | none =>
      simp only [step, running, built, Bool.false_eq_true, if_false] at spent
    | some conditions => exact (step_built running built).2.2.mpr spent

/-- A rule whose metrics can all be read keeps what its conditions retained. -/
theorem conditions_step (running : entry.budget.throttled = false)
    (built : entry.conditions = some conditions)
    (unspent : (entry.budget.charge ts (workOf (conditions.map (·.step sample ts)))).throttled
      = false)
    (supported : ∀ c ∈ conditions, (c.step sample ts).2.1.isUnsupported = false) :
    (entry.step sample ts).1.conditions = some (conditions.map fun c => (c.step sample ts).1) := by
  have readable : ((conditions.map (·.step sample ts)).map (·.2.1)).any Reading.isUnsupported
      = false := by
    rw [any_map, any_map, any_eq_false]
    intro c here
    simpa using supported c here
  simp only [step, running, built, unspent, readable, Bool.false_eq_true, if_false]
  split
  · simp
  · rw [decided]
    split <;> simp

def evaluate (entry : RuleEntry F) (sample : DimReadings F) (ts : Int64) :
    RuleEntry F × Option (Firing F) :=
  let stepped := entry.step sample ts
  (stepped.1, stepped.2.map (stepped.1.firing ts))

@[simp] theorem rule_evaluate :
    (entry.evaluate sample ts).1.rule = entry.rule := rule_step

end RuleEntry

/-! ## The evaluator -/

/-- The entries of a new ruleset; one whose rule was installed before is taken over. -/
def installed : List (ThresholdRule F) → List (RuleEntry F) → List (RuleEntry F)
  | [], _ => []
  | rule :: rules, previous =>
    match takeFirst (fun entry => entry.rule == rule) previous with
    | some (entry, previous) => entry :: installed rules previous
    | none => .new rule :: installed rules previous

namespace AlertEvaluator

/-- Replaces the active ruleset, keeping state for unchanged rules. -/
def setRules (evaluator : AlertEvaluator F) (rules : List (ThresholdRule F)) : AlertEvaluator F :=
  ⟨installed rules evaluator.entries⟩

def evaluateReadings (evaluator : AlertEvaluator F) (readings : DimReadings F) (ts : Int64) :
    AlertEvaluator F × List (Firing F) :=
  let evaluated := evaluator.entries.map (·.evaluate readings ts)
  (⟨evaluated.map (·.1)⟩, evaluated.filterMap (·.2))

end AlertEvaluator

/-- An entry of a new ruleset was there before or is new. -/
theorem mem_installed {rules : List (ThresholdRule F)} {previous : List (RuleEntry F)}
    {entry : RuleEntry F} (here : entry ∈ installed rules previous) :
    entry ∈ previous ∨ ∃ rule, entry = .new rule := by
  induction rules generalizing previous with
  | nil => cases here
  | cons rule rules ih =>
    unfold installed at here
    split at here
    next taken rest found =>
      obtain ⟨-, perm⟩ := takeFirst_some found
      rcases mem_cons.mp here with rfl | later
      · exact .inl (perm.mem_iff.mpr mem_cons_self)
      · exact (ih later).imp_left fun left => perm.mem_iff.mpr (mem_cons_of_mem _ left)
    · rcases mem_cons.mp here with rfl | later
      · exact .inr ⟨rule, rfl⟩
      · exact ih later

end OpenGate.Alerts
