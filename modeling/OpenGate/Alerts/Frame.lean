import OpenGate.Alerts.Evaluator

/-!
# Rules do not disturb each other

What an evaluator reports for a rule depends on the readings since it was installed, and
not on the other rules.  An entry finds its rule by equality of the rules, which holds
of numbers that stand at one place; entries of equal rules are alike, and stay alike.
The other entries are moved about by `swap_remove`, and none of them is equal to the
rule.
-/

namespace OpenGate.Alerts

open OpenGate.Lib OpenGate.Tsdb List Ieee RuleEntry ThresholdRule AlertEvaluator

variable {F : Type} [RuleFloat F] {evaluator : AlertEvaluator F} {cs ds : List (Condition F)}
  {comparator : AlertComparator}

/-! ## Equal rules -/

structure RuleTerm.Equal (a b : RuleTerm F) : Prop where
  metric : a.metric = b.metric
  comparator : a.comparator = b.comparator
  threshold : Ieee.eq a.threshold b.threshold = true
  clear : Ieee.eq a.clear b.clear = true
  predicate : a.predicate = b.predicate
  windowSecs : a.windowSecs = b.windowSecs

/-- Rules equal as the source compares them. -/
structure ThresholdRule.Equal (a b : ThresholdRule F) : Prop where
  id : a.id = b.id
  version : a.version = b.version
  severity : a.severity = b.severity
  metric : a.metric = b.metric
  comparator : a.comparator = b.comparator
  threshold : Ieee.eq a.threshold b.threshold = true
  clear : Ieee.eq a.clear b.clear = true
  sustainSecs : a.sustainSecs = b.sustainSecs
  predicate : a.predicate = b.predicate
  windowSecs : a.windowSecs = b.windowSecs
  all : Forall₂ RuleTerm.Equal a.all b.all

theorem RuleTerm.beq_iff (a b : RuleTerm F) : (a == b) ↔ a.Equal b := by
  show (_ && _) = true ↔ _
  simp only [Bool.and_eq_true, beq_iff_eq]
  constructor
  · rintro ⟨⟨⟨⟨⟨h₁, h₂⟩, h₃⟩, h₄⟩, h₅⟩, h₆⟩
    exact ⟨h₁, h₂, h₃, h₄, h₅, h₆⟩
  · rintro ⟨h₁, h₂, h₃, h₄, h₅, h₆⟩
    exact ⟨⟨⟨⟨⟨h₁, h₂⟩, h₃⟩, h₄⟩, h₅⟩, h₆⟩

theorem isEqv_iff (as bs : List (RuleTerm F)) :
    as.isEqv bs (· == ·) ↔ Forall₂ RuleTerm.Equal as bs := by
  induction as generalizing bs with
  | nil => cases bs <;> simp [isEqv]
  | cons a as ih =>
    cases bs with
    | nil => simp [isEqv]
    | cons b bs => rw [isEqv_cons_cons, Bool.and_eq_true, ih, forall₂_cons, RuleTerm.beq_iff]

namespace ThresholdRule

theorem beq_iff (a b : ThresholdRule F) : (a == b) ↔ a.Equal b := by
  show (_ && _) = true ↔ _
  simp only [Bool.and_eq_true, beq_iff_eq, isEqv_iff]
  constructor
  · rintro ⟨⟨⟨⟨⟨⟨⟨⟨⟨⟨h₁, h₂⟩, h₃⟩, h₄⟩, h₅⟩, h₆⟩, h₇⟩, h₈⟩, h₉⟩, h₁₀⟩, h₁₁⟩
    exact ⟨h₁, h₂, h₃, h₄, h₅, h₆, h₇, h₈, h₉, h₁₀, h₁₁⟩
  · rintro ⟨h₁, h₂, h₃, h₄, h₅, h₆, h₇, h₈, h₉, h₁₀, h₁₁⟩
    exact ⟨⟨⟨⟨⟨⟨⟨⟨⟨⟨h₁, h₂⟩, h₃⟩, h₄⟩, h₅⟩, h₆⟩, h₇⟩, h₈⟩, h₉⟩, h₁₀⟩, h₁₁⟩

end ThresholdRule

theorem RuleTerm.Equal.symm {a b : RuleTerm F} (same : a.Equal b) : b.Equal a where
  metric := same.metric.symm
  comparator := same.comparator.symm
  threshold := eq_symm same.threshold
  clear := eq_symm same.clear
  predicate := same.predicate.symm
  windowSecs := same.windowSecs.symm

theorem RuleTerm.Equal.trans {a b c : RuleTerm F} (left : a.Equal b) (right : b.Equal c) :
    a.Equal c where
  metric := left.metric.trans right.metric
  comparator := left.comparator.trans right.comparator
  threshold := eq_trans left.threshold right.threshold
  clear := eq_trans left.clear right.clear
  predicate := left.predicate.trans right.predicate
  windowSecs := left.windowSecs.trans right.windowSecs

theorem forall₂_equal_trans {as bs cs : List (RuleTerm F)} (left : Forall₂ RuleTerm.Equal as bs)
    (right : Forall₂ RuleTerm.Equal bs cs) : Forall₂ RuleTerm.Equal as cs := by
  induction left generalizing cs with
  | nil =>
    cases right
    exact .nil
  | cons first _ ih =>
    cases right with
    | cons second rest => exact .cons (first.trans second) (ih rest)

namespace ThresholdRule.Equal

variable {a b c : ThresholdRule F}

theorem symm (same : a.Equal b) : b.Equal a where
  id := same.id.symm
  version := same.version.symm
  severity := same.severity.symm
  metric := same.metric.symm
  comparator := same.comparator.symm
  threshold := eq_symm same.threshold
  clear := eq_symm same.clear
  sustainSecs := same.sustainSecs.symm
  predicate := same.predicate.symm
  windowSecs := same.windowSecs.symm
  all := same.all.flip.imp fun _ _ term => term.symm

theorem trans (left : a.Equal b) (right : b.Equal c) : a.Equal c where
  id := left.id.trans right.id
  version := left.version.trans right.version
  severity := left.severity.trans right.severity
  metric := left.metric.trans right.metric
  comparator := left.comparator.trans right.comparator
  threshold := eq_trans left.threshold right.threshold
  clear := eq_trans left.clear right.clear
  sustainSecs := left.sustainSecs.trans right.sustainSecs
  predicate := left.predicate.trans right.predicate
  windowSecs := left.windowSecs.trans right.windowSecs
  all := forall₂_equal_trans left.all right.all

/-- Equal rules are equal to the same rules. -/
theorem beq_eq (same : a.Equal b) (c : ThresholdRule F) : (a == c) = (b == c) := by
  rw [Bool.eq_iff_iff, beq_iff, beq_iff]
  exact ⟨same.symm.trans, same.trans⟩

end ThresholdRule.Equal

/-! ## Entries alike -/

/-- Conditions that hold the same readings and differ in boundaries that are equal. -/
structure Condition.Alike (c d : Condition F) : Prop where
  metric : c.metric = d.metric
  comparator : c.comparator = d.comparator
  threshold : Ieee.eq c.threshold d.threshold = true
  clear : Ieee.eq c.clear d.clear = true
  predicate : c.predicate = d.predicate
  windowSecs : c.windowSecs = d.windowSecs
  history : c.history = d.history

theorem compare_congr {a b : F} (same : Ieee.eq a b) (value : F) :
    compare comparator value a = compare comparator value b := by
  cases comparator with
  | gt => exact lt_congr_left same
  | lt => exact lt_congr_right same
  | gte => exact le_congr_left same
  | lte => exact le_congr_right same

namespace Condition.Alike

variable {c d : Condition F}

section

variable (alike : c.Alike d) (value : F)
include alike

theorem breaching : c.breaching value = d.breaching value := by
  rw [Condition.breaching, Condition.breaching, alike.comparator, compare_congr alike.threshold]

theorem cleared : c.cleared value = d.cleared value := by
  rw [Condition.cleared, Condition.cleared, alike.comparator, compare_congr alike.clear]

theorem reset : c.reset.Alike d.reset := { alike with history := rfl }

theorem retain (ts : Int64) (value : F) : (c.retain ts value).Alike (d.retain ts value) := by
  refine { alike with history := ?_ }
  simp only [Condition.retain, alike.history, alike.windowSecs, alike.predicate]

theorem spannedWindow : c.spannedWindow = d.spannedWindow := by
  simp only [Condition.spannedWindow, alike.history, alike.windowSecs]

theorem step (sample : DimReadings F) (ts : Int64) :
    (c.step sample ts).1.Alike (d.step sample ts).1 ∧
      (c.step sample ts).2 = (d.step sample ts).2 := by
  unfold Condition.step
  rw [alike.metric, alike.predicate]
  cases sample.ofMetric d.metric with
  | none => exact ⟨alike, rfl⟩
  | some value =>
    dsimp only
    have kept := alike.retain ts value
    split
    · exact ⟨alike, rfl⟩
    · rw [kept.spannedWindow, kept.predicate]
      cases (d.retain ts value).spannedWindow with
      | none | some window => exact ⟨kept, rfl⟩

end

end Condition.Alike

/-- Entries of equal rules that have gone through the same. -/
structure RuleEntry.Alike (e f : RuleEntry F) : Prop where
  rule : e.rule.Equal f.rule
  state : e.state = f.state
  conditions : Option.Rel (Forall₂ Condition.Alike) e.conditions f.conditions
  coverage : e.coverage = f.coverage
  budget : e.budget = f.budget

theorem alike_new {metric : String} {predicate : RulePredicate} {windowSecs : UInt32}
    {threshold clear threshold' clear' : F} (thresholds : Ieee.eq threshold threshold')
    (clears : Ieee.eq clear clear') :
    Option.Rel Condition.Alike
      (Condition.new metric comparator threshold clear predicate windowSecs)
      (Condition.new metric comparator threshold' clear' predicate windowSecs) := by
  unfold Condition.new
  cases canonicalRuleMetric metric with
  | none => exact .none
  | some canonical =>
    split
    · exact .some ⟨rfl, rfl, thresholds, clears, rfl, rfl, rfl⟩
    · exact .none

theorem RuleTerm.Equal.extra {a b : RuleTerm F} (same : a.Equal b) :
    Option.Rel Condition.Alike (Condition.extra a) (Condition.extra b) := by
  rw [Condition.extra, Condition.extra, same.metric, same.comparator, same.predicate,
    same.windowSecs]
  exact alike_new same.threshold same.clear

theorem ThresholdRule.Equal.primary {a b : ThresholdRule F} (same : a.Equal b) :
    Option.Rel Condition.Alike (Condition.primary a) (Condition.primary b) := by
  rw [Condition.primary, Condition.primary, same.metric, same.comparator, same.predicate,
    same.windowSecs]
  exact alike_new same.threshold same.clear

theorem ThresholdRule.Equal.buildConditions {a b : ThresholdRule F} (same : a.Equal b) :
    Option.Rel (Forall₂ Condition.Alike) (buildConditions a) (buildConditions b) := by
  have extras := rel_mapM (fun _ _ => RuleTerm.Equal.extra) same.all
  have own := same.primary
  unfold Alerts.buildConditions
  rw [same.all.length_eq]
  generalize a.all.mapM Condition.extra = xs, b.all.mapM Condition.extra = ys at extras ⊢
  generalize Condition.primary a = x, Condition.primary b = y at own ⊢
  split
  · exact .none
  · cases own with
    | none => exact .none
    | some here =>
      cases extras with
      | none => exact .none
      | some there => exact .some (.cons here there)

theorem map_zip_alike {β : Type} {p : Condition F → F → β}
    (agree : ∀ {c d : Condition F}, c.Alike d → ∀ v, p c v = p d v)
    (pairs : Forall₂ Condition.Alike cs ds) (values : List F) :
    (cs.zip values).map (fun q => p q.1 q.2) = (ds.zip values).map fun q => p q.1 q.2 := by
  induction pairs generalizing values with
  | nil => rfl
  | cons first _ ih =>
    cases values with
    | nil => rfl
    | cons v values =>
      rw [zip_cons_cons, zip_cons_cons, map_cons, map_cons, agree first v, ih values]

namespace RuleEntry

/-- Equal rules start alike. -/
theorem alike_new {a b : ThresholdRule F} (same : a.Equal b) : (new a).Alike (new b) := by
  have built := same.buildConditions
  refine ⟨same, rfl, built, ?_, rfl⟩
  show (if (buildConditions a).isSome then _ else _) = if (buildConditions b).isSome then _ else _
  generalize buildConditions a = x, buildConditions b = y at built ⊢
  cases built <;> rfl

namespace Alike

variable {e f : RuleEntry F}

theorem decided (alike : e.Alike f) (conditions : Forall₂ Condition.Alike cs ds) (values : List F)
    (ts : Int64) :
    (e.decided cs values ts).1.Alike (f.decided ds values ts).1 ∧
      (e.decided cs values ts).2 = (f.decided ds values ts).2 := by
  have breaching := congrArg (all · id) (map_zip_alike Condition.Alike.breaching conditions values)
  have cleared := congrArg (any · id) (map_zip_alike Condition.Alike.cleared conditions values)
  simp only [all_map, any_map, Function.comp_def, id_eq] at breaching cleared
  unfold RuleEntry.decided
  dsimp only
  rw [breaching, cleared, alike.state, alike.rule.sustainSecs]
  split
  · exact ⟨{ alike with state := rfl }, rfl⟩
  · exact ⟨{ alike with state := rfl }, rfl⟩

theorem step (alike : e.Alike f) (sample : DimReadings F) (ts : Int64) :
    (e.step sample ts).1.Alike (f.step sample ts).1 ∧
      (e.step sample ts).2 = (f.step sample ts).2 := by
  obtain ⟨r, state, x, coverage, budget⟩ := e
  obtain ⟨q, _, y, _, _⟩ := f
  obtain ⟨same, rfl, built, rfl, rfl⟩ := alike
  unfold step
  split
  · exact ⟨⟨same, rfl, built, rfl, rfl⟩, rfl⟩
  · cases built with
    | none => exact ⟨⟨same, rfl, .none, rfl, rfl⟩, rfl⟩
    | @some cs ds pairs =>
      -- The conditions of both read and cost the same, and stay alike.
      have stepped : Forall₂ (fun x y => x.1.Alike y.1 ∧ x.2 = y.2)
          (cs.map (·.step sample ts)) (ds.map (·.step sample ts)) := by
        rw [forall₂_map_left_iff, forall₂_map_right_iff]
        exact pairs.imp fun _ _ pair => pair.step sample ts
      have answers : (cs.map (·.step sample ts)).map (·.2)
          = (ds.map (·.step sample ts)).map (·.2) := by
        rw [← forall₂_eq_eq_eq, forall₂_map_left_iff, forall₂_map_right_iff]
        exact stepped.imp fun _ _ pair => pair.2
      have kept : Forall₂ Condition.Alike ((cs.map (·.step sample ts)).map (·.1))
          ((ds.map (·.step sample ts)).map (·.1)) := by
        rw [forall₂_map_left_iff, forall₂_map_right_iff]
        exact stepped.imp fun _ _ pair => pair.1
      have dropped : Forall₂ Condition.Alike (((cs.map (·.step sample ts)).map (·.1)).map .reset)
          (((ds.map (·.step sample ts)).map (·.1)).map .reset) := by
        rw [forall₂_map_left_iff, forall₂_map_right_iff]
        exact kept.imp fun _ _ pair => pair.reset
      dsimp only
      rw [workOf_congr answers, readings_congr answers]
      split
      · exact ⟨⟨same, rfl, .some dropped, rfl, rfl⟩, rfl⟩
      · split
        · exact ⟨⟨same, rfl, .some dropped, rfl, rfl⟩, rfl⟩
        · split
          · exact ⟨⟨same, rfl, .some kept, rfl, rfl⟩, rfl⟩
          · next values _ =>
            refine decided ?_ kept values ts
            exact ⟨same, rfl, .some kept, rfl, rfl⟩

theorem metricName (alike : e.Alike f) : e.metricName = f.metricName := by
  have built := alike.conditions
  unfold RuleEntry.metricName
  generalize e.conditions = x, f.conditions = y at built ⊢
  cases built with
  | none => exact alike.rule.metric
  | some pairs =>
    cases pairs with
    | nil => exact alike.rule.metric
    | cons own _ => exact own.metric

/-- Entries alike report the same, and stay alike. -/
theorem evaluate (alike : e.Alike f) (sample : DimReadings F) (ts : Int64) :
    (e.evaluate sample ts).1.Alike (f.evaluate sample ts).1 ∧
      (e.evaluate sample ts).2 = (f.evaluate sample ts).2 := by
  obtain ⟨after, breach⟩ := alike.step sample ts
  refine ⟨after, ?_⟩
  simp only [RuleEntry.evaluate, breach]
  refine congrArg (Option.map · _) (funext fun b => ?_)
  simp only [firing, after.rule.id, after.rule.version, after.rule.severity, after.metricName]

end Alike

end RuleEntry

/-! ## The entry of a rule -/

/-- The evaluator with the entries of one rule only. -/
def AlertEvaluator.only (evaluator : AlertEvaluator F) (r : ThresholdRule F) : AlertEvaluator F :=
  ⟨evaluator.entries.filter (·.rule == r)⟩

/-- What an output says of one rule, where `rules` tells of which rule each item is. -/
def outputFor {α : Type} (r : ThresholdRule F) (rules : List (ThresholdRule F)) (out : List α) :
    List α :=
  ((rules.zip out).filter (·.1 == r)).map (·.2)

theorem outputFor_filterMap {α : Type} (r : ThresholdRule F) (f : RuleEntry F → Option α)
    (entries : List (RuleEntry F)) :
    outputFor r (entries.filterMap fun e => (f e).map fun _ => e.rule) (entries.filterMap f)
      = (entries.filter (·.rule == r)).filterMap f := by
  induction entries with
  | nil => rfl
  | cons e entries ih =>
    rw [filter_cons]
    cases said : f e with
    | none =>
      simp only [filterMap_cons, said, Option.map_none, ih]
      split <;> simp only [filterMap_cons, said]
    | some a =>
      simp only [outputFor] at ih
      simp only [outputFor, filterMap_cons, said, Option.map_some, zip_cons_cons, filter_cons]
      split <;> simp only [filterMap_cons, said, map_cons, ih]

namespace AlertEvaluator

/-- The firings an evaluation returns, restricted to those of a rule. -/
def firingsFor (r : ThresholdRule F) (evaluator : AlertEvaluator F) (readings : DimReadings F)
    (ts : Int64) : List (Firing F) :=
  outputFor r (evaluator.entries.filterMap fun e => (e.evaluate readings ts).2.map fun _ => e.rule)
    (evaluator.evaluateReadings readings ts).2

/-- The coverage an evaluator reports, restricted to that of a rule. -/
def coverageFor (r : ThresholdRule F) (evaluator : AlertEvaluator F) : List RuleCoverage :=
  outputFor r (evaluator.entries.map (·.rule)) evaluator.coverage

/-- The other entries neither add to the firings of a rule nor take from them. -/
theorem firingsFor_eq (r : ThresholdRule F) (readings : DimReadings F) (ts : Int64) :
    evaluator.firingsFor r readings ts = ((evaluator.only r).evaluateReadings readings ts).2 := by
  simp only [firingsFor, evaluateReadings, only, filterMap_map]
  exact outputFor_filterMap r (fun e => (e.evaluate readings ts).2) evaluator.entries

theorem coverageFor_eq (r : ThresholdRule F) :
    evaluator.coverageFor r = (evaluator.only r).coverage := by
  simp only [coverageFor, coverage, only, ← filterMap_eq_map]
  exact outputFor_filterMap r (some ∘ _) evaluator.entries

end AlertEvaluator

section Installed

variable {r : ThresholdRule F} {rules : List (ThresholdRule F)} {previous : List (RuleEntry F)}

/-- A ruleset without the rule installs no entry of it. -/
theorem filter_installed_absent (absent : rules.filter (· == r) = []) :
    (installed rules previous).filter (·.rule == r) = [] := by
  induction rules generalizing previous with
  | nil => rfl
  | cons rule rules ih =>
    rw [filter_eq_nil_iff, forall_mem_cons] at absent
    obtain ⟨other, rest⟩ := absent
    have later := fun previous => @ih previous (filter_eq_nil_iff.mpr rest)
    unfold installed
    split
    next entry previous' taken =>
      have same := (beq_iff _ _).mp (takeFirst_some taken).1
      rw [filter_cons, if_neg (by rwa [same.beq_eq r]), later]
    · rw [filter_cons, rule_new, if_neg other, later]

/-- A ruleset with the rule once has one entry of it: the one there was, or a new one. -/
theorem filter_installed {q : ThresholdRule F} {found : Option (RuleEntry F)}
    (once : rules.filter (· == r) = [q])
    (here : previous.filter (·.rule == r) = found.toList) :
    (installed rules previous).filter (·.rule == r) = [found.getD (.new q)] := by
  induction rules generalizing previous with
  | nil => cases once
  | cons rule rules ih =>
    by_cases this : (rule == r)
    · rw [filter_cons, if_pos this, cons.injEq] at once
      obtain ⟨rfl, rest⟩ := once
      unfold installed
      split
      next entry previous' taken =>
        -- The entry that is taken is the rule's.
        obtain ⟨same, perm⟩ := takeFirst_some taken
        have entry_r : (entry.rule == r) := by
          rw [((beq_iff _ _).mp same).beq_eq r, this]
        have among : entry ∈ previous.filter (·.rule == r) :=
          mem_filter.mpr ⟨perm.mem_iff.mpr mem_cons_self, entry_r⟩
        rw [here, Option.mem_toList] at among
        rw [filter_cons, if_pos entry_r, filter_installed_absent rest, among, Option.getD_some]
      next none =>
        -- Were there an entry of the rule, it would be taken.
        have missing : found = Option.none := by
          rw [← Option.toList_eq_nil_iff, ← here, filter_eq_nil_iff]
          intro e present equal
          have equal_rule := ((beq_iff _ _).mp equal).trans
            ((beq_iff _ _).mp this).symm
          rw [← beq_iff, takeFirst_none.mp none e present] at equal_rule
          cases equal_rule
        rw [filter_cons, rule_new, if_pos this, filter_installed_absent rest, missing,
          Option.getD_none]
    · -- Another rule: it takes an entry that is not the rule's, or none.
      rw [filter_cons, if_neg this] at once
      unfold installed
      split
      next entry previous' taken =>
        obtain ⟨same, perm⟩ := takeFirst_some taken
        have other : ¬ (entry.rule == r) := by
          rwa [((beq_iff _ _).mp same).beq_eq r]
        have rest := (perm.filter (·.rule == r)).symm
        rw [filter_cons, if_neg other, here] at rest
        have left : previous'.filter (·.rule == r) = found.toList := by
          cases found with
          | none => exact perm_nil.mp rest
          | some e => exact perm_singleton.mp rest
        rw [filter_cons, if_neg other, ih once left]
      · rw [filter_cons, rule_new, if_neg this, ih once here]

end Installed

/-! ## Runs -/

inductive Event (F : Type) where
  | setRules (rules : List (ThresholdRule F))
  | evaluate (readings : DimReadings F) (ts : Int64)

def evaluations : List (Event F) → List (DimReadings F × Int64)
  | [] => []
  | .setRules _ :: events => evaluations events
  | .evaluate readings ts :: events => (readings, ts) :: evaluations events

/-- Every ruleset of a run lists the rule once. -/
def Keeps (r : ThresholdRule F) (events : List (Event F)) : Prop :=
  ∀ rules, .setRules rules ∈ events → (rules.filter (· == r)).length = 1

namespace AlertEvaluator

def apply (evaluator : AlertEvaluator F) : Event F → AlertEvaluator F
  | .setRules rules => evaluator.setRules rules
  | .evaluate readings ts => (evaluator.evaluateReadings readings ts).1

def run (evaluator : AlertEvaluator F) (events : List (Event F)) : AlertEvaluator F :=
  events.foldl apply evaluator

/-- What the evaluations of a run report for a rule: the firings they return for it, and its
coverage after. -/
def reportsFor (r : ThresholdRule F) :
    AlertEvaluator F → List (Event F) → List (List (Firing F) × List RuleCoverage)
  | _, [] => []
  | evaluator, .setRules rules :: events => reportsFor r (evaluator.setRules rules) events
  | evaluator, .evaluate readings ts :: events =>
    let evaluated := evaluator.evaluateReadings readings ts
    (evaluator.firingsFor r readings ts, evaluated.1.coverageFor r)
      :: reportsFor r evaluated.1 events

/-- A rule that had no entry starts with a new one. -/
theorem only_setRules_new {r : ThresholdRule F} (absent : evaluator.only r = ⟨[]⟩)
    {rules : List (ThresholdRule F)} (once : (rules.filter (· == r)).length = 1) :
    ∃ q, q.Equal r ∧ (evaluator.setRules rules).only r = ⟨[.new q]⟩ := by
  obtain ⟨q, listed⟩ := length_eq_one_iff.mp once
  have member : q ∈ rules.filter (· == r) := listed ▸ mem_singleton_self q
  refine ⟨q, (beq_iff _ _).mp (mem_filter.mp member).2, ?_⟩
  exact congrArg mk (@filter_installed F _ r rules evaluator.entries q none listed (mk.inj absent))

end AlertEvaluator

/-! ## One entry alone -/

namespace RuleEntry

def reports (entry : RuleEntry F) :
    List (DimReadings F × Int64) → List (List (Firing F) × List RuleCoverage)
  | [] => []
  | (readings, ts) :: rest =>
    let after := entry.evaluate readings ts
    (after.2.toList, [⟨after.1.rule.id, after.1.coverage⟩]) :: reports after.1 rest

def fed (entry : RuleEntry F) (readings : List (DimReadings F × Int64)) : RuleEntry F :=
  readings.foldl (fun entry reading => (entry.evaluate reading.1 reading.2).1) entry

section

variable {e : RuleEntry F} {f : RuleEntry F} (alike : e.Alike f)
  (readings : List (DimReadings F × Int64))
include alike

theorem Alike.fed : (e.fed readings).Alike (f.fed readings) := by
  induction readings generalizing e f with
  | nil => exact alike
  | cons reading rest ih => exact ih (alike.evaluate reading.1 reading.2).1

theorem Alike.reports : e.reports readings = f.reports readings := by
  induction readings generalizing e f with
  | nil => rfl
  | cons reading rest ih =>
    obtain ⟨after, firing⟩ := alike.evaluate reading.1 reading.2
    simp only [RuleEntry.reports, firing, after.rule.id, after.coverage, ih after]

end

end RuleEntry

/-- What a run reports for a rule is what its entry reports on the readings alone. -/
theorem AlertEvaluator.reportsFor_eq {r : ThresholdRule F} {events : List (Event F)}
    {e : RuleEntry F} (here : evaluator.only r = ⟨[e]⟩) (keeps : Keeps r events) :
    evaluator.reportsFor r events = e.reports (evaluations events) ∧
      (evaluator.run events).only r = ⟨[e.fed (evaluations events)]⟩ := by
  induction events generalizing evaluator e with
  | nil => exact ⟨rfl, here⟩
  | cons event events ih =>
    have later : Keeps r events := fun rules mem => keeps rules (mem_cons_of_mem _ mem)
    cases event with
    | setRules rules =>
      -- The entry is taken over by a ruleset that lists the rule once.
      obtain ⟨q, listed⟩ := length_eq_one_iff.mp (keeps rules mem_cons_self)
      have taken := @filter_installed F _ r rules evaluator.entries q (some e) listed (mk.inj here)
      exact ih (congrArg mk taken) later
    | evaluate readings ts =>
      have after : (evaluator.evaluateReadings readings ts).1.only r
          = ⟨[(e.evaluate readings ts).1]⟩ := by
        have entries := mk.inj here
        simp only [evaluateReadings, only, map_map, filter_map, Function.comp_def, rule_evaluate,
          entries]
        rfl
      obtain ⟨reports, final⟩ := ih after later
      refine ⟨?_, final⟩
      rw [reportsFor, reports, firingsFor_eq, coverageFor_eq, here, after]
      simp only [evaluateReadings, map_cons, map_nil, filterMap_cons, filterMap_nil]
      show _ = ((e.evaluate readings ts).2.toList, _) :: _
      cases (e.evaluate readings ts).2 <;> rfl

/-- Two runs over the same readings report the same for a rule that both install at the
start and keep: whatever the other rules were before and whatever becomes of them, and
however often an equal rule is pushed again.  A rule with a NaN is equal to none, and so
is never listed once. -/
theorem rules_do_not_disturb (r : ThresholdRule F) (before before' : AlertEvaluator F)
    (absent : before.only r = ⟨[]⟩) (absent' : before'.only r = ⟨[]⟩)
    (rules rules' : List (ThresholdRule F)) (once : (rules.filter (· == r)).length = 1)
    (once' : (rules'.filter (· == r)).length = 1) (events events' : List (Event F))
    (keeps : Keeps r events) (keeps' : Keeps r events')
    (same : evaluations events = evaluations events') :
    (before.setRules rules).reportsFor r events = (before'.setRules rules').reportsFor r events' ∧
      ((before.setRules rules).run events).coverageFor r
        = ((before'.setRules rules').run events').coverageFor r := by
  obtain ⟨q, equal, here⟩ := only_setRules_new absent once
  obtain ⟨q', equal', here'⟩ := only_setRules_new absent' once'
  have alike := RuleEntry.alike_new (equal.trans equal'.symm)
  obtain ⟨reports, final⟩ := reportsFor_eq here keeps
  obtain ⟨reports', final'⟩ := reportsFor_eq here' keeps'
  constructor
  · rw [reports, reports', same, alike.reports]
  · have after := alike.fed (evaluations events')
    rw [coverageFor_eq, coverageFor_eq, final, final', same]
    simp only [AlertEvaluator.coverage, map_cons, map_nil, after.rule.id, after.coverage]

def cpuOver (id : String) (threshold : Int64) : ThresholdRule Int64 where
  id := id
  version := 1
  severity := .warning
  metric := "cpu.total"
  comparator := .gt
  threshold := threshold
  clear := threshold
  sustainSecs := 0
  predicate := .instant
  windowSecs := 0
  all := []

def allAt (value : Int64) : DimReadings Int64 := ⟨Vector.replicate 13 (some value)⟩

/-- The rule alone, and between rules that come, go and change places. -/
theorem rules_do_not_disturb_reordered :
    (AlertEvaluator.setRules ⟨[]⟩ [cpuOver "high" 40]).reportsFor (cpuOver "high" 40)
        [.evaluate (allAt 50) 0]
      = ((AlertEvaluator.new [cpuOver "full" 99]).setRules
          [cpuOver "full" 99, cpuOver "high" 40]).reportsFor (cpuOver "high" 40)
        [.setRules [cpuOver "high" 40, cpuOver "busy" 60], .evaluate (allAt 50) 0] :=
  (rules_do_not_disturb (cpuOver "high" 40) ⟨[]⟩ (AlertEvaluator.new [cpuOver "full" 99]) rfl
    (congrArg AlertEvaluator.mk (filter_eq_nil_iff.mpr (by decide +kernel)))
    [cpuOver "high" 40] [cpuOver "full" 99, cpuOver "high" 40] (by decide +kernel)
    (by decide +kernel) [.evaluate (allAt 50) 0]
    [.setRules [cpuOver "high" 40, cpuOver "busy" 60], .evaluate (allAt 50) 0]
    (by rintro rules (_ | ⟨_, ⟨⟩⟩))
    (by
      rintro rules (_ | ⟨_, _ | ⟨_, ⟨⟩⟩⟩)
      decide +kernel) rfl).1

end OpenGate.Alerts
