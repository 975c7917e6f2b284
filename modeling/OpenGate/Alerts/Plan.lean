import OpenGate.Alerts.Retro
import OpenGate.Alerts.Segment

/-!
# Rules that can be re-run

What `RetroPlan::for_rule` has made sure of when it accepts a rule: the rule is evaluated at
all, each of its conditions reads a series of the plan by the statistic that answers it, and
the lookback covers the sustain, the widest window and a minute more.
-/

namespace OpenGate.Alerts

open OpenGate.Lib OpenGate.Tsdb OpenGate.Backfill Std List Option

variable {F : Type}

structure ConditionShape.Of (shape : ConditionShape) (c : Condition F) : Prop where
  metric : canonicalRuleMetric shape.metric = some c.metric
  comparator : c.comparator = shape.comparator
  predicate : c.predicate = shape.predicate
  windowSecs : c.windowSecs = shape.windowSecs
  declared : c.Declared

theorem shape_of_new {metric : String} {comparator : AlertComparator} {threshold clear : F}
    {predicate : RulePredicate} {windowSecs : UInt32} {c : Condition F}
    (built : Condition.new metric comparator threshold clear predicate windowSecs = some c) :
    (⟨metric, comparator, predicate, windowSecs⟩ : ConditionShape).Of c := by
  obtain ⟨canonical, known, expressible, rfl⟩ := Condition.new_eq_some_iff.mp built
  exact ⟨known, rfl, rfl, rfl, ⟨rfl, expressible⟩⟩

variable {rule : ThresholdRule F} {cs : List (Condition F)}

/-- The conditions of a rule, shape by shape. -/
theorem shapes_of_built (built : buildConditions rule = some cs) :
    List.Forall₂ ConditionShape.Of rule.shapes cs := by
  obtain ⟨-, own, extras, primary, terms, rfl⟩ := buildConditions_eq_some_iff.mp built
  refine .cons (shape_of_new primary) ?_
  rw [forall₂_map_left_iff]
  exact terms.imp fun _ _ extra => shape_of_new extra

/-! ## The draft -/

theorem toNat_max (a b : UInt32) : (max a b).toNat = max a.toNat b.toNat := by
  show (if a ≤ b then b else a).toNat = max a.toNat b.toNat
  split
  next less =>
    rw [UInt32.le_iff_toNat_le] at less
    omega
  next more =>
    rw [UInt32.le_iff_toNat_le] at more
    omega

structure PlanDraft.Places (sustained : Bool) (draft : PlanDraft) (shape : ConditionShape) :
    Prop where
  expressible : windowIsExpressible shape.predicate shape.windowSecs = true
  window : shape.windowSecs.toNat ≤ draft.widestWindow.toNat
  read : ∃ canonical series, canonicalRuleMetric shape.metric = some canonical ∧
    dimSeries canonical = some series ∧
    draft.bySeries[series]? = some (bucketStat shape.predicate shape.comparator sustained)

variable {sustained : Bool} {draft : PlanDraft} {after : PlanDraft}

/-- A condition that is added finds its place and leaves the others theirs. -/
theorem PlanDraft.add_ok {shape : ConditionShape} (added : draft.add sustained shape = .ok after) :
    after.Places sustained shape ∧
      (∀ (series : SeriesId) (stat : BucketStat), draft.bySeries[series]? = some stat →
        after.bySeries[series]? = some stat) ∧
      after.widestWindow = max draft.widestWindow shape.windowSecs ∧
      ∃ canonical, canonicalRuleMetric shape.metric = some canonical ∧
        after.metric = some (draft.metric.getD canonical) := by
  unfold PlanDraft.add at added
  split at added
  · cases added
  next canonical known =>
    split at added
    · cases added
    next series stored =>
      split at added
      · cases added
      next expressible =>
        split at added
        · cases added
        · dsimp only at added
          split at added
          · cases added
          next agrees =>
            cases added
            have self : (draft.bySeries.insert series
                (bucketStat shape.predicate shape.comparator sustained))[series]?
                = some (bucketStat shape.predicate shape.comparator sustained) := by
              rw [insert_self, if_pos rfl]
            refine ⟨⟨by simpa using expressible, ?_, canonical, series, known, stored, self⟩, ?_,
              rfl, canonical, known, rfl⟩
            · rw [toNat_max]
              exact le_max_right _ _
            · intro other stat here
              rw [insert_self]
              split
              next same =>
                subst same
                rw [here] at agrees
                exact congrArg some (by simpa using agrees : stat = _).symm
              · exact here

theorem foldlM_cons_ok {ε α β : Type} {f : β → α → Except ε β} {b d : β} {a : α} {l : List α}
    (folded : (a :: l).foldlM f b = .ok d) : ∃ c, f b a = .ok c ∧ l.foldlM f c = .ok d := by
  rw [foldlM_cons] at folded
  cases first : f b a with
  | error e =>
    rw [first] at folded
    cases folded
  | ok c =>
    rw [first] at folded
    exact ⟨c, rfl, folded⟩

/-- Conditions that are all added find their places; the widest of their windows is the
draft's. -/
theorem PlanDraft.foldlM_ok {shapes : List ConditionShape}
    (added : shapes.foldlM (PlanDraft.add sustained) draft = .ok after) :
    (∀ shape ∈ shapes, after.Places sustained shape) ∧
      (∀ (series : SeriesId) (stat : BucketStat), draft.bySeries[series]? = some stat →
        after.bySeries[series]? = some stat) ∧
      draft.widestWindow.toNat ≤ after.widestWindow.toNat ∧
      (after.widestWindow = draft.widestWindow ∨
        ∃ shape ∈ shapes, shape.windowSecs = after.widestWindow) ∧
      (draft.metric.isSome = true → after.metric = draft.metric) := by
  induction shapes generalizing draft with
  | nil =>
    cases added
    exact ⟨nofun, fun _ _ here => here, le_rfl, .inl rfl, fun _ => rfl⟩
  | cons shape shapes ih =>
    obtain ⟨next, first, rest⟩ := foldlM_cons_ok added
    obtain ⟨places, keeps, widest, canonical, -, metric⟩ := PlanDraft.add_ok first
    obtain ⟨others, keepsOn, wider, attained, named⟩ := ih rest
    have grown : max draft.widestWindow.toNat shape.windowSecs.toNat = next.widestWindow.toNat := by
      rw [widest, toNat_max]
    refine ⟨?_, fun series stat here => keepsOn series stat (keeps series stat here), by omega, ?_,
      ?_⟩
    · intro other here
      rcases mem_cons.mp here with rfl | later
      · obtain ⟨canonical, series, known, stored, read⟩ := places.read
        exact ⟨places.expressible, by omega, canonical, series, known, stored,
          keepsOn series _ read⟩
      · exact others other later
    · rcases attained with same | ⟨other, later, wide⟩
      · rw [same]
        rcases Nat.le_total draft.widestWindow.toNat shape.windowSecs.toNat with less | more
        · refine .inr ⟨shape, mem_cons_self, ?_⟩
          rw [← UInt32.toNat_inj]
          omega
        · left
          rw [← UInt32.toNat_inj]
          omega
      · exact .inr ⟨other, mem_cons_of_mem _ later, wide⟩
    · intro known
      obtain ⟨name, here⟩ := isSome_iff_exists.mp known
      rw [here, getD_some] at metric
      rw [named (by rw [metric]; rfl), metric, here]

/-! ## An accepted rule -/

structure RetroPlan.Accepts (plan : RetroPlan F) (rule : ThresholdRule F)
    (cs : List (Condition F)) : Prop where
  same : plan.rule = rule
  conditions : Conditions rule cs
  shapes : List.Forall₂ ConditionShape.Of rule.shapes cs
  reads : ∀ c ∈ cs, ∃ series, dimSeries c.metric = some series ∧
    (series, bucketStat c.predicate c.comparator (decide (0 < rule.sustainSecs))) ∈ plan.reads
  distinct : (plan.reads.map Prod.fst).Nodup
  metric : ∃ c ∈ cs, plan.metric = c.metric
  sustain : rule.sustainSecs = 0 ∨ 60 ≤ rule.sustainSecs.toNat
  lookback : ∃ widest : Nat, plan.lookbackSecs.toInt = rule.sustainSecs.toNat + widest + 60 ∧
    Widest cs (widest / 60 + 1)

/-- Conditions that all have a place are built. -/
theorem built_of_places (few : rule.all.length ≤ maxRuleTerms)
    (places : ∀ shape ∈ rule.shapes, draft.Places sustained shape) :
    ∃ cs, buildConditions rule = some cs := by
  have new : ∀ (shape : ConditionShape) (threshold clear : F), draft.Places sustained shape →
      (Condition.new shape.metric shape.comparator threshold clear shape.predicate
        shape.windowSecs).isSome := by
    intro shape threshold clear placed
    obtain ⟨canonical, series, known, -, -⟩ := placed.read
    rw [isSome_iff_exists]
    exact ⟨_, Condition.new_eq_some_iff.mpr ⟨canonical, known, placed.expressible, rfl⟩⟩
  obtain ⟨own, primary⟩ := isSome_iff_exists.mp
    (new _ rule.threshold rule.clear (places _ mem_cons_self))
  have terms : (rule.all.mapM Condition.extra).isSome := by
    rw [isSome_mapM_iff]
    intro term here
    exact new _ term.threshold term.clear
      (places _ (mem_cons_of_mem _ (mem_map_of_mem here)))
  obtain ⟨extras, all⟩ := isSome_iff_exists.mp terms
  exact ⟨own :: extras, buildConditions_eq_some_iff.mpr
    ⟨few, own, extras, primary, mapM_eq_some_iff.mp all, rfl⟩⟩

/-- The plan's metric is the one of the rule's own condition. -/
theorem metric_of_gathered (shapes : List.Forall₂ ConditionShape.Of rule.shapes cs)
    (gathered : rule.shapes.foldlM (PlanDraft.add sustained) ⟨∅, 0, none⟩ = .ok draft) :
    ∃ c ∈ cs, draft.metric = some c.metric := by
  obtain ⟨next, first, rest⟩ := foldlM_cons_ok gathered
  obtain ⟨-, -, -, canonical, known, metric⟩ := PlanDraft.add_ok first
  obtain ⟨-, -, -, -, named⟩ := PlanDraft.foldlM_ok rest
  cases shapes with
  | @cons _ c _ cs own _ =>
    refine ⟨c, mem_cons_self, ?_⟩
    rw [named (by rw [metric]; rfl), metric, getD_none, ← known, own.metric]

theorem accepts_of_forRule {plan : RetroPlan F} (accepted : RetroPlan.forRule rule = .ok plan) :
    ∃ cs, plan.Accepts rule cs := by
  unfold RetroPlan.forRule at accepted
  split at accepted
  · cases accepted
  next few =>
    split at accepted
    · cases accepted
    next coarse =>
      generalize gathered : rule.shapes.foldlM (PlanDraft.add (decide (0 < rule.sustainSecs)))
        ⟨∅, 0, none⟩ = draft at accepted
      cases draft with
      | error e => cases accepted
      | ok draft =>
        obtain ⟨places, -, -, attained, -⟩ := PlanDraft.foldlM_ok gathered
        obtain ⟨cs, built⟩ := built_of_places (Nat.le_of_not_lt few) places
        have shapes := shapes_of_built built
        obtain ⟨c, here, metric⟩ := metric_of_gathered shapes gathered
        dsimp only [bind, Except.bind] at accepted
        rw [metric] at accepted
        cases accepted
        have declared : ∀ c ∈ cs, c.Declared := fun c here => by
          obtain ⟨shape, -, of⟩ := exists_of_forall₂ shapes here
          exact of.declared
        refine ⟨cs, rfl, ⟨built, declared, ?_, ne_nil_of_mem here⟩, shapes, ?_, nodup_keys _,
          ⟨c, here, rfl⟩, ?_, draft.widestWindow.toNat, ?_, ?_, ?_⟩
        · rw [← shapes.length_eq, ThresholdRule.shapes, length_cons, length_map]
          have : maxRuleTerms = 4 := rfl
          omega
        · intro c here
          obtain ⟨shape, listed, of⟩ := exists_of_forall₂ shapes here
          obtain ⟨canonical, series, known, stored, read⟩ := (places shape listed).read
          cases known.symm.trans of.metric
          refine ⟨series, stored, ExtTreeMap.mem_toList_iff_getElem?_eq_some.mpr ?_⟩
          rw [of.predicate, of.comparator]
          exact read
        · rw [finerThanAMinute, Bool.and_eq_true, not_and_or, decide_eq_true_eq, decide_eq_true_eq,
            UInt32.lt_iff_toNat_lt] at coarse
          rw [← UInt32.toNat_inj]
          have : (0 : UInt32).toNat = 0 := rfl
          omega
        · have sustain := rule.sustainSecs.toNat_lt
          have window := draft.widestWindow.toNat_lt
          have minute : retroBucketSecs.toInt = 60 := rfl
          have sum :
              (Int64.ofNat rule.sustainSecs.toNat + Int64.ofNat draft.widestWindow.toNat).toInt
              = rule.sustainSecs.toNat + draft.widestWindow.toNat := by
            rw [toInt_add_of_range] <;> rw [toInt_ofNat_toNat, toInt_ofNat_toNat] <;> omega
          rw [toInt_add_of_range] <;> rw [sum, minute] <;> omega
        · intro c here
          obtain ⟨shape, listed, of⟩ := exists_of_forall₂ shapes here
          have window := (places shape listed).window
          rw [← of.windowSecs] at window
          rw [reach]
          omega
        · rcases attained with none | ⟨shape, listed, wide⟩
          · obtain ⟨shape, listed, of⟩ := exists_of_forall₂ shapes here
            have window := (places shape listed).window
            rw [← of.windowSecs, none] at window
            refine ⟨c, here, ?_⟩
            rw [reach, Nat.le_zero.mp window, none]
            rfl
          · obtain ⟨c, here, of⟩ := exists_of_forall₂ shapes.flip listed
            exact ⟨c, here, by rw [reach, of.windowSecs, wide]⟩

end OpenGate.Alerts
