import OpenGate.Alerts.Budget
import OpenGate.Alerts.Frame
import OpenGate.Alerts.Sampler

/-!
# Rules after maintenance

Maintenance leaves the evaluator as it was: the state of a rule, the readings it retains
and what it has spent are still there when the machine leaves maintenance.  What they
change of what a rule reports depends on how much time has passed, so a rule starts
afresh where it was clear and its windows and its allowance are over by the first
reading after (`RuleEntry.Rested`).
-/

namespace OpenGate.Alerts

open OpenGate.Lib OpenGate.Tsdb List AlertEvaluator Condition RuleEntry SamplerState Sentinel
  SentinelEvent
open Int64 (le_refl ofNat)

variable {F : Type}

/-! ## Entries as they come about -/

/-- What holds of every entry of an evaluator: its conditions are the rule's but for their
histories, and a rule that cannot be evaluated spends nothing. -/
structure RuleEntry.WellFormed (e : RuleEntry F) : Prop where
  shape : e.conditions.map (·.map Condition.reset) = buildConditions e.rule
  instant : ∀ cs, e.conditions = some cs → ∀ c ∈ cs, c.predicate = .instant → c.history = []
  unbuilt : e.conditions = none → e.budget = .new

variable {c : Condition F} {ts : Int64} (rule : ThresholdRule F)

theorem Condition.reset_new {metric : String} {comparator : AlertComparator} {threshold clear : F}
    {predicate : RulePredicate} {windowSecs : UInt32}
    (built : Condition.new metric comparator threshold clear predicate windowSecs = some c) :
    c.reset = c := by
  obtain ⟨canonical, -, -, rfl⟩ := Condition.new_eq_some_iff.mp built
  rfl

theorem reset_of_built {rule : ThresholdRule F} {conditions : List (Condition F)}
    (built : buildConditions rule = some conditions) : ∀ c ∈ conditions, c.reset = c := by
  obtain ⟨-, own, extras, primary, terms, rfl⟩ := buildConditions_eq_some_iff.mp built
  rw [forall_mem_cons]
  refine ⟨reset_new primary, fun c here => ?_⟩
  obtain ⟨term, -, extra⟩ := exists_of_forall₂ terms here
  exact reset_new extra

theorem RuleEntry.wellFormed_new : (new rule).WellFormed where
  shape := by
    show (buildConditions rule).map _ = buildConditions rule
    cases built : buildConditions rule with
    | none => rfl
    | some conditions =>
      rw [Option.map_some, map_congr_left (reset_of_built built), map_id']
  instant := by
    intro conditions built c here _
    rw [← reset_of_built built c here, reset]
  unbuilt := fun _ => rfl

/-! ## A rule at rest -/

/-- A rule for which nothing of before counts at `ts`: it is clear, its allowance is not
spent and granted anew, and no reading it retains is in its windows. -/
structure RuleEntry.Rested (ts : Int64) (e : RuleEntry F) : Prop where
  clear : e.state = .clear
  running : e.budget.throttled = false
  spanOver : e.budget.within ts = false
  windowsOver : ∀ cs, e.conditions = some cs → ∀ c ∈ cs, ∀ reading ∈ c.history,
    reading.1 < saturatingSub ts (Int64.ofNat c.windowSecs.toNat)

/-- A new entry is at rest. -/
theorem RuleEntry.rested_new (ts : Int64) : (new rule).Rested ts where
  clear := rfl
  running := rfl
  spanOver := rfl
  windowsOver := by
    intro cs built c here reading retained
    rw [← reset_of_built built c here] at retained
    cases retained

/-- A window of which every reading is too old retains the new reading alone. -/
theorem Condition.retain_rested
    (past : ∀ reading ∈ c.history, reading.1 < saturatingSub ts (ofNat c.windowSecs.toNat))
    (value : F) : c.retain ts value = c.reset.retain ts value := by
  have dropped : (c.history ++ [(ts, value)]).dropWhile
        (fun reading => decide (reading.1 < saturatingSub ts (ofNat c.windowSecs.toNat)))
      = [(ts, value)].dropWhile
        fun reading => decide (reading.1 < saturatingSub ts (ofNat c.windowSecs.toNat)) := by
    rw [dropWhile_append_of_pos]
    intro reading here
    exact decide_eq_true (past reading here)
  rw [retain, dropped]
  rfl

def RuleEntry.afresh (e : RuleEntry F) : RuleEntry F := .new e.rule

/-- An evaluator given the same rules and no reading. -/
def AlertEvaluator.afresh (evaluator : AlertEvaluator F) : AlertEvaluator F :=
  .new (evaluator.entries.map (·.rule))

theorem AlertEvaluator.afresh_eq {evaluator : AlertEvaluator F} :
    evaluator.afresh = ⟨evaluator.entries.map .afresh⟩ := by
  rw [afresh, new, map_map]
  rfl

variable [RuleFloat F] {sample : DimReadings F}

theorem Condition.history_step_instant (kind : c.predicate = .instant) :
    (c.step sample ts).1.history = c.history := by
  unfold step
  split
  · rfl
  · rw [if_pos kind]

/-- What a condition retains it had or reads now. -/
theorem Condition.mem_history_step {reading : Int64 × F}
    (retained : reading ∈ (c.step sample ts).1.history) : reading ∈ c.history ∨ reading.1 = ts := by
  have grown : ∀ value, reading ∈ (c.retain ts value).history →
      reading ∈ c.history ∨ reading.1 = ts := by
    intro value here
    have there := (dropWhile_suffix _).mem (mem_of_mem_drop here)
    rcases mem_append.mp there with old | new
    · exact .inl old
    · exact .inr (congrArg Prod.fst (mem_singleton.mp new))
  unfold step at retained
  split at retained
  · exact .inl retained
  · split at retained
    · exact .inl retained
    · dsimp only at retained
      split at retained <;> exact grown _ retained

theorem RuleEntry.WellFormed.step {e : RuleEntry F} (wf : e.WellFormed) (sample : DimReadings F)
    (ts : Int64) : (e.step sample ts).1.WellFormed where
  shape := by rw [reset_conditions_step, wf.shape, rule_step]
  instant := by
    refine forall_conditions_step (fun c empty kind => ?_) (fun _ _ _ => rfl) wf.instant
    rw [predicate_step] at kind
    rw [history_step_instant kind, empty kind]
  unbuilt := by
    intro none
    have before := reset_conditions_step e sample ts
    rw [none, Option.map_none, eq_comm, Option.map_eq_none_iff] at before
    rw [(step_unbuilt before).2, wf.unbuilt before]

/-- At rest a condition reads as it does with no history, and if it can be read it goes on
as it does with none. -/
theorem Condition.step_rested (instant : c.predicate = .instant → c.history = [])
    (past : ∀ reading ∈ c.history, reading.1 < saturatingSub ts (ofNat c.windowSecs.toNat)) :
    (c.step sample ts).2 = (c.reset.step sample ts).2 ∧
      ((c.step sample ts).2.1.isUnsupported = false →
        (c.step sample ts).1 = (c.reset.step sample ts).1) := by
  unfold step
  rw [show c.reset.metric = c.metric from rfl, show c.reset.predicate = c.predicate from rfl]
  cases sample.ofMetric c.metric with
  | none => exact ⟨rfl, fun readable => nomatch readable⟩
  | some value =>
    by_cases kind : c.predicate = .instant
    · have empty : c.reset = c := by
        rw [reset, ← instant kind]
      simp only [if_pos kind, empty, implies_true, and_self]
    · simp only [if_neg kind, retain_rested past value, implies_true, and_self]

namespace RuleEntry

/-- A rule at rest goes on as a new entry of the rule does. -/
theorem step_rested {e : RuleEntry F} (wf : e.WellFormed) (rested : e.Rested ts)
    (sample : DimReadings F) : e.step sample ts = (new e.rule).step sample ts := by
  obtain ⟨rule, state, conditions, coverage, budget⟩ := e
  obtain ⟨shape, instant, unbuilt⟩ := wf
  obtain ⟨clear, running, spanOver, windowsOver⟩ := rested
  dsimp only at shape instant unbuilt clear running spanOver windowsOver
  subst clear
  have fresh : (new rule).budget.throttled = false := rfl
  cases conditions with
  | none =>
    have none : (new rule).conditions = none := shape.symm
    simp only [step, fresh, none, unbuilt rfl, Bool.false_eq_true, if_false]
    rfl
  | some cs =>
    have built : (new rule).conditions = some (cs.map reset) := shape.symm
    -- The conditions at rest answer as they do afresh.
    have answers : (cs.map (·.step sample ts)).map (·.2)
        = ((cs.map reset).map (·.step sample ts)).map (·.2) := by
      simp only [map_map]
      exact map_congr_left fun c here =>
        (Condition.step_rested (instant cs rfl c here) (windowsOver cs rfl c here)).1
    have charged : budget.charge ts (workOf (cs.map (·.step sample ts)))
        = (new rule).budget.charge ts
          (workOf ((cs.map reset).map (·.step sample ts))) := by
      rw [RuleBudget.charge_outside spanOver, workOf_congr answers, RuleBudget.charge_outside rfl,
        running, fresh]
    have shapes : ((cs.map (·.step sample ts)).map (·.1)).map reset
        = (((cs.map reset).map (·.step sample ts)).map (·.1)).map reset := by
      simp
    simp only [step, running, fresh, built, charged, readings_congr answers, shapes,
      Bool.false_eq_true, if_false]
    split
    · rfl
    · split
      · rfl
      · next readable =>
        have kept : (cs.map (·.step sample ts)).map (·.1)
            = ((cs.map reset).map (·.step sample ts)).map (·.1) := by
          rw [← readings_congr answers, Bool.not_eq_true, any_map, any_map, any_eq_false]
            at readable
          simp only [map_map]
          refine map_congr_left fun c here => ?_
          refine (Condition.step_rested (instant cs rfl c here) (windowsOver cs rfl c here)).2 ?_
          simpa using readable c here
        rw [kept]
        rfl

end RuleEntry

/-! ## Breaches that are held -/

/-- The rule has seen nothing from before `first`: a breach began no earlier, and it fires
once the breach was held. -/
structure RuleEntry.Sustained (first last : Int64) (e : RuleEntry F) : Prop where
  pending : ∀ since, e.state = .pending since → first ≤ since
  firing : e.state = .firing → first.toInt + e.rule.sustainSecs.toNat ≤ last.toInt

namespace RuleEntry

section Sustained

variable {first last : Int64} {e : RuleEntry F}

omit [RuleFloat F]

theorem Sustained.of_clear (clear : e.state = .clear) : e.Sustained first last where
  pending := fun _ pending => nomatch clear.symm.trans pending
  firing := fun firing => nomatch clear.symm.trans firing

theorem sustained_new (first last : Int64) (rule : ThresholdRule F) :
    (new rule).Sustained first last := .of_clear rfl

end Sustained

theorem Sustained.step {first last : Int64} {e : RuleEntry F} (sustained : e.Sustained first last)
    (begun : first ≤ last) (later : last ≤ ts) (sample : DimReadings F) :
    (e.step sample ts).1.Sustained first ts := by
  obtain ⟨pending, firing⟩ := sustained
  rw [Int64.le_iff_toInt_le] at begun later
  have kept : e.state = .firing →
      first.toInt + (e.step sample ts).1.rule.sustainSecs.toNat ≤ ts.toInt := by
    intro is
    have before := firing is
    rw [rule_step]
    omega
  rcases (state_step e sample ts).1 with same | clear | ⟨breaching, cleared, advanced⟩
  · refine ⟨fun since is => pending since (same ▸ is), fun is => kept (same ▸ is)⟩
  · exact .of_clear clear
  · refine ⟨fun since is => ?_, fun is => ?_⟩ <;> rw [advanced] at is
    · rcases (advance_eq_pending is).2.1 with ⟨-, rfl⟩ | before
      · rw [Int64.le_iff_toInt_le]
        omega
      · exact pending since before
    · by_cases fired : e.state = .firing
      · exact kept fired
      · rw [rule_step]
        rcases (advance_eq_firing fired is).2 with zero | ⟨since, before, long⟩
        · rw [zero, show (0 : UInt32).toNat = 0 from rfl]
          omega
        · have began := Int64.le_iff_toInt_le.mp (pending since before)
          omega

end RuleEntry

/-! ## The evaluator afresh -/

namespace AlertEvaluator

variable {evaluator : AlertEvaluator F} {rules : List (ThresholdRule F)}

section

variable {P : RuleEntry F → Prop} (holds : ∀ e ∈ evaluator.entries, P e)
  (new : ∀ rule, P (.new rule))
include holds new

/-- What holds of the entries of an evaluator and of new entries. -/
theorem forall_setRules (rules : List (ThresholdRule F)) :
    ∀ e ∈ (evaluator.setRules rules).entries, P e := by
  intro e here
  rcases mem_installed here with before | ⟨rule, rfl⟩
  · exact holds e before
  · exact new rule

theorem forall_install (pushed : Option (List (ThresholdRule F))) :
    ∀ e ∈ (evaluator.install pushed).entries, P e := by
  cases pushed with
  | none => exact holds
  | some rules => exact forall_setRules holds new rules

end

theorem installed_afresh (entries : List (RuleEntry F)) :
    installed rules (entries.map .afresh) = (installed rules entries).map .afresh := by
  induction rules generalizing entries with
  | nil => rfl
  | cons rule rules ih =>
    have same : ((fun entry : RuleEntry F => entry.rule == rule) ∘ RuleEntry.afresh)
        = fun entry => entry.rule == rule := rfl
    unfold installed
    rw [takeFirst_map, same]
    cases takeFirst (fun entry : RuleEntry F => entry.rule == rule) entries with
    | none => exact congrArg (RuleEntry.new rule :: ·) (ih entries)
    | some taken => exact congrArg (taken.1.afresh :: ·) (ih taken.2)

theorem afresh_setRules : evaluator.afresh.setRules rules = (evaluator.setRules rules).afresh := by
  rw [afresh_eq, afresh_eq, setRules, setRules, installed_afresh]

/-- The first reading of rules at rest: from it on the evaluator is the one afresh. -/
theorem evaluateReadings_afresh (wf : ∀ e ∈ evaluator.entries, e.WellFormed)
    (rested : ∀ e ∈ evaluator.entries, e.Rested ts) {readings : DimReadings F} :
    evaluator.afresh.evaluateReadings readings ts = evaluator.evaluateReadings readings ts := by
  have agree : evaluator.afresh.entries.map (·.evaluate readings ts)
      = evaluator.entries.map (·.evaluate readings ts) := by
    rw [afresh_eq, map_map]
    refine map_congr_left fun e here => ?_
    simp only [Function.comp_apply, RuleEntry.evaluate, RuleEntry.afresh,
      step_rested (wf e here) (rested e here) readings]
  simp only [evaluateReadings, agree]

end AlertEvaluator

/-! ## The sampler afresh -/

variable {M S : Type}

namespace SamplerState

variable {state : SamplerState F M S} (evaluator : AlertEvaluator F)

def withEvaluator (state : SamplerState F M S) (evaluator : AlertEvaluator F) :
    SamplerState F M S :=
  { state with alertEval := evaluator }

omit [RuleFloat F] in
theorem beginTick_withEvaluator (inMaintenance : Bool) :
    (state.withEvaluator evaluator).beginTick inMaintenance
        = ((state.beginTick inMaintenance).1.withEvaluator evaluator, !inMaintenance) ∧
      (state.beginTick inMaintenance).1.alertEval = state.alertEval := by
  unfold beginTick withEvaluator
  dsimp only
  split <;> exact ⟨rfl, rfl⟩

omit [RuleFloat F] in
theorem classify_withEvaluator (ml : Ensemble M S) (features : S) :
    (state.withEvaluator evaluator).classify ml features
        = (state.classify ml features).withEvaluator evaluator ∧
      (state.classify ml features).alertEval = state.alertEval := by
  unfold classify withEvaluator
  dsimp only
  split
  · split <;> exact ⟨rfl, rfl⟩
  · exact ⟨rfl, rfl⟩

theorem alertEval_evaluateRules (pushed : Option (List (ThresholdRule F)))
    (eventCoverage : List RuleCoverage) (readings : DimReadings F) (now : Int64) :
    (state.evaluateRules pushed eventCoverage readings now).1.alertEval
        = ((state.alertEval.install pushed).evaluateReadings readings now).1 ∧
      (state.evaluateRules pushed eventCoverage readings now).2.1
        = ((state.alertEval.install pushed).evaluateReadings readings now).2 := by
  unfold evaluateRules
  dsimp only
  split <;> exact ⟨rfl, rfl⟩

theorem alertEval_emitAnomalyRate (eventCoverage : List RuleCoverage) (now : Int64) :
    (state.emitAnomalyRate eventCoverage now).1.alertEval = state.alertEval := by
  unfold emitAnomalyRate
  split <;> rfl

end SamplerState

omit [RuleFloat F] in
/-- A reading is taken outside maintenance. -/
theorem SentinelEvent.of_reading {event : SentinelEvent F S} {readings : DimReadings F}
    {now : Int64} (sampled : event.reading = some (readings, now)) :
    ∃ sample eventCoverage, event = .tick false (some sample) eventCoverage now ∧
      sample.readings = readings := by
  cases event with
  | push rules => cases sampled
  | tick inMaintenance sample eventCoverage later =>
    cases inMaintenance with
    | true => cases sampled
    | false =>
      cases sample with
      | none => cases sampled
      | some sample =>
        cases sampled
        exact ⟨sample, eventCoverage, rfl, rfl⟩

namespace Sentinel

variable {ml : Ensemble M S} {s : Sentinel F M S} {event : SentinelEvent F S}
  {evaluator : AlertEvaluator F}

def withEvaluator (s : Sentinel F M S) (evaluator : AlertEvaluator F) : Sentinel F M S :=
  { s with sampler := s.sampler.withEvaluator evaluator }

/-- A second without a reading leaves the evaluator alone. -/
theorem step_unsampled (unsampled : event.reading = none) (evaluator : AlertEvaluator F) :
    (s.withEvaluator evaluator).step ml event
    = ((s.step ml event).1.withEvaluator evaluator, none) ∧
      (s.step ml event).2 = none ∧
      (s.step ml event).1.sampler.alertEval = s.sampler.alertEval := by
  cases event with
  | push rules => exact ⟨rfl, rfl, rfl⟩
  | tick inMaintenance sample eventCoverage now =>
    obtain ⟨begun, kept⟩ := @beginTick_withEvaluator F M S s.sampler evaluator
      inMaintenance
    have silent : ∀ s : Sentinel F M S, s.step ml (.tick inMaintenance sample eventCoverage now)
        = ({ s with sampler := (s.sampler.beginTick inMaintenance).1 }, none) := by
      intro s
      cases inMaintenance with
      | true => rfl
      | false =>
        cases sample with
        | none => rfl
        | some sample => cases unsampled
    rw [silent, silent]
    refine ⟨?_, rfl, kept⟩
    simp only [withEvaluator, begun]

/-- A sampled second depends on the evaluator by what it evaluates to. -/
theorem step_sampled {readings : DimReadings F} {now : Int64}
    (sampled : event.reading = some (readings, now))
    (agree : (evaluator.install s.mailbox).evaluateReadings readings now
      = (s.sampler.alertEval.install s.mailbox).evaluateReadings readings now) :
    (s.withEvaluator evaluator).step ml event = s.step ml event := by
  obtain ⟨sample, eventCoverage, rfl, rfl⟩ := of_reading sampled
  obtain ⟨begun, kept⟩ := @beginTick_withEvaluator F M S s.sampler evaluator false
  obtain ⟨classified, kept'⟩ := @classify_withEvaluator F M S
    (s.sampler.beginTick false).1 evaluator ml sample.features
  rw [← kept, ← kept'] at agree
  have same : ({ s.withEvaluator evaluator with
        sampler := ((s.withEvaluator evaluator).sampler.beginTick false).1 } : Sentinel F M
          S).onSample ml sample eventCoverage now
      = ({ s with sampler := (s.sampler.beginTick false).1 } : Sentinel F M S).onSample
          ml sample eventCoverage now := by
    simp only [onSample, withEvaluator, begun, classified]
    simp only [SamplerState.evaluateRules, SamplerState.withEvaluator, agree]
  exact congrArg (fun output => (output.1, some output.2)) same

/-- What a sampled second does with the evaluator. -/
theorem step_reading {readings : DimReadings F} {now : Int64}
    (sampled : event.reading = some (readings, now)) :
    (s.step ml event).1.sampler.alertEval
        = ((s.sampler.alertEval.install s.mailbox).evaluateReadings readings now).1 ∧
      ∃ output, (s.step ml event).2 = some output ∧
        output.rules = (s.step ml event).1.sampler.alertEval.entries.map (·.rule) ∧
        output.firings
          = ((s.sampler.alertEval.install s.mailbox).evaluateReadings readings now).2 := by
  obtain ⟨sample, eventCoverage, rfl, rfl⟩ := of_reading sampled
  have begun := (@beginTick_withEvaluator F M S s.sampler s.sampler.alertEval false).2
  have classified := (@classify_withEvaluator F M S (s.sampler.beginTick false).1
    s.sampler.alertEval ml sample.features).2
  obtain ⟨evaluated, fired⟩ := @alertEval_evaluateRules F _ M S
    ((s.sampler.beginTick false).1.classify ml sample.features) s.mailbox eventCoverage
    sample.readings now
  rw [classified, begun] at evaluated fired
  have emitted := @alertEval_emitAnomalyRate F _ M S
    (((s.sampler.beginTick false).1.classify ml sample.features).evaluateRules s.mailbox
      eventCoverage sample.readings now).1 eventCoverage now
  exact ⟨emitted.trans evaluated, _, rfl,
    congrArg (fun evaluator => evaluator.entries.map (·.rule)) emitted.symm, fired⟩

/-! ## Runs after maintenance -/

def afresh (s : Sentinel F M S) : Sentinel F M S := s.withEvaluator s.sampler.alertEval.afresh

def readingTimes (events : List (SentinelEvent F S)) : List Int64 :=
  events.filterMap fun event => event.reading.map (·.2)

def firstReading (events : List (SentinelEvent F S)) : Option Int64 := (readingTimes events).head?

theorem evaluateReadings_install_afresh (wf : ∀ e ∈ evaluator.entries, e.WellFormed)
    (rested : ∀ e ∈ evaluator.entries, e.Rested ts) {pushed : Option (List (ThresholdRule F))}
    {readings : DimReadings F} :
    (evaluator.afresh.install pushed).evaluateReadings readings ts
      = (evaluator.install pushed).evaluateReadings readings ts := by
  cases pushed with
  | none => exact evaluateReadings_afresh wf rested
  | some rules =>
    show (evaluator.afresh.setRules rules).evaluateReadings readings ts = _
    rw [afresh_setRules]
    exact evaluateReadings_afresh
      (forall_setRules wf wellFormed_new rules)
      (forall_setRules rested (rested_new · ts) rules)

variable {events : List (SentinelEvent F S)}

/-- Rules at rest by the first reading: what is put out is what they put out afresh, and
from the first reading on the samplers are the same. -/
theorem run_afresh (wf : ∀ e ∈ s.sampler.alertEval.entries, e.WellFormed)
    (rested : ∀ ts ∈ firstReading events, ∀ e ∈ s.sampler.alertEval.entries, e.Rested ts) :
    (s.afresh.run ml events).2 = (s.run ml events).2 ∧
      ((firstReading events).isSome = true → (s.afresh.run ml events).1 = (s.run ml events).1) := by
  induction events generalizing s with
  | nil => exact ⟨rfl, fun reading => nomatch reading⟩
  | cons event events ih =>
    rw [firstReading, readingTimes, filterMap_cons] at rested ⊢
    cases reading : event.reading with
    | none =>
      simp only [reading, Option.map_none] at rested ⊢
      obtain ⟨stepped, silent, kept⟩ := @step_unsampled F _ M S ml s event reading
        s.sampler.alertEval.afresh
      have next : s.afresh.step ml event = ((s.step ml event).1.afresh, none) := by
        rw [afresh, stepped, afresh, kept]
      simp only [run, next, silent]
      exact ih (kept ▸ wf) (kept ▸ rested)
    | some pair =>
      obtain ⟨readings, now⟩ := pair
      simp only [reading, Option.map_some] at rested
      have next : s.afresh.step ml event = s.step ml event :=
        step_sampled reading
          (evaluateReadings_install_afresh wf (rested now rfl))
      simp only [run, next, implies_true, and_self]

/-- What holds of new entries and is kept by an evaluation holds along a run. -/
theorem run_entries {P : RuleEntry F → Prop} (fresh : ∀ rule, P (.new rule))
    (kept : ∀ e, P e → ∀ event ∈ events, ∀ readings now, event.reading = some (readings, now) →
      P (e.step readings now).1) (holds : ∀ e ∈ s.sampler.alertEval.entries, P e) :
    ∀ e ∈ (s.run ml events).1.sampler.alertEval.entries, P e := by
  induction events generalizing s with
  | nil => exact holds
  | cons event events ih =>
    refine ih (fun e good event later => kept e good event (mem_cons_of_mem _ later)) ?_
    cases reading : event.reading with
    | none => rwa [(step_unsampled reading s.sampler.alertEval).2.2]
    | some pair =>
      obtain ⟨readings, now⟩ := pair
      rw [(step_reading reading).1]
      intro e here
      obtain ⟨stepped, evaluated, rfl⟩ := mem_map.mp here
      obtain ⟨entry, installed, rfl⟩ := mem_map.mp evaluated
      exact kept entry (forall_install holds fresh s.mailbox entry installed)
        event mem_cons_self readings now reading

/-- Rules that have seen nothing from before `first` fire once a breach was held since. -/
theorem run_sustained {first last : Int64} (ordered : (readingTimes events).Pairwise (· ≤ ·))
    (later : ∀ t ∈ readingTimes events, last ≤ t) (begun : first ≤ last)
    (holds : ∀ e ∈ s.sampler.alertEval.entries, e.Sustained first last) :
    ∀ output ∈ (s.run ml events).2, ∀ f ∈ output.firings, ∃ rule ∈ output.rules,
      rule.id = f.ruleId ∧ first.toInt + rule.sustainSecs.toNat ≤ f.atTs.toInt := by
  induction events generalizing s last with
  | nil => exact fun output here => nomatch here
  | cons event events ih =>
    cases reading : event.reading with
    | none =>
      obtain ⟨-, silent, kept⟩ := @step_unsampled F _ M S ml s event reading s.sampler.alertEval
      simp only [readingTimes, filterMap_cons, reading, Option.map_none] at ordered later
      simp only [run, silent, Option.toList_none, nil_append]
      exact ih ordered later begun (kept ▸ holds)
    | some pair =>
      obtain ⟨readings, now⟩ := pair
      obtain ⟨evaluated, output, put, rules, firings⟩ := @step_reading F _ M S ml s event readings
        now reading
      simp only [readingTimes, filterMap_cons, reading, Option.map_some] at ordered later
      obtain ⟨above, ordered⟩ := pairwise_cons.mp ordered
      have soon := later now mem_cons_self
      have good : ∀ e ∈ (s.sampler.alertEval.install s.mailbox).entries,
          (e.step readings now).1.Sustained first now := fun e here =>
        (forall_install holds (sustained_new first last) s.mailbox e here).step begun soon readings
      have next : ∀ e ∈ (s.step ml event).1.sampler.alertEval.entries, e.Sustained first now := by
        rw [evaluated]
        intro e here
        obtain ⟨stepped, evaluated, rfl⟩ := mem_map.mp here
        obtain ⟨entry, installed, rfl⟩ := mem_map.mp evaluated
        exact good entry installed
      simp only [run, put, Option.toList_some, singleton_append, forall_mem_cons]
      refine ⟨fun f fired => ?_, ih ordered above (Int64.le_trans begun soon) next⟩
      rw [firings] at fired
      obtain ⟨stepped, evaluated', reported⟩ := mem_filterMap.mp fired
      obtain ⟨entry, installed, rfl⟩ := mem_map.mp evaluated'
      obtain ⟨breach, stepped, rfl⟩ := Option.map_eq_some_iff.mp reported
      have firing := (state_step entry readings now).2 (by rw [stepped]; rfl)
      refine ⟨(entry.step readings now).1.rule, ?_, rfl, (good entry installed).firing firing⟩
      rw [rules, evaluated]
      exact mem_map.mpr ⟨_, mem_map.mpr ⟨_, mem_map.mpr ⟨entry, installed, rfl⟩, rfl⟩, rfl⟩

theorem run_append (before after : List (SentinelEvent F S)) :
    (s.run ml (before ++ after)).1 = ((s.run ml before).1.run ml after).1 := by
  induction before generalizing s with
  | nil => rfl
  | cons event before ih => exact ih

/-- Without readings the evaluator stays as it is. -/
theorem run_unsampled (unsampled : ∀ event ∈ events, event.reading = none) :
    (s.run ml events).1.sampler.alertEval = s.sampler.alertEval := by
  induction events generalizing s with
  | nil => rfl
  | cons event events ih =>
    obtain ⟨here, later⟩ := forall_mem_cons.mp unsampled
    exact (ih later).trans (step_unsampled here s.sampler.alertEval).2.2

theorem run_wellFormed (before : List (SentinelEvent F S)) :
    ∀ e ∈ ((Sentinel.new : Sentinel F M S).run ml before).1.sampler.alertEval.entries,
      e.WellFormed :=
  run_entries wellFormed_new (fun _ wf _ _ readings now _ => wf.step readings now)
    fun _ here => nomatch here

/-- New rules retain readings of the run only. -/
theorem run_retained (fresh : ∀ e ∈ s.sampler.alertEval.entries, ∃ rule, e = .new rule) :
    ∀ e ∈ (s.run ml events).1.sampler.alertEval.entries, ∀ cs, e.conditions = some cs →
      ∀ c ∈ cs, ∀ reading ∈ c.history, reading.1 ∈ readingTimes events := by
  have empty : ∀ rule : ThresholdRule F, ∀ cs, (RuleEntry.new rule).conditions = some cs →
      ∀ c ∈ cs, ∀ reading ∈ c.history, reading.1 ∈ readingTimes events := by
    intro rule cs built c here reading retained
    rw [← reset_of_built built c here] at retained
    cases retained
  refine run_entries empty (fun _ holds event here readings now sampled => ?_) ?_
  · refine forall_conditions_step (fun c holds reading retained => ?_)
      (fun c holds reading retained => nomatch retained) holds
    rcases mem_history_step retained with old | new
    · exact holds reading old
    · exact mem_filterMap.mpr ⟨event, here, by rw [sampled, new]; rfl⟩
  · intro e here
    obtain ⟨rule, rfl⟩ := fresh e here
    exact empty rule

end Sentinel

/-- Nothing but arriving rulesets and seconds in maintenance. -/
def SentinelEvent.suppressed : SentinelEvent F S → Bool
  | .push _ => true
  | .tick inMaintenance _ _ _ => inMaintenance

omit [RuleFloat F] in
theorem SentinelEvent.reading_of_suppressed {event : SentinelEvent F S}
    (suppressed : event.suppressed) : event.reading = none := by
  cases event with
  | push rules => rfl
  | tick inMaintenance sample eventCoverage now =>
    cases (suppressed : inMaintenance)
    rfl

/-- Where every rule was at rest by the first reading after maintenance, the rules report
what they report afresh; then no rule fires before a breach was held since that reading,
and no window reaches back before it. -/
theorem maintenance_starts_afresh (ml : Ensemble M S)
    (before during after : List (SentinelEvent F S))
    (maintenance : ∀ event ∈ during, event.suppressed = true)
    (rested : ∀ ts ∈ Sentinel.firstReading after,
      ∀ e ∈ ((Sentinel.new : Sentinel F M S).run ml before).1.sampler.alertEval.entries,
      e.Rested ts) :
    let exit := ((Sentinel.new : Sentinel F M S).run ml (before ++ during)).1
    (exit.run ml after).2 = (exit.afresh.run ml after).2 ∧
      ∀ first ∈ firstReading after,
        ((readingTimes after).Pairwise (· ≤ ·) →
          ∀ output ∈ (exit.run ml after).2, ∀ f ∈ output.firings, ∃ rule ∈ output.rules,
            rule.id = f.ruleId ∧ first.toInt + rule.sustainSecs.toNat ≤ f.atTs.toInt) ∧
        ∀ e ∈ (exit.run ml after).1.sampler.alertEval.entries, ∀ cs, e.conditions = some cs →
          ∀ c ∈ cs, ∀ reading ∈ c.history, reading.1 ∈ readingTimes after := by
  intro exit
  have kept : exit.sampler.alertEval
      = ((Sentinel.new : Sentinel F M S).run ml before).1.sampler.alertEval := by
    rw [show exit = _ from run_append before during]
    exact run_unsampled fun event here =>
      reading_of_suppressed (maintenance event here)
  have wf : ∀ e ∈ exit.sampler.alertEval.entries, e.WellFormed := by
    rw [kept]
    exact run_wellFormed before
  obtain ⟨outputs, final⟩ := @run_afresh F _ M S ml exit after wf (by rw [kept]; exact rested)
  have fresh : ∀ e ∈ exit.afresh.sampler.alertEval.entries, ∃ rule, e = .new rule := by
    intro e here
    obtain ⟨rule, -, rfl⟩ := mem_map.mp here
    exact ⟨rule, rfl⟩
  refine ⟨outputs.symm, fun first starts => ⟨fun ordered => ?_, ?_⟩⟩
  · rw [← outputs]
    refine run_sustained ordered ?_ (le_refl first) ?_
    · rw [firstReading, Option.mem_def, head?_eq_some_iff] at starts
      obtain ⟨rest, times⟩ := starts
      rw [times, pairwise_cons] at ordered
      rw [times, forall_mem_cons]
      exact ⟨le_refl first, ordered.1⟩
    · intro e here
      obtain ⟨rule, rfl⟩ := fresh e here
      exact sustained_new first first rule
  · rw [← final (Option.isSome_of_mem starts)]
    exact run_retained fresh

/-! ## A breach on both sides of maintenance -/

def untrained : Ensemble Unit Unit := ⟨fun _ => none, fun _ _ => false⟩

/-- Processor load over 90 percent for five minutes. -/
def busyFor300 : ThresholdRule Int64 := { cpuOver "busy" 90 with sustainSecs := 300 }

def sampledAt (value now : Int64) : SentinelEvent Int64 Unit :=
  .tick false (some ⟨(), allAt value⟩) [] now

def maintainedAt (now : Int64) : SentinelEvent Int64 Unit := .tick true none [] now

/-- A quiet machine enters maintenance. -/
theorem maintenance_starts_afresh_quiet :
    let exit := (Sentinel.new.run untrained
      ([.push [busyFor300], sampledAt 50 100] ++ [maintainedAt 200])).1
    (exit.run untrained [sampledAt 95 1000, sampledAt 95 1300]).2
      = (exit.afresh.run untrained [sampledAt 95 1000, sampledAt 95 1300]).2 := by
  refine (maintenance_starts_afresh untrained [.push [busyFor300], sampledAt 50 100]
    [maintainedAt 200] [sampledAt 95 1000, sampledAt 95 1300] (fun event here => ?_)
    fun ts first e here => ?_).1
  · rw [mem_singleton.mp here]
    rfl
  · have now : ts = 1000 := (Option.some.inj first).symm
    subst now
    have entries : (Sentinel.new.run untrained [.push [busyFor300],
        sampledAt 50 100]).1.sampler.alertEval.entries.all (fun e => decide (e.state = .clear) &&
          !e.budget.throttled && !e.budget.within 1000 &&
          e.conditions.all (·.all (·.history.isEmpty))) := by
      decide +kernel
    have is := all_eq_true.mp entries e here
    simp only [Bool.and_eq_true, decide_eq_true_eq, Bool.not_eq_true'] at is
    obtain ⟨⟨⟨clear, running⟩, spanOver⟩, histories⟩ := is
    refine ⟨clear, running, spanOver, fun cs built c here reading retained => ?_⟩
    rw [built, Option.all_some, all_eq_true] at histories
    rw [isEmpty_iff.mp (histories c here)] at retained
    cases retained

/-- A machine that was busy for a second before maintenance and is busy in the first second
after it is reported as busy since before; rules started afresh report nothing. -/
theorem maintenance_keeps_breach :
    let exit := (Sentinel.new.run untrained
      ([.push [busyFor300], sampledAt 95 100] ++ [maintainedAt 200])).1
    (exit.run untrained [sampledAt 95 1000]).2.map (·.firings)
        = [[⟨"busy", 1, .warning, "cpu.total", 95, 100, 1000, true⟩]] ∧
      (exit.afresh.run untrained [sampledAt 95 1000]).2.map (·.firings) = [[]] := by
  decide +kernel

end OpenGate.Alerts
