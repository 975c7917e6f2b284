import OpenGate.Agents.Dispatch
import OpenGate.Alerts.Maintenance

/-!
# The interval floor

`acceptTelemetry` and `acceptDiscovery` compare the agent's stamp of a message with the last
accepted one of its type.  A stamp far ahead is accepted and remembered, and then everything
stamped with the true time is too early.  The sampler has two kinds of health summary, each with
a period of its own, and the server has one floor for both.
-/

namespace OpenGate.Agents.Dispatch

variable {C : Contents}

def ControlLoop.accepts (a : ControlLoop C) (m : ControlMessage C × Nat) : Option (ControlLoop C) :=
  if m.1.type = .discoveryReport then a.acceptDiscovery m.1 m.2 else a.acceptTelemetry m.1 m.2

def floorOf (type : ControlMessageType) : Int :=
  if type = .discoveryReport then minDiscoveryIntervalSeconds else minTelemetryIntervalSeconds

def capOf (type : ControlMessageType) : Nat :=
  if type = .discoveryReport then maxDiscoveryPayloadBytes else maxTelemetryPayloadBytes

def ControlLoop.paced (a : ControlLoop C) (m : ControlMessage C × Nat) : ControlLoop C :=
  (a.accepts m).getD a

/-- A message is lost to the interval floor. -/
def ControlLoop.Early (a : ControlLoop C) (m : ControlMessage C × Nat) : Prop :=
  m.2 ≤ capOf m.1.type ∧ a.accepts m = none

/-- A stamp is less than the floor after the one of its type that is remembered, or before it. -/
def ControlLoop.Near (a : ControlLoop C) (type : ControlMessageType) (ts : Int) : Prop :=
  ∃ last ∈ a.telemetryLast type, ts < last + floorOf type

variable {a : ControlLoop C} {m : ControlMessage C × Nat} {type : ControlMessageType} {ts : Int}

theorem ControlLoop.accepts_eq :
    a.accepts m = a.acceptPaced m.1 m.2 (capOf m.1.type) (floorOf m.1.type) := by
  unfold accepts capOf floorOf
  split <;> rfl

theorem ControlLoop.any_near :
    ((a.telemetryLast type).any fun last => ts - last < floorOf type) ↔ a.Near type ts := by
  simp only [Option.any_eq_true, decide_eq_true_eq, Near, Option.mem_def, Int.sub_lt_iff,
    Int.add_comm]

theorem ControlLoop.early_iff :
    a.Early m ↔ m.2 ≤ capOf m.1.type ∧ 0 < m.1.ts ∧ a.Near m.1.type m.1.ts := by
  refine and_congr_right fun small => ?_
  rw [accepts_eq, acceptPaced, if_neg (Nat.not_lt.mpr small), ← any_near]
  split
  next unstamped => simp [Int.not_lt.mpr unstamped]
  next stamped =>
    split
    next near => simp [Int.not_le.mp stamped, near]
    next far => simp [far]

/-- A message does not change what is too early the floor after it: if that was too early, so is
the message, and its stamp is not remembered. -/
theorem ControlLoop.near_paced (same : m.1.type = type) (apart : m.1.ts + floorOf type ≤ ts) :
    (a.paced m).Near type ts ↔ a.Near type ts := by
  rw [paced, accepts_eq, acceptPaced, same]
  split
  · rfl
  · split
    · rfl
    · split
      · rfl
      next far =>
        rw [any_near] at far
        have floor : 0 ≤ floorOf type := by
          unfold floorOf
          split <;> decide
        refine iff_of_false ?_ fun ⟨last, remembered, near⟩ => far ⟨last, remembered, by omega⟩
        rintro ⟨last, remembered, near⟩
        cases (Function.update_self ..).symm.trans remembered
        omega

theorem ControlLoop.near_run {ms : List (ControlMessage C × Nat)} (same : ∀ m ∈ ms, m.1.type = type)
    (apart : ∀ m ∈ ms, m.1.ts + floorOf type ≤ ts) :
    (ms.foldl paced a).Near type ts ↔ a.Near type ts := by
  induction ms generalizing a with
  | nil => rfl
  | cons m ms ih =>
    rw [List.forall_mem_cons] at same apart
    exact (ih same.2 apart.2).trans (near_paced same.1 apart.1)

def ControlLoop.new : ControlLoop C := ⟨[], fun _ => none, [], 0⟩

/-- Of messages with the true time, the floor apart, none but perhaps the first is lost to the
floor exactly when the stamp remembered before them is the floor or more behind the others. -/
theorem true_time_accepted {earlier rest : List (ControlMessage C × Nat)}
    {first : ControlMessage C × Nat} (same : ∀ m ∈ first :: rest, m.1.type = type)
    (apart : (first :: rest).Pairwise fun m m' => m.1.ts + floorOf type ≤ m'.1.ts) :
    (∀ before m after, rest = before ++ m :: after →
      ¬ ((earlier ++ first :: before).foldl ControlLoop.paced .new).Early m) ↔
    ∀ m ∈ rest, m.2 ≤ capOf type → 0 < m.1.ts →
      ∀ last ∈ (earlier.foldl ControlLoop.paced .new).telemetryLast type,
        last + floorOf type ≤ m.1.ts := by
  have early before m after (split : rest = before ++ m :: after) :
      ((earlier ++ first :: before).foldl ControlLoop.paced .new).Early m ↔
        m.2 ≤ capOf type ∧ 0 < m.1.ts ∧
        (earlier.foldl ControlLoop.paced .new).Near type m.1.ts := by
    have whole : first :: rest = (first :: before) ++ m :: after := congrArg _ split
    rw [whole, List.forall_mem_append] at same
    rw [whole] at apart
    rw [ControlLoop.early_iff, same.2 m List.mem_cons_self, List.foldl_append,
      ControlLoop.near_run same.1]
    exact fun other here => (List.pairwise_append.mp apart).2.2 other here m List.mem_cons_self
  constructor
  · intro kept m here small stamped last remembered
    obtain ⟨before, after, split⟩ := List.append_of_mem here
    by_contra near
    exact kept before m after split
      ((early before m after split).mpr ⟨small, stamped, last, remembered, by omega⟩)
  · intro behind before m after split lost
    obtain ⟨small, stamped, last, remembered, near⟩ := (early before m after split).mp lost
    have := behind m (split ▸ by simp) small stamped last remembered
    omega

def stamped (type : ControlMessageType) (ts : Int) : ControlMessage plainContents × Nat :=
  ({ type, ts }, 0)

instance (a : ControlLoop C) (m : ControlMessage C × Nat) : Decidable (a.Early m) :=
  decidable_of_iff (m.2 ≤ capOf m.1.type ∧ (a.accepts m).isNone = true)
    (by simp [ControlLoop.Early])

/-- After a message from three seconds ahead one is too early, and the next is not. -/
theorem true_time_accepted_again :
    ([stamped .agentMetricWindow 103].foldl ControlLoop.paced .new).Early
        (stamped .agentMetricWindow 100) ∧
      ¬ (([stamped .agentMetricWindow 103] ++ [stamped .agentMetricWindow 100]).foldl
        ControlLoop.paced .new).Early (stamped .agentMetricWindow 115) := by
  have same : ∀ m ∈ [stamped .agentMetricWindow 100, stamped .agentMetricWindow 115],
      m.1.type = .agentMetricWindow := by decide
  refine ⟨by decide, (true_time_accepted same (by decide)).mpr ?_ [] _ [] rfl⟩
  decide

/-- One stamp from the year 2100: messages with the true time are lost, the second as the first. -/
theorem true_time_lost : [ControlMessageType.agentMetricWindow, .discoveryReport].Forall fun type =>
    ([stamped type 4102444800].foldl ControlLoop.paced .new).Early (stamped type 1700000000) ∧
      ([stamped type 4102444800, stamped type 1700000000].foldl ControlLoop.paced .new).Early
        (stamped type 1700000060) := by
  decide

end OpenGate.Agents.Dispatch

namespace OpenGate.Alerts

open OpenGate.Lib Agents.Dispatch Sentinel SamplerState List

variable {F M S : Type}

def HealthSummary.ts : HealthSummary F → Int64
  | .breach ts .. | .anomaly ts .. => ts

/-- When each emitter last emitted, that of breaches and that of the anomaly rate. -/
def SamplerState.emits (state : SamplerState F M S) (isBreach : Bool) : Option Int64 :=
  bif isBreach then state.lastHealthEmit else state.lastAnomalyEmit

/-- A time that is remembered is the floor or more before now. -/
def Back (now : Int64) (last : Option Int64) : Bool :=
  last.all fun t => t.toInt + minTelemetryIntervalSeconds ≤ now.toInt

theorem back_iff {now : Int64} {last : Option Int64} :
    Back now last ↔ ∀ t ∈ last, t.toInt + minTelemetryIntervalSeconds ≤ now.toInt := by
  simp only [Back, Option.all_eq_true, decide_eq_true_eq, Option.mem_def]

/-- What one emitter does in a second: if it is due, a summary the floor or more after its
last. -/
def Emission (kind due : Bool) (now : Int64) (before after : SamplerState F M S)
    (sent : Option (HealthSummary F)) : Prop :=
  if due then
    (∃ x, sent = some x ∧ x.ts = now) ∧ Back now (before.emits kind) ∧
      after.emits = Function.update before.emits kind (some now)
  else sent = none ∧ after.emits = before.emits

/-- Summaries from a second on: they are the floor apart, the last one of each emitter before
them included. -/
structure Paced (start : Int64) (last : Bool → Option Int64) (out : List (HealthSummary F)) :
    Prop where
  late : ∀ y ∈ out, start ≤ y.ts
  since : ∀ y ∈ out, ∀ kind, Back y.ts (last kind)
  apart : out.Pairwise fun x y => x.ts.toInt + minTelemetryIntervalSeconds ≤ y.ts.toInt

section

variable {kind due : Bool} {now start : Int64} {last : Bool → Option Int64}
  {before after : SamplerState F M S} {sent : Option (HealthSummary F)}
  {out : List (HealthSummary F)}

theorem back_mono {last : Option Int64} (back : Back start last) (later : start ≤ now) :
    Back now last :=
  back_iff.mpr fun t here => (back_iff.mp back t here).trans (Int64.le_iff_toInt_le.mp later)

theorem Paced.from_earlier (paced : Paced now last out) (order : start ≤ now) :
    Paced start last out :=
  { paced with late := fun y here => Int64.le_trans order (paced.late y here) }

/-- Times that are the floor back may be forgotten. -/
theorem Paced.of_forgotten (paced : Paced now (fun _ => none) out)
    (back : ∀ kind, Back now (last kind)) : Paced now last out :=
  { paced with since := fun y here kind => back_mono (back kind) (paced.late y here) }

/-- An emission before spaced summaries, the floor after the last of the other emitter too. -/
theorem Emission.paced (emission : Emission kind due now before after sent)
    (other : due → Back now (before.emits !kind)) (paced : Paced now after.emits out) :
    Paced now before.emits (sent.toList ++ out) := by
  cases due with
  | false =>
    obtain ⟨rfl, same⟩ := emission
    rw [← same]
    exact paced
  | true =>
    obtain ⟨⟨x, rfl, rfl⟩, own, emits⟩ := emission
    have back (kind' : Bool) : Back x.ts (before.emits kind') := by
      rcases Bool.eq_or_eq_not kind' kind with rfl | rfl
      · exact own
      · exact other rfl
    refine ⟨forall_mem_cons.mpr ⟨Int64.le_rfl, paced.late⟩, forall_mem_cons.mpr ⟨back, ?_⟩,
      pairwise_cons.mpr ⟨fun y here => ?_, paced.apart⟩⟩
    · exact fun y here kind' => back_mono (back kind') (paced.late y here)
    · refine back_iff.mp (paced.since y here kind) x.ts ?_
      rw [emits, Function.update_self]
      rfl

end

theorem apart_of_saturatingSub {period now last : Int64}
    (long : minTelemetryIntervalSeconds ≤ period.toInt)
    (due : period ≤ saturatingSub now last) :
    last.toInt + minTelemetryIntervalSeconds ≤ now.toInt := by
  rcases (le_saturatingSub_iff _ _ _).mp due with after | minimal
  · omega
  · subst minimal
    exact absurd long (by decide)

theorem emits_classify (state : SamplerState F M S) (ml : Ensemble M S) (features : S) :
    (state.classify ml features).emits = state.emits := by
  unfold classify
  split
  · dsimp only
    split <;> rfl
  · rfl

/-- What a tick outside maintenance leaves to remember is enough. -/
theorem Paced.of_begun {now : Int64} {state : SamplerState F M S} {out : List (HealthSummary F)}
    (forgets : state.wasInMaintenance → ∀ isBreach, Back now (state.emits isBreach))
    (paced : Paced now (state.beginTick false).1.emits out) : Paced now state.emits out := by
  cases was : state.wasInMaintenance with
  | true =>
    have forgotten : (state.beginTick false).1.emits = fun _ => none := by
      funext kind
      simp only [beginTick, was]
      cases kind <;> rfl
    exact .of_forgotten (forgotten ▸ paced) (forgets was)
  | false =>
    simp only [beginTick, was] at paced
    exact paced

theorem beginTick_inside (state : SamplerState F M S) :
    state.beginTick true = ({ state with wasInMaintenance := true }, false) := by
  simp only [beginTick, Bool.not_true, Bool.and_false, Bool.false_eq_true, if_false]

variable [RuleFloat F] {ml : Ensemble M S} {now start : Int64} {state : SamplerState F M S}
  {s : Sentinel F M S}

/-- Whether an emitter is about to send its summary, by what it remembers before the tick. -/
def Sentinel.due (ml : Ensemble M S) (s : Sentinel F M S) (sample : MetricSample F S) (now : Int64)
    (isBreach : Bool) : Bool :=
  let state := s.sampler.classify ml sample.features
  let firing := ((state.alertEval.install s.mailbox).evaluateReadings sample.readings now).2
  bif isBreach then shouldEmitHealth state.lastHealthEmit now (!firing.isEmpty) state.lastBreaching
  else state.ensemble.isSome && shouldEmitAnomaly state.lastAnomalyEmit now

/-- An emitter that is due finds the other's time the floor back, and the other not due. -/
def Sentinel.lone (ml : Ensemble M S) (s : Sentinel F M S) (sample : MetricSample F S)
    (now : Int64) : Bool :=
  ∀ isBreach, s.due ml sample now isBreach →
    Back now (s.sampler.emits !isBreach) ∧ s.due ml sample now (!isBreach) = false

/-- A tick that leaves maintenance, and so forgets, finds both times the floor back, and no two
summaries are due within the floor. -/
def Sentinel.spaced (ml : Ensemble M S) (s : Sentinel F M S) : SentinelEvent F S → Bool
  | .tick false sampled _ now =>
    (s.sampler.wasInMaintenance → ∀ isBreach, Back now (s.sampler.emits isBreach)) ∧
      sampled.all fun sample =>
        { s with sampler := (s.sampler.beginTick false).1 }.lone ml sample now
  | _ => true

/-- Every tick of a run is spaced, by the state it finds. -/
def Sentinel.spacedRun (ml : Ensemble M S) (s : Sentinel F M S) : List (SentinelEvent F S) → Bool
  | [] => true
  | event :: events => s.spaced ml event && spacedRun ml (s.step ml event).1 events

def SentinelEvent.tickTime : SentinelEvent F S → Option Int64
  | .push _ => none
  | .tick _ _ _ now => some now

theorem evaluateRules_emission (coverage : List RuleCoverage) (sample : MetricSample F S) :
    let state := s.sampler.classify ml sample.features
    let evaluated := state.evaluateRules s.mailbox coverage sample.readings now
    Emission true (s.due ml sample now true) now state evaluated.1 evaluated.2.2 := by
  simp only [evaluateRules, Emission, Sentinel.due, cond_true]
  split
  next due =>
    refine ⟨⟨_, rfl, rfl⟩, back_iff.mpr fun last here => ?_, funext fun kind => ?_⟩
    swap
    · cases kind <;> rfl
    have here : (s.sampler.classify ml sample.features).lastHealthEmit = some last := here
    simp only [shouldEmitHealth, here] at due
    exact apart_of_saturatingSub (by decide) (of_decide_eq_true (Bool.and_eq_true_iff.mp due).1)
  next => exact ⟨rfl, rfl⟩

theorem emitAnomalyRate_emission (coverage : List RuleCoverage) :
    let emitted := state.emitAnomalyRate coverage now
    Emission false (state.ensemble.isSome && shouldEmitAnomaly state.lastAnomalyEmit now) now state
      emitted.1 emitted.2 := by
  simp only [emitAnomalyRate, Emission, ← Option.not_isSome, ← Bool.not_and,
    Bool.not_eq_true']
  split
  next due =>
    rw [if_neg (by simp [due])]
    refine ⟨⟨_, rfl, rfl⟩, back_iff.mpr fun last here => ?_, funext fun kind => ?_⟩
    swap
    · cases kind <;> rfl
    simp only [shouldEmitAnomaly, show state.lastAnomalyEmit = some last from here, Option.all_some,
      Bool.and_eq_true, decide_eq_true_eq] at due
    exact apart_of_saturatingSub (by decide) due.2
  next idle =>
    rw [if_pos (by simpa using idle)]
    exact ⟨rfl, rfl⟩

/-- The health summaries of a run. -/
def Sentinel.summaries (ml : Ensemble M S) (s : Sentinel F M S)
    (events : List (SentinelEvent F S)) : List (HealthSummary F) :=
  (s.run ml events).2.flatMap (·.summaries)

theorem evaluateRules_frame (coverage : List RuleCoverage) (sample : MetricSample F S) :
    let state := (s.sampler.classify ml sample.features).evaluateRules s.mailbox coverage
      sample.readings now
    (state.1.ensemble.isSome && shouldEmitAnomaly state.1.lastAnomalyEmit now)
      = s.due ml sample now false := by
  simp only [evaluateRules, due, cond_false]
  split <;> rfl

theorem onSample_paced {sample : MetricSample F S} {coverage : List RuleCoverage}
    {out : List (HealthSummary F)} (lone : s.lone ml sample now)
    (paced : Paced now (s.onSample ml sample coverage now).1.sampler.emits out) :
    Paced now s.sampler.emits ((s.onSample ml sample coverage now).2.summaries ++ out) := by
  have alone := of_decide_eq_true lone
  have classified := emits_classify s.sampler ml sample.features
  have breach := @evaluateRules_emission F M S _ ml now s coverage sample
  have anomaly := @emitAnomalyRate_emission F M S _ now ((s.sampler.classify ml
    sample.features).evaluateRules s.mailbox coverage sample.readings now).1 coverage
  have due : s.due ml sample now false = _ := (evaluateRules_frame coverage sample).symm
  rw [← due] at anomaly
  have second := anomaly.paced (fun anomalous => ?_) paced
  · have first := breach.paced (fun breaching => classified ▸ (alone true breaching).1) second
    rw [classified, ← append_assoc] at first
    exact first
  · obtain ⟨back, quiet⟩ := alone false anomalous
    rw [show s.due ml sample now true = false from quiet] at breach
    rw [breach.2, classified]
    exact back

theorem summaries_paced {events : List (SentinelEvent F S)}
    (ordered : (events.filterMap (·.tickTime)).Pairwise (· < ·))
    (from' : ∀ t ∈ events.filterMap (·.tickTime), start ≤ t) (spaced : s.spacedRun ml events) :
    Paced start s.sampler.emits (s.summaries ml events) := by
  induction events generalizing s start with
  | nil => exact ⟨nofun, nofun, .nil⟩
  | cons event events ih =>
    obtain ⟨guarded, spaced⟩ := Bool.and_eq_true_iff.mp spaced
    cases event with
    | push rules => exact @ih start { s with mailbox := some rules } ordered from' spaced
    | tick inMaintenance sampled coverage now =>
      obtain ⟨later, rest⟩ := pairwise_cons.mp ordered
      obtain ⟨order, after⟩ := forall_mem_cons.mp from'
      cases inMaintenance with
      | true =>
        rw [summaries, run, step, beginTick_inside]
        rw [step, beginTick_inside] at spaced
        exact @ih start ⟨{ s.sampler with wasInMaintenance := true }, s.mailbox⟩ rest after spaced
      | false =>
        obtain ⟨forgets, lone⟩ := of_decide_eq_true guarded
        refine .from_earlier (.of_begun forgets ?_) order
        have later : ∀ t ∈ events.filterMap (·.tickTime), now ≤ t := fun t here =>
          Int64.le_of_lt (later t here)
        cases sampled with
        | none => exact @ih now ⟨(s.sampler.beginTick false).1, s.mailbox⟩ rest later spaced
        | some sample => exact onSample_paced lone (ih rest later spaced)

end OpenGate.Alerts

namespace OpenGate.Agents.Dispatch

open Alerts List

/-- The summaries of a run are the floor apart, and none of them is lost to it on a new
connection, where every tick finds the times the two emitters remember the floor back. -/
theorem summaries_accepted {F M S : Type} [RuleFloat F] (ml : Ensemble M S)
    (events : List (SentinelEvent F S))
    (ordered : (events.filterMap (·.tickTime)).Pairwise (· < ·))
    (spaced : Sentinel.new.spacedRun ml events) :
    (Sentinel.new.summaries ml events).Pairwise
        (fun x y => x.ts.toInt + minTelemetryIntervalSeconds ≤ y.ts.toInt) ∧
      ∀ (before : List (ControlMessage C × Nat)) (m : ControlMessage C × Nat)
        (after : List (ControlMessage C × Nat)),
        (∀ other ∈ before ++ m :: after, other.1.type = .agentHealthSummary) →
        (before ++ m :: after).map (·.1.ts) = (Sentinel.new.summaries ml events).map (·.ts.toInt) →
        ¬ (before.foldl ControlLoop.paced .new).Early m := by
  have apart := (summaries_paced ordered (fun t _ => Int64.minValue_le t) spaced).apart
  refine ⟨apart, fun before m after types stamps => ?_⟩
  have stamped : ((Sentinel.new.summaries ml events).map (·.ts.toInt)).Pairwise
      (· + minTelemetryIntervalSeconds ≤ ·) := pairwise_map.mpr apart
  rw [← stamps, pairwise_map] at stamped
  rw [forall_mem_append, forall_mem_cons] at types
  rw [ControlLoop.early_iff, types.2.1, ControlLoop.near_run types.1
    fun other here => (pairwise_append.mp stamped).2.2 other here m mem_cons_self]
  rintro ⟨-, -, _, ⟨⟩, -⟩

/-- A breach held for a quarter of a minute. -/
theorem summaries_accepted_breach :
    ¬ ([stamped .agentHealthSummary 1].foldl ControlLoop.paced .new).Early
      (stamped .agentHealthSummary 16) := by
  exact (summaries_accepted untrained [.push [cpuOver "busy" 90], sampledAt 95 1, sampledAt 95 16]
    (by decide) (by decide +kernel)).2 [stamped .agentHealthSummary 1] _ [] (by decide)
    (by decide +kernel)

/-- An ensemble that any warm-up trains. -/
def trained : Ensemble Unit Unit := ⟨fun _ => some (), fun _ _ => false⟩

/-- In the second in which the ensemble is trained a rule starts to fire: two summaries with one
stamp, and the second is lost. -/
theorem summaries_collide :
    let events := .push [cpuOver "busy" 90] ::
      (range 29).map (fun i => sampledAt 50 (Int64.ofNat (i + 1))) ++ [sampledAt 95 30]
    (events.filterMap (·.tickTime)).Pairwise (· < ·) ∧
      (Sentinel.new.summaries trained events).map (·.ts) = [30, 30] ∧
      ([stamped .agentHealthSummary 30].foldl ControlLoop.paced .new).Early
        (stamped .agentHealthSummary 30) := by
  decide +kernel

end OpenGate.Agents.Dispatch
