import OpenGate.Alerts.Scanning

/-!
# Stopping a scan and resuming it

A scan may be stopped after a chunk, and another one resumed from its cursor reads some
minutes again, to carry at the cursor what the first one carried.  Where the rule is not
firing at the cursor the two do carry the same (`inStep_resumed`), and nothing is repeated or
skipped.

A rule that is firing stays so for as long as its value does not recover, and the minutes read
again need not reach back to where it began.
-/

namespace OpenGate.Alerts

open OpenGate.Lib OpenGate.Tsdb OpenGate.Backfill Std RetroScan List

variable {F : Type} [RuleFloat F]

/-! ## Two scans in step -/

/-- A rule after two lists of minutes carries the same. -/
structure InStep (rule : ThresholdRule F) (a b : List (Tick F)) : Prop where
  run : (RuleEntry.new rule).run a = (RuleEntry.new rule).run b
  fires : fires rule a = fires rule b

section Later

variable {rule : ThresholdRule F} {plan : RetroPlan F} {cs : List (Condition F)} {g : Grid}
  {rows : Int64 → Option (DimReadings F)} {time : Nat → Int64} {j k : Nat} {ticks : List (Tick F)}
  {metric : String}

theorem inStep_later (inStep : InStep rule (segment rows time 0 (j + k)) (segment rows time j k))
    (d : Nat) : InStep rule (segment rows time 0 (j + (k + d))) (segment rows time j (k + d)) := by
  induction d with
  | zero => exact inStep
  | succ d ih =>
    rw [← Nat.add_assoc k, ← Nat.add_assoc j]
    cases row : rows (time (j + (k + d))) with
    | none =>
      rw [segment_hole row, segment_hole (by rwa [Nat.zero_add])]
      exact ⟨rfl, rfl⟩
    | some readings =>
      rw [segment_row row, segment_row (by rwa [Nat.zero_add]), Nat.zero_add]
      exact ⟨by rw [run_concat, run_concat, ih.run], by rw [fires_concat, fires_concat, ih.run]⟩

/-- A rule that reports is firing. -/
theorem state_of_fires {first : Int} (conditions : Conditions rule cs)
    (minutely : Minutely first ticks) (readable : ∀ tick ∈ ticks, Readable cs tick)
    (reports : fires rule ticks) : stateAfter rule ticks = .firing := by
  rcases eq_nil_or_concat ticks with rfl | ⟨before, tick, rfl⟩
  · cases reports
  · rw [concat_eq_append] at *
    exact ((fires_concat_iff conditions minutely readable).mp reports).2

/-- A scan that began the lookback before a minute, or with the oldest one, carries there what
one from the oldest minute on carries, unless that one's rule is firing. -/
theorem inStep_resumed (accepts : plan.Accepts rule cs) (oriented : Oriented cs)
    (full : Full plan rows)
    (inside : j + k ≤ g.count) (back : j = 0 ∨ plan.lookbackSecs.toInt ≤ 60 * k)
    (quiet : stateAfter rule (segment rows g.time 0 (j + k)) ≠ .firing) :
    InStep rule (segment rows g.time 0 (j + k)) (segment rows g.time j k) := by
  rcases back with rfl | back
  · rw [Nat.zero_add]
    exact ⟨rfl, rfl⟩
  obtain ⟨before, later, all⟩ := segment_later rows g.time
  rcases all with rfl | length
  · rw [later, nil_append]
    exact ⟨rfl, rfl⟩
  obtain ⟨widest, lookback, wide⟩ := accepts.lookback
  have minutely := minutely_segment rows (show 0 + (j + k) ≤ g.count by omega)
  have readable : ∀ tick ∈ segment rows g.time 0 (j + k), Readable cs tick :=
    readable_segment accepts full
  have own := minutely_segment rows inside
  have ownReadable : ∀ tick ∈ segment rows g.time j k, Readable cs tick :=
    readable_segment accepts full
  rw [later] at minutely readable quiet ⊢
  have state := stateAfter_eq_of_not_firing accepts.conditions wide oriented minutely readable
    (by omega) quiet
  constructor
  · rw [run_eq_carried accepts.conditions minutely readable,
      run_eq_carried accepts.conditions own ownReadable, state, carried_append wide (by omega)]
  · rw [Bool.eq_iff_iff]
    constructor
    · intro reports
      exact absurd (state_of_fires accepts.conditions minutely readable reports) quiet
    · intro reports
      exact absurd (state ▸ state_of_fires accepts.conditions own ownReadable reports) quiet

/-! ## Their findings -/

/-- An alert but for the readings behind it. -/
def EdgeAlert.withoutEvidence (alert : EdgeAlert F) : EdgeAlert F :=
  { alert with evidence := ⟨[], ""⟩ }

omit [RuleFloat F] in
theorem recentOf_eq :
    recentOf metric ticks = (ticks.filterMap fun tick =>
      (tick.readings.ofMetric metric).map fun value => (tick.ts, value)).rtake
        evidenceReadings := by
  induction ticks using List.reverseRecOn with
  | nil => rfl
  | append_singleton ticks tick ih =>
    rw [recentOf_concat, ih, filterMap_append]
    cases read : tick.readings.ofMetric metric with
    | none => simp [remember, read]
    | some value =>
      generalize ticks.filterMap _ = seen
      have last :
          [tick].filterMap
          (fun tick => (tick.readings.ofMetric metric).map fun value => (tick.ts, value))
          = [(tick.ts, value)] := by
        simp [read]
      rw [last, remember, show evidenceReadings = 4 + 1 from rfl, rtake_concat_succ]
      congr 1
      simp only [List.rtake, length_drop]
      split
      next full =>
        rw [drop_drop]
        congr 1
        omega
      next short =>
        rw [show seen.length - (4 + 1) = 0 by omega, show seen.length - 4 = 0 by omega]

omit [RuleFloat F] in
/-- The last readings do not depend on the minutes before them. -/
theorem recentOf_append {before ticks : List (Tick F)}
    (readable : ∀ tick ∈ ticks, (tick.readings.ofMetric metric).isSome)
    (long : before = [] ∨ evidenceReadings ≤ ticks.length) :
    recentOf metric (before ++ ticks) = recentOf metric ticks := by
  rcases long with rfl | long
  · rfl
  · have seen : (ticks.filterMap fun tick =>
        (tick.readings.ofMetric metric).map fun value => (tick.ts, value)).length
          = ticks.length := by
      rw [filterMap_length_eq_length]
      intro tick here
      rw [Option.isSome_map]
      exact readable tick here
    rw [recentOf_eq, recentOf_eq, filterMap_append, rtake_append (by omega)]

variable (dress : Dress F)

/-- Scans in step find the same, but for evidence that reaches back before the later one
began. -/
theorem foundAt_later (accepts : plan.Accepts rule cs) (full : Full plan rows)
    (inStep : InStep rule (segment rows time 0 (j + k)) (segment rows time j k)) :
    (foundAt dress rows time plan j k).map EdgeAlert.withoutEvidence
        = (foundAt dress rows time plan 0 (j + k)).map EdgeAlert.withoutEvidence ∧
      (j = 0 ∨ evidenceReadings ≤ k + 1 →
        foundAt dress rows time plan j k = foundAt dress rows time plan 0 (j + k)) := by
  have after := inStep_later inStep 1
  have same := accepts.same
  subst same
  rw [foundAt, foundAt, inStep.fires, ← Nat.add_assoc] at *
  rw [after.fires, Nat.zero_add]
  split
  next reports =>
    cases row : rows (time (j + k)) with
    | none =>
      rw [segment_hole row] at reports
      cases reports
    | some readings =>
      have seen : ∀ tick ∈ segment rows time j (k + 1),
          (tick.readings.ofMetric plan.metric).isSome := by
        intro tick here
        obtain ⟨c, listed, named⟩ := accepts.metric
        rw [named]
        exact readable_segment accepts full tick here c listed
      obtain ⟨value, read⟩ := Option.isSome_iff_exists.mp
        (seen ⟨time (j + k), readings⟩ (by rw [segment_row row]; simp))
      have last : ∀ ticks : List (Tick F),
          (recentOf plan.metric (ticks ++ [⟨time (j + k), readings⟩])).getLast?
            = some (time (j + k), value) := by
        intro ticks
        rw [recentOf_concat, read]
        exact List.getLast?_concat
      constructor
      · simp only [map_cons, map_nil]
        rw [segment_row row, segment_row (by rwa [Nat.zero_add]), Nat.zero_add]
        simp only [findingOf, finding, summary, EdgeAlert.withoutEvidence, last]
      · intro long
        obtain ⟨before, later, all⟩ := segment_later rows time
        rw [Nat.add_assoc, later, recentOf_append seen]
        rcases all with none | length
        · exact .inl none
        · rcases long with rfl | long
          · left
            rw [Nat.zero_add] at later
            exact self_eq_append_left.mp later
          · exact .inr (by omega)
  · exact ⟨rfl, fun _ => rfl⟩

end Later

/-! ## Scans that are stopped -/

/-- A scan is stopped only where its rule is not firing, unless it has evaluated nothing yet
that the one before it had not. -/
def Scanning.CalmStops (s : Scanning F) (event : ScanEvent) : Prop :=
  event = .stop → s.scan.cursor = some s.scan.emitFrom ∨
    ∀ entry ∈ s.scan.evaluator.entries, entry.state ≠ .firing

instance (s : Scanning F) (event : ScanEvent) : Decidable (s.CalmStops event) :=
  inferInstanceAs (Decidable (_ → _))

section Stops

variable {rule : ThresholdRule F} {plan : RetroPlan F} {cs : List (Condition F)} {g : Grid}
  {h : MinuteHistory F} {budget : RetroBudget} {dress : Dress F} {α : Type} {view : EdgeAlert F → α}

/-- Findings that look the same whatever evidence they carry, or evidence that does not reach
back before the minutes read again. -/
def Shown (plan : RetroPlan F) (view : EdgeAlert F → α) : Prop :=
  (∃ of : EdgeAlert F → α, view = of ∘ EdgeAlert.withoutEvidence) ∨ 240 ≤ plan.lookbackSecs.toInt

variable (dress h g plan budget view) in
/-- A scan that began early enough, and has found so far what an uninterrupted scan finds. -/
structure Scanning.At (j k e : Nat) (s : Scanning F) :
    Prop extends s.Stands plan g h budget j k e where
  back : j = 0 ∨ plan.lookbackSecs.toInt + 60 * j ≤ 60 * e
  quiet : stateAfter plan.rule (segment (h.row plan.reads) g.time 0 e) ≠ .firing
  found : s.found.map view = ((List.range (max (j + k) e)).flatMap
    (foundAt dress (h.row plan.reads) g.time plan 0)).map view

theorem at_start : (Scanning.start plan budget).At plan g h budget dress view 0 0 0 :=
  ⟨stands_start, .inl rfl, nofun, rfl⟩

/-- Minutes up to a point, and those after it that count. -/
theorem flatMap_ahead {β : Type} (f : Nat → List β) (j k c e : Nat) :
    (List.range (max (j + k) e)).flatMap f
        ++ (List.range' k c).flatMap (fun i => if e ≤ j + i then f (j + i) else [])
      = (List.range (max (j + k + c) e)).flatMap f := by
  induction c with
  | zero => exact append_nil _
  | succ c ih =>
    rw [List.range'_concat, flatMap_append, ← append_assoc, ih, Nat.one_mul, flatMap_singleton,
      ← Nat.add_assoc]
    split
    next late =>
      rw [show max (j + k + (c + 1)) e = max (j + k + c) e + 1 by omega, range_succ, flatMap_append,
        flatMap_singleton, show max (j + k + c) e = j + k + c by omega]
    next early =>
      rw [append_nil, show max (j + k + (c + 1)) e = max (j + k + c) e by omega]

namespace Scanning.At

variable {j k e : Nat} {s : Scanning F}

theorem le (accepts : plan.Accepts rule cs) (here : s.At plan g h budget dress view j k e) :
    j ≤ e := by
  have pos := lookback_pos accepts
  rcases here.back with zero | back <;> omega

section

variable (accepts : plan.Accepts rule cs) (oriented : Oriented cs)
include accepts oriented

/-- From where it reports on, the scan is in step with an uninterrupted one. -/
theorem inStep (here : s.At plan g h budget dress view j k e) {i : Nat} (late : e ≤ j + i) :
    InStep rule (segment (h.row plan.reads) g.time 0 (j + i))
    (segment (h.row plan.reads) g.time j i) := by
  have le := here.le accepts
  have before := here.before
  obtain ⟨d, rfl⟩ : ∃ d, i = e - j + d := Nat.exists_eq_add_of_le (by omega)
  refine inStep_later (inStep_resumed accepts oriented (h.full_row plan) (by omega) ?_ ?_) d
  · exact here.back.imp_right fun back => by omega
  · rw [Nat.add_sub_cancel' le, ← accepts.same]
    exact here.quiet

/-- What a minute adds is what it adds to an uninterrupted scan's findings. -/
theorem foundAt_eq (shown : Shown plan view) (here : s.At plan g h budget dress view j k e)
    {i : Nat} (late : e ≤ j + i) :
    (foundAt dress (h.row plan.reads) g.time plan j i).map view
      = (foundAt dress (h.row plan.reads) g.time plan 0 (j + i)).map view := by
  obtain ⟨bare, whole⟩ :=
    foundAt_later dress accepts (h.full_row plan) (here.inStep accepts oriented late)
  rcases shown with ⟨of, rfl⟩ | long
  · rw [← map_map, bare, map_map]
  · rw [whole]
    rcases here.back with zero | back
    · exact .inl zero
    · have : evidenceReadings = 5 := rfl
      exact .inr (by omega)

theorem chunk (shown : Shown plan view) (fits : budget.chunkPoints * 60 < 2 ^ 63)
    (spans : historySpan h.reader plan.reads none = .ok (some (g.time 0, g.time (g.count - 1))))
    (here : s.At plan g h budget dress view j k e) (unfinished : s.finished = false) :
    ∃ s' c, s.act dress h.reader .chunk = some s' ∧
    s'.At plan g h budget dress view j (k + c) e := by
  obtain ⟨s', c, chunk, -, there, found⟩ := here.toStands.chunk dress fits spans unfinished
  refine ⟨s', c, chunk, there, here.back, here.quiet, ?_⟩
  have same : ∀ i ∈ List.range' k c,
      (if e ≤ j + i then foundAt dress (h.row plan.reads) g.time plan j i else []).map view
        = if e ≤ j + i then (foundAt dress (h.row plan.reads) g.time plan 0 (j + i)).map view
        else [] := by
    intro i _
    split
    next late => exact here.foundAt_eq accepts oriented shown late
    · rfl
  rw [found, map_append, here.found, map_flatMap, map_flatMap, map_flatMap,
    flatMap_congr same, flatMap_ahead, ← Nat.add_assoc]

/-- Where the scan has got to, the uninterrupted scan's rule is not firing. -/
theorem quiet_here (here : s.At plan g h budget dress view j k e) (calm : s.CalmStops .stop) :
    stateAfter plan.rule (segment (h.row plan.reads) g.time 0 (max (j + k) e)) ≠ .firing := by
  rcases Nat.lt_or_ge e (j + k) with past | still
  · rw [max_eq_left (Nat.le_of_lt past), stateAfter, accepts.same,
      (here.inStep accepts oriented (Nat.le_of_lt past)).run]
    have least : Int64.minValue.toInt = -2 ^ 63 := rfl
    have inside := here.inside
    rcases calm rfl with stuck | calm
    · -- The cursor is past where the scan reports from.
      exfalso
      rcases here.cursor with cursor | ⟨zero, -⟩
      · rw [cursor, max_eq_left (Nat.le_of_lt past), Option.some.injEq, ← Int64.toInt_inj,
          Grid.toInt_time_le] at stuck
        have whole := g.whole
        rcases here.emits with same | ⟨rfl, same⟩
        · rw [same, Grid.toInt_time (by omega)] at stuck
          omega
        · rw [same] at stuck
          omega
      · omega
    · refine calm _ ?_
      rw [here.tracks.evaluator, ← accepts.same]
      exact mem_singleton_self _
  · rw [max_eq_right still]
    exact here.quiet

theorem stop (here : s.At plan g h budget dress view j k e) (calm : s.CalmStops .stop) :
    ∃ j', Scanning.At plan g h budget dress view j' 0 (max (j + k) e)
      ⟨.resume s.scan.plan s.scan.budget s.scan.cursor, s.found, false⟩ := by
  obtain ⟨j', there, le, back⟩ := here.toStands.stop accepts
  refine ⟨j', there, back, here.quiet_here accepts oriented calm, ?_⟩
  rw [Nat.add_zero, max_eq_right le]
  exact here.found

end

theorem found_of_finished (here : s.At plan g h budget dress view j k e) (finished : s.finished) :
    s.found.map view
      = ((List.range g.count).flatMap (foundAt dress (h.row plan.reads) g.time plan 0)).map
      view := by
  have before := here.before
  have found := here.found
  rwa [here.done finished, max_eq_left before] at found

end Scanning.At

theorem reached_at (accepts : plan.Accepts rule cs) (oriented : Oriented cs)
    (shown : Shown plan view) (fits : budget.chunkPoints * 60 < 2 ^ 63)
    (spans : historySpan h.reader plan.reads none = .ok (some (g.time 0, g.time (g.count - 1))))
    {s : Scanning F}
    (reached : Runs (Scanning.act dress h.reader) Scanning.CalmStops (.start plan budget) s) :
    ∃ j k e, s.At plan g h budget dress view j k e := by
  refine reached.invariant (I := fun s => ∃ j k e, s.At plan g h budget dress view j k e)
    ⟨0, 0, 0, at_start⟩ ?_
  rintro s event s' calm acts ⟨j, k, e, here⟩
  cases event with
  | chunk =>
    cases finished : s.finished with
    | true =>
      rw [Scanning.act, finished] at acts
      cases acts
    | false =>
      obtain ⟨after, c, chunk, there⟩ := here.chunk accepts oriented shown fits spans finished
      rw [acts, Option.some.injEq] at chunk
      subst chunk
      exact ⟨j, k + c, e, there⟩
  | stop =>
    obtain ⟨j', there⟩ := here.stop accepts oriented calm
    cases acts
    exact ⟨j', 0, _, there⟩

end Stops

/-- Stopping a scan of an accepted rule costs nothing where it is stopped while its rule is
not firing, if no value both breaches and has recovered: every scan comes to its end, and has
found then, in the same order, what an uninterrupted scan finds.  Their evidence is the same
too where the minutes read again hold as many readings as it. -/
theorem stopped_scan_finds_same (dress : Dress F) (h : MinuteHistory F) {rule : ThresholdRule F}
    {plan : RetroPlan F} {budget : RetroBudget} (accepted : RetroPlan.forRule rule = .ok plan)
    (oriented : ∀ cs, buildConditions rule = some cs → Oriented cs)
    (fits : budget.chunkPoints * 60 < 2 ^ 63) :
    ∃ whole, Runs (Scanning.act dress h.reader) Scanning.Uninterrupted (.start plan budget) whole ∧
      whole.finished = true ∧
      ∀ s, Runs (Scanning.act dress h.reader) Scanning.CalmStops (.start plan budget) s →
        (∃ ended, Runs (Scanning.act dress h.reader) Scanning.Uninterrupted s ended ∧
          ended.finished = true) ∧
        (s.finished = true →
          s.found.map EdgeAlert.withoutEvidence = whole.found.map EdgeAlert.withoutEvidence ∧
          (240 ≤ plan.lookbackSecs.toInt → s.found = whole.found)) := by
  obtain ⟨cs, accepts⟩ := accepts_of_forRule accepted
  have oriented := oriented cs accepts.conditions.built
  have calm : ∀ (s : Scanning F) event, s.Uninterrupted event → s.CalmStops event := by
    rintro s event rfl
    nofun
  rcases h.historySpan_cases plan.reads with none | ⟨g, spans⟩
  · refine ⟨⟨.new plan budget, [], true⟩, .step .chunk .start rfl (act_chunk_empty rfl none rfl),
      rfl, ?_⟩
    intro s reached
    obtain ⟨same, nothing⟩ := reached_empty none reached
    refine ⟨?_, fun _ => by rw [nothing]; exact ⟨rfl, fun _ => rfl⟩⟩
    cases finished : s.finished with
    | true => exact ⟨s, .start, finished⟩
    | false => exact ⟨_, .step .chunk .start rfl (act_chunk_empty same none finished), rfl⟩
  · have bare : Shown plan (EdgeAlert.withoutEvidence : EdgeAlert F → EdgeAlert F) := .inl ⟨id, rfl⟩
    have begun : (Scanning.start plan budget).Stands plan g h budget 0 0 0 := stands_start
    obtain ⟨whole, runs, done⟩ := begun.finish dress fits spans
    refine ⟨whole, runs, done, ?_⟩
    intro s reached
    obtain ⟨j, k, e, here⟩ := reached_at accepts oriented bare fits spans reached
    refine ⟨here.finish dress fits spans, fun finished => ⟨?_, fun long => ?_⟩⟩
    · obtain ⟨_, _, _, there⟩ := reached_at accepts oriented bare fits spans (runs.mono calm)
      rw [here.found_of_finished finished, there.found_of_finished done]
    · have full : Shown plan (id : EdgeAlert F → EdgeAlert F) := .inr long
      obtain ⟨_, _, _, here⟩ := reached_at accepts oriented full fits spans reached
      obtain ⟨_, _, _, there⟩ := reached_at accepts oriented full fits spans (runs.mono calm)
      rw [← map_id s.found, here.found_of_finished finished, ← there.found_of_finished done, map_id]

/-! ## A busy processor -/

/-- A plan that reads processor load alone. -/
def busyPlan (sustainSecs : UInt32) (stat : BucketStat) (lookbackSecs : Int64) : RetroPlan Int64 :=
  ⟨busyRule sustainSecs [], [(0, stat)], "cpu.total", lookbackSecs⟩

theorem busyRule_oriented (sustainSecs : UInt32) :
    ∀ cs, buildConditions (busyRule sustainSecs []) = some cs → Oriented cs := by
  intro cs built
  cases (show buildConditions (busyRule sustainSecs [])
    = some [⟨"cpu.total", .gt, 90, 50, .instant, 0, []⟩] from rfl).symm.trans built
  exact oriented_of_levelled (forall_mem_singleton.mpr (by decide))

def loadMinute (minute load : Int64) : RetroBucket Int64 := ⟨minute, load, load, load, load⟩

def loadHistory (minutes : List (RetroBucket Int64))
    (ascending : minutes.Pairwise fun a b => a.bucket < b.bucket)
    (aligned : ∀ p ∈ minutes, p.bucket.toInt % 60 = 0) : MinuteHistory Int64 where
  points x := if x = 0 then minutes else []
  ascending x := by
    split
    · exact ascending
    · exact .nil
  aligned x := by
    split
    · exact aligned
    · exact nofun

/-- Two episodes of four minutes, a calm one between them. -/
def twiceBusy : MinuteHistory Int64 :=
  loadHistory
    [loadMinute 0 95, loadMinute 60 95, loadMinute 120 95, loadMinute 180 95, loadMinute 240 40,
      loadMinute 300 95, loadMinute 360 95, loadMinute 420 95, loadMinute 480 95] (by decide)
        (by decide)

theorem stopped_scan_finds_same_twice :
    RetroPlan.forRule (busyRule 180 []) = .ok (busyPlan 180 .min 240) ∧
      (followEvents (Scanning.act plain twiceBusy.reader) Scanning.CalmStops
        [.chunk, .chunk, .stop, .chunk, .chunk, .chunk, .chunk, .chunk, .stop, .chunk, .chunk,
          .chunk, .chunk, .chunk, .chunk, .chunk, .chunk]
        (.start (busyPlan 180 .min 240) ⟨1⟩)).any
        (fun s => s.finished && s.found.length == 2) = true ∧
      ∃ whole, Runs (Scanning.act plain twiceBusy.reader) Scanning.Uninterrupted
          (.start (busyPlan 180 .min 240) ⟨1⟩) whole ∧
        whole.finished = true ∧
        ∀ s, Runs (Scanning.act plain twiceBusy.reader) Scanning.CalmStops
            (.start (busyPlan 180 .min 240) ⟨1⟩) s →
          (∃ ended, Runs (Scanning.act plain twiceBusy.reader) Scanning.Uninterrupted s ended ∧
            ended.finished = true) ∧
          (s.finished = true →
            s.found.map EdgeAlert.withoutEvidence = whole.found.map EdgeAlert.withoutEvidence ∧
            (240 ≤ (busyPlan 180 .min 240).lookbackSecs.toInt → s.found = whole.found)) :=
  ⟨rfl, by decide +kernel, stopped_scan_finds_same plain twiceBusy
      (show RetroPlan.forRule (busyRule 180 []) = .ok (busyPlan 180 .min 240) from rfl)
      (busyRule_oriented 180) (by decide)⟩

def stillBusy : MinuteHistory Int64 :=
  loadHistory [loadMinute 0 95, loadMinute 60 70, loadMinute 120 70, loadMinute 180 95] (by decide)
    (by decide)

/-- One episode, and a scan stopped within it: the rule stays firing at a load of 70, but one
begun again at such a minute is not firing there, and reports the next breach. -/
theorem stop_while_firing_repeats :
    RetroPlan.forRule (busyRule 0 []) = .ok (busyPlan 0 .max 60) ∧
      (∃ whole, Runs (Scanning.act plain stillBusy.reader) Scanning.Uninterrupted
          (.start (busyPlan 0 .max 60) ⟨1⟩) whole ∧
        whole.finished = true ∧ whole.found.map (·.tsMicros) = [0]) ∧
      ∃ pieces, Runs (Scanning.act plain stillBusy.reader) (fun _ _ => True)
          (.start (busyPlan 0 .max 60) ⟨1⟩) pieces ∧
        pieces.finished = true ∧ pieces.found.map (·.tsMicros) = [0, 180000000] := by
  refine ⟨rfl, ?_, ?_⟩
  · exact exists_run_of_follow [.chunk, .chunk, .chunk, .chunk] (by decide +kernel)
  · exact exists_run_of_follow [.chunk, .chunk, .chunk, .stop, .chunk, .chunk] (by decide +kernel)

end OpenGate.Alerts
