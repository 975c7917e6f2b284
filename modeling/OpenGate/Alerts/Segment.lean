import OpenGate.Alerts.Budget

/-!
# A rule over consecutive minutes

What a rule carries after minutes that follow each other without a hole: every window holds
the last readings that reach back over it, so it is the same wherever the minutes began,
once they began early enough, and a rule decides nothing before that.

The state of the rule is not: it may have been firing since before the minutes began.  A
rule begun later lags behind (`Lags`), and where the other is not firing it has caught up
(`stateAfter_eq_of_not_firing`).
-/

namespace OpenGate.Alerts

open OpenGate.Lib OpenGate.Tsdb OpenGate.Backfill List
open Int64 (minValue ofNat)

variable {F : Type}

def Spaced (first : Int) (readings : List (Int64 × F)) : Prop :=
  ∀ (i : Nat) (reading : Int64 × F), readings[i]? = some reading → reading.1.toInt = first + 60 * i

def Minutely (first : Int) (ticks : List (Tick F)) : Prop :=
  ∀ (i : Nat) (tick : Tick F), ticks[i]? = some tick → tick.ts.toInt = first + 60 * i

variable {ticks : List (Tick F)}

theorem Minutely.left {first : Int} {later : List (Tick F)}
    (minutely : Minutely first (ticks ++ later)) : Minutely first ticks := by
  intro i tick here
  refine minutely i tick ?_
  rw [List.getElem?_append_left (List.getElem?_eq_some_iff.mp here).1]
  exact here

theorem Minutely.right {first : Int} {earlier : List (Tick F)}
    (minutely : Minutely first (earlier ++ ticks)) :
    Minutely (first + 60 * earlier.length) ticks := by
  intro i tick here
  have moved := minutely (earlier.length + i) tick
    (by rw [List.getElem?_append_right (Nat.le_add_right ..), Nat.add_sub_cancel_left]; exact here)
  push_cast at moved
  omega

theorem Minutely.last {first : Int} {tick : Tick F} (minutely : Minutely first (ticks ++ [tick])) :
    tick.ts.toInt = first + 60 * ticks.length :=
  minutely ticks.length tick List.getElem?_concat_length

/-! ## What a window holds -/

def reach (c : Condition F) : Nat := c.windowSecs.toNat / 60 + 1

theorem dropWhile_of_head {α : Type} {p : α → Bool} {l : List α}
    (stays : ∀ a ∈ l.head?, p a = false) : l.dropWhile p = l := by
  cases l with
  | nil => rfl
  | cons a l => exact dropWhile_cons_of_neg (by simp [stays a rfl])

theorem head?_rtake_concat {α : Type} (l : List α) (n : Nat) (x : α) :
    (l.rtake n ++ [x]).head? = some (l[l.length - n]?.getD x) := by
  rw [rtake, List.head?_append, List.head?_drop]
  cases l[l.length - n]? with
  | none | some y => rfl

/-- A window keeps the last readings that reach back over it. -/
theorem Condition.history_retain {c : Condition F} {first : Int} {readings : List (Int64 × F)}
    {ts : Int64} {v : F} (spaced : Spaced first (readings ++ [(ts, v)]))
    (held : c.history = readings.rtake (reach c)) (short : c.windowSecs.toNat ≤ 900)
    (windowed : c.predicate ≠ .instant) :
    (c.retain ts v).history = (readings ++ [(ts, v)]).rtake (reach c) := by
  have now : ts.toInt = first + 60 * readings.length :=
    spaced readings.length (ts, v) List.getElem?_concat_length
  have window : (ofNat c.windowSecs.toNat).toInt = c.windowSecs.toNat := toInt_ofNat_toNat _
  have old : ∀ reading : Int64 × F,
      decide (reading.1 < saturatingSub ts (ofNat c.windowSecs.toNat)) ↔
        reading.1.toInt < ts.toInt - c.windowSecs.toNat := by
    intro reading
    rw [decide_eq_true_iff, lt_saturatingSub_iff (by omega), window]
  have reaches : reach c = c.windowSecs.toNat / 60 + 1 := rfl
  -- What the window reaches back to stays.
  have stays : ((readings.rtake (reach c - 1) ++ [(ts, v)]).dropWhile fun reading =>
      decide (reading.1 < saturatingSub ts (ofNat c.windowSecs.toNat)))
      = readings.rtake (reach c - 1) ++ [(ts, v)] := by
    refine dropWhile_of_head fun reading here => ?_
    rw [head?_rtake_concat, Option.mem_some_iff] at here
    rw [← Bool.not_eq_true, old]
    cases inside : readings[readings.length - (reach c - 1)]? with
    | none =>
      rw [inside, Option.getD_none] at here
      rw [← here]
      dsimp only
      omega
    | some earlier =>
      rw [inside, Option.getD_some] at here
      subst here
      obtain ⟨bound, -⟩ := List.getElem?_eq_some_iff.mp inside
      have time := spaced (readings.length - (reach c - 1)) earlier
        (by rw [List.getElem?_append_left bound]; exact inside)
      omega
  have kept : ((readings.rtake (reach c) ++ [(ts, v)]).dropWhile fun reading =>
      decide (reading.1 < saturatingSub ts (ofNat c.windowSecs.toNat)))
      = readings.rtake (reach c - 1) ++ [(ts, v)] := by
    rcases Nat.lt_or_ge (reach c - 1) readings.length with long | fits
    · -- One reading more than the window reaches back to is dropped.
      have bound : readings.length - reach c < readings.length := by omega
      have cons : readings.rtake (reach c)
          = readings[readings.length - reach c] :: readings.rtake (reach c - 1) := by
        rw [rtake, drop_eq_getElem_cons bound, rtake,
          show readings.length - reach c + 1 = readings.length - (reach c - 1) by omega]
      have time := spaced (readings.length - reach c) readings[readings.length - reach c]
        (by rw [List.getElem?_append_left bound, List.getElem?_eq_getElem bound])
      have dropped := (old readings[readings.length - reach c]).mpr (by omega)
      rw [cons, cons_append, dropWhile_cons, if_pos dropped, stays]
    · have whole : readings.rtake (reach c) = readings.rtake (reach c - 1) := by
        rw [rtake, rtake, show readings.length - reach c = 0 by omega,
          show readings.length - (reach c - 1) = 0 by omega]
      rw [whole, stays]
  have few : (readings.rtake (reach c - 1) ++ [(ts, v)]).length
      ≤ predicateCost c.predicate c.windowSecs := by
    rw [length_append, rtake, length_drop, length_singleton]
    cases kind : c.predicate with
    | instant => exact absurd kind windowed
    | rate | windowMax | windowMean =>
      simp only [predicateCost]
      omega
  show (((c.history ++ [(ts, v)]).dropWhile fun reading =>
    decide (reading.1 < saturatingSub ts (ofNat c.windowSecs.toNat))).drop _) = _
  rw [held, kept, Nat.sub_eq_zero_of_le few, drop_zero, reaches, rtake_concat_succ]
  rfl

theorem rtake_append {α : Type} {n : Nat} {l l' : List α} (long : n ≤ l'.length) :
    (l ++ l').rtake n = l'.rtake n := by
  have rest : l.length + l'.length - n - l.length = l'.length - n := by omega
  rw [rtake, rtake, length_append, drop_append, rest,
    drop_of_length_le (by omega), nil_append]

variable [RuleFloat F]

namespace Condition

def seen (c : Condition F) (ticks : List (Tick F)) : List (Int64 × F) :=
  ticks.map fun tick => (tick.ts, (tick.readings.ofMetric c.metric).getD Float64.zero)

def holding (c : Condition F) (ticks : List (Tick F)) : Condition F :=
  { c with history := if c.predicate = .instant then [] else (c.seen ticks).rtake (reach c) }

def answer (c : Condition F) (ticks : List (Tick F)) : Reading F × Nat :=
  if c.predicate = .instant then
    (.value ((c.seen ticks).getLast?.elim Float64.zero (·.2)), 1)
  else
    match (c.holding ticks).spannedWindow with
    | none => (.notEnoughData, 1)
    | some window => (.value (derive c.predicate window), 1 + deriveCost c.predicate window.length)

structure Declared (c : Condition F) : Prop where
  fresh : c.history = []
  expressible : windowIsExpressible c.predicate c.windowSecs = true

variable {c : Condition F} {ticks earlier : List (Tick F)} {tick : Tick F} {first : Int}

omit [RuleFloat F] in
theorem Declared.short (declared : c.Declared) : c.windowSecs.toNat ≤ 900 :=
  toNat_le_of_expressible declared.expressible

theorem holding_nil (declared : c.Declared) : c.holding [] = c := by
  have empty : (c.holding []).history = c.history := by
    rw [declared.fresh]
    simp [holding, seen]
  cases c
  exact congrArg _ empty

@[simp] theorem length_seen : (c.seen ticks).length = ticks.length := length_map _

theorem seen_concat {v : F} (read : tick.readings.ofMetric c.metric = some v) :
    c.seen (ticks ++ [tick]) = c.seen ticks ++ [(tick.ts, v)] := by
  rw [seen, map_append, map_singleton, read]
  rfl

theorem spaced_seen (minutely : Minutely first ticks) : Spaced first (c.seen ticks) := by
  intro i reading here
  rw [seen, List.getElem?_map, Option.map_eq_some_iff] at here
  obtain ⟨tick, here, rfl⟩ := here
  exact minutely i tick here

/-- A minute that has a reading of the metric. -/
theorem step_holding {v : F} (declared : c.Declared) (minutely : Minutely first (ticks ++ [tick]))
    (read : tick.readings.ofMetric c.metric = some v) :
    (c.holding ticks).step tick.readings tick.ts
      = (c.holding (ticks ++ [tick]), c.answer (ticks ++ [tick])) := by
  have same : (c.holding ticks).metric = c.metric := rfl
  rw [step, same, read]
  dsimp only
  by_cases kind : c.predicate = .instant
  · rw [if_pos (show (c.holding ticks).predicate = .instant from kind), answer, if_pos kind,
      seen_concat read]
    simp [holding, kind]
  · have kept : (c.holding ticks).retain tick.ts v = c.holding (ticks ++ [tick]) := by
      have held : (c.holding ticks).history = (c.seen ticks).rtake (reach c) := if_neg kind
      have spaced : Spaced first (c.seen ticks ++ [(tick.ts, v)]) := by
        rw [← seen_concat read]
        exact spaced_seen minutely
      have history : ((c.holding ticks).retain tick.ts v).history
          = (c.seen (ticks ++ [tick])).rtake (reach c) := by
        rw [seen_concat read]
        exact history_retain spaced held declared.short kind
      have shape : (c.holding ticks).retain tick.ts v
          = { c with history := ((c.holding ticks).retain tick.ts v).history } := rfl
      rw [shape, history]
      simp only [holding, if_neg kind]
    rw [if_neg (show ¬ (c.holding ticks).predicate = .instant from kind), kept, answer, if_neg kind]
    cases (c.holding (ticks ++ [tick])).spannedWindow with
    | none | some window => rfl

/-- Once the minutes reach back over the window, what came before does not matter. -/
theorem holding_append (long : reach c ≤ ticks.length) :
    c.holding (earlier ++ ticks) = c.holding ticks := by
  have enough : reach c ≤ (c.seen ticks).length := by rwa [length_seen]
  rw [holding, holding, seen, map_append]
  rw [show ((ticks.map _ : List (Int64 × F))) = c.seen ticks from rfl, rtake_append enough]

theorem answer_append (long : reach c ≤ ticks.length) :
    c.answer (earlier ++ ticks) = c.answer ticks := by
  have some : c.seen ticks ≠ [] := by
    intro none
    have := congrArg List.length none
    rw [length_seen, length_nil] at this
    rw [reach] at long
    omega
  have last : (c.seen (earlier ++ ticks)).getLast? = (c.seen ticks).getLast? := by
    rw [seen, map_append]
    exact List.getLast?_append_of_ne_nil _ some
  rw [answer, answer, holding_append long, last]

/-- The time from the oldest reading held to the newest. -/
theorem spannedWindow_holding (windowed : c.predicate ≠ .instant)
    (minutely : Minutely first ticks) (some : ticks ≠ []) :
    (c.holding ticks).spannedWindow.isSome ↔
      reach c ≤ ticks.length ∧ c.windowSecs.toNat % 60 = 0 := by
  have held : (c.holding ticks).history = (c.seen ticks).rtake (reach c) := if_neg windowed
  have positive : 0 < ticks.length := length_pos_iff.mpr some
  have reaches : reach c = c.windowSecs.toNat / 60 + 1 := rfl
  have length : (c.seen ticks).length = ticks.length := length_seen
  have bound : ticks.length - reach c < (c.seen ticks).length := by omega
  have oldest : ((c.seen ticks).rtake (reach c)).head?
      = (c.seen ticks)[ticks.length - reach c]? := by
    rw [rtake, List.head?_drop, length]
  have newest : ((c.seen ticks).rtake (reach c)).getLast? = (c.seen ticks)[ticks.length - 1]? := by
    rw [rtake, List.getLast?_drop, if_neg (by omega), List.getLast?_eq_getElem?, length]
  have last : ticks.length - 1 < (c.seen ticks).length := by omega
  have spaced := spaced_seen (c := c) minutely
  have oldTime := spaced _ _ (List.getElem?_eq_getElem bound)
  have newTime := spaced _ _ (List.getElem?_eq_getElem last)
  have window : (ofNat c.windowSecs.toNat).toInt = c.windowSecs.toNat := toInt_ofNat_toNat _
  have nonneg : ofNat c.windowSecs.toNat ≠ minValue := by
    intro least
    rw [least] at window
    have : Int64.minValue.toInt = -2 ^ 63 := rfl
    omega
  rw [spannedWindow, held, oldest, newest, List.getElem?_eq_getElem bound,
    List.getElem?_eq_getElem last]
  simp only [Option.bind_eq_bind, Option.bind_some]
  have spans : ofNat (c.holding ticks).windowSecs.toNat
      ≤ saturatingSub (c.seen ticks)[ticks.length - 1].1 (c.seen ticks)[ticks.length - reach c].1 ↔
        reach c ≤ ticks.length ∧ c.windowSecs.toNat % 60 = 0 := by
    show ofNat c.windowSecs.toNat ≤ _ ↔ _
    rw [le_saturatingSub_iff, window, or_iff_left nonneg, oldTime, newTime]
    omega
  split
  next wide => simp [spans.mp wide]
  next narrow =>
    simp only [Option.isSome_none, Bool.false_eq_true, false_iff]
    exact fun enough => narrow (spans.mpr enough)

/-- A condition has a value once the minutes reach back over its window. -/
theorem isSome_answer (declared : c.Declared) (minutely : Minutely first ticks)
    (some : ticks ≠ []) : (c.answer ticks).1.value?.isSome ↔
      reach c ≤ ticks.length ∧ c.windowSecs.toNat % 60 = 0 := by
  by_cases kind : c.predicate = .instant
  · have none : c.windowSecs = 0 := by
      have expressible := declared.expressible
      rwa [kind, windowIsExpressible_instant] at expressible
    have positive : 0 < ticks.length := length_pos_iff.mpr some
    rw [answer, if_pos kind, reach, none]
    simp only [Reading.value?, Option.isSome_some, true_iff]
    exact ⟨positive, rfl⟩
  · rw [← spannedWindow_holding kind minutely some, answer, if_neg kind]
    cases (c.holding ticks).spannedWindow with
    | none | some window => rfl

theorem isUnsupported_answer : (c.answer ticks).1.isUnsupported = false := by
  rw [answer]
  split
  · rfl
  · split <;> rfl

theorem cost_answer_le (declared : c.Declared) : (c.answer ticks).2 ≤ 17 := by
  have short := declared.short
  rw [answer]
  split
  · exact Nat.le_of_ble_eq_true rfl
  · split
    · exact Nat.le_of_ble_eq_true rfl
    · next windowed _ window spanned =>
      have held : window = (c.seen ticks).rtake (reach c) :=
        (spannedWindow_eq spanned).trans (if_neg windowed)
      have few : window.length ≤ 16 := by
        rw [held, rtake, length_drop, reach]
        omega
      cases c.predicate <;> simp only [deriveCost] <;> omega

end Condition

/-! ## A rule after consecutive minutes -/

section Entry

variable {rule : ThresholdRule F} {cs : List (Condition F)} {ticks : List (Tick F)} {tick : Tick F}
  {first : Int} {values : List F} {state : RuleState}

structure Conditions (rule : ThresholdRule F) (cs : List (Condition F)) : Prop where
  built : buildConditions rule = some cs
  declared : ∀ c ∈ cs, c.Declared
  few : cs.length ≤ 5
  some : cs ≠ []

def Readable (cs : List (Condition F)) (tick : Tick F) : Prop :=
  ∀ c ∈ cs, (tick.readings.ofMetric c.metric).isSome = true

def valuesAfter (cs : List (Condition F)) (ticks : List (Tick F)) : Option (List F) :=
  (cs.map fun c => (c.answer ticks).1).mapM Reading.value?

def allBreach (cs : List (Condition F)) (values : List F) : Bool :=
  (cs.zip values).all fun p => p.1.breaching p.2

def anyCleared (cs : List (Condition F)) (values : List F) : Bool :=
  (cs.zip values).any fun p => p.1.cleared p.2

/-- The state after a minute: undecided minutes leave it. -/
def nextState (rule : ThresholdRule F) (cs : List (Condition F)) (state : RuleState)
    (ticks : List (Tick F)) (ts : Int64) : RuleState :=
  (valuesAfter cs ticks).elim state fun values =>
    advance state rule.sustainSecs (allBreach cs values) (anyCleared cs values) ts

/-- What the last minute was charged; every minute opens a new span. -/
def budgetAfter (cs : List (Condition F)) (ticks : List (Tick F)) : RuleBudget :=
  ticks.getLast?.elim .new fun tick =>
    ⟨some tick.ts, saturatingAdd 0 (workOf (cs.map fun c => (c.holding ticks, c.answer ticks))),
      false⟩

def carried (rule : ThresholdRule F) (cs : List (Condition F)) (ticks : List (Tick F))
    (state : RuleState) : RuleEntry F :=
  ⟨rule, state, some (cs.map (·.holding ticks)), .active, budgetAfter cs ticks⟩

theorem carried_nil (conditions : Conditions rule cs) : carried rule cs [] .clear = .new rule := by
  have fresh : cs.map (·.holding []) = cs := by
    conv_rhs => rw [← map_id cs]
    exact map_congr_left fun c here => Condition.holding_nil (conditions.declared c here)
  rw [carried, fresh, RuleEntry.new, conditions.built]
  rfl

theorem work_le (conditions : Conditions rule cs) (ticks : List (Tick F)) :
    saturatingAdd 0 (workOf (cs.map fun c => (c.holding ticks, c.answer ticks))) ≤ 85 := by
  have each : ∀ cost ∈ (cs.map fun c => (c.holding ticks, c.answer ticks)).map (·.2.2),
      cost ≤ 17 := by
    rw [map_map, forall_mem_map]
    exact fun c here => Condition.cost_answer_le (conditions.declared c here)
  have total := sum_le_card_nsmul _ 17 each
  have few := conditions.few
  rw [length_map, length_map, smul_eq_mul] at total
  rw [workOf_eq, saturatingAdd]
  omega

theorem charge_budgetAfter (conditions : Conditions rule cs)
    (minutely : Minutely first (ticks ++ [tick])) : (budgetAfter cs ticks).charge tick.ts
        (workOf (cs.map fun c => (c.holding (ticks ++ [tick]), c.answer (ticks ++ [tick]))))
      = budgetAfter cs (ticks ++ [tick]) := by
  have outside : (budgetAfter cs ticks).within tick.ts = false := by
    rcases eq_nil_or_concat ticks with rfl | ⟨earlier, last, rfl⟩
    · rfl
    · rw [concat_eq_append] at minutely ⊢
      have now := minutely.last
      have before := minutely.left.last
      rw [length_append, length_singleton] at now
      push_cast at now
      have here : (budgetAfter cs (earlier ++ [last])).windowStart = some last.ts := by
        rw [budgetAfter, List.getLast?_concat]
        rfl
      rw [Bool.eq_false_iff, Ne, RuleBudget.within_iff here (by omega)]
      omega
  have running : (budgetAfter cs ticks).throttled = false := by
    rw [budgetAfter]
    cases ticks.getLast? <;> rfl
  have affordable := work_le conditions (ticks ++ [tick])
  have unspent : ¬ ruleBudgetPerWindow
      < saturatingAdd 0
      (workOf (cs.map fun c => (c.holding (ticks ++ [tick]), c.answer (ticks ++ [tick])))) := by
    rw [ruleBudgetPerWindow, ruleBudgetReadingsPerSec]
    omega
  rw [RuleBudget.charge_outside outside, running, decide_eq_false unspent, budgetAfter,
    List.getLast?_concat]
  rfl

theorem length_valuesAfter (decided : valuesAfter cs ticks = some values) :
    values.length = cs.length := by
  have pairs := (mapM_eq_some_iff.mp decided).length_eq
  rw [length_map] at pairs
  exact pairs.symm

/-- One more minute: the entry of one more minute; it reports while it fires. -/
theorem step_carried (conditions : Conditions rule cs) (minutely : Minutely first (ticks ++ [tick]))
    (readable : Readable cs tick) :
    ∃ reported, (carried rule cs ticks state).step tick.readings tick.ts
        = (carried rule cs (ticks ++ [tick]) (nextState rule cs state (ticks ++ [tick]) tick.ts),
          reported) ∧
      (reported.isSome = true ↔ (valuesAfter cs (ticks ++ [tick])).isSome ∧
        nextState rule cs state (ticks ++ [tick]) tick.ts = .firing) := by
  have stepped : (cs.map (·.holding ticks)).map (·.step tick.readings tick.ts)
      = cs.map fun c => (c.holding (ticks ++ [tick]), c.answer (ticks ++ [tick])) := by
    rw [map_map]
    refine map_congr_left fun c here => ?_
    obtain ⟨v, read⟩ := Option.isSome_iff_exists.mp (readable c here)
    exact Condition.step_holding (conditions.declared c here) minutely read
  have running : (carried rule cs ticks state).budget.throttled = false := by
    rw [carried, budgetAfter]
    cases ticks.getLast? <;> rfl
  have charged := charge_budgetAfter conditions minutely
  have unspent : (budgetAfter cs (ticks ++ [tick])).throttled = false := by
    rw [budgetAfter, List.getLast?_concat]
    rfl
  have supported : ((cs.map fun c => (c.holding (ticks ++ [tick]), c.answer (ticks ++ [tick]))).map
      (·.2.1)).any Reading.isUnsupported = false := by
    rw [map_map, any_map, any_eq_false]
    intro c here
    simp [Condition.isUnsupported_answer]
  rw [RuleEntry.step, running, if_neg Bool.false_ne_true]
  simp only [carried, stepped, charged, unspent, supported, Bool.false_eq_true, if_false]
  simp only [map_map, Function.comp_def, nextState]
  rw [show (cs.map fun c => (c.answer (ticks ++ [tick])).1).mapM Reading.value?
    = valuesAfter cs (ticks ++ [tick]) from rfl]
  cases decided : valuesAfter cs (ticks ++ [tick]) with
  | none => exact ⟨none, rfl, by simp⟩
  | some values =>
    obtain ⟨value, others, rfl⟩ : ∃ value others, values = value :: others := by
      refine exists_cons_of_ne_nil fun empty => conditions.some ?_
      have same := length_valuesAfter decided
      rw [empty, length_nil] at same
      exact eq_nil_of_length_eq_zero same.symm
    have breaches : ((cs.map (·.holding (ticks ++ [tick]))).zip (value :: others)).all
        (fun p => p.1.breaching p.2) = allBreach cs (value :: others) := by
      rw [zip_map_left, all_map]
      rfl
    have clears : ((cs.map (·.holding (ticks ++ [tick]))).zip (value :: others)).any
        (fun p => p.1.cleared p.2) = anyCleared cs (value :: others) := by
      rw [zip_map_left, any_map]
      rfl
    simp only [RuleEntry.decided, breaches, clears, Option.elim_some]
    split
    next quiet => exact ⟨none, rfl, by simpa using quiet⟩
    next fires => exact ⟨_, rfl, by simpa using fires⟩

def stateAfter (rule : ThresholdRule F) (ticks : List (Tick F)) : RuleState :=
  ((RuleEntry.new rule).run ticks).state

theorem run_concat (entry : RuleEntry F) :
    entry.run (ticks ++ [tick]) = ((entry.run ticks).step tick.readings tick.ts).1 := by
  rw [RuleEntry.run, foldl_append]
  rfl

/-- A rule after consecutive minutes, each with a reading for every condition. -/
theorem run_eq_carried (conditions : Conditions rule cs) (minutely : Minutely first ticks)
    (readable : ∀ tick ∈ ticks, Readable cs tick) :
    (RuleEntry.new rule).run ticks = carried rule cs ticks (stateAfter rule ticks) := by
  induction ticks using reverseRecOn with
  | nil => exact (carried_nil conditions).symm
  | append_singleton ticks tick ih =>
    have before := ih minutely.left fun t here => readable t (mem_append_left _ here)
    obtain ⟨reported, stepped, -⟩ := step_carried conditions minutely
      (readable tick (mem_append_right _ mem_cons_self))
    rw [stateAfter, run_concat, before, stepped]
    rfl

theorem stateAfter_concat (conditions : Conditions rule cs)
    (minutely : Minutely first (ticks ++ [tick]))
    (readable : ∀ t ∈ ticks ++ [tick], Readable cs t) :
    stateAfter rule (ticks ++ [tick])
      = nextState rule cs (stateAfter rule ticks) (ticks ++ [tick]) tick.ts := by
  have before := run_eq_carried conditions minutely.left fun t here =>
    readable t (mem_append_left _ here)
  obtain ⟨reported, stepped, -⟩ := step_carried conditions minutely
    (readable tick (mem_append_right _ mem_cons_self))
  rw [stateAfter, run_concat, before, stepped]
  rfl

/-! ## When a rule decides -/

structure Widest (cs : List (Condition F)) (need : Nat) : Prop where
  le : ∀ c ∈ cs, reach c ≤ need
  attained : ∃ c ∈ cs, reach c = need

omit [RuleFloat F] in
theorem Widest.pos {need : Nat} (widest : Widest cs need) : 0 < need := by
  obtain ⟨c, -, rfl⟩ := widest.attained
  exact Nat.succ_pos _

theorem isSome_valuesAfter (conditions : Conditions rule cs) (minutely : Minutely first ticks)
    (some : ticks ≠ []) :
    (valuesAfter cs ticks).isSome ↔
      ∀ c ∈ cs, reach c ≤ ticks.length ∧ c.windowSecs.toNat % 60 = 0 := by
  rw [valuesAfter, isSome_mapM_iff, forall_mem_map]
  exact forall₂_congr fun c here =>
    Condition.isSome_answer (conditions.declared c here) minutely some

/-- Once the minutes reach back over every window, what came before does not matter. -/
theorem valuesAfter_append {need : Nat} {earlier : List (Tick F)} (widest : Widest cs need)
    (long : need ≤ ticks.length) : valuesAfter cs (earlier ++ ticks) = valuesAfter cs ticks := by
  have same : (cs.map fun c => (c.answer (earlier ++ ticks)).1)
      = cs.map fun c => (c.answer ticks).1 := by
    refine map_congr_left fun c here => ?_
    rw [Condition.answer_append ((widest.le c here).trans long)]
  rw [valuesAfter, valuesAfter, same]

/-- A rule that has ever decided decides whenever its windows are reached back over. -/
theorem whole_of_state (conditions : Conditions rule cs) (minutely : Minutely first ticks)
    (readable : ∀ tick ∈ ticks, Readable cs tick) (moved : stateAfter rule ticks ≠ .clear) :
    ∀ c ∈ cs, c.windowSecs.toNat % 60 = 0 := by
  induction ticks using reverseRecOn with
  | nil => exact absurd rfl moved
  | append_singleton ticks tick ih =>
    cases decided : valuesAfter cs (ticks ++ [tick]) with
    | some values =>
      have some : (valuesAfter cs (ticks ++ [tick])).isSome := by rw [decided]; rfl
      have all := (isSome_valuesAfter conditions minutely (by simp)).mp some
      exact fun c here => (all c here).2
    | none =>
      refine ih minutely.left (fun t here => readable t (mem_append_left _ here)) ?_
      rwa [stateAfter_concat conditions minutely readable, nextState, decided] at moved

/-! ## A rule begun later -/

/-- A value that breaches has not recovered. -/
def Oriented (cs : List (Condition F)) : Prop :=
  ∀ c ∈ cs, ∀ value, c.breaching value = true → c.cleared value = false

/-- Whether a clear level is no further on the breaching side than the threshold. -/
def Condition.levelled (c : Condition F) : Bool :=
  match c.comparator with
  | .gt | .gte => Ieee.le c.clear c.threshold
  | .lt | .lte => Ieee.le c.threshold c.clear

theorem oriented_of_levelled (levelled : ∀ c ∈ cs, c.levelled) : Oriented cs := by
  intro c here value breaches
  have level := levelled c here
  rw [Condition.levelled] at level
  rw [Condition.breaching] at breaches
  rw [Condition.cleared, Bool.not_eq_false']
  cases kind : c.comparator <;> rw [kind] at level breaches <;>
    simp only [compare, Ieee.lt_iff, Ieee.le_iff] at level breaches ⊢ <;>
    obtain ⟨x, atX, y, atY, le⟩ := level <;> obtain ⟨v, atV, w, atW, less⟩ := breaches
  case gt | gte =>
    cases (Option.mem_def.mp atY).symm.trans atV
    exact ⟨x, atX, w, atW, by omega⟩
  case lt | lte =>
    cases (Option.mem_def.mp atX).symm.trans atW
    exact ⟨v, atV, y, atY, by omega⟩

theorem Oriented.not_cleared (oriented : Oriented cs) (breaches : allBreach cs values) :
    anyCleared cs values = false := by
  rw [anyCleared, any_eq_false]
  intro p here
  rw [oriented p.1 (of_mem_zip here).1 p.2 (all_eq_true.mp breaches p here)]
  exact Bool.false_ne_true

/-- How a rule's state `r` may stand to the state `s` of one begun before it: behind it, but
with a breach that began when both decided it agrees. -/
def Lags (decides : Int) (s r : RuleState) : Prop :=
  match s with
  | .clear => r = .clear
  | .pending begun => r = .pending begun ∨ (begun.toInt < decides ∧
      (r = .clear ∨ ∃ later, r = .pending later ∧ begun.toInt ≤ later.toInt))
  | .firing => True

omit [RuleFloat F] in
/-- The same verdict keeps the one state behind the other. -/
theorem Lags.advance {decides : Int} {s r : RuleState} {sustainSecs : UInt32}
    {breaching cleared : Bool} {ts : Int64} (lags : Lags decides s r)
    (oriented : breaching → cleared = false)
    (past : ∀ begun, s = .pending begun → begun.toInt ≤ ts.toInt) :
    Lags decides (advance s sustainSecs breaching cleared ts)
      (advance r sustainSecs breaching cleared ts) := by
  cases s with
  | clear =>
    cases lags
    simp only [Alerts.advance]
    split
    · split
      · trivial
      · exact .inl rfl
    · rfl
  | pending begun =>
    have before := past begun rfl
    simp only [Alerts.advance]
    cases breaching with
    | false =>
      rcases lags with rfl | ⟨-, rfl | ⟨later, rfl, -⟩⟩ <;> rfl
    | true =>
      simp only [Bool.not_true, Bool.false_eq_true, if_false]
      split
      · trivial
      · next waiting =>
        rw [ofNat_le_saturatingSub] at waiting
        rcases lags with rfl | ⟨early, rfl | ⟨later, rfl, after⟩⟩
        · left
          simp only [ofNat_le_saturatingSub]
          exact if_neg waiting
        · have sustained : ¬ sustainSecs = 0 := by
            rintro rfl
            exact waiting (by simpa using before)
          refine .inr ⟨early, .inr ⟨ts, ?_, before⟩⟩
          simp only [if_true]
          exact if_neg sustained
        · refine .inr ⟨early, .inr ⟨later, ?_, after⟩⟩
          simp only [ofNat_le_saturatingSub]
          exact if_neg (by omega)
  | firing =>
    simp only [Alerts.advance]
    cases cleared with
    | false => trivial
    | true =>
      have calm : breaching = false := by
        cases breaching with
        | false => rfl
        | true => exact absurd (oriented rfl) Bool.true_eq_false.mp
      subst calm
      cases r <;> rfl

/-- A breach began in one of the minutes. -/
theorem pending_past (conditions : Conditions rule cs) (minutely : Minutely first ticks)
    (readable : ∀ tick ∈ ticks, Readable cs tick) {begun : Int64}
    (pending : stateAfter rule ticks = .pending begun) :
    begun.toInt < first + 60 * ticks.length := by
  induction ticks using reverseRecOn with
  | nil => cases pending
  | append_singleton ticks tick ih =>
    have now := minutely.last
    have earlier := ih minutely.left fun t here => readable t (mem_append_left _ here)
    rw [stateAfter_concat conditions minutely readable, nextState] at pending
    rw [length_append, length_singleton]
    push_cast
    cases decided : valuesAfter cs (ticks ++ [tick]) with
    | none =>
      rw [decided] at pending
      have := earlier pending
      omega
    | some values =>
      rw [decided] at pending
      rcases (advance_eq_pending pending).2.1 with ⟨-, rfl⟩ | before
      · omega
      · have := earlier before
        omega

variable {need : Nat} {earlier : List (Tick F)}

section

variable (conditions : Conditions rule cs) (widest : Widest cs need) (oriented : Oriented cs)
  (minutely : Minutely first (earlier ++ ticks))
  (readable : ∀ tick ∈ earlier ++ ticks, Readable cs tick)
include conditions widest oriented minutely readable

/-- A rule begun later lags behind, and is clear until it decides. -/
theorem stateAfter_lags :
    Lags (first + 60 * (earlier.length + need - 1)) (stateAfter rule (earlier ++ ticks))
        (stateAfter rule ticks) ∧
      (ticks.length < need → stateAfter rule ticks = .clear) := by
  have positive := widest.pos
  induction ticks using reverseRecOn with
  | nil =>
    rw [append_nil] at minutely readable ⊢
    refine ⟨?_, fun _ => rfl⟩
    cases before : stateAfter rule earlier with
    | clear => rfl
    | pending begun =>
      have := pending_past conditions minutely readable before
      exact .inr ⟨by omega, .inl rfl⟩
    | firing => trivial
  | append_singleton ticks tick ih =>
    rw [← append_assoc] at minutely readable ⊢
    have now := minutely.last
    rw [length_append] at now
    push_cast at now
    obtain ⟨lags, undecided⟩ := ih minutely.left fun t here =>
      readable t (mem_append_left _ here)
    have own : Minutely (first + 60 * earlier.length) (ticks ++ [tick]) := by
      rw [append_assoc] at minutely
      exact minutely.right
    have ownReadable : ∀ t ∈ ticks ++ [tick], Readable cs t := fun t here =>
      readable t (by rw [append_assoc]; exact mem_append_right _ here)
    rw [stateAfter_concat conditions own ownReadable]
    rcases Nat.lt_or_ge (ticks ++ [tick]).length need with short | long
    · -- The widest window is not reached back over yet: nothing is decided.
      have silent : valuesAfter cs (ticks ++ [tick]) = none := by
        rw [← Option.not_isSome_iff_eq_none, isSome_valuesAfter conditions own (by simp)]
        intro all
        obtain ⟨c, here, wide⟩ := widest.attained
        have := (all c here).1
        omega
      rw [length_append, length_singleton] at short
      have still : nextState rule cs (stateAfter rule ticks) (ticks ++ [tick]) tick.ts
          = .clear := by
        rw [nextState, silent]
        exact undecided (by omega)
      refine ⟨?_, fun _ => still⟩
      rw [still]
      cases after : stateAfter rule (earlier ++ ticks ++ [tick]) with
      | clear => rfl
      | pending begun =>
        have recent := pending_past conditions minutely readable after
        rw [length_append, length_append, length_singleton] at recent
        push_cast at recent
        exact .inr ⟨by omega, .inl rfl⟩
      | firing => trivial
    · refine ⟨?_, fun short => absurd short (by omega)⟩
      have same : valuesAfter cs (earlier ++ ticks ++ [tick])
          = valuesAfter cs (ticks ++ [tick]) := by
        rw [append_assoc]
        exact valuesAfter_append widest long
      rw [stateAfter_concat conditions minutely readable, nextState, nextState, same]
      cases decided : valuesAfter cs (ticks ++ [tick]) with
      | none => exact lags
      | some values =>
        refine lags.advance (oriented.not_cleared ·) fun begun pending => ?_
        have := pending_past conditions minutely.left
          (fun t here => readable t (mem_append_left _ here)) pending
        rw [length_append] at this
        push_cast at this
        omega

/-- A rule begun early enough has caught up wherever the other is not firing. -/
theorem stateAfter_eq_of_not_firing (long : 60 * need + rule.sustainSecs.toNat ≤ 60 * ticks.length)
    (quiet : stateAfter rule (earlier ++ ticks) ≠ .firing) :
    stateAfter rule ticks = stateAfter rule (earlier ++ ticks) := by
  have positive := widest.pos
  have lags := (stateAfter_lags conditions widest oriented minutely readable).1
  cases whole : stateAfter rule (earlier ++ ticks) with
  | clear =>
    rw [whole] at lags
    exact lags
  | firing => exact absurd whole quiet
  | pending begun =>
    rw [whole] at lags
    rcases lags with same | ⟨early, -⟩
    · exact same
    · -- A breach that began before the later rule decided would be firing by now.
      exfalso
      obtain ⟨before, tick, rfl⟩ : ∃ before tick, ticks = before ++ [tick] := by
        refine (eq_nil_or_concat ticks).resolve_left ?_ |>.imp fun before => ?_
        · rintro rfl
          rw [length_nil] at long
          omega
        · rintro ⟨tick, rfl⟩
          exact ⟨tick, concat_eq_append⟩
      have multiples := whole_of_state conditions minutely readable (by rw [whole]; nofun)
      rw [length_append, length_singleton] at long
      rw [← append_assoc] at minutely readable whole
      have now := minutely.last
      rw [length_append] at now
      push_cast at now
      have decides : (valuesAfter cs (earlier ++ before ++ [tick])).isSome := by
        rw [isSome_valuesAfter conditions minutely (by simp)]
        intro c here
        refine ⟨(widest.le c here).trans ?_, multiples c here⟩
        rw [length_append, length_append, length_singleton]
        omega
      obtain ⟨values, decided⟩ := Option.isSome_iff_exists.mp decides
      rw [stateAfter_concat conditions minutely readable, nextState, decided] at whole
      obtain ⟨-, ⟨-, rfl⟩ | -, recent⟩ := advance_eq_pending whole <;> omega

end

/-- Where the state has caught up, so has everything a rule carries. -/
theorem carried_append (widest : Widest cs need) (long : need ≤ ticks.length) :
    carried rule cs (earlier ++ ticks) state = carried rule cs ticks state := by
  have positive := widest.pos
  have reaches : ∀ c ∈ cs, reach c ≤ ticks.length := fun c here => (widest.le c here).trans long
  have holds : cs.map (·.holding (earlier ++ ticks)) = cs.map (·.holding ticks) :=
    map_congr_left fun c here => Condition.holding_append (reaches c here)
  have answers : (cs.map fun c => (c.holding (earlier ++ ticks), c.answer (earlier ++ ticks)))
      = cs.map fun c => (c.holding ticks, c.answer ticks) :=
    map_congr_left fun c here => by
      rw [Condition.holding_append (reaches c here), Condition.answer_append (reaches c here)]
  have last : (earlier ++ ticks).getLast? = ticks.getLast? := by
    refine List.getLast?_append_of_ne_nil _ ?_
    rintro rfl
    rw [length_nil] at long
    omega
  rw [carried, carried, holds, budgetAfter, budgetAfter, last, answers]

end Entry

end OpenGate.Alerts
