import OpenGate.Alerts.Timeline
import OpenGate.Lib.Events

/-!
# Scans under way

A scan goes on by chunks, and may be stopped after one: another is then resumed from its
cursor.  Wherever it began and was stopped, it stands at a minute of the grid and carries what
the minutes since it began leave (`Stands`), and left alone it comes to its end.
-/

namespace OpenGate.Alerts

open OpenGate.Lib OpenGate.Tsdb OpenGate.Backfill Std RetroScan Int64

variable {F : Type} [RuleFloat F]

/-- A scan under way, what its pieces have found so far, and whether it is finished. -/
structure Scanning (F : Type) where
  scan : RetroScan F
  found : List (EdgeAlert F)
  finished : Bool

inductive ScanEvent where
  | chunk
  /-- The scan is dropped, and another resumed from its cursor. -/
  | stop
  deriving DecidableEq

/-- Whether nothing is left to scan. -/
def finishes : Except String Progress → Bool
  | .ok .done | .ok .empty => true
  | _ => false

namespace Scanning

def start (plan : RetroPlan F) (budget : RetroBudget) : Scanning F := ⟨.new plan budget, [], false⟩

def act (dress : Dress F) (history : RetroHistory F) (s : Scanning F) :
    ScanEvent → Option (Scanning F)
  | .chunk =>
    if s.finished then none
    else
      let (scan, findings, progress) := s.scan.chunk dress history
      some ⟨scan, s.found ++ findings, finishes progress⟩
  | .stop => some ⟨.resume s.scan.plan s.scan.budget s.scan.cursor, s.found, false⟩

theorem act_chunk {dress : Dress F} {history : RetroHistory F} {s : Scanning F}
    (unfinished : s.finished = false) :
    s.act dress history .chunk = some ⟨(s.scan.chunk dress history).1,
      s.found ++ (s.scan.chunk dress history).2.1, finishes (s.scan.chunk dress history).2.2⟩ := by
  rw [act, unfinished]
  rfl

def Uninterrupted (_ : Scanning F) (event : ScanEvent) : Prop := event = .chunk

instance (s : Scanning F) (event : ScanEvent) : Decidable (s.Uninterrupted event) :=
  inferInstanceAs (Decidable (event = .chunk))

end Scanning

section Stands

variable {rule : ThresholdRule F} {plan : RetroPlan F} {cs : List (Condition F)} {g : Grid}
  {h : MinuteHistory F} {dress : Dress F} {budget : RetroBudget}
  {guard : Scanning F → ScanEvent → Prop}

variable (h g plan budget) in
/-- A scan that began at minute `j` and stands at minute `j + k`, resumed to report from
minute `e` on. -/
structure Scanning.Stands (j k e : Nat) (s : Scanning F) : Prop where
  budget : s.scan.budget = budget
  tracks : s.scan.Tracks plan (segment (h.row plan.reads) g.time j k)
  inside : j + k ≤ g.count
  before : e ≤ g.count
  ahead : s.finished = false → j + k < g.count ∧ s.scan.StartsAt g (j + k)
  done : s.finished = true → j + k = g.count
  emits : s.scan.emitFrom = g.time e ∨ e = 0 ∧ s.scan.emitFrom = Int64.minValue
  cursor : s.scan.cursor = some (g.time (max (j + k) e)) ∨ j + k = 0 ∧ e = 0 ∧ s.scan.cursor = none

theorem stands_start : (Scanning.start plan budget).Stands plan g h budget 0 0 0 :=
  ⟨rfl, tracks_resume plan budget none, Nat.zero_le _, Nat.zero_le _,
    fun _ => ⟨g.pos, floor_time g.pos⟩, nofun, .inr ⟨rfl, rfl⟩, .inr ⟨rfl, rfl, rfl⟩⟩

omit [RuleFloat F] in
theorem lookback_pos (accepts : plan.Accepts rule cs) : 60 ≤ plan.lookbackSecs.toInt := by
  obtain ⟨widest, lookback, -⟩ := accepts.lookback
  omega

omit [RuleFloat F] in
/-- Where a resumed scan starts to read. -/
theorem resumed_start {g : Grid} {lookback : Int64} {c : Nat} (positive : 60 ≤ lookback.toInt)
    (inside : c ≤ g.count) :
    ∃ j, j < g.count ∧ floorToMinute (max (saturatingSub (g.time c) lookback) (g.time 0))
    = g.time j ∧
      (j = 0 ∨ lookback.toInt + 60 * j ≤ 60 * c) := by
  have pos := g.pos
  have low := g.low
  have whole := g.whole
  have start : (floorToMinute (max (saturatingSub (g.time c) lookback) (g.time 0))).toInt
      = max g.first ((min (2 ^ 63 - 1) (g.first + 60 * c) - lookback.toInt) / 60 * 60) := by
    rw [toInt_floorToMinute, toInt_max, toInt_saturatingSub, Grid.toInt_time pos,
      Grid.toInt_time_le]
    omega
  generalize floorToMinute (max (saturatingSub (g.time c) lookback) (g.time 0)) = begins at *
  refine ⟨((begins.toInt - g.first) / 60).toNat, ?_, ?_, ?_⟩
  · omega
  · rw [← toInt_inj, Grid.toInt_time (by omega)]
    omega
  · omega

namespace Scanning.Stands

variable {j k e : Nat} {s : Scanning F}

theorem emits_iff (here : s.Stands plan g h budget j k e) {i : Nat} (inside : i < g.count) :
    s.scan.emitFrom ≤ g.time i ↔ e ≤ i := by
  rcases here.emits with same | ⟨rfl, same⟩
  · rw [same, Grid.time_le_iff here.before (by omega)]
  · have least : Int64.minValue.toInt = -2 ^ 63 := rfl
    have low := le_toInt (g.time i)
    rw [same, le_iff_toInt_le]
    omega

theorem chunk (dress : Dress F) (fits : budget.chunkPoints * 60 < 2 ^ 63)
    (spans : historySpan h.reader plan.reads none = .ok (some (g.time 0, g.time (g.count - 1))))
    (here : s.Stands plan g h budget j k e) (unfinished : s.finished = false) :
    ∃ s' c, s.act dress h.reader .chunk = some s' ∧ 0 < c ∧ s'.Stands plan g h budget j (k + c) e ∧
      s'.found = s.found ++ (List.range' k c).flatMap fun i =>
        if e ≤ j + i then foundAt dress (h.row plan.reads) g.time plan j i else [] := by
  obtain ⟨inside, starts⟩ := here.ahead unfinished
  obtain ⟨c, pos, within, tracks, ⟨samePlan, sameBudget, sameEmit⟩, next, cursor, found,
    progress⟩ :=
    chunk_walks dress spans (by rw [here.budget]; exact fits) starts inside here.tracks
  refine ⟨_, c, act_chunk unfinished, pos, ?_, ?_⟩
  · generalize s.scan.chunk dress h.reader = result at *
    have ends : finishes result.2.2 = decide (j + (k + c) = g.count) := by
      rw [progress, ← Nat.add_assoc]
      by_cases last : j + k + c = g.count
      · rw [if_pos last, decide_eq_true last]
        rfl
      · rw [if_neg last, decide_eq_false last]
        rfl
    rw [Nat.add_assoc] at next cursor within
    refine ⟨sameBudget.trans here.budget, tracks, within, here.before, ?_, ?_, ?_, ?_⟩
    · intro more
      rw [ends, decide_eq_false_iff_not] at more
      have inside : j + (k + c) < g.count := by omega
      refine ⟨inside, ?_⟩
      rw [RetroScan.StartsAt, next]
      exact floor_time inside
    · intro last
      rwa [ends, decide_eq_true_iff] at last
    · rw [sameEmit]
      exact here.emits
    · left
      rw [cursor]
      rcases here.emits with same | ⟨rfl, same⟩
      · rw [same, Grid.max_time]
      · have least : Int64.minValue.toInt = -2 ^ 63 := rfl
        have low := le_toInt (g.time (j + (k + c)))
        rw [same, max_eq_left (Nat.zero_le _)]
        congr 1
        rw [← toInt_inj, toInt_max]
        omega
  · dsimp only
    rw [found]
    congr 1
    refine List.flatMap_congr fun i range => ?_
    obtain ⟨-, early⟩ := List.mem_range'_1.mp range
    simp only [here.emits_iff (show j + i < g.count by omega)]

theorem stop (accepts : plan.Accepts rule cs) (here : s.Stands plan g h budget j k e) :
    ∃ j', Scanning.Stands plan g h budget j' 0 (max (j + k) e)
        ⟨.resume s.scan.plan s.scan.budget s.scan.cursor, s.found, false⟩ ∧
      j' ≤ max (j + k) e ∧
        (j' = 0 ∨ plan.lookbackSecs.toInt + 60 * j' ≤ 60 * (max (j + k) e : Nat)) := by
  have inside := here.inside
  have before := here.before
  have positive := lookback_pos accepts
  have tracks := tracks_resume plan budget s.scan.cursor
  rw [here.tracks.same, here.budget]
  rcases here.cursor with cursor | ⟨zero, rfl, cursor⟩
  · rw [cursor] at tracks ⊢
    obtain ⟨j', within, starts, back⟩ :=
      resumed_start positive (show max (j + k) e ≤ g.count by omega)
    have le : j' ≤ max (j + k) e := by omega
    exact ⟨j', ⟨rfl, tracks, by omega, by omega, fun _ => ⟨by omega, starts⟩, nofun, .inl rfl,
      .inl (by rw [Nat.add_zero, max_eq_right le]; rfl)⟩, le, back⟩
  · rw [cursor] at tracks ⊢
    rw [zero]
    exact ⟨0, ⟨rfl, tracks, by omega, by omega, fun _ => ⟨g.pos, floor_time g.pos⟩, nofun,
      .inr ⟨rfl, rfl⟩, .inr ⟨rfl, rfl, rfl⟩⟩, Nat.zero_le _, .inl rfl⟩

/-- Left alone, a scan comes to its end. -/
theorem finish (dress : Dress F) (fits : budget.chunkPoints * 60 < 2 ^ 63)
    (spans : historySpan h.reader plan.reads none = .ok (some (g.time 0, g.time (g.count - 1))))
    (here : s.Stands plan g h budget j k e) :
    ∃ ended, Runs (Scanning.act dress h.reader) Scanning.Uninterrupted s ended ∧
    ended.finished := by
  -- Every chunk goes at least one minute on.
  induction left : g.count - (j + k) using Nat.strong_induction_on generalizing k s with
  | _ left ih =>
    cases finished : s.finished with
    | true => exact ⟨s, .start, finished⟩
    | false =>
      obtain ⟨next, c, chunk, pos, there, -⟩ := here.chunk dress fits spans finished
      have inside := (here.ahead finished).1
      obtain ⟨ended, goesOn, done⟩ := ih (g.count - (j + (k + c))) (by omega) there rfl
      have first : Runs (Scanning.act dress h.reader) Scanning.Uninterrupted s next :=
        .step .chunk .start rfl chunk
      exact ⟨ended, first.trans goesOn, done⟩

end Scanning.Stands

/-- Without history a scan finds nothing, at once. -/
theorem act_chunk_empty {s : Scanning F} (same : s.scan.plan = plan)
    (spans : historySpan h.reader plan.reads none = .ok none) (unfinished : s.finished = false) :
    s.act dress h.reader .chunk = some ⟨s.scan, s.found, true⟩ := by
  have chunk : s.scan.chunk dress h.reader = (s.scan, [], .ok .empty) := by
    rw [chunk, same, spans]
  rw [Scanning.act_chunk unfinished, chunk, List.append_nil]
  rfl

theorem reached_empty (spans : historySpan h.reader plan.reads none = .ok none) {s : Scanning F}
    (reached : Runs (Scanning.act dress h.reader) guard (.start plan budget) s) :
    s.scan.plan = plan ∧ s.found = [] := by
  refine reached.invariant (I := fun s => s.scan.plan = plan ∧ s.found = []) ⟨rfl, rfl⟩ ?_
  rintro s event s' - acts ⟨same, none⟩
  cases event with
  | chunk =>
    cases finished : s.finished with
    | true =>
      rw [Scanning.act, finished] at acts
      cases acts
    | false =>
      rw [act_chunk_empty same spans finished] at acts
      cases acts
      exact ⟨same, none⟩
  | stop =>
    cases acts
    exact ⟨same, none⟩

end Stands

/-! ## A busy processor -/

/-- Processor load above 90, over once it is back at 50, and what else must hold. -/
def busyRule (sustainSecs : UInt32) (terms : List (RuleTerm Int64)) : ThresholdRule Int64 where
  id := "busy"
  version := 1
  severity := .warning
  metric := "cpu.total"
  comparator := .gt
  threshold := 90
  clear := 50
  sustainSecs := sustainSecs
  predicate := .instant
  windowSecs := 0
  all := terms

def plain : Dress Int64 := ⟨fun _ _ _ => ⟨[], "none"⟩, fun _ => "90"⟩

end OpenGate.Alerts
