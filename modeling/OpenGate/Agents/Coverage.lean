import OpenGate.Alerts.Condition
import OpenGate.Lib.OrderedMap
import OpenGate.Lib.Text

/-!
# Rule coverage

`agentapi/conn_coverage.go` and `rules/postgres_coverage.go` of the server: what every
connected device last reported about every rule, kept in memory, the rows of what a
device cannot evaluate, kept in the database, and the split of a fleet that is put
together from both.

The rows are counted for one customer and the reports for the whole process, so the
split of a customer speaks of the others' devices too: `coverage_isolated_iff` says
exactly when it does not, and when the four states add up to the fleet.
-/

namespace OpenGate.Agents

open OpenGate.Alerts OpenGate.Lib Std Option

def maxRuleCoverageEntries : Nat := 64

def maxAlertRuleIdLen : Nat := 64

/-- Trims, shortens and redacts a rule id an agent sent. -/
def sanitizeAlertRuleId (id : String) : String :=
  let id := trim id.toList
  if id.isEmpty then ""
  else if id.any fun c => c == ' ' || c == '\t' || c == '\r' || c == '\n' then "[redacted]"
  else if maxAlertRuleIdLen < id.length then String.ofList (id.take maxAlertRuleIdLen)
  else String.ofList id

structure RuleCoverageCounts where
  active : Int
  throttled : Int
  unsupported : Int
  unknown : Int
  deriving DecidableEq

def RuleCoverageCounts.zero : RuleCoverageCounts := ⟨0, 0, 0, 0⟩

abbrev States := ExtTreeMap String RuleCoverageState Ord.compare

structure RuleCoverageDelta where
  recorded : Nat
  nowUnsupported : List String
  nowActive : List String
  deriving DecidableEq

/-- One entry of a report; a state the server does not know is none. -/
structure CoverageEntry where
  ruleId : String
  state : Option RuleCoverageState

variable {Device : Type} [Ord Device] [TransOrd Device]

structure RuleCoverageStore (Device : Type) [Ord Device] where
  byDevice : ExtTreeMap Device States Ord.compare

/-- The states of a report: of the first entries as many as a device may report on. -/
def reportedStates (entries : List CoverageEntry) : States :=
  entries.foldl (fun states entry =>
    if maxRuleCoverageEntries ≤ states.size then states
    else
      let ruleId := sanitizeAlertRuleId entry.ruleId
      if ruleId = "" then states
      else match entry.state with
        | some state => states.insert ruleId state
        -- An unrecognised state leaves the device unknown for that rule.
        | none => states) ∅

def diffCoverage (before now : States) : RuleCoverageDelta where
  recorded := now.size
  nowUnsupported := (now.toList.filter fun e =>
    e.2 == .unsupported && before[e.1]? != some .unsupported).map Prod.fst
  nowActive :=
    ((now.toList.filter fun e =>
        e.2 != .unsupported && before[e.1]? == some .unsupported).map Prod.fst ++
      (before.toList.filter fun e =>
        e.2 == .unsupported && !now.contains e.1).map Prod.fst).mergeSort (· ≤ ·)

namespace RuleCoverageStore

def new : RuleCoverageStore Device := ⟨∅⟩

/-- Replaces what one device said before with its latest report. -/
def report (store : RuleCoverageStore Device) (device : Device) (entries : List CoverageEntry) :
    RuleCoverageStore Device × RuleCoverageDelta :=
  let states := reportedStates entries
  if states.isEmpty then (store, ⟨0, [], []⟩)
  else (⟨store.byDevice.insert device states⟩, diffCoverage (store.byDevice.getD device ∅) states)

def forget (store : RuleCoverageStore Device) (device : Device) : RuleCoverageStore Device :=
  ⟨store.byDevice.erase device⟩

def bump (state : RuleCoverageState) (counts : RuleCoverageCounts) : RuleCoverageCounts :=
  match state with
  | .throttled => { counts with throttled := counts.throttled + 1 }
  -- The persisted rows supply the unsupported count.
  | .unsupported => counts
  | .active => { counts with active := counts.active + 1 }

abbrev Split := ExtTreeMap String RuleCoverageCounts Ord.compare

def live (store : RuleCoverageStore Device) : Split :=
  store.byDevice.foldl (fun counts _ states =>
    states.foldl (fun counts ruleId state =>
      counts.insert ruleId (bump state (counts[ruleId]?.getD .zero))) counts) ∅

/-- Unknown is what the fleet has beyond the counted, floored at zero. -/
def fillUnknown (fleetSize : Int) (entry : RuleCoverageCounts) : RuleCoverageCounts :=
  let unknown := fleetSize - entry.active - entry.unsupported - entry.throttled
  if 0 < unknown then { entry with unknown } else entry

def aggregate (store : RuleCoverageStore Device) (fleetSize : Int)
    (unsupported : ExtTreeMap String Int Ord.compare) : Split :=
  let counts := unsupported.foldl (fun counts ruleId count =>
    counts.insert ruleId { counts[ruleId]?.getD .zero with unsupported := count }) store.live
  counts.map fun _ entry => fillUnknown fleetSize entry

end RuleCoverageStore

/-! ## The persisted rows -/

/-- A row of `rule_coverage_unsupported`; its presence is the state. -/
structure UnsupportedRow (Device : Type) where
  device : Device
  ruleId : String
  tenantId : Nat
  organizationId : Nat
  deriving DecidableEq

/-- `WHERE tenant_id = … AND organization_id = …`. -/
def ownRows (tenantId organizationId : Nat) (rows : List (UnsupportedRow Device)) :
    List (UnsupportedRow Device) :=
  rows.filter fun row => row.tenantId == tenantId && row.organizationId == organizationId

/-- `SELECT rule_id, COUNT(*) … GROUP BY rule_id`. -/
def countUnsupported (rows : List (UnsupportedRow Device)) (tenantId organizationId : Nat) :
    ExtTreeMap String Int Ord.compare :=
  (ownRows tenantId organizationId rows).foldl
    (fun counts row => counts.insert row.ruleId (counts[row.ruleId]?.getD 0 + 1)) ∅

/-- The fleet split per rule for one customer; rows that cannot be read count for none. -/
def ruleCoverage (store : RuleCoverageStore Device) (rows : Option (List (UnsupportedRow Device)))
    (tenantId organizationId : Nat) (fleetSize : Int) : RuleCoverageStore.Split :=
  store.aggregate fleetSize <|
    rows.elim ∅ fun rows => countUnsupported rows tenantId organizationId

/-! ## What the split counts -/

def RuleCoverageStore.reporting (store : RuleCoverageStore Device) (state : RuleCoverageState)
    (ruleId : String) : Nat :=
  total store.byDevice fun _ states => if states[ruleId]? = some state then 1 else 0

/-- How many of a customer's machines are stored as blind to a rule. -/
def blind (rows : Option (List (UnsupportedRow Device))) (tenantId organizationId : Nat)
    (ruleId : String) : Nat :=
  rows.elim 0 fun rows =>
    (ownRows tenantId organizationId rows).countP fun row => row.ruleId = ruleId

/-- Two states that differ only in what concerns devices outside a fleet. -/
structure AlikeInside (fleet : Finset Device) (tenantId organizationId : Nat)
    (store store' : RuleCoverageStore Device) (rows rows' : Option (List (UnsupportedRow Device))) :
    Prop where
  reports : ∀ device ∈ fleet, store'.byDevice[device]? = store.byDevice[device]?
  rows : rows'.map (ownRows tenantId organizationId) = rows.map (ownRows tenantId organizationId)

variable (store : RuleCoverageStore Device) {fleetSize : Int}

namespace RuleCoverageStore

/-- The split of what is reported counts every device of the process. -/
theorem getElem?_live (ruleId : String) :
    store.live[ruleId]?.getD .zero
      = ⟨store.reporting .active ruleId, store.reporting .throttled ruleId, 0, 0⟩ := by
  -- Over the devices, from any split the count starts with.
  have counted : ∀ (l : List (Device × States)) (counts : Split),
      (l.foldl (fun counts e => e.2.foldl (fun counts ruleId state =>
          counts.insert ruleId (bump state (counts[ruleId]?.getD .zero))) counts)
            counts)[ruleId]?.getD .zero
        = ⟨(counts[ruleId]?.getD .zero).active
              + ((l.map fun e => if e.2[ruleId]? = some .active then 1 else 0).sum : Nat),
            (counts[ruleId]?.getD .zero).throttled
              + ((l.map fun e => if e.2[ruleId]? = some .throttled then 1 else 0).sum : Nat),
            (counts[ruleId]?.getD .zero).unsupported, (counts[ruleId]?.getD .zero).unknown⟩ := by
    intro l
    induction l with
    | nil => simp
    | cons e l ih =>
      intro counts
      rw [List.foldl_cons, ih, foldl_insert fun _ state entry => bump state (entry.getD .zero)]
      cases reported : e.2[ruleId]? with
      | none => simp [reported]
      | some state => cases state <;> simp [reported, bump, add_assoc, add_comm, add_left_comm]
  rw [live, ExtTreeMap.foldl_eq_foldl_toList, counted]
  simp [reporting, total, RuleCoverageCounts.zero]

end RuleCoverageStore

omit [Ord Device] [TransOrd Device] in
theorem getElem?_countUnsupported (rows : List (UnsupportedRow Device))
    (tenantId organizationId : Nat) (ruleId : String) :
    (countUnsupported rows tenantId organizationId)[ruleId]?.getD 0
      = (blind (some rows) tenantId organizationId ruleId : Int) := by
  have counted : ∀ (l : List (UnsupportedRow Device)) (counts : ExtTreeMap String Int Ord.compare),
      (l.foldl (fun counts row => counts.insert row.ruleId (counts[row.ruleId]?.getD 0 + 1))
          counts)[ruleId]?.getD 0
        = counts[ruleId]?.getD 0 + (l.countP fun row => row.ruleId = ruleId : Nat) := by
    intro l
    induction l with
    | nil => simp
    | cons row l ih =>
      intro counts
      rw [List.foldl_cons, ih, insert_self, List.countP_cons]
      by_cases same : row.ruleId = ruleId
      · simp [same]
        ring
      · simp [same]
  rw [countUnsupported, counted]
  simp [blind]

/-- The four states of a rule before Unknown is filled in. -/
def knownCounts (store : RuleCoverageStore Device) (rows : Option (List (UnsupportedRow Device)))
    (tenantId organizationId : Nat) (ruleId : String) : RuleCoverageCounts :=
  ⟨store.reporting .active ruleId, store.reporting .throttled ruleId,
    blind rows tenantId organizationId ruleId, 0⟩

/-- A rule is in the split under what is known of it, or nothing is known of it. -/
theorem ruleCoverage_cases (rows : Option (List (UnsupportedRow Device)))
    (tenantId organizationId : Nat) (fleetSize : Int) (ruleId : String) :
    ((ruleCoverage store rows tenantId organizationId fleetSize)[ruleId]? = none ∧
      knownCounts store rows tenantId organizationId ruleId = .zero) ∨
    (ruleCoverage store rows tenantId organizationId fleetSize)[ruleId]?
      = some (RuleCoverageStore.fillUnknown fleetSize
          (knownCounts store rows tenantId organizationId ruleId)) := by
  have stored :
      (rows.elim ∅ fun rows => countUnsupported rows tenantId organizationId)[ruleId]?.getD 0
      = (blind rows tenantId organizationId ruleId : Int) := by
    cases rows with
    | none => simp [blind]
    | some rows => exact getElem?_countUnsupported rows tenantId organizationId ruleId
  have reported := store.getElem?_live ruleId
  rw [ruleCoverage, RuleCoverageStore.aggregate, ExtTreeMap.getElem?_map,
    foldl_insert fun _ count entry =>
      { entry.getD RuleCoverageCounts.zero with unsupported := count }]
  generalize (rows.elim ∅ fun rows => countUnsupported rows tenantId organizationId)[ruleId]?
    = count at stored ⊢
  cases count with
  | some count =>
    right
    rw [getD_some] at stored
    rw [elim_some, reported, map_some, stored, knownCounts]
  | none =>
    rw [getD_none] at stored
    rw [elim_none, knownCounts, ← stored]
    generalize store.live[ruleId]? = entry at reported
    rcases entry with _ | entry
    · exact .inl ⟨rfl, reported.symm⟩
    · right
      rw [map_some, ← reported, getD_some]

/-- The states add up to the fleet unless more devices are counted than it has. -/
theorem fillUnknown_sum {fleetSize active throttled unsupported : Int} {counts : RuleCoverageCounts}
    (filled : RuleCoverageStore.fillUnknown fleetSize ⟨active, throttled, unsupported, 0⟩
      = counts) :
    counts.active + counts.throttled + counts.unsupported + counts.unknown = fleetSize ↔
      active + throttled + unsupported ≤ fleetSize := by
  subst filled
  simp only [RuleCoverageStore.fillUnknown]
  split <;> dsimp only <;> omega

@[simp] theorem fillUnknown_active (entry : RuleCoverageCounts) :
    (RuleCoverageStore.fillUnknown fleetSize entry).active = entry.active := by
  unfold RuleCoverageStore.fillUnknown
  dsimp only
  split <;> rfl

/-- The split tells how many devices report a rule active. -/
theorem reporting_active_eq {store store' : RuleCoverageStore Device}
    {rows : Option (List (UnsupportedRow Device))} {tenantId organizationId : Nat}
    (same : ruleCoverage store rows tenantId organizationId fleetSize
      = ruleCoverage store' rows tenantId organizationId fleetSize) (ruleId : String) :
    store.reporting .active ruleId = store'.reporting .active ruleId := by
  have known : ∀ store : RuleCoverageStore Device,
      ((ruleCoverage store rows tenantId organizationId fleetSize)[ruleId]?.getD .zero).active
        = store.reporting .active ruleId := by
    intro store
    rcases ruleCoverage_cases store rows tenantId organizationId fleetSize ruleId with
      ⟨absent, nothing⟩ | present
    · rw [absent, getD_none, ← nothing, knownCounts]
    · rw [present, getD_some, fillUnknown_active, knownCounts]
  have counts := known store
  rw [same, known store'] at counts
  exact_mod_cast counts.symm

section Fleet

variable [LawfulEqOrd Device] [DecidableEq Device]

/-- A device that reports one rule as active instead of throttled is one more active device. -/
theorem reporting_insert (device : Device) (states : States) (ruleId : String) :
    (RuleCoverageStore.mk (store.byDevice.insert device states)).reporting .active ruleId
      = (if states[ruleId]? = some .active then 1 else 0)
        + (store.forget device).reporting .active ruleId :=
  total_insert device states

def oneRule (state : RuleCoverageState) : List CoverageEntry := [⟨"disk-full", some state⟩]

theorem reportedStates_oneRule {state : RuleCoverageState} :
    reportedStates (oneRule state) = (∅ : States).insert "disk-full" state := by
  have clean : sanitizeAlertRuleId "disk-full" = "disk-full" := by decide
  simp [reportedStates, oneRule, maxRuleCoverageEntries, clean]

omit [LawfulEqOrd Device] [DecidableEq Device] in
theorem report_oneRule (device : Device) (state : RuleCoverageState) :
    (store.report device (oneRule state)).1
      = ⟨store.byDevice.insert device ((∅ : States).insert "disk-full" state)⟩ := by
  rw [RuleCoverageStore.report, reportedStates_oneRule]
  simp

/-- One customer's split says nothing of another's devices, and its states add up to the
fleet, exactly when no device is outside the fleet and no rule has more devices counted
for it than the fleet has. -/
theorem coverage_isolated_iff (store : RuleCoverageStore Device)
    (rows : Option (List (UnsupportedRow Device))) (tenantId organizationId : Nat)
    (fleet : Finset Device) :
    ((∀ store' rows', AlikeInside fleet tenantId organizationId store store' rows rows' →
        ruleCoverage store' rows' tenantId organizationId fleet.card
          = ruleCoverage store rows tenantId organizationId fleet.card) ∧
      ∀ (ruleId : String) (counts : RuleCoverageCounts),
        (ruleCoverage store rows tenantId organizationId fleet.card)[ruleId]? = some counts →
        counts.active + counts.throttled + counts.unsupported + counts.unknown = fleet.card) ↔
      (∀ device : Device, device ∈ fleet) ∧
        ∀ ruleId : String, store.reporting .active ruleId + store.reporting .throttled ruleId
          + blind rows tenantId organizationId ruleId ≤ fleet.card := by
  constructor
  · rintro ⟨isolated, sums⟩
    constructor
    · intro device
      by_contra outside
      -- The outside device reports one rule as active, then as throttled.
      have reports : ∀ state, ruleCoverage (store.report device (oneRule state)).1 rows tenantId
          organizationId fleet.card = ruleCoverage store rows tenantId organizationId
          fleet.card := by
        intro state
        refine isolated _ rows ⟨fun other inside => ?_, rfl⟩
        have different : device ≠ other := by
          rintro rfl
          exact outside inside
        rw [report_oneRule]
        exact (insert_self ..).trans (if_neg different)
      have same :=
        reporting_active_eq ((reports .active).trans (reports .throttled).symm) "disk-full"
      rw [report_oneRule, report_oneRule, reporting_insert, reporting_insert] at same
      simp at same
    · intro ruleId
      rcases ruleCoverage_cases store rows tenantId organizationId fleet.card ruleId with
        ⟨-, nothing⟩ | present
      · have zeros := nothing
        simp only [knownCounts, RuleCoverageCounts.zero, RuleCoverageCounts.mk.injEq] at zeros
        omega
      · have sum := (fillUnknown_sum rfl).mp (sums ruleId _ present)
        omega
  · rintro ⟨whole, bound⟩
    constructor
    · rintro store' rows' ⟨reports, own⟩
      have sameStore : store' = store := by
        have byDevice : store'.byDevice = store.byDevice :=
          ExtTreeMap.ext_getElem? fun device => reports device (whole device)
        cases store
        cases store'
        exact congrArg _ byDevice
      have sameRows : (rows'.elim ∅ fun rows => countUnsupported rows tenantId organizationId)
          = rows.elim ∅ fun rows => countUnsupported rows tenantId organizationId := by
        rcases rows with _ | rows <;> rcases rows' with _ | rows'
        · rfl
        · cases own
        · cases own
        · simp only [map_some, Option.some.injEq] at own
          simp only [elim_some, countUnsupported, own]
      rw [ruleCoverage, ruleCoverage, sameStore, sameRows]
    · intro ruleId counts present
      rcases ruleCoverage_cases store rows tenantId organizationId fleet.card ruleId with
        ⟨absent, -⟩ | known
      · rw [absent] at present
        cases present
      · rw [known, Option.some.injEq] at present
        refine (fillUnknown_sum present).mpr ?_
        exact_mod_cast bound ruleId

end Fleet

def firstReports : RuleCoverageStore (Fin 2) :=
  (RuleCoverageStore.new.report 0 (oneRule .active)).1

theorem coverage_isolated_iff_alone :
    (∀ store' rows', AlikeInside Finset.univ 0 0 firstReports store' (some []) rows' →
        ruleCoverage store' rows' 0 0 (Finset.univ : Finset (Fin 2)).card
          = ruleCoverage firstReports (some []) 0 0 (Finset.univ : Finset (Fin 2)).card) ∧
      ∀ (ruleId : String) (counts : RuleCoverageCounts),
        (ruleCoverage firstReports (some []) 0 0 (Finset.univ : Finset (Fin 2)).card)[ruleId]?
          = some counts →
        counts.active + counts.throttled + counts.unsupported + counts.unknown
          = (Finset.univ : Finset (Fin 2)).card := by
  refine (coverage_isolated_iff firstReports (some []) 0 0 Finset.univ).mpr
    ⟨Finset.mem_univ, fun ruleId => ?_⟩
  have reporting : ∀ state, firstReports.reporting state ruleId
      = (if ((∅ : States).insert "disk-full" .active)[ruleId]? = some state then 1 else 0) + 0 := by
    intro state
    rw [firstReports, report_oneRule]
    exact total_insert (0 : Fin 2) _
  have blindTo : blind (some ([] : List (UnsupportedRow (Fin 2)))) 0 0 ruleId = 0 := rfl
  have card : (Finset.univ : Finset (Fin 2)).card = 2 := rfl
  rw [reporting, reporting, blindTo, card]
  split <;> split <;> omega

/-- A machine of another customer reports the rule active: it is counted, and the split of a
fleet of one machine speaks of two. -/
theorem coverage_counts_outsider :
    AlikeInside {0} 0 0 firstReports (firstReports.report 1 (oneRule .active)).1 (some [])
    (some []) ∧
      (ruleCoverage firstReports (some []) 0 0 ({0} : Finset (Fin 2)).card)["disk-full"]?
        = some ⟨1, 0, 0, 0⟩ ∧
      (ruleCoverage (firstReports.report 1 (oneRule .active)).1 (some []) 0 0
        ({0} : Finset (Fin 2)).card)["disk-full"]? = some ⟨2, 0, 0, 0⟩ := by
  refine ⟨⟨?_, rfl⟩, by decide +kernel, by decide +kernel⟩
  intro device inside
  rw [Finset.mem_singleton.mp inside, report_oneRule]
  exact insert_self ..

end OpenGate.Agents
