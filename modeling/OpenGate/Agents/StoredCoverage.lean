import OpenGate.Agents.Connections

/-!
# What is stored of a device's coverage

`persistRuleCoverage` of `agentapi/conn_coverage.go` over the table of
`rules/postgres_coverage.go`: of a report only the difference to the last one is written,
and the last one is kept in memory, which a disconnect drops and a restart loses while the
rows stay.

What is remembered as unsupported is stored (`Covers`), in every run.  The other way
round fails after a disconnect: `stored_follows_report_iff` says which rules a report has
to name, or the server to remember, for the rows to be what the report says.
-/

namespace OpenGate.Agents

open OpenGate.Alerts OpenGate.Lib Std List Bool ExtTreeMap

variable {Device : Type} [DecidableEq Device]

/-- `INSERT … ON CONFLICT (device_id, rule_id) DO NOTHING`. -/
def markUnsupported (tenantId organizationId : Nat) (device : Device)
    (rows : List (UnsupportedRow Device)) (ruleId : String) : List (UnsupportedRow Device) :=
  if rows.any fun row => row.device = device && row.ruleId = ruleId then rows
  else rows ++ [⟨device, ruleId, tenantId, organizationId⟩]

/-- `DELETE … WHERE tenant_id = … AND device_id = … AND rule_id = …`. -/
def clearUnsupported (tenantId : Nat) (device : Device) (rows : List (UnsupportedRow Device))
    (ruleId : String) : List (UnsupportedRow Device) :=
  rows.filter fun row => !(row.tenantId = tenantId && row.device = device && row.ruleId = ruleId)

def persistRuleCoverage (tenantId organizationId : Nat) (device : Device)
    (delta : RuleCoverageDelta)
    (rows : List (UnsupportedRow Device)) : List (UnsupportedRow Device) :=
  delta.nowActive.foldl (clearUnsupported tenantId device) <|
    delta.nowUnsupported.foldl (markUnsupported tenantId organizationId device) rows

def StoredUnsupported (rows : List (UnsupportedRow Device)) (device : Device) (ruleId : String) :
    Prop :=
  ∃ row ∈ rows, row.device = device ∧ row.ruleId = ruleId

/-! ## The statements -/

section Rows

variable {tenantId organizationId : Nat} {device : Device} {rows : List (UnsupportedRow Device)}
  {row : UnsupportedRow Device} {ids : List String} {ruleId : String}

theorem mem_clearAll :
    row ∈ ids.foldl (clearUnsupported tenantId device) rows ↔
      row ∈ rows ∧ ¬ (row.tenantId = tenantId ∧ row.device = device ∧ row.ruleId ∈ ids) := by
  induction ids generalizing rows with
  | nil => simp
  | cons id ids ih =>
    rw [foldl_cons, ih, clearUnsupported, mem_filter, mem_cons]
    simp only [not_eq_true', and_eq_false_iff, decide_eq_false_iff_not]
    tauto

theorem markUnsupported_keeps (here : row ∈ rows) :
    row ∈ markUnsupported tenantId organizationId device rows ruleId := by
  rw [markUnsupported]
  split
  · exact here
  · exact mem_append_left _ here

variable (tenantId organizationId device rows ruleId) in
theorem stored_markUnsupported :
    StoredUnsupported (markUnsupported tenantId organizationId device rows ruleId) device
    ruleId := by
  rw [markUnsupported]
  split
  next known =>
    obtain ⟨row, here, same⟩ := any_eq_true.mp known
    rw [and_eq_true, decide_eq_true_iff, decide_eq_true_iff] at same
    exact ⟨row, here, same⟩
  · exact ⟨_, mem_append_right _ (mem_singleton.mpr rfl), rfl, rfl⟩

theorem mem_markUnsupported
    (here : row ∈ markUnsupported tenantId organizationId device rows ruleId) :
    row ∈ rows ∨ row.device = device ∧ row.ruleId = ruleId := by
  rw [markUnsupported] at here
  split at here
  · exact .inl here
  · rcases mem_append.mp here with before | added
    · exact .inl before
    · rw [mem_singleton.mp added]
      exact .inr ⟨rfl, rfl⟩

theorem markAll_keeps (here : row ∈ rows) :
    row ∈ ids.foldl (markUnsupported tenantId organizationId device) rows := by
  induction ids generalizing rows with
  | nil => exact here
  | cons id ids ih => exact ih (markUnsupported_keeps here)

variable (tenantId organizationId device rows) in
theorem stored_markAll (named : ruleId ∈ ids) :
    StoredUnsupported (ids.foldl (markUnsupported tenantId organizationId device) rows) device
    ruleId := by
  induction ids generalizing rows with
  | nil => cases named
  | cons id ids ih =>
    rcases mem_cons.mp named with rfl | later
    · obtain ⟨row, here, same⟩ :=
        stored_markUnsupported tenantId organizationId device rows ruleId
      rw [foldl_cons]
      exact ⟨row, markAll_keeps here, same⟩
    · exact ih _ later

theorem mem_markAll (here : row ∈ ids.foldl (markUnsupported tenantId organizationId device) rows) :
    row ∈ rows ∨ row.device = device ∧ row.ruleId ∈ ids := by
  induction ids generalizing rows with
  | nil => exact .inl here
  | cons id ids ih =>
    rcases ih here with marked | ⟨same, later⟩
    · rcases mem_markUnsupported marked with before | ⟨same, this⟩
      · exact .inl before
      · exact .inr ⟨same, this ▸ mem_cons_self⟩
    · exact .inr ⟨same, mem_cons_of_mem id later⟩

end Rows

/-! ## The difference of two reports -/

theorem mem_nowUnsupported {before now : States} {ruleId : String} :
    ruleId ∈ (diffCoverage before now).nowUnsupported ↔
      now[ruleId]? = some .unsupported ∧ before[ruleId]? ≠ some .unsupported := by
  rw [diffCoverage, mem_map]
  constructor
  · rintro ⟨⟨id, state⟩, here, rfl⟩
    obtain ⟨here, changed⟩ := mem_filter.mp here
    rw [and_eq_true, beq_iff_eq, bne_iff_ne] at changed
    obtain ⟨rfl, changed⟩ := changed
    exact ⟨mem_toList_iff_getElem?_eq_some.mp here, changed⟩
  · rintro ⟨here, changed⟩
    refine ⟨(ruleId, .unsupported), mem_filter.mpr
      ⟨mem_toList_iff_getElem?_eq_some.mpr here, ?_⟩, rfl⟩
    rw [and_eq_true, beq_iff_eq, bne_iff_ne]
    exact ⟨rfl, changed⟩

/-- A rule is evaluable again when another state is reported for it, or none. -/
theorem mem_nowActive {before now : States} {ruleId : String} :
    ruleId ∈ (diffCoverage before now).nowActive ↔
      before[ruleId]? = some .unsupported ∧ now[ruleId]? ≠ some .unsupported := by
  rw [diffCoverage, mem_mergeSort, mem_append, mem_map, mem_map]
  constructor
  · rintro (⟨⟨id, state⟩, here, rfl⟩ | ⟨⟨id, state⟩, here, rfl⟩)
    · obtain ⟨here, changed⟩ := mem_filter.mp here
      rw [and_eq_true, bne_iff_ne, beq_iff_eq] at changed
      rw [mem_toList_iff_getElem?_eq_some] at here
      exact ⟨changed.2, fun same => changed.1 (Option.some.inj (here.symm.trans same))⟩
    · obtain ⟨here, changed⟩ := mem_filter.mp here
      rw [and_eq_true, beq_iff_eq, not_eq_true'] at changed
      obtain ⟨rfl, dropped⟩ := changed
      refine ⟨mem_toList_iff_getElem?_eq_some.mp here, fun reported => ?_⟩
      rw [contains_eq_isSome_getElem?, reported] at dropped
      cases dropped
  · rintro ⟨blind, changed⟩
    cases reported : now[ruleId]? with
    | some state =>
      refine .inl ⟨(ruleId, state), mem_filter.mpr
        ⟨mem_toList_iff_getElem?_eq_some.mpr reported, ?_⟩, rfl⟩
      rw [and_eq_true, bne_iff_ne, beq_iff_eq]
      exact ⟨fun same => changed (reported.trans (congrArg some same)), blind⟩
    | none =>
      refine .inr ⟨(ruleId, .unsupported), mem_filter.mpr
        ⟨mem_toList_iff_getElem?_eq_some.mpr blind, ?_⟩, rfl⟩
      rw [and_eq_true, beq_iff_eq, not_eq_true', contains_eq_isSome_getElem?,
        reported]
      exact ⟨rfl, rfl⟩

section Written

variable {tenantId organizationId : Nat} {device : Device} {rows : List (UnsupportedRow Device)}
  {before now : States} {row : UnsupportedRow Device} {ruleId : String}

def written (tenantId organizationId : Nat) (device : Device) (before now : States)
    (rows : List (UnsupportedRow Device)) : List (UnsupportedRow Device) :=
  persistRuleCoverage tenantId organizationId device (diffCoverage before now) rows

/-- A row goes only when its rule is evaluable again. -/
theorem mem_written_of_mem (here : row ∈ rows)
    (stays : ¬ (row.tenantId = tenantId ∧ row.device = device ∧
      before[row.ruleId]? = some .unsupported ∧ now[row.ruleId]? ≠ some .unsupported)) :
    row ∈ written tenantId organizationId device before now rows := by
  rw [written, persistRuleCoverage, mem_clearAll, mem_nowActive]
  exact ⟨markAll_keeps here, stays⟩

/-- A row was there, or is one of a rule the report gives as unsupported. -/
theorem mem_of_mem_written (here : row ∈ written tenantId organizationId device before now rows) :
    ¬ (row.tenantId = tenantId ∧ row.device = device ∧
        before[row.ruleId]? = some .unsupported ∧ now[row.ruleId]? ≠ some .unsupported) ∧
      (row ∈ rows ∨ row.device = device ∧ now[row.ruleId]? = some .unsupported) := by
  rw [written, persistRuleCoverage, mem_clearAll, mem_nowActive] at here
  refine ⟨here.2, ?_⟩
  rcases mem_markAll here.1 with before | ⟨same, named⟩
  · exact .inl before
  · exact .inr ⟨same, (mem_nowUnsupported.mp named).1⟩

/-- What the report gives as unsupported is stored, if what it gave before was. -/
theorem stored_written
    (covered : before[ruleId]? = some .unsupported → StoredUnsupported rows device ruleId)
    (reported : now[ruleId]? = some .unsupported) :
    StoredUnsupported (written tenantId organizationId device before now rows) device ruleId := by
  by_cases known : before[ruleId]? = some .unsupported
  · obtain ⟨row, here, same, rfl⟩ := covered known
    exact ⟨row, mem_written_of_mem here fun gone => gone.2.2.2 reported, same, rfl⟩
  · obtain ⟨row, here, same, rfl⟩ := stored_markAll tenantId organizationId device rows
      (mem_nowUnsupported.mpr ⟨reported, known⟩)
    refine ⟨row, ?_, same, rfl⟩
    rw [written, persistRuleCoverage, mem_clearAll, mem_nowActive]
    exact ⟨here, fun gone => gone.2.2.2 reported⟩

/-- The rows of other devices are as they were. -/
theorem stored_written_other {other : Device} (different : other ≠ device) :
    StoredUnsupported (written tenantId organizationId device before now rows) other ruleId ↔
      StoredUnsupported rows other ruleId := by
  constructor
  · rintro ⟨row, here, rfl, rfl⟩
    rcases (mem_of_mem_written here).2 with was | ⟨same, -⟩
    · exact ⟨row, was, rfl, rfl⟩
    · exact absurd same different
  · rintro ⟨row, here, rfl, rfl⟩
    exact ⟨row, mem_written_of_mem here fun gone => different gone.2.1, rfl, rfl⟩

end Written

/-! ## The server and its table -/

structure CoverageServer (Device : Type) [Ord Device] where
  server : AgentServer Device Nat
  rows : List (UnsupportedRow Device)

/-- A section of a connection, with the customer its device is found under, or a restart. -/
inductive CoverageEvent (Device : Type) where
  | conn (event : ConnEvent Device Nat) (organizationId : Nat)
  | restart

namespace CoverageServer

variable [Ord Device] [TransOrd Device]

def new : CoverageServer Device := ⟨.new, []⟩

def remembered (s : CoverageServer Device) (device : Device) : States :=
  s.server.coverage.byDevice.getD device ∅

/-- The rows after a section: a report is written to its end. -/
def persisted (s : CoverageServer Device) (organizationId : Nat) :
    ConnEvent Device Nat → List (UnsupportedRow Device)
  | .report conn entries => (s.server.connAt conn .live).elim s.rows fun ac =>
    persistRuleCoverage ac.tenant organizationId ac.device
      (s.server.coverage.report ac.device entries).2 s.rows
  | _ => s.rows

def act (config : BackfillSchedulerConfig) (s : CoverageServer Device) :
    CoverageEvent Device → Option (CoverageServer Device)
  | .conn event organizationId => (s.server.act config event).map fun server =>
    ⟨server, s.persisted organizationId event⟩
  | .restart => some ⟨.new, s.rows⟩

abbrev Reached (config : BackfillSchedulerConfig) : CoverageServer Device → Prop :=
  Runs (act config) (fun _ _ => True) new

/-- Of the rules stored for a device, those that a report does not give as unsupported are
remembered as unsupported, and stored under the tenant of the connection. -/
def Remembers (s : CoverageServer Device) (ac : AgentConn Device Nat)
    (entries : List CoverageEntry) : Prop :=
  ∀ row ∈ s.rows, row.device = ac.device →
    (reportedStates entries)[row.ruleId]? ≠ some .unsupported →
    (s.remembered ac.device)[row.ruleId]? = some .unsupported ∧ row.tenantId = ac.tenant

/-- What is remembered as unsupported is stored. -/
def Covers (s : CoverageServer Device) : Prop :=
  ∀ device ruleId, (s.remembered device)[ruleId]? = some .unsupported →
    StoredUnsupported s.rows device ruleId

variable {config : BackfillSchedulerConfig} {s s' : CoverageServer Device}
  {conn organizationId : Nat} {entries : List CoverageEntry}

/-- A report either leaves everything or has its difference written. -/
theorem act_report (acts : s.act config (.conn (.report conn entries) organizationId) = some s') :
    ∃ ac, s.server.connAt conn .live = some ac ∧
      ((reportedStates entries).isEmpty = true ∧ s'.server.coverage = s.server.coverage ∧
          s'.rows = s.rows ∨
        (reportedStates entries).isEmpty = false ∧
          s'.server.coverage.byDevice
            = s.server.coverage.byDevice.insert ac.device (reportedStates entries) ∧
          s'.rows = written ac.tenant organizationId ac.device (s.remembered ac.device)
            (reportedStates entries) s.rows) := by
  obtain ⟨server, moves, rfl⟩ := Option.map_eq_some_iff.mp acts
  obtain ⟨ac, live, rfl⟩ := Option.map_eq_some_iff.mp moves
  refine ⟨ac, live, ?_⟩
  simp only [persisted, live, Option.elim_some, AgentServer.recordRuleCoverage,
    RuleCoverageStore.report]
  cases nothing : (reportedStates entries).isEmpty with
  | true => exact .inl ⟨rfl, rfl, rfl⟩
  | false => exact .inr ⟨rfl, rfl, rfl⟩

/-- Other sections write no row, and forget at most. -/
theorem act_rows {event : ConnEvent Device Nat}
    (acts : s.act config (.conn event organizationId) = some s')
    (quiet : ∀ conn entries, event ≠ .report conn entries) :
    s'.rows = s.rows ∧ (s'.server.coverage = s.server.coverage ∨
      ∃ device, s'.server.coverage = s.server.coverage.forget device) := by
  obtain ⟨server, moves, rfl⟩ := Option.map_eq_some_iff.mp acts
  cases event with
  | registerConn device tenant =>
    cases moves
    exact ⟨rfl, .inl rfl⟩
  | report conn entries => exact absurd rfl (quiet conn entries)
  | requestSlot conn now share | markReleased conn | release conn =>
    obtain ⟨ac, -, rfl⟩ := Option.map_eq_some_iff.mp moves
    exact ⟨rfl, .inl rfl⟩
  | setOnline conn stored =>
    obtain ⟨ac, -, rfl⟩ := Option.map_eq_some_iff.mp moves
    obtain ⟨statuses, status, shape⟩ :=
      s.server.setStatus_shape conn ac.device .online stored
    rw [shape]
    exact ⟨rfl, .inl rfl⟩
  | forget conn =>
    obtain ⟨ac, -, rfl⟩ := Option.map_eq_some_iff.mp moves
    exact ⟨rfl, .inr ⟨ac.device, rfl⟩⟩
  | releaseDeviceStatus conn stored =>
    obtain ⟨ac, -, rfl⟩ := Option.map_eq_some_iff.mp moves
    refine ⟨rfl, .inl ?_⟩
    rcases AgentServer.releaseDeviceStatus_shape
      { s.server with agents := s.server.movedTo conn ac .gone } conn ac.device stored with
      ⟨-, shape⟩ | ⟨-, statuses, status, shape⟩
    · rw [shape]
    · rw [shape]

variable [LawfulEqOrd Device]

theorem act_covers {event : CoverageEvent Device} (acts : s.act config event = some s')
    (covers : s.Covers) : s'.Covers := by
  intro device ruleId blind
  cases event with
  | restart =>
    cases acts
    simp [remembered, AgentServer.new, RuleCoverageStore.new, getD_empty] at blind
  | conn event organizationId =>
    by_cases reports : ∃ conn entries, event = .report conn entries
    · obtain ⟨conn, entries, rfl⟩ := reports
      obtain ⟨ac, -, ⟨-, coverage, rows⟩ | ⟨-, coverage, rows⟩⟩ := act_report acts
      · rw [remembered, coverage] at blind
        rw [rows]
        exact covers device ruleId blind
      · rw [remembered, coverage, getD_eq_getD_getElem?, insert_self] at blind
        rw [rows]
        split at blind
        next same =>
          subst same
          exact stored_written (covers ac.device ruleId) blind
        next different =>
          rw [stored_written_other fun same => different same.symm]
          refine covers device ruleId ?_
          rw [remembered, getD_eq_getD_getElem?]
          exact blind
    · obtain ⟨rows, coverage⟩ := act_rows acts fun conn entries same =>
        reports ⟨conn, entries, same⟩
      rw [rows]
      apply covers device ruleId
      rcases coverage with same | ⟨other, forgets⟩
      · rw [remembered, same] at blind
        exact blind
      · rw [remembered, forgets, getD_eq_getD_getElem?, RuleCoverageStore.forget, erase_self]
          at blind
        split at blind
        · simp at blind
        · rw [remembered, getD_eq_getD_getElem?]
          exact blind

theorem reached_covers (reached : Reached config s) : s.Covers := by
  refine Runs.invariant (I := Covers) ?_ (fun s event s' _ acts covers => act_covers acts covers)
    reached
  intro device ruleId blind
  simp [remembered, new, AgentServer.new, RuleCoverageStore.new, getD_empty] at blind

/-- After a report that names a rule, what is stored of the device is what the report gives as
unsupported, exactly when every stored rule it takes back is remembered. -/
theorem stored_follows_report_iff (config : BackfillSchedulerConfig) (s s' : CoverageServer Device)
    (reached : Reached config s) (conn organizationId : Nat) (entries : List CoverageEntry)
    (ac : AgentConn Device Nat) (here : s.server.agents[conn]? = some ac)
    (acts : s.act config (.conn (.report conn entries) organizationId) = some s')
    (valid : (reportedStates entries).isEmpty = false) :
    (∀ ruleId, StoredUnsupported s'.rows ac.device ruleId ↔
        (reportedStates entries)[ruleId]? = some .unsupported) ↔
      s.Remembers ac entries := by
  have covers := reached_covers reached
  obtain ⟨ac', live, ⟨nothing, -⟩ | ⟨-, -, rows⟩⟩ := act_report acts
  · rw [valid] at nothing
    cases nothing
  obtain ⟨there, -⟩ := AgentServer.connAt_eq_some.mp live
  cases here.symm.trans there
  rw [rows]
  constructor
  · intro exact row stored same takenBack
    by_contra unremembered
    have stays : row ∈ written ac.tenant organizationId ac.device (s.remembered ac.device)
        (reportedStates entries) s.rows :=
      mem_written_of_mem stored fun gone => unremembered ⟨gone.2.2.1, gone.1⟩
    exact takenBack ((exact row.ruleId).mp ⟨row, stays, same, rfl⟩)
  · intro remembers ruleId
    constructor
    · rintro ⟨row, here, same, rfl⟩
      obtain ⟨stays, origin⟩ := mem_of_mem_written here
      rcases origin with stored | ⟨-, reported⟩
      · by_contra takenBack
        obtain ⟨known, tenant⟩ := remembers row stored same takenBack
        exact stays ⟨tenant, same, known, takenBack⟩
      · exact reported
    · exact stored_written (covers ac.device ruleId)

def storedFor (s : CoverageServer (Fin 1)) : List String :=
  s.rows.map UnsupportedRow.ruleId

/-- A machine cannot evaluate a rule, then can again, over one connection. -/
theorem stored_follows_report_iff_again :
    ∃ s s' : CoverageServer (Fin 1), storedFor s = ["disk-full"] ∧
      s.act defaultBackfillSchedulerConfig (.conn (.report 0 (oneRule .active)) 7) = some s' ∧
      ∀ ruleId, ¬ StoredUnsupported s'.rows 0 ruleId := by
  obtain ⟨s, reached, rows, known, live⟩ : ∃ s : CoverageServer (Fin 1),
      Reached defaultBackfillSchedulerConfig s ∧ s.rows = [⟨0, "disk-full", 3, 7⟩] ∧
      (s.remembered 0)["disk-full"]? = some .unsupported ∧
      (s.server.connAt 0 .live).any (fun ac => ac.device == 0 && ac.tenant == 3) :=
    exists_run_of_follow [.conn (.registerConn 0 3) 7, .conn (.report 0 (oneRule .unsupported)) 7]
      (by decide +kernel)
  simp only [Option.any_eq_true, and_eq_true, beq_iff_eq] at live
  obtain ⟨ac, live, device, tenant⟩ := live
  have acts : ∃ s', s.act defaultBackfillSchedulerConfig (.conn (.report 0 (oneRule .active)) 7)
      = some s' := by
    rw [act, AgentServer.act, live]
    exact ⟨_, rfl⟩
  obtain ⟨s', acts⟩ := acts
  have active : ∀ ruleId : String, (reportedStates (oneRule .active))[ruleId]?
      ≠ some .unsupported := by
    intro ruleId
    rw [reportedStates_oneRule, insert_self]
    split <;> simp
  have exactly :=
    (stored_follows_report_iff defaultBackfillSchedulerConfig s s' reached 0 7 (oneRule .active)
    ac (AgentServer.connAt_eq_some.mp live).1 acts (by decide +kernel)).mpr ?_
  · refine ⟨s, s', by rw [storedFor, rows]; rfl, acts, fun ruleId stored => ?_⟩
    rw [device] at exactly
    exact active ruleId ((exactly ruleId).mp stored)
  · intro row stored same takenBack
    rw [rows] at stored
    rw [mem_singleton.mp stored, device, tenant]
    exact ⟨known, rfl⟩

/-- The machine reconnects in between: the server has forgotten what the row stands for, and
the row stays although the report gives the rule as active. -/
theorem stored_outlives_report :
    ∃ s s' : CoverageServer (Fin 1), Reached defaultBackfillSchedulerConfig s ∧
      s.act defaultBackfillSchedulerConfig (.conn (.report 1 (oneRule .active)) 7) = some s' ∧
      (reportedStates (oneRule .active))["disk-full"]? = some .active ∧
      StoredUnsupported s'.rows 0 "disk-full" := by
  obtain ⟨s, reached, acts⟩ : ∃ s : CoverageServer (Fin 1),
    Reached defaultBackfillSchedulerConfig s ∧
      (s.act defaultBackfillSchedulerConfig (.conn (.report 1 (oneRule .active)) 7)).any
        (fun s' => s'.rows == [⟨0, "disk-full", 3, 7⟩]) :=
    exists_run_of_follow [.conn (.registerConn 0 3) 7, .conn (.report 0 (oneRule .unsupported)) 7,
      .conn (.markReleased 0) 7, .conn (.release 0) 7, .conn (.forget 0) 7,
      .conn (.releaseDeviceStatus 0 true) 7, .conn (.registerConn 0 3) 7] (by decide +kernel)
  simp only [Option.any_eq_true, beq_iff_eq] at acts
  obtain ⟨s', acts, rows⟩ := acts
  refine ⟨s, s', reached, acts, by decide +kernel, ⟨0, "disk-full", 3, 7⟩, ?_, rfl, rfl⟩
  rw [rows]
  exact mem_singleton.mpr rfl

end CoverageServer

end OpenGate.Agents
