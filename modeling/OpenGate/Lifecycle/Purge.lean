import OpenGate.Lib.OrderedMap
import OpenGate.Lib.Tasks

/-!
# The purge of a tenant

`lifecycle/orchestrator.go` with `agentapi/deregister.go` and the check at the head of `accept`:
the deny-list is a table, which a purge fills for every device of the tenant, and a set in
memory, which `accept` reads and which is filled from the table at start-up and by
`DeregisterAgent` for the connected agents of the tenant.

A device that is not connected is in the table and not in the set.  What the purge promises of
`accept` holds for tenants whose devices are connected, or already in the set
(`purged_stay_out`), and for all of them after a restart.
-/

namespace OpenGate.Lifecycle

open OpenGate.Lib Std List ExtTreeMap

variable {Device Tenant : Type}

/-- The tables, the set of the agent server, and its connections with the tenant each was
resolved to. -/
structure Fleet (Device Tenant : Type) [Ord Device] where
  rows : ExtTreeMap Device Tenant Ord.compare
  deletedIds : List (Tenant × Option Device)
  tombstones : List Device
  conns : ExtTreeMap Device Tenant Ord.compare
  /-- The machines a removal order was delivered to. -/
  removals : List Device
  /-- The devices a tenant held when it was purged, for the purges that have returned. -/
  purged : List Device

/-- What a call has still to do.  Of the statements of a purge so many succeed; the next one
fails, and the purge returns its error.  The lookup of a connecting device's tenant succeeds or
fails. -/
inductive Task (Device Tenant : Type) where
  | purgeTenant (tenant : Tenant) (statements : Nat)
  | tombstoneTenant (tenant : Tenant) (held : List Device) (statements : Nat)
  | listTenantDeviceIds (tenant : Tenant) (held : List Device) (statements : Nat)
  | tombstoneDevices (tenant : Tenant) (held ids : List Device) (statements : Nat)
  | deregisterTenant (tenant : Tenant) (held : List Device)
  | deregisterAgents (held agents : List Device)
  | purgeDevice (tenant : Tenant) (device : Device)
  | deregisterAgent (device : Device)
  | accept (device : Device) (resolves : Bool)
  | scopeForDevice (device : Device) (resolves : Bool)
  | registerConn (device : Device) (tenant : Tenant)
  | register (device : Device)
  | unregisterConn (device : Device)

def Task.Calls : Task Device Tenant → Prop
  | .purgeTenant .. | .purgeDevice .. | .accept .. | .register _ | .unregisterConn _ => True
  | _ => False

namespace Fleet

variable [Ord Device]

def new (rows : ExtTreeMap Device Tenant Ord.compare) : Fleet Device Tenant :=
  ⟨rows, [], [], ∅, [], []⟩

section Functions

variable [TransOrd Device] [DecidableEq Device] [DecidableEq Tenant]

/-- `SELECT id FROM devices WHERE tenant_id = …`. -/
def tenantDeviceIds (s : Fleet Device Tenant) (tenant : Tenant) : List Device :=
  (s.rows.toList.filter fun row => row.2 = tenant).map Prod.fst

def connectedAgents (s : Fleet Device Tenant) (tenant : Tenant) : List Device :=
  (s.conns.toList.filter fun ac => ac.2 = tenant).map Prod.fst

/-- `INSERT INTO deleted_ids … ON CONFLICT DO NOTHING`. -/
def tombstone (s : Fleet Device Tenant) (tenant : Tenant) (device : Option Device) :
    Fleet Device Tenant :=
  { s with deletedIds := s.deletedIds.insert (tenant, device) }

/-- One step of a call; a device without a row, or whose lookup fails, is taken for the default
tenant's. -/
def exec (default : Tenant) (s : Fleet Device Tenant) :
    Task Device Tenant → Option (Fleet Device Tenant × List (Task Device Tenant))
  | .purgeTenant tenant (statements + 1) =>
    some (s, [.tombstoneTenant tenant (s.tenantDeviceIds tenant) statements])
  | .tombstoneTenant tenant held (statements + 1) =>
    some (s.tombstone tenant none, [.listTenantDeviceIds tenant held statements])
  | .listTenantDeviceIds tenant held (statements + 1) =>
    some (s, [.tombstoneDevices tenant held (s.tenantDeviceIds tenant) statements])
  | .tombstoneDevices tenant held [] _ => some (s, [.deregisterTenant tenant held])
  | .tombstoneDevices tenant held (id :: ids) (statements + 1) =>
    some (s.tombstone tenant (some id), [.tombstoneDevices tenant held ids statements])
  | .purgeTenant _ 0 | .tombstoneTenant _ _ 0 | .listTenantDeviceIds _ _ 0
    | .tombstoneDevices _ _ _ 0 =>
    some (s, [])
  | .deregisterTenant tenant held => some (s, [.deregisterAgents held (s.connectedAgents tenant)])
  | .deregisterAgents held (device :: agents) =>
    some ({ s with tombstones := s.tombstones.insert device }, [.deregisterAgents held agents])
  | .deregisterAgents held [] => some ({ s with purged := held ++ s.purged }, [])
  | .purgeDevice tenant device => some (s.tombstone tenant (some device), [.deregisterAgent device])
  | .deregisterAgent device => some ({ s with tombstones := s.tombstones.insert device }, [])
  | .accept device resolves =>
    if device ∈ s.tombstones then some ({ s with removals := device :: s.removals }, [])
    else some (s, [.scopeForDevice device resolves])
  | .scopeForDevice device resolves =>
    some (s, [.registerConn device (if resolves then s.rows[device]?.getD default else default)])
  | .registerConn device tenant => some ({ s with conns := s.conns.insert device tenant }, [])
  | .register device =>
    match s.conns[device]? with
    | none => some (s, [])
    | some tenant =>
      if device ∈ s.tombstones ∨ device ∈ s.rows then some (s, [])
      else some ({ s with rows := s.rows.insert device tenant }, [])
  | .unregisterConn device => some ({ s with conns := s.conns.erase device }, [])

/-- A fresh server whose set is warmed from the table, or empty where that cannot be read. -/
def restart (s : Fleet Device Tenant) (warmed : Bool) : Fleet Device Tenant :=
  { s with tombstones := if warmed then s.deletedIds.filterMap Prod.snd else [], conns := ∅ }

end Functions

end Fleet

/-- The device a call is about to admit. -/
def Task.admits : Task Device Tenant → Option Device
  | .scopeForDevice device _ | .registerConn device _ => some device
  | _ => none

abbrev World (Device Tenant : Type) [Ord Device] := Pool (Fleet Device Tenant) (Task Device Tenant)

section Runs

variable [Ord Device] [TransOrd Device] [DecidableEq Device] [DecidableEq Tenant]

/-- The states that steps within a guard and restarts of a kind lead to. -/
abbrev Reached (default : Tenant) (guard : World Device Tenant → Task Device Tenant → Prop)
    (warms : Bool → Prop) (rows : ExtTreeMap Device Tenant Ord.compare) :
    World Device Tenant → Prop :=
  RestartReached (fun s left => ∃ warmed, warms warmed ∧ left = s.restart warmed) Task.Calls
    (Fleet.exec default) guard (Fleet.new rows)

/-- When the agents of the tenant are deregistered, each of its devices is connected under the
tenant, or in the set; when the purge returns, none is about to be admitted. -/
def Present (w : World Device Tenant) : Task Device Tenant → Prop
  | .deregisterTenant tenant held => ∀ device ∈ held,
      device ∈ w.shared.tombstones ∨ w.shared.conns[device]? = some tenant
  | .deregisterAgents held [] => ∀ device ∈ held, ∀ task ∈ w.tasks, task.admits ≠ some device
  | _ => True

instance (w : World Device Tenant) (task : Task Device Tenant) : Decidable (Present w task) := by
  unfold Present
  split <;> infer_instance

end Runs

/-! ## The table and the set -/

section Invariant

variable [Ord Device]

/-- A device is on the deny-list that outlives the server. -/
def Fleet.Listed (s : Fleet Device Tenant) (device : Device) : Prop :=
  ∃ tenant, (tenant, some device) ∈ s.deletedIds

/-- What a purge under way has done for the devices its tenant held. -/
def Task.Holds [TransOrd Device] (s : Fleet Device Tenant) : Task Device Tenant → Prop
  | .tombstoneTenant tenant held _ | .listTenantDeviceIds tenant held _ =>
    ∀ device ∈ held, s.rows[device]? = some tenant
  | .tombstoneDevices _ held ids _ => ∀ device ∈ held, s.Listed device ∨ device ∈ ids
  | .deregisterTenant _ held => ∀ device ∈ held, s.Listed device
  | .deregisterAgents held agents => ∀ device ∈ held,
      s.Listed device ∧ (device ∈ s.tombstones ∨ device ∈ agents)
  | _ => True

/-- No call is about to admit a purged device. -/
def Task.Fits [TransOrd Device] (s : Fleet Device Tenant) (task : Task Device Tenant) : Prop :=
  (∀ device ∈ task.admits, device ∉ s.purged) ∧ task.Holds s

/-- A purged device is on both deny-lists. -/
structure Kept [TransOrd Device] (s : Fleet Device Tenant) (tasks : List (Task Device Tenant)) :
    Prop where
  listed : ∀ device ∈ s.purged, s.Listed device
  denied : ∀ device ∈ s.purged, device ∈ s.tombstones
  fits : ∀ task ∈ tasks, task.Fits s

/-- The deny-lists and the rows only grow. -/
structure Grows [TransOrd Device] (s s' : Fleet Device Tenant) : Prop where
  listed : ∀ device, s.Listed device → s'.Listed device
  denied : ∀ device ∈ s.tombstones, device ∈ s'.tombstones
  rows : ∀ (device : Device) (tenant : Tenant), s.rows[device]? = some tenant →
    s'.rows[device]? = some tenant

variable [TransOrd Device] {s s' : Fleet Device Tenant}
  {before after next : List (Task Device Tenant)} {task : Task Device Tenant}

/-- A step on neither the deny-lists nor the rows. -/
theorem Grows.of_eq (deletedIds : s'.deletedIds = s.deletedIds)
    (tombstones : s'.tombstones = s.tombstones) (rows : s'.rows = s.rows) : Grows s s' :=
  ⟨fun _ ⟨tenant, listed⟩ => ⟨tenant, deletedIds ▸ listed⟩, fun _ denied => tombstones ▸ denied,
    fun _ _ row => rows ▸ row⟩

theorem Task.Holds.mono (holds : task.Holds s) (grows : Grows s s') : task.Holds s' := by
  cases task with
  | tombstoneTenant tenant held statements | listTenantDeviceIds tenant held statements =>
    exact fun device here => grows.rows device tenant (holds device here)
  | tombstoneDevices tenant held ids statements =>
    exact fun device here => (holds device here).imp (grows.listed device) id
  | deregisterTenant tenant held => exact fun device here => grows.listed device (holds device here)
  | deregisterAgents held agents =>
    exact fun device here => ⟨grows.listed device (holds device here).1,
      (holds device here).2.imp (grows.denied device) id⟩
  | _ => trivial

section

variable (kept : Kept s (before ++ task :: after)) (grows : Grows s s')
  (purged : s'.purged = s.purged)
include kept grows purged

/-- A step that purges none: the tasks it leaves admit what the task did, or what is not denied. -/
theorem Kept.run
    (left : ∀ other ∈ next,
      (∀ device ∈ other.admits, task.admits = some device ∨ device ∉ s.tombstones) ∧
      other.Holds s') : Kept s' (before ++ next ++ after) := by
  refine ⟨?_, ?_, ?_⟩
  · rw [purged]
    exact fun device here => grows.listed device (kept.listed device here)
  · rw [purged]
    exact fun device here => grows.denied device (kept.denied device here)
  · refine tasks_run kept.fits (fun other _ was => ⟨purged ▸ was.1, was.2.mono grows⟩)
      fun other here =>
      ⟨fun device admitted gone => ?_, (left other here).2⟩
    rw [purged] at gone
    rcases (left other here).1 device admitted with same | undenied
    · exact (kept.fits task (by simp)).1 device same gone
    · exact undenied (kept.denied device gone)

/-- The end of a call. -/
theorem Kept.over : Kept s' (before ++ [] ++ after) :=
  kept.run grows purged (forall_mem_nil _)

/-- A call that goes on, and admits nothing. -/
theorem Kept.goesOn {left : Task Device Tenant} (idle : left.admits = none)
    (holds : left.Holds s') : Kept s' (before ++ [left] ++ after) := by
  refine kept.run grows purged (forall_mem_singleton.mpr ⟨fun device admitted => ?_, holds⟩)
  rw [idle] at admitted
  cases admitted

end

/-- The return of a purge, when nothing is about to admit a device it was for. -/
theorem Kept.purge {held : List Device}
    (kept : Kept s (before ++ .deregisterAgents held [] :: after))
    (holds : Task.Holds s (.deregisterAgents held []))
    (quiet : ∀ device ∈ held, ∀ task ∈ before ++ .deregisterAgents held [] :: after,
      task.admits ≠ some device) :
    Kept { s with purged := held ++ s.purged } (before ++ [] ++ after) := by
  refine ⟨fun device here => ?_, fun device here => ?_, ?_⟩
  · rcases mem_append.mp here with now | earlier
    · exact (holds device now).1
    · exact kept.listed device earlier
  · rcases mem_append.mp here with now | earlier
    · exact (holds device now).2.resolve_right not_mem_nil
    · exact kept.denied device earlier
  · refine tasks_run (fun other here => And.intro (kept.fits other here) fun device now =>
      quiet device now other here) ?_ (forall_mem_nil _)
    rintro other - ⟨⟨admits, holds⟩, quiet⟩
    refine ⟨fun device admitted gone => ?_, holds.mono (.of_eq rfl rfl rfl)⟩
    rcases mem_append.mp gone with now | earlier
    · exact quiet device now admitted
    · exact admits device admitted earlier

/-- A restart that reads the table denies all that was purged. -/
theorem Kept.restart {tasks : List (Task Device Tenant)} (kept : Kept s tasks) :
    Kept (s.restart true) [] := by
  refine ⟨kept.listed, fun device here => ?_, forall_mem_nil _⟩
  obtain ⟨tenant, listed⟩ := kept.listed device here
  exact mem_filterMap.mpr ⟨(tenant, some device), listed, rfl⟩

end Invariant

section Steps

variable [Ord Device] [TransOrd Device] [DecidableEq Device] [DecidableEq Tenant]
  {s s' : Fleet Device Tenant} {before after next : List (Task Device Tenant)}
  {task : Task Device Tenant} {tenant : Tenant} {device : Device}

theorem grows_tombstone (device : Option Device) : Grows s (s.tombstone tenant device) :=
  ⟨fun _ ⟨tenant, listed⟩ => ⟨tenant, mem_insert_of_mem listed⟩, fun _ denied => denied,
    fun _ _ row => row⟩

omit [DecidableEq Tenant] in
theorem grows_deny : Grows s { s with tombstones := s.tombstones.insert device } :=
  ⟨fun _ listed => listed, fun _ denied => mem_insert_of_mem denied, fun _ _ row => row⟩

omit [TransOrd Device] in
theorem listed_tombstone : (s.tombstone tenant (some device)).Listed device :=
  ⟨tenant, mem_insert_self⟩

omit [DecidableEq Device] in
theorem mem_tenantDeviceIds [LawfulEqOrd Device] :
    device ∈ s.tenantDeviceIds tenant ↔ s.rows[device]? = some tenant := by
  rw [Fleet.tenantDeviceIds, mem_map]
  constructor
  · rintro ⟨⟨_, _⟩, here, rfl⟩
    obtain ⟨row, same⟩ := mem_filter.mp here
    rw [← of_decide_eq_true same]
    exact mem_toList_iff_getElem?_eq_some.mp row
  · exact fun row => ⟨(device, tenant), mem_filter.mpr
      ⟨mem_toList_iff_getElem?_eq_some.mpr row, decide_eq_true rfl⟩, rfl⟩

omit [DecidableEq Device] in
theorem mem_connectedAgents [LawfulEqOrd Device] (held : s.conns[device]? = some tenant) :
    device ∈ s.connectedAgents tenant :=
  mem_map.mpr ⟨(device, tenant), mem_filter.mpr
    ⟨mem_toList_iff_getElem?_eq_some.mpr held, decide_eq_true rfl⟩, rfl⟩

variable [LawfulEqOrd Device] {default : Tenant}

theorem exec_kept (ran : s.exec default task = some (s', next))
    (present : Present ⟨s, before ++ task :: after⟩ task)
    (kept : Kept s (before ++ task :: after)) : Kept s' (before ++ next ++ after) := by
  have holds := (kept.fits task (by simp)).2
  have same : Grows s s := .of_eq rfl rfl rfl
  cases task with
  | purgeTenant tenant statements =>
    cases statements with
    | zero =>
      cases ran
      exact kept.over same rfl
    | succ statements =>
      cases ran
      exact kept.goesOn same rfl rfl fun device here => mem_tenantDeviceIds.mp here
  | tombstoneTenant tenant held statements =>
    cases statements with
    | zero =>
      cases ran
      exact kept.over same rfl
    | succ statements =>
      cases ran
      exact kept.goesOn (grows_tombstone none) rfl rfl holds
  | listTenantDeviceIds tenant held statements =>
    cases statements with
    | zero =>
      cases ran
      exact kept.over same rfl
    | succ statements =>
      cases ran
      exact kept.goesOn same rfl rfl fun device here =>
        .inr (mem_tenantDeviceIds.mpr (holds device here))
  | tombstoneDevices tenant held ids statements =>
    cases ids with
    | nil =>
      cases ran
      exact kept.goesOn same rfl rfl fun device here =>
        (holds device here).resolve_right not_mem_nil
    | cons id ids =>
      cases statements with
      | zero =>
        cases ran
        exact kept.over same rfl
      | succ statements =>
        cases ran
        refine kept.goesOn (grows_tombstone (some id)) rfl rfl fun device here => ?_
        rcases holds device here with listed | ahead
        · exact .inl ((grows_tombstone (some id)).listed device listed)
        · rcases mem_cons.mp ahead with rfl | rest
          · exact .inl (listed_tombstone)
          · exact .inr rest
  | deregisterTenant tenant held =>
    cases ran
    refine kept.goesOn same rfl rfl fun device here => ⟨holds device here, ?_⟩
    exact (present device here).imp_right mem_connectedAgents
  | deregisterAgents held agents =>
    cases agents with
    | nil =>
      cases ran
      exact kept.purge holds present
    | cons device agents =>
      cases ran
      refine kept.goesOn (grows_deny) rfl rfl fun other here => ⟨(holds other here).1, ?_⟩
      rcases (holds other here).2 with denied | ahead
      · exact .inl (mem_insert_of_mem denied)
      · rcases mem_cons.mp ahead with rfl | rest
        · exact .inl mem_insert_self
        · exact .inr rest
  | purgeDevice tenant device =>
    cases ran
    exact kept.goesOn (grows_tombstone (some device)) rfl rfl trivial
  | deregisterAgent device =>
    cases ran
    exact kept.over (grows_deny) rfl
  | accept device resolves =>
    rw [Fleet.exec] at ran
    split at ran
    · cases ran
      exact kept.over (.of_eq rfl rfl rfl) rfl
    next undenied =>
      cases ran
      refine kept.run same rfl (forall_mem_singleton.mpr ⟨?_, trivial⟩)
      rintro _ ⟨⟩
      exact .inr undenied
  | scopeForDevice device resolves =>
    cases ran
    exact kept.run same rfl
      (forall_mem_singleton.mpr ⟨fun other admitted => .inl admitted, trivial⟩)
  | registerConn device tenant | unregisterConn device =>
    cases ran
    exact kept.over (.of_eq rfl rfl rfl) rfl
  | register device =>
    rw [Fleet.exec] at ran
    split at ran
    · cases ran
      exact kept.over same rfl
    next tenant here =>
      split at ran
      · cases ran
        exact kept.over same rfl
      next absent =>
        cases ran
        refine kept.over ⟨fun _ listed => listed, fun _ denied => denied, fun other owner row => ?_⟩
          rfl
        rw [insert_self, if_neg]
        · exact row
        · rintro rfl
          refine absent (.inr ?_)
          rw [mem_iff_isSome_getElem?, row]
          rfl

/-- Where the devices of a purged tenant are connected under it, or in the set already, when its
agents are deregistered, none is being admitted when the purge returns, and every restart reads
the table, a device held by a tenant whose purge has returned is told to remove itself, and no
call is about to admit it. -/
theorem purged_stay_out {rows : ExtTreeMap Device Tenant Ord.compare} {w : World Device Tenant}
    (reached : Reached default Present (· = true) rows w) (device : Device)
    (purged : device ∈ w.shared.purged) :
    (∀ resolves, w.shared.exec default (.accept device resolves)
        = some ({ w.shared with removals := device :: w.shared.removals }, []))
      ∧ ∀ task ∈ w.tasks, task.admits ≠ some device := by
  have kept : Kept w.shared w.tasks := by
    refine RestartReached.invariant (I := Kept) ?_ ?_ ?_ ?_ reached
    · exact ⟨forall_mem_nil _, forall_mem_nil _, forall_mem_nil _⟩
    · intro s tasks task call kept
      refine ⟨kept.listed, kept.denied, tasks_begin kept.fits ⟨?_, ?_⟩⟩
      · cases task <;> cases call <;> nofun
      · cases task <;> cases call <;> trivial
    · exact fun s s' before after next task ran present kept => exec_kept ran present kept
    · rintro s left tasks ⟨warmed, rfl, rfl⟩ kept
      exact kept.restart
  refine ⟨fun resolves => ?_, fun task here admitted =>
    (kept.fits task here).1 device admitted purged⟩
  rw [Fleet.exec, if_pos (kept.denied device purged)]

end Steps

/-! ## One tenant with one device -/

instance (task : Task Device Tenant) : Decidable task.Calls := by
  unfold Task.Calls
  split <;> infer_instance

def purgedOnce (connected : Bool) : List (Choice (Task Nat Nat)) :=
  let connects := [.begin (.accept 0 true), .run 0, .run 0, .run 0]
  let purges := .begin (.purgeTenant 1 4) :: (List.replicate 8 0).map .run
  if connected then connects ++ purges else purges.dropLast ++ connects

def oneRow : ExtTreeMap Nat Nat Ord.compare := ExtTreeMap.insert ∅ 0 1

def isPurged (w : World Nat Nat) : Bool := w.tasks.isEmpty && w.shared.purged == [0]

/-- A machine that was connected gets the removal order, also after a restart. -/
theorem purged_stay_out_connected :
    ∃ w : World Nat Nat, isPurged w = true ∧
      w.shared.exec 0 (.accept 0 true)
        = some ({ w.shared with removals := 0 :: w.shared.removals }, []) ∧
      (w.shared.restart true).exec 0 (.accept 0 true)
        = some ({ w.shared.restart true with removals := 0 :: w.shared.removals }, []) := by
  obtain ⟨w, reached, good⟩ : ∃ w, Reached 0 Present (· = true) oneRow w ∧ isPurged w :=
    exists_restartReached_of_follow (purgedOnce true) (by decide) (by decide +kernel)
  have purged : 0 ∈ w.shared.purged := by
    simp only [isPurged, Bool.and_eq_true, beq_iff_eq] at good
    rw [good.2]
    exact mem_singleton.mpr rfl
  have again : Reached 0 Present (· = true) oneRow ⟨w.shared.restart true, []⟩ :=
    reached.tail (.restart w ⟨true, rfl, rfl⟩)
  exact ⟨w, good, (purged_stay_out reached 0 purged).1 true,
    (purged_stay_out again 0 purged).1 true⟩

/-- A machine that was offline is on the table and not in the set: when it connects after the
purge, it is admitted. -/
theorem purged_while_offline :
    ∃ w : World Nat Nat, Reached 0 (fun _ _ => True) (· = true) oneRow w ∧
      w.tasks = [] ∧ w.shared.purged = [0] ∧ w.shared.conns[0]? = some 1 ∧
      w.shared.removals = [] := by
  exact exists_restartReached_of_follow (purgedOnce false) (by decide) (by decide +kernel)

end OpenGate.Lifecycle
