import OpenGate.Agents.Connections
import OpenGate.Agents.Coverage
import OpenGate.Lib.Tasks
import OpenGate.Rules.Resolve

/-!
# What a deleted device can still write

`handleControl` of `agentapi/conn.go` with the handlers behind it, `DeregisterAgent` and `accept`,
for the connections of one device.  A device that is on the deny-list is turned away where it
connects, and on a connection that is there already its messages are checked against a list of types
before they are dispatched.  Every store statement, every job that a handler starts and every part
of `accept` and `DeregisterAgent` is a step of its own.

The deny-list only grows, so a message that begins late is checked late.  The list of types names
every message whose handler writes, except the hardware report and the acknowledgement of an update:
`late_writes_unlisted` says that nothing else gets through, and `deleted_writes_nothing` that
nothing at all does while these two do not come.
-/

namespace OpenGate.Agents.Dispatch

open OpenGate.Alerts OpenGate.Lib OpenGate.Rules List

/-- What is stored as it comes: the samples a message makes, the components of a discovery report,
and the alerts. -/
structure Contents where
  Sample : Type
  Component : Type
  Alert : Type

variable {C : Contents}

/-! ## The stores -/

structure DeviceRow where
  hostname : String
  os : String
  osDisplay : String
  agentVersion : String
  capabilities : List String
  status : DeviceStatus
  deriving DecidableEq

structure NetworkInterfaceInfo where
  name : String
  mac : String
  ipv4 : List String
  ipv6 : List String
  deriving DecidableEq

/-- The hardware of a device as it is written; what is none keeps the stored value. -/
structure Hardware where
  cpuModel : String
  cpuCores : Nat
  ramTotalMB : Int
  diskTotalMB : Int
  diskFreeMB : Int
  networkInterfaces : List NetworkInterfaceInfo
  systemUuid : Option Uuid
  amtAvailable : Option Bool
  amtVersion : String
  deriving DecidableEq

inductive UpdateStatus where
  | pending
  | success
  | failed
  deriving DecidableEq

structure DeviceUpdate where
  version : String
  status : UpdateStatus
  error : String
  deriving DecidableEq

structure Tables (C : Contents) where
  device : Option DeviceRow
  hardware : Option Hardware
  updates : List DeviceUpdate
  telemetry : List C.Sample
  inventory : List C.Component
  alerts : List C.Alert
  /-- The rules the device cannot evaluate. -/
  coverage : List String

inductive Table where
  | device
  | hardware
  | update
  | telemetry
  | inventory
  | alert
  | coverage
  deriving DecidableEq

inductive Statement (C : Contents) where
  | upsertDevice (d : DeviceRow)
  | setStatus (status : DeviceStatus)
  | upsertHardware (hw : Hardware)
  | setUpdateStatus (version : String) (status : UpdateStatus) (error : String)
  | writeSamples (batch : List C.Sample)
  | replaceInventory (components : List C.Component)
  /-- An alert, and whether its customer is known and it is neither a duplicate nor over the
  budget. -/
  | recordAlert (alert : C.Alert) (stored : Bool)
  | markUnsupported (ruleId : String)
  | clearUnsupported (ruleId : String)

def Statement.table : Statement C → Table
  | .upsertDevice _ | .setStatus _ => .device
  | .upsertHardware _ => .hardware
  | .setUpdateStatus .. => .update
  | .writeSamples _ => .telemetry
  | .replaceInventory _ => .inventory
  | .recordAlert .. => .alert
  | .markUnsupported _ | .clearUnsupported _ => .coverage

/-- `ON CONFLICT (device_id) DO UPDATE`. -/
def Hardware.onConflict (hw : Hardware) : Option Hardware → Hardware
  | none => { hw with amtAvailable := some (hw.amtAvailable.getD false) }
  | some stored =>
    { hw with
      systemUuid := hw.systemUuid.or stored.systemUuid
      amtAvailable := hw.amtAvailable.or stored.amtAvailable
      amtVersion := if hw.amtVersion = "" then stored.amtVersion else hw.amtVersion }

/-- Runs a statement, and tells whether a row was inserted or updated.  The tables of the device
refer to its row, apart from the samples, which another store holds. -/
def Tables.run (t : Tables C) : Statement C → Tables C × Bool
  | .upsertDevice d => ({ t with device := some d }, true)
  | .setStatus status =>
    match t.device with
    | none => (t, false)
    | some d => ({ t with device := some { d with status } }, true)
  | .upsertHardware hw =>
    if t.device.isSome then ({ t with hardware := some (hw.onConflict t.hardware) }, true)
    else (t, false)
  | .setUpdateStatus version status error =>
    ({ t with
        updates := t.updates.map fun u =>
          if u.version = version then { u with status, error } else u },
      t.updates.any fun u => u.version = version)
  | .writeSamples batch => ({ t with telemetry := t.telemetry ++ batch }, !batch.isEmpty)
  | .replaceInventory components =>
    if t.device.isSome then ({ t with inventory := components }, true) else (t, false)
  | .recordAlert alert stored =>
    if t.device.isSome && stored then ({ t with alerts := t.alerts ++ [alert] }, true)
    else (t, false)
  | .markUnsupported ruleId =>
    if t.device.isSome && !t.coverage.contains ruleId then
      ({ t with coverage := t.coverage ++ [ruleId] }, true)
    else (t, false)
  | .clearUnsupported ruleId => ({ t with coverage := t.coverage.filter (· ≠ ruleId) }, false)

/-! ## Messages -/

inductive ControlMessageType where
  | agentRegister
  | agentHeartbeat
  | sessionAccept
  | sessionReject
  | agentUpdateAck
  | hardwareReport
  | hardwareReportError
  | deviceLogsResponse
  | deviceLogsError
  | agentHealthSummary
  | agentMetricWindow
  | discoveryReport
  | healthWindowResponse
  | requestBackfillSlot
  | metricBackfillBatch
  | localHistoryResponse
  | maintenanceApplied
  | agentAlert
  | certificateSigningRequest
  | certificateInstalled
  /-- Those the server only sends, and unknown ones. -/
  | other
  deriving DecidableEq

structure HardwareReport where
  cpuModel : String := ""
  cpuCores : UInt32 := 0
  ramTotalMB : UInt64 := 0
  diskTotalMB : UInt64 := 0
  diskFreeMB : UInt64 := 0
  networkInterfaces : List NetworkInterfaceInfo := []
  systemUuid : String := ""
  amtAvailable : Option Bool := none
  amtVersion : String := ""

/-- A control message: its type, and what the handlers read of it.  Telemetry comes as the samples
that the vocabulary leaves of it, and an alert as what its validation makes. -/
structure ControlMessage (C : Contents) where
  type : ControlMessageType
  hostname : String := ""
  os : String := ""
  version : String := ""
  capabilities : List String := []
  success : Option Bool := none
  ackError : String := ""
  report : HardwareReport := {}
  ts : Int := 0
  samples : List C.Sample := []
  ruleCoverage : List CoverageEntry := []
  components : List C.Component := []
  alert : Option C.Alert := none
  stored : Bool := false

/-- The types that are denied for a device on the deny-list. -/
def isWritePathMessage : ControlMessageType → Bool
  | .agentRegister | .agentHeartbeat | .agentHealthSummary | .agentMetricWindow | .discoveryReport
  | .healthWindowResponse | .requestBackfillSlot | .metricBackfillBatch | .agentAlert => true
  | _ => false

/-! ## The handlers -/

structure Library where
  toLower : String → String
  parseUuid : String → Option Uuid

def normalizeOS (lib : Library) (agentOS : String) : String :=
  let lower := lib.toLower agentOS
  let names := fun name : String => decide (name.toList <:+: lower.toList)
  if lower = "linux" ∨ lower = "windows" then lower
  else if ["linux", "ubuntu", "debian", "fedora", "centos", "rhel", "arch", "alpine"].any names then
    "linux"
  else if names "windows" then "windows"
  else lower

def clampInt64 (v : UInt64) : Int := min (v.toNat : Int) (2 ^ 63 - 1)

def parseSystemUUID (lib : Library) (raw : String) : Option Uuid :=
  if raw = "" then none else lib.parseUuid raw

def maxTelemetryPayloadBytes : Nat := 64 * 1024

def minTelemetryIntervalSeconds : Int := 10

def telemetryConcurrentWrites : Nat := 4

def telemetryFlushMaxSamples : Nat := 512

def maxDiscoveryPayloadBytes : Nat := 2 ^ 20

def minDiscoveryIntervalSeconds : Int := 30

/-- The evidence cap and the headroom around it. -/
def maxAlertPayloadBytes : Nat := 64 * 1024 + 8 * 1024

structure ControlLoop (C : Contents) where
  capabilities : List String
  telemetryLast : ControlMessageType → Option Int
  telemetryBuf : List C.Sample
  telemetrySlots : Nat

/-- What a handler does: what it leaves the loop, what the device is known to report, the jobs it
starts and the statements it runs. -/
structure Effect (C : Contents) where
  loop : ControlLoop C
  reported : States
  jobs : List (Statement C) := []
  statements : List (Statement C) := []

section Handlers

variable (a : ControlLoop C) (reported : States) (lib : Library) (msg : ControlMessage C)
  (size : Nat)

/-- The payload cap and the interval floor of a type of message. -/
def ControlLoop.acceptPaced (maxBytes : Nat) (interval : Int) : Option (ControlLoop C) :=
  if maxBytes < size then none
  else if msg.ts ≤ 0 then some a
  else if (a.telemetryLast msg.type).any fun last => msg.ts - last < interval then none
  else some { a with telemetryLast := Function.update a.telemetryLast msg.type (some msg.ts) }

def ControlLoop.acceptTelemetry : Option (ControlLoop C) :=
  a.acceptPaced msg size maxTelemetryPayloadBytes minTelemetryIntervalSeconds

def ControlLoop.acceptDiscovery : Option (ControlLoop C) :=
  a.acceptPaced msg size maxDiscoveryPayloadBytes minDiscoveryIntervalSeconds

/-- Starts a job in a free slot, or drops it. -/
def ControlLoop.persistTelemetry (job : Statement C) : ControlLoop C × List (Statement C) :=
  if a.telemetrySlots < telemetryConcurrentWrites then
    ({ a with telemetrySlots := a.telemetrySlots + 1 }, [job])
  else (a, [])

def ControlLoop.flushTelemetry : ControlLoop C × List (Statement C) :=
  if a.telemetryBuf.isEmpty then (a, [])
  else { a with telemetryBuf := [] }.persistTelemetry (.writeSamples a.telemetryBuf)

def ControlLoop.bufferTelemetry (samples : List C.Sample) : ControlLoop C × List (Statement C) :=
  if samples.isEmpty then (a, [])
  else
    let a := { a with telemetryBuf := a.telemetryBuf ++ samples }
    if telemetryFlushMaxSamples ≤ a.telemetryBuf.length then a.flushTelemetry else (a, [])

def handleRegister : Effect C where
  loop := { a with capabilities := msg.capabilities }
  reported := reported
  statements :=
    [.upsertDevice
      ⟨msg.hostname, normalizeOS lib msg.os, msg.os, msg.version, msg.capabilities, .online⟩,
      .setStatus .online]

def handleHeartbeat : Effect C :=
  let (a, jobs) := a.flushTelemetry
  ⟨a, reported, jobs, [.setStatus .online]⟩

def handleUpdateAck : Effect C where
  loop := a
  reported := reported
  statements :=
    [.setUpdateStatus msg.version (if msg.success = some true then .success else .failed)
      msg.ackError]

def handleHardwareReport : Effect C where
  loop := a
  reported := reported
  statements := [.upsertHardware
    { cpuModel := msg.report.cpuModel
      cpuCores := msg.report.cpuCores.toNat
      ramTotalMB := clampInt64 msg.report.ramTotalMB
      diskTotalMB := clampInt64 msg.report.diskTotalMB
      diskFreeMB := clampInt64 msg.report.diskFreeMB
      networkInterfaces := msg.report.networkInterfaces
      systemUuid := parseSystemUUID lib msg.report.systemUuid
      amtAvailable := msg.report.amtAvailable
      amtVersion := msg.report.amtVersion }]

def recordRuleCoverage (entries : List CoverageEntry) : States × List (Statement C) :=
  let states := reportedStates entries
  if states.isEmpty then (reported, [])
  else
    let delta := diffCoverage reported states
    (states, delta.nowUnsupported.map .markUnsupported ++ delta.nowActive.map .clearUnsupported)

def handleAgentHealthSummary : Effect C :=
  match a.acceptTelemetry msg size with
  | none => { loop := a, reported }
  | some a =>
    let (reported, statements) := recordRuleCoverage reported msg.ruleCoverage
    let (a, jobs) := a.bufferTelemetry msg.samples
    ⟨a, reported, jobs, statements⟩

/-- `handleAgentMetricWindow` and `handleHealthWindowResponse`, whose samples are only buffered. -/
def handleTelemetry : Effect C :=
  match a.acceptTelemetry msg size with
  | none => { loop := a, reported }
  | some a =>
    let (a, jobs) := a.bufferTelemetry msg.samples
    ⟨a, reported, jobs, []⟩

def handleDiscoveryReport : Effect C :=
  match a.acceptDiscovery msg size with
  | none => { loop := a, reported }
  | some a =>
    if msg.components.isEmpty then { loop := a, reported }
    else
      let (a, jobs) := a.persistTelemetry (.replaceInventory msg.components)
      ⟨a, reported, jobs, []⟩

def handleMetricBackfillBatch : Effect C :=
  if maxTelemetryPayloadBytes < size ∨ "Backfill" ∉ a.capabilities ∨ msg.samples.isEmpty then
    { loop := a, reported }
  else ⟨a, reported, [], [.writeSamples msg.samples]⟩

def handleAgentAlert : Effect C :=
  match msg.alert with
  | none => { loop := a, reported }
  | some alert =>
    if maxAlertPayloadBytes < size then { loop := a, reported }
    else
      let (a, jobs) := a.persistTelemetry (.recordAlert alert msg.stored)
      ⟨a, reported, jobs, []⟩

def handle : Effect C :=
  match msg.type with
  | .agentRegister => handleRegister a reported lib msg
  | .agentHeartbeat => handleHeartbeat a reported
  | .agentUpdateAck => handleUpdateAck a reported msg
  | .hardwareReport => handleHardwareReport a reported lib msg
  | .agentHealthSummary => handleAgentHealthSummary a reported msg size
  | .agentMetricWindow | .healthWindowResponse => handleTelemetry a reported msg size
  | .discoveryReport => handleDiscoveryReport a reported msg size
  | .metricBackfillBatch => handleMetricBackfillBatch a reported msg size
  | .agentAlert => handleAgentAlert a reported msg size
  -- Sessions, logs, history, maintenance and backfill slots live in memory, certificates in
  -- their ledger.
  | .sessionAccept | .sessionReject | .hardwareReportError | .deviceLogsResponse | .deviceLogsError
  | .requestBackfillSlot | .localHistoryResponse | .maintenanceApplied | .certificateSigningRequest
  | .certificateInstalled | .other => { loop := a, reported }

/-- What a connection admitted only to renew does with a message. -/
def dispatchRestricted : ControlLoop C :=
  if msg.type = .agentRegister then { a with capabilities := msg.capabilities } else a

end Handlers

/-! ## The server -/

/-- Who runs a statement: a message, which began to be handled when the device was on the deny-list
already or before, or the server itself. -/
inductive Origin where
  | message (late : Bool)
  | server
  deriving DecidableEq

structure AgentConn (C : Contents) where
  restricted : Bool
  loop : ControlLoop C
  /-- The server's side of the stream is closed. -/
  closed : Bool
  /-- The control loop is over. -/
  ended : Bool

def AgentConn.new (restricted : Bool) : AgentConn C :=
  ⟨restricted, ⟨[], fun _ => none, [], 0⟩, false, false⟩

/-- The connections of the device, in the order they were made, and its rows, with a note of every
statement that inserted or updated one. -/
structure Server (C : Contents) where
  tombstoned : Bool
  agents : List (AgentConn C)
  held : Option Nat
  reported : States
  tables : Tables C
  written : List (Origin × Table)

def Server.new (tombstoned : Bool) (tables : Tables C) : Server C :=
  ⟨tombstoned, [], none, ∅, tables, []⟩

def Server.store (s : Server C) (origin : Origin) (statement : Statement C) : Server C :=
  let (tables, wrote) := s.tables.run statement
  { s with tables, written := if wrote then s.written ++ [(origin, statement.table)]
    else s.written }

def Server.update (s : Server C) (conn : Nat) (change : ControlLoop C → ControlLoop C) : Server C :=
  { s with agents := s.agents.modify conn fun a => { a with loop := change a.loop } }

inductive Verdict where
  | refused
  | restricted
  | full
  deriving DecidableEq

inductive Task (C : Contents) where
  | deregisterAgent
  | getAgent
  | accept (verdict : Verdict)
  | admitConn (verdict : Verdict)
  | registerConn
  | handleControl (conn size : Nat) (msg : ControlMessage C)
  | dispatch (conn : Nat) (late : Bool) (size : Nat) (msg : ControlMessage C)
  | statements (origin : Origin) (due : List (Statement C))
  | job (conn : Nat) (origin : Origin) (statement : Statement C)
  | endLoop (conn : Nat)
  | unregisterConn (conn : Nat)
  | releaseDeviceStatus (conn : Nat)

def Task.Calls : Task C → Prop
  | .deregisterAgent | .accept _ | .handleControl .. | .endLoop _ => True
  | _ => False

def Server.exec (lib : Library) (s : Server C) : Task C → Option (Server C × List (Task C))
  | .deregisterAgent => some ({ s with tombstoned := true }, [.getAgent])
  | .getAgent =>
    match s.held with
    | none => some (s, [])
    | some conn =>
      some ({ s with agents := s.agents.modify conn fun a => { a with closed := true } }, [])
  | .accept verdict => some (s, if s.tombstoned then [] else [.admitConn verdict])
  | .admitConn .refused => some (s, [])
  | .admitConn .restricted => some ({ s with agents := s.agents ++ [.new true] }, [])
  | .admitConn .full => some (s, [.registerConn])
  | .registerConn =>
    some ({ s with agents := s.agents ++ [.new false], held := some s.agents.length }, [])
  | .handleControl conn size msg =>
    match s.agents[conn]? with
    | none => none
    | some a => if a.ended then none else some (s, [.dispatch conn s.tombstoned size msg])
  | .dispatch conn late size msg =>
    match s.agents[conn]? with
    | none => none
    | some a =>
      if a.restricted then some (s.update conn fun loop => dispatchRestricted loop msg, [])
      -- `rejectTombstonedWrite`
      else if isWritePathMessage msg.type && s.tombstoned then some (s, [])
      else
        let effect := handle a.loop s.reported lib msg size
        some ({ s.update conn fun _ => effect.loop with reported := effect.reported },
          effect.jobs.map (.job conn (.message late))
          ++ [.statements (.message late) effect.statements])
  | .statements _ [] => some (s, [])
  | .statements origin (statement :: rest) =>
    some (s.store origin statement, [.statements origin rest])
  | .job conn origin statement =>
    let freed := fun a : ControlLoop C => { a with telemetrySlots := a.telemetrySlots - 1 }
    some ((s.store origin statement).update conn freed, [])
  | .endLoop conn =>
    match s.agents[conn]? with
    | none => none
    | some a =>
      if a.ended then none
      else
        let flushed := a.loop.flushTelemetry
        let ended := fun a : AgentConn C => { a with loop := flushed.1, ended := true }
        some ({ s with agents := s.agents.modify conn ended },
          flushed.2.map (.job conn .server) ++ if a.restricted then [] else [.unregisterConn conn])
  | .unregisterConn conn => some ({ s with reported := ∅ }, [.releaseDeviceStatus conn])
  | .releaseDeviceStatus conn =>
    if s.held = some conn then
      some ({ s with held := none }, [.statements .server [.setStatus .offline]])
    else some (s, [])

abbrev World (C : Contents) := Pool (Server C) (Task C)

abbrev Reached (lib : Library) (guard : World C → Task C → Prop) (start : Server C) :
    World C → Prop :=
  PoolReached Task.Calls (Server.exec lib) guard start

/-! ## What a message that is dispatched does -/

/-- The types of messages that write and are not on the list. -/
def unlisted : ControlMessageType → Bool
  | .agentUpdateAck | .hardwareReport => true
  | _ => false

/-- A message that is dispatched for a device on the deny-list starts no job, and runs a statement
only if it is not on the list. -/
theorem handle_of_not_isWritePathMessage (a : ControlLoop C) (reported : States) {lib : Library}
    {msg : ControlMessage C} (size : Nat) (outside : isWritePathMessage msg.type = false) :
    (handle a reported lib msg size).jobs = [] ∧
      ∀ statement ∈ (handle a reported lib msg size).statements,
        unlisted msg.type ∧ (statement.table = .hardware ∨ statement.table = .update) := by
  rw [handle]
  cases type : msg.type with
  | agentUpdateAck =>
    refine ⟨rfl, fun statement here => ⟨rfl, .inr ?_⟩⟩
    rw [mem_singleton.mp here]
    rfl
  | hardwareReport =>
    refine ⟨rfl, fun statement here => ⟨rfl, .inl ?_⟩⟩
    rw [mem_singleton.mp here]
    rfl
  | agentRegister | agentHeartbeat | agentHealthSummary | agentMetricWindow | discoveryReport
  | healthWindowResponse | requestBackfillSlot | metricBackfillBatch | agentAlert =>
    rw [type] at outside
    cases outside
  | _ => exact ⟨rfl, forall_mem_nil _⟩

/-! ## What a step keeps -/

def Server.restricted (s : Server C) (conn : Nat) : Bool :=
  (s.agents[conn]?).any AgentConn.restricted

/-- The deny-list only grows, and connections stay what they were admitted as. -/
structure Extends (s s' : Server C) : Prop where
  tombstoned : s.tombstoned = true → s'.tombstoned = true
  restricted : ∀ conn, s.restricted conn = true → s'.restricted conn = true

variable {tables : Tables C} {w : World C} {note : Origin × Table}

section Steps

variable {s s' : Server C} {lib : Library} {task : Task C} {next before after : List (Task C)}
  {a : AgentConn C}

section

variable (tombstoned : s'.tombstoned = s.tombstoned)
include tombstoned

theorem Extends.of_agents (agents : s'.agents = s.agents) : Extends s s' := by
  refine ⟨fun listed => tombstoned ▸ listed, fun conn renews => ?_⟩
  rwa [Server.restricted, agents]

theorem Extends.of_modify {conn : Nat} {change : AgentConn C → AgentConn C}
    (agents : s'.agents = s.agents.modify conn change)
    (same : ∀ a, (change a).restricted = a.restricted) : Extends s s' := by
  refine ⟨fun listed => tombstoned ▸ listed, fun other renews => ?_⟩
  obtain ⟨a, here, own⟩ := (Option.any_eq_true _ _).mp renews
  rw [Server.restricted, agents, List.getElem?_modify, here]
  refine (Option.any_eq_true _ _).mpr ⟨_, rfl, ?_⟩
  split
  · exact (same a).trans own
  · exact own

theorem Extends.of_append (agents : s'.agents = s.agents ++ [a]) : Extends s s' := by
  refine ⟨fun listed => tombstoned ▸ listed, fun conn renews => ?_⟩
  obtain ⟨a, here, own⟩ := (Option.any_eq_true _ _).mp renews
  rw [Server.restricted, agents, List.getElem?_append_left (List.getElem?_eq_some_iff.mp here).1,
    here]
  exact own

end

/-! ## What is written late -/

/-- Where a task of a late message may still write. -/
def Task.Barred (allowed : Table → Prop) (s : Server C) : Task C → Prop
  | .dispatch conn late _ msg => late = true → s.tombstoned = true ∧
      (unlisted msg.type = true → s.restricted conn = true ∨ allowed .hardware ∧ allowed .update)
  | .statements origin due => origin = .message true → ∀ statement ∈ due, allowed statement.table
  | .job _ origin statement => origin = .message true → allowed statement.table
  | _ => True

structure Barred (allowed : Table → Prop) (s : Server C) (tasks : List (Task C)) : Prop where
  written : ∀ note ∈ s.written, note.1 = .message true → allowed note.2
  tasks : ∀ task ∈ tasks, task.Barred allowed s

variable {allowed : Table → Prop}

theorem Task.Barred.mono (barred : task.Barred allowed s) (later : Extends s s') :
    task.Barred allowed s' := by
  cases task with
  | dispatch conn late size msg =>
    intro begun
    obtain ⟨listed, unlisted⟩ := barred begun
    exact ⟨later.tombstoned listed, fun this => (unlisted this).imp_left (later.restricted conn)⟩
  | statements | job => exact barred
  | _ => trivial

/-- A step that writes nothing, or what its origin may. -/
theorem Barred.step (barred : Barred allowed s (before ++ task :: after)) (later : Extends s s')
    (written : ∀ note ∈ s'.written, note ∈ s.written ∨ (note.1 = .message true → allowed note.2))
    (left : ∀ other ∈ next, other.Barred allowed s') :
    Barred allowed s' (before ++ next ++ after) := by
  refine ⟨fun note here => ?_, tasks_run barred.tasks (fun other _ was => was.mono later) left⟩
  rcases written note here with was | new
  · exact barred.written note was
  · exact new

/-- A step that writes nothing. -/
theorem Barred.quiet (barred : Barred allowed s (before ++ task :: after)) (later : Extends s s')
    (written : s'.written = s.written) (left : ∀ other ∈ next, other.Barred allowed s') :
    Barred allowed s' (before ++ next ++ after) :=
  barred.step later (fun _ here => .inl (written ▸ here)) left

/-- What a message that is dispatched leaves to do.  The check came after the message had begun, so
the device was on the list there too. -/
theorem dispatched_barred {conn size : Nat} {late : Bool} {msg : ControlMessage C}
    (own : (Task.dispatch conn late size msg).Barred allowed s) (here : s.agents[conn]? = some a)
    (full : ¬a.restricted) (passed : ¬(isWritePathMessage msg.type && s.tombstoned)) :
    ∀ other ∈ (handle a.loop s.reported lib msg size).jobs.map (Task.job conn (.message late)) ++
        [.statements (.message late) (handle a.loop s.reported lib msg size).statements],
      other.Barred allowed s' := by
  have outside : late → isWritePathMessage msg.type = false := by
    intro begun
    rw [(own begun).1, Bool.and_true] at passed
    exact Bool.eq_false_iff.mpr passed
  intro other left
  rcases mem_append.mp left with started | run
  · obtain ⟨statement, started, rfl⟩ := mem_map.mp started
    intro begun
    cases begun
    rw [(handle_of_not_isWritePathMessage a.loop _ size (outside rfl)).1] at started
    cases started
  · rw [mem_singleton.mp run]
    intro begun statement due
    cases begun
    obtain ⟨unlisted, table⟩ :=
      (handle_of_not_isWritePathMessage a.loop _ size (outside rfl)).2 statement due
    rcases (own rfl).2 unlisted with renews | may
    · rw [Server.restricted, here] at renews
      exact absurd renews full
    · rcases table with hardware | update
      · exact hardware ▸ may.1
      · exact update ▸ may.2

theorem exec_barred (ran : s.exec lib task = some (s', next))
    (begins : ∀ conn size msg, task = .handleControl conn size msg → s.tombstoned →
      unlisted msg.type → s.restricted conn ∨ allowed .hardware ∧ allowed .update)
    (barred : Barred allowed s (before ++ task :: after)) :
    Barred allowed s' (before ++ next ++ after) := by
  have own := barred.tasks task (by simp)
  have stored : ∀ {origin : Origin} {statement : Statement C},
      (origin = .message true → allowed statement.table) →
      ∀ note ∈ (s.store origin statement).written,
        note ∈ s.written ∨ (note.1 = .message true → allowed note.2) := by
    intro origin statement may note here
    rw [Server.store] at here
    dsimp only at here
    split at here
    · refine (mem_append.mp here).imp_right fun own => ?_
      cases mem_singleton.mp own
      exact may
    · exact .inl here
  cases task with
  | deregisterAgent =>
    cases ran
    exact barred.quiet ⟨fun _ => rfl, fun _ renews => renews⟩ rfl (forall_mem_singleton.mpr trivial)
  | getAgent =>
    rw [Server.exec] at ran
    split at ran
    · cases ran
      exact barred.quiet (.of_agents rfl rfl) rfl (forall_mem_nil _)
    · cases ran
      exact barred.quiet (.of_modify rfl rfl fun _ => rfl) rfl (forall_mem_nil _)
  | accept verdict =>
    cases ran
    refine barred.quiet (.of_agents rfl rfl) rfl ?_
    split
    · exact (forall_mem_nil _)
    · exact forall_mem_singleton.mpr trivial
  | admitConn verdict =>
    cases verdict with
    | refused =>
      cases ran
      exact barred.quiet (.of_agents rfl rfl) rfl (forall_mem_nil _)
    | restricted =>
      cases ran
      exact barred.quiet (.of_append rfl rfl) rfl (forall_mem_nil _)
    | full =>
      cases ran
      exact barred.quiet (.of_agents rfl rfl) rfl (forall_mem_singleton.mpr trivial)
  | registerConn =>
    cases ran
    exact barred.quiet (.of_append rfl rfl) rfl (forall_mem_nil _)
  | handleControl conn size msg =>
    rw [Server.exec] at ran
    split at ran
    · cases ran
    next a here =>
      split at ran
      · cases ran
      · cases ran
        exact barred.quiet (.of_agents rfl rfl) rfl
          (forall_mem_singleton.mpr fun listed => ⟨listed, begins conn size msg rfl listed⟩)
  | dispatch conn late size msg =>
    rw [Server.exec] at ran
    split at ran
    · cases ran
    next a here =>
      split at ran
      · cases ran
        exact barred.quiet (.of_modify rfl rfl fun _ => rfl) rfl (forall_mem_nil _)
      next full =>
        split at ran
        · cases ran
          exact barred.quiet (.of_agents rfl rfl) rfl (forall_mem_nil _)
        next passed =>
          cases ran
          exact barred.quiet (.of_modify rfl rfl fun _ => rfl) rfl
            (dispatched_barred own here full passed)
  | statements origin due =>
    cases due with
    | nil =>
      cases ran
      exact barred.quiet (.of_agents rfl rfl) rfl (forall_mem_nil _)
    | cons statement rest =>
      cases ran
      refine barred.step (.of_agents rfl rfl)
        (stored fun begun => own begun statement mem_cons_self)
        (forall_mem_singleton.mpr fun begun other there => ?_)
      exact own begun other (mem_cons_of_mem _ there)
  | job conn origin statement =>
    cases ran
    exact barred.step (.of_modify rfl rfl fun _ => rfl) (stored own) (forall_mem_nil _)
  | endLoop conn =>
    rw [Server.exec] at ran
    split at ran
    · cases ran
    next a here =>
      split at ran
      · cases ran
      · cases ran
        refine barred.quiet (.of_modify rfl rfl fun _ => rfl) rfl fun other left => ?_
        rcases mem_append.mp left with started | rest
        · obtain ⟨statement, -, rfl⟩ := mem_map.mp started
          exact nofun
        · split at rest
          · cases rest
          · rw [mem_singleton.mp rest]
            trivial
  | unregisterConn conn =>
    cases ran
    exact barred.quiet (.of_agents rfl rfl) rfl (forall_mem_singleton.mpr trivial)
  | releaseDeviceStatus conn =>
    rw [Server.exec] at ran
    split at ran
    · cases ran
      exact barred.quiet (.of_agents rfl rfl) rfl (forall_mem_singleton.mpr nofun)
    · cases ran
      exact barred.quiet (.of_agents rfl rfl) rfl (forall_mem_nil _)

theorem barred_of_reached {guard : World C → Task C → Prop} {tombstoned : Bool}
    (begins : ∀ w conn size msg, guard w (.handleControl conn size msg) →
      w.shared.tombstoned → unlisted msg.type →
        w.shared.restricted conn ∨ allowed .hardware ∧ allowed .update)
    (reached : Reached lib guard (.new tombstoned tables) w) : Barred allowed w.shared w.tasks := by
  have starts : Barred allowed (.new tombstoned tables) ([] : List (Task C)) :=
    ⟨forall_mem_nil _, forall_mem_nil _⟩
  refine reached.invariant (I := Barred allowed) starts (fun s tasks task call barred => ?_)
    fun s s' before after next task ran allowed barred => ?_
  · refine ⟨barred.written, tasks_begin barred.tasks ?_⟩
    cases task with
    | deregisterAgent | accept | handleControl | endLoop => trivial
    | _ => cases call
  · refine exec_barred ran ?_ barred
    rintro conn size msg rfl
    exact begins _ conn size msg allowed

end Steps

/-- In every run, a message that begins to be handled when the device is on the deny-list writes
only hardware and update rows. -/
theorem late_writes_unlisted {lib : Library} {tombstoned : Bool}
    (reached : Reached lib (fun _ _ => True) (.new tombstoned tables) w)
    (here : note ∈ w.shared.written) (late : note.1 = .message true) :
    note.2 = .hardware ∨ note.2 = .update := by
  have barred : Barred (fun table => table = .hardware ∨ table = .update) w.shared w.tasks :=
    barred_of_reached (fun _ _ _ _ _ _ _ => .inr ⟨.inl rfl, .inr rfl⟩) reached
  exact barred.written note here late

/-- No hardware report and no acknowledgement of an update begins to be handled on a full connection
while the device is on the deny-list. -/
def Listed (w : World C) : Task C → Prop
  | .handleControl conn _ msg =>
    w.shared.tombstoned = true → unlisted msg.type = true → w.shared.restricted conn = true
  | _ => True

/-- A message that begins to be handled when the device is on the deny-list writes nothing. -/
theorem deleted_writes_nothing {lib : Library} {tombstoned : Bool} {tables : Tables C} {w : World C}
    (reached : Reached lib Listed (.new tombstoned tables) w) (note : Origin × Table)
    (here : note ∈ w.shared.written) : note.1 ≠ .message true := by
  have barred : Barred (fun _ => False) w.shared w.tasks :=
    barred_of_reached (fun _ _ _ _ listed begun unlisted => .inl (listed begun unlisted)) reached
  exact fun late => barred.written note here late

instance (task : Task C) : Decidable task.Calls := by
  unfold Task.Calls
  split <;> infer_instance

instance (w : World C) (task : Task C) : Decidable (Listed w task) := by
  unfold Listed
  split <;> infer_instance

def plainLibrary : Library := ⟨id, fun _ => none⟩

def plainContents : Contents := ⟨Nat, Nat, Nat⟩

def registered : Tables plainContents where
  device := some ⟨"host", "linux", "linux", "1.0", [], .offline⟩
  hardware := none
  updates := [⟨"2.0", .pending, ""⟩]
  telemetry := []
  inventory := []
  alerts := []
  coverage := []

def connects : List (Choice (Task plainContents)) :=
  [.begin (.accept .full), .run 0, .run 0, .run 0]

def sends (msg : ControlMessage plainContents) (steps : Nat) : List (Choice (Task plainContents)) :=
  .begin (.handleControl 0 100 msg) :: List.replicate steps (.run 0)

def heartbeats : List (Choice (Task plainContents)) :=
  connects ++ sends { type := .agentHeartbeat } 4 ++ [.begin .deregisterAgent, .run 0, .run 0]
    ++ sends { type := .agentHeartbeat } 2

theorem deleted_writes_nothing_heartbeats :
    ∃ w : World plainContents, w.shared.tombstoned = true ∧
      w.shared.written = [(.message false, .device)] ∧
      ∀ note ∈ w.shared.written, note.1 ≠ .message true := by
  obtain ⟨w, reached, deleted, written⟩ :
      ∃ w, Reached plainLibrary Listed (.new false registered) w ∧
      w.shared.tombstoned ∧ w.shared.written = [(.message false, .device)] :=
    exists_reached_of_follow heartbeats (by decide) (by decide +kernel)
  exact ⟨w, deleted, written, deleted_writes_nothing reached⟩

/-- The device is deleted between the check and the registration of its connection, which nobody
closes then; it reports its hardware and acknowledges its update. -/
def reportsAfterDeletion : List (Choice (Task plainContents)) :=
  [.begin (.accept .full), .run 0, .begin .deregisterAgent, .run 1, .run 1, .run 0, .run 0]
    ++ sends { type := .hardwareReport } 4
    ++ sends { type := .agentUpdateAck, success := some true, version := "2.0" } 4

theorem reports_written_after_deletion :
    ∃ w : World plainContents, Reached plainLibrary (fun _ _ => True) (.new false registered) w ∧
      w.shared.tombstoned = true ∧
      w.shared.written = [(.message true, .hardware), (.message true, .update)] ∧
      w.shared.tables.hardware.isSome = true ∧
      w.shared.tables.updates = [⟨"2.0", .success, ""⟩] := by
  exact exists_reached_of_follow reportsAfterDeletion (by decide) (by decide +kernel)

theorem late_writes_unlisted_reports :
    ∃ w : World plainContents, ∃ note ∈ w.shared.written,
      note.2 = .hardware ∨ note.2 = .update := by
  obtain ⟨w, reached, written⟩ :
      ∃ w, Reached plainLibrary (fun _ _ => True) (.new false registered) w ∧
      (.message true, .hardware) ∈ w.shared.written :=
    exists_reached_of_follow reportsAfterDeletion (by decide) (by decide +kernel)
  exact ⟨w, _, written, late_writes_unlisted reached written rfl⟩

end OpenGate.Agents.Dispatch
