import OpenGate.Agents.Coverage
import OpenGate.Agents.Scheduler
import OpenGate.Lib.Events

/-!
# Agent connections

`agentapi/server_connection.go`: connections of devices as the server holds them, from
`registerConn` over the messages of their control loops to `unregisterConn`.  A device may
have several connections at once, of which the newest is held; every locked section is one
step, in any interleaving.

The status write and the count of `unregisterConn` stand in the device's gate behind the
check that the connection is still held.  `Release` and `Forget` before it ask only for the
device, so they take from a newer connection what it was granted or has reported:
`teardown_spares_successor` says when they do not.
-/

namespace OpenGate.Agents

open OpenGate.Alerts OpenGate.Lib Std Option ExtTreeMap

inductive DeviceStatus where
  | online
  | offline
  deriving DecidableEq

/-- How far a connection has come: its control loop, then the sections of `unregisterConn`. -/
inductive Phase where
  | live
  | marked
  | freed
  | forgotten
  | gone
  deriving DecidableEq

/-- The sections of `unregisterConn` that are done. -/
def Phase.done : Phase → Nat
  | .live => 0
  | .marked => 1
  | .freed => 2
  | .forgotten => 3
  | .gone => 4

structure AgentConn (Device Tenant : Type) where
  device : Device
  tenant : Tenant
  phase : Phase

/-- Which connection wrote what is stored of each device. -/
structure Writers (Device : Type) where
  grant : Device → Option Nat
  coverage : Device → Option Nat
  status : Device → Option Nat

/-- The server; a connection is named by its place in the order of registration. -/
structure AgentServer (Device Tenant : Type) [Ord Device] [Ord Tenant] where
  agents : List (AgentConn Device Tenant)
  conns : ExtTreeMap Device Nat Ord.compare
  count : Int
  scheduler : BackfillScheduler Device Tenant
  coverage : RuleCoverageStore Device
  statuses : ExtTreeMap Device DeviceStatus Ord.compare
  writers : Writers Device

/-- The locked sections; a write of the database may fail. -/
inductive ConnEvent (Device Tenant : Type) where
  | registerConn (device : Device) (tenant : Tenant)
  | requestSlot (conn : Nat) (now : Int) (share : UInt32)
  | report (conn : Nat) (entries : List CoverageEntry)
  | setOnline (conn : Nat) (stored : Bool)
  | markReleased (conn : Nat)
  | release (conn : Nat)
  | forget (conn : Nat)
  | releaseDeviceStatus (conn : Nat) (stored : Bool)

namespace AgentServer

variable {Device Tenant : Type} [Ord Device] [Ord Tenant] [TransOrd Device] [TransOrd Tenant]
  [DecidableEq Device]

def new : AgentServer Device Tenant where
  agents := []
  conns := ∅
  count := 0
  scheduler := .new
  coverage := .new
  statuses := ∅
  writers := ⟨fun _ => none, fun _ => none, fun _ => none⟩

/-- The newest connection for a device wins. -/
def registerConn (s : AgentServer Device Tenant) (device : Device) (tenant : Tenant) :
    AgentServer Device Tenant :=
  { s with
    agents := s.agents ++ [⟨device, tenant, .live⟩]
    conns := s.conns.insert device s.agents.length
    count := if s.conns.contains device then s.count else s.count + 1 }

def connAt (s : AgentServer Device Tenant) (conn : Nat) (phase : Phase) :
    Option (AgentConn Device Tenant) :=
  s.agents[conn]?.filter fun ac => ac.phase = phase

def movedTo (s : AgentServer Device Tenant) (conn : Nat) (ac : AgentConn Device Tenant)
    (phase : Phase) : List (AgentConn Device Tenant) :=
  s.agents.set conn { ac with phase }

def handleRequestBackfillSlot (config : BackfillSchedulerConfig) (s : AgentServer Device Tenant)
    (conn : Nat) (ac : AgentConn Device Tenant) (now : Int) (share : UInt32) :
    AgentServer Device Tenant :=
  let (scheduler, decision) := s.scheduler.requestSlot config ac.device ac.tenant now share
  { s with
    scheduler
    writers := if decision.isGrant then
      { s.writers with grant := Function.update s.writers.grant ac.device (some conn) }
      else s.writers }

/-- `recordRuleCoverage`: a report of which no entry survives leaves the last one. -/
def recordRuleCoverage (s : AgentServer Device Tenant) (conn : Nat) (ac : AgentConn Device Tenant)
    (entries : List CoverageEntry) : AgentServer Device Tenant :=
  let (coverage, delta) := s.coverage.report ac.device entries
  { s with
    coverage
    writers := if 0 < delta.recorded then
      { s.writers with coverage := Function.update s.writers.coverage ac.device (some conn) }
      else s.writers }

def setStatus (s : AgentServer Device Tenant) (conn : Nat) (device : Device) (status : DeviceStatus)
    (stored : Bool) : AgentServer Device Tenant :=
  if stored then
    { s with
      statuses := s.statuses.insert device status
      writers := { s.writers with status := Function.update s.writers.status device (some conn) } }
  else s

/-- Marks the device offline when this connection is still the one held for it. -/
def releaseDeviceStatus (s : AgentServer Device Tenant) (conn : Nat) (device : Device)
    (stored : Bool) : AgentServer Device Tenant :=
  if s.conns[device]? = some conn then
    { s with conns := s.conns.erase device, count := s.count - 1 }.setStatus conn device .offline
      stored
  else s

/-- One locked section, where its connection has come to it. -/
def act (config : BackfillSchedulerConfig) (s : AgentServer Device Tenant) :
    ConnEvent Device Tenant → Option (AgentServer Device Tenant)
  | .registerConn device tenant => some (s.registerConn device tenant)
  | .requestSlot conn now share => (s.connAt conn .live).map fun ac =>
    s.handleRequestBackfillSlot config conn ac now share
  | .report conn entries => (s.connAt conn .live).map fun ac => s.recordRuleCoverage conn ac entries
  | .setOnline conn stored => (s.connAt conn .live).map fun ac =>
    s.setStatus conn ac.device .online stored
  | .markReleased conn => (s.connAt conn .live).map fun ac =>
    { s with agents := s.movedTo conn ac .marked }
  | .release conn => (s.connAt conn .marked).map fun ac =>
    { s with
      agents := s.movedTo conn ac .freed
      scheduler := s.scheduler.release ac.device }
  | .forget conn => (s.connAt conn .freed).map fun ac =>
    { s with
      agents := s.movedTo conn ac .forgotten
      coverage := s.coverage.forget ac.device }
  | .releaseDeviceStatus conn stored => (s.connAt conn .forgotten).map fun ac =>
    { s with agents := s.movedTo conn ac .gone }.releaseDeviceStatus conn ac.device stored

abbrev Reached (config : BackfillSchedulerConfig)
    (guard : AgentServer Device Tenant → ConnEvent Device Tenant → Prop) :
    AgentServer Device Tenant → Prop :=
  Runs (act config) guard new

end AgentServer

def ConnEvent.tearsDown {Device Tenant : Type} : ConnEvent Device Tenant → Option Nat
  | .markReleased conn | .release conn | .forget conn | .releaseDeviceStatus conn _ => some conn
  | _ => none

namespace AgentServer

variable {Device Tenant : Type} [Ord Device] [Ord Tenant] {s s' : AgentServer Device Tenant}
  {conn : Nat} {ac : AgentConn Device Tenant} {phase : Phase}

/-- What newer connections of a device wrote is as it was. -/
structure Spares [TransOrd Device] (s s' : AgentServer Device Tenant) (conn : Nat)
    (device : Device) : Prop where
  grant : ∀ newer, conn < newer → s.writers.grant device = some newer →
    s'.scheduler.grants[device]? = s.scheduler.grants[device]?
  coverage : ∀ newer, conn < newer → s.writers.coverage device = some newer →
    s'.coverage.byDevice[device]? = s.coverage.byDevice[device]?
  status : ∀ newer, conn < newer → s.writers.status device = some newer →
    s'.statuses[device]? = s.statuses[device]?

/-- Every connection of a device before one has done so many sections of its teardown. -/
def OlderDone (s : AgentServer Device Tenant) (conn : Nat) (device : Device) (sections : Nat) :
    Prop :=
  ∀ older < conn, ∀ ac ∈ s.agents[older]?, ac.device = device → sections ≤ ac.phase.done

instance [DecidableEq Device] (s : AgentServer Device Tenant) (conn : Nat) (device : Device)
    (sections : Nat) : Decidable (s.OlderDone conn device sections) := by
  unfold OlderDone
  infer_instance

/-- A connection asks for a slot once the older ones of its device have released theirs, and
reports coverage once they have dropped theirs. -/
def Orderly (s : AgentServer Device Tenant) : ConnEvent Device Tenant → Prop
  | .requestSlot conn _ _ => ∀ ac ∈ s.agents[conn]?, s.OlderDone conn ac.device Phase.freed.done
  | .report conn _ => ∀ ac ∈ s.agents[conn]?, s.OlderDone conn ac.device Phase.forgotten.done
  | _ => True

instance [DecidableEq Device] (s : AgentServer Device Tenant) (event : ConnEvent Device Tenant) :
    Decidable (s.Orderly event) := by
  cases event <;> unfold Orderly <;> infer_instance

/-! ## What a section changes -/

theorem connAt_eq_some :
    s.connAt conn phase = some ac ↔ s.agents[conn]? = some ac ∧ ac.phase = phase := by
  rw [connAt, filter_eq_some_iff, decide_eq_true_iff]

variable [TransOrd Device] [DecidableEq Device]

theorem setStatus_shape (s : AgentServer Device Tenant) (conn : Nat) (device : Device)
    (status : DeviceStatus) (stored : Bool) :
    ∃ statuses written, s.setStatus conn device status stored
      = { s with statuses, writers := { s.writers with status := written } } := by
  cases stored with
  | false => exact ⟨s.statuses, s.writers.status, rfl⟩
  | true => exact ⟨_, _, rfl⟩

/-- A connection that is held lets the device go; one that is not changes nothing. -/
theorem releaseDeviceStatus_shape (s : AgentServer Device Tenant) (conn : Nat) (device : Device)
    (stored : Bool) :
    (s.conns[device]? ≠ some conn ∧ s.releaseDeviceStatus conn device stored = s) ∨
      (s.conns[device]? = some conn ∧ ∃ statuses written,
        s.releaseDeviceStatus conn device stored
          = { s with
              conns := s.conns.erase device
              count := s.count - 1
              statuses
              writers := { s.writers with status := written } }) := by
  by_cases held : s.conns[device]? = some conn
  · obtain ⟨statuses, written, shape⟩ := setStatus_shape
      { s with conns := s.conns.erase device, count := s.count - 1 } conn device .offline stored
    exact .inr ⟨held, statuses, written, by rw [releaseDeviceStatus, if_pos held, shape]⟩
  · exact .inl ⟨held, if_neg held⟩

variable [TransOrd Tenant] {config : BackfillSchedulerConfig} {event : ConnEvent Device Tenant}

/-- The connected count is the number of devices held. -/
theorem act_count (acts : s.act config event = some s') (counted : s.count = s.conns.size) :
    s'.count = s'.conns.size := by
  cases event with
  | registerConn device tenant =>
    cases acts
    simp only [registerConn, size_insert, ← mem_iff_contains, counted]
    split <;> push_cast <;> rfl
  | requestSlot conn now share | report conn entries
  | markReleased conn | release conn | forget conn =>
    obtain ⟨ac, -, rfl⟩ := map_eq_some_iff.mp acts
    exact counted
  | setOnline conn stored =>
    obtain ⟨ac, -, rfl⟩ := map_eq_some_iff.mp acts
    obtain ⟨statuses, written, shape⟩ := s.setStatus_shape conn ac.device .online stored
    rw [shape]
    exact counted
  | releaseDeviceStatus conn stored =>
    obtain ⟨ac, -, rfl⟩ := map_eq_some_iff.mp acts
    rcases releaseDeviceStatus_shape { s with agents := s.movedTo conn ac .gone } conn ac.device
      stored with ⟨-, shape⟩ | ⟨held, statuses, written, shape⟩
    · rw [shape]
      exact counted
    · have inside : ac.device ∈ s.conns := by
        rw [mem_iff_isSome_getElem?, held]
        rfl
      have some : s.conns.size ≠ 0 := fun empty => by
        rw [eq_empty_iff_size_eq_zero.mpr empty] at inside
        exact not_mem_empty inside
      rw [shape]
      simp only [size_erase, ← mem_iff_contains, if_pos inside, counted]
      omega

/-! ## Who wrote what a teardown takes -/

/-- What a connection wrote, it wrote after so many sections of its predecessors' teardowns. -/
def WrittenAfter (s : AgentServer Device Tenant) (writer : Device → Option Nat) (sections : Nat) :
    Prop :=
  ∀ device newer, writer device = some newer →
    newer < s.agents.length ∧ s.OlderDone newer device sections

variable {writer : Device → Option Nat}

variable {sections : Nat} {next : Phase}

section

variable (after : s.WrittenAfter writer sections)
include after

omit [TransOrd Device] [DecidableEq Device] [TransOrd Tenant] in
/-- A new connection is nobody's predecessor. -/
theorem WrittenAfter.append (ac : AgentConn Device Tenant) (agents : s'.agents = s.agents ++ [ac]) :
    s'.WrittenAfter writer sections := by
  intro device newer wrote
  obtain ⟨known, done⟩ := after device newer wrote
  refine ⟨by rw [agents, List.length_append]; omega, fun older before prior here => ?_⟩
  rw [agents, List.getElem?_append_left (by omega)] at here
  exact done older before prior here

omit [TransOrd Device] [DecidableEq Device] [TransOrd Tenant] in
/-- A connection that goes on has done no less. -/
theorem WrittenAfter.moved (here : s.connAt conn phase = some ac) (onward : phase.done ≤ next.done)
    (agents : s'.agents = s.movedTo conn ac next) : s'.WrittenAfter writer sections := by
  obtain ⟨there, rfl⟩ := connAt_eq_some.mp here
  intro device newer wrote
  obtain ⟨known, done⟩ := after device newer wrote
  refine ⟨by rw [agents, movedTo, List.length_set]; exact known,
    fun older before prior found same => ?_⟩
  rw [agents, movedTo, mem_def, List.getElem?_set] at found
  split at found
  next this =>
    subst this
    split at found
    · cases found
      exact (done conn before ac there same).trans onward
    · cases found
  · exact done older before prior found same

omit [TransOrd Device] [TransOrd Tenant] in
/-- A connection whose predecessors have come so far may write. -/
theorem WrittenAfter.write (here : s.agents[conn]? = some ac)
    (done : s.OlderDone conn ac.device sections) :
    s.WrittenAfter (Function.update writer ac.device (some conn)) sections := by
  intro device newer wrote
  by_cases same : device = ac.device
  · subst same
    rw [Function.update_self] at wrote
    cases wrote
    exact ⟨(List.getElem?_eq_some_iff.mp here).1, done⟩
  · rw [Function.update_of_ne same] at wrote
    exact after device newer wrote

end

/-- Grants were written after the predecessors' `Release`, coverage after their `Forget`. -/
structure Settled (s : AgentServer Device Tenant) : Prop where
  grant : s.WrittenAfter s.writers.grant Phase.freed.done
  coverage : s.WrittenAfter s.writers.coverage Phase.forgotten.done

omit [TransOrd Device] [DecidableEq Device] [TransOrd Tenant] in
theorem Settled.moved (settled : s.Settled) (here : s.connAt conn phase = some ac)
    (onward : phase.done ≤ next.done) (agents : s'.agents = s.movedTo conn ac next)
    (grant : s'.writers.grant = s.writers.grant)
    (coverage : s'.writers.coverage = s.writers.coverage) : s'.Settled := by
  refine ⟨?_, ?_⟩
  · rw [grant]
    exact settled.grant.moved here onward agents
  · rw [coverage]
    exact settled.coverage.moved here onward agents

theorem act_settled (orderly : s.Orderly event) (acts : s.act config event = some s')
    (settled : s.Settled) : s'.Settled := by
  cases event with
  | registerConn device tenant =>
    cases acts
    exact ⟨settled.grant.append _ rfl, settled.coverage.append _ rfl⟩
  | requestSlot conn now share =>
    obtain ⟨ac, here, rfl⟩ := map_eq_some_iff.mp acts
    obtain ⟨here, -⟩ := connAt_eq_some.mp here
    simp only [handleRequestBackfillSlot]
    split
    · exact ⟨settled.grant.write here (orderly ac here), settled.coverage⟩
    · exact ⟨settled.grant, settled.coverage⟩
  | report conn entries =>
    obtain ⟨ac, here, rfl⟩ := map_eq_some_iff.mp acts
    obtain ⟨here, -⟩ := connAt_eq_some.mp here
    simp only [recordRuleCoverage]
    split
    · exact ⟨settled.grant, settled.coverage.write here (orderly ac here)⟩
    · exact ⟨settled.grant, settled.coverage⟩
  | setOnline conn stored =>
    obtain ⟨ac, -, rfl⟩ := map_eq_some_iff.mp acts
    obtain ⟨statuses, written, shape⟩ := s.setStatus_shape conn ac.device .online stored
    rw [shape]
    exact ⟨settled.grant, settled.coverage⟩
  | markReleased conn | release conn | forget conn =>
    obtain ⟨ac, here, rfl⟩ := map_eq_some_iff.mp acts
    exact settled.moved here (by decide) rfl rfl rfl
  | releaseDeviceStatus conn stored =>
    obtain ⟨ac, here, rfl⟩ := map_eq_some_iff.mp acts
    rcases releaseDeviceStatus_shape { s with agents := s.movedTo conn ac .gone } conn ac.device
      stored with ⟨-, shape⟩ | ⟨-, statuses, written, shape⟩ <;>
    · rw [shape]
      exact settled.moved here (by decide) rfl rfl rfl

omit [TransOrd Device] [DecidableEq Device] [TransOrd Tenant] in
/-- A connection with sections still to do is no writer's predecessor. -/
theorem WrittenAfter.not_newer {newer : Nat} (after : s.WrittenAfter writer sections)
    (here : s.agents[conn]? = some ac) (before : conn < newer) (undone : ac.phase.done < sections) :
    writer ac.device ≠ some newer := by
  intro wrote
  have := (after ac.device newer wrote).2 conn before ac here rfl
  omega

/-- A section of a teardown of a connection that is not held spares the newer ones. -/
theorem act_spares (settled : s.Settled) (acts : s.act config event = some s')
    (tearing : event.tearsDown = some conn) (here : s.agents[conn]? = some ac)
    (replaced : s.conns[ac.device]? ≠ some conn) : Spares s s' conn ac.device := by
  cases event with
  | registerConn | requestSlot | report | setOnline => cases tearing
  | markReleased conn =>
    cases tearing
    obtain ⟨ac, -, rfl⟩ := map_eq_some_iff.mp acts
    exact ⟨fun _ _ _ => rfl, fun _ _ _ => rfl, fun _ _ _ => rfl⟩
  | release conn =>
    cases tearing
    obtain ⟨ac', there, rfl⟩ := map_eq_some_iff.mp acts
    obtain ⟨there, marked⟩ := connAt_eq_some.mp there
    cases here.symm.trans there
    refine ⟨fun newer before wrote => ?_, fun _ _ _ => rfl, fun _ _ _ => rfl⟩
    have undone : ac.phase.done < Phase.freed.done := by rw [marked]; decide
    exact absurd wrote (settled.grant.not_newer here before undone)
  | forget conn =>
    cases tearing
    obtain ⟨ac', there, rfl⟩ := map_eq_some_iff.mp acts
    obtain ⟨there, freed⟩ := connAt_eq_some.mp there
    cases here.symm.trans there
    refine ⟨fun _ _ _ => rfl, fun newer before wrote => ?_, fun _ _ _ => rfl⟩
    have undone : ac.phase.done < Phase.forgotten.done := by rw [freed]; decide
    exact absurd wrote (settled.coverage.not_newer here before undone)
  | releaseDeviceStatus conn stored =>
    cases tearing
    obtain ⟨ac', there, rfl⟩ := map_eq_some_iff.mp acts
    obtain ⟨there, -⟩ := connAt_eq_some.mp there
    cases here.symm.trans there
    rcases releaseDeviceStatus_shape { s with agents := s.movedTo conn ac .gone } conn ac.device
      stored with ⟨-, shape⟩ | ⟨held, -⟩
    · rw [shape]
      exact ⟨fun _ _ _ => rfl, fun _ _ _ => rfl, fun _ _ _ => rfl⟩
    · exact absurd held replaced

/-- In every run where a connection asks for a slot, or reports coverage, only after its
predecessors' `Release`, or `Forget`, a teardown of a connection that is no longer held
spares what newer ones wrote, and the count is the number of devices held. -/
theorem teardown_spares_successor (config : BackfillSchedulerConfig) (s : AgentServer Device Tenant)
    (reached : Reached config Orderly s) :
    (∀ (event : ConnEvent Device Tenant) (s' : AgentServer Device Tenant) (conn : Nat)
        (ac : AgentConn Device Tenant), s.act config event = some s' → event.tearsDown = some conn →
        s.agents[conn]? = some ac → s.conns[ac.device]? ≠ some conn → Spares s s' conn ac.device) ∧
      s.count = s.conns.size := by
  have settled : s.Settled := by
    have nobody :
        ∀ sections, (new : AgentServer Device Tenant).WrittenAfter (fun _ => none) sections := by
      intro sections device newer wrote
      cases wrote
    refine Runs.invariant ⟨nobody _, nobody _⟩ (fun s event s' allowed acts kept => ?_) reached
    exact act_settled allowed acts kept
  have counted : s.count = s.conns.size := by
    refine Runs.invariant (I := fun s => s.count = s.conns.size) rfl
      (fun s event s' _ acts kept => ?_) reached
    exact act_count acts kept
  exact ⟨fun event s' conn ac acts tearing here replaced =>
    act_spares settled acts tearing here replaced, counted⟩

/-- A machine reconnects: the older connection is torn down, the newer one asks and reports. -/
def reconnects : List (ConnEvent Nat Nat) :=
  [.registerConn 0 0, .requestSlot 0 0 500, .registerConn 0 0, .setOnline 1 true, .markReleased 0,
    .release 0, .forget 0, .requestSlot 1 0 500, .report 1 (oneRule .active)]

/-- The newer connection of a machine is held, and its own is the grant, the report and the
status. -/
def successorWrote (s : AgentServer Nat Nat) : Bool :=
  s.conns[0]? == some 1 && s.writers.grant 0 == some 1 && s.writers.coverage 0 == some 1
    && s.writers.status 0 == some 1 && s.scheduler.grants.contains 0
    && s.coverage.byDevice.contains 0 && s.statuses[0]? == some .online

theorem teardown_spares_successor_reconnect :
    ∃ s : AgentServer Nat Nat, successorWrote s = true ∧ s.count = 1 ∧
      ∃ s', s.act defaultBackfillSchedulerConfig (.releaseDeviceStatus 0 true) = some s' ∧
        s'.statuses[0]? = s.statuses[0]? := by
  obtain ⟨s, reached, wrote, size, last⟩ : ∃ s, Reached defaultBackfillSchedulerConfig Orderly s ∧
      successorWrote s ∧ s.conns.size = 1 ∧
      (s.connAt 0 .forgotten).any (fun ac => ac.device == 0) :=
    exists_run_of_follow reconnects (by decide +kernel)
  simp only [any_eq_true, beq_iff_eq] at last
  obtain ⟨ac, last, device⟩ := last
  obtain ⟨spares, count⟩ := teardown_spares_successor defaultBackfillSchedulerConfig s reached
  refine ⟨s, wrote, by rw [count, size]; rfl, _, by rw [act, last]; rfl, ?_⟩
  simp only [successorWrote, Bool.and_eq_true, beq_iff_eq] at wrote
  have spared := spares (.releaseDeviceStatus 0 true) _ 0 ac (by rw [act, last]; rfl) rfl
    (connAt_eq_some.mp last).1 (by rw [device, wrote.1.1.1.1.1.1]; decide)
  rw [device] at spared
  exact spared.status 1 (by decide) wrote.1.1.1.2

/-- The older connection's teardown comes after the newer one has asked and reported: it takes
the grant, and then the coverage, of the connection that is held. -/
theorem teardown_takes_from_successor :
    ∃ s freed forgotten : AgentServer Nat Nat,
      Reached defaultBackfillSchedulerConfig (fun _ _ => True) s ∧ successorWrote s = true ∧
      s.act defaultBackfillSchedulerConfig (.release 0) = some freed ∧ ¬ Spares s freed 0 0 ∧
      freed.act defaultBackfillSchedulerConfig (.forget 0) = some forgotten ∧
      ¬ Spares freed forgotten 0 0 := by
  obtain ⟨s, reached, wrote, loses⟩ : ∃ s : AgentServer Nat Nat,
      Reached defaultBackfillSchedulerConfig (fun _ _ => True) s ∧ successorWrote s ∧
      (s.act defaultBackfillSchedulerConfig (.release 0)).any (fun freed =>
        freed.scheduler.grants[0]?.isNone && freed.writers.coverage 0 == some 1
          && freed.coverage.byDevice.contains 0
          && (freed.act defaultBackfillSchedulerConfig (.forget 0)).any fun forgotten =>
            forgotten.coverage.byDevice[0]?.isNone) :=
    exists_run_of_follow
      [.registerConn 0 0, .registerConn 0 0, .setOnline 1 true, .requestSlot 1 0 500,
      .report 1 (oneRule .active), .markReleased 0] (by decide +kernel)
  simp only [Bool.and_eq_true, any_eq_true, beq_iff_eq, isNone_iff_eq_none] at loses
  obtain ⟨freed, releases, ⟨⟨noGrant, reporter⟩, reported⟩, forgotten, forgets, noCoverage⟩ := loses
  have before := wrote
  simp only [successorWrote, Bool.and_eq_true, beq_iff_eq] at before
  refine ⟨s, freed, forgotten, reached, wrote, releases, fun spares => ?_, forgets, fun spares =>
    ?_⟩
  · have kept := spares.grant 1 (by decide) before.1.1.1.1.1.2
    have granted := before.1.1.2
    rw [contains_eq_isSome_getElem?, ← kept, noGrant] at granted
    cases granted
  · have kept := spares.coverage 1 (by decide) reporter
    rw [contains_eq_isSome_getElem?, ← kept, noCoverage] at reported
    cases reported

end AgentServer

end OpenGate.Agents
