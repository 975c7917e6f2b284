import OpenGate.Lib.Tasks

/-!
# The reconciliation sweep

`lifecycle/reconcile.go` with the two writers it runs beside: `register`, which inserts the
device's row, and the telemetry of a connection, which is buffered, flushed into one of a few
persist slots and written by a goroutine of its own (`agentapi/conn_telemetry.go`,
`agentapi/conn_accounting.go`).

The sweep lists the rows first and the series afterwards.  A device whose row and first samples
come between the two listings is a subject without a row to the sweep.  `sweep_spares_rows` is
the result for runs where that does not happen, and where no device is registered while a sweep
is about to delete its series.
-/

namespace OpenGate.Lifecycle.Reconcile

open OpenGate.Lib List

variable {Device Tenant Sample : Type}

structure SeriesSubject (Device Tenant : Type) where
  tenantId : Tenant
  deviceId : Device
  deriving DecidableEq

/-- What a connection keeps of its telemetry: the coalescing buffer with the messages booked
against it, the persist slots taken, and the messages dropped. -/
structure AgentConn (Device Tenant Sample : Type) where
  deviceId : Device
  tenantId : Tenant
  telemetryBuf : List Sample
  telemetryBufMsgs : Nat
  telemetrySlots : Nat
  telemetryDrops : Nat
  deriving DecidableEq

def telemetryConcurrentWrites : Nat := 4

def telemetryFlushMaxSamples : Nat := 512

namespace AgentConn

/-- Takes a persist slot, or drops the messages when all are taken. -/
def persistTelemetry (a : AgentConn Device Tenant Sample) (batch : List Sample) (msgs : Nat) :
    AgentConn Device Tenant Sample × Option (List Sample × Nat) :=
  if a.telemetrySlots < telemetryConcurrentWrites then
    ({ a with telemetrySlots := a.telemetrySlots + 1 }, some (batch, msgs))
  else ({ a with telemetryDrops := a.telemetryDrops + msgs }, none)

def flushTelemetry (a : AgentConn Device Tenant Sample) :
    AgentConn Device Tenant Sample × Option (List Sample × Nat) :=
  if a.telemetryBuf.isEmpty then (a, none)
  else
    persistTelemetry { a with telemetryBuf := [], telemetryBufMsgs := 0 } a.telemetryBuf
      a.telemetryBufMsgs

def bufferTelemetry (a : AgentConn Device Tenant Sample) (samples : List Sample) :
    AgentConn Device Tenant Sample × Option (List Sample × Nat) :=
  if samples.isEmpty then (a, none)
  else
    let a := { a with
      telemetryBuf := a.telemetryBuf ++ samples, telemetryBufMsgs := a.telemetryBufMsgs + 1 }
    if telemetryFlushMaxSamples ≤ a.telemetryBuf.length then a.flushTelemetry else (a, none)

end AgentConn

/-- The ids of the device rows, the series, the connections, and the counts sweeps returned. -/
structure Stores (Device Tenant Sample : Type) where
  rows : List Device
  series : List (SeriesSubject Device Tenant × Sample)
  conns : List (AgentConn Device Tenant Sample)
  purged : List Nat
  deriving DecidableEq

/-- What a call has still to do.  The requests of a sweep are answered as its list has it, and
past its end without an error; a write is carried out or fails. -/
inductive Task (Device Tenant Sample : Type) where
  | listAllDeviceIds (answers : List Bool)
  | listSubjects (live : List Device) (answers : List Bool)
  | deleteOrphans (live : List Device) (subjects : List (SeriesSubject Device Tenant))
    (purged : Nat)
      (answers : List Bool)
  | accept (device : Device) (tenant : Tenant)
  | register (conn : Nat)
  | telemetry (conn : Nat) (samples : List Sample) (written : Bool)
  | heartbeat (conn : Nat) (written : Bool)
  | writeSamples (conn : Nat) (batch : List Sample) (msgs : Nat) (written : Bool)
  | deleteDevice (device : Device)
  deriving DecidableEq

/-- Sweeps, connections and their messages, and deletions of rows. -/
def Task.Calls : Task Device Tenant Sample → Prop
  | .listSubjects .. | .deleteOrphans .. | .writeSamples .. => False
  | _ => True

section Functions

variable [DecidableEq Device] [DecidableEq Tenant]

/-- The distinct subjects of the series. -/
def Stores.subjects (s : Stores Device Tenant Sample) : List (SeriesSubject Device Tenant) :=
  (s.series.map Prod.fst).eraseDups

/-- A connection after its telemetry code ran, and the goroutine of the write it started. -/
def Stores.keep (s : Stores Device Tenant Sample) (conn : Nat) (written : Bool)
    (ran : AgentConn Device Tenant Sample × Option (List Sample × Nat)) :
    Stores Device Tenant Sample × List (Task Device Tenant Sample) :=
  ({ s with conns := s.conns.set conn ran.1 },
    ran.2.toList.map fun job => .writeSamples conn job.1 job.2 written)

/-- The goroutine of a write, which frees its slot at the end. -/
def Stores.writeSamples (s : Stores Device Tenant Sample) (conn : Nat)
    (a : AgentConn Device Tenant Sample) (batch : List Sample) (msgs : Nat) (written : Bool) :
    Stores Device Tenant Sample :=
  let freed := { a with telemetrySlots := a.telemetrySlots - 1 }
  if written then
    { s with
      series := s.series ++ batch.map fun sample => (⟨a.tenantId, a.deviceId⟩, sample)
      conns := s.conns.set conn freed }
  else
    { s with conns := s.conns.set conn { freed with telemetryDrops := a.telemetryDrops + msgs } }

/-- One step of a call.  The selector of a deletion refuses the tenant `absent`, the nil id. -/
def Stores.exec (absent : Tenant) (s : Stores Device Tenant Sample) :
    Task Device Tenant Sample →
    Option (Stores Device Tenant Sample × List (Task Device Tenant Sample))
  | .listAllDeviceIds answers =>
    if answers.headD true then some (s, [.listSubjects s.rows answers.tail]) else some (s, [])
  | .listSubjects live answers =>
    if answers.headD true then some (s, [.deleteOrphans live s.subjects 0 answers.tail])
    else some (s, [])
  | .deleteOrphans _ [] purged _ => some ({ s with purged := purged :: s.purged }, [])
  | .deleteOrphans live (subject :: subjects) purged answers =>
    if subject.deviceId ∈ live then some (s, [.deleteOrphans live subjects purged answers])
    else if subject.tenantId ≠ absent ∧ answers.headD true then
      some ({ s with series := s.series.filter fun row => row.1 ≠ subject },
        [.deleteOrphans live subjects (purged + 1) answers.tail])
    else some (s, [.deleteOrphans live subjects purged answers.tail])
  | .accept device tenant =>
    some ({ s with conns := s.conns ++ [⟨device, tenant, [], 0, 0, 0⟩] }, [])
  | .register conn =>
    s.conns[conn]?.map fun a => ({ s with rows := s.rows.insert a.deviceId }, [])
  | .telemetry conn samples written =>
    s.conns[conn]?.map fun a => s.keep conn written (a.bufferTelemetry samples)
  | .heartbeat conn written => s.conns[conn]?.map fun a => s.keep conn written a.flushTelemetry
  | .writeSamples conn batch msgs written =>
    s.conns[conn]?.map fun a => (s.writeSamples conn a batch msgs written, [])
  | .deleteDevice device => some ({ s with rows := s.rows.filter fun row => row ≠ device }, [])

/-- The devices a sweep is about to delete the series of. -/
def Task.condemned : Task Device Tenant Sample → List Device
  | .deleteOrphans live subjects _ _ => (subjects.map SeriesSubject.deviceId).filter (· ∉ live)
  | _ => []

abbrev World (Device Tenant Sample : Type) :=
  Pool (Stores Device Tenant Sample) (Task Device Tenant Sample)

/-- When a sweep lists the subjects, it has listed the row of each that has one; and a device is
registered anew only while no sweep is about to delete its series. -/
def Undisturbed (w : World Device Tenant Sample) : Task Device Tenant Sample → Prop
  | .listSubjects live _ => ∀ subject ∈ w.shared.subjects,
      subject.deviceId ∈ w.shared.rows → subject.deviceId ∈ live
  | .register conn => ∀ a ∈ w.shared.conns[conn]?, a.deviceId ∉ w.shared.rows →
      ∀ task ∈ w.tasks, a.deviceId ∉ task.condemned
  | _ => True

instance (w : World Device Tenant Sample) (task : Task Device Tenant Sample) :
    Decidable (Undisturbed w task) := by
  unfold Undisturbed
  split <;> infer_instance

/-- The states that steps within a guard lead to, from any rows and series. -/
abbrev Reached (absent : Tenant)
    (guard : World Device Tenant Sample → Task Device Tenant Sample → Prop)
    (rows : List Device) (series : List (SeriesSubject Device Tenant × Sample)) :
    World Device Tenant Sample → Prop :=
  PoolReached Task.Calls (Stores.exec absent) guard ⟨rows, series, [], []⟩

end Functions

/-! ## What a sweep is about to delete has no row -/

section Steps

variable [DecidableEq Device]

def Spared (s : Stores Device Tenant Sample) (tasks : List (Task Device Tenant Sample)) : Prop :=
  ∀ task ∈ tasks, ∀ device ∈ task.condemned, device ∉ s.rows

variable {s s' : Stores Device Tenant Sample} {before after next : List (Task Device Tenant Sample)}
  {task : Task Device Tenant Sample}

/-- A step condemns no device with a row, and inserts no condemned one. -/
theorem Spared.run (spared : Spared s (before ++ task :: after))
    (rows : ∀ device ∈ s'.rows, device ∈ s.rows ∨
      ∀ other ∈ before ++ task :: after, device ∉ other.condemned)
    (condemned : ∀ left ∈ next, ∀ device ∈ left.condemned, device ∉ s'.rows) :
    Spared s' (before ++ next ++ after) := by
  intro other there device doomed row
  have stays : other ∈ before ++ task :: after → False := by
    intro here
    rcases rows device row with was | none
    · exact spared other here device doomed was
    · exact none other here doomed
  rcases mem_append.mp there with there | late
  · rcases mem_append.mp there with early | left
    · exact stays (mem_append_left _ early)
    · exact condemned other left device doomed row
  · exact stays (mem_append_right _ (mem_cons_of_mem _ late))

variable [DecidableEq Tenant] {absent : Tenant}

theorem exec_spared (ran : s.exec absent task = some (s', next))
    (allowed : Undisturbed ⟨s, before ++ task :: after⟩ task)
    (spared : Spared s (before ++ task :: after)) : Spared s' (before ++ next ++ after) := by
  have same : ∀ device ∈ s.rows, device ∈ s.rows ∨
      ∀ other ∈ before ++ task :: after, device ∉ other.condemned := fun _ row => .inl row
  have nothing : ∀ left ∈ ([] : List (Task Device Tenant Sample)), ∀ device ∈ left.condemned,
      device ∉ s'.rows := forall_mem_nil _
  have this := spared task (by simp)
  cases task with
  | listAllDeviceIds answers =>
    rw [Stores.exec] at ran
    split at ran
    · cases ran
      refine spared.run same fun left only device doomed => ?_
      rw [mem_singleton.mp only] at doomed
      cases doomed
    · cases ran
      exact spared.run same nothing
  | listSubjects live answers =>
    rw [Stores.exec] at ran
    split at ran
    · cases ran
      refine spared.run same fun left only device doomed row => ?_
      rw [mem_singleton.mp only] at doomed
      obtain ⟨here, dead⟩ := mem_filter.mp doomed
      obtain ⟨subject, listed, rfl⟩ := mem_map.mp here
      exact of_decide_eq_true dead (allowed subject listed row)
    · cases ran
      exact spared.run same nothing
  | deleteOrphans live subjects purged answers =>
    cases subjects with
    | nil =>
      cases ran
      exact spared.run same nothing
    | cons subject subjects =>
      have rest : ∀ purged' answers', ∀ left ∈ [.deleteOrphans live subjects purged' answers'],
          ∀ device ∈ (left : Task Device Tenant Sample).condemned, device ∉ s.rows := by
        intro purged' answers' left only device doomed
        rw [mem_singleton.mp only] at doomed
        obtain ⟨here, dead⟩ := mem_filter.mp doomed
        exact this device (mem_filter.mpr ⟨mem_cons_of_mem _ here, dead⟩)
      rw [Stores.exec] at ran
      split at ran
      · cases ran
        exact spared.run same (rest _ _)
      · split at ran
        · cases ran
          exact spared.run same (rest _ _)
        · cases ran
          exact spared.run same (rest _ _)
  | accept device tenant =>
    cases ran
    exact spared.run same nothing
  | register conn =>
    obtain ⟨a, here, ran⟩ := Option.map_eq_some_iff.mp ran
    cases ran
    refine spared.run (fun device row => ?_) nothing
    rcases mem_insert_iff.mp row with rfl | was
    · by_cases known : a.deviceId ∈ s.rows
      · exact .inl known
      · exact .inr (allowed a here known)
    · exact .inl was
  | telemetry conn samples written | heartbeat conn written =>
    obtain ⟨a, here, ran⟩ := Option.map_eq_some_iff.mp ran
    cases ran
    refine spared.run same fun left started device doomed => ?_
    obtain ⟨job, -, rfl⟩ := mem_map.mp started
    cases doomed
  | writeSamples conn batch msgs written =>
    obtain ⟨a, here, ran⟩ := Option.map_eq_some_iff.mp ran
    cases ran
    refine spared.run (fun device row => .inl ?_) nothing
    cases written <;> exact row
  | deleteDevice device =>
    cases ran
    exact spared.run (fun device row => .inl (mem_filter.mp row).1) nothing

/-- A sweep deletes the series of no device that has a row, in every run where each subject with
a row is among the rows the sweep has listed, and no device is registered anew while a sweep is
about to delete its series. -/
theorem sweep_spares_rows {rows : List Device}
    {series : List (SeriesSubject Device Tenant × Sample)}
    {w : World Device Tenant Sample} (reached : Reached absent Undisturbed rows series w)
    (live : List Device) (subject : SeriesSubject Device Tenant)
    (subjects : List (SeriesSubject Device Tenant)) (purged : Nat) (answers : List Bool)
    (here : .deleteOrphans live (subject :: subjects) purged answers ∈ w.tasks)
    (orphan : subject.deviceId ∉ live) : subject.deviceId ∉ w.shared.rows := by
  have spared : Spared w.shared w.tasks := by
    refine PoolReached.invariant (I := Spared) (forall_mem_nil _) ?_ ?_ reached
    · intro s tasks task call spared other there device doomed
      rcases mem_append.mp there with earlier | this
      · exact spared other earlier device doomed
      · rw [mem_singleton.mp this] at doomed
        cases task <;> cases call <;> cases doomed
    · exact fun s s' before after next task ran allowed spared => exec_spared ran allowed spared
  exact spared _ here _ (mem_filter.mpr ⟨mem_cons_self, decide_eq_true orphan⟩)

end Steps

instance (task : Task Device Tenant Sample) : Decidable task.Calls := by
  unfold Task.Calls
  split <;> infer_instance

def firstSamples (place : Nat) : List (Choice (Task Nat Nat Unit)) :=
  [.begin (.register 0), .run place, .begin (.telemetry 0 [()] true), .run place,
    .begin (.heartbeat 0 true), .run place, .run place]

def listsRows : List (Choice (Task Nat Nat Unit)) := [.begin (.listAllDeviceIds []), .run 0]

/-- A sweep lists the rows before the device registers, or after, and then lists the subjects. -/
def sweeping (early : Bool) : List (Choice (Task Nat Nat Unit)) :=
  .begin (.accept 0 1) :: .run 0 ::
    ((if early then listsRows ++ firstSamples 1 else firstSamples 0 ++ listsRows) ++ [.run 0])

/-- Series of a device without a row are about to be deleted, after another one registered. -/
theorem sweep_spares_rows_registered :
    ∃ w : World Nat Nat Unit, w.tasks = [.deleteOrphans [0] [⟨1, 1⟩, ⟨1, 0⟩] 0 []] ∧
      1 ∉ w.shared.rows := by
  obtain ⟨w, reached, listed⟩ : ∃ w : World Nat Nat Unit,
      Reached 0 Undisturbed [] [(⟨1, 1⟩, ())] w ∧
      w.tasks = [.deleteOrphans [0] [⟨1, 1⟩, ⟨1, 0⟩] 0 []] :=
    exists_reached_of_follow (sweeping false) (by decide) (by decide +kernel)
  refine ⟨w, listed, sweep_spares_rows reached [0] ⟨1, 1⟩ [⟨1, 0⟩] 0 [] ?_ (by decide)⟩
  rw [listed]
  exact mem_cons_self

/-- A device registers and its first samples are written between the two listings of a sweep: the
sweep deletes them. -/
theorem sweep_deletes_first_samples :
    ∃ w : World Nat Nat Unit, Reached 0 (fun _ _ => True) [] [] w ∧
      w.tasks = [.deleteOrphans [] [⟨1, 0⟩] 0 []] ∧ 0 ∈ w.shared.rows ∧
      w.shared.subjects = [⟨1, 0⟩] ∧
      (w.shared.exec 0 (.deleteOrphans [] [⟨1, 0⟩] 0 [])).any
        (fun ran => ran.1.subjects = [] ∧ 0 ∈ ran.1.rows) = true := by
  exact exists_reached_of_follow (sweeping true) (by decide) (by decide +kernel)

end OpenGate.Lifecycle.Reconcile
