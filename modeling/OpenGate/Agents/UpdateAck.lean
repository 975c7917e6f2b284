import OpenGate.Agents.UpdatePush
import OpenGate.Lib.Tasks

/-!
# Acknowledged updates

The loop of `pushManifestToAgents` sends the update and then creates its row in the caller's
tenant; the agent answers over a connection that keeps the order, and `handleUpdateAck` writes the
answer to every row of the device and version in the tenant of the connection.  Where the row of a
push is there in that tenant before its answer, and answers for one version agree, the stored
status is the acknowledged one (`acked_stored`).
-/

namespace OpenGate.Agents.UpdateAck

open OpenGate.Lib OpenGate.Rules OpenGate.Agents.UpdatePush

inductive Status where
  | pending | success | failed
  deriving DecidableEq

/-- A row of `device_updates`, or the message and the answer it stands for; `push` is the send. -/
structure DeviceUpdate where
  push : Nat
  tenantID : Uuid
  deviceID : Uuid
  version : String
  status : Status
  deriving DecidableEq

/-- The rows, both directions of the connections, and the answers that were handled. -/
structure Updates where
  pushes : Nat := 0
  rows : List DeviceUpdate := []
  toAgent : Uuid → List DeviceUpdate := fun _ => []
  toServer : Uuid → List DeviceUpdate := fun _ => []
  acked : List DeviceUpdate := []

/-- What a push has still to do; an agent answers, and the read loop takes an answer. -/
inductive Task where
  | push (tenant : Uuid) (m : Manifest) (eligible : List Agent)
  | create (m : Manifest) (du : DeviceUpdate) (eligible : List Agent)
  | answer (device : Uuid) (success : Bool)
  | handleUpdateAck (device : Uuid)

def Task.calls : Task → Bool
  | .create .. => false
  | _ => true

/-- `UPDATE device_updates SET status = … WHERE tenant_id = … AND device_id = … AND version = …`. -/
def DeviceUpdate.setStatus (ack du : DeviceUpdate) : DeviceUpdate :=
  if du.tenantID = ack.tenantID ∧ du.deviceID = ack.deviceID ∧ du.version = ack.version then
    { du with status := ack.status }
  else du

-- The tenant that the connection of a device runs in.
variable {tenantOf : Uuid → Uuid}
variable {s s' : Updates} {task : Task} {before after next : List Task} {ack du : DeviceUpdate}

def Updates.exec (tenantOf : Uuid → Uuid) (s : Updates) : Task → Option (Updates × List Task)
  | .push _ _ [] => some (s, [])
  | .push tenant m (agent :: eligible) =>
    if m.incomplete.isSome then some (s, [])
    else if agent.writes then
      let du : DeviceUpdate := ⟨s.pushes, tenant, agent.deviceID, m.version, .pending⟩
      some ({ s with
        pushes := s.pushes + 1
        toAgent := Function.update s.toAgent agent.deviceID (s.toAgent agent.deviceID ++ [du]) },
        [.create m du eligible])
    else some (s, [.push tenant m eligible])
  | .create m du eligible =>
    some ({ s with rows := s.rows ++ [du] }, [.push du.tenantID m eligible])
  | .answer device success =>
    match s.toAgent device with
    | [] => none
    | du :: rest =>
      let ack := { du with status := if success then .success else .failed }
      some ({ s with
        toAgent := Function.update s.toAgent device rest
        toServer := Function.update s.toServer device (s.toServer device ++ [ack]) }, [])
  | .handleUpdateAck device =>
    match s.toServer device with
    | [] => none
    | msg :: rest =>
      let ack := { msg with tenantID := tenantOf device, deviceID := device }
      some ({ s with
        rows := s.rows.map ack.setStatus
        toServer := Function.update s.toServer device rest
        acked := s.acked ++ [ack] }, [])

abbrev Reached (tenantOf : Uuid → Uuid) (guard : Pool Updates Task → Task → Bool) :
    Pool Updates Task → Prop :=
  PoolReached (Task.calls ·) (Updates.exec tenantOf) (guard · ·) {}

/-- An answer is handled only while the row of its push is there in the tenant of the connection,
and if it says what the answers handled before for the device and version said. -/
def settled (tenantOf : Uuid → Uuid) (pool : Pool Updates Task) : Task → Bool
  | .handleUpdateAck device => (pool.shared.toServer device).head?.all fun msg =>
    (∃ du ∈ pool.shared.rows, du.push = msg.push ∧ du.tenantID = tenantOf device ∧
      du.deviceID = device ∧ du.version = msg.version) ∧
    ∀ earlier ∈ pool.shared.acked, earlier.deviceID = device ∧ earlier.version = msg.version →
      earlier.status = msg.status
  | _ => true

theorem exec_stored (ran : s.exec tenantOf task = some (s', next))
    (guarded : settled tenantOf ⟨s, before ++ task :: after⟩ task)
    (stored : ∀ ack ∈ s.acked, ack ∈ s.rows) : ∀ ack ∈ s'.acked, ack ∈ s'.rows := by
  unfold Updates.exec at ran
  cases task with
  | create m du eligible =>
    cases ran
    exact fun ack handled => List.mem_append_left _ (stored ack handled)
  | handleUpdateAck device =>
    dsimp only at ran
    split at ran
    · cases ran
    next msg rest read =>
      cases ran
      simp only [settled, read, List.head?_cons, Option.all_some, decide_eq_true_eq] at guarded
      obtain ⟨⟨du, row, push, tenant, owner, version⟩, agree⟩ := guarded
      refine List.forall_mem_append.mpr ⟨fun earlier handled => ?_, ?_⟩
      · refine List.mem_map.mpr ⟨earlier, stored earlier handled, ?_⟩
        unfold DeviceUpdate.setStatus
        split
        next same => rw [← agree earlier handled same.2]
        · rfl
      · refine List.forall_mem_singleton.mpr (List.mem_map.mpr ⟨du, row, ?_⟩)
        rw [DeviceUpdate.setStatus, if_pos ⟨tenant, owner, version⟩, push, tenant, owner, version]
  -- Neither a send nor an answer on its way touches a row.
  | push tenant m eligible =>
    cases eligible with
    | nil => cases ran; exact stored
    | cons agent eligible =>
      dsimp only at ran
      split_ifs at ran <;> cases ran <;> exact stored
  | answer device success =>
    dsimp only at ran
    split at ran <;> cases ran
    exact stored

/-- In every run whose answers find their row and agree, an acknowledged push has the row its
answer says. -/
theorem acked_stored {pool : Pool Updates Task}
    (reached : Reached tenantOf (settled tenantOf) pool) :
    ∀ ack ∈ pool.shared.acked, ack ∈ pool.shared.rows :=
  reached.invariant (I := fun s _ => ∀ ack ∈ s.acked, ack ∈ s.rows) (List.forall_mem_nil _)
    (fun _ _ _ _ => id) fun _ _ _ _ _ _ ran guarded stored => exec_stored ran guarded stored

/-- An update of one agent, which it applies. -/
def oneUpdate : List (Choice Task) :=
  [.begin (.push 7 ⟨"2", "u", "h", "g"⟩ [⟨0, "linux", "amd64", "1", true⟩]), .run 0,
    .begin (.answer 0 true), .run 1, .begin (.handleUpdateAck 0)]

theorem acked_stored_created : ∃ pool : Pool Updates Task, pool.shared.acked.length = 1 ∧
    ∀ ack ∈ pool.shared.acked, ack ∈ pool.shared.rows := by
  have run : ∃ pool, Reached (fun _ => 7) (settled fun _ => 7) pool ∧
      pool.shared.acked.length = 1 :=
    exists_reached_of_follow (oneUpdate ++ [0, 1].map .run) (by decide) (by decide +kernel)
  obtain ⟨pool, reached, one⟩ := run
  exact ⟨pool, one, acked_stored reached⟩

/-- The answer is handled before the row is created, and the row stays pending. -/
theorem acked_stays_pending : ∃ pool : Pool Updates Task,
    Reached (fun _ => 7) (fun _ _ => true) pool ∧ pool.tasks.length = 0 ∧
      pool.shared.rows.map (·.status) = [.pending] ∧
      ¬ ∀ ack ∈ pool.shared.acked, ack ∈ pool.shared.rows :=
  exists_reached_of_follow (oneUpdate ++ [1, 0, 0].map .run) (by decide) (by decide +kernel)

end OpenGate.Agents.UpdateAck
