import OpenGate.Agents.Dispatch

/-!
# The push of an update

`PushUpdate` of `api/handlers_updates.go`: a manifest goes to the connected agents of its platform,
of every tenant, unless the request lists its devices.  It stays within the caller's tenant exactly
where nobody else could be eligible (`push_within_tenant`).
-/

namespace OpenGate.Agents.UpdatePush

open OpenGate.Rules OpenGate.Agents.Dispatch

structure Manifest where
  version : String
  url : String
  sha256 : String
  signature : String
  deriving DecidableEq

/-- A connected agent, and whether a message to it can be written. -/
structure Agent where
  deviceID : Uuid
  os : String
  arch : String
  agentVersion : String
  writes : Bool

structure Caller (Tenant : Type) where
  tenant : Tenant
  isAdmin : Bool

structure PushUpdateRequest where
  os : String
  arch : String
  version : String
  deviceIds : Option (List Uuid)

inductive PushUpdateResponse where
  | forbidden (error : String)
  | notFound (error : String)
  | badRequest (error : String)
  | failed (error : String)
  | ok (pushedCount : Nat)
  deriving DecidableEq

def normalizeArch (agentArch : String) : String :=
  if agentArch = "x86_64" then "amd64" else if agentArch = "aarch64" then "arm64" else agentArch

/-- `requireNonEmptyFields` of `SendAgentUpdate`: why no agent can be sent the manifest. -/
def Manifest.incomplete (m : Manifest) : Option String :=
  let fields := [("version", m.version), ("url", m.url), ("signature", m.signature)]
  (fields.find? (·.2 = "")).map fun f => s!"incomplete control message: AgentUpdate.{f.1} is empty"

abbrev Sent := List (Uuid × Manifest)

def pushManifestToAgents (m : Manifest) (sent : Sent) : List Agent → Sent × Option String
  | [] => (sent, none)
  | agent :: eligible =>
    match m.incomplete with
    | some error => (sent, some error)
    | none =>
      let sent := if agent.writes then sent ++ [(agent.deviceID, m)] else sent
      pushManifestToAgents m sent eligible

variable {Tenant : Type} (lib : Library)
  (manifests : Option (String → String → Except String (Option Manifest)))
  (agents : List Agent) (caller : Caller Tenant) (request : PushUpdateRequest)

/-- An agent of the platform, off the version, and listed if the request lists devices. -/
def eligible (version : String) (agent : Agent) : Bool :=
  normalizeOS lib agent.os = request.os ∧ normalizeArch agent.arch = request.arch ∧
    agent.agentVersion ≠ version ∧ ∀ targets ∈ request.deviceIds, agent.deviceID ∈ targets

def eligibleAgents (version : String) : List Agent := agents.filter (eligible lib request version)

/-- The manifest a request is about, or the answer that ends the request; without a store the
updates are not configured. -/
def requested : Except PushUpdateResponse Manifest :=
  if !caller.isAdmin then .error (.forbidden "admin access required")
  else match manifests with
    | none => .error (.forbidden "update system not configured")
    | some get => match get request.os request.arch with
      | .error error => .error (.failed s!"get manifest: {error}")
      | .ok none => .error (.notFound s!"no manifest for {request.os}/{request.arch}")
      | .ok (some m) =>
        if m.version = request.version then .ok m
        else .error (.notFound
          s!"manifest version {m.version} does not match requested {request.version}")

def answerOf : Sent × Option String → PushUpdateResponse
  | (_, some error) => .badRequest error
  | (sent, none) => .ok sent.length

def pushUpdate : PushUpdateResponse × Sent :=
  match requested manifests caller request with
  | .error answer => (answer, [])
  | .ok m =>
    let pushed := pushManifestToAgents m [] (eligibleAgents lib agents request m.version)
    (answerOf pushed, pushed.1)

variable {lib manifests agents caller request} {m : Manifest} {sent : Sent}

theorem mem_of_pushed {entry : Uuid × Manifest}
    (pushed : entry ∈ (pushManifestToAgents m sent agents).1) :
    entry ∈ sent ∨ ∃ agent ∈ agents, agent.deviceID = entry.1 := by
  induction agents generalizing sent with
  | nil => exact .inl pushed
  | cons agent agents ih =>
    rw [pushManifestToAgents] at pushed
    split at pushed
    · exact .inl pushed
    · rcases ih pushed with before | ⟨other, here, is⟩
      · split at before
        · rcases List.mem_append.mp before with before | now
          · exact .inl before
          · exact .inr ⟨agent, List.mem_cons_self, by rw [List.mem_singleton.mp now]⟩
        · exact .inl before
      · exact .inr ⟨other, List.mem_cons_of_mem _ here, is⟩

/-- The answer counts the agents, in whatever order they are. -/
theorem answerOf_pushed : answerOf (pushManifestToAgents m sent agents) =
    match if agents.length = 0 then none else m.incomplete with
    | some error => .badRequest error
    | none => .ok (sent.length + agents.countP (·.writes)) := by
  induction agents generalizing sent with
  | nil => rfl
  | cons agent agents ih =>
    rw [pushManifestToAgents, List.length_cons, if_neg (Nat.succ_ne_zero _), List.countP_cons]
    cases incomplete : m.incomplete with
    | some error => rfl
    | none =>
      simp only [ih, incomplete, ite_self]
      split <;> simp only [List.length_append, List.length_singleton, Nat.add_assoc,
        Nat.add_comm 1, Nat.add_zero]

variable [DecidableEq Tenant]

/-- The connected agents of the caller's tenant. -/
abbrev own (tenantOf : Uuid → Tenant) (caller : Caller Tenant) (agents : List Agent) : List Agent :=
  agents.filter fun agent => tenantOf agent.deviceID = caller.tenant

/-- Whoever is connected, a request is sent to agents of the caller's tenant only and answered
the same whichever other agents there are, exactly where it is refused or no agent of another
tenant could be eligible. -/
theorem push_within_tenant (tenantOf : Uuid → Tenant) :
    (∀ agents,
      (∀ entry ∈ (pushUpdate lib manifests agents caller request).2,
        tenantOf entry.1 = caller.tenant) ∧
      ∀ agents', (own tenantOf caller agents).Perm (own tenantOf caller agents') →
        (pushUpdate lib manifests agents caller request).1 =
          (pushUpdate lib manifests agents' caller request).1) ↔
    ∀ m, requested manifests caller request = .ok m →
      ∀ agent, eligible lib request m.version agent → tenantOf agent.deviceID = caller.tenant := by
  constructor
  · intro within m about agent eligible
    by_contra foreign
    -- The agent alone on the server, against nobody.
    let agent : Agent := { agent with writes := true }
    have others : own tenantOf caller [agent] = [] := by simp [own, agent, foreign]
    have same := (within [agent]).2 [] (by rw [others]; exact .nil)
    have alone : eligibleAgents lib [agent] request m.version = [agent] :=
      List.filter_eq_self.mpr (List.forall_mem_singleton.mpr eligible)
    simp only [pushUpdate, about, alone, answerOf_pushed] at same
    cases incomplete : m.incomplete <;> simp [eligibleAgents, incomplete, agent] at same
  · intro confined agents
    rw [pushUpdate]
    cases about : requested manifests caller request with
    | error answer =>
      refine ⟨List.forall_mem_nil _, fun _ _ => ?_⟩
      simp only [pushUpdate, about]
    | ok m =>
      constructor
      · intro entry here
        rcases mem_of_pushed here with none | ⟨agent, here, is⟩
        · exact absurd none List.not_mem_nil
        · rw [← is]
          exact confined m about agent (List.mem_filter.mp here).2
      · intro agents' same
        have only (agents : List Agent) : eligibleAgents lib (own tenantOf caller agents) request
            m.version = eligibleAgents lib agents request m.version := by
          rw [eligibleAgents, eligibleAgents, List.filter_filter]
          refine List.filter_congr fun agent _ => ?_
          rw [Bool.eq_iff_iff, Bool.and_eq_true, decide_eq_true_eq]
          exact and_iff_left_of_imp (confined m about agent)
        have perm : (eligibleAgents lib _ request m.version).Perm
            (eligibleAgents lib _ request m.version) := same.filter _
        rw [only, only] at perm
        simp only [pushUpdate, about, answerOf_pushed, perm.countP_eq, perm.length_eq]

/-- Agents of the devices with these numbers, of which the first is of tenant 0. -/
def linuxAgents (ids : List Nat) : List Agent :=
  ids.map fun id => ⟨BitVec.ofNat 128 id, "linux", "x86_64", "1.0.0", true⟩

def tenantOfDevice (device : Uuid) : Nat := if device = 1 then 0 else 1

/-- A push of version 1.1.0 by an administrator of tenant 0. -/
def pushed (ids : List Nat) (deviceIds : Option (List Uuid)) : PushUpdateResponse × Sent :=
  pushUpdate ⟨id, fun _ => none⟩
    (some fun _ _ => .ok (some ⟨"1.1.0", "https://updates", "ab", "cd"⟩)) (linuxAgents ids)
    (⟨0, true⟩ : Caller Nat) ⟨"linux", "amd64", "1.1.0", deviceIds⟩

/-- A push to the caller's own device, with another tenant's connected. -/
theorem push_within_tenant_listed : (pushed [1, 2] (some [1])).2.length = 1 ∧
    ∀ entry ∈ (pushed [1, 2] (some [1])).2, tenantOfDevice entry.1 = 0 := by
  refine ⟨by decide +kernel, ((push_within_tenant tenantOfDevice).mpr ?_ _).1⟩
  intro m _ agent eligible
  rw [List.mem_singleton.mp ((of_decide_eq_true eligible).2.2.2 [1] rfl)]
  decide

/-- Without a list, or with the other tenant's device in it, the other tenant's agent is sent the
update and counted. -/
theorem push_across_tenants : [none, some [1, 2]].Forall fun deviceIds =>
    (pushed [1] deviceIds).1 = .ok 1 ∧ (pushed [1, 2] deviceIds).1 = .ok 2 ∧
      ∃ entry ∈ (pushed [1, 2] deviceIds).2, tenantOfDevice entry.1 ≠ 0 := by
  decide +kernel

end OpenGate.Agents.UpdatePush
