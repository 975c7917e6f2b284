import OpenGate.Agents.Requests
import OpenGate.Lib.Links
import OpenGate.Lib.Tasks
import OpenGate.Rules.Fits
import OpenGate.Rules.Rollout

/-!
# Rules pushed to the agents

`agentapi/alert_rules.go` and `RulesFor` of `agentapi/alert_rules_catalogue.go`: a registration
resolves the ruleset of its machine and sends it, and a change of a binding or a rollout
(`api/handlers_rules_tuning.go`, `api/handlers_rules_rollout.go`) is followed by a fan-out that does
the same for each connected machine of the customer, or of the tenant, that was given a ruleset
before.  `RulesFor` reads the bindings, the rollouts and, while a rollout is in the middle, the size
of the estate, one after the other.

What a push has read can be overtaken by a change, the deletion of a binding is followed by no
fan-out at all, and a new machine changes the size of the estate of the others.  `rules_converge` is
the result for runs where none of this happens.
-/

namespace OpenGate.Agents.RulePush

open OpenGate.Alerts OpenGate.Lib OpenGate.Rules OpenGate.Tsdb Std Links Option
open List (exists_mem_cons_of filter filter_cons forall_mem_nil not_mem_nil)

variable {F : Type}

/-! ## The store -/

/-- What no call changes: the catalogue, where each device is filed, its tags, the alert allowance
of each customer, and the customers with their tenants. -/
structure Estate (F : Type) where
  definitions : List (Definition F)
  scopeFor : Uuid → Scope
  tagsFor : Uuid → ExtTreeMap String String
  deviceHourly : Uuid → Option Int
  organizations : List (Uuid × Uuid)
  filed : ∀ device tenant, ((scopeFor device).organizationId, tenant) ∈ organizations →
    (scopeFor device).tenantId = tenant

def Estate.customer (e : Estate F) (device : Uuid) : Uuid := (e.scopeFor device).organizationId

structure Store (F : Type) where
  bindings : List (Binding F)
  rollouts : List Rollout
  rows : List Uuid

/-- `ORDER BY rule_id, level, level_key, precedence DESC, id`. -/
def bindingOrder (b other : Binding F) : Bool :=
  (compare b.ruleId other.ruleId).then (compare b.level.text other.level.text)
    |>.then (compare b.levelKey other.levelKey) |>.then (compare other.precedence b.precedence)
    |>.then (compare b.id other.id) |>.isLE

def Store.listBindings (s : Store F) (organization : Uuid) : List (Binding F) :=
  (s.bindings.filter fun b => b.organizationId = organization).insertionSort (bindingOrder · ·)

/-- With `ORDER BY rule_id`. -/
def Store.listRollouts (s : Store F) (organization : Uuid) : List Rollout :=
  (s.rollouts.filter fun r => r.organizationId = organization).insertionSort
    fun r other => (compare r.ruleId other.ruleId).isLE

/-- `INSERT … ON CONFLICT … DO UPDATE`. -/
def onConflict {α : Type} (same : α → Bool) (update : α → α) (new : α) (rows : List α) : List α :=
  if rows.any same then rows.map fun row => if same row then update row else row else rows ++ [new]

def sameBinding (b other : Binding F) : Bool :=
  other.organizationId = b.organizationId ∧ other.ruleId = b.ruleId ∧ other.level = b.level ∧
    other.levelKey = b.levelKey ∧ other.selector.toList = b.selector.toList

def sameRollout (organization : Uuid) (ruleId : String) (other : Rollout) : Bool :=
  other.organizationId = organization ∧ other.ruleId = ruleId

def setKill (organization : Uuid) (ruleId : String) (kill : Bool) : List Rollout → List Rollout :=
  onConflict (sameRollout organization ruleId) (fun other => { other with kill := kill })
    { defaultRollout organization ruleId with kill := kill }

/-- The machines a fan-out is for. -/
inductive Selection where
  | organization (id : Uuid)
  | tenant (id : Uuid)
  deriving DecidableEq

def Selection.covers (e : Estate F) (device : Uuid) : Selection → Bool
  | .organization id => e.customer device = id
  | .tenant id => (e.scopeFor device).tenantId = id

inductive Change (F : Type) where
  | putBinding (b : Binding F)
  | deleteBinding (id : Uuid)
  | putRollout (r : Rollout)
  | setKill (organization : Uuid) (ruleId : String) (kill : Bool)
  | setKillTenantWide (tenant : Uuid) (ruleId : String) (kill : Bool)

def Change.apply (e : Estate F) (s : Store F) : Change F → Store F
  | .putBinding b =>
    { s with
      bindings := onConflict (sameBinding b)
        (fun other => { other with precedence := b.precedence, params := b.params }) b s.bindings }
  | .deleteBinding id => { s with bindings := s.bindings.filter fun b => b.id ≠ id }
  | .putRollout r =>
    { s with
      rollouts := onConflict (sameRollout r.organizationId r.ruleId) (fun _ => r.paced) r.paced
        s.rollouts }
  | .setKill organization ruleId kill =>
    { s with rollouts := RulePush.setKill organization ruleId kill s.rollouts }
  | .setKillTenantWide tenant ruleId kill =>
    { s with
      rollouts := (e.organizations.filter fun o => o.2 = tenant).foldl
        (fun rollouts o => RulePush.setKill o.1 ruleId kill rollouts) s.rollouts }

def Change.delivers : Change F → Option Selection
  | .putBinding b => some (.organization b.organizationId)
  | .deleteBinding _ => none
  | .putRollout r => some (.organization r.organizationId)
  | .setKill organization _ _ => some (.organization organization)
  | .setKillTenantWide tenant _ _ => some (.tenant tenant)

/-! ## The ruleset of a machine -/

section RulesFor

variable [GoFloat F]

/-- A machine without a customer takes the catalogue as shipped. -/
def Estate.shipped (e : Estate F) (device : Uuid) : RuleSet F where
  rules := resolveAll e.definitions ⟨e.scopeFor device, ∅⟩ [] fun d =>
    (rolloutFor [] (e.customer device) d.id).reaches (e.scopeFor device).deviceId 0
  deviceHourlyCeiling := 0
  eventRules := wantedEventRules e.definitions 0 []

def maxDeviceHourlyCeiling : Int := 200

omit [GoFloat F] in
def Estate.ceilingFor (e : Estate F) (organization : Uuid) : Nat :=
  match e.deviceHourly organization with
  | none => 0
  | some limit => Requests.clampNonNegativeUint32 (min limit maxDeviceHourlyCeiling)

omit [GoFloat F] in
def Estate.fleetSizeFor (e : Estate F) (s : Store F) (organization : Uuid)
    (rollouts : List Rollout) : Int :=
  if needsFleetSize rollouts then
    ((s.rows.filter fun device => e.customer device = organization).length : Int)
  else 0

def Estate.assemble (e : Estate F) (device : Uuid) (bindings : List (Binding F))
    (rollouts : List Rollout) (fleetSize : Int) : RuleSet F where
  rules := resolveAll e.definitions ⟨e.scopeFor device, e.tagsFor device⟩ bindings fun d =>
    (rolloutFor rollouts (e.customer device) d.id).reaches (e.scopeFor device).deviceId fleetSize
  deviceHourlyCeiling := e.ceilingFor (e.customer device)
  eventRules := wantedEventRules e.definitions (e.customer device) rollouts

def Estate.rulesFor (e : Estate F) (s : Store F) (device : Uuid) : RuleSet F :=
  let organization := e.customer device
  if organization = 0 then e.shipped device
  else
    e.assemble device (s.listBindings organization) (s.listRollouts organization)
      (e.fleetSizeFor s organization (s.listRollouts organization))

end RulesFor

structure Pushed (F : Type) where
  alertRules : List (ThresholdRule F)
  deviceHourlyCeiling : Nat

def RuleSet.pushed (ruleset : RuleSet F) : Option (Pushed F) :=
  some ⟨ruleset.rules, ruleset.deviceHourlyCeiling⟩

/-! ## The server -/

/-- The store, the links to the agents, the devices of which a connection was accepted, and the
connections that remember a customer, because they were given a ruleset. -/
structure Server (F : Type) where
  store : Store F
  links : Uuid → Links (Option (Pushed F))
  accepted : List Uuid
  given : List (Uuid × Nat)

def Server.new (store : Store F) : Server F := ⟨store, fun _ => .new none, [], []⟩

def Server.relink (s : Server F) (device : Uuid) (l : Links (Option (Pushed F))) : Server F :=
  { s with links := Function.update s.links device l }

structure Fan where
  selection : Selection
  rest : List (Uuid × Nat)

/-- What a push has still to do, with what it has read; that of a registration begins with its
row. -/
inductive Stage (F : Type) where
  | upsert
  | pushAlertRules
  | listRollouts (bindings : List (Binding F))
  | counts (bindings : List (Binding F)) (rollouts : List Rollout)
  | rememberRuleset (ruleset : RuleSet F)
  | sendPushAlertRules (ruleset : RuleSet F)

/-- What a call has still to do; a push belongs to a fan-out, or to a registration. -/
inductive Task (F : Type) where
  | change (c : Change F)
  | putRuleRollout (organization : Uuid) (ruleId : String) (enabled : Bool)
      (canaryPercent stagedPercent : Int)
  | refreshRules (selection : Selection)
  | refreshEach (fan : Fan)
  | push (stage : Stage F) (device : Uuid) (conn : Nat) (fan : Option Fan)
  | accept (device : Uuid) (conn : Nat)
  | register (device : Uuid) (conn : Nat)
  | unregisterConn (device : Uuid) (conn : Nat)
  | releaseDeviceStatus (device : Uuid) (conn : Nat)
  | connect (device : Uuid)
  | disconnect (device : Uuid)
  | receive (device : Uuid)

def Task.Calls : Task F → Prop
  | .refreshRules _ | .refreshEach _ | .push .. | .releaseDeviceStatus .. => False
  | _ => True

variable [GoFloat F] {c : Change F}

def Server.exec (e : Estate F) (s : Server F) : Task F → Option (Server F × List (Task F))
  | .change c => some ({ s with store := c.apply e s.store }, (c.delivers.map .refreshRules).toList)
  | .putRuleRollout organization ruleId enabled canaryPercent stagedPercent =>
    let stored := rolloutFor (s.store.listRollouts organization) organization ruleId
    some (s, [.change (.putRollout { stored with enabled, canaryPercent, stagedPercent })])
  | .refreshRules selection =>
    let connected := s.accepted.filterMap fun device =>
      (s.links device).held.map fun conn => (device, conn)
    some (s, [.refreshEach ⟨selection, connected⟩])
  | .refreshEach ⟨_, []⟩ => some (s, [])
  | .refreshEach ⟨selection, (device, conn) :: rest⟩ =>
    if (device, conn) ∈ s.given ∧ selection.covers e device then
      some (s, [.push .pushAlertRules device conn (some ⟨selection, rest⟩)])
    else some (s, [.refreshEach ⟨selection, rest⟩])
  | .push .upsert device conn fan =>
    let store := { s.store with rows := s.store.rows.insert device }
    some ({ s with store }, [.push .pushAlertRules device conn fan])
  | .push .pushAlertRules device conn fan =>
    if e.customer device = 0 then
      some (s, [.push (.rememberRuleset (e.shipped device)) device conn fan])
    else
      some (s, [.push (.listRollouts (s.store.listBindings (e.customer device))) device conn fan])
  | .push (.listRollouts bindings) device conn fan =>
    let rollouts := s.store.listRollouts (e.customer device)
    some (s, [.push (.counts bindings rollouts) device conn fan])
  | .push (.counts bindings rollouts) device conn fan =>
    let fleetSize := e.fleetSizeFor s.store (e.customer device) rollouts
    some (s,
      [.push (.rememberRuleset (e.assemble device bindings rollouts fleetSize)) device conn fan])
  | .push (.rememberRuleset ruleset) device conn fan =>
    let given := if e.customer device = 0 then s.given else s.given.insert (device, conn)
    some ({ s with given }, [.push (.sendPushAlertRules ruleset) device conn fan])
  | .push (.sendPushAlertRules ruleset) device conn fan =>
    some (s.relink device ((s.links device).send conn (RuleSet.pushed ruleset)),
      (fan.map .refreshEach).toList)
  | .accept device conn =>
    ((s.links device).accept conn).map fun links =>
      ({ s.relink device links with accepted := s.accepted.insert device },
        [.push .upsert device conn none])
  | .register device conn =>
    if (s.links device).accepted conn then some (s, [.push .upsert device conn none]) else none
  | .unregisterConn device conn =>
    ((s.links device).release conn).map fun links =>
      (s.relink device links, [.releaseDeviceStatus device conn])
  | .releaseDeviceStatus device conn => some (s.relink device ((s.links device).forget conn), [])
  | .connect device => some (s.relink device ((s.links device).dial (s.links device).applied), [])
  | .disconnect device => some (s.relink device (s.links device).hangUp, [])
  | .receive device => (s.links device).receive.map fun links => (s.relink device links, [])

abbrev World (F : Type) := Pool (Server F) (Task F)

abbrev Reached (e : Estate F) (guard : World F → Task F → Prop) (store : Store F) :
    World F → Prop :=
  PoolReached Task.Calls (Server.exec e) guard (Server.new store)

omit [GoFloat F] in
def Change.touches (e : Estate F) (s : Store F) (device : Uuid) (c : Change F) : Bool :=
  match c with
  | .deleteBinding id => s.bindings.any fun b => b.id = id ∧ b.organizationId = e.customer device
  | c => c.delivers.any (·.covers e device)

omit [GoFloat F] in
def Task.reading : Task F → Option Uuid
  | .push .upsert .. | .push .pushAlertRules .. => none
  | .push _ device .. => some device
  | _ => none

omit [GoFloat F] in
/-- A change is stored while no push to a device it is for is between its first read and its send,
and one that no fan-out follows while no such device is connected; a new device is registered while
no delivered rollout of its customer is in the middle. -/
def Undisturbed (e : Estate F) (w : World F) : Task F → Prop
  | .change c =>
    (∀ task ∈ w.tasks, ∀ device ∈ task.reading, c.touches e w.shared.store device = false) ∧
      (c.delivers = none → ∀ device ∈ w.shared.accepted, c.touches e w.shared.store device = true →
        (w.shared.links device).held = none)
  | .push .upsert device _ _ => device ∈ w.shared.store.rows ∨
      needsFleetSize (w.shared.store.listRollouts (e.customer device)) = false
  | _ => True

/-! ## What a change touches -/

section Changes

omit [GoFloat F]

/-- A customer's part of a table that an upsert has no row of stays as it is. -/
theorem filter_onConflict {α : Type} {same : α → Bool} {update : α → α} {new : α}
    (customer : α → Uuid) {other : Uuid}
    (updated : ∀ row, same row → customer row ≠ other ∧ customer (update row) ≠ other)
    (added : customer new ≠ other) (rows : List α) :
    (onConflict same update new rows).filter (fun row => customer row = other)
      = rows.filter fun row => customer row = other := by
  have kept : (rows.map fun row => if same row then update row else row).filter
      (fun row => customer row = other) = rows.filter fun row => customer row = other := by
    induction rows with
    | nil => rfl
    | cons row rows ih =>
      rw [List.map_cons, filter_cons, filter_cons, ih]
      split
      next hit => rw [decide_eq_false (updated row hit).1, decide_eq_false (updated row hit).2]; rfl
      · rfl
  rw [onConflict]
  split
  · exact kept
  · rw [List.filter_append, filter_cons, decide_eq_false added]
    exact List.append_nil _

theorem filter_setKill {organization other : Uuid} (distinct : organization ≠ other)
    (ruleId : String) (kill : Bool) (rollouts : List Rollout) :
    (setKill organization ruleId kill rollouts).filter (fun r => r.organizationId = other)
      = rollouts.filter fun r => r.organizationId = other := by
  refine filter_onConflict Rollout.organizationId (fun row hit => ?_) distinct rollouts
  obtain ⟨own, -⟩ := of_decide_eq_true hit
  rw [← own] at distinct
  exact ⟨distinct, distinct⟩

variable {e : Estate F} {s : Store F} {device : Uuid}

/-- What `RulesFor` reads for a device, apart from the size of the estate. -/
structure Alike (e : Estate F) (device : Uuid) (s s' : Store F) : Prop where
  bindings : s'.listBindings (e.customer device) = s.listBindings (e.customer device)
  rollouts : s'.listRollouts (e.customer device) = s.listRollouts (e.customer device)

theorem Alike.refl (e : Estate F) (device : Uuid) (s : Store F) : Alike e device s s :=
  ⟨rfl, rfl⟩

theorem Alike.of_filter {s' : Store F}
    (bindings : s'.bindings.filter (fun b => b.organizationId = e.customer device)
      = s.bindings.filter fun b => b.organizationId = e.customer device)
    (rollouts : s'.rollouts.filter (fun r => r.organizationId = e.customer device)
      = s.rollouts.filter fun r => r.organizationId = e.customer device) : Alike e device s s' :=
  ⟨congrArg _ bindings, congrArg _ rollouts⟩

/-- A change is read only for the devices its fan-out covers. -/
theorem alike_apply {selection : Selection} (delivers : c.delivers = some selection)
    (outside : selection.covers e device = false) : Alike e device s (c.apply e s) := by
  cases c with
  | putBinding b =>
    cases delivers
    have distinct : b.organizationId ≠ e.customer device :=
      fun own => of_decide_eq_false outside own.symm
    refine .of_filter (filter_onConflict Binding.organizationId (fun other hit => ?_) distinct _)
      rfl
    obtain ⟨own, -⟩ := of_decide_eq_true hit
    rw [← own] at distinct
    exact ⟨distinct, distinct⟩
  | deleteBinding id => cases delivers
  | putRollout r =>
    cases delivers
    have distinct : r.organizationId ≠ e.customer device :=
      fun own => of_decide_eq_false outside own.symm
    have paced : r.paced.organizationId ≠ e.customer device := distinct
    refine .of_filter rfl (filter_onConflict Rollout.organizationId
      (fun other hit => ⟨?_, paced⟩) paced _)
    obtain ⟨own, -⟩ := of_decide_eq_true hit
    rwa [← own] at distinct
  | setKill organization ruleId kill =>
    cases delivers
    exact .of_filter rfl
      (filter_setKill (fun own => of_decide_eq_false outside own.symm) ruleId kill _)
  | setKillTenantWide tenant ruleId kill =>
    cases delivers
    have others : ∀ o ∈ e.organizations.filter fun o => o.2 = tenant, o.1 ≠ e.customer device := by
      rintro ⟨organization, owner⟩ here rfl
      obtain ⟨listed, same⟩ := List.mem_filter.mp here
      obtain rfl : owner = tenant := of_decide_eq_true same
      exact of_decide_eq_false outside (e.filed device owner listed)
    have folded : ∀ (organizations : List (Uuid × Uuid)) (rollouts : List Rollout),
        (∀ o ∈ organizations, o.1 ≠ e.customer device) →
        (organizations.foldl (fun rollouts o => RulePush.setKill o.1 ruleId kill rollouts)
          rollouts).filter
            (fun r => r.organizationId = e.customer device)
          = rollouts.filter fun r => r.organizationId = e.customer device := by
      intro organizations
      induction organizations with
      | nil => exact fun rollouts _ => rfl
      | cons o organizations ih =>
        intro rollouts others
        rw [List.foldl_cons, ih _ fun o here => others o (List.mem_cons_of_mem _ here)]
        exact filter_setKill (others o List.mem_cons_self) ruleId kill rollouts
    exact .of_filter rfl (folded _ _ others)

theorem alike_deleteBinding {id : Uuid}
    (untouched : (Change.deleteBinding id).touches e s device = false) :
    Alike e device s (Change.apply e s (.deleteBinding id)) := by
  have others : ∀ b ∈ s.bindings, b.id = id → b.organizationId ≠ e.customer device := by
    intro b here same own
    exact List.any_eq_false.mp untouched b here (decide_eq_true ⟨same, own⟩)
  refine .of_filter ?_ rfl
  show filter _ (filter _ s.bindings) = filter _ s.bindings
  rw [List.filter_filter]
  refine List.filter_congr fun b here => ?_
  by_cases own : b.organizationId = e.customer device
  · have kept : b.id ≠ id := fun same => others b here same own
    simp [own, kept]
  · simp [own]

theorem alike_of_untouched (untouched : c.touches e s device = false) :
    Alike e device s (c.apply e s) := by
  have outside : ∀ selection, c.delivers = some selection →
      c.touches e s device = c.delivers.any (·.covers e device) →
      selection.covers e device = false := by
    intro selection delivers touches
    rw [← untouched, touches, delivers]
    rfl
  cases c with
  | deleteBinding id => exact alike_deleteBinding untouched
  | putBinding | putRollout | setKill | setKillTenantWide =>
    exact alike_apply rfl (outside _ rfl rfl)

theorem rows_apply (c : Change F) (s : Store F) : (c.apply e s).rows = s.rows := by
  cases c <;> rfl

end Changes

/-- A ruleset is what `RulesFor` makes of the bindings, the rollouts and the size of the estate. -/
theorem rulesFor_congr {e : Estate F} {device : Uuid} {s s' : Store F} (alike : Alike e device s s')
    (fleet : needsFleetSize (s.listRollouts (e.customer device)) →
      s'.rows.filter (fun other => e.customer other = e.customer device)
        = s.rows.filter fun other => e.customer other = e.customer device) :
    e.rulesFor s' device = e.rulesFor s device := by
  rw [Estate.rulesFor, Estate.rulesFor, alike.bindings, alike.rollouts]
  have size : e.fleetSizeFor s' (e.customer device) (s.listRollouts (e.customer device))
      = e.fleetSizeFor s (e.customer device) (s.listRollouts (e.customer device)) := by
    rw [Estate.fleetSizeFor, Estate.fleetSizeFor]
    split
    next staged => rw [fleet staged]
    · rfl
  rw [size]

theorem rulesFor_of_no_customer {e : Estate F} {device : Uuid} (none : e.customer device = 0)
    {s : Store F} : e.rulesFor s device = e.shipped device :=
  if_pos none

/-! ## What an agent will show is what the store gives -/

section Invariant

def Fan.Reaches (e : Estate F) (s : Server F) (device : Uuid) (conn : Nat) (fan : Fan) : Prop :=
  (device, conn) ∈ fan.rest ∧ fan.selection.covers e device = true ∧ (device, conn) ∈ s.given

/-- A call will send what the store gives on a connection. -/
def Task.Reaches (e : Estate F) (s : Server F) (device : Uuid) (conn : Nat) : Task F → Prop
  | .refreshRules selection => selection.covers e device = true ∧ (device, conn) ∈ s.given
  | .refreshEach fan => fan.Reaches e s device conn
  | .push _ other n fan => other = device ∧ n = conn ∨ ∃ f ∈ fan, f.Reaches e s device conn
  | _ => False

/-- A call will make a connection remember its customer. -/
def Task.Registers (device : Uuid) (conn : Nat) : Task F → Prop
  | .push (.sendPushAlertRules _) .. => False
  | .push _ other n _ => other = device ∧ n = conn
  | _ => False

def Stage.Fits (e : Estate F) (s : Store F) (device : Uuid) : Stage F → Prop
  | .upsert => True
  | .pushAlertRules => device ∈ s.rows
  | .listRollouts bindings =>
    device ∈ s.rows ∧ e.customer device ≠ 0 ∧ bindings = s.listBindings (e.customer device)
  | .counts bindings rollouts => device ∈ s.rows ∧ e.customer device ≠ 0 ∧
      bindings = s.listBindings (e.customer device) ∧ rollouts = s.listRollouts (e.customer device)
  | .rememberRuleset ruleset | .sendPushAlertRules ruleset =>
    device ∈ s.rows ∧ ruleset = e.rulesFor s device

def Task.Fits (e : Estate F) (s : Server F) (device : Uuid) : Task F → Prop
  | .push stage other n _ =>
    other = device → (s.links device).accepted n ∧ stage.Fits e s.store device
  | _ => True

def Settled (e : Estate F) (s : Server F) (device : Uuid) (conn : Nat) : Prop :=
  device ∈ s.store.rows ∧ (s.links device).shown conn = RuleSet.pushed (e.rulesFor s.store device)

structure Converging (e : Estate F) (device : Uuid) (s : Server F) (tasks : List (Task F)) :
    Prop where
  sound : (s.links device).Sound
  listed : ∀ conn, (s.links device).held = some conn → device ∈ s.accepted
  released : ∀ conn, (s.links device).held = some conn → (s.links device).released conn →
    .releaseDeviceStatus device conn ∈ tasks
  given : ∀ conn, (device, conn) ∈ s.given → (s.links device).accepted conn ∧ device ∈ s.store.rows
  known : ∀ conn, (s.links device).held = some conn → e.customer device ≠ 0 →
    (device, conn) ∈ s.given ∨ ∃ task ∈ tasks, task.Registers device conn
  fits : ∀ task ∈ tasks, task.Fits e s device
  settles : ∀ conn, (s.links device).Live conn →
    Settled e s device conn ∨ ∃ task ∈ tasks, task.Reaches e s device conn

structure Keeps (e : Estate F) (device : Uuid) (s s' : Server F) : Prop where
  accepted : ∀ conn, (s.links device).accepted conn → (s'.links device).accepted conn
  rows : device ∈ s.store.rows → device ∈ s'.store.rows
  alike : Alike e device s.store s'.store
  rules : device ∈ s.store.rows → e.rulesFor s'.store device = e.rulesFor s.store device
  given : ∀ conn, (device, conn) ∈ s.given → (device, conn) ∈ s'.given

variable {e : Estate F} {device : Uuid} {s s' : Server F} {before after next : List (Task F)}
  {task : Task F} {conn : Nat}

theorem Keeps.of_store (store : s'.store = s.store)
    (accepted : ∀ conn, (s.links device).accepted conn → (s'.links device).accepted conn)
    (given : ∀ conn, (device, conn) ∈ s.given → (device, conn) ∈ s'.given) :
    Keeps e device s s' := by
  refine ⟨accepted, fun row => store ▸ row, ?_, fun _ => by rw [store], given⟩
  rw [store]
  exact .refl e device s.store

theorem Task.Fits.mono (fits : task.Fits e s device) (keeps : Keeps e device s s') :
    task.Fits e s' device := by
  cases task with
  | push stage other n fan =>
    intro own
    obtain ⟨accepted, read⟩ := fits own
    refine ⟨keeps.accepted n accepted, ?_⟩
    cases stage with
    | upsert => trivial
    | pushAlertRules => exact keeps.rows read
    | listRollouts bindings =>
      obtain ⟨row, customer, rfl⟩ := read
      exact ⟨keeps.rows row, customer, keeps.alike.bindings.symm⟩
    | counts bindings rollouts =>
      obtain ⟨row, customer, rfl, rfl⟩ := read
      exact ⟨keeps.rows row, customer, keeps.alike.bindings.symm, keeps.alike.rollouts.symm⟩
    | rememberRuleset ruleset | sendPushAlertRules ruleset =>
      obtain ⟨row, rfl⟩ := read
      exact ⟨keeps.rows row, (keeps.rules row).symm⟩
  | _ => trivial

omit [GoFloat F] in
theorem Fan.Reaches.mono {fan : Fan} (reaches : fan.Reaches e s device conn)
    (given : ∀ conn, (device, conn) ∈ s.given → (device, conn) ∈ s'.given) :
    fan.Reaches e s' device conn :=
  ⟨reaches.1, reaches.2.1, given conn reaches.2.2⟩

omit [GoFloat F] in
theorem Task.Reaches.mono (reaches : task.Reaches e s device conn)
    (given : ∀ conn, (device, conn) ∈ s.given → (device, conn) ∈ s'.given) :
    task.Reaches e s' device conn := by
  cases task with
  | refreshRules selection => exact ⟨reaches.1, given conn reaches.2⟩
  | refreshEach fan => exact Fan.Reaches.mono reaches given
  | push stage other n fan =>
    rcases reaches with own | ⟨f, here, later⟩
    · exact .inl own
    · exact .inr ⟨f, here, later.mono given⟩
  | _ => cases reaches

/-- A step that shows a device nothing new but what is settled: what the task would have done for it
is done by the tasks that follow. -/
theorem Converging.step {sent gone : Option Nat}
    (converging : Converging e device s (before ++ task :: after)) (keeps : Keeps e device s s')
    (moves : (s.links device).Moves sent gone (s'.links device))
    (listed : device ∈ s.accepted → device ∈ s'.accepted)
    (lets : ∀ conn, (s'.links device).held = some conn → task ≠ .releaseDeviceStatus device conn)
    (releases : ∀ conn, gone = some conn → .releaseDeviceStatus device conn ∈ next)
    (given : ∀ conn, (device, conn) ∈ s'.given →
      (device, conn) ∈ s.given ∨ (s.links device).accepted conn ∧ device ∈ s.store.rows)
    (registers : ∀ conn, task.Registers device conn → e.customer device ≠ 0 →
      (device, conn) ∈ s'.given ∨ ∃ other ∈ next, other.Registers device conn)
    (left : ∀ other ∈ next, other.Fits e s' device)
    (live : ∀ conn, (s.links device).Live conn → (s'.links device).Live conn →
      Settled e s' device conn ∨ sent ≠ some conn ∧
        (task.Reaches e s device conn → ∃ other ∈ next, other.Reaches e s' device conn)) :
    Converging e device s' (before ++ next ++ after) := by
  have ahead : ∀ other ∈ next, other ∈ before ++ next ++ after := fun other here =>
    List.mem_append_left _ (List.mem_append_right _ here)
  refine ⟨moves.sound converging.sound, fun conn holds => ?_, fun conn holds gone => ?_,
    fun conn now => ?_, fun conn holds customer => ?_, ?_, fun conn lives => ?_⟩
  · exact listed (converging.listed conn (moves.held conn holds))
  · rcases moves.released conn gone with was | now
    · exact mem_run (converging.released conn (moves.held conn holds) was) (lets conn holds) next
    · exact ahead _ (releases conn now)
  · obtain ⟨accepted, row⟩ := (given conn now).elim (converging.given conn) id
    exact ⟨keeps.accepted conn accepted, keeps.rows row⟩
  · rcases converging.known conn (moves.held conn holds) customer with was | under
    · exact .inl (keeps.given conn was)
    · rcases exists_task_run under next with this | rest
      · rcases registers conn this customer with now | ⟨other, here, later⟩
        · exact .inl now
        · exact .inr ⟨other, ahead other here, later⟩
      · exact .inr rest
  · exact tasks_run converging.fits (fun other _ fits => fits.mono keeps) left
  · have was := moves.live converging.sound conn lives
    rcases live conn was lives with now | ⟨unsent, reaches⟩
    · exact .inl now
    · have shown := moves.shown converging.sound conn lives unsent
      rcases converging.settles conn was with ⟨row, settled⟩ | under
      · exact .inl ⟨keeps.rows row, by rw [shown, settled, keeps.rules row]⟩
      · rcases exists_task_run under next with this | ⟨other, here, rest⟩
        · obtain ⟨other, here, later⟩ := reaches this
          exact .inr ⟨other, ahead other here, later⟩
        · exact .inr ⟨other, here, rest.mono keeps.given⟩

/-- A step that leaves the store, the links of a device and what it remembers alone. -/
theorem Converging.elsewhere (converging : Converging e device s (before ++ task :: after))
    (store : s'.store = s.store) (links : s'.links device = s.links device)
    (given : s'.given = s.given) (listed : device ∈ s.accepted → device ∈ s'.accepted)
    (lets : ∀ conn, task ≠ .releaseDeviceStatus device conn)
    (registers : ∀ conn, task.Registers device conn → ∃ other ∈ next, other.Registers device conn)
    (left : ∀ other ∈ next, other.Fits e s' device)
    (reaches : ∀ conn, (s.links device).Live conn → task.Reaches e s device conn →
      ∃ other ∈ next, other.Reaches e s' device conn) :
    Converging e device s' (before ++ next ++ after) := by
  have moves : (s.links device).Moves none none (s'.links device) := .of_eq links
  exact converging.step (.of_store store moves.accepted (given ▸ fun _ was => was)) moves listed
    (fun conn _ => lets conn) nofun (given ▸ fun _ was => .inl was)
    (fun conn this _ => .inr (registers conn this)) left fun conn live _ =>
      .inr ⟨nofun, reaches conn live⟩

end Invariant

section Steps

variable {e : Estate F} {device other : Uuid} {s s' : Server F} {before after next : List (Task F)}
  {task : Task F} {n : Nat} {fan : Option Fan} {ruleset : RuleSet F} {l : Links (Option (Pushed F))}
  {conn : Nat}

omit [GoFloat F] in
theorem links_relink : (s.relink device l).links device = l :=
  Function.update_self ..

omit [GoFloat F] in
theorem links_relink_of_ne (distinct : other ≠ device) :
    (s.relink other l).links device = s.links device :=
  Function.update_of_ne (Ne.symm distinct) ..

/-- A step on the links of a device, by a task that has nothing to send. -/
theorem relink_converging {gone : Option Nat}
    (converging : Converging e device s (before ++ task :: after))
    (moves : (s.links other).Moves none gone l)
    (lets : ∀ owner conn, task = .releaseDeviceStatus owner conn → owner = other ∧
      l.held ≠ some conn)
    (releases : ∀ conn, gone = some conn → .releaseDeviceStatus other conn ∈ next)
    (quiet : ∀ conn, ¬ task.Registers device conn ∧ ¬ task.Reaches e s device conn)
    (left : ∀ task ∈ next, task.Fits e (s.relink other l) device) :
    Converging e device (s.relink other l) (before ++ next ++ after) := by
  by_cases own : other = device
  · subst own
    have moves : (s.links other).Moves none gone ((s.relink other l).links other) := by
      rwa [links_relink]
    refine converging.step (.of_store rfl moves.accepted fun _ was => was) moves id
      (fun conn holds same => ?_) releases (fun _ was => .inl was)
      (fun conn this => absurd this (quiet conn).1) left
      fun conn _ _ => .inr ⟨nofun, fun this => absurd this (quiet conn).2⟩
    rw [links_relink] at holds
    exact (lets other conn same).2 holds
  · refine converging.elsewhere rfl (links_relink_of_ne own) rfl id (fun conn same => ?_)
      (fun conn this => absurd this (quiet conn).1) left fun conn _ this =>
        absurd this (quiet conn).2
    exact own (lets device conn same).1.symm

/-- A push that has read something goes on, for the same connection and the same fan-out. -/
theorem read_converging {stage stage' : Stage F}
    (converging : Converging e device s (before ++ .push stage other n fan :: after))
    (registers : ∀ conn, (Task.push stage' other n fan).Registers device conn ↔ other = device ∧
      n = conn)
    (read : stage.Fits e s.store other → stage'.Fits e s.store other) :
    Converging e device s (before ++ [.push stage' other n fan] ++ after) := by
  have own := converging.fits (.push stage other n fan) (by simp)
  refine converging.elsewhere rfl rfl rfl id nofun (fun conn this => ?_)
    (List.forall_mem_singleton.mpr ?_) fun conn live reaches => exists_mem_cons_of _ reaches
  · refine exists_mem_cons_of _ ((registers conn).mpr ?_)
    cases stage with
    | sendPushAlertRules => cases this
    | _ => exact this
  · rintro rfl
    exact ⟨(own rfl).1, read (own rfl).2⟩

theorem remember_converging
    (converging : Converging e device s
      (before ++ .push (.rememberRuleset ruleset) other n fan :: after)) :
    Converging e device
      { s with given := if e.customer other = 0 then s.given else s.given.insert (other, n) }
      (before ++ [.push (.sendPushAlertRules ruleset) other n fan] ++ after) := by
  have own := converging.fits (.push (.rememberRuleset ruleset) other n fan) (by simp)
  have kept : ∀ conn, (device, conn) ∈ s.given →
      (device, conn) ∈ if e.customer other = 0 then s.given else s.given.insert (other, n) := by
    intro conn was
    split
    · exact was
    · exact List.mem_insert_of_mem was
  refine converging.step (.of_store rfl (fun _ known => known) kept)
    (Links.Moves.of_eq rfl : (s.links device).Moves none none _) id nofun nofun
    (fun conn was => ?_) (fun conn this customer => ?_) (List.forall_mem_singleton.mpr own)
    fun conn _ _ => .inr ⟨nofun, fun reaches => exists_mem_cons_of _ ?_⟩
  · split at was
    · exact .inl was
    · rcases List.mem_insert_iff.mp was with same | was
      · cases same
        exact .inr ⟨(own rfl).1, (own rfl).2.1⟩
      · exact .inl was
  · obtain ⟨rfl, rfl⟩ := this
    refine .inl ?_
    rw [if_neg customer]
    exact List.mem_insert_self
  · rcases reaches with this | ⟨f, here, later⟩
    · exact .inl this
    · exact .inr ⟨f, here, later.mono kept⟩

theorem send_converging
    (converging : Converging e device s
      (before ++ .push (.sendPushAlertRules ruleset) other n fan :: after)) :
    Converging e device (s.relink other ((s.links other).send n (RuleSet.pushed ruleset)))
      (before ++ (fan.map .refreshEach).toList ++ after) := by
  have own := converging.fits (.push (.sendPushAlertRules ruleset) other n fan) (by simp)
  have left : ∀ task ∈ (fan.map Task.refreshEach).toList,
      task.Fits e (s.relink other ((s.links other).send n (RuleSet.pushed ruleset))) device := by
    intro task here
    obtain ⟨f, -, rfl⟩ := map_eq_some_iff.mp (mem_toList.mp here)
    trivial
  have goes : ∀ conn, (∃ f ∈ fan, f.Reaches e s device conn) →
      ∃ task ∈ (fan.map Task.refreshEach).toList,
        task.Reaches e (s.relink other ((s.links other).send n (RuleSet.pushed ruleset))) device
        conn := by
    rintro conn ⟨f, here, later⟩
    exact ⟨_, mem_toList.mpr (map_eq_some_iff.mpr ⟨f, here, rfl⟩), later⟩
  by_cases same : other = device
  · subst same
    obtain ⟨known, row, rfl⟩ := own rfl
    have moves : (s.links other).Moves (some n) none
        ((s.relink other ((s.links other).send n (RuleSet.pushed (e.rulesFor s.store other)))).links
          other) := by
      rw [links_relink]
      exact moves_send known
    refine converging.step (.of_store rfl moves.accepted fun _ was => was) moves id nofun nofun
      (fun _ was => .inl was) nofun left fun conn was live => ?_
    by_cases reached : n = conn
    · subst reached
      refine .inl ⟨row, ?_⟩
      rw [links_relink] at live ⊢
      exact shown_send known live
    · refine .inr ⟨fun sent => reached (Option.some.inj sent), ?_⟩
      rintro (⟨-, this⟩ | later)
      · exact absurd this reached
      · exact goes conn later
  · refine converging.elsewhere rfl (links_relink_of_ne same) rfl id nofun nofun left ?_
    rintro conn live (⟨rfl, -⟩ | later)
    · exact absurd rfl same
    · exact goes conn later

theorem accept_converging (accepts : (s.links device).accept n = some l)
    (converging : Converging e device s (before ++ .accept device n :: after)) :
    Converging e device { s.relink device l with accepted := s.accepted.insert device }
      (before ++ [.push .upsert device n none] ++ after) := by
  have kept : ∀ conn, (s.links device).accepted conn ∨ conn = n →
      ((s.relink device l).links device).accepted conn := by
    intro conn known
    rw [links_relink]
    exact accepted_accept accepts known
  have ahead : .push .upsert device n none ∈ before ++ [.push .upsert device n none] ++ after := by
    simp
  refine ⟨?_, fun _ _ => List.mem_insert_self, ?_, fun conn was => ?_, ?_, ?_, ?_⟩
  · rw [links_relink]
    exact accept_sound converging.sound accepts
  · rw [links_relink, held_accept accepts]
    rintro conn ⟨⟩ gone
    exact absurd gone (not_released_accept converging.sound accepts)
  · exact ⟨kept conn (.inl (converging.given conn was).1), (converging.given conn was).2⟩
  · rw [links_relink, held_accept accepts]
    rintro conn ⟨⟩ -
    exact .inr ⟨_, ahead, rfl, rfl⟩
  · have keeps : Keeps e device s { s.relink device l with accepted := s.accepted.insert device } :=
      .of_store rfl (fun conn known => kept conn (.inl known)) fun _ was => was
    exact tasks_run converging.fits (fun other _ fits => fits.mono keeps)
      (List.forall_mem_singleton.mpr fun _ => ⟨kept n (.inr rfl), trivial⟩)
  · intro conn live
    rw [links_relink] at live
    obtain ⟨rfl, -⟩ := live_accept converging.sound accepts live
    exact .inr ⟨_, ahead, .inl ⟨rfl, rfl⟩⟩

theorem upsert_converging
    (allowed : Undisturbed e ⟨s, before ++ .push .upsert other n fan :: after⟩
      (.push .upsert other n fan))
    (converging : Converging e device s (before ++ .push .upsert other n fan :: after)) :
    Converging e device { s with store := { s.store with rows := s.store.rows.insert other } }
      (before ++ [.push .pushAlertRules other n fan] ++ after) := by
  have own := converging.fits (.push .upsert other n fan) (by simp)
  have keeps :
      Keeps e device s { s with store := { s.store with rows := s.store.rows.insert other } } := by
    refine ⟨fun _ known => known, List.mem_insert_of_mem, ⟨rfl, rfl⟩,
      fun row => rulesFor_congr ⟨rfl, rfl⟩ fun staged => ?_, fun _ was => was⟩
    -- A new device of another customer is not counted, and one of the same is not allowed now.
    by_cases row : other ∈ s.store.rows
    · exact congrArg _ (List.insert_of_mem row)
    · have settled := allowed.resolve_left row
      have distinct : e.customer other ≠ e.customer device := by
        intro same
        rw [same] at settled
        exact absurd (settled.symm.trans staged) nofun
      rw [List.insert_of_not_mem row, filter_cons, decide_eq_false distinct]
      rfl
  refine converging.step keeps (Links.Moves.of_eq rfl : (s.links device).Moves none none _) id nofun
    nofun (fun _ was => .inl was) (fun conn this _ => .inr (exists_mem_cons_of _ this))
    (List.forall_mem_singleton.mpr ?_)
    fun conn _ _ => .inr ⟨nofun, fun this => exists_mem_cons_of _ this⟩
  rintro rfl
  exact ⟨(own rfl).1, List.mem_insert_self⟩

/-- What a task that has read nothing yet for a device depends on. -/
theorem Task.Fits.of_unread (fits : task.Fits e s device) (unread : task.reading ≠ some device)
    (links : s'.links device = s.links device) (rows : s'.store.rows = s.store.rows) :
    task.Fits e s' device := by
  cases task with
  | push stage other n fan =>
    intro same
    obtain ⟨known, read⟩ := fits same
    refine ⟨links ▸ known, ?_⟩
    cases stage with
    | upsert => trivial
    | pushAlertRules =>
      rw [Stage.Fits, rows]
      exact read
    | _ => exact absurd (congrArg some same) unread
  | _ => trivial

omit [GoFloat F] in
/-- A registration will send what the store gives. -/
theorem Task.Registers.reaches (registers : task.Registers device conn) :
    task.Reaches e s device conn := by
  cases task with
  | push stage other n fan =>
    cases stage with
    | sendPushAlertRules => cases registers
    | _ => exact .inl registers
  | _ => cases registers

/-- A change that is for a connected device is followed by a fan-out to it. -/
theorem delivers_of_touches {tasks : List (Task F)} (allowed : Undisturbed e ⟨s, tasks⟩ (.change c))
    (converging : Converging e device s tasks) (holds : (s.links device).held = some conn)
    (touches : c.touches e s.store device) :
    ∃ selection, c.delivers = some selection ∧ selection.covers e device := by
  cases c with
  | deleteBinding id =>
    have unheld := allowed.2 rfl device (converging.listed conn holds) touches
    exact absurd (unheld.symm.trans holds) nofun
  | putBinding | putRollout | setKill | setKillTenantWide => exact ⟨_, rfl, touches⟩

theorem change_converging (allowed : Undisturbed e ⟨s, before ++ .change c :: after⟩ (.change c))
    (converging : Converging e device s (before ++ .change c :: after)) :
    Converging e device { s with store := c.apply e s.store }
      (before ++ (c.delivers.map .refreshRules).toList ++ after) := by
  have rows := rows_apply (e := e) c s.store
  have left : ∀ task ∈ (c.delivers.map Task.refreshRules).toList,
      task.Fits e { s with store := c.apply e s.store } device := by
    intro task here
    obtain ⟨selection, -, rfl⟩ := map_eq_some_iff.mp (mem_toList.mp here)
    trivial
  cases touches : c.touches e s.store device with
  | false =>
    have alike := alike_of_untouched touches
    have keeps : Keeps e device s { s with store := c.apply e s.store } :=
      ⟨fun _ known => known, fun row => rows ▸ row, alike,
        fun _ => rulesFor_congr alike fun _ => by rw [rows], fun _ was => was⟩
    exact converging.step keeps (Links.Moves.of_eq rfl : (s.links device).Moves none none _) id
      nofun nofun (fun _ was => .inl was) nofun left fun conn _ _ => .inr ⟨nofun, nofun⟩
  | true =>
    have unread : ∀ task ∈ before ++ .change c :: after, task.reading ≠ some device := by
      intro task here reading
      exact absurd (touches.symm.trans (allowed.1 task here device reading)) nofun
    refine ⟨converging.sound, converging.listed,
      fun conn holds gone => mem_run (converging.released conn holds gone) nofun _, ?_,
      fun conn holds customer => ?_, ?_, fun conn live => ?_⟩
    · rw [rows]
      exact converging.given
    · refine (converging.known conn holds customer).imp_right fun under => ?_
      exact (exists_task_run under _).resolve_left nofun
    · have fits : ∀ task ∈ before ++ .change c :: after,
          task.Fits e s device ∧ task.reading ≠ some device :=
        fun task here => ⟨converging.fits task here, unread task here⟩
      exact tasks_run fits (fun task _ fits => fits.1.of_unread fits.2 rfl rows) left
    · rcases converging.settles conn live with ⟨row, settled⟩ | under
      · by_cases customer : e.customer device = 0
        · refine .inl ⟨rows ▸ row, ?_⟩
          rw [rulesFor_of_no_customer customer] at settled ⊢
          exact settled
        · obtain ⟨selection, delivers, covers⟩ :=
            delivers_of_touches allowed converging live.held touches
          refine .inr ?_
          rcases converging.known conn live.held customer with was | ⟨task, here, registers⟩
          · refine ⟨.refreshRules selection, ?_, covers, was⟩
            rw [delivers]
            exact List.mem_append_left _ (List.mem_append_right _ (List.mem_singleton.mpr rfl))
          · have under : ∃ task ∈ before ++ .change c :: after, task.Reaches e s device conn :=
              ⟨task, here, registers.reaches⟩
            exact (exists_task_run under _).resolve_left nofun
      · exact .inr ((exists_task_run under _).resolve_left nofun)

theorem refresh_converging {fan : Fan} (ran : s.exec e (.refreshEach fan) = some (s', next))
    (converging : Converging e device s (before ++ .refreshEach fan :: after)) :
    Converging e device s' (before ++ next ++ after) := by
  obtain ⟨selection, rest⟩ := fan
  cases rest with
  | nil =>
    cases ran
    refine converging.elsewhere rfl rfl rfl id nofun nofun (forall_mem_nil _)
      fun conn live reaches => ?_
    exact absurd reaches.1 not_mem_nil
  | cons head rest =>
    obtain ⟨other, n⟩ := head
    rw [Server.exec] at ran
    split at ran
    next selected =>
      cases ran
      refine converging.elsewhere rfl rfl rfl id nofun nofun (List.forall_mem_singleton.mpr ?_)
        fun conn live reaches => exists_mem_cons_of _ ?_
      · rintro rfl
        exact converging.given n selected.1
      · rcases List.mem_cons.mp reaches.1 with same | later
        · cases same
          exact .inl ⟨rfl, rfl⟩
        · exact .inr ⟨_, rfl, later, reaches.2⟩
    next skipped =>
      cases ran
      refine converging.elsewhere rfl rfl rfl id nofun nofun (List.forall_mem_singleton.mpr trivial)
        fun conn live reaches => exists_mem_cons_of _ ?_
      rcases List.mem_cons.mp reaches.1 with same | later
      · cases same
        exact absurd ⟨reaches.2.2, reaches.2.1⟩ skipped
      · exact ⟨later, reaches.2⟩

theorem push_converging {stage : Stage F}
    (ran : s.exec e (.push stage other n fan) = some (s', next))
    (allowed : Undisturbed e ⟨s, before ++ .push stage other n fan :: after⟩
      (.push stage other n fan))
    (converging : Converging e device s (before ++ .push stage other n fan :: after)) :
    Converging e device s' (before ++ next ++ after) := by
  cases stage with
  | upsert =>
    cases ran
    exact upsert_converging allowed converging
  | pushAlertRules =>
    rw [Server.exec] at ran
    split at ran
    next none =>
      cases ran
      exact read_converging converging (fun _ => .rfl) fun row =>
        ⟨row, (rulesFor_of_no_customer none).symm⟩
    next customer =>
      cases ran
      exact read_converging converging (fun _ => .rfl) fun row => ⟨row, customer, rfl⟩
  | listRollouts bindings =>
    cases ran
    exact read_converging converging (fun _ => .rfl) fun ⟨row, customer, read⟩ =>
      ⟨row, customer, read, rfl⟩
  | counts bindings rollouts =>
    cases ran
    refine read_converging converging (fun _ => .rfl) ?_
    rintro ⟨row, customer, rfl, rfl⟩
    exact ⟨row, (if_neg customer).symm⟩
  | rememberRuleset ruleset =>
    cases ran
    exact remember_converging converging
  | sendPushAlertRules ruleset =>
    cases ran
    exact send_converging converging

theorem exec_converging (ran : s.exec e task = some (s', next))
    (allowed : Undisturbed e ⟨s, before ++ task :: after⟩ task)
    (converging : Converging e device s (before ++ task :: after)) :
    Converging e device s' (before ++ next ++ after) := by
  cases task with
  | change c =>
    cases ran
    exact change_converging allowed converging
  | putRuleRollout organization ruleId enabled canaryPercent stagedPercent =>
    cases ran
    exact converging.elsewhere rfl rfl rfl id nofun nofun (List.forall_mem_singleton.mpr trivial)
      fun _ _ => nofun
  | refreshRules selection =>
    cases ran
    refine converging.elsewhere rfl rfl rfl id nofun nofun (List.forall_mem_singleton.mpr trivial)
      fun conn live reaches => ?_
    have listed := converging.listed conn live.held
    refine exists_mem_cons_of _ ⟨List.mem_filterMap.mpr ⟨device, listed, ?_⟩, reaches⟩
    rw [live.held]
    rfl
  | refreshEach fan => exact refresh_converging ran converging
  | push stage other n fan => exact push_converging ran allowed converging
  | accept other n =>
    obtain ⟨l, accepts, ran⟩ := map_eq_some_iff.mp ran
    cases ran
    by_cases own : other = device
    · subst own
      exact accept_converging accepts converging
    · refine converging.elsewhere rfl (links_relink_of_ne own) rfl List.mem_insert_of_mem nofun
        nofun (List.forall_mem_singleton.mpr ?_) fun _ _ => nofun
      exact fun same => absurd same own
  | register other n =>
    rw [Server.exec] at ran
    split at ran
    next known =>
      cases ran
      refine converging.elsewhere rfl rfl rfl id nofun nofun (List.forall_mem_singleton.mpr ?_)
        fun _ _ => nofun
      rintro rfl
      exact ⟨known, trivial⟩
    · cases ran
  | unregisterConn other n =>
    obtain ⟨l, releases, ran⟩ := map_eq_some_iff.mp ran
    cases ran
    refine relink_converging converging (moves_release releases) nofun ?_ (fun _ => ⟨nofun, nofun⟩)
      (List.forall_mem_singleton.mpr trivial)
    rintro conn ⟨⟩
    exact List.mem_singleton.mpr rfl
  | releaseDeviceStatus other n =>
    cases ran
    refine relink_converging converging moves_forget ?_ nofun (fun _ => ⟨nofun, nofun⟩)
      (forall_mem_nil _)
    rintro _ _ ⟨⟩
    exact ⟨rfl, fun holds => (held_forget holds).1 rfl⟩
  | connect other =>
    cases ran
    exact relink_converging converging moves_dial nofun nofun (fun _ => ⟨nofun, nofun⟩)
      (forall_mem_nil _)
  | disconnect other =>
    cases ran
    exact relink_converging converging moves_hangUp nofun nofun (fun _ => ⟨nofun, nofun⟩)
      (forall_mem_nil _)
  | receive other =>
    obtain ⟨l, receives, ran⟩ := map_eq_some_iff.mp ran
    cases ran
    exact relink_converging converging (moves_receive receives) nofun nofun
      (fun _ => ⟨nofun, nofun⟩) (forall_mem_nil _)

theorem converging_of_reached {store : Store F} {w : World F}
    (reached : Reached e (Undisturbed e) store w)
    (device : Uuid) : Converging e device w.shared w.tasks := by
  refine reached.invariant (I := Converging e device) ?_ (fun s tasks task call converging => ?_)
    (fun s s' before after next task ran allowed converging =>
      exec_converging ran allowed converging)
  · exact ⟨sound_new none, nofun, nofun, nofun, nofun, nofun, fun conn live => nomatch live.held⟩
  · have wider : ∀ other ∈ tasks, other ∈ tasks ++ [task] :=
      fun other here => List.mem_append_left _ here
    refine ⟨converging.sound, converging.listed,
      fun conn holds gone => wider _ (converging.released conn holds gone), converging.given,
      fun conn holds customer => (converging.known conn holds customer).imp_right ?_,
      tasks_begin converging.fits ?_, fun conn live => (converging.settles conn live).imp_right ?_⟩
    · rintro ⟨other, here, registers⟩
      exact ⟨other, wider other here, registers⟩
    · cases task with
      | push => cases call
      | _ => trivial
    · rintro ⟨other, here, reaches⟩
      exact ⟨other, wider other here, reaches⟩

end Steps

/-- When every call is over and everything pushed on the connection a device is on has arrived, the
agent runs the rules the store gives it. -/
theorem rules_converge (e : Estate F) (store : Store F) (w : World F)
    (reached : Reached e (Undisturbed e) store w) (finished : w.tasks = []) (device : Uuid)
    (conn : Nat)
    (held : (w.shared.links device).held = some conn) (on : (w.shared.links device).on = some conn)
    (delivered : (w.shared.links device).queue conn = []) :
    (w.shared.links device).applied = RuleSet.pushed (e.rulesFor w.shared.store device) := by
  have converging := converging_of_reached reached device
  rw [finished] at converging
  have live : (w.shared.links device).Live conn :=
    ⟨held, on, fun gone => not_mem_nil (converging.released conn held gone)⟩
  rcases converging.settles conn live with ⟨-, settled⟩ | ⟨task, here, -⟩
  · rw [shown, delivered] at settled
    exact settled
  · exact absurd here not_mem_nil

instance (e : Estate F) (w : World F) : (task : Task F) → Decidable (Undisturbed e w task)
  | .change _ =>
    @instDecidableAnd _ _ (@List.decidableBAll _ _ (fun _ => Option.decidableForallMem _) _)
      (@instDecidableForall _ _ _ (@List.decidableBAll _ _ (fun _ => inferInstance) _))
  | .push .upsert .. => instDecidableOr
  | .push .pushAlertRules .. | .push (.listRollouts _) .. | .push (.counts ..) ..
  | .push (.rememberRuleset _) .. | .push (.sendPushAlertRules _) .. | .putRuleRollout ..
  | .refreshRules _ | .refreshEach _ | .accept .. | .register .. | .unregisterConn ..
  | .releaseDeviceStatus .. | .connect _ | .disconnect _ | .receive _ => instDecidableTrue

instance : (task : Task F) → Decidable task.Calls
  | .refreshRules _ | .refreshEach _ | .push .. | .releaseDeviceStatus .. => instDecidableFalse
  | .change _ | .putRuleRollout .. | .accept .. | .register .. | .unregisterConn .. | .connect _
  | .disconnect _ | .receive _ => instDecidableTrue

omit [GoFloat F] in
def delivered (w : World F) (device : Uuid) (conn : Nat) : Bool :=
  w.tasks.isEmpty && (w.shared.links device).held == some conn &&
    (w.shared.links device).on == some conn && ((w.shared.links device).queue conn).isEmpty

omit [GoFloat F] in
theorem of_delivered {w : World F} {device : Uuid} {conn : Nat} (all : delivered w device conn) :
    w.tasks = [] ∧ (w.shared.links device).held = some conn ∧
      (w.shared.links device).on = some conn ∧ (w.shared.links device).queue conn = [] := by
  simp only [delivered, Bool.and_eq_true, List.isEmpty_iff, beq_iff_eq] at all
  exact ⟨all.1.1.1, all.1.1.2, all.1.2, all.2⟩

omit [GoFloat F] in
def thresholds (pushed : Option (Pushed F)) : Option (List F) :=
  pushed.map fun p => p.alertRules.map ThresholdRule.threshold

def oneCustomer : Estate Int64 where
  definitions := [diskCritical]
  scopeFor device := ⟨device, 0, 1, 1⟩
  tagsFor _ := ∅
  deviceHourly _ := none
  organizations := [(1, 1)]
  filed := by
    intro device tenant listed
    cases List.mem_singleton.mp listed
    rfl

def registration (device : Uuid) : List (Choice (Task Int64)) :=
  [.begin (.connect device), .run 0, .begin (.accept device 0)] ++ List.replicate 7 (.run 0)

def kills (kill : Bool) : Choice (Task Int64) := .begin (.change (.setKill 1 "disk-critical" kill))

def receipts (n : Nat) : List (Choice (Task Int64)) :=
  (List.replicate n [.begin (.receive 14), .run 0]).flatten

def killedInTurn : List (Choice (Task Int64)) :=
  registration 14 ++ [kills true] ++ List.replicate 9 (.run 0) ++ [kills false]
    ++ List.replicate 9 (.run 0) ++ receipts 3

theorem rules_converge_in_turn :
    ∃ w : World Int64, w.tasks = [] ∧ thresholds (w.shared.links 14).applied = some [90] ∧
      (w.shared.links 14).applied = RuleSet.pushed (oneCustomer.rulesFor w.shared.store 14) := by
  obtain ⟨w, reached, last, is⟩ :
      ∃ w, Reached oneCustomer (Undisturbed oneCustomer) ⟨[], [], []⟩ w ∧
      delivered w 14 0 ∧ thresholds (w.shared.links 14).applied = some [90] :=
    exists_reached_of_follow killedInTurn (by decide) (by decide +kernel)
  obtain ⟨finished, held, on, received⟩ := of_delivered last
  exact ⟨w, finished, is, rules_converge oneCustomer _ w reached finished 14 0 held on received⟩

/-- What the first fan-out has read is sent after what the second one has. -/
def killsCrossing : List (Choice (Task Int64)) :=
  registration 14 ++ [kills true] ++ List.replicate 5 (.run 0) ++ [kills false]
    ++ List.replicate 9 (.run 1) ++ List.replicate 4 (.run 0) ++ receipts 3

/-- A threshold set on the machine is deleted. -/
def tuned : Store Int64 :=
  ⟨[⟨1, 1, "disk-critical", .device, 14, ∅, 0, paramsOf [("threshold", 95)]⟩], [], []⟩

def tuningDeleted : List (Choice (Task Int64)) :=
  registration 14 ++ [.begin (.change (.deleteBinding 1)), .run 0] ++ receipts 1

/-- A canary reaches the five machines there are, until a sixth registers. -/
def canary : Store Int64 :=
  ⟨[], [⟨1, "disk-critical", true, 5, false, 1, 10⟩], [14, 1, 2, 3, 4]⟩

def sixthRegistered : List (Choice (Task Int64)) :=
  registration 14 ++ registration 5 ++ receipts 1

omit [GoFloat F] in
/-- A connected agent has received everything and has other rules than the store gives. -/
structure Outdated [GoFloat F] (e : Estate F) (w : World F) (device : Uuid) (conn : Nat) :
    Prop where
  finished : w.tasks = []
  held : (w.shared.links device).held = some conn
  on : (w.shared.links device).on = some conn
  received : (w.shared.links device).queue conn = []
  differ : (w.shared.links device).applied ≠ RuleSet.pushed (e.rulesFor w.shared.store device)

def outdated (w : World Int64) : Bool :=
  delivered w 14 0 && thresholds (w.shared.links 14).applied
    != thresholds (RuleSet.pushed (oneCustomer.rulesFor w.shared.store 14))

theorem of_outdated {w : World Int64} (all : outdated w) : Outdated oneCustomer w 14 0 := by
  rw [outdated, Bool.and_eq_true, bne_iff_ne] at all
  obtain ⟨finished, held, on, received⟩ := of_delivered all.1
  exact ⟨finished, held, on, received, fun same => all.2 (congrArg thresholds same)⟩

/-- Each part of the condition is needed: crossing fan-outs, the deletion of a binding and a new
machine each leave an agent with other rules than the store gives. -/
theorem rules_stay_outdated :
    (∃ w, Reached oneCustomer (fun _ _ => True) ⟨[], [], []⟩ w ∧ Outdated oneCustomer w 14 0) ∧
      (∃ w, Reached oneCustomer (fun _ _ => True) tuned w ∧ Outdated oneCustomer w 14 0) ∧
      ∃ w, Reached oneCustomer (fun _ _ => True) canary w ∧ Outdated oneCustomer w 14 0 := by
  refine ⟨?_, ?_, ?_⟩
  · obtain ⟨w, reached, all⟩ : ∃ w, Reached oneCustomer (fun _ _ => True) ⟨[], [], []⟩ w ∧
      outdated w :=
      exists_reached_of_follow killsCrossing (by decide) (by decide +kernel)
    exact ⟨w, reached, of_outdated all⟩
  · obtain ⟨w, reached, all⟩ : ∃ w, Reached oneCustomer (fun _ _ => True) tuned w ∧ outdated w :=
      exists_reached_of_follow tuningDeleted (by decide) (by decide +kernel)
    exact ⟨w, reached, of_outdated all⟩
  · obtain ⟨w, reached, all⟩ : ∃ w, Reached oneCustomer (fun _ _ => True) canary w ∧ outdated w :=
      exists_reached_of_follow sixthRegistered (by decide) (by decide +kernel)
    exact ⟨w, reached, of_outdated all⟩

end OpenGate.Agents.RulePush
