import OpenGate.Rules.Catalogue

/-!
# Resolving a rule for a machine

`settings/settings.go`, `rules/binding.go`, `rules/resolve.go` and the push of
`agentapi/alert_rules_catalogue.go`: a customer's bindings override the numbers of a rule,
each on its own, the narrowest rung of the tenancy ladder first, and the nearest allowed
value goes on the wire.  How far a rollout reaches is given.
-/

namespace OpenGate.Rules

open OpenGate.Alerts OpenGate.Lib OpenGate.Tsdb Std List

/-! ## The tenancy ladder -/

/-- An id; its text orders as the number does. -/
abbrev Uuid := BitVec 128

instance : LawfulBEq Uuid := inferInstance

/-- One rung, narrowest first. -/
inductive Level where
  | device
  | site
  | organization
  | tenant
  | shipped
  deriving DecidableEq, Repr

def Level.rank : Level → Nat
  | .device => 0
  | .site => 1
  | .organization => 2
  | .tenant => 3
  | .shipped => 4

def Level.text : Level → String
  | .device => "device"
  | .site => "site"
  | .organization => "organization"
  | .tenant => "tenant"
  | .shipped => "shipped"

def storableLevels : List Level := [.device, .site, .organization, .tenant]

/-- One machine's place in the ladder; a zero id is no rung. -/
structure Scope where
  deviceId : Uuid
  siteId : Uuid
  organizationId : Uuid
  tenantId : Uuid

/-- The id a value would be stored against at a level, if the scope has that rung. -/
def Scope.key (scope : Scope) (level : Level) : Option Uuid :=
  let present := fun id : Uuid => if id = 0 then none else some id
  match level with
  | .device => present scope.deviceId
  | .site => present scope.siteId
  | .organization => present scope.organizationId
  | .tenant => present scope.tenantId
  | .shipped => none

structure Override (T : Type) where
  level : Level
  scopeId : Uuid
  value : T

inductive Direction where
  | narrowestWins
  | broadestWins
  deriving DecidableEq, Repr

def ladder : Direction → List Level
  | .narrowestWins => storableLevels
  | .broadestWins => storableLevels.reverse

/-- The value for a scope and the rung that supplied it. -/
def settingsResolve {T : Type} (scope : Scope) (overrides : List (Override T)) (shipped : T)
    (direction : Direction) : T × Level :=
  let found := (ladder direction).findSome? fun level => do
    let key ← scope.key level
    let o ← overrides.find? fun o => decide (o.level = level) && decide (o.scopeId = key)
    some (o.value, level)
  found.getD (shipped, .shipped)

/-- A resolved value is shipped or set by an override. -/
theorem settingsResolve_mem {T : Type} (scope : Scope) (overrides : List (Override T)) (shipped : T)
    (direction : Direction) :
    (settingsResolve scope overrides shipped direction).1 = shipped ∨
      ∃ o ∈ overrides, (settingsResolve scope overrides shipped direction).1 = o.value := by
  unfold settingsResolve
  generalize found : List.findSome? _ (ladder direction) = result
  cases result with
  | none => exact .inl rfl
  | some pair =>
    obtain ⟨level, -, set⟩ := exists_of_findSome?_eq_some found
    simp only [Option.bind_eq_bind, Option.bind_eq_some_iff, Option.some.injEq] at set
    obtain ⟨key, -, o, here, rfl⟩ := set
    exact .inr ⟨o, mem_of_find?_eq_some here, rfl⟩

/-! ## Bindings -/

abbrev Selector := ExtTreeMap String String

/-- Every tag named must match exactly; a tag the machine lacks reads as empty. -/
def Selector.matches (selector : Selector) (tags : ExtTreeMap String String) : Bool :=
  selector.toList.all fun tag => tags.getD tag.1 "" == tag.2

/-- One customer's parameter override for one rule, filed on one rung. -/
structure Binding (F : Type) where
  id : Uuid
  organizationId : Uuid
  ruleId : String
  level : Level
  levelKey : Uuid
  selector : Selector
  precedence : Int
  params : ExtTreeMap String F

structure Device where
  scope : Scope
  tags : ExtTreeMap String String

def maxSelectorTags : Nat := 8

def maxSelectorKeyLen : Nat := 64

def maxSelectorValueLen : Nat := 128

def maxBindingParams : Nat := 8

/-- The named errors a refused binding wraps. -/
inductive BindingError where
  | paramNotTunable
  | paramOutOfBounds
  | ruleMismatch
  | invalidLevel
  | invalidSelector
  | unknownRule
  deriving DecidableEq, Repr

def BindingError.text : BindingError → String
  | .paramNotTunable => "parameter is not tunable on this rule"
  | .paramOutOfBounds => "parameter outside the rule's declared bounds"
  | .ruleMismatch => "binding names a different rule"
  | .invalidLevel => "binding level is not a rung of the tenancy ladder"
  | .invalidSelector => "selector is outside its bounds"
  | .unknownRule => "unknown rule"

def BindingError.wrap (e : BindingError) (text : String) : String := e.text ++ ": " ++ text

def storableLevel : Level → Bool
  | .device | .site | .organization | .tenant => true
  | .shipped => false

def Selector.validate (selector : Selector) : Except String Unit := do
  require (decide (selector.size ≤ maxSelectorTags)) (BindingError.invalidSelector.wrap
    (toString selector.size ++ " tags, at most " ++ toString maxSelectorTags))
  checkAll (fun tag => do
    require (tag.1 != "") (BindingError.invalidSelector.wrap "a tag key cannot be empty")
    require (decide (tag.1.utf8ByteSize ≤ maxSelectorKeyLen)) (BindingError.invalidSelector.wrap
      ("tag key " ++ quote tag.1 ++ " is longer than " ++ toString maxSelectorKeyLen
        ++ " characters"))
    require (decide (tag.2.utf8ByteSize ≤ maxSelectorValueLen)) (BindingError.invalidSelector.wrap
      ("tag " ++ quote tag.1 ++ "'s value is longer than " ++ toString maxSelectorValueLen ++
        " characters"))) selector.toList

variable {F : Type} [GoFloat F]

def validateParam (d : Definition F) (param : String × F) : Except String Unit :=
  match d.tunable[param.1]? with
  | none => .error (BindingError.paramNotTunable.wrap (d.id ++ " does not offer " ++ quote param.1))
  | some bounds => require (bounds.contains param.2) (BindingError.paramOutOfBounds.wrap
      (param.1 ++ " " ++ GoFloat.format param.2 ++ " is outside " ++ bounds.text))

/-- Refuses a binding with an untunable or out-of-bounds parameter, a level that names no
rung, or a selector beyond its limits. -/
def validateBinding (d : Definition F) (b : Binding F) : Except String Unit := do
  require (b.ruleId == d.id) (BindingError.ruleMismatch.wrap
    ("binding names " ++ quote b.ruleId ++ ", rule is " ++ quote d.id))
  require (storableLevel b.level) (BindingError.invalidLevel.wrap b.level.text)
  b.selector.validate
  require (decide (b.params.size ≤ maxBindingParams)) (BindingError.paramNotTunable.wrap
    (toString b.params.size ++ " parameters, at most " ++ toString maxBindingParams))
  checkAll (validateParam d) b.params.toList

/-- Looks the rule up first. -/
def validateBindingAgainst (cat : Catalogue F) (b : Binding F) : Except String Unit :=
  match cat.lookup b.ruleId with
  | none => .error (BindingError.unknownRule.wrap (quote b.ruleId))
  | some d => validateBinding d b

variable {d : Definition F} {name : String} {device : Device} {b : Binding F} {v : F}
  {applicable : List (Binding F)}

/-- The values an accepted binding sets are within the bounds. -/
theorem validateBinding_contains (accepted : validateBinding d b = .ok ())
    (set : b.params[name]? = some v) :
    ∃ bounds, d.tunable[name]? = some bounds ∧ bounds.contains v := by
  simp only [validateBinding, bind_eq_ok, checkAll_eq_ok] at accepted
  have checked := accepted.2.2.2.2 (name, v) (ExtTreeMap.mem_toList_iff_getElem?_eq_some.mpr set)
  unfold validateParam at checked
  split at checked
  · cases checked
  next bounds offered => exact ⟨bounds, offered, require_eq_ok.mp checked⟩

/-! ## Resolution -/

def applies (d : Definition F) (device : Device) (b : Binding F) : Bool :=
  b.ruleId == d.id && b.organizationId == device.scope.organizationId && storableLevel b.level &&
    device.scope.key b.level == some b.levelKey && b.selector.matches device.tags

omit [GoFloat F] in
/-- Bindings by level, targeted before blanket, precedence, then id. -/
def speaksFirst (a b : Binding F) : Bool :=
  if a.level ≠ b.level then decide (a.level.rank < b.level.rank)
  else if a.selector.isEmpty ≠ b.selector.isEmpty then !a.selector.isEmpty
  else if a.precedence ≠ b.precedence then decide (a.precedence > b.precedence)
  else decide (a.id < b.id)

/-- The bindings for this rule, customer and tags, in `speaksFirst` order. -/
def applicableBindings (d : Definition F) (device : Device) (bindings : List (Binding F)) :
    List (Binding F) :=
  (bindings.filter (applies d device)).insertionSort fun a b => speaksFirst b a = false

omit [GoFloat F] in
/-- One value per rung: the first applicable binding there that sets the name. -/
def paramOverridesFrom (name : String) (device : Device) :
    List Level → List (Binding F) → List (Override F)
  | _, [] => []
  | seen, b :: applicable =>
    match b.params[name]?, seen.contains b.level, device.scope.key b.level with
    | some value, false, some key =>
      ⟨b.level, key, value⟩ :: paramOverridesFrom name device (b.level :: seen) applicable
    | _, _, _ => paramOverridesFrom name device seen applicable

omit [GoFloat F] in
def paramOverrides (name : String) (device : Device) (applicable : List (Binding F)) :
    List (Override F) :=
  paramOverridesFrom name device [] applicable

def resolveParam (d : Definition F) (device : Device) (applicable : List (Binding F))
    (name : String) : F :=
  let shipped := (d.shippedParam name).getD Float64.zero
  match d.tunable[name]? with
  | none => shipped
  | some bounds =>
    let overrides := paramOverrides name device applicable
    let resolved := (settingsResolve device.scope overrides shipped .narrowestWins).1
    (bounds.nearest resolved).1

/-- A revision as the wire carries it, 0 when it does not fit. -/
def wireVersion (version : Int) : UInt32 :=
  if version < minRuleVersion || maxRuleVersion < version then 0 else UInt32.ofNat version.toNat

omit [GoFloat F] in
def wireTerm (term : Term F) : Option (RuleTerm F) := do
  let comparator ← term.comparator
  let predicate ← term.predicate
  some ⟨(canonicalRuleMetric term.metric).getD term.metric, comparator, term.threshold, term.clear,
    predicate, term.windowSecs⟩

/-- The rule as it applies to one machine; none where a name has no value on the wire. -/
def resolve (d : Definition F) (device : Device) (bindings : List (Binding F)) :
    Option (ThresholdRule F) := do
  let value := resolveParam d device (applicableBindings d device bindings)
  let severity ← d.wireSeverity
  let comparator ← d.comparator
  let predicate ← d.predicate
  let all ← d.all.mapM wireTerm
  some {
    id := d.id
    version := wireVersion d.version
    severity
    metric := (canonicalRuleMetric d.metric).getD d.metric
    comparator
    threshold := value "threshold"
    clear := value "clear"
    sustainSecs := GoFloat.toU32 (value "sustain_secs")
    predicate
    windowSecs := GoFloat.toU32 (value "window_secs")
    all }

def resolveAll (definitions : List (Definition F)) (machine : Device) (bindings : List (Binding F))
    (reaches : Definition F → Bool) : List (ThresholdRule F) :=
  definitions.filterMap fun d =>
    if d.watchesEvents then none
    else if reaches d then resolve d machine bindings
    else none

/-! ## The values a parameter takes -/

omit [GoFloat F] in
theorem mem_paramOverridesFrom {seen : List Level} {o : Override F}
    (here : o ∈ paramOverridesFrom name device seen applicable) :
    ∃ b ∈ applicable, b.params[name]? = some o.value ∧ o.level = b.level := by
  induction applicable generalizing seen with
  | nil => cases here
  | cons b applicable ih =>
    unfold paramOverridesFrom at here
    split at here
    next value key set unseen present =>
      rcases mem_cons.mp here with rfl | later
      · exact ⟨b, mem_cons_self, set, rfl⟩
      · obtain ⟨b', inside, set'⟩ := ih later
        exact ⟨b', mem_cons_of_mem _ inside, set'⟩
    · obtain ⟨b', inside, set'⟩ := ih here
      exact ⟨b', mem_cons_of_mem _ inside, set'⟩

variable {bindings : List (Binding F)} {params : ExtTreeMap String F} {cat : Catalogue F}
  {bounds : Bounds F}

omit [GoFloat F] in
theorem mem_applicableBindings :
    b ∈ applicableBindings d device bindings ↔ b ∈ bindings ∧ applies d device b := by
  rw [applicableBindings, mem_insertionSort, mem_filter]

/-- A value within the bounds stays. -/
theorem Bounds.nearest_of_contains {b : Bounds F} (inside : b.contains v) :
    (b.nearest v).1 = v := by
  rw [contains, Bool.and_eq_true] at inside
  simp only [nearest, Ieee.not_lt_of_le inside.1, Ieee.not_lt_of_le inside.2, Bool.false_eq_true,
    if_false]

/-- Bindings that each passed the check for the rule they name. -/
def Accepted (cat : Catalogue F) (bindings : List (Binding F)) : Prop :=
  ∀ b ∈ bindings, validateBindingAgainst cat b = .ok ()

/-- With accepted bindings a parameter is shipped, or within the bounds it may be tuned in. -/
theorem resolveParam_contains (valid : d.Valid) (known : cat.lookup d.id = some d)
    (accepted : Accepted cat bindings) (tunable : d.tunable[name]? = some bounds) :
    bounds.contains (resolveParam d device (applicableBindings d device bindings) name) := by
  obtain ⟨shipped, named, inside⟩ := valid.tunable name bounds tunable
  have resolved : bounds.contains (settingsResolve device.scope
      (paramOverrides name device (applicableBindings d device bindings)) shipped
      .narrowestWins).1 := by
    rcases settingsResolve_mem device.scope (paramOverrides name device
      (applicableBindings d device bindings)) shipped .narrowestWins with is | ⟨o, here, is⟩
    · rw [is]
      exact inside
    · obtain ⟨b, applicable, set, -⟩ := mem_paramOverridesFrom here
      obtain ⟨listed, applied⟩ := mem_applicableBindings.mp applicable
      simp only [applies, Bool.and_eq_true, beq_iff_eq] at applied
      have passed := accepted b listed
      rw [validateBindingAgainst, applied.1.1.1.1, known] at passed
      obtain ⟨bounds', offered, contains⟩ := validateBinding_contains passed set
      cases tunable.symm.trans offered
      rw [is]
      exact contains
  simp only [resolveParam, tunable, named, Option.getD_some]
  rw [Bounds.nearest_of_contains resolved]
  exact resolved

theorem resolveParam_untunable {shipped : F} (untunable : d.tunable[name]? = none)
    (named : d.shippedParam name = some shipped) :
    resolveParam d device applicable name = shipped := by
  simp only [resolveParam, untunable, named, Option.getD_some]

/-! ## A machine tuned on its own -/

def oneDevice : Device := ⟨⟨1, 0, 1, 0⟩, ∅⟩

def deviceBinding (ruleId : String) (params : ExtTreeMap String F) : Binding F :=
  ⟨1, 1, ruleId, .device, 1, ∅, 0, params⟩

omit [GoFloat F] in
theorem applies_deviceBinding : applies d oneDevice (deviceBinding d.id params) := by
  simp [applies, oneDevice, deviceBinding, storableLevel, Scope.key, Selector.matches]

/-- A parameter set on the machine takes that value, if the bounds contain it. -/
theorem resolveParam_deviceBinding (tunable : d.tunable[name]? = some bounds)
    (set : params[name]? = some v) (inside : bounds.contains v) :
    resolveParam d oneDevice
      (applicableBindings d oneDevice [deviceBinding d.id params]) name = v := by
  have only : applicableBindings d oneDevice [deviceBinding d.id params]
      = [deviceBinding d.id params] := by
    rw [applicableBindings, filter_cons, if_pos (applies_deviceBinding)]
    rfl
  have overrides : paramOverrides name oneDevice [deviceBinding d.id params]
      = [⟨.device, 1, v⟩] := by
    simp [paramOverrides, paramOverridesFrom, deviceBinding, set, oneDevice, Scope.key]
  have found : (settingsResolve oneDevice.scope [(⟨.device, 1, v⟩ : Override F)]
      ((d.shippedParam name).getD Float64.zero) .narrowestWins).1 = v := rfl
  simp only [resolveParam, tunable, only, overrides, found]
  exact Bounds.nearest_of_contains inside

/-- Values within their bounds are accepted. -/
theorem accepted_deviceBinding (known : cat.lookup d.id = some d) (few : params.size ≤ 8)
    (inside : ∀ (name : String) (v : F), params[name]? = some v →
      ∃ bounds, d.tunable[name]? = some bounds ∧ bounds.contains v) :
    Accepted cat [deviceBinding d.id params] := by
  intro b here
  cases mem_singleton.mp here
  have selector : Selector.validate ∅ = .ok () := by decide +kernel
  have passes : checkAll (validateParam d) params.toList = .ok () := by
    rw [checkAll_eq_ok]
    rintro ⟨name, v⟩ listed
    obtain ⟨bounds, offered, contains⟩ := inside name v
      (ExtTreeMap.mem_toList_iff_getElem?_eq_some.mp listed)
    simp only [validateParam, offered, require_eq_ok]
    exact contains
  have checked : validateBinding d (deviceBinding d.id params) = .ok () := by
    simp only [validateBinding, deviceBinding, bind_eq_ok, require_eq_ok, selector, passes,
      beq_self_eq_true, storableLevel, true_and, and_true]
    exact decide_eq_true few
  have found : cat.lookup (deviceBinding d.id params).ruleId = some d := known
  simp only [validateBindingAgainst, found, checked]

/-- The rules of a machine, one of each reading definition the rollout reaches. -/
theorem mem_resolveAll {definitions : List (Definition F)} {machine : Device}
    {reaches : Definition F → Bool} {rule : ThresholdRule F} :
    rule ∈ resolveAll definitions machine bindings reaches ↔
      ∃ d ∈ definitions, d.watchesEvents = false ∧ reaches d ∧
        resolve d machine bindings = some rule := by
  rw [resolveAll, mem_filterMap]
  refine exists_congr fun d => and_congr_right fun _ => ?_
  cases d.watchesEvents <;> cases reaches d <;> simp

end OpenGate.Rules
