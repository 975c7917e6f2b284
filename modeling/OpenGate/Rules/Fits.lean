import OpenGate.Lib.OrderedMap
import OpenGate.Rules.Resolve

/-!
# Rules the agent can evaluate

The server checks a catalogue and the bindings on it, the agent checks each rule again
when it builds its conditions.  The server does not look at windows or at the number of
extra conditions, and it checks each tuned number on its own, so what is accepted can be
a rule the agent has no conditions for, or one whose clear level is on the breaching side.
The definitions for which neither happens are characterised here.
-/

namespace OpenGate.Rules

open OpenGate.Alerts OpenGate.Lib OpenGate.Tsdb Std Definition Float64 GoFloat Ieee Option Bool
  Function

variable {F : Type} {predicate : RulePredicate} {rule : ThresholdRule F}

/-! ## One vocabulary -/

/-- The agent knows a canonical name of the server under that name. -/
theorem canonical_known {name canonical : String}
    (known : canonicalRuleMetric name = some canonical) :
    Alerts.canonicalRuleMetric canonical = some canonical := by
  have each : ∀ metric ∈ ruleMetrics, Alerts.canonicalRuleMetric metric = some metric := by
    decide +kernel
  have aliases : ∀ metric, ruleMetricAliases name = some metric → metric ∈ ruleMetrics := by
    intro metric is
    unfold ruleMetricAliases at is
    split at is
    · cases is
      decide +kernel
    · cases is
      decide +kernel
    · cases is
  unfold canonicalRuleMetric at known
  split at known
  next listed =>
    cases known
    exact each _ listed
  · exact each _ (aliases _ known)

/-! ## What the agent builds -/

theorem Condition.isSome_new_iff {metric : String} {comparator : AlertComparator}
    {threshold clear : F} {windowSecs : UInt32} :
    (Condition.new metric comparator threshold clear predicate windowSecs).isSome = true ↔
      (Alerts.canonicalRuleMetric metric).isSome = true ∧
        windowIsExpressible predicate windowSecs = true := by
  simp only [isSome_iff_exists, Condition.new_eq_some_iff]
  constructor
  · rintro ⟨c, canonical, known, expressible, -⟩
    exact ⟨⟨canonical, known⟩, expressible⟩
  · rintro ⟨⟨canonical, known⟩, expressible⟩
    exact ⟨_, canonical, known, expressible, rfl⟩

theorem isSome_buildConditions_iff :
    (buildConditions rule).isSome = true ↔ rule.all.length ≤ maxRuleTerms ∧
      (Condition.primary rule).isSome = true ∧
      ∀ term ∈ rule.all, (Condition.extra term).isSome = true := by
  rw [← isSome_mapM_iff]
  simp only [isSome_iff_exists, buildConditions_eq_some_iff, mapM_eq_some_iff]
  constructor
  · rintro ⟨conditions, short, own, extras, primary, terms, -⟩
    exact ⟨short, ⟨own, primary⟩, ⟨extras, terms⟩⟩
  · rintro ⟨short, ⟨own, primary⟩, ⟨extras, terms⟩⟩
    exact ⟨_, short, own, extras, primary, terms, rfl⟩

variable [GoFloat F]

variable {d : Definition F} {b : Bounds F}

section

variable (valid : d.Valid) (reading : d.watchesEvents = false) (device : Device)
  (bindings : List (Binding F))
include valid reading

/-- The wire rule of an accepted definition that watches a reading. -/
theorem resolve_reading :
    ∃ comparator predicate all rule, d.comparator = some comparator ∧ d.predicate = some predicate ∧
      List.Forall₂ (fun term wire => wireTerm term = some wire) d.all all ∧
      resolve d device bindings = some rule ∧
      rule.metric = (canonicalRuleMetric d.metric).getD d.metric ∧ rule.comparator = comparator ∧
      rule.threshold = resolveParam d device (applicableBindings d device bindings) "threshold" ∧
      rule.clear = resolveParam d device (applicableBindings d device bindings) "clear" ∧
      rule.predicate = predicate ∧ rule.windowSecs = toU32
        (resolveParam d device (applicableBindings d device bindings) "window_secs") ∧
      rule.all = all := by
  obtain ⟨-, compares, derives, terms⟩ := valid.reading reading
  obtain ⟨severity, severe⟩ := isSome_iff_exists.mp valid.severity
  obtain ⟨comparator, compares⟩ := isSome_iff_exists.mp compares
  obtain ⟨predicate, derives⟩ := isSome_iff_exists.mp derives
  have wired : (d.all.mapM wireTerm).isSome = true := by
    rw [isSome_mapM_iff]
    intro term here
    obtain ⟨-, compares, derives⟩ := terms term here
    obtain ⟨comparator, compares⟩ := isSome_iff_exists.mp compares
    obtain ⟨predicate, derives⟩ := isSome_iff_exists.mp derives
    simp [wireTerm, compares, derives]
  obtain ⟨all, wired⟩ := isSome_iff_exists.mp wired
  simp only [resolve, severe, compares, derives, wired, bind_eq_bind, bind_some]
  exact ⟨comparator, predicate, all, _, rfl, rfl, mapM_eq_some_iff.mp wired, rfl, rfl, rfl, rfl,
    rfl, rfl, rfl, rfl⟩

/-- When the agent has conditions for the rule of a definition. -/
theorem resolve_builds_iff :
    ∃ predicate rule, d.predicate = some predicate ∧ resolve d device bindings = some rule ∧
      ((buildConditions rule).isSome = true ↔ d.all.length ≤ maxRuleTerms ∧
        windowIsExpressible predicate (toU32
          (resolveParam d device (applicableBindings d device bindings) "window_secs")) = true ∧
        ∀ term ∈ d.all, term.predicate.any (windowIsExpressible · term.windowSecs) = true) := by
  obtain ⟨comparator, predicate, all, rule, -, derives, wired, resolved, metric, -, -, -, kind,
    window, rfl⟩ := resolve_reading valid reading device bindings
  refine ⟨predicate, rule, derives, resolved, ?_⟩
  obtain ⟨known, -, -, terms⟩ := valid.reading reading
  have own : (Condition.primary rule).isSome = true ↔ windowIsExpressible predicate (toU32
      (resolveParam d device (applicableBindings d device bindings) "window_secs")) = true := by
    obtain ⟨canonical, is⟩ := isSome_iff_exists.mp known
    rw [Condition.primary, Condition.isSome_new_iff, metric, is, getD_some, kind, window,
      canonical_known is]
    exact and_iff_right rfl
  have extras : (∀ wire ∈ rule.all, (Condition.extra wire).isSome = true) ↔
      ∀ term ∈ d.all, term.predicate.any (windowIsExpressible · term.windowSecs) = true := by
    refine forall_iff_of_forall₂ wired fun term here wire is => ?_
    simp only [wireTerm, bind_eq_bind, bind_eq_some_iff, Option.some.injEq] at is
    obtain ⟨comparator, -, predicate, derives, rfl⟩ := is
    obtain ⟨canonical, known⟩ := isSome_iff_exists.mp (terms term here).1
    rw [Condition.extra, Condition.isSome_new_iff, known, getD_some, canonical_known known,
      derives, any_some]
    exact and_iff_right rfl
  rw [isSome_buildConditions_iff, own, extras, ← wired.length_eq]

end

/-! ## Whole numbers among the values -/

theorem placed_ofU32 (n : UInt32) : (place (ofU32 n : F)).isSome = true := by
  by_cases zero : n = 0
  · have less : Ieee.lt (ofU32 0 : F) (ofU32 1) = true :=
      (lt_ofU32 0 1).mpr (by decide)
    rw [zero]
    exact (placed_of_le (le_of_lt less)).1
  · have less : Ieee.lt (ofU32 0 : F) (ofU32 n) = true := by
      refine (lt_ofU32 0 n).mpr (UInt32.lt_iff_toNat_lt.mpr ?_)
      exact Nat.pos_of_ne_zero fun none => zero (UInt32.toNat_inj.mp none)
    exact (placed_of_le (le_of_lt less)).2

theorem le_ofU32 {m n : UInt32} (most : m ≤ n) :
    Ieee.le (ofU32 m : F) (ofU32 n) = true := by
  rcases Ieee.le_or_lt (placed_ofU32 (F := F) m) (placed_ofU32 n) with le | less
  · exact le
  · exact absurd most (UInt32.not_le.mpr ((lt_ofU32 n m).mp less))

/-- A value between two whole numbers converts to one of them or between them. -/
theorem toU32_mem_range {v : F} (low : Nat) (count : Nat) (fits : low + count < 2 ^ 32)
    (above : Ieee.le (ofU32 (UInt32.ofNat low)) v = true)
    (below : Ieee.lt v (ofU32 (UInt32.ofNat (low + count))) = true) :
    low ≤ (toU32 v).toNat ∧ (toU32 v).toNat < low + count := by
  induction count with
  | zero =>
    have less := Ieee.lt_of_le_of_lt above below
    rw [Nat.add_zero, Ieee.lt_irrefl] at less
    cases less
  | succ count ih =>
    rcases Ieee.le_or_lt (placed_ofU32 (F := F) (UInt32.ofNat (low + count)))
      (placed_of_le above).2 with last | before
    · have next : UInt32.ofNat (low + count) + 1 = UInt32.ofNat (low + (count + 1)) := by
        rw [← Nat.add_assoc, UInt32.ofNat_add (low + count) 1]
        rfl
      have value : (UInt32.ofNat (low + count)).toNat = low + count :=
        UInt32.toNat_ofNat_of_lt' (by change _ < 2 ^ 32; omega)
      rw [← next] at below
      have is := toU32_between (UInt32.ofNat (low + count)) v (by rw [value]; omega) last below
      rw [is, value]
      omega
    · have inside := ih (by omega) before
      omega

/-! ## Windows -/

/-- Every window the definition can be given is one the predicate can have.  Below zero the
conversion of a value is open. -/
def Definition.WindowFits (d : Definition F) (predicate : RulePredicate) : Prop :=
  match d.tunable["window_secs"]? with
  | none => windowIsExpressible predicate d.windowSecs = true
  | some bounds =>
    if predicate = .instant then
      Ieee.lt bounds.max (Float64.ofU32 1) = true ∧
        ∀ v, bounds.contains v = true → Ieee.lt v (Float64.ofU32 0) = true → GoFloat.toU32 v = 0
    else
      Ieee.le (Float64.ofU32 1) bounds.min = true ∧
        Ieee.lt bounds.max (Float64.ofU32 901) = true

/-- The conditions of the definition are ones the agent can evaluate. -/
structure Definition.Expressible (d : Definition F) : Prop where
  few : d.all.length ≤ maxRuleTerms
  window : ∀ predicate, d.predicate = some predicate → d.WindowFits predicate
  terms : ∀ term ∈ d.all, term.predicate.any (windowIsExpressible · term.windowSecs) = true

theorem Bounds.contains_iff {v : F} :
    b.contains v = true ↔ Ieee.le b.min v = true ∧ Ieee.le v b.max = true := by
  rw [contains, and_eq_true]

/-- Bounds around a whole number contain themselves. -/
theorem Bounds.contains_min {v : F} (inside : b.contains v = true) :
    b.contains b.min = true ∧ b.contains b.max = true := by
  obtain ⟨low, high⟩ := contains_iff.mp inside
  have most := le_trans low high
  exact ⟨contains_iff.mpr ⟨le_self (placed_of_le low).1, most⟩,
    contains_iff.mpr ⟨most, le_self (placed_of_le high).2⟩⟩

/-- Bounds of a window: every value in them fits exactly where the bounds do. -/
theorem windows_fit_iff {bounds : Bounds F} {shipped : UInt32}
    (inside : bounds.contains (ofU32 shipped) = true) :
    (∀ v, bounds.contains v = true → windowIsExpressible predicate (toU32 v) = true) ↔
      if predicate = .instant then
        Ieee.lt bounds.max (ofU32 1) = true ∧
          ∀ v, bounds.contains v = true → Ieee.lt v (ofU32 0) = true → toU32 v = 0
      else
        Ieee.le (ofU32 1) bounds.min = true ∧
          Ieee.lt bounds.max (ofU32 901) = true := by
  obtain ⟨low, high⟩ := Bounds.contains_iff.mp inside
  have placedMin := (placed_of_le low).1
  have placedMax := (placed_of_le high).2
  have zeroToOne : ∀ v : F, Ieee.le (ofU32 0) v = true →
      Ieee.lt v (ofU32 1) = true → toU32 v = 0 := fun v above below =>
    toU32_between 0 v (by decide) above below
  split
  next instant =>
    subst instant
    simp only [windowIsExpressible_instant]
    constructor
    · intro all
      refine ⟨?_, fun v within _ => all v within⟩
      rcases Ieee.le_or_lt (placed_ofU32 (F := F) 1) placedMax with one | less
      · have zero : shipped = 0 := by
          rw [← all _ inside, toU32_ofU32]
        have at1 : bounds.contains (ofU32 1 : F) = true :=
          Bounds.contains_iff.mpr ⟨le_trans low (le_ofU32 (by rw [zero]; decide)), one⟩
        have is := all _ at1
        rw [toU32_ofU32] at is
        cases is
      · exact less
    · rintro ⟨below, negative⟩ v within
      obtain ⟨above, most⟩ := Bounds.contains_iff.mp within
      rcases Ieee.le_or_lt (placed_ofU32 (F := F) 0) (placed_of_le most).1 with zero | less
      · exact zeroToOne v zero (Ieee.lt_of_le_of_lt most below)
      · exact negative v within less
  next windowed =>
    simp only [windowIsExpressible_windowed windowed]
    constructor
    · intro all
      have own := all _ inside
      rw [toU32_ofU32] at own
      constructor
      · rcases Ieee.le_or_lt (placed_ofU32 (F := F) 1) placedMin with one | less
        · exact one
        -- a lower end below one puts zero, or the end itself, into the bounds
        · have none : ∃ v, bounds.contains v = true ∧ toU32 v = 0 := by
            rcases Ieee.le_or_lt (placed_ofU32 (F := F) 0) placedMin with zero | negative
            · exact ⟨_, (Bounds.contains_min inside).1, zeroToOne _ zero less⟩
            · refine ⟨ofU32 0, Bounds.contains_iff.mpr ⟨le_of_lt negative, ?_⟩, toU32_ofU32 0⟩
              exact le_trans (le_ofU32 (UInt32.le_iff_toNat_le.mpr (Nat.zero_le _))) high
          obtain ⟨v, within, zero⟩ := none
          have positive := (all v within).1
          rw [zero] at positive
          cases positive
      · rcases Ieee.le_or_lt (placed_ofU32 (F := F) 901) placedMax with most | less
        · have small : shipped ≤ 901 :=
            UInt32.le_iff_toNat_le.mpr (own.2.trans (by decide))
          have long := (all _ (Bounds.contains_iff.mpr ⟨le_trans low (le_ofU32 small), most⟩)).2
          rw [toU32_ofU32] at long
          exact absurd long (by decide)
        · exact less
    · rintro ⟨one, most⟩ v within
      obtain ⟨above, below⟩ := Bounds.contains_iff.mp within
      have range := toU32_mem_range 1 900 (by decide) (le_trans one above)
        (Ieee.lt_of_le_of_lt below most)
      omega

/-! ## Accepted rules -/

theorem accepted_singleton {cat : Catalogue F} {b : Binding F}
    (passed : (validateBindingAgainst cat b).isOk = true) : Accepted cat [b] := by
  intro b' here
  cases List.mem_singleton.mp here
  cases is : validateBindingAgainst cat b with
  | ok u => rfl
  | error e =>
    rw [is] at passed
    cases passed

/-- A definition has at most four numbers to tune. -/
theorem Definition.Valid.size_tunable (valid : d.Valid) : d.tunable.size ≤ 4 := by
  have named :
      d.tunable.toList.map Prod.fst ⊆ ["threshold", "clear", "sustain_secs", "window_secs"] := by
    intro name here
    obtain ⟨⟨name, b⟩, listed, rfl⟩ := List.mem_map.mp here
    obtain ⟨shipped, known, -⟩ := valid.tunable name b
      (ExtTreeMap.mem_toList_iff_getElem?_eq_some.mp listed)
    unfold shippedParam at known
    split at known
    · simp
    · simp
    · simp
    · simp
    · cases known
  have few := (List.subperm_of_subset (nodup_keys d.tunable) named).length_le
  rw [List.length_map, ExtTreeMap.length_toList] at few
  exact few

/-- The values a parameter can be given: those within its bounds, or the shipped one. -/
def Definition.Takes (d : Definition F) (name : String) (v : F) : Prop :=
  match d.tunable[name]? with
  | some bounds => bounds.contains v = true
  | none => d.shippedParam name = some v

section Takes

variable {cat : Catalogue F} {name : String} {v shipped : F} {choose : String → F}

/-- Every parameter of the definition can be given its value. -/
def Definition.TakesAll (d : Definition F) (choose : String → F) : Prop :=
  ∀ name shipped, d.shippedParam name = some shipped → d.Takes name (choose name)

theorem Definition.Valid.takes_shipped (valid : d.Valid) :
    d.TakesAll fun name => (d.shippedParam name).getD zero := by
  intro name shipped named
  simp only [named, getD_some]
  unfold Definition.Takes
  split
  next bounds tunable =>
    obtain ⟨_, is, inside⟩ := valid.tunable name bounds tunable
    cases named.symm.trans is
    exact inside
  · exact named

theorem Definition.TakesAll.update (takes : d.TakesAll choose) (this : d.Takes name v) :
    d.TakesAll (Function.update choose name v) := by
  intro other shipped named
  rcases eq_or_ne other name with rfl | different
  · rw [update_self]
    exact this
  · rw [update_of_ne different]
    exact takes other shipped named

/-- With accepted bindings a parameter has a value it can be given. -/
theorem resolveParam_takes (valid : d.Valid) (known : cat.lookup d.id = some d)
    {bindings : List (Binding F)} (accepted : Accepted cat bindings) (device : Device)
    (named : d.shippedParam name = some shipped) :
    d.Takes name (resolveParam d device (applicableBindings d device bindings) name) := by
  unfold Definition.Takes
  split
  next bounds tunable => exact resolveParam_contains valid known accepted tunable
  next untunable =>
    rw [resolveParam_untunable untunable named]
    exact named

/-- The values that can be given are taken together on some machine. -/
theorem exists_tuning (valid : d.Valid) (known : cat.lookup d.id = some d)
    (takes : d.TakesAll choose) :
    ∃ bindings, Accepted cat bindings ∧ ∀ name shipped, d.shippedParam name = some shipped →
      resolveParam d oneDevice (applicableBindings d oneDevice bindings) name = choose name := by
  have inside : ∀ (name : String) (bounds : Bounds F), d.tunable[name]? = some bounds →
      bounds.contains (choose name) = true := by
    intro name bounds tunable
    obtain ⟨shipped, named, -⟩ := valid.tunable name bounds tunable
    have this := takes name shipped named
    rw [Definition.Takes, tunable] at this
    exact this
  refine ⟨[deviceBinding d.id (d.tunable.map fun name _ => choose name)], ?_,
    fun name shipped named => ?_⟩
  · refine accepted_deviceBinding known ?_ fun name v set => ?_
    · rw [ExtTreeMap.size_map]
      exact valid.size_tunable.trans (by decide)
    · rw [ExtTreeMap.getElem?_map] at set
      obtain ⟨bounds, tunable, rfl⟩ := map_eq_some_iff.mp set
      exact ⟨bounds, tunable, inside name bounds tunable⟩
  · cases tunable : d.tunable[name]? with
    | some bounds =>
      refine resolveParam_deviceBinding tunable ?_ (inside name bounds tunable)
      rw [ExtTreeMap.getElem?_map, tunable, map_some]
    | none =>
      have own := takes name shipped named
      rw [Definition.Takes, tunable] at own
      exact resolveParam_untunable tunable own ..

/-- Every window that can be given is one the predicate can have. -/
theorem windowFits_iff (valid : d.Valid) :
    (∀ v, d.Takes "window_secs" v → windowIsExpressible predicate (toU32 v) = true) ↔
      d.WindowFits predicate := by
  unfold Definition.Takes Definition.WindowFits
  cases tunable : d.tunable["window_secs"]? with
  | none =>
    simp only [shippedParam, Option.some.injEq, forall_eq', toU32_ofU32]
  | some bounds =>
    obtain ⟨shipped, named, inside⟩ := valid.tunable _ bounds tunable
    cases named
    exact windows_fit_iff inside

end Takes

/-- The agent builds the conditions of every rule that accepted bindings on an accepted
catalogue give, on every machine, exactly where the catalogue's own windows and bounds are
ones the agent can evaluate. -/
theorem accepted_rules_build_iff {parse : List UInt8 → Except String (List (Definition F))}
    {digest : Definition F → Except String String} {data : List UInt8} {lock : Option Lock}
    {cat : Catalogue F} (loaded : loadCatalogue parse digest data lock = .ok cat) :
    (∀ (bindings : List (Binding F)) (device : Device) (reaches : Definition F → Bool),
      Accepted cat bindings → ∀ rule ∈ resolveAll cat.all device bindings reaches,
        (buildConditions rule).isSome = true) ↔
      ∀ d ∈ cat.all, d.watchesEvents = false → d.Expressible := by
  have sound := loadCatalogue_sound loaded
  constructor
  · intro builds d listed reading
    obtain ⟨valid, known⟩ := sound d listed
    have each : ∀ bindings, Accepted cat bindings → ∃ predicate, d.predicate = some predicate ∧
        d.all.length ≤ maxRuleTerms ∧ windowIsExpressible predicate (toU32 (resolveParam d
          oneDevice (applicableBindings d oneDevice bindings) "window_secs")) = true ∧
        ∀ term ∈ d.all, term.predicate.any (windowIsExpressible · term.windowSecs) = true := by
      intro bindings accepted
      obtain ⟨predicate, rule, derives, resolved, iff⟩ :=
        resolve_builds_iff valid reading oneDevice bindings
      refine ⟨predicate, derives,
        iff.mp (builds bindings oneDevice (fun _ => true) accepted rule ?_)⟩
      exact mem_resolveAll.mpr ⟨d, listed, reading, rfl, resolved⟩
    obtain ⟨predicate, derives, few, -, terms⟩ := each [] (List.forall_mem_nil _)
    refine ⟨few, fun predicate' is => (windowFits_iff valid).mp fun v takes => ?_, terms⟩
    cases derives.symm.trans is
    obtain ⟨bindings, accepted, is⟩ := exists_tuning valid known (valid.takes_shipped.update takes)
    obtain ⟨predicate', derives', -, own, -⟩ := each bindings accepted
    cases derives.symm.trans derives'
    rw [is _ _ rfl, update_self] at own
    exact own
  · intro expressible bindings device reaches accepted rule here
    obtain ⟨d, listed, reading, -, resolved⟩ := mem_resolveAll.mp here
    obtain ⟨valid, known⟩ := sound d listed
    obtain ⟨few, fits, terms⟩ := expressible d listed reading
    obtain ⟨predicate, rule', derives, resolved', iff⟩ :=
      resolve_builds_iff valid reading device bindings
    cases resolved.symm.trans resolved'
    refine iff.mpr ⟨few, (windowFits_iff valid).mpr (fits predicate derives) _ ?_, terms⟩
    exact resolveParam_takes valid known accepted device rfl

def boundsOf (bounds : List (String × Bounds Int64)) : ExtTreeMap String (Bounds Int64) :=
  .ofList bounds

def paramsOf (params : List (String × Int64)) : ExtTreeMap String Int64 := .ofList params

/-- A disk that is nearly full, as the core pack has it. -/
def diskCritical : Definition Int64 where
  id := "disk-critical"
  version := 1
  kind := ""
  severity := "critical"
  summary := "A disk is nearly full and will stop accepting writes."
  metric := "disk.used_percent"
  comparatorName := "gte"
  threshold := 90
  clear := 85
  sustainSecs := 300
  predicateName := "Instant"
  windowSecs := 0
  all := []
  groupBy := ["device", "mount"]
  groupWindowSecs := 900
  evidence := ["vitals", "top_processes", "inventory"]
  coverageRequires := []
  tunable := boundsOf [("threshold", ⟨50, 99⟩), ("clear", ⟨40, 98⟩), ("sustain_secs", ⟨60, 3600⟩)]

/-- Work that waits for storage, as the core pack has it. -/
def ioStalled : Definition Int64 where
  id := "io-stalled"
  version := 1
  kind := ""
  severity := "warning"
  summary := "Work on this machine is spending its time waiting for storage."
  metric := "stall.io.some"
  comparatorName := "gte"
  threshold := 40
  clear := 20
  sustainSecs := 300
  predicateName := "WindowMean"
  windowSecs := 300
  all := []
  groupBy := ["device"]
  groupWindowSecs := 1800
  evidence := ["vitals", "top_processes", "correlation"]
  coverageRequires := ["stall.io.some"]
  tunable := boundsOf [("threshold", ⟨10, 100⟩), ("clear", ⟨0, 99⟩), ("sustain_secs", ⟨60, 3600⟩),
    ("window_secs", ⟨60, 1800⟩)]

def loadPack (defs : List (Definition Int64)) : Except String (Catalogue Int64) :=
  loadCatalogue (fun _ => .ok defs) (fun _ => .ok "") [] none

/-- What is checked of a pack that loads. -/
theorem exists_loadPack {defs : List (Definition Int64)} {check : Catalogue Int64 → Bool}
    (checked : (match loadPack defs with
      | .ok cat => check cat
      | .error _ => false) = true) : ∃ cat, loadPack defs = .ok cat ∧ check cat = true := by
  split at checked
  next cat loaded => exact ⟨cat, loaded, checked⟩
  · cases checked

/-- The disk rule has no window to tune. -/
theorem accepted_rules_build_disk :
    ∃ cat, loadPack [diskCritical] = .ok cat ∧
      ∀ (bindings : List (Binding Int64)) (device : Device) (reaches : Definition Int64 → Bool),
        Accepted cat bindings → ∀ rule ∈ resolveAll cat.all device bindings reaches,
          (buildConditions rule).isSome = true := by
  obtain ⟨cat, loaded, each⟩ := @exists_loadPack [diskCritical] (fun cat => cat.all.all fun d =>
    d.all.isEmpty && d.tunable["window_secs"]?.isNone && d.predicate == some .instant &&
      d.windowSecs == 0) (by decide +kernel)
  refine ⟨cat, loaded, (accepted_rules_build_iff loaded).mpr fun d listed _ => ?_⟩
  have is := List.all_eq_true.mp each d listed
  simp only [and_eq_true, beq_iff_eq, List.isEmpty_iff, isNone_iff_eq_none] at is
  obtain ⟨⟨⟨noTerms, untunable⟩, instant⟩, none⟩ := is
  refine ⟨?_, fun predicate derives => ?_, ?_⟩
  · rw [noTerms]
    decide
  · cases derives.symm.trans instant
    rw [Definition.WindowFits, untunable, none]
    rfl
  · rw [noTerms]
    exact fun term here => nomatch here

/-- A customer asks for a half hour of storage stalls, which the bounds allow; the agent
keeps a quarter of an hour and has no conditions for the rule. -/
theorem accepted_window_unsupported :
    ∃ cat, loadPack [ioStalled] = .ok cat ∧ ∃ binding : Binding Int64,
      Accepted cat [binding] ∧ ∃ rule ∈ resolveAll cat.all oneDevice [binding] (fun _ => true),
        rule.windowSecs = 1800 ∧ buildConditions rule = none := by
  obtain ⟨cat, loaded, checked⟩ := @exists_loadPack [ioStalled] (fun cat =>
    (validateBindingAgainst cat
      (deviceBinding "io-stalled" (paramsOf [("window_secs", 1800)]))).isOk &&
    (resolveAll cat.all oneDevice [deviceBinding "io-stalled" (paramsOf [("window_secs", 1800)])]
      (fun _ => true)).any fun rule => rule.windowSecs == 1800 && (buildConditions rule).isNone)
    (by decide +kernel)
  rw [and_eq_true, List.any_eq_true] at checked
  obtain ⟨passed, rule, here, shape⟩ := checked
  rw [and_eq_true, beq_iff_eq, isNone_iff_eq_none] at shape
  exact ⟨cat, loaded, _, accepted_singleton passed, rule, here, shape⟩

/-! ## Hysteresis -/

/-- The rule breaches above its threshold. -/
def isAbove : AlertComparator → Bool
  | .gt | .gte => true
  | .lt | .lte => false

/-- The clear level is not on the breaching side of the threshold. -/
def Oriented (rule : ThresholdRule F) : Prop :=
  if isAbove rule.comparator then Ieee.le rule.clear rule.threshold = true
  else Ieee.le rule.threshold rule.clear = true

def Definition.lowest (d : Definition F) (name : String) : F :=
  match d.tunable[name]? with
  | some bounds => bounds.min
  | none => (d.shippedParam name).getD Float64.zero

def Definition.highest (d : Definition F) (name : String) : F :=
  match d.tunable[name]? with
  | some bounds => bounds.max
  | none => (d.shippedParam name).getD Float64.zero

/-- The ranges of clear and threshold do not overlap. -/
def Definition.KeepsSides (d : Definition F) : Prop :=
  ∀ comparator, d.comparator = some comparator →
    if isAbove comparator then Ieee.le (d.highest "clear") (d.lowest "threshold") = true
    else Ieee.le (d.highest "threshold") (d.lowest "clear") = true

/-- Of a rule the right way round no value breaches and is cleared. -/
theorem Oriented.exclusive (oriented : Oriented rule) (value : F) :
    ¬ (compare rule.comparator value rule.threshold = true ∧
      compare rule.comparator value rule.clear = false) := by
  rintro ⟨breaching, cleared⟩
  unfold Oriented at oriented
  rw [eq_false_iff] at cleared
  cases comparator : rule.comparator with
  | gt =>
    simp only [comparator, isAbove, if_true] at oriented breaching cleared
    exact cleared (Ieee.lt_of_le_of_lt oriented breaching)
  | gte =>
    simp only [comparator, isAbove, if_true] at oriented breaching cleared
    exact cleared (le_trans oriented breaching)
  | lt =>
    simp only [comparator, isAbove, false_eq_true, if_false] at oriented breaching cleared
    exact cleared (lt_of_lt_of_le breaching oriented)
  | lte =>
    simp only [comparator, isAbove, false_eq_true, if_false] at oriented breaching cleared
    exact cleared (le_trans breaching oriented)

/-- What a parameter can be given is from lowest to highest. -/
theorem Definition.Takes.between {name : String} {v : F} (takes : d.Takes name v) :
    (Ieee.le (d.lowest name) v = true ∧ Ieee.le v (d.highest name) = true) ∨
      d.lowest name = v ∧ d.highest name = v := by
  unfold Definition.Takes at takes
  unfold lowest highest
  cases tunable : d.tunable[name]? with
  | some bounds =>
    rw [tunable] at takes
    exact .inl (Bounds.contains_iff.mp takes)
  | none =>
    rw [tunable] at takes
    rw [takes]
    exact .inr ⟨rfl, rfl⟩

theorem Definition.Valid.takes_ends (valid : d.Valid) (name : String) {shipped : F}
    (named : d.shippedParam name = some shipped) :
    d.Takes name (d.lowest name) ∧ d.Takes name (d.highest name) := by
  unfold Definition.Takes lowest highest
  cases tunable : d.tunable[name]? with
  | some bounds =>
    obtain ⟨_, -, within⟩ := valid.tunable name bounds tunable
    exact Bounds.contains_min within
  | none =>
    rw [named]
    exact ⟨rfl, rfl⟩

/-- Ranges that do not overlap keep every pair of values in order. -/
theorem le_of_ranges {low high a b : F} (apart : Ieee.le high low = true)
    (first : (Ieee.le a high = true) ∨ high = a) (second : (Ieee.le low b = true) ∨ low = b) :
    Ieee.le a b = true := by
  have left : Ieee.le a low = true := by
    rcases first with most | rfl
    · exact le_trans most apart
    · exact apart
  rcases second with most | rfl
  · exact le_trans left most
  · exact left

/-- Every rule that accepted bindings on an accepted catalogue give, on every machine, has
its clear level on the safe side, and no value breaches it and is cleared at once, exactly
where the ranges of the two levels do not overlap. -/
theorem accepted_rules_oriented_iff {parse : List UInt8 → Except String (List (Definition F))}
    {digest : Definition F → Except String String} {data : List UInt8} {lock : Option Lock}
    {cat : Catalogue F} (loaded : loadCatalogue parse digest data lock = .ok cat) :
    (∀ (bindings : List (Binding F)) (device : Device) (reaches : Definition F → Bool),
      Accepted cat bindings → ∀ rule ∈ resolveAll cat.all device bindings reaches,
        Oriented rule ∧ ∀ value, ¬ (compare rule.comparator value rule.threshold = true ∧
          compare rule.comparator value rule.clear = false)) ↔
      ∀ d ∈ cat.all, d.watchesEvents = false → d.KeepsSides := by
  have sound := loadCatalogue_sound loaded
  constructor
  · intro oriented d listed reading comparator compares
    obtain ⟨valid, known⟩ := sound d listed
    have ordered : ∀ clear threshold : F, d.Takes "clear" clear → d.Takes "threshold" threshold →
        if isAbove comparator then Ieee.le clear threshold = true
        else Ieee.le threshold clear = true := by
      intro clear threshold takesClear takesThreshold
      obtain ⟨bindings, accepted, is⟩ := exists_tuning valid known
        ((valid.takes_shipped.update takesClear).update takesThreshold)
      obtain ⟨comparator', -, -, rule, compares', -, -, resolved, -, rfl, atThreshold, atClear,
        -⟩ :=
        resolve_reading valid reading oneDevice bindings
      cases compares.symm.trans compares'
      have right := (oriented bindings oneDevice (fun _ => true) accepted rule
        (mem_resolveAll.mpr ⟨d, listed, reading, rfl, resolved⟩)).1
      rw [Oriented, atThreshold, atClear, is "threshold" _ rfl, is "clear" _ rfl, update_self,
        update_of_ne (by decide), update_self] at right
      exact right
    -- both levels at the ends of their ranges that are closest
    have clear := valid.takes_ends "clear" rfl
    have threshold := valid.takes_ends "threshold" rfl
    split
    next above =>
      have right := ordered _ _ clear.2 threshold.1
      rw [if_pos above] at right
      exact right
    next below =>
      have right := ordered _ _ clear.1 threshold.2
      rw [if_neg below] at right
      exact right
  · intro keeps bindings device reaches accepted rule here
    obtain ⟨d, listed, reading, -, resolved⟩ := mem_resolveAll.mp here
    obtain ⟨valid, known⟩ := sound d listed
    obtain ⟨comparator, -, -, rule', compares, -, -, resolved', -, rfl, atThreshold, atClear, -⟩ :=
      resolve_reading valid reading device bindings
    cases resolved.symm.trans resolved'
    have apart := keeps d listed reading rule.comparator compares
    have clear :=
      (resolveParam_takes valid known accepted device (rfl : d.shippedParam "clear" = _)).between
    have threshold :=
      (resolveParam_takes valid known accepted device
        (rfl : d.shippedParam "threshold" = _)).between
    rw [← atClear] at clear
    rw [← atThreshold] at threshold
    have oriented : Oriented rule := by
      unfold Oriented
      split
      next above =>
        rw [if_pos above] at apart
        exact le_of_ranges apart (clear.imp And.right And.right) (threshold.imp And.left And.left)
      next below =>
        rw [if_neg below] at apart
        exact le_of_ranges apart (threshold.imp And.right And.right) (clear.imp And.left And.left)
    exact ⟨oriented, oriented.exclusive⟩

/-- A disk rule whose levels a customer can move without letting them pass each other. -/
def diskApart : Definition Int64 :=
  { diskCritical with tunable := boundsOf [("threshold", ⟨86, 99⟩), ("clear", ⟨40, 85⟩)] }

/-- Ranges that do not overlap. -/
theorem accepted_rules_oriented_disk :
    ∃ cat, loadPack [diskApart] = .ok cat ∧
      ∀ (bindings : List (Binding Int64)) (device : Device) (reaches : Definition Int64 → Bool),
        Accepted cat bindings → ∀ rule ∈ resolveAll cat.all device bindings reaches,
          Oriented rule ∧ ∀ value, ¬ (compare rule.comparator value rule.threshold = true ∧
            compare rule.comparator value rule.clear = false) := by
  obtain ⟨cat, loaded, each⟩ := @exists_loadPack [diskApart] (fun cat => cat.all.all fun d =>
    d.comparator == some .gte && Ieee.le (d.highest "clear") (d.lowest "threshold"))
    (by decide +kernel)
  refine ⟨cat, loaded, (accepted_rules_oriented_iff loaded).mpr
    fun d listed _ comparator compares => ?_⟩
  have is := List.all_eq_true.mp each d listed
  rw [and_eq_true, beq_iff_eq] at is
  cases compares.symm.trans is.1
  exact is.2

/-- A customer sets the threshold of the shipped disk rule to 60 percent and leaves its
clear level at 85: 70 percent breaches and is cleared. -/
theorem accepted_levels_inverted :
    ∃ cat, loadPack [diskCritical] = .ok cat ∧ ∃ binding : Binding Int64,
      Accepted cat [binding] ∧ ∃ rule ∈ resolveAll cat.all oneDevice [binding] (fun _ => true),
        rule.threshold = 60 ∧ rule.clear = 85 ∧ ¬ Oriented rule ∧
        compare rule.comparator 70 rule.threshold = true ∧
        compare rule.comparator 70 rule.clear = false := by
  obtain ⟨cat, loaded, checked⟩ := @exists_loadPack [diskCritical] (fun cat =>
    (validateBindingAgainst cat (deviceBinding "disk-critical" (paramsOf [("threshold", 60)]))).isOk
      &&
    (resolveAll cat.all oneDevice [deviceBinding "disk-critical" (paramsOf [("threshold", 60)])]
      (fun _ => true)).any fun rule => rule.threshold == 60 && rule.clear == 85 &&
        rule.comparator == .gte) (by decide +kernel)
  rw [and_eq_true, List.any_eq_true] at checked
  obtain ⟨passed, rule, here, shape⟩ := checked
  simp only [and_eq_true, beq_iff_eq] at shape
  obtain ⟨⟨threshold, clear⟩, comparator⟩ := shape
  refine ⟨cat, loaded, _, accepted_singleton passed, rule, here, threshold, clear, ?_⟩
  rw [Oriented, threshold, clear, comparator]
  decide +kernel

end OpenGate.Rules
