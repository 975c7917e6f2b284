import OpenGate.Alerts.Evaluator

/-!
# The rule catalogue

`rules/catalogue*.go` and `rules/cost.go` of the server: what a rule definition may say,
and the pack of definitions that passes.  Parsing a pack (YAML) and the digest of a
definition are given.
-/

namespace OpenGate.Rules

open OpenGate.Alerts OpenGate.Lib OpenGate.Tsdb Std ExtTreeMap

/-- What the server asks of `float64`: besides its comparisons, `uint32(v)`, which drops
the fraction of a value that fits and is open for others, and `FormatFloat(v, 'g', -1, 64)`. -/
class GoFloat (F : Type) extends RuleFloat F where
  toU32 : F → UInt32
  format : F → String
  lt_ofU32 (m n : UInt32) : Ieee.lt (Float64.ofU32 m : F) (Float64.ofU32 n) = true ↔ m < n
  toU32_ofU32 (n : UInt32) : toU32 (Float64.ofU32 n) = n
  toU32_between (n : UInt32) (v : F) : n.toNat + 1 < 2 ^ 32 → Ieee.le (Float64.ofU32 n) v = true →
    Ieee.lt v (Float64.ofU32 (n + 1)) = true → toU32 v = n

/-! ## Vocabularies -/

def ruleMetrics : List String :=
  ["cpu.total", "mem.used_percent", "disk.used_percent", "disk.mounts_critical", "net.rx_bps",
    "net.tx_bps", "stall.cpu.some", "stall.mem.some", "stall.mem.full", "stall.io.some",
    "stall.io.full", "disk.await_ms", "disk.queue_depth"]

def ruleMetricAliases : String → Option String
  | "mem.used" => some "mem.used_percent"
  | "disk.used" => some "disk.used_percent"
  | _ => none

def canonicalRuleMetric (name : String) : Option String :=
  if name ∈ ruleMetrics then some name else ruleMetricAliases name

def groupByVocabulary : List String := ["device", "site", "organization", "mount", "metric"]

def evidenceVocabulary : List String :=
  ["vitals", "top_processes", "recent_logs", "inventory", "correlation"]

def comparatorVocabulary : String → Option AlertComparator
  | "gt" => some .gt
  | "lt" => some .lt
  | "gte" => some .gte
  | "lte" => some .lte
  | _ => none

/-- An empty name is the plain instant threshold. -/
def predicateVocabulary : String → Option RulePredicate
  | "" => some .instant
  | "Instant" => some .instant
  | "Rate" => some .rate
  | "WindowMax" => some .windowMax
  | "WindowMean" => some .windowMean
  | _ => none

def severityVocabulary : String → Option AlertSeverity
  | "info" => some .info
  | "warning" => some .warning
  | "critical" => some .critical
  | _ => none

def maxRuleIdLen : Nat := 64

def minRuleVersion : Int := 1

def maxRuleVersion : Int := 4294967295

def kindEvent : String := "event"

/-! ## Definitions -/

structure Bounds (F : Type) where
  min : F
  max : F

structure Term (F : Type) where
  metric : String
  comparatorName : String
  threshold : F
  clear : F
  predicateName : String
  windowSecs : UInt32

structure Definition (F : Type) where
  id : String
  version : Int
  kind : String
  severity : String
  summary : String
  metric : String
  comparatorName : String
  threshold : F
  clear : F
  sustainSecs : UInt32
  predicateName : String
  windowSecs : UInt32
  all : List (Term F)
  groupBy : List String
  groupWindowSecs : UInt32
  evidence : List String
  coverageRequires : List String
  tunable : ExtTreeMap String (Bounds F)

variable {F : Type}

def Term.comparator (term : Term F) : Option AlertComparator :=
  comparatorVocabulary term.comparatorName

def Term.predicate (term : Term F) : Option RulePredicate := predicateVocabulary term.predicateName

namespace Definition

def watchesEvents (d : Definition F) : Bool := d.kind == kindEvent

def wireSeverity (d : Definition F) : Option AlertSeverity := severityVocabulary d.severity

def comparator (d : Definition F) : Option AlertComparator := comparatorVocabulary d.comparatorName

def predicate (d : Definition F) : Option RulePredicate := predicateVocabulary d.predicateName

/-- The identity a definition is immutable under. -/
def key (d : Definition F) : String := d.id ++ "@" ++ toString d.version

end Definition

/-! ## The cost of a rule -/

def maxRuleCost : UInt64 := 3600

def maxCatalogueCost : UInt64 := 20000

def predicateCost (predicate : Option RulePredicate) (windowSecs : UInt32) : UInt64 :=
  if predicate = some .instant then 1 else windowSecs.toUInt64 + 1

def saturatingAdd (a b : UInt64) : UInt64 := if a ≤ a + b then a + b else 18446744073709551615

/-- A rule's whole evaluation cost; a rule that watches events costs nothing. -/
def ruleCost (d : Definition F) : UInt64 :=
  if d.watchesEvents then 0
  else
    d.all.foldl (fun cost term => saturatingAdd cost (predicateCost term.predicate term.windowSecs))
    (predicateCost d.predicate d.windowSecs)

/-! ## Checking a definition -/

/-- A character as `%q` writes it; those beyond ASCII are taken to be printable. -/
def escape (c : Char) : String :=
  match c.toNat with
  | 0x07 => "\\a"
  | 0x08 => "\\b"
  | 0x09 => "\\t"
  | 0x0a => "\\n"
  | 0x0b => "\\v"
  | 0x0c => "\\f"
  | 0x0d => "\\r"
  | 0x22 => "\\\""
  | 0x5c => "\\\\"
  | n =>
    if n < 0x20 ∨ n = 0x7f then "\\x" ++ String.ofList [(n / 16).digitChar, (n % 16).digitChar]
    else String.singleton c

/-- `%q`. -/
def quote (s : String) : String := "\"" ++ String.join (s.toList.map escape) ++ "\""

def checkAll {α : Type} (check : α → Except String Unit) : List α → Except String Unit
  | [] => .ok ()
  | x :: xs => do
      check x
      checkAll check xs

def require (holds : Bool) (error : String) : Except String Unit :=
  if holds then .ok () else .error error

@[simp] theorem require_eq_ok {holds : Bool} {error : String} :
    require holds error = .ok () ↔ holds := by
  cases holds <;> simp [require]

@[simp] theorem bind_eq_ok {first second : Except String Unit} :
    (do first; second) = .ok () ↔ first = .ok () ∧ second = .ok () := by
  cases first with
  | error e =>
    constructor
    · intro bad
      cases bad
    · rintro ⟨bad, -⟩
      cases bad
  | ok u => exact ⟨fun ok => ⟨rfl, ok⟩, fun ok => ok.2⟩

theorem except_bind_ok {α β : Type} {first : Except String α} {rest : α → Except String β} {b : β}
    (ran : first >>= rest = .ok b) : ∃ a, first = .ok a ∧ rest a = .ok b := by
  cases first with
  | error e => cases ran
  | ok a => exact ⟨a, rfl, ran⟩

theorem seq_ok {β : Type} {first : Except String Unit} {rest : Except String β} {b : β}
    (ran : (first >>= fun _ => rest) = .ok b) : first = .ok () ∧ rest = .ok b := by
  obtain ⟨⟨⟩, passed, ran⟩ := except_bind_ok ran
  exact ⟨passed, ran⟩

theorem checkAll_eq_ok {α : Type} {check : α → Except String Unit} {xs : List α} :
    checkAll check xs = .ok () ↔ ∀ x ∈ xs, check x = .ok () := by
  induction xs with
  | nil => simp [checkAll]
  | cons x xs ih => rw [checkAll, bind_eq_ok, ih, List.forall_mem_cons]

def validRuleId (id : String) : Bool :=
  id.toList.all fun r =>
    decide ('a' ≤ r) && decide (r ≤ 'z') || decide ('0' ≤ r) && decide (r ≤ '9') || r == '-'

def validateIdentity (d : Definition F) (fail : String → String) : Except String Unit := do
  require (d.id != "") (fail "id is required")
  require (decide (d.id.utf8ByteSize ≤ maxRuleIdLen) && validRuleId d.id)
    (fail "id must be lower-case letters, digits and dashes, at most 64 characters")
  require (decide (minRuleVersion ≤ d.version) && decide (d.version ≤ maxRuleVersion))
    (fail ("version must be between 1 and 4294967295 — an alert's identity is built on it, " ++
      "so a revision the wire cannot carry is one no alert can be traced back to"))
  require (d.summary != "") (fail "summary is required — a rule must say what it is for")
  require d.wireSeverity.isSome
    (fail ("severity " ++ quote d.severity ++ " is not one of info, warning, critical — " ++
      "a queue ordered by severity cannot order a rule that states none"))

def validateGrouping (d : Definition F) (fail : String → String) : Except String Unit := do
  require (!d.groupBy.isEmpty)
    (fail "group_by is required — a rule must say what its alerts are about")
  checkAll (fun key => require (groupByVocabulary.contains key)
    (fail ("group_by " ++ quote key ++ " is not something alerts can be grouped on"))) d.groupBy
  require (d.groupWindowSecs != 0) (fail "group_window_secs must be greater than zero")
  checkAll (fun kind => require (evidenceVocabulary.contains kind)
    (fail ("evidence " ++ quote kind ++ " is not collected"))) d.evidence
  checkAll (fun metric => require (canonicalRuleMetric metric).isSome
    (fail ("coverage_requires " ++ quote metric ++ " is outside the metric vocabulary")))
    d.coverageRequires

def validateCondition (metric comparator predicate : String) (fail : String → String) :
    Except String Unit := do
  require (canonicalRuleMetric metric).isSome
    (fail ("metric " ++ quote metric ++ " is outside the vocabulary the fleet collects"))
  require (comparatorVocabulary comparator).isSome
    (fail ("comparator " ++ quote comparator ++ " is not one of gt, lt, gte, lte"))
  require (predicateVocabulary predicate).isSome
    (fail ("predicate " ++ quote predicate ++ " is outside the grammar"))

def validateEventRule (d : Definition F) (fail : String → String) : Except String Unit := do
  checkAll (fun named => require (named.2 == "")
    (fail ("a rule watching the machine's own words names no " ++ named.1 ++ ", got " ++
      quote named.2)))
    [("metric", d.metric), ("comparator", d.comparatorName), ("predicate", d.predicateName)]
  require d.all.isEmpty (fail "a rule watching the machine's own words has no further conditions")
  require d.tunable.isEmpty
    (fail "a rule watching the machine's own words has no numbers to retune")

/-- A reading rule fits the machine's grammar; an event rule states none of it. -/
def validateWhatItWatches (d : Definition F) (fail : String → String) : Except String Unit :=
  if d.watchesEvents then validateEventRule d fail
  else do
    require (d.kind == "")
      (fail ("kind " ++ quote d.kind ++ " is not a kind of rule this build evaluates"))
    validateCondition d.metric d.comparatorName d.predicateName fail
    checkAll (fun indexed => validateCondition indexed.1.metric indexed.1.comparatorName
      indexed.1.predicateName fun text => fail ("term " ++ toString indexed.2 ++ ": " ++ text))
      d.all.zipIdx

/-! ## Tunable parameters -/

variable [GoFloat F] {digest : Definition F → Except String String} {index : Nat}

namespace Bounds

def contains (b : Bounds F) (v : F) : Bool := Ieee.le b.min v && Ieee.le v b.max

/-- The closest value the bounds contain, and whether the given one had to move. -/
def nearest (b : Bounds F) (v : F) : F × Bool :=
  if Ieee.lt v b.min then (b.min, true)
  else if Ieee.lt b.max v then (b.max, true)
  else (v, false)

def text (b : Bounds F) : String :=
  "[" ++ GoFloat.format b.min ++ ", " ++ GoFloat.format b.max ++ "]"

end Bounds

def Definition.shippedParam (d : Definition F) : String → Option F
  | "threshold" => some d.threshold
  | "clear" => some d.clear
  | "sustain_secs" => some (Float64.ofU32 d.sustainSecs)
  | "window_secs" => some (Float64.ofU32 d.windowSecs)
  | _ => none

def validateBounds (d : Definition F) (fail : String → String) (tuned : String × Bounds F) :
    Except String Unit :=
  match d.shippedParam tuned.1 with
  | none => .error (fail ("tunable " ++ quote tuned.1 ++ " is not a parameter a binding can set"))
  | some shipped => do
      require (!Ieee.lt tuned.2.max tuned.2.min)
        (fail ("tunable " ++ quote tuned.1 ++ " has inverted bounds " ++ tuned.2.text))
      require (tuned.2.contains shipped)
        (fail ("shipped " ++ tuned.1 ++ " of " ++ GoFloat.format shipped ++
          " is outside its own declared bounds " ++ tuned.2.text))

/-- The parameters by name. -/
def validateTunable (d : Definition F) (fail : String → String) : Except String Unit :=
  checkAll (validateBounds d fail) d.tunable.toList

def validateDefinition (d : Definition F) (index : Nat) : Except String Unit := do
  let named := if d.id = "" then "#" ++ toString index else d.id
  let fail := fun text => "rule " ++ named ++ ": " ++ text
  validateIdentity d fail
  validateWhatItWatches d fail
  validateGrouping d fail
  validateTunable d fail

/-- What an accepted definition is known by. -/
structure Definition.Valid (d : Definition F) : Prop where
  severity : d.wireSeverity.isSome = true
  reading : d.watchesEvents = false → (canonicalRuleMetric d.metric).isSome = true ∧
    d.comparator.isSome = true ∧ d.predicate.isSome = true ∧
    ∀ term ∈ d.all, (canonicalRuleMetric term.metric).isSome = true ∧
      term.comparator.isSome = true ∧ term.predicate.isSome = true
  tunable : ∀ name b, d.tunable[name]? = some b →
    ∃ shipped, d.shippedParam name = some shipped ∧ b.contains shipped = true

theorem validateDefinition_ok {d : Definition F} (accepted : validateDefinition d index = .ok ()) :
    d.Valid := by
  simp only [validateDefinition, validateIdentity, validateTunable, bind_eq_ok, require_eq_ok,
    checkAll_eq_ok] at accepted
  obtain ⟨⟨-, -, -, -, severity⟩, watches, -, tunable⟩ := accepted
  refine ⟨severity, fun reading => ?_, fun name b bound => ?_⟩
  · simp only [validateWhatItWatches, reading, Bool.false_eq_true, if_false, bind_eq_ok,
      require_eq_ok, validateCondition, checkAll_eq_ok] at watches
    obtain ⟨-, ⟨metric, comparator, predicate⟩, terms⟩ := watches
    refine ⟨metric, comparator, predicate, fun term here => ?_⟩
    obtain ⟨i, at_⟩ := List.getElem?_of_mem here
    exact terms (term, i) (List.mem_zipIdx_iff_getElem?.mpr at_)
  · have checked := tunable (name, b) (mem_toList_iff_getElem?_eq_some.mpr bound)
    unfold validateBounds at checked
    split at checked
    · cases checked
    next shipped known =>
      simp only [bind_eq_ok, require_eq_ok] at checked
      exact ⟨shipped, known, checked.2⟩

/-! ## Loading a pack -/

structure Catalogue (F : Type) where
  byId : ExtTreeMap String (Definition F)
  order : List String

def Definition.blank : Definition F :=
  ⟨"", 0, "", "", "", "", "", Float64.zero, Float64.zero, 0, "", 0, [], [], 0, [], [], ∅⟩

def Catalogue.all (cat : Catalogue F) : List (Definition F) :=
  cat.order.map fun id => cat.byId.getD id .blank

omit [GoFloat F] in
def Catalogue.lookup (cat : Catalogue F) (id : String) : Option (Definition F) := cat.byId[id]?

/-- The digest each published definition was committed with. -/
abbrev Lock := ExtTreeMap String String

omit [GoFloat F] in
/-- Only a changed digest is refused; without a lock nothing is. -/
def checkLock (digest : Definition F → Except String String) (d : Definition F)
    (lock : Option Lock) : Except String Unit :=
  match lock.bind (·[d.key]?) with
  | none => .ok ()
  | some want => do
      let got ← digest d
      require (got == want) ("rule " ++ d.key ++
        ": immutable definition changed; bump the version instead of editing a published one")

def loadFrom (digest : Definition F → Except String String) (lock : Option Lock) :
    Nat → Catalogue F → List String → UInt64 → List (Definition F) →
      Except String (Catalogue F × UInt64)
  | _, cat, _, total, [] => .ok (cat, total)
  | index, cat, seen, total, d :: defs => do
      validateDefinition d index
      require (!seen.contains d.key) ("rule " ++ d.key ++ ": duplicate (rule_id, version)")
      require (!cat.byId.contains d.id) ("rule " ++ d.id ++ ": duplicate rule id")
      checkLock digest d lock
      let cost := ruleCost d
      require (decide (cost ≤ maxRuleCost)) ("rule " ++ d.key ++ ": evaluation cost " ++
        toString cost ++ " readings exceeds the per-rule budget of " ++ toString maxRuleCost ++
        "; narrow its window")
      loadFrom digest lock (index + 1) ⟨cat.byId.insert d.id d, cat.order ++ [d.id]⟩
        (d.key :: seen) (total + cost) defs

omit [GoFloat F] in
def parseDefinitions (parse : List UInt8 → Except String (List (Definition F)))
    (data : List UInt8) : Except String (List (Definition F)) :=
  match parse data with
  | .error e => .error ("parse catalogue: " ++ e)
  | .ok [] => .error "parse catalogue: no rules"
  | .ok defs => .ok defs

def loadCatalogue (parse : List UInt8 → Except String (List (Definition F)))
    (digest : Definition F → Except String String) (data : List UInt8) (lock : Option Lock) :
    Except String (Catalogue F) := do
  let defs ← parseDefinitions parse data
  let (cat, total) ← loadFrom digest lock 0 ⟨∅, []⟩ [] 0 defs
  require (decide (total ≤ maxCatalogueCost)) ("catalogue asks every endpoint to hold " ++
    toString total ++ " readings, over the per-agent budget of " ++ toString maxCatalogueCost)
  .ok { cat with order := cat.order.insertionSort (· ≤ ·) }

/-- Every id listed is the id of a valid definition. -/
def Catalogue.Sound (cat : Catalogue F) : Prop :=
  ∀ id ∈ cat.order, ∃ d, cat.byId[id]? = some d ∧ d.id = id ∧ d.Valid

variable {lock : Option Lock} {cat : Catalogue F}

theorem loadFrom_sound {seen : List String} {total : UInt64} {defs : List (Definition F)}
    {loaded : Catalogue F × UInt64} (sound : cat.Sound)
    (ran : loadFrom digest lock index cat seen total defs = .ok loaded) : loaded.1.Sound := by
  induction defs generalizing index cat seen total with
  | nil =>
    cases ran
    exact sound
  | cons d defs ih =>
    obtain ⟨valid, ran⟩ := seq_ok ran
    obtain ⟨-, ran⟩ := seq_ok ran
    obtain ⟨new, ran⟩ := seq_ok ran
    obtain ⟨-, ran⟩ := seq_ok ran
    obtain ⟨-, ran⟩ := seq_ok ran
    refine ih (fun id here => ?_) ran
    rw [ExtTreeMap.getElem?_insert]
    rcases List.mem_append.mp here with before | now
    · obtain ⟨e, found, named, good⟩ := sound id before
      have other : d.id ≠ id := by
        rintro rfl
        rw [contains_eq_isSome_getElem?, found] at new
        cases new
      exact ⟨e, by simpa [other] using found, named, good⟩
    · cases List.mem_singleton.mp now
      exact ⟨d, by simp, rfl, validateDefinition_ok valid⟩

/-- The definitions of a loaded pack are valid, and found under their ids. -/
theorem loadCatalogue_sound {parse : List UInt8 → Except String (List (Definition F))}
    {data : List UInt8} (loaded : loadCatalogue parse digest data lock = .ok cat) :
    ∀ d ∈ cat.all, d.Valid ∧ cat.lookup d.id = some d := by
  obtain ⟨defs, -, loaded⟩ := except_bind_ok loaded
  obtain ⟨⟨read, total⟩, ran, loaded⟩ := except_bind_ok loaded
  obtain ⟨-, loaded⟩ := seq_ok loaded
  cases loaded
  have sound := loadFrom_sound (fun id here => absurd here List.not_mem_nil) ran
  intro d here
  obtain ⟨id, listed, rfl⟩ := List.mem_map.mp here
  obtain ⟨d, found, named, valid⟩ := sound id ((List.mem_insertionSort _).mp listed)
  have read : ExtTreeMap.getD read.byId id .blank = d := by
    rw [getD_eq_getD_getElem?, found, Option.getD_some]
  rw [read]
  exact ⟨valid, by rw [Catalogue.lookup, named, found]⟩

/-! ## Whole numbers as parameters -/

theorem toInt_ofU32 (n : UInt32) : (Float64.ofU32 n : Int64).toInt = n.toNat := by
  show n.toUInt64.toBitVec.toInt = n.toNat
  have small := n.toNat_lt
  have value : n.toUInt64.toBitVec.toNat = n.toNat := UInt32.toNat_toUInt64 n
  rw [BitVec.toInt_eq_toNat_of_lt (by omega), value]

instance : GoFloat Int64 where
  toU32 v := UInt32.ofNat v.toInt.toNat
  format v := toString v.toInt
  lt_ofU32 m n := by
    show decide ((Float64.ofU32 m : Int64) < Float64.ofU32 n) = true ↔ _
    rw [decide_eq_true_eq, Int64.lt_iff_toInt_lt, toInt_ofU32, toInt_ofU32, UInt32.lt_iff_toNat_lt]
    omega
  toU32_ofU32 n := by
    rw [toInt_ofU32]
    exact UInt32.ofNat_toNat
  toU32_between n v small above below := by
    obtain ⟨x, atN, y, atV, most⟩ := (Ieee.le_iff _ v).mp above
    obtain ⟨y', atV', z, atNext, less⟩ := (Ieee.lt_iff v _).mp below
    cases Option.mem_unique atV atV'
    have next : (n + 1).toNat = n.toNat + 1 := by
      rw [UInt32.toNat_add]
      exact Nat.mod_eq_of_lt small
    have lower : (Float64.ofU32 n : Int64).toInt = x := Option.some.inj atN
    have upper : (Float64.ofU32 (n + 1) : Int64).toInt = z := Option.some.inj atNext
    have value : v.toInt = y := Option.some.inj atV
    rw [toInt_ofU32] at lower upper
    have is : v.toInt.toNat = n.toNat := by omega
    rw [is]
    exact UInt32.ofNat_toNat

end OpenGate.Rules
