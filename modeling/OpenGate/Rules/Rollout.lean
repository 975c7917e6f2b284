import OpenGate.Lib.BigEndian
import OpenGate.Rules.Resolve

/-!
# Rollouts

`rules/rollout.go` and `rules/stage.go`: how far a rule has been rolled out for one customer, and
which machines are in the population it has reached.  A stage in the middle of a rollout is sized
by the customer's estate, so the machines it reaches depend on how many there are; `needsFleetSize`
is the test for that.
-/

namespace OpenGate.Rules

open OpenGate.Alerts OpenGate.Lib OpenGate.Tsdb Std

/-- One customer's rollout state for one rule, as far as delivery reads it. -/
structure Rollout where
  organizationId : Uuid
  ruleId : String
  enabled : Bool
  rolloutPercent : Int
  kill : Bool
  canaryPercent : Int
  stagedPercent : Int
  deriving DecidableEq

inductive Stage where
  | off
  | canary
  | staged
  | full
  deriving DecidableEq

def defaultCanaryPercent : Int := 1

def defaultStagedPercent : Int := 10

def canaryFloorDevices : Int := 5

def fullPercent : Int := 100

def membershipBuckets : Int := 1000000

/-- What applies to a customer with no stored row. -/
def defaultRollout (organizationId : Uuid) (ruleId : String) : Rollout :=
  ⟨organizationId, ruleId, true, 100, false, defaultCanaryPercent, defaultStagedPercent⟩

namespace Rollout

/-- The shipped pace for each population that is exactly zero. -/
def paced (r : Rollout) : Rollout :=
  { r with
    canaryPercent := if r.canaryPercent = 0 then defaultCanaryPercent else r.canaryPercent
    stagedPercent := if r.stagedPercent = 0 then defaultStagedPercent else r.stagedPercent }

def stage (r : Rollout) : Stage :=
  if r.rolloutPercent ≤ 0 then .off
  else if r.rolloutPercent < r.paced.stagedPercent then .canary
  else if r.rolloutPercent < fullPercent then .staged
  else .full

def delivers (r : Rollout) : Bool := r.enabled && !r.kill

end Rollout

/-- The number of machines a rollout at a percentage aims at. -/
def stagePopulation (percent fleetSize : Int) : Int :=
  if fleetSize ≤ 0 ∨ percent ≤ 0 then 0
  else if percent ≥ fullPercent then fleetSize
  else
    let wanted := (fleetSize * percent + fullPercent - 1) / fullPercent
    min (max wanted (min canaryFloorDevices fleetSize)) fleetSize

/-- The share of the bucket space a population occupies. -/
def membershipLimit (percent fleetSize : Int) : Int :=
  if fleetSize ≤ 0 then min (max percent 0) fullPercent * membershipBuckets / fullPercent
  else stagePopulation percent fleetSize * membershipBuckets / fleetSize

def fnv64a (bytes : List UInt8) : UInt64 :=
  bytes.foldl (fun h b => (h ^^^ b.toUInt64) * 1099511628211) 14695981039346656037

section Membership

variable (hash : List UInt8 → UInt64) (deviceId : Uuid) (ruleId : String)

/-- A machine's place in the bucket space, another one for each rule. -/
def membershipBucket : Int :=
  ((hash (beBytes 16 deviceId.toNat ++ [47] ++ ruleId.toUTF8.data.toList)).toNat : Int)
    % membershipBuckets

def inStage (percent fleetSize : Int) : Bool :=
  let limit := membershipLimit percent fleetSize
  if limit ≤ 0 then false
  else if limit ≥ membershipBuckets then true
  else membershipBucket hash deviceId ruleId < limit

/-! ## A rollout that grows -/

variable {p q fleetSize : Int} (le : p ≤ q)

theorem stagePopulation_le (counted : 0 ≤ fleetSize) (p : Int) :
    stagePopulation p fleetSize ≤ fleetSize := by
  unfold stagePopulation
  split
  · exact counted
  · split
    · exact le_rfl
    · exact min_le_right _ _

include le

theorem stagePopulation_mono : stagePopulation p fleetSize ≤ stagePopulation q fleetSize := by
  have aims : fleetSize ≥ 0 → fleetSize * p ≤ fleetSize * q := Int.mul_le_mul_of_nonneg_left le
  simp only [stagePopulation, fullPercent, canaryFloorDevices]
  -- the three cases of either percentage: nobody, a rounded share, everybody
  split_ifs <;> omega

theorem membershipLimit_mono (fleetSize : Int) :
    membershipLimit p fleetSize ≤ membershipLimit q fleetSize := by
  unfold membershipLimit
  split
  · refine Int.ediv_le_ediv (by decide) (Int.mul_le_mul_of_nonneg_right ?_ (by decide))
    omega
  next counted =>
    refine Int.ediv_le_ediv (by omega) (Int.mul_le_mul_of_nonneg_right ?_ (by decide))
    exact stagePopulation_mono le

omit le

theorem membershipLimit_zero : membershipLimit 0 fleetSize = 0 := by
  unfold membershipLimit
  split
  · rfl
  · rw [stagePopulation, if_pos (.inr le_rfl), Int.zero_mul, Int.zero_ediv]

theorem membershipLimit_full : membershipLimit 100 fleetSize = membershipBuckets := by
  unfold membershipLimit
  split
  · rfl
  next counted =>
    have all : stagePopulation 100 fleetSize = fleetSize := by
      rw [stagePopulation, if_neg (by omega), if_pos (by decide)]
    rw [all, Int.mul_ediv_cancel_left _ (by omega)]

/-- A machine in the population stays in it as the percentage grows, and the products that size it
are within an `int`. -/
theorem inStage_grows (le : p ≤ q) (most : q ≤ 100) (counted : 0 ≤ fleetSize)
    (bounded : fleetSize < 2 ^ 31) :
    (inStage hash deviceId ruleId p fleetSize → inStage hash deviceId ruleId q fleetSize) ∧
      stagePopulation p fleetSize ≤ stagePopulation q fleetSize ∧
      stagePopulation q fleetSize ≤ fleetSize ∧
      inStage hash deviceId ruleId 0 fleetSize = false ∧
        inStage hash deviceId ruleId 100 fleetSize ∧
      fleetSize * q + fullPercent - 1 < 2 ^ 63 ∧
        stagePopulation q fleetSize * membershipBuckets < 2 ^ 63 := by
  have within := stagePopulation_le counted q
  have product : fleetSize * q ≤ fleetSize * 100 := Int.mul_le_mul_of_nonneg_left most counted
  refine ⟨fun inside => ?_, stagePopulation_mono le, within, ?_, ?_, ?_, ?_⟩
  · have limits := membershipLimit_mono le fleetSize
    simp only [inStage] at inside ⊢
    grind
  · rw [inStage, membershipLimit_zero]
    rfl
  · rw [inStage, membershipLimit_full]
    rfl
  · simp only [fullPercent]
    omega
  · simp only [membershipBuckets]
    omega

end Membership

theorem inStage_grows_canary :
    inStage (fun _ => 0) 7 "busy" 1 1000 ∧ inStage (fun _ => 0) 7 "busy" 10 1000 := by
  have starts : inStage (fun _ => 0) 7 "busy" 1 1000 := by decide +kernel
  exact ⟨starts,
    (inStage_grows (fun _ => 0) 7 "busy" (by decide) (by decide) (by decide) (by decide)).1 starts⟩

def Rollout.reaches (r : Rollout) (deviceId : Uuid) (fleetSize : Int) : Bool :=
  r.delivers && inStage fnv64a deviceId r.ruleId r.rolloutPercent fleetSize

/-- Whether a delivered rollout is in the middle, so that the estate has to be counted. -/
def needsFleetSize (rollouts : List Rollout) : Bool :=
  rollouts.any fun r => r.delivers && (r.stage == .canary || r.stage == .staged)

def rolloutFor (rollouts : List Rollout) (organizationId : Uuid) (ruleId : String) : Rollout :=
  (rollouts.find? fun r => r.ruleId = ruleId).getD (defaultRollout organizationId ruleId)

variable {F : Type} [GoFloat F]

/-- The rules a machine evaluates and its hourly alert ceiling, where zero keeps the machine's
current one, with the event rules its customer keeps enabled. -/
structure RuleSet (F : Type) where
  rules : List (ThresholdRule F)
  deviceHourlyCeiling : Nat
  eventRules : List String

/-- The event rules a customer keeps enabled; stages do not apply to them. -/
def wantedEventRules (definitions : List (Definition F)) (organizationId : Uuid)
    (rollouts : List Rollout) : List String :=
  definitions.filterMap fun d =>
    if d.watchesEvents && (rolloutFor rollouts organizationId d.id).delivers then some d.id
    else none

end OpenGate.Rules
