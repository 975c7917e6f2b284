import OpenGate.Lib.Int64
import OpenGate.Lib.OrderedMap

/-!
# The backfill scheduler

`agentapi/backfill_scheduler.go`: drains are admitted under a global cap and one for each
tenant.  Every exported method is one locked section.  Times and durations are in
nanoseconds; the share of the load-adaptive budget that falls on one slot, a product of
floats cut to 32 bits, is an argument.
-/

namespace OpenGate.Agents

open OpenGate.Lib Std

structure BackfillSchedulerConfig where
  maxConcurrent : Int
  perTenantMax : Int
  minGrantRate : UInt32
  maxGrantRate : UInt32
  grantTtl : Int
  deferBackoff : Int

def second : Int := 1000000000

def minRetryAfter : Int := second

def defaultBackfillSchedulerConfig : BackfillSchedulerConfig where
  maxConcurrent := 8
  perTenantMax := 4
  minGrantRate := 500
  maxGrantRate := 5000
  grantTtl := 60 * second
  deferBackoff := 30 * second

structure BackfillGrant (Tenant : Type) where
  tenant : Tenant
  deadline : Int
  deriving DecidableEq

inductive BackfillDecision where
  | grant (rate : UInt32) (deadline : Int)
  | defer (retryAfter : UInt32)
  deriving DecidableEq

def BackfillDecision.isGrant : BackfillDecision → Bool
  | .grant .. => true
  | .defer _ => false

structure BackfillScheduler (Device Tenant : Type) [Ord Device] [Ord Tenant] where
  grants : ExtTreeMap Device (BackfillGrant Tenant) Ord.compare
  tenantCount : ExtTreeMap Tenant Int Ord.compare
  firstReq : ExtTreeMap Device Int Ord.compare

namespace BackfillScheduler

variable {Device Tenant : Type} [Ord Device] [Ord Tenant] [TransOrd Device] [TransOrd Tenant]

def new : BackfillScheduler Device Tenant := ⟨∅, ∅, ∅⟩

def freeSlot (s : BackfillScheduler Device Tenant) (agent : Device) :
    BackfillScheduler Device Tenant :=
  match s.grants[agent]? with
  | none => s
  | some g =>
    let taken := s.tenantCount[g.tenant]?.getD 0
    { s with
      grants := s.grants.erase agent
      tenantCount :=
        if taken ≤ 1 then s.tenantCount.erase g.tenant
        else s.tenantCount.insert g.tenant (taken - 1) }

def reap (s : BackfillScheduler Device Tenant) (now : Int) : BackfillScheduler Device Tenant :=
  s.grants.foldl (fun s id g => if g.deadline ≤ now then s.freeSlot id else s) s

/-- The equal share of the budget, within the configured bounds. -/
def rate (config : BackfillSchedulerConfig) (share : UInt32) : UInt32 :=
  min (max share config.minGrantRate) config.maxGrantRate

def grant (config : BackfillSchedulerConfig) (now : Int) (share : UInt32) : BackfillDecision :=
  .grant (rate config share) ((now + config.grantTtl) / second)

/-- The backoff left of an agent that first asked at `first`: `Time.Sub` stays at the ends of
the range, a difference of durations wraps. -/
def backoffLeft (config : BackfillSchedulerConfig) (first now : Int) : Int :=
  max (Int64.ofInt config.deferBackoff - saturate (now - first)).toInt minRetryAfter

/-- A deferral whose backoff shrinks with how long the agent has waited. -/
def deferSlot (config : BackfillSchedulerConfig) (s : BackfillScheduler Device Tenant)
    (agent : Device) (now : Int) : BackfillScheduler Device Tenant × BackfillDecision :=
  let first := s.firstReq[agent]?.getD now
  ({ s with firstReq := s.firstReq.insert agent first },
    .defer (UInt32.ofInt (-(-backoffLeft config first now / second))))

/-- Admits or defers a drain, renewing a live grant. -/
def requestSlot (config : BackfillSchedulerConfig) (s : BackfillScheduler Device Tenant)
    (agent : Device) (tenant : Tenant) (now : Int) (share : UInt32) :
    BackfillScheduler Device Tenant × BackfillDecision :=
  let s := s.reap now
  match s.grants[agent]? with
  | some g =>
    ({ s with
      grants := s.grants.insert agent { g with deadline := now + config.grantTtl }
      firstReq := s.firstReq.erase agent }, grant config now share)
  | none =>
    let taken := s.tenantCount[tenant]?.getD 0
    if config.maxConcurrent ≤ s.grants.size || config.perTenantMax ≤ taken then
      deferSlot config s agent now
    else
      ({ grants := s.grants.insert agent ⟨tenant, now + config.grantTtl⟩
         tenantCount := s.tenantCount.insert tenant (taken + 1)
         firstReq := s.firstReq.erase agent }, grant config now share)

def release (s : BackfillScheduler Device Tenant) (agent : Device) :
    BackfillScheduler Device Tenant :=
  let s := s.freeSlot agent
  { s with firstReq := s.firstReq.erase agent }

end BackfillScheduler

end OpenGate.Agents
