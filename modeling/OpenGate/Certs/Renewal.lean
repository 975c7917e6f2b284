import OpenGate.Certs.Ledger
import OpenGate.Lib.Tasks

/-!
# The daily allowance of renewals

`renewFor` of `agentapi/renewal.go` as a task over the certificate table: the clock is read,
the renewals of the device are counted, the in-flight guard is taken, the certificate is signed
and recorded, and the guard is given back.  Between these steps run those of the device's other
connections.

The guard orders the issuances, not the counts they rest on.  `renewals_within_allowance` is
the bound for runs where what a request has counted is still so when it takes the guard.
-/

namespace OpenGate.Certs

open OpenGate.Lib Std List

variable {Print Device : Type}

def renewalsPerDay : Nat := 3

def renewalWindow : Int := 24 * 60 * 60 * 1000000

/-- A certificate request: the device of its connection, and what will be signed for it. -/
structure Request (Print Device : Type) where
  device : Device
  print : Print
  notBefore : Int
  /-- Whether the insert succeeds. -/
  stored : Bool
  deriving DecidableEq

structure Issuing (Print Device : Type) [Ord Print] where
  clock : Int
  table : Table Print Device
  inFlight : List Device

inductive Renewal (Print Device : Type) where
  | tick (later : Int)
  | enroll (print : Print) (leaf : Leaf Device)
  | begins (request : Request Print Device)
  | deviceRefusal (request : Request Print Device) (now : Int)
  | takeGuard (request : Request Print Device) (now : Int)
  | sign (request : Request Print Device) (now : Int)
  | record (request : Request Print Device) (now issuedAt : Int)
  | giveBack (device : Device)

/-- The clock goes on, machines enrol, and requests arrive. -/
def Renewal.Calls : Renewal Print Device → Prop
  | .tick _ | .enroll .. | .begins _ => True
  | _ => False

section Functions

variable [Ord Print] [TransOrd Print] [DecidableEq Device]

def renewedSince (device : Device) (since : Int) (row : Row Device) : Bool :=
  row.deviceId = device && row.source = .renew && since < row.issuedAt

/-- `SELECT count(*) … WHERE device_id = … AND source = 'renew' AND issued_at > …`. -/
def renewalsSince (table : Table Print Device) (device : Device) (since : Int) : Nat :=
  table.toList.countP fun held => renewedSince device since held.2

/-- The renewals of a device within a window. -/
def renewalsWithin (table : Table Print Device) (device : Device) (since : Int) : Nat :=
  table.toList.countP fun held =>
    renewedSince device since held.2 && held.2.issuedAt ≤ since + renewalWindow

namespace Issuing

def new (clock : Int) : Issuing Print Device := ⟨clock, ∅, []⟩

def exec (s : Issuing Print Device) :
    Renewal Print Device → Option (Issuing Print Device × List (Renewal Print Device))
  | .tick later => some ({ s with clock := max s.clock later }, [])
  | .enroll print leaf =>
    some ({ s with table := addNew s.table print (rowFor leaf .enroll s.clock) }, [])
  | .begins request => some (s, [.deviceRefusal request s.clock])
  | .deviceRefusal request now =>
    if renewalsSince s.table request.device (now - renewalWindow) < renewalsPerDay then
      some (s, [.takeGuard request now])
    else some (s, [])
  | .takeGuard request now =>
    if request.device ∈ s.inFlight then some (s, [])
    else some ({ s with inFlight := request.device :: s.inFlight }, [.sign request now])
  | .sign request now => some (s, [.record request now s.clock])
  | .record request _ issuedAt =>
    let row := rowFor ⟨request.device, request.notBefore⟩ .renew issuedAt
    some (if request.stored then { s with table := addNew s.table request.print row } else s,
      [.giveBack request.device])
  | .giveBack device => some ({ s with inFlight := s.inFlight.erase device }, [])

end Issuing

abbrev IssuingPool (Print Device : Type) [Ord Print] :=
  Pool (Issuing Print Device) (Renewal Print Device)

/-- A request that takes the guard would still be within the allowance, were it counted again. -/
def StillCounted (w : IssuingPool Print Device) : Renewal Print Device → Prop
  | .takeGuard request now => request.device ∉ w.shared.inFlight →
    renewalsSince w.shared.table request.device (now - renewalWindow) < renewalsPerDay
  | _ => True

instance (w : IssuingPool Print Device) (task : Renewal Print Device) :
    Decidable (StillCounted w task) := by
  cases task <;> unfold StillCounted <;> infer_instance

abbrev IssuingReached (guard : IssuingPool Print Device → Renewal Print Device → Prop)
    (clock : Int) : IssuingPool Print Device → Prop :=
  PoolReached Renewal.Calls Issuing.exec guard (Issuing.new clock)

end Functions

/-! ## One more certificate -/

section Rows

variable [Ord Print] [TransOrd Print] [LawfulEqOrd Print] [DecidableEq Print]
  {table : Table Print Device} {print : Print} {row : Row Device}

/-- What a new row adds to a count. -/
theorem countP_addNew_le (table : Table Print Device) (print : Print) (row : Row Device)
    (p : Row Device → Bool) :
    (addNew table print row).toList.countP (fun held => p held.2)
      ≤ table.toList.countP (fun held => p held.2) + (if p row then 1 else 0) := by
  cases known : table[print]? with
  | some old =>
    rw [addNew_of_some known]
    exact Nat.le_add_right _ _
  | none =>
    rw [addNew_of_none known]
    have here : (table.insert print row)[print]? = some row := by
      rw [insert_self, if_pos rfl]
    rw [(toList_perm_of_getElem? here).countP_eq, erase_insert, erase_of_none known, countP_cons]

end Rows

/-! ## Counted renewals -/

section Invariant

variable [DecidableEq Device]

def Renewal.now : Renewal Print Device → Option Int
  | .deviceRefusal _ now | .takeGuard _ now | .sign _ now | .record _ now _ => some now
  | _ => none

/-- The device whose guard a request has. -/
def Renewal.guarded : Renewal Print Device → Option Device
  | .sign request _ | .record request _ _ => some request.device
  | .giveBack device => some device
  | _ => none

def Renewal.holds (device : Device) (task : Renewal Print Device) : Bool :=
  task.guarded = some device

/-- No request's clock is ahead of what it issues, or of the clock. -/
def Renewal.Dated (clock : Int) : Renewal Print Device → Prop
  | .record _ now issuedAt => now ≤ issuedAt
  | task => ∀ now ∈ task.now, now ≤ clock

variable [Ord Print] [TransOrd Print]

/-- The allowance of a device is kept. -/
def Issuing.Within (device : Device) (s : Issuing Print Device) : Prop :=
  ∀ since, renewalsWithin s.table device since ≤ renewalsPerDay

/-- What a request was counted with is still so. -/
def Issuing.Few (device : Device) (s : Issuing Print Device) (task : Renewal Print Device) : Prop :=
  s.Within device ∧
    ∀ now ∈ task.now, renewalsSince s.table device (now - renewalWindow) < renewalsPerDay

/-- One request of a device at a time has its guard, and what it was counted with is still so. -/
structure Allowed (s : Issuing Print Device) (tasks : List (Renewal Print Device)) : Prop where
  dated : ∀ task ∈ tasks, task.Dated s.clock
  flight : ∀ device, tasks.countP (Renewal.holds device) = s.inFlight.count device
  sole : ∀ device, Sole (Renewal.holds device) (Issuing.Within device) (Issuing.Few device) s tasks

variable {s s' : Issuing Print Device}
  {before after next : List (Renewal Print Device)} {task : Renewal Print Device}

omit [DecidableEq Device] [Ord Print] [TransOrd Print] in
theorem Renewal.Dated.mono {clock later : Int} (dated : task.Dated clock) (after : clock ≤ later) :
    task.Dated later := by
  cases task with
  | record => exact dated
  | _ => exact fun now read => Int.le_trans (dated now read) after

theorem Allowed.dated_run (allowed : Allowed s (before ++ task :: after))
    (clock : s.clock ≤ s'.clock) (dated : ∀ left ∈ next, left.Dated s'.clock) :
    ∀ other ∈ before ++ next ++ after, other.Dated s'.clock :=
  tasks_run allowed.dated (fun _ _ was => was.mono clock) dated

/-- A step keeps the guards in order where it takes and gives back as its tasks say. -/
theorem Allowed.flight_run (allowed : Allowed s (before ++ task :: after)) (device : Device)
    (step : next.countP (Renewal.holds device) + s.inFlight.count device
      = (if task.holds device then 1 else 0) + s'.inFlight.count device) :
    (before ++ next ++ after).countP (Renewal.holds device) = s'.inFlight.count device := by
  have was := allowed.flight device
  simp only [countP_append, countP_cons] at was ⊢
  omega

section

variable (allowed : Allowed s (before ++ task :: after)) (table : s'.table = s.table)
  (clock : s.clock ≤ s'.clock)
include allowed table clock

/-- A step that leaves the table and the guards. -/
theorem Allowed.idle (inFlight : s'.inFlight = s.inFlight) (few : next.length ≤ 1)
    (dated : ∀ left ∈ next, left.Dated s'.clock)
    (holds : ∀ device, next.countP (Renewal.holds device) = if task.holds device then 1 else 0)
    (left : ∀ other ∈ next, other.guarded.isSome → ∀ now ∈ other.now, now ∈ task.now) :
    Allowed s' (before ++ next ++ after) := by
  refine ⟨allowed.dated_run clock dated, fun device => allowed.flight_run device ?_, fun device =>
    ?_⟩
  · rw [inFlight, holds device]
  have within : s.Within device → s'.Within device := by
    unfold Issuing.Within
    rw [table]
    exact id
  cases inner : task.holds device with
  | true =>
    obtain ⟨was, few'⟩ := (allowed.sole device).within task (by simp) inner
    refine (allowed.sole device).run (.inl inner) few (fun _ => within was) fun other here holds =>
      ⟨within was, fun now read => ?_⟩
    rw [table]
    exact few' now (left other here (by simp [of_decide_eq_true holds]) now read)
  | false =>
    refine (allowed.sole device).pass inner (by simp [holds, inner]) within fun other _ _ was =>
      ⟨within was.1, ?_⟩
    rw [table]
    exact was.2

/-- The end of a call that leaves the table and has no guard. -/
theorem Allowed.over (inFlight : s'.inFlight = s.inFlight) (outside : task.guarded = none) :
    Allowed s' (before ++ [] ++ after) :=
  allowed.idle table clock inFlight (Nat.zero_le _) (forall_mem_nil _)
    (fun _ => by simp [Renewal.holds, outside]) (forall_mem_nil _)

end

/-- A request that nobody of its device is ahead of takes the guard within the allowance. -/
theorem Allowed.takeGuard {request : Request Print Device} {now : Int}
    (allowed : Allowed s (before ++ .takeGuard request now :: after))
    (free : request.device ∉ s.inFlight)
    (few : renewalsSince s.table request.device (now - renewalWindow) < renewalsPerDay) :
    Allowed { s with inFlight := request.device :: s.inFlight }
      (before ++ [.sign request now] ++ after) := by
  have dated := allowed.dated (.takeGuard request now) (by simp)
  refine ⟨allowed.dated_run le_rfl (forall_mem_singleton.mpr dated), fun device => ?_,
    fun device => ?_⟩
  · refine allowed.flight_run device ?_
    simp [Renewal.holds, Renewal.guarded, count_cons, Nat.add_comm]
  · by_cases same : request.device = device
    · subst same
      have nobody : (before ++ .takeGuard request now :: after).countP
          (Renewal.holds request.device) = 0 := by
        rw [allowed.flight, count_eq_zero]
        exact free
      have within := (allowed.sole request.device).free nobody
      refine (allowed.sole request.device).run (.inr nobody) le_rfl (fun _ => within)
        (forall_mem_singleton.mpr fun _ => ⟨within, ?_⟩)
      rintro _ ⟨⟩
      exact few
    · exact (allowed.sole device).pass rfl (by simp [Renewal.holds, Renewal.guarded, same]) id
        fun _ _ _ => id

/-- The guard given back is the one this request had. -/
theorem Allowed.giveBack {device : Device}
    (allowed : Allowed s (before ++ .giveBack device :: after)) :
    Allowed { s with inFlight := s.inFlight.erase device } (before ++ [] ++ after) := by
  refine ⟨allowed.dated_run le_rfl (forall_mem_nil _), fun other => ?_, fun other => ?_⟩
  · refine allowed.flight_run other ?_
    have held := allowed.flight other
    simp only [countP_append, countP_cons, countP_nil, Renewal.holds, Renewal.guarded] at held ⊢
    by_cases same : device = other
    · subst same
      simp only [decide_true, if_true, count_erase_self] at held ⊢
      omega
    · rw [count_erase_of_ne (Ne.symm same)]
      simp [same]
  · by_cases inner : (Renewal.giveBack device : Renewal Print Device).holds other
    · have within := ((allowed.sole other).within _ (by simp) inner).1
      exact (allowed.sole other).run (.inl inner) (Nat.zero_le _) (fun _ => within)
        (forall_mem_nil _)
    · exact (allowed.sole other).pass (by simpa using inner) rfl id fun _ _ _ => id

end Invariant

section Steps

variable [Ord Print] [TransOrd Print] [LawfulEqOrd Print] [DecidableEq Print] [DecidableEq Device]
  {s s' : Issuing Print Device} {before after next : List (Renewal Print Device)}
  {task : Renewal Print Device} {row : Row Device} {device : Device} {print : Print}
  {table : Table Print Device}

/-- A window with one more renewal holds no more than were counted, and this one. -/
theorem renewalsWithin_addNew_le (now : Int)
    (within : ∀ since, renewalsWithin table device since ≤ renewalsPerDay)
    (counted : row.deviceId = device → row.source = .renew → now ≤ row.issuedAt ∧
      renewalsSince table device (now - renewalWindow) < renewalsPerDay) (since : Int) :
    renewalsWithin (addNew table print row) device since ≤ renewalsPerDay := by
  have adds := countP_addNew_le table print row fun row =>
    renewedSince device since row && row.issuedAt ≤ since + renewalWindow
  by_cases inside : (renewedSince device since row && row.issuedAt ≤ since + renewalWindow)
  · rw [if_pos inside] at adds
    simp only [renewedSince, Bool.and_eq_true, decide_eq_true_iff] at inside
    obtain ⟨⟨⟨same, renewal⟩, -⟩, early⟩ := inside
    obtain ⟨after, few⟩ := counted same renewal
    -- The window starts no earlier than the one that was counted.
    have included : renewalsWithin table device since
        ≤ renewalsSince table device (now - renewalWindow) := by
      refine countP_mono_left fun held _ holds => ?_
      simp only [renewedSince, Bool.and_eq_true, decide_eq_true_iff] at holds ⊢
      exact ⟨holds.1.1, by omega⟩
    exact adds.trans (by unfold renewalsWithin at included; omega)
  · rw [if_neg inside] at adds
    exact adds.trans (within since)

/-- A row that is no renewal of a device keeps what its requests rest on. -/
theorem Allowed.add (allowed : Allowed s (before ++ task :: after))
    (outside : task.holds device = false) (none : next.countP (Renewal.holds device) = 0)
    (other : row.deviceId ≠ device ∨ row.source ≠ .renew) :
    Sole (Renewal.holds device) (Issuing.Within device) (Issuing.Few device)
      { s with table := addNew s.table print row } (before ++ next ++ after) := by
  have within (was : s.Within device) :
      ({ s with table := addNew s.table print row } : Issuing ..).Within device :=
    renewalsWithin_addNew_le 0 was fun same renewal =>
      (other.elim (absurd same) (absurd renewal) : False).elim
  refine (allowed.sole device).pass outside none within fun _ _ _ was =>
    ⟨within was.1, fun now read => ?_⟩
  have adds := countP_addNew_le s.table print row (renewedSince device (now - renewalWindow))
  have none : renewedSince device (now - renewalWindow) row = false := by
    rcases other with different | different <;> simp [renewedSince, different]
  rw [none] at adds
  exact adds.trans_lt (was.2 now read)

theorem exec_allowed (ran : s.exec task = some (s', next))
    (guarded : StillCounted ⟨s, before ++ task :: after⟩ task)
    (allowed : Allowed s (before ++ task :: after)) : Allowed s' (before ++ next ++ after) := by
  have dated := allowed.dated task (by simp)
  cases task with
  | tick later =>
    cases ran
    exact allowed.over rfl (le_max_left _ _) rfl rfl
  | enroll print leaf =>
    cases ran
    refine ⟨allowed.dated_run le_rfl (forall_mem_nil _), fun device =>
      allowed.flight_run device rfl, fun device => ?_⟩
    exact allowed.add rfl rfl (.inr (by simp [rowFor]))
  | begins request =>
    cases ran
    refine allowed.idle rfl le_rfl rfl le_rfl (forall_mem_singleton.mpr ?_) (fun _ => rfl)
      (forall_mem_singleton.mpr nofun)
    rintro _ ⟨⟩
    exact le_rfl
  | deviceRefusal request now =>
    rw [Issuing.exec] at ran
    split at ran
    · cases ran
      exact allowed.idle rfl le_rfl rfl le_rfl (forall_mem_singleton.mpr dated) (fun _ => rfl)
        (forall_mem_singleton.mpr nofun)
    · cases ran
      exact allowed.over rfl le_rfl rfl rfl
  | takeGuard request now =>
    rw [Issuing.exec] at ran
    split at ran
    · cases ran
      exact allowed.over rfl le_rfl rfl rfl
    next free =>
      cases ran
      exact allowed.takeGuard free (guarded free)
  | sign request now =>
    cases ran
    exact allowed.idle rfl le_rfl rfl le_rfl (forall_mem_singleton.mpr (dated now rfl))
      (fun _ => countP_singleton ..) (forall_mem_singleton.mpr fun _ _ read => read)
  | record request now issuedAt =>
    have done : (Renewal.giveBack request.device : Renewal Print Device).Dated s.clock := nofun
    cases ran
    cases stored : request.stored with
    | false =>
      exact allowed.idle rfl le_rfl rfl le_rfl (forall_mem_singleton.mpr done)
        (fun _ => countP_singleton ..) (forall_mem_singleton.mpr nofun)
    | true =>
      refine ⟨allowed.dated_run le_rfl (forall_mem_singleton.mpr done), fun device => ?_,
        fun device => ?_⟩
      · exact allowed.flight_run device (congrArg (· + _) (countP_singleton ..))
      by_cases same : request.device = device
      · have inner : (Renewal.record request now issuedAt : Renewal Print Device).holds device :=
          decide_eq_true (congrArg some same)
        obtain ⟨within, few⟩ := (allowed.sole device).within _ (by simp) inner
        have kept : ∀ since, renewalsWithin (addNew s.table request.print
            (rowFor ⟨request.device, request.notBefore⟩ .renew issuedAt)) device since
              ≤ renewalsPerDay :=
          renewalsWithin_addNew_le now within fun _ _ => ⟨dated, few now rfl⟩
        exact (allowed.sole device).run (.inl inner) le_rfl (fun _ => kept)
          (forall_mem_singleton.mpr fun _ => ⟨kept, nofun⟩)
      · have outside : some request.device ≠ some device := fun eq => same (Option.some.inj eq)
        exact allowed.add (decide_eq_false outside) (by simp [Renewal.holds, Renewal.guarded, same])
          (.inl same)
  | giveBack device =>
    cases ran
    exact allowed.giveBack

/-- In every run where a request that takes the guard is still within the allowance it was
counted with, no more than the allowance is issued for a device in any window. -/
theorem renewals_within_allowance (clock : Int) (w : IssuingPool Print Device)
    (reached : IssuingReached StillCounted clock w) (device : Device) (since : Int) :
    renewalsWithin w.shared.table device since ≤ renewalsPerDay := by
  have allowed : Allowed w.shared w.tasks := by
    refine PoolReached.invariant (I := Allowed) ⟨forall_mem_nil _, fun _ => rfl, fun device => ?_⟩
      ?_ ?_ reached
    · exact ⟨Nat.zero_le _, fun _ since => Nat.zero_le _, forall_mem_nil _⟩
    · intro s tasks task call allowed
      have outside device : task.holds device = false := by
        cases task <;> cases call <;> rfl
      refine ⟨tasks_begin allowed.dated ?_, fun device => ?_, fun device =>
        (allowed.sole device).begin (outside device)⟩
      · cases task <;> cases call <;> nofun
      · rw [countP_append, allowed.flight device, countP_singleton, outside device]
        rfl
    · exact fun s s' before after next task ran guarded allowed => exec_allowed ran guarded allowed
  exact (allowed.sole device).holds (fun within => within since) fun _ _ was => was.1 since

end Steps

instance Renewal.decidableCalls (task : Renewal Print Device) : Decidable task.Calls := by
  unfold Renewal.Calls
  split <;> infer_instance

def asks (print : Nat) : Choice (Renewal Nat Nat) := .begin (.begins ⟨0, print, 0, true⟩)

def inTurn (prints : List Nat) : List (Choice (Renewal Nat Nat)) :=
  prints.flatMap fun print => asks print :: List.replicate 6 (.run 0)

/-- Two requests, both counted before one is recorded. -/
def atOnce (first second : Nat) : List (Choice (Renewal Nat Nat)) :=
  asks first :: asks second :: [0, 1, 0, 1, 0, 0, 0, 0, 0, 0, 0, 0].map .run

/-- Two requests at once, of which one finds the guard taken, and two in turn use the allowance
up. -/
theorem renewals_within_allowance_in_turn :
    ∃ w : IssuingPool Nat Nat, w.shared.table.size = 3 ∧
      renewalsWithin w.shared.table 0 (-1) ≤ renewalsPerDay := by
  obtain ⟨w, reached, size⟩ : ∃ w : IssuingPool Nat Nat, IssuingReached StillCounted 0 w ∧
      w.shared.table.size = 3 :=
    exists_reached_of_follow (inTurn [0, 1] ++ asks 2 :: asks 3 ::
      [0, 1, 0, 1, 0, 1, 0, 0, 0].map .run) (by decide) (by decide +kernel)
  exact ⟨w, size, renewals_within_allowance 0 w reached 0 (-1)⟩

/-- Two renewals are on the table; two connections of the machine count them, and both issue. -/
theorem renewals_past_allowance :
    ∃ w : IssuingPool Nat Nat, IssuingReached (fun _ _ => True) 0 w ∧ w.tasks = [] ∧
      renewalsWithin w.shared.table 0 (-1) = 4 ∧ renewalsPerDay = 3 := by
  exact exists_reached_of_follow (inTurn [0, 1] ++ atOnce 2 3) (by decide) (by decide +kernel)

end OpenGate.Certs
