import OpenGate.Lib.Tasks

/-!
# The uses of an enrolment token

`Enroll` of `api/handlers_enrollment.go` on one token: the token is read and checked, the
certificate issued, and the use counted, each on its own.  The counts bound the certificates
where no request reads a last use that another under way will take (`issued_le_maxUses`).
-/

namespace OpenGate.Auth

open OpenGate.Lib

structure EnrollmentToken where
  maxUses : Int
  useCount : Int
  expiresAt : Int
  deriving DecidableEq

/-- What `issueEnrolment` makes of a certificate request. -/
inductive Issuance where
  /-- The request is no certificate request, or not one to be signed. -/
  | invalid
  | failed
  | signed
  deriving DecidableEq

/-- A request on the token, with how its statements fare. -/
structure EnrollRequest where
  reads : Bool
  /-- None for the install script's probe, which has an empty `csr_pem`. -/
  csr : Option Issuance
  counts : Bool
  deriving DecidableEq

inductive EnrollResponse where
  | ok (certified : Bool)
  | refused (status : Nat) (error : String)
  | failed (error : String)
  deriving DecidableEq

/-- The token's row, the clock, the certificates issued on the token and the answers. -/
structure Enrolling where
  token : EnrollmentToken
  now : Int
  issued : Nat
  answers : List EnrollResponse
  deriving DecidableEq

/-- What a request has still to do; `tick` is the clock. -/
inductive Enrol where
  | tick
  | getByToken (request : EnrollRequest)
  | validate (request : EnrollRequest) (et : EnrollmentToken)
  | issueEnrolment (request : EnrollRequest) (csr : Issuance)
  | incrementUseCount (request : EnrollRequest)
  deriving DecidableEq

def Enrol.Calls : Enrol → Prop
  | .tick | .getByToken _ => True
  | _ => False

instance Enrol.decidableCalls (task : Enrol) : Decidable task.Calls := by
  unfold Enrol.Calls
  split <;> infer_instance

namespace Enrolling

variable {s s' : Enrolling} {task : Enrol} {before after next : List Enrol}

def answer (s : Enrolling) (response : EnrollResponse) : Enrolling × List Enrol :=
  ({ s with answers := s.answers ++ [response] }, [])

def exec (s : Enrolling) : Enrol → Option (Enrolling × List Enrol)
  | .tick => some ({ s with now := s.now + 1 }, [])
  | .getByToken request =>
    some (if request.reads then (s, [.validate request s.token])
      else s.answer (.failed "get enrollment token"))
  | .validate request et =>
    some (if et.expiresAt < s.now then s.answer (.refused 410 "enrollment token expired")
    else if 0 < et.maxUses ∧ et.maxUses ≤ et.useCount then
      s.answer (.refused 410 "enrollment token exhausted")
    else match request.csr with
      | none => s.answer (.ok false)
      | some csr => (s, [.issueEnrolment request csr]))
  | .issueEnrolment request csr => some (match csr with
    | .invalid => s.answer (.refused 400 "invalid enrollment request")
    | .failed => s.answer (.failed "issue enrollment certificate")
    | .signed => ({ s with issued := s.issued + 1 }, [.incrementUseCount request]))
  | .incrementUseCount request =>
    some (if request.counts then
      { s with token := { s.token with useCount := s.token.useCount + 1 } }.answer (.ok true)
    else s.answer (.failed "increment token use count"))

def new (maxUses expiresAt now : Int) : Enrolling := ⟨⟨maxUses, 0, expiresAt⟩, now, 0, []⟩

/-- The requests to be issued a certificate on what they have read of the token. -/
def waits : Enrol → Nat
  | .validate request et =>
    if request.csr = some .signed ∧ ¬ (0 < et.maxUses ∧ et.maxUses ≤ et.useCount) then 1 else 0
  | .issueEnrolment _ csr => if csr = .signed then 1 else 0
  | _ => 0

/-- The requests that have been issued one and have not counted their use. -/
def uncounted : Enrol → Nat
  | .incrementUseCount _ => 1
  | _ => 0

/-- A request that will be issued a certificate on what it reads finds a use left for it beside
those of the requests under way, and every count succeeds. -/
def UseLeft (pool : Pool Enrolling Enrol) : Enrol → Prop
  | .getByToken request =>
    let ⟨s, tasks⟩ := pool
    waits (.validate request s.token) = 1 →
      s.token.useCount + (owed waits tasks + owed uncounted tasks : Nat) < s.token.maxUses
  | .incrementUseCount request => request.counts = true
  | _ => True

instance decidableUseLeft (pool : Pool Enrolling Enrol) (task : Enrol) :
    Decidable (UseLeft pool task) := by
  unfold UseLeft
  split <;> infer_instance

variable (maxUses : Int)

/-- Every certificate is counted or to be counted, and there is a use for each that waits. -/
structure Held (s : Enrolling) (tasks : List Enrol) : Prop where
  uses : s.token.maxUses = maxUses
  counted : s.issued = s.token.useCount + owed uncounted tasks
  room : s.issued + owed waits tasks ≤ maxUses

variable {maxUses}

/-- A step that issues and counts nothing, and leaves no more waiting than before. -/
theorem Held.idle (held : Held maxUses s (before ++ task :: after)) (token : s'.token = s.token)
    (issued : s'.issued = s.issued) (counts : owed uncounted next = uncounted task)
    (fewer : owed waits next ≤ waits task) : Held maxUses s' (before ++ next ++ after) := by
  obtain ⟨uses, counted, room⟩ := held
  simp only [owed_append, owed_cons] at counted room
  constructor <;> simp only [owed_append, token, issued] <;> omega

theorem exec_held (ran : s.exec task = some (s', next))
    (guarded : UseLeft ⟨s, before ++ task :: after⟩ task)
    (held : Held maxUses s (before ++ task :: after)) :
    Held maxUses s' (before ++ next ++ after) := by
  cases task with
  | tick =>
    cases ran
    exact held.idle rfl rfl rfl (Nat.zero_le _)
  | getByToken request =>
    rw [exec] at ran
    split at ran
    · cases ran
      obtain ⟨uses, counted, room⟩ := held
      -- only the reading of a request that will be issued a certificate takes a use
      have left : waits (.validate request s.token) = 1 → _ := guarded
      have one : waits (.validate request s.token) ≤ 1 := by
        simp only [waits]
        split <;> omega
      have none : waits (.getByToken request) = 0 := rfl
      simp only [owed_append, owed_cons, none, uncounted] at counted room left
      refine ⟨uses, ?_, ?_⟩ <;> simp only [owed_append, owed_cons, owed_nil, uncounted] <;> omega
    · cases ran
      exact held.idle rfl rfl rfl (Nat.zero_le _)
  | validate request et =>
    rw [exec] at ran
    split at ran
    · cases ran
      exact held.idle rfl rfl rfl (Nat.zero_le _)
    · split at ran
      · cases ran
        exact held.idle rfl rfl rfl (Nat.zero_le _)
      next fresh =>
        split at ran
        · cases ran
          exact held.idle rfl rfl rfl (Nat.zero_le _)
        next csr asked =>
          cases ran
          refine held.idle rfl rfl rfl ?_
          simp [waits, asked, fresh]
  | issueEnrolment request csr =>
    rcases csr with _ | _ | _
    · cases ran
      exact held.idle rfl rfl rfl (Nat.zero_le _)
    · cases ran
      exact held.idle rfl rfl rfl (Nat.zero_le _)
    · cases ran
      obtain ⟨uses, counted, room⟩ := held
      simp only [owed_append, owed_cons, waits, if_true, uncounted] at counted room
      constructor <;> simp [waits, uncounted] <;> omega
  | incrementUseCount request =>
    have counts : request.counts := guarded
    rw [exec, if_pos counts] at ran
    cases ran
    obtain ⟨uses, counted, room⟩ := held
    simp only [owed_append, owed_cons, waits, uncounted] at counted room
    constructor <;> simp <;> omega

end Enrolling

abbrev EnrolReached (guard : Pool Enrolling Enrol → Enrol → Prop) (maxUses expiresAt now : Int)
    (pool : Pool Enrolling Enrol) : Prop :=
  PoolReached Enrol.Calls Enrolling.exec guard (.new maxUses expiresAt now) pool

/-- In every run where no request reads the last use of a token while another is to be issued a
certificate on it or to count one, and no count fails, no more certificates are issued on the
token than it has uses. -/
theorem issued_le_maxUses {maxUses expiresAt now : Int} {pool : Pool Enrolling Enrol}
    (positive : 0 < maxUses) (reached : EnrolReached Enrolling.UseLeft maxUses expiresAt now pool) :
    pool.shared.issued ≤ maxUses := by
  have held : Enrolling.Held maxUses pool.shared pool.tasks := by
    refine PoolReached.invariant (I := Enrolling.Held maxUses) ⟨rfl, rfl, ?_⟩ ?_ ?_ reached
    · simpa [Enrolling.new] using positive.le
    · intro s tasks task call held
      cases task with
      | tick | getByToken =>
        exact ⟨held.uses, by simpa [Enrolling.uncounted] using held.counted,
          by simpa [Enrolling.waits] using held.room⟩
      | _ => cases call
    · exact fun _ _ _ _ _ _ ran guarded held => Enrolling.exec_held ran guarded held
  have := held.room
  omega

def enrols : Choice Enrol := .begin (.getByToken ⟨true, some .signed, true⟩)

/-- A token of two uses, read by two requests at once and then refused to a third. -/
theorem issued_le_maxUses_at_once : ∃ pool : Pool Enrolling Enrol,
    pool.shared.answers = [.ok true, .ok true, .refused 410 "enrollment token exhausted"] ∧
      pool.shared.issued ≤ (2 : Int) := by
  have run : ∃ pool, EnrolReached Enrolling.UseLeft 2 10 0 pool ∧
      pool.shared.answers = [.ok true, .ok true, .refused 410 "enrollment token exhausted"] :=
    exists_reached_of_follow
      ([enrols, enrols] ++ [0, 1, 0, 1, 0, 1, 0, 0].map .run ++ enrols :: [0, 0].map .run)
      (by decide) (by decide +kernel)
  obtain ⟨pool, reached, answers⟩ := run
  exact ⟨pool, answers, issued_le_maxUses (by decide) reached⟩

/-- Two machines whose requests read a token of one use before either has counted: both get a
certificate. -/
theorem issued_past_maxUses : ∃ pool : Pool Enrolling Enrol,
    EnrolReached (fun _ _ => True) 1 10 0 pool ∧ pool.tasks = [] ∧
      pool.shared.answers = [.ok true, .ok true] ∧ ¬ pool.shared.issued ≤ (1 : Int) := by
  exact exists_reached_of_follow ([enrols, enrols] ++ [0, 1, 0, 0, 0, 0, 0, 0].map .run) (by decide)
    (by decide +kernel)

end OpenGate.Auth
