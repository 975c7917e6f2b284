import OpenGate.Lib.Events

/-!
# The rollback of an agent's update

`apply_update` and `rollback` of `mesh-agent-core/src/update.rs` with the watchdog and the
acknowledgement that settles it.  A failed backup or sentinel is only warned of, and a start that
counts too many rollbacks gives up; without these, the backup of an unacknowledged binary is the one
acknowledged last, and the next start's watchdog restores it (`unacked_restorable`).
-/

namespace OpenGate.Update.Rollback

open OpenGate.Lib

def maxRollbacks : Nat := 2

/-- Files and process of an agent, and the binaries the server has acknowledged, the last first. -/
structure Agent where
  installed : Nat
  backup : Option Nat := none
  sentinel : Bool := false
  rollbacks : Nat := 0
  running : Option Nat := none
  pending : Bool := false
  acked : List Nat

/-- How the file operations of a call go, in order: the call is cut where they end. -/
abbrev Files := List Bool

variable {s s' : Agent} {files : Files}

def Agent.crashed (s : Agent) : Agent := { s with running := none }

/-- `clear_update_pending` and `reset_rollback_count`. -/
def Agent.settle (s : Agent) : Files → Agent
  | [] => s.crashed
  | [cleared] => { s with sentinel := s.sentinel && !cleared }.crashed
  | cleared :: reset :: _ =>
    { s with sentinel := s.sentinel && !cleared, rollbacks := if reset then 0 else s.rollbacks }

/-- A failed backup is not the end of the update. -/
def Agent.replace (s : Agent) (new : Nat) : Files → Agent
  | [] => s.crashed
  | copied :: files =>
    let s := if copied then { s with backup := some s.installed } else s
    match files with
    | [] => s.crashed
    | false :: _ => s
    | [true] => { s with installed := new }.crashed
    | true :: marked :: _ => { s with installed := new, sentinel := s.sentinel || marked }

/-- `apply_update` of a verified binary: one that is installed already is skipped. -/
def Agent.applyUpdate (s : Agent) (new : Nat) (files : Files) : Agent :=
  if new = s.installed then s else s.replace new files

/-- A process starts: `start_update_watchdog` arms the watchdog of a pending update, or gives
the rollback up after `MAX_ROLLBACKS`. -/
def Agent.start (s : Agent) (files : Files) : Agent :=
  let s := { s with running := some s.installed, pending := false }
  if !s.sentinel then s
  else if s.rollbacks < maxRollbacks then { s with pending := true }
  else s.settle files

/-- The watchdog's `increment_rollback_count` and `rollback`, after which the process exits. -/
def Agent.expire (s : Agent) : Files → Agent
  | [] => s.crashed
  | counted :: files =>
    let s := { s with rollbacks := if counted then s.rollbacks + 1 else s.rollbacks }
    match s.backup, files with
    | none, _ | some _, false :: _ => s
    | some _, [] => s.crashed
    | some prev, true :: _ => { s with installed := prev, backup := none }.crashed

/-- `on_acknowledged` of the running binary settles the update that awaits it. -/
def Agent.acknowledge (s : Agent) (files : Files) (binary : Nat) : Agent :=
  let s := { s with acked := binary :: s.acked }
  if s.pending then { s with pending := false }.settle files else s

inductive Call where
  | applyUpdate (new : Nat) (files : Files)
  | start (files : Files)
  | expire (files : Files)
  | acknowledge (files : Files)

def Agent.act (s : Agent) : Call → Option Agent
  | .start files => some (s.start files)
  | .applyUpdate new files => if s.running.isSome then some (s.applyUpdate new files) else none
  | .expire files => if s.running.isSome ∧ s.pending then some (s.expire files) else none
  | .acknowledge files => s.running.map (s.acknowledge files)

abbrev Reached (guard : Agent → Call → Bool) (binary : Nat) : Agent → Prop :=
  Runs Agent.act (guard · ·) { installed := binary, acked := [binary] }

/-- The backup succeeds, and so does the sentinel once the binary is renamed. -/
def Files.whole : Files → Bool
  | [] | [true] | true :: false :: _ | true :: true :: true :: _ => true
  | _ => false

/-- An update is whole and begins on the binary acknowledged last with none pending; a start
that gives up finds an acknowledged binary. -/
def careful (s : Agent) : Call → Bool
  | .applyUpdate _ files =>
    s.running = some s.installed ∧ s.acked.head? = some s.installed ∧ s.pending = false ∧
      files.whole
  | .start _ => s.rollbacks < maxRollbacks ∨ s.installed ∈ s.acked
  | _ => true

/-- An unacknowledged binary has its sentinel, and the one acknowledged last as its backup. -/
abbrev Restorable (s : Agent) : Prop :=
  s.installed ∉ s.acked → s.sentinel = true ∧ s.backup.isSome ∧ s.backup = s.acked.head?

/-- A start that may go on arms the watchdog, and its expiry installs the binary acknowledged
last if the rename succeeds, whether or not the rollback is counted. -/
def Restored (s : Agent) : Prop :=
  ∀ files, careful s (.start files) → ∃ up, s.act (.start files) = some up ∧ up.pending = true ∧
    ∀ counted later, ∃ down, up.act (.expire (counted :: true :: later)) = some down ∧
      some down.installed = s.acked.head?

structure Kept (s : Agent) : Prop where
  restorable : Restorable s
  known : ∀ prev ∈ s.backup, prev ∈ s.acked
  -- The process of the older binary lives on for a while after an update.
  runs : ∀ binary ∈ s.running, binary = s.installed ∨ s.backup = some binary ∧ s.pending = false

theorem Kept.crashed (kept : Kept s) : Kept s.crashed := { kept with runs := nofun }

theorem Kept.settle (kept : Kept s) (acked : s.installed ∈ s.acked) : Kept (s.settle files) := by
  rcases files with _ | ⟨cleared, _ | ⟨reset, files⟩⟩
  · exact kept.crashed
  · exact ⟨absurd acked, kept.known, nofun⟩
  · exact ⟨absurd acked, kept.known, kept.runs⟩

theorem Kept.replace {new : Nat} (kept : Kept s) (running : s.running = some s.installed)
    (last : s.acked.head? = some s.installed) (idle : s.pending = false) (whole : files.whole) :
    Kept (s.replace new files) := by
  have acked : s.installed ∈ s.acked := List.mem_of_mem_head? last
  have known : ∀ prev ∈ some s.installed, prev ∈ s.acked := fun prev here =>
    Option.some.inj here ▸ acked
  have copied : Kept { s with backup := some s.installed } :=
    ⟨absurd acked, known, fun binary here => .inl (Option.some.inj (running ▸ here)).symm⟩
  match files, whole with
  | [], _ => exact kept.crashed
  | [true], _ => exact copied.crashed
  | true :: false :: _, _ => exact copied
  | true :: true :: true :: _, _ =>
    refine ⟨fun _ => ⟨Bool.or_true _, rfl, last.symm⟩, known, fun binary here => .inr ⟨?_, idle⟩⟩
    exact running.symm.trans here

theorem Kept.expire (kept : Kept s) : Kept (s.expire files) := by
  rcases files with _ | ⟨counted, files⟩
  · exact kept.crashed
  · have same : Kept { s with rollbacks := if counted then s.rollbacks + 1 else s.rollbacks } :=
      ⟨kept.restorable, kept.known, kept.runs⟩
    unfold Agent.expire
    dsimp only
    split
    · exact same
    · exact same
    · exact same.crashed
    next prev _ backup => exact ⟨absurd (kept.known prev backup), nofun, nofun⟩

theorem Kept.acknowledge {binary : Nat} (kept : Kept s) (running : s.running = some binary) :
    Kept (s.acknowledge files binary) := by
  have known : ∀ prev ∈ s.backup, prev ∈ binary :: s.acked := fun prev here =>
    List.mem_cons_of_mem _ (kept.known prev here)
  unfold Agent.acknowledge
  dsimp only
  rcases kept.runs binary running with rfl | ⟨backup, idle⟩
  · have mine : s.installed ∈ s.installed :: s.acked := List.mem_cons_self
    have runs : ∀ other ∈ s.running, other = s.installed := fun other here =>
      (Option.some.inj (running.symm.trans here)).symm
    split
    · exact Kept.settle ⟨absurd mine, known, fun other here => .inl (runs other here)⟩ mine
    · exact ⟨absurd mine, known, kept.runs⟩
  · rw [if_neg (ne_true_of_eq_false idle)]
    refine ⟨fun unacked => ?_, known, kept.runs⟩
    have older := kept.restorable fun old => unacked (List.mem_cons_of_mem _ old)
    exact ⟨older.1, older.2.1, backup⟩

theorem Kept.start (kept : Kept s) (allowed : s.rollbacks < maxRollbacks ∨ s.installed ∈ s.acked) :
    Kept (s.start files) := by
  have started (pending : Bool) : Kept { s with running := some s.installed, pending } :=
    ⟨kept.restorable, kept.known, fun binary here => .inl (Option.some.inj here).symm⟩
  unfold Agent.start
  dsimp only
  split
  · exact started false
  · split
    · exact started true
    next giveUp => exact (started false).settle (allowed.resolve_left giveUp)

theorem act_kept {call : Call} (allowed : careful s call) (acts : s.act call = some s')
    (kept : Kept s) : Kept s' := by
  cases call with
  | applyUpdate new files =>
    obtain ⟨running, last, idle, whole⟩ := of_decide_eq_true allowed
    obtain ⟨_, ⟨⟩⟩ := Option.ite_none_right_eq_some.mp acts
    unfold Agent.applyUpdate
    split
    · exact kept
    · exact kept.replace running last idle whole
  | start files =>
    cases acts
    exact kept.start (of_decide_eq_true allowed)
  | expire files =>
    obtain ⟨_, ⟨⟩⟩ := Option.ite_none_right_eq_some.mp acts
    exact kept.expire
  | acknowledge files =>
    obtain ⟨binary, running, rfl⟩ := Option.map_eq_some_iff.mp acts
    exact kept.acknowledge running

theorem Restorable.restored (restorable : Restorable s) (unacked : s.installed ∉ s.acked) :
    Restored s := by
  intro files allowed
  obtain ⟨sentinel, copied, last⟩ := restorable unacked
  obtain ⟨prev, backup⟩ := Option.isSome_iff_exists.mp copied
  have few : s.rollbacks < maxRollbacks := (of_decide_eq_true allowed).resolve_right unacked
  have up : s.start files = { s with running := some s.installed, pending := true } := by
    simp only [Agent.start, sentinel, few, Bool.not_true, Bool.false_eq_true, if_true, if_false]
  refine ⟨_, congrArg some up, rfl, fun counted later => ?_⟩
  refine ⟨_, (by rw [Agent.act, if_pos ⟨rfl, rfl⟩]), ?_⟩
  cases s
  cases backup
  exact last

/-- In every run of careful calls, the backup of a binary that is not acknowledged is the one
acknowledged last, the sentinel is there, and the next start's watchdog restores the backup. -/
theorem unacked_restorable {binary : Nat} (reached : Reached careful binary s) :
    Restorable s ∧ (s.installed ∉ s.acked → Restored s) := by
  have kept : Kept s :=
    reached.invariant ⟨by simp [Restorable], by simp, by simp⟩ fun _ _ _ => act_kept
  exact ⟨kept.restorable, kept.restorable.restored⟩

theorem unacked_restorable_updated :
    ∃ s, s.installed = 2 ∧ s.acked = [1] ∧ Restorable s ∧ Restored s := by
  have run : ∃ s, Reached careful 1 s ∧ s.installed = 2 ∧ s.acked = [1] :=
    exists_run_of_follow [.start [], .applyUpdate 2 [true, true, true]] (by decide)
  obtain ⟨s, reached, installed, acked⟩ := run
  have restorable := unacked_restorable reached
  exact ⟨s, installed, acked, restorable.1, restorable.2 (by simp [installed, acked])⟩

/-- The backup fails, and the update goes on. -/
theorem unacked_without_backup :
    ∃ s, Reached (fun _ _ => true) 1 s ∧ s.installed = 2 ∧ s.backup = none ∧ ¬ Restorable s :=
  exists_run_of_follow [.start [], .applyUpdate 2 [false, true, true]] (by decide)

end OpenGate.Update.Rollback
