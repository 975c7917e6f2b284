import OpenGate.Lib.Links
import OpenGate.Lib.Tasks

/-!
# Maintenance pushed to an agent

`api/handlers_maintenance.go`, which stores the state an operator asks for and then pushes it over
the connection the agent server holds, and `pushMaintenanceState` of `agentapi/conn_maintenance.go`,
which a registration runs: it reads the stored state and pushes only that a device is in
maintenance, because an agent starts every connection Active (`open` of the agent's
`control_loop.rs`).  No call reads or writes what belongs to another device, so the model is of one.

Store and push are two steps, and so are read and push.  `maintenance_converges` is the result for
runs where no state is stored while a call is between its store or read and its push, and where the
registrations can read the row.
-/

namespace OpenGate.Agents.MaintenancePush

open OpenGate.Lib Links List

/-- The device's row with its maintenance state, if it has one, and the links to its agent. -/
structure Device where
  row : Option Bool
  links : Links Bool
  deriving DecidableEq

def Device.new (row : Option Bool) : Device := ⟨row, .new false⟩

/-- What a call has still to do; the row can be read by a registration, or not. -/
inductive Task where
  | setDeviceMaintenance (enabled : Bool)
  | setMaintenance (enabled : Bool)
  | pushMaintenanceToAgent (enabled : Bool)
  | sendSetMaintenanceMode (conn : Nat) (enabled : Bool)
  | accept (conn : Nat) (read : Bool)
  | upsert (conn : Nat) (read : Bool)
  | pushMaintenanceState (conn : Nat) (read : Bool)
  | unregisterConn (conn : Nat)
  | releaseDeviceStatus (conn : Nat)
  | connect
  | disconnect
  | receive
  deriving DecidableEq

def Task.Calls : Task → Prop
  | .setDeviceMaintenance _ | .accept .. | .unregisterConn _ | .connect | .disconnect | .receive =>
    True
  | _ => False

def Device.exec (d : Device) : Task → Option (Device × List Task)
  | .setDeviceMaintenance enabled =>
    some (d, if d.row.isSome then [.setMaintenance enabled] else [])
  | .setMaintenance enabled =>
    match d.row with
    | none => some (d, [])
    | some _ => some ({ d with row := some enabled }, [.pushMaintenanceToAgent enabled])
  | .pushMaintenanceToAgent enabled =>
    match d.links.held with
    | none => some (d, [])
    | some conn => some (d, [.sendSetMaintenanceMode conn enabled])
  | .sendSetMaintenanceMode conn enabled => some ({ d with links := d.links.send conn enabled }, [])
  | .accept conn read =>
    (d.links.accept conn).map fun links => ({ d with links := links }, [.upsert conn read])
  | .upsert conn read =>
    some ({ d with row := some (d.row.getD false) }, [.pushMaintenanceState conn read])
  | .pushMaintenanceState conn read =>
    some (d, if read && d.row.getD false then [.sendSetMaintenanceMode conn true] else [])
  | .unregisterConn conn =>
    (d.links.release conn).map fun links => ({ d with links := links }, [.releaseDeviceStatus conn])
  | .releaseDeviceStatus conn => some ({ d with links := d.links.forget conn }, [])
  | .connect => some ({ d with links := d.links.dial false }, [])
  | .disconnect => some ({ d with links := d.links.hangUp }, [])
  | .receive => d.links.receive.map fun links => ({ d with links := links }, [])

/-- The state a call is about to push. -/
def Task.pushes : Task → Option Bool
  | .pushMaintenanceToAgent enabled | .sendSetMaintenanceMode _ enabled => some enabled
  | _ => none

abbrev World := Pool Device Task

abbrev Reached (guard : World → Task → Prop) (row : Option Bool) : World → Prop :=
  PoolReached Task.Calls Device.exec guard (Device.new row)

/-- A state is stored only while no call is about to push one, and a registration can read it. -/
def OneAtATime (w : World) : Task → Prop
  | .setMaintenance _ => ∀ task ∈ w.tasks, task.pushes = none
  | .pushMaintenanceState _ read => read = true
  | _ => True

instance (w : World) (task : Task) : Decidable (OneAtATime w task) := by
  unfold OneAtATime
  split <;> infer_instance

/-! ## What the agent will show is what is stored -/

/-- The connection whose registration has the row still to read. -/
def Task.registers : Task → Option Nat
  | .upsert conn _ | .pushMaintenanceState conn _ => some conn
  | _ => none

def Task.Reaches (conn : Nat) : Task → Prop
  | .pushMaintenanceToAgent _ => True
  | .sendSetMaintenanceMode other _ => other = conn
  | _ => False

/-- What a connection shows is the row's state, or the state every registration starts with and
the registration has still to read the row. -/
def Settled (d : Device) (tasks : List Task) (conn : Nat) : Prop :=
  d.row = some (d.links.shown conn)
    ∨ d.links.shown conn = false ∧ ∃ task ∈ tasks, task.registers = some conn

def Task.Fits (d : Device) : Task → Prop
  | .pushMaintenanceToAgent enabled => d.row = some enabled
  | .sendSetMaintenanceMode conn enabled => d.row = some enabled ∧ d.links.accepted conn
  | .upsert conn _ => d.links.accepted conn
  | .pushMaintenanceState conn _ => d.row.isSome ∧ d.links.accepted conn
  | _ => True

structure Converging (d : Device) (tasks : List Task) : Prop where
  sound : d.links.Sound
  fresh : ∀ conn, d.links.on = some conn → ¬ d.links.accepted conn → d.links.applied = false
  released : ∀ conn, d.links.held = some conn → d.links.released conn →
    .releaseDeviceStatus conn ∈ tasks
  fits : ∀ task ∈ tasks, task.Fits d
  settles : ∀ conn, d.links.Live conn → Settled d tasks conn ∨ ∃ task ∈ tasks, task.Reaches conn

section Steps

variable {d d' : Device} {before after next : List Task} {task : Task} {conn : Nat}

theorem Task.Fits.mono (fits : task.Fits d) (row : d'.row = d.row)
    (accepted : ∀ conn, d.links.accepted conn → d'.links.accepted conn) : task.Fits d' := by
  cases task with
  | pushMaintenanceToAgent enabled => exact row.trans fits
  | sendSetMaintenanceMode conn enabled => exact ⟨row.trans fits.1, accepted conn fits.2⟩
  | upsert conn read => exact accepted conn fits
  | pushMaintenanceState conn read => exact ⟨row ▸ fits.1, accepted conn fits.2⟩
  | _ => trivial

/-- What is settled stays so, and a push under way stays under way, while the row and what the
connection shows stay as they are. -/
theorem settles_run
    (was : Settled d (before ++ task :: after) conn ∨ ∃ other ∈ before ++ task :: after,
      other.Reaches conn)
    (row : d'.row = d.row) (shown : d'.links.shown conn = d.links.shown conn)
    (registers : task.registers = some conn → ∃ other ∈ next, other.registers = some conn)
    (idle : ¬ task.Reaches conn) :
    Settled d' (before ++ next ++ after) conn ∨
    ∃ other ∈ before ++ next ++ after, other.Reaches conn := by
  rcases was with (same | ⟨active, unread⟩) | under
  · exact .inl (.inl (by rw [row, shown, same]))
  · refine .inl (.inr ⟨shown.trans active, ?_⟩)
    rcases exists_task_run unread next with this | rest
    · obtain ⟨other, here, still⟩ := registers this
      exact ⟨other, mem_append_left _ (mem_append_right _ here), still⟩
    · exact rest
  · exact .inr ((exists_task_run under next).resolve_left idle)

section

variable (converging : Converging d (before ++ task :: after))
include converging

/-- A step on the links and the row. -/
theorem Converging.step {sent gone : Option Nat} (moves : d.links.Moves sent gone d'.links)
    (fresh : ∀ conn, d'.links.on = some conn → ¬ d'.links.accepted conn → d'.links.applied = false)
    (lets : ∀ conn, d'.links.held = some conn → task ≠ .releaseDeviceStatus conn)
    (releases : ∀ conn, gone = some conn → .releaseDeviceStatus conn ∈ next)
    (stays : ∀ task ∈ before ++ after, task.Fits d → task.Fits d')
    (left : ∀ task ∈ next, task.Fits d')
    (settles : ∀ conn, d'.links.Live conn →
      Settled d' (before ++ next ++ after) conn ∨
      ∃ task ∈ before ++ next ++ after, task.Reaches conn) :
    Converging d' (before ++ next ++ after) := by
  refine ⟨moves.sound converging.sound, fresh, fun conn held gone => ?_,
    tasks_run converging.fits stays left, settles⟩
  rcases moves.released conn gone with was | now
  · exact mem_run (converging.released conn (moves.held conn held) was) (lets conn held) next
  · exact mem_append_left _ (mem_append_right _ (releases conn now))

/-- A step that leaves the links alone and lets go of no connection. -/
theorem Converging.server (links : d'.links = d.links)
    (other : ∀ conn, task ≠ .releaseDeviceStatus conn)
    (stays : ∀ task ∈ before ++ after, task.Fits d → task.Fits d')
    (left : ∀ task ∈ next, task.Fits d')
    (settles : ∀ conn, d.links.Live conn →
      Settled d' (before ++ next ++ after) conn ∨
      ∃ task ∈ before ++ next ++ after, task.Reaches conn) :
    Converging d' (before ++ next ++ after) :=
  converging.step (Links.Moves.of_eq links : d.links.Moves none none d'.links)
    (links ▸ converging.fresh) (fun conn _ => other conn) nofun stays left (links ▸ settles)

/-- A step on the links, by a task that pushes nothing. -/
theorem Converging.moved {links : Links Bool} {gone : Option Nat}
    (moves : d.links.Moves none gone links)
    (fresh : ∀ conn, links.on = some conn → ¬ links.accepted conn → links.applied = false)
    (lets : ∀ conn, links.held = some conn → task ≠ .releaseDeviceStatus conn)
    (releases : ∀ conn, gone = some conn → .releaseDeviceStatus conn ∈ next)
    (left : ∀ task ∈ next, task.Fits { d with links := links })
    (quiet : ∀ conn, task.registers ≠ some conn ∧ ¬ task.Reaches conn) :
    Converging { d with links := links } (before ++ next ++ after) :=
  converging.step moves fresh lets releases (fun _ _ fits => fits.mono rfl moves.accepted) left
    fun conn live =>
      settles_run (converging.settles conn (moves.live converging.sound conn live)) rfl
        (moves.shown converging.sound conn live nofun) (fun this => absurd this (quiet conn).1)
        (quiet conn).2

end

theorem exec_converging (ran : d.exec task = some (d', next))
    (allowed : OneAtATime ⟨d, before ++ task :: after⟩ task)
    (converging : Converging d (before ++ task :: after)) :
    Converging d' (before ++ next ++ after) := by
  have own := converging.fits task (by simp)
  have nothing : ∀ other ∈ ([] : List Task), other.Fits d' := forall_mem_nil _
  have only : ∀ left : Task, left.Fits d' → ∀ other ∈ [left], other.Fits d' :=
    fun left this other here =>
    mem_singleton.mp here ▸ this
  have kept : d'.row = d.row → (∀ conn, d.links.accepted conn → d'.links.accepted conn) →
      ∀ other ∈ before ++ after, other.Fits d → other.Fits d' :=
    fun row accepted other _ fits => fits.mono row accepted
  cases task with
  | setDeviceMaintenance enabled =>
    cases ran
    refine converging.server rfl nofun (fun _ _ fits => fits) ?_ fun conn live =>
      settles_run (converging.settles conn live) rfl rfl nofun id
    split
    · exact only _ trivial
    · exact nothing
  | setMaintenance enabled =>
    rw [Device.exec] at ran
    split at ran
    · cases ran
      exact converging.server rfl nofun (fun _ _ fits => fits) nothing fun conn live =>
        settles_run (converging.settles conn live) rfl rfl nofun id
    next earlier row =>
      cases ran
      refine converging.server rfl nofun (fun other here fits => ?_) (only _ rfl) fun conn live =>
        .inr ⟨.pushMaintenanceToAgent enabled, by simp, trivial⟩
      -- No other call is about to push, so none expects the state that was stored before.
      have idle : other.pushes = none := allowed other (by
        simp only [mem_append, mem_cons] at here ⊢
        tauto)
      cases other with
      | pushMaintenanceToAgent | sendSetMaintenanceMode => cases idle
      | pushMaintenanceState conn read => exact ⟨rfl, fits.2⟩
      | upsert => exact fits
      | _ => trivial
  | pushMaintenanceToAgent enabled =>
    rw [Device.exec] at ran
    split at ran
    next unheld =>
      cases ran
      refine converging.server rfl nofun (fun _ _ fits => fits) nothing fun conn live => ?_
      cases unheld.symm.trans live.held
    next held holds =>
      cases ran
      refine converging.server rfl nofun (fun _ _ fits => fits)
        (only _ ⟨own, converging.sound.held held holds⟩) fun conn live => .inr ?_
      obtain rfl : held = conn := Option.some.inj (holds.symm.trans live.held)
      exact ⟨.sendSetMaintenanceMode held enabled, by simp, rfl⟩
  | sendSetMaintenanceMode other enabled =>
    cases ran
    have moves : d.links.Moves (some other) none (d.links.send other enabled) := moves_send own.2
    refine converging.step moves (fun conn on unaccepted => ?_) nofun nofun
      (kept rfl moves.accepted) nothing fun conn live => ?_
    · rw [on_send] at on
      rw [accepted_send] at unaccepted
      rw [applied_send]
      exact converging.fresh conn on unaccepted
    · by_cases same : conn = other
      · subst same
        refine .inl (.inl ?_)
        rw [shown_send own.2 live]
        exact own.1
      · have distinct : some other ≠ some conn := fun this => same (Option.some.inj this).symm
        exact settles_run (converging.settles conn (moves.live converging.sound conn live)) rfl
          (moves.shown converging.sound conn live distinct) nofun (Ne.symm same)
  | accept other read =>
    obtain ⟨links, accepts, ran⟩ := Option.map_eq_some_iff.mp ran
    cases ran
    have accepted : ∀ conn, d.links.accepted conn → links.accepted conn := fun _ known =>
      accepted_accept accepts (.inl known)
    refine ⟨accept_sound converging.sound accepts, fun conn on unaccepted => ?_,
      fun conn held gone => ?_, ?_, fun conn live => ?_⟩
    · rw [applied_accept accepts]
      refine converging.fresh conn (on_accept accepts ▸ on) fun known => ?_
      exact unaccepted (accepted conn known)
    · obtain rfl : other = conn := Option.some.inj ((held_accept accepts).symm.trans held)
      exact absurd gone (not_released_accept converging.sound accepts)
    · exact tasks_run converging.fits (kept rfl accepted)
        (only _ (accepted_accept accepts (.inr rfl)))
    · obtain ⟨rfl, on, unaccepted, shown⟩ := live_accept converging.sound accepts live
      refine .inl (.inr ⟨shown.trans (converging.fresh conn on unaccepted), ?_⟩)
      exact ⟨.upsert conn read, by simp, rfl⟩
  | upsert other read =>
    cases ran
    refine converging.server rfl nofun (fun task _ fits => ?_) (only _ ⟨rfl, own⟩) fun conn live =>
      ?_
    · cases task with
      | pushMaintenanceToAgent enabled => exact congrArg (fun row => some (row.getD false)) fits
      | sendSetMaintenanceMode conn enabled =>
        exact ⟨congrArg (fun row => some (row.getD false)) fits.1, fits.2⟩
      | pushMaintenanceState conn read => exact ⟨rfl, fits.2⟩
      | upsert conn read => exact fits
      | _ => trivial
    · rcases converging.settles conn live with (same | ⟨active, unread⟩) | under
      · exact .inl (.inl (congrArg (fun row => some (row.getD false)) same))
      · refine .inl (.inr ⟨active, ?_⟩)
        rcases exists_task_run unread [.pushMaintenanceState other read] with this | rest
        · exact ⟨.pushMaintenanceState other read, by simp, this⟩
        · exact rest
      · exact .inr ((exists_task_run under _).resolve_left id)
  | pushMaintenanceState other read =>
    obtain ⟨known, accepted⟩ := own
    obtain ⟨stored, row⟩ := Option.isSome_iff_exists.mp known
    cases ran
    cases allowed
    refine converging.server rfl nofun (fun _ _ fits => fits) ?_ fun conn live => ?_
    · rw [row]
      cases stored with
      | true => exact only _ ⟨row, accepted⟩
      | false => exact nothing
    · by_cases same : other = conn
      · subst same
        rw [row]
        cases stored with
        | true => exact .inr ⟨.sendSetMaintenanceMode other true, by simp, rfl⟩
        | false =>
          rcases converging.settles other live with (shown | ⟨active, -⟩) | under
          · exact .inl (.inl shown)
          · exact .inl (.inl (row.trans (congrArg some active.symm)))
          · exact .inr ((exists_task_run under _).resolve_left id)
      · exact settles_run (converging.settles conn live) rfl rfl
          (fun this => absurd (Option.some.inj this) same) id
  | unregisterConn other =>
    obtain ⟨links, releases, ran⟩ := Option.map_eq_some_iff.mp ran
    cases ran
    have moves := moves_release releases
    refine converging.moved moves (fun conn on unaccepted => ?_) nofun ?_ (only _ trivial)
      fun conn => ⟨nofun, id⟩
    · rw [applied_release releases]
      refine converging.fresh conn (on_release releases ▸ on) fun known => ?_
      exact unaccepted (moves.accepted conn known)
    · rintro conn ⟨⟩
      exact mem_singleton.mpr rfl
  | releaseDeviceStatus other =>
    cases ran
    refine converging.moved moves_forget converging.fresh (fun conn held same => ?_) nofun nothing
      fun conn => ⟨nofun, id⟩
    cases same
    exact (held_forget held).1 rfl
  | connect =>
    cases ran
    exact converging.moved moves_dial (fun _ _ _ => rfl) nofun nofun nothing fun conn => ⟨nofun, id⟩
  | disconnect =>
    cases ran
    exact converging.moved moves_hangUp nofun nofun nofun nothing fun conn => ⟨nofun, id⟩
  | receive =>
    obtain ⟨links, receives, ran⟩ := Option.map_eq_some_iff.mp ran
    cases ran
    refine converging.moved (moves_receive receives) (fun conn on unaccepted => ?_) nofun nofun
      nothing fun conn => ⟨nofun, id⟩
    exact absurd (accepted_of_receive converging.sound receives on) unaccepted

theorem reached_converging {row : Option Bool} {w : World} (reached : Reached OneAtATime row w) :
    Converging w.shared w.tasks := by
  refine PoolReached.invariant (I := Converging) ?_ ?_ ?_ reached
  · exact ⟨sound_new false, fun _ _ _ => rfl, nofun, nofun, fun conn live => absurd live.held nofun⟩
  · rintro d tasks task call ⟨sound, fresh, released, fits, settles⟩
    refine ⟨sound, fresh, fun conn held gone => ?_, tasks_begin fits ?_, fun conn live => ?_⟩
    · exact mem_append_left _ (released conn held gone)
    · cases task <;> cases call <;> trivial
    · rcases settles conn live with (same | ⟨active, other, here, unread⟩) | ⟨other, here, under⟩
      · exact .inl (.inl same)
      · exact .inl (.inr ⟨active, other, mem_append_left _ here, unread⟩)
      · exact .inr ⟨other, mem_append_left _ here, under⟩
  · exact fun d d' before after next task ran allowed converging =>
      exec_converging ran allowed converging

end Steps

/-- Once every call has finished and every message on the connection that the server holds and the
agent is on was received, the agent's state is the stored one, in every run where no state is stored
while a call is about to push one, and where the registrations can read the row. -/
theorem maintenance_converges {row : Option Bool} {w : World} (reached : Reached OneAtATime row w)
    (finished : w.tasks = []) (conn : Nat) (held : w.shared.links.held = some conn)
    (on : w.shared.links.on = some conn) (received : w.shared.links.queue conn = []) :
    w.shared.row = some w.shared.links.applied := by
  have converging := reached_converging reached
  rw [finished] at converging
  have live : w.shared.links.Live conn := by
    refine ⟨held, on, fun gone => ?_⟩
    exact absurd (converging.released conn held gone) not_mem_nil
  have shown : w.shared.links.shown conn = w.shared.links.applied := by
    rw [shown, received]
    rfl
  rcases converging.settles conn live with (same | ⟨-, task, none, -⟩) | ⟨task, none, -⟩
  · rw [same, shown]
  · exact absurd none not_mem_nil
  · exact absurd none not_mem_nil

instance (task : Task) : Decidable task.Calls := by
  unfold Task.Calls
  split <;> infer_instance

def registered : List (Choice Task) :=
  [.begin .connect, .run 0, .begin (.accept 0 true), .run 0, .run 0, .run 0]

def requested : List (Choice Task) :=
  [.begin (.setDeviceMaintenance true), .begin (.setDeviceMaintenance false)]

def received : List (Choice Task) := [.begin .receive, .run 0, .begin .receive, .run 0]

/-- Maintenance is switched on and off by two requests, whose steps are taken in an order; then
the agent receives both messages. -/
def onAndOff (places : List Nat) : List (Choice Task) :=
  registered ++ requested ++ places.map .run ++ received

/-- Where both requests have been served: off was stored last. -/
def served (applied : Bool) : World :=
  ⟨⟨some false, [⟨true, false, []⟩], some 0, some 0, applied⟩, []⟩

theorem maintenance_converges_in_turn :
    (served false).shared.row = some (served false).shared.links.applied := by
  have followed : follow Device.exec OneAtATime (onAndOff [0, 0, 0, 0, 0, 0, 0, 0])
      ⟨Device.new (some false), []⟩ = some (served false) := by
    decide +kernel
  have reached : Reached OneAtATime (some false) (served false) :=
    reached_of_follow (calls_of_begins (by decide)) .refl followed
  exact maintenance_converges reached rfl 0 rfl rfl rfl

/-- The state that was stored first is pushed last: the device is stored as Active and its agent
stays in maintenance. -/
theorem maintenance_stays_on :
    ∃ w : World, Reached (fun _ _ => True) (some false) w ∧ w.tasks = [] ∧
      w.shared.links.held = some 0 ∧ w.shared.links.on = some 0 ∧ w.shared.links.queue 0 = [] ∧
      w.shared.row = some false ∧ w.shared.links.applied = true := by
  exact exists_reached_of_follow (onAndOff [0, 1, 0, 1, 1, 1, 0, 0]) (by decide) (by decide +kernel)

end OpenGate.Agents.MaintenancePush
