import OpenGate.Lib.Tasks

/-!
# The connections of AMT devices

`registerConn` and `unregisterConn` of `amt/transport/mps.go`.  The map and the stored status
are keyed by the AMT UUID alone, so the teardown of an older connection takes a newer one out;
where no connection of a UUID is torn down beside another, the newest is found and online
(`newest_found`).
-/

namespace OpenGate.Amt.Registry

open OpenGate.Lib Function

/-- A connection, by its place in the order of registration. -/
structure Conn where
  place : Nat
  amtUUID : Nat
  deriving DecidableEq

/-- The server's map, and the rows whose status is online. -/
structure Mps where
  registered : Nat := 0
  conns : Nat → Option Conn := fun _ => none
  online : Nat → Bool := fun _ => false

/-- What `handleConn` has still to do, and whether the connection is linked: after its
registration it rests in the message loop. -/
inductive Task where
  | registerConn (amtUUID : Nat) (links : Bool)
  | linkConn (mc : Conn) (links : Bool)
  | messageLoop (mc : Conn) (linked : Bool)
  | setOffline (mc : Conn)
  deriving DecidableEq

def Task.calls : Task → Bool
  | .registerConn .. => true
  | _ => false

/-- The connection that is registered and not unregistered. -/
def Task.conn : Task → Option Conn
  | .linkConn mc _ | .messageLoop mc _ => some mc
  | _ => none

variable {s s' : Mps} {task : Task} {before after next tasks : List Task} {mc : Conn}
  {linked : Bool}

def Mps.exec (s : Mps) : Task → Option (Mps × List Task)
  | .registerConn amtUUID links =>
    let mc : Conn := ⟨s.registered, amtUUID⟩
    some ({ s with registered := s.registered + 1, conns := Function.update s.conns amtUUID mc },
      [.linkConn mc links])
  | .linkConn mc links =>
    some (if links then { s with online := Function.update s.online mc.amtUUID true } else s,
      [.messageLoop mc links])
  -- `unregisterConn`
  | .messageLoop mc linked =>
    some ({ s with conns := Function.update s.conns mc.amtUUID none },
      if linked then [.setOffline mc] else [])
  | .setOffline mc => some ({ s with online := Function.update s.online mc.amtUUID false }, [])

abbrev Reached (guard : Pool Mps Task → Task → Bool) : Pool Mps Task → Prop :=
  PoolReached (Task.calls ·) Mps.exec (guard · ·) {}

/-- No registered connection of the UUID is newer. -/
def latest (tasks : List Task) (mc : Conn) : Bool :=
  tasks.all fun task => task.conn.all fun other =>
    other.amtUUID = mc.amtUUID → other.place ≤ mc.place

/-- A connection is unregistered only while no other of its UUID is registered, and its row goes
offline only while the newest of its UUID is not linked. -/
def lastOut (pool : Pool Mps Task) : Task → Bool
  | .messageLoop mc _ => (pool.tasks.filterMap Task.conn).countP (·.amtUUID = mc.amtUUID) ≤ 1
  | .setOffline mc => pool.tasks.all fun
    | .messageLoop other true => other.amtUUID ≠ mc.amtUUID ∨ latest pool.tasks other = false
    | _ => true
  | _ => true

def Found (s : Mps) (mc : Conn) (linked : Bool) : Prop :=
  s.conns mc.amtUUID = some mc ∧ (linked = true → s.online mc.amtUUID = true)

/-- What the newest connection of a UUID relies on once it is stored. -/
def Within (s : Mps) : Task → Prop
  | .linkConn mc _ => Found s mc false
  | .messageLoop mc linked => Found s mc linked
  | _ => True

/-- The places are in the order of registration, and the newest connections are found. -/
structure Kept (s : Mps) (tasks : List Task) : Prop where
  places : ∀ task ∈ tasks, ∀ mc ∈ task.conn, mc.place < s.registered
  found : ∀ task ∈ tasks, (∀ mc ∈ task.conn, latest tasks mc) → Within s task

theorem latest_iff : latest tasks mc ↔
    ∀ task ∈ tasks, ∀ other ∈ task.conn, other.amtUUID = mc.amtUUID → other.place ≤ mc.place := by
  simp only [latest, List.all_eq_true, Option.all_eq_true, decide_eq_true_eq, Option.mem_def]

/-- A connection that is the newest after a step was it before, unless one of its UUID is gone. -/
theorem latest_of_run (new : latest (before ++ next ++ after) mc)
    (kept : ∀ old ∈ task.conn, old.amtUUID = mc.amtUUID → ∃ left ∈ next, old ∈ left.conn) :
    latest (before ++ task :: after) mc := by
  rw [latest_iff] at new ⊢
  intro other here old holds same
  rcases List.mem_append.mp here with early | late
  · exact new other (by simp [early]) old holds same
  · rcases List.mem_cons.mp late with rfl | late
    · obtain ⟨left, there, holds⟩ := kept old holds same
      exact new left (by simp [there]) old holds same
    · exact new other (by simp [late]) old holds same

theorem Kept.run (kept : Kept s (before ++ task :: after))
    (registered : s.registered ≤ s'.registered)
    (places : ∀ left ∈ next, ∀ mc ∈ left.conn, mc.place < s'.registered)
    (gone : ∀ other ∈ before ++ after, ∀ mc ∈ other.conn, ∀ old ∈ task.conn,
      old.amtUUID = mc.amtUUID → ∃ left ∈ next, old ∈ left.conn)
    (stays : ∀ other ∈ before ++ after, (∀ mc ∈ other.conn, latest (before ++ next ++ after) mc) →
      (∀ mc ∈ other.conn, latest (before ++ task :: after) mc) → Within s other → Within s' other)
    (new : ∀ left ∈ next, (∀ mc ∈ left.conn, latest (before ++ next ++ after) mc) →
      Within s' left) :
    Kept s' (before ++ next ++ after) := by
  refine ⟨tasks_run kept.places (fun _ _ was mc holds => (was mc holds).trans_le registered) places,
    tasks_run kept.found (fun other here was newest => ?_) new⟩
  have before mc (holds : mc ∈ other.conn) :=
    latest_of_run (newest mc holds) (gone other here mc holds)
  exact stays other here newest before (was before)

/-- What stays found where the map is left alone and no row of a UUID that counts goes offline. -/
theorem Within.mono {other : Task} (was : Within s other)
    (conns : ∀ mc ∈ other.conn, s'.conns mc.amtUUID = s.conns mc.amtUUID)
    (online : ∀ mc, other = .messageLoop mc true → s.online mc.amtUUID = true →
      s'.online mc.amtUUID = true) : Within s' other := by
  cases other with
  | registerConn | setOffline => trivial
  | linkConn mc links => exact ⟨(conns mc rfl).trans was.1, nofun⟩
  | messageLoop mc linked =>
    refine ⟨(conns mc rfl).trans was.1, ?_⟩
    rintro rfl
    exact online mc rfl (was.2 rfl)

/-- A connection of no other's UUID is unregistered. -/
theorem Kept.unregister (kept : Kept s (before ++ .messageLoop mc linked :: after))
    (few : ((before ++ .messageLoop mc linked :: after).filterMap Task.conn).countP
      (·.amtUUID = mc.amtUUID) ≤ 1) (goes : ∀ left ∈ next, left = .setOffline mc) :
    Kept { s with conns := update s.conns mc.amtUUID none } (before ++ next ++ after) := by
  have alone : ∀ other ∈ before ++ after, ∀ old ∈ other.conn, old.amtUUID ≠ mc.amtUUID := by
    intro other here old holds same
    have more : 0 < ((before ++ after).filterMap Task.conn).countP (·.amtUUID = mc.amtUUID) :=
      List.countP_pos_iff.mpr
        ⟨old, List.mem_filterMap.mpr ⟨other, here, holds⟩, decide_eq_true same⟩
    simp only [List.filterMap_append, List.filterMap_cons, Task.conn, List.countP_append,
      List.countP_cons, decide_true, if_true] at few more
    omega
  refine kept.run le_rfl (fun left here => ?_) (fun other here mc' holds old this same => ?_)
    (fun other here _ _ was => ?_) fun left here _ => ?_
  · rw [goes left here]
    nofun
  · cases this
    exact absurd same.symm (alone other here mc' holds)
  · exact was.mono (fun mc' holds => update_of_ne (alone other here mc' holds) ..) fun _ _ => id
  · rw [goes left here]
    trivial

theorem exec_kept (ran : s.exec task = some (s', next))
    (guarded : lastOut ⟨s, before ++ task :: after⟩ task)
    (kept : Kept s (before ++ task :: after)) : Kept s' (before ++ next ++ after) := by
  have there : before ++ after ⊆ before ++ task :: after :=
    ((List.sublist_cons_self ..).append_left _).subset
  cases task with
  | registerConn amtUUID links =>
    cases ran
    refine kept.run (Nat.le_succ _) ?_ nofun (fun other here newest _ was => ?_) ?_
    · refine List.forall_mem_singleton.mpr ?_
      rintro _ ⟨⟩
      exact Nat.lt_succ_self _
    · refine was.mono (fun mc holds => update_of_ne ?_ ..) fun _ _ => id
      -- an older connection of the UUID is no longer the newest
      intro same
      have older := kept.places other (there here) mc holds
      have := latest_iff.mp (newest mc holds) (.linkConn ⟨s.registered, amtUUID⟩ links) (by simp)
        _ rfl same.symm
      exact absurd this (Nat.not_le.mpr older)
    · exact List.forall_mem_singleton.mpr fun _ => ⟨update_self .., nofun⟩
  | linkConn mc links =>
    obtain ⟨rfl, registered, conns, online, linked⟩ : next = [.messageLoop mc links] ∧
        s'.registered = s.registered ∧ s'.conns = s.conns ∧
        (∀ amtUUID, s.online amtUUID = true → s'.online amtUUID = true) ∧
        (links = true → s'.online mc.amtUUID = true) := by
      cases ran
      cases links with
      | false => exact ⟨rfl, rfl, rfl, fun _ => id, nofun⟩
      | true =>
        refine ⟨rfl, rfl, rfl, fun amtUUID was => ?_, fun _ => update_self ..⟩
        simp only [if_true, update_apply]
        split
        · rfl
        · exact was
    have same : ∀ mc', ∀ old ∈ (Task.linkConn mc links).conn, old.amtUUID = mc' →
        ∃ left ∈ [Task.messageLoop mc links], old ∈ left.conn :=
      fun _ old holds _ => ⟨_, List.mem_singleton_self _, holds⟩
    refine kept.run registered.ge ?_ (fun _ _ mc' _ => same mc'.amtUUID) (fun other _ _ _ was => ?_)
      ?_
    · exact List.forall_mem_singleton.mpr fun own holds =>
        registered ▸ kept.places (.linkConn mc links) (by simp) own holds
    · exact was.mono (fun _ _ => congrFun conns _) fun mc' _ => online mc'.amtUUID
    · refine List.forall_mem_singleton.mpr fun newest => ⟨?_, linked⟩
      rw [conns]
      exact (kept.found (.linkConn mc links) (by simp) fun own holds =>
        latest_of_run (newest own holds) (same _)).1
  | messageLoop mc linked =>
    cases ran
    exact kept.unregister (of_decide_eq_true guarded) (by split <;> simp)
  | setOffline mc =>
    cases ran
    refine kept.run le_rfl nofun nofun (fun other here _ newest was => ?_) nofun
    refine was.mono (fun _ _ => rfl) ?_
    rintro mc' rfl online
    have linked := List.all_eq_true.mp guarded _ (there here)
    simp [newest mc' rfl] at linked
    exact (update_of_ne linked ..).trans online

end OpenGate.Amt.Registry
