import OpenGate.Certs.Ledger
import OpenGate.Lib.Tasks

/-!
# Admission by certificate

`accept` of `agentapi/server_connection.go` and `handleCertificateInstalled` of
`agentapi/renewal.go` as tasks over the ledger's index and the server's map of connections:
a connection is admitted, its certificate is marked seen, what that supersedes is closed, and
the connection is registered, each a step of its own between the steps of other connections.

`closeSuperseded` reaches what is in the map when it runs.  Every superseded certificate in
the map is then on the list of a close still to come (`Answered`), unless a connection took
the map's place after that close: `superseded_are_told` is the result for runs where a
certificate comes into the map only while it is not superseded.
-/

namespace OpenGate.Certs

open OpenGate.Lib Std Option
open List (forall_mem_nil mem_of_getElem? not_mem_nil)

variable {Print Device : Type}

/-- A connection: its device, the certificate it presents, the one issued on it, and whether
it was told to close. -/
structure AgentConn (Print Device : Type) where
  device : Device
  print : Print
  issued : Option Print
  told : Bool
  deriving DecidableEq

def AgentConn.prints (ac : AgentConn Print Device) : List Print := ac.print :: ac.issued.toList

/-- What admission grants: a connection of a device, perhaps only to renew. -/
structure Admitted (Print Device : Type) where
  device : Device
  print : Print
  restricted : Bool
  deriving DecidableEq

/-- The ledger's index, every connection, the map of the newest ones, and those that may only
renew. -/
structure Server (Print Device : Type) [Ord Print] [Ord Device] where
  index : Index Print Device
  agents : List (AgentConn Print Device)
  conns : ExtTreeMap Device Nat Ord.compare
  restricted : List Nat

inductive Task (Print Device : Type) where
  /-- A certificate is issued elsewhere, as at enrolment. -/
  | record (print : Print) (leaf : Leaf Device) (source : Source) (issuedAt : Int)
  /-- A certificate is issued on a connection. -/
  | issue (conn : Nat) (print : Print) (notBefore issuedAt : Int)
  | admitConn (print : Print) (restricted : Bool)
  | markSeen (admitted : Admitted Print Device)
  | closeSuperseded (doomed : List Print) (next : Option (Admitted Print Device))
  | serve (admitted : Admitted Print Device)
  | retire (older : Nat)
  | installed (conn : Nat)
  | takeCertificate (conn : Nat) (print : Print) (doomed : List Print)
  | unregister (conn : Nat)

def Task.Calls : Task Print Device → Prop
  | .record .. | .issue .. | .admitConn .. | .installed _ | .unregister _ => True
  | _ => False

namespace Server

variable [Ord Print] [Ord Device] [TransOrd Print] [TransOrd Device] [DecidableEq Print]
  [DecidableEq Device]

def new : Server Print Device := ⟨∅, [], ∅, []⟩

/-- A connection the server's walk visits: one in the map, or one that may only renew. -/
def live (s : Server Print Device) (id : Nat) : Bool :=
  s.conns.toList.any (fun held => held.2 = id) || s.restricted.contains id

def closeSuperseded (s : Server Print Device) (doomed : List Print) : Server Print Device :=
  { s with agents := s.agents.mapIdx fun id ac =>
      if s.live id && doomed.contains ac.print then { ac with told := true } else ac }

def close (s : Server Print Device) (id : Nat) : Server Print Device :=
  { s with agents := s.agents.modify id fun ac => { ac with told := true } }

/-- `registerConn`, or `serveRestricted` for a connection that may only renew. -/
def serve (s : Server Print Device) (admitted : Admitted Print Device) :
    Server Print Device × List (Task Print Device) :=
  let s' : Server Print Device :=
    { s with agents := s.agents ++ [⟨admitted.device, admitted.print, none, false⟩] }
  if admitted.restricted then ({ s' with restricted := s.agents.length :: s.restricted }, [])
  else
    ({ s' with conns := s.conns.insert admitted.device s.agents.length },
      (s.conns[admitted.device]?.map Task.retire).toList)

/-- `unregisterConn`, or the end of `serveRestricted`. -/
def unregister (s : Server Print Device) (conn : Nat) (ac : AgentConn Print Device) :
    Server Print Device :=
  if s.conns[ac.device]? = some conn then { s with conns := s.conns.erase ac.device }
  else { s with restricted := s.restricted.erase conn }

def exec (s : Server Print Device) :
    Task Print Device → Option (Server Print Device × List (Task Print Device))
  | .record print leaf source issuedAt =>
    some ({ s with index := addNew s.index print (rowFor leaf source issuedAt).entry }, [])
  | .issue conn print notBefore issuedAt => s.agents[conn]?.map fun ac =>
    ({ s with
      index := addNew s.index print (rowFor ⟨ac.device, notBefore⟩ .renew issuedAt).entry
      agents := s.agents.set conn { ac with issued := some print } }, [])
  | .admitConn print restricted =>
    match s.index[print]? with
    | none => some (s, [])
    | some e =>
      if superseded s.index print then some (s, [])
      else some (s, [.markSeen ⟨e.deviceId, print, restricted⟩])
  | .markSeen admitted =>
    let (index, doomed, _) := see s.index admitted.print
    some ({ s with index }, [.closeSuperseded doomed (some admitted)])
  | .closeSuperseded doomed next => some (s.closeSuperseded doomed, (next.map Task.serve).toList)
  | .serve admitted => some (s.serve admitted)
  | .retire older => some (s.close older, [])
  | .installed conn => s.agents[conn]?.bind fun ac =>
    match ac.issued with
    | none => some (s, [])
    | some print =>
      let (index, doomed, _) := see s.index print
      some ({ s with index, agents := s.agents.set conn { ac with issued := none } },
        [.takeCertificate conn print doomed])
  | .takeCertificate conn print doomed => s.agents[conn]?.map fun ac =>
    ({ s with agents := s.agents.set conn { ac with print } }, [.closeSuperseded doomed none])
  | .unregister conn => s.agents[conn]?.map fun ac => (s.unregister conn ac, [])

end Server

abbrev World (Print Device : Type) [Ord Print] [Ord Device] :=
  Pool (Server Print Device) (Task Print Device)

section Runs

variable [Ord Print] [Ord Device] [TransOrd Print] [TransOrd Device] [DecidableEq Print]
  [DecidableEq Device]

abbrev ServerReached (guard : World Print Device → Task Print Device → Prop) :
    World Print Device → Prop :=
  PoolReached Task.Calls Server.exec guard Server.new

/-- A certificate comes into the map, by a registration or by an install, only while no later
one of its device was seen. -/
def Unsuperseded (w : World Print Device) : Task Print Device → Prop
  | .serve admitted => admitted.restricted = true ∨ superseded w.shared.index admitted.print = false
  | .takeCertificate _ print _ => superseded w.shared.index print = false
  | _ => True

instance (w : World Print Device) (task : Task Print Device) : Decidable (Unsuperseded w task) := by
  cases task <;> unfold Unsuperseded <;> infer_instance

end Runs

namespace Server

variable [Ord Print] [Ord Device] [TransOrd Device]

def InMap (s : Server Print Device) (ac : AgentConn Print Device) : Prop :=
  ∃ (device : Device) (id : Nat), s.conns[device]? = some id ∧ s.agents[id]? = some ac

/-- A connection in the map that presents a superseded certificate and was not told to close. -/
structure Stale [TransOrd Print] [DecidableEq Device] (s : Server Print Device)
    (ac : AgentConn Print Device) : Prop where
  held : s.InMap ac
  untold : ac.told = false
  superseded : superseded s.index ac.print = true

variable {s s' : Server Print Device} {ac old new : AgentConn Print Device} {conn : Nat}

theorem inMap_set (held : s'.InMap ac) (here : s.agents[conn]? = some old)
    (conns : s'.conns = s.conns) (agents : s'.agents = s.agents.set conn new) :
    ac = new ∧ s.InMap old ∨ s.InMap ac := by
  obtain ⟨device, id, found, there⟩ := held
  rw [conns] at found
  rw [agents, List.getElem?_set] at there
  split at there
  next same =>
    subst same
    split at there
    · cases there
      exact .inl ⟨rfl, device, conn, found, here⟩
    · cases there
  · exact .inr ⟨device, id, found, there⟩

/-! ## What a step does to the connections -/

/-- The same connections in the same places presenting the same certificates, and perhaps a fresh
one issued. -/
structure SameConns (s s' : Server Print Device) (fresh : List Print) : Prop where
  conns : s'.conns = s.conns
  length : s'.agents.length = s.agents.length
  agents : ∀ ac ∈ s'.agents, ∀ print ∈ ac.prints, print ∈ fresh ∨
    ∃ old ∈ s.agents, print ∈ old.prints
  held : ∀ ac, s'.InMap ac → ∃ old, s.InMap old ∧ old.print = ac.print ∧ old.told = ac.told

theorem SameConns.of_eq (conns : s'.conns = s.conns) (agents : s'.agents = s.agents) :
    SameConns s s' [] where
  conns := conns
  length := by rw [agents]
  agents := fun ac here print this => .inr ⟨ac, agents ▸ here, this⟩
  held := by
    rintro ac ⟨device, id, found, here⟩
    exact ⟨ac, ⟨device, id, conns ▸ found, agents ▸ here⟩, rfl, rfl⟩

theorem SameConns.of_set (new : AgentConn Print Device) (here : s.agents[conn]? = some old)
    (conns : s'.conns = s.conns) (agents : s'.agents = s.agents.set conn new)
    (print : new.print = old.print)
    (told : new.told = old.told) : SameConns s s' new.issued.toList where
  conns := conns
  length := by rw [agents, List.length_set]
  agents := by
    intro ac there cert this
    rw [agents] at there
    rcases List.mem_or_eq_of_mem_set there with before | rfl
    · exact .inr ⟨ac, before, this⟩
    · rcases List.mem_cons.mp this with same | issued
      · exact .inr ⟨old, mem_of_getElem? here, same ▸ print ▸ List.mem_cons_self⟩
      · exact .inl issued
  held := by
    intro ac inMap
    rcases inMap_set inMap here conns agents with ⟨rfl, there⟩ | there
    · exact ⟨old, there, print.symm, told.symm⟩
    · exact ⟨ac, there, rfl, rfl⟩

theorem serve_agents (s : Server Print Device) (admitted : Admitted Print Device) :
    (s.serve admitted).1.index = s.index ∧ (s.serve admitted).1.agents
      = s.agents ++ [⟨admitted.device, admitted.print, none, false⟩] := by
  rw [Server.serve]
  split
  · exact ⟨rfl, rfl⟩
  · exact ⟨rfl, rfl⟩

theorem closeSuperseded_agents [DecidableEq Print] {doomed : List Print}
    (here : ac ∈ (s.closeSuperseded doomed).agents) :
    ∃ old ∈ s.agents, old.prints = ac.prints := by
  simp only [Server.closeSuperseded, List.mem_mapIdx] at here
  obtain ⟨id, short, rfl⟩ := here
  refine ⟨s.agents[id], List.getElem_mem short, ?_⟩
  split <;> rfl

omit [TransOrd Device] in
theorem close_agents {id : Nat} (here : ac ∈ (s.close id).agents) :
    ∃ old ∈ s.agents, old.prints = ac.prints := by
  obtain ⟨place, there⟩ := List.mem_iff_getElem?.mp here
  rw [Server.close, List.getElem?_modify] at there
  obtain ⟨old, was, same⟩ := map_eq_some_iff.mp there
  refine ⟨old, mem_of_getElem? was, ?_⟩
  rw [← same]
  split <;> rfl

theorem inMap_close {id : Nat} (held : (s.close id).InMap ac) (untold : ac.told = false) :
    s.InMap ac := by
  obtain ⟨device, place, found, there⟩ := held
  rw [Server.close, List.getElem?_modify] at there
  obtain ⟨old, was, same⟩ := map_eq_some_iff.mp there
  split at same
  · rw [← same] at untold
    cases untold
  · rw [← same]
    exact ⟨device, place, found, was⟩

variable [LawfulEqOrd Device] [DecidableEq Device]

section

variable
  (numbered : ∀ (device : Device) (id : Nat), s.conns[device]? = some id → id < s.agents.length)
  {admitted : Admitted Print Device}
include numbered

/-- A registration brings a new connection into the map, in the place of an older one. -/
theorem inMap_serve (held : (s.serve admitted).1.InMap ac) :
    s.InMap ac ∨ admitted.restricted = false ∧ ac.print = admitted.print := by
  obtain ⟨device, id, found, here⟩ := held
  rw [Server.serve] at found here
  split at found
  next limited =>
    rw [if_pos limited, List.getElem?_append_left (numbered device id found)] at here
    exact .inl ⟨device, id, found, here⟩
  next whole =>
    rw [if_neg whole] at here
    rw [insert_self] at found
    split at found
    · cases found
      rw [List.getElem?_append_right (Nat.le_refl _), Nat.sub_self] at here
      cases here
      exact .inr ⟨Bool.eq_false_iff.mpr whole, rfl⟩
    · rw [List.getElem?_append_left (numbered device id found)] at here
      exact .inl ⟨device, id, found, here⟩

theorem serve_numbered (device : Device) (id : Nat)
    (found : (s.serve admitted).1.conns[device]? = some id) :
    id < (s.serve admitted).1.agents.length := by
  rw [(serve_agents s admitted).2, List.length_append, List.length_singleton]
  rw [Server.serve] at found
  split at found
  · exact Nat.lt_succ_of_lt (numbered device id found)
  · rw [insert_self] at found
    split at found
    · cases found
      exact Nat.lt_succ_self _
    · exact Nat.lt_succ_of_lt (numbered device id found)

end

theorem unregister_shape (s : Server Print Device) (conn : Nat) (ac : AgentConn Print Device) :
    (s.unregister conn ac).index = s.index ∧ (s.unregister conn ac).agents = s.agents ∧
      ∀ (device : Device) (id : Nat), (s.unregister conn ac).conns[device]? = some id →
        s.conns[device]? = some id := by
  rw [Server.unregister]
  split
  · refine ⟨rfl, rfl, fun device id found => ?_⟩
    rw [erase_self] at found
    split at found
    · cases found
    · exact found
  · exact ⟨rfl, rfl, fun device id found => found⟩

end Server

/-! ## What the index says of certificates it knows -/

def Known [Ord Print] [TransOrd Print] (index : Index Print Device) (print : Print) : Prop :=
  ∃ e : Entry Device, index[print]? = some e

section Ledger

variable [Ord Print] [TransOrd Print] [LawfulEqOrd Print] [DecidableEq Print] [DecidableEq Device]
  {index : Index Print Device} {print other : Print} {e : Entry Device}

omit [DecidableEq Device] in
theorem Known.addNew (known : Known index other) : Known (Certs.addNew index print e) other := by
  obtain ⟨old, here⟩ := known
  cases absent : index[print]? with
  | some held =>
    rw [addNew_of_some absent]
    exact ⟨old, here⟩
  | none =>
    rw [addNew_of_none absent, Known, insert_self]
    split
    · exact ⟨e, rfl⟩
    · exact ⟨old, here⟩

omit [DecidableEq Device] in
theorem known_addNew (print : Print) : Known (addNew index print e) print := by
  cases held : index[print]? with
  | some old =>
    rw [addNew_of_some held]
    exact ⟨old, held⟩
  | none =>
    rw [addNew_of_none held]
    exact ⟨e, by rw [insert_self, if_pos rfl]⟩

theorem Known.see (known : Known index other) : Known (Certs.see index print).1 other := by
  rcases see_cases index print with ⟨same, -⟩ | ⟨e, doomed, -, -, marked, -⟩
  · rw [same]
    exact known
  · obtain ⟨old, here⟩ := known
    rw [marked, Known, insert_self]
    split
    · exact ⟨_, rfl⟩
    · exact ⟨old, here⟩

/-- A certificate that was not seen yet supersedes none. -/
theorem superseded_of_addNew (unseen : e.seen = false) (known : Known index other)
    (after : superseded (addNew index print e) other) : superseded index other := by
  cases absent : index[print]? with
  | some held =>
    rw [addNew_of_some absent] at after
    exact after
  | none =>
    rw [addNew_of_none absent] at after
    obtain ⟨older, here, newest, newer, there, device, seen, later⟩ := superseded_iff.mp after
    obtain ⟨old, was⟩ := known
    rw [insert_self] at here there
    have different : print ≠ other := by
      rintro rfl
      rw [absent] at was
      cases was
    rw [if_neg different] at here
    split at there
    · cases there
      rw [unseen] at seen
      cases seen
    · exact superseded_iff.mpr ⟨older, here, newest, newer, there, device, seen, later⟩

/-- What is superseded once a certificate is seen was superseded before, or is listed. -/
theorem superseded_of_see (after : superseded (see index print).1 other) :
    superseded index other ∨ other ∈ (see index print).2.1 := by
  rcases see_cases index print with ⟨same, -⟩ | ⟨e, doomed, known, -, marked, listed⟩
  · rw [same] at after
    exact .inl after
  · rw [marked] at after ⊢
    obtain ⟨older, here, newest, newer, there, device, seen, later⟩ := superseded_iff.mp after
    rw [insert_self] at here there
    split at there
    next =>
      -- The certificate just seen is the later one.
      cases there
      split at here
      · cases here
        exact absurd (Entry.later_iff.mp later) (lt_irrefl _)
      next different =>
        exact .inr ((listed other).mpr
          ⟨fun same => different same.symm, older, here, device.symm, later⟩)
    · left
      split at here
      next same =>
        cases here
        exact superseded_iff.mpr ⟨e, same ▸ known, newest, newer, there, device, seen, later⟩
      · exact superseded_iff.mpr ⟨older, here, newest, newer, there, device, seen, later⟩

end Ledger

/-! ## Every superseded certificate in the map is on a list still to be closed -/

def Task.doomed : Task Print Device → List Print
  | .closeSuperseded doomed _ | .takeCertificate _ _ doomed => doomed
  | _ => []

def Task.carries : Task Print Device → Option Print
  | .markSeen admitted | .closeSuperseded _ (some admitted) | .serve admitted => some admitted.print
  | .takeCertificate _ print _ => some print
  | _ => none

section Invariant

variable [Ord Print] [Ord Device] [TransOrd Print] [TransOrd Device] [DecidableEq Device]

structure Answered (s : Server Print Device) (tasks : List (Task Print Device)) : Prop where
  numbered : ∀ (device : Device) (id : Nat), s.conns[device]? = some id → id < s.agents.length
  prints : ∀ ac ∈ s.agents, ∀ print ∈ ac.prints, Known s.index print
  carried : ∀ task ∈ tasks, ∀ print ∈ task.carries, Known s.index print
  answered : ∀ ac, s.Stale ac → ∃ task ∈ tasks, ac.print ∈ task.doomed

variable {s s' : Server Print Device} {before after next : List (Task Print Device)}
  {task : Task Print Device}

/-- A step keeps what is on a list, if a certificate that is stale after it is on a list of the
tasks it leaves, or was stale before and not on the list of the task. -/
theorem Answered.run (answered : Answered s (before ++ task :: after))
    (numbered : ∀ (device : Device) (id : Nat), s'.conns[device]? = some id → id < s'.agents.length)
    (index : ∀ print, Known s.index print → Known s'.index print)
    (prints : ∀ ac ∈ s'.agents, ∀ print ∈ ac.prints,
      Known s'.index print ∨ ∃ old ∈ s.agents, print ∈ old.prints)
    (carried : ∀ left ∈ next, ∀ print ∈ left.carries, Known s'.index print)
    (stale : ∀ ac, s'.Stale ac → (∃ left ∈ next, ac.print ∈ left.doomed) ∨
      ac.print ∉ task.doomed ∧ ∃ old, s.Stale old ∧ old.print = ac.print) :
    Answered s' (before ++ next ++ after) := by
  refine ⟨numbered, fun ac here print this => ?_, ?_, fun ac isStale => ?_⟩
  · rcases prints ac here print this with known | ⟨old, there, was⟩
    · exact known
    · exact index print (answered.prints old there print was)
  · exact tasks_run answered.carried (fun _ _ known print this => index print (known print this))
      carried
  · rcases stale ac isStale with ⟨left, here, listed⟩ | ⟨unlisted, old, wasStale, same⟩
    · exact ⟨left, by simp [here], listed⟩
    · refine (exists_task_run (answered.answered old wasStale) next).elim (fun listed => ?_)
        fun rest => same ▸ rest
      exact absurd (same ▸ listed) unlisted

theorem Answered.mem_agents {tasks : List (Task Print Device)} (answered : Answered s tasks)
    {ac : AgentConn Print Device} (held : s.InMap ac) : Known s.index ac.print := by
  obtain ⟨device, id, -, here⟩ := held
  exact answered.prints ac (mem_of_getElem? here) _ List.mem_cons_self

/-- A step of the ledger: the connections stay, and what becomes superseded is on the list of a
task it leaves. -/
theorem Answered.same {fresh : List Print} (answered : Answered s (before ++ task :: after))
    (same : Server.SameConns s s' fresh) (closes : task.doomed = [])
    (index : ∀ print, Known s.index print → Known s'.index print)
    (issued : ∀ print ∈ fresh, Known s'.index print)
    (carried : ∀ left ∈ next, ∀ print ∈ left.carries, Known s'.index print)
    (stale : ∀ print, Known s.index print → superseded s'.index print →
      superseded s.index print ∨ ∃ left ∈ next, print ∈ left.doomed) :
    Answered s' (before ++ next ++ after) := by
  refine answered.run ?_ index (fun ac here print this => ?_) carried fun ac isStale => ?_
  · rw [same.conns, same.length]
    exact answered.numbered
  · exact (same.agents ac here print this).imp_left (issued print)
  · obtain ⟨old, there, print, told⟩ := same.held ac isStale.held
    rcases stale ac.print (print ▸ answered.mem_agents there) isStale.superseded with was | listed
    · refine .inr ⟨by rw [closes]; exact not_mem_nil, old, ?_, print⟩
      exact ⟨there, told.trans isStale.untold, print ▸ was⟩
    · exact .inl listed

end Invariant

section Steps

variable [Ord Print] [Ord Device] [TransOrd Print] [TransOrd Device] [DecidableEq Print]
  [DecidableEq Device] {s s' : Server Print Device} {before after next : List (Task Print Device)}
  {task : Task Print Device}

/-- The connections of the map are closed where they present what is doomed. -/
theorem stale_of_closeSuperseded [LawfulEqOrd Device] {doomed : List Print}
    {ac : AgentConn Print Device} (stale : (s.closeSuperseded doomed).Stale ac) :
    ac.print ∉ doomed ∧ s.Stale ac := by
  obtain ⟨⟨device, id, found, here⟩, untold, superseded⟩ := stale
  simp only [Server.closeSuperseded, List.getElem?_mapIdx, map_eq_some_iff] at here
  obtain ⟨old, there, same⟩ := here
  have live : s.live id := by
    rw [Server.live, Bool.or_eq_true, List.any_eq_true]
    exact .inl ⟨(device, id), ExtTreeMap.mem_toList_iff_getElem?_eq_some.mpr found,
      decide_eq_true rfl⟩
  rw [live, Bool.true_and] at same
  split at same
  · rw [← same] at untold
    cases untold
  next spared =>
    subst same
    refine ⟨fun listed => spared (List.contains_iff_mem.mpr listed), ⟨device, id, found, there⟩,
      untold, ?_⟩
    exact superseded

variable [LawfulEqOrd Print] [LawfulEqOrd Device]

theorem exec_answered (ran : s.exec task = some (s', next))
    (allowed : Unsuperseded ⟨s, before ++ task :: after⟩ task)
    (answered : Answered s (before ++ task :: after)) : Answered s' (before ++ next ++ after) := by
  have nothing := forall_mem_nil fun left : Task Print Device =>
    ∀ print ∈ left.carries, Known s'.index print
  cases task with
  | record print leaf source issuedAt =>
    cases ran
    refine answered.same (.of_eq rfl rfl) rfl (fun _ known => known.addNew)
      (forall_mem_nil _) nothing fun other known after => .inl ?_
    exact superseded_of_addNew rfl known after
  | issue conn print notBefore issuedAt =>
    obtain ⟨ac, here, ran⟩ := map_eq_some_iff.mp ran
    cases ran
    refine answered.same (.of_set { ac with issued := some print } here rfl rfl rfl rfl) rfl
      (fun _ known => known.addNew)
      (fun cert fresh => ?_) nothing fun other known after => .inl ?_
    · cases mem_toList.mp fresh
      exact known_addNew ..
    · exact superseded_of_addNew rfl known after
  | admitConn print restricted =>
    rw [Server.exec] at ran
    have stays : ∀ next : List (Task Print Device), (∀ left ∈ next, ∀ print ∈ left.carries,
        Known s.index print) → Answered s (before ++ next ++ after) := by
      intro next carried
      exact answered.same (.of_eq rfl rfl) rfl (fun _ known => known)
        (forall_mem_nil _) carried fun other _ after => .inl after
    split at ran
    · cases ran
      exact stays [] nothing
    next e here =>
      split at ran
      · cases ran
        exact stays [] nothing
      · cases ran
        refine stays _ fun left only print carries => ?_
        rw [List.mem_singleton.mp only] at carries
        cases carries
        exact ⟨e, here⟩
  | markSeen admitted =>
    cases ran
    refine answered.same (.of_eq rfl rfl) rfl (fun _ known => known.see)
      (forall_mem_nil _) (fun left only print carries => ?_)
      fun other _ after => ?_
    · rw [List.mem_singleton.mp only] at carries
      exact (answered.carried (.markSeen admitted) (by simp) print carries).see
    · rcases superseded_of_see after with was | listed
      · exact .inl was
      · exact .inr ⟨_, List.mem_singleton.mpr rfl, listed⟩
  | closeSuperseded doomed rest =>
    cases ran
    refine answered.run ?_ (fun _ known => known) (fun ac here print this => .inr ?_) ?_
      fun ac stale => .inr ?_
    · rw [Server.closeSuperseded, List.length_mapIdx]
      exact answered.numbered
    · obtain ⟨old, there, same⟩ := Server.closeSuperseded_agents here
      exact ⟨old, there, same ▸ this⟩
    · intro left this print carries
      obtain ⟨admitted, there, rfl⟩ := map_eq_some_iff.mp (mem_toList.mp this)
      cases there
      exact answered.carried (.closeSuperseded doomed (some admitted)) (by simp) print carries
    · obtain ⟨unlisted, was⟩ := stale_of_closeSuperseded stale
      exact ⟨unlisted, ac, was, rfl⟩
  | serve admitted =>
    have served := Option.some.inj ran
    obtain rfl : (s.serve admitted).1 = s' := congrArg Prod.fst served
    obtain rfl : (s.serve admitted).2 = next := congrArg Prod.snd served
    obtain ⟨index, agents⟩ := Server.serve_agents s admitted
    refine answered.run (Server.serve_numbered answered.numbered) (fun _ known => index ▸ known)
      (fun ac here print this => ?_) ?_ fun ac stale => .inr ⟨not_mem_nil, ?_⟩
    · rw [agents] at here
      rcases List.mem_append.mp here with before | new
      · exact .inr ⟨ac, before, this⟩
      · rw [List.mem_singleton.mp new] at this
        rw [index, List.mem_singleton.mp this]
        exact .inl (answered.carried (.serve admitted) (by simp) admitted.print rfl)
    · intro left this print carries
      rw [Server.serve] at this
      split at this
      · exact absurd this not_mem_nil
      · obtain ⟨older, -, rfl⟩ := map_eq_some_iff.mp (mem_toList.mp this)
        cases carries
    · obtain ⟨held, untold, after⟩ := stale
      rw [index] at after
      rcases Server.inMap_serve answered.numbered held with was | ⟨whole, same⟩
      · exact ⟨ac, ⟨was, untold, after⟩, rfl⟩
      · rcases allowed with limited | current
        · rw [whole] at limited
          cases limited
        · rw [same, current] at after
          cases after
  | retire older =>
    cases ran
    refine answered.run ?_ (fun _ known => known) (fun ac here print this => .inr ?_) nothing
      fun ac stale => .inr ⟨not_mem_nil, ?_⟩
    · rw [Server.close, List.length_modify]
      exact answered.numbered
    · obtain ⟨old, there, same⟩ := Server.close_agents here
      exact ⟨old, there, same ▸ this⟩
    · exact ⟨ac, ⟨Server.inMap_close stale.held stale.untold, stale.untold, stale.superseded⟩, rfl⟩
  | installed conn =>
    obtain ⟨ac, here, ran⟩ := bind_eq_some_iff.mp ran
    split at ran
    · cases ran
      exact answered.same (.of_eq rfl rfl) rfl (fun _ known => known)
        (forall_mem_nil _) nothing fun other _ after => .inl after
    next print issued =>
      cases ran
      refine answered.same (.of_set { ac with issued := none } here rfl rfl rfl rfl) rfl
        (fun _ known => known.see)
        (forall_mem_nil _)
        (fun left only cert carries => ?_) fun other _ after => ?_
      · rw [List.mem_singleton.mp only] at carries
        cases carries
        have own : print ∈ ac.prints := List.mem_cons_of_mem _ (mem_toList.mpr issued)
        exact (answered.prints ac (mem_of_getElem? here) print own).see
      · rcases superseded_of_see after with was | listed
        · exact .inl was
        · exact .inr ⟨_, List.mem_singleton.mpr rfl, listed⟩
  | takeCertificate conn print doomed =>
    obtain ⟨ac, here, ran⟩ := map_eq_some_iff.mp ran
    cases ran
    refine answered.run ?_ (fun _ known => known) (fun other there cert this => ?_) ?_
      fun other stale => ?_
    · rw [List.length_set]
      exact answered.numbered
    · rcases List.mem_or_eq_of_mem_set there with before | rfl
      · exact .inr ⟨other, before, this⟩
      · rcases List.mem_cons.mp this with rfl | issued
        · exact .inl (answered.carried (.takeCertificate conn cert doomed) (by simp) cert rfl)
        · exact .inr ⟨ac, mem_of_getElem? here, List.mem_cons_of_mem _ issued⟩
    · intro left only cert carries
      rw [List.mem_singleton.mp only] at carries
      cases carries
    · obtain ⟨held, untold, after⟩ := stale
      rcases Server.inMap_set held here rfl rfl with ⟨rfl, -⟩ | was
      · exact absurd (allowed.symm.trans after) Bool.false_ne_true
      · by_cases listed : other.print ∈ doomed
        · exact .inl ⟨_, List.mem_singleton.mpr rfl, listed⟩
        · exact .inr ⟨listed, other, ⟨was, untold, after⟩, rfl⟩
  | unregister conn =>
    obtain ⟨ac, here, ran⟩ := map_eq_some_iff.mp ran
    cases ran
    obtain ⟨index, agents, conns⟩ := s.unregister_shape conn ac
    refine answered.run (fun device id found => ?_) (fun _ known => index ▸ known)
      (fun ac here print this => .inr ⟨ac, agents ▸ here, this⟩) nothing
      fun other stale => .inr ⟨not_mem_nil, ?_⟩
    · rw [agents]
      exact answered.numbered device id (conns device id found)
    · obtain ⟨⟨device, id, found, there⟩, untold, after⟩ := stale
      rw [agents] at there
      rw [index] at after
      exact ⟨other, ⟨⟨device, id, conns device id found, there⟩, untold, after⟩, rfl⟩

/-- Once every call has finished, a connection in the map that was not told to close presents
no superseded certificate, in every run where certificates come into the map only while they
are not superseded. -/
theorem superseded_are_told (w : World Print Device) (reached : ServerReached Unsuperseded w)
    (finished : w.tasks = []) (device : Device) (id : Nat) (ac : AgentConn Print Device)
    (held : w.shared.conns[device]? = some id) (here : w.shared.agents[id]? = some ac)
    (untold : ac.told = false) : superseded w.shared.index ac.print = false := by
  have first : Answered (Server.new : Server Print Device) [] := by
    refine ⟨?_, forall_mem_nil _, forall_mem_nil _, ?_⟩
    · intro device id found
      cases found
    · rintro ac ⟨⟨device, id, found, -⟩, -, -⟩
      cases found
  have answered : Answered w.shared w.tasks := by
    refine PoolReached.invariant (I := Answered) first ?_ ?_ reached
    · rintro s tasks task call ⟨numbered, prints, carried, answered⟩
      refine ⟨numbered, prints, tasks_begin carried fun print carries => ?_, fun ac stale => ?_⟩
      · cases task <;> cases call <;> cases carries
      · obtain ⟨other, there, listed⟩ := answered ac stale
        exact ⟨other, List.mem_append_left _ there, listed⟩
    · exact fun s s' before after next task ran allowed answered =>
        exec_answered ran allowed answered
  refine Bool.eq_false_iff.mpr fun stale => ?_
  obtain ⟨task, none, -⟩ := answered.answered ac ⟨⟨device, id, held, here⟩, untold, stale⟩
  rw [finished] at none
  exact absurd none not_mem_nil

end Steps

instance Task.decidableCalls (task : Task Print Device) : Decidable task.Calls := by
  unfold Task.Calls
  split <;> infer_instance

/-- A machine's first certificate and its renewal, each presented on a connection of its own;
then the tasks at the places go on. -/
def presented (places : List Nat) : List (Choice (Task Nat Nat)) :=
  [.begin (.record 0 ⟨0, 10⟩ .enroll 10), .run 0, .begin (.record 1 ⟨0, 20⟩ .renew 20), .run 0,
    .begin (.admitConn 0 false), .begin (.admitConn 1 false)] ++ places.map .run

/-- All calls have finished, the second connection is in the map and was not told to close, and
the first certificate is superseded. -/
def secondHeld (w : World Nat Nat) : Bool :=
  w.tasks.isEmpty && w.shared.conns[0]? == some 1
    && w.shared.agents[1]?.any (fun ac => !ac.told) && superseded w.shared.index 0

/-- The older certificate is registered before the newer one is seen. -/
theorem superseded_are_told_renewed :
    ∃ w : World Nat Nat, secondHeld w = true ∧
      ∃ ac, w.shared.agents[1]? = some ac ∧ superseded w.shared.index ac.print = false := by
  obtain ⟨w, reached, good⟩ : ∃ w, ServerReached Unsuperseded w ∧ secondHeld w :=
    exists_reached_of_follow (presented [0, 0, 0, 0, 0, 0, 0, 0, 0]) (by decide) (by decide +kernel)
  refine ⟨w, good, ?_⟩
  simp only [secondHeld, Bool.and_eq_true, beq_iff_eq, any_eq_true, Bool.not_eq_true',
    List.isEmpty_iff] at good
  obtain ⟨⟨⟨finished, held⟩, ac, there, untold⟩, -⟩ := good
  exact ⟨ac, there, superseded_are_told w reached finished 0 1 ac held there untold⟩

/-- The older certificate is admitted, the newer one is seen and closes what the map holds, and
then the older one is registered: it takes the newer one's place. -/
theorem superseded_registers_late :
    ∃ w : World Nat Nat, ServerReached (fun _ _ => True) w ∧ w.tasks = [] ∧
      ∃ ac, w.shared.conns[0]? = some 1 ∧ w.shared.agents[1]? = some ac ∧
        ac.told = false ∧ superseded w.shared.index ac.print = true := by
  obtain ⟨w, reached, finished, held, second⟩ : ∃ w : World Nat Nat,
      ServerReached (fun _ _ => True) w ∧ w.tasks = [] ∧ w.shared.conns[0]? = some 1 ∧
      w.shared.agents[1]?.any (fun ac => !ac.told && superseded w.shared.index ac.print) :=
    exists_reached_of_follow (presented [0, 0, 0, 1, 1, 1, 1, 0, 0]) (by decide) (by decide +kernel)
  simp only [any_eq_true, Bool.and_eq_true, Bool.not_eq_true'] at second
  obtain ⟨ac, there, untold, stale⟩ := second
  exact ⟨w, reached, finished, ac, held, there, untold, stale⟩

end OpenGate.Certs
