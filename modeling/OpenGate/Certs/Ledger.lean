import OpenGate.Lib.Events
import OpenGate.Lib.OrderedMap

/-!
# The certificate ledger

`certledger/store.go` and `certledger/upkeep.go`: every certificate the server issued, in a
table and in an index held in memory that answers admission.  A certificate that was seen
supersedes the earlier ones of its device; the index knows at once, the table after a write
that is made once, behind the caller.

The index follows the table up to sightings that are not written (`Follows`).  What a
restart keeps of the superseding is `restart_keeps_superseded_iff`.
-/

namespace OpenGate.Certs

open OpenGate.Lib Std List Bool ExtTreeMap

inductive Source where
  | enroll
  | renew
  deriving DecidableEq

/-- What a leaf says of its device and of its validity; times are whole microseconds, as the
table holds them. -/
structure Leaf (Device : Type) where
  deviceId : Device
  notBefore : Int
  deriving DecidableEq

structure Entry (Device : Type) where
  deviceId : Device
  notBefore : Int
  source : Source
  issuedAt : Int
  seen : Bool
  deriving DecidableEq

variable {Print Device : Type}

/-- Orders a device's certificates by validity start, then by issue time. -/
def Entry.later (e other : Entry Device) : Bool :=
  if e.notBefore ≠ other.notBefore then other.notBefore < e.notBefore
  else other.issuedAt < e.issuedAt

structure Row (Device : Type) where
  deviceId : Device
  notBefore : Int
  source : Source
  issuedAt : Int
  firstSeenAt : Option Int
  deriving DecidableEq

def Row.entry (row : Row Device) : Entry Device :=
  ⟨row.deviceId, row.notBefore, row.source, row.issuedAt, row.firstSeenAt.isSome⟩

/-- What the insert of a certificate writes. -/
def rowFor (leaf : Leaf Device) (source : Source) (issuedAt : Int) : Row Device :=
  ⟨leaf.deviceId, leaf.notBefore, source, issuedAt, none⟩

/-- The index by fingerprint; the entries of a device are those that name it. -/
abbrev Index (Print Device : Type) [Ord Print] := ExtTreeMap Print (Entry Device) Ord.compare

abbrev Table (Print Device : Type) [Ord Print] := ExtTreeMap Print (Row Device) Ord.compare

section Functions

variable [Ord Print] [TransOrd Print] [DecidableEq Print] [DecidableEq Device]

def addNew {β : Type} (held : ExtTreeMap Print β Ord.compare) (print : Print) (value : β) :
    ExtTreeMap Print β Ord.compare :=
  if held.contains print then held else held.insert print value

def supersededLocked (index : Index Print Device) (e : Entry Device) : Bool :=
  index.toList.any fun other => other.2.deviceId = e.deviceId && other.2.seen && other.2.later e

/-- Whether a later certificate for the same device has been seen. -/
def superseded (index : Index Print Device) (print : Print) : Bool :=
  index[print]?.any (supersededLocked index)

/-- Marks a certificate seen and lists the device's other certificates that are now superseded. -/
def see (index : Index Print Device) (print : Print) : Index Print Device × List Print × Bool :=
  match index[print]? with
  | none => (index, [], false)
  | some e =>
    if e.seen then (index, [], false)
    else (index.insert print { e with seen := true },
      (index.toList.filter fun other =>
        other.2.deviceId = e.deviceId && other.1 ≠ print && e.later other.2).map Prod.fst,
      true)

def warm (table : Table Print Device) : Index Print Device :=
  table.map fun _ row => row.entry

/-- `UPDATE … SET first_seen_at = … WHERE fingerprint = … AND first_seen_at IS NULL`. -/
def writeSeen (table : Table Print Device) (print : Print) (time : Int) : Table Print Device :=
  match table[print]? with
  | some row =>
    if row.firstSeenAt.isNone then table.insert print { row with firstSeenAt := some time }
    else table
  | none => table

end Functions

/-! ## The order of certificates -/

def Entry.rank (e : Entry Device) : Int ×ₗ Int := toLex (e.notBefore, e.issuedAt)

theorem Entry.later_iff {e other : Entry Device} : e.later other ↔ other.rank < e.rank := by
  rw [later, rank, rank, Prod.Lex.toLex_lt_toLex]
  split
  next different =>
    rw [decide_eq_true_iff]
    constructor
    · exact .inl
    · rintro (before | ⟨same, -⟩)
      · exact before
      · exact absurd same.symm different
  next same =>
    rw [decide_eq_true_iff]
    have same := not_not.mp same
    constructor
    · exact fun before => .inr ⟨same.symm, before⟩
    · rintro (before | ⟨-, before⟩)
      · exact absurd same (Int.ne_of_gt before)
      · exact before

/-! ## The index -/

section Added

variable [Ord Print] [TransOrd Print] {β : Type} {held : ExtTreeMap Print β Ord.compare}
  {print : Print} {value : β}

theorem addNew_of_some {old : β} (here : held[print]? = some old) :
    addNew held print value = held := by
  refine if_pos ?_
  rw [contains_eq_isSome_getElem?, here]
  rfl

theorem addNew_of_none (absent : held[print]? = none) :
    addNew held print value = held.insert print value := by
  refine if_neg ?_
  rw [contains_eq_isSome_getElem?, absent]
  exact false_ne_true

theorem insert_same [LawfulEqOrd Print] [DecidableEq Print] (here : held[print]? = some value) :
    held.insert print value = held := by
  refine ext_getElem? fun other => ?_
  rw [insert_self]
  split
  next same => rw [← same, here]
  · rfl

end Added

section Index

variable [Ord Print] [TransOrd Print] [LawfulEqOrd Print] [DecidableEq Print] [DecidableEq Device]
  {index : Index Print Device} {print : Print} {e : Entry Device}

omit [DecidableEq Print] in
theorem supersededLocked_iff :
    supersededLocked index e ↔
      ∃ (other : Print) (newer : Entry Device), index[other]? = some newer ∧
        newer.deviceId = e.deviceId ∧ newer.seen ∧ newer.later e := by
  rw [supersededLocked, any_eq_true]
  constructor
  · rintro ⟨⟨other, newer⟩, here, holds⟩
    rw [and_eq_true, and_eq_true, decide_eq_true_iff] at holds
    exact ⟨other, newer, mem_toList_iff_getElem?_eq_some.mp here, holds.1.1, holds.1.2, holds.2⟩
  · rintro ⟨other, newer, here, same, seen, later⟩
    refine ⟨(other, newer), mem_toList_iff_getElem?_eq_some.mpr here, ?_⟩
    rw [and_eq_true, and_eq_true, decide_eq_true_iff]
    exact ⟨⟨same, seen⟩, later⟩

omit [DecidableEq Print] in
theorem superseded_iff :
    superseded index print ↔
      ∃ e : Entry Device, index[print]? = some e ∧ ∃ (other : Print) (newer : Entry Device),
        index[other]? = some newer ∧ newer.deviceId = e.deviceId ∧ newer.seen ∧
          newer.later e := by
  rw [superseded, Option.any_eq_true]
  exact exists_congr fun e => and_congr_right fun _ => supersededLocked_iff

/-- A certificate is marked once; what it supersedes is then listed. -/
theorem see_cases (index : Index Print Device) (print : Print) :
    see index print = (index, [], false) ∧ (∀ e ∈ index[print]?, e.seen) ∨
      ∃ e doomed, index[print]? = some e ∧ e.seen = false ∧
        see index print = (index.insert print { e with seen := true }, doomed, true) ∧
        ∀ other, other ∈ doomed ↔
          other ≠ print ∧ ∃ older : Entry Device, index[other]? = some older ∧
          older.deviceId = e.deviceId ∧
            e.later older := by
  cases here : index[print]? with
  | none => exact .inl ⟨by rw [see, here], fun e none => by cases none⟩
  | some e =>
    cases seen : e.seen with
    | true =>
      refine .inl ⟨by rw [see, here]; exact if_pos seen, fun e' same => ?_⟩
      cases same
      exact seen
    | false =>
      refine .inr ⟨e, _, rfl, seen, by rw [see, here]; exact if_neg (by simp [seen]), fun other =>
        ?_⟩
      rw [mem_map]
      constructor
      · rintro ⟨⟨other, older⟩, listed, rfl⟩
        obtain ⟨held, holds⟩ := mem_filter.mp listed
        rw [and_eq_true, and_eq_true, decide_eq_true_iff, decide_eq_true_iff] at holds
        exact ⟨holds.1.2, older, mem_toList_iff_getElem?_eq_some.mp held, holds.1.1, holds.2⟩
      · rintro ⟨different, older, held, same, later⟩
        refine ⟨(other, older), mem_filter.mpr
          ⟨mem_toList_iff_getElem?_eq_some.mpr held, ?_⟩, rfl⟩
        rw [and_eq_true, and_eq_true, decide_eq_true_iff, decide_eq_true_iff]
        exact ⟨⟨same, different⟩, later⟩

end Index

/-! ## The store over its table -/

/-- The ledger: its index, its table and the sightings whose write is begun behind the caller. -/
structure Store (Print Device : Type) [Ord Print] where
  index : Index Print Device
  table : Table Print Device
  writes : List (Print × Int)

/-- The calls of the store, the writes made behind them, and a restart; a write may fail. -/
inductive StoreEvent (Print Device : Type) where
  | record (print : Print) (leaf : Leaf Device) (source : Source) (issuedAt : Int) (stored : Bool)
  | markSeen (print : Print) (time : Int)
  | persistSeen (write : Nat) (stored : Bool)
  | markInstalled (print : Print) (time : Int) (stored : Bool)
  | restart

namespace Store

variable [Ord Print] [TransOrd Print] [DecidableEq Print] [DecidableEq Device]

def new : Store Print Device := ⟨∅, ∅, []⟩

/-- An insert that fails leaves the index unchanged. -/
def record (s : Store Print Device) (print : Print) (leaf : Leaf Device) (source : Source)
    (issuedAt : Int) (stored : Bool) : Store Print Device :=
  if stored then
    { s with
      table := addNew s.table print (rowFor leaf source issuedAt)
      index := addNew s.index print (rowFor leaf source issuedAt).entry }
  else s

/-- Makes a presented certificate current in memory at once and on disk behind the caller. -/
def markSeen (s : Store Print Device) (print : Print) (time : Int) :
    Store Print Device × List Print :=
  match see s.index print with
  | (index, doomed, true) => ({ s with index, writes := s.writes ++ [(print, time)] }, doomed)
  | (index, doomed, false) => ({ s with index }, doomed)

def persist (s : Store Print Device) (print : Print) (time : Int) (stored : Bool) :
    Store Print Device :=
  if stored then { s with table := writeSeen s.table print time } else s

/-- Makes a renewed certificate current once the machine reports it saved. -/
def markInstalled (s : Store Print Device) (print : Print) (time : Int) (stored : Bool) :
    Store Print Device × List Print :=
  match see s.index print with
  | (index, doomed, true) => ({ s with index }.persist print time stored, doomed)
  | (index, doomed, false) => ({ s with index }, doomed)

def restart (s : Store Print Device) : Store Print Device := ⟨warm s.table, s.table, []⟩

def act (s : Store Print Device) : StoreEvent Print Device → Option (Store Print Device)
  | .record print leaf source issuedAt stored => some (s.record print leaf source issuedAt stored)
  | .markSeen print time => some (s.markSeen print time).1
  | .persistSeen write stored => s.writes[write]?.map fun sighting =>
    { s with writes := s.writes.eraseIdx write }.persist sighting.1 sighting.2 stored
  | .markInstalled print time stored => some (s.markInstalled print time stored).1
  | .restart => some s.restart

abbrev Reached : Store Print Device → Prop := Runs act (fun _ _ => True) new

end Store

/-! ## The index follows the table -/

/-- An entry is what its row says, but for a sighting that is not written. -/
def Follows (row : Row Device) (e : Entry Device) : Prop :=
  e = row.entry ∨ e = { row.entry with seen := true }

theorem Follows.seen {row : Row Device} {e : Entry Device} (follows : Follows row e)
    (seen : row.firstSeenAt.isSome) : e = row.entry := by
  rcases follows with same | same
  · exact same
  · rw [same, Row.entry, seen]

theorem Follows.rank {row : Row Device} {e : Entry Device} (follows : Follows row e) :
    e.rank = row.entry.rank ∧ e.deviceId = row.deviceId := by
  rcases follows with rfl | rfl
  · exact ⟨rfl, rfl⟩
  · exact ⟨rfl, rfl⟩

namespace Store

variable [Ord Print]

/-- The index holds the certificates of the table. -/
def Backed [TransOrd Print] (s : Store Print Device) : Prop :=
  ∀ print : Print, Option.Rel Follows s.table[print]? s.index[print]?

variable [TransOrd Print] {s s' : Store Print Device} {print : Print} {e : Entry Device}

theorem Backed.entry (backed : s.Backed) {row : Row Device} (here : s.table[print]? = some row) :
    ∃ e, s.index[print]? = some e ∧ Follows row e := by
  have rel := backed print
  rw [here] at rel
  generalize s.index[print]? = index at rel
  cases rel with
  | some follows => exact ⟨_, rfl, follows⟩

theorem Backed.row (backed : s.Backed) (here : s.index[print]? = some e) :
    ∃ row, s.table[print]? = some row ∧ Follows row e := by
  have rel := backed print
  rw [here] at rel
  generalize s.table[print]? = table at rel
  cases rel with
  | some follows => exact ⟨_, rfl, follows⟩

variable [LawfulEqOrd Print] [DecidableEq Print] [DecidableEq Device]

omit [DecidableEq Device] in
/-- Both sides of one certificate are changed together. -/
theorem Backed.update (backed : s.Backed) (print : Print) (row : Row Device) (e : Entry Device)
    (follows : Follows row e) (table : s'.table = s.table.insert print row)
    (index : s'.index = s.index.insert print e) : s'.Backed := by
  intro other
  rw [table, index, insert_self, insert_self]
  split
  · exact .some follows
  · exact backed other

omit [DecidableEq Device] in
theorem record_backed (backed : s.Backed) (leaf : Leaf Device) (source : Source) (issuedAt : Int)
    {stored : Bool} : (s.record print leaf source issuedAt stored).Backed := by
  cases stored with
  | false => exact backed
  | true =>
    rw [record, if_pos rfl]
    cases known : s.table[print]? with
    | some row =>
      obtain ⟨e, here, -⟩ := backed.entry known
      rw [addNew_of_some known, addNew_of_some here]
      exact backed
    | none =>
      have absent : s.index[print]? = none := by
        cases here : s.index[print]? with
        | none => rfl
        | some e =>
          obtain ⟨row, stored, -⟩ := backed.row here
          rw [known] at stored
          cases stored
      rw [addNew_of_none known, addNew_of_none absent]
      exact backed.update print _ _ (.inl rfl) rfl rfl

/-- A sighting is known to the index before it is written. -/
theorem see_backed (backed : s.Backed) (index : s'.index = (see s.index print).1)
    (table : s'.table = s.table) : s'.Backed := by
  rcases see_cases s.index print with ⟨same, -⟩ | ⟨e, doomed, here, -, marked, -⟩
  · intro other
    rw [table, index, same]
    exact backed other
  · obtain ⟨row, stored, follows⟩ := backed.row here
    refine backed.update print row { e with seen := true } (.inr ?_) ?_ ?_
    · rcases follows with rfl | rfl
      · rfl
      · rfl
    · rw [table, insert_same stored]
    · rw [index, marked]

omit [DecidableEq Device] in
/-- The write of a sighting the index knows. -/
theorem persist_backed (backed : s.Backed) (print : Print) (time : Int) (stored : Bool)
    (seen : ∀ e ∈ s.index[print]?, e.seen) : (s.persist print time stored).Backed := by
  cases stored with
  | false => exact backed
  | true =>
    rw [persist, if_pos rfl, writeSeen]
    split
    next row known =>
      obtain ⟨e, here, follows⟩ := backed.entry known
      split
      next first =>
        refine backed.update print { row with firstSeenAt := some time } e (.inl ?_) rfl
          (insert_same here).symm
        have marked := seen e here
        rcases follows with rfl | rfl
        · rw [Row.entry, Option.isNone_iff_eq_none.mp first] at marked
          cases marked
        · rfl
      · exact backed
    · exact backed

def Sighted (index : Index Print Device) (print : Print) : Prop :=
  ∃ e : Entry Device, index[print]? = some e ∧ e.seen = true

variable {index : Index Print Device} {other : Print}

omit [DecidableEq Device] in
theorem Sighted.addNew (sighted : Sighted index other) :
    Sighted (Certs.addNew index print e) other := by
  obtain ⟨old, here, seen⟩ := sighted
  cases known : index[print]? with
  | some held =>
    rw [addNew_of_some known]
    exact ⟨old, here, seen⟩
  | none =>
    rw [addNew_of_none known]
    refine ⟨old, ?_, seen⟩
    rw [insert_self, if_neg ?_]
    · exact here
    · rintro rfl
      rw [known] at here
      cases here

theorem Sighted.see (sighted : Sighted index other) : Sighted (Certs.see index print).1 other := by
  rcases see_cases index print with ⟨same, -⟩ | ⟨e, doomed, -, -, marked, -⟩
  · rw [same]
    exact sighted
  · obtain ⟨old, here, seen⟩ := sighted
    rw [marked]
    by_cases this : print = other
    · exact ⟨{ e with seen := true }, by rw [insert_self, if_pos this], rfl⟩
    · exact ⟨old, by rw [insert_self, if_neg this]; exact here, seen⟩

/-- What `see` changes is seen. -/
theorem sighted_of_changed (changed : (see index print).2.2) :
    Sighted (see index print).1 print := by
  rcases see_cases index print with ⟨same, -⟩ | ⟨e, doomed, -, -, marked, -⟩
  · rw [same] at changed
    cases changed
  · rw [marked]
    exact ⟨{ e with seen := true }, by rw [insert_self, if_pos rfl], rfl⟩

/-- The index is backed, and every write begun is of a sighting the index knows. -/
structure Sound (s : Store Print Device) : Prop where
  backed : s.Backed
  begun : ∀ write ∈ s.writes, Sighted s.index write.1

omit [DecidableEq Device] in
theorem Sound.persist (sound : s.Sound) (time : Int) (stored : Bool)
    (sighted : Sighted s.index print) : (s.persist print time stored).Sound := by
  obtain ⟨e, here, seen⟩ := sighted
  have backed := persist_backed sound.backed print time stored fun e' same => by
    cases here.symm.trans same
    exact seen
  refine ⟨backed, ?_⟩
  cases stored with
  | false | true => exact sound.begun

theorem act_sound {event : StoreEvent Print Device} (acts : s.act event = some s')
    (sound : s.Sound) : s'.Sound := by
  cases event with
  | record print leaf source issuedAt stored =>
    cases acts
    refine ⟨record_backed sound.backed leaf source issuedAt, ?_⟩
    cases stored with
    | false => exact sound.begun
    | true => exact fun write begun => (sound.begun write begun).addNew
  | markSeen print time =>
    cases acts
    have backed : Backed { s with index := (see s.index print).1 } :=
      see_backed sound.backed rfl rfl
    have begun : ∀ write ∈ s.writes, Sighted (see s.index print).1 write.1 :=
      fun write begun => (sound.begun write begun).see
    rw [markSeen]
    split
    next index doomed seeing =>
      have sighted : Sighted (see s.index print).1 print := sighted_of_changed (by rw [seeing])
      rw [seeing] at backed begun sighted
      refine ⟨backed, fun write added => ?_⟩
      rcases mem_append.mp added with before | this
      · exact begun write before
      · rw [mem_singleton.mp this]
        exact sighted
    next index doomed seeing =>
      rw [seeing] at backed begun
      exact ⟨backed, begun⟩
  | persistSeen write stored =>
    obtain ⟨sighting, here, rfl⟩ := Option.map_eq_some_iff.mp acts
    have sound' : Sound { s with writes := s.writes.eraseIdx write } :=
      ⟨sound.backed, fun other left => sound.begun other (mem_of_mem_eraseIdx left)⟩
    exact sound'.persist sighting.2 stored (sound.begun sighting (mem_of_getElem? here))
  | markInstalled print time stored =>
    cases acts
    have sound' : Sound { s with index := (see s.index print).1 } :=
      ⟨see_backed sound.backed rfl rfl, fun write begun => (sound.begun write begun).see⟩
    rw [markInstalled]
    split
    next index doomed seeing =>
      have sighted : Sighted (see s.index print).1 print := sighted_of_changed (by rw [seeing])
      rw [seeing] at sound' sighted
      exact sound'.persist time stored sighted
    next index doomed seeing =>
      rw [seeing] at sound'
      exact sound'
  | restart =>
    cases acts
    refine ⟨fun print => ?_, forall_mem_nil _⟩
    rw [restart, warm, ExtTreeMap.getElem?_map]
    cases s.table[print]? with
    | none => exact .none
    | some row => exact .some (.inl rfl)

theorem reached_sound (reached : Reached s) : s.Sound := by
  refine Runs.invariant (I := Sound) ⟨fun print => ?_, forall_mem_nil _⟩
    (fun s event s' _ acts sound => act_sound acts sound) reached
  rw [new, ExtTreeMap.getElem?_empty, ExtTreeMap.getElem?_empty]
  exact .none

/-- A certificate presented again changes nothing: no write is begun for it. -/
theorem markSeen_again (sighted : Sighted s.index print) {time : Int} :
    s.act (.markSeen print time) = some s := by
  obtain ⟨e, here, seen⟩ := sighted
  have same : see s.index print = (s.index, [], false) := by
    rcases see_cases s.index print with ⟨same, -⟩ | ⟨e', doomed, there, unseen, -⟩
    · exact same
    · rw [here] at there
      cases there
      rw [seen] at unseen
      cases unseen
  rw [act, markSeen, same]

/-! ## What a restart keeps -/

/-- The certificates of a device whose sighting the table holds. -/
def StoredSeen (s : Store Print Device) (device : Device) (print : Print) (row : Row Device) :
    Prop :=
  s.table[print]? = some row ∧ row.deviceId = device ∧ row.firstSeenAt.isSome = true

omit [DecidableEq Print] in
theorem superseded_restart_iff (backed : s.Backed) :
    superseded s.restart.index print ↔
      ∃ e : Entry Device, s.index[print]? = some e ∧ ∃ (other : Print) (row : Row Device),
        s.StoredSeen e.deviceId other row ∧ e.rank < row.entry.rank := by
  rw [superseded_iff]
  simp only [restart, warm, ExtTreeMap.getElem?_map, Option.map_eq_some_iff]
  constructor
  · rintro ⟨_, ⟨row, here, rfl⟩, other, _, ⟨newer, there, rfl⟩, same, seen, later⟩
    obtain ⟨e, held, follows⟩ := backed.entry here
    obtain ⟨rank, device⟩ := follows.rank
    refine ⟨e, held, other, newer, ⟨there, ?_, seen⟩, ?_⟩
    · rw [device]
      exact same
    · rw [rank]
      exact Entry.later_iff.mp later
  · rintro ⟨e, held, other, newer, ⟨there, same, seen⟩, older⟩
    obtain ⟨row, here, follows⟩ := backed.row held
    obtain ⟨rank, device⟩ := follows.rank
    refine ⟨row.entry, ⟨row, here, rfl⟩, other, newer.entry, ⟨newer, there, rfl⟩, ?_, seen, ?_⟩
    · exact same.trans device
    · rw [Entry.later_iff, ← rank]
      exact older

omit [DecidableEq Print] in
/-- The latest certificate of a device whose sighting the table holds. -/
theorem exists_latest (s : Store Print Device) (device : Device) {row : Row Device}
    (stored : s.StoredSeen device print row) :
    ∃ latest newest, s.StoredSeen device latest newest ∧
      ∀ other row, s.StoredSeen device other row → row.entry.rank ≤ newest.entry.rank := by
  let known :=
    s.table.toList.filter fun held => held.2.deviceId = device && held.2.firstSeenAt.isSome
  have mem_known : ∀ (other : Print) (row : Row Device),
      (other, row) ∈ known ↔ s.StoredSeen device other row := by
    intro other row
    rw [mem_filter, mem_toList_iff_getElem?_eq_some, and_eq_true,
      decide_eq_true_iff]
    rfl
  have some : known ≠ [] := ne_nil_of_mem ((mem_known print row).mpr stored)
  cases best : known.argmax fun held => held.2.entry.rank with
  | none => exact absurd (argmax_eq_none.mp best) some
  | some latest =>
    refine ⟨latest.1, latest.2, (mem_known ..).mp (argmax_mem best), fun other row held => ?_⟩
    exact le_of_mem_argmax (f := fun held : Print × Row Device => held.2.entry.rank)
      ((mem_known other row).mpr held) best

/-- A restart keeps what is superseded exactly when, for every certificate that was seen, the
table holds the sighting of one of its device that is no earlier, or it supersedes nothing. -/
theorem restart_keeps_superseded_iff (s : Store Print Device) (reached : Reached s) :
    (∀ print, superseded s.index print = true → superseded s.restart.index print = true) ↔
      ∀ (print : Print) (e : Entry Device), s.index[print]? = some e → e.seen = true →
        (∃ other row, s.StoredSeen e.deviceId other row ∧ e.later row.entry = false) ∨
        ∀ (other : Print) (older : Entry Device), s.index[other]? = some older →
          older.deviceId = e.deviceId → e.later older = false := by
  have backed := (reached_sound reached).backed
  constructor
  · intro keeps print e here seen
    by_contra neither
    obtain ⟨unwritten, supersedes⟩ := not_or.mp neither
    obtain ⟨other, older, held, device, later⟩ : ∃ (other : Print) (older : Entry Device),
        s.index[other]? = some older ∧ older.deviceId = e.deviceId ∧ e.later older := by
      by_contra none
      refine supersedes fun other older held device => eq_false_iff.mpr fun later => ?_
      exact none ⟨other, older, held, device, later⟩
    have before : superseded s.index other :=
      superseded_iff.mpr ⟨older, held, print, e, here, device.symm, seen, later⟩
    obtain ⟨older', held', print', row, stored, -⟩ :=
      (superseded_restart_iff backed).mp (keeps other before)
    cases held.symm.trans held'
    -- Of the written sightings the latest is itself superseded, by one that is not written.
    obtain ⟨latest, newest, written, top⟩ := exists_latest s older.deviceId stored
    have earlier : e.later newest.entry := by
      by_contra not
      exact unwritten ⟨latest, newest, device ▸ written, eq_false_iff.mpr not⟩
    obtain ⟨known, there, follows⟩ := backed.entry written.1
    have same : known = newest.entry := follows.seen written.2.2
    have gone : superseded s.index latest := by
      refine superseded_iff.mpr ⟨known, there, print, e, here, ?_, seen, same ▸ earlier⟩
      rw [same]
      exact device.symm.trans written.2.1.symm
    obtain ⟨known', there', print'', row'', stored'', above⟩ :=
      (superseded_restart_iff backed).mp (keeps latest gone)
    cases there.symm.trans there'
    subst same
    have stays := top print'' row'' ⟨stored''.1, stored''.2.1.trans written.2.1, stored''.2.2⟩
    exact stays.not_gt above
  · intro written print before
    obtain ⟨older, held, other, e, here, device, seen, later⟩ := superseded_iff.mp before
    rcases written other e here seen with ⟨print', row, stored, notLater⟩ | nothing
    · refine (superseded_restart_iff backed).mpr ⟨older, held, print', row, device ▸ stored, ?_⟩
      have noEarlier : ¬ row.entry.rank < e.rank := by
        rw [← Entry.later_iff, notLater]
        exact false_ne_true
      exact (Entry.later_iff.mp later).trans_le (le_of_not_gt noEarlier)
    · rw [nothing print older held device.symm] at later
      cases later

/-- Two certificates of one machine, the second of which is presented: its sighting is to be
written. -/
def renewed (stored : Bool) : List (StoreEvent Nat Nat) :=
  [.record 0 ⟨0, 10⟩ .enroll 10 true, .record 1 ⟨0, 20⟩ .renew 20 true, .markSeen 1 30,
    .persistSeen 0 stored]

theorem restart_keeps_superseded_iff_written :
    ∃ s : Store Nat Nat, superseded s.index 0 = true ∧ superseded s.restart.index 0 = true := by
  obtain ⟨s, reached, before, stored, top⟩ : ∃ s : Store Nat Nat, Reached s ∧
      superseded s.index 0 ∧ s.table[1]? = some ⟨0, 20, .renew, 20, some 30⟩ ∧
      ∀ held ∈ s.index.toList, 0 = held.2.deviceId ∧
        held.2.later ⟨0, 20, .renew, 20, true⟩ = false :=
    exists_run_of_follow (renewed true) (by decide +kernel)
  refine ⟨s, before,
    (restart_keeps_superseded_iff s reached).mpr (fun print e here _ => .inl ?_) 0 before⟩
  obtain ⟨device, newest⟩ := top (print, e) (mem_toList_iff_getElem?_eq_some.mpr here)
  exact ⟨1, _, ⟨stored, device, rfl⟩, newest⟩

/-- The write fails; the certificate is presented again, which begins no write, and after the
restart the first certificate is superseded by none. -/
theorem restart_forgets_superseded :
    ∃ s : Store Nat Nat, Reached s ∧ s.act (.markSeen 1 40) = some s ∧ s.writes = [] ∧
      superseded s.index 0 = true ∧ superseded s.restart.index 0 = false := by
  obtain ⟨s, reached, seen, rest⟩ : ∃ s : Store Nat Nat, Reached s ∧
      s.index[1]? = some ⟨0, 20, .renew, 20, true⟩ ∧ s.writes = [] ∧
      superseded s.index 0 ∧ superseded s.restart.index 0 = false :=
    exists_run_of_follow (renewed false) (by decide +kernel)
  exact ⟨s, reached, markSeen_again ⟨_, seen, rfl⟩, rest⟩

end Store

end OpenGate.Certs
