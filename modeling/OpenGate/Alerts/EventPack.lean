import OpenGate.Alerts.Sink
import OpenGate.Lib.Text

/-!
# The system-event rule pack

`alerts/event.rs`: the curated rules over log records, the rolling per-service error
count, and the cursor that lets every record be answered for once.  The cursor keeps the
newest instant the pack has read and the keys of the records it answered for at that
instant; the key of a record (a hash of its unit, level and message) and the packing of
a log line as evidence are given.

`event_cursor_evaluates_once` is the result: over any polls and skips no record is
evaluated twice, the first poll that brings a record evaluates it, unless the record is
behind the cursor by the pack's start, by a newer record or by a skip, and what a poll
raises and counts is what evaluating those records gives.
-/

namespace OpenGate.Alerts

open OpenGate.Lib Std List

def maxKeysAtCursor : Nat := 512

/-- One host log record, normalized from whatever platform reader produced it. -/
structure HostEvent where
  tsMicros : Int64
  level : String
  /-- The service that emitted it, empty when unattributed. -/
  unit : String
  message : String
  deriving DecidableEq

/-! ## What a rule looks for -/

inductive EventLevel where
  | debug
  | info
  | warn
  | error
  deriving DecidableEq, Repr

def EventLevel.rank : EventLevel → Nat
  | debug => 0
  | info => 1
  | warn => 2
  | error => 3

/-- Reads a normalized level label; anything unrecognized is the lowest level. -/
def EventLevel.fromLabel (label : String) : EventLevel :=
  match String.ofList ((trim label.toList).map Char.toUpper) with
  | "ERROR" => error
  | "WARN" | "WARNING" => warn
  | "INFO" | "NOTICE" => info
  | _ => debug

structure EventMatcher where
  /-- Any one of these substrings, matched case-insensitively, marks the record. -/
  anyOf : List String
  /-- None of these may appear, whatever else matched. -/
  noneOf : List String
  minLevel : EventLevel
  deriving DecidableEq

def lowercase (text : String) : List Char := text.toList.map Char.toLower

/-- Whether a record is what the rule watches for. -/
def EventMatcher.matches (matcher : EventMatcher) (level message : String) : Bool :=
  if (EventLevel.fromLabel level).rank < matcher.minLevel.rank then false
  else
    let contains := fun needle => (lowercase message).tails.any ((lowercase needle).isPrefixOf ·)
    matcher.anyOf.any contains && !matcher.noneOf.any contains

structure EventRule where
  ruleId : String
  version : UInt32
  severity : AlertSeverity
  summary : String
  matcher : EventMatcher
  deriving DecidableEq

def EventRule.linuxPack : List EventRule :=
  [⟨"linux-hung-task", 1, .warning, "a task was blocked for over two minutes",
      ⟨["blocked for more than"], [], .error⟩⟩,
    ⟨"linux-oom-kill", 1, .critical, "the kernel killed a process to reclaim memory",
      ⟨["out of memory: killed process", "oom-kill:"], [], .error⟩⟩,
    ⟨"linux-ata-reset", 1, .warning, "a disk stopped responding and its bus was reset",
      ⟨["hard resetting link", "exception emask"], ["link up"], .error⟩⟩,
    ⟨"linux-thermal-throttle", 1, .warning,
      "the processor slowed itself down under thermal load",
      ⟨["temperature above threshold", "clock throttled"], ["temperature/speed normal"], .error⟩⟩]

/-! ## One service producing errors repeatedly -/

structure ServiceErrorRule where
  ruleId : String
  version : UInt32
  severity : AlertSeverity
  /-- Errors from one service inside the window that constitute "repeatedly". -/
  threshold : UInt32
  windowSecs : Int64
  maxServices : Nat
  deriving DecidableEq

def ServiceErrorRule.default : ServiceErrorRule :=
  ⟨"linux-service-errors", 1, .warning, 10, 24 * 60 * 60, 64⟩

structure ServiceErrors where
  rule : ServiceErrorRule
  /-- The most recent error times per service, oldest first, at most the threshold. -/
  recent : ExtTreeMap String (List Int64) Ord.compare
  /-- Services over the threshold, so a crossing fires once. -/
  overThreshold : Finset String
  untracked : UInt64

namespace ServiceErrors

def new (rule : ServiceErrorRule) : ServiceErrors := ⟨rule, ∅, ∅, 0⟩

def forgetStale (seen : List Int64) (now window : Int64) : List Int64 :=
  seen.dropWhile fun oldest => decide (window < saturatingSub now oldest)

def forgetIdle (services : ServiceErrors) (now window : Int64) : ServiceErrors :=
  let kept := services.recent.filterMap fun _ seen =>
    let seen := forgetStale seen now window
    if seen.isEmpty then none else some seen
  { services with
    recent := kept
    overThreshold := services.overThreshold.filter fun unit =>
      !services.recent.contains unit || kept.contains unit }

def record (services : ServiceErrors) (unit : String) (ts : Int64) : ServiceErrors × Bool :=
  let window := Tsdb.saturatingMul services.rule.windowSecs 1000000
  let threshold := services.rule.threshold.toNat
  if threshold = 0 then (services, false)
  else
    let services := services.forgetIdle ts window
    if !services.recent.contains unit && decide (services.rule.maxServices ≤ services.recent.size)
    then ({ services with untracked := services.untracked + 1 }, false)
    else
      let seen := services.recent.getD unit []
      -- Room for one more below the threshold.
      let seen := seen.drop (seen.length + 1 - threshold)
      let seen := forgetStale (seen ++ [ts]) ts window
      let services := { services with recent := services.recent.insert unit seen }
      if threshold ≤ seen.length then
        ({ services with overThreshold := insert unit services.overThreshold },
          decide (unit ∉ services.overThreshold))
      else ({ services with overThreshold := services.overThreshold.erase unit }, false)

end ServiceErrors

/-! ## The pack -/

/-- Where the pack has read up to, and which records it has answered for at that exact
instant. -/
structure Cursor where
  atMicros : Int64
  keysAt : Finset UInt64
  deriving DecidableEq

namespace Cursor

/-- Whether this record is one the pack has not answered for yet. -/
def admits (cursor : Cursor) (event : HostEvent) (key : UInt64) : Bool :=
  if cursor.atMicros < event.tsMicros then true
  else if event.tsMicros = cursor.atMicros then decide (key ∉ cursor.keysAt)
  else false

/-- The cursor being built over a poll, past one record that was evaluated. -/
def past (cursor : Cursor) (event : HostEvent) (key : UInt64) : Cursor :=
  if cursor.atMicros < event.tsMicros then ⟨event.tsMicros, {key}⟩
  else if event.tsMicros = cursor.atMicros then
    if cursor.keysAt.card < maxKeysAtCursor then ⟨cursor.atMicros, insert key cursor.keysAt⟩
    else cursor
  else cursor

end Cursor

structure EventPack where
  rules : List EventRule
  services : ServiceErrors
  cursor : Cursor
  saturatedPolls : UInt64

variable {F : Type} (hash : String → String → String → UInt64)
  (packLine : String → Int64 → PackedEvidence) {key : UInt64}

/-- A key identifying a record within one instant. -/
def recordKey (event : HostEvent) : UInt64 := hash event.unit event.level event.message

/-- One record's alert: the window is the record's instant at both ends, and the record is
the evidence. -/
def alertFor (ruleId : String) (version : UInt32) (severity : AlertSeverity) (summary : String)
    (event : HostEvent) : EdgeAlert F where
  ruleId := ruleId
  ruleVersion := version
  severity := severity
  tsMicros := event.tsMicros
  windowStartMicros := event.tsMicros
  windowEndMicros := event.tsMicros
  metric := ""
  value := none
  subject := event.unit
  summary := summary
  evidence := packLine event.message (Int64.ofInt (event.tsMicros.toInt / 1000000))
  origin := .live

namespace EventPack

def new (rules : List EventRule) (services : ServiceErrorRule) (startMicros : Int64) : EventPack :=
  ⟨rules, .new services, ⟨startMicros, ∅⟩, 0⟩

/-- Evaluates one unseen record; a record a curated rule explains skips the per-service
count. -/
def evaluate (pack : EventPack) (event : HostEvent) : EventPack × List (EdgeAlert F) :=
  let matched := (pack.rules.filter (·.matcher.matches event.level event.message)).map fun rule =>
    alertFor packLine rule.ruleId rule.version rule.severity rule.summary event
  if !matched.isEmpty then (pack, matched)
  -- Only errors attributed to a named service count toward that service.
  else if (EventLevel.fromLabel event.level).rank < EventLevel.error.rank || event.unit.isEmpty then
    (pack, [])
  else
    let (services, crossed) := pack.services.record event.unit event.tsMicros
    let pack := { pack with services }
    if !crossed then (pack, [])
    else
      let rule := pack.services.rule
      (pack, [alertFor packLine rule.ruleId rule.version rule.severity
        (event.unit ++ " logged " ++ toString rule.threshold ++ " errors within "
          ++ toString (rule.windowSecs / 3600) ++ " hours") event])

structure Polling (F : Type) where
  pack : EventPack
  newest : Cursor
  alerts : List (EdgeAlert F)
  evaluated : List HostEvent

/-- One turn of the loop over a poll's records: the cursor of the pack stays where it is
until the poll is over. -/
def pollOne (polling : Polling F) (event : HostEvent) : Polling F :=
  let key := recordKey hash event
  if !polling.pack.cursor.admits event key then polling
  else
    let (pack, alerts) := polling.pack.evaluate packLine event
    { pack
      newest := polling.newest.past event key
      alerts := polling.alerts ++ alerts
      evaluated := polling.evaluated ++ [event] }

def counted (pack : EventPack) (saturated : Bool) : EventPack :=
  if saturated then { pack with saturatedPolls := pack.saturatedPolls + 1 } else pack

/-- Evaluates one poll's records; the last component lists the records that were
evaluated. -/
def poll (pack : EventPack) (events : List HostEvent) (saturated : Bool) :
    EventPack × List (EdgeAlert F) × List HostEvent :=
  let pack := pack.counted saturated
  let polled := events.foldl (pollOne hash packLine) ⟨pack, pack.cursor, [], []⟩
  ({ polled.pack with cursor := polled.newest }, polled.alerts, polled.evaluated)

def skipTo (pack : EventPack) (tsMicros : Int64) : EventPack :=
  if pack.cursor.atMicros < tsMicros then { pack with cursor := ⟨tsMicros, ∅⟩ } else pack

/-- Records evaluated one after the other, and the alerts of all. -/
def evaluateAll (pack : EventPack) (events : List HostEvent) : EventPack × List (EdgeAlert F) :=
  events.foldl (fun so_far event =>
    let next := so_far.1.evaluate packLine event
    (next.1, so_far.2 ++ next.2)) (pack, [])

/-- The pack of a poll, but for its cursor, and the alerts are those of the listed records. -/
theorem poll_eq_evaluateAll (pack : EventPack) (events : List HostEvent) (saturated : Bool) :
    let polled := pack.poll (F := F) hash packLine events saturated
    let all := (pack.counted saturated).evaluateAll packLine polled.2.2
    polled.1 = { all.1 with cursor := polled.1.cursor } ∧ polled.2.1 = all.2 := by
  have turns (polling : Polling F) (so_far : (polling.pack, polling.alerts)
        = (pack.counted saturated).evaluateAll packLine polling.evaluated) :
      let polled := events.foldl (pollOne hash packLine) polling
      (polled.pack, polled.alerts)
        = (pack.counted saturated).evaluateAll packLine polled.evaluated := by
    induction events generalizing polling with
    | nil => exact so_far
    | cons event events ih =>
      refine ih _ ?_
      rw [pollOne]
      split
      · exact so_far
      · rw [evaluateAll, foldl_concat, ← evaluateAll, ← so_far]
  have all := turns ⟨pack.counted saturated, (pack.counted saturated).cursor, [], []⟩ rfl
  dsimp only [poll]
  rw [← all]
  exact ⟨rfl, rfl⟩

@[simp] theorem cursor_evaluate {pack : EventPack} {event : HostEvent} :
    (pack.evaluate packLine event : EventPack × List (EdgeAlert F)).1.cursor = pack.cursor := by
  unfold evaluate
  dsimp only
  split
  · rfl
  · split
    · rfl
    · split <;> rfl

end EventPack

/-! ## What the cursor knows -/

section Tracks

variable {hash : String → String → String → UInt64} {cursor : Cursor} {evaluated : List HostEvent}
  {event : HostEvent}

/-- The cursor stands at or after every evaluated record, and holds the keys of those at
its own instant. -/
structure Cursor.Tracks (hash : String → String → String → UInt64) (cursor : Cursor)
    (evaluated : List HostEvent) : Prop where
  latest : ∀ e ∈ evaluated, e.tsMicros ≤ cursor.atMicros
  keys : cursor.keysAt
    = ((evaluated.filter (·.tsMicros = cursor.atMicros)).map (recordKey hash)).toFinset

theorem Cursor.Tracks.mem_keys (tracks : cursor.Tracks hash evaluated) :
    key ∈ cursor.keysAt
      ↔ ∃ e ∈ evaluated, e.tsMicros = cursor.atMicros ∧ recordKey hash e = key := by
  rw [tracks.keys]
  simp [and_assoc]

theorem Cursor.tracks_new {startMicros : Int64} : (⟨startMicros, ∅⟩ : Cursor).Tracks hash [] :=
  ⟨nofun, rfl⟩

section

variable (tracks : cursor.Tracks hash evaluated)
include tracks

/-- A record that is admitted has not been evaluated. -/
theorem Cursor.Tracks.not_mem (admitted : cursor.admits event (recordKey hash event)) :
    event ∉ evaluated := by
  intro here
  have behind := tracks.latest event here
  rw [admits, if_neg (Int64.not_lt.mpr behind)] at admitted
  split at admitted
  next same =>
    have unseen := of_decide_eq_true admitted
    exact unseen ((tracks.mem_keys).mpr ⟨event, here, same, rfl⟩)
  · cases admitted

/-- A cursor that moves past a record it has room for tracks it too. -/
theorem Cursor.Tracks.past
    (room : event.tsMicros = cursor.atMicros → cursor.keysAt.card < maxKeysAtCursor) :
    (cursor.past event (recordKey hash event)).Tracks hash (evaluated ++ [event]) := by
  unfold Cursor.past
  split
  next newer =>
    refine ⟨?_, ?_⟩
    · intro e here
      rcases mem_append.mp here with old | new
      · exact Int64.le_of_lt (Int64.lt_of_le_of_lt (tracks.latest e old) newer)
      · rw [mem_singleton.mp new]
        exact Int64.le_refl _
    · -- Everything evaluated before is older than the new instant.
      have older : evaluated.filter (·.tsMicros = event.tsMicros) = [] := by
        rw [filter_eq_nil_iff]
        intro e here
        have behind := Int64.lt_of_le_of_lt (tracks.latest e here) newer
        simpa using Int64.ne_of_lt behind
      simp [filter_append, older]
  next older =>
    split
    next same =>
      rw [if_pos (room same)]
      refine ⟨?_, ?_⟩
      · intro e here
        rcases mem_append.mp here with old | new
        · exact tracks.latest e old
        · rw [mem_singleton.mp new, same]
          exact Int64.le_refl _
      · have last : [event].filter (·.tsMicros = cursor.atMicros) = [event] := by simp [same]
        rw [filter_append, last, map_append, toFinset_append, ← tracks.keys]
        rw [Finset.insert_eq, Finset.union_comm]
        rfl
    next other =>
      refine ⟨?_, ?_⟩
      · intro e here
        rcases mem_append.mp here with old | new
        · exact tracks.latest e old
        · rw [mem_singleton.mp new]
          exact Int64.not_lt.mp older
      · rw [tracks.keys, filter_append, filter_cons_of_neg (by simpa using other),
          filter_nil, append_nil]

/-- The cursor has room for one more record of its instant while few records share one. -/
theorem Cursor.Tracks.room {everything : Finset HostEvent}
    (few : ∀ ts, (everything.filter (·.tsMicros = ts)).card ≤ maxKeysAtCursor)
    (within : ∀ e ∈ evaluated, e ∈ everything) (here : event ∈ everything) (new : event ∉ evaluated)
    (same : event.tsMicros = cursor.atMicros) : cursor.keysAt.card < maxKeysAtCursor := by
  set known := (evaluated.filter (·.tsMicros = cursor.atMicros)).toFinset with known_eq
  have image : cursor.keysAt = known.image (recordKey hash) := by
    ext key
    simp [tracks.mem_keys, known_eq, and_assoc]
  have keys : cursor.keysAt.card ≤ known.card := image ▸ Finset.card_image_le
  have more : insert event known ⊆ everything.filter (·.tsMicros = cursor.atMicros) := by
    intro e inside
    rcases Finset.mem_insert.mp inside with rfl | old
    · exact Finset.mem_filter.mpr ⟨here, same⟩
    · rw [known_eq, mem_toFinset, mem_filter, decide_eq_true_eq] at old
      exact Finset.mem_filter.mpr ⟨within e old.1, old.2⟩
  have fresh : event ∉ known := by
    rw [known_eq, mem_toFinset, mem_filter]
    exact fun old => new old.1
  have bound := (Finset.card_le_card more).trans (few cursor.atMicros)
  rw [Finset.card_insert_of_notMem fresh] at bound
  omega

end

end Tracks

/-! ## A poll -/

section Poll

variable {hash : String → String → String → UInt64} {cursor : Cursor}
  {before processed events : List HostEvent} {event : HostEvent} {polling : EventPack.Polling F}

/-- A poll after some of its records: exactly the records the old cursor admits are
evaluated, and the new cursor tracks them with what was evaluated before the poll. -/
structure PolledTo (hash : String → String → String → UInt64) (cursor : Cursor)
    (before processed : List HostEvent) (polling : EventPack.Polling F) : Prop where
  kept : polling.pack.cursor = cursor
  evaluated : polling.evaluated = processed.filter fun e => cursor.admits e (recordKey hash e)
  tracks : polling.newest.Tracks hash (before ++ polling.evaluated)
  forward : cursor.atMicros ≤ polling.newest.atMicros
  reached : ∀ e ∈ processed, e.tsMicros ≤ polling.newest.atMicros
  reason : polling.newest.atMicros = cursor.atMicros ∨
    ∃ e ∈ processed, e.tsMicros = polling.newest.atMicros

/-- A record not admitted is not after the cursor. -/
theorem Cursor.le_of_not_admits (refused : cursor.admits event key = false) :
    event.tsMicros ≤ cursor.atMicros := by
  by_contra newer
  rw [admits, if_pos (Int64.not_le.mp newer)] at refused
  cases refused

/-- The cursor past a record is at the later of the two instants. -/
theorem Cursor.atMicros_past (cursor : Cursor) (event : HostEvent) (key : UInt64) :
    cursor.atMicros ≤ (cursor.past event key).atMicros ∧
      event.tsMicros ≤ (cursor.past event key).atMicros ∧
      ((cursor.past event key).atMicros = cursor.atMicros ∨
        (cursor.past event key).atMicros = event.tsMicros) := by
  unfold past
  split
  next newer => exact ⟨Int64.le_of_lt newer, Int64.le_refl _, .inr rfl⟩
  next older =>
    have behind := Int64.not_lt.mp older
    split
    · split <;> exact ⟨Int64.le_refl _, behind, .inl rfl⟩
    · exact ⟨Int64.le_refl _, behind, .inl rfl⟩

section

variable {everything : Finset HostEvent} (polled : PolledTo hash cursor before processed polling)
  (start : cursor.Tracks hash before)
  (few : ∀ ts, (everything.filter (·.tsMicros = ts)).card ≤ maxKeysAtCursor)
include polled start few

theorem PolledTo.pollOne (within : ∀ e ∈ before ++ processed ++ [event], e ∈ everything)
    (new : event ∉ processed) :
    PolledTo hash cursor before (processed ++ [event])
      (EventPack.pollOne hash packLine polling event) := by
  have own : event ∈ everything := within event (by simp)
  rw [EventPack.pollOne]
  cases admitted : cursor.admits event (recordKey hash event) with
  | false =>
    rw [polled.kept, admitted, Bool.not_false, if_pos rfl]
    refine ⟨polled.kept, ?_, polled.tracks, polled.forward, ?_, ?_⟩
    · rw [polled.evaluated, filter_append, filter_cons_of_neg (by simp [admitted]),
        filter_nil, append_nil]
    · intro e here
      rcases mem_append.mp here with old | last
      · exact polled.reached e old
      · rw [mem_singleton.mp last]
        exact Int64.le_trans (Cursor.le_of_not_admits admitted) polled.forward
    · refine polled.reason.imp_right fun ⟨e, here, same⟩ => ⟨e, ?_, same⟩
      exact mem_append_left _ here
  | true =>
    rw [polled.kept, admitted, Bool.not_true, if_neg Bool.false_ne_true]
    obtain ⟨forward, here, reason⟩ :=
      polling.newest.atMicros_past event (recordKey hash event)
    have unseen : event ∉ before ++ polling.evaluated := by
      rw [mem_append, polled.evaluated, mem_filter]
      exact fun seen => seen.elim (start.not_mem admitted) fun later => new later.1
    have known : ∀ e ∈ before ++ polling.evaluated, e ∈ everything := by
      intro e inside
      rw [mem_append, polled.evaluated, mem_filter] at inside
      refine within e ?_
      simp only [mem_append]
      exact .inl (inside.imp_right And.left)
    refine ⟨?_, ?_, ?_, Int64.le_trans polled.forward forward, ?_, ?_⟩
    · rw [EventPack.cursor_evaluate, polled.kept]
    · simp [polled.evaluated, filter_append, admitted]
    · rw [← append_assoc]
      exact polled.tracks.past (polled.tracks.room few known own unseen)
    · intro e inside
      rcases mem_append.mp inside with old | last
      · exact Int64.le_trans (polled.reached e old) forward
      · rw [mem_singleton.mp last]
        exact here
    · rcases reason with stays | moves
      · rw [stays]
        refine polled.reason.imp_right fun ⟨e, here, same⟩ => ⟨e, ?_, same⟩
        exact mem_append_left _ here
      · exact .inr ⟨event, by simp, moves.symm⟩

theorem PolledTo.pollAll (within : ∀ e ∈ before ++ processed ++ events, e ∈ everything)
    (distinct : (processed ++ events).Nodup) :
    PolledTo hash cursor before (processed ++ events)
      (events.foldl (EventPack.pollOne hash packLine) polling) := by
  induction events generalizing processed polling with
  | nil =>
    rw [append_nil]
    exact polled
  | cons event events ih =>
    have split : processed ++ event :: events = processed ++ [event] ++ events := by simp
    rw [foldl_cons, split]
    refine ih (polled.pollOne packLine start few ?_ ?_) ?_ ?_
    · intro e here
      refine within e ?_
      simp only [mem_append, mem_cons] at here ⊢
      tauto
    · intro seen
      exact disjoint_of_nodup_append distinct seen mem_cons_self
    · intro e here
      refine within e ?_
      simp only [mem_append, mem_cons] at here ⊢
      tauto
    · rwa [← split]

end

end Poll

/-! ## Watching -/

inductive WatchEvent where
  | poll (events : List HostEvent) (saturated : Bool)
  | skipTo (tsMicros : Int64)

def WatchEvent.brings : WatchEvent → List HostEvent
  | poll events _ => events
  | skipTo _ => []

def delivered (watch : List WatchEvent) : List HostEvent := watch.flatMap WatchEvent.brings

@[simp] theorem delivered_concat (watch : List WatchEvent) (e : WatchEvent) :
    delivered (watch ++ [e]) = delivered watch ++ e.brings := by
  simp [delivered]

namespace EventPack

variable (F) in
def watchOne (pack : EventPack) : WatchEvent → EventPack × List HostEvent
  | .poll events saturated =>
    let polled := pack.poll (F := F) hash packLine events saturated
    (polled.1, polled.2.2)
  | .skipTo tsMicros => (pack.skipTo tsMicros, [])

variable (F) in
/-- A pack after everything done with it, and the records that were evaluated on the way,
poll by poll. -/
def watch (pack : EventPack) (done : List WatchEvent) : EventPack × List HostEvent :=
  done.foldl (fun so_far e =>
    let next := so_far.1.watchOne F hash packLine e
    (next.1, so_far.2 ++ next.2)) (pack, [])

end EventPack

section Watch

variable {hash : String → String → String → UInt64} {packLine : String → Int64 → PackedEvidence}
  {startMicros : Int64} {done : List WatchEvent} {pack : EventPack} {evaluated : List HostEvent}
  {everything : Finset HostEvent} (rules : List EventRule) {services : ServiceErrorRule}

/-- A pack in use: why its cursor is where it is, and what it has evaluated. -/
structure Watched (hash : String → String → String → UInt64) (startMicros : Int64)
    (done : List WatchEvent) (pack : EventPack) (evaluated : List HostEvent) : Prop where
  tracks : pack.cursor.Tracks hash evaluated
  once : evaluated.Nodup
  known : ∀ e ∈ evaluated, e ∈ delivered done
  reached : ∀ e ∈ delivered done, e.tsMicros ≤ pack.cursor.atMicros
  reason : pack.cursor.atMicros = startMicros ∨
    (∃ e ∈ delivered done, e.tsMicros = pack.cursor.atMicros) ∨
    .skipTo pack.cursor.atMicros ∈ done

theorem watched_new : Watched hash startMicros [] (.new rules services startMicros) [] :=
  ⟨Cursor.tracks_new, .nil, nofun, nofun, .inl rfl⟩

section

variable {events : List HostEvent} (watched : Watched hash startMicros done pack evaluated)
  (distinct : events.Nodup)
  (few : ∀ ts, (everything.filter (·.tsMicros = ts)).card ≤ maxKeysAtCursor)
  (within : ∀ e ∈ delivered done ++ events, e ∈ everything) (saturated : Bool)
include watched distinct few within

variable (packLine) in
/-- What a poll evaluates, and the cursor it leaves. -/
theorem Watched.polled :
    ∃ polling : EventPack.Polling F,
      PolledTo hash pack.cursor evaluated events polling ∧
      pack.poll hash packLine events saturated
        = ({ polling.pack with cursor := polling.newest }, polling.alerts, polling.evaluated) := by
  set begun := pack.counted saturated with eq
  have same : begun.cursor = pack.cursor := by
    rw [eq, EventPack.counted]
    split <;> rfl
  have start : PolledTo (F := F) hash pack.cursor evaluated [] ⟨begun, begun.cursor, [], []⟩ := by
    refine ⟨same, rfl, ?_, ?_, nofun, .inl ?_⟩
    · rw [append_nil, same]
      exact watched.tracks
    · rw [same]
      exact Int64.le_refl _
    · rw [same]
  refine ⟨events.foldl (EventPack.pollOne hash packLine) ⟨begun, begun.cursor, [], []⟩, ?_, ?_⟩
  · refine start.pollAll packLine watched.tracks few (fun e here => within e ?_) distinct
    rw [append_nil] at here
    refine mem_append.mpr ((mem_append.mp here).imp_left fun old => ?_)
    exact watched.known e old
  · rfl

theorem Watched.poll :
    Watched hash startMicros (done ++ [.poll events saturated])
      (pack.watchOne F hash packLine (.poll events saturated)).1
      (evaluated ++ (pack.watchOne F hash packLine (.poll events saturated)).2) := by
  obtain ⟨polling, polled, eq⟩ := watched.polled (F := F) packLine distinct few within saturated
  rw [EventPack.watchOne, eq]
  refine ⟨polled.tracks, ?_, ?_, ?_, ?_⟩
  · -- A record evaluated now was not evaluated before: the cursor admitted it.
    rw [nodup_append', polled.evaluated]
    refine ⟨watched.once, distinct.filter _, fun e old new => ?_⟩
    exact watched.tracks.not_mem (mem_filter.mp new).2 old
  · intro e here
    rw [delivered_concat, mem_append]
    refine (mem_append.mp here).imp (watched.known e) fun new => ?_
    rw [polled.evaluated] at new
    exact (mem_filter.mp new).1
  · intro e here
    rw [delivered_concat, mem_append] at here
    rcases here with old | new
    · exact Int64.le_trans (watched.reached e old) polled.forward
    · exact polled.reached e new
  · rw [delivered_concat]
    rcases polled.reason with stays | ⟨e, here, same⟩
    · rw [stays]
      refine watched.reason.imp_right (Or.imp ?_ (mem_append_left _))
      exact fun ⟨e, here, same⟩ => ⟨e, mem_append_left _ here, same⟩
    · exact .inr (.inl ⟨e, mem_append_right _ here, same⟩)

end

theorem Watched.skipTo (watched : Watched hash startMicros done pack evaluated) (tsMicros : Int64) :
    Watched hash startMicros (done ++ [.skipTo tsMicros]) (pack.skipTo tsMicros) evaluated := by
  rw [EventPack.skipTo]
  split
  next ahead =>
    have behind : ∀ e ∈ delivered done, e.tsMicros < tsMicros := fun e here =>
      Int64.lt_of_le_of_lt (watched.reached e here) ahead
    refine ⟨⟨?_, ?_⟩, watched.once, ?_, ?_, .inr (.inr (by simp))⟩
    · exact fun e here => Int64.le_of_lt (behind e (watched.known e here))
    · have none : evaluated.filter (·.tsMicros = tsMicros) = [] := by
        rw [filter_eq_nil_iff]
        intro e here
        simpa using Int64.ne_of_lt (behind e (watched.known e here))
      rw [none]
      rfl
    · simpa [WatchEvent.brings] using watched.known
    · simpa [WatchEvent.brings] using fun e here => Int64.le_of_lt (behind e here)
  · refine ⟨watched.tracks, watched.once, ?_, ?_, ?_⟩
    · simpa [WatchEvent.brings] using watched.known
    · simpa [WatchEvent.brings] using watched.reached
    · refine watched.reason.imp_right (Or.imp ?_ (mem_append_left _))
      exact fun ⟨e, here, same⟩ => ⟨e, by simpa [WatchEvent.brings] using here, same⟩

/-- A pack after everything done with it. -/
theorem watched_run (distinct : ∀ events saturated, .poll events saturated ∈ done → events.Nodup)
    (few : ∀ ts, (everything.filter (·.tsMicros = ts)).card ≤ maxKeysAtCursor)
    (within : ∀ e ∈ delivered done, e ∈ everything) :
    Watched hash startMicros done
      ((EventPack.new rules services startMicros).watch F hash packLine done).1
      ((EventPack.new rules services startMicros).watch F hash packLine done).2 := by
  induction done using List.reverseRecOn with
  | nil => exact watched_new rules
  | append_singleton done e ih =>
    have so_far := ih (fun events saturated here => distinct events saturated (by simp [here]))
      fun e here => within e (by simp [here])
    rw [EventPack.watch, foldl_concat]
    cases e with
    | poll events saturated =>
      refine so_far.poll (distinct events saturated (by simp)) few ?_ saturated
      simpa [WatchEvent.brings] using within
    | skipTo tsMicros =>
      show Watched hash startMicros _ (EventPack.skipTo _ tsMicros) (_ ++ [])
      rw [append_nil]
      exact so_far.skipTo tsMicros

/-- A record a poll brings first is evaluated, or it is behind the cursor for a reason. -/
theorem Watched.evaluates (watched : Watched hash startMicros done pack evaluated)
    {event : HostEvent} (fresh : event ∉ delivered done)
    (injective : ∀ e ∈ delivered done, e.tsMicros = event.tsMicros →
      recordKey hash e = recordKey hash event → e = event) :
    pack.cursor.admits event (recordKey hash event) ∨ event.tsMicros < startMicros ∨
      (∃ e ∈ delivered done, event.tsMicros < e.tsMicros) ∨
      ∃ tsMicros, .skipTo tsMicros ∈ done ∧ event.tsMicros < tsMicros := by
  cases admitted : pack.cursor.admits event (recordKey hash event) with
  | true => exact .inl rfl
  | false =>
    right
    have behind := Cursor.le_of_not_admits admitted
    have strictly : event.tsMicros < pack.cursor.atMicros := by
      refine Int64.lt_of_le_of_ne behind fun same => ?_
      -- At the cursor's own instant only a record with a key it holds is refused.
      rw [Cursor.admits, if_neg (Int64.not_lt.mpr behind), if_pos same, decide_eq_false_iff_not,
        not_not, watched.tracks.mem_keys] at admitted
      obtain ⟨e, here, instant, key⟩ := admitted
      have known := watched.known e here
      exact fresh (injective e known (instant.trans same.symm) key ▸ known)
    rcases watched.reason with start | ⟨e, here, same⟩ | skipped
    · exact .inl (start ▸ strictly)
    · exact .inr (.inl ⟨e, here, same ▸ strictly⟩)
    · exact .inr (.inr ⟨_, skipped, strictly⟩)

end Watch

/-- The event cursor evaluates each record once: what a poll raises and counts is what
evaluating the records it lists gives, no record is listed twice, and the first poll that
brings a record lists it, unless the record is behind the cursor. -/
theorem event_cursor_evaluates_once (rules : List EventRule) (services : ServiceErrorRule)
    (startMicros : Int64) (done : List WatchEvent)
    (distinct : ∀ events saturated, .poll events saturated ∈ done → events.Nodup)
    (few : ∀ ts, ((delivered done).toFinset.filter (·.tsMicros = ts)).card ≤ maxKeysAtCursor)
    (injective : ∀ a ∈ delivered done, ∀ b ∈ delivered done, a.tsMicros = b.tsMicros →
      recordKey hash a = recordKey hash b → a = b) :
    ((EventPack.new rules services startMicros).watch F hash packLine done).2.Nodup ∧
    ∀ before events saturated after, done = before ++ .poll events saturated :: after →
      let pack := ((EventPack.new rules services startMicros).watch F hash packLine before).1
      let polled := pack.poll (F := F) hash packLine events saturated
      let all := (pack.counted saturated).evaluateAll packLine polled.2.2
      (polled.1 = { all.1 with cursor := polled.1.cursor } ∧ polled.2.1 = all.2) ∧
      ∀ event ∈ events, event ∉ delivered before →
        event ∈ polled.2.2 ∨ event.tsMicros < startMicros ∨
          (∃ e ∈ delivered before, event.tsMicros < e.tsMicros) ∨
          ∃ tsMicros, .skipTo tsMicros ∈ before ∧ event.tsMicros < tsMicros := by
  refine ⟨?_, ?_⟩
  · exact (watched_run rules distinct few fun e here => mem_toFinset.mpr here).once
  · rintro before events saturated after rfl
    refine ⟨EventPack.poll_eq_evaluateAll .., fun event here fresh => ?_⟩
    have brought : delivered (before ++ .poll events saturated :: after)
        = delivered before ++ events ++ delivered after := by
      simp [delivered, WatchEvent.brings]
    have watched : Watched hash startMicros before
        ((EventPack.new rules services startMicros).watch F hash packLine before).1
        ((EventPack.new rules services startMicros).watch F hash packLine before).2 :=
      watched_run rules
        (fun events saturated inside => distinct events saturated (by simp [inside])) few
        fun e inside => mem_toFinset.mpr (by simp [brought, inside])
    obtain ⟨polling, polled, eq⟩ := watched.polled (F := F) packLine
      (distinct events saturated (by simp)) few
      (fun e inside => mem_toFinset.mpr (by
        rw [brought]
        exact mem_append_left _ inside)) saturated
    rw [eq, polled.evaluated]
    refine (watched.evaluates fresh fun e inside same key => ?_).imp_left fun admitted => ?_
    · exact injective e (by simp [brought, inside]) event (by simp [brought, here]) same key
    · exact mem_filter.mpr ⟨here, admitted⟩

/-- Two records of one instant, the second new in the poll that brings the first again. -/
theorem event_cursor_evaluates_once_tie :
    let hash := fun _ _ message : String => UInt64.ofNat message.length
    let first : HostEvent := ⟨5, "ERROR", "disk", "a"⟩
    let second : HostEvent := ⟨5, "ERROR", "disk", "bb"⟩
    let pack := EventPack.new EventRule.linuxPack .default 5
    let packLine := fun _ _ => (⟨[], ""⟩ : PackedEvidence)
    second ∈ ((pack.watch Int64 hash packLine [.poll [first] false, .skipTo 4]).1.poll
        (F := Int64) hash packLine [second, first] true).2.2 ∨ second.tsMicros < 5 ∨
      (∃ e ∈ [first], second.tsMicros < e.tsMicros) ∨
      ∃ tsMicros, WatchEvent.skipTo tsMicros ∈ [.poll [first] false, .skipTo 4] ∧
        second.tsMicros < tsMicros := by
  intro hash first second pack packLine
  refine (event_cursor_evaluates_once hash packLine EventRule.linuxPack .default 5
    [.poll [first] false, .skipTo 4, .poll [second, first] true] ?_ ?_ ?_).2
    [.poll [first] false, .skipTo 4] [second, first] true [] rfl |>.2 second (by simp) ?_
  · intro events saturated here
    simp only [mem_cons, not_mem_nil, or_false, reduceCtorEq, false_or,
      WatchEvent.poll.injEq] at here
    rcases here with ⟨rfl, -⟩ | ⟨rfl, -⟩ <;> decide
  · intro ts
    exact (Finset.card_filter_le _ _).trans (by decide)
  · decide
  · decide

end OpenGate.Alerts
