import OpenGate.Tsdb.Store

/-!
# What a successful write does

Each writing action, when it succeeds, changes the tables by a pure function of
the buffers: raw rows are put (`putRows`), rollups are merged block by block
(`mergeTier`).  `WrittenAll` puts the series together, and `onSeries` cuts a
table down to one series, the only part of it that series' writes touch.
-/

namespace OpenGate.Tsdb

open OpenGate.Lib Std Action List ExtTreeMap
open Function (update update_eq_self update_idem update_self)

variable {F : Type}

/-! ## Single operations -/

variable {s s' : Txn F} {u : Unit} {id : TableId} {bytes : Bytes} {key : Key}

theorem redb_ok (ran : redb s = (.ok u, s')) : ∃ plan, s' = { s with plan := plan } := by
  unfold redb at ran
  split at ran
  · cases ran
    exact ⟨s.plan, rfl⟩
  · cases ran
  · cases ran
    exact ⟨_, rfl⟩

theorem redb_error {e : Stop} (failed : redb s = (.error e, s')) :
    s' = s ∧ ∃ message, e = .error (.redb message) := by
  unfold redb at failed
  split at failed
  · cases failed
  · cases failed
    exact ⟨rfl, _, rfl⟩
  · cases failed

theorem upsertBlock_ok (ran : upsertBlock id key bytes s = (.ok u, s')) :
    s'.db = (s.put id key bytes).db ∧ s'.opened = s.opened := by
  obtain ⟨_, s₁, ticked, ran⟩ := Action.bind_ok ran
  obtain ⟨plan, rfl⟩ := redb_ok ticked
  simp only [gets_bind, modify_bind] at ran
  obtain ⟨_, s₂, counted, ran⟩ := Action.bind_ok ran
  rw [lift_apply, Prod.mk.injEq] at counted
  obtain ⟨-, rfl⟩ := counted
  cases ran
  exact ⟨rfl, rfl⟩

/-! ## Raw rows -/

def putRows (t : Table) (rows : List (Key × Bytes)) : Table :=
  rows.foldl (fun t r => t.insert r.1 r.2) t

/-- The blocks of a series' buffers, by the timestamp they are stored under. -/
def OpenSeries.blocks (os : OpenSeries F) : List (Int64 × List (Sample F × Bool)) :=
  os.sealed ++ if os.tail = [] then [] else [(os.tailFirstTs, os.tail)]

variable [Float64 F]

def t0Rows (series : SeriesId) (scale : Option Int64) (os : OpenSeries F) : List (Key × Bytes) :=
  os.blocks.map fun b => (⟨series, b.1⟩, encodeT0Block b.2 scale)

variable {scale : Option Int64}

theorem each_upsert_ok {series : SeriesId} {blocks : List (Int64 × List (Sample F × Bool))}
    (ran : each
      (fun b => upsertBlock .t0 ⟨series, b.1⟩ (encodeT0Block b.2 scale)) blocks s = (.ok u, s')) :
    s'.db = update s.db .t0
        (putRows (s.db .t0) (blocks.map fun b => (⟨series, b.1⟩, encodeT0Block b.2 scale))) ∧
      s'.opened = s.opened := by
  induction blocks generalizing s with
  | nil =>
    cases ran
    exact ⟨(update_eq_self _ _).symm, rfl⟩
  | cons b blocks ih =>
    obtain ⟨_, s₁, first, rest⟩ := Action.bind_ok ran
    obtain ⟨db₁, opened₁⟩ := upsertBlock_ok first
    obtain ⟨db₂, opened₂⟩ := ih rest
    rw [Txn.put_db] at db₁
    rw [db₁, update_idem, update_self] at db₂
    exact ⟨db₂, opened₂.trans opened₁⟩

omit [Float64 F] in
/-- One series' buffers after a change to that series. -/
theorem of_insert {opened : Opened F} (series other : SeriesId) {os : OpenSeries F} :
    Opened.of (opened.insert series os) other
      = if series = other then os else opened.of other := by
  rw [Opened.of, insert_self]
  split <;> rfl

theorem writeT0Blocks_ok {series : SeriesId} (ran : writeT0Blocks series scale s = (.ok u, s')) :
    s'.db = update s.db .t0
        (putRows (s.db .t0) (t0Rows series scale (s.opened.of series))) ∧
      s'.opened = s.opened.insert series { s.opened.of series with sealed := [] } := by
  unfold writeT0Blocks at ran
  simp only [gets_bind, modify_bind] at ran
  obtain ⟨_, s₁, sealed, tail⟩ := Action.bind_ok ran
  obtain ⟨db₁, opened₁⟩ := each_upsert_ok sealed
  rw [t0Rows, OpenSeries.blocks, map_append, putRows, foldl_append, ← putRows, ← putRows]
  split at tail
  next empty =>
    cases tail
    rw [if_pos empty]
    exact ⟨db₁, opened₁⟩
  next some =>
    obtain ⟨db₂, opened₂⟩ := upsertBlock_ok tail
    rw [if_neg some]
    rw [Txn.put_db, db₁, update_idem, update_self] at db₂
    exact ⟨db₂, opened₂.trans opened₁⟩

/-! ## Rollup rows -/

/-- New partial rollups merged into a table, block by block. -/
def mergeTier [Deflate] (series : SeriesId) (t : Table) :
    List (Int64 × List (StoredTierPoint F)) → Result Table
  | [] => .ok t
  | g :: groups => do
      let bytes ← mergedTierBytes t[(⟨series, g.1⟩ : Key)]? g.2
      mergeTier series (t.insert ⟨series, g.1⟩ bytes) groups

theorem mergeTierWrites_ok [Deflate] {series : SeriesId} {new : List (Sample F)}
    {interval span : Int64} (ran : mergeTierWrites id series new interval span s = (.ok u, s')) :
    (∃ t, mergeTier series (s.db id) (groupPartials new interval span).toList = .ok t ∧
      s'.db = update s.db id t) ∧ s'.opened = s.opened := by
  unfold mergeTierWrites at ran
  generalize (groupPartials new interval span).toList = groups at ran ⊢
  induction groups generalizing s with
  | nil =>
    cases ran
    exact ⟨⟨_, rfl, (update_eq_self _ _).symm⟩, rfl⟩
  | cons g groups ih =>
    obtain ⟨_, s₁, first, rest⟩ := Action.bind_ok ran
    obtain ⟨_, s₂, ticked, first⟩ := Action.bind_ok first
    obtain ⟨plan, rfl⟩ := redb_ok ticked
    rw [gets_bind] at first
    obtain ⟨bytes, s₃, merged, first⟩ := Action.bind_ok first
    rw [lift_apply, Prod.mk.injEq] at merged
    obtain ⟨merged, rfl⟩ := merged
    obtain ⟨db₁, opened₁⟩ := upsertBlock_ok first
    obtain ⟨⟨t, steps, db₂⟩, opened₂⟩ := ih rest
    rw [Txn.put_db] at db₁
    rw [db₁, update_self] at steps
    rw [db₁, update_idem] at db₂
    refine ⟨⟨t, ?_, db₂⟩, opened₂.trans opened₁⟩
    rw [mergeTier]
    simp only [merged, ok_bind]
    exact steps

/-! ## One series, and all of them -/

def OpenSeries.cleared (os : OpenSeries F) : OpenSeries F :=
  { os with sealed := [], unrolled := [] }

structure Written [Deflate] (scale : Option Int64) (series : SeriesId) (os : OpenSeries F)
    (db db' : Db) : Prop where
  raw : db' .t0 = putRows (db .t0) (t0Rows series scale os)
  minutes : mergeTier series (db .t1) (groupPartials os.unrolled t1Minute t1BlockSpan).toList
    = .ok (db' .t1)
  hours : mergeTier series (db .t2) (groupPartials os.unrolled t2Hour t2BlockSpan).toList
    = .ok (db' .t2)

variable {scales : ExtTreeMap SeriesId Int64} {defaultScale : Option Int64} {keys : List SeriesId}

theorem writeSeries_ok [Deflate] {series : SeriesId}
    (ran : writeSeries scales defaultScale series s = (.ok u, s')) :
    Written (scales[series]?.or defaultScale) series (s.opened.of series) s.db s'.db ∧
      ∀ x, s'.opened.of x = if series = x then (s.opened.of series).cleared else s.opened.of x := by
  obtain ⟨_, s₁, raw, ran⟩ := Action.bind_ok ran
  obtain ⟨db₁, opened₁⟩ := writeT0Blocks_ok raw
  simp only [gets_bind, modify_bind] at ran
  have now : s₁.opened.of series = { s.opened.of series with sealed := [] } := by
    rw [opened₁, of_insert, if_pos rfl]
  rw [now] at ran
  have buffers (x : SeriesId) : Opened.of (s₁.opened.insert series
        { s.opened.of series with sealed := [], unrolled := [] }) x
      = if series = x then (s.opened.of series).cleared else s.opened.of x := by
    rw [of_insert, opened₁, of_insert]
    split <;> rfl
  split at ran
  next none =>
    cases ran
    have empty : (s.opened.of series).unrolled = [] := none
    refine ⟨⟨?_, ?_, ?_⟩, buffers⟩
    · rw [db₁, update_self]
    · rw [empty, db₁]
      rfl
    · rw [empty, db₁]
      rfl
  next some =>
    obtain ⟨_, s₂, minutes, hours⟩ := Action.bind_ok ran
    obtain ⟨⟨t₁, merged₁, db₂⟩, opened₂⟩ := mergeTierWrites_ok minutes
    obtain ⟨⟨t₂, merged₂, db₃⟩, opened₃⟩ := mergeTierWrites_ok hours
    refine ⟨⟨?_, ?_, ?_⟩, fun x => ?_⟩
    · rw [db₃, db₂, db₁]
      rfl
    · rw [db₁] at merged₁
      rw [db₃, db₂]
      exact merged₁
    · rw [db₂, db₁] at merged₂
      rw [db₃, update_self]
      exact merged₂
    · rw [opened₃, opened₂]
      exact buffers x

inductive WrittenAll [Deflate] (scales : ExtTreeMap SeriesId Int64) (defaultScale : Option Int64)
    (opened : Opened F) : List SeriesId → Db → Db → Prop where
  | nil (db : Db) : WrittenAll scales defaultScale opened [] db db
  | cons {series : SeriesId} {rest : List SeriesId} {db db₁ db' : Db} :
      Written (scales[series]?.or defaultScale) series (opened.of series) db db₁ →
      WrittenAll scales defaultScale opened rest db₁ db' →
      WrittenAll scales defaultScale opened (series :: rest) db db'

theorem each_writeSeries_ok [Deflate] {opened : Opened F} (distinct : keys.Nodup)
    (left : ∀ x ∈ keys, s.opened.of x = opened.of x)
    (ran : each (writeSeries scales defaultScale) keys s = (.ok u, s')) :
    WrittenAll scales defaultScale opened keys s.db s'.db ∧
      ∀ x, s'.opened.of x = if x ∈ keys then (opened.of x).cleared else s.opened.of x := by
  induction keys generalizing s with
  | nil =>
    cases ran
    exact ⟨.nil _, fun x => (if_neg not_mem_nil).symm⟩
  | cons series keys ih =>
    obtain ⟨fresh, distinct⟩ := nodup_cons.mp distinct
    obtain ⟨_, s₁, first, rest⟩ := Action.bind_ok ran
    obtain ⟨wrote, buffers₁⟩ := writeSeries_ok first
    have left₁ : ∀ x ∈ keys, s₁.opened.of x = opened.of x := by
      intro x mem
      have other : series ≠ x := fun same => fresh (same ▸ mem)
      rw [buffers₁, if_neg other, left x (.tail _ mem)]
    obtain ⟨wroteRest, buffers₂⟩ := ih distinct left₁ rest
    have here : s.opened.of series = opened.of series := left series mem_cons_self
    rw [here] at wrote buffers₁
    refine ⟨.cons wrote wroteRest, fun x => ?_⟩
    rw [buffers₂, buffers₁]
    by_cases same : series = x
    · subst same
      rw [if_neg fresh, if_pos rfl, if_pos mem_cons_self]
    · by_cases mem : x ∈ keys
      · rw [if_pos mem, if_pos (.tail _ mem)]
      · have out : x ∉ series :: keys := by
          rw [mem_cons, not_or]
          exact ⟨fun eq => same eq.symm, mem⟩
        rw [if_neg mem, if_neg same, if_neg out]

def Opened.series (opened : Opened F) : List SeriesId := opened.toList.map Prod.fst

variable {x : SeriesId} {opened : Opened F}

omit [Float64 F] in
theorem Opened.of_not_mem (absent : x ∉ opened.series) : opened.of x = {} := by
  cases here : opened[x]? with
  | none => rw [Opened.of, here, Option.getD_none]
  | some os =>
    have mem := mem_toList_iff_getElem?_eq_some.mpr here
    exact absurd (mem_map.mpr ⟨_, mem, rfl⟩) absent

/-- What `write_all` does when it succeeds. -/
theorem writeAll_ok [Deflate] (ran : writeAll scales defaultScale s = (.ok u, s')) :
    WrittenAll scales defaultScale s.opened s.opened.series s.db s'.db ∧
      ∀ x, s'.opened.of x = (s.opened.of x).cleared := by
  obtain ⟨_, s₁, open₁, ran⟩ := Action.bind_ok ran
  obtain ⟨_, s₂, open₂, ran⟩ := Action.bind_ok ran
  obtain ⟨_, s₃, open₃, ran⟩ := Action.bind_ok ran
  obtain ⟨_, rfl⟩ := redb_ok open₁
  obtain ⟨_, rfl⟩ := redb_ok open₂
  obtain ⟨_, rfl⟩ := redb_ok open₃
  obtain ⟨wrote, buffers⟩ := each_writeSeries_ok
    (nodup_keys s.opened) (by intro x _; rfl) ran
  refine ⟨wrote, fun x => ?_⟩
  rw [buffers]
  split
  · rfl
  next absent =>
    have none : s.opened.of x = {} := Opened.of_not_mem absent
    rw [none]
    rfl

/-! ## One series of a table -/

def onSeries (t : Table) (x : SeriesId) : Table := t.filter fun key _ => key.series = x

def restrict (db : Db) (x : SeriesId) : Db := fun id => onSeries (db id) x

variable (t : Table) {db db' : Db} {y : SeriesId} {os : OpenSeries F} {k : Int64}

theorem onSeries_getElem? : (onSeries t x)[key]? = if key.series = x then t[key]? else none := by
  rw [onSeries, filter_getElem?]
  split
  next same => cases t[key]? <;> simp [same]
  next other => cases t[key]? <;> simp [other]

theorem onSeries_insert_same :
    onSeries (t.insert ⟨x, k⟩ bytes) x = (onSeries t x).insert ⟨x, k⟩ bytes := by
  refine ext_getElem? fun key => ?_
  rw [onSeries_getElem?, insert_self, insert_self, onSeries_getElem?]
  by_cases here : (⟨x, k⟩ : Key) = key
  · subst here
    rw [if_pos rfl, if_pos rfl, if_pos rfl]
  · rw [if_neg here, if_neg here]

theorem onSeries_insert_other (other : y ≠ x) :
    onSeries (t.insert ⟨y, k⟩ bytes) x = onSeries t x := by
  refine ext_getElem? fun key => ?_
  rw [onSeries_getElem?, onSeries_getElem?, insert_self]
  split
  next same =>
    have apart : (⟨y, k⟩ : Key) ≠ key := fun eq => other ((congrArg Key.series eq).trans same)
    rw [if_neg apart]
  · rfl

theorem onSeries_putRows_same :
    onSeries (putRows t (t0Rows x scale os)) x = putRows (onSeries t x) (t0Rows x scale os) := by
  rw [t0Rows]
  generalize os.blocks = blocks
  induction blocks generalizing t with
  | nil => rfl
  | cons b blocks ih =>
    rw [map_cons, putRows, foldl_cons, ← putRows, ih, onSeries_insert_same]
    rfl

theorem onSeries_putRows_other (other : y ≠ x) :
    onSeries (putRows t (t0Rows y scale os)) x = onSeries t x := by
  rw [t0Rows]
  generalize os.blocks = blocks
  induction blocks generalizing t with
  | nil => rfl
  | cons b blocks ih =>
    rw [map_cons, putRows, foldl_cons, ← putRows, ih, onSeries_insert_other t other]

theorem mergeTier_onSeries [Deflate] {t t' : Table}
    {groups : List (Int64 × List (StoredTierPoint F))} (merged : mergeTier x t groups = .ok t') :
    mergeTier x (onSeries t x) groups = .ok (onSeries t' x) ∧
      ∀ y, x ≠ y → onSeries t' y = onSeries t y := by
  induction groups generalizing t with
  | nil =>
    cases merged
    exact ⟨rfl, fun _ _ => rfl⟩
  | cons g groups ih =>
    obtain ⟨bytes, row, rest⟩ := bind_ok merged
    obtain ⟨own, others⟩ := ih rest
    have same : (onSeries t x)[(⟨x, g.1⟩ : Key)]? = t[(⟨x, g.1⟩ : Key)]? := by
      rw [onSeries_getElem?, if_pos rfl]
    refine ⟨?_, fun y other => (others y other).trans (onSeries_insert_other t other)⟩
    rw [mergeTier, same, row, ok_bind, ← onSeries_insert_same]
    exact own

theorem Written.restrict [Deflate] (wrote : Written scale x os db db') :
    Written scale x os (restrict db x) (restrict db' x) where
  raw := by
    show onSeries (db' .t0) x = putRows (onSeries (db .t0) x) _
    rw [wrote.raw, onSeries_putRows_same]
  minutes := (mergeTier_onSeries wrote.minutes).1
  hours := (mergeTier_onSeries wrote.hours).1

theorem Written.other [Deflate] (wrote : Written scale y os db db') (other : y ≠ x) :
    Tsdb.restrict db' x = Tsdb.restrict db x := by
  funext id
  cases id with
  | t0 =>
    show onSeries (db' .t0) x = onSeries (db .t0) x
    rw [wrote.raw, onSeries_putRows_other _ other]
  | t1 => exact (mergeTier_onSeries wrote.minutes).2 x other
  | t2 => exact (mergeTier_onSeries wrote.hours).2 x other

theorem WrittenAll.untouched [Deflate] (wrote : WrittenAll scales defaultScale opened keys db db')
    (absent : x ∉ keys) : restrict db' x = restrict db x := by
  induction wrote with
  | nil => rfl
  | cons first _ ih =>
    rw [mem_cons, not_or] at absent
    rw [ih absent.2, first.other fun same => absent.1 same.symm]

/-- What a commit writes of one series depends on that series alone. -/
theorem WrittenAll.onSeries [Deflate] (wrote : WrittenAll scales defaultScale opened keys db db')
    (distinct : keys.Nodup) (none : x ∉ keys → opened.of x = {}) :
    Written (scales[x]?.or defaultScale) x (opened.of x) (restrict db x) (restrict db' x) := by
  induction wrote with
  | nil =>
    rw [none not_mem_nil]
    exact ⟨rfl, rfl, rfl⟩
  | @cons series rest db db₁ db' first later ih =>
    obtain ⟨fresh, distinct⟩ := nodup_cons.mp distinct
    by_cases same : series = x
    · subst same
      rw [later.untouched fresh]
      exact first.restrict
    · rw [← first.other same]
      refine ih distinct fun absent => none ?_
      rw [mem_cons, not_or]
      exact ⟨fun eq => same eq.symm, absent⟩

end OpenGate.Tsdb
