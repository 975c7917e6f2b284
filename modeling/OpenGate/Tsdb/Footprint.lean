import OpenGate.Tsdb.Whole
import OpenGate.Tsdb.Writes

/-!
# The footprint counter and the cap

Every write keeps `logical` the sum of the stored lengths (`Txn.Counted`), and
with it no subtraction of a stored length can underflow.  Eviction goes on until
the counter is under the cap or only the newest raw block is left.
-/

namespace OpenGate.Tsdb

open OpenGate.Lib Std Action List

variable {F : Type} {s : Txn F} {e : Stop} {bytes : Bytes} (id : TableId) {key : Key}

/-- A stop the source reports, not a panic. -/
def Stop.Reported (e : Stop) : Prop := ∃ error, e = .error error

/-- The counter is the sum of the stored lengths. -/
def Txn.Counted (s : Txn F) : Prop := s.logical = scanLogical s.db

def rowLength (db : Db) (id : TableId) (key : Key) : Nat := ((db id)[key]?.map List.length).getD 0

theorem counted_eq_rowLength {db : Db} {id : TableId} :
    counted (db id) (fun _ b => b.length) key = rowLength db id key := by
  rw [counted, rowLength]
  cases (db id)[key]? <;> rfl

/-- Another table in one place. -/
theorem scanLogical_update (db : Db) (id : TableId) (t : Table) :
    scanLogical (Function.update db id t) + total (db id) (fun _ b => b.length)
      = scanLogical db + total t (fun _ b => b.length) := by
  cases id <;> simp [scanLogical, Function.update] <;> omega

/-- A row written: its length comes in, the length of the row it replaces goes. -/
theorem Txn.scanLogical_put (s : Txn F) (id : TableId) (key : Key) (bytes : Bytes) :
    scanLogical (s.put id key bytes).db + rowLength s.db id key
      = scanLogical s.db + bytes.length := by
  have whole := total_eq_erase (t := s.db id) (f := fun _ b => b.length) key
  have inserted := total_insert (t := s.db id) (f := fun _ b => b.length) key bytes
  have updated := scanLogical_update s.db id ((s.db id).insert key bytes)
  rw [counted_eq_rowLength] at whole
  rw [Txn.put_db]
  omega

/-- A row gone takes its length with it. -/
theorem Txn.scanLogical_remove (s : Txn F) (id : TableId) (key : Key) :
    scanLogical (s.remove id key).db + rowLength s.db id key = scanLogical s.db := by
  have whole := total_eq_erase (t := s.db id) (f := fun _ b => b.length) key
  have updated := scanLogical_update s.db id ((s.db id).erase key)
  rw [counted_eq_rowLength] at whole
  rw [Txn.remove_db]
  omega

/-- A stored row is part of the sum. -/
theorem Txn.Counted.rowLength_le (exact : s.Counted) (id : TableId) (key : Key) :
    rowLength s.db id key ≤ s.logical := by
  have gone := s.scanLogical_remove id key
  rw [Counted] at exact
  omega

/-- An action that keeps the counter exact and never panics. -/
def Exact {α : Type} (x : Step F α) : Prop :=
  ∀ s : Txn F, s.Counted → Action.Ensures x s (fun _ s' => s'.Counted) fun e _ => e.Reported

namespace Exact

variable {α β : Type}

theorem pure (a : α) : Exact (Pure.pure a : Step F α) := fun _ counted => counted

theorem bind {x : Step F α} {f : α → Step F β} (first : Exact x) (second : ∀ a, Exact (f a)) :
    Exact (x >>= f) := fun s counted =>
  (first s counted).bind fun a s' counted' => second a s' counted'

theorem gets (f : Txn F → α) : Exact (gets f : Step F α) := fun _ counted => counted

theorem lift {r : Result α} (reported : ∀ e, r = .error e → e.Reported) :
    Exact (lift r : Step F α) := by
  intro s counted
  cases r with
  | ok a => exact counted
  | error e => exact reported e rfl

/-- A change of the buffers only. -/
theorem opened (f : Txn F → Opened F) :
    Exact (modify fun s => { s with opened := f s } : Step F Unit) := fun _ counted => counted

theorem each {f : α → Step F Unit} (turn : ∀ x, Exact (f x)) (xs : List α) :
    Exact (each f xs) := fun _ counted =>
  Action.Ensures.each (I := fun _ s => s.Counted) (fun x _ s now => turn x s now) counted

theorem redb : Exact (Tsdb.redb : Step F Unit) := by
  intro s counted
  unfold Action.Ensures Tsdb.redb
  cases plan : s.plan with
  | none => exact counted
  | some p =>
    obtain ⟨n, message⟩ := p
    cases n with
    | zero => exact ⟨_, rfl⟩
    | succ n => exact counted

/-- An upsert folds in the old and the new length, and the old one is there to
take away. -/
theorem upsertBlock (key : Key) (bytes : Bytes) :
    Exact (Tsdb.upsertBlock id key bytes : Step F Unit) := by
  refine bind redb fun _ s counted => ?_
  have change := s.scanLogical_put id key bytes
  have enough := counted.rowLength_le id key
  have fits : replaceLen s.logical ((s.db id)[key]?.map List.length) bytes.length
      = .ok (s.logical - rowLength s.db id key + bytes.length) := by
    rw [replaceLen, subUnsigned, if_pos (by exact enough)]
    rfl
  simp only [Action.Ensures, gets_bind, modify_bind, Txn.put_logical, fits, lift_ok_bind,
    modify_apply]
  rw [Txn.Counted] at counted ⊢
  show s.logical - rowLength s.db id key + bytes.length = scanLogical (s.put id key bytes).db
  omega

end Exact

/-! ## Writing -/

theorem decodeTierBlock_reported [Float64 F] (failed : decodeTierBlock (F := F) bytes = .error e) :
    e.Reported := by
  unfold decodeTierBlock at failed
  split at failed
  · cases failed
    exact ⟨_, rfl⟩
  · dsimp only at failed
    split at failed
    · cases failed
      exact ⟨_, rfl⟩
    · cases failed

section Writing

variable [Float64 F]

theorem decodeTierValue_reported [Deflate] (failed : decodeTierValue (F := F) bytes = .error e) :
    e.Reported := by
  unfold decodeTierValue at failed
  split at failed
  · cases failed
    exact ⟨_, rfl⟩
  · split at failed
    · exact decodeTierBlock_reported failed
    · split at failed
      · rw [inflate] at failed
        cases plain : Deflate.inflate _ with
        | none =>
          rw [plain] at failed
          cases failed
          exact ⟨_, rfl⟩
        | some b =>
          rw [plain] at failed
          exact decodeTierBlock_reported failed
      · cases failed
        exact ⟨_, rfl⟩

theorem mergedTierBytes_reported [Deflate] {existing : Option Bytes}
    {partials : List (StoredTierPoint F)} (failed : mergedTierBytes existing partials = .error e) :
    e.Reported := by
  cases existing with
  | none => cases failed
  | some b =>
    rw [mergedTierBytes] at failed
    cases decoded : decodeTierValue (F := F) b with
    | ok points =>
      simp only [decoded, ok_bind] at failed
      cases failed
    | error e' =>
      simp only [decoded, error_bind] at failed
      cases failed
      exact decodeTierValue_reported decoded

namespace Exact

theorem writeT0Blocks (series : SeriesId) (scale : Option Int64) :
    Exact (Tsdb.writeT0Blocks series scale : Step F Unit) := by
  refine bind (gets _) fun os => bind (opened _) fun _ => bind (each (fun _ => ?_) _) fun _ => ?_
  · exact upsertBlock _ _ _
  · split
    · exact pure ()
    · exact upsertBlock _ _ _

theorem mergeTierWrites [Deflate] (series : SeriesId) (new : List (Sample F))
    (interval span : Int64) : Exact (Tsdb.mergeTierWrites id series new interval span) := by
  refine each (fun g => bind redb fun _ => bind (gets _) fun existing => bind (lift ?_) fun _ => ?_)
    _
  · exact fun e failed => mergedTierBytes_reported failed
  · exact upsertBlock _ _ _

theorem writeAll [Deflate] (scales : ExtTreeMap SeriesId Int64) (defaultScale : Option Int64) :
    Exact (Tsdb.writeAll scales defaultScale : Step F Unit) := by
  refine bind redb fun _ => bind redb fun _ => bind redb fun _ => bind (gets _) fun _ =>
    each (fun series => ?_) _
  refine bind (writeT0Blocks _ _) fun _ => bind (gets _) fun new => bind (opened _) fun _ => ?_
  split
  · exact pure ()
  · exact bind (mergeTierWrites _ _ _ _ _) fun _ => mergeTierWrites _ _ _ _ _

omit [Float64 F] in
theorem deflateColdBlocks [Deflate] : Exact (Tsdb.deflateColdBlocks id : Step F Unit) := by
  refine bind redb fun _ => bind (gets _) fun entries => each (fun e => ?_) _
  split
  · refine bind (lift ?_) fun body => ?_
    · intro stop failed
      unfold deflate at failed
      split at failed
      · cases failed
      · cases failed
        exact ⟨_, rfl⟩
    · dsimp only
      split
      · exact upsertBlock _ _ _
      · exact pure ()
  · exact pure ()

end Exact

end Writing

/-! ## Evicting -/

/-- A turn of the eviction loop leaves everything, under the cap or at the newest
raw block, or removes its candidate. -/
theorem evictTurn_spec {cap : Nat} {newest : Option (Int64 × SeriesId)} {c : Cand}
    (exact : s.Counted) :
    Action.Ensures (evictTurn cap newest c) s
      (fun _ s' => s'.Counted ∧
        ((s' = s ∧ (s.logical ≤ cap ∨ (c.rank = 2 ∧ newest = some (c.ts, c.series)))) ∨
          (s.logical > cap ∧ s'.db = (s.remove c.table c.key).db)))
      fun e _ => e.Reported := by
  unfold Action.Ensures evictTurn
  rw [gets_bind]
  split_ifs with stay
  · exact ⟨exact, .inl ⟨rfl, stay⟩⟩
  rw [not_or] at stay
  cases ticked : redb s with
  | mk r s₁ =>
    cases r with
    | error e =>
      obtain ⟨-, message, rfl⟩ := redb_error ticked
      rw [removeRanked, bind_of_error (bind_of_error ticked)]
      exact ⟨_, rfl⟩
    | ok u =>
      obtain ⟨plan, rfl⟩ := redb_ok ticked
      have freed : removeRanked c s
          = (.ok (rowLength s.db c.table c.key), { s.remove c.table c.key with plan := plan }) := by
        rw [removeRanked, bind_of_ok ticked]
        rfl
      have enough := exact.rowLength_le c.table c.key
      have gone := s.scanLogical_remove c.table c.key
      have sub : subUnsigned s.logical (rowLength s.db c.table c.key)
          = .ok (s.logical - rowLength s.db c.table c.key) := if_pos enough
      rw [bind_of_ok freed, sub, lift_ok_bind]
      refine ⟨?_, .inr ⟨Nat.lt_of_not_le stay.1, rfl⟩⟩
      rw [Txn.Counted] at exact
      show s.logical - rowLength s.db c.table c.key = scanLogical (s.remove c.table c.key).db
      omega

/-- What the eviction loop has reached: the counter is exact, what is stored was
stored before, and unless the cap is met every row is still to come or is the
newest raw one. -/
structure Evicting (db₀ : Db) (cap : Nat) (newest : Option (Int64 × SeriesId)) (left : List Cand)
    (s : Txn F) : Prop where
  exact : s.Counted
  stored : ∀ (id : TableId) (key : Key) (bytes : Bytes),
    (s.db id)[key]? = some bytes → (db₀ id)[key]? = some bytes
  met : s.logical ≤ cap ∨
    ∀ (id : TableId) (key : Key) (bytes : Bytes), (s.db id)[key]? = some bytes →
      (∃ c ∈ left, c.table = id ∧ c.key = key) ∨ (id = .t0 ∧ newest = some (key.ts, key.series))

variable {newest : Option (Int64 × SeriesId)} {cap : Nat} {db₀ : Db} {left : List Cand}

theorem Evicting.turn {c : Cand} (now : Evicting db₀ cap newest (c :: left) s) :
    Action.Ensures (evictTurn cap newest c) s (fun _ => Evicting db₀ cap newest left)
      fun e _ => e.Reported := by
  refine (evictTurn_spec now.exact).imp ?_ fun _ _ reported => reported
  rintro _ s' ⟨exact, ⟨rfl, stay⟩ | ⟨over', db⟩⟩
  · refine ⟨exact, now.stored, ?_⟩
    rcases now.met with met | rows
    · exact .inl met
    rcases stay with met | ⟨rank, kept⟩
    · exact .inl met
    refine .inr fun id key bytes here => ?_
    rcases rows id key bytes here with ⟨d, mem, table, same⟩ | last
    · rcases mem_cons.mp mem with rfl | later
      · have raw : d.table = .t0 := by simp [Cand.table, rank]
        exact .inr ⟨table.symm.trans raw, by rw [← same]; exact kept⟩
      · exact .inl ⟨d, later, table, same⟩
    · exact .inr last
  · have row (id : TableId) (key : Key) : (s'.db id)[key]?
        = if c.table = id ∧ c.key = key then none else (s.db id)[key]? := by
      rw [db, Txn.remove_db]
      by_cases table : c.table = id
      · subst table
        rw [Function.update_self, erase_self]
        by_cases same : c.key = key <;> simp [same]
      · rw [Function.update_of_ne (fun eq => table eq.symm), if_neg fun both => table both.1]
    refine ⟨exact, fun id key bytes here => ?_, .inr fun id key bytes here => ?_⟩
    · rw [row] at here
      split at here
      · cases here
      · exact now.stored id key bytes here
    · rw [row] at here
      split at here
      · cases here
      next other =>
        rcases now.met with met | rows
        · omega
        rcases rows id key bytes here with ⟨d, mem, both⟩ | last
        · rcases mem_cons.mp mem with rfl | later
          · exact absurd both other
          · exact .inl ⟨d, later, both⟩
        · exact .inr last

/-- A fact that does not speak of the plan survives a table operation. -/
theorem redb_frame {P : Txn F → Prop} (frame : ∀ s plan, P s → P { s with plan := plan })
    (holds : P s) : Action.Ensures redb s (fun _ => P) fun e _ => e.Reported := by
  unfold Action.Ensures
  cases ticked : redb s with
  | mk r s' =>
    cases r with
    | ok u =>
      obtain ⟨plan, rfl⟩ := redb_ok ticked
      exact frame s plan holds
    | error e =>
      obtain ⟨-, message, rfl⟩ := redb_error ticked
      exact ⟨_, rfl⟩

theorem Evicting.plan (s : Txn F) (plan : Plan) (now : Evicting db₀ cap newest left s) :
    Evicting db₀ cap newest left { s with plan := plan } :=
  ⟨now.exact, now.stored, now.met⟩

/-- The eviction transaction, up to its commit. -/
theorem evict_spec {cands : List Cand} (start : Evicting db₀ cap newest cands s) :
    Action.Ensures (do redb; redb; evictBlocks cands cap newest) s
      (fun _ => Evicting db₀ cap newest []) fun e _ => e.Reported := by
  refine (redb_frame Evicting.plan start).bind fun _ _ now => ?_
  refine (redb_frame Evicting.plan now).bind fun _ _ now => ?_
  refine (redb_frame Evicting.plan now).bind fun _ _ now => ?_
  refine (redb_frame Evicting.plan now).bind fun _ _ now => ?_
  refine (redb_frame Evicting.plan now).bind fun _ _ now => ?_
  exact Action.Ensures.each (fun _ _ _ now => now.turn) now

namespace LocalTsdb

theorem newer_iff (a b : Int64 × SeriesId) : newer a b ↔
    a.1.toInt < b.1.toInt ∨ (a.1.toInt = b.1.toInt ∧ a.2.toNat ≤ b.2.toNat) := by
  rw [newer, Bool.or_eq_true, Bool.and_eq_true, decide_eq_true_iff, decide_eq_true_iff,
    decide_eq_true_iff, Int64.lt_iff_toInt_lt, Int64.toInt_inj, UInt32.le_iff_toNat_le]

/-- The running maximum is at least what it started from and all it has seen. -/
theorem foldl_newer (l : List (Int64 × SeriesId)) (init : Option (Int64 × SeriesId))
    {r : Int64 × SeriesId}
    (is : l.foldl (fun best c => some (best.elim c fun b => if newer b c then c else b)) init
      = some r) :
    (∀ b, init = some b → newer b r) ∧ ∀ c ∈ l, newer c r := by
  induction l generalizing init with
  | nil =>
    refine ⟨fun b same => ?_, fun c mem => absurd mem not_mem_nil⟩
    obtain rfl : b = r := Option.some.inj (same.symm.trans is)
    rw [newer_iff]
    omega
  | cons c l ih =>
    obtain ⟨best, rest⟩ := ih _ is
    have top := best _ rfl
    cases init with
    | none =>
      refine ⟨fun b same => absurd same (by simp), fun d mem => ?_⟩
      rcases mem_cons.mp mem with rfl | later
      · exact top
      · exact rest d later
    | some b =>
      have both : newer b r ∧ newer c r := by
        rw [Option.elim_some] at top
        split at top
        next less =>
          rw [newer_iff] at less top ⊢
          exact ⟨by omega, by rw [newer_iff]; omega⟩
        next more =>
          rw [newer_iff] at more top ⊢
          exact ⟨by omega, by rw [newer_iff]; omega⟩
      refine ⟨fun b' same => (Option.some.inj same) ▸ both.1, fun d mem => ?_⟩
      rcases mem_cons.mp mem with rfl | later
      · exact both.2
      · exact rest d later

/-- Every stored row is a candidate. -/
theorem mem_collectEvictable (st : LocalTsdb F) {id : TableId}
    (here : (st.db id)[key]? = some bytes) :
    ∃ c ∈ st.collectEvictable, c.table = id ∧ c.key = key ∧ (id = .t0 → c.rank = 2) := by
  have mem := ExtTreeMap.mem_toList_iff_getElem?_eq_some.mpr here
  cases id with
  | t0 =>
    exact ⟨⟨key.ts, 2, key.series⟩, mem_append_right _ (mem_append_right _
      (mem_map.mpr ⟨_, mem, rfl⟩)), rfl, rfl, fun _ => rfl⟩
  | t1 =>
    exact ⟨⟨key.ts, 1, key.series⟩, mem_append_right _ (mem_append_left _
      (mem_map.mpr ⟨_, mem, rfl⟩)), rfl, rfl, fun no => by cases no⟩
  | t2 =>
    exact ⟨⟨key.ts, 0, key.series⟩, mem_append_left _ (mem_map.mpr ⟨_, mem, rfl⟩),
      rfl, rfl, fun no => by cases no⟩

/-- What is stored in `db'` is one raw block, and no raw block of `db` is newer. -/
def OnlyNewest (db db' : Db) : Prop :=
  ∃ key bytes, (db' .t0)[key]? = some bytes ∧
    (∀ (id : TableId) (k : Key) (b : Bytes), (db' id)[k]? = some b → id = .t0 ∧ k = key) ∧
    ∀ (k : Key) (b : Bytes), (db .t0)[k]? = some b →
      newer (k.ts, k.series) (key.ts, key.series) = true

theorem scanLogical_of_empty {db : Db}
    (empty : ∀ (id : TableId) (key : Key), (db id)[key]? = none) : scanLogical db = 0 := by
  have none (id : TableId) : db id = ∅ := ExtTreeMap.ext_getElem? fun key => by
    rw [empty id key]
    rfl
  rw [scanLogical, none, none, none]
  rfl

/-- Where the loop ends the cap is met, or the newest raw block is all there is. -/
theorem done_of_evicting {st : LocalTsdb F}
    (now : Evicting st.db cap (newestT0 st.collectEvictable) [] s) :
    s.logical ≤ cap ∨ OnlyNewest st.db s.db := by
  rcases now.met with met | rows
  · exact .inl met
  by_cases empty : ∀ (id : TableId) (key : Key), (s.db id)[key]? = none
  · have zero := scanLogical_of_empty empty
    have exact := now.exact
    rw [Txn.Counted] at exact
    exact .inl (by omega)
  · push Not at empty
    obtain ⟨id, key, some⟩ := empty
    obtain ⟨bytes, here⟩ := Option.ne_none_iff_exists'.mp some
    have newest (id : TableId) (k : Key) (b : Bytes) (at_ : (s.db id)[k]? = .some b) :
        id = .t0 ∧ newestT0 st.collectEvictable = .some (k.ts, k.series) := by
      rcases rows id k b at_ with ⟨c, mem, -⟩ | last
      · exact absurd mem not_mem_nil
      · exact last
    obtain ⟨rfl, top⟩ := newest id key bytes here
    refine .inr ⟨key, bytes, here, fun id' k b at_ => ?_, fun k b at_ => ?_⟩
    · obtain ⟨raw, same⟩ := newest id' k b at_
      rw [top, Option.some.injEq, Prod.mk.injEq] at same
      refine ⟨raw, ?_⟩
      cases k
      cases key
      exact (congrArg₂ Key.mk same.2 same.1).symm
    · obtain ⟨c, mem, -, rfl, rank⟩ := st.mem_collectEvictable at_
      refine (foldl_newer _ none top).2 _ (mem_map.mpr ⟨c, ?_, rfl⟩)
      exact mem_filter.mpr ⟨mem, decide_eq_true (rank rfl)⟩

/-! ## Runs -/

/-- The counter of a store is the sum of its blocks' lengths. -/
def Counted (st : LocalTsdb F) : Prop := st.logicalBytes = scanLogical st.db

section Runs

variable [Float64 F]

variable {st : LocalTsdb F}

omit [Float64 F] in
/-- Every stored row is ahead of the eviction loop. -/
theorem evicting_begin (exact : st.Counted) (plan : Plan) (cap : Nat) :
    Evicting st.db cap (newestT0 st.collectEvictable)
      (st.collectEvictable.insertionSort evictionOrder) (st.begin plan) := by
  refine ⟨exact, fun _ _ _ here => here, .inr fun id key bytes here => .inl ?_⟩
  obtain ⟨c, mem, table, key, -⟩ := st.mem_collectEvictable here
  exact ⟨c, (perm_insertionSort _ _).mem_iff.mpr mem, table, key⟩

variable {st' : LocalTsdb F} {plan : Plan} {op : Op F}

theorem enforceCap_ok (exact : st.Counted) (ran : st.enforceCap plan = (.ok (), st')) :
    st'.Counted ∧ (st'.logicalBytes ≤ st'.effectiveCap ∨ OnlyNewest st.db st'.db) := by
  unfold enforceCap at ran
  dsimp only at ran
  split at ran
  next under =>
    cases ran
    exact ⟨exact, .inl under⟩
  · have done := evict_spec (evicting_begin exact plan st.effectiveCap)
    split at ran
    · cases ran
    next s evicted =>
      have now := done.ok evicted
      split at ran
      · cases ran
      · cases ran
        exact ⟨now.exact, done_of_evicting now⟩

theorem enforceCap_error (exact : st.Counted) (failed : st.enforceCap plan = (.error e, st')) :
    e.Reported := by
  unfold enforceCap at failed
  dsimp only at failed
  split at failed
  · cases failed
  · have done := evict_spec (evicting_begin exact plan st.effectiveCap)
    split at failed
    next stopped =>
      cases failed
      exact done.error stopped
    next s evicted =>
      split at failed
      next stopped =>
        cases failed
        obtain ⟨-, message, rfl⟩ := redb_error stopped
        exact ⟨_, rfl⟩
      · cases failed

theorem commitTxn_exact [Deflate] (st : LocalTsdb F) : Exact st.commitTxn :=
  .bind .redb fun _ => .bind .redb fun _ => .bind (.writeAll _ _) fun _ => .redb

omit [Float64 F] in
theorem compact_exact [Deflate] : Exact (do
    redb; redb; redb; deflateColdBlocks .t1; redb; deflateColdBlocks .t2; redb : Step F Unit) :=
  .bind .redb fun _ => .bind .redb fun _ => .bind .redb fun _ => .bind (.deflateColdBlocks _)
    fun _ => .bind .redb fun _ => .bind (.deflateColdBlocks _) fun _ => .redb

/-- What a successful commit leaves. -/
theorem commit_ok [Deflate] (exact : st.Counted) (ran : st.commit plan = (.ok (), st')) :
    st'.Counted ∧ (st'.logicalBytes ≤ st'.effectiveCap ∨
      ∃ s, st.commitTxn (st.begin plan) = (.ok (), s) ∧ OnlyNewest s.db st'.db) := by
  unfold commit at ran
  split at ran
  · cases ran
  next s wrote =>
    have now : (st.written s).Counted := (st.commitTxn_exact (st.begin plan) exact).ok wrote
    obtain ⟨counted, met⟩ := enforceCap_ok now ran
    exact ⟨counted, met.imp_right fun only => ⟨s, wrote, only⟩⟩

theorem apply_ok [Deflate] (exact : st.Counted) (ran : op.apply st = (.ok (), st')) :
    st'.Counted := by
  cases op with
  | append series sample anomaly | setScale series scale | setHostFreeBytes free =>
    cases ran
    exact exact
  | commit plan => exact (commit_ok exact ran).1
  | compactColdTiers plan =>
    change st.compactColdTiers plan = _ at ran
    unfold compactColdTiers at ran
    dsimp only at ran
    split at ran
    · cases ran
    next s compacted =>
      cases ran
      exact (compact_exact (st.begin plan) exact).ok compacted
  | purge plan =>
    change st.purge plan = _ at ran
    unfold purge at ran
    split at ran
    · cases ran
    · cases ran
      exact (scanLogical_of_empty fun _ _ => rfl).symm
  | reopen config =>
    cases ran
    rfl

/-- No operation on a store whose counter is exact panics. -/
theorem apply_error [Deflate] (exact : st.Counted) (failed : op.apply st = (.error e, st')) :
    e.Reported := by
  cases op with
  | append series sample anomaly | setScale series scale | setHostFreeBytes free | reopen config =>
    cases failed
  | commit plan =>
    change st.commit plan = _ at failed
    unfold commit at failed
    split at failed
    next stopped =>
      cases failed
      exact (st.commitTxn_exact (st.begin plan) exact).error stopped
    next s wrote =>
      have now : (st.written s).Counted := (st.commitTxn_exact (st.begin plan) exact).ok wrote
      exact enforceCap_error now failed
  | compactColdTiers plan =>
    change st.compactColdTiers plan = _ at failed
    unfold compactColdTiers at failed
    dsimp only at failed
    split at failed
    next stopped =>
      cases failed
      exact (compact_exact (st.begin plan) exact).error stopped
    · cases failed
  | purge plan =>
    change st.purge plan = _ at failed
    unfold purge at failed
    split at failed
    next stopped =>
      cases failed
      exact (Exact.each (fun _ => Exact.redb) _ (st.begin plan) exact).error stopped
    · cases failed

/-- The footprint counter is exact in every run of successful operations, so no
operation that follows underflows it; and after a successful commit the counter is
under the cap or the newest raw block of what was written is all that is stored. -/
theorem footprint_exact [Deflate] (db : Db) (config : TsdbConfig F) (ops : List (Op F))
    (st : LocalTsdb F) (ran : runOps (.open db config) ops = some st) :
    st.logicalBytes = scanLogical st.db ∧
      (∀ (op : Op F) (f : Fault) (st' : LocalTsdb F), op.apply st ≠ (.error (.fault f), st')) ∧
      ∀ (plan : Plan) (st' : LocalTsdb F), st.commit plan = (.ok (), st') →
        st'.logicalBytes ≤ st'.effectiveCap ∨
          ∃ s, st.commitTxn (st.begin plan) = (.ok (), s) ∧ OnlyNewest s.db st'.db := by
  have exact : st.Counted := runOps_inv (I := Counted) (fun _ _ _ now ok => apply_ok now ok)
    (show (LocalTsdb.open db config).Counted from rfl) ran
  refine ⟨exact, fun op f st' failed => ?_, fun plan st' ok => (commit_ok exact ok).2⟩
  obtain ⟨error, same⟩ := apply_error exact failed
  cases same

end Runs

/-- A store whose cap no block fits. -/
def tightConfig : TsdbConfig Int64 where
  capBytes := 1
  hostFreeFraction := 0
  defaultScale := none

/-- Two samples an hour apart, committed apart under a cap nothing fits. -/
def tightOps : List (Op Int64) :=
  [.append 7 ⟨100, 5⟩ false, .commit none, .append 7 ⟨4000, 6⟩ true, .reopen tightConfig,
    .append 7 ⟨8000, 6⟩ true, .commit none, .compactColdTiers none]

theorem footprint_exact_tight : ∃ st, runOps (.open (fun _ => ∅) tightConfig) tightOps = some st ∧
    st.logicalBytes = scanLogical st.db ∧ (st.db .t0).toList.length = 1 ∧
    (st.db .t1).toList.length = 0 := by
  cases ran : runOps (.open (fun _ => ∅) tightConfig) tightOps with
  | none => exact absurd (congrArg Option.isSome ran) (by decide +kernel)
  | some st =>
    refine ⟨st, rfl, (footprint_exact _ _ _ _ ran).1, ?_, ?_⟩
    · have rows : (runOps (.open (fun _ => ∅) tightConfig) tightOps).map
          (fun st => (st.db .t0).toList.length) = some 1 := by decide +kernel
      rw [ran] at rows
      exact Option.some.inj rows
    · have rows : (runOps (.open (fun _ => ∅) tightConfig) tightOps).map
          (fun st => (st.db .t1).toList.length) = some 0 := by decide +kernel
      rw [ran] at rows
      exact Option.some.inj rows

end LocalTsdb

end OpenGate.Tsdb
