import OpenGate.Tsdb.Writes
import OpenGate.Tsdb.Whole

/-!
# Commits that fail

A transaction that fails leaves the tables as they were, but the buffers are
emptied one series after the other while it is built: the sealed blocks when their
writing starts, the samples awaiting rollup before they are merged.  What the
failed commit leaves of them depends on how many table operations came before the
one that failed.
-/

namespace OpenGate.Tsdb

open OpenGate.Lib Std Action OpenSeries Action List

variable {F α β : Type} {f : α → Step F Unit}

/-! ## What writing does to the buffers -/

/-- However it ends, the buffers are as they were. -/
def Calm (x : Step F α) : Prop := ∀ s, (x s).2.opened = s.opened

theorem Calm.bind {x : Step F α} {f : α → Step F β} (first : Calm x) (second : ∀ a, Calm (f a)) :
    Calm (x >>= f) := by
  intro s
  have before := first s
  rw [bind_apply]
  cases ran : x s with
  | mk r s₁ =>
    rw [ran] at before
    cases r with
    | ok a => exact (second a s₁).trans before
    | error e => exact before

theorem Calm.each (turn : ∀ a, Calm (f a)) (xs : List α) : Calm (each f xs) := by
  induction xs with
  | nil => exact fun _ => rfl
  | cons x xs ih => exact (turn x).bind fun _ => ih

theorem calm_redb : Calm (redb : Step F Unit) := by
  intro s
  unfold redb
  split <;> rfl

theorem calm_upsertBlock {id : TableId} {key : Key} {bytes : Bytes} :
    Calm (upsertBlock id key bytes : Step F Unit) :=
  calm_redb.bind fun _ => Calm.bind (fun _ => rfl) fun _ => Calm.bind (fun _ => rfl) fun _ =>
    Calm.bind (fun _ => rfl) fun _ => Calm.bind (fun _ => rfl) fun _ => fun _ => rfl

/-- Buffers of which the sealed blocks or the samples to roll up may be gone. -/
structure Faded (os os' : OpenSeries F) : Prop where
  tailFirstTs : os'.tailFirstTs = os.tailFirstTs
  tail : os'.tail = os.tail
  sealed : os'.sealed = os.sealed ∨ os'.sealed = []
  unrolled : os'.unrolled = os.unrolled ∨ os'.unrolled = []

variable (os : OpenSeries F) {s s' : Txn F} {x : SeriesId} {e : TsdbError}
  {opened opened' : Opened F} {a b c : OpenSeries F} {bytes : Bytes} {id : TableId} {key : Key}
  {plan : Plan}

theorem Faded.refl : Faded os os := ⟨rfl, rfl, .inl rfl, .inl rfl⟩

theorem Faded.trans (ab : Faded a b) (bc : Faded b c) : Faded a c := by
  refine ⟨bc.tailFirstTs.trans ab.tailFirstTs, bc.tail.trans ab.tail, ?_, ?_⟩
  · rcases bc.sealed with same | gone
    · rcases ab.sealed with same' | gone'
      · exact .inl (same.trans same')
      · exact .inr (same.trans gone')
    · exact .inr gone
  · rcases bc.unrolled with same | gone
    · rcases ab.unrolled with same' | gone'
      · exact .inl (same.trans same')
      · exact .inr (same.trans gone')
    · exact .inr gone

theorem Faded.sealed_nil {os os' : OpenSeries F} (faded : Faded os os') (empty : os.sealed = []) :
    os'.sealed = [] :=
  faded.sealed.elim (fun same => same.trans empty) id

theorem Faded.unrolled_nil {os os' : OpenSeries F} (faded : Faded os os')
    (empty : os.unrolled = []) : os'.unrolled = [] :=
  faded.unrolled.elim (fun same => same.trans empty) id

/-- However it ends, the buffers only fade. -/
def Fades (x : Step F α) : Prop := ∀ s y, Faded (s.opened.of y) ((x s).2.opened.of y)

theorem Calm.fades {x : Step F α} (calm : Calm x) : Fades x := by
  intro s y
  rw [calm s]
  exact Faded.refl _

theorem Fades.bind {x : Step F α} {f : α → Step F β} (first : Fades x)
    (second : ∀ a, Fades (f a)) : Fades (x >>= f) := by
  intro s y
  have before := first s y
  rw [bind_apply]
  cases ran : x s with
  | mk r s₁ =>
    rw [ran] at before
    cases r with
    | ok a => exact before.trans (second a s₁ y)
    | error e => exact before

theorem Fades.each (turn : ∀ a, Fades (f a)) (xs : List α) : Fades (each f xs) := by
  induction xs with
  | nil => exact fun _ _ => Faded.refl _
  | cons x xs ih => exact (turn x).bind fun _ => ih

/-- A change to one series that only fades it. -/
theorem fades_modify {g : OpenSeries F → OpenSeries F} (fades : ∀ os, Faded os (g os)) :
    Fades (modify fun s : Txn F =>
      { s with opened := s.opened.insert x (g (s.opened.of x)) } : Step F Unit) := by
  intro s y
  rw [modify_apply, of_insert]
  split
  next same => exact same ▸ fades _
  · exact Faded.refl _

theorem faded_sealed : Faded os { os with sealed := [] } :=
  ⟨rfl, rfl, .inr rfl, .inl rfl⟩

theorem faded_unrolled : Faded os { os with unrolled := [] } :=
  ⟨rfl, rfl, .inl rfl, .inr rfl⟩

/-! ## When the failing operation comes -/

/-- The operation that fails is among the next `n`. -/
def Due (n : Nat) (plan : Plan) : Prop := ∃ k message, plan = some (k, message) ∧ k < n

theorem not_due_zero : ¬ Due 0 plan := by
  rintro ⟨k, message, -, early⟩
  exact Nat.not_lt_zero k early

theorem due_of_redb_error {e : Stop} (failed : redb s = (.error e, s')) {n : Nat} :
    Due (n + 1) s.plan := by
  unfold redb at failed
  split at failed
  · cases failed
  next message planned => exact ⟨0, message, planned, Nat.succ_pos n⟩
  · cases failed

theorem due_of_redb_ok {u : Unit} (ran : redb s = (.ok u, s')) {n : Nat} :
    Due (n + 1) s.plan ↔ Due n s'.plan := by
  unfold redb at ran
  split at ran
  next planned =>
    cases ran
    simp [Due, planned]
  · cases ran
  next k message planned =>
    cases ran
    simp [Due, planned]

theorem upsertBlock_error (failed : upsertBlock id key bytes s = (.error (.error e), s'))
    (n : Nat) : Due (n + 1) s.plan := by
  rcases bind_error failed with struck | ⟨_, s₁, ticked, rest⟩
  · exact due_of_redb_error struck
  · -- past the table operation only the counter can stop it, and that is no error
    simp only [gets_bind, modify_bind] at rest
    rcases bind_error rest with counted | ⟨_, _, _, modified⟩
    · rw [lift_apply, Prod.mk.injEq] at counted
      have stopped := counted.1
      unfold replaceLen subUnsigned at stopped
      split at stopped
      · cases stopped
      · cases stopped
    · cases modified

theorem due_of_upsertBlock {u : Unit} (ran : upsertBlock id key bytes s = (.ok u, s')) (n : Nat) :
    Due (n + 1) s.plan ↔ Due n s'.plan := by
  obtain ⟨_, s₁, ticked, ran⟩ := Action.bind_ok ran
  simp only [gets_bind, modify_bind] at ran
  obtain ⟨_, s₂, counted, ran⟩ := Action.bind_ok ran
  rw [lift_apply, Prod.mk.injEq] at counted
  obtain ⟨-, rfl⟩ := counted
  cases ran
  exact due_of_redb_ok ticked

def OpenSeries.tailOps (os : OpenSeries F) : Nat := if os.tail = [] then 0 else 1

/-- How many operations the writing of these series makes before it takes something
out of a buffer. -/
def safeOps : List (OpenSeries F) → Nat
  | [] => 0
  | os :: rest =>
    if os.sealed = [] then os.tailOps + if os.unrolled = [] then safeOps rest else 0 else 0

/-- Something was in the buffers and is gone. -/
def Lost (os os' : OpenSeries F) : Prop :=
  (os.sealed ≠ [] ∧ os'.sealed = []) ∨ (os.unrolled ≠ [] ∧ os'.unrolled = [])

theorem Lost.faded (lost : Lost a b) (faded : Faded b c) : Lost a c := by
  rcases lost with ⟨some, gone⟩ | ⟨some, gone⟩
  · exact .inl ⟨some, faded.sealed_nil gone⟩
  · exact .inr ⟨some, faded.unrolled_nil gone⟩

/-- A change to one series that is none for it. -/
theorem insert_same {os : OpenSeries F} (present : x ∈ opened) (same : os = opened.of x) :
    opened.insert x os = opened := by
  have here : opened[x]? = some (opened.of x) := by
    rw [Opened.of, ExtTreeMap.getElem?_eq_some_getElem present, Option.getD_some]
  refine ExtTreeMap.ext_getElem? fun y => ?_
  rw [insert_self]
  split
  next at_y => rw [same, ← here, at_y]
  · rfl

section Raw

variable [Float64 F]

variable (series : SeriesId) (scale : Option Int64)

theorem calm_t0Rest (os : OpenSeries F) :
    Calm (do
      each (fun b => upsertBlock .t0 ⟨series, b.1⟩ (encodeT0Block b.2 scale)) os.sealed
      if os.tail = [] then pure ()
      else upsertBlock .t0 ⟨series, os.tailFirstTs⟩ (encodeT0Block os.tail scale) :
          Step F Unit) := by
  refine (Calm.each (fun b => calm_upsertBlock) _).bind fun _ => ?_
  split
  · exact fun _ => rfl
  · exact calm_upsertBlock

theorem fades_writeT0Blocks : Fades (writeT0Blocks series scale : Step F Unit) :=
  Fades.bind (fun _ _ => Faded.refl _) fun os =>
    (fades_modify faded_sealed).bind fun _ => (calm_t0Rest series scale os).fades

section Writing

variable [Deflate] {r : Result Unit}

theorem calm_mergeTierWrites {series : SeriesId} {new : List (Sample F)} (interval span : Int64) :
    Calm (mergeTierWrites id series new interval span) :=
  Calm.each (fun _ => calm_redb.bind fun _ => Calm.bind (fun _ => rfl) fun _ =>
    Calm.bind (fun _ => rfl) fun _ => calm_upsertBlock) _

theorem calm_merges (series : SeriesId) (new : List (Sample F)) :
    Calm (if new = [] then pure () else do
      mergeTierWrites .t1 series new t1Minute t1BlockSpan
      mergeTierWrites .t2 series new t2Hour t2BlockSpan : Step F Unit) := by
  split
  · exact fun _ => rfl
  · exact (calm_mergeTierWrites _ _).bind fun _ => calm_mergeTierWrites _ _

section Fading

variable (scales : ExtTreeMap SeriesId Int64) (defaultScale : Option Int64)

theorem fades_writeSeries (x : SeriesId) :
    Fades (writeSeries scales defaultScale x : Step F Unit) :=
  (fades_writeT0Blocks x _).bind fun _ => Fades.bind (fun _ _ => Faded.refl _) fun new =>
    (fades_modify faded_unrolled).bind fun _ => (calm_merges x new).fades

theorem fades_writeAll : Fades (writeAll scales defaultScale : Step F Unit) :=
  calm_redb.fades.bind fun _ => calm_redb.fades.bind fun _ => calm_redb.fades.bind fun _ =>
    Fades.bind (fun _ _ => Faded.refl _) fun xs =>
      Fades.each (fun x => fades_writeSeries scales defaultScale x) xs

end Fading

/-! ## One series -/

omit [Deflate] in
/-- The raw blocks of a series without sealed ones: one operation if there is a tail. -/
theorem writeT0Blocks_of_unsealed {scale : Option Int64} (present : x ∈ s.opened)
    (unsealed : (s.opened.of x).sealed = []) (ran : writeT0Blocks x scale s = (r, s')) :
    s'.opened = s.opened ∧
      (∀ u, r = .ok u → ∀ n, Due ((s.opened.of x).tailOps + n) s.plan ↔ Due n s'.plan) ∧
      (∀ e, r = .error (.error e) → ∀ n, Due ((s.opened.of x).tailOps + n) s.plan) := by
  unfold writeT0Blocks at ran
  simp only [gets_bind, modify_bind] at ran
  have calm := calm_t0Rest x scale (s.opened.of x)
    { s with opened := s.opened.insert x { s.opened.of x with sealed := [] } }
  rw [ran] at calm
  have buffers : s'.opened = s.opened := calm.trans (insert_same present (by rw [← unsealed]))
  rw [unsealed] at ran
  have tail : (if (s.opened.of x).tail = [] then pure ()
      else upsertBlock .t0 ⟨x, (s.opened.of x).tailFirstTs⟩
        (encodeT0Block (s.opened.of x).tail scale) : Step F Unit)
      { s with opened := s.opened.insert x { s.opened.of x with sealed := [] } } = (r, s') := ran
  refine ⟨buffers, ?_, ?_⟩
  · rintro u rfl n
    unfold tailOps
    split at tail
    next empty =>
      cases tail
      rw [if_pos empty, Nat.zero_add]
    next some =>
      rw [if_neg some, Nat.add_comm]
      exact due_of_upsertBlock tail n
  · rintro e rfl n
    unfold tailOps
    split at tail
    · cases tail
    next some =>
      rw [if_neg some, Nat.add_comm]
      exact upsertBlock_error tail n

section Turns

variable {scales : ExtTreeMap SeriesId Int64} {defaultScale : Option Int64}

/-- Sealed blocks are gone however the series ends. -/
theorem writeSeries_sealed (scales : ExtTreeMap SeriesId Int64) (defaultScale : Option Int64)
    (x : SeriesId) (s : Txn F) :
    ((writeSeries scales defaultScale x s).2.opened.of x).sealed = [] := by
  have first : ((writeT0Blocks x (scales[x]?.or defaultScale) s).2.opened.of x).sealed = [] := by
    unfold writeT0Blocks
    simp only [gets_bind, modify_bind]
    rw [calm_t0Rest x (scales[x]?.or defaultScale) (s.opened.of x), of_insert, if_pos rfl]
  have rest : Fades (do
      let new ← gets fun s => (s.opened.of x).unrolled
      modify fun s =>
        { s with opened := s.opened.insert x { s.opened.of x with unrolled := [] } }
      if new = [] then pure ()
      else do
        mergeTierWrites .t1 x new t1Minute t1BlockSpan
        mergeTierWrites .t2 x new t2Hour t2BlockSpan : Step F Unit) :=
    Fades.bind (fun _ _ => Faded.refl _) fun new =>
      (fades_modify faded_unrolled).bind fun _ => (calm_merges x new).fades
  unfold writeSeries
  rw [bind_apply]
  cases ran : writeT0Blocks x (scales[x]?.or defaultScale) s with
  | mk r s₁ =>
    rw [ran] at first
    cases r with
    | ok u => exact (rest s₁ x).sealed_nil first
    | error e => exact first

/-- One series: it takes something out of its buffers, too late for the failing
operation to come before that; or it leaves the buffers as they are. -/
theorem writeSeries_turn (present : x ∈ s.opened)
    (ran : writeSeries scales defaultScale x s = (r, s')) (noFault : ∀ f, r ≠ .error (.fault f)) :
    (Lost (s.opened.of x) (s'.opened.of x) ∧ ∀ rest,
      ¬ Due (safeOps (s.opened.of x :: rest)) s.plan) ∨ (s'.opened = s.opened ∧
        (∀ u, r = .ok u → ∀ rest,
          Due (safeOps (s.opened.of x :: rest)) s.plan ↔ Due (safeOps rest) s'.plan) ∧
        (∀ e, r = .error e → ∀ rest, Due (safeOps (s.opened.of x :: rest)) s.plan)) := by
  by_cases unsealed : (s.opened.of x).sealed = []
  · have counted : ∀ rest, safeOps (s.opened.of x :: rest) = (s.opened.of x).tailOps +
        if (s.opened.of x).unrolled = [] then safeOps rest else 0 := by
      intro rest
      rw [safeOps, if_pos unsealed]
    unfold writeSeries at ran
    rw [bind_apply] at ran
    cases wrote : writeT0Blocks x (scales[x]?.or defaultScale) s with
    | mk r₁ s₁ =>
      rw [wrote] at ran
      obtain ⟨buffers, onOk, onError⟩ := writeT0Blocks_of_unsealed present unsealed wrote
      cases r₁ with
      | error stop =>
        cases ran
        cases stop with
        | fault f => exact absurd rfl (noFault f)
        | error e =>
          refine .inr ⟨buffers, fun u same => (by cases same), fun e' _ rest => ?_⟩
          rw [counted]
          exact onError e rfl _
      | ok u =>
        simp only [gets_bind, modify_bind] at ran
        have calm := calm_merges x (s₁.opened.of x).unrolled
          { s₁ with opened := s₁.opened.insert x { s₁.opened.of x with unrolled := [] } }
        rw [ran] at calm
        by_cases rolled : (s.opened.of x).unrolled = []
        · right
          have rolled₁ : (s₁.opened.of x).unrolled = [] := by rw [buffers, rolled]
          rw [if_pos rolled₁] at ran
          cases ran
          refine ⟨?_, fun _ _ rest => ?_, fun e same => (by cases same)⟩
          · rw [← buffers] at present ⊢
            exact insert_same present (by rw [← rolled₁])
          · rw [counted, if_pos rolled]
            exact onOk u rfl _
        · left
          refine ⟨.inr ⟨rolled, ?_⟩, fun rest due => ?_⟩
          · rw [calm, of_insert, if_pos rfl]
          · rw [counted, if_neg rolled] at due
            exact not_due_zero ((onOk u rfl 0).mp due)
  · left
    refine ⟨.inl ⟨unsealed, ?_⟩, fun rest due => ?_⟩
    · have gone := writeSeries_sealed scales defaultScale x s
      rwa [ran] at gone
    · rw [safeOps, if_neg unsealed] at due
      exact not_due_zero due

/-- The loop over the series, when it returns an error. -/
theorem each_writeSeries_error {xs : List SeriesId} (present : ∀ x ∈ xs, x ∈ s.opened)
    (failed : each (writeSeries scales defaultScale) xs s = (.error (.error e), s')) :
    (Due (safeOps (xs.map s.opened.of)) s.plan ∧ s'.opened = s.opened) ∨
      (¬ Due (safeOps (xs.map s.opened.of)) s.plan ∧
        ∃ y, Lost (s.opened.of y) (s'.opened.of y)) := by
  induction xs generalizing s with
  | nil => cases failed
  | cons x xs ih =>
    rw [map_cons]
    rcases bind_error failed with stopped | ⟨u, s₁, first, rest⟩
    · rcases writeSeries_turn (present x mem_cons_self) stopped (by intro f same; cases same) with
        ⟨lost, late⟩ | ⟨buffers, -, onError⟩
      · exact .inr ⟨late _, x, lost⟩
      · exact .inl ⟨onError _ rfl _, buffers⟩
    · rcases writeSeries_turn (present x mem_cons_self) first (by intro f same; cases same) with
        ⟨lost, late⟩ | ⟨buffers, onOk, -⟩
      · have faded := Fades.each (fun x => fades_writeSeries (F := F) scales defaultScale x) xs s₁ x
        rw [rest] at faded
        exact .inr ⟨late _, x, lost.faded faded⟩
      · rw [onOk u rfl, ← buffers]
        exact ih (fun y mem => buffers ▸ present y (.tail _ mem)) rest

end Turns

end Writing

end Raw

/-! ## The commit -/

def OpenSeries.raw (os : OpenSeries F) : List (Sample F × Bool) :=
  os.sealed.flatMap Prod.snd ++ os.tail

/-- Every sample buffered is still buffered, to be stored and to be rolled up. -/
def Retains (opened opened' : Opened F) : Prop :=
  ∀ x, (opened.of x).raw.Subperm (opened'.of x).raw ∧
    (opened.of x).unrolled.Subperm (opened'.of x).unrolled

/-- Sealed blocks hold samples. -/
def Filled (opened : Opened F) : Prop := ∀ x, ∀ b ∈ (opened.of x).sealed, b.2 ≠ []

theorem not_retains_of_lost (filled : Filled opened) (faded : Faded (opened.of x) (opened'.of x))
    (lost : Lost (opened.of x) (opened'.of x)) : ¬ Retains opened opened' := by
  intro retains
  rcases lost with ⟨some, gone⟩ | ⟨some, gone⟩
  · obtain ⟨b, mem⟩ := exists_mem_of_ne_nil _ some
    have shorter := (retains x).1.length_le
    have block : 0 < b.2.length := length_pos_iff.mpr (filled x b mem)
    have held : b.2.length ≤ ((opened.of x).sealed.flatMap Prod.snd).length := by
      rw [length_flatMap]
      exact le_sum_of_mem (mem_map.mpr ⟨b, mem, rfl⟩)
    rw [OpenSeries.raw, OpenSeries.raw, gone, faded.tail, length_append, flatMap_nil,
      nil_append] at shorter
    omega
  · have shorter := (retains x).2.length_le
    rw [gone] at shorter
    exact some (length_eq_zero_iff.mp (Nat.le_zero.mp shorter))

namespace LocalTsdb

section Commits

variable [Float64 F] [Deflate]

/-- A store that operations lead to, whether they succeed or fail. -/
def Reached (st : LocalTsdb F) : Prop :=
  ∃ (db : Db) (config : TsdbConfig F) (ops : List (Op F)),
    st = ops.foldl (fun st op => (op.apply st).2) (.open db config)

omit [Float64 F] [Deflate] in
theorem filled_of_faded (filled : Filled opened) (faded : ∀ x, Faded (opened.of x) (opened'.of x)) :
    Filled opened' := by
  intro x b mem
  rcases (faded x).sealed with same | gone
  · exact filled x b (same ▸ mem)
  · rw [gone] at mem
    cases mem

variable {st : LocalTsdb F}

omit [Float64 F] [Deflate] in
theorem filled_append (filled : Filled st.opened) (sample : Sample F) (anomaly : Bool) :
    Filled (st.append x sample anomaly).opened := by
  intro y b mem
  rw [append, of_insert] at mem
  split at mem
  · unfold OpenSeries.append at mem
    dsimp only at mem
    split at mem
    · rcases mem_append.mp mem with before | last
      · exact filled x b before
      · rw [mem_singleton.mp last]
        exact append_ne_nil_of_right_ne_nil _ (cons_ne_nil _ _)
    · exact filled x b mem
  · exact filled y b mem

omit [Deflate] in
theorem enforceCap_opened : (st.enforceCap plan).2.opened = st.opened := by
  unfold enforceCap
  dsimp only
  split
  · rfl
  · split
    · rfl
    · split <;> rfl

theorem fades_commitTxn (st : LocalTsdb F) : Fades st.commitTxn :=
  calm_redb.fades.bind fun _ => calm_redb.fades.bind fun _ =>
    (fades_writeAll _ _).bind fun _ => calm_redb.fades

theorem filled_commit (filled : Filled st.opened) : Filled (st.commit plan).2.opened := by
  have after : Filled (st.commitTxn (st.begin plan)).2.opened :=
    filled_of_faded filled (fades_commitTxn st (st.begin plan))
  unfold commit
  cases ran : st.commitTxn (st.begin plan) with
  | mk r s =>
    rw [ran] at after
    cases r with
    | error e => exact after
    | ok u =>
      rw [enforceCap_opened]
      intro x b mem
      have kept : (st.written s).opened[x]? = s.opened[x]?.filter pending :=
        filter_getElem? _
      rw [Opened.of, kept] at mem
      cases here : s.opened[x]? with
      | none =>
        rw [here] at mem
        cases mem
      | some os =>
        have same : s.opened.of x = os := by rw [Opened.of, here, Option.getD_some]
        rw [here, Option.filter_some] at mem
        split at mem
        · exact after x b (by rw [same]; exact mem)
        · cases mem

theorem filled_apply (filled : Filled st.opened) (op : Op F) : Filled (op.apply st).2.opened := by
  cases op with
  | append x sample anomaly => exact filled_append filled sample anomaly
  | setScale x scale | setHostFreeBytes free => exact filled
  | commit plan => exact filled_commit filled
  | compactColdTiers plan =>
    have same : (st.compactColdTiers plan).2.opened = st.opened := by
      unfold compactColdTiers
      dsimp only
      split <;> rfl
    exact same.symm ▸ filled
  | purge plan =>
    show Filled (st.purge plan).2.opened
    unfold purge
    split
    · exact filled
    · intro x b mem
      simp [Opened.of] at mem
  | reopen config =>
    intro x b mem
    have none : (LocalTsdb.open st.db config).opened.of x = {} := by
      simp [LocalTsdb.open, Opened.of]
    change b ∈ ((LocalTsdb.open st.db config).opened.of x).sealed at mem
    cases mem

theorem Reached.filled (reached : st.Reached) : Filled st.opened := by
  obtain ⟨db, config, ops, rfl⟩ := reached
  have first : Filled (LocalTsdb.open db config).opened := by
    intro x b mem
    simp [LocalTsdb.open, Opened.of] at mem
  generalize LocalTsdb.open db config = st at first ⊢
  induction ops generalizing st with
  | nil => exact first
  | cons op ops ih => exact ih _ (filled_apply first op)

def buffers (st : LocalTsdb F) : List (OpenSeries F) := st.opened.toList.map Prod.snd

omit [Float64 F] [Deflate] in
theorem map_of_series : (st.opened.toList.map Prod.fst).map st.opened.of = st.buffers := by
  rw [buffers, map_map]
  refine map_congr_left fun e mem => ?_
  rw [Function.comp_apply, Opened.of, ExtTreeMap.mem_toList_iff_getElem?_eq_some.mp mem,
    Option.getD_some]

/-- `write_all`, when it returns an error. -/
theorem writeAll_error {scales : ExtTreeMap SeriesId Int64} {defaultScale : Option Int64}
    (failed : writeAll scales defaultScale s = (.error (.error e), s')) :
    (Due (3 + safeOps ((s.opened.toList.map Prod.fst).map s.opened.of)) s.plan ∧
      s'.opened = s.opened) ∨
      (¬ Due (3 + safeOps ((s.opened.toList.map Prod.fst).map s.opened.of)) s.plan ∧
        ∃ y, Lost (s.opened.of y) (s'.opened.of y)) := by
  have count : ∀ n : Nat, 3 + n = n + 1 + 1 + 1 := by
    intro n
    omega
  rw [count]
  rcases bind_error failed with struck | ⟨_, s₁, ticked₁, failed⟩
  · exact .inl ⟨due_of_redb_error struck, by rw [(redb_error struck).1]⟩
  rw [due_of_redb_ok ticked₁]
  obtain ⟨_, rfl⟩ := redb_ok ticked₁
  rcases bind_error failed with struck | ⟨_, s₂, ticked₂, failed⟩
  · exact .inl ⟨due_of_redb_error struck, by rw [(redb_error struck).1]⟩
  rw [due_of_redb_ok ticked₂]
  obtain ⟨_, rfl⟩ := redb_ok ticked₂
  rcases bind_error failed with struck | ⟨_, s₃, ticked₃, failed⟩
  · exact .inl ⟨due_of_redb_error struck, by rw [(redb_error struck).1]⟩
  rw [due_of_redb_ok ticked₃]
  obtain ⟨_, rfl⟩ := redb_ok ticked₃
  refine each_writeSeries_error (fun x mem => ?_) failed
  obtain ⟨entry, stored, rfl⟩ := mem_map.mp mem
  rw [ExtTreeMap.mem_iff_isSome_getElem?, ExtTreeMap.mem_toList_iff_getElem?_eq_some.mp stored]
  rfl

/-- When `write_all` returns an error: the buffers retain every sample exactly when
the operation that failed is one of the first five, or comes before the writing
has taken anything out of a buffer; and then the store is as it was before the
call, so the next commit does what this one would have done. -/
theorem failed_commit_retains_iff (st : LocalTsdb F) (reached : st.Reached) (plan : Plan)
    (s s' : Txn F) (e : TsdbError)
    (began : (do redb; redb : Step F Unit) (st.begin plan) = (.ok (), s))
    (failed : writeAll st.scales st.config.defaultScale s = (.error (.error e), s')) :
    ∃ st', st.commit plan = (.error (.error e), st') ∧
      (Retains st.opened st'.opened ↔
        ∃ k message, plan = some (k, message) ∧ k < 5 + safeOps st.buffers) ∧
      ((∃ k message, plan = some (k, message) ∧ k < 5 + safeOps st.buffers) → st' = st) := by
  obtain ⟨_, s₁, ticked₁, ticked₂⟩ := Action.bind_ok began
  have txn : st.commitTxn (st.begin plan) = (.error (.error e), s') := by
    rw [commitTxn, bind_of_ok ticked₁, bind_of_ok ticked₂, bind_of_error failed]
  have faded : ∀ x, Faded (st.opened.of x) (s'.opened.of x) := by
    intro x
    have all := fades_commitTxn st (st.begin plan) x
    rwa [txn] at all
  -- the two operations before `write_all` count as well
  have count : 5 + safeOps st.buffers = 3 + safeOps st.buffers + 1 + 1 := by omega
  have due : Due (5 + safeOps st.buffers) plan ↔ Due (3 + safeOps st.buffers) s.plan := by
    rw [count, ← due_of_redb_ok ticked₂, ← due_of_redb_ok ticked₁]
    rfl
  have opened : s.opened = st.opened := by
    obtain ⟨_, rfl⟩ := redb_ok ticked₁
    obtain ⟨_, rfl⟩ := redb_ok ticked₂
    rfl
  have ends := writeAll_error failed
  rw [opened, map_of_series, ← due] at ends
  refine ⟨{ st with opened := s'.opened }, by rw [commit, txn], ?_⟩
  rcases ends with ⟨early, same⟩ | ⟨late, x, lost⟩
  · have unchanged : { st with opened := s'.opened } = st := by rw [same]
    rw [unchanged]
    exact ⟨⟨fun _ => early, fun _ x => ⟨List.Subperm.refl _, List.Subperm.refl _⟩⟩, fun _ => rfl⟩
  · exact ⟨⟨fun retains => absurd retains (not_retains_of_lost reached.filled (faded x) lost),
      fun early => absurd early late⟩, fun early => absurd early late⟩

end Commits

/-- One sample buffered in a new store. -/
def oneBuffered : LocalTsdb Int64 :=
  (LocalTsdb.open (fun _ => ∅) spaciousConfig).append 7 ⟨100, 5⟩ true

theorem oneBuffered_reached : oneBuffered.Reached :=
  ⟨fun _ => ∅, spaciousConfig, [.append 7 ⟨100, 5⟩ true], rfl⟩

/-- The writing of the tail fails: the sample stays. -/
theorem failed_commit_retains_tail :
    ∃ st', oneBuffered.commit (some (5, "disk full")) = (.error (.error (.redb "disk full")), st') ∧
      Retains oneBuffered.opened st'.opened ∧ st' = oneBuffered := by
  have failing : (writeAll oneBuffered.scales oneBuffered.config.defaultScale
      { oneBuffered.begin (some (5, "disk full")) with plan := some (3, "disk full") }).1
      = .error (.error (.redb "disk full")) := by decide +kernel
  obtain ⟨st', committed, retains, unchanged⟩ := failed_commit_retains_iff oneBuffered
    oneBuffered_reached (some (5, "disk full")) _ _ (.redb "disk full") rfl (Prod.ext failing rfl)
  have early : ∃ k message, (some (5, "disk full") : Plan) = some (k, message) ∧
      k < 5 + safeOps oneBuffered.buffers := ⟨5, "disk full", rfl, by decide +kernel⟩
  exact ⟨st', committed, retains.mpr early, unchanged early⟩

/-- The reading of the stored rollup fails: the sample is no longer there to be
rolled up, and the next commit, which succeeds, stores it and counts it nowhere. -/
theorem failed_commit_loses_rollup :
    (oneBuffered.commit (some (6, "disk full"))).1 = .error (.error (.redb "disk full")) ∧
      (((oneBuffered.commit (some (6, "disk full"))).2.opened.of 7).unrolled = []) ∧
      (oneBuffered.opened.of 7).unrolled = [⟨100, 5⟩] ∧
      (((oneBuffered.commit (some (6, "disk full"))).2.commit none).1 = .ok ()) ∧
      (((oneBuffered.commit (some (6, "disk full"))).2.commit none).2.rangeRaw 7 0 200
        = .ok [(⟨100, 5⟩, true)]) ∧
      (((oneBuffered.commit (some (6, "disk full"))).2.commit none).2.rangeTier 7 .t1 0 200
        = .ok []) ∧
      (((oneBuffered.commit (some (6, "disk full"))).2.commit none).2.rangeTier 7 .t2 0 200
        = .ok []) := by
  decide +kernel

end LocalTsdb

end OpenGate.Tsdb
