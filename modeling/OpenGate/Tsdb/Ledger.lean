import OpenGate.Tsdb.Writes

/-!
# Runs and what they committed

A ledger is a store together with the samples appended to it: those a commit has
taken and those still waiting.  Operations that succeed move it; what one does to
the rows and the buffers of a series is said here once for each operation.
-/

namespace OpenGate.Tsdb

open OpenGate.Lib Std Option

variable {F : Type} [Float64 F] {st st' : LocalTsdb F} {plan : Plan}

structure Entry (F : Type) where
  series : SeriesId
  sample : Sample F
  anomaly : Bool
  deriving DecidableEq

structure Ledger (F : Type) where
  store : LocalTsdb F
  pending : List (Entry F)
  committed : List (Entry F)

namespace Ledger

def start (config : TsdbConfig F) : Ledger F := ⟨.open (fun _ => ∅) config, [], []⟩

/-- The entries after an operation that succeeds. -/
def book (l : Ledger F) (store : LocalTsdb F) : Op F → Ledger F
  | .append series sample anomaly =>
    ⟨store, l.pending ++ [⟨series, sample, anomaly⟩], l.committed⟩
  | .commit _ => ⟨store, [], l.committed ++ l.pending⟩
  | .reopen _ => ⟨store, [], l.committed⟩
  | .purge _ => ⟨store, [], []⟩
  | .setScale _ _ => ⟨store, l.pending, l.committed⟩
  | .setHostFreeBytes _ => ⟨store, l.pending, l.committed⟩
  | .compactColdTiers _ => ⟨store, l.pending, l.committed⟩

variable [Deflate] {ops : List (Op F)} {l l' : Ledger F}

def step (l : Ledger F) (op : Op F) : Option (Ledger F) :=
  match op.apply l.store with
  | (.ok (), store) => some (l.book store op)
  | (.error _, _) => none

def run (l : Ledger F) : List (Op F) → Option (Ledger F)
  | [] => some l
  | op :: ops => (l.step op).bind fun l' => l'.run ops

/-- A condition that every operation of a run meets where it is made. -/
def Along (P : Ledger F → Op F → Prop) (l : Ledger F) : List (Op F) → Prop
  | [] => True
  | op :: ops => P l op ∧ ∀ l', l.step op = some l' → l'.Along P ops

/-- What every operation that meets the condition keeps holds at the end of a run. -/
theorem run_inv {P : Ledger F → Op F → Prop} {I : Ledger F → Prop}
    (turn : ∀ l op l', I l → P l op → l.step op = some l' → I l') (first : I l)
    (meets : l.Along P ops) (ran : l.run ops = some l') : I l' := by
  induction ops generalizing l with
  | nil =>
    cases ran
    exact first
  | cons op ops ih =>
    obtain ⟨here, later⟩ := meets
    obtain ⟨l₁, stepped, rest⟩ := bind_eq_some_iff.mp ran
    exact ih (turn l op l₁ first here stepped) (later l₁ stepped) rest

theorem Along.and {P Q : Ledger F → Op F → Prop} (left : l.Along P ops) (right : l.Along Q ops) :
    l.Along (fun l op => P l op ∧ Q l op) ops := by
  induction ops generalizing l with
  | nil => trivial
  | cons op ops ih =>
    exact ⟨⟨left.1, right.1⟩, fun l' stepped => ih (left.2 l' stepped) (right.2 l' stepped)⟩

theorem step_ok {op : Op F} (stepped : l.step op = some l') :
    ∃ store, op.apply l.store = (.ok (), store) ∧ l' = l.book store op := by
  unfold step at stepped
  split at stepped
  next store applied => exact ⟨store, applied, (Option.some.inj stepped).symm⟩
  · cases stepped

/-- A commit that does not reach the cap: eviction has nothing to do. -/
def CapSlack (l : Ledger F) (op : Op F) : Prop :=
  ∀ plan s, op = .commit plan → l.store.commitTxn (l.store.begin plan) = (.ok (), s) →
    s.logical ≤ l.store.effectiveCap

def Kept (_ : Ledger F) (op : Op F) : Prop := ∀ plan, op ≠ .purge plan

/-! Conditions on a run can be evaluated. -/

instance decidableAlong {P : Ledger F → Op F → Prop} [∀ l op, Decidable (P l op)] :
    ∀ (ops : List (Op F)) (l : Ledger F), Decidable (l.Along P ops)
  | [], _ => isTrue trivial
  | op :: ops, l =>
    match stepped : l.step op with
    | none => decidable_of_iff (P l op) ⟨fun here => ⟨here, fun l' made => by
      rw [stepped] at made
      cases made⟩, And.left⟩
    | some l₁ =>
      have := decidableAlong (P := P) ops l₁
      decidable_of_iff (P l op ∧ l₁.Along P ops) ⟨fun both => ⟨both.1, fun l' made => by
        rw [stepped] at made
        cases made
        exact both.2⟩, fun both => ⟨both.1, both.2 l₁ stepped⟩⟩

instance (l : Ledger F) (op : Op F) : Decidable (l.CapSlack op) :=
  match op with
  | .commit plan =>
    match wrote : l.store.commitTxn (l.store.begin plan) with
    | (.ok (), s) =>
      decidable_of_iff (s.logical ≤ l.store.effectiveCap) ⟨fun under plan' s' same made => by
        cases same
        rw [wrote] at made
        cases made
        exact under, fun slack => slack plan s rfl wrote⟩
    | (.error _, _) => isTrue fun plan' s' same made => by
      cases same
      rw [wrote] at made
      cases made
  | .append _ _ _ => isTrue fun _ _ same => by cases same
  | .setScale _ _ => isTrue fun _ _ same => by cases same
  | .setHostFreeBytes _ => isTrue fun _ _ same => by cases same
  | .compactColdTiers _ => isTrue fun _ _ same => by cases same
  | .purge _ => isTrue fun _ _ same => by cases same
  | .reopen _ => isTrue fun _ _ same => by cases same

omit [Float64 F] [Deflate] in
instance (l : Ledger F) (op : Op F) : Decidable (l.Kept op) :=
  match op with
  | .purge plan => isFalse fun kept => kept plan rfl
  | .commit _ => isTrue fun _ same => by cases same
  | .append _ _ _ => isTrue fun _ same => by cases same
  | .setScale _ _ => isTrue fun _ same => by cases same
  | .setHostFreeBytes _ => isTrue fun _ same => by cases same
  | .compactColdTiers _ => isTrue fun _ same => by cases same
  | .reopen _ => isTrue fun _ same => by cases same

end Ledger

/-! ## Commits -/

namespace LocalTsdb

variable [Deflate]

/-- A commit under the cap is its write transaction. -/
theorem commit_slack (ran : st.commit plan = (.ok (), st'))
    (slack : ∀ s, st.commitTxn (st.begin plan) = (.ok (), s) → s.logical ≤ st.effectiveCap) :
    ∃ s, st.commitTxn (st.begin plan) = (.ok (), s) ∧ st' = st.written s := by
  unfold commit at ran
  split at ran
  · cases ran
  next s wrote =>
    refine ⟨s, wrote, ?_⟩
    have under : (st.written s).logicalBytes ≤ (st.written s).effectiveCap := slack s wrote
    rw [enforceCap, if_pos under] at ran
    cases ran
    rfl

theorem commitTxn_ok {s : Txn F} (ran : st.commitTxn (st.begin plan) = (.ok (), s)) :
    WrittenAll st.scales st.config.defaultScale st.opened st.opened.series st.db s.db ∧
      ∀ x, s.opened.of x = (st.opened.of x).cleared := by
  obtain ⟨_, s₁, ticked₁, ran⟩ := Action.bind_ok ran
  obtain ⟨_, s₂, ticked₂, ran⟩ := Action.bind_ok ran
  obtain ⟨_, s₃, wrote, ticked₃⟩ := Action.bind_ok ran
  obtain ⟨_, rfl⟩ := redb_ok ticked₁
  obtain ⟨_, rfl⟩ := redb_ok ticked₂
  obtain ⟨_, rfl⟩ := redb_ok ticked₃
  exact writeAll_ok wrote

/-- What a commit under the cap does to one series: its buffers are written to its
rows, and only an unfinished tail stays buffered. -/
theorem commit_series (ran : st.commit plan = (.ok (), st'))
    (slack : ∀ s, st.commitTxn (st.begin plan) = (.ok (), s) → s.logical ≤ st.effectiveCap)
    (x : SeriesId) :
    Written (st.scales[x]?.or st.config.defaultScale) x (st.opened.of x) (restrict st.db x)
        (restrict st'.db x) ∧
      (st'.opened.of x = (st.opened.of x).cleared ∨
        ((st.opened.of x).tail = [] ∧ st'.opened.of x = {})) := by
  obtain ⟨s, wrote, rfl⟩ := commit_slack ran slack
  obtain ⟨all, buffers⟩ := commitTxn_ok wrote
  refine ⟨all.onSeries (nodup_keys st.opened) Opened.of_not_mem, ?_⟩
  have kept : (st.written s).opened[x]? = s.opened[x]?.filter OpenSeries.pending :=
    filter_getElem? _
  rw [Opened.of, kept, ← buffers x]
  cases here : s.opened[x]? with
  | none =>
    left
    rw [Opened.of, here]
    rfl
  | some os =>
    have same : s.opened.of x = os := by rw [Opened.of, here, getD_some]
    by_cases pending : os.pending
    · left
      rw [filter_some, if_pos pending, same, getD_some]
    · right
      have cleared := buffers x
      rw [same] at cleared
      have tail : os.tail = (st.opened.of x).cleared.tail := congrArg OpenSeries.tail cleared
      rw [filter_some, if_neg pending]
      refine ⟨?_, rfl⟩
      have empty : os.tail = [] := by simp_all [OpenSeries.pending]
      exact tail.symm.trans empty

end LocalTsdb

/-! ## Compaction -/

section Compaction

variable [Deflate] {id : TableId} {s s' : Txn F} {u : Unit}

/-- Rows that are as they were, or compressed in place. -/
def Recoded (t t' : Table) : Prop :=
  ∀ key : Key, t'[key]? = t[key]? ∨
    ∃ body z, t[key]? = some (tierPlain :: body) ∧ Deflate.deflate body = some z ∧
      t'[key]? = some (tierDeflate :: z)

omit [Float64 F] in
/-- A plain block is left, or compressed in place. -/
theorem deflateOne_ok {key : Key} {val : Bytes} (plain : val.head? = some tierPlain)
    (ran : deflateOne id key val s = (.ok u, s')) :
    s'.opened = s.opened ∧ (s'.db = s.db ∨ ∃ body z, val = tierPlain :: body ∧
      Deflate.deflate body = some z ∧ s'.db = (s.put id key (tierDeflate :: z)).db) := by
  obtain ⟨body, rfl⟩ : ∃ body, val = tierPlain :: body := by
    cases val with
    | nil => cases plain
    | cons tag body => exact ⟨body, by rw [Option.some.inj plain]⟩
  obtain ⟨z, s₁, deflated, ran⟩ := Action.bind_ok ran
  rw [Action.lift_apply, Prod.mk.injEq] at deflated
  obtain ⟨deflated, rfl⟩ := deflated
  have compressed : Deflate.deflate body = some z := by
    rw [List.drop_one, List.tail_cons, deflate] at deflated
    cases out : Deflate.deflate body with
    | none =>
      rw [out] at deflated
      cases deflated
    | some z' =>
      rw [out] at deflated
      cases deflated
      rfl
  dsimp only at ran
  split at ran
  · obtain ⟨db, opened⟩ := upsertBlock_ok ran
    exact ⟨opened, .inr ⟨body, z, rfl, compressed, db⟩⟩
  · cases ran
    exact ⟨rfl, .inl rfl⟩

omit [Float64 F] in
/-- The loop works from the entries read before it, so each turn is measured against
them. -/
theorem each_deflate_ok {db : Db} {opened : Opened F} {newest : ExtTreeMap SeriesId Int64}
    {entries : List (Key × Bytes)} (known : ∀ e ∈ entries, (db id)[e.1]? = some e.2)
    (ran : Action.each (fun e =>
      if newest[e.1.series]? ≠ some e.1.ts ∧ e.2.head? = some tierPlain then deflateOne id e.1 e.2
      else pure ()) entries s = (.ok u, s'))
    (now : Recoded (db id) (s.db id) ∧ (∀ j, j ≠ id → s.db j = db j) ∧ s.opened = opened) :
    Recoded (db id) (s'.db id) ∧ (∀ j, j ≠ id → s'.db j = db j) ∧ s'.opened = opened := by
  induction entries generalizing s with
  | nil =>
    cases ran
    exact now
  | cons e entries ih =>
    obtain ⟨_, s₁, first, rest⟩ := Action.bind_ok ran
    refine ih (fun e mem => known e (.tail _ mem)) rest ?_
    obtain ⟨recoded, others, buffers⟩ := now
    dsimp only at first
    split at first
    next cold =>
      obtain ⟨opened₁, same | ⟨body, z, plain, compressed, put⟩⟩ := deflateOne_ok cold.2 first
      · rw [same, opened₁]
        exact ⟨recoded, others, buffers⟩
      · rw [put, Txn.put_db, Function.update_self, opened₁]
        refine ⟨fun key => ?_, fun j other => ?_, buffers⟩
        · rw [insert_self]
          split
          next same =>
            refine .inr ⟨body, z, ?_, compressed, rfl⟩
            rw [← same, known e List.mem_cons_self, plain]
          · exact recoded key
        · rw [Function.update_of_ne other, others j other]
    · cases first
      exact ⟨recoded, others, buffers⟩

omit [Float64 F] in
theorem deflateColdBlocks_ok (ran : deflateColdBlocks id s = (.ok u, s')) :
    Recoded (s.db id) (s'.db id) ∧ (∀ j, j ≠ id → s'.db j = s.db j) ∧ s'.opened = s.opened := by
  obtain ⟨_, s₁, ticked, ran⟩ := Action.bind_ok ran
  obtain ⟨_, rfl⟩ := redb_ok ticked
  refine each_deflate_ok (fun e mem => ?_) ran ⟨fun _ => .inl rfl, fun _ _ => rfl, rfl⟩
  exact ExtTreeMap.mem_toList_iff_getElem?_eq_some.mp mem

omit [Float64 F] in
theorem LocalTsdb.compactColdTiers_ok (ran : st.compactColdTiers plan = (.ok (), st')) :
    st'.db .t0 = st.db .t0 ∧ Recoded (st.db .t1) (st'.db .t1) ∧
      Recoded (st.db .t2) (st'.db .t2) ∧ st'.opened = st.opened := by
  unfold compactColdTiers at ran
  dsimp only at ran
  split at ran
  · cases ran
  next s compacted =>
    cases ran
    obtain ⟨_, s₁, ticked₁, compacted⟩ := Action.bind_ok compacted
    obtain ⟨_, s₂, ticked₂, compacted⟩ := Action.bind_ok compacted
    obtain ⟨_, s₃, ticked₃, compacted⟩ := Action.bind_ok compacted
    obtain ⟨_, s₄, minutes, compacted⟩ := Action.bind_ok compacted
    obtain ⟨_, s₅, ticked₅, compacted⟩ := Action.bind_ok compacted
    obtain ⟨_, s₆, hours, ticked₆⟩ := Action.bind_ok compacted
    obtain ⟨_, rfl⟩ := redb_ok ticked₁
    obtain ⟨_, rfl⟩ := redb_ok ticked₂
    obtain ⟨_, rfl⟩ := redb_ok ticked₃
    obtain ⟨_, rfl⟩ := redb_ok ticked₅
    obtain ⟨_, rfl⟩ := redb_ok ticked₆
    obtain ⟨recoded₁, others₁, -⟩ := deflateColdBlocks_ok minutes
    obtain ⟨recoded₂, others₂, -⟩ := deflateColdBlocks_ok hours
    dsimp only at recoded₁ recoded₂ others₁ others₂ ⊢
    refine ⟨?_, ?_, ?_, rfl⟩
    · rw [others₂ .t0 (by decide), others₁ .t0 (by decide)]
      rfl
    · rw [others₂ .t1 (by decide)]
      exact recoded₁
    · rw [others₁ .t2 (by decide)] at recoded₂
      exact recoded₂

end Compaction

end OpenGate.Tsdb
