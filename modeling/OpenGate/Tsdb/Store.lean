import OpenGate.Tsdb.Blocks

/-!
# The local store

`store/mod.rs` and `config.rs`: `LocalTsdb` with its operations.  A run of the
store is a sequence of operations (`Op`); each gives its result and the state
after it, which for a failed operation is what the source leaves behind.

Durability, the cursor table and the format stamp are not modelled: a committed
transaction is in the database.
-/

namespace OpenGate.Tsdb

open OpenGate.Lib Std

variable {F : Type} [Float64 F]

/-- Footprint and precision policy. -/
structure TsdbConfig (F : Type) where
  capBytes : UInt64
  hostFreeFraction : F
  defaultScale : Option Int64

def TsdbConfig.effectiveCap (config : TsdbConfig F) (hostFree : Option UInt64) : UInt64 :=
  match hostFree with
  | none => config.capBytes
  | some free =>
    if Float64.lt Float64.zero config.hostFreeFraction then
      let borrow := Float64.toU64 (Float64.mul (Float64.ofU64 free) config.hostFreeFraction)
      min config.capBytes borrow
    else config.capBytes

def OpenSeries.append (os : OpenSeries F) (sample : Sample F) (anomaly : Bool) : OpenSeries F :=
  let tailFirstTs := if os.tail = [] then sample.ts else os.tailFirstTs
  let tail := os.tail ++ [(sample, anomaly)]
  let unrolled := os.unrolled ++ [sample]
  if tail.length ≥ t0BlockSamples then
    { tailFirstTs, tail := [], sealed := os.sealed ++ [(tailFirstTs, tail)], unrolled }
  else { tailFirstTs, tail, sealed := os.sealed, unrolled }

def OpenSeries.pending (os : OpenSeries F) : Bool :=
  !os.tail.isEmpty || !os.sealed.isEmpty || !os.unrolled.isEmpty

structure LocalTsdb (F : Type) where
  db : Db
  config : TsdbConfig F
  hostFree : Option UInt64
  scales : ExtTreeMap SeriesId Int64
  opened : Opened F
  logicalBytes : Nat

namespace LocalTsdb

def «open» (db : Db) (config : TsdbConfig F) : LocalTsdb F where
  db := db
  config := config
  hostFree := none
  scales := ∅
  opened := ∅
  logicalBytes := scanLogical db

def setScale (st : LocalTsdb F) (series : SeriesId) (scale : Int64) : LocalTsdb F :=
  { st with scales := st.scales.insert series scale }

def setHostFreeBytes (st : LocalTsdb F) (free : Option UInt64) : LocalTsdb F :=
  { st with hostFree := free }

def effectiveCap (st : LocalTsdb F) : Nat := (st.config.effectiveCap st.hostFree).toNat

def append (st : LocalTsdb F) (series : SeriesId) (sample : Sample F) (anomaly : Bool) :
    LocalTsdb F :=
  { st with
    opened := st.opened.insert series ((st.opened.of series).append sample anomaly) }

def begin (st : LocalTsdb F) (plan : Plan) : Txn F where
  db := st.db
  opened := st.opened
  logical := st.logicalBytes
  plan := plan

def collectEvictable (st : LocalTsdb F) : List Cand :=
  (st.db .t2).toList.map (fun e => ⟨e.1.ts, 0, e.1.series⟩) ++
    ((st.db .t1).toList.map (fun e => ⟨e.1.ts, 1, e.1.series⟩) ++
      (st.db .t0).toList.map fun e => ⟨e.1.ts, 2, e.1.series⟩)

/-- `(ts, series)` pairs in lexicographic order. -/
def newer (a b : Int64 × SeriesId) : Bool :=
  decide (a.1 < b.1) || (decide (a.1 = b.1) && decide (a.2 ≤ b.2))

/-- The newest raw block: the largest `(ts, series)`. -/
def newestT0 (cands : List Cand) : Option (Int64 × SeriesId) :=
  ((cands.filter fun c => c.rank = 2).map fun c => (c.ts, c.series)).foldl
    (fun best c => some (best.elim c fun b => if newer b c then c else b)) none

/-- Oldest first; the coarsest tier breaks a timestamp tie. -/
def evictionOrder (a b : Cand) : Prop := a.ts < b.ts ∨ (a.ts = b.ts ∧ a.rank ≤ b.rank)

instance : DecidableRel evictionOrder := fun a b =>
  inferInstanceAs (Decidable (a.ts < b.ts ∨ (a.ts = b.ts ∧ a.rank ≤ b.rank)))

/-- Evict oldest-first until the store is under its effective cap.  The counter is
set before the transaction commits. -/
def enforceCap (st : LocalTsdb F) (plan : Plan) : Result Unit × LocalTsdb F :=
  let cap := st.effectiveCap
  if st.logicalBytes ≤ cap then (.ok (), st)
  else
    let cands := st.collectEvictable
    let newest := newestT0 cands
    let evict : Step F Unit := do
      redb
      redb
      evictBlocks (cands.insertionSort evictionOrder) cap newest
    match evict (st.begin plan) with
    | (.error e, _) => (.error e, st)
    | (.ok (), s) =>
      match redb s with
      | (.error e, _) => (.error e, { st with logicalBytes := s.logical })
      | (.ok (), _) => (.ok (), { st with db := s.db, logicalBytes := s.logical })

/-- The first transaction of `commit`: begin, write all, commit. -/
def commitTxn [Deflate] (st : LocalTsdb F) : Step F Unit := do
  redb
  redb
  writeAll st.scales st.config.defaultScale
  redb

def written (st : LocalTsdb F) (s : Txn F) : LocalTsdb F :=
  { st with
    db := s.db
    logicalBytes := s.logical
    opened := s.opened.filter fun _ os => os.pending }

/-- Persist the buffers and their rollups in one atomic transaction, then enforce
the disk cap.  A transaction that fails leaves the tables alone; the buffers stay
as it left them. -/
def commit [Deflate] (st : LocalTsdb F) (plan : Plan) : Result Unit × LocalTsdb F :=
  match commitTxn st (st.begin plan) with
  | (.error e, s) => (.error e, { st with opened := s.opened })
  | (.ok (), s) => (st.written s).enforceCap s.plan

/-- Compresses every sealed T1 and T2 block, leaving T0 alone. -/
def compactColdTiers [Deflate] (st : LocalTsdb F) (plan : Plan) : Result Unit × LocalTsdb F :=
  let compact : Step F Unit := do
    redb
    redb
    redb
    deflateColdBlocks .t1
    redb
    deflateColdBlocks .t2
    redb
  match compact (st.begin plan) with
  | (.error e, _) => (.error e, st)
  | (.ok (), s) => (.ok (), { st with db := s.db, logicalBytes := s.logical })

/-- Purges every tier and buffer on deprovision. -/
def purge (st : LocalTsdb F) (plan : Plan) : Result Unit × LocalTsdb F :=
  -- begin, durability, four tables deleted, commit
  match Action.each (fun _ => redb) (List.range 7) (st.begin plan) with
  | (.error e, _) => (.error e, st)
  | (.ok (), _) => (.ok (), { st with db := fun _ => ∅, opened := ∅, logicalBytes := 0 })

def rangeRaw (st : LocalTsdb F) (series : SeriesId) (start stop : Int64) :
    Result (List (Sample F × Bool)) :=
  readRaw st.db series start stop

def rangeTier [Deflate] (st : LocalTsdb F) (series : SeriesId) (tier : Tier)
    (start stop : Int64) : Result (List (TierPoint F)) :=
  readTier st.db tier series start stop

end LocalTsdb

inductive Op (F : Type) where
  | append (series : SeriesId) (sample : Sample F) (anomaly : Bool)
  | setScale (series : SeriesId) (scale : Int64)
  | setHostFreeBytes (free : Option UInt64)
  | commit (plan : Plan)
  | compactColdTiers (plan : Plan)
  | purge (plan : Plan)
  | reopen (config : TsdbConfig F)

def Op.apply [Deflate] (st : LocalTsdb F) : Op F → Result Unit × LocalTsdb F
  | .append series sample anomaly => (.ok (), st.append series sample anomaly)
  | .setScale series scale => (.ok (), st.setScale series scale)
  | .setHostFreeBytes free => (.ok (), st.setHostFreeBytes free)
  | .commit plan => st.commit plan
  | .compactColdTiers plan => st.compactColdTiers plan
  | .purge plan => st.purge plan
  | .reopen config => (.ok (), .open st.db config)

def runOps [Deflate] (st : LocalTsdb F) : List (Op F) → Option (LocalTsdb F)
  | [] => some st
  | op :: ops =>
    match op.apply st with
    | (.ok (), st') => runOps st' ops
    | (.error _, _) => none

/-- What the operations of a run keep holds at its end. -/
theorem runOps_inv [Deflate] {I : LocalTsdb F → Prop}
    (turn : ∀ st (op : Op F) st', I st → op.apply st = (.ok (), st') → I st') {ops : List (Op F)}
    {st st' : LocalTsdb F} (start : I st) (ran : runOps st ops = some st') : I st' := by
  induction ops generalizing st with
  | nil =>
    cases ran
    exact start
  | cons op ops ih =>
    rw [runOps] at ran
    split at ran
    next st₁ applied => exact ih (turn st op st₁ start applied) ran
    · cases ran

end OpenGate.Tsdb
