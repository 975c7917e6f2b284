import OpenGate.Lib.Action
import OpenGate.Lib.Int64
import OpenGate.Tsdb.Compact
import OpenGate.Tsdb.TierBlock

/-!
# Blocks in a transaction

`store/blocks.rs`: the functions that write and read blocks against open tables.
`redb` is an ordered map with atomic transactions, so a table is an ordered map
and a write transaction is a state (`Txn`) that the caller keeps or throws away.
The buffers of the store are changed while the transaction is built, so they are
part of that state.

Any table operation may fail; which one does, if any, is the `Plan`.
-/

namespace OpenGate.Tsdb

open OpenGate.Lib Std

variable {F : Type}

structure Key where
  series : SeriesId
  ts : Int64
  deriving DecidableEq, Repr

namespace Key

instance : Ord Key := ⟨compareLex (compareOn Key.series) (compareOn Key.ts)⟩

instance : TransOrd Key :=
  inferInstanceAs (TransCmp (compareLex (compareOn Key.series) (compareOn Key.ts)))

theorem compare_eq (a b : Key) :
    compare a b = (compare a.series b.series).then (compare a.ts b.ts) := rfl

instance : LawfulEqOrd Key where
  eq_of_compare {a b} same := by
    rw [compare_eq, Ordering.then_eq_eq] at same
    obtain ⟨series, ts⟩ := same
    cases a
    cases b
    congr
    · exact LawfulEqCmp.eq_of_compare series
    · exact LawfulEqCmp.eq_of_compare ts

end Key

abbrev Table := ExtTreeMap Key Bytes

inductive TableId where
  | t0
  | t1
  | t2
  deriving DecidableEq, Repr

abbrev Db := TableId → Table

/-- In-memory, not-yet-durable state for one series. -/
structure OpenSeries (F : Type) where
  tailFirstTs : Int64 := 0
  tail : List (Sample F × Bool) := []
  sealed : List (Int64 × List (Sample F × Bool)) := []
  unrolled : List (Sample F) := []

/-- The buffers by series (the source's field `open`). -/
abbrev Opened (F : Type) := ExtTreeMap SeriesId (OpenSeries F)

/-- How many table operations succeed before one fails, and what it says. -/
abbrev Plan := Option (Nat × String)

structure Txn (F : Type) where
  db : Db
  opened : Opened F
  logical : Nat
  plan : Plan

abbrev Step (F : Type) (α : Type) := Action (Txn F) Stop α

/-- One operation of `redb`. -/
def redb : Step F Unit := fun s =>
  match s.plan with
  | none => (.ok (), s)
  | some (0, message) => (.error (.error (.redb message)), s)
  | some (n + 1, message) => (.ok (), { s with plan := some (n, message) })

def stepSecs : Int64 := 1

def t0BlockSamples : Nat := 3000

def t1BlockSpan : Int64 := 720

def t2BlockSpan : Int64 := 168

/-- Fold an upsert's old and new value lengths into the running counter. -/
def replaceLen (logical : Nat) (old : Option Nat) (new : Nat) : Result Nat := do
  let rest ← subUnsigned logical (old.getD 0)
  .ok (rest + new)

def Txn.put (s : Txn F) (id : TableId) (key : Key) (bytes : Bytes) : Txn F :=
  { s with db := Function.update s.db id ((s.db id).insert key bytes) }

def Txn.remove (s : Txn F) (id : TableId) (key : Key) : Txn F :=
  { s with db := Function.update s.db id ((s.db id).erase key) }

section

variable (s : Txn F) (id : TableId) (key : Key)

variable (bytes : Bytes)

@[simp] theorem Txn.put_db :
    (s.put id key bytes).db = Function.update s.db id ((s.db id).insert key bytes) := rfl

@[simp] theorem Txn.put_logical : (s.put id key bytes).logical = s.logical := rfl

@[simp] theorem Txn.remove_db :
    (s.remove id key).db = Function.update s.db id ((s.db id).erase key) := rfl

end

/-- Insert `bytes` at `key`, folding the replaced value's length into `logical`. -/
def upsertBlock (id : TableId) (key : Key) (bytes : Bytes) : Step F Unit := do
  redb
  let old ← Action.gets fun s => (s.db id)[key]?
  Action.modify fun s => s.put id key bytes
  let before ← Action.gets Txn.logical
  let logical ← Action.lift (replaceLen before (old.map List.length) bytes.length)
  Action.modify fun s => { s with logical := logical }

variable [Float64 F]

def encodeT0Block (block : List (Sample F × Bool)) (scale : Option Int64) : Bytes :=
  encodeCompactScaled (block.map Prod.fst) (block.map Prod.snd) stepSecs scale

/-! ## Writing the buffers -/

def Opened.of (opened : Opened F) (series : SeriesId) : OpenSeries F := opened[series]?.getD {}

/-- Write a series' sealed and tail T0 blocks.  `drain` empties the sealed blocks
whether or not the loop over them ends early. -/
def writeT0Blocks (series : SeriesId) (scale : Option Int64) : Step F Unit := do
  let os ← Action.gets fun s => s.opened.of series
  Action.modify fun s =>
    { s with opened := s.opened.insert series { s.opened.of series with sealed := [] } }
  Action.each (fun b => upsertBlock .t0 ⟨series, b.1⟩ (encodeT0Block b.2 scale)) os.sealed
  if os.tail = [] then pure ()
  else upsertBlock .t0 ⟨series, os.tailFirstTs⟩ (encodeT0Block os.tail scale)

def saturatingMul (a b : Int64) : Int64 :=
  let product := a.toInt * b.toInt
  if product < Int64.minValue.toInt then Int64.minValue
  else if product > Int64.maxValue.toInt then Int64.maxValue
  else Int64.ofInt product

/-- A saturating product, as an integer. -/
theorem toInt_saturatingMul (a b : Int64) :
    (saturatingMul a b).toInt
      = max (-2 ^ 63) (min (2 ^ 63 - 1) (a.toInt * b.toInt)) :=
  Lib.toInt_saturate _

def blockKey (bucket interval span : Int64) : Int64 :=
  let block := interval * span
  saturatingMul (divEuclid bucket block) block

def groupPartials (new : List (Sample F)) (interval span : Int64) :
    ExtTreeMap Int64 (List (StoredTierPoint F)) :=
  (storedRollup new interval).foldl
    (fun byBlock p =>
      let key := blockKey p.bucket interval span
      byBlock.insert key ((byBlock[key]?.getD []) ++ [p]))
    ∅

def mergeTierWrites [Deflate] (id : TableId) (series : SeriesId) (new : List (Sample F))
    (interval span : Int64) : Step F Unit :=
  Action.each
    (fun g => do
      redb
      let existing ← Action.gets fun s => (s.db id)[(⟨series, g.1⟩ : Key)]?
      let bytes ← Action.lift (mergedTierBytes existing g.2)
      upsertBlock id ⟨series, g.1⟩ bytes)
    (groupPartials new interval span).toList

def writeSeries [Deflate] (scales : ExtTreeMap SeriesId Int64) (defaultScale : Option Int64)
    (series : SeriesId) : Step F Unit := do
  writeT0Blocks series (scales[series]?.or defaultScale)
  let new ← Action.gets fun s => (s.opened.of series).unrolled
  Action.modify fun s =>
    { s with opened := s.opened.insert series { s.opened.of series with unrolled := [] } }
  if new = [] then pure ()
  else do
    mergeTierWrites .t1 series new t1Minute t1BlockSpan
    mergeTierWrites .t2 series new t2Hour t2BlockSpan

/-- Seal each series' T0 blocks and merge its rollups into T1 and T2. -/
def writeAll [Deflate] (scales : ExtTreeMap SeriesId Int64) (defaultScale : Option Int64) :
    Step F Unit := do
  redb
  redb
  redb
  let series ← Action.gets fun s => s.opened.toList.map Prod.fst
  Action.each (writeSeries scales defaultScale) series

/-! ## Eviction -/

/-- One block considered for eviction; `rank` orders coarsest first. -/
structure Cand where
  ts : Int64
  rank : Nat
  series : SeriesId
  deriving DecidableEq, Repr

/-- The table a candidate's rank stands for. -/
def Cand.table (c : Cand) : TableId :=
  match c.rank with
  | 0 => .t2
  | 1 => .t1
  | _ => .t0

def Cand.key (c : Cand) : Key := ⟨c.series, c.ts⟩

def removeRanked (c : Cand) : Step F Nat := do
  redb
  let removed ← Action.gets fun s => (s.db c.table)[c.key]?
  Action.modify fun s => s.remove c.table c.key
  pure ((removed.map List.length).getD 0)

/-- One turn of the eviction loop.  The source leaves the loop at the first turn
under the cap; every later turn is under it too. -/
def evictTurn (cap : Nat) (newestT0 : Option (Int64 × SeriesId)) (c : Cand) : Step F Unit := do
  let logical ← Action.gets Txn.logical
  if logical ≤ cap ∨ (c.rank = 2 ∧ newestT0 = some (c.ts, c.series)) then pure ()
  else do
    let freed ← removeRanked c
    let logical ← Action.lift (subUnsigned logical freed)
    Action.modify fun s => { s with logical := logical }

/-- Evict candidates until under `cap`, skipping the newest raw block. -/
def evictBlocks (cands : List Cand) (cap : Nat) (newestT0 : Option (Int64 × SeriesId)) :
    Step F Unit := do
  redb
  redb
  redb
  Action.each (evictTurn cap newestT0) cands

/-! ## Cold blocks -/

/-- DEFLATE one plain tier block in place, if the compressed form is smaller. -/
def deflateOne [Deflate] (id : TableId) (key : Key) (val : Bytes) : Step F Unit := do
  let body ← Action.lift (deflate (val.drop 1))
  let newv := tierDeflate :: body
  if newv.length < val.length then upsertBlock id key newv else pure ()

def maxKeys (entries : List (Key × Bytes)) : ExtTreeMap SeriesId Int64 :=
  entries.foldl
    (fun m e => m.insert e.1.series ((m[e.1.series]?).elim e.1.ts fun k => max k e.1.ts)) ∅

/-- DEFLATE every sealed, still plain block of one tier table in place. -/
def deflateColdBlocks [Deflate] (id : TableId) : Step F Unit := do
  redb
  let entries ← Action.gets fun s => (s.db id).toList
  let newest := maxKeys entries
  Action.each
    (fun e =>
      if newest[e.1.series]? ≠ some e.1.ts ∧ e.2.head? = some tierPlain then deflateOne id e.1 e.2
      else pure ())
    entries

/-! ## Reading -/

/-- The stored blocks of one series with keys in `firstKey..=lastKey`, in key order. -/
def seriesBlocks (table : Table) (series : SeriesId) (firstKey lastKey : Int64) : List Bytes :=
  (table.toList.filter fun e =>
    e.1.series = series ∧ firstKey ≤ e.1.ts ∧ e.1.ts ≤ lastKey).map Prod.snd

def rawSamples (start stop : Int64) : List Bytes → Result (List (Sample F × Bool))
  | [] => .ok []
  | block :: blocks => do
      let (samples, bits) ← decodeCompact block
      let rest ← rawSamples start stop blocks
      .ok ((samples.zip bits).filter (fun e => start ≤ e.1.ts ∧ e.1.ts < stop) ++ rest)

/-- Raw samples in `start..stop`, sorted by timestamp; the sort is stable. -/
def readRaw (db : Db) (series : SeriesId) (start stop : Int64) :
    Result (List (Sample F × Bool)) := do
  let out ← rawSamples start stop
    (seriesBlocks (db .t0) series Int64.minValue Int64.maxValue)
  .ok (out.insertionSort fun a b => a.1.ts ≤ b.1.ts)

inductive Tier where
  | t1
  | t2
  deriving DecidableEq, Repr

def Tier.table : Tier → TableId
  | .t1 => .t1
  | .t2 => .t2

def tierGeometry : Tier → Int64 × Int64
  | .t1 => (t1Minute, t1BlockSpan)
  | .t2 => (t2Hour, t2BlockSpan)

def tierPoints [Deflate] (start stop : Int64) : List Bytes → Result (List (TierPoint F))
  | [] => .ok []
  | block :: blocks => do
      let points ← decodeTierValue block
      let rest ← tierPoints start stop blocks
      .ok (((points.filter fun p => start ≤ p.bucket ∧ p.bucket < stop).map
        StoredTierPoint.toPublic) ++ rest)

def readTier [Deflate] (db : Db) (tier : Tier) (series : SeriesId) (start stop : Int64) :
    Result (List (TierPoint F)) := do
  let (interval, span) := tierGeometry tier
  let out ← tierPoints start stop
    (seriesBlocks (db tier.table) series (blockKey start interval span)
      (blockKey stop interval span))
  .ok (out.insertionSort fun a b => a.bucket ≤ b.bucket)

def scanLogical (db : Db) : Nat :=
  total (db .t0) (fun _ b => b.length) + total (db .t1) (fun _ b => b.length)
    + total (db .t2) (fun _ b => b.length)

end OpenGate.Tsdb
