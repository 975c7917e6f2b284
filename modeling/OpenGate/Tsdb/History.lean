import OpenGate.Tsdb.Ledger
import OpenGate.Tsdb.Whole

/-!
# Raw history

What `range_raw` gives back of what was committed.  A block in the buffers and the
row under its key belong together: the row holds the first samples of the block,
those an earlier commit wrote.  A block is stored under its first timestamp, so
this holds only as long as no block starts at a timestamp that another block of
the series already has.
-/

namespace OpenGate.Tsdb

open OpenGate.Lib Std LocalTsdb List
open Int64 (maxValue minValue)

variable {F : Type} [Float64 F]

abbrev Mark := Int64 × Bool

omit [Float64 F] in
def marks (block : List (Sample F × Bool)) : List Mark := block.map fun e => (e.1.ts, e.2)

variable (F) in
def decodedMarks (bytes : Bytes) : List Mark :=
  match decodeCompact (F := F) bytes with
  | .ok (samples, bits) => marks (samples.zip bits)
  | .error _ => []

variable (F) in
/-- The marks of the row under a key, none where there is no row. -/
def storedMarks (t : Table) (key : Key) : List Mark := t[key]?.elim [] (decodedMarks F)

/-! ## Encoded blocks -/

theorem padded_self (bits : List Bool) : padded bits bits.length = bits := by
  refine ext_getElem (by simp) fun i h₁ h₂ => ?_
  simp [padded, h₂]

omit [Float64 F] in
/-- Marks do not see the values. -/
theorem marks_zip {f : Sample F → Sample F} (keeps : ∀ s, (f s).ts = s.ts)
    {block : List (Sample F × Bool)} :
    marks (((block.map Prod.fst).map f).zip (block.map Prod.snd)) = marks block := by
  induction block with
  | nil => rfl
  | cons e block ih =>
    rw [marks] at ih
    simp only [marks, map_cons, zip_cons_cons, keeps, ih]

/-- A block that is short enough decodes to its own marks. -/
theorem decode_encodeT0Block {block : List (Sample F × Bool)} (short : block.length ≤ 3000)
    (scale : Option Int64) :
    (∃ d, decodeCompact (F := F) (encodeT0Block block scale) = .ok d) ∧
      decodedMarks F (encodeT0Block block scale) = marks block := by
  have length : (block.map Prod.fst).length = block.length := length_map _
  have bytes := length_encodeCompactScaled (block.map Prod.fst) (block.map Prod.snd) stepSecs scale
  have decoded := decodeCompact_encodeCompactScaled (block.map Prod.fst) (block.map Prod.snd)
    stepSecs scale (by omega) (by rw [usizeMax]; omega)
  have bits : padded (block.map Prod.snd) (block.map Prod.fst).length = block.map Prod.snd := by
    rw [length, ← length_map (f := Prod.snd), padded_self]
  rw [bits] at decoded
  refine ⟨⟨_, decoded⟩, ?_⟩
  rw [decodedMarks, encodeT0Block, decoded, keptSamples]
  exact marks_zip (f := fun s => ⟨s.ts, kept (blockCodec (block.map Prod.fst) scale) scale s.value⟩)
    (fun _ => rfl)

/-! ## Blocks and their rows -/

/-- The row of a block holds the first marks of the block. -/
structure Backed (t : Table) (x : SeriesId) (blocks : List (Int64 × List (Sample F × Bool))) :
    Prop where
  distinct : (blocks.map Prod.fst).Nodup
  short : ∀ b ∈ blocks, b.2.length ≤ 3000
  begun : ∀ b ∈ blocks, storedMarks F t ⟨x, b.1⟩ <+: marks b.2

variable (F) in
def tableMarks (t : Table) : Multiset Mark :=
  total t fun _ bytes => (decodedMarks F bytes : Multiset Mark)

variable (F) in
def Readable (t : Table) : Prop :=
  ∀ (key : Key) (bytes : Bytes), t[key]? = some bytes → ∃ d, decodeCompact (F := F) bytes = .ok d

/-- The marks of the blocks that are not in their rows yet. -/
def unstored (t : Table) (x : SeriesId) (blocks : List (Int64 × List (Sample F × Bool))) :
    List Mark :=
  blocks.flatMap fun b => (marks b.2).drop (storedMarks F t ⟨x, b.1⟩).length

theorem counted_eq_storedMarks {t : Table} {key : Key} :
    counted t (fun _ bytes => (decodedMarks F bytes : Multiset Mark)) key
      = (storedMarks F t key : Multiset Mark) := by
  rw [counted, storedMarks]
  cases t[key]? <;> rfl

variable {t : Table} {bytes : Bytes}

/-- A row written over its first part adds the rest. -/
theorem tableMarks_insert {key : Key} (begun : storedMarks F t key <+: decodedMarks F bytes) :
    tableMarks F (t.insert key bytes)
      = tableMarks F t
      + ((decodedMarks F bytes).drop (storedMarks F t key).length : Multiset Mark) := by
  obtain ⟨rest, whole⟩ := begun
  have dropped : (decodedMarks F bytes).drop (storedMarks F t key).length = rest := by
    rw [← whole, drop_left' rfl]
  rw [tableMarks, tableMarks, total_insert, total_eq_erase key (t := t), counted_eq_storedMarks,
    dropped, ← whole, ← Multiset.coe_add]
  abel

theorem storedMarks_insert (key other : Key) :
    storedMarks F (t.insert key bytes) other
      = if key = other then decodedMarks F bytes else storedMarks F t other := by
  rw [storedMarks, insert_self]
  split <;> rfl

variable {x : SeriesId}

/-- Writing the blocks stores what was not stored, and each row is then its block. -/
theorem Backed.put {blocks : List (Int64 × List (Sample F × Bool))} (backed : Backed t x blocks)
    (readable : Readable F t) (scale : Option Int64) :
    tableMarks F (putRows t (blocks.map fun b => (⟨x, b.1⟩, encodeT0Block b.2 scale)))
        = tableMarks F t + (unstored t x blocks : Multiset Mark) ∧
      Readable F (putRows t (blocks.map fun b => (⟨x, b.1⟩, encodeT0Block b.2 scale))) ∧
      ∀ k, storedMarks F (putRows t (blocks.map fun b => (⟨x, b.1⟩, encodeT0Block b.2 scale)))
        ⟨x, k⟩ = ((blocks.find? fun b => b.1 = k).map fun b => marks b.2).getD
        (storedMarks F t ⟨x, k⟩) := by
  induction blocks generalizing t with
  | nil => exact ⟨(add_zero _).symm, readable, fun k => rfl⟩
  | cons b blocks ih =>
    obtain ⟨distinct, short, begun⟩ := backed
    rw [map_cons, nodup_cons] at distinct
    obtain ⟨⟨d, decodes⟩, own⟩ := decode_encodeT0Block (short b mem_cons_self) scale
    have inserted := tableMarks_insert
      (by rw [own]; exact begun b mem_cons_self)
    have apart : ∀ c ∈ blocks, (⟨x, b.1⟩ : Key) ≠ ⟨x, c.1⟩ := by
      intro c mem same
      exact distinct.1 (mem_map.mpr ⟨c, mem, (congrArg Key.ts same).symm⟩)
    have kept : ∀ c ∈ blocks, storedMarks F (t.insert ⟨x, b.1⟩ (encodeT0Block b.2 scale)) ⟨x, c.1⟩
        = storedMarks F t ⟨x, c.1⟩ := by
      intro c mem
      rw [storedMarks_insert, if_neg (apart c mem)]
    have next : Backed (t.insert ⟨x, b.1⟩ (encodeT0Block b.2 scale)) x blocks := by
      refine ⟨distinct.2, fun c mem => short c (.tail _ mem), fun c mem => ?_⟩
      rw [kept c mem]
      exact begun c (.tail _ mem)
    have readable₁ : Readable F (t.insert ⟨x, b.1⟩ (encodeT0Block b.2 scale)) := by
      intro key bytes here
      rw [insert_self] at here
      split at here
      · cases here
        exact ⟨d, decodes⟩
      · exact readable key bytes here
    have same : unstored (t.insert ⟨x, b.1⟩ (encodeT0Block b.2 scale)) x blocks
        = unstored t x blocks :=
      flatMap_congr fun c mem => by rw [kept c mem]
    obtain ⟨sum, readable₂, rows⟩ := ih next readable₁
    rw [map_cons, putRows, foldl_cons, ← putRows]
    refine ⟨?_, readable₂, fun k => ?_⟩
    · have cons : unstored t x (b :: blocks)
          = (marks b.2).drop (storedMarks F t ⟨x, b.1⟩).length ++ unstored t x blocks :=
        flatMap_cons
      rw [sum, inserted, same, own, cons, ← Multiset.coe_add, add_assoc]
    · rw [rows, storedMarks_insert, own, List.find?_cons]
      by_cases here : b.1 = k
      · have gone : blocks.find? (fun c => c.1 = k) = none := by
          rw [List.find?_eq_none]
          intro c mem hit
          have hit' : c.1 = k := by simpa using hit
          exact distinct.1 (mem_map.mpr ⟨c, mem, hit'.trans here.symm⟩)
        simp [gone, here]
      · simp [here]

/-! ## The invariant of one series -/

def marksOf (x : SeriesId) (entries : List (Entry F)) : List Mark :=
  (entries.filter fun e => e.series = x).map fun e => (e.sample.ts, e.anomaly)

/-- A series' rows and buffers hold its committed and pending samples. -/
structure Held (x : SeriesId) (t : Table) (os : OpenSeries F) (committed pending : List Mark) :
    Prop where
  readable : Readable F t
  backed : Backed t x os.blocks
  room : os.tail.length < t0BlockSamples
  stored : tableMarks F t = (committed : Multiset Mark)
  waiting : (unstored t x os.blocks).Perm pending

omit [Float64 F] in
/-- A sample goes to the end of the last block, whether or not that fills it. -/
theorem OpenSeries.blocks_append {os : OpenSeries F} (sample : Sample F) (anomaly : Bool) :
    (os.append sample anomaly).blocks = os.sealed ++
      [(if os.tail = [] then sample.ts else os.tailFirstTs, os.tail ++ [(sample, anomaly)])] := by
  unfold append
  dsimp only
  split
  · rw [blocks, if_pos rfl, append_nil]
  · rw [blocks, if_neg (append_ne_nil_of_right_ne_nil _ (cons_ne_nil _ _))]

/-- A new block starts at a timestamp under which the series has no block. -/
def StartsFresh (t : Table) (x : SeriesId) (os : OpenSeries F) (ts : Int64) : Prop :=
  os.tail = [] → t[(⟨x, ts⟩ : Key)]? = none ∧ ∀ b ∈ os.sealed, b.1 ≠ ts

variable {committed pending : List Mark}

variable {os : OpenSeries F}

section

variable (held : Held x t os committed pending)
include held

theorem Held.append (sample : Sample F) (anomaly : Bool) (fresh : StartsFresh t x os sample.ts) :
    Held x t (os.append sample anomaly) committed (pending ++ [(sample.ts, anomaly)]) := by
  obtain ⟨readable, ⟨distinct, short, begun⟩, room, stored, waiting⟩ := held
  have tailShort : (os.append sample anomaly).tail.length < t0BlockSamples := by
    unfold OpenSeries.append
    dsimp only
    split
    · exact (by decide : 0 < t0BlockSamples)
    next notFull => exact Nat.lt_of_not_le notFull
  by_cases empty : os.tail = []
  · obtain ⟨free, other⟩ := fresh empty
    have none : storedMarks F t ⟨x, sample.ts⟩ = [] := by rw [storedMarks, free, Option.elim_none]
    have old : os.blocks = os.sealed := by rw [OpenSeries.blocks, if_pos empty, append_nil]
    have now : (os.append sample anomaly).blocks = os.blocks
        ++ [(sample.ts, [(sample, anomaly)])] := by
      rw [OpenSeries.blocks_append, if_pos empty, empty, old, nil_append]
    refine ⟨readable, ⟨?_, ?_, ?_⟩, tailShort, stored, ?_⟩
    · rw [now, map_append, nodup_append]
      refine ⟨distinct, nodup_singleton _, ?_⟩
      intro a mem b last
      rw [map_singleton, mem_singleton] at last
      obtain ⟨c, inside, rfl⟩ := mem_map.mp mem
      rw [last]
      exact other c (old ▸ inside)
    · rw [now]
      intro b mem
      rcases mem_append.mp mem with before | last
      · exact short b before
      · rw [mem_singleton.mp last]
        exact (by decide : 1 ≤ 3000)
    · rw [now]
      intro b mem
      rcases mem_append.mp mem with before | last
      · exact begun b before
      · rw [mem_singleton.mp last, none]
        exact nil_prefix
    · have last : unstored t x [(sample.ts, [(sample, anomaly)])] = [(sample.ts, anomaly)] := by
        rw [unstored, flatMap_singleton, none]
        rfl
      rw [now, unstored, flatMap_append, ← unstored, ← unstored, last]
      exact waiting.append_right _
  · have old : os.blocks = os.sealed ++ [(os.tailFirstTs, os.tail)] := by
      rw [OpenSeries.blocks, if_neg empty]
    have now : (os.append sample anomaly).blocks
        = os.sealed ++ [(os.tailFirstTs, os.tail ++ [(sample, anomaly)])] := by
      rw [OpenSeries.blocks_append, if_neg empty]
    have tail : (os.tailFirstTs, os.tail) ∈ os.blocks := by
      rw [old]
      exact mem_append_right _ mem_cons_self
    have grown : marks (os.tail ++ [(sample, anomaly)]) = marks os.tail ++ [(sample.ts, anomaly)] :=
      map_append
    have part := begun _ tail
    refine ⟨readable, ⟨?_, ?_, ?_⟩, tailShort, stored, ?_⟩
    · rw [old, map_append] at distinct
      rw [now, map_append]
      exact distinct
    · rw [now]
      intro b mem
      rcases mem_append.mp mem with before | last
      · exact short b (old ▸ mem_append_left _ before)
      · rw [mem_singleton.mp last, length_append, length_singleton]
        exact room
    · rw [now]
      intro b mem
      rcases mem_append.mp mem with before | last
      · exact begun b (old ▸ mem_append_left _ before)
      · rw [mem_singleton.mp last, grown]
        exact part.trans (prefix_append _ _)
    · have last : unstored t x [(os.tailFirstTs, os.tail ++ [(sample, anomaly)])]
          = unstored t x [(os.tailFirstTs, os.tail)] ++ [(sample.ts, anomaly)] := by
        rw [unstored, unstored, flatMap_singleton, flatMap_singleton, grown,
          drop_append_of_le_length part.length_le]
      rw [old, unstored, flatMap_append, ← unstored, ← unstored] at waiting
      rw [now, unstored, flatMap_append, ← unstored, ← unstored, last, ← append_assoc]
      exact waiting.append_right _

/-- A commit stores what was waiting; the buffers keep at most the tail. -/
theorem Held.commit {os' : OpenSeries F} (scale : Option Int64)
    (left : os' = os.cleared ∨ (os.tail = [] ∧ os' = {})) :
    Held x (putRows t (t0Rows x scale os)) os' (committed ++ pending) [] := by
  obtain ⟨sum, readable, rows⟩ := held.backed.put held.readable scale
  rw [← t0Rows] at sum readable rows
  have blocks : os'.blocks = if os.tail = [] then [] else [(os.tailFirstTs, os.tail)] := by
    rcases left with rfl | ⟨empty, rfl⟩
    · exact nil_append _
    · rw [if_pos empty]
      rfl
  have room : os'.tail.length < t0BlockSamples := by
    rcases left with rfl | ⟨-, rfl⟩
    · exact held.room
    · exact (by decide : 0 < t0BlockSamples)
  have stored : tableMarks F (putRows t (t0Rows x scale os))
      = ((committed ++ pending : List Mark) : Multiset Mark) := by
    rw [sum, held.stored, ← Multiset.coe_add, Multiset.coe_eq_coe.mpr held.waiting]
  by_cases empty : os.tail = []
  · rw [if_pos empty] at blocks
    refine ⟨readable, ?_, room, stored, ?_⟩
    · rw [blocks]
      exact ⟨nodup_nil, fun b mem => absurd mem not_mem_nil, fun b mem => absurd mem not_mem_nil⟩
    · rw [blocks]
      exact List.Perm.refl _
  · rw [if_neg empty] at blocks
    have old : os.blocks = os.sealed ++ [(os.tailFirstTs, os.tail)] := by
      rw [OpenSeries.blocks, if_neg empty]
    have apart : ∀ b ∈ os.sealed, b.1 ≠ os.tailFirstTs := by
      intro b mem same
      have distinct := held.backed.distinct
      rw [old, map_append, nodup_append] at distinct
      exact distinct.2.2 b.1 (mem_map.mpr ⟨b, mem, rfl⟩) os.tailFirstTs mem_cons_self same
    have found : os.blocks.find? (fun b => b.1 = os.tailFirstTs)
        = some (os.tailFirstTs, os.tail) := by
      rw [old, List.find?_append, List.find?_eq_none.mpr]
      · simp
      · intro b mem
        simpa using apart b mem
    have whole : storedMarks F (putRows t (t0Rows x scale os)) ⟨x, os.tailFirstTs⟩
        = marks os.tail := by
      rw [rows, found]
      rfl
    refine ⟨readable, ?_, room, stored, ?_⟩
    · rw [blocks]
      refine ⟨nodup_singleton _, fun b mem => ?_, fun b mem => ?_⟩
      · rw [mem_singleton.mp mem]
        exact Nat.le_of_lt held.room
      · rw [mem_singleton.mp mem, whole]
    · rw [blocks, unstored, flatMap_singleton, whole, drop_length]

theorem Held.reopen : Held x t ({} : OpenSeries F) committed [] :=
  ⟨held.readable, ⟨nodup_nil, fun b mem => absurd mem not_mem_nil,
    fun b mem => absurd mem not_mem_nil⟩, (by decide : 0 < t0BlockSamples), held.stored,
    List.Perm.refl _⟩

end

theorem Held.start (x : SeriesId) : Held x (onSeries ∅ x) ({} : OpenSeries F) [] [] := by
  have none : onSeries ∅ x = ∅ := rfl
  rw [none]
  exact ⟨fun key bytes here => by simp at here, ⟨nodup_nil,
    fun b mem => absurd mem not_mem_nil, fun b mem => absurd mem not_mem_nil⟩,
    (by decide : 0 < t0BlockSamples), total_empty, List.Perm.refl _⟩

/-! ## Reading -/

theorem minValue_le_and_le_maxValue (k : Int64) : minValue ≤ k ∧ k ≤ maxValue :=
  ⟨Int64.minValue_le k, Int64.le_maxValue k⟩

/-- All the blocks of a series. -/
theorem seriesBlocks_all (t : Table) (x : SeriesId) :
    seriesBlocks t x minValue maxValue = (onSeries t x).toList.map Prod.snd := by
  rw [seriesBlocks, onSeries, ExtTreeMap.toList_filter]
  congr 1
  refine filter_congr fun e _ => ?_
  simp

/-- What is read of readable blocks: their marks in the range, in order. -/
theorem rawSamples_ok (start stop : Int64) {blocks : List Bytes}
    (readable : ∀ b ∈ blocks, ∃ d, decodeCompact (F := F) b = .ok d) :
    ∃ out : List (Sample F × Bool), rawSamples start stop blocks = .ok out ∧
      marks out = (blocks.flatMap (decodedMarks F)).filter
        fun m => decide (start ≤ m.1 ∧ m.1 < stop) := by
  induction blocks with
  | nil => exact ⟨[], rfl, rfl⟩
  | cons b blocks ih =>
    obtain ⟨⟨samples, bits⟩, decodes⟩ := readable b mem_cons_self
    obtain ⟨rest, read, same⟩ := ih fun c mem => readable c (.tail _ mem)
    have own : decodedMarks F b = marks (samples.zip bits) := by rw [decodedMarks, decodes]
    refine ⟨_, by rw [rawSamples, decodes, ok_bind]; simp only [read, ok_bind]; rfl, ?_⟩
    rw [flatMap_cons, filter_append, ← same, own]
    simp only [marks, map_append, filter_map]
    rfl

/-- The marks of the rows of a table, as a list. -/
theorem tableMarks_eq_toList (t : Table) :
    tableMarks F t = ((t.toList.map Prod.snd).flatMap (decodedMarks F) : Multiset Mark) := by
  rw [tableMarks, total]
  generalize t.toList = rows
  induction rows with
  | nil => rfl
  | cons row rows ih =>
    rw [map_cons, sum_cons, ih, map_cons, flatMap_cons, ← Multiset.coe_add]

theorem Held.read {db : Db} (held : Held x (onSeries (db .t0) x) os committed pending) :
    ∃ out : List (Sample F × Bool),
      readRaw db x minValue maxValue = .ok out ∧
        out.Pairwise (fun a b => a.1.ts ≤ b.1.ts) ∧
        (marks out).Perm (committed.filter fun m => decide (m.1 < maxValue)) := by
  have readable : ∀ b ∈ seriesBlocks (db .t0) x minValue maxValue,
      ∃ d, decodeCompact (F := F) b = .ok d := by
    rw [seriesBlocks_all]
    intro b mem
    obtain ⟨row, stored, rfl⟩ := mem_map.mp mem
    exact held.readable row.1 row.2 (ExtTreeMap.mem_toList_iff_getElem?_eq_some.mp stored)
  obtain ⟨out, read, same⟩ := rawSamples_ok minValue maxValue readable
  have all := tableMarks_eq_toList (F := F) (onSeries (db .t0) x)
  rw [held.stored, Multiset.coe_eq_coe] at all
  have range : (fun m : Mark => decide (minValue ≤ m.1 ∧ m.1 < maxValue))
      = fun m => decide (m.1 < maxValue) := by
    funext m
    simp [(minValue_le_and_le_maxValue m.1).1]
  refine ⟨out.insertionSort fun a b => a.1.ts ≤ b.1.ts, ?_, ?_, ?_⟩
  · rw [readRaw, read]
    rfl
  · exact pairwise_insertionSort _ out
  · rw [seriesBlocks_all, range] at same
    have sorted := (perm_insertionSort (fun a b : Sample F × Bool => a.1.ts ≤ b.1.ts) out).map
      fun e : Sample F × Bool => ((e.1.ts, e.2) : Mark)
    have kept : (marks out).Perm (committed.filter fun m => decide (m.1 < maxValue)) := by
      rw [same]
      exact all.symm.filter _
    exact sorted.trans kept

/-! ## Runs -/

namespace Ledger

section

variable [Deflate]

/-- An append that starts a block does so at a timestamp under which the series has no
block, stored or sealed. -/
def FreshStart (l : Ledger F) (op : Op F) : Prop :=
  ∀ x sample anomaly, op = .append x sample anomaly →
    StartsFresh (l.store.db .t0) x (l.store.opened.of x) sample.ts

instance (l : Ledger F) (op : Op F) : Decidable (l.FreshStart op) :=
  match op with
  | .append x sample _ =>
    decidable_of_iff ((l.store.opened.of x).tail.isEmpty = true →
        (l.store.db .t0)[(⟨x, sample.ts⟩ : Key)]? = none ∧
          ∀ b ∈ (l.store.opened.of x).sealed, b.1 ≠ sample.ts)
      ⟨fun fresh y s' anomaly' same => by
        cases same
        exact fun empty => fresh (isEmpty_iff.mpr empty),
      fun fresh empty => fresh x sample _ rfl (isEmpty_iff.mp empty)⟩
  | .commit _ => isTrue fun _ _ _ same => by cases same
  | .setScale _ _ => isTrue fun _ _ _ same => by cases same
  | .setHostFreeBytes _ => isTrue fun _ _ _ same => by cases same
  | .compactColdTiers _ => isTrue fun _ _ _ same => by cases same
  | .purge _ => isTrue fun _ _ _ same => by cases same
  | .reopen _ => isTrue fun _ _ _ same => by cases same

/-- The rows and buffers of a series hold the ledger's entries of it. -/
def Holds (x : SeriesId) (l : Ledger F) : Prop :=
  Held x (onSeries (l.store.db .t0) x) (l.store.opened.of x) (marksOf x l.committed)
    (marksOf x l.pending)

omit [Float64 F] [Deflate] in
theorem marksOf_append (xs ys : List (Entry F)) :
    marksOf x (xs ++ ys) = marksOf x xs ++ marksOf x ys := by
  rw [marksOf, filter_append, map_append, ← marksOf, ← marksOf]

theorem Holds.step {l l' : Ledger F} {op : Op F} (holds : l.Holds x)
    (meets : l.Kept op ∧ l.CapSlack op ∧ l.FreshStart op) (stepped : l.step op = some l') :
    l'.Holds x := by
  obtain ⟨kept, slack, fresh⟩ := meets
  obtain ⟨store, applied, rfl⟩ := step_ok stepped
  cases op with
  | append y sample anomaly =>
    cases applied
    by_cases same : y = x
    · subst same
      have start := fresh y sample anomaly rfl
      have grown := Held.append holds sample anomaly fun empty => by
        rw [onSeries_getElem?, if_pos rfl]
        exact start empty
      have buffers : Opened.of (l.store.append y sample anomaly).opened y
          = (l.store.opened.of y).append sample anomaly := by
        rw [append, of_insert, if_pos rfl]
      have entry : marksOf y (l.pending ++ [⟨y, sample, anomaly⟩])
          = marksOf y l.pending ++ [(sample.ts, anomaly)] := by
        rw [marksOf_append]
        simp [marksOf]
      rw [Holds, book, entry, buffers]
      exact grown
    · have buffers : Opened.of (l.store.append y sample anomaly).opened x
          = l.store.opened.of x := by
        rw [append, of_insert, if_neg same]
      have entry : marksOf x (l.pending ++ [⟨y, sample, anomaly⟩]) = marksOf x l.pending := by
        rw [marksOf_append]
        simp [marksOf, same]
      rw [Holds, book, entry, buffers]
      exact holds
  | setScale y scale | setHostFreeBytes free =>
    cases applied
    exact holds
  | commit plan =>
    obtain ⟨wrote, left⟩ := commit_series applied (fun s => slack plan s rfl) x
    have now := Held.commit holds (l.store.scales[x]?.or l.store.config.defaultScale) left
    have raw : onSeries (store.db .t0) x = putRows (onSeries (l.store.db .t0) x)
        (t0Rows x (l.store.scales[x]?.or l.store.config.defaultScale) (l.store.opened.of x)) :=
      wrote.raw
    rw [Holds, book, marksOf_append, raw]
    exact now
  | compactColdTiers plan =>
    obtain ⟨raw, -, -, opened⟩ := compactColdTiers_ok applied
    rw [Holds, book, raw, opened]
    exact holds
  | purge plan => exact absurd rfl (kept plan)
  | reopen config =>
    cases applied
    exact Held.reopen holds

/-- Raw history: in every run of a new store whose cap never binds and in which no
block starts under a timestamp the series already has a block under, a full read
gives each committed sample below the last timestamp once, with its timestamp and
anomaly bit, ascending. -/
theorem history_complete (config : TsdbConfig F) (ops : List (Op F)) (l : Ledger F)
    (ran : (start config).run ops = some l) (kept : (start config).Along Kept ops)
    (slack : (start config).Along CapSlack ops) (fresh : (start config).Along FreshStart ops)
    (x : SeriesId) :
    ∃ out, l.store.rangeRaw x Int64.minValue Int64.maxValue = .ok out ∧
      out.Pairwise (fun a b => a.1.ts ≤ b.1.ts) ∧
      (out.map fun e => (e.1.ts, e.2)).Perm
        (((l.committed.filter fun e => e.series = x).map fun e => (e.sample.ts, e.anomaly)).filter
          fun m => decide (m.1 < Int64.maxValue)) := by
  have first : (start config).Holds x := Held.start x
  exact Held.read (run_inv (fun _ _ _ now meets stepped => now.step meets stepped) first
    (kept.and (slack.and fresh)) ran)

end

/-- Late, repeated and early timestamps over two commits and a reopening. -/
def lateOps : List (Op Int64) :=
  [.append 7 ⟨100, 5⟩ false, .append 7 ⟨100, 6⟩ true, .commit none, .append 7 ⟨40, 9⟩ true,
    .append 8 ⟨40, 9⟩ true, .commit none, .reopen spaciousConfig, .append 7 ⟨-60, 1⟩ false,
    .append 7 ⟨100, 1⟩ false, .commit none, .append 7 ⟨0, 3⟩ true]

theorem history_complete_late : ∃ l out, (start spaciousConfig).run lateOps = some l ∧
    l.store.rangeRaw 7 Int64.minValue Int64.maxValue = .ok out ∧
    (out.map fun e => (e.1.ts, e.2)).Perm
      [(100, false), (100, true), (40, true), (-60, false), (100, false)] := by
  cases ran : (start spaciousConfig).run lateOps with
  | none => exact absurd (congrArg Option.isSome ran) (by decide +kernel)
  | some l =>
    obtain ⟨out, read, -, same⟩ := history_complete spaciousConfig lateOps l ran (by decide +kernel)
      (by decide +kernel) (by decide +kernel) 7
    have entries : ((start spaciousConfig).run lateOps).map (fun l =>
        ((l.committed.filter fun e => e.series = 7).map fun e => (e.sample.ts, e.anomaly)).filter
          fun m => decide (m.1 < maxValue))
        = some [(100, false), (100, true), (40, true), (-60, false), (100, false)] := by
      decide +kernel
    rw [ran] at entries
    exact ⟨l, out, rfl, read, Option.some.inj entries ▸ same⟩

def lastOps : List (Op Int64) := [.append 7 ⟨Int64.maxValue, 5⟩ false, .commit none]

/-- A block that starts, after a reopening, where a stored one does. -/
def collidingOps : List (Op Int64) :=
  [.append 7 ⟨100, 5⟩ false, .append 7 ⟨160, 6⟩ false, .commit none, .reopen spaciousConfig,
    .append 7 ⟨100, 6⟩ true, .commit none]

/-- The timestamps and anomaly bits a full read of series 7 gives after a run. -/
def readBack (ops : List (Op Int64)) : Option (List (Int64 × Bool)) :=
  ((start spaciousConfig).run ops).bind fun l =>
    match l.store.rangeRaw 7 Int64.minValue Int64.maxValue with
    | .ok out => some (out.map fun e => (e.1.ts, e.2))
    | .error _ => none

/-- Committed samples that a full read does not give: one at the last timestamp, and
the samples of a stored block when another starts under its timestamp. -/
theorem history_gaps :
    (((start spaciousConfig).run lastOps).map fun l => l.committed.length) = some 1 ∧
      (start spaciousConfig).Along CapSlack lastOps ∧ readBack lastOps = some [] ∧
      (((start spaciousConfig).run collidingOps).map fun l => l.committed.length) = some 3 ∧
      (start spaciousConfig).Along CapSlack collidingOps ∧
      readBack collidingOps = some [(100, true)] := by
  decide +kernel

end Ledger

end OpenGate.Tsdb
