import OpenGate.Lib.OrderedMap
import OpenGate.Tsdb.Values

/-!
# Rollups

`tier.rs`: fixed buckets of samples, reduced to min, max, sum, last and count.
What a bucket holds is a fold over its samples in order, and folding two lists
apart and merging the results is folding them together (`pointOf_append`); this
is where exact arithmetic is needed.
-/

namespace OpenGate.Tsdb

open OpenGate.Lib Std List Int64

variable {F : Type} [Float64 F] {b : Int64} (interval : Int64)

/-- The laws of exact arithmetic the rollups rest on, and that a value survives
being written as its bits. -/
class ExactArithmetic (F : Type) [Float64 F] : Prop where
  add_assoc (a b c : F) : Float64.add (Float64.add a b) c = Float64.add a (Float64.add b c)
  zero_add (a : F) : Float64.add Float64.zero a = a
  min_assoc (a b c : F) : Float64.min (Float64.min a b) c = Float64.min a (Float64.min b c)
  min_self (a : F) : Float64.min a a = a
  max_assoc (a b c : F) : Float64.max (Float64.max a b) c = Float64.max a (Float64.max b c)
  max_self (a : F) : Float64.max a a = a
  ofBits_toBits (a : F) : Float64.ofBits (Float64.toBits a) = a

structure TierPoint (F : Type) where
  bucket : Int64
  min : F
  max : F
  avg : F
  last : F
  count : UInt32
  deriving DecidableEq

/-- The persisted rollup bucket; `sum` and `last_ts` let partial rollups of one
bucket merge exactly. -/
@[ext]
structure StoredTierPoint (F : Type) where
  bucket : Int64
  min : F
  max : F
  sum : F
  last : F
  lastTs : Int64
  count : UInt32
  deriving DecidableEq

namespace StoredTierPoint

def merge (p other : StoredTierPoint F) : StoredTierPoint F where
  bucket := p.bucket
  min := Float64.min p.min other.min
  max := Float64.max p.max other.max
  sum := Float64.add p.sum other.sum
  count := p.count + other.count
  lastTs := if other.lastTs ≥ p.lastTs then other.lastTs else p.lastTs
  last := if other.lastTs ≥ p.lastTs then other.last else p.last

def toPublic (p : StoredTierPoint F) : TierPoint F where
  bucket := p.bucket
  min := p.min
  max := p.max
  avg := if p.count = 0 then Float64.zero else Float64.div p.sum (Float64.ofU32 p.count)
  last := p.last
  count := p.count

def fresh (bucket : Int64) (s : Sample F) : StoredTierPoint F where
  bucket := bucket
  min := s.value
  max := s.value
  sum := Float64.zero
  last := s.value
  lastTs := Int64.minValue
  count := 0

def add (e : StoredTierPoint F) (s : Sample F) : StoredTierPoint F where
  bucket := e.bucket
  min := Float64.min e.min s.value
  max := Float64.max e.max s.value
  sum := Float64.add e.sum s.value
  count := e.count + 1
  lastTs := if s.ts ≥ e.lastTs then s.ts else e.lastTs
  last := if s.ts ≥ e.lastTs then s.value else e.last

end StoredTierPoint

def t1Minute : Int64 := 60

def t2Hour : Int64 := 3600

def divEuclid (a b : Int64) : Int64 := Int64.ofInt (a.toInt / b.toInt)

/-- Division by a positive number stays in range. -/
theorem toInt_divEuclid (a : Int64) (positive : 0 < b.toInt) :
    (divEuclid a b).toInt = a.toInt / b.toInt := by
  have low := le_toInt a
  have high := toInt_lt a
  rw [divEuclid, toInt_ofInt_of_le]
  · exact (Int.le_ediv_iff_mul_le positive).mpr (by nlinarith)
  · exact (Int.ediv_lt_iff_lt_mul positive).mpr (by nlinarith)

def bucketOf (interval ts : Int64) : Int64 := divEuclid ts interval * interval

/-- Buckets by their start, a `BTreeMap` of the source. -/
abbrev Buckets (F : Type) := ExtTreeMap Int64 (StoredTierPoint F)

def rollupSample (interval : Int64) (acc : Buckets F) (s : Sample F) : Buckets F :=
  let bucket := bucketOf interval s.ts
  acc.insert bucket ((acc[bucket]?.getD (.fresh bucket s)).add s)

def rollupMap (interval : Int64) (samples : List (Sample F)) : Buckets F :=
  samples.foldl (rollupSample interval) ∅

def Buckets.points (m : Buckets F) : List (StoredTierPoint F) := m.toList.map Prod.snd

/-- Reduces a raw series into buckets of `interval` seconds, in any order. -/
def storedRollup (samples : List (Sample F)) (interval : Int64) : List (StoredTierPoint F) :=
  (rollupMap interval samples).points

/-- `map.entry(p.bucket).and_modify(|e| e.merge(p)).or_insert(*p)`. -/
def mergePoint (m : Buckets F) (p : StoredTierPoint F) : Buckets F :=
  m.insert p.bucket ((m[p.bucket]?).elim p fun e => e.merge p)

/-! ## What one bucket holds -/

def addSample (bucket : Int64) (e : Option (StoredTierPoint F)) (s : Sample F) :
    Option (StoredTierPoint F) :=
  some ((e.getD (.fresh bucket s)).add s)

def pointOf (bucket : Int64) (samples : List (Sample F)) : Option (StoredTierPoint F) :=
  samples.foldl (addSample bucket) none

def mergeOption (p q : Option (StoredTierPoint F)) : Option (StoredTierPoint F) :=
  match p, q with
  | none, q => q
  | some p, none => some p
  | some p, some q => some (p.merge q)

/-- A map built by `stored_rollup` holds each bucket's own samples, folded in order. -/
theorem rollupMap_getElem? {samples : List (Sample F)} :
    (rollupMap interval samples)[b]?
      = pointOf b (samples.filter fun s => bucketOf interval s.ts = b) := by
  induction samples using List.reverseRecOn with
  | nil => rfl
  | append_singleton samples s ih =>
    have turn : rollupMap interval (samples ++ [s])
        = rollupSample interval (rollupMap interval samples) s := by
      rw [rollupMap, foldl_append]
      rfl
    rw [turn, rollupSample, insert_self, filter_append]
    by_cases here : bucketOf interval s.ts = b
    · have one : [s].filter (fun s => bucketOf interval s.ts = b) = [s] := by simp [here]
      rw [if_pos here, here, ih, one, pointOf, pointOf, foldl_append]
      rfl
    · have none : [s].filter (fun s => bucketOf interval s.ts = b) = [] := by simp [here]
      rw [if_neg here, ih, none, append_nil]

variable {p : StoredTierPoint F} {samples : List (Sample F)}

theorem pointOf_bucket {bucket : Int64} (is : pointOf bucket samples = some p) :
    p.bucket = bucket := by
  induction samples using List.reverseRecOn generalizing p with
  | nil => cases is
  | append_singleton samples s ih =>
    rw [pointOf, foldl_append, ← pointOf] at is
    cases before : pointOf bucket samples with
    | none =>
      rw [before] at is
      cases is
      rfl
    | some q =>
      rw [before] at is
      cases is
      exact ih (p := q) before

theorem bucket_of_mem {interval : Int64} (here : (rollupMap interval samples)[b]? = some p) :
    p.bucket = b := by
  rw [rollupMap_getElem?] at here
  exact pointOf_bucket here

/-! ## Folding apart and together -/

section Exact

variable [ExactArithmetic F] (bucket : Int64) {s : Sample F}

/-- Merging one more sample's bucket is folding in the sample. -/
theorem StoredTierPoint.merge_fresh {bucket : Int64} :
    p.merge ((StoredTierPoint.fresh bucket s).add s) = p.add s := by
  have first : s.ts ≥ Int64.minValue := minValue_le s.ts
  apply StoredTierPoint.ext
  · rfl
  · simp [merge, add, fresh, ExactArithmetic.min_self]
  · simp [merge, add, fresh, ExactArithmetic.max_self]
  · simp [merge, add, fresh, ExactArithmetic.zero_add]
  · simp [merge, add, fresh, first]
  · simp [merge, add, fresh, first]
  · simp [merge, add, fresh]

/-- A sample may be folded in before or after a merge. -/
theorem StoredTierPoint.merge_add (p q : StoredTierPoint F) :
    p.merge (q.add s) = (p.merge q).add s := by
  apply StoredTierPoint.ext
  · rfl
  · exact (ExactArithmetic.min_assoc ..).symm
  · exact (ExactArithmetic.max_assoc ..).symm
  · exact (ExactArithmetic.add_assoc ..).symm
  · simp only [merge, add, ge_iff_le, le_iff_toInt_le]
    split_ifs <;> first | rfl | omega
  · simp only [merge, add, ge_iff_le, le_iff_toInt_le]
    split_ifs <;> first | rfl | omega
  · exact (UInt32.add_assoc ..).symm

theorem mergeOption_addSample (p q : Option (StoredTierPoint F)) :
    mergeOption p (addSample bucket q s) = addSample bucket (mergeOption p q) s := by
  cases p with
  | none => rfl
  | some p =>
    cases q with
    | none => exact congrArg some (StoredTierPoint.merge_fresh)
    | some q => exact congrArg some (StoredTierPoint.merge_add p q)

/-- Folding a list is merging the folds of its two parts. -/
theorem pointOf_append (xs ys : List (Sample F)) :
    pointOf bucket (xs ++ ys) = mergeOption (pointOf bucket xs) (pointOf bucket ys) := by
  induction ys using List.reverseRecOn with
  | nil =>
    rw [append_nil]
    cases pointOf bucket xs <;> rfl
  | append_singleton ys s ih =>
    have snoc (zs : List (Sample F)) :
        pointOf bucket (zs ++ [s]) = addSample bucket (pointOf bucket zs) s := by
      rw [pointOf, foldl_append]
      rfl
    rw [← append_assoc, snoc, ih, snoc, mergeOption_addSample]

end Exact

/-! ## Merging maps -/

/-- Merging a list of points with different buckets. -/
theorem mergePoints_getElem? (m : Buckets F) (ps : List (StoredTierPoint F))
    (distinct : (ps.map StoredTierPoint.bucket).Nodup) (b : Int64) :
    (ps.foldl mergePoint m)[b]? = mergeOption m[b]? (ps.find? fun p => p.bucket = b) := by
  induction ps generalizing m with
  | nil =>
    rw [foldl_nil, List.find?_nil]
    cases m[b]? <;> rfl
  | cons p ps ih =>
    rw [map_cons, nodup_cons] at distinct
    rw [foldl_cons, ih _ distinct.2, mergePoint, insert_self]
    by_cases here : p.bucket = b
    · have gone : ps.find? (fun p => p.bucket = b) = none := by
        rw [List.find?_eq_none]
        intro q mem same
        have same' : q.bucket = b := by simpa using same
        exact distinct.1 (mem_map.mpr ⟨q, mem, same'.trans here.symm⟩)
      have found : (p :: ps).find? (fun p => p.bucket = b) = some p := by
        simp [here]
      rw [if_pos here, gone, found, here]
      cases m[b]? <;> rfl
    · have skip : (p :: ps).find? (fun p => p.bucket = b) = ps.find? fun p => p.bucket = b := by
        simp [here]
      rw [if_neg here, skip]

/-- Every point lies under its own bucket. -/
def Buckets.Own (m : Buckets F) : Prop :=
  ∀ (b : Int64) (p : StoredTierPoint F), m[b]? = some p → p.bucket = b

theorem rollupMap_own (samples : List (Sample F)) :
    (rollupMap interval samples).Own := fun _ _ => bucket_of_mem

variable {m : Buckets F}

omit [Float64 F] in
theorem mem_points (own : m.Own) : p ∈ m.points ↔ m[p.bucket]? = some p := by
  constructor
  · intro mem
    obtain ⟨e, inMap, rfl⟩ := mem_map.mp mem
    have stored := ExtTreeMap.mem_toList_iff_getElem?_eq_some.mp inMap
    rwa [own e.1 e.2 stored]
  · intro stored
    exact mem_map.mpr ⟨_, ExtTreeMap.mem_toList_iff_getElem?_eq_some.mpr stored, rfl⟩

omit [Float64 F] in
/-- A map's points can be looked up by their buckets. -/
theorem find?_points (own : m.Own) : m.points.find? (fun p => p.bucket = b) = m[b]? := by
  cases found : m.points.find? (fun p => p.bucket = b) with
  | none =>
    cases here : m[b]? with
    | none => rfl
    | some p =>
      have same := own b p here
      have absent := List.find?_eq_none.mp found p ((mem_points own).mpr (same ▸ here))
      simp [same] at absent
  | some p =>
    have same : p.bucket = b := by simpa using List.find?_some found
    have stored := (mem_points own).mp (mem_of_find?_eq_some found)
    rw [← same, stored]

omit [Float64 F] in
theorem map_bucket_points (own : m.Own) :
    m.points.map StoredTierPoint.bucket = m.toList.map Prod.fst := by
  rw [Buckets.points, map_map]
  refine map_congr_left fun e mem => ?_
  exact own e.1 e.2 (ExtTreeMap.mem_toList_iff_getElem?_eq_some.mp mem)

omit [Float64 F] in
theorem nodup_buckets (own : m.Own) : (m.points.map StoredTierPoint.bucket).Nodup := by
  rw [map_bucket_points own]
  exact nodup_keys m

theorem storedRollup_sorted (samples : List (Sample F)) (interval : Int64) :
    (storedRollup samples interval).Pairwise fun p q => p.bucket < q.bucket := by
  have own := rollupMap_own interval samples
  have keys := (rollupMap interval samples).ordered_keys_toList
  rw [storedRollup, Buckets.points, pairwise_map]
  refine keys.imp_of_mem fun {a b} memA memB lt => ?_
  rw [own a.1 a.2 (ExtTreeMap.mem_toList_iff_getElem?_eq_some.mp memA),
    own b.1 b.2 (ExtTreeMap.mem_toList_iff_getElem?_eq_some.mp memB)]
  exact Std.compare_eq_lt.mp lt

end OpenGate.Tsdb
