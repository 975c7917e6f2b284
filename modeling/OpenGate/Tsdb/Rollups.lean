import OpenGate.Tsdb.Ledger
import OpenGate.Tsdb.Whole

/-!
# Rollups and commit boundaries

What the rollup tiers hold of a series.  `blockMap` is the abstract view: the
buckets of everything committed that fall under one block key.  A commit merges
its own buckets into each block, compaction recodes blocks, and at every point
each block decodes to its part of one rollup of the whole history.
-/

namespace OpenGate.Tsdb

open OpenGate.Lib Std StoredTierPoint List

variable {F : Type}

/-! ## Block keys -/

def blockSecs (tier : Tier) : Int64 := (tierGeometry tier).1 * (tierGeometry tier).2

def Tier.key (tier : Tier) (bucket : Int64) : Int64 :=
  blockKey bucket (tierGeometry tier).1 (tierGeometry tier).2

theorem toInt_blockSecs (tier : Tier) :
    0 < (blockSecs tier).toInt ∧ (blockSecs tier).toInt < 2 ^ 32 := by
  cases tier <;> decide

theorem toInt_key (tier : Tier) (b : Int64) :
    (tier.key b).toInt = max (-2 ^ 63) (min (2 ^ 63 - 1)
      (b.toInt / (blockSecs tier).toInt * (blockSecs tier).toInt)) := by
  rw [Tier.key, blockKey, toInt_saturatingMul, ← blockSecs,
    toInt_divEuclid _ (toInt_blockSecs tier).1]

/-- A bucket lies in the span its key opens. -/
theorem key_span (tier : Tier) (b : Int64) :
    (tier.key b).toInt ≤ b.toInt ∧ b.toInt < (tier.key b).toInt + (blockSecs tier).toInt := by
  have low := Int64.le_toInt b
  have high := Int64.toInt_lt b
  have positive := (toInt_blockSecs tier).1
  have floor := Int.ediv_mul_le b.toInt (ne_of_gt positive)
  have next := Int.lt_ediv_add_one_mul_self b.toInt positive
  rw [add_mul, one_mul] at next
  rw [toInt_key]
  omega

theorem key_mono (tier : Tier) {a b : Int64} (le : a ≤ b) : tier.key a ≤ tier.key b := by
  have positive := (toInt_blockSecs tier).1
  have quotients : a.toInt / (blockSecs tier).toInt ≤ b.toInt / (blockSecs tier).toInt :=
    Int.ediv_le_ediv positive (Int64.le_iff_toInt_le.mp le)
  have products := Int.mul_le_mul_of_nonneg_right quotients (Int.le_of_lt positive)
  rw [Int64.le_iff_toInt_le, toInt_key, toInt_key]
  omega

/-! ## One block -/

variable [Float64 F] {m : Buckets F}

def blockMap (tier : Tier) (samples : List (Sample F)) (k : Int64) : Buckets F :=
  (rollupMap (tierGeometry tier).1 samples).filter fun b _ => tier.key b = k

section

variable (tier : Tier) (samples : List (Sample F)) (k : Int64)

theorem blockMap_getElem? {b : Int64} :
    (blockMap tier samples k)[b]?
      = if tier.key b = k then (rollupMap (tierGeometry tier).1 samples)[b]? else none := by
  rw [blockMap, filter_getElem?]
  cases (rollupMap (tierGeometry tier).1 samples)[b]? with
  | none => simp
  | some p => split <;> simp [*]

theorem blockMap_own : (blockMap tier samples k).Own := by
  intro b p here
  rw [blockMap_getElem?] at here
  split at here
  · exact bucket_of_mem here
  · cases here

theorem points_blockMap :
    (blockMap tier samples k).points
      = (storedRollup samples (tierGeometry tier).1).filter fun p => tier.key p.bucket = k := by
  rw [Buckets.points, blockMap, ExtTreeMap.toList_filter, storedRollup, Buckets.points, filter_map]
  congr 1
  refine filter_congr fun e mem => ?_
  have own := rollupMap_own _ _ e.1 e.2 (ExtTreeMap.mem_toList_iff_getElem?_eq_some.mp mem)
  rw [Function.comp_apply, own]

/-- A block has fewer buckets than the seconds it spans. -/
theorem length_blockMap : (blockMap tier samples k).points.length < 2 ^ 32 := by
  have spans : ∀ b ∈ (blockMap tier samples k).points.map fun p => p.bucket.toInt,
      b ∈ Finset.Ico k.toInt (k.toInt + (blockSecs tier).toInt) := by
    intro b mem
    obtain ⟨p, inBlock, rfl⟩ := mem_map.mp mem
    rw [points_blockMap, mem_filter] at inBlock
    have key : tier.key p.bucket = k := by simpa using inBlock.2
    have span := key_span tier p.bucket
    rw [key] at span
    exact Finset.mem_Ico.mpr span
  have distinct : ((blockMap tier samples k).points.map fun p => p.bucket.toInt).Nodup := by
    have buckets := (nodup_buckets (blockMap_own tier samples k)).map
      (f := Int64.toInt) fun a b => Int64.toInt_inj.mp
    rwa [map_map] at buckets
  have card := Finset.card_le_card fun b mem => spans b (mem_toFinset.mp mem)
  rw [toFinset_card_of_nodup distinct, length_map, Int.card_Ico] at card
  have bound := (toInt_blockSecs tier).2
  omega

end

/-- New points by block: each block's own, if it has any. -/
theorem groupPartials_getElem? (tier : Tier) (new : List (Sample F)) (k : Int64) :
    (groupPartials new (tierGeometry tier).1 (tierGeometry tier).2)[k]?
      = if (blockMap tier new k).points = [] then none else some (blockMap tier new k).points := by
  rw [points_blockMap, groupPartials]
  induction storedRollup new (tierGeometry tier).1 using List.reverseRecOn with
  | nil => simp
  | append_singleton ps p ih =>
    rw [foldl_append, foldl_cons, foldl_nil, insert_self, ← Tier.key, filter_append]
    by_cases here : tier.key p.bucket = k
    · rw [if_pos here, here, ih]
      split <;> simp_all
    · rw [if_neg here, ih]
      simp [here]

omit [Float64 F] in
/-- Points put under their buckets, one after the other. -/
theorem foldl_insert_getElem? (m : Buckets F) (ps : List (StoredTierPoint F))
    (distinct : (ps.map bucket).Nodup) (b : Int64) :
    (ps.foldl (fun m p => m.insert p.bucket p) m)[b]?
      = (ps.find? fun p => p.bucket = b).or m[b]? := by
  induction ps generalizing m with
  | nil => rfl
  | cons p ps ih =>
    rw [map_cons, nodup_cons] at distinct
    rw [foldl_cons, ih _ distinct.2, insert_self, List.find?_cons]
    by_cases here : p.bucket = b
    · have gone : ps.find? (fun p => p.bucket = b) = none := by
        rw [List.find?_eq_none]
        intro q mem same
        have same' : q.bucket = b := by simpa using same
        exact distinct.1 (mem_map.mpr ⟨q, mem, same'.trans here.symm⟩)
      simp [gone, here]
    · simp [here]

omit [Float64 F] in
/-- A map is rebuilt from its points. -/
theorem foldl_insert_points (own : m.Own) :
    m.points.foldl (fun m p => m.insert p.bucket p) ∅ = m := by
  refine ExtTreeMap.ext_getElem? fun b => ?_
  rw [foldl_insert_getElem? _ _ (nodup_buckets own), find?_points own]
  cases m[b]? <;> simp

/-- Merging a block's new buckets gives the block of the longer history. -/
theorem merge_blockMap [ExactArithmetic F] (tier : Tier) (old new : List (Sample F)) (k : Int64) :
    (blockMap tier new k).points.foldl mergePoint (blockMap tier old k)
      = blockMap tier (old ++ new) k := by
  refine ExtTreeMap.ext_getElem? fun b => ?_
  have own := blockMap_own tier new k
  rw [mergePoints_getElem? _ _ (nodup_buckets own), find?_points own, blockMap_getElem?,
    blockMap_getElem?, blockMap_getElem?]
  split
  · rw [rollupMap_getElem?, rollupMap_getElem?, rollupMap_getElem?, filter_append, pointOf_append]
  · rfl

/-! ## The rows of one series -/

section Rows

variable [Deflate] {k : Int64} {bytes : Bytes}

/-- What a series' row decodes to, nothing where there is no row. -/
def storedBlock (t : Table) (x : SeriesId) (k : Int64) : Result (List (StoredTierPoint F)) :=
  match t[(⟨x, k⟩ : Key)]? with
  | some bytes => decodeTierValue bytes
  | none => .ok []

/-- The rows of a series hold one rollup of its history. -/
def Rolled (tier : Tier) (t : Table) (x : SeriesId) (samples : List (Sample F)) : Prop :=
  ∀ k, storedBlock t x k = .ok (blockMap tier samples k).points

theorem storedBlock_insert {t : Table} {x : SeriesId} (k j : Int64) :
    (storedBlock (t.insert ⟨x, k⟩ bytes) x j : Result (List (StoredTierPoint F)))
      = if k = j then decodeTierValue bytes else storedBlock t x j := by
  rw [storedBlock, insert_self]
  by_cases here : k = j
  · rw [if_pos (congrArg (Key.mk x) here), if_pos here]
  · rw [if_neg (fun same => here (congrArg Key.ts same)), if_neg here, storedBlock]

theorem storedBlock_onSeries {t : Table} {x : SeriesId} :
    (storedBlock (onSeries t x) x k : Result (List (StoredTierPoint F))) = storedBlock t x k := by
  rw [storedBlock, onSeries_getElem?, if_pos rfl, storedBlock]

variable {x : SeriesId}

variable {t : Table}

theorem mergedTierBytes_ok (own : m.Own) {partials : List (StoredTierPoint F)}
    (holds : storedBlock t x k = .ok m.points)
    (merged : mergedTierBytes t[(⟨x, k⟩ : Key)]? partials = .ok bytes) :
    bytes = tierPlain :: encodeTierBlock (partials.foldl mergePoint m).points := by
  unfold mergedTierBytes at merged
  unfold storedBlock at holds
  cases here : t[(⟨x, k⟩ : Key)]? with
  | none =>
    rw [here] at merged holds
    rw [← foldl_insert_points own, ← Except.ok.inj holds]
    exact (Except.ok.inj merged).symm
  | some b =>
    rw [here] at merged holds
    have decoded : decodeTierValue b = .ok m.points := holds
    simp only [decoded, ok_bind, foldl_insert_points own] at merged
    exact (Except.ok.inj merged).symm

variable {tier : Tier} {old new : List (Sample F)} {t' : Table}

/-- The merged blocks, and the others as they were. -/
theorem mergeTier_storedBlock [ExactArithmetic F] {groups : List (Int64 × List (StoredTierPoint F))}
    (distinct : (groups.map Prod.fst).Nodup)
    (partials : ∀ g ∈ groups, g.2 = (blockMap tier new g.1).points)
    (holds : ∀ g ∈ groups, storedBlock t x g.1 = .ok (blockMap tier old g.1).points)
    (merged : mergeTier x t groups = .ok t') :
    storedBlock t' x k = if k ∈ groups.map Prod.fst then .ok (blockMap tier (old ++ new) k).points
      else storedBlock t x k := by
  induction groups generalizing t with
  | nil =>
    cases merged
    rfl
  | cons g groups ih =>
    rw [map_cons, nodup_cons] at distinct
    obtain ⟨bytes, row, rest⟩ := bind_ok merged
    have written := mergedTierBytes_ok (blockMap_own tier old g.1) (holds g mem_cons_self) row
    rw [partials g mem_cons_self, merge_blockMap] at written
    have others : ∀ j ∈ groups, g.1 ≠ j.1 := by
      intro j mem same
      exact distinct.1 (mem_map.mpr ⟨j, mem, same.symm⟩)
    rw [ih distinct.2 (fun j mem => partials j (.tail _ mem)) (fun j mem => ?_) rest,
      storedBlock_insert]
    · rw [map_cons]
      by_cases here : g.1 = k
      · subst here
        rw [if_neg distinct.1, if_pos rfl, if_pos mem_cons_self, written, decodeTierValue,
          if_pos rfl, decodeTierBlock_encodeTierBlock (length_blockMap tier _ _)]
      · rw [if_neg here]
        by_cases mem : k ∈ groups.map Prod.fst
        · rw [if_pos mem, if_pos (.tail _ mem)]
        · have out : k ∉ g.1 :: groups.map Prod.fst := by
            rw [mem_cons, not_or]
            exact ⟨fun eq => here eq.symm, mem⟩
          rw [if_neg mem, if_neg out]
    · rw [storedBlock_insert, if_neg (others j mem)]
      exact holds j (.tail _ mem)

/-- A merge of new samples: the rows hold the longer history. -/
theorem Rolled.merge [ExactArithmetic F] (rolled : Rolled tier t x old) (merged : mergeTier x t
      (groupPartials new (tierGeometry tier).1 (tierGeometry tier).2).toList = .ok t') :
    Rolled tier t' x (old ++ new) := by
  have partials : ∀ g ∈ (groupPartials new (tierGeometry tier).1 (tierGeometry tier).2).toList,
      g.2 = (blockMap tier new g.1).points := by
    intro g mem
    have here := ExtTreeMap.mem_toList_iff_getElem?_eq_some.mp mem
    rw [groupPartials_getElem?] at here
    split at here
    · cases here
    · exact (Option.some.inj here).symm
  intro k
  rw [mergeTier_storedBlock (nodup_keys _) partials (fun g _ => rolled g.1) merged]
  split
  · rfl
  next absent =>
    have none : (blockMap tier new k).points = [] := by
      by_contra some
      have here := groupPartials_getElem? tier new k
      rw [if_neg some, ← ExtTreeMap.mem_toList_iff_getElem?_eq_some] at here
      exact absent (mem_map.mpr ⟨_, here, rfl⟩)
    have same := merge_blockMap tier old new k
    rw [none, foldl_nil] at same
    rw [rolled k, same]

variable {samples : List (Sample F)}

/-- Compressed rows decode to what they did. -/
theorem Rolled.recoded [LawfulDeflate] (rolled : Rolled tier t x samples) (recoded : Recoded t t') :
    Rolled tier t' x samples := by
  intro k
  rw [← rolled k]
  rcases recoded ⟨x, k⟩ with same | ⟨body, z, before, compressed, after⟩
  · rw [storedBlock, same, storedBlock]
  · have inflates : Deflate.inflate z = some body := LawfulDeflate.inflate_deflate compressed
    rw [storedBlock, storedBlock, before, after]
    simp only [decodeTierValue, inflate, inflates, okOr]
    rfl

/-! ## Reading -/

theorem tierPoints_ok (start stop : Int64) {rows : List (Key × Bytes)}
    (points : Key → List (StoredTierPoint F))
    (decodes : ∀ e ∈ rows, decodeTierValue e.2 = .ok (points e.1)) :
    tierPoints start stop (rows.map Prod.snd)
      = .ok ((rows.flatMap fun e => (points e.1).filter fun p =>
        start ≤ p.bucket ∧ p.bucket < stop).map toPublic) := by
  induction rows with
  | nil => rfl
  | cons e rows ih =>
    rw [map_cons, tierPoints, decodes e mem_cons_self, ok_bind,
      ih fun e' mem => decodes e' (.tail _ mem), ok_bind, flatMap_cons, map_append]

/-- The rows a range asks for hold the points in it, each once. -/
theorem Rolled.range_perm (rolled : Rolled tier t x samples) (start stop : Int64) :
    ((t.toList.filter fun e => e.1.series = x ∧ tier.key start ≤ e.1.ts ∧
        e.1.ts ≤ tier.key stop).flatMap fun e =>
          (blockMap tier samples e.1.ts).points.filter fun p =>
            start ≤ p.bucket ∧ p.bucket < stop).Perm
      ((storedRollup samples (tierGeometry tier).1).filter fun p =>
        start ≤ p.bucket ∧ p.bucket < stop) := by
  have once : (storedRollup samples (tierGeometry tier).1).Nodup := by
    refine (storedRollup_sorted samples _).imp ?_
    rintro p _ lt rfl
    exact Int64.lt_irrefl lt
  rw [perm_ext_iff_of_nodup ?_ (once.filter _)]
  · intro p
    rw [mem_flatMap, mem_filter]
    constructor
    · rintro ⟨e, -, mem⟩
      rw [mem_filter, points_blockMap, mem_filter] at mem
      exact ⟨mem.1.1, mem.2⟩
    · rintro ⟨mem, range⟩
      have bounds : start ≤ p.bucket ∧ p.bucket < stop := by simpa using range
      have inBlock : p ∈ (blockMap tier samples (tier.key p.bucket)).points := by
        rw [points_blockMap, mem_filter]
        exact ⟨mem, by simp⟩
      have holds := rolled (tier.key p.bucket)
      unfold storedBlock at holds
      cases row : t[(⟨x, tier.key p.bucket⟩ : Key)]? with
      | none =>
        rw [row] at holds
        rw [← Except.ok.inj holds] at inBlock
        cases inBlock
      | some bytes =>
        refine ⟨(⟨x, tier.key p.bucket⟩, bytes), ?_, mem_filter.mpr ⟨inBlock, range⟩⟩
        rw [mem_filter]
        refine ⟨ExtTreeMap.mem_toList_iff_getElem?_eq_some.mpr row, ?_⟩
        have below := key_mono tier bounds.1
        have above := key_mono tier (Int64.le_of_lt bounds.2)
        simp [below, above]
  · rw [nodup_flatMap]
    constructor
    · intro e _
      exact ((nodup_buckets (blockMap_own tier samples e.1.ts)).of_map _).filter _
    · -- rows of one series have different timestamps, and a point's bucket gives its row's
      refine (t.distinct_keys_toList.filter _).imp_of_mem fun {a b} memA memB distinct => ?_
      rw [Function.onFun, disjoint_left]
      intro p inA inB
      rw [mem_filter, points_blockMap, mem_filter] at inA inB
      have same : a.1 = b.1 := by
        cases a1 : a.1
        cases b1 : b.1
        simp_all
      rw [same] at distinct
      exact distinct ReflCmp.compare_self

theorem readTier_eq (db : Db) (tier : Tier) (x : SeriesId) (start stop : Int64) :
    readTier (F := F) db tier x start stop = (tierPoints start stop
      (seriesBlocks (db tier.table) x (tier.key start) (tier.key stop)) >>= fun out =>
        .ok (out.insertionSort fun a b => a.bucket ≤ b.bucket)) := by
  rcases tierGeometry tier with ⟨interval, span⟩
  rfl

/-- What a range query gives. -/
theorem Rolled.readTier {db : Db} (rolled : Rolled tier (db tier.table) x samples)
    (start stop : Int64) : readTier db tier x start stop
      = .ok (((storedRollup samples (tierGeometry tier).1).filter fun p =>
        start ≤ p.bucket ∧ p.bucket < stop).map toPublic) := by
  have decodes : ∀ e ∈ (db tier.table).toList.filter fun e => e.1.series = x ∧
        tier.key start ≤ e.1.ts ∧ e.1.ts ≤ tier.key stop,
      decodeTierValue e.2 = .ok (blockMap tier samples e.1.ts).points := by
    rintro ⟨⟨y, k⟩, bytes⟩ mem
    rw [mem_filter, ExtTreeMap.mem_toList_iff_getElem?_eq_some] at mem
    have same : y = x := by simpa using (of_decide_eq_true mem.2).1
    have holds := rolled k
    rw [storedBlock, ← same, mem.1] at holds
    exact holds
  have read : Tsdb.readTier db tier x start stop = .ok ((((db tier.table).toList.filter fun e =>
      e.1.series = x ∧ tier.key start ≤ e.1.ts ∧ e.1.ts ≤ tier.key stop).flatMap fun e =>
        (blockMap tier samples e.1.ts).points.filter fun p =>
          start ≤ p.bucket ∧ p.bucket < stop).map toPublic
      |>.insertionSort fun a b => a.bucket ≤ b.bucket) := by
    have points :=
      tierPoints_ok start stop (fun key => (blockMap tier samples key.ts).points) decodes
    rw [readTier_eq, seriesBlocks, points, ok_bind]
  have sorted := storedRollup_sorted samples (tierGeometry tier).1
  rw [read]
  refine congrArg Except.ok (@List.Perm.eq_of_pairwise _ (fun a b => a.bucket ≤ b.bucket) _ _
    ?_ (pairwise_insertionSort _ _) ?_
    ((perm_insertionSort _ _).trans ((rolled.range_perm start stop).map _)))
  · intro a b memA memB le ge
    rw [mem_insertionSort] at memA
    obtain ⟨p, inP, rfl⟩ := mem_map.mp
      (((rolled.range_perm start stop).map toPublic).mem_iff.mp memA)
    obtain ⟨q, inQ, rfl⟩ := mem_map.mp memB
    have same : p.bucket = q.bucket := Int64.le_antisymm le ge
    have distinct := nodup_buckets (rollupMap_own (tierGeometry tier).1 samples)
    have eq := inj_on_of_nodup_map distinct (mem_filter.mp inP).1
      (mem_filter.mp inQ).1 same
    rw [eq]
  · rw [pairwise_map]
    exact (sorted.filter _).imp fun {a b} lt => Int64.le_of_lt lt

end Rows

/-! ## Runs -/

namespace Ledger

section Runs

variable [Deflate] {x : SeriesId}

def samplesOf (x : SeriesId) (entries : List (Entry F)) : List (Sample F) :=
  (entries.filter fun e => e.series = x).map Entry.sample

omit [Float64 F] [Deflate] in
theorem samplesOf_append (xs ys : List (Entry F)) :
    samplesOf x (xs ++ ys) = samplesOf x xs ++ samplesOf x ys := by
  rw [samplesOf, filter_append, map_append, ← samplesOf, ← samplesOf]

/-- Both tiers hold the committed history; the buffers hold what waits. -/
structure RolledUp (x : SeriesId) (l : Ledger F) : Prop where
  minutes : Rolled .t1 (l.store.db .t1) x (samplesOf x l.committed)
  hours : Rolled .t2 (l.store.db .t2) x (samplesOf x l.committed)
  waiting : (l.store.opened.of x).unrolled = samplesOf x l.pending

theorem RolledUp.tier {l : Ledger F} (rolled : l.RolledUp x) (tier : Tier) :
    Rolled tier (l.store.db tier.table) x (samplesOf x l.committed) := by
  cases tier with
  | t1 => exact rolled.minutes
  | t2 => exact rolled.hours

omit [Float64 F] [Deflate] in
theorem unrolled_append (os : OpenSeries F) (sample : Sample F) (anomaly : Bool) :
    (os.append sample anomaly).unrolled = os.unrolled ++ [sample] := by
  unfold OpenSeries.append
  dsimp only
  split <;> rfl

theorem RolledUp.step [ExactArithmetic F] [LawfulDeflate] {l l' : Ledger F} {op : Op F}
    (rolled : l.RolledUp x) (meets : l.Kept op ∧ l.CapSlack op) (stepped : l.step op = some l') :
    l'.RolledUp x := by
  obtain ⟨kept, slack⟩ := meets
  obtain ⟨store, applied, rfl⟩ := step_ok stepped
  cases op with
  | append y sample anomaly =>
    cases applied
    refine ⟨rolled.minutes, rolled.hours, ?_⟩
    show (Opened.of (l.store.opened.insert y _) x).unrolled
      = samplesOf x (l.pending ++ [⟨y, sample, anomaly⟩])
    rw [samplesOf_append, of_insert]
    by_cases same : y = x
    · subst same
      rw [if_pos rfl, unrolled_append, rolled.waiting]
      simp [samplesOf]
    · rw [if_neg same, rolled.waiting]
      simp [samplesOf, same]
  | setScale y scale | setHostFreeBytes free =>
    cases applied
    exact ⟨rolled.minutes, rolled.hours, rolled.waiting⟩
  | commit plan =>
    obtain ⟨wrote, left⟩ := LocalTsdb.commit_series applied (fun s => slack plan s rfl) x
    have cut (t : Table) (tier : Tier) (samples : List (Sample F)) :
        Rolled tier (onSeries t x) x samples ↔ Rolled tier t x samples := by
      unfold Rolled
      simp only [storedBlock_onSeries]
    have minutes := ((cut _ _ _).mpr rolled.minutes).merge wrote.minutes
    have hours := ((cut _ _ _).mpr rolled.hours).merge wrote.hours
    rw [rolled.waiting, ← samplesOf_append] at minutes hours
    refine ⟨(cut _ _ _).mp minutes, (cut _ _ _).mp hours, ?_⟩
    show (store.opened.of x).unrolled = []
    rcases left with cleared | ⟨-, empty⟩
    · rw [cleared]
      rfl
    · rw [empty]
  | compactColdTiers plan =>
    obtain ⟨-, minutes, hours, opened⟩ := LocalTsdb.compactColdTiers_ok applied
    refine ⟨rolled.minutes.recoded minutes, rolled.hours.recoded hours, ?_⟩
    show (store.opened.of x).unrolled = samplesOf x l.pending
    rw [opened, rolled.waiting]
  | purge plan => exact absurd rfl (kept plan)
  | reopen config =>
    cases applied
    exact ⟨rolled.minutes, rolled.hours, rfl⟩

theorem rolledUp_start (config : TsdbConfig F) : (start config).RolledUp x := by
  have none (tier : Tier) : Rolled tier ∅ x ([] : List (Sample F)) := fun k => rfl
  exact ⟨none .t1, none .t2, rfl⟩

/-- Rollups do not depend on commit boundaries: after every run of a new store whose
cap never binds, a range query of a rollup tier gives the points of one rollup of
everything committed, and the stored blocks hold those points with their sums. -/
theorem rollups_of_whole_history [ExactArithmetic F] [LawfulDeflate] (config : TsdbConfig F)
    (ops : List (Op F)) (l : Ledger F) (ran : (start config).run ops = some l)
    (kept : (start config).Along Kept ops) (slack : (start config).Along CapSlack ops)
    (x : SeriesId) (tier : Tier) :
    (∀ k, storedBlock (l.store.db tier.table) x k
      = .ok ((storedRollup (samplesOf x l.committed) (tierGeometry tier).1).filter
          fun p => tier.key p.bucket = k)) ∧
    ∀ start stop, l.store.rangeTier x tier start stop
      = .ok (((storedRollup (samplesOf x l.committed) (tierGeometry tier).1).filter
          fun p => start ≤ p.bucket ∧ p.bucket < stop).map StoredTierPoint.toPublic) := by
  have rolled : l.RolledUp x := run_inv (fun _ _ _ now meets stepped => now.step meets stepped)
    (rolledUp_start config) (kept.and slack) ran
  refine ⟨fun k => ?_, fun first last => (rolled.tier tier).readTier first last⟩
  rw [rolled.tier tier k, points_blockMap]

end Runs

/-- Four commits of one minute's and other samples, out of order, with a compaction
and a reopening between them. -/
def piecemealOps : List (Op Int64) :=
  [.append 7 ⟨100, 5⟩ false, .commit none, .append 7 ⟨40, 9⟩ true, .append 7 ⟨90, 2⟩ true,
    .commit none, .append 7 ⟨50000, 1⟩ true, .commit none, .compactColdTiers none,
    .reopen spaciousConfig, .append 7 ⟨110, 8⟩ false, .commit none]

theorem rollups_of_piecemeal : ∃ l, (start spaciousConfig).run piecemealOps = some l ∧
    l.store.rangeTier 7 .t1 0 100
      = .ok [⟨0, 9, 9, 9, 9, 1⟩, ⟨60, 2, 8, 5, 8, 3⟩] := by
  cases ran : (start spaciousConfig).run piecemealOps with
  | none => exact absurd (congrArg Option.isSome ran) (by decide +kernel)
  | some l =>
    have whole := (rollups_of_whole_history spaciousConfig piecemealOps l ran (by decide +kernel)
      (by decide +kernel) 7 .t1).2 0 100
    have points : ((start spaciousConfig).run piecemealOps).map (fun l =>
      ((storedRollup (samplesOf 7 l.committed) (tierGeometry .t1).1).filter
        fun p => (0 : Int64) ≤ p.bucket ∧ p.bucket < 100).map toPublic)
      = some [⟨0, 9, 9, 9, 9, 1⟩, ⟨60, 2, 8, 5, 8, 3⟩] := by decide +kernel
    rw [ran] at points
    exact ⟨l, rfl, whole.trans (congrArg Except.ok (Option.some.inj points))⟩

end Ledger

end OpenGate.Tsdb
