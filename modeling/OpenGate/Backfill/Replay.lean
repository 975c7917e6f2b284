import OpenGate.Backfill.Complete
import OpenGate.Backfill.Coordinator

/-!
# A paced replay

Each batch of a replay is the first batch of a fresh drain, at a clock that goes on
between batches.  At one instant the bands of the tiers are apart; over a replay they
are as long as no shipped bucket has left the band it was shipped in.
-/

namespace OpenGate.Backfill

open OpenGate.Tsdb OpenGate.Lib BackfillTier List

variable {F : Type} [Float64 F] [NegInfinity F]
  {r : Result (Option (PlannedBatch F) × BackfillDrain F)} {d : BackfillDrain F}
  {tier : BackfillTier}

/-! ## The first batch of a drain -/

theorem BackfillDrain.nextBatch_mono {n m : Nat} (le : n ≤ m) (ran : d.nextBatch n = some r) :
    d.nextBatch m = some r := by
  induction n generalizing d m with
  | zero => cases ran
  | succ n ih =>
    obtain ⟨m, rfl⟩ := Nat.exists_eq_add_of_le' (Nat.le_trans (Nat.le_add_left 1 n) le)
    unfold nextBatch at ran ⊢
    cases turned : d.turn with
    | error e =>
      rw [turned] at ran
      exact ran
    | ok t =>
      rw [turned] at ran
      cases t with
      | drained | batch b d' => exact ran
      | again d' => exact ih (by omega) ran

theorem backfillSeries_known : ∀ x ∈ backfillSeries, (seriesDimName x).isSome := by
  simp [backfillSeries, seriesDimName]

section First

variable {now : Int64} {cfg : BackfillConfig} {series : List SeriesId} {cursors : BackfillCursors}
  {c : Content F} {fuel : Nat}

/-- What `next_batch` returns is the first of all the batches. -/
theorem Drains.nextBatch_eq {bs : List (PlannedBatch F)} (drains : Drains d bs)
    (ran : d.nextBatch fuel = some r) : ∃ d', r = .ok (bs.head?, d') := by
  rcases drains.nextBatch with ⟨rfl, last, enough, ends⟩ | ⟨b, rest, last, rfl, -, enough, yields⟩
  · have both := (BackfillDrain.nextBatch_mono (Nat.le_max_left fuel enough) ran).symm.trans
      (ends _ (Nat.le_max_right fuel enough))
    cases both
    exact ⟨last, rfl⟩
  · have both := (BackfillDrain.nextBatch_mono (Nat.le_max_left fuel enough) ran).symm.trans
      (yields _ (Nat.le_max_right fuel enough))
    cases both
    exact ⟨last, rfl⟩

/-- The buckets of the batches of a tier: they lie on its grid, in its band and behind
its watermark. -/
structure Shippable (now : Int64) (cfg : BackfillConfig) (cursors : BackfillCursors)
    (tier : BackfillTier) (x : Int) : Prop where
  grid : tier.secs ∣ x
  low : tier.lo now cfg ≤ x
  old : tier ≠ .recent60s → x + tier.secs ≤ tier.hi now cfg
  ahead : tier ≠ .recent60s → ∀ k, cursors.get tier = some k → k.toInt + tier.secs ≤ x

omit [Float64 F] [NegInfinity F] in
theorem InRange.shippable (range : InRange now cfg series cursors) {t : Int}
    (read : t ∈ c.below now cfg series tier) (resumed : tier.resumeAt now cfg cursors ≤ t) :
    Shippable now cfg cursors tier (tier.bucketInt t) := by
  obtain ⟨x, -, ts, reading, ok, rfl, below⟩ := mem_below.mp read
  obtain ⟨loIs, hiIs, stepIs⟩ := range.band_toInt tier
  have slice := range.slice tier
  have wide := tier.secs_le_width cfg series
  have plain := range.toInt_bucket ok
  have span := (range.slicing c tier).span ts.toInt
  rw [← plain] at span ⊢
  -- the sum in the check does not wrap: the bucket starts below the end of the band
  have sum : (tier.bucket ts + (band now cfg tier.phase).2.2).toInt
      = (tier.bucket ts).toInt + tier.secs := by
    have low := Int64.le_toInt (tier.bucket ts)
    rw [toInt_add_of_range (by omega) (by omega), stepIs]
  have watermark : ∀ k, cursors.get tier = some k → k.toInt + tier.secs ≤ ts.toInt := by
    intro k is
    rw [resumeAt, is] at resumed
    exact (Int.le_max_left _ _).trans resumed
  cases tier with
  | recent60s =>
    refine ⟨?_, loIs ▸ Int64.le_iff_toInt_le.mp (emits_recent.mp ok).1, fun other =>
      absurd rfl other, fun other => absurd rfl other⟩
    rw [plain]
    simp only [bucketInt, source, secs]
    omega
  | rollup1m | rollup1h =>
    have aligned := c.on_grid reading (by decide)
    have both := Bool.and_eq_true_iff.mp ok
    refine ⟨?_, loIs ▸ Int64.le_iff_toInt_le.mp (of_decide_eq_true both.1), fun _ => ?_,
      fun _ => watermark⟩
    · exact Int.dvd_of_emod_eq_zero (aligned.resolve_right (by omega))
    · rw [← hiIs, ← sum]
      exact Int64.le_iff_toInt_le.mp (of_decide_eq_true both.2)

/-- The buckets of a first batch. -/
theorem InRange.nextBatch_shippable (range : InRange now cfg series cursors)
    (known : ∀ x ∈ series, (seriesDimName x).isSome) (nodup : series.Nodup) {b : PlannedBatch F}
    (ran : (BackfillDrain.new c.reader now cfg series cursors).nextBatch fuel
      = some (.ok (some b, d))) {x : Int64} (mem : x ∈ b.buckets) :
    Shippable now cfg cursors b.tier x.toInt := by
  obtain ⟨out, batches, walks, paired, drains⟩ := range.drains c
  obtain ⟨_, is⟩ := drains.nextBatch_eq ran
  have inBatches := mem_of_head? (Prod.ext_iff.mp (Except.ok.inj is)).1.symm
  obtain ⟨tier, p, shipping, batch⟩ := exists_batchAt paired inBatches
  obtain ⟨rfl, -, buckets, -⟩ := range.batchAt known nodup batch
  obtain ⟨sample, inside, rfl⟩ := mem_map.mp (mem_dedup.mp mem)
  obtain ⟨t, read, resumed, -, is⟩ := (walks b.tier).sound (range.slicing c b.tier) b.tier.secs_pos
    (b.tier.secs_le_width cfg series) _ (mem_flatMap.mpr ⟨p, shipping, buckets sample inside⟩)
  exact is ▸ range.shippable read resumed

end First

/-! ## Runs -/

/-- A replay: the clock, the watermarks, the buckets shipped so far and the batches
sent. -/
structure Replay where
  now : Int64
  cursors : BackfillCursors
  shipped : List (BackfillTier × Int64)
  sent : List (BackfillTier × Int64)

namespace Replay

omit [Float64 F] [NegInfinity F] in
def ship (s : Replay) (now : Int64) (b : PlannedBatch F) : Replay where
  now := now
  cursors := s.cursors
  shipped := s.shipped ++ b.buckets.map fun x => (b.tier, x)
  sent := (b.tier, b.cursor) :: s.sent

def ack (s : Replay) (tier : BackfillTier) (cursor : Int64) : Replay :=
  { s with cursors := s.cursors.set tier cursor }

/-- The states of a replay whose batches are all drawn at instants that `fits` allows. -/
inductive Reached (F : Type) [Float64 F] [NegInfinity F] (fits : Replay → Int64 → Prop) :
    Replay → Prop where
  | start (now : Int64) : Reached F fits ⟨now, {}, [], []⟩
  | ship {s : Replay} {now : Int64} {c : Content F} {fuel : Nat} {b : PlannedBatch F}
      {d : BackfillDrain F} : Reached F fits s → s.now ≤ now → fits s now →
      (BackfillDrain.new c.reader now {} backfillSeries s.cursors).nextBatch fuel
        = some (.ok (some b, d)) → Reached F fits (s.ship now b)
  | ack {s : Replay} {tier : BackfillTier} {cursor : Int64} : Reached F fits s →
      (tier, cursor) ∈ s.sent → Reached F fits (s.ack tier cursor)

/-- Two shipped buckets that do not overlap. -/
def Apart (p q : BackfillTier × Int64) : Prop :=
  p.2.toInt + p.1.secs ≤ q.2.toInt ∨ q.2.toInt + q.1.secs ≤ p.2.toInt

/-- No time is shipped at two resolutions. -/
def OneResolution (s : Replay) : Prop :=
  ∀ p ∈ s.shipped, ∀ q ∈ s.shipped, p.1 ≠ q.1 → Apart p q

/-- A coarser tier leaves a shipped bucket alone at an instant: the bucket is too
young for it, or behind its watermark. -/
def Spared (cursors : BackfillCursors) (now : Int64) (p : BackfillTier × Int64)
    (tier : BackfillTier) : Prop :=
  tier.hi now {} < p.2.toInt + p.1.secs ∨ ∃ k, cursors.get tier = some k ∧
    p.2.toInt < k.toInt + tier.secs

def finer : BackfillTier → BackfillTier → Prop
  | .recent60s, .rollup1m => True
  | .recent60s, .rollup1h => True
  | .rollup1m, .rollup1h => True
  | _, _ => False

/-- At this instant every shipped bucket is spared by the coarser tiers, and no sum of
a drain overflows. -/
def Settled (s : Replay) (now : Int64) : Prop :=
  InRange now {} backfillSeries s.cursors ∧
    ∀ p ∈ s.shipped, ∀ tier, finer p.1 tier → Spared s.cursors now p tier

/-- What was shipped lies on its grid, and as a rollup was old enough for it. -/
def Aged (s : Replay) : Prop :=
  ∀ p ∈ s.shipped, p.1.secs ∣ p.2.toInt ∧
    (p.1 ≠ .recent60s → p.2.toInt + p.1.secs ≤ p.1.hi s.now {})

variable {now now' : Int64} {fine coarse : BackfillTier}

theorem hi_mono (later : now ≤ now') {cfg : BackfillConfig} :
    tier.hi now cfg ≤ tier.hi now' cfg := by
  have le := Int64.le_iff_toInt_le.mp later
  cases tier <;> simp only [BackfillTier.hi] <;> omega

/-- The band of a coarser tier ends where that of a finer one starts, or before. -/
theorem hi_le_lo (is : finer fine coarse) : coarse.hi now {} ≤ fine.lo now {} := by
  have recent : (({} : BackfillConfig).recentSecs).toInt = 172800 := rfl
  have mid : (({} : BackfillConfig).midSecs).toInt = 2592000 := rfl
  cases fine <;> cases coarse <;> simp only [finer] at is <;>
    simp only [BackfillTier.hi, BackfillTier.lo, recent, mid] <;> omega

theorem finer_or (other : fine ≠ coarse) : finer fine coarse ∨ finer coarse fine := by
  cases fine <;> cases coarse <;> simp [finer] at other ⊢

theorem finer_ne_recent (is : finer fine coarse) :
    coarse ≠ .recent60s ∧ fine.secs ∣ coarse.secs := by
  cases fine <;> cases coarse <;> simp only [finer] at is <;> decide

/-- One new bucket against one shipped before it. -/
theorem apart_of_shippable (later : now ≤ now') {cursors : BackfillCursors}
    {p q : BackfillTier × Int64} (other : p.1 ≠ q.1)
    (aged : p.1.secs ∣ p.2.toInt ∧ (p.1 ≠ .recent60s → p.2.toInt + p.1.secs ≤ p.1.hi now {}))
    (spared : ∀ tier, finer p.1 tier → Spared cursors now' p tier)
    (new : Shippable now' {} cursors q.1 q.2.toInt) : Apart p q := by
  rcases finer_or other with fine | coarse
  · -- the new bucket is the coarser one
    obtain ⟨rollup, divides⟩ := finer_ne_recent fine
    have positive := p.1.secs_pos
    obtain ⟨m, gridP⟩ := aged.1
    obtain ⟨n, gridQ⟩ := divides.trans new.grid
    obtain ⟨l, gridEnd⟩ := divides.trans (new.grid.add (Int.dvd_refl q.1.secs))
    rcases spared q.1 fine with young | ⟨k, watermark, covered⟩
    · have old := new.old rollup
      right
      have lt : p.1.secs * l < p.1.secs * (m + 1) := by
        rw [← gridEnd, mul_add, ← gridP]
        omega
      have le := Int.lt_add_one_iff.mp (lt_of_mul_lt_mul_left lt positive.le)
      calc q.2.toInt + q.1.secs = p.1.secs * l := gridEnd
        _ ≤ p.1.secs * m := mul_le_mul_of_nonneg_left le positive.le
        _ = p.2.toInt := gridP.symm
    · have ahead := new.ahead rollup k watermark
      left
      have lt : p.1.secs * m < p.1.secs * n := by
        rw [← gridP, ← gridQ]
        omega
      have le := Int.add_one_le_iff.mpr (lt_of_mul_lt_mul_left lt positive.le)
      calc p.2.toInt + p.1.secs = p.1.secs * (m + 1) := by rw [gridP, mul_add, mul_one]
        _ ≤ p.1.secs * n := mul_le_mul_of_nonneg_left le positive.le
        _ = q.2.toInt := gridQ.symm
  · -- the old one is, and the bands only move on
    left
    calc p.2.toInt + p.1.secs ≤ p.1.hi now {} := aged.2 (finer_ne_recent coarse).1
      _ ≤ p.1.hi now' {} := hi_mono later
      _ ≤ q.1.lo now' {} := hi_le_lo coarse
      _ ≤ q.2.toInt := new.low

theorem Reached.invariant {s : Replay} (reached : Reached F Settled s) :
    OneResolution s ∧ Aged s := by
  induction reached with
  | start =>
    exact ⟨fun p mem => absurd mem not_mem_nil, fun p mem => absurd mem not_mem_nil⟩
  | @ship s now c fuel b d _ later settled ran ih =>
    obtain ⟨apart, aged⟩ := ih
    obtain ⟨range, spared⟩ := settled
    have new {q : BackfillTier × Int64} (mem : q ∈ b.buckets.map fun x => (b.tier, x)) :
        q.1 = b.tier ∧ Shippable now {} s.cursors q.1 q.2.toInt := by
      obtain ⟨x, inside, rfl⟩ := mem_map.mp mem
      exact ⟨rfl, range.nextBatch_shippable backfillSeries_known (by decide) ran inside⟩
    have across {p q : BackfillTier × Int64} (old : p ∈ s.shipped)
        (mem : q ∈ b.buckets.map fun x => (b.tier, x)) (other : p.1 ≠ q.1) : Apart p q :=
      apart_of_shippable later other (aged p old) (spared p old) (new mem).2
    refine ⟨fun p memP q memQ other => ?_, fun p mem => ?_⟩
    · rcases mem_append.mp memP with oldP | newP
      · rcases mem_append.mp memQ with oldQ | newQ
        · exact apart p oldP q oldQ other
        · exact across oldP newQ other
      · rcases mem_append.mp memQ with oldQ | newQ
        · exact (across oldQ newP other.symm).symm
        · exact absurd ((new newP).1.trans (new newQ).1.symm) other
    · rcases mem_append.mp mem with old | fresh
      · exact ⟨(aged p old).1, fun coarse => ((aged p old).2 coarse).trans (hi_mono later)⟩
      · exact ⟨(new fresh).2.grid, (new fresh).2.old⟩
  | ack _ _ ih => exact ih

/-- In every replay whose batches are drawn while what was shipped is spared by the
coarser tiers, no time is shipped at two resolutions. -/
theorem one_resolution {s : Replay} (reached : Reached F Settled s) : OneResolution s :=
  reached.invariant.1

/-! ## Two batches -/

omit [Float64 F] [NegInfinity F] in
def cpuBatch (tier : BackfillTier) (bucket : Int64) : PlannedBatch Int64 :=
  ⟨tier, [⟨"cpu.total", bucket, 5⟩, ⟨"cpu.total.max", bucket, 5⟩], bucket⟩

omit [Float64 F] [NegInfinity F] in
theorem exists_nextBatch (d : BackfillDrain Int64) (fuel : Nat) (b : PlannedBatch Int64)
    (first : (d.nextBatch fuel).map (Except.map Prod.fst) = some (.ok (some b))) :
    ∃ d', d.nextBatch fuel = some (.ok (some b, d')) := by
  cases ran : d.nextBatch fuel with
  | none =>
    rw [ran] at first
    cases first
  | some r =>
    rw [ran] at first
    cases r with
    | error => cases first
    | ok p =>
      obtain ⟨first', d'⟩ := p
      cases first
      exact ⟨d', rfl⟩

/-- The recent minute goes first, and an old minute after its ack. -/
theorem one_resolution_two_tiers :
    OneResolution ((((⟨8592000, {}, [], []⟩ : Replay).ship 8592000
      (cpuBatch .recent60s 8591940)).ack .recent60s 8591940).ship 8592000
        (cpuBatch .rollup1m 6000000)) := by
  obtain ⟨d, first⟩ := exists_nextBatch (BackfillDrain.new
    (oneMinute 8591980 6000000 (by decide)).reader 8592000 {} backfillSeries {}) 100
    (cpuBatch .recent60s 8591940) (by decide +kernel)
  obtain ⟨d', second⟩ := exists_nextBatch (BackfillDrain.new
    (oneMinute 8591980 6000000 (by decide)).reader 8592000 {} backfillSeries
    { recent60s := some 8591940 }) 100 (cpuBatch .rollup1m 6000000) (by decide +kernel)
  have alone : Settled ⟨8592000, {}, [], []⟩ 8592000 :=
    ⟨by decide +kernel, fun p mem => absurd mem not_mem_nil⟩
  have shipped := Reached.ship (.start 8592000) (Int64.le_refl _) alone first
  have acked := @Reached.ack _ _ _ _ _ .recent60s 8591940 shipped mem_cons_self
  refine one_resolution
    (.ship acked (Int64.le_refl _) ⟨by decide +kernel, fun p mem tier fine => ?_⟩ second)
  have is : p = (.recent60s, 8591940) := by
    simpa [Replay.ack, Replay.ship, cpuBatch, PlannedBatch.buckets] using mem
  subst is
  left
  cases tier with
  | recent60s => exact fine.elim
  | rollup1m | rollup1h => decide +kernel

/-- A month later the recent minute has become an old one, and it goes a second time. -/
theorem two_resolutions :
    ∃ s, Reached Int64 (fun _ _ => True) s ∧
      s.shipped = [(.recent60s, 8591940), (.rollup1m, 8591940)] ∧ ¬ OneResolution s := by
  obtain ⟨d, first⟩ := exists_nextBatch (BackfillDrain.new
    (oneMinute 8591980 8591940 (by decide)).reader 8592000 {} backfillSeries {}) 100
    (cpuBatch .recent60s 8591940) (by decide +kernel)
  obtain ⟨d', second⟩ := exists_nextBatch (BackfillDrain.new
    (oneMinute 8591980 8591940 (by decide)).reader 11182940 {} backfillSeries
    { recent60s := some 8591940 }) 100 (cpuBatch .rollup1m 8591940) (by decide +kernel)
  have start : Reached Int64 (fun _ _ => True) ⟨8592000, {}, [], []⟩ := .start 8592000
  have shipped := start.ship (Int64.le_refl _) trivial first
  have acked := @Reached.ack _ _ _ _ _ .recent60s 8591940 shipped mem_cons_self
  refine ⟨_, .ship acked (by decide) trivial second, by decide +kernel, fun once => ?_⟩
  have apart :=
    once (.recent60s, 8591940) (by decide +kernel) (.rollup1m, 8591940) (by decide +kernel)
    (by decide)
  revert apart
  unfold Apart
  decide

end Replay

end OpenGate.Backfill
