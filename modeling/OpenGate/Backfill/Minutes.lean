import OpenGate.Backfill.Complete

/-!
# Backfilled minutes

A minute is shipped from the samples of one slice.  Behind the first batch every
slice starts on a minute and is whole minutes long, so only the slice of the first
batch can cut a minute, and the end of the band.
-/

namespace OpenGate.Backfill

open OpenGate.Tsdb OpenGate.Lib Std BackfillTier BackfillDrain Rolled60s List Int64

variable {F : Type} [Float64 F] [NegInfinity F]

/-! ## Emitted points -/

inductive Reaches : BackfillDrain F → BackfillDrain F → Prop where
  | refl (d : BackfillDrain F) : Reaches d d
  | again {d d' d'' : BackfillDrain F} : d.turn = .ok (.again d') → Reaches d' d'' → Reaches d d''
  | batch {d d' d'' : BackfillDrain F} {b : PlannedBatch F} :
      d.turn = .ok (.batch b d') → Reaches d' d'' → Reaches d d''

def BackfillDrain.rows (d : BackfillDrain F) (tier : BackfillTier) :
    Result (List (Int64 × List (BucketReduction F))) :=
  let d := if d.posReady then d else { d with pos := d.resume tier, posReady := true }
  let (_, hi, step) := band d.now d.cfg d.phase
  d.readBuckets tier step d.pos (min (d.pos + step * d.perBatch) hi)

def Emits (d : BackfillDrain F) (tier : BackfillTier) (w : Int64) (p : BucketReduction F) : Prop :=
  ∃ d' rows cursor next, Reaches d d' ∧ d'.rows tier = .ok rows ∧
    d'.turn = .ok (.batch ⟨tier, rows.flatMap BackfillDrain.bucketSamples, cursor⟩ next) ∧
    ∃ r ∈ rows, r.1 = w ∧ p ∈ r.2

variable {d : BackfillDrain F} {w : Int64} {d' : BackfillDrain F} {tier : BackfillTier} {q : Int}
  {t : Turn F}

theorem Emits.of_turn {p : BucketReduction F} (turns : d.turn = d'.turn)
    (rows : d.rows tier = d'.rows tier) (emits : Emits d tier w p) : Emits d' tier w p := by
  obtain ⟨last, read, cursor, next, reaches, is, shipped, point⟩ := emits
  cases reaches with
  | refl => exact ⟨d', read, cursor, next, .refl d', rows ▸ is, turns ▸ shipped, point⟩
  | again turned rest =>
    exact ⟨last, read, cursor, next, .again (turns ▸ turned) rest, is, shipped, point⟩
  | batch turned rest =>
    exact ⟨last, read, cursor, next, .batch (turns ▸ turned) rest, is, shipped, point⟩

structure BackfillDrain.Keeps (d d' : BackfillDrain F) : Prop where
  reader : d'.reader = d.reader
  cfg : d'.cfg = d.cfg
  series : d'.series = d.series

/-- What a turn does: it stays in its phase or goes on to the next one, and a batch is
made of the buckets it read. -/
def Turn.Follows (d : BackfillDrain F) : Turn F → Prop
  | .drained => d.phase = .done
  | .again d' => d.Keeps d' ∧ (d'.phase = d.phase ∨ d'.phase = d.phase.next)
  | .batch b d' => d.Keeps d' ∧ d'.phase = d.phase ∧ d.phase.tier = some b.tier ∧
      ∃ rows, d.rows b.tier = .ok rows ∧ b.samples = rows.flatMap BackfillDrain.bucketSamples

theorem BackfillDrain.turnAt_follows (own : d.phase.tier = some tier) (ready : d.posReady)
    (turned : d.turnAt tier = .ok t) : t.Follows d := by
  have keeps {d' : BackfillDrain F} (reader : d'.reader = d.reader) (cfg : d'.cfg = d.cfg)
      (series : d'.series = d.series) : d.Keeps d' := ⟨reader, cfg, series⟩
  unfold turnAt at turned
  dsimp only at turned
  split at turned
  · cases turned
    exact ⟨keeps rfl rfl rfl, .inr rfl⟩
  · cases read : d.readBuckets tier (band d.now d.cfg d.phase).2.2 d.pos
        (min (d.pos + (band d.now d.cfg d.phase).2.2 * d.perBatch) (band d.now d.cfg d.phase).2.1)
        with
    | error =>
      rw [read] at turned
      cases turned
    | ok rows =>
      rw [read, ok_bind] at turned
      split at turned
      · split at turned
        · cases turned
          exact ⟨keeps rfl rfl rfl, .inr rfl⟩
        · cases turned
          exact ⟨keeps rfl rfl rfl, .inl rfl⟩
      · cases turned
        have same : d.rows tier = .ok rows := by
          unfold BackfillDrain.rows
          rw [ready]
          exact read
        exact ⟨keeps rfl rfl rfl, rfl, own, rows, same, rfl⟩

theorem BackfillDrain.turn_follows (turned : d.turn = .ok t) : t.Follows d := by
  unfold turn at turned
  split at turned
  next none =>
    cases turned
    unfold Turn.Follows
    revert none
    cases d.phase <;> simp [Phase.tier]
  next tier own =>
    split at turned
    next ready => exact turnAt_follows own ready turned
    next unready =>
      have followed : t.Follows { d with pos := d.resume tier, posReady := true } :=
        turnAt_follows own rfl turned
      cases t with
      | drained => exact followed
      | again d' => exact ⟨⟨followed.1.reader, followed.1.cfg, followed.1.series⟩, followed.2⟩
      | batch b d' =>
        obtain ⟨keeps, phase, tierIs, rows, read, samples⟩ := followed
        refine ⟨⟨keeps.reader, keeps.cfg, keeps.series⟩, phase, tierIs, rows, ?_, samples⟩
        have same : b.tier = tier := Option.some.inj (tierIs.symm.trans own)
        rw [same] at read ⊢
        unfold BackfillDrain.rows
        rw [if_neg unready]
        exact read

/-- A drain past the recent phase ships nothing recent. -/
theorem Reaches.not_recent (reaches : Reaches d d') (past : d.phase ≠ .recent) :
    d'.phase ≠ .recent := by
  induction reaches with
  | refl => exact past
  | @again d d' _ turned _ ih =>
    rcases (turn_follows turned).2 with same | next
    · exact ih (same ▸ past)
    · refine ih ?_
      rw [next]
      cases phase : d.phase with
      | recent => exact absurd phase past
      | mid | old | done => simp [Phase.next]
  | batch turned _ ih => exact ih ((turn_follows turned).2.1 ▸ past)

theorem Emits.recent {p : BucketReduction F} (emits : Emits d .recent60s w p) :
    d.phase = .recent := by
  obtain ⟨d', rows, cursor, next, reaches, -, shipped, -⟩ := emits
  by_contra past
  have own := (turn_follows shipped).2.2.1
  have later := reaches.not_recent past
  revert own later
  cases d'.phase <;> simp [Phase.tier]

section Emitted

variable {now : Int64} {cfg : BackfillConfig} {series : List SeriesId} {cursors : BackfillCursors}
  {c : Content F}

def PointAt (c : Content F) (now : Int64) (cfg : BackfillConfig) (series : List SeriesId)
    (q : Int) (w : Int64) (p : BucketReduction F) : Prop :=
  w.toInt ∈ c.found now cfg series .recent60s q ∧ p.1 ∈ series ∧
    (w, p.2) ∈ rollTo60s ((c.raw p.1).filter fun e => q ≤ e.1.ts.toInt ∧
      e.1.ts.toInt < min (q + BackfillTier.width cfg series .recent60s)
        (BackfillTier.hi now cfg .recent60s)) (seriesReduction p.1)

variable {p : BucketReduction F}

section

variable (range : InRange now cfg series cursors) {out : List Int} {pos : Int64}
include range

/-- The rows of a turn of the recent phase. -/
theorem InRange.mem_rows (inside : pos.toInt ≤ BackfillTier.hi now cfg .recent60s) {rows}
    (read : (drainAt c now cfg series cursors .recent pos true).rows .recent60s = .ok rows) :
    (∃ r ∈ rows, r.1 = w ∧ p ∈ r.2) ↔ PointAt c now cfg series pos.toInt w p := by
  have ends := range.toInt_readEnd .recent60s inside
  obtain ⟨rows', read', keys, entries⟩ := range.readBuckets c .recent60s pos
    (show (readEnd now cfg series .recent60s pos).toInt ≤ _ by omega) pos true
  cases read'.symm.trans read
  rw [ends] at keys
  have samples : ((c.raw p.1).filter fun e => pos ≤ e.1.ts ∧
        e.1.ts < readEnd now cfg series .recent60s pos)
      = (c.raw p.1).filter fun e => pos.toInt ≤ e.1.ts.toInt ∧
          e.1.ts.toInt < min (pos.toInt + BackfillTier.width cfg series .recent60s)
            (BackfillTier.hi now cfg .recent60s) := by
    refine filter_congr fun e _ => ?_
    simp only [le_iff_toInt_le, lt_iff_toInt_lt, ends]
  have entry (r : Int64 × List (BucketReduction F)) (mem : r ∈ rows) :
      p ∈ r.2 ↔ p.1 ∈ series ∧ (r.1, p.2) ∈ rollTo60s ((c.raw p.1).filter fun e =>
        pos.toInt ≤ e.1.ts.toInt ∧
          e.1.ts.toInt < min (pos.toInt + BackfillTier.width cfg series .recent60s)
            (BackfillTier.hi now cfg .recent60s)) (seriesReduction p.1) := by
    rw [(entries r mem).2.2 p, ← samples]
    refine and_congr_right fun _ => ⟨?_, fun point => ⟨_, rfl, point⟩⟩
    rintro ⟨points, is, point⟩
    cases is
    exact point
  constructor
  · rintro ⟨r, mem, rfl, point⟩
    refine ⟨?_, (entry r mem).mp point⟩
    rw [Content.found, sliceAt, ← keys]
    exact mem_map.mpr ⟨r, mem, rfl⟩
  · rintro ⟨found, point⟩
    rw [Content.found, sliceAt, ← keys] at found
    obtain ⟨r, mem, is⟩ := mem_map.mp found
    have is := toInt_inj.mp is
    exact ⟨r, mem, is, (entry r mem).mpr (is ▸ point)⟩

/-- A walk over the recent readings emits the points found where it ships. -/
theorem InRange.emits_walk_iff (walk : SliceWalk 60 (BackfillTier.width cfg series .recent60s)
      (BackfillTier.hi now cfg .recent60s) (c.slice now cfg series .recent60s) q out)
    (at_ : pos.toInt = q) :
    Emits (drainAt c now cfg series cursors .recent pos true) .recent60s w p
      ↔ ∃ q' ∈ out, PointAt c now cfg series q' w p := by
  -- a turn without a batch emits what the next drain does
  have again {d d' : BackfillDrain F} (turned : d.turn = .ok (.again d')) :
      Emits d .recent60s w p ↔ Emits d' .recent60s w p := by
    constructor
    · rintro ⟨last, rows, cursor, next, reaches, is, shipped, point⟩
      cases reaches with
      | refl =>
        rw [turned] at shipped
        cases shipped
      | again turned' rest =>
        rw [turned] at turned'
        cases turned'
        exact ⟨last, rows, cursor, next, rest, is, shipped, point⟩
      | batch turned' rest =>
        rw [turned] at turned'
        cases turned'
    · rintro ⟨last, rows, cursor, next, reaches, rest⟩
      exact ⟨last, rows, cursor, next, .again turned reaches, rest⟩
  have past {pos : Int64} (turned : (drainAt c now cfg series cursors .recent pos true).turn
      = .ok (.again (drainAt c now cfg series cursors .mid pos false))) :
      Emits (drainAt c now cfg series cursors .recent pos true) .recent60s w p
        ↔ ∃ q' ∈ [], PointAt c now cfg series q' w p := by
    rw [again turned]
    refine iff_of_false (fun emits => ?_) (by simp)
    cases emits.recent
  induction walk generalizing pos with
  | past above =>
    subst at_
    exact past (range.turn_past above)
  | last inside short none =>
    subst at_
    exact past ((range.turn_empty inside none).1 short)
  | skip room none _ ih =>
    subst at_
    have positive := secs_pos .recent60s
    have wide := secs_le_width cfg series .recent60s
    have inside : pos.toInt ≤ BackfillTier.hi now cfg .recent60s := by omega
    obtain ⟨pos', next, turned⟩ := (range.turn_empty inside none).2 room
    exact (again turned).trans (ih next)
  | @ship _ out inside some _ ih =>
    subst at_
    obtain ⟨pos', b, next, ⟨pos₂, stop, rows, newest, at_, ends, read, last, rfl⟩, turned⟩ :=
      range.turn_ship inside some
    have ends' := range.toInt_readEnd .recent60s inside
    cases toInt_inj.mp at_
    cases toInt_inj.mp (ends.trans ends'.symm)
    have here := range.mem_rows inside read (w := w) (p := p)
    constructor
    · rintro ⟨d', rows', cursor, next', reaches, is, shipped, point⟩
      cases reaches with
      | refl =>
        have same : rows' = rows := by
          have both := is.symm.trans read
          cases both
          rfl
        subst same
        exact ⟨_, mem_cons_self, here.mp point⟩
      | again turned' =>
        rw [show (drainAt c now cfg series cursors .recent pos true).turn = _ from turned]
          at turned'
        cases turned'
      | batch turned' rest =>
        rw [show (drainAt c now cfg series cursors .recent pos true).turn = _ from turned]
          at turned'
        cases turned'
        obtain ⟨q', mem, later⟩ := (ih next).mp ⟨d', rows', cursor, next', rest, is, shipped, point⟩
        exact ⟨q', .tail _ mem, later⟩
    · rintro ⟨q', mem, found⟩
      rcases mem_cons.mp mem with rfl | later
      · exact ⟨_, rows, newest.1, _, .refl _, read, turned, here.mpr found⟩
      · obtain ⟨d', rows', cursor, next', reaches, rest⟩ := (ih next).mpr ⟨q', later, found⟩
        exact ⟨d', rows', cursor, next', .batch turned reaches, rest⟩

/-- A drain emits the recent points found where its walk ships. -/
theorem InRange.emits_recent_iff (walk : SliceWalk 60 (BackfillTier.width cfg series .recent60s)
      (BackfillTier.hi now cfg .recent60s) (c.slice now cfg series .recent60s)
      (resumeAt now cfg cursors .recent60s) out) :
    Emits (BackfillDrain.new c.reader now cfg series cursors) .recent60s w p
      ↔ ∃ q ∈ out, PointAt c now cfg series q w p := by
  rw [← range.emits_walk_iff walk (range.toInt_resume c .recent60s 0)]
  have turns : (drainAt c now cfg series cursors BackfillTier.recent60s.phase 0 false).turn = _ :=
    turn_unready
  have rows : (BackfillDrain.new c.reader now cfg series cursors).rows .recent60s
      = (drainAt c now cfg series cursors .recent ((drainAt c now cfg series cursors .recent 0
          false).resume .recent60s) true).rows .recent60s := rfl
  exact ⟨.of_turn turns rows, .of_turn turns.symm rows.symm⟩

end

end Emitted

/-! ## Whole minutes -/

def Content.minute (c : Content F) (x : SeriesId) (w : Int64) : List (Sample F × Bool) :=
  (c.raw x).filter fun e => w ≤ e.1.ts ∧ e.1.ts < w + 60

def Whole (c : Content F) (w : Int64) (p : BucketReduction F) : Prop :=
  (w, p.2) ∈ rollTo60s (c.minute p.1 w) (seriesReduction p.1)

/-- No minute that the drain emits for a series has a reading behind the end of the recent band. -/
def NotAcrossEnd (c : Content F) (now : Int64) (cfg : BackfillConfig) (series : List SeriesId)
    (cursors : BackfillCursors) : Prop :=
  ∀ w p, Emits (BackfillDrain.new c.reader now cfg series cursors) .recent60s w p →
    ∀ u ∈ c.readings .recent60s p.1, 60 * (u.toInt / 60) = w.toInt →
      u.toInt < BackfillTier.hi now cfg .recent60s

/-- The first slice with a sample cuts no minute it ships. -/
def Uncut (c : Content F) (now : Int64) (cfg : BackfillConfig) (series : List SeriesId)
    (cursors : BackfillCursors) : Prop :=
  ∀ q, FirstSlice 60 (BackfillTier.width cfg series .recent60s) (BackfillTier.hi now cfg .recent60s)
      (· ∈ c.below now cfg series .recent60s) (BackfillTier.resumeAt now cfg cursors .recent60s) q →
    ∀ x ∈ series, ∀ t ∈ c.readings .recent60s x, ∀ u ∈ c.readings .recent60s x,
      t.toInt / 60 = u.toInt / 60 → 60 * (t.toInt / 60) ∈ c.found now cfg series .recent60s q →
      q ≤ t.toInt → t.toInt < min (q + BackfillTier.width cfg series .recent60s)
        (BackfillTier.hi now cfg .recent60s) →
      q ≤ u.toInt ∧ u.toInt < q + BackfillTier.width cfg series .recent60s

/-- Two values that a maximum tells apart. -/
structure Apart (a b : F) : Prop where
  ne : a ≠ b
  first_a : Float64.max NegInfinity.negInfinity a = a
  first_b : Float64.max NegInfinity.negInfinity b = b
  aa : Float64.max a a = a
  ab : Float64.max a b = b
  ba : Float64.max b a = b
  bb : Float64.max b b = b

section Whole

variable {now : Int64} {cfg : BackfillConfig} {series : List SeriesId} {cursors : BackfillCursors}
  {c : Content F} {p : BucketReduction F}

omit [Float64 F] [NegInfinity F] in
/-- A drain that resumes on a minute cuts none. -/
theorem uncut_of_aligned (aligned : (60 : Int) ∣ resumeAt now cfg cursors .recent60s) :
    Uncut c now cfg series cursors := by
  intro q first x inSeries t readT u readU same found low high
  obtain ⟨k, turn⟩ := first.turn
  have width : BackfillTier.width cfg series .recent60s = 60 * bucketsPerBatch cfg series := rfl
  have start : (60 : Int) ∣ q := by
    rw [turn, width]
    exact aligned.add (Dvd.dvd.mul_left ((Int.dvd_mul_right 60 _).add (Int.dvd_refl 60)) _)
  omega

omit [Float64 F] [NegInfinity F] in
/-- A window found in a slice is a minute, with room behind it. -/
theorem InRange.found_minute (range : InRange now cfg series cursors) {b : Int}
    (found : b ∈ c.found now cfg series .recent60s q) :
    (60 : Int) ∣ b ∧ -2 ^ 63 ≤ b ∧ b + 60 < 2 ^ 63 := by
  obtain ⟨t, read, -, high, rfl⟩ := (range.slicing c .recent60s).sound found
  obtain ⟨x, -, ts, -, ok, rfl, -⟩ := mem_below.mp read
  have low := le_toInt (bucket .recent60s ts)
  rw [range.toInt_bucket ok] at low
  have slice := range.slice .recent60s
  have wide := secs_le_width cfg series .recent60s
  simp only [bucketInt, source, secs] at low wide ⊢
  omega

/-- A timestamp's window, when it does not wrap. -/
theorem toInt_of_windowStart60s {ts : Int64} (is : windowStart60s ts = w)
    (room : w.toInt + 60 < 2 ^ 63) : w.toInt = 60 * (ts.toInt / 60) := by
  rcases toInt_windowStart60s with plain | wrapped
  · rw [is] at plain
    omega
  · rw [is] at wrapped
    omega

/-- A point found in a slice is of the whole minute when the slice holds all of it. -/
theorem InRange.whole_of_slice (range : InRange now cfg series cursors)
    (point : PointAt c now cfg series q w p)
    (all : ∀ t ∈ c.readings .recent60s p.1, ∀ u ∈ c.readings .recent60s p.1,
      t.toInt / 60 = u.toInt / 60 → 60 * (t.toInt / 60) = w.toInt → q ≤ t.toInt →
      t.toInt < min (q + BackfillTier.width cfg series .recent60s)
        (BackfillTier.hi now cfg .recent60s) →
      q ≤ u.toInt ∧ u.toInt < min (q + BackfillTier.width cfg series .recent60s)
        (BackfillTier.hi now cfg .recent60s)) : Whole c w p := by
  obtain ⟨found, -, mem⟩ := point
  obtain ⟨-, low, room⟩ := range.found_minute found
  have finish : (w + 60).toInt = w.toInt + 60 :=
    toInt_add_of_range (b := 60) (show -2 ^ 63 ≤ w.toInt + 60 by omega) room
  obtain ⟨some, -, -⟩ := mem_rollTo60s.mp mem
  obtain ⟨e, own⟩ := exists_mem_of_ne_nil _ some
  rw [mem_filter, mem_filter, decide_eq_true_eq, decide_eq_true_eq] at own
  have windowOf := toInt_of_windowStart60s own.2 room
  -- the samples of the window are the same, taken from the slice or from the minute
  have same : ((c.raw p.1).filter fun e => q ≤ e.1.ts.toInt ∧
        e.1.ts.toInt < min (q + BackfillTier.width cfg series .recent60s)
          (BackfillTier.hi now cfg .recent60s)).filter (fun e => windowStart60s e.1.ts = w)
      = (c.minute p.1 w).filter fun e => windowStart60s e.1.ts = w := by
    rw [Content.minute, filter_filter, filter_filter]
    refine filter_congr fun f stored => ?_
    by_cases here : windowStart60s f.1.ts = w
    · have windowF := toInt_of_windowStart60s here room
      have within := all e.1.ts (mem_map.mpr ⟨e, own.1.1, rfl⟩) f.1.ts
        (mem_map.mpr ⟨f, stored, rfl⟩) (by omega) (by omega) own.1.2.1 own.1.2.2
      have inMinute : w ≤ f.1.ts ∧ f.1.ts < w + 60 := by
        rw [le_iff_toInt_le, lt_iff_toInt_lt, finish]
        omega
      rw [decide_eq_true within, decide_eq_true inMinute]
    · rw [decide_eq_false here, Bool.false_and, Bool.false_and]
  rw [mem_rollTo60s, same] at mem
  exact mem_rollTo60s.mpr mem

/-! ### The maximum of a cut minute -/

omit [NegInfinity F] in
theorem max_roll (own : List (Sample F × Bool)) (e : Rolled60s F) :
    (roll own e).max = (own.map fun s => s.1.value).foldl Float64.max e.max := by
  induction own generalizing e with
  | nil => rfl
  | cons s own ih =>
    rw [roll, foldl_cons]
    exact ih (e.add s.1)

variable {l : List F}

section

variable {a : F} {b : F} (apart : Apart a b)
include apart

theorem Apart.foldl_max_b (only : ∀ v ∈ l, v = a ∨ v = b) : l.foldl Float64.max b = b := by
  induction l with
  | nil => rfl
  | cons v l ih =>
    rw [forall_mem_cons] at only
    rw [foldl_cons]
    rcases only.1 with rfl | rfl
    · rw [apart.ba]
      exact ih only.2
    · rw [apart.bb]
      exact ih only.2

theorem Apart.foldl_max_a (only : ∀ v ∈ l, v = a) : l.foldl Float64.max a = a := by
  induction l with
  | nil => rfl
  | cons v l ih =>
    rw [forall_mem_cons] at only
    rw [foldl_cons, only.1, apart.aa]
    exact ih only.2

/-- Values that are all the lower one have it as their maximum. -/
theorem Apart.max_low (some : l ≠ []) (only : ∀ v ∈ l, v = a) :
    l.foldl Float64.max NegInfinity.negInfinity = a := by
  cases l with
  | nil => exact absurd rfl some
  | cons v l =>
    rw [forall_mem_cons] at only
    rw [foldl_cons, only.1, apart.first_a]
    exact apart.foldl_max_a only.2

theorem Apart.foldl_max_either (only : ∀ v ∈ l, v = a ∨ v = b) :
    l.foldl Float64.max a = a ∨ l.foldl Float64.max a = b := by
  induction l with
  | nil => exact .inl rfl
  | cons v l ih =>
    rw [forall_mem_cons] at only
    rw [foldl_cons]
    rcases only.1 with rfl | rfl
    · rw [apart.aa]
      exact ih only.2
    · rw [apart.ab]
      exact .inr (apart.foldl_max_b only.2)

/-- One of the upper makes it the maximum. -/
theorem Apart.max_high (only : ∀ v ∈ l, v = a ∨ v = b) (high : b ∈ l) :
    l.foldl Float64.max NegInfinity.negInfinity = b := by
  obtain ⟨before, after, rfl⟩ := append_of_mem high
  have onlyBefore : ∀ v ∈ before, v = a ∨ v = b := fun v mem => only v (mem_append_left _ mem)
  have upTo : Float64.max (before.foldl Float64.max NegInfinity.negInfinity) b = b := by
    cases before with
    | nil => exact apart.first_b
    | cons v before =>
      rw [forall_mem_cons] at onlyBefore
      rw [foldl_cons]
      rcases onlyBefore.1 with rfl | rfl
      · rw [apart.first_a]
        rcases apart.foldl_max_either onlyBefore.2 with is | is
        · rw [is, apart.ab]
        · rw [is, apart.bb]
      · rw [apart.first_b, apart.foldl_max_b onlyBefore.2, apart.bb]
  rw [foldl_append, foldl_cons, upTo]
  exact apart.foldl_max_b fun v mem => only v (mem_append_right _ (.tail _ mem))

end

omit [Float64 F] [NegInfinity F] in
def Content.recolour (c : Content F) (value : Sample F → F) : Content F where
  raw x := (c.raw x).map fun e => (⟨e.1.ts, value e.1⟩, e.2)
  points := c.points
  sorted x := pairwise_map.mpr (c.sorted x)
  ascending := c.ascending
  aligned := c.aligned

section Recoloured

omit [Float64 F] [NegInfinity F]

variable {c' : Content F} (same : c'.readings .recent60s = c.readings .recent60s)

include same

theorem below_congr : c'.below now cfg series .recent60s = c.below now cfg series .recent60s := by
  simp only [Content.below, Content.eligible, same]

theorem found_congr :
    c'.found now cfg series .recent60s q = c.found now cfg series .recent60s q := by
  simp only [Content.found, Content.slice, below_congr same]

theorem Uncut.congr (uncut : Uncut c now cfg series cursors) : Uncut c' now cfg series cursors := by
  unfold Uncut
  simp only [below_congr same, found_congr same, same]
  exact uncut

theorem slice_congr :
    c'.slice now cfg series .recent60s = c.slice now cfg series .recent60s := by
  simp only [Content.slice, below_congr same]

end Recoloured

/-- Whether a minute of a series is found in a slice depends on the timestamps alone. -/
theorem exists_pointAt_iff {x : SeriesId} : (∃ v, PointAt c now cfg series q w (x, v)) ↔
    w.toInt ∈ c.found now cfg series .recent60s q ∧ x ∈ series ∧ ∃ t ∈ c.readings .recent60s x,
      (q ≤ t.toInt ∧ t.toInt < min (q + BackfillTier.width cfg series .recent60s)
        (BackfillTier.hi now cfg .recent60s)) ∧ windowStart60s t = w := by
  simp only [PointAt]
  constructor
  · rintro ⟨v, found, inSeries, point⟩
    obtain ⟨e, own⟩ := exists_mem_of_ne_nil _ (mem_rollTo60s.mp point).1
    rw [mem_filter, mem_filter, decide_eq_true_eq, decide_eq_true_eq] at own
    exact ⟨found, inSeries, e.1.ts, mem_map.mpr ⟨e, own.1.1, rfl⟩, own.1.2, own.2⟩
  · rintro ⟨found, inSeries, t, read, inSlice, window⟩
    obtain ⟨e, stored, rfl⟩ := mem_map.mp read
    have some : ((c.raw x).filter fun e => q ≤ e.1.ts.toInt ∧
        e.1.ts.toInt < min (q + BackfillTier.width cfg series .recent60s)
          (BackfillTier.hi now cfg .recent60s)).filter (fun e => windowStart60s e.1.ts = w) ≠ [] :=
      ne_nil_of_mem (mem_filter.mpr ⟨mem_filter.mpr ⟨stored, decide_eq_true inSlice⟩,
        decide_eq_true window⟩)
    exact ⟨_, found, inSeries, mem_rollTo60s.mpr ⟨some, rfl, rfl⟩⟩

omit [Float64 F] [NegInfinity F] in
/-- The walk over the recent readings. -/
theorem InRange.exists_walk (range : InRange now cfg series cursors) (c : Content F) :
    ∃ out, SliceWalk 60 (BackfillTier.width cfg series .recent60s)
      (BackfillTier.hi now cfg .recent60s) (c.slice now cfg series .recent60s)
      (resumeAt now cfg cursors .recent60s) out :=
  exists_sliceWalk (BackfillTier.hi now cfg .recent60s) (range.slicing c .recent60s)
    (secs_pos .recent60s) (secs_le_width cfg series .recent60s) _

theorem InRange.notAcrossEnd_congr (range : InRange now cfg series cursors) {c' : Content F}
    (same : c'.readings .recent60s = c.readings .recent60s)
    (notAcross : NotAcrossEnd c now cfg series cursors) :
    NotAcrossEnd c' now cfg series cursors := by
  intro w p emits
  obtain ⟨out, walk⟩ := range.exists_walk c'
  obtain ⟨q, mem, point⟩ := (range.emits_recent_iff walk).mp emits
  rw [slice_congr same] at walk
  have found := exists_pointAt_iff.mp ⟨p.2, point⟩
  rw [found_congr same, same] at found
  obtain ⟨v, point⟩ := exists_pointAt_iff.mpr found
  rw [same]
  exact notAcross w (p.1, v) ((range.emits_recent_iff walk).mpr ⟨q, mem, point⟩)

/-- Where the first slice cuts no minute, every recent point is of its whole minute. -/
theorem InRange.whole_of_uncut (range : InRange now cfg series cursors)
    (notAcross : NotAcrossEnd c now cfg series cursors) (uncut : Uncut c now cfg series cursors)
    (emitted : Emits (BackfillDrain.new c.reader now cfg series cursors) .recent60s w p) :
    Whole c w p := by
  have slicing := range.slicing c .recent60s
  have positive := secs_pos .recent60s
  have wide := secs_le_width cfg series .recent60s
  obtain ⟨out, walk⟩ := range.exists_walk c
  obtain ⟨q, mem, point⟩ := (range.emits_recent_iff walk).mp emitted
  have even : (60 : Int) ∣ BackfillTier.width cfg series .recent60s := Int.dvd_mul_right 60 _
  refine range.whole_of_slice point fun t readT u readU sameMinute is low high => ?_
  have below := notAcross w p emitted u readU (sameMinute ▸ is)
  have inSlice : q ≤ u.toInt ∧ u.toInt < q + BackfillTier.width cfg series .recent60s := by
    rcases walk.first_or_aligned slicing positive wide (fun _ => range.dvd_bucketInt) even mem
      with first | start
    · exact uncut q first p.1 point.2.1 t readT u readU sameMinute (is ▸ point.1) low high
    · rw [secs] at start
      omega
  omega

/-- A slice that cuts a minute ships its maximum from the samples it holds. -/
theorem InRange.cut_of_slice (range : InRange now cfg series cursors) {a b : F} (apart : Apart a b)
    {out : List Int} (walk : SliceWalk 60 (BackfillTier.width cfg series .recent60s)
      (BackfillTier.hi now cfg .recent60s) (c.slice now cfg series .recent60s)
      (resumeAt now cfg cursors .recent60s) out) (mem : q ∈ out)
    {x : SeriesId} (inSeries : x ∈ series) {t u : Int64}
    (readT : t ∈ c.readings .recent60s x) (readU : u ∈ c.readings .recent60s x)
    (sameMinute : t.toInt / 60 = u.toInt / 60)
    (found : 60 * (t.toInt / 60) ∈ c.found now cfg series .recent60s q) (low : q ≤ t.toInt)
    (high : t.toInt < min (q + BackfillTier.width cfg series .recent60s)
      (BackfillTier.hi now cfg .recent60s))
    (outside : ¬ (q ≤ u.toInt ∧ u.toInt < min (q + BackfillTier.width cfg series .recent60s)
      (BackfillTier.hi now cfg .recent60s))) :
    ∃ c' : Content F, c'.readings .recent60s = c.readings .recent60s ∧ ∃ w p,
      Emits (BackfillDrain.new c'.reader now cfg series cursors) .recent60s w p ∧
      ¬ Whole c' w p := by
  let inSlice (s : Int64) : Prop := q ≤ s.toInt ∧
    s.toInt < min (q + BackfillTier.width cfg series .recent60s)
    (BackfillTier.hi now cfg .recent60s)
  let c' := c.recolour fun s => if inSlice s.ts then a else b
  have same : c'.readings .recent60s = c.readings .recent60s := by
    funext y
    exact map_map
  -- one value in the slice, another outside
  have coloured {y : SeriesId} {e : Sample F × Bool} (stored : e ∈ c'.raw y) :
      e.1.value = if inSlice e.1.ts then a else b := by
    obtain ⟨e', -, rfl⟩ := mem_map.mp stored
    rfl
  obtain ⟨-, least, room⟩ := range.found_minute found
  have start : (windowStart60s t).toInt = 60 * (t.toInt / 60) := by
    rw [toInt_windowStart60s_of_le (by omega)]
    omega
  have startU : windowStart60s u = windowStart60s t := by
    rw [← toInt_inj, start, toInt_windowStart60s_of_le (by omega)]
    omega
  have finish : (windowStart60s t + 60).toInt = 60 * (t.toInt / 60) + 60 := by
    rw [toInt_add_of_range (b := 60) (show -2 ^ 63 ≤ (windowStart60s t).toInt + 60 by omega)
      (show (windowStart60s t).toInt + 60 < 2 ^ 63 by omega), start]
    rfl
  let own := ((c'.raw x).filter fun e => inSlice e.1.ts).filter fun e =>
    windowStart60s e.1.ts = windowStart60s t
  have someOwn : own ≠ [] := by
    obtain ⟨e, stored, is⟩ := mem_map.mp (same ▸ readT : t ∈ c'.readings .recent60s x)
    refine ne_nil_of_mem (mem_filter.mpr ⟨mem_filter.mpr ⟨stored, ?_⟩, ?_⟩)
    · rw [is]
      exact decide_eq_true ⟨low, high⟩
    · rw [is]
      exact decide_eq_true rfl
  refine ⟨c', same, windowStart60s t, (x, (roll own .fresh).value (seriesReduction x),
    (roll own .fresh).max), ?_, fun whole => ?_⟩
  · rw [← slice_congr same] at walk
    refine (range.emits_recent_iff walk).mpr ⟨q, mem, ?_, inSeries, ?_⟩
    · rw [found_congr same, start]
      exact found
    · exact mem_rollTo60s.mpr ⟨someOwn, rfl, rfl⟩
  · obtain ⟨-, -, maxima⟩ := mem_rollTo60s.mp whole
    have lower : (roll own .fresh).max = a := by
      rw [max_roll]
      refine apart.max_low (by simpa using someOwn) fun v mem => ?_
      obtain ⟨e, inOwn, rfl⟩ := mem_map.mp mem
      obtain ⟨stored, inside⟩ := mem_filter.mp (mem_filter.mp inOwn).1
      rw [coloured stored, if_pos (of_decide_eq_true inside)]
    have upper : (roll ((c'.minute x (windowStart60s t)).filter fun e =>
        windowStart60s e.1.ts = windowStart60s t) .fresh).max = b := by
      rw [max_roll]
      refine apart.max_high (fun v mem => ?_) ?_
      · obtain ⟨e, inOwn, rfl⟩ := mem_map.mp mem
        rw [coloured (mem_filter.mp (mem_filter.mp inOwn).1).1]
        split
        · exact .inl rfl
        · exact .inr rfl
      · obtain ⟨e, stored, is⟩ := mem_map.mp (same ▸ readU : u ∈ c'.readings .recent60s x)
        have value := coloured stored
        rw [is, if_neg outside] at value
        refine mem_map.mpr ⟨e, mem_filter.mpr ⟨mem_filter.mpr ⟨stored, ?_⟩, ?_⟩, value⟩
        · rw [is]
          refine decide_eq_true ⟨?_, ?_⟩
          · rw [le_iff_toInt_le]
            omega
          · rw [lt_iff_toInt_lt]
            omega
        · rw [is]
          exact decide_eq_true startU
    exact apart.ne (lower.symm.trans (maxima.symm.trans upper))

/-- Every recent point is of its whole minute, for all stores with the same
timestamps, exactly when the first slice and the end of the band cut no minute. -/
theorem recent_minutes_whole_iff {a b : F} (apart : Apart a b) (c : Content F) (now : Int64)
    (cfg : BackfillConfig) (series : List SeriesId) (cursors : BackfillCursors)
    (range : InRange now cfg series cursors) :
    (∀ c' : Content F, c'.readings .recent60s = c.readings .recent60s → ∀ w p,
        Emits (BackfillDrain.new c'.reader now cfg series cursors) .recent60s w p → Whole c' w p)
      ↔ Uncut c now cfg series cursors ∧ NotAcrossEnd c now cfg series cursors := by
  constructor
  · intro whole
    obtain ⟨out, walk⟩ := range.exists_walk c
    constructor
    · intro q first x inSeries t readT u readU sameMinute found low high
      by_contra outside
      have mem := mem_of_head? ((walk.head_iff (range.slicing c .recent60s) (secs_pos .recent60s)
        (secs_le_width cfg series .recent60s)).mpr first)
      obtain ⟨c', same, w, p, emitted, cut⟩ := range.cut_of_slice apart walk mem inSeries readT
        readU sameMinute found low high (by omega)
      exact cut (whole c' same w p emitted)
    · intro w p emits u readU minute
      by_contra behind
      obtain ⟨q, mem, point⟩ := (range.emits_recent_iff walk).mp emits
      obtain ⟨found, inSeries, t, readT, ⟨low, high⟩, window⟩ := exists_pointAt_iff.mp ⟨p.2, point⟩
      have start := toInt_of_windowStart60s window (range.found_minute found).2.2
      obtain ⟨c', same, w', p', emitted, cut⟩ := range.cut_of_slice apart walk mem inSeries readT
        readU (by omega) (start ▸ found) low high (by omega)
      exact cut (whole c' same w' p' emitted)
  · rintro ⟨uncut, notAcross⟩ c' same w p emitted
    exact range.whole_of_uncut (range.notAcrossEnd_congr same notAcross) (uncut.congr same) emitted

end Whole

def twoSamples : Content Int64 :=
  oneSeries [(⟨6030020, 10⟩, false), (⟨6030040, 20⟩, false)] (fun _ => []) (by decide)
    (fun _ => List.Pairwise.nil) (fun _ p mem => absurd mem not_mem_nil)

/-- The drain starts at 6000060, on a minute. -/
theorem recent_minutes_whole_aligned :
    (BackfillDrain.new twoSamples.reader 6172860 {} [0] {}).drainAll 100
        = some (.ok
          [⟨.recent60s, [⟨"cpu.total", 6030000, 15⟩, ⟨"cpu.total.max", 6030000, 20⟩], 6030000⟩]) ∧
      ∀ w p, Emits (BackfillDrain.new twoSamples.reader 6172860 {} [0] {}) .recent60s w p →
        Whole twoSamples w p := by
  have apart : Apart (0 : Int64) 1 := by
    constructor <;> decide
  have notAcross : NotAcrossEnd twoSamples 6172860 {} [0] {} := by
    intro w p _ u readU _
    have cases : u = 6030020 ∨ u = 6030040 := by
      by_cases own : p.1 = 0
      · simpa [Content.readings, source, twoSamples, oneSeries, own] using readU
      · simp [Content.readings, source, twoSamples, oneSeries, own] at readU
    rcases cases with rfl | rfl <;> decide +kernel
  exact ⟨by decide +kernel, (recent_minutes_whole_iff apart twoSamples 6172860 {} [0] {}
    (by decide +kernel)).mpr ⟨uncut_of_aligned (by decide +kernel), notAcross⟩ twoSamples rfl⟩

/-- Half a minute before it starts at 6000030, and its first slice ends between the two
samples: the minute is shipped from one of them. -/
theorem recent_minute_cut :
    (BackfillDrain.new twoSamples.reader 6172830 {} [0] {}).drainAll 100
        = some (.ok
          [⟨.recent60s, [⟨"cpu.total", 6030000, 10⟩, ⟨"cpu.total.max", 6030000, 10⟩], 6030000⟩]) ∧
      rollTo60s (twoSamples.minute 0 6030000) (seriesReduction 0) = [(6030000, 15, 20)] := by
  decide +kernel

end OpenGate.Backfill
