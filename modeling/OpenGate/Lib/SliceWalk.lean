import Mathlib

/-!
# Walking readings slice by slice

Readings lie on the integers, each in a bucket of `step`.  A walk reads half-open
slices of length `width` from a position up to `hi` and ships the buckets it finds
(at most so many of them), going on behind the last one; after an empty slice it
goes on `step` behind the slice's end.  So an empty slice leaves a gap of `step`
unread, and a bucket is shipped exactly when one of its readings is not in a gap
counted from the bucket shipped before it (`SliceWalk.complete_iff`).
-/

namespace OpenGate.Lib

open List Int

/-- What a slice gives of the readings `reads`: the buckets in it, ascending, and if
not all of them then the first ones. -/
structure Slicing (step : Int) (reads : Int → Prop) (bucket : Int → Int)
    (slice : Int → Int → List Int) : Prop where
  span (t : Int) : bucket t ≤ t ∧ t < bucket t + step
  grid {t u : Int} : reads t → reads u → bucket t < bucket u → bucket t + step ≤ bucket u
  ascending (a b : Int) : (slice a b).Pairwise (· < ·)
  sound {a b x : Int} : x ∈ slice a b → ∃ t, reads t ∧ a ≤ t ∧ t < b ∧ bucket t = x
  full {a b t : Int} : reads t → a ≤ t → t < b →
    bucket t ∈ slice a b ∨ (slice a b ≠ [] ∧ ∀ x ∈ slice a b, x < bucket t)

def sliceAt (width hi : Int) (slice : Int → Int → List Int) (pos : Int) : List Int :=
  slice pos (min (pos + width) hi)

/-- The positions at which a walk finds something. -/
inductive SliceWalk (step width hi : Int) (slice : Int → Int → List Int) :
    Int → List Int → Prop where
  | past {pos : Int} : hi < pos → SliceWalk step width hi slice pos []
  | last {pos : Int} : pos ≤ hi → hi ≤ pos + width → sliceAt width hi slice pos = [] →
      SliceWalk step width hi slice pos []
  | skip {pos : Int} {out : List Int} : pos + width < hi → sliceAt width hi slice pos = [] →
      SliceWalk step width hi slice (pos + width + step) out → SliceWalk step width hi slice pos out
  | ship {pos : Int} {out : List Int} : pos ≤ hi → (some : sliceAt width hi slice pos ≠ []) →
      SliceWalk step width hi slice ((sliceAt width hi slice pos).getLast some + step) out →
      SliceWalk step width hi slice pos (pos :: out)

def shipped (width hi : Int) (slice : Int → Int → List Int) (out : List Int) : List Int :=
  out.flatMap (sliceAt width hi slice)

/-- A reading of a bucket below `hi` that is in no gap counted from `pos`. -/
def Readable (step width hi : Int) (reads : Int → Prop) (bucket : Int → Int) (pos b : Int) : Prop :=
  ∃ t, reads t ∧ bucket t = b ∧ pos ≤ t ∧ t < hi ∧ (t - pos) % (width + step) < width

/-- Each bucket has such a reading, counted from the end of the bucket before it. -/
def Ungapped (step width hi : Int) (reads : Int → Prop) (bucket : Int → Int) : Int → List Int → Prop
  | _, [] => True
  | pos, b :: rest =>
    Readable step width hi reads bucket pos b ∧ Ungapped step width hi reads bucket (b + step) rest

instance (step width hi : Int) (readings : List Int) (bucket : Int → Int) (pos b : Int) :
    Decidable (Readable step width hi (· ∈ readings) bucket pos b) :=
  inferInstanceAs (Decidable (∃ t ∈ readings,
    bucket t = b ∧ pos ≤ t ∧ t < hi ∧ (t - pos) % (width + step) < width))

def decidableUngapped (step width hi : Int) (readings : List Int) (bucket : Int → Int) :
    (pos : Int) → (left : List Int) →
      Decidable (Ungapped step width hi (· ∈ readings) bucket pos left)
  | _, [] => inferInstanceAs (Decidable True)
  | pos, b :: rest =>
    have := decidableUngapped step width hi readings bucket (b + step) rest
    inferInstanceAs (Decidable (Readable step width hi (· ∈ readings) bucket pos b ∧
      Ungapped step width hi (· ∈ readings) bucket (b + step) rest))

instance (step width hi : Int) (readings : List Int) (bucket : Int → Int) (pos : Int)
    (left : List Int) : Decidable (Ungapped step width hi (· ∈ readings) bucket pos left) :=
  decidableUngapped step width hi readings bucket pos left

/-- The first slice counted from `pos` that a reading lies in. -/
structure FirstSlice (step width hi : Int) (reads : Int → Prop) (pos p : Int) : Prop where
  turn : ∃ k : Nat, p = pos + k * (width + step)
  some : ∃ t, reads t ∧ p ≤ t ∧ t < min (p + width) hi
  none : ∀ t, reads t → pos ≤ t → t < p → t < hi → width ≤ (t - pos) % (width + step)

/-- What is left to ship at a position: buckets with readings, among them those of
all the readings ahead. -/
structure Ahead (reads : Int → Prop) (bucket : Int → Int) (pos : Int) (left : List Int) : Prop where
  ascending : left.Pairwise (· < ·)
  read : ∀ b ∈ left, ∃ t, reads t ∧ bucket t = b
  all : ∀ t, reads t → pos ≤ t → bucket t ∈ left

variable {xs ys : List Int}

section Walk

variable {step width hi : Int} {reads : Int → Prop} {bucket : Int → Int}
  {slice : Int → Int → List Int} (slicing : Slicing step reads bucket slice)
  (positive : 0 < step) (wide : step ≤ width)

include slicing in
theorem Slicing.mono {t u : Int} (readT : reads t) (readU : reads u) (le : t ≤ u) :
    bucket t ≤ bucket u := by
  by_contra lt
  have spanT := slicing.span t
  have spanU := slicing.span u
  have apart := slicing.grid readU readT (by omega)
  omega

variable {pos : Int}

include slicing in
/-- A batch moves the position on. -/
theorem Slicing.getLast_span (some : sliceAt width hi slice pos ≠ []) :
    pos < (sliceAt width hi slice pos).getLast some + step ∧
      (sliceAt width hi slice pos).getLast some < hi := by
  obtain ⟨t, -, low, high, same⟩ := slicing.sound (getLast_mem some)
  have span := slicing.span t
  omega

include slicing in
theorem Slicing.le_getLast {x : Int} (some : sliceAt width hi slice pos ≠ [])
    (mem : x ∈ sliceAt width hi slice pos) : x ≤ (sliceAt width hi slice pos).getLast some := by
  have sorted : (sliceAt width hi slice pos).Pairwise (· ≤ ·) :=
    (slicing.ascending _ _).imp fun lt => le_of_lt lt
  exact sorted.rel_getLast mem

variable (hi) in
include slicing positive wide in
/-- From every position there is a walk. -/
theorem exists_sliceWalk (pos : Int) : ∃ out, SliceWalk step width hi slice pos out := by
  -- on the distance to the end of the band
  induction size : (hi + 1 - pos).toNat using Nat.strong_induction_on generalizing pos with
  | _ n ih =>
    by_cases above : hi < pos
    · exact ⟨[], .past above⟩
    by_cases none : sliceAt width hi slice pos = []
    · by_cases short : hi ≤ pos + width
      · exact ⟨[], .last (by omega) short none⟩
      · obtain ⟨out, rest⟩ := ih _ (by omega) (pos + width + step) rfl
        exact ⟨out, .skip (by omega) none rest⟩
    · have span := slicing.getLast_span none
      obtain ⟨out, rest⟩ := ih _ (by omega) ((sliceAt width hi slice pos).getLast none + step) rfl
      exact ⟨_, .ship (by omega) none rest⟩

variable {out : List Int}

include slicing positive wide in
/-- What a walk ships was read. -/
theorem SliceWalk.sound (walk : SliceWalk step width hi slice pos out) :
    ∀ x ∈ shipped width hi slice out, ∃ t, reads t ∧ pos ≤ t ∧ t < hi ∧ bucket t = x := by
  induction walk with
  | past | last =>
    intro x mem
    cases mem
  | skip _ _ _ ih =>
    intro x mem
    obtain ⟨t, read, low, high, same⟩ := ih x mem
    exact ⟨t, read, by omega, high, same⟩
  | ship _ some _ ih =>
    have span := slicing.getLast_span some
    intro x mem
    rw [shipped, flatMap_cons, mem_append] at mem
    rcases mem with now | later
    · obtain ⟨t, read, low, high, same⟩ := slicing.sound now
      exact ⟨t, read, low, by omega, same⟩
    · obtain ⟨t, read, low, high, same⟩ := ih x later
      exact ⟨t, read, by omega, high, same⟩

include slicing positive wide in
/-- Each bucket once, ascending. -/
theorem SliceWalk.ascending (walk : SliceWalk step width hi slice pos out) :
    (shipped width hi slice out).Pairwise (· < ·) := by
  induction walk with
  | past | last => exact List.Pairwise.nil
  | skip _ _ _ ih => exact ih
  | ship _ some rest ih =>
    rw [shipped, flatMap_cons, pairwise_append]
    refine ⟨slicing.ascending _ _, ih, fun a memA b memB => ?_⟩
    obtain ⟨t, -, low, -, same⟩ := rest.sound slicing positive wide b memB
    have span := slicing.span t
    have le := slicing.le_getLast some memA
    omega

/-! ## When nothing is left behind -/

/-- An ascending list that takes from another all that is not above it is its start. -/
theorem exists_append_of_ascending (ascX : xs.Pairwise (· < ·)) (ascY : ys.Pairwise (· < ·))
    (sub : ∀ x ∈ xs, x ∈ ys) (down : ∀ y ∈ ys, ∀ x ∈ xs, y ≤ x → y ∈ xs) :
    ∃ later, ys = xs ++ later := by
  induction xs generalizing ys with
  | nil => exact ⟨ys, rfl⟩
  | cons x xs ih =>
    cases ys with
    | nil => exact absurd (sub x mem_cons_self) not_mem_nil
    | cons y ys =>
      obtain ⟨aboveX, restX⟩ := pairwise_cons.mp ascX
      obtain ⟨aboveY, restY⟩ := pairwise_cons.mp ascY
      have yx : y ≤ x := by
        rcases mem_cons.mp (sub x mem_cons_self) with same | later
        · exact le_of_eq same.symm
        · exact le_of_lt (aboveY x later)
      have same : y = x := by
        rcases mem_cons.mp (down y mem_cons_self x mem_cons_self yx) with
          same | later
        · exact same
        · exact absurd (aboveX y later) (by omega)
      subst same
      obtain ⟨later, rfl⟩ := ih restX restY
        (fun z mem => by
          rcases mem_cons.mp (sub z (.tail _ mem)) with same | inside
          · exact absurd (aboveX z mem) (by omega)
          · exact inside)
        (fun z mem w inside le => by
          rcases mem_cons.mp (down z (.tail _ mem) w (.tail _ inside) le) with same | done
          · exact absurd (aboveY z mem) (by omega)
          · exact done)
      exact ⟨later, rfl⟩

include slicing in
/-- A slice that finds the first bucket left finds the first ones left. -/
theorem Slicing.takes_first {b : Int} {rest : List Int} (ahead : Ahead reads bucket pos (b :: rest))
    (found : b ∈ sliceAt width hi slice pos) :
    ∃ later, b :: rest = sliceAt width hi slice pos ++ later := by
  obtain ⟨t, readT, lowT, highT, sameT⟩ := slicing.sound found
  have least := (pairwise_cons.mp ahead.ascending).1
  refine exists_append_of_ascending (slicing.ascending _ _) ahead.ascending (fun x mem => ?_)
    fun y memY x memX le => ?_
  · obtain ⟨u, readU, low, -, rfl⟩ := slicing.sound mem
    exact ahead.all u readU low
  · rcases mem_cons.mp memY with rfl | later
    · exact found
    -- a bucket behind the first lies wholly ahead of the position
    obtain ⟨u, readU, rfl⟩ := ahead.read y memY
    obtain ⟨v, readV, lowV, highV, rfl⟩ := slicing.sound memX
    have apart := slicing.grid readT readU (by rw [sameT]; exact least _ later)
    have spanT := slicing.span t
    have spanU := slicing.span u
    rcases eq_or_lt_of_le le with same | lt
    · rw [same]
      exact memX
    · have before : u < v := by
        by_contra ge
        have := slicing.mono readV readU (by omega)
        omega
      rcases slicing.full (a := pos) (b := min (pos + width) hi) readU (by omega) (by omega) with
        inside | cut
      · exact inside
      · exact absurd (cut.2 _ memX) (by omega)

/-- Where the counting starts behind a list of buckets. -/
def endOf (step : Int) : Int → List Int → Int
  | pos, [] => pos
  | _, b :: rest => endOf step (b + step) rest

theorem endOf_eq_getLast (step pos : Int) (some : xs ≠ []) :
    endOf step pos xs = xs.getLast some + step := by
  induction xs generalizing pos with
  | nil => exact absurd rfl some
  | cons x xs ih =>
    cases xs with
    | nil => rfl
    | cons y ys =>
      rw [endOf, ih _ (cons_ne_nil _ _), getLast_cons (cons_ne_nil _ _)]

include slicing in
/-- Buckets read in one slice are in no gap. -/
theorem Slicing.ungapped_append {start : Int} {later : List Int} (before : start ≤ pos)
    (ascending : xs.Pairwise (· < ·))
    (inSlice : ∀ x ∈ xs, ∃ t, reads t ∧ bucket t = x ∧ pos ≤ t ∧ t < start + width ∧ t < hi) :
    Ungapped step width hi reads bucket pos (xs ++ later)
      ↔ Ungapped step width hi reads bucket (endOf step pos xs) later := by
  induction xs generalizing pos with
  | nil => exact Iff.rfl
  | cons x xs ih =>
    obtain ⟨above, tail⟩ := pairwise_cons.mp ascending
    obtain ⟨t, readT, rfl, lowT, shortT, highT⟩ := inSlice x mem_cons_self
    have spanT := slicing.span t
    have small : (t - pos) % (width + step) = t - pos := emod_eq_of_lt (by omega) (by omega)
    have here : Readable step width hi reads bucket pos (bucket t) :=
      ⟨t, readT, rfl, lowT, highT, by omega⟩
    have rest := @ih (bucket t + step) (by omega) tail fun y mem => by
      obtain ⟨u, readU, rfl, lowU, shortU, highU⟩ := inSlice y (.tail _ mem)
      have apart := slicing.grid readT readU (above _ mem)
      have spanU := slicing.span u
      exact ⟨u, readU, rfl, by omega, shortU, highU⟩
    rw [cons_append, Ungapped, endOf, rest]
    exact and_iff_right here

variable {left : List Int}

/-- Where there are no readings nothing is readable. -/
theorem ungapped_iff_nil (none : ∀ t, reads t → pos ≤ t → ¬ t < hi) :
    Ungapped step width hi reads bucket pos left ↔ left = [] := by
  cases left with
  | nil => exact iff_of_true trivial rfl
  | cons b rest =>
    refine iff_of_false ?_ (cons_ne_nil _ _)
    rintro ⟨⟨t, read, -, low, high, -⟩, -⟩
    exact none t read low high

theorem Ungapped.read (ungapped : Ungapped step width hi reads bucket pos left) :
    ∀ b ∈ left, ∃ t, reads t ∧ bucket t = b := by
  induction left generalizing pos with
  | nil =>
    intro b mem
    cases mem
  | cons x left ih =>
    obtain ⟨⟨t, read, same, -⟩, rest⟩ := ungapped
    intro b mem
    rcases mem_cons.mp mem with rfl | later
    · exact ⟨t, read, same⟩
    · exact ih rest b later

theorem ships_nothing_iff : (∀ b ∈ left, b ∈ shipped width hi slice []) ↔ left = [] := by
  constructor
  · intro all
    exact eq_nil_iff_forall_not_mem.mpr fun b mem => not_mem_nil (all b mem)
  · rintro rfl b mem
    cases mem

/-- An empty slice and the gap behind it can be counted out. -/
theorem readable_shift {b : Int} (positive : 0 < step) (wide : step ≤ width)
    (none : ∀ t, reads t → pos ≤ t → t < hi → ¬ t < pos + width) :
    Readable step width hi reads bucket pos b
      ↔ Readable step width hi reads bucket (pos + width + step) b := by
  have turn (t : Int) : (t - (pos + width + step)) % (width + step)
      = (t - pos) % (width + step) := by
    have shifted : t - (pos + width + step) = t - pos - (width + step) := by ring
    rw [shifted, sub_emod_right]
  constructor
  · rintro ⟨t, read, same, low, high, free⟩
    refine ⟨t, read, same, ?_, high, by rwa [turn]⟩
    by_contra inGap
    have beyond := none t read low high
    rw [emod_eq_of_lt (by omega) (by omega)] at free
    omega
  · rintro ⟨t, read, same, low, high, free⟩
    rw [turn] at free
    exact ⟨t, read, same, by omega, high, free⟩

omit slicing positive wide in
/-- Behind the first slice that ships, a walk goes on. -/
theorem SliceWalk.tail {p : Int} (walk : SliceWalk step width hi slice pos (p :: out)) :
    ∃ some : sliceAt width hi slice p ≠ [],
      SliceWalk step width hi slice ((sliceAt width hi slice p).getLast some + step) out := by
  generalize is : p :: out = all at walk
  induction walk with
  | past | last => cases is
  | skip _ _ _ ih => exact ih is
  | ship _ some rest =>
    cases is
    exact ⟨some, rest⟩

include slicing in
/-- A slice in which nothing is found holds no reading. -/
theorem Slicing.empty (none : sliceAt width hi slice pos = []) :
    ∀ t, reads t → pos ≤ t → t < hi → ¬ t < pos + width := by
  intro t read low high short
  rcases slicing.full read low (show t < min (pos + width) hi by omega) with found | ⟨some, -⟩
  · rw [sliceAt] at none
    rw [none] at found
    cases found
  · exact some none

section

variable (walk : SliceWalk step width hi slice pos out)
include walk

include slicing positive wide in
/-- A walk ships from the first slice that a reading lies in. -/
theorem SliceWalk.head_iff {p : Int} :
    out.head? = some p ↔ FirstSlice step width hi reads pos p := by
  induction walk with
  | @past pos above =>
    refine iff_of_false (by simp) fun first => ?_
    obtain ⟨k, rfl⟩ := first.turn
    obtain ⟨t, -, low, high⟩ := first.some
    have := mul_nonneg (natCast_nonneg k) (show 0 ≤ width + step by omega)
    omega
  | @last pos inside short none =>
    refine iff_of_false (by simp) fun first => ?_
    obtain ⟨k, rfl⟩ := first.turn
    obtain ⟨t, read, low, high⟩ := first.some
    have := mul_nonneg (natCast_nonneg k) (show 0 ≤ width + step by omega)
    exact slicing.empty none t read (by omega) (by omega) (by omega)
  | @skip pos out room none rest ih =>
    have empty := slicing.empty none
    rw [ih]
    have turned (t : Int) :
        (t - (pos + width + step)) % (width + step) = (t - pos) % (width + step) := by
      have shifted : t - (pos + width + step) = t - pos - (width + step) := by ring
      rw [shifted, sub_emod_right]
    constructor
    · rintro ⟨⟨k, is⟩, holds, before⟩
      refine ⟨⟨k + 1, ?_⟩, holds, fun t read low lt high => ?_⟩
      · rw [is]
        push_cast
        ring
      · have far := empty t read low high
        by_cases near : t < pos + width + step
        · rw [emod_eq_of_lt (by omega) (by omega)]
          omega
        · rw [← turned]
          exact before t read (by omega) lt high
    · rintro ⟨⟨k, is⟩, holds, before⟩
      obtain ⟨t, read, low, high⟩ := holds
      cases k with
      | zero =>
        have := empty t read (by omega) (by omega)
        omega
      | succ k =>
        refine ⟨⟨k, ?_⟩, ⟨t, read, low, high⟩, fun u readU lowU lt highU => ?_⟩
        · rw [is]
          push_cast
          ring
        · rw [turned]
          exact before u readU (by omega) lt highU
  | @ship pos out inside some rest ih =>
    obtain ⟨x, mem⟩ := exists_mem_of_ne_nil _ some
    obtain ⟨t, read, low, high, -⟩ := slicing.sound mem
    simp only [List.head?_cons, Option.some.injEq]
    constructor
    · rintro rfl
      exact ⟨⟨0, by simp⟩, ⟨t, read, low, high⟩, fun u _ lowU lt => by omega⟩
    · rintro ⟨⟨k, is⟩, -, before⟩
      cases k with
      | zero => simpa using is.symm
      | succ k =>
        have := mul_nonneg (natCast_nonneg k) (show 0 ≤ width + step by omega)
        have gap := before t read low (by push_cast at is; linarith [min_le_left (pos + width) hi])
          (by omega)
        rw [emod_eq_of_lt (by omega) (by omega)] at gap
        omega

include slicing in
/-- On a grid, a walk from a grid point reads from grid points only, and so does any
walk behind its first slice. -/
theorem SliceWalk.aligned (grid : ∀ t, reads t → step ∣ bucket t) (even : step ∣ width) :
    (∀ p ∈ out.tail, step ∣ p) ∧ (step ∣ pos → ∀ p ∈ out, step ∣ p) := by
  induction walk with
  | past | last =>
    exact ⟨fun p mem => absurd mem not_mem_nil, fun _ p mem => absurd mem not_mem_nil⟩
  | skip _ _ _ ih =>
    exact ⟨ih.1, fun start => ih.2 ((start.add even).add (dvd_refl step))⟩
  | @ship pos out _ some rest ih =>
    obtain ⟨t, read, -, -, same⟩ := slicing.sound (getLast_mem some)
    have tail := ih.2 ((same ▸ grid t read).add (dvd_refl step))
    refine ⟨tail, fun start p mem => ?_⟩
    rcases mem_cons.mp mem with rfl | later
    · exact start
    · exact tail p later

include slicing positive wide in
/-- Only the first slice can cut a bucket. -/
theorem SliceWalk.first_or_aligned (grid : ∀ t, reads t → step ∣ bucket t) (even : step ∣ width)
    {p : Int} (here : p ∈ out) : FirstSlice step width hi reads pos p ∨ step ∣ p := by
  cases out with
  | nil => cases here
  | cons first rest =>
    rcases mem_cons.mp here with rfl | later
    · exact .inl ((walk.head_iff slicing positive wide).mp rfl)
    · exact .inr ((walk.aligned slicing grid even).1 p later)

omit walk in
include slicing in
/-- A slice on the grid holds the whole of the buckets it ships. -/
theorem Slicing.whole_of_aligned (grid : ∀ t, reads t → step ∣ bucket t) (even : step ∣ width)
    {p t : Int} (start : step ∣ p) (found : bucket t ∈ sliceAt width hi slice p) :
    p ≤ t ∧ t < p + width := by
  obtain ⟨u, read, low, high, same⟩ := slicing.sound found
  have spanT := slicing.span t
  have spanU := slicing.span u
  have on := same ▸ grid u read
  have after := Int.le_of_dvd (show 0 < bucket t + step - p by omega)
    ((on.add (dvd_refl step)).sub start)
  have before := Int.le_of_dvd (show 0 < p + width - bucket t by omega) ((start.add even).sub on)
  omega

include slicing positive wide in
/-- The slice that ships a bucket holds one of some readings of it, exactly when one of them is
in the first slice if that ships the bucket. -/
theorem SliceWalk.carried_iff (grid : ∀ t, reads t → step ∣ bucket t) (even : step ∣ width)
    (own : Int → Prop) {p b : Int} (here : p ∈ out) (found : b ∈ sliceAt width hi slice p) :
    (∃ t, own t ∧ bucket t = b ∧ p ≤ t ∧ t < p + width) ↔ ∃ t, own t ∧ bucket t = b ∧
      ∀ q, FirstSlice step width hi reads pos q → b ∈ sliceAt width hi slice q →
        q ≤ t ∧ t < q + width := by
  constructor
  · rintro ⟨t, is, same, within⟩
    refine ⟨t, is, same, fun q first foundQ => ?_⟩
    obtain ⟨rest, rfl⟩ := head?_eq_some_iff.mp ((walk.head_iff slicing positive wide).mpr first)
    rcases mem_cons.mp here with rfl | later
    · exact within
    · have apart := (pairwise_flatMap.mp (walk.ascending slicing positive wide)).2
      exact absurd ((pairwise_cons.mp apart).1 p later b foundQ b found) (lt_irrefl b)
  · rintro ⟨t, is, same, inFirst⟩
    refine ⟨t, is, same, ?_⟩
    rcases walk.first_or_aligned slicing positive wide grid even here with first | start
    · exact inFirst p first found
    · exact slicing.whole_of_aligned grid even start (same ▸ found)

include slicing positive wide in
/-- A walk ships everything left exactly when nothing of it is only in gaps. -/
theorem SliceWalk.complete_iff (ahead : Ahead reads bucket pos left) :
    (∀ b ∈ left, b ∈ shipped width hi slice out)
      ↔ Ungapped step width hi reads bucket pos left := by
  induction walk generalizing left with
  | @past pos above =>
    rw [ungapped_iff_nil fun t _ low => by omega]
    exact ships_nothing_iff
  | @last pos inside short none =>
    rw [ungapped_iff_nil fun t read low high => ?_]
    · exact ships_nothing_iff
    · exact slicing.empty none t read low high (by omega)
  | @skip pos out room none rest ih =>
    have empty := slicing.empty none
    rw [ih ⟨ahead.ascending, ahead.read, fun t read low => ahead.all t read (by omega)⟩]
    cases left with
    | nil => exact Iff.rfl
    | cons b rest => rw [Ungapped, Ungapped, readable_shift positive wide empty]
  | @ship pos out inside some rest ih =>
    cases left with
    | nil => exact ⟨fun _ => trivial, fun _ b mem => by cases mem⟩
    | cons b left =>
      have least := (pairwise_cons.mp ahead.ascending).1
      by_cases found : b ∈ sliceAt width hi slice pos
      · obtain ⟨later, whole⟩ := slicing.takes_first ahead found
        have ascending := ahead.ascending
        rw [whole, pairwise_append] at ascending
        have top := ascending.2.2 _ (getLast_mem some)
        have next :
            Ahead reads bucket ((sliceAt width hi slice pos).getLast some + step) later := by
          refine ⟨ascending.2.1, fun x mem => ahead.read x ?_, fun t read low => ?_⟩
          · rw [whole]
            exact mem_append_right _ mem
          · have inLeft := ahead.all t read (by have := slicing.getLast_span some; omega)
            rw [whole] at inLeft
            rcases mem_append.mp inLeft with now | after
            · have le := slicing.le_getLast some now
              have span := slicing.span t
              omega
            · exact after
        have first : Ungapped step width hi reads bucket pos (sliceAt width hi slice pos ++ later)
            ↔ Ungapped step width hi reads bucket (endOf step pos (sliceAt width hi slice pos))
              later := by
          refine slicing.ungapped_append (le_refl pos) ascending.1 fun x mem => ?_
          obtain ⟨t, read, low, high, same⟩ := slicing.sound mem
          exact ⟨t, read, same, low, by omega, by omega⟩
        rw [whole, first, endOf_eq_getLast step pos some, ← ih next]
        refine ⟨fun all x mem => ?_, fun all x mem => ?_⟩
        · rcases mem_append.mp (all x (mem_append_right _ mem)) with now | after
          · have le := slicing.le_getLast some now
            have lt := top x mem
            omega
          · exact after
        · rw [shipped, flatMap_cons]
          rcases mem_append.mp mem with now | after
          · exact mem_append_left _ now
          · exact mem_append_right _ (all x after)
      · -- another bucket is found, so the first one has no reading ahead at all
        obtain ⟨x, mem⟩ := exists_mem_of_ne_nil _ some
        obtain ⟨u, readU, lowU, highU, sameU⟩ := slicing.sound mem
        have above : b < x := by
          have inLeft := ahead.all u readU lowU
          rw [sameU] at inLeft
          rcases mem_cons.mp inLeft with same | later
          · exact absurd (same ▸ mem) found
          · exact least x later
        refine iff_of_false (fun all => ?_) ?_
        · have now := all b mem_cons_self
          rw [shipped, flatMap_cons, mem_append] at now
          rcases now with here | after
          · exact found here
          · obtain ⟨t, -, low, -, same⟩ := rest.sound slicing positive wide b after
            have span := slicing.span t
            have le := slicing.le_getLast some mem
            omega
        · rintro ⟨⟨t, readT, sameT, lowT, -, -⟩, -⟩
          have before : t < u := by
            by_contra ge
            have := slicing.mono readU readT (by omega)
            omega
          rcases slicing.full (a := pos) (b := min (pos + width) hi) readT lowT (by omega) with
            inside | cut
          · exact found (sameT ▸ inside)
          · exact absurd (cut.2 x mem) (by omega)

end

end Walk

/-! ## Slices of a list of readings -/

/-- The first `cap` buckets with a reading in a half-open range. -/
def bucketsIn (bucket : Int → Int) (readings : List Int) (cap : Nat) (a b : Int) : List Int :=
  (((readings.filter fun t => a ≤ t ∧ t < b).map bucket).dedup.insertionSort (· ≤ ·)).take cap

/-- All of them. -/
theorem ascending_buckets (xs : List Int) : (xs.dedup.insertionSort (· ≤ ·)).Pairwise (· < ·) := by
  have sorted : (xs.dedup.insertionSort (· ≤ ·)).Pairwise (· ≤ ·) :=
    pairwise_insertionSort _ _
  have distinct : (xs.dedup.insertionSort (· ≤ ·)).Pairwise (· ≠ ·) :=
    (perm_insertionSort _ _).nodup_iff.mpr (nodup_dedup xs)
  exact (sorted.and distinct).imp fun both => lt_of_le_of_ne both.1 both.2

theorem slicing_bucketsIn {step : Int} {bucket : Int → Int} {readings : List Int} {cap : Nat}
    (span : ∀ t, bucket t ≤ t ∧ t < bucket t + step)
    (grid : ∀ t ∈ readings, ∀ u ∈ readings, bucket t < bucket u → bucket t + step ≤ bucket u)
    (room : 0 < cap) : Slicing step (· ∈ readings) bucket (bucketsIn bucket readings cap) where
  span := span
  grid readT readU := grid _ readT _ readU
  ascending a b := (ascending_buckets _).sublist (take_sublist _ _)
  sound {a b x} mem := by
    have inAll := mem_of_mem_take mem
    rw [mem_insertionSort, mem_dedup] at inAll
    obtain ⟨t, inRange, rfl⟩ := mem_map.mp inAll
    rw [mem_filter] at inRange
    have bounds : a ≤ t ∧ t < b := by simpa using inRange.2
    exact ⟨t, inRange.1, bounds.1, bounds.2, rfl⟩
  full {a b t} read low high := by
    have inAll :
        bucket t ∈ (((readings.filter fun t => a ≤ t ∧ t < b).map bucket).dedup.insertionSort
        (· ≤ ·)) := by
      rw [mem_insertionSort, mem_dedup]
      exact mem_map.mpr ⟨t, mem_filter.mpr ⟨read, by simp [low, high]⟩, rfl⟩
    have ascending := ascending_buckets ((readings.filter fun t => a ≤ t ∧ t < b).map bucket)
    unfold bucketsIn
    generalize ((readings.filter fun t => a ≤ t ∧ t < b).map bucket).dedup.insertionSort (· ≤ ·)
      = all at inAll ascending ⊢
    rw [← take_append_drop cap all] at inAll ascending
    rcases mem_append.mp inAll with kept | cut
    · exact .inl kept
    · refine .inr ⟨fun none => ?_, fun x mem => (pairwise_append.mp ascending).2.2 x mem _ cut⟩
      rw [take_eq_nil_iff] at none
      rcases none with zero | empty
      · omega
      · rw [empty, drop_nil] at cut
        cases cut

/-- An ascending list is known by its members. -/
theorem eq_of_ascending (ascX : xs.Pairwise (· < ·)) (ascY : ys.Pairwise (· < ·))
    (same : ∀ x, x ∈ xs ↔ x ∈ ys) : xs = ys := by
  have nodupX : xs.Nodup := ascX.imp fun lt => ne_of_lt lt
  have nodupY : ys.Nodup := ascY.imp fun lt => ne_of_lt lt
  have perm := (perm_ext_iff_of_nodup nodupX nodupY).mpr same
  exact perm.eq_of_pairwise (fun a b _ _ ab ba => absurd ab (not_lt_of_gt ba)) ascX ascY

end OpenGate.Lib
