import Mathlib

/-!
# Comparing floating-point numbers

The comparisons of IEEE 754.  Numbers have a place on a line, on which the two zeros
stand together, and a NaN has none and compares with nothing.  So equality is symmetric
and transitive, though a NaN is not equal to itself, and numbers equal to each other
compare alike with all others.
-/

namespace OpenGate.Lib

open Option

class Ieee (F : Type) where
  lt : F → F → Bool
  eq : F → F → Bool
  /-- Where a number stands; a NaN stands nowhere. -/
  place : F → Option Int
  lt_iff (a b : F) : lt a b = true ↔ ∃ x ∈ place a, ∃ y ∈ place b, x < y
  eq_iff (a b : F) : eq a b = true ↔ ∃ x ∈ place a, x ∈ place b

namespace Ieee

variable {F : Type} [Ieee F] {a b c : F}

def le (a b : F) : Bool := lt a b || eq a b

theorem le_iff (a b : F) : le a b ↔ ∃ x ∈ place a, ∃ y ∈ place b, x ≤ y := by
  rw [le, Bool.or_eq_true, lt_iff, eq_iff]
  constructor
  · rintro (⟨x, atX, y, atY, less⟩ | ⟨x, atX, atY⟩)
    · exact ⟨x, atX, y, atY, less.le⟩
    · exact ⟨x, atX, x, atY, le_rfl⟩
  · rintro ⟨x, atX, y, atY, most⟩
    rcases most.lt_or_eq with less | rfl
    · exact .inl ⟨x, atX, y, atY, less⟩
    · exact .inr ⟨x, atX, atY⟩

/-- Values that are equal stand at one place. -/
theorem place_eq (same : eq a b) : place a = place b := by
  obtain ⟨x, atA, atB⟩ := (eq_iff a b).mp same
  rw [mem_def.mp atA, mem_def.mp atB]

theorem eq_symm (same : eq a b) : eq b a := by
  obtain ⟨x, atA, atB⟩ := (eq_iff a b).mp same
  exact (eq_iff b a).mpr ⟨x, atB, atA⟩

theorem eq_trans (left : eq a b) (right : eq b c) : eq a c := by
  obtain ⟨x, atA, atB⟩ := (eq_iff a b).mp left
  exact (eq_iff a c).mpr ⟨x, atA, place_eq right ▸ atB⟩

theorem lt_congr_right (same : eq a b) : lt c a = lt c b := by
  rw [Bool.eq_iff_iff, lt_iff, lt_iff, place_eq same]

theorem lt_congr_left (same : eq a b) : lt a c = lt b c := by
  rw [Bool.eq_iff_iff, lt_iff, lt_iff, place_eq same]

theorem le_congr_right (same : eq a b) : le c a = le c b := by
  rw [Bool.eq_iff_iff, le_iff, le_iff, place_eq same]

theorem le_congr_left (same : eq a b) : le a c = le b c := by
  rw [Bool.eq_iff_iff, le_iff, le_iff, place_eq same]

theorem le_of_lt (less : lt a b) : le a b := by
  rw [le, less, Bool.true_or]

theorem le_trans (ab : le a b) (bc : le b c) : le a c := by
  rw [le_iff] at ab bc ⊢
  obtain ⟨x, atA, y, atB, xy⟩ := ab
  obtain ⟨y', atB', z, atC, yz⟩ := bc
  cases mem_unique atB atB'
  exact ⟨x, atA, z, atC, xy.trans yz⟩

theorem lt_of_le_of_lt (ab : le a b) (bc : lt b c) : lt a c := by
  rw [le_iff] at ab
  rw [lt_iff] at bc ⊢
  obtain ⟨x, atA, y, atB, xy⟩ := ab
  obtain ⟨y', atB', z, atC, yz⟩ := bc
  cases mem_unique atB atB'
  exact ⟨x, atA, z, atC, xy.trans_lt yz⟩

theorem lt_of_lt_of_le (ab : lt a b) (bc : le b c) : lt a c := by
  rw [le_iff] at bc
  rw [lt_iff] at ab ⊢
  obtain ⟨x, atA, y, atB, xy⟩ := ab
  obtain ⟨y', atB', z, atC, yz⟩ := bc
  cases mem_unique atB atB'
  exact ⟨x, atA, z, atC, xy.trans_le yz⟩

theorem lt_irrefl (a : F) : lt a a = false := by
  rw [Bool.eq_false_iff, Ne, lt_iff]
  rintro ⟨x, atA, y, atA', less⟩
  cases mem_unique atA atA'
  exact less.false

theorem not_lt_of_le (most : le a b) : lt b a = false := by
  rw [Bool.eq_false_iff]
  intro less
  exact Bool.eq_false_iff.mp (lt_irrefl b) (lt_of_lt_of_le less most)

/-- What is at most something, or has something at most it, is a number. -/
theorem placed_of_le (most : le a b) : (place a).isSome ∧ (place b).isSome := by
  obtain ⟨x, atA, y, atB, -⟩ := (le_iff a b).mp most
  exact ⟨isSome_of_mem atA, isSome_of_mem atB⟩

theorem le_self (number : (place a).isSome) : le a a := by
  obtain ⟨x, atA⟩ := isSome_iff_exists.mp number
  exact (le_iff a a).mpr ⟨x, atA, x, atA, le_rfl⟩

/-- Two numbers compare. -/
theorem le_or_lt (left : (place a).isSome) (right : (place b).isSome) :
    le a b ∨ lt b a := by
  obtain ⟨x, atA⟩ := isSome_iff_exists.mp left
  obtain ⟨y, atB⟩ := isSome_iff_exists.mp right
  rcases Int.lt_or_le y x with less | most
  · exact .inr ((lt_iff b a).mpr ⟨y, atB, x, atA, less⟩)
  · exact .inl ((le_iff a b).mpr ⟨x, atA, y, atB, most⟩)

end Ieee

end OpenGate.Lib
