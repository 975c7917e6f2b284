import Mathlib

/-!
# 64-bit timestamps

Differences of `Int64` read as integers: exact while they are in range, and the
difference that stays at the ends of the range.
-/

namespace OpenGate.Lib

open Int64

theorem toInt_add_of_range {a b : Int64} (low : -2 ^ 63 ≤ a.toInt + b.toInt)
    (high : a.toInt + b.toInt < 2 ^ 63) : (a + b).toInt = a.toInt + b.toInt := by
  rw [toInt_add, Int.bmod_eq_of_le] <;> omega

theorem toInt_sub_of_range {a b : Int64} (low : -2 ^ 63 ≤ a.toInt - b.toInt)
    (high : a.toInt - b.toInt < 2 ^ 63) : (a - b).toInt = a.toInt - b.toInt := by
  rw [toInt_sub, Int.bmod_eq_of_le] <;> omega

theorem toInt_mul_of_range {a b : Int64} (low : -2 ^ 63 ≤ a.toInt * b.toInt)
    (high : a.toInt * b.toInt < 2 ^ 63) : (a * b).toInt = a.toInt * b.toInt := by
  rw [toInt_mul, Int.bmod_eq_of_le] <;> omega

variable (a b : Int64) (n : UInt32)

theorem toInt_min : (min a b).toInt = min a.toInt b.toInt := by
  show (if a ≤ b then a else b).toInt = _
  split
  next less =>
    rw [le_iff_toInt_le] at less
    omega
  next more =>
    rw [le_iff_toInt_le] at more
    omega

theorem toInt_max : (max a b).toInt = max a.toInt b.toInt := by
  show (if a ≤ b then b else a).toInt = _
  split
  next less =>
    rw [le_iff_toInt_le] at less
    omega
  next more =>
    rw [le_iff_toInt_le] at more
    omega

def saturatingSub (a b : Int64) : Int64 :=
  let difference := a.toInt - b.toInt
  if difference < Int64.minValue.toInt then Int64.minValue
  else if difference > Int64.maxValue.toInt then Int64.maxValue
  else Int64.ofInt difference

/-- An integer, held at the ends of the `i64` range. -/
def saturate (n : Int) : Int64 :=
  if n < Int64.minValue.toInt then Int64.minValue
  else if n > Int64.maxValue.toInt then Int64.maxValue
  else Int64.ofInt n

theorem toInt_saturate (n : Int) : (saturate n).toInt = max (-2 ^ 63) (min (2 ^ 63 - 1) n) := by
  have least : Int64.minValue.toInt = -2 ^ 63 := rfl
  have most : Int64.maxValue.toInt = 2 ^ 63 - 1 := rfl
  unfold saturate
  split
  · omega
  · split
    · omega
    · rw [toInt_ofInt_of_le (by omega) (by omega)]
      omega

theorem toInt_saturatingSub :
    (saturatingSub a b).toInt = max (-2 ^ 63) (min (2 ^ 63 - 1) (a.toInt - b.toInt)) :=
  toInt_saturate _

def saturatingAdd (a b : Int64) : Int64 := saturate (a.toInt + b.toInt)

/-- A difference is at least a number that fits exactly when the integers' is. -/
theorem le_saturatingSub_iff (c : Int64) :
    c ≤ saturatingSub a b ↔ c.toInt ≤ a.toInt - b.toInt ∨ c = Int64.minValue := by
  have low := le_toInt c
  have high := toInt_lt c
  have minimal : c = Int64.minValue ↔ c.toInt = -2 ^ 63 := toInt_inj.symm
  rw [le_iff_toInt_le, toInt_saturatingSub, minimal]
  omega

/-- A number below a difference, where the number subtracted is not negative. -/
theorem lt_saturatingSub_iff {a b c : Int64} (positive : 0 ≤ b.toInt) :
    c < saturatingSub a b ↔ c.toInt < a.toInt - b.toInt := by
  have low := le_toInt c
  have high := toInt_lt a
  rw [lt_iff_toInt_lt, toInt_saturatingSub]
  omega

/-- A 32-bit number as an `i64`. -/
theorem toInt_ofNat_toNat : (Int64.ofNat n.toNat).toInt = n.toNat := by
  have small := n.toNat_lt
  rw [toInt_ofNat_of_lt (by omega)]

/-- A difference of at least so many seconds. -/
theorem ofNat_le_saturatingSub :
    Int64.ofNat n.toNat ≤ saturatingSub a b ↔ (n.toNat : Int) ≤ a.toInt - b.toInt := by
  have value := toInt_ofNat_toNat n
  have positive : Int64.ofNat n.toNat ≠ Int64.minValue := by
    rw [Ne, ← toInt_inj, value]
    show ¬ (n.toNat : Int) = -2 ^ 63
    omega
  rw [le_saturatingSub_iff, value, or_iff_left positive]

end OpenGate.Lib
