import Mathlib

/-!
# Numbered queues

A sender numbers what it sends one after the other and keeps the tail not yet
acknowledged.  `numberFrom n l` is such a tail: the items of `l` under the
numbers `n`, `n + 1`, ….  A cumulative acknowledgement drops a front of it, and
what lies above a number is again a tail.
-/

namespace OpenGate.Lib

open List

variable {α : Type} (r n : Nat) {l : List α}

def numberFrom (n : Nat) : List α → List (Nat × α)
  | [] => []
  | a :: l => (n, a) :: numberFrom (n + 1) l

@[simp] theorem map_snd_numberFrom (n : Nat) (l : List α) : (numberFrom n l).map Prod.snd = l := by
  induction l generalizing n with
  | nil => rfl
  | cons a l ih => simp only [numberFrom, map_cons, ih]

theorem numberFrom_append {n : Nat} (l more : List α) :
    numberFrom n (l ++ more) = numberFrom n l ++ numberFrom (n + l.length) more := by
  induction l generalizing n with
  | nil => rfl
  | cons a l ih =>
    simp only [cons_append, numberFrom, ih, length_cons]
    rw [show n + 1 + l.length = n + (l.length + 1) by omega]

/-- What a cumulative acknowledgement of everything up to `r` leaves. -/
theorem dropWhile_numberFrom :
    (numberFrom n l).dropWhile (fun k => k.1 ≤ r) =
      numberFrom (max n (r + 1)) (l.drop (r + 1 - n)) := by
  induction l generalizing n with
  | nil => simp only [numberFrom, dropWhile_nil, drop_nil]
  | cons a l ih =>
    by_cases low : n ≤ r
    · have step : r + 1 - n = (r + 1 - (n + 1)) + 1 := by omega
      have top : max n (r + 1) = max (n + 1) (r + 1) := by omega
      rw [numberFrom, dropWhile_cons_of_pos (by simpa using low), ih, step,
        drop_succ_cons, top]
    · have none : r + 1 - n = 0 := by omega
      have top : max n (r + 1) = n := by omega
      rw [numberFrom, dropWhile_cons_of_neg (by simpa using low), none, top, drop_zero,
        numberFrom]

/-- The items numbered above `r`. -/
theorem filter_numberFrom :
    ((numberFrom n l).filter fun k => r < k.1).map Prod.snd = l.drop (r + 1 - n) := by
  induction l generalizing n with
  | nil => simp only [numberFrom, filter_nil, map_nil, drop_nil]
  | cons a l ih =>
    by_cases low : n ≤ r
    · have step : r + 1 - n = (r + 1 - (n + 1)) + 1 := by omega
      rw [numberFrom, filter_cons_of_neg (by simpa using low), ih, step, drop_succ_cons]
    · have none : r + 1 - n = 0 := by omega
      have later : r + 1 - (n + 1) = 0 := by omega
      rw [numberFrom, filter_cons_of_pos (by simpa using low), map_cons, ih, none,
        later, drop_zero, drop_zero]

end OpenGate.Lib
