import Mathlib

/-!
# Numbers as bits, most significant first

`bitsOf k n` is the low `k` bits of `n`, `ofBits` the number a list of bits
writes, and `bytesBits` a list of bytes as one list of bits.  A writer that
appends bits and a reader that takes them off are each described by such a list.
-/

namespace OpenGate.Lib

open List

def bitsOf : Nat → Nat → List Bool
  | 0, _ => []
  | k + 1, n => n.testBit k :: bitsOf k n

def ofBits (bs : List Bool) : Nat := bs.foldl (fun n b => 2 * n + b.toNat) 0

def bytesBits (bytes : List UInt8) : List Bool := bytes.flatMap fun b => bitsOf 8 b.toNat

variable (bs : List Bool) (b : UInt8) (k : Nat) (bytes : List UInt8) (n : Nat)

@[simp] theorem length_bitsOf : (bitsOf k n).length = k := by
  induction k with
  | zero => rfl
  | succ k ih => rw [bitsOf, length_cons, ih]

theorem ofBits_append_singleton {b : Bool} : ofBits (bs ++ [b]) = 2 * ofBits bs + b.toNat := by
  rw [ofBits, foldl_append]
  rfl

/-- Bits in front weigh by the length of what follows. -/
theorem ofBits_append (more : List Bool) :
    ofBits (bs ++ more) = ofBits bs * 2 ^ more.length + ofBits more := by
  induction more using List.reverseRecOn with
  | nil => simp [ofBits]
  | append_singleton more b ih =>
    rw [← append_assoc, ofBits_append_singleton, ih, ofBits_append_singleton,
      length_append, length_singleton, pow_succ]
    ring

/-- Writing the low bits of a number and reading them back. -/
theorem ofBits_bitsOf : ofBits (bitsOf k n) = n % 2 ^ k := by
  induction k with
  | zero => simp [bitsOf, ofBits, Nat.mod_one]
  | succ k ih =>
    have bit : (n.testBit k).toNat = n / 2 ^ k % 2 := Nat.toNat_testBit n k
    have single : ofBits [n.testBit k] = n / 2 ^ k % 2 := by
      rw [← bit]
      simp [ofBits]
    rw [bitsOf, ← singleton_append, ofBits_append, ih, length_bitsOf, single, Nat.mod_pow_succ]
    ring

theorem ofBits_inj {bs bs' : List Bool} (length : bs.length = bs'.length)
    (same : ofBits bs = ofBits bs') : bs = bs' := by
  induction bs using List.reverseRecOn generalizing bs' with
  | nil => exact (eq_nil_of_length_eq_zero length.symm).symm
  | append_singleton bs b ih =>
    cases bs' using List.reverseRecOn with
    | nil => simp at length
    | append_singleton bs' b' =>
      rw [length_append, length_append, length_singleton,
        length_singleton, Nat.add_right_cancel_iff] at length
      rw [ofBits_append_singleton, ofBits_append_singleton] at same
      have bit := Bool.toNat_le b
      have bit' := Bool.toNat_le b'
      have value : b.toNat = b'.toNat := by omega
      have last : b = b' := by cases b <;> cases b' <;> simp_all
      rw [ih length (by omega), last]

theorem bitsOf_succ_snoc {b : Bool} : bitsOf (k + 1) (2 * n + b.toNat) = bitsOf k n ++ [b] := by
  refine ofBits_inj ?_ ?_
  · rw [length_bitsOf, length_append, length_bitsOf, length_singleton]
  · have bit := Bool.toNat_le b
    rw [ofBits_bitsOf, ofBits_append_singleton, ofBits_bitsOf, pow_succ]
    have split := Nat.mod_add_div n (2 ^ k)
    have value : 2 * n + b.toNat = (2 * (n % 2 ^ k) + b.toNat) + 2 ^ k * 2 * (n / 2 ^ k) := by
      nlinarith
    rw [value, Nat.add_mul_mod_self_left, Nat.mod_eq_of_lt (by omega)]

theorem drop_bitsOf (i : Nat) : (bitsOf k n).drop i = bitsOf (k - i) n := by
  induction i generalizing k with
  | zero => rfl
  | succ i ih =>
    cases k with
    | zero => simp [bitsOf]
    | succ k => rw [bitsOf, drop_succ_cons, ih, Nat.add_sub_add_right]

theorem ofBits_replicate_false : ofBits (List.replicate k false) = 0 := by
  induction k with
  | zero => rfl
  | succ k ih => rw [replicate_succ', ofBits_append_singleton, ih, Bool.toNat_false]

theorem bytesBits_cons : bytesBits (b :: bytes) = bitsOf 8 b.toNat ++ bytesBits bytes := rfl

theorem bytesBits_singleton : bytesBits [b] = bitsOf 8 b.toNat := by
  rw [bytesBits_cons, bytesBits, flatMap_nil, append_nil]

@[simp] theorem bytesBits_append (more : List UInt8) :
    bytesBits (bytes ++ more) = bytesBits bytes ++ bytesBits more := flatMap_append

@[simp] theorem length_bytesBits : (bytesBits bytes).length = 8 * bytes.length := by
  induction bytes with
  | nil => rfl
  | cons b bytes ih =>
    rw [bytesBits_cons, length_append, length_bitsOf, ih, length_cons]
    omega

/-- The bits of a byte list from the start of one of its bytes. -/
theorem drop_bytesBits : (bytesBits bytes).drop (8 * n) = bytesBits (bytes.drop n) := by
  induction n generalizing bytes with
  | zero => rfl
  | succ n ih =>
    cases bytes with
    | nil => simp [bytesBits]
    | cons b bytes =>
      rw [drop_succ_cons, ← ih bytes, bytesBits_cons, Nat.mul_succ, Nat.add_comm,
        ← drop_drop, drop_left' (length_bitsOf ..)]

end OpenGate.Lib
