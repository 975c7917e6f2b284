import OpenGate.Lib.Bits
import OpenGate.Tsdb.Basic

/-!
# The bit writer and the bit reader

`bitio.rs`.  A writer stands for the bits put into it (`BitWriter.bits`), a
reader for the bits still ahead of it (`BitReader.rest`); each operation is
described by what it does to that list.
-/

namespace OpenGate.Tsdb

open OpenGate.Lib List

/-- Accumulates bits most significant first; `cur` holds the `nbits` bits of the
byte being filled. -/
structure BitWriter where
  buf : Bytes
  cur : UInt8
  nbits : Nat
  nbits_lt : nbits < 8
  cur_lt : cur.toNat < 2 ^ nbits

namespace BitWriter

def new : BitWriter := ⟨[], 0, 0, by decide, by decide⟩

def bits (w : BitWriter) : List Bool := bytesBits w.buf ++ bitsOf w.nbits w.cur.toNat

def shifted (w : BitWriter) (value : UInt32) : UInt8 := w.cur <<< 1 ||| (value &&& 1).toUInt8

variable (w : BitWriter) (value : UInt32)

theorem shifted_toNat :
    (w.shifted value).toNat = 2 * w.cur.toNat + (value.toNat.testBit 0).toNat := by
  have bound : w.cur.toNat < 2 ^ 7 :=
    lt_of_lt_of_le w.cur_lt (Nat.pow_le_pow_right (by decide) (Nat.le_of_lt_succ w.nbits_lt))
  have low : (value &&& 1).toUInt8.toNat = (value.toNat.testBit 0).toNat := by
    rw [Nat.toNat_testBit]
    simp [Nat.and_one_is_mod]
  have double : (w.cur <<< 1).toNat = 2 * w.cur.toNat := by
    rw [UInt8.toNat_shiftLeft]
    simp [Nat.shiftLeft_eq]
    omega
  have bit := Bool.toNat_le (value.toNat.testBit 0)
  rw [shifted, UInt8.toNat_or, low, double]
  have disjoint := Nat.two_pow_add_eq_or_of_lt (i := 1) (b := (value.toNat.testBit 0).toNat)
    (by omega) w.cur.toNat
  exact disjoint.symm

theorem shifted_lt : (w.shifted value).toNat < 2 ^ (w.nbits + 1) := by
  have bit := Bool.toNat_le (value.toNat.testBit 0)
  have cur := w.cur_lt
  rw [shifted_toNat, pow_succ]
  omega

def putBit (w : BitWriter) (value : UInt32) : BitWriter :=
  if full : w.nbits + 1 = 8 then
    ⟨w.buf ++ [w.shifted value], 0, 0, by decide, by decide⟩
  else
    ⟨w.buf, w.shifted value, w.nbits + 1, by have := w.nbits_lt; omega, w.shifted_lt value⟩

def putBits (w : BitWriter) (value : UInt64) : Nat → BitWriter
  | 0 => w
  | i + 1 => (w.putBit (value >>> UInt64.ofNat i &&& 1).toUInt32).putBits value i

def finish (w : BitWriter) : Bytes :=
  if w.nbits > 0 then w.buf ++ [w.cur <<< UInt8.ofNat (8 - w.nbits)] else w.buf

@[simp] theorem new_bits : new.bits = [] := rfl

theorem putBit_bits : (w.putBit value).bits = w.bits ++ [value.toNat.testBit 0] := by
  have snoc : bitsOf (w.nbits + 1) (w.shifted value).toNat
      = bitsOf w.nbits w.cur.toNat ++ [value.toNat.testBit 0] := by
    rw [shifted_toNat, bitsOf_succ_snoc]
  unfold putBit
  split
  next full =>
    rw [full] at snoc
    rw [bits, bytesBits_append, bytesBits_singleton, snoc, bitsOf, append_nil, bits,
      append_assoc]
  · rw [bits, snoc, bits, append_assoc]

theorem testBit_shifted {value : UInt64} {i : Nat} (small : i < 64) :
    (value >>> UInt64.ofNat i &&& 1).toUInt32.toNat.testBit 0 = value.toNat.testBit i := by
  have shift : (UInt64.ofNat i).toNat % 64 = i := by
    simp only [UInt64.toNat_ofNat']
    omega
  have value_lt : value.toNat >>> i % 2 % 2 ^ 32 = value.toNat >>> i % 2 := by omega
  rw [UInt64.toNat_toUInt32, UInt64.toNat_and, UInt64.toNat_shiftRight, shift,
    UInt64.toNat_one, Nat.and_one_is_mod, value_lt, Nat.testBit_zero, Nat.mod_mod,
    Nat.testBit_eq_decide_div_mod_eq, Nat.shiftRight_eq_div_pow]

/-- Writing a number appends its low bits. -/
theorem putBits_bits (value : UInt64) {count : Nat} (width : count ≤ 64) :
    (w.putBits value count).bits = w.bits ++ bitsOf count value.toNat := by
  induction count generalizing w with
  | zero => rw [putBits, bitsOf, append_nil]
  | succ i ih =>
    rw [putBits, ih _ (by omega), putBit_bits, testBit_shifted (by omega), bitsOf,
      append_assoc, singleton_append]

/-- What is left in the buffer is every bit written, then zeros up to the byte's end. -/
theorem finish_bits : ∃ pad, bytesBits w.finish = w.bits ++ pad ∧ pad.length < 8 := by
  unfold finish
  split
  next some =>
    have lt := w.nbits_lt
    have cur := w.cur_lt
    have amount : (UInt8.ofNat (8 - w.nbits)).toNat % 8 = 8 - w.nbits := by
      simp only [UInt8.toNat_ofNat']
      omega
    have fits : w.cur.toNat * 2 ^ (8 - w.nbits) < 2 ^ 8 :=
      calc w.cur.toNat * 2 ^ (8 - w.nbits)
          < 2 ^ w.nbits * 2 ^ (8 - w.nbits) :=
            Nat.mul_lt_mul_of_pos_right cur (Nat.two_pow_pos _)
        _ = 2 ^ 8 := by rw [← pow_add]; congr 1; omega
    have shift : (w.cur <<< UInt8.ofNat (8 - w.nbits)).toNat
        = w.cur.toNat * 2 ^ (8 - w.nbits) := by
      rw [UInt8.toNat_shiftLeft, amount, Nat.shiftLeft_eq, Nat.mod_eq_of_lt fits]
    refine ⟨List.replicate (8 - w.nbits) false, ?_, by rw [length_replicate]; omega⟩
    rw [bytesBits_append, bits, append_assoc, bytesBits_singleton]
    congr 1
    refine ofBits_inj (by simp; omega) ?_
    rw [ofBits_bitsOf, ofBits_append, ofBits_bitsOf, ofBits_replicate_false,
      length_replicate, shift, Nat.mod_eq_of_lt cur, Nat.mod_eq_of_lt fits, Nat.add_zero]
  next none =>
    have zero : w.nbits = 0 := by omega
    exact ⟨[], by rw [bits, zero, bitsOf]; simp, by decide⟩

theorem length_finish : w.finish.length ≤ w.bits.length / 8 + 1 := by
  obtain ⟨pad, bits, short⟩ := w.finish_bits
  have lengths := congrArg List.length bits
  rw [length_bytesBits, length_append] at lengths
  omega

end BitWriter

structure BitReader where
  buf : Bytes
  byte : Nat
  bit : Nat
  bit_lt : bit < 8

namespace BitReader

def new (buf : Bytes) : BitReader := ⟨buf, 0, 0, by decide⟩

def rest (r : BitReader) : List Bool := (bytesBits r.buf).drop (8 * r.byte + r.bit)

def getBit (r : BitReader) : Option (UInt32 × BitReader) :=
  match r.buf[r.byte]? with
  | none => none
  | some b =>
    let bit := b >>> UInt8.ofNat (7 - r.bit) &&& 1
    some (bit.toUInt32, if last : r.bit + 1 = 8 then ⟨r.buf, r.byte + 1, 0, by decide⟩
      else ⟨r.buf, r.byte, r.bit + 1, by have := r.bit_lt; omega⟩)

def getBitsFrom (v : UInt64) (r : BitReader) : Nat → Option (UInt64 × BitReader)
  | 0 => some (v, r)
  | n + 1 => do
      let (bit, r) ← r.getBit
      getBitsFrom (v <<< 1 ||| bit.toUInt64) r n

def getBits (r : BitReader) (count : Nat) : Option (UInt64 × BitReader) := getBitsFrom 0 r count

/-- A bit as `get_bit` returns it. -/
def word (b : Bool) : UInt32 := UInt32.ofNat b.toNat

@[simp] theorem word_eq_zero {b : Bool} : word b = 0 ↔ b = false := by
  cases b <;> decide

@[simp] theorem new_rest (buf : Bytes) : (new buf).rest = bytesBits buf := rfl

variable {r : BitReader} {tl : List Bool} {v : UInt64} {b : UInt8}

/-- What lies ahead of a reader that stands inside byte `b`. -/
theorem rest_eq (here : r.buf[r.byte]? = some b) :
    r.rest = b.toNat.testBit (7 - r.bit) ::
      (bitsOf (7 - r.bit) b.toNat ++ bytesBits (r.buf.drop (r.byte + 1))) := by
  obtain ⟨inside, at_⟩ := List.getElem?_eq_some_iff.mp here
  have lt := r.bit_lt
  have width : 8 - r.bit = (7 - r.bit) + 1 := by omega
  rw [rest, ← drop_drop, drop_bytesBits, drop_eq_getElem_cons inside, at_,
    bytesBits_cons, drop_append_of_le_length (by rw [length_bitsOf]; omega), drop_bitsOf,
    width, bitsOf, cons_append]

theorem rest_eq_nil (past : r.buf[r.byte]? = none) : r.rest = [] := by
  have beyond : r.buf.length ≤ r.byte := List.getElem?_eq_none_iff.mp past
  rw [rest]
  refine drop_of_length_le ?_
  rw [length_bytesBits]
  omega

theorem byte_bit {i : Nat} (small : i ≤ 7) :
    (b >>> UInt8.ofNat i &&& 1).toUInt32 = word (b.toNat.testBit i) := by
  have shift : (UInt8.ofNat i).toNat % 8 = i := by
    simp only [UInt8.toNat_ofNat']
    omega
  apply UInt32.toNat_inj.mp
  rw [UInt8.toNat_toUInt32, UInt8.toNat_and, UInt8.toNat_shiftRight, shift, UInt8.toNat_one,
    Nat.and_one_is_mod, word, UInt32.toNat_ofNat', Nat.toNat_testBit, Nat.shiftRight_eq_div_pow]
  omega

/-- One read takes the first bit ahead. -/
theorem getBit_cons {b : Bool} (ahead : r.rest = b :: tl) :
    ∃ r', r.getBit = some (word b, r') ∧ r'.rest = tl := by
  have lt := r.bit_lt
  cases here : r.buf[r.byte]? with
  | none =>
    rw [rest_eq_nil here] at ahead
    cases ahead
  | some byte =>
    rw [rest_eq here, List.cons.injEq] at ahead
    obtain ⟨rfl, rfl⟩ := ahead
    simp only [getBit, here, byte_bit (show 7 - r.bit ≤ 7 by omega)]
    refine ⟨_, rfl, ?_⟩
    split
    next last =>
      have seven : 7 - r.bit = 0 := by omega
      rw [rest, Nat.add_zero, drop_bytesBits, seven, bitsOf, nil_append]
    next more =>
      have next : 7 - r.bit = (7 - (r.bit + 1)) + 1 := by omega
      rw [next, bitsOf, cons_append]
      exact rest_eq here

theorem shifted_toNat {n : Nat} (small : v.toNat < 2 ^ n) (width : n < 64) (b : Bool) :
    (v <<< 1 ||| (word b).toUInt64).toNat = 2 * v.toNat + b.toNat := by
  have bit := Bool.toNat_le b
  have bound : v.toNat < 2 ^ 63 :=
    lt_of_lt_of_le small (Nat.pow_le_pow_right (by decide) (by omega))
  have double : (v <<< 1).toNat = 2 * v.toNat := by
    rw [UInt64.toNat_shiftLeft]
    simp [Nat.shiftLeft_eq]
    omega
  have low : (word b).toUInt64.toNat = b.toNat := by cases b <;> rfl
  have disjoint := Nat.two_pow_add_eq_or_of_lt (i := 1) (b := b.toNat) (by omega) v.toNat
  rw [UInt64.toNat_or, double, low, disjoint]

theorem getBitsFrom_append {bs : List Bool} {n : Nat} (small : v.toNat < 2 ^ n)
    (width : n + bs.length ≤ 64) (ahead : r.rest = bs ++ tl) :
    ∃ w r', getBitsFrom v r bs.length = some (w, r') ∧
      w.toNat = v.toNat * 2 ^ bs.length + ofBits bs ∧ r'.rest = tl := by
  -- the accumulator grows by one bit a turn, so it keeps within `n` bits of its own
  induction bs generalizing v r n with
  | nil => exact ⟨v, r, rfl, by simp [ofBits], ahead⟩
  | cons b bs ih =>
    rw [length_cons] at width
    obtain ⟨r₁, read, ahead₁⟩ := getBit_cons ahead
    have value := shifted_toNat small (by omega) b
    have bit := Bool.toNat_le b
    have small₁ : (v <<< 1 ||| (word b).toUInt64).toNat < 2 ^ (n + 1) := by
      rw [value, pow_succ]
      omega
    obtain ⟨w, r', run, total, after⟩ := ih small₁ (by omega) ahead₁
    refine ⟨w, r', ?_, ?_, after⟩
    · rw [length_cons, getBitsFrom, read]
      exact run
    · have single : ofBits [b] = b.toNat := by simp [ofBits]
      rw [total, value, ← singleton_append, ofBits_append, single, length_append,
        length_singleton, pow_add]
      ring

/-- Reading as many bits as a number was written with gives its low bits. -/
theorem getBits_bitsOf {count n : Nat} (width : count ≤ 64)
    (ahead : r.rest = bitsOf count n ++ tl) :
    ∃ w r', r.getBits count = some (w, r') ∧ w.toNat = n % 2 ^ count ∧ r'.rest = tl := by
  have length := length_bitsOf count n
  obtain ⟨w, r', run, value, after⟩ := getBitsFrom_append (v := 0) (n := 0) (by decide)
    (by omega) ahead
  rw [length] at run
  refine ⟨w, r', run, ?_, after⟩
  rw [value, ofBits_bitsOf]
  simp

end BitReader

end OpenGate.Tsdb
