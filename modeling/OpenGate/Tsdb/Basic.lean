import Mathlib

/-!
# Errors, samples and numbers of the local store

What the modules of `edge-tsdb` share.  A function of the source that returns a
`Result` returns an `Except Stop` here: `Stop` is one of the crate's errors, or a
fault, which in the source is a panic (an arithmetic overflow, an index out of
range, an allocation past the limit).

Values are `f64`.  The model is generic in their type and takes the operations
the crate uses on them as given (`Float64`); the laws a result needs are named
where it needs them.
-/

namespace OpenGate.Tsdb

abbrev Bytes := List UInt8

/-- `TsdbError`, less the variants of the substrates the store does not use. -/
inductive TsdbError where
  | io (message : String)
  | corruptBlock (what : String)
  | redb (message : String)
  deriving DecidableEq, Repr

inductive Fault where
  | underflow
  | overflow
  | capacity
  deriving DecidableEq, Repr

inductive Stop where
  | error (e : TsdbError)
  | fault (f : Fault)
  deriving DecidableEq, Repr

abbrev Result := Except Stop

def corrupt {α : Type} (what : String) : Result α := .error (.error (.corruptBlock what))

/-- `usize::MAX` on the 64-bit hosts the agent runs on. -/
def usizeMax : Nat := 2 ^ 64 - 1

/-- `isize::MAX`, the most bytes one allocation may take. -/
def isizeMax : Nat := 2 ^ 63 - 1

def addUsize (a b : Nat) : Result Nat :=
  if a + b ≤ usizeMax then .ok (a + b) else .error (.fault .overflow)

def subUnsigned (a b : Nat) : Result Nat :=
  if b ≤ a then .ok (a - b) else .error (.fault .underflow)

/-- Reserving room for `n` items of `size` bytes. -/
def reserve (n size : Nat) : Result Unit :=
  if n * size ≤ isizeMax then .ok () else .error (.fault .capacity)

class Float64 (F : Type) where
  zero : F
  /-- `INT_SAFE`, 2^53. -/
  intSafe : F
  add : F → F → F
  mul : F → F → F
  div : F → F → F
  min : F → F → F
  max : F → F → F
  fract : F → F
  abs : F → F
  round : F → F
  lt : F → F → Bool
  eq : F → F → Bool
  ofI64 : Int64 → F
  ofU32 : UInt32 → F
  ofU64 : UInt64 → F
  toI64 : F → Int64
  toU64 : F → UInt64
  toBits : F → UInt64
  ofBits : UInt64 → F
  /-- `(v as f32).to_bits()`. -/
  toF32Bits : F → UInt32
  /-- `f64::from(f32::from_bits(bits))`. -/
  ofF32Bits : UInt32 → F

abbrev SeriesId := UInt32

structure Sample (F : Type) where
  ts : Int64
  value : F
  deriving DecidableEq, Repr

theorem min_eq_if {a b : Int64} : min a b = if a ≤ b then a else b := rfl

theorem max_eq_if {a b : Int64} : max a b = if a ≤ b then b else a := rfl

/-! ## Peeling computations apart -/

variable {α β : Type} (n v : Nat) {f : α → Result β}

theorem bind_ok {x : Result α} {b : β} (is : x >>= f = .ok b) : ∃ a, x = .ok a ∧ f a = .ok b := by
  cases x with
  | error e => cases is
  | ok a => exact ⟨a, rfl, is⟩

@[simp] theorem ok_bind (a : α) (f : α → Result β) :
    ((.ok a : Result α) >>= f) = f a := rfl

@[simp] theorem error_bind (e : Stop) :
    ((.error e : Result α) >>= f) = .error e := rfl

/-! ## Little-endian bytes -/

def leBytes : Nat → Nat → Bytes
  | 0, _ => []
  | n + 1, v => UInt8.ofNat v :: leBytes n (v / 256)

/-- The number the bytes write, least significant first. -/
def leNat : Bytes → Nat
  | [] => 0
  | b :: bytes => b.toNat + 256 * leNat bytes

@[simp] theorem length_leBytes : (leBytes n v).length = n := by
  induction n generalizing v with
  | zero => rfl
  | succ n ih => rw [leBytes, List.length_cons, ih]

theorem leNat_leBytes : leNat (leBytes n v) = v % 256 ^ n := by
  induction n generalizing v with
  | zero => simp [leBytes, leNat, Nat.mod_one]
  | succ n ih =>
    have byte : (UInt8.ofNat v).toNat = v % 256 := UInt8.toNat_ofNat'
    rw [leBytes, leNat, ih, byte, pow_succ, Nat.mul_comm (256 ^ n), Nat.mod_mul]

end OpenGate.Tsdb
