import OpenGate.Tsdb.Bitio

/-!
# Delta-of-delta codes

The part of `gorilla.rs` the compact codec uses.  A difference is written with a
prefix that names its width; `dodBits` is the code word, and a reader that stands
before a code word reads the difference back and stops right after it.
-/

namespace OpenGate.Tsdb

open OpenGate.Lib BitReader

def okOr {α : Type} (x : Option α) (what : String) : Result α :=
  match x with
  | some a => .ok a
  | none => corrupt what

@[simp] theorem okOr_some {α : Type} (a : α) (what : String) : okOr (some a) what = .ok a := rfl

/-- Whether `v` fits in an `n`-bit two's-complement field. -/
def fits (v : Int64) (n : Nat) : Bool :=
  let min := -((1 : Int64) <<< Int64.ofNat (n - 1))
  let max := (1 : Int64) <<< Int64.ofNat (n - 1) - 1
  decide (v ≥ min) && decide (v ≤ max)

def signExtend (raw : UInt64) (n : Nat) : Int64 :=
  let shift := 64 - n
  (raw <<< UInt64.ofNat shift).toInt64 >>> Int64.ofNat shift

/-- Writes a delta-of-delta with a variable-width prefix code and a 64-bit escape. -/
def encodeDod (w : BitWriter) (dod : Int64) : BitWriter :=
  if dod = 0 then w.putBit 0
  else if fits dod 7 then (w.putBits 0b10 2).putBits dod.toUInt64 7
  else if fits dod 9 then (w.putBits 0b110 3).putBits dod.toUInt64 9
  else if fits dod 12 then (w.putBits 0b1110 4).putBits dod.toUInt64 12
  else if fits dod 32 then (w.putBits 0b11110 5).putBits dod.toUInt64 32
  else (w.putBits 0b11111 5).putBits dod.toUInt64 64

/-- The loop of `decodeDod`: a 0 bit selects the field width at hand, and falling
through reads the 64-bit escape. -/
def decodeDodFrom (r : BitReader) : List Nat → Result (Int64 × BitReader)
  | [] => do
      let (raw, r) ← okOr (r.getBits 64) "dod"
      .ok (raw.toInt64, r)
  | width :: widths => do
      let (bit, r) ← okOr r.getBit "dod"
      if bit = 0 then
        let (raw, r) ← okOr (r.getBits width) "dod"
        .ok (signExtend raw width, r)
      else decodeDodFrom r widths

def decodeDod (r : BitReader) : Result (Int64 × BitReader) := do
  let (bit, r) ← okOr r.getBit "dod"
  if bit = 0 then .ok (0, r) else decodeDodFrom r [7, 9, 12, 32]

/-! ## Sign extension -/

def IsWidth (n : Nat) : Prop := n = 7 ∨ n = 9 ∨ n = 12 ∨ n = 32

variable {n : Nat} {tl : List Bool} {r : BitReader} {dod : Int64}

theorem fits_iff (width : IsWidth n) (v : Int64) :
    fits v n ↔ -2 ^ (n - 1) ≤ v.toInt ∧ v.toInt ≤ 2 ^ (n - 1) - 1 := by
  simp only [fits, Bool.and_eq_true, decide_eq_true_eq, ge_iff_le, Int64.le_iff_toInt_le]
  rcases width with rfl | rfl | rfl | rfl <;> rfl

theorem toInt_signExtend (width : IsWidth n) (raw : UInt64) :
    (signExtend raw n).toInt
      = ((raw.toNat * 2 ^ (64 - n) % 2 ^ 64 : Nat) : Int).bmod (2 ^ 64) / 2 ^ (64 - n) := by
  have amount : ((Int64.ofNat (64 - n)).toBitVec.smod 64).toNat = 64 - n := by
    rcases width with rfl | rfl | rfl | rfl <;> rfl
  have shift : (UInt64.ofNat (64 - n)).toNat % 64 = 64 - n := by
    rcases width with rfl | rfl | rfl | rfl <;> rfl
  have left : (raw <<< UInt64.ofNat (64 - n)).toBitVec.toNat
      = raw.toNat * 2 ^ (64 - n) % 2 ^ 64 := by
    rw [UInt64.toNat_toBitVec, UInt64.toNat_shiftLeft, shift, Nat.shiftLeft_eq]
  rw [signExtend, ← Int64.toInt_toBitVec, Int64.toBitVec_shiftRight, BitVec.sshiftRight',
    BitVec.toInt_sshiftRight, amount, UInt64.toBitVec_toInt64, BitVec.toInt_eq_toNat_bmod, left,
    Int.shiftRight_eq_div_pow]
  norm_cast

theorem toNat_toUInt64 (v : Int64) : (v.toUInt64.toNat : Int) = v.toInt % 2 ^ 64 := by
  have signed : v.toInt = (v.toUInt64.toNat : Int).bmod (2 ^ 64) := by
    rw [← Int64.toInt_toBitVec, BitVec.toInt_eq_toNat_bmod]
    rfl
  have lt := v.toUInt64.toNat_lt
  rw [signed, Int.bmod_def]
  split <;> omega

/-- A difference that fits a field is read back from its low bits. -/
theorem signExtend_low (width : IsWidth n) {v : Int64} (small : fits v n) {raw : UInt64}
    (low : raw.toNat = v.toUInt64.toNat % 2 ^ n) : signExtend raw n = v := by
  have bounds := (fits_iff width v).mp small
  have unsigned := toNat_toUInt64 v
  have value := toInt_signExtend width raw
  rw [Int.bmod_def, low] at value
  apply Int64.toInt_inj.mp
  rw [value]
  rcases width with rfl | rfl | rfl | rfl <;> norm_num at bounds unsigned ⊢ <;> omega

/-! ## Code words -/

/-- The code word of a difference that is not zero, after its first bit: a 1 for
each width that is too narrow, then a 0 and the field. -/
def dodBitsFrom (dod : Int64) : List Nat → List Bool
  | [] => bitsOf 64 dod.toUInt64.toNat
  | width :: widths =>
    if fits dod width then false :: bitsOf width dod.toUInt64.toNat
    else true :: dodBitsFrom dod widths

def dodBits (dod : Int64) : List Bool :=
  if dod = 0 then [false] else true :: dodBitsFrom dod [7, 9, 12, 32]

theorem encodeDod_bits (w : BitWriter) : (encodeDod w dod).bits = w.bits ++ dodBits dod := by
  simp only [encodeDod, dodBits, dodBitsFrom]
  split_ifs
  · rw [BitWriter.putBit_bits]
    rfl
  all_goals
    rw [BitWriter.putBits_bits _ _ (by decide), BitWriter.putBits_bits _ _ (by decide),
      List.append_assoc]
    rfl

theorem decodeDodFrom_dodBitsFrom {widths : List Nat} (isWidth : ∀ n ∈ widths, IsWidth n)
    (ahead : r.rest = dodBitsFrom dod widths ++ tl) :
    ∃ r', decodeDodFrom r widths = .ok (dod, r') ∧ r'.rest = tl := by
  induction widths generalizing r with
  | nil =>
    obtain ⟨raw, r', bits, low, after⟩ := getBits_bitsOf (by decide) ahead
    have same : raw = dod.toUInt64 := by
      apply UInt64.toNat_inj.mp
      rw [low, Nat.mod_eq_of_lt dod.toUInt64.toNat_lt]
    exact ⟨r', by simp [decodeDodFrom, bits, same], after⟩
  | cons width widths ih =>
    have here : IsWidth width := isWidth width List.mem_cons_self
    rw [dodBitsFrom] at ahead
    split at ahead
    next small =>
      have narrow : width ≤ 64 := by rcases here with rfl | rfl | rfl | rfl <;> decide
      obtain ⟨r₁, read, after₁⟩ := getBit_cons ahead
      obtain ⟨raw, r', bits, low, after⟩ := getBits_bitsOf narrow after₁
      exact ⟨r', by simp [decodeDodFrom, read, bits, signExtend_low here small low], after⟩
    next wide =>
      obtain ⟨r₁, read, after₁⟩ := getBit_cons ahead
      obtain ⟨r', run, after⟩ := ih (fun n mem => isWidth n (.tail _ mem)) after₁
      exact ⟨r', by simp [decodeDodFrom, read, run], after⟩

/-- A reader before a code word reads its difference and stops after it. -/
theorem decodeDod_dodBits (ahead : r.rest = dodBits dod ++ tl) :
    ∃ r', decodeDod r = .ok (dod, r') ∧ r'.rest = tl := by
  rw [dodBits] at ahead
  split at ahead
  next zero =>
    obtain ⟨r', read, after⟩ := getBit_cons ahead
    exact ⟨r', by simp [decodeDod, read, zero], after⟩
  next other =>
    obtain ⟨r₁, read, after₁⟩ := getBit_cons ahead
    have isWidth : ∀ n ∈ [7, 9, 12, 32], IsWidth n := by simp [IsWidth]
    obtain ⟨r', run, after⟩ := decodeDodFrom_dodBitsFrom isWidth after₁
    exact ⟨r', by simp [decodeDod, read, run], after⟩

end OpenGate.Tsdb
