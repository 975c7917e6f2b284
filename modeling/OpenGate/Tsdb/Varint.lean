import OpenGate.Tsdb.Gorilla

/-!
# Varints

The byte-level helpers of `compact.rs`.  A reading position is described by the
bytes from it on (`bytes.drop pos`): a reader that stands before what a writer
wrote gives it back and moves to the bytes that follow.
-/

namespace OpenGate.Tsdb

variable {pos : Nat} {b : UInt8}

/-- The byte under a position, and the bytes after it. -/
theorem getElem?_of_drop {bytes tl : Bytes} (ahead : bytes.drop pos = b :: tl) :
    bytes[pos]? = some b ∧ bytes.drop (pos + 1) = tl := by
  have inside : pos < bytes.length := by
    by_contra beyond
    rw [List.drop_of_length_le (by omega)] at ahead
    cases ahead
  rw [List.drop_eq_getElem_cons inside, List.cons.injEq] at ahead
  rw [List.getElem?_eq_getElem inside, ahead.1]
  exact ⟨rfl, ahead.2⟩

/-- Ten turns are enough for 64 bits. -/
def uvarintTurns : Nat := 10

def putUvarintFrom (v : UInt64) : Nat → Bytes
  | 0 => []
  | turns + 1 =>
    let b := (v &&& 0x7f).toUInt8
    let v := v >>> 7
    if v ≠ 0 then (b ||| 0x80) :: putUvarintFrom v turns else [b]

def putUvarint (v : UInt64) : Bytes := putUvarintFrom v uvarintTurns

/-- The loop of `getUvarint`.  It gives up when `shift` reaches 64, before the
turns run out. -/
def getUvarintFrom (buf : Bytes) (pos shift : Nat) (res : UInt64) : Nat → Option (UInt64 × Nat)
  | 0 => none
  | turns + 1 => do
      let b ← buf[pos]?
      let res := res ||| (b &&& 0x7f).toUInt64 <<< UInt64.ofNat shift
      if b &&& 0x80 = 0 then some (res, pos + 1)
      else if shift + 7 ≥ 64 then none
      else getUvarintFrom buf (pos + 1) (shift + 7) res turns

def getUvarint (buf : Bytes) (pos : Nat) : Option (UInt64 × Nat) :=
  getUvarintFrom buf pos 0 0 uvarintTurns

variable (x : BitVec 64) (v : UInt64) {buf tl : Bytes}

theorem shiftRight_seven : (v >>> 7).toNat = v.toNat / 128 := by
  rw [UInt64.toNat_shiftRight]
  simp [Nat.shiftRight_eq_div_pow]

theorem low_seven : (v &&& 0x7f).toUInt8.toNat = v.toNat % 128 := by
  have mask : (0x7f : UInt64).toNat = 2 ^ 7 - 1 := rfl
  rw [UInt64.toNat_toUInt8, UInt64.toNat_and, mask, Nat.and_two_pow_sub_one_eq_mod]
  omega

/-- A payload byte, with the continuation bit or without. -/
theorem payload (b : UInt8) (small : b.toNat < 128) :
    b &&& 0x7f = b ∧ b &&& 0x80 = 0 ∧ (b ||| 0x80) &&& 0x7f = b ∧ (b ||| 0x80) &&& 0x80 ≠ 0 := by
  have each : ∀ n < 128, UInt8.ofNat n &&& 0x7f = UInt8.ofNat n ∧ UInt8.ofNat n &&& 0x80 = 0 ∧
      (UInt8.ofNat n ||| 0x80) &&& 0x7f = UInt8.ofNat n ∧
      (UInt8.ofNat n ||| 0x80) &&& 0x80 ≠ 0 := by decide
  have here := each b.toNat small
  rwa [UInt8.ofNat_toNat] at here

/-- Seven more bits go in above the ones read so far. -/
theorem or_payload {res : UInt64} {shift : Nat} (below : res.toNat < 2 ^ shift) (small : shift < 64)
    (fits : b.toNat * 2 ^ shift < 2 ^ 64) :
    (res ||| b.toUInt64 <<< UInt64.ofNat shift).toNat = b.toNat * 2 ^ shift + res.toNat := by
  have amount : (UInt64.ofNat shift).toNat % 64 = shift := by
    simp only [UInt64.toNat_ofNat']
    omega
  have disjoint := Nat.two_pow_add_eq_or_of_lt below b.toNat
  rw [UInt64.toNat_or, UInt64.toNat_shiftLeft, amount, UInt8.toNat_toUInt64, Nat.shiftLeft_eq,
    Nat.mod_eq_of_lt fits, Nat.or_comm, Nat.mul_comm, ← disjoint]

theorem getUvarintFrom_putUvarintFrom {turns pos shift : Nat} {v res : UInt64}
    (span : shift + 7 * turns = 70) (start : shift < 64) (below : res.toNat < 2 ^ shift)
    (fits : v.toNat * 2 ^ shift + res.toNat < 2 ^ 64)
    (ahead : buf.drop pos = putUvarintFrom v turns ++ tl) :
    ∃ w pos', getUvarintFrom buf pos shift res turns = some (w, pos') ∧
      w.toNat = v.toNat * 2 ^ shift + res.toNat ∧ buf.drop pos' = tl := by
  -- each turn moves seven bits of the value below `shift`; the sum they form stays the same
  induction turns generalizing pos shift v res with
  | zero => omega
  | succ turns ih =>
    have low := low_seven v
    have high := shiftRight_seven v
    have small : (v &&& 0x7f).toUInt8.toNat < 128 := by omega
    obtain ⟨keep, last, strip, more⟩ := payload _ small
    have part : (v &&& 0x7f).toUInt8.toNat * 2 ^ shift ≤ v.toNat * 2 ^ shift :=
      Nat.mul_le_mul_right _ (by omega)
    have joined := or_payload below start (by omega) (b := (v &&& 0x7f).toUInt8)
    rw [putUvarintFrom] at ahead
    split at ahead
    next rest =>
      obtain ⟨here, after⟩ := getElem?_of_drop ahead
      have big : 1 ≤ v.toNat / 128 := by
        by_contra none
        exact rest (UInt64.toNat_inj.mp (by rw [high, UInt64.toNat_zero]; omega))
      have next : shift + 7 < 64 := by
        by_contra beyond
        have large : 2 ^ 64 ≤ 2 ^ (shift + 7) := Nat.pow_le_pow_right (by decide) (by omega)
        have room : 128 * 2 ^ shift ≤ v.toNat * 2 ^ shift :=
          Nat.mul_le_mul_right _ (by omega)
        rw [pow_add] at large
        omega
      have split : v.toNat * 2 ^ shift
          = v.toNat / 128 * 2 ^ (shift + 7) + v.toNat % 128 * 2 ^ shift := by
        have whole := Nat.div_add_mod v.toNat 128
        rw [pow_add]
        nlinarith
      have under : v.toNat % 128 * 2 ^ shift + res.toNat < 2 ^ (shift + 7) := by
        have one : v.toNat % 128 + 1 ≤ 128 := by omega
        have scaled := Nat.mul_le_mul_right (2 ^ shift) one
        rw [Nat.add_mul, Nat.one_mul] at scaled
        rw [pow_add]
        omega
      rw [low] at joined
      obtain ⟨w, pos', run, value, left⟩ := ih (by omega) next
        (by rw [joined]; exact under) (by rw [joined, high]; omega) after
      refine ⟨w, pos', ?_, ?_, left⟩
      · simp only [getUvarintFrom, here, Option.bind_eq_bind, Option.bind_some, strip,
          if_neg more, if_neg (Nat.not_le.mpr next)]
        exact run
      · rw [value, joined, high, split]
        omega
    next rest =>
      obtain ⟨here, after⟩ := getElem?_of_drop ahead
      have none : v.toNat / 128 = 0 := by
        rw [← high, not_not.mp rest]
        rfl
      have whole : (v &&& 0x7f).toUInt8.toNat = v.toNat := by omega
      refine ⟨res ||| (v &&& 0x7f).toUInt8.toUInt64 <<< UInt64.ofNat shift, pos + 1, ?_, ?_, after⟩
      · simp only [getUvarintFrom, here, Option.bind_eq_bind, Option.bind_some, keep, last, if_true]
      · rw [joined, whole]

/-- A reader before a written number reads it. -/
theorem getUvarint_putUvarint {v : UInt64} (ahead : buf.drop pos = putUvarint v ++ tl) :
    ∃ pos', getUvarint buf pos = some (v, pos') ∧ buf.drop pos' = tl := by
  have lt := v.toNat_lt
  obtain ⟨w, pos', run, value, after⟩ := @getUvarintFrom_putUvarintFrom buf tl 10 pos 0 v 0
    rfl (by decide) (by decide) (by simpa using lt) ahead
  have same : w = v := by
    apply UInt64.toNat_inj.mp
    rw [value]
    simp
  rw [same] at run
  exact ⟨pos', run, after⟩

theorem length_putUvarint : (putUvarint v).length ≤ 10 := by
  have bound (turns : Nat) (v : UInt64) : (putUvarintFrom v turns).length ≤ turns := by
    induction turns generalizing v with
    | zero => exact Nat.le_refl 0
    | succ turns ih =>
      have rest := ih (v >>> 7)
      rw [putUvarintFrom]
      split
      · rw [List.length_cons]
        omega
      · rw [List.length_singleton]
        omega
  exact bound uvarintTurns v

/-! ## Signed numbers -/

def zigzag (v : Int64) : UInt64 := ((v <<< 1) ^^^ (v >>> 63)).toUInt64

def unzigzag (u : UInt64) : Int64 := (u >>> 1).toInt64 ^^^ -(u &&& 1).toInt64

def putIvarint (v : Int64) : Bytes := putUvarint (zigzag v)

def getIvarint (buf : Bytes) (pos : Nat) : Option (Int64 × Nat) := do
  let (u, pos) ← getUvarint buf pos
  some (unzigzag u, pos)

/-- The sign bit in every place. -/
theorem sshiftRight_sign : x.sshiftRight 63 = if x.msb then BitVec.allOnes 64 else 0 := by
  have top : x.msb = x.getLsbD 63 := rfl
  ext i hi
  rw [BitVec.getElem_sshiftRight]
  by_cases zero : i = 0
  · subst zero
    cases sign : x.msb <;> simpa [top] using sign
  · rw [dif_neg (by omega)]
    cases x.msb <;> simp [-BitVec.reduceAllOnes]

theorem neg_low_bit :
    -(((x <<< 1) ^^^ x.sshiftRight 63) &&& 1) = if x.msb then BitVec.allOnes 64 else 0 := by
  have bit : ((x <<< 1) ^^^ x.sshiftRight 63) &&& 1 = if x.msb then 1 else 0 := by
    rw [sshiftRight_sign]
    ext i hi
    cases x.msb <;> by_cases zero : i = 0 <;> simp [zero]
  rw [bit]
  cases x.msb <;> rfl

theorem unzigzag_zigzag {v : Int64} : unzigzag (zigzag v) = v := by
  have bits (x : BitVec 64) : ((x <<< 1) ^^^ x.sshiftRight 63) >>> 1 ^^^
      -(((x <<< 1) ^^^ x.sshiftRight 63) &&& 1) = x := by
    have top : x.msb = x.getLsbD 63 := rfl
    rw [neg_low_bit, sshiftRight_sign]
    ext i hi
    by_cases last : i = 63
    · subst last
      cases sign : x.msb <;> simp [-BitVec.reduceAllOnes] <;> simpa [top] using sign
    · have inside : 1 + i < 64 := by omega
      cases x.msb <;> simp [inside, -BitVec.reduceAllOnes]
  apply Int64.toBitVec_inj.mp
  exact bits v.toBitVec

theorem getIvarint_putIvarint {v : Int64} (ahead : buf.drop pos = putIvarint v ++ tl) :
    ∃ pos', getIvarint buf pos = some (v, pos') ∧ buf.drop pos' = tl := by
  obtain ⟨pos', read, after⟩ := getUvarint_putUvarint ahead
  exact ⟨pos', by simp [getIvarint, read, unzigzag_zigzag], after⟩

end OpenGate.Tsdb
