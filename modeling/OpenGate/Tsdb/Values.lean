import OpenGate.Tsdb.Gorilla

/-!
# The value codecs of a compact block

The three ways `compact.rs` writes the values of a block: XOR of `f32` bit
patterns with a carried window, and delta-of-delta integers, plain or fixed-point.
Each decoder gives back what its encoder kept of the values.
-/

namespace OpenGate.Tsdb

open BitReader List
open OpenGate.Lib BitWriter Float64
open Nat (log2 log2_lt mod_eq_of_lt)

variable {F : Type} [Float64 F]

/-! ## Integers as delta-of-delta codes -/

/-- The loop of the integer encoders, from the previous value and difference. -/
def encodeDodsFrom (w : BitWriter) (prevVal prevDelta : Int64) : List Int64 → BitWriter
  | [] => w
  | val :: vals =>
    let delta := val - prevVal
    let dod := delta - prevDelta
    encodeDodsFrom (encodeDod w dod) val delta vals

/-- The first value in full, then the loop. -/
def encodeDods (first : Int64) (vals : List Int64) : Bytes :=
  (encodeDodsFrom (BitWriter.new.putBits first.toUInt64 64) first 0 vals).finish

def decodeDodsFrom (r : BitReader) (prevVal prevDelta : Int64) : Nat → Result (List Int64)
  | 0 => .ok []
  | n + 1 => do
      let (dod, r) ← decodeDod r
      let delta := prevDelta + dod
      let val := prevVal + delta
      let vals ← decodeDodsFrom r val delta n
      .ok (val :: vals)

def decodeDods (bytes : Bytes) (count : Nat) (what : String) : Result (List Int64) := do
  let (first, r) ← okOr ((BitReader.new bytes).getBits 64) what
  let vals ← decodeDodsFrom r first.toInt64 0 (count - 1)
  .ok (first.toInt64 :: vals)

def dodsBits (prevVal prevDelta : Int64) : List Int64 → List Bool
  | [] => []
  | val :: vals => dodBits (val - prevVal - prevDelta) ++ dodsBits val (val - prevVal) vals

variable (v : Int64) (first : F) (w : BitWriter) {prevVal prevDelta : Int64} {vals : List Int64}

theorem encodeDodsFrom_bits :
    (encodeDodsFrom w prevVal prevDelta vals).bits = w.bits ++ dodsBits prevVal prevDelta vals := by
  induction vals generalizing w prevVal prevDelta with
  | nil => rw [encodeDodsFrom, dodsBits, append_nil]
  | cons val vals ih => rw [encodeDodsFrom, ih, encodeDod_bits, dodsBits, append_assoc]

variable {r : BitReader} {tl : List Bool} (rest : List F)

theorem decodeDodsFrom_dodsBits (ahead : r.rest = dodsBits prevVal prevDelta vals ++ tl) :
    decodeDodsFrom r prevVal prevDelta vals.length = .ok vals := by
  induction vals generalizing r prevVal prevDelta with
  | nil => rfl
  | cons val vals ih =>
    rw [dodsBits, append_assoc] at ahead
    obtain ⟨r', read, after⟩ := decodeDod_dodBits ahead
    have delta : prevDelta + (val - prevVal - prevDelta) = val - prevVal := by grind
    have value : prevVal + (val - prevVal) = val := by grind
    simp only [length_cons, decodeDodsFrom, read, ok_bind, delta, value, ih after]

/-- The integers come back as they were. -/
theorem decodeDods_encodeDods (first : Int64) (vals : List Int64) (what : String) :
    decodeDods (encodeDods first vals) (vals.length + 1) what = .ok (first :: vals) := by
  obtain ⟨pad, bits, _⟩ := finish_bits
    (encodeDodsFrom (BitWriter.new.putBits first.toUInt64 64) first 0 vals)
  rw [encodeDodsFrom_bits, putBits_bits _ _ (by decide), new_bits,
    nil_append, append_assoc, ← new_rest, ← encodeDods] at bits
  obtain ⟨raw, r, read, low, after⟩ := getBits_bitsOf (by decide) bits
  have same : raw = first.toUInt64 := by
    apply UInt64.toNat_inj.mp
    rw [low, mod_eq_of_lt first.toUInt64.toNat_lt]
  have value : raw.toInt64 = first := by rw [same, Int64.toInt64_toUInt64]
  simp only [decodeDods, read, okOr_some, ok_bind, value, Nat.add_sub_cancel,
    decodeDodsFrom_dodsBits after]

def encodeIntDod (first : F) (rest : List F) : Bytes :=
  encodeDods (Float64.toI64 first) (rest.map Float64.toI64)

def decodeIntDod (bytes : Bytes) (count : Nat) : Result (List F) := do
  let vals ← decodeDods bytes count "int-dod"
  .ok (vals.map Float64.ofI64)

/-- `(value * scale as f64).round() as i64`. -/
def fixedPoint (scale : Int64) (v : F) : Int64 :=
  Float64.toI64 (Float64.round (Float64.mul v (Float64.ofI64 scale)))

def i64Bytes (v : Int64) : Bytes := leBytes 8 v.toUInt64.toNat

def i64Of (bytes : Bytes) : Int64 := (UInt64.ofNat (leNat bytes)).toInt64

@[simp] theorem length_i64Bytes : (i64Bytes v).length = 8 := length_leBytes ..

@[simp] theorem i64Of_i64Bytes : i64Of (i64Bytes v) = v := by
  have small : v.toUInt64.toNat < 256 ^ 8 := v.toUInt64.toNat_lt
  rw [i64Of, i64Bytes, leNat_leBytes, mod_eq_of_lt small, UInt64.ofNat_toNat,
    Int64.toInt64_toUInt64]

def encodeFixedDod (first : F) (rest : List F) (scale : Int64) : Bytes :=
  i64Bytes scale ++ encodeDods (fixedPoint scale first) (rest.map (fixedPoint scale))

def decodeFixedDod (bytes : Bytes) (count : Nat) : Result (List F) := do
  if bytes.length < 8 then corrupt "fixed-dod"
  let scale := i64Of (bytes.take 8)
  if scale = 0 then corrupt "fixed-dod"
  let vals ← decodeDods (bytes.drop 8) count "fixed-dod"
  .ok (vals.map fun v => Float64.div (Float64.ofI64 v) (Float64.ofI64 scale))

theorem decodeIntDod_encodeIntDod :
    decodeIntDod (encodeIntDod first rest) (rest.length + 1)
      = .ok ((first :: rest).map fun v => (ofI64 (toI64 v) : F)) := by
  have ints := decodeDods_encodeDods (toI64 first) (rest.map toI64) "int-dod"
  rw [length_map] at ints
  simp [decodeIntDod, encodeIntDod, ints]

theorem decodeFixedDod_encodeFixedDod {scale : Int64} (nonzero : scale ≠ 0) :
    decodeFixedDod (encodeFixedDod first rest scale) (rest.length + 1)
      = .ok ((first :: rest).map fun v =>
        (Float64.div (ofI64 (fixedPoint scale v)) (ofI64 scale) : F)) := by
  have ints := decodeDods_encodeDods (fixedPoint scale first) (rest.map (fixedPoint scale))
    "fixed-dod"
  rw [length_map] at ints
  have long : ¬ (encodeFixedDod first rest scale).length < 8 := by
    rw [encodeFixedDod, length_append, length_i64Bytes]
    omega
  have head : (encodeFixedDod first rest scale).take 8 = i64Bytes scale :=
    take_left' (length_i64Bytes scale)
  have tail : (encodeFixedDod first rest scale).drop 8
      = encodeDods (fixedPoint scale first) (rest.map (fixedPoint scale)) :=
    drop_left' (length_i64Bytes scale)
  simp [decodeFixedDod, long, head, tail, nonzero, ints]

/-! ## XOR of `f32` bit patterns -/

def leadingZeros (x : UInt32) : Nat := if x = 0 then 32 else 31 - Nat.log2 x.toNat

def trailingZeros (x : UInt32) : Nat := ((List.range 32).find? x.toNat.testBit).getD 32

/-- The leading and trailing bits left out of a word; the source keeps
`u32::MAX` in place of `lead` while there is none. -/
@[ext]
structure Window where
  lead : Nat
  trail : Nat
  inside : lead + trail < 32

variable {x : UInt32} {xor : UInt32}

section

variable (nonzero : x ≠ 0)
include nonzero

theorem toNat_ne_zero : x.toNat ≠ 0 := fun zero =>
  nonzero (UInt32.toNat_inj.mp zero)

theorem lt_of_leadingZeros : leadingZeros x ≤ 31 ∧ x.toNat < 2 ^ (32 - leadingZeros x) := by
  have small : log2 x.toNat < 32 :=
    (log2_lt (toNat_ne_zero nonzero)).mpr x.toNat_lt
  have top : x.toNat < 2 ^ (log2 x.toNat + 1) :=
    (log2_lt (toNat_ne_zero nonzero)).mp (Nat.lt_succ_self _)
  have width : 32 - (31 - log2 x.toNat) = log2 x.toNat + 1 := by omega
  rw [leadingZeros, if_neg nonzero, width]
  exact ⟨by omega, top⟩

/-- The top bit of a word that is not zero. -/
theorem testBit_log2 : x.toNat.testBit (log2 x.toNat) := by
  have low := Nat.log2_self_le (toNat_ne_zero nonzero)
  have high : x.toNat < 2 ^ (log2 x.toNat + 1) :=
    (log2_lt (toNat_ne_zero nonzero)).mp (Nat.lt_succ_self _)
  have one : x.toNat / 2 ^ log2 x.toNat = 1 := by
    exact Nat.div_eq_of_lt_le (by omega) (by omega)
  rw [Nat.testBit_eq_decide_div_mod_eq, one]
  rfl

/-- The lowest set bit, and nothing below it. -/
theorem trailingZeros_spec :
    trailingZeros x ≤ log2 x.toNat ∧
      ∀ i < trailingZeros x, x.toNat.testBit i = false := by
  have small : log2 x.toNat < 32 :=
    (log2_lt (toNat_ne_zero nonzero)).mpr x.toNat_lt
  have top := testBit_log2 nonzero
  cases found : (List.range 32).find? x.toNat.testBit with
  | none =>
    have absent := List.find?_eq_none.mp found _ (mem_range.mpr small)
    exact absurd top absent
  | some i =>
    obtain ⟨_, _, before⟩ := List.find?_range_eq_some.mp found
    have trail : trailingZeros x = i := by rw [trailingZeros, found, Option.getD_some]
    have below : ∀ j < i, x.toNat.testBit j = false := by
      intro j lt
      have unset := before j lt
      simpa using unset
    rw [trail]
    refine ⟨?_, below⟩
    by_contra later
    rw [below _ (by omega)] at top
    cases top

theorem leading_add_trailing : min (leadingZeros x) 31 + trailingZeros x < 32 := by
  have small : log2 x.toNat < 32 :=
    (log2_lt (toNat_ne_zero nonzero)).mpr x.toNat_lt
  have trail := (trailingZeros_spec nonzero).1
  rw [leadingZeros, if_neg nonzero]
  omega

end

def Window.ofWord (x : UInt32) (nonzero : x ≠ 0) : Window :=
  ⟨min (leadingZeros x) 31, trailingZeros x, leading_add_trailing nonzero⟩

def Window.sig (window : Window) : Nat := 32 - window.lead - window.trail

/-- A word has nothing outside the window. -/
def Window.Covers (window : Window) (x : UInt32) : Prop :=
  x.toNat < 2 ^ (32 - window.lead) ∧ ∀ i < window.trail, x.toNat.testBit i = false

theorem Window.covers_ofWord (x : UInt32) (nonzero : x ≠ 0) : (ofWord x nonzero).Covers x := by
  have lead := lt_of_leadingZeros nonzero
  have same : (ofWord x nonzero).lead = leadingZeros x := min_eq_left lead.1
  rw [Covers, same]
  exact ⟨lead.2, (trailingZeros_spec nonzero).2⟩

theorem Window.Covers.wider {window inner : Window} (covers : inner.Covers x)
    (lead : window.lead ≤ inner.lead) (trail : window.trail ≤ inner.trail) : window.Covers x :=
  ⟨lt_of_lt_of_le covers.1 (Nat.pow_le_pow_right (by decide) (by omega)),
    fun i lt => covers.2 i (lt_of_lt_of_le lt trail)⟩

/-- The bits inside the window, shifted back, are the word. -/
theorem Window.Covers.restore {window : Window} (covers : window.Covers x) {meaningful : UInt64}
    (low : meaningful.toNat = (x >>> UInt32.ofNat window.trail).toUInt64.toNat % 2 ^ window.sig) :
    meaningful.toUInt32 <<< UInt32.ofNat window.trail = x := by
  have inside := window.inside
  have amount : (UInt32.ofNat window.trail).toNat % 32 = window.trail := by
    simp only [UInt32.toNat_ofNat']
    omega
  have divides : 2 ^ window.trail ∣ x.toNat := by
    refine Nat.dvd_of_mod_eq_zero ?_
    apply Nat.eq_of_testBit_eq
    intro i
    rw [Nat.testBit_mod_two_pow, Nat.zero_testBit]
    by_cases lt : i < window.trail
    · rw [covers.2 i lt, Bool.and_false]
    · simp [lt]
  obtain ⟨q, split⟩ := divides
  have shifted : (x >>> UInt32.ofNat window.trail).toUInt64.toNat = q := by
    rw [UInt32.toNat_toUInt64, UInt32.toNat_shiftRight, amount, Nat.shiftRight_eq_div_pow, split,
      Nat.mul_div_cancel_left _ (Nat.two_pow_pos _)]
  have width : 2 ^ (32 - window.lead) = 2 ^ window.trail * 2 ^ window.sig := by
    rw [← pow_add, sig]
    congr 1
    omega
  have small : q < 2 ^ window.sig := by
    have bound := covers.1
    rw [split, width] at bound
    exact Nat.lt_of_mul_lt_mul_left bound
  have word := x.toNat_lt
  have fits : q * 2 ^ window.trail < 2 ^ 32 := by
    rw [Nat.mul_comm, ← split]
    exact word
  have narrow : q < 2 ^ 32 := by
    refine lt_of_le_of_lt ?_ fits
    exact Nat.le_mul_of_pos_right _ (Nat.two_pow_pos _)
  apply UInt32.toNat_inj.mp
  rw [UInt32.toNat_shiftLeft, amount, UInt64.toNat_toUInt32, low, shifted, mod_eq_of_lt small,
    mod_eq_of_lt narrow, Nat.shiftLeft_eq, mod_eq_of_lt fits, split, Nat.mul_comm]

def Window.reuse (window : Option Window) (fresh : Window) : Option Window :=
  window.filter fun prev => fresh.lead ≥ prev.lead && fresh.trail ≥ prev.trail

/-- One turn of `encode_xor32`: the word's difference from the one before, and the
window that is set after it. -/
def putXor (w : BitWriter) (window : Option Window) (xor : UInt32) : BitWriter × Option Window :=
  if zero : xor = 0 then (w.putBit 0, window)
  else
    let fresh := Window.ofWord xor zero
    match Window.reuse window fresh with
    | some prev =>
      (((w.putBit 1).putBit 0).putBits (xor >>> UInt32.ofNat prev.trail).toUInt64 prev.sig, window)
    | none =>
      (((((w.putBit 1).putBit 1).putBits (UInt64.ofNat fresh.lead) 5).putBits
        (UInt64.ofNat (fresh.sig - 1)) 5).putBits
        (xor >>> UInt32.ofNat fresh.trail).toUInt64 fresh.sig, some fresh)

def encodeXor32From (w : BitWriter) (prev : UInt32) (window : Option Window) :
    List UInt32 → BitWriter
  | [] => w
  | bits :: rest =>
    let (w, window) := putXor w window (bits ^^^ prev)
    encodeXor32From w bits window rest

def encodeXor32 (first : F) (rest : List F) : Bytes :=
  let first := Float64.toF32Bits first
  (encodeXor32From (BitWriter.new.putBits first.toUInt64 32) first none
    (rest.map Float64.toF32Bits)).finish

/-- The window of the next word: the one at hand, or one read from the stream.
`32 - lead - sig` underflows where the stream asks for more than 32 bits. -/
def getWindow (r : BitReader) (window : Option Window) : Result (Window × BitReader) := do
  let (ctrl, r) ← okOr r.getBit "xor32"
  if ctrl = 0 then
    match window with
    | none => corrupt "xor32"
    | some prev => .ok (prev, r)
  else
    let (lead, r) ← okOr (r.getBits 5) "xor32"
    let (sig, r) ← okOr (r.getBits 5) "xor32"
    if inside : lead.toNat + (sig.toNat + 1) ≤ 32 then
      .ok (⟨lead.toNat, 32 - lead.toNat - (sig.toNat + 1), by omega⟩, r)
    else .error (.fault .underflow)

def getXor (r : BitReader) (prev : UInt32) (window : Option Window) :
    Result (UInt32 × Option Window × BitReader) := do
  let (ctrl, r) ← okOr r.getBit "xor32"
  if ctrl = 0 then .ok (prev, window, r)
  else
    let (window, r) ← getWindow r window
    let (meaningful, r) ← okOr (r.getBits window.sig) "xor32"
    .ok (prev ^^^ (meaningful.toUInt32 <<< UInt32.ofNat window.trail), some window, r)

def decodeXor32From (r : BitReader) (prev : UInt32) (window : Option Window) :
    Nat → Result (List UInt32)
  | 0 => .ok []
  | n + 1 => do
      let (bits, window, r) ← getXor r prev window
      let rest ← decodeXor32From r bits window n
      .ok (bits :: rest)

def decodeXor32 (bytes : Bytes) (count : Nat) : Result (List F) := do
  let (first, r) ← okOr ((BitReader.new bytes).getBits 32) "xor32"
  let rest ← decodeXor32From r first.toUInt32 none (count - 1)
  .ok ((first.toUInt32 :: rest).map Float64.ofF32Bits)

def xorBits (window : Option Window) (xor : UInt32) : List Bool :=
  if zero : xor = 0 then [false]
  else
    let fresh := Window.ofWord xor zero
    match Window.reuse window fresh with
    | some prev => [true, false] ++
        bitsOf prev.sig (xor >>> UInt32.ofNat prev.trail).toUInt64.toNat
    | none => [true, true] ++ bitsOf 5 fresh.lead ++ bitsOf 5 (fresh.sig - 1) ++
        bitsOf fresh.sig (xor >>> UInt32.ofNat fresh.trail).toUInt64.toNat

theorem Window.sig_bounds (window : Window) : 0 < window.sig ∧ window.sig ≤ 32 := by
  have inside := window.inside
  rw [sig]
  omega

theorem putXor_bits {window : Option Window} :
    (putXor w window xor).1.bits = w.bits ++ xorBits window xor := by
  unfold putXor xorBits
  split
  · rw [putBit_bits]; rfl
  next nonzero =>
    have small {n : Nat} (lt : n < 32) : (UInt64.ofNat n).toNat = n :=
      UInt64.toNat_ofNat_of_lt' (lt_trans lt (by decide))
    have inside := (Window.ofWord xor nonzero).inside
    have bounds := (Window.ofWord xor nonzero).sig_bounds
    have one : UInt32.toNat 1 = 1 := rfl
    dsimp only
    split
    next prev _ =>
      have width := prev.sig_bounds
      rw [putBits_bits _ _ (by omega), putBit_bits, putBit_bits]
      simp [one]
    · rw [putBits_bits _ _ (by omega), putBits_bits _ _ (by decide),
        putBits_bits _ _ (by decide), putBit_bits, putBit_bits,
        small (by omega), small (by omega)]
      simp [one]

variable {window : Option Window}

theorem Window.of_reuse {fresh prev : Window} (found : Window.reuse window fresh = some prev) :
    window = some prev ∧ prev.lead ≤ fresh.lead ∧ prev.trail ≤ fresh.trail := by
  rw [reuse, Option.filter_eq_some_iff] at found
  simpa using found

/-- A reader before a fresh window's header reads that window. -/
theorem getWindow_fresh {fresh : Window}
    (ahead : r.rest = true :: (bitsOf 5 fresh.lead ++ (bitsOf 5 (fresh.sig - 1) ++ tl)))
    (window : Option Window) : ∃ r', getWindow r window = .ok (fresh, r') ∧ r'.rest = tl := by
  have inside := fresh.inside
  have sig_eq : fresh.sig = 32 - fresh.lead - fresh.trail := rfl
  obtain ⟨r₁, ctrl, after₁⟩ := getBit_cons ahead
  obtain ⟨lead, r₂, read₂, lead_eq, after₂⟩ := getBits_bitsOf (by decide) after₁
  obtain ⟨sig, r₃, read₃, sig_eq', after₃⟩ := getBits_bitsOf (by decide) after₂
  have lead_val : lead.toNat = fresh.lead := by omega
  have fit : lead.toNat + (sig.toNat + 1) ≤ 32 := by omega
  refine ⟨r₃, ?_, after₃⟩
  simp only [getWindow, ctrl, okOr_some, ok_bind, word_eq_zero, Bool.true_eq_false,
    if_false, read₂, read₃, dif_pos fit]
  congr 2
  ext
  · exact lead_val
  · show 32 - lead.toNat - (sig.toNat + 1) = fresh.trail
    omega

/-- A reader before a word's code reads the word and the window after it. -/
theorem getXor_xorBits {prev bits : UInt32} (ahead : r.rest = xorBits window (bits ^^^ prev) ++ tl)
    (w : BitWriter) :
    ∃ r', getXor r prev window = .ok (bits, (putXor w window (bits ^^^ prev)).2, r') ∧
      r'.rest = tl := by
  have back : prev ^^^ (bits ^^^ prev) = bits := by
    rw [UInt32.xor_comm bits, ← UInt32.xor_assoc, UInt32.xor_self, UInt32.zero_xor]
  unfold putXor
  unfold xorBits at ahead
  split at ahead
  next zero =>
    obtain ⟨r', ctrl, after⟩ := getBit_cons ahead
    have same : prev = bits := by rw [← back, zero, UInt32.xor_zero]
    exact ⟨r', by simp [getXor, ctrl, same], after⟩
  next nonzero =>
    rw [dif_neg nonzero]
    have covers := Window.covers_ofWord (bits ^^^ prev) nonzero
    dsimp only at ahead ⊢
    split at ahead
    next old found =>
      obtain ⟨rfl, lead, trail⟩ := Window.of_reuse found
      have width := old.sig_bounds
      obtain ⟨r₁, ctrl, after₁⟩ := getBit_cons ahead
      obtain ⟨r₂, again, after₂⟩ := getBit_cons after₁
      obtain ⟨raw, r', read, low, after⟩ := getBits_bitsOf (by omega) after₂
      have word := (covers.wider lead trail).restore low
      refine ⟨r', ?_, after⟩
      simp [getXor, getWindow, ctrl, again, read, word, back]
    next found =>
      have width := (Window.ofWord (bits ^^^ prev) nonzero).sig_bounds
      obtain ⟨r₁, ctrl, after₁⟩ := getBit_cons ahead
      obtain ⟨r₂, header, after₂⟩ := getWindow_fresh after₁ window
      obtain ⟨raw, r', read, low, after⟩ := getBits_bitsOf (by omega) after₂
      have word := covers.restore low
      refine ⟨r', ?_, after⟩
      simp [getXor, ctrl, header, read, word, back]

/-- The code words of a run of words. -/
def xorsBits (prev : UInt32) (window : Option Window) : List UInt32 → List Bool
  | [] => []
  | bits :: rest =>
    xorBits window (bits ^^^ prev) ++
      xorsBits bits (putXor .new window (bits ^^^ prev)).2 rest

/-- The window after a word does not depend on where it is written. -/
theorem putXor_window (w' : BitWriter) : (putXor w window xor).2 = (putXor w' window xor).2 := by
  unfold putXor
  split
  · rfl
  · dsimp only
    split <;> rfl

variable (prev : UInt32)

theorem encodeXor32From_bits (window : Option Window) (words : List UInt32) :
    (encodeXor32From w prev window words).bits = w.bits ++ xorsBits prev window words := by
  induction words generalizing w prev window with
  | nil => rw [encodeXor32From, xorsBits, append_nil]
  | cons bits words ih =>
    rw [encodeXor32From, xorsBits, ih, putXor_bits, append_assoc, putXor_window .new w]

theorem decodeXor32From_xorsBits {prev : UInt32} {words : List UInt32}
    (ahead : r.rest = xorsBits prev window words ++ tl) :
    decodeXor32From r prev window words.length = .ok words := by
  induction words generalizing r prev window with
  | nil => rfl
  | cons bits words ih =>
    rw [xorsBits, append_assoc] at ahead
    obtain ⟨r', read, after⟩ := getXor_xorBits ahead .new
    simp only [length_cons, decodeXor32From, read, ok_bind, ih after]

theorem decodeXor32_encodeXor32 :
    decodeXor32 (encodeXor32 first rest) (rest.length + 1)
      = .ok ((first :: rest).map fun v => (ofF32Bits (toF32Bits v) : F)) := by
  have wide : (toF32Bits first).toUInt64.toNat = (toF32Bits first).toNat := rfl
  obtain ⟨pad, bits, _⟩ := finish_bits
    (encodeXor32From (BitWriter.new.putBits (toF32Bits first).toUInt64 32)
      (toF32Bits first) none (rest.map toF32Bits))
  rw [encodeXor32From_bits, putBits_bits _ _ (by decide), new_bits,
    nil_append, append_assoc, ← new_rest] at bits
  obtain ⟨raw, r, read, low, after⟩ := getBits_bitsOf (by decide) bits
  have value : raw.toUInt32 = toF32Bits first := by
    apply UInt32.toNat_inj.mp
    rw [UInt64.toNat_toUInt32, low, wide]
    have lt := (toF32Bits first).toNat_lt
    omega
  have words := decodeXor32From_xorsBits after
  rw [length_map] at words
  simp [decodeXor32, encodeXor32, read, value, words]

/-- A word takes at most 44 bits. -/
theorem length_xorsBits (window : Option Window) (words : List UInt32) :
    (xorsBits prev window words).length ≤ 44 * words.length := by
  induction words generalizing prev window with
  | nil => exact Nat.le_refl 0
  | cons bits words ih =>
    have one : (xorBits window (bits ^^^ prev)).length ≤ 44 := by
      unfold xorBits
      split
      · decide
      next nonzero =>
        dsimp only
        split
        next old _ =>
          have width := old.sig_bounds
          rw [length_append, length_bitsOf]
          exact Nat.le_trans (Nat.add_le_add_left width.2 _) (by decide)
        · have width := (Window.ofWord _ nonzero).sig_bounds
          simp only [length_append, length_bitsOf, length_cons, length_nil]
          omega
    have rest := ih bits (putXor .new window (bits ^^^ prev)).2
    rw [xorsBits, length_append, length_cons]
    omega

theorem length_encodeXor32 : (encodeXor32 first rest).length ≤ 5 + 6 * rest.length := by
  have bytes := length_finish
    (encodeXor32From (BitWriter.new.putBits (toF32Bits first).toUInt64 32)
      (toF32Bits first) none (rest.map toF32Bits))
  have words := length_xorsBits (toF32Bits first) none (rest.map toF32Bits)
  rw [encodeXor32From_bits, putBits_bits _ _ (by decide), new_bits,
    nil_append, length_append, length_bitsOf] at bytes
  rw [length_map] at words
  rw [encodeXor32]
  omega

end OpenGate.Tsdb
