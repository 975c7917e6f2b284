import OpenGate.Tsdb.Values
import OpenGate.Tsdb.Varint

/-!
# The compact block codec

`compact.rs`: implicit fixed-step timestamps with sparse exceptions, values in the
densest of the three codecs, and run-length anomaly bits.  Decoding an encoded
block gives every timestamp and every anomaly bit back exactly, and of each value
what the chosen codec kept.
-/

namespace OpenGate.Tsdb

open Float64 Sample List
open UInt64 (ofNat toNat_ofNat_of_lt')

variable {F : Type} [Float64 F]

/-! ## Anomaly bits -/

/-- The bits of `count` samples; a missing one reads as false. -/
def padded (anomaly : List Bool) (count : Nat) : List Bool :=
  (List.range count).map fun i => anomaly.getD i false

/-- The lengths of the alternating runs, from one of `len` bits `current`. -/
def runsFrom (current : Bool) (len : Nat) : List Bool → List Nat
  | [] => [len]
  | bit :: bits =>
    if bit = current then runsFrom current (len + 1) bits else len :: runsFrom bit 1 bits

def putRuns (runs : List Nat) : Bytes := runs.flatMap fun r => putUvarint (UInt64.ofNat r)

/-- Runs alternate starting from false, so a leading true yields an empty first run. -/
def putAnomalyRle (anomaly : List Bool) (count : Nat) : Bytes :=
  let runs := runsFrom false 0 (padded anomaly count)
  putUvarint (UInt64.ofNat runs.length) ++ putRuns runs

def getRuns (bytes : Bytes) (pos : Nat) (current : Bool) (out : List Bool) :
    Nat → Result (List Bool)
  | 0 => .ok out
  | n + 1 => do
      let (len, pos) ← okOr (getUvarint bytes pos) "compact"
      reserve (out.length + len.toNat) 1
      getRuns bytes pos (!current) (out ++ List.replicate len.toNat current) n

def getAnomalyRle (bytes : Bytes) (pos count : Nat) : Result (List Bool) := do
  let (nRuns, pos) ← okOr (getUvarint bytes pos) "compact"
  let out ← getRuns bytes pos false [] nRuns.toNat
  let out := out.take count
  .ok (out ++ List.replicate (count - out.length) false)

/-! ## Values -/

def codecXor32 : UInt8 := 0

def codecFixedDod : UInt8 := 1

def codecIntDod : UInt8 := 2

def integral (values : List F) : Bool :=
  values.all fun v =>
    Float64.eq (Float64.fract v) Float64.zero && Float64.lt (Float64.abs v) Float64.intSafe

/-- The denser of the two codecs that need no scale. -/
def selectUnscaled (first : F) (rest : List F) : UInt8 × Bytes :=
  let xor := encodeXor32 first rest
  if integral (first :: rest) then
    let intdod := encodeIntDod first rest
    if intdod.length ≤ xor.length then (codecIntDod, intdod) else (codecXor32, xor)
  else (codecXor32, xor)

/-- Picks the densest value codec; a fixed-point candidate must be strictly smaller. -/
def selectValueCodec (first : F) (rest : List F) (scale : Option Int64) : UInt8 × Bytes :=
  let best := selectUnscaled first rest
  match scale.filter fun s => decide (s > 0) with
  | some scale =>
    let fixed := encodeFixedDod first rest scale
    if fixed.length < best.2.length then (codecFixedDod, fixed) else best
  | none => best

def decodeValues (codec : UInt8) (bytes : Bytes) (count : Nat) : Result (List F) :=
  if codec = codecXor32 then decodeXor32 bytes count
  else if codec = codecFixedDod then decodeFixedDod bytes count
  else if codec = codecIntDod then decodeIntDod bytes count
  else corrupt "unknown value codec"

/-! ## Blocks -/

def expectedTs (firstTs step : Int64) (i : Nat) : Int64 := firstTs + Int64.ofNat i * step

/-- The samples off the step, by index, with how far off they are. -/
def exceptionsFrom (firstTs step : Int64) (i : Nat) : List Int64 → List (Nat × Int64)
  | [] => []
  | ts :: rest =>
    let expected := expectedTs firstTs step i
    if ts ≠ expected then (i, ts - expected) :: exceptionsFrom firstTs step (i + 1) rest
    else exceptionsFrom firstTs step (i + 1) rest

def putExceptions (prevIdx : Nat) : List (Nat × Int64) → Bytes
  | [] => []
  | (idx, delta) :: exc =>
    putUvarint (UInt64.ofNat (idx - prevIdx)) ++ putIvarint delta ++ putExceptions idx exc

def blockBytes (count : Nat) (firstTs step : Int64) (codec : UInt8) (exc : List (Nat × Int64))
    (valueBytes : Bytes) (anomaly : List Bool) : Bytes :=
  leBytes 4 count ++ i64Bytes firstTs ++ i64Bytes step ++ [codec] ++
    (putUvarint (UInt64.ofNat exc.length) ++ (putExceptions 0 exc ++
      (putUvarint (UInt64.ofNat valueBytes.length) ++ (valueBytes ++ putAnomalyRle anomaly count))))

/-- Encodes a block; a fixed-point block stores its scale inline. -/
def encodeCompactScaled (samples : List (Sample F)) (anomaly : List Bool) (step : Int64)
    (scale : Option Int64) : Bytes :=
  match samples with
  | [] => leBytes 4 0
  | first :: rest =>
    let choice := selectValueCodec first.value (rest.map Sample.value) scale
    let exc := exceptionsFrom first.ts step 0 (samples.map Sample.ts)
    blockBytes samples.length first.ts step choice.1 exc choice.2 anomaly

def getExceptions (bytes : Bytes) (pos prevIdx : Nat) : Nat → Result (List (Nat × Int64) × Nat)
  | 0 => .ok ([], pos)
  | n + 1 => do
      let (gap, pos) ← okOr (getUvarint bytes pos) "compact"
      let idx ← addUsize prevIdx gap.toNat
      let (delta, pos) ← okOr (getIvarint bytes pos) "compact"
      let (exc, pos) ← getExceptions bytes pos idx n
      .ok ((idx, delta) :: exc, pos)

def slice (bytes : Bytes) (pos stop : Nat) : Option Bytes :=
  if pos ≤ stop ∧ stop ≤ bytes.length then some ((bytes.drop pos).take (stop - pos)) else none

def placed (firstTs step : Int64) (i : Nat) : List F → List (Sample F)
  | [] => []
  | v :: rest => ⟨expectedTs firstTs step i, v⟩ :: placed firstTs step (i + 1) rest

/-- An index past the block is passed over. -/
def applyExceptions (out : List (Sample F)) (exc : List (Nat × Int64)) : List (Sample F) :=
  exc.foldl (fun out e => out.modify e.1 fun s => { s with ts := s.ts + e.2 }) out

def decodeCompact (bytes : Bytes) : Result (List (Sample F) × List Bool) := do
  if bytes.length < 4 then corrupt "compact"
  let count := leNat (bytes.take 4)
  if count = 0 then .ok ([], [])
  else
    if bytes.length < 21 then corrupt "compact"
    let firstTs := i64Of ((bytes.drop 4).take 8)
    let step := i64Of ((bytes.drop 12).take 8)
    let codec := bytes.getD 20 0
    let (nExc, pos) ← okOr (getUvarint bytes 21) "compact"
    reserve nExc.toNat 16
    let (exceptions, pos) ← getExceptions bytes pos 0 nExc.toNat
    let (vlen, pos) ← okOr (getUvarint bytes pos) "compact"
    let stop ← addUsize pos vlen.toNat
    let vbytes ← okOr (slice bytes pos stop) "compact"
    let values ← decodeValues codec vbytes count
    let anomaly ← getAnomalyRle bytes stop count
    .ok (applyExceptions (placed firstTs step 0 values) exceptions, anomaly)

/-! ## Reading the anomaly bits back -/

/-- The bits a list of runs stands for. -/
def expand (current : Bool) : List Nat → List Bool
  | [] => []
  | len :: runs => List.replicate len current ++ expand (!current) runs

variable (current : Bool) (len : Nat) (bits : List Bool)

theorem expand_runsFrom :
    expand current (runsFrom current len bits) = List.replicate len current ++ bits := by
  induction bits generalizing current len with
  | nil => simp [runsFrom, expand]
  | cons bit bits ih =>
    rw [runsFrom]
    split
    next same =>
      rw [ih, same, replicate_succ', append_assoc, singleton_append]
    next other =>
      have flip : (!current) = bit := by cases bit <;> cases current <;> simp_all
      rw [expand, flip, ih]
      rfl

theorem length_runsFrom : (runsFrom current len bits).length ≤ bits.length + 1 := by
  induction bits generalizing current len with
  | nil => exact Nat.le_refl 1
  | cons bit bits ih =>
    rw [runsFrom]
    split
    · have rest := ih current (len + 1)
      rw [length_cons]
      omega
    · have rest := ih bit 1
      rw [length_cons, length_cons]
      omega

variable {bytes : Bytes} {tl : Bytes} {pos : Nat}

theorem getRuns_putRuns {current : Bool} (out : List Bool) {runs : List Nat}
    (fits : out.length + (expand current runs).length < 2 ^ 33)
    (ahead : bytes.drop pos = putRuns runs ++ tl) :
    getRuns bytes pos current out runs.length = .ok (out ++ expand current runs) := by
  induction runs generalizing pos current out with
  | nil => rw [length_nil, getRuns, expand, append_nil]
  | cons len runs ih =>
    rw [expand, length_append, length_replicate] at fits
    rw [putRuns, flatMap_cons, append_assoc] at ahead
    obtain ⟨pos', read, after⟩ := getUvarint_putUvarint ahead
    have value : (ofNat len).toNat = len := toNat_ofNat_of_lt' (by
      change len < 2 ^ 64
      omega)
    have room : (out.length + len) * 1 ≤ isizeMax := by
      rw [isizeMax]
      omega
    have rest := @ih pos' (!current) (out ++ List.replicate len current)
      (by rw [length_append, length_replicate]; omega) after
    rw [length_cons, getRuns, read, okOr_some, ok_bind]
    simp only [value, reserve, if_pos room, ok_bind, rest, expand, append_assoc]

variable (anomaly : List Bool) (count : Nat)

@[simp] theorem length_padded : (padded anomaly count).length = count := by simp [padded]

theorem getAnomalyRle_putAnomalyRle {count : Nat} {anomaly : List Bool} (small : count < 2 ^ 32)
    (ahead : bytes.drop pos = putAnomalyRle anomaly count ++ tl) :
    getAnomalyRle bytes pos count = .ok (padded anomaly count) := by
  have whole : expand false (runsFrom false 0 (padded anomaly count)) = padded anomaly count := by
    rw [expand_runsFrom, replicate_zero, nil_append]
  have few := length_runsFrom false 0 (padded anomaly count)
  rw [length_padded] at few
  rw [putAnomalyRle, append_assoc] at ahead
  obtain ⟨pos', read, after⟩ := getUvarint_putUvarint ahead
  have value : (ofNat (runsFrom false 0 (padded anomaly count)).length).toNat
      = (runsFrom false 0 (padded anomaly count)).length := toNat_ofNat_of_lt' (by
    change _ < 2 ^ 64
    omega)
  have runs := getRuns_putRuns [] (by rw [whole, length_padded]; simp; omega) after
  rw [whole, nil_append] at runs
  simp only [getAnomalyRle, read, okOr_some, ok_bind, value, runs]
  simp

/-! ## Reading the timestamps back -/

variable (first : F) (firstTs : Int64) {tss : List Int64} {values : List F} {rest : List F}
  {codec : UInt8} (samples : List (Sample F)) (step : Int64) {scale : Option Int64}

theorem length_exceptionsFrom (i : Nat) (tss : List Int64) :
    (exceptionsFrom firstTs step i tss).length ≤ tss.length := by
  induction tss generalizing i with
  | nil => exact Nat.le_refl 0
  | cons ts tss ih =>
    have rest := ih (i + 1)
    rw [exceptionsFrom]
    split
    · rw [length_cons, length_cons]
      omega
    · rw [length_cons]
      omega

theorem getExceptions_putExceptions {prevIdx i : Nat} {firstTs step : Int64} (passed : prevIdx ≤ i)
    (small : i + tss.length < 2 ^ 33)
    (ahead : bytes.drop pos = putExceptions prevIdx (exceptionsFrom firstTs step i tss) ++ tl) :
    ∃ pos', getExceptions bytes pos prevIdx (exceptionsFrom firstTs step i tss).length
        = .ok (exceptionsFrom firstTs step i tss, pos') ∧ bytes.drop pos' = tl := by
  -- indices are written as gaps, so the reader's sum is the index of the last exception
  induction tss generalizing pos prevIdx i with
  | nil => exact ⟨pos, rfl, ahead⟩
  | cons ts tss ih =>
    rw [length_cons] at small
    rw [exceptionsFrom] at ahead ⊢
    split at ahead
    next off =>
      rw [if_pos off]
      rw [putExceptions, append_assoc, append_assoc] at ahead
      obtain ⟨pos₁, gap, after₁⟩ := getUvarint_putUvarint ahead
      obtain ⟨pos₂, delta, after₂⟩ := getIvarint_putIvarint after₁
      obtain ⟨pos', rest, after⟩ := ih (Nat.le_succ i) (by omega) after₂
      have value : (ofNat (i - prevIdx)).toNat = i - prevIdx :=
        toNat_ofNat_of_lt' (by change _ < 2 ^ 64; omega)
      have index : addUsize prevIdx (i - prevIdx) = .ok i := by
        have sum : prevIdx + (i - prevIdx) = i := by omega
        rw [addUsize, sum, if_pos (by rw [usizeMax]; omega)]
      exact ⟨pos', by simp [getExceptions, gap, value, index, delta, rest], after⟩
    next on =>
      rw [if_neg on]
      exact ih (by omega) (by omega) ahead

omit [Float64 F] in
/-- The exceptions move each sample to its own timestamp. -/
theorem applyExceptions_exceptionsFrom (same : tss.length = values.length)
    (before : List (Sample F)) :
    applyExceptions (before ++ placed firstTs step before.length values)
        (exceptionsFrom firstTs step before.length tss)
      = before ++ zipWith Sample.mk tss values := by
  induction tss generalizing values before with
  | nil =>
    have none : values = [] := eq_nil_of_length_eq_zero same.symm
    simp [none, placed, exceptionsFrom, applyExceptions]
  | cons ts tss ih =>
    cases values with
    | nil => cases same
    | cons v values =>
      have rest := ih (Nat.succ.inj same) (before ++ [⟨ts, v⟩])
      rw [length_append, length_singleton, append_assoc, singleton_append] at rest
      rw [placed, exceptionsFrom, zipWith_cons_cons, ← singleton_append, ← append_assoc]
      split
      next off =>
        have moved : expectedTs firstTs step before.length
            + (ts - expectedTs firstTs step before.length) = ts := by grind
        have here : List.modify (before ++ ⟨expectedTs firstTs step before.length, v⟩ ::
              placed firstTs step (before.length + 1) values) before.length
              (fun s => { s with
                ts := s.ts + (ts - expectedTs firstTs step before.length) })
            = before ++ ⟨ts, v⟩ :: placed firstTs step (before.length + 1) values := by
          simp [modify_eq_set_getElem?, moved]
        rw [applyExceptions, foldl_cons, append_assoc, singleton_append,
          here, ← applyExceptions, rest, append_assoc, singleton_append]
      next on =>
        have expected : ts = expectedTs firstTs step before.length := not_not.mp on
        rw [← expected, append_assoc, singleton_append, rest, append_assoc, singleton_append]

/-! ## Reading the values back -/

/-- What a codec keeps of a value. -/
def kept (codec : UInt8) (scale : Option Int64) (v : F) : F :=
  if codec = codecXor32 then Float64.ofF32Bits (Float64.toF32Bits v)
  else if codec = codecFixedDod then
    Float64.div (Float64.ofI64 (fixedPoint (scale.getD 0) v)) (Float64.ofI64 (scale.getD 0))
  else Float64.ofI64 (Float64.toI64 v)

/-- A choice of codec decodes to what the codec keeps, in no more bytes than the
XOR codec takes. -/
def Faithful (first : F) (rest : List F) (scale : Option Int64) (choice : UInt8 × Bytes) : Prop :=
  decodeValues choice.1 choice.2 (rest.length + 1)
      = .ok ((first :: rest).map (kept choice.1 scale)) ∧
    choice.2.length ≤ (encodeXor32 first rest).length

theorem faithful_xor32 : Faithful first rest scale (codecXor32, encodeXor32 first rest) := by
  have keeps : kept codecXor32 scale = fun v : F => ofF32Bits (toF32Bits v) := rfl
  refine ⟨?_, Nat.le_refl _⟩
  rw [decodeValues, if_pos rfl, decodeXor32_encodeXor32, keeps]

theorem faithful_intDod {first : F}
    (denser : (encodeIntDod first rest).length ≤ (encodeXor32 first rest).length) :
    Faithful first rest scale (codecIntDod, encodeIntDod first rest) := by
  have keeps : kept codecIntDod scale = fun v : F => ofI64 (toI64 v) := rfl
  have other : ¬ codecIntDod = codecXor32 ∧ ¬ codecIntDod = codecFixedDod := by decide
  refine ⟨?_, denser⟩
  rw [decodeValues, if_neg other.1, if_neg other.2, if_pos rfl, decodeIntDod_encodeIntDod, keeps]

theorem faithful_fixedDod {first : F} {scale : Int64} (positive : scale > 0)
    (denser : (encodeFixedDod first rest scale).length ≤ (encodeXor32 first rest).length) :
    Faithful first rest (some scale) (codecFixedDod, encodeFixedDod first rest scale) := by
  have keeps : kept codecFixedDod (some scale) = fun v : F =>
    Float64.div (ofI64 (fixedPoint scale v)) (ofI64 scale) := rfl
  have nonzero : scale ≠ 0 := by
    rintro rfl
    exact absurd positive (by decide)
  have other : ¬ codecFixedDod = codecXor32 := by decide
  refine ⟨?_, denser⟩
  rw [decodeValues, if_neg other, if_pos rfl, decodeFixedDod_encodeFixedDod _ _ nonzero, keeps]

theorem faithful_unscaled (rest : List F) (scale : Option Int64) :
    Faithful first rest scale (selectUnscaled first rest) := by
  unfold selectUnscaled
  dsimp only
  split_ifs with whole denser
  · exact faithful_intDod denser
  · exact faithful_xor32 first
  · exact faithful_xor32 first

theorem faithful_selectValueCodec (rest : List F) (scale : Option Int64) :
    Faithful first rest scale (selectValueCodec first rest scale) := by
  have unscaled := faithful_unscaled first rest scale
  unfold selectValueCodec
  dsimp only
  split
  next k chosen =>
    obtain ⟨rfl, positive⟩ := Option.filter_eq_some_iff.mp chosen
    split
    next smaller =>
      exact faithful_fixedDod (of_decide_eq_true positive)
        (Nat.le_trans (Nat.le_of_lt smaller) unscaled.2)
    · exact unscaled
  · exact unscaled

/-! ## Reading a block back -/

/-- The fields of a block's header, and what follows it. -/
theorem header_fields {count firstTs step rest : Bytes} (h₁ : count.length = 4)
    (h₂ : firstTs.length = 8) (h₃ : step.length = 8)
    (is : bytes = count ++ firstTs ++ step ++ [codec] ++ rest) :
    bytes.length = 21 + rest.length ∧ bytes.take 4 = count ∧ (bytes.drop 4).take 8 = firstTs ∧
      (bytes.drop 12).take 8 = step ∧ bytes.getD 20 0 = codec ∧ bytes.drop 21 = rest := by
  simp only [append_assoc, singleton_append] at is
  have after₁ : bytes.drop 4 = firstTs ++ (step ++ codec :: rest) := by
    rw [is, drop_left' h₁]
  have after₂ : bytes.drop 12 = step ++ codec :: rest := by
    rw [show 12 = 4 + 8 from rfl, ← drop_drop, after₁, drop_left' h₂]
  have after₃ : bytes.drop 20 = codec :: rest := by
    rw [show 20 = 12 + 8 from rfl, ← drop_drop, after₂, drop_left' h₃]
  obtain ⟨byte, tail⟩ := getElem?_of_drop after₃
  refine ⟨?_, ?_, ?_, ?_, ?_, tail⟩
  · rw [is]
    simp [h₁, h₂, h₃]
    omega
  · rw [is, take_left' h₁]
  · rw [after₁, take_left' h₂]
  · rw [after₂, take_left' h₃]
  · rw [getD_eq_getElem?_getD, byte, Option.getD_some]

theorem slice_append {part : Bytes} (nonempty : tl ≠ []) (ahead : bytes.drop pos = part ++ tl) :
    pos + part.length ≤ bytes.length ∧ slice bytes pos (pos + part.length) = some part ∧
      bytes.drop (pos + part.length) = tl := by
  have lengths := congrArg List.length ahead
  have some := length_pos_iff.mpr nonempty
  rw [length_drop, length_append] at lengths
  refine ⟨by omega, ?_, ?_⟩
  · rw [slice, if_pos (by omega), Nat.add_sub_cancel_left, ahead, take_left' rfl]
  · rw [← drop_drop, ahead, drop_left' rfl]

theorem putUvarint_ne_nil (v : UInt64) : putUvarint v ≠ [] := by
  rw [putUvarint, uvarintTurns, putUvarintFrom]
  split <;> exact cons_ne_nil _ _

theorem putAnomalyRle_ne_nil : putAnomalyRle anomaly count ≠ [] :=
  append_ne_nil_of_left_ne_nil (putUvarint_ne_nil _) _

omit [Float64 F] in
theorem zipWith_ts_value (f : F → F) :
    zipWith Sample.mk (samples.map Sample.ts) ((samples.map value).map f)
      = samples.map fun s => { s with value := f s.value } := by
  induction samples with
  | nil => rfl
  | cons s samples ih => simp

/-- A block from its parts reads back as its parts, put together again. -/
theorem decodeCompact_blockBytes (tss : List Int64) {valueBytes : Bytes} (anomaly : List Bool)
    (nonempty : tss.length ≠ 0) (small : tss.length < 2 ^ 32)
    (readable : decodeValues codec valueBytes tss.length = .ok values)
    (short : (blockBytes tss.length firstTs step codec (exceptionsFrom firstTs step 0 tss)
      valueBytes anomaly).length ≤ usizeMax) :
    decodeCompact (blockBytes tss.length firstTs step codec (exceptionsFrom firstTs step 0 tss)
        valueBytes anomaly)
      = .ok (applyExceptions (placed firstTs step 0 values) (exceptionsFrom firstTs step 0 tss),
          padded anomaly tss.length) := by
  have few := length_exceptionsFrom firstTs step 0 tss
  obtain ⟨total, count, first, stepAt, codecAt, body⟩ := header_fields
    (length_leBytes 4 tss.length) (length_i64Bytes firstTs) (length_i64Bytes step)
    (blockBytes.eq_1 tss.length firstTs step codec (exceptionsFrom firstTs step 0 tss)
      valueBytes anomaly)
  generalize blockBytes tss.length firstTs step codec (exceptionsFrom firstTs step 0 tss)
    valueBytes anomaly = bytes at *
  have number : leNat (bytes.take 4) = tss.length := by
    have below : tss.length < 256 ^ 4 := small
    rw [count, leNat_leBytes, Nat.mod_eq_of_lt below]
  obtain ⟨pos₁, readCount, after₁⟩ := getUvarint_putUvarint body
  obtain ⟨pos₂, readEach, after₂⟩ := getExceptions_putExceptions (Nat.le_refl 0) (by omega) after₁
  obtain ⟨pos₃, readLen, after₃⟩ := getUvarint_putUvarint after₂
  obtain ⟨inside, values, after₄⟩ := slice_append (putAnomalyRle_ne_nil _ _) after₃
  have bits := getAnomalyRle_putAnomalyRle small (after₄.trans (append_nil _).symm)
  have max : usizeMax = 2 ^ 64 - 1 := rfl
  have countValue : (ofNat (exceptionsFrom firstTs step 0 tss).length).toNat
      = (exceptionsFrom firstTs step 0 tss).length :=
    toNat_ofNat_of_lt' (by change _ < 2 ^ 64; omega)
  have lenValue : (ofNat valueBytes.length).toNat = valueBytes.length :=
    toNat_ofNat_of_lt' (by change _ < 2 ^ 64; omega)
  have room : reserve (exceptionsFrom firstTs step 0 tss).length 16 = .ok () :=
    if_pos (by rw [isizeMax]; omega)
  have stop : addUsize pos₃ valueBytes.length = .ok (pos₃ + valueBytes.length) :=
    if_pos (by omega)
  have long : ¬ bytes.length < 4 ∧ ¬ bytes.length < 21 := by omega
  rw [getD_eq_getElem?_getD] at codecAt
  simp [decodeCompact, long, number, nonempty, first, stepAt, codecAt, readCount, countValue, room,
    readEach, readLen, lenValue, stop, values, readable, bits]

def blockCodec (samples : List (Sample F)) (scale : Option Int64) : UInt8 :=
  match samples with
  | [] => codecXor32
  | first :: rest => (selectValueCodec first.value (rest.map Sample.value) scale).1

/-- What a block keeps of its samples: their timestamps exactly, their values as
its codec has them. -/
def keptSamples (samples : List (Sample F)) (scale : Option Int64) : List (Sample F) :=
  samples.map fun s => { s with value := kept (blockCodec samples scale) scale s.value }

/-- `decode_compact` undoes `encode_compact_scaled`. -/
theorem decodeCompact_encodeCompactScaled (anomaly : List Bool) (step : Int64)
    (scale : Option Int64) (small : samples.length < 2 ^ 32)
    (short : (encodeCompactScaled samples anomaly step scale).length ≤ usizeMax) :
    decodeCompact (encodeCompactScaled samples anomaly step scale)
      = .ok (keptSamples samples scale, padded anomaly samples.length) := by
  cases samples with
  | nil => rfl
  | cons first rest =>
    have count : ((first :: rest).map Sample.ts).length = (first :: rest).length :=
      length_map _
    obtain ⟨readable, _⟩ := faithful_selectValueCodec first.value (rest.map value) scale
    rw [length_map] at readable
    have paired : ((first :: rest).map Sample.ts).length
        = (((first :: rest).map value).map
          (kept (blockCodec (first :: rest) scale) scale)).length := by
      simp
    have samplesBack := applyExceptions_exceptionsFrom first.ts step paired []
    rw [nil_append, nil_append, zipWith_ts_value] at samplesBack
    have decoded := decodeCompact_blockBytes first.ts step ((first :: rest).map Sample.ts)
      anomaly (by simp)
      (by rw [count]; exact small) (by rw [count]; exact readable) (by rw [count]; exact short)
    rw [count] at decoded
    rw [encodeCompactScaled, decoded, keptSamples, ← samplesBack]
    rfl

/-- A block is short: a bounded number of bytes for each sample. -/
theorem length_encodeCompactScaled (anomaly : List Bool) (step : Int64) (scale : Option Int64) :
    (encodeCompactScaled samples anomaly step scale).length ≤ 80 + 40 * samples.length := by
  have exceptions (prevIdx : Nat) (exc : List (Nat × Int64)) :
      (putExceptions prevIdx exc).length ≤ 20 * exc.length := by
    induction exc generalizing prevIdx with
    | nil => exact Nat.le_refl 0
    | cons e exc ih =>
      have gap := length_putUvarint (ofNat (e.1 - prevIdx))
      have delta := length_putUvarint (zigzag e.2)
      have rest := ih e.1
      rw [putExceptions, putIvarint, length_append, length_append, length_cons]
      omega
  have runs (rs : List Nat) : (putRuns rs).length ≤ 10 * rs.length := by
    induction rs with
    | nil => exact Nat.le_refl 0
    | cons r rs ih =>
      have one := length_putUvarint (ofNat r)
      rw [putRuns] at ih
      rw [putRuns, flatMap_cons, length_append, length_cons]
      omega
  cases samples with
  | nil => simp [encodeCompactScaled]
  | cons first rest =>
    obtain ⟨_, values⟩ := faithful_selectValueCodec first.value (rest.map value) scale
    have xor := length_encodeXor32 first.value (rest.map value)
    have excs := exceptions 0
      (exceptionsFrom first.ts step 0 ((first :: rest).map Sample.ts))
    have few := length_exceptionsFrom first.ts step 0 ((first :: rest).map Sample.ts)
    have bits := runs (runsFrom false 0 (padded anomaly (first :: rest).length))
    have fewRuns := length_runsFrom false 0 (padded anomaly (first :: rest).length)
    rw [length_map] at few xor
    rw [length_padded] at fewRuns
    rw [encodeCompactScaled, blockBytes, putAnomalyRle]
    simp only [length_append, length_leBytes, length_i64Bytes, length_singleton]
    have v₁ := length_putUvarint (ofNat
      (exceptionsFrom first.ts step 0 ((first :: rest).map Sample.ts)).length)
    have v₂ :=
      length_putUvarint (ofNat (selectValueCodec first.value (rest.map value) scale).2.length)
    have v₃ := length_putUvarint (ofNat
      (runsFrom false 0 (padded anomaly (first :: rest).length)).length)
    rw [length_cons] at *
    omega

end OpenGate.Tsdb
