import OpenGate.Direct.Frame

/-!
# MessagePack, as far as notices use it

A `WireCodec` for concrete runs: maps of at most fifteen fields, ASCII strings
and unsigned integers, each in the shortest form as the packages write them.
Every key and tag of the protocol is ASCII.

`lawful` shows that `LawfulCodec` asks nothing impossible: the real layout of the
hand-off's notices has it.
-/

namespace OpenGate.Direct.Msgpack

open ControlMessage List
open UInt8 (ofNat reduceToNat toNat_ofNat')

/-! ## Unsigned integers -/

/-- A number in `width` bytes, the highest first. -/
def beBytes : Nat → Nat → Bytes
  | 0, _ => []
  | width + 1, n => beBytes width (n / 256) ++ [UInt8.ofNat n]

def beNat (bytes : Bytes) : Nat := bytes.foldl (fun n b => n * 256 + b.toNat) 0

@[simp] theorem length_beBytes (width n : Nat) : (beBytes width n).length = width := by
  induction width generalizing n with
  | zero => rfl
  | succ width ih => simp only [beBytes, length_append, ih, length_cons, length_nil]

theorem beNat_beBytes {width n : Nat} (fits : n < 256 ^ width) : beNat (beBytes width n) = n := by
  induction width generalizing n with
  | zero =>
    simp only [Nat.pow_zero, Nat.lt_one_iff] at fits
    rw [fits]
    rfl
  | succ width ih =>
    have high := ih (n := n / 256) (by omega)
    simp only [beNat] at high
    simp only [beNat, beBytes, foldl_append, high, foldl_cons, foldl_nil, toNat_ofNat']
    omega

/-- How many bytes follow the marker of an integer. -/
def uintWidth (marker : UInt8) : Option Nat :=
  if marker = 0xcc then some 1
  else if marker = 0xcd then some 2
  else if marker = 0xce then some 4
  else if marker = 0xcf then some 8
  else none

/-- The shortest form that holds the number, as `rmp` writes it. -/
def packUint (v : UInt64) : Bytes :=
  let n := v.toNat
  if n < 128 then [UInt8.ofNat n]
  else if n < 256 then 0xcc :: beBytes 1 n
  else if n < 65536 then 0xcd :: beBytes 2 n
  else if n < 4294967296 then 0xce :: beBytes 4 n
  else 0xcf :: beBytes 8 n

/-- Any form is read, the shortest or not. -/
def readUint : Bytes → Option (UInt64 × Bytes)
  | [] => none
  | marker :: rest =>
    if marker < 128 then some (UInt64.ofNat marker.toNat, rest)
    else
      match uintWidth marker with
      | some width =>
        if rest.length < width then none
        else some (UInt64.ofNat (beNat (rest.take width)), rest.drop width)
      | none => none

variable {rest : Bytes} {v : UInt64}

theorem readUint_wide {marker : UInt8} {width : Nat} (wide : ¬ marker < 128)
    (is : uintWidth marker = some width) (fits : v.toNat < 256 ^ width) :
    readUint (marker :: (beBytes width v.toNat ++ rest)) = some (v, rest) := by
  have take : (beBytes width v.toNat ++ rest).take width = beBytes width v.toNat := by
    rw [take_append_of_le_length (by rw [length_beBytes]), take_of_length_le]
    rw [length_beBytes]
  have drop : (beBytes width v.toNat ++ rest).drop width = rest :=
    drop_left' (length_beBytes width v.toNat)
  have long : ¬ (beBytes width v.toNat ++ rest).length < width := by
    rw [length_append, length_beBytes]
    omega
  simp only [readUint, if_neg wide, is, if_neg long, take, drop, beNat_beBytes fits,
    UInt64.ofNat_toNat]

/-- One case for each form. -/
theorem readUint_packUint : readUint (packUint v ++ rest) = some (v, rest) := by
  have bound := v.toNat_lt
  unfold packUint
  simp only
  split
  next small =>
    have byte : (ofNat v.toNat).toNat = v.toNat := by
      rw [toNat_ofNat']
      omega
    have low : ofNat v.toNat < 128 := by
      rw [UInt8.lt_iff_toNat_lt, byte]
      exact small
    simp only [cons_append, nil_append, readUint, if_pos low, byte, UInt64.ofNat_toNat]
  · split
    next fits => exact readUint_wide (by decide) rfl (by omega)
    · split
      next fits => exact readUint_wide (by decide) rfl (by omega)
      · split
        next fits => exact readUint_wide (by decide) rfl (by omega)
        · exact readUint_wide (by decide) rfl (by omega)

theorem length_packUint (v : UInt64) : (packUint v).length ≤ 9 := by
  unfold packUint
  simp only
  split_ifs <;> simp

/-! ## Strings -/

/-- Field names and tags are ASCII. -/
def asciiBytes (s : String) : Bytes := s.toList.map fun c => UInt8.ofNat c.toNat

def ofAscii (bytes : Bytes) : String := String.ofList (bytes.map fun b => Char.ofNat b.toNat)

/-- A string whose header is one byte and whose characters are too. -/
def Short (s : String) : Prop := s.toList.length < 32 ∧ ∀ c ∈ s.toList, c.toNat < 128

variable {s : String} {fields : WireMap} {m : ControlMessage}

theorem ofAscii_asciiBytes (short : Short s) : ofAscii (asciiBytes s) = s := by
  have back : ∀ c ∈ s.toList, Char.ofNat (ofNat c.toNat).toNat = c := by
    intro c inside
    have ascii := short.2 c inside
    rw [toNat_ofNat', Nat.mod_eq_of_lt (by omega), Char.ofNat_toNat]
  have same : (asciiBytes s).map (fun b => Char.ofNat b.toNat) = s.toList := by
    unfold asciiBytes
    rw [map_map]
    exact (map_congr_left back).trans (map_id _)
  rw [ofAscii, same, String.ofList_toList]

/-- The marker and the length of a string, in the shortest form. -/
def strHeader (n : Nat) : Bytes :=
  if n < 32 then [UInt8.ofNat (0xa0 + n)]
  else if n < 256 then 0xd9 :: beBytes 1 n
  else if n < 65536 then 0xda :: beBytes 2 n
  else 0xdb :: beBytes 4 n

def packStr (s : String) : Bytes := strHeader (asciiBytes s).length ++ asciiBytes s

def takeStr (n : Nat) (bytes : Bytes) : Option (String × Bytes) :=
  if bytes.length < n then none else some (ofAscii (bytes.take n), bytes.drop n)

/-- A string, whatever the form of its length. -/
def readStr : Bytes → Option (String × Bytes)
  | [] => none
  | marker :: rest =>
    if 0xa0 ≤ marker && marker ≤ 0xbf then takeStr (marker.toNat - 0xa0) rest
    else if marker = 0xd9 then takeStr (beNat (rest.take 1)) (rest.drop 1)
    else if marker = 0xda then takeStr (beNat (rest.take 2)) (rest.drop 2)
    else if marker = 0xdb then takeStr (beNat (rest.take 4)) (rest.drop 4)
    else none

theorem length_asciiBytes (s : String) : (asciiBytes s).length = s.toList.length :=
  length_map _

theorem packStr_short (short : Short s) :
    packStr s = ofNat (0xa0 + s.toList.length) :: asciiBytes s := by
  unfold packStr strHeader
  rw [length_asciiBytes, if_pos short.1]
  rfl

theorem shortMarker {n : Nat} (small : n < 32) :
    (ofNat (0xa0 + n)).toNat = 0xa0 + n := by
  rw [toNat_ofNat']
  omega

/-- Names and tags have a one-byte header. -/
theorem readStr_packStr (short : Short s) (rest : Bytes) :
    readStr (packStr s ++ rest) = some (s, rest) := by
  have marker := shortMarker short.1
  have length := length_asciiBytes s
  have bound := short.1
  have fix : (0xa0 ≤ ofNat (0xa0 + s.toList.length) &&
      ofNat (0xa0 + s.toList.length) ≤ 0xbf) := by
    simp only [Bool.and_eq_true, decide_eq_true_eq, UInt8.le_iff_toNat_le, marker]
    exact ⟨by simp, by simp only [reduceToNat]; omega⟩
  have take : (asciiBytes s ++ rest).take s.toList.length = asciiBytes s := by
    rw [← length, take_left']
    rfl
  have drop : (asciiBytes s ++ rest).drop s.toList.length = rest := drop_left' length
  rw [packStr_short short]
  simp only [cons_append, readStr, if_pos fix, takeStr, marker, Nat.add_sub_cancel_left, take,
    drop, length_append, length, ofAscii_asciiBytes short]
  rw [if_neg (by omega)]

/-! ## Maps -/

def packValue : WireValue → Bytes
  | .str s => packStr s
  | .uint v => packUint v

/-- A value whose first byte is an integer's is one; any other is a string. -/
def readValue (bytes : Bytes) : Option (WireValue × Bytes) :=
  match readUint bytes with
  | some (v, rest) => some (.uint v, rest)
  | none => (readStr bytes).map fun (s, rest) => (.str s, rest)

/-- A value whose text has a one-byte header. -/
def ShortValue : WireValue → Prop
  | .str s => Short s
  | .uint _ => True

theorem readUint_packStr (short : Short s) : readUint (packStr s ++ rest) = none := by
  have marker := shortMarker short.1
  have bound := short.1
  have wide : ¬ ofNat (0xa0 + s.toList.length) < 128 := by
    rw [UInt8.lt_iff_toNat_lt, marker]
    simp only [reduceToNat]
    omega
  have none : uintWidth (ofNat (0xa0 + s.toList.length)) = none := by
    have differs : ∀ b : UInt8, 0xcc ≤ b.toNat → ofNat (0xa0 + s.toList.length) ≠ b := by
      intro b high same
      rw [← same, marker] at high
      omega
    unfold uintWidth
    rw [if_neg (differs _ (by decide)), if_neg (differs _ (by decide)),
      if_neg (differs _ (by decide)), if_neg (differs _ (by decide))]
  rw [packStr_short short]
  simp only [cons_append, readUint, if_neg wide, none]

theorem readValue_packValue {v : WireValue} (short : ShortValue v) :
    readValue (packValue v ++ rest) = some (v, rest) := by
  cases v with
  | str s =>
    simp only [packValue, readValue, readUint_packStr short, readStr_packStr short, Option.map_some]
  | uint v => simp only [packValue, readValue, readUint_packUint]

def packFields (fields : WireMap) : Bytes :=
  fields.flatMap fun field => packStr field.1 ++ packValue field.2

/-- A map of fewer than sixteen fields. -/
def packMap (fields : WireMap) : Bytes := UInt8.ofNat (0x80 + fields.length) :: packFields fields

/-- The fields in the order they come. -/
def readFields : Nat → Bytes → Option (WireMap × Bytes)
  | 0, bytes => some ([], bytes)
  | n + 1, bytes => do
    let (key, bytes) ← readStr bytes
    let (value, bytes) ← readValue bytes
    let (fields, bytes) ← readFields n bytes
    return ((key, value) :: fields, bytes)

/-- By induction on the fields. -/
theorem readFields_packFields (short : ∀ field ∈ fields, Short field.1 ∧ ShortValue field.2)
    (rest : Bytes) :
    readFields fields.length (packFields fields ++ rest) = some (fields, rest) := by
  induction fields with
  | nil => rfl
  | cons field fields ih =>
    obtain ⟨key, value⟩ := short field (mem_cons_self ..)
    have later := ih fun f inside => short f (mem_cons_of_mem _ inside)
    simp only [packFields, flatMap_cons, length_cons, readFields, append_assoc] at *
    rw [readStr_packStr key]
    simp only [Option.bind_eq_bind, Option.bind_some]
    rw [readValue_packValue value]
    simp only [Option.bind_some, later]
    rfl

/-- The value under a key, `None` and missing alike a zero count. -/
def count (fields : WireMap) (key : String) : UInt64 :=
  match fields.lookup key with
  | some (.uint v) => v
  | _ => 0

def text (fields : WireMap) (key : String) : Option String :=
  match fields.lookup key with
  | some (.str s) => some s
  | _ => none

/-- The message a map says, by its `type`; a count that is left out is zero. -/
def ofWire (fields : WireMap) : Option ControlMessage :=
  match text fields "type" with
  | none => none
  | some tag =>
    if tag = "DirectSwitch" then some .directSwitch
    else if tag = "DirectFallback" then
      some (.directFallback (count fields "received") (count fields "received_screen")
        (count fields "received_files"))
    else if tag = "DirectAck" then
      some (.directAck (count fields "received") (count fields "received_screen")
        (count fields "received_files"))
    else if tag = "DirectOffer" then (text fields "sdp").map .directOffer
    else if tag = "DirectAnswer" then (text fields "sdp").map .directAnswer
    else if tag = "DirectRefused" then (text fields "reason").map .directRefused
    else if tag = "IceCandidate" then do
      return .iceCandidate (← text fields "candidate") (← text fields "mid")
    else some (.other fields)

def unpackMap : Bytes → Option WireMap
  | [] => none
  | head :: rest =>
    if 0x80 ≤ head && head ≤ 0x8f then
      (readFields (head.toNat - 0x80) rest).map Prod.fst
    else none

theorem unpackMap_packMap (few : fields.length < 16)
    (short : ∀ field ∈ fields, Short field.1 ∧ ShortValue field.2) :
    unpackMap (packMap fields) = some fields := by
  have head : (ofNat (0x80 + fields.length)).toNat = 0x80 + fields.length := by
    rw [toNat_ofNat']
    omega
  have fix : (0x80 ≤ ofNat (0x80 + fields.length) &&
      ofNat (0x80 + fields.length) ≤ 0x8f) := by
    simp only [Bool.and_eq_true, decide_eq_true_eq, UInt8.le_iff_toNat_le, head]
    exact ⟨by simp, by simp only [reduceToNat]; omega⟩
  have read := readFields_packFields short []
  rw [append_nil] at read
  simp only [packMap, unpackMap, if_pos fix, head, Nat.add_sub_cancel_left, read, Option.map_some]

/-! ## The codec -/

/-- The payloads of the other frame types are not read here. -/
instance codec : WireCodec where
  pack := packMap
  unpack bytes := (unpackMap bytes).bind ofWire
  accepts _ _ := true

/-- What a notice is written as is read as that notice. -/
theorem ofWire_wire (notice : m.isNotice) : ofWire m.wire = some m := by
  cases m with
  | directSwitch => decide
  | directFallback r s f | directAck r s f =>
    by_cases r0 : r = 0 <;> by_cases s0 : s = 0 <;> by_cases f0 : f = 0 <;>
      simp [wire, countFields, countField, ofWire, text, count, lookup, *]
  | directOffer _ | directAnswer _ | iceCandidate _ _ | directRefused _ | other _ =>
    simp [isNotice] at notice

/-- The tags and keys of notices are short, and so is each field. -/
theorem wire_short (notice : m.isNotice) :
    ∀ field ∈ m.wire, Short field.1 ∧ ShortValue field.2 ∧
      (packStr field.1 ++ packValue field.2).length ≤ 25 := by
  have entry : ∀ {key : String} {v : UInt64}, Short key → key.toList.length ≤ 15 →
      Short key ∧ ShortValue (.uint v) ∧ (packStr key ++ packValue (.uint v)).length ≤ 25 := by
    intro key v short few
    have value := length_packUint v
    refine ⟨short, trivial, ?_⟩
    rw [length_append, packStr_short short, length_cons, length_asciiBytes, packValue]
    omega
  have tag : ∀ {name : String}, Short name → name.toList.length ≤ 15 →
      Short "type" ∧ ShortValue (.str name) ∧
        (packStr "type" ++ packValue (.str name)).length ≤ 25 := by
    intro name short few
    have key : Short "type" := by simp [Short]
    have four : "type".toList.length = 4 := by simp
    refine ⟨key, short, ?_⟩
    rw [length_append, packStr_short key, packValue, packStr_short short, length_cons,
      length_cons, length_asciiBytes, length_asciiBytes]
    omega
  have counts : ∀ (r s f : UInt64), ∀ field ∈ countFields r s f,
      Short field.1 ∧ ShortValue field.2 ∧
        (packStr field.1 ++ packValue field.2).length ≤ 25 := by
    intro r s f field inside
    simp only [countFields, countField, mem_append] at inside
    rcases inside with (inside | inside) | inside
    all_goals
      split at inside
      · simp only [not_mem_nil] at inside
      · rw [mem_singleton] at inside
        subst inside
        exact entry (by simp [Short]) (by simp)
  intro field inside
  cases m with
  | directSwitch =>
    simp only [wire, mem_singleton] at inside
    subst inside
    exact tag (by simp [Short]) (by simp)
  | directFallback r s f | directAck r s f =>
    rcases mem_cons.mp inside with rfl | inside
    · exact tag (by simp [Short]) (by simp)
    · exact counts r s f field inside
  | directOffer _ | directAnswer _ | iceCandidate _ _ | directRefused _ | other _ =>
    simp [isNotice] at notice

/-- So many fields of so many bytes at most. -/
theorem length_packFields {most : Nat}
    (each : ∀ field ∈ fields, (packStr field.1 ++ packValue field.2).length ≤ most) :
    (packFields fields).length ≤ fields.length * most := by
  induction fields with
  | nil => exact Nat.zero_le _
  | cons field fields ih =>
    have first := each field (mem_cons_self ..)
    have later := ih fun f inside => each f (mem_cons_of_mem _ inside)
    simp only [packFields, flatMap_cons, length_append, length_cons, Nat.succ_mul] at *
    omega

theorem length_wire (notice : m.isNotice) : m.wire.length ≤ 4 := by
  have counts : ∀ r s f : UInt64, (countFields r s f).length ≤ 3 := by
    intro r s f
    simp only [countFields, countField, length_append]
    split <;> split <;> split <;> simp
  cases m with
  | directSwitch => decide
  | directFallback r s f | directAck r s f => exact Nat.succ_le_succ (counts r s f)
  | directOffer _ | directAnswer _ | iceCandidate _ _ | directRefused _ | other _ =>
    simp [isNotice] at notice

/-- The two laws the hand-off asks of a codec hold of this one. -/
instance lawful : LawfulCodec where
  unpack_pack m notice := by
    have few := length_wire notice
    have read := unpackMap_packMap (by omega)
      fun field inside => ⟨(wire_short notice field inside).1, (wire_short notice field inside).2.1⟩
    simp only [WireCodec.pack, WireCodec.unpack, read, Option.bind_some, ofWire_wire notice]
  pack_short m notice := by
    have few := length_wire notice
    have fields := length_packFields fun field inside => (wire_short notice field inside).2.2
    simp only [WireCodec.pack, packMap, length_cons, maxNotice]
    omega

end OpenGate.Direct.Msgpack
