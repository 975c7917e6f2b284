import OpenGate.Lib.BigEndian

/-!
# MessagePack

The compact forms of integers, floats, strings and the headers of arrays and maps,
and how many bytes they take.
-/

namespace OpenGate.Lib.Msgpack

/-- An integer in its shortest form. -/
def packInt (v : Int64) : List UInt8 :=
  let i := v.toInt
  let bits := v.toUInt64.toNat
  if 0 ≤ i then
    if i < 2 ^ 7 then beBytes 1 bits
    else if i < 2 ^ 8 then 0xcc :: beBytes 1 bits
    else if i < 2 ^ 16 then 0xcd :: beBytes 2 bits
    else if i < 2 ^ 32 then 0xce :: beBytes 4 bits
    else 0xcf :: beBytes 8 bits
  else
    if -2 ^ 5 ≤ i then beBytes 1 bits
    else if -2 ^ 7 ≤ i then 0xd0 :: beBytes 1 bits
    else if -2 ^ 15 ≤ i then 0xd1 :: beBytes 2 bits
    else if -2 ^ 31 ≤ i then 0xd2 :: beBytes 4 bits
    else 0xd3 :: beBytes 8 bits

theorem length_packInt_le (v : Int64) : (packInt v).length ≤ 9 := by
  unfold packInt
  dsimp only
  split_ifs <;> simp

def packFloat (bits : UInt64) : List UInt8 := 0xcb :: beBytes 8 bits.toNat

@[simp] theorem length_packFloat (bits : UInt64) : (packFloat bits).length = 9 := by
  rw [packFloat, List.length_cons, length_beBytes]

def packStr (s : String) : List UInt8 :=
  let n := s.utf8ByteSize
  (if n < 32 then [UInt8.ofNat (0xa0 + n)] else if n < 2 ^ 8 then 0xd9 :: beBytes 1 n
    else if n < 2 ^ 16 then 0xda :: beBytes 2 n
    else 0xdb :: beBytes 4 n) ++ s.toUTF8.data.toList

theorem length_packStr {s : String} (short : s.utf8ByteSize < 32) :
    (packStr s).length = 1 + s.utf8ByteSize := by
  unfold packStr
  dsimp only
  rw [if_pos short, List.length_append, List.length_singleton]
  simp

def arrayHeader (n : Nat) : List UInt8 :=
  if n < 16 then [UInt8.ofNat (0x90 + n)]
  else if n < 2 ^ 16 then 0xdc :: beBytes 2 n
  else 0xdd :: beBytes 4 n

theorem length_arrayHeader_le (n : Nat) : (arrayHeader n).length ≤ 5 := by
  unfold arrayHeader
  split_ifs <;> simp

def mapHeader (n : Nat) : List UInt8 :=
  if n < 16 then [UInt8.ofNat (0x80 + n)]
  else if n < 2 ^ 16 then 0xde :: beBytes 2 n
  else 0xdf :: beBytes 4 n

theorem length_mapHeader {n : Nat} (small : n < 16) : (mapHeader n).length = 1 := by
  rw [mapHeader, if_pos small, List.length_singleton]

end OpenGate.Lib.Msgpack
