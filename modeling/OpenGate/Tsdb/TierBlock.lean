import OpenGate.Tsdb.Tier

/-!
# Stored rollup blocks

The struct-of-arrays blocks of `tier.rs` and their tagged, possibly compressed
values in `blocks.rs`.  DEFLATE is given: `Deflate` is what the crate asks of
`flate2`.
-/

namespace OpenGate.Tsdb

open OpenGate.Lib Std List

variable {F : Type} [Float64 F]

/-- What the crate asks of `flate2`: `none` is an error. -/
class Deflate where
  deflate : Bytes → Option Bytes
  inflate : Bytes → Option Bytes

/-- Inflating undoes deflating. -/
class LawfulDeflate [Deflate] : Prop where
  inflate_deflate {b z : Bytes} : Deflate.deflate b = some z → Deflate.inflate z = some b

def f64Bytes (v : F) : Bytes := leBytes 8 (Float64.toBits v).toNat

variable (v : F)

@[simp] theorem length_f64Bytes : (f64Bytes v).length = 8 := length_leBytes ..

def f64Of (bytes : Bytes) : F := Float64.ofBits (UInt64.ofNat (leNat bytes))

def u32Of (bytes : Bytes) : UInt32 := UInt32.ofNat (leNat bytes)

def encodeTierBlock (points : List (StoredTierPoint F)) : Bytes :=
  leBytes 4 points.length ++
    (points.flatMap (fun p => i64Bytes p.bucket) ++ (points.flatMap (fun p => f64Bytes p.min) ++
        (points.flatMap (fun p => f64Bytes p.max) ++ (points.flatMap (fun p => f64Bytes p.sum) ++
            (points.flatMap (fun p => f64Bytes p.last) ++
              (points.flatMap (fun p => i64Bytes p.lastTs) ++
                points.flatMap (fun p => leBytes 4 p.count.toNat)))))))

def column {α : Type} (read : Bytes → α) (size : Nat) (bytes : Bytes) (pos n : Nat) :
    List α × Nat :=
  ((List.range n).map fun i => read ((bytes.drop (pos + i * size)).take size), pos + n * size)

def assemble : List Int64 → List F → List F → List F → List F → List Int64 → List UInt32 →
    List (StoredTierPoint F)
  | bucket :: buckets, min :: mins, max :: maxs, sum :: sums, last :: lasts, lastTs :: lastTss,
      count :: counts =>
      { bucket, min, max, sum, last, lastTs, count } ::
        assemble buckets mins maxs sums lasts lastTss counts
  | _, _, _, _, _, _, _ => []

/-- Decodes a block; a truncated one is an error.  52 bytes for each of at most
2^32 points do not overflow. -/
def decodeTierBlock (bytes : Bytes) : Result (List (StoredTierPoint F)) :=
  if bytes.length < 4 then corrupt "tier block"
  else
    let count := leNat (bytes.take 4)
    if bytes.length < 4 + count * 52 then corrupt "tier block"
    else
      let (buckets, pos) := column i64Of 8 bytes 4 count
      let (mins, pos) := column f64Of 8 bytes pos count
      let (maxs, pos) := column f64Of 8 bytes pos count
      let (sums, pos) := column f64Of 8 bytes pos count
      let (lasts, pos) := column f64Of 8 bytes pos count
      let (lastTss, pos) := column i64Of 8 bytes pos count
      let (counts, _) := column u32Of 4 bytes pos count
      .ok (assemble buckets mins maxs sums lasts lastTss counts)

def tierPlain : UInt8 := 0

def tierDeflate : UInt8 := 1

def deflate [Deflate] (bytes : Bytes) : Result Bytes :=
  match Deflate.deflate bytes with
  | some z => .ok z
  | none => .error (.error (.io "deflate"))

def inflate [Deflate] (bytes : Bytes) : Result Bytes := okOr (Deflate.inflate bytes) "deflate"

def decodeTierValue [Deflate] (bytes : Bytes) : Result (List (StoredTierPoint F)) :=
  match bytes with
  | [] => corrupt "tier value tag"
  | tag :: body =>
    if tag = tierPlain then decodeTierBlock body
    else if tag = tierDeflate then do
      let plain ← inflate body
      decodeTierBlock plain
    else corrupt "tier value tag"

/-- Merges partial rollups into the existing block, possibly compressed, and
re-encodes it plain. -/
def mergedTierBytes [Deflate] (existing : Option Bytes) (partials : List (StoredTierPoint F)) :
    Result Bytes := do
  let points ← match existing with
    | some b => decodeTierValue b
    | none => .ok []
  let map : Buckets F := points.foldl (fun m p => m.insert p.bucket p) ∅
  .ok (tierPlain :: encodeTierBlock (partials.foldl mergePoint map).points)

/-! ## Reading a block back -/

/-- A column reads back what was written item by item. -/
theorem column_flatMap {α β : Type} {read : Bytes → α} {write : β → Bytes} (get : β → α)
    {size : Nat} (length : ∀ b, (write b).length = size) (back : ∀ b, read (write b) = get b)
    {items : List β} {bytes tl : Bytes} {pos : Nat}
    (ahead : bytes.drop pos = items.flatMap write ++ tl) :
    (column read size bytes pos items.length).1 = items.map get ∧
      bytes.drop (column read size bytes pos items.length).2 = tl := by
  induction items generalizing pos with
  | nil => simpa [column] using ahead
  | cons b items ih =>
    rw [flatMap_cons, append_assoc] at ahead
    have after : bytes.drop (pos + size) = items.flatMap write ++ tl := by
      rw [← drop_drop, ahead, drop_left' (length b)]
    obtain ⟨rest, left⟩ := ih after
    have place (i : Nat) : pos + (i + 1) * size = pos + size + i * size := by ring
    have shift : (List.range items.length).map
          ((fun i => read ((bytes.drop (pos + i * size)).take size)) ∘ Nat.succ)
        = (column read size bytes (pos + size) items.length).1 :=
      map_congr_left fun i _ => by
        rw [Function.comp, Nat.succ_eq_add_one, place]
    constructor
    · rw [column, length_cons, range_succ_eq_map, map_cons, map_map, shift,
        rest, map_cons, Nat.zero_mul, Nat.add_zero, ahead, take_left' (length b), back]
    · rw [column, length_cons, place]
      exact left

variable (points : List (StoredTierPoint F))

omit [Float64 F] in
theorem assemble_map :
    assemble (points.map StoredTierPoint.bucket) (points.map StoredTierPoint.min)
      (points.map StoredTierPoint.max) (points.map StoredTierPoint.sum)
      (points.map StoredTierPoint.last) (points.map StoredTierPoint.lastTs)
      (points.map StoredTierPoint.count) = points := by
  induction points with
  | nil => rfl
  | cons p points ih => simp [assemble, ih]

theorem length_encodeTierBlock : (encodeTierBlock points).length = 4 + points.length * 52 := by
  have sum (write : StoredTierPoint F → Bytes) {size : Nat} (each : ∀ p, (write p).length = size) :
      (points.flatMap write).length = points.length * size := by
    rw [length_flatMap]
    simp [each]
  rw [encodeTierBlock]
  simp only [length_append, length_leBytes]
  rw [sum _ fun p => length_i64Bytes p.bucket, sum _ fun p => length_f64Bytes p.min,
    sum _ fun p => length_f64Bytes p.max, sum _ fun p => length_f64Bytes p.sum,
    sum _ fun p => length_f64Bytes p.last, sum _ fun p => length_i64Bytes p.lastTs,
    sum _ fun p => length_leBytes 4 p.count.toNat]
  omega

theorem u32Of_leBytes (v : UInt32) : u32Of (leBytes 4 v.toNat) = v := by
  have small : v.toNat < 256 ^ 4 := v.toNat_lt
  rw [u32Of, leNat_leBytes, Nat.mod_eq_of_lt small, UInt32.ofNat_toNat]

theorem f64Of_f64Bytes [ExactArithmetic F] : f64Of (f64Bytes v) = v := by
  have small : (Float64.toBits v).toNat < 256 ^ 8 := (Float64.toBits v).toNat_lt
  rw [f64Of, f64Bytes, leNat_leBytes, Nat.mod_eq_of_lt small, UInt64.ofNat_toNat,
    ExactArithmetic.ofBits_toBits]

/-- `decode_tier_block` undoes `encode_tier_block`. -/
theorem decodeTierBlock_encodeTierBlock [ExactArithmetic F] {points : List (StoredTierPoint F)}
    (small : points.length < 2 ^ 32) : decodeTierBlock (encodeTierBlock points) = .ok points := by
  have total := length_encodeTierBlock points
  have head : (encodeTierBlock points).take 4 = leBytes 4 points.length :=
    take_left' (length_leBytes ..)
  have start : (encodeTierBlock points).drop 4 = _ := drop_left' (length_leBytes ..)
  have number : leNat ((encodeTierBlock points).take 4) = points.length := by
    have below : points.length < 256 ^ 4 := small
    rw [head, leNat_leBytes, Nat.mod_eq_of_lt below]
  obtain ⟨buckets, after₁⟩ := column_flatMap StoredTierPoint.bucket
    (fun _ => length_i64Bytes _) (fun _ => i64Of_i64Bytes _) start
  obtain ⟨mins, after₂⟩ := column_flatMap StoredTierPoint.min
    (fun _ => length_f64Bytes _) (fun _ => f64Of_f64Bytes _) after₁
  obtain ⟨maxs, after₃⟩ := column_flatMap StoredTierPoint.max
    (fun _ => length_f64Bytes _) (fun _ => f64Of_f64Bytes _) after₂
  obtain ⟨sums, after₄⟩ := column_flatMap StoredTierPoint.sum
    (fun _ => length_f64Bytes _) (fun _ => f64Of_f64Bytes _) after₃
  obtain ⟨lasts, after₅⟩ := column_flatMap StoredTierPoint.last
    (fun _ => length_f64Bytes _) (fun _ => f64Of_f64Bytes _) after₄
  obtain ⟨lastTss, after₆⟩ := column_flatMap StoredTierPoint.lastTs
    (fun _ => length_i64Bytes _) (fun _ => i64Of_i64Bytes _) after₅
  obtain ⟨counts, -⟩ := column_flatMap StoredTierPoint.count
    (fun _ => length_leBytes 4 _) (fun _ => u32Of_leBytes _)
    (after₆.trans (append_nil _).symm)
  rw [decodeTierBlock, if_neg (by omega), number, if_neg (by omega)]
  dsimp only
  rw [buckets, mins, maxs, sums, lasts, lastTss, counts, assemble_map]

end OpenGate.Tsdb
