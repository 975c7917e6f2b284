import OpenGate.Tsdb.Store

/-!
# Whole numbers as values

An instance of the given operations on which the model runs: values are whole
numbers, on which arithmetic is exact, and a block is compressed by leaving out
the zeros at its end.
-/

namespace OpenGate.Tsdb

instance : Float64 Int64 where
  zero := 0
  intSafe := 9007199254740992
  add := (· + ·)
  mul := (· * ·)
  div := (· / ·)
  min := min
  max := max
  fract _ := 0
  abs v := if v < 0 then -v else v
  round v := v
  lt a b := decide (a < b)
  eq a b := decide (a = b)
  ofI64 v := v
  ofU32 v := v.toUInt64.toInt64
  ofU64 v := v.toInt64
  toI64 v := v
  toU64 v := v.toUInt64
  toBits v := v.toUInt64
  ofBits b := b.toInt64
  toF32Bits v := v.toUInt64.toUInt32
  ofF32Bits b := b.toInt32.toInt64

instance : ExactArithmetic Int64 where
  add_assoc := Int64.add_assoc
  zero_add := Int64.zero_add
  min_assoc a b c := by
    show min (min a b) c = min a (min b c)
    simp only [min_eq_if, Int64.le_iff_toInt_le]
    split_ifs <;> first | rfl | omega
  min_self a := by
    show min a a = a
    rw [min_eq_if, if_pos (Int64.le_refl a)]
  max_assoc a b c := by
    show max (max a b) c = max a (max b c)
    simp only [max_eq_if, Int64.le_iff_toInt_le]
    split_ifs <;> first | rfl | omega
  max_self a := by
    show max a a = a
    rw [max_eq_if, if_pos (Int64.le_refl a)]
  ofBits_toBits := Int64.toInt64_toUInt64

/-- A block without the zeros at its end, after their number. -/
def trimZeros (b : Bytes) : Option Bytes :=
  let kept := (b.reverse.dropWhile (· = 0)).reverse
  let zeros := b.length - kept.length
  if zeros < 2 ^ 32 then some (leBytes 4 zeros ++ kept) else none

def padZeros (z : Bytes) : Option Bytes :=
  some (z.drop 4 ++ List.replicate (leNat (z.take 4)) 0)

instance : Deflate where
  deflate := trimZeros
  inflate := padZeros

instance : LawfulDeflate where
  inflate_deflate {b z} trimmed := by
    have split : b.reverse.takeWhile (· = 0) ++ b.reverse.dropWhile (· = 0) = b.reverse :=
      List.takeWhile_append_dropWhile
    have zeros : b.reverse.takeWhile (· = 0)
        = List.replicate (b.reverse.takeWhile (· = 0)).length 0 := by
      refine List.eq_replicate_of_mem fun x mem => ?_
      simpa using List.mem_takeWhile_imp mem
    have whole : b = (b.reverse.dropWhile (· = 0)).reverse
        ++ List.replicate (b.reverse.takeWhile (· = 0)).length 0 := by
      have flipped := congrArg List.reverse split
      rw [List.reverse_append, List.reverse_reverse, zeros, List.reverse_replicate] at flipped
      exact flipped.symm
    have count : b.length - (b.reverse.dropWhile (· = 0)).reverse.length
        = (b.reverse.takeWhile (· = 0)).length := by
      have lengths := congrArg List.length whole
      rw [List.length_append, List.length_replicate] at lengths
      omega
    change trimZeros b = some z at trimmed
    unfold trimZeros at trimmed
    dsimp only at trimmed
    rw [count] at trimmed
    split at trimmed
    next small =>
        have below : (b.reverse.takeWhile (· = 0)).length < 256 ^ 4 := small
        cases trimmed
        show some _ = some b
        rw [List.drop_left' (length_leBytes ..), List.take_left' (length_leBytes ..),
          leNat_leBytes, Nat.mod_eq_of_lt below, ← whole]
    · cases trimmed

/-- A store with room. -/
def spaciousConfig : TsdbConfig Int64 where
  capBytes := 1000000
  hostFreeFraction := 0
  defaultScale := none

end OpenGate.Tsdb
