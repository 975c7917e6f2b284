import OpenGate.Tsdb.Compact
import OpenGate.Tsdb.Whole

/-!
# Blocks of any origin, and points merged in any order

What `compact.rs` promises of the blocks it writes and of bytes it did not write,
and what `tier.rs` promises of merging partial rollups.
-/

namespace OpenGate.Tsdb

open List

variable {F : Type} [Float64 F] (bytes : Bytes)

/-! ## Blocks the encoder wrote -/

/-- Fewer than 2^32 samples come back from their block: the timestamps and the
anomaly bits exactly, of each value what the block's codec keeps. -/
theorem decodeCompact_of_encoded (samples : List (Sample F)) (anomaly : List Bool) (step : Int64)
    (scale : Option Int64) (small : samples.length < 2 ^ 32) :
    ∃ out bits, decodeCompact (encodeCompactScaled samples anomaly step scale) = .ok (out, bits) ∧
      out.length = samples.length ∧ out.map Sample.ts = samples.map Sample.ts ∧
      out.map Sample.value
        = samples.map (fun s => kept (blockCodec samples scale) scale s.value) ∧
      bits.length = samples.length ∧
      ∀ i < samples.length, bits[i]? = some (anomaly.getD i false) := by
  have length := length_encodeCompactScaled samples anomaly step scale
  have decoded := decodeCompact_encodeCompactScaled samples anomaly step scale small
    (by rw [usizeMax]; omega)
  refine ⟨_, _, decoded, length_map _, ?_, ?_, length_padded anomaly _, ?_⟩
  · rw [keptSamples, map_map]
    rfl
  · rw [keptSamples, map_map]
    rfl
  · intro i inside
    rw [padded, getElem?_map, getElem?_range inside, Option.map_some]

theorem decodeCompact_of_encoded_three :
    ∃ (out : List (Sample Int64)) (bits : List Bool),
      decodeCompact (encodeCompactScaled [(⟨60, 5⟩ : Sample Int64), ⟨71, -2⟩, ⟨80, 5⟩]
        [true] 10 (some 2)) = .ok (out, bits) ∧
      out.map Sample.ts = [60, 71, 80] ∧ bits.length = 3 := by
  obtain ⟨out, bits, decoded, _, times, _, count, _⟩ := decodeCompact_of_encoded
    [(⟨60, 5⟩ : Sample Int64), ⟨71, -2⟩, ⟨80, 5⟩] [true] 10 (some 2) (by decide)
  exact ⟨out, bits, decoded, times, count⟩

/-! ## Blocks of any origin -/

/-- An outcome the caller can act on: a value, or a corrupt block reported. -/
def Handled {α : Type} (r : Result α) : Prop :=
  ∀ e, r = .error e → ∃ what, e = .error (.corruptBlock what)

namespace Handled

variable {α β : Type} {x : Result α} {f : α → Result β}

theorem ok {a : α} : Handled (.ok a : Result α) := by
  intro e is
  cases is

theorem corrupt {what : String} : Handled (Tsdb.corrupt what : Result α) := by
  intro e is
  cases is
  exact ⟨what, rfl⟩

theorem not_fault {fault : Fault} : ¬Handled (.error (.fault fault) : Result α) := by
  intro handled
  obtain ⟨_, ⟨⟩⟩ := handled _ rfl

theorem bind_iff : Handled (x >>= f) ↔ Handled x ∧ ∀ a, x = .ok a → Handled (f a) := by
  cases x with
  | error e =>
    constructor
    · intro failed
      refine ⟨?_, by rintro _ ⟨⟩⟩
      rintro _ ⟨⟩
      exact failed e rfl
    · rintro ⟨failed, -⟩ _ ⟨⟩
      exact failed e rfl
  | ok a => exact ⟨fun rest => ⟨ok, by rintro _ ⟨⟩; exact rest⟩, fun rest => rest.2 a rfl⟩

theorem bind (first : Handled x) (next : ∀ a, x = .ok a → Handled (f a)) : Handled (x >>= f) :=
  bind_iff.mpr ⟨first, next⟩

/-- What ends in a value faults only where its first part does. -/
theorem map_iff {g : α → β} : Handled (x >>= fun a => .ok (g a)) ↔ Handled x :=
  bind_iff.trans (and_iff_left fun _ _ => ok)

theorem okOr {x : Option α} {what : String} : Handled (Tsdb.okOr x what) := by
  cases x with
  | none => exact corrupt
  | some a => exact ok

theorem okOr_bind_iff {x : Option α} {what : String} :
    Handled (Tsdb.okOr x what >>= f) ↔ ∀ a, x = some a → Handled (f a) := by
  rw [bind_iff, and_iff_right okOr]
  cases x with
  | none => exact ⟨by rintro - _ ⟨⟩, by rintro - _ ⟨⟩⟩
  | some b => simp only [okOr_some, Except.ok.injEq, Option.some.injEq]

end Handled

theorem okOr_eq_ok {α : Type} {x : Option α} {what : String} {a : α} (is : okOr x what = .ok a) :
    x = some a := by
  cases x with
  | none => cases is
  | some b =>
    cases is
    rfl

theorem bind_congr_ok {α β : Type} {x : Result α} {f g : α → Result β}
    (same : ∀ a, x = .ok a → f a = g a) : x >>= f = x >>= g := by
  cases x with
  | error e => rfl
  | ok a => exact same a rfl

/-- The window a word brings of its own: leading zeros and meaningful bits. -/
def freshWindow (r : BitReader) : Option (Nat × Nat) := do
  let (changed, r) ← r.getBit
  let (fresh, r) ← r.getBit
  let (lead, r) ← r.getBits 5
  let (sig, _) ← r.getBits 5
  if changed = 0 ∨ fresh = 0 then none else some (lead.toNat, sig.toNat + 1)

/-- Every window of the values lies within the 32 bits of a word. -/
def windowsFit (r : BitReader) (prev : UInt32) (window : Option Window) : Nat → Bool
  | 0 => true
  | n + 1 =>
    (freshWindow r).all (fun (lead, sig) => lead + sig ≤ 32) &&
      (getXor r prev window).toOption.all fun (bits, window, r) => windowsFit r bits window n

def valuesFit (codec : UInt8) (vbytes : Bytes) (count : Nat) : Bool :=
  codec ≠ codecXor32 || ((BitReader.new vbytes).getBits 32).all fun (first, r) =>
    windowsFit r first.toUInt32 none (count - 1)

/-- The index of the last exception, over the gaps that can be read. -/
def gapSum (bytes : Bytes) (pos : Nat) : Nat → Nat
  | 0 => 0
  | n + 1 => (getUvarint bytes pos).elim 0 fun (gap, pos) =>
    gap.toNat + (getIvarint bytes pos).elim 0 fun (_, pos) => gapSum bytes pos n

/-- The bits `n` runs fill in, over the run lengths that can be read. -/
def runBits (bytes : Bytes) (pos : Nat) : Nat → Nat
  | 0 => 0
  | n + 1 => (getUvarint bytes pos).elim 0 fun (len, pos) => len.toNat + runBits bytes pos n

/-- How many runs a block states and where they start, where decoding gets to them. -/
def runsAt (F : Type) [Float64 F] (bytes : Bytes) : Option (Nat × Nat) := do
  let count := leNat (bytes.take 4)
  guard (21 ≤ bytes.length ∧ count ≠ 0)
  let (nExc, pos) ← getUvarint bytes 21
  let (_, pos) ← (getExceptions bytes pos 0 nExc.toNat).toOption
  let (vlen, pos) ← getUvarint bytes pos
  let vbytes ← slice bytes pos (pos + vlen.toNat)
  let _ ← (decodeValues (F := F) (bytes.getD 20 0) vbytes count).toOption
  let (nRuns, pos) ← getUvarint bytes (pos + vlen.toNat)
  some (nRuns.toNat, pos)

/-- The numbers a block states can be computed with: the room for its exceptions, the
index of the last of them, the end of the values, the windows, and the bits of the runs,
which are no more than the bytes and the header's count account for. -/
def blockFits (F : Type) [Float64 F] (bytes : Bytes) : Bool :=
  let count := leNat (bytes.take 4)
  bytes.length < 21 || count = 0 || (getUvarint bytes 21).all fun (nExc, pos) =>
    nExc.toNat * 16 ≤ isizeMax && gapSum bytes pos nExc.toNat ≤ usizeMax &&
      (getExceptions bytes pos 0 nExc.toNat).toOption.all fun (_, pos) =>
        (getUvarint bytes pos).all fun (vlen, pos) =>
          pos + vlen.toNat ≤ usizeMax && (slice bytes pos (pos + vlen.toNat)).all fun vbytes =>
            valuesFit (bytes.getD 20 0) vbytes count &&
              (runsAt F bytes).all fun (n, pos) =>
                runBits bytes pos n ≤ isizeMax && runBits bytes pos n ≤ bytes.length + count

theorem handled_getXor {r : BitReader} {prev : UInt32} {window : Option Window} :
    Handled (getXor r prev window) ↔ (freshWindow r).all fun w => w.1 + w.2 ≤ 32 := by
  rw [getXor, Handled.okOr_bind_iff]
  rw [freshWindow]
  rcases r.getBit with _ | ⟨changed, r₁⟩
  · exact ⟨fun _ => rfl, by rintro - _ ⟨⟩⟩
  simp only [Option.some.injEq, forall_eq', Option.bind_eq_bind, Option.bind_some]
  by_cases same : changed = 0
  · simp only [same, if_true, Handled.ok, true_or, Option.bind_fun_none, Option.all_none]
  rw [if_neg same, Handled.bind_iff, and_iff_left fun _ _ => .bind .okOr fun _ _ => .ok,
    getWindow, Handled.okOr_bind_iff]
  rcases r₁.getBit with _ | ⟨fresh, r₂⟩
  · exact ⟨fun _ => rfl, by rintro - _ ⟨⟩⟩
  simp only [Option.some.injEq, forall_eq', Option.bind_some, same, false_or]
  by_cases old : fresh = 0
  · simp only [old, if_true, Option.bind_fun_none, Option.all_none, iff_true]
    cases window with
    | none => exact .corrupt
    | some prev => exact .ok
  simp only [old, if_false, Handled.okOr_bind_iff]
  rcases r₂.getBits 5 with _ | ⟨lead, r₃⟩
  · exact ⟨fun _ => rfl, by rintro - _ ⟨⟩⟩
  simp only [Option.some.injEq, forall_eq', Option.bind_some]
  rcases r₃.getBits 5 with _ | ⟨sig, r₄⟩
  · exact ⟨fun _ => rfl, by rintro - _ ⟨⟩⟩
  simp only [Option.some.injEq, forall_eq', Option.bind_some, Option.all_some, decide_eq_true_eq]
  split
  next inside => exact ⟨fun _ => inside, fun _ => .ok⟩
  next outside =>
    exact ⟨fun fault => absurd fault Handled.not_fault, fun inside => absurd inside outside⟩

theorem handled_decodeXor32From {r : BitReader} {prev : UInt32} {window : Option Window}
    {n : Nat} : Handled (decodeXor32From r prev window n) ↔ windowsFit r prev window n := by
  induction n generalizing r prev window with
  | zero => exact ⟨fun _ => rfl, fun _ => .ok⟩
  | succ n ih =>
    rw [windowsFit, Bool.and_eq_true, decodeXor32From, Handled.bind_iff, handled_getXor]
    refine and_congr_right fun _ => ?_
    cases getXor r prev window with
    | error e => exact ⟨fun _ => rfl, by rintro - _ ⟨⟩⟩
    | ok next =>
      simp only [Except.ok.injEq, forall_eq', Handled.map_iff, ih, Except.toOption,
        Option.all_some]

theorem decodeDodFrom_handled {r : BitReader} (widths : List Nat) :
    Handled (decodeDodFrom r widths) := by
  induction widths generalizing r with
  | nil => exact .bind .okOr fun _ _ => .ok
  | cons width widths ih =>
    refine .bind .okOr fun (bit, r') _ => ?_
    dsimp only
    split
    · exact .bind .okOr fun _ _ => .ok
    · exact ih

theorem decodeDods_handled {count : Nat} {what : String} :
    Handled (decodeDods bytes count what) := by
  have loop (n : Nat) (r : BitReader) (prevVal prevDelta : Int64) :
      Handled (decodeDodsFrom r prevVal prevDelta n) := by
    induction n generalizing r prevVal prevDelta with
    | zero => exact .ok
    | succ n ih =>
      refine .bind (.bind .okOr fun (bit, r') _ => ?_) fun _ _ => .bind (ih _ _ _) fun _ _ => .ok
      dsimp only
      split
      · exact .ok
      · exact decodeDodFrom_handled _
  exact .bind .okOr fun _ _ => .bind (loop _ _ _ _) fun _ _ => .ok

theorem handled_decodeValues {codec : UInt8} {vbytes : Bytes} {count : Nat} :
    Handled (decodeValues (F := F) codec vbytes count) ↔ valuesFit codec vbytes count := by
  unfold decodeValues valuesFit
  split_ifs with xor fixed int
  · rw [decodeXor32, Handled.okOr_bind_iff]
    simp only [xor, ne_eq, not_true_eq_false, decide_false, Bool.false_or, Handled.map_iff,
      handled_decodeXor32From, Option.all_eq_true]
  · refine ⟨fun _ => by simp [xor], fun _ => ?_⟩
    unfold decodeFixedDod
    split
    · exact .corrupt
    · dsimp only
      split
      · exact .corrupt
      · exact .bind (decodeDods_handled _) fun _ _ => .ok
  · exact ⟨fun _ => by simp [xor], fun _ => .bind (decodeDods_handled _) fun _ _ => .ok⟩
  · exact ⟨fun _ => by simp [xor], fun _ => .corrupt⟩

theorem handled_getExceptions {bytes : Bytes} {pos prevIdx n : Nat} (small : prevIdx ≤ usizeMax) :
    Handled (getExceptions bytes pos prevIdx n) ↔ prevIdx + gapSum bytes pos n ≤ usizeMax := by
  induction n generalizing pos prevIdx with
  | zero => exact ⟨fun _ => small, fun _ => .ok⟩
  | succ n ih =>
    rw [getExceptions, Handled.okOr_bind_iff, gapSum]
    rcases getUvarint bytes pos with _ | ⟨gap, pos₁⟩
    · exact ⟨fun _ => small, by rintro - _ ⟨⟩⟩
    simp only [Option.some.injEq, forall_eq', Option.elim_some]
    by_cases index : prevIdx + gap.toNat ≤ usizeMax
    · simp only [show addUsize prevIdx gap.toNat = _ from if_pos index, ok_bind,
        Handled.okOr_bind_iff, Handled.map_iff]
      rcases getIvarint bytes pos₁ with _ | ⟨delta, pos₂⟩
      · exact ⟨fun _ => index, by rintro - _ ⟨⟩⟩
      simp only [Option.some.injEq, forall_eq', Option.elim_some, ih index, Nat.add_assoc]
    · simp only [show addUsize prevIdx gap.toNat = _ from if_neg index]
      exact ⟨fun fault => absurd fault Handled.not_fault, fun _ => by omega⟩

theorem handled_getRuns {bytes : Bytes} {pos n : Nat} {current : Bool} {out : List Bool}
    (small : out.length ≤ isizeMax) :
    Handled (getRuns bytes pos current out n) ↔ out.length + runBits bytes pos n ≤ isizeMax := by
  induction n generalizing pos current out with
  | zero => exact ⟨fun _ => small, fun _ => .ok⟩
  | succ n ih =>
    rw [getRuns, Handled.okOr_bind_iff, runBits]
    rcases getUvarint bytes pos with _ | ⟨len, pos₁⟩
    · exact ⟨fun _ => small, by rintro - _ ⟨⟩⟩
    simp only [Option.some.injEq, forall_eq', Option.elim_some]
    by_cases room : (out.length + len.toNat) * 1 ≤ isizeMax
    · simp only [show reserve (out.length + len.toNat) 1 = _ from if_pos room, ok_bind]
      rw [ih (by simpa using room), length_append, length_replicate, Nat.add_assoc]
    · simp only [show reserve (out.length + len.toNat) 1 = _ from if_neg room]
      exact ⟨fun fault => absurd fault Handled.not_fault, fun _ => by omega⟩

theorem length_getRuns {bytes : Bytes} {pos n : Nat} {current : Bool} {out bits : List Bool}
    (run : getRuns bytes pos current out n = .ok bits) :
    bits.length = out.length + runBits bytes pos n := by
  induction n generalizing pos current out with
  | zero =>
    cases run
    rfl
  | succ n ih =>
    obtain ⟨⟨len, pos₁⟩, is, run⟩ := bind_ok run
    obtain ⟨_, _, run⟩ := bind_ok run
    rw [ih run, runBits, okOr_eq_ok is, length_append, length_replicate, Nat.add_assoc]
    rfl

theorem getUvarint_moves {bytes : Bytes} {pos pos' : Nat} {v : UInt64}
    (read : getUvarint bytes pos = some (v, pos')) : pos < pos' ∧ pos' ≤ bytes.length := by
  have loop (turns pos shift : Nat) (res : UInt64)
      (read : getUvarintFrom bytes pos shift res turns = some (v, pos')) :
      pos < pos' ∧ pos' ≤ bytes.length := by
    induction turns generalizing pos shift res with
    | zero => cases read
    | succ turns ih =>
      cases here : bytes[pos]? with
      | none => simp [getUvarintFrom, here] at read
      | some b =>
        obtain ⟨inside, _⟩ := List.getElem?_eq_some_iff.mp here
        simp only [getUvarintFrom, here, Option.bind_eq_bind, Option.bind_some] at read
        split at read
        · cases read
          omega
        · split at read
          · cases read
          · have rest := ih _ _ _ read
            omega
  exact loop _ _ _ _ read

/-- Turns past the bytes ahead change nothing: the loop has ended before. -/
theorem getExceptions_turns {bytes : Bytes} {pos prevIdx n m : Nat} (long : bytes.length - pos < n)
    (longer : bytes.length - pos < m) :
    getExceptions bytes pos prevIdx n = getExceptions bytes pos prevIdx m := by
  induction n generalizing pos prevIdx m with
  | zero => omega
  | succ n ih =>
    obtain ⟨m, rfl⟩ : ∃ k, m = k + 1 := ⟨m - 1, by omega⟩
    rw [getExceptions, getExceptions]
    refine bind_congr_ok ?_
    rintro ⟨gap, pos₁⟩ is
    refine bind_congr_ok fun idx _ => bind_congr_ok ?_
    rintro ⟨delta, pos₂⟩ is₁
    have moved := getUvarint_moves (okOr_eq_ok is)
    obtain ⟨⟨u, pos₃⟩, read, last⟩ := Option.bind_eq_some_iff.mp (okOr_eq_ok is₁)
    have moved₁ := getUvarint_moves read
    cases last
    have rest := @ih pos₂ idx m (by omega) (by omega)
    simp only [rest]

theorem getRuns_turns {bytes : Bytes} {pos n m : Nat} {current : Bool} {out : List Bool}
    (long : bytes.length - pos < n) (longer : bytes.length - pos < m) :
    getRuns bytes pos current out n = getRuns bytes pos current out m := by
  induction n generalizing pos current out m with
  | zero => omega
  | succ n ih =>
    obtain ⟨m, rfl⟩ : ∃ k, m = k + 1 := ⟨m - 1, by omega⟩
    rw [getRuns, getRuns]
    refine bind_congr_ok ?_
    rintro ⟨len, pos₁⟩ is
    refine bind_congr_ok fun _ _ => ?_
    have moved := getUvarint_moves (okOr_eq_ok is)
    exact ih (by omega) (by omega)

theorem decodeCompact_of_cut {bytes : Bytes}
    (cut : bytes.length < 21 ∨ leNat (bytes.take 4) = 0) :
    Handled (decodeCompact (F := F) bytes) := by
  unfold decodeCompact
  dsimp only
  split
  · exact .bind .corrupt (by rintro _ ⟨⟩)
  split
  · exact .ok
  split
  · exact .bind .corrupt (by rintro _ ⟨⟩)
  · omega

/-- A block is decoded or reported corrupt, its runs fill in no more bits than its bytes
and the header's count account for, exactly where its numbers fit; and no loop takes more
turns than there are bytes ahead. -/
theorem decodeCompact_handled (bytes : Bytes) :
    (Handled (decodeCompact (F := F) bytes) ∧ (∀ n pos, runsAt F bytes = some (n, pos) →
        runBits bytes pos n ≤ bytes.length + leNat (bytes.take 4)) ↔ blockFits F bytes) ∧
    (∀ pos prevIdx n, bytes.length < n →
      getExceptions bytes pos prevIdx n = getExceptions bytes pos prevIdx (bytes.length + 1)) ∧
    (∀ pos current out n, bytes.length < n →
      getRuns bytes pos current out n = getRuns bytes pos current out (bytes.length + 1)) ∧
    (∀ pos current out n bits, getRuns bytes pos current out n = .ok bits →
      bits.length = out.length + runBits bytes pos n) := by
  refine ⟨?_, fun _ _ _ long => getExceptions_turns (by omega) (by omega),
    fun _ _ _ _ long => getRuns_turns (by omega) (by omega), fun _ _ _ _ _ => length_getRuns⟩
  by_cases cut : bytes.length < 21 ∨ leNat (bytes.take 4) = 0
  · have unread : runsAt F bytes = none := by
      have unguarded : ¬(21 ≤ bytes.length ∧ leNat (bytes.take 4) ≠ 0) := by omega
      simp only [runsAt, guard, if_neg unguarded]
      rfl
    simp [decodeCompact_of_cut cut, unread, blockFits, cut]
  obtain ⟨long, counts⟩ := not_or.mp cut
  unfold decodeCompact blockFits runsAt
  simp only [show ¬bytes.length < 4 by omega, long, counts, guard, show 21 ≤ bytes.length by omega,
    ne_eq, not_false_eq_true, and_self, if_true, if_false, decide_false, Bool.false_or,
    Option.pure_def, Option.bind_eq_bind, Option.bind_some, Handled.okOr_bind_iff]
  rcases getUvarint bytes 21 with _ | ⟨nExc, pos⟩
  · simp
  by_cases room : nExc.toNat * 16 ≤ isizeMax
  swap
  · simp [room, reserve, Handled.not_fault]
  simp only [room, reserve, if_true, ok_bind, Option.some.injEq, forall_eq', Option.all_some,
    decide_true, Bool.true_and, Option.bind_some]
  rw [Handled.bind_iff, handled_getExceptions (Nat.zero_le _), Nat.zero_add, Bool.and_eq_true,
    decide_eq_true_eq]
  rcases getExceptions bytes pos 0 nExc.toNat with e | ⟨exc, pos₁⟩
  · simp [Except.toOption]
  simp only [Except.ok.injEq, forall_eq', Except.toOption, Option.bind_some, Option.all_some,
    Handled.okOr_bind_iff]
  rcases getUvarint bytes pos₁ with _ | ⟨vlen, pos₂⟩
  · simp
  simp only [Option.some.injEq, forall_eq', Option.bind_some, Option.all_some]
  by_cases ends : pos₂ + vlen.toNat ≤ usizeMax
  swap
  · simp [ends, addUsize, Handled.not_fault]
  simp only [ends, addUsize, if_true, ok_bind, Handled.okOr_bind_iff, decide_true, Bool.true_and]
  rcases slice bytes pos₂ (pos₂ + vlen.toNat) with _ | vbytes
  · simp
  simp only [Option.some.injEq, forall_eq', Option.bind_some, Option.all_some, Handled.bind_iff,
    handled_decodeValues, Bool.and_eq_true]
  rcases decodeValues (F := F) (bytes.getD 20 0) vbytes (leNat (bytes.take 4)) with e | values
  · simp
  simp only [Except.ok.injEq, forall_eq', Option.bind_some, getAnomalyRle,
    Handled.okOr_bind_iff, Handled.ok]
  rcases getUvarint bytes (pos₂ + vlen.toNat) with _ | ⟨nRuns, pos₃⟩
  · simp
  have runs := @handled_getRuns bytes pos₃ nRuns.toNat false [] (Nat.zero_le _)
  simp [Handled.map_iff, runs, and_assoc]

theorem decodeCompact_handled_one : Handled (decodeCompact (F := Int64)
    (leBytes 4 1 ++ replicate 17 0 ++ [0, 4, 0, 0, 0, 0, 1, 1])) :=
  ((decodeCompact_handled _).1.mpr (by decide +kernel)).1

/-- A block that states 2^60 exceptions asks for more room than there is, and one
with a window of 31 leading zeros and 32 meaningful bits subtracts below zero. -/
theorem decodeCompact_faults :
    decodeCompact (F := Int64) (leBytes 4 1 ++ replicate 17 0 ++ putUvarint (2 ^ 60))
        = .error (.fault .capacity) ∧
      decodeCompact (F := Int64) (leBytes 4 2 ++ replicate 17 0 ++
          [0, 6, 0, 0, 0, 0, 0xff, 0xff]) = .error (.fault .underflow) :=
  ⟨by decide +kernel, by decide +kernel⟩

/-! ## Merging points -/

/-- Exact arithmetic in which the order of the operands does not matter either. -/
class CommutativeArithmetic (F : Type) [Float64 F] : Prop extends ExactArithmetic F where
  add_comm (a b : F) : Float64.add a b = Float64.add b a
  min_comm (a b : F) : Float64.min a b = Float64.min b a
  max_comm (a b : F) : Float64.max a b = Float64.max b a

instance : CommutativeArithmetic Int64 where
  add_comm := Int64.add_comm
  min_comm a b := by
    show min a b = min b a
    simp only [min_eq_if, Int64.le_iff_toInt_le]
    split_ifs <;> first | rfl | exact Int64.toInt_inj.mp (by omega)
  max_comm a b := by
    show max a b = max b a
    simp only [max_eq_if, Int64.le_iff_toInt_le]
    split_ifs <;> first | rfl | exact Int64.toInt_inj.mp (by omega)

namespace StoredTierPoint

variable [CommutativeArithmetic F]

open ExactArithmetic CommutativeArithmetic

/-- Points of one bucket merge in either order exactly where two that end at one time end
on one value, and in any grouping. -/
theorem merge_comm_assoc (a b c : StoredTierPoint F) (bucket : a.bucket = b.bucket) :
    (a.merge b = b.merge a ↔ (a.lastTs = b.lastTs → a.last = b.last)) ∧
      (a.merge b).merge c = a.merge (b.merge c) := by
  refine ⟨⟨fun same tie => ?_, fun ties => ?_⟩, ?_⟩
  · have last := congrArg StoredTierPoint.last same
    simp only [merge, tie, ge_iff_le, Int64.le_refl, if_true] at last
    exact last.symm
  · ext
    · exact bucket
    · exact min_comm ..
    · exact max_comm ..
    · exact add_comm ..
    · simp only [merge, ge_iff_le, Int64.le_iff_toInt_le]
      split_ifs
      · exact (ties (Int64.toInt_inj.mp (by omega))).symm
      · rfl
      · rfl
      · omega
    · simp only [merge, ge_iff_le, Int64.le_iff_toInt_le]
      split_ifs <;> first | rfl | exact Int64.toInt_inj.mp (by omega)
    · exact congrArg UInt32.toNat (UInt32.add_comm ..)
  · ext
    · rfl
    · exact min_assoc ..
    · exact max_assoc ..
    · exact add_assoc ..
    · simp only [merge, ge_iff_le, Int64.le_iff_toInt_le]
      split_ifs <;> first | rfl | omega
    · simp only [merge, ge_iff_le, Int64.le_iff_toInt_le]
      split_ifs <;> first | rfl | omega
    · exact congrArg UInt32.toNat (UInt32.add_assoc ..)

theorem merge_comm_assoc_apart :
    ((fresh 0 (⟨5, 1⟩ : Sample Int64)).add ⟨5, 1⟩).merge ((fresh 0 ⟨6, 2⟩).add ⟨6, 2⟩)
      = ((fresh 0 ⟨6, 2⟩).add ⟨6, 2⟩).merge ((fresh 0 ⟨5, 1⟩).add ⟨5, 1⟩) :=
  (merge_comm_assoc ((fresh 0 (⟨5, 1⟩ : Sample Int64)).add ⟨5, 1⟩) ((fresh 0 ⟨6, 2⟩).add ⟨6, 2⟩)
    (fresh 0 ⟨7, 3⟩) rfl).1.mpr (by decide)

/-- Two commits of one second with different readings: the one merged in is kept. -/
theorem merge_tie :
    ((fresh 0 (⟨5, 1⟩ : Sample Int64)).add ⟨5, 1⟩).merge ((fresh 0 ⟨5, 2⟩).add ⟨5, 2⟩)
      ≠ ((fresh 0 ⟨5, 2⟩).add ⟨5, 2⟩).merge ((fresh 0 ⟨5, 1⟩).add ⟨5, 1⟩) := by
  decide

end StoredTierPoint

end OpenGate.Tsdb
