import OpenGate.Direct.Frame

/-!
# Link pieces

`pieces.rs`: a frame is cut into pieces of at most `maxPiece` bytes, and the
receiver puts the pieces of one channel back into frames by each frame's own
length header.

`Whole frame` says that the header of `frame` announces exactly the bytes that
are there.  `Reassembler.push_stream` is the one fact the hand-off needs: a
reassembler fed the bytes of a stream of whole frames hands the frames out in
order, never errs, and keeps a part of the next one.
-/

namespace OpenGate.Direct

open List

def maxPiece : Nat := 16 * 1024

def maxLinkFrame : Nat := 4 * 1024 * 1024

/-- Bytes before a frame's payload: one type byte and a four-byte length. -/
def header : Nat := 5

inductive ReassemblyError where
  | tooLarge (total : Nat)
  | unknownType (kind : UInt8)
  deriving DecidableEq, Repr

/-! ## Cutting -/

/-- `slice::chunks`, with the length of the slice as fuel. -/
def chunks (size : Nat) : Nat → Bytes → List Bytes
  | _, [] => []
  | 0, _ :: _ => []
  | fuel + 1, b :: bs => (b :: bs).take size :: chunks size fuel ((b :: bs).drop size)

def split (frame : Bytes) : List Bytes := chunks maxPiece frame.length frame

theorem flatten_chunks {size : Nat} (pos : 0 < size) {fuel : Nat} {frame : Bytes}
    (enough : frame.length ≤ fuel) : (chunks size fuel frame).flatten = frame := by
  induction fuel generalizing frame with
  | zero =>
    obtain rfl := eq_nil_of_length_eq_zero (by omega : frame.length = 0)
    rfl
  | succ fuel ih =>
    cases frame with
    | nil => rfl
    | cons b bs =>
      rw [chunks, flatten_cons, ih, take_append_drop]
      simp only [length_drop, length_cons] at *
      omega

@[simp] theorem flatten_split {frame : Bytes} : (split frame).flatten = frame :=
  flatten_chunks (by decide) le_rfl

/-! ## Putting back together -/

/-- The length of the frame at the start of `buf` once it is all there, or
`none` while it is not. -/
def wholeFrameLen (buf : Bytes) : Except ReassemblyError (Option Nat) :=
  match buf with
  | [] => .ok none
  | kind :: _ =>
    if kind = framePing ∨ kind = framePong then .ok (some 1)
    else if hasPayload kind then
      if buf.length < header then .ok none
      else if maxLinkFrame < header + lengthField buf then
        .error (.tooLarge (header + lengthField buf))
      else if header + lengthField buf ≤ buf.length then .ok (some (header + lengthField buf))
      else .ok none
    else .error (.unknownType kind)

/-- The loop of `Reassembler::push`: every frame `buf` completes, and what is
left.  A frame takes at least one byte, so the length of `buf` is fuel enough. -/
def takeFrames : Nat → Bytes → Except ReassemblyError (List Bytes) × Bytes
  | 0, buf => (.ok [], buf)
  | fuel + 1, buf =>
    match wholeFrameLen buf with
    | .error e => (.error e, buf)
    | .ok none => (.ok [], buf)
    | .ok (some len) =>
      match takeFrames fuel (buf.drop len) with
      | (.ok frames, rest) => (.ok (buf.take len :: frames), rest)
      | (.error e, rest) => (.error e, rest)

/-- Puts pieces back into whole frames, holding at most one frame in part. -/
structure Reassembler where
  buf : Bytes
  deriving DecidableEq, Repr

def Reassembler.new : Reassembler := ⟨[]⟩

/-- Appends one piece and returns every frame it completes, in order. -/
def Reassembler.push (r : Reassembler) (piece : Bytes) :
    Reassembler × Except ReassemblyError (List Bytes) :=
  let joined := r.buf ++ piece
  let (result, rest) := takeFrames joined.length joined
  (⟨rest⟩, result)

/-! ## Whole frames -/

/-- The header of `frame` announces exactly the bytes that are there, and the
link takes a frame of that size. -/
def Whole (frame : Bytes) : Prop := wholeFrameLen frame = .ok (some frame.length)

variable {frame : Bytes} {stream : List Bytes} {r : Reassembler}

section

variable (whole : Whole frame)
include whole

theorem Whole.ne_nil : frame ≠ [] := by
  rintro rfl
  simp [Whole, wholeFrameLen] at whole

theorem Whole.length_pos : 0 < frame.length :=
  length_pos_of_ne_nil whole.ne_nil

/-- What makes a frame whole: a ping or a pong alone, or a header that counts
the payload exactly. -/
theorem Whole.cases :
    (∃ kind, frame = [kind] ∧ (kind = framePing ∨ kind = framePong)) ∨
    (∃ kind tail, frame = kind :: tail ∧ ¬ (kind = framePing ∨ kind = framePong) ∧
      hasPayload kind ∧ header ≤ frame.length ∧
      header + lengthField frame = frame.length ∧ frame.length ≤ maxLinkFrame) := by
  cases frame with
  | nil => exact (whole.ne_nil rfl).elim
  | cons kind tail =>
    unfold Whole wholeFrameLen at whole
    simp only at whole
    split at whole
    next single =>
      simp only [Except.ok.injEq, Option.some.injEq, length_cons] at whole
      obtain rfl := eq_nil_of_length_eq_zero (by omega : tail.length = 0)
      exact Or.inl ⟨kind, rfl, single⟩
    next single =>
      split at whole
      next payload =>
        split at whole
        · simp at whole
        next long =>
          split at whole
          · simp at whole
          next fits =>
            split at whole
            · simp only [Except.ok.injEq, Option.some.injEq] at whole
              exact Or.inr ⟨kind, tail, rfl, single, payload, by omega, whole, by omega⟩
            · simp at whole
      · simp at whole

/-- Bytes after a whole frame do not change what its header says. -/
theorem Whole.append (more : Bytes) : wholeFrameLen (frame ++ more) = .ok (some frame.length) := by
  rcases whole.cases
    with ⟨kind, rfl, single⟩ | ⟨kind, tail, shape, single, payload, long, field, fits⟩
  · simp only [cons_append, nil_append, wholeFrameLen, if_pos single,
      length_cons, length_nil]
  · have same := lengthField_append more long
    have length : frame.length ≤ (frame ++ more).length := by simp
    subst shape
    rw [cons_append] at *
    unfold wholeFrameLen
    simp only
    rw [if_neg single, if_pos payload, if_neg (by omega), same, field, if_neg (by omega),
      if_pos length]

/-- A part of a whole frame is not yet a frame, and is no error. -/
theorem Whole.part {part more : Bytes} (cut : part ++ more = frame) (short : more ≠ []) :
    wholeFrameLen part = .ok none := by
  have less : part.length < frame.length := by
    have := length_pos_of_ne_nil short
    rw [← cut, length_append]
    omega
  cases part with
  | nil => rfl
  | cons k rest =>
    rcases whole.cases with ⟨kind, rfl, single⟩ |
      ⟨kind, tail, shape, single, payload, long, field, fits⟩
    · simp at less
    · have head : k = kind := by
        rw [shape, cons_append] at cut
        exact (List.cons.inj cut).1
      subst head
      unfold wholeFrameLen
      simp only
      rw [if_neg single, if_pos payload]
      split
      · rfl
      next longPart =>
        have long : 5 ≤ (k :: rest).length := by
          simp only [header] at longPart
          omega
        have same := lengthField_append more long
        rw [cut] at same
        rw [← same, field, if_neg (by omega), if_neg (by omega)]

end

/-- Bytes that begin a stream of frames and hold no whole one. -/
def Begins (rest : Bytes) (later : List Bytes) : Prop :=
  rest = [] ∨ ∃ frame tail, later = frame :: tail ∧ rest <+: frame ∧ rest ≠ frame

/-- **Fed a stream of whole frames, the loop hands them out in order.**  The
bytes not yet handed out are a part of the next frame. -/
theorem takeFrames_stream {fuel : Nat} {buf : Bytes} (enough : buf.length ≤ fuel)
    (whole : ∀ f ∈ stream, Whole f) (part : buf <+: stream.flatten) :
    ∃ frames rest later, takeFrames fuel buf = (.ok frames, rest) ∧
      stream = frames ++ later ∧ buf = frames.flatten ++ rest ∧ Begins rest later := by
  induction fuel generalizing buf stream with
  | zero =>
    exact ⟨[], buf, stream, rfl, rfl, rfl, .inl (eq_nil_of_length_eq_zero (by omega))⟩
  | succ fuel ih =>
    cases stream with
    | nil =>
      obtain rfl := prefix_nil.mp part
      exact ⟨[], [], [], rfl, rfl, rfl, .inl rfl⟩
    | cons frame stream =>
      have frameWhole := whole frame mem_cons_self
      rcases prefix_or_prefix_of_prefix part (prefix_append frame stream.flatten) with
        ⟨more, cut⟩ | ⟨rest, cut⟩
      · -- the buffer holds the first frame in part, or all of it and nothing more
        by_cases done : more = []
        · subst done
          rw [append_nil] at cut
          subst cut
          have len : wholeFrameLen buf = .ok (some buf.length) := frameWhole
          refine ⟨[buf], [], stream, ?_, rfl, by simp, .inl rfl⟩
          simp only [takeFrames, len, drop_length, take_length]
          cases fuel <;> rfl
        · refine ⟨[], buf, frame :: stream, ?_, rfl, rfl,
            .inr ⟨frame, stream, rfl, ⟨more, cut⟩, ?_⟩⟩
          · simp only [takeFrames, frameWhole.part cut done]
          · rintro rfl
            exact done (append_right_eq_self.mp cut)
      · subst cut
        have restPart := (prefix_append_right_inj frame).mp part
        have pos := frameWhole.length_pos
        rw [length_append] at enough
        have shorter : rest.length ≤ fuel := by omega
        obtain ⟨frames, left, later, taken, eq, bytes, leftPart⟩ :=
          ih shorter (fun f member => whole f (mem_cons_of_mem _ member)) restPart
        refine ⟨frame :: frames, left, later, ?_, by rw [eq, cons_append], ?_, leftPart⟩
        · simp only [takeFrames, frameWhole.append, drop_left, take_left, taken]
        · rw [bytes, flatten_cons, append_assoc]

/-- A reassembler in the middle of a stream of whole frames takes the next
piece of it without error. -/
theorem Reassembler.push_stream {piece : Bytes} (whole : ∀ f ∈ stream, Whole f)
    (part : r.buf ++ piece <+: stream.flatten) :
    ∃ frames rest later, r.push piece = (⟨rest⟩, .ok frames) ∧ stream = frames ++ later ∧
      r.buf ++ piece = frames.flatten ++ rest ∧ Begins rest later := by
  obtain ⟨frames, rest, later, taken, eq, bytes, left⟩ :=
    takeFrames_stream le_rfl whole part
  exact ⟨frames, rest, later, by simp only [Reassembler.push, taken], eq, bytes, left⟩

/-- What `Frame::encode` makes: a ping or a pong alone, or a payload under its header. -/
def Encoded (frame : Bytes) : Prop :=
  frame = [framePing] ∨ frame = [framePong] ∨
    ∃ kind payload, hasPayload kind ∧ encodeFrame kind payload = .ok frame

theorem Encoded.whole (encoded : Encoded frame) (fits : frame.length ≤ maxLinkFrame) :
    Whole frame := by
  rcases encoded with rfl | rfl | ⟨kind, payload, typed, made⟩
  · rfl
  · rfl
  · rw [encodeFrame] at made
    split at made
    · cases made
    · obtain rfl := Except.ok.inj made
      have headerIs : header = 5 := rfl
      have limitIs : maxLinkFrame = 4194304 := rfl
      have length : (kind :: (toBe32 payload.length ++ payload)).length = 5 + payload.length := by
        simp only [toBe32, length_cons, length_append, length_nil]
        omega
      have single : ¬ (kind = framePing ∨ kind = framePong) := by
        rintro (rfl | rfl) <;> cases typed
      unfold Whole wholeFrameLen
      simp only
      rw [if_neg single, if_pos typed, lengthField_toBe32 kind payload (by omega), length,
        if_neg (by omega), if_neg (by omega), if_pos (by omega), headerIs]

/-- A notice of the hand-off is a whole frame. -/
theorem whole_encode [WireCodec] [LawfulCodec] {msg : ControlMessage} (notice : msg.isNotice) :
    Whole (encode msg) := by
  have length := length_encode_notice notice
  have short := LawfulCodec.pack_short msg notice
  have limitIs : maxLinkFrame = 4194304 := rfl
  have noticeIs : maxNotice = 128 := rfl
  refine Encoded.whole (.inr (.inr ⟨frameControl, WireCodec.pack msg.wire, rfl, ?_⟩)) (by omega)
  rw [encodeFrame, if_neg (by simp only [maxFrameSize]; omega), encode_notice notice]

end OpenGate.Direct
