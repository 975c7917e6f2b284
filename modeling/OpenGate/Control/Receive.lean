import OpenGate.Lib.BigEndian

/-!
# The agent's control stream

`receive_control` of `connection.rs` under the `select!` of `control_loop.rs`.  A call
reads the type, the length and the payload of a frame one after the other, and takes
bytes off the stream as they come.  When another branch is ready first the call is
dropped with what it has read, and the next turn of the loop starts a fresh one.
-/

namespace OpenGate.Control

open OpenGate.Lib List

def maxFrameSize : Nat := 16 * 1024 * 1024

def frameControl : UInt8 := 0x01

def framePing : UInt8 := 0x05

/-! ## What the server writes -/

/-- The two msgpack libraries: what the server's encoder writes the agent's decoder
reads back. -/
structure MessageCodec (M : Type) where
  encode : M → List UInt8
  decode : List UInt8 → Option M
  decode_encode : ∀ m, decode (encode m) = some m

inductive Frame (M : Type) where
  | control (msg : M)
  | ping

variable {M : Type} (codec : MessageCodec M)

def writeFrame : Frame M → Option (List UInt8)
  | .control msg =>
    if (codec.encode msg).length ≤ maxFrameSize then
      some (frameControl :: beBytes 4 (codec.encode msg).length ++ codec.encode msg)
    else none
  | .ping => some [framePing]

def writeAll : List (Frame M) → Option (List UInt8)
  | [] => some []
  | f :: frames => do
      let bytes ← writeFrame codec f
      let rest ← writeAll frames
      some (bytes ++ rest)

def messages : List (Frame M) → List M
  | [] => []
  | .control msg :: frames => msg :: messages frames
  | .ping :: frames => messages frames

/-! ## The pending call -/

inductive ProtocolError where
  | unknownFrameType (type : UInt8)
  | frameTooLarge (size : Nat)
  | msgpackDecode
  deriving DecidableEq, Repr

/-- Where a pending `receive_control` is: before the type byte, answering a ping, or
with part of the length or of the payload. -/
inductive Call where
  | readType
  | writePong
  | readLength (got : List UInt8)
  | readPayload (length : Nat) (got : List UInt8)
  deriving DecidableEq

/-- What a byte makes of a call. -/
inductive Outcome (M : Type) where
  | pending (call : Call)
  | message (msg : M)
  | failed (error : ProtocolError)

def finish (payload : List UInt8) : Outcome M :=
  match codec.decode payload with
  | some msg => .message msg
  | none => .failed .msgpackDecode

def lengthRead (bytes : List UInt8) : Outcome M :=
  let length := beNat bytes
  if length > maxFrameSize then .failed (.frameTooLarge length)
  else if length = 0 then finish codec []
  else .pending (.readPayload length [])

/-- One byte read by a call; none is while it writes a pong. -/
def Call.feed (call : Call) (b : UInt8) : Option (Outcome M) :=
  match call with
  | .readType =>
    if b = framePing then some (.pending .writePong)
    else if b ≠ frameControl then some (.failed (.unknownFrameType b))
    else some (.pending (.readLength []))
  | .writePong => none
  | .readLength got =>
    let got := got ++ [b]
    if got.length < 4 then some (.pending (.readLength got)) else some (lengthRead codec got)
  | .readPayload length got =>
    let got := got ++ [b]
    if got.length < length then some (.pending (.readPayload length got))
    else some (finish codec got)

/-! ## The loop -/

structure Stream (M : Type) where
  inFlight : List UInt8
  arrived : List UInt8
  call : Call
  dispatched : List M
  failed : Option ProtocolError

def Stream.start (bytes : List UInt8) : Stream M := ⟨bytes, [], .readType, [], none⟩

def Stream.afterByte (s : Stream M) (rest : List UInt8) : Outcome M → Stream M
  | .pending call => { s with arrived := rest, call := call }
  | .message msg =>
    { s with arrived := rest, call := .readType, dispatched := s.dispatched ++ [msg] }
  | .failed error => { s with arrived := rest, failed := some error }

inductive Event where
  | arrive (n : Nat)
  /-- The pending call reads a byte. -/
  | byte
  | ponged
  /-- Another branch is ready, and the pending call is dropped. -/
  | cancel

inductive Step : Stream M → Event → Stream M → Prop where
  | arrive {s : Stream M} {n : Nat} : s.failed = none →
      Step s (.arrive n)
        { s with inFlight := s.inFlight.drop n, arrived := s.arrived ++ s.inFlight.take n }
  | byte {s : Stream M} {b : UInt8} {rest : List UInt8} {outcome : Outcome M} : s.failed = none →
      s.arrived = b :: rest → s.call.feed codec b = some outcome →
      Step s .byte (s.afterByte rest outcome)
  | ponged {s : Stream M} : s.failed = none → s.call = .writePong →
      Step s .ponged { s with call := .readType }
  | cancel {s : Stream M} : s.failed = none → Step s .cancel { s with call := .readType }

inductive Reached (allowed : Stream M → Event → Prop) (bytes : List UInt8) : Stream M → Prop where
  | start : Reached allowed bytes (.start bytes)
  | step {s s' : Stream M} {e : Event} : Reached allowed bytes s → allowed s e → Step codec s e s' →
      Reached allowed bytes s'

/-- A call that is dropped holds no byte of a control frame. -/
def CleanCancel (s : Stream M) (e : Event) : Prop :=
  match e, s.call with
  | .cancel, .readLength _ => False
  | .cancel, .readPayload _ _ => False
  | _, _ => True

/-! ## What is left of the frames -/

/-- The bytes ahead of a call, when the frames `rest` are still to be dispatched. -/
inductive Ahead : Call → List UInt8 → List (Frame M) → Prop where
  | readType {bytes : List UInt8} {rest : List (Frame M)} : writeAll codec rest = some bytes →
      Ahead .readType bytes rest
  | writePong {bytes : List UInt8} {rest : List (Frame M)} : writeAll codec rest = some bytes →
      Ahead .writePong bytes rest
  | readLength {bytes got later : List UInt8} {msg : M} {rest : List (Frame M)} :
      (codec.encode msg).length ≤ maxFrameSize → writeAll codec rest = some later → got.length < 4 →
      got ++ bytes = beBytes 4 (codec.encode msg).length ++ (codec.encode msg ++ later) →
      Ahead (.readLength got) bytes (.control msg :: rest)
  | readPayload {bytes got later : List UInt8} {msg : M} {rest : List (Frame M)} :
      writeAll codec rest = some later → got.length < (codec.encode msg).length →
      got ++ bytes = codec.encode msg ++ later →
      Ahead (.readPayload (codec.encode msg).length got) bytes (.control msg :: rest)

variable {s : Stream M} {call : Call} {b : UInt8}

section Feed

variable {codec}

variable {rest : List (Frame M)} {bytes : List UInt8} {frames : List (Frame M)}
  {got later : List UInt8}

theorem writeAll_cons {f : Frame M} (written : writeAll codec (f :: rest) = some bytes) :
    ∃ frame later, writeFrame codec f = some frame ∧ writeAll codec rest = some later ∧
      bytes = frame ++ later := by
  obtain ⟨frame, isFrame, written⟩ := Option.bind_eq_some_iff.mp written
  obtain ⟨later, isLater, same⟩ := Option.bind_eq_some_iff.mp written
  exact ⟨frame, later, isFrame, isLater, (Option.some.inj same).symm⟩

/-- The payload is complete. -/
theorem finish_eq {msg : M} (length : got.length = (codec.encode msg).length)
    (same : got ++ bytes = codec.encode msg ++ later) :
    finish codec got = .message msg ∧ bytes = later := by
  obtain ⟨rfl, rfl⟩ := append_inj same length
  rw [finish, codec.decode_encode]
  exact ⟨rfl, rfl⟩

/-- The length is complete. -/
theorem lengthRead_eq {msg : M} (fits : (codec.encode msg).length ≤ maxFrameSize)
    (written : writeAll codec rest = some later) (four : got.length = 4)
    (same : got ++ bytes = beBytes 4 (codec.encode msg).length ++ (codec.encode msg ++ later)) :
    lengthRead codec got = .message msg ∧ bytes = later ∨
      lengthRead codec got = .pending (.readPayload (codec.encode msg).length []) ∧
        Ahead codec (.readPayload (codec.encode msg).length []) bytes (.control msg :: rest) := by
  obtain ⟨rfl, rfl⟩ := append_inj same (by rw [four, length_beBytes])
  have small : (codec.encode msg).length < 256 ^ 4 := Nat.lt_of_le_of_lt fits (by decide)
  unfold lengthRead
  rw [beNat_beBytes, Nat.mod_eq_of_lt small]
  rw [if_neg (Nat.not_lt.mpr fits)]
  split
  next none =>
    have empty := length_eq_zero_iff.mp none
    have done : finish codec [] = .message msg ∧ codec.encode msg ++ later = later :=
      finish_eq none.symm (by rw [empty]; rfl)
    exact .inl done
  next some => exact .inr ⟨rfl, .readPayload written (Nat.pos_of_ne_zero some) rfl⟩

/-- What a byte does to the frames ahead. -/
theorem Ahead.feed {outcome : Outcome M} (ahead : Ahead codec call (b :: bytes) rest)
    (fed : call.feed codec b = some outcome) :
    (∃ call' rest', outcome = .pending call' ∧ Ahead codec call' bytes rest' ∧
        messages rest' = messages rest) ∨
      ∃ msg rest', outcome = .message msg ∧ Ahead codec .readType bytes rest' ∧
        messages rest = msg :: messages rest' := by
  cases ahead with
  | readType written =>
    cases rest with
    | nil => cases written
    | cons f rest =>
      obtain ⟨frame, later, isFrame, isLater, same⟩ := writeAll_cons written
      cases f with
      | control msg =>
        rw [writeFrame] at isFrame
        split at isFrame
        next fits =>
          cases isFrame
          cases same
          cases fed
          exact .inl ⟨_, _, rfl, .readLength fits isLater (by decide) rfl, rfl⟩
        · cases isFrame
      | ping =>
        cases isFrame
        cases same
        cases fed
        exact .inl ⟨_, rest, rfl, .writePong isLater, rfl⟩
  | writePong => cases fed
  | @readLength _ got later msg rest fits written short same =>
    have same : (got ++ [b]) ++ bytes = _ := (append_assoc got [b] bytes).trans same
    have length : (got ++ [b]).length = got.length + 1 := length_append
    unfold Call.feed at fed
    dsimp only at fed
    split at fed
    next more =>
      cases fed
      exact .inl ⟨_, _, rfl, .readLength fits written more same, rfl⟩
    next full =>
      cases fed
      rcases lengthRead_eq fits written (by omega) same with ⟨is, rfl⟩ | ⟨is, ahead⟩
      · exact .inr ⟨msg, rest, is, .readType written, rfl⟩
      · exact .inl ⟨_, _, is, ahead, rfl⟩
  | @readPayload _ got later msg rest written short same =>
    have same : (got ++ [b]) ++ bytes = _ := (append_assoc got [b] bytes).trans same
    have length : (got ++ [b]).length = got.length + 1 := length_append
    unfold Call.feed at fed
    dsimp only at fed
    split at fed
    next more =>
      cases fed
      exact .inl ⟨_, _, rfl, .readPayload written more same, rfl⟩
    next full =>
      cases fed
      obtain ⟨is, rfl⟩ := finish_eq (by omega) same
      exact .inr ⟨msg, rest, is, .readType written, rfl⟩

/-- What holds in every state: the messages dispatched and those ahead are the ones
sent. -/
structure InSync (codec : MessageCodec M) (frames : List (Frame M)) (s : Stream M) : Prop where
  failed : s.failed = none
  ahead : ∃ rest, Ahead codec s.call (s.arrived ++ s.inFlight) rest ∧
    s.dispatched ++ messages rest = messages frames

theorem InSync.step {s' : Stream M} {e : Event} (sync : InSync codec frames s)
    (clean : CleanCancel s e) (step : Step codec s e s') : InSync codec frames s' := by
  obtain ⟨failed, rest, ahead, all⟩ := sync
  cases step with
  | arrive =>
    refine ⟨failed, rest, ?_, all⟩
    rw [append_assoc, take_append_drop]
    exact ahead
  | @byte b later outcome _ waiting fed =>
    rw [waiting, cons_append] at ahead
    rcases ahead.feed fed with ⟨call, rest', rfl, ahead', same⟩ | ⟨msg, rest', rfl, ahead', same⟩
    · exact ⟨failed, rest', ahead', by rw [← all, ← same]; rfl⟩
    · refine ⟨failed, rest', ahead', ?_⟩
      rw [← all, same]
      exact append_assoc s.dispatched [msg] _
  | ponged _ answering =>
    rw [answering] at ahead
    cases ahead with
    | writePong written => exact ⟨failed, rest, .readType written, all⟩
  | cancel =>
    unfold CleanCancel at clean
    generalize callIs : s.call = call at clean ahead
    cases ahead with
    | readType written | writePong written => exact ⟨failed, rest, .readType written, all⟩
    | readLength | readPayload => exact clean.elim

end Feed

/-- The events of a schedule, all of them as the loop allows. -/
theorem Reached.arrive {codec : MessageCodec M} {allowed : Stream M → Event → Prop}
    {bytes : List UInt8} (reached : Reached codec allowed bytes s) (n : Nat)
    (ok : allowed s (.arrive n)) (alive : s.failed = none) :
    Reached codec allowed bytes
      { s with inFlight := s.inFlight.drop n, arrived := s.arrived ++ s.inFlight.take n } :=
  .step reached ok (.arrive alive)

end OpenGate.Control
