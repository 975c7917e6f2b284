import Mathlib

/-!
# Frames on the wire

The framing layer of `mesh-protocol` (`codec.rs`): one type byte, a four-byte
big-endian length and a payload, or a single byte for a ping or a pong.

MessagePack itself is a third-party package.  `WireCodec` stands for it: `pack`
serialises a message already laid out as its key/value map, `unpack` is the
deserialisation of a control payload, `accepts` says whether the payload of a
desktop, terminal or file frame deserialises.  `ControlMessage.wire` is the
layout the serde attributes of `ControlMessage` ask for, so the one thing
assumed of the package (`LawfulCodec`) is that it reads back the two kinds of
notice the hand-off writes and that such a notice is short.
-/

namespace OpenGate.Direct

open List

abbrev Bytes := List UInt8

/-- The most a payload may have. -/
def maxFrameSize : Nat := 16 * 1024 * 1024

def frameControl : UInt8 := 0x01
def frameDesktop : UInt8 := 0x02
def frameTerminal : UInt8 := 0x03
def frameFile : UInt8 := 0x04
def framePing : UInt8 := 0x05
def framePong : UInt8 := 0x06

/-! ## Big-endian lengths -/

/-- A payload's length, the highest byte first. -/
def toBe32 (n : Nat) : Bytes :=
  [UInt8.ofNat (n / 16777216), UInt8.ofNat (n / 65536), UInt8.ofNat (n / 256), UInt8.ofNat n]

/-- `u32::from_be_bytes` on the four bytes after the type byte of `data`. -/
def lengthField (data : Bytes) : Nat :=
  ((data.drop 1).take 4).foldl (fun n b => n * 256 + b.toNat) 0

theorem lengthField_toBe32 {n : Nat} (kind : UInt8) (rest : Bytes) (small : n < 2 ^ 32) :
    lengthField (kind :: (toBe32 n ++ rest)) = n := by
  simp only [lengthField, toBe32, drop_succ_cons, drop_zero, cons_append,
    nil_append, take_succ_cons, take_zero, foldl_cons, foldl_nil,
    UInt8.toNat_ofNat']
  omega

theorem lengthField_append {data : Bytes} (more : Bytes) (long : 5 ≤ data.length) :
    lengthField (data ++ more) = lengthField data := by
  unfold lengthField
  rw [drop_append_of_le_length (by omega), take_append_of_le_length]
  simp only [length_drop]
  omega

/-! ## Control messages -/

inductive WireValue where
  | str (text : String)
  | uint (value : UInt64)
  deriving DecidableEq, Repr

abbrev WireMap := List (String × WireValue)

/-- The control messages the direct link reads, and every other one as the
fields it carries: the hand-off delivers those without looking inside. -/
inductive ControlMessage where
  | directOffer (sdp : String)
  | directAnswer (sdp : String)
  | iceCandidate (candidate mid : String)
  | directRefused (reason : String)
  | directSwitch
  | directFallback (received receivedScreen receivedFiles : UInt64)
  | directAck (received receivedScreen receivedFiles : UInt64)
  | other (fields : WireMap)
  deriving DecidableEq, Repr

/-- A field under `skip_serializing_if = "is_default"`. -/
def countField (key : String) (value : UInt64) : WireMap :=
  if value = 0 then [] else [(key, .uint value)]

/-- The counts of a notice, for the channels that have any. -/
def countFields (received receivedScreen receivedFiles : UInt64) : WireMap :=
  countField "received" received ++ countField "received_screen" receivedScreen ++
    countField "received_files" receivedFiles

/-- The internally tagged layout of `#[serde(tag = "type")]`. -/
def ControlMessage.wire : ControlMessage → WireMap
  | .directOffer sdp => [("type", .str "DirectOffer"), ("sdp", .str sdp)]
  | .directAnswer sdp => [("type", .str "DirectAnswer"), ("sdp", .str sdp)]
  | .iceCandidate candidate mid =>
    [("type", .str "IceCandidate"), ("candidate", .str candidate), ("mid", .str mid)]
  | .directRefused reason => [("type", .str "DirectRefused"), ("reason", .str reason)]
  | .directSwitch => [("type", .str "DirectSwitch")]
  | .directFallback r s f => ("type", .str "DirectFallback") :: countFields r s f
  | .directAck r s f => ("type", .str "DirectAck") :: countFields r s f
  | .other fields => fields

/-- Whether the message belongs to the direct link, and so is no session data. -/
def ControlMessage.isDirect : ControlMessage → Bool
  | .other _ => false
  | _ => true

/-- Whether the message is one the hand-off itself writes. -/
def ControlMessage.isNotice : ControlMessage → Bool
  | .directSwitch | .directFallback .. | .directAck .. => true
  | _ => false

/-- Whether a control message sets up the link: these travel on the relay
outside the stream. -/
def isLinkSetup : ControlMessage → Bool
  | .directOffer _ | .directAnswer _ | .iceCandidate _ _ | .directRefused _ => true
  | _ => false

/-! ## The codec -/

/-- The MessagePack package: `rmp_serde` on the host, `@msgpack/msgpack` in the
browser. -/
class WireCodec where
  pack : WireMap → Bytes
  unpack : Bytes → Option ControlMessage
  accepts : UInt8 → Bytes → Bool

/-- The most a packed notice takes: a map of a type and three 64-bit counts. -/
def maxNotice : Nat := 128

/-- What the hand-off relies on: a notice is read back as it was written, and
is short. -/
class LawfulCodec [WireCodec] : Prop where
  unpack_pack : ∀ m : ControlMessage, m.isNotice → WireCodec.unpack (WireCodec.pack m.wire) = some m
  pack_short : ∀ m : ControlMessage, m.isNotice → (WireCodec.pack m.wire).length ≤ maxNotice

/-- A frame of the session protocol. -/
inductive Frame where
  | control (msg : ControlMessage)
  | desktop (payload : Bytes)
  | terminal (payload : Bytes)
  | fileTransfer (payload : Bytes)
  | ping
  | pong
  deriving DecidableEq, Repr

/-- Why bytes are no frame. -/
inductive ProtocolError where
  | frameTooLarge (size max : Nat)
  | unknownFrameType (kind : UInt8)
  | incompleteFrame (needed : Nat)
  | msgpackDecode
  deriving DecidableEq, Repr

/-- Whether a frame of this type carries a length and a payload. -/
def hasPayload (kind : UInt8) : Bool :=
  kind == frameControl || kind == frameDesktop || kind == frameTerminal || kind == frameFile

section

variable [WireCodec]

def decodePayload (kind : UInt8) (payload : Bytes) : Except ProtocolError Frame :=
  if kind = frameControl then
    match WireCodec.unpack payload with
    | some msg => .ok (.control msg)
    | none => .error .msgpackDecode
  else if WireCodec.accepts kind payload then
    .ok (if kind = frameDesktop then .desktop payload
      else if kind = frameTerminal then .terminal payload
      else .fileTransfer payload)
  else .error .msgpackDecode

/-- The first frame of the bytes and how many it took, or how many are missing. -/
def Frame.decode (data : Bytes) : Except ProtocolError (Frame × Nat) :=
  match data with
  | [] => .error (.incompleteFrame 1)
  | kind :: _ =>
    if kind = framePing then .ok (.ping, 1)
    else if kind = framePong then .ok (.pong, 1)
    else if hasPayload kind then
      if data.length < 5 then .error (.incompleteFrame (5 - data.length))
      else if maxFrameSize < lengthField data then
        .error (.frameTooLarge (lengthField data) maxFrameSize)
      else if data.length < 5 + lengthField data then
        .error (.incompleteFrame (5 + lengthField data - data.length))
      else
        match decodePayload kind ((data.take (5 + lengthField data)).drop 5) with
        | .ok frame => .ok (frame, 5 + lengthField data)
        | .error e => .error e
    else .error (.unknownFrameType kind)

/-- The control message `data` decodes to, if it does: the only thing the
hand-off asks of a frame. -/
def controlOf (data : Bytes) : Option ControlMessage :=
  match Frame.decode data with
  | .ok (.control msg, _) => some msg
  | _ => none

/-- The type, the length and the payload. -/
def encodeFrame (kind : UInt8) (payload : Bytes) : Except ProtocolError Bytes :=
  if maxFrameSize < payload.length then .error (.frameTooLarge payload.length maxFrameSize)
  else .ok (kind :: (toBe32 payload.length ++ payload))

/-- `Frame::Control(msg).encode()` with the hand-off's `expect`: the error arm,
which panics in the source, is never taken by a notice. -/
def encode (msg : ControlMessage) : Bytes :=
  match encodeFrame frameControl (WireCodec.pack msg.wire) with
  | .ok bytes => bytes
  | .error _ => []

end

/-! ## What a notice decodes to -/

section

variable [WireCodec] [LawfulCodec]

variable {msg : ControlMessage}

section

variable (notice : msg.isNotice)
include notice

/-- A notice is far below the limit, so that it is always written. -/
theorem encode_notice :
    encode msg = frameControl ::
      (toBe32 (WireCodec.pack msg.wire).length ++ WireCodec.pack msg.wire) := by
  have short := LawfulCodec.pack_short msg notice
  unfold encode encodeFrame
  rw [if_neg]
  simp only [maxFrameSize, maxNotice] at *
  omega

theorem length_encode_notice : (encode msg).length = 5 + (WireCodec.pack msg.wire).length := by
  rw [encode_notice notice]
  simp only [toBe32, length_cons, length_append, length_nil]
  omega

theorem lengthField_encode_notice :
    lengthField (encode msg) = (WireCodec.pack msg.wire).length := by
  have short := LawfulCodec.pack_short msg notice
  rw [encode_notice notice]
  apply lengthField_toBe32
  simp only [maxNotice] at short
  omega

/-- A notice is read back whole. -/
theorem decode_encode_notice :
    Frame.decode (encode msg) = .ok (.control msg, (encode msg).length) := by
  have length := length_encode_notice notice
  have field := lengthField_encode_notice notice
  have short := LawfulCodec.pack_short msg notice
  have payload : ((encode msg).take (5 + (WireCodec.pack msg.wire).length)).drop 5 =
      WireCodec.pack msg.wire := by
    rw [take_of_length_le (by omega), encode_notice notice]
    rfl
  have shape := encode_notice notice
  generalize encode msg = data at *
  subst shape
  unfold Frame.decode
  simp only [field, maxFrameSize, maxNotice] at *
  rw [if_neg (by decide), if_neg (by decide), if_pos (by decide), if_neg (by omega),
    if_neg (by omega), if_neg (by omega), payload]
  simp only [decodePayload, if_pos, LawfulCodec.unpack_pack msg notice, length]

/-- A notice written is read back. -/
theorem controlOf_encode : controlOf (encode msg) = some msg := by
  simp only [controlOf, decode_encode_notice notice]

end

end

end OpenGate.Direct
