import OpenGate.Direct.Handoff

/-!
# The browser's link pieces

`lib/direct/pieces.ts`, the second writing of `pieces.rs`: cutting a frame into
pieces and putting pieces back together.  Both come to the same.  A thrown
`ReassemblyError` is the error of an `Except`; it carries only its message, which
nothing in the hand-off reads.
-/

namespace OpenGate.Web

open Direct List

def splitFrom (frame : Bytes) : Nat → Nat → List Bytes
  | 0, _ => []
  | fuel + 1, start =>
    if start < frame.length then
      (frame.take (min (start + maxPiece) frame.length)).drop start ::
        splitFrom frame fuel (start + maxPiece)
    else []

/-- Cuts an encoded frame into pieces of at most `maxPiece` bytes. -/
def split (frame : Bytes) : List Bytes := splitFrom frame frame.length 0

/-- `kind.toString(16).padStart(2, '0')`. -/
def hexByte (kind : UInt8) : String :=
  let digits := Nat.toDigits 16 kind.toNat
  String.ofList (List.replicate (2 - digits.length) '0' ++ digits)

/-- The length of the frame at the start of `buf` once it is all there, or `none`
while it is not. -/
def wholeFrameLength (buf : Bytes) : Except String (Option Nat) :=
  match buf with
  | [] => .ok none
  | kind :: _ =>
    if kind = framePing ∨ kind = framePong then .ok (some 1)
    else if kind = frameControl ∨ kind = frameDesktop ∨ kind = frameTerminal ∨
        kind = frameFile then
      if buf.length < header then .ok none
      else
        let total := header + lengthField buf
        if maxLinkFrame < total then
          .error s!"a link frame of {total} bytes is past the {maxLinkFrame}-byte limit"
        else if total ≤ buf.length then .ok (some total)
        else .ok none
    else .error ("unknown frame type 0x" ++ hexByte kind ++ " on the link")

/-- The loop of `Reassembler.push`. -/
def takeWhole : Nat → Bytes → List Bytes → Except String (List Bytes) × Bytes
  | 0, buf, frames => (.ok frames, buf)
  | fuel + 1, buf, frames =>
    match wholeFrameLength buf with
    | .error message => (.error message, buf)
    | .ok none => (.ok frames, buf)
    | .ok (some len) => takeWhole fuel (buf.drop len) (frames ++ [buf.take len])

/-- Puts pieces back into whole frames, holding at most one frame in part. -/
structure Reassembler where
  buf : Bytes
  deriving DecidableEq, Repr

def Reassembler.new : Reassembler := ⟨[]⟩

/-- Appends a piece and returns the frames it completes, or throws. -/
def Reassembler.push (r : Reassembler) (piece : Bytes) :
    Reassembler × Except String (List Bytes) :=
  let joined := r.buf ++ piece
  let (frames, rest) := takeWhole joined.length joined []
  (⟨rest⟩, frames)

/-! ## The same pieces -/

variable (frame : Bytes) {r : Direct.Reassembler}

theorem splitFrom_eq_chunks (fuel start : Nat) :
    splitFrom frame fuel start = chunks maxPiece fuel (frame.drop start) := by
  induction fuel generalizing start with
  | zero =>
    rw [splitFrom]
    cases frame.drop start <;> rfl
  | succ fuel ih =>
    rw [splitFrom]
    split
    next more =>
      have piece : (frame.take (min (start + maxPiece) frame.length)).drop start =
          (frame.drop start).take maxPiece := by
        rw [List.take_eq_take_min, Nat.min_assoc, Nat.min_self, ← List.take_eq_take_min,
          List.drop_take, Nat.add_sub_cancel_left]
      cases rest : frame.drop start with
      | nil =>
        rw [List.drop_eq_nil_iff] at rest
        omega
      | cons b bs => rw [chunks, ih, piece, rest, ← rest, List.drop_drop]
    next done =>
      rw [List.drop_eq_nil_of_le (by omega)]
      rfl

theorem split_eq : split frame = Direct.split frame := by
  rw [split, splitFrom_eq_chunks, List.drop_zero]
  rfl

/-- Both read one length header the same way. -/
theorem wholeFrameLength_eq (buf : Bytes) :
    (wholeFrameLength buf).toOption = (wholeFrameLen buf).toOption := by
  have payload : ∀ kind : UInt8, hasPayload kind ↔
      (kind = frameControl ∨ kind = frameDesktop ∨ kind = frameTerminal ∨ kind = frameFile) := by
    intro kind
    simp only [hasPayload, Bool.or_eq_true, beq_iff_eq, or_assoc]
  unfold wholeFrameLength wholeFrameLen
  cases buf with
  | nil => rfl
  | cons kind tail =>
    simp only [payload]
    split
    · rfl
    · split
      · split
        · rfl
        · split
          · rfl
          · split <;> rfl
      · rfl

/-- The two loops take the same frames off and leave the same bytes. -/
theorem takeWhole_eq (fuel : Nat) (buf : Bytes) (frames : List Bytes) :
    (takeWhole fuel buf frames).2 = (takeFrames fuel buf).2 ∧
      (takeWhole fuel buf frames).1.toOption =
        (takeFrames fuel buf).1.toOption.map (frames ++ ·) := by
  induction fuel generalizing buf frames with
  | zero => exact ⟨rfl, by simp [takeWhole, takeFrames, Except.toOption]⟩
  | succ fuel ih =>
    have same := wholeFrameLength_eq buf
    rw [takeWhole, takeFrames]
    cases theirs : wholeFrameLen buf with
    | error e =>
      cases ours : wholeFrameLength buf with
      | error message => exact ⟨rfl, rfl⟩
      | ok len => simp [ours, theirs, Except.toOption] at same
    | ok len =>
      cases ours : wholeFrameLength buf with
      | error message => simp [ours, theirs, Except.toOption] at same
      | ok len' =>
        obtain rfl : len' = len := by simpa [ours, theirs, Except.toOption] using same
        cases len' with
        | none => exact ⟨rfl, by simp [Except.toOption]⟩
        | some len =>
          obtain ⟨rest, taken⟩ := ih (buf.drop len) (frames ++ [buf.take len])
          simp only
          cases later : takeFrames fuel (buf.drop len) with
          | mk result left =>
            rw [later] at rest taken
            cases result with
            | ok more =>
              refine ⟨rest, taken.trans ?_⟩
              simp [Except.toOption]
            | error e => exact ⟨rest, taken⟩

theorem push_eq (piece : Bytes) :
    ((⟨r.buf⟩ : Reassembler).push piece).1 = ⟨(r.push piece).1.buf⟩ ∧
      ((⟨r.buf⟩ : Reassembler).push piece).2.toOption = (r.push piece).2.toOption := by
  obtain ⟨rest, taken⟩ := takeWhole_eq (r.buf ++ piece).length (r.buf ++ piece) []
  exact ⟨congrArg Reassembler.mk rest, taken.trans Option.map_id'⟩

end OpenGate.Web
