/-
# Framing

A frame is a byte string behind its length, four bytes most significant first.
Frames written one after another are read back one at a time, each read naming
what it was looking for; `FrameCursor.finish` then insists that nothing is left.

Four bytes hold the length of a byte string below four gigabytes, which is the
limit of the format (`MAX_FRAME_LEN`).  Beyond it `write_frame` fails an assertion,
or writes the greatest length where assertions are off; `frame` does neither and
writes the length modulo `2 ^ 32`.  What is proved about frames therefore speaks of
the program for parts below the limit only.  Statements that read frames back ask
for it as a hypothesis.  Statements that do no more than write frames assume it
silently: that checking gives a verdict, that creating a proof and a run of prover
and verifier succeed, that the gates write what the combinators write, and that
what is hashed or accepted tells its parts apart where no length is asked for.
-/

import ThreeMove.Bytes
import ThreeMove.Error

namespace ThreeMove

/-- `data` behind its length in four big-endian bytes, for `data` below four gigabytes.
Source: `write_frame`, `MAX_FRAME_LEN`. -/
def frame (data : Bytes) : Bytes := Bytes.be 4 data.length ++ data

/-- The frames of `parts` in order. Source: `frames`. -/
def frameAll (parts : List Bytes) : Bytes := parts.flatMap frame

/-- No parts make no bytes. -/
@[simp] theorem frameAll_nil : frameAll [] = [] := rfl

/-- The first part comes first. -/
@[simp] theorem frameAll_cons (part : Bytes) (parts : List Bytes) :
    frameAll (part :: parts) = frame part ++ frameAll parts := rfl

/-- A frame takes four bytes besides what is in it. -/
theorem length_frame (data : Bytes) : (frame data).length = 4 + data.length := by
  simp [frame]

/-- What is left to read of a run of frames. Source: `FrameReader`. -/
structure FrameCursor where
  rest : Bytes
  deriving DecidableEq, Repr

namespace FrameCursor

/-- Takes one frame.  Fewer than four bytes, or fewer than the length announces,
are an invalid encoding of `what`. Source: `next_frame`. -/
def next (cursor : FrameCursor) (what : String) : Except Error (Bytes × FrameCursor) :=
  if cursor.rest.length < 4 then
    .error (.invalidEncoding what)
  else
    let size := Bytes.beValue (cursor.rest.take 4)
    let body := cursor.rest.drop 4
    if body.length < size then .error (.invalidEncoding what)
    else .ok (body.take size, ⟨body.drop size⟩)

/-- Refuses trailing bytes as an invalid encoding of `what`. Source: `finish`. -/
def finish (cursor : FrameCursor) (what : String) : Except Error Unit :=
  if cursor.rest.isEmpty then .ok () else .error (.invalidEncoding what)

/-- Takes one frame and decodes its contents. -/
def decode {α : Type} (cursor : FrameCursor) (what : String) (decoder : Bytes → Except Error α) :
    Except Error (α × FrameCursor) := do
  let (data, cursor) ← cursor.next what
  let value ← decoder data
  return (value, cursor)

/-- Takes one frame for each decoder, in order; the first frame that is missing
or refused gives the error. -/
def decodeEach {α : Type} (what : String) :
    List (Bytes → Except Error α) → FrameCursor → Except Error (List α × FrameCursor)
  | [], cursor => .ok ([], cursor)
  | decoder :: decoders, cursor => do
    let (value, cursor) ← cursor.decode what decoder
    let (values, cursor) ← decodeEach what decoders cursor
    return (value :: values, cursor)

end FrameCursor

/-- Decodes a byte string that holds exactly one frame for each decoder. -/
def decodeFrames {α : Type} (what : String) (decoders : List (Bytes → Except Error α))
    (data : Bytes) : Except Error (List α) := do
  let (values, cursor) ← FrameCursor.decodeEach what decoders ⟨data⟩
  cursor.finish what
  return values

end ThreeMove
