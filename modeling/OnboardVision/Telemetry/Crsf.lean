import OnboardVision.Checksum
import OnboardVision.Telemetry.Message

/-!
# CRSF frames

A frame is a sync byte, a length, and as many bytes as the length says: a type, a payload, and the
checksum over both.

* `Crsf.frame` writes a frame, `Crsf.place` writes it into a buffer;
* `Crsf.Decoder` finds the frames in a byte stream, one byte at a time.

The decoder knows no timeout: a length that was accepted is waited for.
-/

namespace OnboardVision

namespace Crsf

/-- The byte that opens a frame. -/
def sync : UInt8 := 0xC8

/-- The smallest length: a type and a checksum. -/
def minLength : Nat := 2

/-- The largest length. -/
def maxLength : Nat := 62

/-- The bytes of a frame. -/
def frame (type : UInt8) (payload : List UInt8) : List UInt8 :=
  [sync, UInt8.ofNat (payload.length + 2)] ++ (type :: payload) ++
    [Checksum.ofBytes (type :: payload)]

/-- Writes a frame at the start of a buffer, and says how many bytes it takes.  A payload that is
too large, or a buffer that is too small, leaves the buffer as it is, for a count of zero. -/
def place (buffer : List UInt8) (type : UInt8) (payload : List UInt8) : Nat × List UInt8 :=
  if maxLength < payload.length + 2 ∨ buffer.length < payload.length + 4 then (0, buffer)
  else
    let bytes := frame type payload
    (bytes.length, bytes ++ buffer.drop bytes.length)

/-- What a complete frame says: nothing unless the last byte is the checksum of the others. -/
def messageOf (body : List UInt8) : Option Message :=
  match body.dropLast with
  | [] => none
  | type :: payload =>
    if body.getLast? = some (Checksum.ofBytes (type :: payload)) then Message.decode type payload
    else none

/-- How far into a frame the stream is. -/
inductive Decoder where
  /-- Between frames. -/
  | idle
  /-- After a sync byte. -/
  | opened
  /-- Inside a frame of the given length, with the bytes received after the length. -/
  | inside (length : Nat) (received : List UInt8)
  deriving DecidableEq, Repr, Inhabited

namespace Decoder

/-- Takes one byte, and yields the message of the frame that it ends, if any. -/
def feed (d : Decoder) (b : UInt8) : Option Message × Decoder :=
  match d with
  | idle => (none, if b = sync then opened else idle)
  | opened =>
    if minLength ≤ b.toNat ∧ b.toNat ≤ maxLength then (none, inside b.toNat [])
    else (none, if b = sync then opened else idle)
  | inside length received =>
    let body := received ++ [b]
    if body.length < length then (none, inside length body) else (messageOf body, idle)

/-- Takes bytes, and yields the messages in them, each with the place of the byte that completes
it; the first byte has place `i`. -/
def feedAll (d : Decoder) (i : Nat) : List UInt8 → List (Nat × Message) × Decoder
  | [] => ([], d)
  | b :: bs =>
    let (m?, d) := d.feed b
    let (ms, d) := d.feedAll (i + 1) bs
    ((m?.map (i, ·)).toList ++ ms, d)

end Decoder

end Crsf

end OnboardVision
