/-!
# The frame checksum

Both serial protocols protect their frames with the same 8-bit cyclic checksum, the one of digital
video broadcasting: polynomial `x⁸ + x⁷ + x⁶ + x⁴ + x² + 1`, most significant bit first, start
value zero.
-/

namespace OnboardVision

namespace Checksum

/-- Multiplies a remainder by `x`. -/
def shift (c : UInt8) : UInt8 :=
  if c &&& 0x80 ≠ 0 then (c <<< 1) ^^^ 0xD5 else c <<< 1

/-- The checksum after one more byte. -/
def add (c b : UInt8) : UInt8 := Nat.repeat shift 8 (c ^^^ b)

/-- The checksum after more bytes. -/
def addAll (c : UInt8) (bytes : List UInt8) : UInt8 := bytes.foldl add c

/-- The checksum of a message. -/
def ofBytes (bytes : List UInt8) : UInt8 := addAll 0 bytes

end Checksum

end OnboardVision
