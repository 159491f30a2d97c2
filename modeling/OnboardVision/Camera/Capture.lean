import OnboardVision.Checksum
import OnboardVision.Image.Basic
import OnboardVision.Note

/-!
# The serial camera's protocol

A frame is two marker bytes, the width and the height in little endian, the pixels row after row,
and a checksum over everything after the markers.  A geometry request has the same form without
pixels, and another second marker.

* `Camera.encodeFrame`, `Camera.encodeRequest`: the bytes of a frame and of a request;
* `Capture`: assembles frames in one image buffer.  `Capture.receive` takes the bytes of one read
  and stops at the end of the first frame that is complete and intact; `Capture.image?` hands that
  frame out until the next one begins or it is withdrawn by `Capture.withdraw`.
-/

namespace OnboardVision

namespace Camera

/-- The first marker byte. -/
def sync : UInt8 := 0xA5

/-- The second marker byte of a frame. -/
def frameMark : UInt8 := 0x5A

/-- The second marker byte of a geometry request. -/
def requestMark : UInt8 := 0x5B

/-- A 16-bit number in little endian. -/
def word (n : UInt16) : List UInt8 := [UInt8.ofNat (n.toNat % 256), UInt8.ofNat (n.toNat / 256)]

/-- The width and the height as they stand in a frame. -/
def header (width height : UInt16) : List UInt8 := word width ++ word height

/-- The bytes of a geometry request. -/
def encodeRequest (width height : UInt16) : List UInt8 :=
  let body := header width height
  [sync, requestMark] ++ body ++ [Checksum.ofBytes body]

/-- The bytes of a frame. -/
def encodeFrame (width height : UInt16) (pixels : List UInt8) : List UInt8 :=
  let body := header width height ++ pixels
  [sync, frameMark] ++ body ++ [Checksum.ofBytes body]

/-- The size in a header. -/
def sizeOf? : List UInt8 → Option (UInt16 × UInt16)
  | [w0, w1, h0, h1] =>
    some (UInt16.ofNat (w0.toNat + 256 * w1.toNat), UInt16.ofNat (h0.toNat + 256 * h1.toNat))
  | _ => none

end Camera

/-- How far into a frame the stream is. -/
inductive Phase where
  /-- Looking for the first marker. -/
  | seeking
  /-- After the first marker. -/
  | marked
  /-- In the header, with its bytes so far. -/
  | header (received : List UInt8)
  /-- In the pixels, with the number written so far. -/
  | pixels (written : Nat)
  /-- Before the checksum. -/
  | checksum
  deriving DecidableEq, Repr, Inhabited

/-- Frame assembly in one image buffer. -/
structure Capture (capacity : Nat) where
  /-- How far the frame in progress is. -/
  phase : Phase := .seeking
  /-- The checksum of the frame in progress. -/
  crc : UInt8 := 0
  /-- The image buffer. -/
  image : Image capacity := .empty
  /-- The buffer holds a complete frame that may be handed out. -/
  ready : Bool := false
  deriving DecidableEq, Repr, Inhabited

namespace Capture

variable {capacity : Nat}

/-- The last complete frame. -/
def image? (c : Capture capacity) : Option (Image capacity) :=
  if c.ready then some c.image else none

/-- Withdraws the last complete frame; a frame in progress goes on. -/
def withdraw (c : Capture capacity) : Capture capacity := { c with ready := false }

/-- Looks for the first marker. -/
def seek (c : Capture capacity) (b : UInt8) : Capture capacity :=
  if b = Camera.sync then { c with phase := .marked } else c

/-- Looks at the byte after the first marker.  The second marker begins a frame, and from then on
the last frame is gone. -/
def mark (c : Capture capacity) (b : UInt8) : Capture capacity :=
  if b = Camera.frameMark then { c with phase := .header [], crc := 0, ready := false }
  else if b = Camera.sync then c
  else { c with phase := .seeking }

/-- Makes room for the pixels of a header; a size that is empty or does not fit is given up. -/
def begin (c : Capture capacity) (header : List UInt8) : Capture capacity × List Note :=
  match Camera.sizeOf? header with
  | none => ({ c with phase := .seeking }, [])
  | some (w, h) =>
    if w = 0 ∨ h = 0 then ({ c with phase := .seeking }, [.frameRejected w h])
    else
      match Image.filled? w h 0 with
      | some image => ({ c with phase := .pixels 0, image }, [])
      | none => ({ c with phase := .seeking }, [.frameRejected w h])

/-- Takes a header byte. -/
def takeHeader (c : Capture capacity) (received : List UInt8) (b : UInt8) :
    Capture capacity × List Note :=
  let c := { c with crc := Checksum.add c.crc b }
  let received := received ++ [b]
  if received.length < 4 then ({ c with phase := .header received }, [])
  else c.begin received

/-- Writes pixels behind the ones written so far. -/
def takePixels (c : Capture capacity) (written : Nat) (chunk : List UInt8) : Capture capacity :=
  let written' := written + chunk.length
  { c with
    image := c.image.overwrite written chunk
    crc := Checksum.addAll c.crc chunk
    phase := if c.image.pixels.size ≤ written' then .checksum else .pixels written' }

/-- Compares the checksum; the flag tells whether a frame is complete. -/
def verify (c : Capture capacity) (b : UInt8) : Bool × Capture capacity × List Note :=
  if b = c.crc then (true, { c with phase := .seeking, ready := true }, [])
  else (false, { c with phase := .seeking }, [.frameCorrupt])

/-- Takes the bytes of one read.  Pixels are copied as many at a time as there are.  The flag tells
whether a frame was completed; bytes behind its end are dropped, since the camera idles the line
between frames. -/
def receive (c : Capture capacity) (data : List UInt8) : Bool × Capture capacity × List Note :=
  match data with
  | [] => (false, c, [])
  | b :: bs =>
    match c.phase with
    | .seeking => (c.seek b).receive bs
    | .marked => (c.mark b).receive bs
    | .header received =>
      let (c, notes) := c.takeHeader received b
      let (done, c, more) := c.receive bs
      (done, c, notes ++ more)
    | .pixels written =>
      let room := c.image.pixels.size - written - 1
      (c.takePixels written (b :: bs.take room)).receive (bs.drop room)
    | .checksum =>
      let (done, c, notes) := c.verify b
      if done then (true, c, notes)
      else
        let (done, c, more) := c.receive bs
        (done, c, notes ++ more)
termination_by data.length
decreasing_by
  all_goals simp only [List.length_cons, List.length_drop]
  all_goals omega

end Capture

end OnboardVision
