import OnboardVision.Board.Surroundings
import OnboardVision.Perception.Equipment

/-!
# The serial camera

A camera that sends frames over a serial line.  `SerialCamera.find` looks for it once, at the start:
a line that stays silent, or begins with a fault or without bytes, means that there is none.
`SerialCamera.grab` assembles what comes in until a frame is complete or its time is over.
-/

namespace OnboardVision

namespace Board

/-- How many pixels the capture buffer holds. -/
def captureCapacity : Nat := 160 * 120

/-- A camera that was found. -/
structure SerialCamera where
  /-- The frame assembly. -/
  capture : Capture captureCapacity := {}

namespace SerialCamera

/-- How long a camera has to make itself heard. -/
def openTimeout : Duration := .ofMillis 500

/-- How long a grab may take. -/
def grabTimeout : Duration := .ofMillis 150

/-- Takes the next reading of the camera's line. -/
def nextReading : Poll Unit Reading Rig := fun st s =>
  match s.rig.cameraLine.readings with
  | r :: readings => (some r, st, { s with rig := { s.rig with cameraLine := ⟨readings⟩ } })
  | [] => (none, st, s)

/-- Looks for the camera: the first reading decides. -/
def find : Run Event Rig (Option SerialCamera) := do
  let deadline ← Run.later openTimeout
  let (first, _) ← Run.await nextReading () (some deadline)
  match first with
  | some (.bytes (_ :: _)) =>
    Run.note .cameraDetected
    return some {}
  | _ =>
    Run.note .cameraMissing
    return none

/-- Assembles readings until a frame is complete; what is behind stays.  Faults are passed over,
since the frame assembly finds its way again. -/
def assemble : List Reading → Capture captureCapacity →
    Bool × List Reading × Capture captureCapacity × List Note
  | [], c => (false, [], c, [])
  | .fault :: rs, c => assemble rs c
  | .bytes data :: rs, c =>
    let (done, c, notes) := c.receive data
    if done then (true, rs, c, notes)
    else
      let (done, rs, c, more) := assemble rs c
      (done, rs, c, notes ++ more)

/-- Assembles what the line has. -/
def completeFrame : Poll (Capture captureCapacity) Unit Rig := fun c s =>
  let (done, readings, c, notes) := assemble s.rig.cameraLine.readings c
  (if done then some () else none, c,
    { s with rig := { s.rig with cameraLine := ⟨readings⟩ } }.note notes)

/-- One grab.  A frame of an earlier grab is withdrawn first. -/
def grab (v : SerialCamera) : Run Event Rig (Bool × SerialCamera) := do
  let deadline ← Run.later grabTimeout
  let (found, capture) ← Run.await completeFrame v.capture.withdraw (some deadline)
  return (found.isSome, { capture })

/-- Sends a geometry request, unless the write fails. -/
def request (now : Instant) (width height : UInt16) (s : Shared Rig) : Shared Rig :=
  let faults := s.rig.cameraFaults
  let s := { s with rig := { s.rig with cameraFaults := faults.tail } }
  if faults.head?.getD false then s.note [.cameraRequestFailed]
  else
    { s with rig := { s.rig with
        sent := s.rig.sent.push (now, .camera (Camera.encodeRequest width height)) } }

instance : ImageSource SerialCamera Event Rig captureCapacity where
  setGeometry now w h v s := (v, request now w h s)
  grab := grab
  image? v := v.capture.image?

end SerialCamera

end Board

end OnboardVision
