import OnboardVision.Bench.Scene
import OnboardVision.Camera.Capture
import OnboardVision.Perception.Loop

/-!
# Scripted devices

A camera, an estimator and a display for the bench.  Each follows a script, one entry per call, and
remembers what it was asked.
-/

namespace OnboardVision

namespace Bench

/-- What a scripted camera does in one grab when it makes its own images. -/
structure Shot where
  /-- How long the grab takes; `none` is no wait at all. -/
  delay : Option Duration := none
  /-- The image in the camera stays. -/
  keep : Bool := false
  /-- The width, or else the requested one. -/
  width : Option UInt16 := none
  /-- The height, or else the requested one. -/
  height : Option UInt16 := none
  /-- The brightness; without one there is no image. -/
  luma : Option UInt8 := none
  /-- The place of every pixel is added to its brightness. -/
  ramp : Bool := false
  deriving DecidableEq, Repr, Inhabited

/-- Bytes that come in during one grab. -/
structure Chunk where
  /-- How long they take. -/
  delay : Option Duration := none
  /-- The bytes. -/
  data : List UInt8
  deriving DecidableEq, Repr, Inhabited

/-- The script of a camera. -/
inductive Script where
  /-- The camera makes images. -/
  | shots (entries : List Shot)
  /-- The camera sends bytes. -/
  | stream (entries : List (List Chunk))
  deriving DecidableEq, Repr, Inhabited

/-- A scripted camera. -/
structure Camera (capacity : Nat) where
  /-- What is left of the script. -/
  script : Script
  /-- The requested size. -/
  size : UInt16 × UInt16 := (0, 0)
  /-- All requested sizes, newest first. -/
  requests : List (UInt16 × UInt16) := []
  /-- How many grabs there were. -/
  grabs : Nat := 0
  /-- The image in the camera. -/
  current : Option (Image capacity) := none
  /-- The frame assembly of a camera that sends bytes. -/
  capture : Capture capacity := {}
  deriving DecidableEq, Repr

namespace Camera

variable {capacity : Nat}

/-- The image that a shot leaves in the camera. -/
def expose (c : Camera capacity) (s : Shot) : Option (Image capacity) :=
  if s.keep then c.current
  else do
    let im ← Image.filled? (s.width.getD c.size.1) (s.height.getD c.size.2) (← s.luma)
    return if s.ramp then im.mapPixels fun i p => p + UInt8.ofNat i else im

/-- Waits if there is something to wait for. -/
def pause (delay : Option Duration) : Run Event Rig Unit :=
  match delay with
  | some d => Run.sleep d
  | none => pure ()

/-- Receives chunks until one completes a frame. -/
def receive : List Chunk → Capture capacity → Run Event Rig (Bool × Capture capacity)
  | [], c => return (false, c)
  | chunk :: chunks, c => do
    pause chunk.delay
    let (done, c, notes) := c.receive chunk.data
    Run.modifyShared (·.note notes)
    if done then return (true, c) else receive chunks c

/-- One grab. -/
def grab (c : Camera capacity) : Run Event Rig (Bool × Camera capacity) := do
  let c := { c with grabs := c.grabs + 1 }
  match c.script with
  | .shots entries =>
    let shot := entries.head?.getD {}
    pause shot.delay
    let current := c.expose shot
    return (current.isSome, { c with script := .shots entries.tail, current })
  | .stream entries =>
    let (done, capture) ← receive (entries.head?.getD []) c.capture.withdraw
    return (done, { c with script := .stream entries.tail, capture })

instance : ImageSource (Camera capacity) Event Rig capacity where
  setGeometry _ w h c s := ({ c with size := (w, h), requests := (w, h) :: c.requests }, s)
  grab := grab
  image? c := match c.script with
    | .shots _ => c.current
    | .stream _ => c.capture.image?

end Camera

/-- A scripted estimator; an entry `none` is a success. -/
structure Analyst (capacity : Nat) where
  /-- What is left of the script. -/
  script : List (Option EstimatorFailure) := []
  /-- How many calls there were. -/
  calls : Nat := 0
  /-- What the last call was given. -/
  last : Option (Observation capacity) := none
  deriving DecidableEq, Repr

instance {capacity : Nat} : Estimator (Analyst capacity) capacity where
  estimate input a :=
    let verdict := match a.script with
      | some e :: _ => .error e
      | _ => .ok ()
    (verdict, { script := a.script.tail, calls := a.calls + 1, last := some input })

/-- A scripted display; an entry `none` is a success. -/
structure Screen (capacity : Nat) where
  /-- What is left of the script. -/
  script : List (Option DisplayFailure) := []
  /-- How many calls there were. -/
  calls : Nat := 0
  /-- The window and the image of the last call. -/
  last : Option (String × Image capacity) := none
  deriving DecidableEq, Repr

instance {capacity : Nat} : Display (Screen capacity) Rig capacity where
  present window im d s :=
    let verdict := match d.script with
      | some e :: _ => .error e
      | _ => .ok ()
    (verdict, { script := d.script.tail, calls := d.calls + 1, last := some (window, im) }, s)

/-- A perception loop with scripted devices. -/
abbrev Loop (capacity : Nat) :=
  Perception (Camera capacity) (Analyst capacity) (Screen capacity) capacity

/-- A pipeline with scripted devices. -/
abbrev Devices (capacity : Nat) :=
  Pipeline (Camera capacity) (Analyst capacity) (Screen capacity) capacity

end Bench

end OnboardVision
