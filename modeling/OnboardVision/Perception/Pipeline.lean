import OnboardVision.Cadence
import OnboardVision.Image.Horizon
import OnboardVision.Perception.Equipment

/-!
# One iteration

`Pipeline.iterate` captures an image, reads the telemetry, runs the estimator, retains a copy of
the image, draws the horizon on the copy and displays it.  An iteration without an image displays
the retained one again, as it is: every image gets one horizon.  Failures of the estimator and the
display are noted and go no further.
-/

namespace OnboardVision

/-- A perception pipeline and what it remembers between iterations. -/
structure Pipeline (V S D : Type) (capacity : Nat) where
  /-- The video source, if there is one. -/
  video : Option V
  /-- The estimator. -/
  estimator : S
  /-- The display. -/
  display : D
  /-- The retained image. -/
  previous : Option (Image capacity) := none
  /-- The capture size in force. -/
  geometry : Option (UInt16 × UInt16) := none

/-- What an iteration achieved. -/
structure Report where
  /-- Its wake-up. -/
  wakeup : Wakeup
  /-- The source had an image. -/
  hadFrame : Bool
  /-- The estimator had a result. -/
  estimated : Bool
  /-- The display showed an image. -/
  displayed : Bool
  deriving DecidableEq, Repr

namespace Pipeline

variable {E R V S D : Type} {capacity : Nat}

/-- The window that images are displayed in. -/
def window : String := "debug"

/-- A pipeline that has not run yet. -/
def connect (video : Option V) (estimator : S) (display : D) :
    Run E R (Pipeline V S D capacity) := do
  if video.isNone then Run.note .noVideo
  return { video, estimator, display }

/-- The image of the last grab. -/
def current [ImageSource V E R capacity] (p : Pipeline V S D capacity) : Option (Image capacity) :=
  p.video.bind ImageSource.image?

/-- Passes the configured size on to the source if it changed. -/
def applyGeometry [ImageSource V E R capacity] (config : Snapshot) (p : Pipeline V S D capacity) :
    Run E R (Pipeline V S D capacity) := do
  let wanted := (config.width, config.height)
  if p.geometry = some wanted then return p
  match p.video with
  | none => return { p with geometry := some wanted }
  | some v =>
    let (v, s) := ImageSource.setGeometry (← Run.now) config.width config.height v (← Run.shared)
    Run.modifyShared fun _ => s
    Run.note (.geometryRequested config.width config.height)
    return { p with video := some v, geometry := some wanted }

/-- Captures the next image. -/
def grab [ImageSource V E R capacity] (p : Pipeline V S D capacity) :
    Run E R (Pipeline V S D capacity) := do
  match p.video with
  | none => return p
  | some v =>
    let (_, v) ← ImageSource.grab v
    return { p with video := some v }

/-- Runs the estimator; the flag tells whether it had a result. -/
def runEstimator [Estimator S capacity] (input : Observation capacity)
    (p : Pipeline V S D capacity) : Run E R (Bool × Pipeline V S D capacity) := do
  match Estimator.estimate input p.estimator with
  | (.ok (), estimator) => return (true, { p with estimator })
  | (.error e, estimator) =>
    Run.note (.estimatorFailed input.frameNumber e)
    return (false, { p with estimator })

/-- Retains a new image with the horizon of an attitude on it. -/
def retainPainted (attitude : Attitude) (image : Option (Image capacity))
    (p : Pipeline V S D capacity) : Pipeline V S D capacity :=
  { p with
    previous := retain p.previous (image.map fun im =>
      (Horizon.ofAttitude attitude im.width im.height).paint im) }

/-- Displays the retained image; the flag tells whether that succeeded. -/
def present [Display D R capacity] (frame : Nat) (p : Pipeline V S D capacity) :
    Run E R (Bool × Pipeline V S D capacity) := do
  match p.previous with
  | none => return (false, p)
  | some im =>
    let (r, display, s) := Display.present window im p.display (← Run.shared)
    Run.modifyShared fun _ => s
    match r with
    | .ok () => return (true, { p with display })
    | .error e =>
      Run.note (.displayFailed frame e)
      return (false, { p with display })

/-- One iteration. -/
def iterate [ImageSource V E R capacity] [Estimator S capacity] [Display D R capacity]
    (config : Snapshot) (wakeup : Wakeup) (p : Pipeline V S D capacity) :
    Run E R (Report × Pipeline V S D capacity) := do
  let p ← p.applyGeometry config
  let p ← p.grab
  let sample := (← Run.shared).telemetry.sample
  let image := p.current
  let input : Observation capacity :=
    { frameNumber := wakeup.frame, dt := wakeup.seconds, image, telemetry := sample }
  let (estimated, p) ← p.runEstimator input
  let p := p.retainPainted sample.attitude image
  let (displayed, p) ← p.present wakeup.frame
  return ({ wakeup, hadFrame := image.isSome, estimated, displayed }, p)

end Pipeline

end OnboardVision
