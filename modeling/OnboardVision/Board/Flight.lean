import OnboardVision.Board.Flash
import OnboardVision.Board.SerialCamera
import OnboardVision.Perception.Loop

/-!
# A flight

The whole board from power-up on: the module table decides whether there is a perception loop, and
the console task and the telemetry task run in any case.  The loop's display hands a summary of
each image to the console task, and is busy while the last one has not been printed.
-/

namespace OnboardVision

namespace Board

/-! ### The estimator and the display -/

/-- An estimator that takes everything and computes nothing. -/
structure NoEstimator where

instance : Estimator NoEstimator captureCapacity where
  estimate _ e := (.ok (), e)

/-- A display that hands summaries to the console task. -/
structure SummaryDisplay where
  /-- How many images it was asked to display. -/
  count : UInt32 := 0
  deriving DecidableEq, Repr

/-- Hands over the summary of an image, unless the last one is still waiting. -/
def SummaryDisplay.present (im : Image captureCapacity) (d : SummaryDisplay) (s : Shared Rig) :
    Except DisplayFailure Unit × SummaryDisplay × Shared Rig :=
  let d : SummaryDisplay := { count := d.count + 1 }
  match s.rig.pending with
  | some _ => (.error .busy, d, s)
  | none =>
    let summary := { count := d.count, width := im.width, height := im.height, mean := im.mean }
    (.ok (), d, { s with rig := { s.rig with pending := some summary } })

instance : Display SummaryDisplay Rig captureCapacity where
  present _ im d s := d.present im s

/-! ### The whole board -/

/-- The perception task: at most `n` iterations. -/
def perceive (n : Nat) : Run Event Rig Unit := do
  let camera ← SerialCamera.find
  let pipeline ← Pipeline.connect camera NoEstimator.mk { count := 0 : SummaryDisplay }
  let loop ← Perception.start pipeline
  loop.run n

/-- Waits for ever, while the other tasks go on. -/
def idle : Run Event Rig Unit := do
  let _ ← Run.await (σ := Unit) (α := Empty) (fun st s => (none, st, s)) () none

/-- What is on the board and what happens to it. -/
structure Flight where
  /-- The contents of flash. -/
  flash : Flash := {}
  /-- Which writes to the camera fail. -/
  cameraFaults : List Bool := []
  /-- What happens, in the order of the instants. -/
  agenda : List (Instant × Event) := []
  /-- The last instant of the flight. -/
  horizon : Instant
  deriving Repr

namespace Flight

/-- The hub at power-up: one snapshot for the capture buffer. -/
def hub : Hub := { published := [{ capacity := captureCapacity }] }

/-- More iterations than there is time for: a period is at least a millisecond. -/
def iterations (f : Flight) : Nat := f.horizon / Duration.ofMillis 1 + 1

/-- Runs a flight from power-up to its horizon.  The flag tells whether vision was started; if it
was not, the other tasks run without it.  A loop that needs an instant beyond the end of the clock
takes the whole board down, and the flight has no outcome. -/
def run (f : Flight) : Option (Bool × Shared Rig) :=
  let (modules, unreadable) := f.flash.modules
  let (activation, hub, notes) := hub.activate modules 0 fun _ => ()
  let started := match activation with
    | .ok (some _) => true
    | _ => false
  let shared : Shared Rig := { hub, rig := { cameraFaults := f.cameraFaults } }
  let timeline : Timeline Event Rig :=
    { agenda := f.agenda, horizon := some f.horizon, shared := shared.note (unreadable ++ notes) }
  let task := if started then perceive f.iterations else idle
  match task timeline.settle with
  | .ok _ tl => some (started, tl.shared)
  | .error .stalled tl => some (started, tl.shared)
  | .error .clockOverflow _ => none

end Flight

end Board

end OnboardVision
