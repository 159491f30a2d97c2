import OnboardVision.Perception.Barrier
import OnboardVision.Perception.Pipeline

/-!
# The perception loop

`Perception.start` sizes the capture, waits at the startup barrier and fixes the origin of the
deadlines; `Perception.step` waits for the next deadline and runs one iteration.  The snapshot of
an iteration is read when the iteration wakes, and a new period counts from the next deadline on.
-/

namespace OnboardVision

namespace Cadence

variable {E R : Type} [Surroundings E R]

/-- Waits for the next deadline. -/
def await (c : Cadence) : Run E R (Wakeup × Cadence) := do
  match c.advance with
  | none => throw .clockOverflow
  | some (deadline, c) =>
    Run.sleepUntil deadline
    let wokeAt ← Run.now
    let (elapsed, c) := c.record wokeAt
    return ({ frame := c.frame, deadline, wokeAt, elapsed }, c)

end Cadence

/-- A running perception loop. -/
structure Perception (V S D : Type) (capacity : Nat) where
  /-- What an iteration does. -/
  pipeline : Pipeline V S D capacity
  /-- When the iterations are due. -/
  cadence : Cadence

namespace Perception

variable {E R V S D : Type} {capacity : Nat} [Surroundings E R]

/-- Starts a loop.  A barrier that gave up does not keep it from starting. -/
def start [ImageSource V E R capacity] (p : Pipeline V S D capacity) :
    Run E R (Perception V S D capacity) := do
  let config := (← Run.shared).snapshot
  let p ← p.applyGeometry config
  match ← Barrier.wait config.syncTimeout with
  | .ok _ => pure ()
  | .error e => Run.note (.startingBlind e)
  let period := (← Run.shared).snapshot.period
  let origin ← Run.now
  Run.note (.loopRunning period)
  return { pipeline := p, cadence := .start origin period }

/-- Runs one iteration. -/
def step [ImageSource V E R capacity] [Estimator S capacity] [Display D R capacity]
    (p : Perception V S D capacity) : Run E R (Report × Perception V S D capacity) := do
  let (wakeup, cadence) ← p.cadence.await
  let config := (← Run.shared).snapshot
  match cadence.setPeriod config.period with
  | none => throw .clockOverflow
  | some cadence =>
    let (report, pipeline) ← p.pipeline.iterate config wakeup
    if cadence.period ≤ wakeup.lateness then Run.note (.overran wakeup.frame wakeup.lateness)
    Run.note (.iterated wakeup.frame wakeup.wokeAt)
    return (report, { pipeline, cadence })

/-- Runs a number of iterations. -/
def run [ImageSource V E R capacity] [Estimator S capacity] [Display D R capacity] :
    Nat → Perception V S D capacity → Run E R Unit
  | 0, _ => return ()
  | n + 1, p => do
    let (_, p) ← p.step
    run n p

end Perception

end OnboardVision
