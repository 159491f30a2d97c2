/-!
# Failures of the perception loop's collaborators

An estimator or display that fails costs one iteration its result, and a start without telemetry
is a start nevertheless: each of these ends in a note and nowhere else.
-/

namespace OnboardVision

/-- Why an estimator produced nothing. -/
inductive EstimatorFailure where
  /-- It needs more frames or telemetry first. -/
  | notReady
  /-- It failed inside and starts over. -/
  | diverged
  deriving DecidableEq, Repr

/-- The wording of an estimator failure. -/
def EstimatorFailure.message : EstimatorFailure → String
  | .notReady => "not ready"
  | .diverged => "diverged"

/-- Why a display did not show a frame. -/
inductive DisplayFailure where
  /-- It still holds an earlier frame. -/
  | busy
  /-- Nobody is looking. -/
  | disconnected
  deriving DecidableEq, Repr

/-- The wording of a display failure. -/
def DisplayFailure.message : DisplayFailure → String
  | .busy => "busy"
  | .disconnected => "disconnected"

/-- Why the startup barrier gave up. -/
inductive BarrierFailure where
  /-- No telemetry arrived in time. -/
  | timeout
  deriving DecidableEq, Repr

/-- The wording of a barrier failure. -/
def BarrierFailure.message : BarrierFailure → String
  | .timeout => "no telemetry before timeout"

end OnboardVision
