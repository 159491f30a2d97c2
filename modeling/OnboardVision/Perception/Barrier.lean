import OnboardVision.Timeline

/-!
# The startup barrier

Before the loop starts it makes sure that telemetry is coming in: `Barrier.wait` writes a pitch
that no vehicle has, and waits for somebody to replace it.  The wait may be bounded.  A barrier
that gave up looks at the pitch once more, for a write at the very last moment.
-/

namespace OnboardVision

namespace Barrier

/-- The pitch in degrees that stands for "no telemetry yet". -/
def sentinel : Single := 100

/-- The attitude has come from telemetry. -/
def isGenuine (a : Attitude) : Bool := !a.pitch.equals sentinel

/-- Marks the attitude as not yet seen, and takes the flag down that the mark raised. -/
def raise {R : Type} (s : Shared R) : Shared R :=
  { s with telemetry :=
      (s.telemetry.setAttitude { s.telemetry.attitude with pitch := sentinel }).acknowledge }

/-- Looks for a genuine attitude behind a raised flag, which it takes down. -/
def poll {R : Type} : Poll Unit Attitude R := fun st s =>
  if s.telemetry.fresh then
    let s := { s with telemetry := s.telemetry.acknowledge }
    (if isGenuine s.telemetry.attitude then some s.telemetry.attitude else none, st, s)
  else (none, st, s)

variable {E R : Type} [Surroundings E R]

/-- Waits for telemetry, for ever or for `timeout`. -/
def wait (timeout : Option Duration) : Run E R (Except BarrierFailure Attitude) := do
  let deadline ← match timeout with
    | some d => some <$> Run.later d
    | none => pure none
  Run.modifyShared raise
  Run.note .awaitingTelemetry
  let (found, _) ← Run.await poll () deadline
  match found with
  | some a =>
    Run.note (.telemetrySynchronized a.pitch)
    return .ok a
  | none =>
    let a := (← Run.shared).telemetry.attitude
    if isGenuine a then return .ok a
    else
      Run.note .telemetryTimedOut
      return .error .timeout

end Barrier

end OnboardVision
