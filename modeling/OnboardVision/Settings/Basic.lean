import OnboardVision.Single.Arith
import OnboardVision.Time

/-!
# Vision settings and the checked snapshot

`Settings` is what an operator edits; any values are allowed.  A `Snapshot` is a set of values that
passed `Snapshot.ofSettings`: a non-empty frame that fits the capture buffer and a frame rate
within `(0, 1000]` Hz.  The perception loop works from snapshots only.
-/

namespace OnboardVision

/-- The editable vision settings. -/
structure Settings where
  /-- Width of the captured frame in pixels. -/
  width : UInt16 := 160
  /-- Height of the captured frame in pixels. -/
  height : UInt16 := 120
  /-- Iterations per second. -/
  rate : Single := 30
  /-- How many milliseconds the start waits for telemetry; zero waits for ever. -/
  syncMs : UInt32 := 0
  deriving DecidableEq, Repr, Inhabited

/-- Why settings, or a listener to them, are refused. -/
inductive Refusal where
  /-- Width or height is zero. -/
  | emptyFrame
  /-- The frame has more pixels than the capture buffer. -/
  | frameTooLarge
  /-- The rate is not a number within `(0, 1000]`. -/
  | frameRate
  /-- Every listener slot is taken. -/
  | tooManyListeners
  deriving DecidableEq, Repr

/-- The wording of a refusal. -/
def Refusal.message : Refusal → String
  | .emptyFrame => "frame dimensions must be non-zero"
  | .frameTooLarge => "frame does not fit the capture buffer"
  | .frameRate => "frame rate out of range"
  | .tooManyListeners => "no free listener slot"

/-- Settings in force.  Those built by `Snapshot.ofSettings` have passed its checks. -/
structure Snapshot extends Settings
  deriving DecidableEq, Repr, Inhabited

namespace Snapshot

/-- The highest frame rate: above it the period would round to less than a millisecond. -/
def maxRate : Single := 1000

/-- A rate that the loop can run at. -/
def rateAllowed (hz : Single) : Bool :=
  hz.isFinite && !decide (hz ≤ 0) && !decide (maxRate < hz)

/-- Checks settings against a capture buffer of `capacity` pixels.  The frame is looked at before
the rate, and its shape before its size. -/
def ofSettings (s : Settings) (capacity : Nat) : Except Refusal Snapshot :=
  if s.width = 0 ∨ s.height = 0 then .error .emptyFrame
  else if capacity < s.width.toNat * s.height.toNat then .error .frameTooLarge
  else if rateAllowed s.rate then .ok ⟨s⟩
  else .error .frameRate

/-- The iteration period in milliseconds: `1000 / rate` to the nearest, but at least one. -/
def periodMs (s : Snapshot) : Nat := max 1 (1000 / s.rate + 0.5).toNat64

/-- The iteration period.  Rates below some `5.4 · 10⁻¹⁴` Hz have one that is beyond 64 bits. -/
def period (s : Snapshot) : Duration := .ofMillis s.periodMs

/-- How long the start waits for telemetry; `none` is without bound. -/
def syncTimeout (s : Snapshot) : Option Duration :=
  if s.syncMs = 0 then none else some (.ofMillis s.syncMs.toNat)

end Snapshot

end OnboardVision
