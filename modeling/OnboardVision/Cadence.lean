import OnboardVision.Single.Arith
import OnboardVision.Time

/-!
# Cadence

The loop keeps absolute deadlines: iteration `n` is due a whole number of periods after an origin,
whenever the iterations before it ran.  A late iteration makes the next one start at once, and no
deadline is skipped.  `Cadence.setPeriod` moves the origin to the last deadline, so that the
iterations so far keep theirs.

A deadline beyond the end of the clock does not exist.
-/

namespace OnboardVision

/-- The deadlines of a loop, and where it stands. -/
structure Cadence where
  /-- How many iterations have been started. -/
  frame : Nat := 0
  /-- What deadlines are counted from. -/
  origin : Instant
  /-- The iteration whose deadline the origin is. -/
  originFrame : Nat := 0
  /-- When the last iteration woke. -/
  lastSample : Instant
  /-- The time between deadlines. -/
  period : Duration
  deriving DecidableEq, Repr, Inhabited

/-- One wake-up. -/
structure Wakeup where
  /-- The number of the iteration. -/
  frame : Nat
  /-- When it was due. -/
  deadline : Instant
  /-- When it woke. -/
  wokeAt : Instant
  /-- The time since the iteration before it woke. -/
  elapsed : Duration
  deriving DecidableEq, Repr, Inhabited

namespace Wakeup

/-- The time since the iteration before, in seconds. -/
def seconds (t : Wakeup) : Single := Single.ofNat t.elapsed * 1.0e-6

/-- How long after its deadline the iteration woke. -/
def lateness (t : Wakeup) : Duration := t.wokeAt - t.deadline

end Wakeup

namespace Cadence

/-- A cadence whose first deadline is one period after `origin`. -/
def start (origin : Instant) (period : Duration) : Cadence :=
  { origin, lastSample := origin, period }

/-- The deadline of an iteration; the iterations before the origin's share its deadline. -/
def deadline? (c : Cadence) (frame : Nat) : Option Instant :=
  c.origin.later? (min (c.period * (frame - c.originFrame)) endOfTime)

/-- Changes the period from the next iteration on. -/
def setPeriod (c : Cadence) (period : Duration) : Option Cadence :=
  if period = c.period then some c
  else (c.deadline? c.frame).map fun origin =>
    { c with origin, originFrame := c.frame, period }

/-- Begins the next iteration, and gives its deadline. -/
def advance (c : Cadence) : Option (Instant × Cadence) :=
  let c := { c with frame := c.frame + 1 }
  (c.deadline? c.frame).map fun d => (d, c)

/-- Notes a wake-up, and gives the time since the last one. -/
def record (c : Cadence) (now : Instant) : Duration × Cadence :=
  (now - c.lastSample, { c with lastSample := now })

end Cadence

end OnboardVision
