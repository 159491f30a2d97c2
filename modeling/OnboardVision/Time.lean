/-!
# Board time

Instants and durations are counted in ticks of one microsecond.  The clock is 64 bits wide and
does not wrap: `Instant.later?` has no answer beyond `endOfTime`.  That last instant itself is the
"never" of the timers.

A duration here is an exact number of ticks.  On the board it has 64 bits as well, and the two agree
up to `endOfTime`; a number that is printed is the one that the 64 bits hold.
-/

namespace OnboardVision

/-- Ticks since the clock started. -/
abbrev Instant := Nat

/-- A number of ticks. -/
abbrev Duration := Nat

/-- The last instant of the clock. -/
def endOfTime : Instant := 0xffffffffffffffff

/-- The instant `d` after `t`, if the clock reaches it. -/
def Instant.later? (t : Instant) (d : Duration) : Option Instant :=
  if t + d ≤ endOfTime then some (t + d) else none

/-- A number of milliseconds.  The product is exact; 64 bits have room for it up to
18446744073709551 ms. -/
def Duration.ofMillis (ms : Nat) : Duration := 1000 * ms

/-- Whole milliseconds of the ticks that 64 bits hold. -/
def Duration.toMillis (d : Duration) : Nat := d % (endOfTime + 1) / 1000

end OnboardVision
