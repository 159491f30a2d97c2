import OnboardVision.Settings.Hub
import OnboardVision.Telemetry.Basic

/-!
# The timeline

The perception loop runs against a clock that only moves while the loop waits.  A `Timeline` is
the clock, the agenda of what happens from outside and when, and the state that the loop shares
with everything else.  `Run` is a computation on a timeline.

The one way to wait is `Run.await`: a **poll** looks at the shared state, and the wait is over when
the poll finds what it looks for or the deadline has come.

1. The poll looks once before anything else happens.
2. If it found nothing, everybody else runs until there is nothing left to do at this instant, and
   the poll looks again.
3. Then the clock moves to the next instant of the agenda or to the deadline, whichever is first.
   All events of an instant are delivered, and everybody else runs, before the poll looks.  So an
   event at the deadline still counts.

A wait that nothing can end is a `Halt`, and so is a time beyond the end of the clock.
-/

namespace OnboardVision

/-- What the loop shares with its surroundings: `rig` is what the particular surroundings need. -/
structure Shared (R : Type) where
  /-- The latest telemetry. -/
  telemetry : Telemetry := {}
  /-- The settings and the snapshots in force. -/
  hub : Hub := {}
  /-- The notes so far, oldest first. -/
  journal : Array Note := #[]
  /-- The rest of the surroundings. -/
  rig : R

namespace Shared

variable {R : Type}

/-- Adds notes to the journal. -/
def note (s : Shared R) (notes : List Note) : Shared R :=
  { s with journal := s.journal ++ notes }

/-- The snapshot that the perception loop works from. -/
def snapshot (s : Shared R) : Snapshot := s.hub.snapshot 0

end Shared

/-- How surroundings of type `R` take events of type `E`. -/
class Surroundings (E : outParam Type) (R : Type) where
  /-- What an event changes by itself. -/
  deliver : E → Shared R → Shared R
  /-- What everybody but the loop does at an instant until nothing is left to do. -/
  settle : Instant → Shared R → Shared R
  /-- What happens between the last look of a poll and the moment its waiter sees that the
  deadline has come. -/
  lapse : Instant → Shared R → Shared R

/-- Why a computation ends early. -/
inductive Halt where
  /-- It waits for something that will not happen. -/
  | stalled
  /-- It needs an instant beyond the end of the clock. -/
  | clockOverflow
  deriving DecidableEq, Repr

/-- A clock, what happens from outside, and the shared state. -/
structure Timeline (E R : Type) where
  /-- The instant. -/
  now : Instant := 0
  /-- The events to come, in the order of their instants. -/
  agenda : List (Instant × E) := []
  /-- The last instant that matters; without one every event matters. -/
  horizon : Option Instant := none
  /-- The shared state. -/
  shared : Shared R

/-- A computation on a timeline. -/
abbrev Run (E R : Type) := EStateM Halt (Timeline E R)

/-- Looks for something in the shared state, with a state of its own. -/
abbrev Poll (σ α R : Type) := σ → Shared R → Option α × σ × Shared R

/-- How a wait went. -/
inductive Waited (α : Type) where
  /-- The poll found something. -/
  | found (a : α)
  /-- The deadline came first. -/
  | expired
  /-- Nothing can end the wait. -/
  | stalled

namespace Timeline

variable {E R σ α : Type} [Surroundings E R]

/-- Delivers the events that are due at `now`. -/
def deliverDue (now : Instant) : List (Instant × E) → Shared R → List (Instant × E) × Shared R
  | [], s => ([], s)
  | (t, e) :: rest, s =>
    if t ≤ now then deliverDue now rest (Surroundings.deliver e s) else ((t, e) :: rest, s)

/-- Delivers what is due and lets everybody else run. -/
def settle (tl : Timeline E R) : Timeline E R :=
  let (agenda, shared) := deliverDue tl.now tl.agenda tl.shared
  { tl with agenda, shared := Surroundings.settle tl.now shared }

/-- Lets time pass, with the events that fall into it. -/
def pass (tl : Timeline E R) (d : Duration) : Timeline E R := { tl with now := tl.now + d }.settle

/-- The instant `t` lies within the horizon. -/
def within (tl : Timeline E R) (t : Instant) : Bool :=
  match tl.horizon with
  | some h => t ≤ h
  | none => true

/-- The end of a wait that nothing ends. -/
def stall (tl : Timeline E R) : Timeline E R := { tl with now := tl.horizon.getD tl.now }

/-- The end of a wait at its deadline. -/
def expire (tl : Timeline E R) (deadline : Instant) : Timeline E R :=
  let now := max tl.now deadline
  { tl with now, shared := Surroundings.lapse now tl.shared }

/-- The deadline comes before the instant `t`. -/
def before (deadline : Option Instant) (t : Instant) : Bool :=
  match deadline with
  | some d => d < t
  | none => false

/-- The first event of the list is due at `now`. -/
def dueNext (now : Instant) : List (Instant × E) → Bool
  | (t, _) :: _ => t ≤ now
  | [] => false

/-- The end of a wait when the agenda has nothing before the deadline. -/
def runOut (deadline : Option Instant) (st : σ) (tl : Timeline E R) :
    Waited α × σ × Timeline E R :=
  match deadline with
  | some d => if tl.within d then (.expired, st, tl.expire d) else (.stalled, st, tl.stall)
  | none => (.stalled, st, tl.stall)

/-- Looks once. -/
def look (poll : Poll σ α R) (st : σ) (tl : Timeline E R) : Option α × σ × Timeline E R :=
  let (r, st, shared) := poll st tl.shared
  (r, st, { tl with shared })

/-- Lets everybody else run and looks. -/
def yieldLook (poll : Poll σ α R) (st : σ) (tl : Timeline E R) : Option α × σ × Timeline E R :=
  tl.settle.look poll st

/-- Goes through the agenda until the poll finds something or the deadline comes. -/
def advance (poll : Poll σ α R) (deadline : Option Instant) :
    List (Instant × E) → σ → Timeline E R → Waited α × σ × Timeline E R
  | [], st, tl => runOut deadline st { tl with agenda := [] }
  | (t, e) :: rest, st, tl =>
    if before deadline t || !tl.within t then runOut deadline st { tl with agenda := (t, e) :: rest }
    else
      let now := max tl.now t
      let tl := { tl with now, agenda := rest, shared := Surroundings.deliver e tl.shared }
      if dueNext now rest then advance poll deadline rest st tl
      else
        match tl.yieldLook poll st with
        | (some a, st, tl) => (.found a, st, tl)
        | (none, st, tl) => advance poll deadline rest st tl

/-- The deadline has come. -/
def reached (deadline : Option Instant) (now : Instant) : Bool :=
  match deadline with
  | some d => d ≤ now
  | none => false

/-- A whole wait. -/
def wait (poll : Poll σ α R) (deadline : Option Instant) (st : σ) (tl : Timeline E R) :
    Waited α × σ × Timeline E R :=
  match tl.look poll st with
  | (some a, st, tl) => (.found a, st, tl)
  | (none, st, tl) =>
    match tl.yieldLook poll st with
    | (some a, st, tl) => (.found a, st, tl)
    | (none, st, tl) =>
      if reached deadline tl.now then (.expired, st, tl.expire tl.now)
      else advance poll deadline tl.agenda st tl

end Timeline

namespace Run

variable {E R σ α : Type}

/-- The instant. -/
def now : Run E R Instant := do return (← get).now

/-- The shared state. -/
def shared : Run E R (Shared R) := do return (← get).shared

/-- Changes the shared state. -/
def modifyShared (f : Shared R → Shared R) : Run E R Unit :=
  modify fun tl => { tl with shared := f tl.shared }

/-- Writes into the journal. -/
def note (n : Note) : Run E R Unit := modifyShared (·.note [n])

/-- The instant `d` from now. -/
def later (d : Duration) : Run E R Instant := do
  match (← now).later? d with
  | some t => return t
  | none => throw .clockOverflow

variable [Surroundings E R]

/-- Waits until the poll finds something, for a result `some`, or the deadline has come, for
`none`.  The last instant of the clock is no deadline. -/
def await (poll : Poll σ α R) (st : σ) (deadline : Option Instant) : Run E R (Option α × σ) :=
  fun tl =>
    match tl.wait poll (deadline.filter (· < endOfTime)) st with
    | (.found a, st, tl) => .ok (some a, st) tl
    | (.expired, st, tl) => .ok (none, st) tl
    | (.stalled, _, tl) => .error .stalled tl

/-- Waits for an instant. -/
def sleepUntil (t : Instant) : Run E R Unit := do
  let _ ← await (σ := Unit) (α := Empty) (fun st s => (none, st, s)) () (some t)

/-- Waits for a duration. -/
def sleep (d : Duration) : Run E R Unit := do sleepUntil (← later d)

end Run

end OnboardVision
