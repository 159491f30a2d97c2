import OnboardVision.Note

/-!
# The settings hub

The hub owns the settings, tells its listeners about every edit, and holds what the listeners are:
published snapshots and plain counters.

* `Hub.connect` takes one of the four listener slots;
* `Hub.update` edits the settings and then notifies every taken slot, in the order they were taken,
  once each; a listener connected twice is notified twice;
* `Published.publish` replaces a snapshot if the settings pass the checks and otherwise leaves it.

The settings keep an edit that a snapshot refuses.
-/

namespace OnboardVision

/-- The snapshot in force for a capture buffer. -/
structure Published where
  /-- How many pixels the capture buffer holds. -/
  capacity : Nat
  /-- The snapshot in force. -/
  snapshot : Snapshot := {}
  deriving DecidableEq, Repr, Inhabited

namespace Published

/-- Puts settings in force if they pass the checks. -/
def publish (p : Published) (s : Settings) : Except Refusal Published :=
  (Snapshot.ofSettings s p.capacity).map fun snapshot => { p with snapshot }

/-- Follows the settings where they pass the checks, and says what happened. -/
def refresh (p : Published) (s : Settings) : Published × Note :=
  match p.publish s with
  | .ok p' => (p', .settingsApplied p'.snapshot)
  | .error e => (p, .settingsRejected e)

end Published

/-- Who is told about an edit. -/
inductive Listener where
  /-- The published snapshot with this index. -/
  | published (i : Nat)
  /-- The counter with this index. -/
  | counter (i : Nat)
  deriving DecidableEq, Repr

/-- How many listener slots there are. -/
def maxListeners : Nat := 4

/-- The settings and everything that follows them. -/
structure Hub where
  /-- The settings as last edited. -/
  settings : Settings := {}
  /-- The taken listener slots in the order they were taken. -/
  slots : List Listener := []
  /-- The published snapshots. -/
  published : List Published := []
  /-- How often each counter was notified. -/
  counters : List Nat := []
  deriving DecidableEq, Repr, Inhabited

namespace Hub

/-- The snapshot in force with index `i`. -/
def snapshot (h : Hub) (i : Nat) : Snapshot := (h.published[i]?.map (·.snapshot)).getD {}

/-- Takes a listener slot. -/
def connect (h : Hub) (l : Listener) : Except Refusal Hub :=
  if h.slots.length < maxListeners then .ok { h with slots := h.slots ++ [l] }
  else .error .tooManyListeners

/-- Notifies one listener. -/
def tell (h : Hub) : Listener → Hub × List Note
  | .published i =>
    match h.published[i]? with
    | some p =>
      let (p', note) := p.refresh h.settings
      ({ h with published := h.published.set i p' }, [note])
    | none => (h, [])
  | .counter i => ({ h with counters := h.counters.modify i (· + 1) }, [])

/-- Notifies listeners one after the other. -/
def tellAll (h : Hub) : List Listener → Hub × List Note
  | [] => (h, [])
  | l :: ls =>
    let (h, notes) := h.tell l
    let (h, more) := h.tellAll ls
    (h, notes ++ more)

/-- Notifies every taken slot. -/
def notify (h : Hub) : Hub × List Note := h.tellAll h.slots

/-- Edits the settings and notifies every taken slot. -/
def update (h : Hub) (edit : Settings → Settings) : Hub × List Note :=
  { h with settings := edit h.settings }.notify

/-- Publishes settings directly to the snapshot with index `i`, past the hub's own settings. -/
def publish (h : Hub) (i : Nat) (s : Settings) : Except Refusal Hub :=
  match h.published[i]? with
  | some p => (p.publish s).map fun p' => { h with published := h.published.set i p' }
  | none => .ok h

end Hub

end OnboardVision
