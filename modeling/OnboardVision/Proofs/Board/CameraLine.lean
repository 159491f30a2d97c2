import OnboardVision.Board.SerialCamera
import OnboardVision.Proofs.Board.Downlink

/-!
# The camera's line

What the camera sends waits on its line until a task takes it, one reading after the other.  A wait
for something on that line is settled by the readings that come in by its deadline, however they are
spread over the instants.

* `Board.cameraReadings` is what is on the line and what is to come, each with its instant.
* `Board.readUntil` takes readings until one is what a task looks for.

Main statement:

* `Board.Reads.awaits_wait`: a wait of such a task ends with the reading that it looks for, at the
  instant of that reading, and at its deadline if there is none.
-/

namespace OnboardVision

namespace Board

/-! ### What comes in, and when -/

/-- The readings that an arrival is cut into. -/
def Reading.cut (buffer : ℕ) : Reading → List Reading
  | .bytes data => (pieces buffer data).map .bytes
  | .fault => [.fault]

theorem SerialLine.readings_arrive (line : SerialLine) (buffer : ℕ) (r : Reading) :
    (line.arrive buffer r).readings = line.readings ++ r.cut buffer := by
  cases r <;> rfl

/-- The readings that an event brings to the camera's line. -/
def Event.fromCamera : Event → List Reading
  | .camera r => r.cut cameraBuffer
  | _ => []

/-- The readings on the camera's line: those that wait, and those to come, each with the instant
from which on it can be taken. -/
def cameraReadings (tl : Timeline Event Rig) : List (Instant × Reading) :=
  tl.shared.rig.cameraLine.readings.map (tl.now, ·) ++
    tl.agenda.flatMap fun e => e.2.fromCamera.map (max tl.now e.1, ·)

/-- The readings that can be taken by the instant `due`. -/
def inTime (due : Instant) (tl : Timeline Event Rig) : List (Instant × Reading) :=
  (cameraReadings tl).filter (·.1 ≤ due)

theorem readings_delivered (s : Shared Rig) (l : List (Instant × Event)) :
    (delivered s l).rig.cameraLine.readings =
      s.rig.cameraLine.readings ++ l.flatMap (·.2.fromCamera) := by
  induction l generalizing s with
  | nil => exact (List.append_nil _).symm
  | cons e l ih =>
    have hfirst : (deliver e.2 s).rig.cameraLine.readings =
        s.rig.cameraLine.readings ++ e.2.fromCamera := by
      cases e.2 with
      | camera r => exact SerialLine.readings_arrive _ _ r
      | telemetry r => exact (List.append_nil _).symm
      | host a => exact (List.append_nil _).symm
      | packet data => exact (List.append_nil _).symm
    rw [List.flatMap_cons, ← List.append_assoc, ← hfirst]
    exact ih (deliver e.2 s)

theorem cameraLine_runTelemetry (s : Shared Rig) :
    (runTelemetry s).rig.cameraLine = s.rig.cameraLine := by
  obtain ⟨telemetry, journal, receiver, hrest⟩ := runTelemetry_rest s
  rw [hrest]

/-- At an instant the line gets what is due. -/
theorem readings_settle (tl : Timeline Event Rig) :
    tl.settle.shared.rig.cameraLine.readings = tl.shared.rig.cameraLine.readings ++
      (tl.agenda.takeWhile (·.1 ≤ tl.now)).flatMap (·.2.fromCamera) := by
  have hconsole := (attends_runConsole tl.now
    (delivered tl.shared (tl.agenda.takeWhile (·.1 ≤ tl.now)))).others_eq
  simp only [others, Prod.mk.injEq] at hconsole
  rw [shared_settle, cameraLine_runTelemetry, hconsole.2.2.2, readings_delivered]

variable {tl : Timeline Event Rig} {t due : Instant}

/-- When time moves on to the next instant at which something comes in, the same readings come at
the same instants. -/
theorem cameraReadings_arrive (sorted : tl.agenda.Pairwise (·.1 ≤ ·.1)) (ht : tl.now ≤ t)
    (hline : tl.now = t ∨ tl.shared.rig.cameraLine.readings = [])
    (hdue : ∀ e ∈ tl.agenda, e.1 ≤ t → max tl.now e.1 = t) :
    cameraReadings (tl.arrive t) = cameraReadings tl := by
  have hwaiting : tl.shared.rig.cameraLine.readings.map (t, ·) =
      tl.shared.rig.cameraLine.readings.map (tl.now, ·) := by
    rcases hline with rfl | hline
    · rfl
    · rw [hline]
      rfl
  have hnow : ((tl.agenda.takeWhile (·.1 ≤ t)).flatMap (·.2.fromCamera)).map (t, ·) =
      (tl.agenda.takeWhile (·.1 ≤ t)).flatMap fun e => e.2.fromCamera.map (max tl.now e.1, ·) := by
    rw [List.map_flatMap]
    refine List.flatMap_congr fun e he => ?_
    have hmem : e ∈ tl.agenda := (List.takeWhile_sublist _).subset he
    rw [Timeline.takeWhile_eq_filter sorted] at he
    rw [hdue e hmem (of_decide_eq_true (List.mem_filter.1 he).2)]
  have hlater :
      (tl.agenda.dropWhile (·.1 ≤ t)).flatMap (fun e => e.2.fromCamera.map (max t e.1, ·)) =
      (tl.agenda.dropWhile (·.1 ≤ t)).flatMap fun e => e.2.fromCamera.map (max tl.now e.1, ·) := by
    refine List.flatMap_congr fun e he => ?_
    rw [Timeline.dropWhile_eq_filter sorted] at he
    have hlt : t < e.1 := of_decide_eq_true (List.mem_filter.1 he).2
    rw [Nat.max_eq_right (Nat.le_of_lt hlt),
      Nat.max_eq_right (Nat.le_trans ht (Nat.le_of_lt hlt))]
  have hreadings := readings_settle { tl with now := t }
  have hagenda := tl.arrive_agenda t
  change (tl.arrive t).shared.rig.cameraLine.readings.map (t, ·) ++
    (tl.arrive t).agenda.flatMap (fun e => e.2.fromCamera.map (max t e.1, ·)) = _
  rw [hagenda, hlater]
  change ({ tl with now := t } : Timeline Event Rig).settle.shared.rig.cameraLine.readings.map _ ++
    _ = _
  rw [hreadings, List.map_append, hwaiting, hnow, List.append_assoc, ← List.flatMap_append,
    List.takeWhile_append_dropWhile]
  rfl

/-! ### Taking readings -/

variable {σ α : Type} {take : σ → Reading → Option α × σ} {poll : Poll σ α Rig}

/-- Takes readings until one is what the task looks for: that one, with its instant, the state of
the task behind it, and the readings that are left. -/
def readUntil (take : σ → Reading → Option α × σ) :
    σ → List (Instant × Reading) → Option (Instant × α) × σ × List (Instant × Reading)
  | st, [] => (none, st, [])
  | st, (t, r) :: line =>
    match take st r with
    | (some a, st) => (some (t, a), st, line)
    | (none, st) => readUntil take st line

theorem readUntil_append (st : σ) (xs ys : List (Instant × Reading)) :
    readUntil take st (xs ++ ys) =
      match readUntil take st xs with
      | (some x, st', left) => (some x, st', left ++ ys)
      | (none, st', _) => readUntil take st' ys := by
  induction xs generalizing st with
  | nil => rfl
  | cons x xs ih =>
    obtain ⟨t, r⟩ := x
    rw [List.cons_append, readUntil, readUntil]
    rcases take st r with ⟨_ | a, st'⟩
    · exact ih st'
    · rfl

/-- Among readings of one instant, what is found and what is left have that instant; and nothing is
left if nothing is found. -/
theorem readUntil_map (take : σ → Reading → Option α × σ) (t : Instant) (st : σ)
    (readings : List Reading) :
    match readUntil take st (readings.map (t, ·)) with
    | (some x, _, left) => x.1 = t ∧ (left.map Prod.snd).map (t, ·) = left
    | (none, _, left) => left = [] := by
  induction readings generalizing st with
  | nil => rfl
  | cons r readings ih =>
    rw [List.map_cons, readUntil]
    rcases take st r with ⟨_ | a, st'⟩
    · exact ih st'
    · exact ⟨rfl, by simp [Function.comp_def]⟩

/-- The poll takes readings from the camera's line, and changes nothing else but the journal. -/
def Reads (poll : Poll σ α Rig) (take : σ → Reading → Option α × σ) : Prop :=
  ∀ (t : Instant) (st : σ) (s : Shared Rig),
    let done := readUntil take st (s.rig.cameraLine.readings.map (t, ·))
    ∃ notes, poll st s = (done.1.map Prod.snd, done.2.1,
      { s with rig := { s.rig with cameraLine := ⟨done.2.2.map Prod.snd⟩ } }.note notes)

/-- What a wait that began in the state `st₀` may come to, if `line` is what comes in in time. -/
def Awaits (take : σ → Reading → Option α × σ) (due : Instant) (st₀ : σ)
    (line : List (Instant × Reading)) : Waited α × σ × Timeline Event Rig → Prop
  | (.found a, st, tl) => ∃ left, readUntil take st₀ line = (some (tl.now, a), st, left)
  | (.expired, st, tl) => readUntil take st₀ line = (none, st, []) ∧ tl.now = due
  | (.stalled, _, _) => False

/-- The task has taken everything that has come in, in vain. -/
structure Waits (take : σ → Reading → Option α × σ) (due : Instant) (st₀ : σ)
    (line : List (Instant × Reading)) (st : σ) (tl : Timeline Event Rig) : Prop where
  timely : tl.Timely
  before : tl.now ≤ due
  within : tl.within due = true
  empty : tl.shared.rig.cameraLine.readings = []
  ahead : readUntil take st₀ line = readUntil take st (inTime due tl)

/-- A look takes what is on the line. -/
theorem Reads.look (h : Reads poll take) (tl : Timeline Event Rig) (st : σ) (hin : tl.now ≤ due) :
    ∃ found st' s', tl.look poll st = (found, st', { tl with shared := s' }) ∧
      match found with
      | some a => ∃ left, readUntil take st (inTime due tl) = (some (tl.now, a), st', left)
      | none => s'.rig.cameraLine.readings = [] ∧ readUntil take st (inTime due tl) =
          readUntil take st' (inTime due { tl with shared := s' }) := by
  have hline : inTime due tl = tl.shared.rig.cameraLine.readings.map (tl.now, ·) ++
      (tl.agenda.flatMap fun e => e.2.fromCamera.map (max tl.now e.1, ·)).filter (·.1 ≤ due) := by
    rw [inTime, cameraReadings, List.filter_append, List.filter_eq_self.2]
    intro x hx
    obtain ⟨r, -, rfl⟩ := List.mem_map.1 hx
    exact decide_eq_true hin
  obtain ⟨notes, hpoll⟩ := h tl.now st tl.shared
  have hmap := readUntil_map take tl.now st tl.shared.rig.cameraLine.readings
  rcases hread : readUntil take st (tl.shared.rig.cameraLine.readings.map (tl.now, ·)) with
    ⟨_ | ⟨t, a⟩, st', left⟩
  · rw [hread] at hpoll hmap
    obtain rfl : left = [] := hmap
    refine ⟨none, st', (poll st tl.shared).2.2, ?_, by rw [hpoll]; rfl, ?_⟩
    · rw [Timeline.look, hpoll]
      rfl
    · rw [hline, readUntil_append, hread, hpoll]
      rfl
  · rw [hread] at hpoll hmap
    obtain rfl : t = tl.now := hmap.1
    refine ⟨some a, st', (poll st tl.shared).2.2, ?_, ?_⟩
    · rw [Timeline.look, hpoll]
      rfl
    · rw [hline, readUntil_append, hread]
      exact ⟨_, rfl⟩

/-- At an instant of the agenda the task finds what it looks for, or it goes on waiting. -/
theorem Reads.look_arrive (h : Reads poll take) (tl : Timeline Event Rig) {st₀ st : σ}
    {line : List (Instant × Reading)} (sorted : tl.agenda.Pairwise (·.1 ≤ ·.1))
    (within : tl.within due = true) (ht : tl.now ≤ t)
    (hline : tl.now = t ∨ tl.shared.rig.cameraLine.readings = [])
    (hdue : ∀ e ∈ tl.agenda, e.1 ≤ t → max tl.now e.1 = t) (before : t ≤ due)
    (ahead : readUntil take st₀ line = readUntil take st (inTime due tl)) :
    Timeline.Looked (fun a st tl => Awaits take due st₀ line (.found a, st, tl))
      (Waits take due st₀ line) ((tl.arrive t).look poll st) := by
  have hsame : inTime due (tl.arrive t) = inTime due tl := by
    rw [inTime, cameraReadings_arrive sorted ht hline hdue, inTime]
  obtain ⟨found, st', s', hlook, hfound⟩ := h.look (tl.arrive t) st before
  rw [hsame, ← ahead] at hfound
  have timely : (tl.arrive t).Timely := Timeline.timely_settle sorted
  rw [hlook]
  cases found with
  | some a => exact hfound
  | none => exact ⟨⟨timely.sorted, timely.ahead⟩, before, within, hfound.1, hfound.2⟩

/-- Nothing that is still to come is in time. -/
theorem Waits.awaits_runOut {st₀ st : σ} {line : List (Instant × Reading)}
    (h : Waits take due st₀ line st tl)
    (hout : ∀ e ∈ tl.agenda.head?, Timeline.before (some due) e.1 = true ∨ tl.within e.1 = false) :
    Awaits take due st₀ line (Timeline.runOut (α := α) (some due) st tl) := by
  have hlater := h.timely.lt_of_head h.within hout
  have hnone : inTime due tl = [] := by
    rw [inTime, cameraReadings, h.empty, List.map_nil, List.nil_append, List.filter_eq_nil_iff]
    intro x hx
    obtain ⟨e, he, hxe⟩ := List.mem_flatMap.1 hx
    obtain ⟨r, -, rfl⟩ := List.mem_map.1 hxe
    simp only [decide_eq_true_eq, Nat.not_le]
    exact Nat.lt_of_lt_of_le (hlater e he) (Nat.le_max_right _ _)
  rw [Timeline.runOut_some st tl h.within]
  refine ⟨?_, Nat.max_eq_right h.before⟩
  rw [h.ahead, hnone]
  rfl

/-- **A wait on the camera's line.**  It ends with the first reading in time that the task looks
for, at the instant of that reading; if there is none it ends at its deadline. -/
theorem Reads.awaits_wait (h : Reads poll take) (st : σ)
    (sorted : tl.agenda.Pairwise (·.1 ≤ ·.1)) (hin : tl.now ≤ due)
    (within : tl.within due = true) :
    Awaits take due st (inTime due tl) (tl.wait poll (some due) st) := by
  refine Timeline.wait_induction (I := Waits take due st (inTime due tl))
    (fun _ _ hw => hw.timely) ?inTime (fun _ _ hw hout => hw.awaits_runOut hout) ?stop st tl ?first
  case inTime =>
    rintro st' tl' d hw ⟨⟩
    exact ⟨hw.before, hw.within⟩
  case stop =>
    intro st' tl' t hw hlt hdue hin
    exact h.look_arrive tl' hw.timely.sorted hw.within (Nat.le_of_lt hlt) (.inr hw.empty) hdue
      (hin due rfl) hw.ahead
  case first =>
    obtain ⟨found, st₁, s₁, hlook, hfound⟩ := h.look tl st hin
    rw [hlook]
    cases found with
    | some a => exact hfound
    | none =>
      exact h.look_arrive { tl with shared := s₁ } sorted within (Nat.le_refl tl.now) (.inl rfl)
        (fun e _ he => Nat.max_eq_left he) hin hfound.2

/-- A wait of `d` from now on comes to its end: the events to come are in order, and neither the
clock nor the horizon ends before it. -/
structure Bounded (tl : Timeline Event Rig) (d : Duration) : Prop where
  /-- Events come in the order of their instants. -/
  sorted : tl.agenda.Pairwise (·.1 ≤ ·.1)
  /-- The clock goes on behind the deadline. -/
  clock : tl.now + d < endOfTime
  /-- The deadline matters. -/
  within : tl.within (tl.now + d) = true

theorem Reads.await_eq (h : Reads poll take) {d : Duration} (hb : Bounded tl d) (st : σ) :
    ∃ found st' tl' left, Run.await poll st (some (tl.now + d)) tl = .ok (found, st') tl' ∧
      readUntil take st (inTime (tl.now + d) tl) = (found.map (tl'.now, ·), st', left) ∧
      (found = none → left = [] ∧ tl'.now = tl.now + d) := by
  have hwait := h.awaits_wait st hb.sorted (Nat.le_add_right tl.now d) hb.within
  have hdeadline : (some (tl.now + d)).filter (· < endOfTime) = some (tl.now + d) :=
    Option.filter_eq_some_iff.2 ⟨rfl, decide_eq_true hb.clock⟩
  rw [Run.await, hdeadline]
  rcases hresult : tl.wait poll (some (tl.now + d)) st with ⟨a | _ | _, st', tl'⟩
  · rw [hresult] at hwait
    obtain ⟨left, hread⟩ := hwait
    exact ⟨some a, st', tl', left, rfl, hread, fun h => absurd h (Option.some_ne_none a)⟩
  · rw [hresult] at hwait
    exact ⟨none, st', tl', [], rfl, hwait.1, fun _ => ⟨rfl, hwait.2⟩⟩
  · rw [hresult] at hwait
    exact hwait.elim

end Board

end OnboardVision
