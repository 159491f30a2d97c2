import OnboardVision.Bench.Scene
import OnboardVision.Proofs.Telemetry.Flag
import OnboardVision.Proofs.Timeline.Waiting

/-!
# Replays of the bench

On the bench nothing happens but the events of the agenda, so the shared state at an instant is a
replay of the events up to it.  A waiter that takes the flag down between two events leaves no
other trace: `Bench.hush_replay` lets it do so at any time, and `Bench.flagged_replay` says what it
may conclude from a flag that stayed down.
-/

namespace OnboardVision

namespace Shared

variable {R : Type} {s : Shared R}

/-- The shared state with the flag over the attitude down. -/
def hush (s : Shared R) : Shared R := { s with telemetry := s.telemetry.acknowledge }

theorem hush_eq_self (h : s.telemetry.fresh = false) : s.hush = s := by
  obtain ⟨⟨b, f⟩, hub, journal, rig⟩ := s
  obtain rfl : f = false := h
  rfl

end Shared

namespace Bench

variable {a b : Telemetry}

theorem Write.flagged_perform (w : Write) (r : Receiver) (t : Telemetry) :
    t.Flagged (w.perform r t).2.2.1 := by
  cases w with
  | attitude a => exact t.flagged_setAttitude a
  | position p => exact t.flagged_setPosition p
  | velocity v => exact t.flagged_setVelocity v
  | bytes data => exact r.flagged_feedAll t data
  | message m => exact r.navigator.flagged_apply m t

theorem Write.perform_congr (w : Write) (r : Receiver) (h : a.Alike b) :
    (w.perform r a).2.1 = (w.perform r b).2.1 ∧
      (w.perform r a).2.2.1.Alike (w.perform r b).2.2.1 ∧
      (w.perform r a).2.2.2 = (w.perform r b).2.2.2 := by
  obtain ⟨⟨att, pos, vel⟩, fa⟩ := a
  obtain ⟨⟨att', pos', vel'⟩, fb⟩ := b
  obtain ⟨rfl, rfl, rfl⟩ : att = att' ∧ pos = pos' ∧ vel = vel' := by
    simpa [Telemetry.Alike, Telemetry.sample] using h
  cases w with
  | attitude a => exact ⟨rfl, rfl, rfl⟩
  | position p => exact ⟨rfl, rfl, rfl⟩
  | velocity v => exact ⟨rfl, rfl, rfl⟩
  | bytes data => exact (r.feedAll_congr data h).2
  | message m =>
    obtain ⟨hn, ht, hnotes⟩ := r.navigator.apply_congr m h
    exact ⟨congrArg (Receiver.mk r.decoder) hn, ht, hnotes⟩

/-! ### One event -/

theorem flagged_deliver (e : Event) (s : Shared Rig) :
    s.telemetry.Flagged (deliver e s).telemetry := by
  cases e with
  | telemetry w => exact w.flagged_perform _ _
  | edit e => exact .refl _
  | line text => exact .refl _

theorem deliver_late (e : Event) (s : Shared Rig) : (deliver e s).rig.late = s.rig.late := by
  cases e <;> rfl

theorem hush_deliver (e : Event) (s : Shared Rig) :
    (deliver e s.hush).hush = (deliver e s).hush := by
  cases e with
  | edit e => rfl
  | line text => rfl
  | telemetry w =>
    obtain ⟨hr, ht, hn⟩ := w.perform_congr s.rig.receiver s.telemetry.alike_acknowledge
    rw [Telemetry.alike_iff] at ht
    show (write w s.hush).hush = (write w s).hush
    simp only [write, Shared.hush, Shared.note, hr, ht, hn]

/-! ### Many events -/

/-- The shared state after events. -/
def replay (s : Shared Rig) (l : List (Instant × Event)) : Shared Rig :=
  l.foldl (fun s e => deliver e.2 s) s

theorem replay_append (s : Shared Rig) (l l' : List (Instant × Event)) :
    replay s (l ++ l') = replay (replay s l) l' := List.foldl_append

theorem flagged_replay (s : Shared Rig) (l : List (Instant × Event)) :
    s.telemetry.Flagged (replay s l).telemetry := by
  induction l generalizing s with
  | nil => exact .refl _
  | cons e l ih => exact (flagged_deliver e.2 s).trans (ih _)

theorem replay_late (s : Shared Rig) (l : List (Instant × Event)) :
    (replay s l).rig.late = s.rig.late := by
  induction l generalizing s with
  | nil => rfl
  | cons e l ih => exact (ih _).trans (deliver_late e.2 s)

/-- Taking the flag down on the way makes no other difference. -/
theorem hush_replay (s : Shared Rig) (l : List (Instant × Event)) :
    (replay s.hush l).hush = (replay s l).hush := by
  induction l generalizing s with
  | nil => rfl
  | cons e l ih =>
    show (replay (deliver e.2 s.hush) l).hush = (replay (deliver e.2 s) l).hush
    rw [← ih (deliver e.2 s.hush), hush_deliver, ih]

/-! ### Instants -/

/-- The shared state at the instant `t`. -/
def stateAt (tl : Scene) (t : Instant) : Shared Rig :=
  replay tl.shared (tl.agenda.takeWhile (·.1 ≤ t))

theorem settle_shared (tl : Scene) : tl.settle.shared = stateAt tl tl.now :=
  Timeline.deliverDue_snd _ _ _

theorem arrive_shared (tl : Scene) (t : Instant) : (tl.arrive t).shared = stateAt tl t :=
  Timeline.deliverDue_snd _ _ _

theorem takeWhile_eq_append {l : List (Instant × Event)} {t u : Instant} (h : t ≤ u) :
    l.takeWhile (·.1 ≤ u) =
      l.takeWhile (·.1 ≤ t) ++ (l.dropWhile (·.1 ≤ t)).takeWhile (·.1 ≤ u) := by
  induction l with
  | nil => rfl
  | cons x l ih =>
    by_cases hx : x.1 ≤ t
    · have hx' : x.1 ≤ u := Nat.le_trans hx h
      simp [hx, hx', ih]
    · simp [hx]

/-- The state at a later instant, from the state at an earlier one. -/
theorem stateAt_of_le (tl : Scene) {t u : Instant} (h : t ≤ u) :
    stateAt tl u = replay (stateAt tl t) ((tl.agenda.dropWhile (·.1 ≤ t)).takeWhile (·.1 ≤ u)) := by
  rw [stateAt, takeWhile_eq_append h, replay_append]
  rfl

end Bench

end OnboardVision
