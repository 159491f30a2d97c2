import Mathlib.Order.Bounds.Basic
import OnboardVision.Proofs.Perception.BarrierWait

/-!
# The rendezvous with telemetry

A `Barrier.Schedule` lists the writes of attitudes, positions and velocities around a barrier, and
`Barrier.Schedule.busAt` folds them into the values at an instant.  The main statement is
`Barrier.Schedule.wait_of_writes`: the rendezvous ends with the first attitude that is not the
barrier's own, and everything that it does to the values is to make its mark.
-/

namespace OnboardVision

namespace Barrier

open Bench

/-- A write to the telemetry. -/
inductive BusWrite where
  /-- Writes an attitude. -/
  | attitude (a : Attitude)
  /-- Writes a position. -/
  | position (p : Position)
  /-- Writes a velocity. -/
  | velocity (v : Velocity)

/-- The values after a write. -/
def BusWrite.apply (b : Sample) : BusWrite → Sample
  | .attitude a => { b with attitude := a }
  | .position p => { b with position := p }
  | .velocity v => { b with velocity := v }

/-- The write as an event of the bench. -/
def BusWrite.event : BusWrite → Event
  | .attitude a => .telemetry (.attitude a)
  | .position p => .telemetry (.position p)
  | .velocity v => .telemetry (.velocity v)

/-- The values after writes. -/
def written (b : Sample) (ws : List (Instant × BusWrite)) : Sample :=
  ws.foldl (fun b w => w.2.apply b) b

/-- The values with the mark in place of the pitch. -/
def marked (b : Sample) : Sample := { b with attitude := { b.attitude with pitch := sentinel } }

/-- A barrier and the writes before and after it. -/
structure Schedule where
  /-- The instant at which the barrier makes its mark. -/
  since : Instant
  /-- The telemetry before all writes. -/
  telemetry : Telemetry := {}
  /-- The hub. -/
  hub : Hub := {}
  /-- The writes. -/
  writes : List (Instant × BusWrite)
  /-- They come in the order of their instants. -/
  sorted : writes.Pairwise (·.1 ≤ ·.1)

namespace Schedule

/-- The values at the instant `t`, if the barrier makes its mark and changes nothing else. -/
def busAt (S : Schedule) (t : Instant) : Sample :=
  written (marked (written S.telemetry.sample (S.writes.filter (·.1 ≤ S.since))))
    (S.writes.filter fun w => S.since < w.1 ∧ w.1 ≤ t)

/-- A write at the instant `t` leaves a genuine attitude, in time and after the mark. -/
def Releases (S : Schedule) (timeout : Option Duration) (t : Instant) : Prop :=
  (∃ w ∈ S.writes, w.1 = t) ∧ S.since < t ∧ (∀ d, timeout = some d → t ≤ S.since + d) ∧
    (S.busAt t).attitude.pitch ≠ sentinel

/-- Writes as the agenda of a bench. -/
def agendaOf (ws : List (Instant × BusWrite)) : List (Instant × Event) :=
  ws.map fun w => (w.1, w.2.event)

/-- The bench when the barrier is about to make its mark. -/
def scene (S : Schedule) : Scene :=
  Timeline.settle
    { now := S.since
      agenda := agendaOf S.writes
      shared := { telemetry := S.telemetry, hub := S.hub, rig := {} } }

/-- The bench when it has. -/
def standing (S : Schedule) : Scene := { S.scene with shared := raised S.scene.shared }

variable (S : Schedule)

theorem sample_replay (s : Shared Rig) (ws : List (Instant × BusWrite)) :
    (replay s (agendaOf ws)).telemetry.sample = written s.telemetry.sample ws := by
  induction ws generalizing s with
  | nil => rfl
  | cons w ws ih =>
    refine (ih _).trans ?_
    obtain ⟨t, w⟩ := w
    cases w <;> rfl

theorem filter_agendaOf (p : Instant → Bool) (ws : List (Instant × BusWrite)) :
    (agendaOf ws).filter (fun e => p e.1) = agendaOf (ws.filter fun w => p w.1) := List.filter_map

theorem agendaOf_sorted {ws : List (Instant × BusWrite)} (h : ws.Pairwise (·.1 ≤ ·.1)) :
    (agendaOf ws).Pairwise (·.1 ≤ ·.1) := List.pairwise_map.2 h

theorem scene_timely : S.scene.Timely := Timeline.timely_settle (agendaOf_sorted S.sorted)

theorem standing_sorted : S.standing.agenda.Pairwise (·.1 ≤ ·.1) := S.scene_timely.sorted

theorem standing_agenda : S.standing.agenda = agendaOf (S.writes.filter (S.since < ·.1)) := by
  show (Timeline.settle _).agenda = _
  rw [Timeline.settle_agenda]
  exact (Timeline.dropWhile_eq_filter (agendaOf_sorted S.sorted) _).trans
    (filter_agendaOf (fun t => S.since < t) _)

theorem scene_shared : S.scene.shared =
    replay { telemetry := S.telemetry, hub := S.hub, rig := {} }
      (agendaOf (S.writes.filter (·.1 ≤ S.since))) := by
  refine (settle_shared _).trans ?_
  rw [stateAt]
  exact congrArg _ ((Timeline.takeWhile_eq_filter (agendaOf_sorted S.sorted) _).trans
    (filter_agendaOf (fun t => t ≤ S.since) _))

theorem sample_stateAt (t : Instant) : (stateAt S.standing t).telemetry.sample = S.busAt t := by
  have hmark : S.standing.shared.telemetry.sample =
      marked (written S.telemetry.sample (S.writes.filter (·.1 ≤ S.since))) := by
    show marked S.scene.shared.telemetry.sample = _
    rw [scene_shared, sample_replay]
  rw [stateAt, standing_agenda,
    Timeline.takeWhile_eq_filter (agendaOf_sorted (S.sorted.filter _)) t,
    filter_agendaOf (fun u => u ≤ t), sample_replay, hmark, busAt, List.filter_filter]
  congr 1
  refine List.filter_congr fun w _ => ?_
  rw [Bool.decide_and, Bool.and_comm]

theorem seen_iff (t : Instant) :
    Seen S.standing t ↔ (S.busAt t).attitude.pitch ≠ sentinel := by
  rw [← S.sample_stateAt t]
  exact isGenuine_iff

theorem exists_mem_standing (t : Instant) :
    (∃ e ∈ S.standing.agenda, e.1 = t) ↔ (∃ w ∈ S.writes, w.1 = t) ∧ S.since < t := by
  rw [standing_agenda]
  constructor
  · rintro ⟨e, he, rfl⟩
    obtain ⟨w, hw, rfl⟩ := List.mem_map.1 he
    obtain ⟨hmem, hlt⟩ := List.mem_filter.1 hw
    exact ⟨⟨w, hmem, rfl⟩, of_decide_eq_true hlt⟩
  · rintro ⟨⟨w, hw, rfl⟩, hlt⟩
    exact ⟨_, List.mem_map.2 ⟨w, List.mem_filter.2 ⟨hw, decide_eq_true hlt⟩, rfl⟩, rfl⟩

theorem releases_iff (timeout : Option Duration) (t : Instant) :
    S.Releases timeout t ↔ (∃ e ∈ S.standing.agenda, e.1 = t) ∧
      (∀ d, timeout.map (S.since + ·) = some d → t ≤ d) ∧ Seen S.standing t := by
  rw [exists_mem_standing, seen_iff, Releases, and_assoc]
  cases timeout <;> simp

theorem outcome_standing (timeout : Option Duration) :
    Outcome S.standing (timeout.map (S.since + ·))
      (Timeline.wait poll (timeout.map (S.since + ·)) () S.standing) := by
  have hlate : S.scene.shared.rig.late = none := by
    rw [scene_shared]
    exact replay_late _ _
  refine outcome_of_wait ⟨S.scene_timely.sorted, S.scene_timely.ahead⟩ rfl hlate rfl ?_ ?_
  · exact fun hmark => isGenuine_iff.1 hmark rfl
  · intro d hd
    obtain ⟨d', -, rfl⟩ := Option.map_eq_some_iff.1 hd
    exact Nat.le_add_right _ _

variable {S}

theorem sample_of_hush {tl : Scene} {t : Instant} (h : tl.shared = (stateAt S.standing t).hush) :
    tl.shared.telemetry.sample = S.busAt t := by
  rw [h]
  exact S.sample_stateAt t

/-- Behind the last write the values stay. -/
theorem sample_replay_standing {t : Instant} (h : ∀ w ∈ S.writes, w.1 ≤ t) :
    (replay S.standing.shared S.standing.agenda).telemetry.sample = S.busAt t := by
  have hall : ∀ e ∈ S.standing.agenda, e.1 ≤ t := by
    intro e he
    obtain ⟨⟨w, hw, hwe⟩, -⟩ := (S.exists_mem_standing e.1).1 ⟨e, he, rfl⟩
    exact hwe ▸ h w hw
  rw [← S.sample_stateAt t, stateAt, Timeline.takeWhile_eq_filter S.standing_sorted,
    List.filter_eq_self.2 (by simpa using hall)]

/-- **The rendezvous for every schedule of writes.**  It ends with the attitude at the first instant
at which that is not the mark; if there is none it ends at the deadline, with the mark in place; and
without a deadline it does not end.  The barrier changes nothing else. -/
theorem wait_of_writes (S : Schedule) {timeout : Option Duration}
    (hd : ∀ d, timeout = some d → S.since + d < endOfTime) :
    ((∃ t, S.Releases timeout t) →
      ∃ t after, IsLeast {t | S.Releases timeout t} t ∧
        wait timeout S.scene = .ok (.ok (S.busAt t).attitude) after ∧ after.now = t ∧
        after.shared.telemetry.sample = S.busAt t) ∧
    ((∀ t, ¬ S.Releases timeout t) →
      (∀ d, timeout = some d → ∃ after,
        wait timeout S.scene = .ok (.error .timeout) after ∧ after.now = S.since + d ∧
        after.shared.telemetry.sample = S.busAt (S.since + d) ∧
        (S.busAt (S.since + d)).attitude.pitch = sentinel) ∧
      (timeout = none → ∃ after,
        wait timeout S.scene = .error .stalled after ∧
        ∀ t, (∀ w ∈ S.writes, w.1 ≤ t) → after.shared.telemetry.sample = S.busAt t)) := by
  have hout := S.outcome_standing timeout
  rcases hw : Timeline.wait poll (timeout.map (S.since + ·)) () S.standing with ⟨a | _ | _, st, tl⟩
  · rw [hw] at hout
    obtain ⟨hmem, hin, hseen, hfirst, rfl, hshared⟩ := hout
    have hrel : S.Releases timeout tl.now := (S.releases_iff timeout _).2 ⟨hmem, hin, hseen⟩
    have hleast : IsLeast {t | S.Releases timeout t} tl.now := by
      refine ⟨hrel, fun t ht => ?_⟩
      obtain ⟨⟨e, he, rfl⟩, -, hs⟩ := (S.releases_iff timeout t).1 ht
      exact Nat.le_of_not_lt fun hlt => hfirst e he hlt hs
    have hsample := sample_of_hush hshared
    have hend := wait_of_found hd hw
    have hatt : (stateAt S.standing tl.now).telemetry.attitude = (S.busAt tl.now).attitude :=
      congrArg (·.attitude) (S.sample_stateAt tl.now)
    rw [hatt] at hend
    exact ⟨fun _ => ⟨tl.now, _, hleast, hend, rfl, hsample⟩, fun hno => absurd hrel (hno _)⟩
  · rw [hw] at hout
    obtain ⟨hdue, hnot, hbefore, hshared⟩ := hout
    have hno : ∀ t, ¬ S.Releases timeout t := by
      intro t ht
      obtain ⟨⟨e, he, rfl⟩, hin, hs⟩ := (S.releases_iff timeout t).1 ht
      exact hbefore e he (hin _ hdue) hs
    have hmark : (S.busAt tl.now).attitude.pitch = sentinel := by
      by_contra hne
      exact hnot ((S.seen_iff _).2 hne)
    have hsample := sample_of_hush hshared
    refine ⟨fun ⟨t, ht⟩ => absurd ht (hno t), fun _ => ⟨?_, ?_⟩⟩
    · rintro d rfl
      have hnow : S.since + d = tl.now := Option.some.inj hdue
      rw [hnow]
      refine ⟨_, wait_of_expired hd hw ?_, rfl, hsample, hmark⟩
      rw [isGenuine_iff, not_not]
      exact (congrArg (·.attitude.pitch) hsample).trans hmark
    · rintro rfl
      cases hdue
  · rw [hw] at hout
    obtain ⟨hnone, hbefore, hshared⟩ := hout
    have hno : ∀ t, ¬ S.Releases timeout t := by
      intro t ht
      obtain ⟨⟨e, he, rfl⟩, -, hs⟩ := (S.releases_iff timeout t).1 ht
      exact hbefore e he hs
    refine ⟨fun ⟨t, ht⟩ => absurd ht (hno t), fun _ => ⟨?_, fun _ => ?_⟩⟩
    · rintro d rfl
      cases hnone
    · refine ⟨tl, wait_of_stalled hd hw, fun t ht => ?_⟩
      rw [hshared]
      exact sample_replay_standing ht

/-- A write of the mark while the barrier stands, and a genuine attitude at its deadline. -/
def lastMinute : Schedule where
  since := 10
  writes := [(5, .attitude { pitch := 1 }), (20, .attitude { pitch := sentinel }),
    (30, .attitude { pitch := 7 })]
  sorted := by decide

/-- The mark is not taken for an attitude, and the deadline still counts. -/
theorem wait_of_lastMinute :
    (∀ d, some 20 = some d → lastMinute.since + d < endOfTime) ∧
      ∃ after, wait (some 20) lastMinute.scene = .ok (.ok { pitch := 7 }) after ∧
        after.now = 30 := by
  have hd : ∀ d, some 20 = some d → lastMinute.since + d < endOfTime := by
    rintro d ⟨⟩
    decide
  have hrel : lastMinute.Releases (some 20) 30 := by
    refine ⟨⟨_, List.mem_cons_of_mem _ (List.mem_cons_of_mem _ List.mem_cons_self), rfl⟩,
      by decide, ?_, by decide⟩
    rintro d ⟨⟩
    decide
  obtain ⟨t, after, ⟨ht, hleast⟩, hwait, rfl, -⟩ := (wait_of_writes lastMinute hd).1 ⟨30, hrel⟩
  obtain ⟨⟨w, hw, hwt⟩, hafter, -, hpitch⟩ := ht
  have hnow : after.now = 30 := by
    refine Nat.le_antisymm (hleast hrel) ?_
    simp only [lastMinute, List.mem_cons, List.not_mem_nil, or_false] at hw
    rcases hw with rfl | rfl | rfl
    · rw [← hwt] at hafter
      exact absurd hafter (by decide)
    · rw [← hwt] at hpitch
      exact absurd rfl hpitch
    · exact Nat.le_of_eq hwt
  rw [hnow] at hwait
  exact ⟨hd, after, hwait, hnow⟩

end Schedule

end Barrier

end OnboardVision
