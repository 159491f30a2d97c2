import OnboardVision.Proofs.Board.Downlink
import OnboardVision.Proofs.Perception.BarrierWait

/-!
# What releases the barrier on the board

On the board telemetry comes from the flight controller alone, byte by byte.  The barrier is released
by the first attitude in those bytes, whatever angles it says, and by nothing else.

* `Barrier.Listening` is what holds whenever the barrier has looked in vain.
* `Barrier.Ended` says how the wait ends.

Main statement:

* `Barrier.wait_of_heard`: the wait ends at the instant at which the first attitude is heard, with the
  last one heard at that instant, or else at the deadline.
-/

namespace OnboardVision

namespace Barrier

open Board

variable {start tl : Timeline Event Rig} {due : Option Instant}

/-- The barrier has looked in vain: no attitude was heard so far. -/
structure Listening (start : Timeline Event Rig) (due : Option Instant)
    (tl : Timeline Event Rig) : Prop where
  timely : tl.Timely
  horizon : tl.horizon = none
  inTime : ∀ d, due = some d → tl.now ≤ d
  silent : queued tl.shared = []
  down : tl.shared.telemetry.fresh = false
  mark : tl.shared.telemetry.attitude.pitch = sentinel
  heard : heard tl = Board.heard start

/-- How a wait ends of which `l` is heard. -/
def Ended (l : List (Instant × Attitude)) (due : Option Instant) :
    Waited Attitude × Unit × Timeline Event Rig → Prop
  | (.found a, _, tl) =>
    (l.filter (·.1 = tl.now)).getLast? = some (tl.now, a) ∧ (∀ x ∈ l, tl.now ≤ x.1) ∧
      ∀ d, due = some d → tl.now ≤ d
  | (.expired, _, tl) =>
    due = some tl.now ∧ (∀ x ∈ l, tl.now < x.1) ∧
      tl.shared.telemetry.attitude.pitch = sentinel
  | (.stalled, _, _) => due = none ∧ l = []

/-- An instant at which the barrier looks: it is released if an attitude was heard by then, and it
goes on if not. -/
theorem look_arrive (timely : tl.agenda.Pairwise (·.1 ≤ ·.1)) (horizon : tl.horizon = none)
    {t : Instant} (ht : tl.now ≤ t) (hq : tl.now = t ∨ queued tl.shared = [])
    (hdue : ∀ e ∈ tl.agenda, e.1 ≤ t → max tl.now e.1 = t)
    (inTime : ∀ d, due = some d → t ≤ d) (down : tl.shared.telemetry.fresh = false)
    (mark : tl.shared.telemetry.attitude.pitch = sentinel)
    (hheard : Board.heard tl = Board.heard start) :
    Timeline.Looked (fun a st tl => Ended (Board.heard start) due (.found a, st, tl))
      (fun _ tl => Listening start due tl) ((tl.arrive t).look poll ()) := by
  obtain ⟨news, hnews, hattitude, hfresh, hqueued⟩ := exists_news timely ht hq hdue
  have harrived : (tl.arrive t).Timely := Timeline.timely_settle timely
  rw [hheard] at hnews
  rw [Timeline.look, poll_eq]
  rcases List.eq_nil_or_concat' news with rfl | ⟨earlier, a, rfl⟩
  · rw [down] at hfresh
    have hdown : (tl.arrive t).shared.telemetry.fresh = false := hfresh
    simp only [hdown, Bool.false_eq_true, false_and, ↓reduceIte]
    rw [Shared.hush_eq_self hdown]
    exact ⟨harrived, horizon, inTime, hqueued, hdown, (congrArg (·.pitch) hattitude).trans mark,
      hnews.symm⟩
  · rw [List.getLast?_concat] at hattitude
    obtain rfl : (tl.arrive t).shared.telemetry.attitude = a := hattitude
    have hup : (tl.arrive t).shared.telemetry.fresh = true := by
      rw [hfresh]
      cases earlier <;> rfl
    have hmem : (t, (tl.arrive t).shared.telemetry.attitude) ∈ Board.heard start := by
      rw [hnews]
      simp
    have hgenuine : isGenuine (tl.arrive t).shared.telemetry.attitude = true :=
      isGenuine_iff.2 (pitch_ne_sentinel_of_mem_heard hmem)
    simp only [hup, hgenuine, and_self, ↓reduceIte]
    have hlater : ∀ x ∈ Board.heard (tl.arrive t), t < x.1 := by
      intro x hx
      obtain ⟨e, he, hex⟩ := exists_event_of_mem_heard hqueued harrived hx
      exact hex ▸ harrived.ahead e he
    refine ⟨?_, ?_, inTime⟩
    · have hnone : (Board.heard (tl.arrive t)).filter (·.1 = t) = [] := by
        refine List.filter_eq_nil_iff.2 fun x hx => ?_
        simpa using Nat.ne_of_gt (hlater x hx)
      show ((Board.heard start).filter (·.1 = t)).getLast? = some (t, _)
      rw [hnews, List.filter_append, hnone, List.append_nil, List.filter_map, List.filter_eq_self.2
        (by simp), List.map_append, List.map_singleton, List.getLast?_concat]
    · rw [hnews]
      intro x hx
      rcases List.mem_append.1 hx with hx | hx
      · obtain ⟨-, -, rfl⟩ := List.mem_map.1 hx
        exact Nat.le_refl t
      · exact Nat.le_of_lt (hlater x hx)

/-- Nothing that is still to come is heard by the deadline. -/
theorem Listening.ended_runOut (h : Listening start due tl)
    (hout : ∀ e ∈ tl.agenda.head?, Timeline.before due e.1 = true ∨ tl.within e.1 = false) :
    Ended (Board.heard start) due (Timeline.runOut due () tl) := by
  have hafter := h.timely.before_of_head h.horizon hout
  rw [← h.heard]
  cases due with
  | none =>
    refine ⟨rfl, List.eq_nil_iff_forall_not_mem.2 fun x hx => ?_⟩
    obtain ⟨e, he, -⟩ := exists_event_of_mem_heard h.silent h.timely hx
    exact Bool.false_ne_true (hafter e he)
  | some d =>
    have hwithin : tl.within d = true := by
      rw [Timeline.within, h.horizon]
    have hnow : (tl.expire d).now = d := Nat.max_eq_right (h.inTime d rfl)
    rw [Timeline.runOut_some () tl hwithin]
    refine ⟨congrArg some hnow.symm, fun x hx => ?_, h.mark⟩
    obtain ⟨e, he, hex⟩ := exists_event_of_mem_heard h.silent h.timely hx
    rw [hnow, ← hex]
    exact of_decide_eq_true (hafter e he)

/-- **How a wait at the barrier ends on the board.** -/
theorem ended_wait (sorted : tl.agenda.Pairwise (·.1 ≤ ·.1)) (horizon : tl.horizon = none)
    (inTime : ∀ d, due = some d → tl.now ≤ d) (down : tl.shared.telemetry.fresh = false)
    (mark : tl.shared.telemetry.attitude.pitch = sentinel) :
    Ended (Board.heard tl) due (Timeline.wait poll due () tl) := by
  have hlook : tl.look poll () = (none, (), tl) := by
    rw [Timeline.look, poll_eq, Shared.hush_eq_self down]
    simp [down]
  refine Timeline.wait_induction (I := fun _ tl' => Listening tl due tl') (fun _ _ h => h.timely)
    ?inTime (fun _ _ h hout => h.ended_runOut hout) ?stop () tl ?first
  case inTime =>
    rintro st tl' d h hdue
    refine ⟨h.inTime d hdue, ?_⟩
    rw [Timeline.within, h.horizon]
  case stop =>
    rintro ⟨⟩ tl' t h hlt hdue hin
    exact look_arrive h.timely.sorted h.horizon (Nat.le_of_lt hlt) (.inr h.silent) hdue hin h.down
      h.mark h.heard
  case first =>
    rw [hlook]
    exact look_arrive sorted horizon (Nat.le_refl tl.now) (.inl rfl)
      (fun e _ he => Nat.max_eq_left he) inTime down mark (Eq.refl (Board.heard tl))

/-- There is one first instant in a list, and one last attitude of that instant. -/
theorem first_unique {l : List (Instant × Attitude)} {t u : Instant} {a b : Attitude}
    (ha : (l.filter (·.1 = t)).getLast? = some (t, a))
    (hb : (l.filter (·.1 = u)).getLast? = some (u, b)) (ht : ∀ x ∈ l, t ≤ x.1)
    (hu : ∀ x ∈ l, u ≤ x.1) : t = u ∧ a = b := by
  have hmem := (List.mem_filter.1 (List.mem_of_getLast? ha)).1
  have hmem' := (List.mem_filter.1 (List.mem_of_getLast? hb)).1
  obtain rfl : t = u := Nat.le_antisymm (ht _ hmem') (hu _ hmem)
  exact ⟨rfl, (Prod.mk.inj (Option.some.inj (ha.symm.trans hb))).2⟩

/-- **Every attitude releases the barrier, and nothing else does.**  On the board, the wait ends at the
first instant at which an attitude is heard, at the deadline at the latest, with the last attitude
heard at that instant; if there is none in time it ends at the deadline, and without a deadline it
does not end.  What is heard is the frames of attitudes whose checksum fits, and whatever angles they
say, none is the barrier's mark. -/
theorem wait_of_heard {timeout : Option Duration} {tl : Timeline Event Rig}
    (sorted : tl.agenda.Pairwise (·.1 ≤ ·.1)) (horizon : tl.horizon = none)
    (hd : ∀ d, timeout = some d → tl.now + d ≤ endOfTime) :
    let due := deadline tl.now timeout
    (∀ t a, ((heard tl).filter (·.1 = t)).getLast? = some (t, a) → (∀ x ∈ heard tl, t ≤ x.1) →
      (∀ d, due = some d → t ≤ d) →
      ∃ after, wait timeout tl = .ok (.ok a) after ∧ after.now = t) ∧
    (∀ d, due = some d → (∀ x ∈ heard tl, d < x.1) →
      ∃ after, wait timeout tl = .ok (.error .timeout) after ∧ after.now = d) ∧
    (due = none → heard tl = [] → ∃ after, wait timeout tl = .error .stalled after) ∧
    (∀ x ∈ heard tl, x.2.pitch ≠ sentinel) ∧
    (∀ raw, Message.angle raw ≠ sentinel) ∧
    ∀ (d : Crsf.Decoder) (b : UInt8) (a : Attitude),
      (d.feed b).1 = some (.attitude a) ↔ ∃ length received p₁ p₀ r₁ r₀ y₁ y₀,
        d = .inside length received ∧ length ≤ received.length + 1 ∧
        received = Message.attitudeType :: [p₁, p₀, r₁, r₀, y₁, y₀] ∧
        b = Checksum.ofBytes received ∧ a = Message.ofAngles p₁ p₀ r₁ r₀ y₁ y₀ := by
  intro due
  have hpitch : ∀ x ∈ heard tl, x.2.pitch ≠ sentinel := fun _ => pitch_ne_sentinel_of_mem_heard
  have hin : ∀ d, due = some d → tl.now ≤ d := by
    intro d hdue
    obtain ⟨d', -, rfl, -⟩ := deadline_eq_some_iff.1 hdue
    exact Nat.le_add_right _ _
  have hend : Ended (heard tl) due
      (Timeline.wait poll due () { tl with shared := raised tl.shared }) :=
    ended_wait sorted horizon hin rfl rfl
  have hwait := wait_eq_of_le hd
  rcases hw : Timeline.wait poll due () { tl with shared := raised tl.shared } with
    ⟨a | _ | _, st, tl'⟩
  · rw [hw] at hwait hend
    obtain ⟨hfound, hfirst, hbefore⟩ := hend
    have hmem := (List.mem_filter.1 (List.mem_of_getLast? hfound)).1
    refine ⟨fun t b hb hleast _ => ?_, fun d hdue hall => ?_, fun _ hnone => ?_, hpitch,
      Message.angle_ne_sentinel, fun _ _ _ => Crsf.Decoder.feed_eq_attitude_iff⟩
    · obtain ⟨rfl, rfl⟩ := first_unique hb hfound hleast hfirst
      exact ⟨_, hwait, rfl⟩
    · exact absurd (hall _ hmem) (Nat.not_lt_of_le (hbefore d hdue))
    · rw [hnone] at hmem
      cases hmem
  · rw [hw] at hwait hend
    obtain ⟨hdue, hafter, hmark⟩ := hend
    have hnot : ¬ isGenuine tl'.shared.telemetry.attitude = true := fun h => isGenuine_iff.1 h hmark
    dsimp only at hwait
    rw [if_neg hnot] at hwait
    refine ⟨fun t b hb _ hbefore => ?_, fun d hd _ => ?_, fun hnone _ => ?_, hpitch,
      Message.angle_ne_sentinel, fun _ _ _ => Crsf.Decoder.feed_eq_attitude_iff⟩
    · have hmem := (List.mem_filter.1 (List.mem_of_getLast? hb)).1
      exact absurd (hbefore _ hdue) (Nat.not_le_of_lt (hafter _ hmem))
    · exact ⟨_, hwait, Option.some.inj (hdue.symm.trans hd)⟩
    · rw [hnone] at hdue
      cases hdue
  · rw [hw] at hwait hend
    obtain ⟨hdue, hsilent⟩ := hend
    refine ⟨fun t b hb _ _ => ?_, fun d hd _ => ?_, fun _ _ => ⟨_, hwait⟩, hpitch,
      Message.angle_ne_sentinel, fun _ _ _ => Crsf.Decoder.feed_eq_attitude_iff⟩
    · rw [hsilent] at hb
      cases hb
    · rw [hdue] at hd
      cases hd

/-- A board that hears a barometer reading, an attitude with a wrong checksum, and at the last instant
the end of an attitude and another one.  Their pitches are next to the mark on either side. -/
def lastWord : Timeline Event Rig where
  now := 10
  agenda :=
    let below := Crsf.frame Message.attitudeType [0x44, 0x2D, 0, 0, 0, 0]
    let above := Crsf.frame Message.attitudeType [0x44, 0x2E, 0, 0, 0, 0]
    [(15, .telemetry (.bytes (Crsf.frame Message.varioType [0, 0, 0, 0]))),
      (20, .telemetry (.bytes (below.dropLast ++ [0]))),
      (30, .telemetry (.bytes (below.take 5))),
      (40, .telemetry (.bytes (below.drop 5 ++ above)))]
  shared := { rig := {} }

/-- The second one releases the barrier. -/
theorem wait_of_lastWord :
    lastWord.agenda.Pairwise (·.1 ≤ ·.1) ∧ lastWord.horizon = none ∧
      (∀ d, some 30 = some d → lastWord.now + d ≤ endOfTime) ∧
      ∃ after, wait (some 30) lastWord =
        .ok (.ok (Message.ofAngles 0x44 0x2E 0 0 0 0)) after ∧ after.now = 40 := by
  have hsorted : lastWord.agenda.Pairwise (·.1 ≤ ·.1) := by decide
  have hd : ∀ d, some 30 = some d → lastWord.now + d ≤ endOfTime := by
    rintro d ⟨⟩
    decide
  have hheard : heard lastWord =
      [(40, Message.ofAngles 0x44 0x2D 0 0 0 0), (40, Message.ofAngles 0x44 0x2E 0 0 0 0)] := by
    decide +kernel
  refine ⟨hsorted, rfl, hd, ?_⟩
  refine (wait_of_heard hsorted rfl hd).1 40 _ ?_ ?_ ?_
  · rw [hheard]
    rfl
  · rw [hheard]
    simp
  · rintro d hdue
    obtain ⟨d', ⟨⟩, rfl, -⟩ := deadline_eq_some_iff.1 hdue
    exact Nat.le_refl _

end Barrier

end OnboardVision
