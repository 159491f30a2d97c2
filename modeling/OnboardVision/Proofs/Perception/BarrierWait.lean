import OnboardVision.Proofs.Bench.Replay

/-!
# Waiting at the startup barrier

The barrier looks at the telemetry only behind a raised flag, takes the flag down each time, and
gives up at a fixed instant.  None of this shows on the bench, where `Barrier.Seen start t` says
that the attitude at the instant `t` is not the barrier's own mark.

* `Barrier.wait_of_found`, `Barrier.wait_of_expired` and `Barrier.wait_of_stalled`: a wait at the
  barrier is a wait on the timeline.
* `Barrier.Vigil` is what holds whenever the barrier has looked in vain.
* `Barrier.outcome_of_wait`: for every agenda of the bench, the wait ends at the first instant of
  the agenda at which something is seen, or else at the deadline.
-/

namespace OnboardVision

namespace Barrier

theorem sentinel_eq : sentinel = .finite false ⟨0x42c80000, by decide⟩ := by decide

/-- The barrier compares numbers, but no other number is equal to the mark. -/
theorem isGenuine_iff {a : Attitude} : isGenuine a = true ↔ a.pitch ≠ sentinel := by
  rw [isGenuine, sentinel_eq]
  rcases a.pitch with _ | n | ⟨n, k⟩
  · simp [Single.equals, Single.compareBy, Single.key]
  · cases n <;> decide
  · cases n with
    | true =>
      have : ¬ (-(k.val : Int) = 0x42c80000) := by omega
      simp [Single.equals, Single.compareBy, Single.key, Single.signed, this]
    | false =>
      have : (k.val : Int) = 0x42c80000 ↔ k = ⟨0x42c80000, by decide⟩ := by
        rw [Fin.ext_iff]
        show (k.val : Int) = 0x42c80000 ↔ k.val = 0x42c80000
        omega
      simp [Single.equals, Single.compareBy, Single.key, Single.signed, this]

section Generic

variable {E R : Type}

theorem poll_eq (s : Shared R) :
    poll () s =
      (if s.telemetry.fresh = true ∧ isGenuine s.telemetry.attitude = true then
        some s.telemetry.attitude else none, (), s.hush) := by
  unfold poll
  by_cases hf : s.telemetry.fresh = true
  · simp only [hf, ↓reduceIte, true_and]
    rfl
  · have hdown : s.telemetry.fresh = false := by simpa using hf
    simp [hdown, Shared.hush_eq_self hdown]

/-- The shared state once the barrier stands. -/
def raised (s : Shared R) : Shared R := (raise s).note [.awaitingTelemetry]

variable [Surroundings E R]

theorem filter_map_add {timeout : Option Duration} {t : Instant}
    (hd : ∀ d, timeout = some d → t + d < endOfTime) :
    (timeout.map (t + ·)).filter (· < endOfTime) = timeout.map (t + ·) := by
  cases timeout with
  | none => rfl
  | some d => simp [Option.filter, hd d rfl]

/-- The wait with its deadline fixed. -/
def watch (deadline : Option Instant) : Run E R (Except BarrierFailure Attitude) := do
  Run.modifyShared raise
  Run.note .awaitingTelemetry
  let (found, _) ← Run.await poll () deadline
  match found with
  | some a =>
    Run.note (.telemetrySynchronized a.pitch)
    return .ok a
  | none =>
    let a := (← Run.shared).telemetry.attitude
    if isGenuine a then return .ok a
    else
      Run.note .telemetryTimedOut
      return .error .timeout

theorem wait_eq_watch {timeout : Option Duration} {tl : Timeline E R}
    (hd : ∀ d, timeout = some d → tl.now + d ≤ endOfTime) :
    wait timeout tl = watch (timeout.map (tl.now + ·)) tl := by
  cases timeout with
  | none => rfl
  | some d =>
    have hlater : (some <$> Run.later d : Run E R (Option Instant)) tl =
        .ok (some (tl.now + d)) tl := by
      show EStateM.map some (Run.later d) tl = _
      simp only [EStateM.map, Run.later_of_le (hd d rfl)]
    exact Run.bind_of_ok hlater

/-- When a barrier made at the instant `now` gives up.  The last instant of the clock never
comes. -/
def deadline (now : Instant) (timeout : Option Duration) : Option Instant :=
  (timeout.map (now + ·)).filter (· < endOfTime)

theorem deadline_eq_some_iff {now d : Instant} {timeout : Option Duration} :
    deadline now timeout = some d ↔ ∃ d', timeout = some d' ∧ now + d' = d ∧ d < endOfTime := by
  rw [deadline, Option.filter_eq_some_iff, Option.map_eq_some_iff, decide_eq_true_eq]
  exact ⟨fun ⟨⟨d', ht, hd⟩, hlt⟩ => ⟨d', ht, hd, hlt⟩, fun ⟨d', ht, hd, hlt⟩ => ⟨⟨d', ht, hd⟩, hlt⟩⟩

/-- A wait at the barrier is a wait on the timeline. -/
theorem wait_eq_of_le {timeout : Option Duration} {tl : Timeline E R}
    (hd : ∀ d, timeout = some d → tl.now + d ≤ endOfTime) :
    wait timeout tl =
      match Timeline.wait poll (deadline tl.now timeout) ()
        { tl with shared := raised tl.shared } with
      | (.found a, _, tl') =>
        .ok (.ok a) { tl' with shared := tl'.shared.note [.telemetrySynchronized a.pitch] }
      | (.expired, _, tl') =>
        if isGenuine tl'.shared.telemetry.attitude then .ok (.ok tl'.shared.telemetry.attitude) tl'
        else .ok (.error .timeout) { tl' with shared := tl'.shared.note [.telemetryTimedOut] }
      | (.stalled, _, tl') => .error .stalled tl' := by
  rw [wait_eq_watch hd, watch, Run.bind_of_ok (Run.modifyShared_apply _ _),
    Run.bind_of_ok (Run.note_apply _ _)]
  rcases hwait : Timeline.wait poll (deadline tl.now timeout) ()
    { tl with shared := raised tl.shared } with ⟨a | _ | _, st, tl'⟩
  · have hawait : Run.await poll () (timeout.map (tl.now + ·))
        { tl with shared := raised tl.shared } = .ok (some a, st) tl' := by
      rw [Run.await, ← deadline, hwait]
    exact Run.bind_of_ok hawait
  · have hawait : Run.await poll () (timeout.map (tl.now + ·))
        { tl with shared := raised tl.shared } = .ok (none, st) tl' := by
      rw [Run.await, ← deadline, hwait]
    refine (Run.bind_of_ok hawait).trans ((Run.bind_of_ok (Run.shared_apply tl')).trans ?_)
    show (if _ then _ else _ : Run E R _) tl' = if _ then _ else _
    split <;> rfl
  · have hawait : Run.await poll () (timeout.map (tl.now + ·))
        { tl with shared := raised tl.shared } = .error .stalled tl' := by
      rw [Run.await, ← deadline, hwait]
    exact Run.bind_of_error hawait

/-- The same with the deadline written out, for a clock that reaches it. -/
theorem wait_eq {timeout : Option Duration} {tl : Timeline E R}
    (hd : ∀ d, timeout = some d → tl.now + d < endOfTime) :
    wait timeout tl =
      match Timeline.wait poll (timeout.map (tl.now + ·)) ()
        { tl with shared := raised tl.shared } with
      | (.found a, _, tl') =>
        .ok (.ok a) { tl' with shared := tl'.shared.note [.telemetrySynchronized a.pitch] }
      | (.expired, _, tl') =>
        if isGenuine tl'.shared.telemetry.attitude then .ok (.ok tl'.shared.telemetry.attitude) tl'
        else .ok (.error .timeout) { tl' with shared := tl'.shared.note [.telemetryTimedOut] }
      | (.stalled, _, tl') => .error .stalled tl' := by
  rw [wait_eq_of_le fun d h => Nat.le_of_lt (hd d h), deadline, filter_map_add hd]

variable {timeout : Option Duration} {tl tl' : Timeline E R} {st : Unit} {a : Attitude}

theorem wait_of_found (hd : ∀ d, timeout = some d → tl.now + d < endOfTime)
    (h : Timeline.wait poll (timeout.map (tl.now + ·)) () { tl with shared := raised tl.shared } =
      (.found a, st, tl')) :
    wait timeout tl =
      .ok (.ok a) { tl' with shared := tl'.shared.note [.telemetrySynchronized a.pitch] } := by
  rw [wait_eq hd, h]

theorem wait_of_expired (hd : ∀ d, timeout = some d → tl.now + d < endOfTime)
    (h : Timeline.wait poll (timeout.map (tl.now + ·)) () { tl with shared := raised tl.shared } =
      (.expired, st, tl')) (hmark : ¬ isGenuine tl'.shared.telemetry.attitude = true) :
    wait timeout tl =
      .ok (.error .timeout) { tl' with shared := tl'.shared.note [.telemetryTimedOut] } := by
  rw [wait_eq hd, h]
  exact if_neg hmark

theorem wait_of_stalled (hd : ∀ d, timeout = some d → tl.now + d < endOfTime)
    (h : Timeline.wait poll (timeout.map (tl.now + ·)) () { tl with shared := raised tl.shared } =
      (.stalled, st, tl')) : wait timeout tl = .error .stalled tl' := by
  rw [wait_eq hd, h]

end Generic

/-! ### On the bench -/

open Bench

variable {start tl : Scene} {deadline : Option Instant}

/-- There is a genuine attitude at the instant `t`. -/
def Seen (start : Scene) (t : Instant) : Prop :=
  isGenuine (stateAt start t).telemetry.attitude = true

/-- The barrier has looked in vain at every instant so far. -/
structure Vigil (start : Scene) (deadline : Option Instant) (tl : Scene) : Prop where
  begun : start.Timely
  timely : tl.Timely
  horizon : tl.horizon = none
  late : start.shared.rig.late = none
  inTime : ∀ d, deadline = some d → tl.now ≤ d
  agenda : tl.agenda = start.agenda.dropWhile (·.1 ≤ tl.now)
  shared : tl.shared = (stateAt start tl.now).hush
  notYet : ¬ Seen start tl.now
  notBefore : ∀ e ∈ start.agenda, e.1 ≤ tl.now → ¬ Seen start e.1

/-- How a wait at the barrier ends, with the deadline fixed. -/
def Outcome (start : Scene) (deadline : Option Instant) :
    Waited Attitude × Unit × Scene → Prop
  | (.found a, _, tl) =>
    (∃ e ∈ start.agenda, e.1 = tl.now) ∧ (∀ d, deadline = some d → tl.now ≤ d) ∧
      Seen start tl.now ∧ (∀ e ∈ start.agenda, e.1 < tl.now → ¬ Seen start e.1) ∧
      a = (stateAt start tl.now).telemetry.attitude ∧ tl.shared = (stateAt start tl.now).hush
  | (.expired, _, tl) =>
    deadline = some tl.now ∧ ¬ Seen start tl.now ∧
      (∀ e ∈ start.agenda, e.1 ≤ tl.now → ¬ Seen start e.1) ∧
      tl.shared = (stateAt start tl.now).hush
  | (.stalled, _, tl) =>
    deadline = none ∧ (∀ e ∈ start.agenda, ¬ Seen start e.1) ∧
      tl.shared = (replay start.shared start.agenda).hush

theorem lapse_of_late_eq_none {s : Shared Rig} (h : s.rig.late = none) (now : Instant) :
    Bench.lapse now s = s := by
  rw [Bench.lapse, h]

theorem Vigil.lapse (h : Vigil start deadline tl) (now : Instant) :
    Surroundings.lapse now tl.shared = tl.shared := by
  refine lapse_of_late_eq_none ?_ now
  rw [h.shared]
  exact (replay_late _ _).trans h.late

/-- Every event is over or still to come. -/
theorem Vigil.mem_agenda (h : Vigil start deadline tl) {e : Instant × Event}
    (he : e ∈ start.agenda) (hlt : tl.now < e.1) : e ∈ tl.agenda := by
  rw [h.agenda, Timeline.dropWhile_eq_filter h.begun.sorted]
  exact List.mem_filter.2 ⟨he, by simpa using hlt⟩

theorem Vigil.within (h : Vigil start deadline tl) (t : Instant) : tl.within t = true := by
  rw [Timeline.within, h.horizon]

/-- A vigil that ends with the deadline saw nothing until then. -/
theorem Vigil.outcome_runOut (h : Vigil start deadline tl)
    (hout : ∀ e ∈ tl.agenda.head?, Timeline.before deadline e.1 = true ∨ tl.within e.1 = false) :
    Outcome start deadline (Timeline.runOut deadline () tl) := by
  -- whatever is left comes after the deadline
  have hafter := h.timely.before_of_head h.horizon hout
  cases deadline with
  | none =>
    have hover : ∀ e ∈ start.agenda, e.1 ≤ tl.now := by
      intro e he
      by_contra hlt
      exact Bool.false_ne_true (hafter e (h.mem_agenda he (Nat.lt_of_not_le hlt)))
    refine ⟨rfl, fun e he => h.notBefore e he (hover e he), ?_⟩
    show tl.shared = _
    rw [h.shared, stateAt, Timeline.takeWhile_eq_filter h.begun.sorted,
      List.filter_eq_self.2 (by simpa using hover)]
  | some d =>
    have hle : tl.now ≤ d := h.inTime d rfl
    have hnow : (tl.expire d).now = d := Nat.max_eq_right hle
    have hover : ∀ e ∈ start.agenda, e.1 ≤ d → e.1 ≤ tl.now := by
      intro e he hed
      by_contra hlt
      have hb := hafter e (h.mem_agenda he (Nat.lt_of_not_le hlt))
      exact Nat.not_lt_of_le hed (of_decide_eq_true hb)
    have hstay : stateAt start d = stateAt start tl.now := by
      unfold stateAt
      rw [Timeline.takeWhile_eq_filter h.begun.sorted, Timeline.takeWhile_eq_filter h.begun.sorted]
      congr 1
      refine List.filter_congr fun e he => decide_eq_decide.2 ?_
      exact ⟨hover e he, fun hen => Nat.le_trans hen hle⟩
    rw [Timeline.runOut_some () tl (h.within d)]
    refine ⟨congrArg some hnow.symm, ?_, fun e he hed => ?_, ?_⟩
    · rw [hnow, Seen, hstay]
      exact h.notYet
    · rw [hnow] at hed
      exact h.notBefore e he (hover e he hed)
    · show Surroundings.lapse _ tl.shared = _
      rw [h.lapse, h.shared, hnow, hstay]

/-- At the next instant of the agenda the vigil ends, or goes on. -/
theorem Vigil.arrive (h : Vigil start deadline tl) {t : Instant} {e : Event}
    {rest : List (Instant × Event)} (ha : tl.agenda = (t, e) :: rest)
    (hd : Timeline.before deadline t = false) :
    match (tl.arrive t).look poll () with
    | (some a, st, tl') => Outcome start deadline (.found a, st, tl')
    | (none, _, tl') => Vigil start deadline tl' := by
  have hlt : tl.now < t := h.timely.ahead (t, e) (by simp [ha])
  have hmem : (t, e) ∈ start.agenda := by
    have : (t, e) ∈ tl.agenda := by simp [ha]
    rw [h.agenda] at this
    exact (List.dropWhile_sublist _).subset this
  have hin : ∀ d, deadline = some d → t ≤ d := by
    rintro d rfl
    exact Nat.le_of_not_lt (of_decide_eq_false hd)
  -- what is over by now was over at the last look, or is due now
  have hover : ∀ x ∈ start.agenda, x.1 < t → x.1 ≤ tl.now := by
    intro x hx hxt
    by_contra hnow
    have hx' := h.mem_agenda hx (Nat.lt_of_not_le hnow)
    have hsorted := h.timely.sorted
    rw [ha] at hx' hsorted
    rcases List.mem_cons.1 hx' with rfl | hx'
    · exact Nat.lt_irrefl _ hxt
    · exact Nat.not_lt_of_le ((List.pairwise_cons.1 hsorted).1 x hx') hxt
  have hshared : (tl.arrive t).shared = replay (stateAt start tl.now).hush
      ((start.agenda.dropWhile (·.1 ≤ tl.now)).takeWhile (·.1 ≤ t)) := by
    rw [arrive_shared, stateAt, h.shared, h.agenda]
  have hhush : (tl.arrive t).shared.hush = (stateAt start t).hush := by
    rw [hshared, hush_replay, ← stateAt_of_le start (Nat.le_of_lt hlt)]
  have hatt : (tl.arrive t).shared.telemetry.attitude = (stateAt start t).telemetry.attitude :=
    congrArg (·.telemetry.attitude) hhush
  have hlook : (tl.arrive t).look poll () =
      ((poll () (tl.arrive t).shared).1, (),
        { tl.arrive t with shared := (stateAt start t).hush }) := by
    rw [Timeline.look, poll_eq]
    simp only [hhush]
  rw [hlook, poll_eq]
  by_cases hseen : (tl.arrive t).shared.telemetry.fresh = true ∧
      isGenuine (tl.arrive t).shared.telemetry.attitude = true
  · simp only [hseen, and_self, ↓reduceIte]
    refine ⟨⟨_, hmem, rfl⟩, hin, ?_, fun x hx hxt => h.notBefore x hx (hover x hx hxt), hatt, rfl⟩
    rw [Seen, Timeline.arrive_now, ← hatt]
    exact hseen.2
  · simp only [hseen, ↓reduceIte]
    have hnot : ¬ Seen start t := by
      intro hs
      rw [Seen, ← hatt] at hs
      have hdown : (tl.arrive t).shared.telemetry.fresh = false := by
        simpa [hs] using hseen
      rw [hshared] at hdown hs
      -- the flag stayed down, so the attitude is the one of the last look
      have hold := (flagged_replay _ _ hdown).1
      rw [hold] at hs
      exact h.notYet hs
    refine ⟨h.begun, ?_, h.horizon, h.late, hin, ?_, rfl, hnot, ?_⟩
    · exact ⟨(h.timely.arrive t).sorted, (h.timely.arrive t).ahead⟩
    · show (tl.arrive t).agenda = _
      rw [Timeline.arrive_agenda, h.agenda,
        Timeline.dropWhile_dropWhile h.begun.sorted (Nat.le_of_lt hlt)]
      rfl
    · intro x hx hxt
      rcases Nat.lt_or_eq_of_le hxt with hxt | hxt
      · exact h.notBefore x hx (hover x hx hxt)
      · show ¬ Seen start x.1
        rw [hxt]
        exact hnot

theorem stateAt_now (h : start.Timely) : stateAt start start.now = start.shared := by
  rw [stateAt, h.takeWhile_agenda h.ahead]
  rfl

theorem settle_eq_self (h : start.Timely) : start.settle = start := by
  have hagenda : start.settle.agenda = start.agenda :=
    (Timeline.settle_agenda start).trans h.dropWhile_agenda
  have hshared : start.settle.shared = start.shared :=
    (settle_shared start).trans (stateAt_now h)
  show Timeline.mk start.now start.settle.agenda start.horizon start.settle.shared = start
  rw [hagenda, hshared]

/-- **How a wait at the barrier ends.** -/
theorem outcome_of_wait (begun : start.Timely) (horizon : start.horizon = none)
    (late : start.shared.rig.late = none) (hdown : start.shared.telemetry.fresh = false)
    (hmark : ¬ isGenuine start.shared.telemetry.attitude = true)
    (hin : ∀ d, deadline = some d → start.now ≤ d) :
    Outcome start deadline (Timeline.wait poll deadline () start) := by
  have hvigil : Vigil start deadline start := by
    refine ⟨begun, begun, horizon, late, hin, begun.dropWhile_agenda.symm, ?_, ?_,
      fun e he hle => ?_⟩
    · rw [stateAt_now begun, Shared.hush_eq_self hdown]
    · rwa [Seen, stateAt_now begun]
    · exact absurd hle (Nat.not_le_of_lt (begun.ahead e he))
  have hlook : start.look poll () = (none, (), start) := by
    rw [Timeline.look, poll_eq, Shared.hush_eq_self hdown]
    simp [hdown]
  have hyield : Timeline.yieldLook poll () start = (none, (), start) := by
    rw [Timeline.yieldLook, settle_eq_self begun, hlook]
  rw [Timeline.wait, hlook]
  simp only [hyield]
  split
  · rename_i hr
    cases deadline with
    | none => cases hr
    | some d =>
      obtain rfl : start.now = d := Nat.le_antisymm (hin d rfl) (of_decide_eq_true hr)
      have hnow : (start.expire start.now).now = start.now := Nat.max_self _
      refine ⟨congrArg some hnow.symm, ?_, ?_, ?_⟩
      · rw [hnow]
        exact hvigil.notYet
      · rw [hnow]
        exact hvigil.notBefore
      · show Surroundings.lapse _ start.shared = _
        rw [hvigil.lapse, hnow]
        exact hvigil.shared
  · refine Timeline.advance_induction (I := fun _ tl => Vigil start deadline tl)
      (fun _ _ h => h.timely) (fun _ _ h hout => h.outcome_runOut hout) ?_ () start hvigil
    intro st tl t e rest h ha hd _
    have hnext := h.arrive ha hd
    rcases hl : (tl.arrive t).look poll st with ⟨_ | a, st', tl'⟩
    · rw [hl] at hnext
      exact hnext
    · rw [hl] at hnext
      exact hnext

end Barrier

end OnboardVision
