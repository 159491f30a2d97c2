import OnboardVision.Perception.Loop
import OnboardVision.Proofs.Cadence.Deadlines
import OnboardVision.Proofs.Timeline.Waiting

/-!
# Runs of the loop

A run of the perception loop as the list of its completed iterations.

* `Cadence.At.of_await`: a wait for a deadline ends exactly there, or at once if it is past.
* `Perception.step_of_await`: once a step has woken, its outcome is the pipeline's.
* `Perception.Completes` relates a loop to the next one by one completed `Iteration`, and
  `Perception.Ran` chains them; every run of `Perception.run` is such a chain
  (`Perception.exists_ran_of_run`).
-/

namespace OnboardVision

theorem Shared.note_note {R : Type} (s : Shared R) (a b : List Note) :
    (s.note a).note b = s.note (a ++ b) := by
  have h : s.journal ++ a ++ b = s.journal ++ (a ++ b) := by
    apply Array.toList_inj.1
    simp
  simp only [Shared.note, h]

theorem Snapshot.period_pos (s : Snapshot) : 0 < s.period :=
  Nat.mul_pos (by decide) (Nat.lt_of_lt_of_le Nat.one_pos (Nat.le_max_left 1 _))

namespace Cadence

variable {E R : Type} [Surroundings E R] {c c' : Cadence} {n : ℕ} {d : Instant}
  {tl woken : Timeline E R} {w : Wakeup}

theorem await_of_sleep {deadline : Instant} (hadv : c.advance = some (deadline, c'))
    (hsleep : Run.sleepUntil deadline tl = .ok () woken) :
    c.await tl = .ok (⟨c'.frame, deadline, woken.now, woken.now - c'.lastSample⟩,
      (c'.record woken.now).2) woken := by
  rw [Cadence.await, hadv]
  exact Run.bind_of_ok hsleep

/-- A wait that ended was for the deadline after the last one, and ended exactly there, or at once
if that was past. -/
theorem At.of_await (h : c.At n d) (ha : c.await tl = .ok (w, c') woken) :
    (w.frame = n + 1 ∧ w.deadline = d + c.period ∧ w.wokeAt = woken.now ∧
      woken.now = max tl.now w.deadline) ∧
    c'.At (n + 1) w.deadline ∧ c'.period = c.period ∧ w.deadline < endOfTime := by
  cases hadv : c.advance with
  | none =>
    rw [Cadence.await, hadv] at ha
    cases ha
  | some next =>
    obtain ⟨deadline, begun⟩ := next
    obtain ⟨mid, hsleep⟩ : ∃ mid, Run.sleepUntil deadline tl = .ok () mid := by
      rw [Cadence.await, hadv] at ha
      obtain ⟨⟨⟩, mid, hsleep, -⟩ := Run.bind_eq_ok.1 ha
      exact ⟨mid, hsleep⟩
    rw [await_of_sleep hadv hsleep] at ha
    cases ha
    obtain ⟨hlt, hnow⟩ := Run.of_sleepUntil hsleep
    obtain ⟨rfl, hat, hper⟩ := h.of_advance hadv hlt
    exact ⟨⟨hat.frame_eq, rfl, rfl, hnow⟩, hat.record _, hper, hlt⟩

/-- The next wake-up comes if its deadline does. -/
theorem At.exists_await (h : c.At n d) (hd : d + c.period < endOfTime)
    (hw : tl.within (d + c.period) = true) : ∃ w c' woken, c.await tl = .ok (w, c') woken := by
  obtain ⟨begun, hadv, -, -⟩ := h.advance (Nat.le_of_lt hd)
  obtain ⟨woken, hsleep, -⟩ := Run.sleepUntil_of_lt hd hw
  exact ⟨_, _, woken, await_of_sleep hadv hsleep⟩

end Cadence

namespace Pipeline

variable {E R V S D : Type} {capacity : ℕ} [ImageSource V E R capacity] [Estimator S capacity]
  [Display D R capacity]

/-- An iteration reports the wake-up that it was given. -/
theorem wakeup_of_iterate {config : Snapshot} {w : Wakeup} {p p' : Pipeline V S D capacity}
    {tl tl' : Timeline E R} {report : Report}
    (h : p.iterate config w tl = .ok (report, p') tl') : report.wakeup = w := by
  rw [iterate] at h
  obtain ⟨_, _, -, h⟩ := Run.bind_eq_ok.1 h
  obtain ⟨_, _, -, h⟩ := Run.bind_eq_ok.1 h
  obtain ⟨_, _, -, h⟩ := Run.bind_eq_ok.1 h
  obtain ⟨_, _, -, h⟩ := Run.bind_eq_ok.1 h
  obtain ⟨_, _, -, h⟩ := Run.bind_eq_ok.1 h
  cases h
  rfl

end Pipeline

/-- A completed iteration of a running loop, with the timeline where it was called for, where it
woke and where it was done. -/
structure Iteration (E R : Type) where
  /-- The timeline that the iteration was called on. -/
  called : Timeline E R
  /-- The timeline at its wake-up. -/
  woken : Timeline E R
  /-- The timeline it left behind. -/
  done : Timeline E R
  /-- What it reported. -/
  report : Report

namespace Iteration

variable {E R : Type}

/-- The period of the snapshot published at the wake-up. -/
def period (k : Iteration E R) : Duration := k.woken.shared.snapshot.period

/-- The iteration was number `n` and due at `d`: it woke there, or at once if that was past. -/
structure WokeFor (k : Iteration E R) (n : ℕ) (d : Instant) : Prop where
  /-- The number on the report. -/
  frame_eq : k.report.wakeup.frame = n
  /-- The deadline on the report. -/
  deadline_eq : k.report.wakeup.deadline = d
  /-- The wake-up time on the report. -/
  wokeAt_eq : k.report.wakeup.wokeAt = k.woken.now
  /-- The instant of the wake-up. -/
  now_eq : k.woken.now = max k.called.now d

end Iteration

namespace Perception

variable {E R V S D : Type} {capacity : ℕ} [Surroundings E R] [ImageSource V E R capacity]
  [Estimator S capacity] [Display D R capacity]

/-- The loop `l` completes the iteration `k` and is `l'` afterwards. -/
structure Completes (l : Perception V S D capacity) (k : Iteration E R)
    (l' : Perception V S D capacity) : Prop where
  /-- The wait for the deadline ended on the timeline `k.woken`. -/
  wakes : ∃ c, l.cadence.await k.called = .ok (k.report.wakeup, c) k.woken
  /-- The whole step completed. -/
  steps : l.step k.called = .ok (k.report, l') k.done

/-- The loop completes iterations one after the other.  What happens on the timeline between one
and the next is left open. -/
inductive Ran : Perception V S D capacity → List (Iteration E R) →
    Perception V S D capacity → Prop
  | nil (l : Perception V S D capacity) : Ran l [] l
  | cons {l l' l'' : Perception V S D capacity} {k : Iteration E R} {ks : List (Iteration E R)} :
      l.Completes k l' → Ran l' ks l'' → Ran l (k :: ks) l''

variable {l l' : Perception V S D capacity} {tl tl' woken : Timeline E R} {w : Wakeup}
  {c c' : Cadence}

/-- What the journal gets at the end of an iteration. -/
def closing (c : Cadence) (w : Wakeup) : List Note :=
  if c.period ≤ w.lateness then [.overran w.frame w.lateness, .iterated w.frame w.wokeAt]
  else [.iterated w.frame w.wokeAt]

/-- Once a step has woken and the period is set, its outcome is the pipeline's. -/
theorem step_of_await (hwake : l.cadence.await tl = .ok (w, c) woken)
    (hset : c.setPeriod woken.shared.snapshot.period = some c') :
    l.step tl = match l.pipeline.iterate woken.shared.snapshot w woken with
      | .ok (report, p) tl' => .ok (report, ⟨p, c'⟩)
          { tl' with shared := tl'.shared.note (closing c' w) }
      | .error e tl' => .error e tl' := by
  rw [step, Run.bind_of_ok hwake]
  simp only [Run.bind_of_ok (Run.shared_apply woken), hset]
  cases hit : l.pipeline.iterate woken.shared.snapshot w woken with
  | error e tl₁ => simp only [Run.bind_of_error hit]
  | ok r tl₁ =>
    simp only [Run.bind_of_ok hit, closing]
    split
    · simp only [Run.bind_of_ok (Run.note_apply _ _), Run.pure_apply, Shared.note_note,
        List.singleton_append]
    · simp only [Run.bind_of_ok (Run.note_apply _ _), Run.pure_apply]

theorem step_of_setPeriod_eq_none (hwake : l.cadence.await tl = .ok (w, c) woken)
    (hset : c.setPeriod woken.shared.snapshot.period = none) :
    l.step tl = .error .clockOverflow woken := by
  rw [step, Run.bind_of_ok hwake]
  simp only [Run.bind_of_ok (Run.shared_apply woken), hset]
  rfl

theorem Completes.spec {k : Iteration E R} (h : l.Completes k l') :
    ∃ c, l.cadence.await k.called = .ok (k.report.wakeup, c) k.woken ∧
      c.setPeriod k.period = some l'.cadence := by
  obtain ⟨c, hwake⟩ := h.wakes
  have hstep := h.steps
  refine ⟨c, hwake, ?_⟩
  cases hset : c.setPeriod k.period with
  | none =>
    rw [step_of_setPeriod_eq_none hwake hset] at hstep
    cases hstep
  | some c' =>
    rw [step_of_await hwake hset] at hstep
    split at hstep
    · simp only [EStateM.Result.ok.injEq, Prod.mk.injEq] at hstep
      rw [← hstep.1.2]
    · cases hstep

/-- Every completed step is a completed iteration. -/
theorem exists_completes {report : Report} (h : l.step tl = .ok (report, l') tl') :
    ∃ woken, l.Completes ⟨tl, woken, tl', report⟩ l' := by
  have hstep := h
  rw [step] at h
  obtain ⟨⟨w, c⟩, woken, hwake, -⟩ := Run.bind_eq_ok.1 h
  refine ⟨woken, ⟨c, ?_⟩, hstep⟩
  cases hset : c.setPeriod woken.shared.snapshot.period with
  | none =>
    rw [step_of_setPeriod_eq_none hwake hset] at hstep
    cases hstep
  | some c' =>
    rw [step_of_await hwake hset] at hstep
    split at hstep
    · rename_i hit
      have hw := Pipeline.wakeup_of_iterate hit
      cases hstep
      rw [hwake, hw]
    · cases hstep

theorem completes_of_await {report : Report} (hwake : l.cadence.await tl = .ok (w, c) woken)
    (hstep : l.step tl = .ok (report, l') tl') : l.Completes ⟨tl, woken, tl', report⟩ l' := by
  obtain ⟨woken', hk⟩ := exists_completes hstep
  obtain ⟨c', hwake'⟩ := hk.wakes
  rw [hwake] at hwake'
  cases hwake'
  exact hk

/-- So many steps in a row are so many completed iterations. -/
theorem exists_ran_of_run {n : ℕ} (h : run n l tl = .ok () tl') :
    ∃ ks l', l.Ran ks l' ∧ ks.length = n := by
  induction n generalizing l tl with
  | zero => exact ⟨[], l, .nil l, rfl⟩
  | succ n ih =>
    rw [run] at h
    obtain ⟨⟨report, l₁⟩, mid, hstep, h⟩ := Run.bind_eq_ok.1 h
    obtain ⟨woken, hk⟩ := exists_completes hstep
    obtain ⟨ks, l', hran, hn⟩ := ih h
    exact ⟨_ :: ks, l', .cons hk hran, by simp [hn]⟩

end Perception

end OnboardVision
