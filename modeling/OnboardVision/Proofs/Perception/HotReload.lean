import Mathlib
import OnboardVision.Bench.Devices
import OnboardVision.Proofs.Perception.Runs

/-!
# The cadence under hot reload

The snapshot may be replaced at any time while the loop runs.  The period that counts for the next
deadline is the one published when an iteration wakes: `Perception.deadline_eq_origin_add_periods`
gives every deadline of a run as the instant where the startup barrier ended plus the exact sum of
the periods in force, whatever the grabs, the estimator and the display took.
-/

namespace OnboardVision

namespace Perception

variable {E R V S D : Type} {capacity : ℕ} [Surroundings E R] [ImageSource V E R capacity]
  [Estimator S capacity] [Display D R capacity]

variable {l l' : Perception V S D capacity} {tl tl' : Timeline E R}

/-! ### Deadlines of a run -/

/-- The deadline of the iteration `i` after one that was due at `d`, with the periods in force
from then on. -/
def due (d : Instant) (periods : List Duration) (i : ℕ) : Instant := d + (periods.take i).sum

theorem due_cons (d : Instant) (p : Duration) (ps : List Duration) (i : ℕ) :
    due d (p :: ps) (i + 1) = due (d + p) ps i := by
  simp [due, Nat.add_assoc]

/-- The periods in force in a run of the loop: the one it had, and then those published at each
wake-up. -/
def periods (l : Perception V S D capacity) (ks : List (Iteration E R)) : List Duration :=
  l.cadence.period :: ks.map Iteration.period

omit [Surroundings E R] [ImageSource V E R capacity] [Estimator S capacity]
  [Display D R capacity] in
theorem periods_cons {k : Iteration E R} {ks : List (Iteration E R)}
    (h : l'.cadence.period = k.period) :
    l.periods (k :: ks) = l.cadence.period :: l'.periods ks := by
  simp [periods, h]

theorem Completes.wokeFor {k : Iteration E R} {n : ℕ} {d : Instant} (h : l.Completes k l')
    (hat : l.cadence.At n d) :
    k.WokeFor (n + 1) (d + l.cadence.period) ∧
      l'.cadence.At (n + 1) (d + l.cadence.period) ∧ l'.cadence.period = k.period := by
  obtain ⟨c, hwake, hset⟩ := h.spec
  obtain ⟨⟨hframe, hdue, hwoke, hnow⟩, hat', hper, hlt⟩ := hat.of_await hwake
  obtain ⟨c', hset', hat'', hper'⟩ := hat'.setPeriod (Nat.le_of_lt hlt) k.period
  obtain rfl : c' = l'.cadence := Option.some.inj (hset'.symm.trans hset)
  rw [hdue] at hat'' hnow
  exact ⟨⟨hframe, hdue, hwoke, hnow⟩, hat'', hper'⟩

/-- Every iteration of a run woke for its own number and deadline. -/
theorem Ran.wokeFor {ks : List (Iteration E R)} {n : ℕ} {d : Instant} (h : l.Ran ks l')
    (hat : l.cadence.At n d) (i : ℕ) (hi : i < ks.length) :
    ks[i].WokeFor (n + i + 1) (due d (l.periods ks) (i + 1)) := by
  induction h generalizing n d i with
  | nil l => cases hi
  | cons hk hran ih =>
    obtain ⟨hwoke, hat₁, hper⟩ := hk.wokeFor hat
    -- the others count from the first one's deadline, with the period read at its wake-up
    rw [periods_cons hper, due_cons]
    cases i with
    | zero => simpa [due] using hwoke
    | succ i =>
      have := ih hat₁ i (by simpa using hi)
      rwa [Nat.add_right_comm n 1 i] at this

/-- Where a run leaves the cadence. -/
theorem Ran.at {ks : List (Iteration E R)} {n : ℕ} {d : Instant} (h : l.Ran ks l')
    (hat : l.cadence.At n d) :
    l'.cadence.At (n + ks.length) (due d (l.periods ks) ks.length) ∧
      due d (l.periods ks) ks.length + l'.cadence.period =
        due d (l.periods ks) (ks.length + 1) := by
  induction h generalizing n d with
  | nil l => exact ⟨by simpa [due] using hat, by simp [due, periods]⟩
  | @cons _ _ _ _ ks hk hran ih =>
    obtain ⟨-, hat₁, hper⟩ := hk.wokeFor hat
    have hlen : n + (ks.length + 1) = n + 1 + ks.length := Nat.add_right_comm n ks.length 1
    rw [periods_cons hper, List.length_cons, hlen, due_cons, due_cons]
    exact ih hat₁

theorem due_succ {d : Instant} {ps : List Duration} {i : ℕ} (hi : i < ps.length) :
    due d ps (i + 1) = due d ps i + ps[i] := by
  rw [due, List.sum_take_succ ps i hi, ← Nat.add_assoc]
  rfl

/-- Deadlines with positive periods between them are all different. -/
theorem due_lt_due {d : Instant} {ps : List Duration} (hpos : ∀ p ∈ ps, 0 < p) {i j : ℕ}
    (hij : i < j) (hj : j ≤ ps.length) : due d ps i < due d ps j := by
  induction j with
  | zero => cases hij
  | succ j ih =>
    have hstep : due d ps j < due d ps (j + 1) := by
      rw [due_succ hj]
      exact Nat.lt_add_of_pos_right (hpos _ (List.getElem_mem hj))
    rcases Nat.lt_succ_iff_lt_or_eq.1 hij with h | rfl
    · exact Nat.lt_trans (ih h (Nat.le_of_succ_le hj)) hstep
    · exact hstep

/-- The next step of a loop wakes if the clock reaches its deadline, and completes if its iteration
does. -/
theorem exists_completes_of_at {n : ℕ} {d : Instant} (hat : l.cadence.At n d)
    (hd : d + l.cadence.period < endOfTime) (hw : tl.within (d + l.cadence.period) = true) :
    ∃ w c woken, l.cadence.await tl = .ok (w, c) woken ∧
      ∀ report p after, l.pipeline.iterate woken.shared.snapshot w woken = .ok (report, p) after →
        ∃ done l', l.Completes ⟨tl, woken, done, report⟩ l' := by
  obtain ⟨w, c, woken, hwake⟩ := hat.exists_await hd hw
  refine ⟨w, c, woken, hwake, fun report p after hit => ?_⟩
  obtain ⟨-, hat', -, hlt⟩ := hat.of_await hwake
  obtain ⟨c', hset, -, -⟩ := hat'.setPeriod (Nat.le_of_lt hlt) woken.shared.snapshot.period
  have hstep := step_of_await hwake hset
  rw [hit] at hstep
  have hw := Pipeline.wakeup_of_iterate hit
  exact ⟨_, _, ⟨c, by rw [hwake, hw]⟩, hstep⟩

omit [Estimator S capacity] [Display D R capacity] in
/-- A start sizes the capture and waits at the barrier; the cadence begins where that wait
ended. -/
theorem of_start {p : Pipeline V S D capacity} (h : start p tl = .ok l tl') :
    ∃ p' sized verdict ended, p.applyGeometry tl.shared.snapshot tl = .ok p' sized ∧
      Barrier.wait tl.shared.snapshot.syncTimeout sized = .ok verdict ended ∧
      l.cadence = .start ended.now ended.shared.snapshot.period := by
  rw [start, Run.bind_of_ok (Run.shared_apply tl)] at h
  obtain ⟨p', sized, hsize, h⟩ := Run.bind_eq_ok.1 h
  obtain ⟨verdict, ended, hwait, h⟩ := Run.bind_eq_ok.1 h
  refine ⟨p', sized, verdict, ended, hsize, hwait, ?_⟩
  cases verdict with
  | ok a =>
    cases h
    rfl
  | error e =>
    cases h
    rfl

/-- **The cadence under hot reload.**  The deadlines of a run are the instant where the barrier
ended plus the sums of the periods in force, one for each iteration, read when the one before it
woke; and the next iteration comes as long as the clock reaches its deadline. -/
theorem deadline_eq_origin_add_periods {p : Pipeline V S D capacity} {ks : List (Iteration E R)}
    {begun : Timeline E R} (hstart : start p tl = .ok l begun) (hran : l.Ran ks l') :
    ∃ p' sized verdict ended, p.applyGeometry tl.shared.snapshot tl = .ok p' sized ∧
      Barrier.wait tl.shared.snapshot.syncTimeout sized = .ok verdict ended ∧
      let periods := ended.shared.snapshot.period :: ks.map Iteration.period
      let deadline := due ended.now periods
      deadline 1 = ended.now + ended.shared.snapshot.period ∧
      (∀ i (hi : i < ks.length), ks[i].WokeFor (i + 1) (deadline (i + 1)) ∧
        deadline (i + 2) = deadline (i + 1) + ks[i].period) ∧
      (∀ i j, i < j → j ≤ ks.length + 1 → deadline i < deadline j) ∧
      ∀ next, deadline (ks.length + 1) < endOfTime →
        next.within (deadline (ks.length + 1)) = true →
        ∃ w c woken, l'.cadence.await next = .ok (w, c) woken ∧ w.frame = ks.length + 1 ∧
          w.deadline = deadline (ks.length + 1) ∧
          ∀ report p after,
            l'.pipeline.iterate woken.shared.snapshot w woken = .ok (report, p) after →
            ∃ done l'', l'.Completes ⟨next, woken, done, report⟩ l'' := by
  obtain ⟨p', sized, verdict, ended, hsize, hwait, hc⟩ := of_start hstart
  refine ⟨p', sized, verdict, ended, hsize, hwait, ?_⟩
  have hat : l.cadence.At 0 ended.now := hc ▸ Cadence.at_start _ _
  have hper : l.periods ks = ended.shared.snapshot.period :: ks.map Iteration.period := by
    rw [periods, hc]
    rfl
  obtain ⟨hat', hnext⟩ := hran.at hat
  have hwoke := hran.wokeFor hat
  rw [hper] at hat' hnext hwoke
  simp only [Nat.zero_add] at hat' hwoke
  refine ⟨by simp [due], fun i hi => ⟨hwoke i hi, ?_⟩,
    fun i j hij hj => due_lt_due ?_ hij (by simpa using hj), fun next hd hw => ?_⟩
  · rw [due_succ (by simpa using hi)]
    simp
  · intro q hq
    simp only [List.mem_cons, List.mem_map] at hq
    rcases hq with rfl | ⟨k, -, rfl⟩
    · exact Snapshot.period_pos _
    · exact Snapshot.period_pos _
  · rw [← hnext] at hd hw ⊢
    obtain ⟨w, c, woken, hwake, hdone⟩ := exists_completes_of_at hat' hd hw
    obtain ⟨⟨hframe, hdue, -, -⟩, -, -, -⟩ := hat'.of_await hwake
    exact ⟨w, c, woken, hwake, hframe, hdue, hdone⟩

/-- An edit of the frame rate comes in at 40 ms. -/
def hastened : Bench.Scene where
  agenda := [(10, .telemetry (.attitude { pitch := 5 })), (40000, .edit { rate := some 100 })]
  shared := { hub := { published := [⟨19200, {}⟩], slots := [.published 0] }, rig := {} }

/-- A camera that needs 40 ms for its first frame. -/
def sluggish : Bench.Devices 4 where
  video := some { script := .shots [{ delay := some 40000 }] }
  estimator := {}
  display := {}

/-- The edit falls into the first grab: the second deadline stays, although its iteration starts
late, and the third one comes at the new rate. -/
theorem deadlines_of_edit_during_grab :
    ∃ l begun ks l', start sluggish hastened = .ok l begun ∧ l.Ran ks l' ∧
      ks.map (·.report.wakeup.deadline) = [33010, 66010, 76010] ∧
      ∃ origin periods, ∀ i (hi : i < ks.length),
        ks[i].WokeFor (i + 1) (due origin periods (i + 1)) := by
  obtain ⟨l, begun, r₁, l₁, d₁, r₂, l₂, d₂, r₃, l₃, d₃, hstart, h₁, h₂, h₃, hdue⟩ :
      ∃ l begun r₁ l₁ d₁ r₂ l₂ d₂ r₃ l₃ d₃, start sluggish hastened = .ok l begun ∧
        l.step begun = .ok (r₁, l₁) d₁ ∧ l₁.step d₁ = .ok (r₂, l₂) d₂ ∧
        l₂.step d₂ = .ok (r₃, l₃) d₃ ∧
        [r₁, r₂, r₃].map (·.wakeup.deadline) = [33010, 66010, 76010] :=
    ⟨_, _, _, _, _, _, _, _, _, _, _, rfl, rfl, rfl, rfl, rfl⟩
  obtain ⟨w₁, hk₁⟩ := exists_completes h₁
  obtain ⟨w₂, hk₂⟩ := exists_completes h₂
  obtain ⟨w₃, hk₃⟩ := exists_completes h₃
  have hran := Ran.cons hk₁ (.cons hk₂ (.cons hk₃ (.nil l₃)))
  obtain ⟨_, _, _, ended, -, -, -, hwoke, -⟩ := deadline_eq_origin_add_periods hstart hran
  exact ⟨l, begun, _, l₃, hstart, hran, hdue, _, _, fun i hi => (hwoke i hi).1⟩

end Perception

end OnboardVision
