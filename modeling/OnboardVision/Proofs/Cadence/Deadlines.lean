import Mathlib.Data.List.Basic
import OnboardVision.Cadence

/-!
# Deadlines of a cadence

`Cadence.At c n d` says where a cadence stands, whatever changes of period it has been through:
`n` iterations have begun, and the last of them was due at `d`.  Starting, beginning an iteration,
changing the period and noting a wake-up each keep or move that one statement, and the next deadline
is `d` plus the period in force: nothing else of the history is left in it.
-/

namespace OnboardVision

theorem Instant.later?_of_le {t : Instant} {d : Duration} (h : t + d ≤ endOfTime) :
    t.later? d = some (t + d) := if_pos h

namespace Cadence

/-- The cadence has begun `n` iterations, and the last of them was due at `d`; before the first one
`d` is the origin of all deadlines. -/
structure At (c : Cadence) (n : ℕ) (d : Instant) : Prop where
  /-- So many iterations have begun. -/
  frame_eq : c.frame = n
  /-- The origin belongs to one of them. -/
  originFrame_le : c.originFrame ≤ n
  /-- The deadline is a whole number of periods after the origin. -/
  deadline_eq : c.origin + c.period * (n - c.originFrame) = d

variable {c c' : Cadence} {n : ℕ} {d : Instant}

theorem at_start (origin : Instant) (period : Duration) : (start origin period).At 0 origin :=
  ⟨rfl, Nat.le_refl 0, by simp [start]⟩

theorem At.record (h : c.At n d) (now : Instant) : (c.record now).2.At n d :=
  ⟨h.frame_eq, h.originFrame_le, h.deadline_eq⟩

/-- The deadline in force is given out as long as the clock reaches it. -/
theorem At.deadline? (h : c.At n d) (hd : d ≤ endOfTime) : c.deadline? n = some d := by
  have heq := h.deadline_eq
  have hle : c.period * (n - c.originFrame) ≤ endOfTime :=
    Nat.le_trans (Nat.le_add_left _ _) (heq ▸ hd)
  rw [Cadence.deadline?, Nat.min_eq_left hle, Instant.later?_of_le (heq ▸ hd), heq]

/-- A change of the period moves the origin and no deadline. -/
theorem At.setPeriod (h : c.At n d) (hd : d ≤ endOfTime) (period : Duration) :
    ∃ c', c.setPeriod period = some c' ∧ c'.At n d ∧ c'.period = period := by
  by_cases hp : period = c.period
  · exact ⟨c, if_pos hp, h, hp.symm⟩
  · refine ⟨{ c with origin := d, originFrame := c.frame, period }, ?_, ?_, rfl⟩
    · rw [Cadence.setPeriod, if_neg hp, h.frame_eq, h.deadline? hd]
      rfl
    · exact ⟨h.frame_eq, Nat.le_of_eq h.frame_eq, by simp [h.frame_eq]⟩

/-- The count of the next deadline. -/
theorem At.next (h : c.At n d) : { c with frame := c.frame + 1 }.At (n + 1) (d + c.period) where
  frame_eq := by rw [← h.frame_eq]
  originFrame_le := Nat.le_succ_of_le h.originFrame_le
  deadline_eq := by
    have hle := h.originFrame_le
    change c.origin + c.period * (n + 1 - c.originFrame) = d + c.period
    rw [Nat.succ_sub hle, Nat.mul_succ, ← h.deadline_eq, Nat.add_assoc]

/-- The next iteration is due one period after the last one. -/
theorem At.advance (h : c.At n d) (hd : d + c.period ≤ endOfTime) :
    ∃ c', c.advance = some (d + c.period, c') ∧ c'.At (n + 1) (d + c.period) ∧
      c'.period = c.period := by
  refine ⟨{ c with frame := c.frame + 1 }, ?_, h.next, rfl⟩
  have := h.next.deadline? hd
  rw [Cadence.advance, h.frame_eq]
  simp only [h.frame_eq] at this
  rw [this]
  rfl

/-- A deadline that is not the end of the clock is the exact count: the product of the period and
the iterations never was too large. -/
theorem At.of_advance {e : Instant} (h : c.At n d) (ha : c.advance = some (e, c'))
    (he : e < endOfTime) : e = d + c.period ∧ c'.At (n + 1) e ∧ c'.period = c.period := by
  simp only [Cadence.advance, Option.map_eq_some_iff, Prod.mk.injEq] at ha
  obtain ⟨e', hdue, rfl, rfl⟩ := ha
  have hn := h.next
  rw [h.frame_eq] at hdue hn ⊢
  rw [Cadence.deadline?, Instant.later?] at hdue
  split at hdue
  · obtain rfl := Option.some.inj hdue
    -- a product that was cut off would have led to the end of the clock
    have hexact : min (c.period * (n + 1 - c.originFrame)) endOfTime =
        c.period * (n + 1 - c.originFrame) := by
      refine Nat.min_eq_left (Nat.le_of_lt (Nat.lt_of_not_le fun hbig => ?_))
      rw [Nat.min_eq_right hbig] at he
      exact absurd (Nat.le_add_left _ _) (Nat.not_le_of_lt he)
    have hsum := hn.deadline_eq
    dsimp only at hsum hexact ⊢
    rw [hexact, hsum]
    exact ⟨rfl, hn, rfl⟩
  · cases hdue

end Cadence

end OnboardVision
