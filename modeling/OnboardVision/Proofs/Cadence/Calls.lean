import Mathlib.Algebra.BigOperators.Group.List.Basic
import Mathlib.Algebra.Ring.Nat
import OnboardVision.Proofs.Cadence.Deadlines

/-!
# Calls of a cadence

A cadence may be called in any order: iterations begin, the period changes as often as one likes
between two of them, and wake-ups are noted with any times.  `Cadence.actAll?` makes the calls of a
list; `Cadence.periods` reads off that list alone which period each iteration had.

* `Cadence.At.actAll?`: as long as the clock reaches the exact sum of the periods, the deadlines are
  the partial sums (`Cadence.timetable`).
* `Cadence.Stands.actAll?`: whatever the calls were, the origin of a cadence that still goes on is
  a deadline that it has given out, and no deadline came before an earlier one.
* `Cadence.At.act?_advance_of_lt`: the first deadline beyond the clock does not exist, or it is the end
  of the clock if the cadence counts from zero.
-/

namespace OnboardVision

namespace Cadence

/-- A call of a cadence. -/
inductive Call where
  /-- The next iteration begins. -/
  | advance
  /-- The period changes. -/
  | setPeriod (period : Duration)
  /-- A wake-up is noted. -/
  | record (now : Instant)
  deriving DecidableEq, Repr

/-- Makes a call, and gives the number and the deadline of the iteration that it begins, if it
begins one. -/
def act? (c : Cadence) : Call → Option (List (ℕ × Instant) × Cadence)
  | .advance => c.advance.map fun (deadline, c) => ([(c.frame, deadline)], c)
  | .setPeriod period => (c.setPeriod period).map ([], ·)
  | .record now => some ([], (c.record now).2)

/-- Makes calls in their order, and gives the numbers and deadlines of all iterations that begin.
There is no result if one of the calls needs a deadline that does not exist. -/
def actAll? (c : Cadence) : List Call → Option (List (ℕ × Instant) × Cadence)
  | [] => some ([], c)
  | call :: calls => do
    let (given, c) ← c.act? call
    let (later, c) ← c.actAll? calls
    return (given ++ later, c)

/-- The periods of the iterations that calls begin, if `period` is in force before them. -/
def periods (period : Duration) : List Call → List Duration
  | [] => []
  | .advance :: calls => period :: periods period calls
  | .setPeriod period :: calls => periods period calls
  | .record _ :: calls => periods period calls

/-- The iterations after the one with number `n` and deadline `d`, if they have these periods. -/
def timetable (n : ℕ) (d : Instant) : List Duration → List (ℕ × Instant)
  | [] => []
  | p :: ps => (n + 1, d + p) :: timetable (n + 1) (d + p) ps

/-- Every iteration that a cadence knows of, with the origin in the place of iteration zero. -/
def slots (origin : Instant) (given : List (ℕ × Instant)) : List (ℕ × Instant) :=
  (0, origin) :: given

variable {c c' : Cadence} {n : ℕ} {d origin : Instant} {call : Call} {calls : List Call}
  {given later : List (ℕ × Instant)}

theorem actAll?_cons_eq_some_iff : c.actAll? (call :: calls) = some (given, c') ↔
    ∃ now mid later, c.act? call = some (now, mid) ∧ mid.actAll? calls = some (later, c') ∧
      given = now ++ later := by
  simp only [actAll?, Option.bind_eq_bind, Option.bind_eq_some_iff, Option.pure_def,
    Option.some.injEq, Prod.mk.injEq, Prod.exists]
  constructor
  · rintro ⟨now, mid, hcall, later, c'', hcalls, rfl, rfl⟩
    exact ⟨now, mid, later, hcall, hcalls, rfl⟩
  · rintro ⟨now, mid, later, hcall, hcalls, rfl⟩
    exact ⟨now, mid, hcall, later, c', hcalls, rfl, rfl⟩

/-! ### The timetable -/

theorem length_timetable (n : ℕ) (d : Instant) (ps : List Duration) :
    (timetable n d ps).length = ps.length := by
  induction ps generalizing n d with
  | nil => rfl
  | cons p ps ih => simp [timetable, ih]

/-- A deadline is the exact sum of the periods up to it. -/
theorem getElem_timetable (n : ℕ) (d : Instant) (ps : List Duration) (i : ℕ)
    (hi : i < (timetable n d ps).length) :
    (timetable n d ps)[i] = (n + i + 1, d + (ps.take (i + 1)).sum) := by
  induction ps generalizing n d i with
  | nil => cases hi
  | cons p ps ih =>
    cases i with
    | zero => simp [timetable]
    | succ i =>
      have hrest := ih (n + 1) (d + p) i (by simpa [timetable] using hi)
      simp only [timetable, List.getElem_cons_succ, hrest, List.take_succ_cons, List.sum_cons]
      rw [Nat.add_right_comm n 1 i, Nat.add_assoc n i 1, Nat.add_assoc d p]

theorem lt_of_mem_timetable {ps : List Duration} (hpos : ∀ p ∈ ps, 0 < p) (x : ℕ × Instant)
    (hx : x ∈ timetable n d ps) : d < x.2 := by
  induction ps generalizing n d with
  | nil => cases hx
  | cons p ps ih =>
    have hp : 0 < p := hpos p List.mem_cons_self
    rcases List.mem_cons.1 hx with rfl | hx
    · exact Nat.lt_add_of_pos_right hp
    · have := ih (fun q hq => hpos q (List.mem_cons_of_mem p hq)) hx
      exact Nat.lt_trans (Nat.lt_add_of_pos_right hp) this

/-- With positive periods all deadlines are different. -/
theorem pairwise_timetable {ps : List Duration} (hpos : ∀ p ∈ ps, 0 < p) :
    ((n, d) :: timetable n d ps).Pairwise (·.2 < ·.2) := by
  induction ps generalizing n d with
  | nil => exact List.pairwise_singleton _ _
  | cons p ps ih =>
    refine List.pairwise_cons.2 ⟨fun x hx => lt_of_mem_timetable hpos x hx, ?_⟩
    exact ih fun q hq => hpos q (List.mem_cons_of_mem p hq)

/-! ### Exact deadlines -/

/-- As long as the clock reaches the sum of the periods, every call has a result, and the deadlines
are the sums. -/
theorem At.actAll? (h : c.At n d) (hsum : d + (periods c.period calls).sum ≤ endOfTime) :
    ∃ c', c.actAll? calls = some (timetable n d (periods c.period calls), c') ∧
      c'.At (n + (periods c.period calls).length) (d + (periods c.period calls).sum) ∧
      ∀ more, periods c.period (calls ++ more) =
        periods c.period calls ++ periods c'.period more := by
  induction calls generalizing c n d with
  | nil => exact ⟨c, rfl, h, fun more => rfl⟩
  | cons call calls ih =>
    cases call with
    | advance =>
      rw [periods, List.sum_cons, ← Nat.add_assoc] at hsum
      obtain ⟨c₁, hadv, hat, hper⟩ := h.advance (Nat.le_trans (Nat.le_add_right _ _) hsum)
      rw [← hper] at hsum hat
      obtain ⟨c', hall, hat', hmore⟩ := ih hat hsum
      have hact : c.act? .advance = some ([(n + 1, d + c.period)], c₁) := by
        simp [act?, hadv, hat.frame_eq]
      refine ⟨c', ?_, ?_, fun more => ?_⟩
      · refine actAll?_cons_eq_some_iff.2 ⟨_, c₁, _, hact, hall, ?_⟩
        rw [periods, timetable, hper]
        rfl
      · rw [periods, List.length_cons, List.sum_cons, ← Nat.add_assoc d, ← hper,
          Nat.add_comm (List.length _) 1, ← Nat.add_assoc n]
        exact hat'
      · have := hmore more
        rw [hper] at this
        rw [List.cons_append, periods, periods, this, List.cons_append]
    | setPeriod p =>
      obtain ⟨c₁, hset, hat, hper⟩ := h.setPeriod (Nat.le_trans (Nat.le_add_right _ _) hsum) p
      rw [periods, ← hper] at hsum
      obtain ⟨c', hall, hat', hmore⟩ := ih hat hsum
      have hact : c.act? (.setPeriod p) = some ([], c₁) := by
        rw [act?, hset, Option.map_some]
      rw [hper] at hall hat' hmore
      exact ⟨c', actAll?_cons_eq_some_iff.2 ⟨_, c₁, _, hact, hall, rfl⟩, hat', hmore⟩
    | record now =>
      obtain ⟨c', hall, hat', hmore⟩ := ih (c := (c.record now).2) (h.record now) hsum
      exact ⟨c', actAll?_cons_eq_some_iff.2 ⟨_, _, _, rfl, hall, rfl⟩, hat', hmore⟩

/-- An instant beyond the clock, counted with a distance that is cut off at the end of the clock. -/
theorem later?_min_of_lt {t : Instant} {d : Duration} (h : endOfTime < t + d) :
    t.later? (min d endOfTime) = if t = 0 then some endOfTime else none := by
  rw [Instant.later?]
  unfold Instant Duration at *
  rcases Nat.le_total d endOfTime with hle | hle
  · rw [Nat.min_eq_left hle, if_neg (by omega), if_neg (by omega)]
  · rw [Nat.min_eq_right hle]
    by_cases hzero : t = 0
    · rw [if_pos hzero, hzero, Nat.zero_add, if_pos (Nat.le_refl _)]
    · rw [if_neg hzero, if_neg (by omega)]

/-- A deadline beyond the clock does not exist, or it is the end of the clock if the cadence counts
from zero. -/
theorem At.act?_advance_of_lt (h : c.At n d) (hsum : endOfTime < d + c.period) :
    c.act? .advance =
      if c.origin = 0 then some ([(n + 1, endOfTime)], { c with frame := n + 1 }) else none := by
  have hframe := h.frame_eq
  have hexact := h.next.deadline_eq
  dsimp only at hexact
  rw [← hexact] at hsum
  have hdue : { c with frame := n + 1 }.deadline? (n + 1) =
      if c.origin = 0 then some endOfTime else none := later?_min_of_lt hsum
  rw [act?, Cadence.advance, hframe, hdue]
  split <;> rfl

/-! ### What holds of any calls -/

/-- Where a cadence stands that was started at `origin` and has begun the iterations `given`. -/
structure Stands (c : Cadence) (origin : Instant) (given : List (ℕ × Instant)) : Prop where
  /-- Iterations are numbered from one on. -/
  numbers : (slots origin given).map Prod.fst = List.range (c.frame + 1)
  /-- The origin of a cadence is the deadline of the iteration that it belongs to. -/
  origin_mem : (slots origin given)[c.originFrame]? = some (c.originFrame, c.origin)
  /-- That iteration has begun. -/
  originFrame_le : c.originFrame ≤ c.frame
  /-- It shares its deadline with those before it. -/
  deadline?_of_le : ∀ m ≤ c.originFrame, c.deadline? m = some c.origin
  /-- The deadline of the last iteration is still the one that was given out. -/
  deadline?_frame : ∃ e, c.deadline? c.frame = some e ∧
    (slots origin given)[c.frame]? = some (c.frame, e) ∧ ∀ x ∈ slots origin given, x.2 ≤ e
  /-- No deadline came before an earlier one. -/
  sorted : (slots origin given).Pairwise (·.2 ≤ ·.2)

theorem deadline?_le_deadline? {m m' : ℕ} {e e' : Instant} (hm : m ≤ m')
    (h : c.deadline? m = some e) (h' : c.deadline? m' = some e') : e ≤ e' := by
  rw [deadline?, Instant.later?, Option.ite_none_right_eq_some, Option.some.injEq] at h h'
  have hle : c.period * (m - c.originFrame) ≤ c.period * (m' - c.originFrame) :=
    Nat.mul_le_mul_left _ (Nat.sub_le_sub_right hm _)
  rw [← h.2, ← h'.2]
  exact Nat.add_le_add_left (Nat.le_min_of_le_of_le (Nat.le_trans (Nat.min_le_left _ _) hle)
    (Nat.min_le_right _ _)) _

theorem le_endOfTime_of_deadline? {m : ℕ} {e : Instant} (h : c.deadline? m = some e) :
    e ≤ endOfTime := by
  rw [deadline?, Instant.later?, Option.ite_none_right_eq_some, Option.some.injEq] at h
  exact h.2 ▸ h.1

/-- The iterations up to the one that the origin belongs to have it for their deadline. -/
theorem deadline?_of_le_originFrame (ho : c.origin ≤ endOfTime) {m : ℕ} (hm : m ≤ c.originFrame) :
    c.deadline? m = some c.origin := by
  rw [deadline?, Nat.sub_eq_zero_of_le hm, Nat.mul_zero, Nat.zero_min, Instant.later?_of_le ho]
  rfl

theorem stands_start (ho : origin ≤ endOfTime) (period : Duration) :
    (start origin period).Stands origin [] where
  numbers := rfl
  origin_mem := rfl
  originFrame_le := Nat.le_refl 0
  deadline?_of_le m hm := deadline?_of_le_originFrame ho hm
  deadline?_frame := ⟨origin, deadline?_of_le_originFrame ho (Nat.le_refl 0), rfl, by simp [slots]⟩
  sorted := List.pairwise_singleton _ _

theorem Stands.length_eq (h : c.Stands origin given) : (slots origin given).length = c.frame + 1 := by
  have := congrArg List.length h.numbers
  rwa [List.length_map, List.length_range] at this

theorem Stands.advance {e : Instant} (h : c.Stands origin given)
    (ha : c.advance = some (e, c')) : c'.Stands origin (given ++ [(c'.frame, e)]) := by
  simp only [Cadence.advance, Option.map_eq_some_iff, Prod.mk.injEq] at ha
  obtain ⟨e', hdue, rfl, rfl⟩ := ha
  obtain ⟨last, hlast, -, hall⟩ := h.deadline?_frame
  have hle : last ≤ e' := deadline?_le_deadline? (Nat.le_succ c.frame) hlast hdue
  have hall' : ∀ x ∈ slots origin given, x.2 ≤ e' := fun x hx => Nat.le_trans (hall x hx) hle
  have hslots : slots origin (given ++ [(c.frame + 1, e')]) =
      slots origin given ++ [(c.frame + 1, e')] := rfl
  refine ⟨?_, ?_, Nat.le_succ_of_le h.originFrame_le, h.deadline?_of_le, ⟨e', hdue, ?_, ?_⟩, ?_⟩
  · rw [hslots, List.map_append, h.numbers, List.range_succ (n := c.frame + 1)]
    rfl
  · have hlt : c.originFrame < (slots origin given).length := by
      rw [h.length_eq]
      exact Nat.lt_succ_of_le h.originFrame_le
    rw [hslots, List.getElem?_append_left hlt]
    exact h.origin_mem
  · rw [hslots, List.getElem?_append_right (Nat.le_of_eq h.length_eq), h.length_eq]
    simp
  · rw [hslots]
    exact List.forall_mem_append.2 ⟨hall', by simp⟩
  · rw [hslots, List.pairwise_append]
    exact ⟨h.sorted, List.pairwise_singleton _ _, by simpa using hall'⟩

theorem Stands.setPeriod {p : Duration} (h : c.Stands origin given)
    (hs : c.setPeriod p = some c') : c'.Stands origin given := by
  rw [Cadence.setPeriod] at hs
  split at hs
  · rwa [← Option.some.inj hs]
  · simp only [Option.map_eq_some_iff] at hs
    obtain ⟨e, hdue, rfl⟩ := hs
    obtain ⟨last, hlast, hmem, hall⟩ := h.deadline?_frame
    obtain rfl : last = e := Option.some.inj (hlast.symm.trans hdue)
    have ho : last ≤ endOfTime := le_endOfTime_of_deadline? hdue
    exact
      { numbers := h.numbers
        origin_mem := hmem
        originFrame_le := Nat.le_refl _
        deadline?_of_le := fun m hm => deadline?_of_le_originFrame ho hm
        deadline?_frame := ⟨last, deadline?_of_le_originFrame ho (Nat.le_refl _), hmem, hall⟩
        sorted := h.sorted }

theorem Stands.act? {now : List (ℕ × Instant)} (h : c.Stands origin given)
    (ha : c.act? call = some (now, c')) : c'.Stands origin (given ++ now) := by
  cases call with
  | advance =>
    simp only [Cadence.act?, Option.map_eq_some_iff, Prod.exists, Prod.mk.injEq] at ha
    obtain ⟨e, c₁, hadv, rfl, rfl⟩ := ha
    exact h.advance hadv
  | setPeriod p =>
    simp only [Cadence.act?, Option.map_eq_some_iff, Prod.mk.injEq] at ha
    obtain ⟨c₁, hset, rfl, rfl⟩ := ha
    rw [List.append_nil]
    exact h.setPeriod hset
  | record now =>
    cases ha
    rw [List.append_nil]
    exact ⟨h.numbers, h.origin_mem, h.originFrame_le, h.deadline?_of_le, h.deadline?_frame, h.sorted⟩

theorem Stands.actAll? (h : c.Stands origin given) (ha : c.actAll? calls = some (later, c')) :
    c'.Stands origin (given ++ later) := by
  induction calls generalizing c given later with
  | nil =>
    cases ha
    rwa [List.append_nil]
  | cons call calls ih =>
    obtain ⟨now, mid, rest, hcall, hcalls, rfl⟩ := actAll?_cons_eq_some_iff.1 ha
    rw [← List.append_assoc]
    exact ih (h.act? hcall) hcalls

/-- **No drift.**  Whatever calls are made of a cadence, and in whatever order: as long as the clock
reaches the exact sum of the periods, iteration `i` is due at the origin plus the sum of the periods
of the iterations up to it; the first one beyond that has no deadline, or the end of the clock if the
cadence counts from zero.  A cadence that goes on counts from a deadline that it gave out itself. -/
theorem deadlines_of_calls (horigin : origin ≤ endOfTime) (period : Duration) (calls : List Call) :
    (∀ given c, (start origin period).actAll? calls = some (given, c) → c.Stands origin given) ∧
    (origin + (periods period calls).sum ≤ endOfTime →
      ∃ given c, (start origin period).actAll? calls = some (given, c) ∧
        given.length = (periods period calls).length ∧
        (∀ i (hi : i < given.length),
          given[i] = (i + 1, origin + ((periods period calls).take (i + 1)).sum)) ∧
        ((∀ p ∈ periods period calls, 0 < p) → (slots origin given).Pairwise (·.2 < ·.2)) ∧
        (endOfTime < origin + (periods period (calls ++ [.advance])).sum →
          c.act? .advance =
            if c.origin = 0 then
              some ([(given.length + 1, endOfTime)], { c with frame := given.length + 1 })
            else none)) := by
  refine ⟨fun given c h => (stands_start horigin period).actAll? h, fun hsum => ?_⟩
  obtain ⟨c, hall, hat, hmore⟩ := (at_start origin period).actAll? hsum
  refine ⟨_, c, hall, length_timetable _ _ _, fun i hi => ?_, pairwise_timetable, fun hbeyond => ?_⟩
  · rw [getElem_timetable, Nat.zero_add]
    rfl
  · have hnext : periods period (calls ++ [.advance]) = periods period calls ++ [c.period] :=
      hmore [.advance]
    rw [hnext, List.sum_append, List.sum_singleton, ← Nat.add_assoc] at hbeyond
    have := hat.act?_advance_of_lt hbeyond
    rw [Nat.zero_add] at this
    rw [length_timetable]
    exact this

/-- The rate goes down and up again before the third iteration, and a sample is noted in between;
then it is raised, and at last no deadline is left. -/
def backAndForth : List Call :=
  [.advance, .advance, .setPeriod 20, .setPeriod 50, .record 7, .advance, .setPeriod 20, .advance,
    .setPeriod endOfTime]

theorem deadlines_of_backAndForth :
    ∃ given c, (start 1000 50).actAll? backAndForth = some (given, c) ∧
      given = [(1, 1050), (2, 1100), (3, 1150), (4, 1170)] ∧ c.Stands 1000 given ∧
      (slots 1000 given).Pairwise (·.2 < ·.2) ∧ c.act? .advance = none := by
  have horigin : (1000 : Instant) ≤ endOfTime := by decide
  obtain ⟨hstands, hexact⟩ := deadlines_of_calls horigin 50 backAndForth
  obtain ⟨given, c, hact, -, -, hstrict, hbeyond⟩ := hexact (by decide)
  have hrun : (start 1000 50).actAll? backAndForth =
      some ([(1, 1050), (2, 1100), (3, 1150), (4, 1170)], ⟨4, 1170, 4, 7, endOfTime⟩) := by rfl
  have hstand := hstands given c hact
  rw [hrun] at hact
  cases hact
  exact ⟨_, _, hrun, rfl, hstand, hstrict (by decide), hbeyond (by decide)⟩

end Cadence

end OnboardVision
