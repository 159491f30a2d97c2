import Mathlib.Algebra.BigOperators.Group.List.Basic
import Mathlib.Algebra.Ring.Nat
import Mathlib.Order.Nat
import OnboardVision.Bench.Scene
import OnboardVision.Proofs.Perception.Runs

/-!
# Lateness

A cadence that waits for one deadline after the other, with work of any length and changes of the
period in between.  `Cadence.Waits` is such a run, and `Cadence.Wait.Follows` is all that one wait
does: it wakes at its deadline, or at once if that is past, and what it is late by is what the last
one was late by plus the work minus the time between the deadlines.

From that one recurrence `Cadence.lateness_of_waits` has what overruns lead to: lateness does not
grow while the work fits into the periods, and it runs out while the work leaves time.
-/

namespace OnboardVision

namespace Cadence

variable {E R : Type} [Surroundings E R]

/-- Changes the period several times. -/
def setPeriods (c : Cadence) (ps : List Duration) : Option Cadence := ps.foldlM setPeriod c

/-- A wait for a deadline that ended. -/
structure Wait (E R : Type) where
  /-- The cadence that waits. -/
  cadence : Cadence
  /-- The timeline when the wait began. -/
  called : Timeline E R
  /-- The timeline when it ended. -/
  woken : Timeline E R
  /-- The wake-up. -/
  wakeup : Wakeup

/-- `c.Waits now ks c' now'`: the cadence `c` at the instant `now` waits for its next deadlines one
after the other, and is `c'` at the instant `now'` behind that.  Between two waits the period may
change, and time passes. -/
inductive Waits : Cadence → Instant → List (Wait E R) → Cadence → Instant → Prop
  | nil (c : Cadence) (now : Instant) : Waits c now [] c now
  | cons {c c' c'' : Cadence} {now now' : Instant} {ps : List Duration} {k : Wait E R}
      {ks : List (Wait E R)} :
      c.setPeriods ps = some k.cadence → now ≤ k.called.now →
      k.cadence.await k.called = .ok (k.wakeup, c') k.woken →
      Waits c' k.woken.now ks c'' now' → Waits c now (k :: ks) c'' now'

/-- The origin as a wake-up on time. -/
def originWakeup (origin : Instant) : Wakeup :=
  { frame := 0, deadline := origin, wokeAt := origin, elapsed := 0 }

/-- Wake-up number `i` of a run that comes after the wake-up `w`, which is number zero. -/
def wakeupAt (w : Wakeup) : List (Wait E R) → ℕ → Wakeup
  | k :: ks, i + 1 => wakeupAt k.wakeup ks i
  | _, _ => w

namespace Wait

/-- The time between the wake-up `w` and the beginning of the wait. -/
def cost (k : Wait E R) (w : Wakeup) : Duration := k.called.now - w.wokeAt

/-- The wait came after the wake-up `w`. -/
structure Follows (k : Wait E R) (w : Wakeup) : Prop where
  /-- No iteration is skipped. -/
  frame_eq : k.wakeup.frame = w.frame + 1
  /-- Its deadline is one period after the last one. -/
  deadline_eq : k.wakeup.deadline = w.deadline + k.cadence.period
  /-- It ended there, or at once if that was past. -/
  wokeAt_eq : k.wakeup.wokeAt = max k.wakeup.deadline k.called.now
  /-- The time between the wake-ups is exact. -/
  elapsed_eq : k.wakeup.wokeAt = w.wokeAt + k.wakeup.elapsed
  /-- What the last one was late by and the work since then, less the time between the deadlines. -/
  lateness_eq : (k.wakeup.lateness : ℤ) =
    max 0 ((w.lateness : ℤ) + (k.cost w : ℤ) - ((k.wakeup.deadline : ℤ) - (w.deadline : ℤ)))

variable {k : Wait E R} {w : Wakeup}

omit [Surroundings E R] in
/-- With work that fits into the period lateness does not grow. -/
theorem Follows.lateness_le (h : k.Follows w) (hcost : k.cost w ≤ k.cadence.period) :
    k.wakeup.lateness ≤ w.lateness := by
  have hlate := h.lateness_eq
  rw [h.deadline_eq] at hlate
  unfold Instant Duration at *
  omega

omit [Surroundings E R] in
/-- With work that leaves time lateness shrinks. -/
theorem Follows.lateness_le_sub (h : k.Follows w) (hcost : k.cost w < k.cadence.period) :
    k.wakeup.lateness ≤ w.lateness - 1 := by
  have hlate := h.lateness_eq
  rw [h.deadline_eq] at hlate
  unfold Instant Duration at *
  omega

end Wait

/-! ### One wait -/

/-- The cadence woke last for `w`, and the clock has come to `now` since then. -/
structure After (c : Cadence) (w : Wakeup) (now : Instant) : Prop where
  /-- It counts from that iteration on. -/
  stands : c.At w.frame w.deadline
  /-- It has noted the wake-up. -/
  lastSample_eq : c.lastSample = w.wokeAt
  /-- Nobody wakes before a deadline. -/
  onTime : w.deadline ≤ w.wokeAt
  /-- The wake-up is past, or it is the origin. -/
  past : w.wokeAt ≤ now ∨ w.wokeAt = w.deadline
  /-- The clock reaches the deadline. -/
  deadline_le : w.deadline ≤ endOfTime

variable {c c' : Cadence} {now now' : Instant} {w : Wakeup}

theorem after_start {origin : Instant} (horigin : origin ≤ endOfTime) (period : Duration)
    (now : Instant) : (start origin period).After (originWakeup origin) now :=
  ⟨at_start origin period, rfl, Nat.le_refl _, .inr rfl, horigin⟩

theorem lastSample_of_setPeriod {p : Duration} (h : c.setPeriod p = some c') :
    c'.lastSample = c.lastSample := by
  rw [setPeriod] at h
  split at h
  · rw [Option.some.inj h]
  · obtain ⟨d, -, rfl⟩ := Option.map_eq_some_iff.1 h
    rfl

/-- Changes of the period between two waits move no deadline, and the last one counts. -/
theorem After.setPeriods (h : c.After w now) (ps : List Duration) :
    ∃ c', c.setPeriods ps = some c' ∧ c'.After w now ∧
      c'.period = ps.getLast?.getD c.period := by
  induction ps generalizing c with
  | nil => exact ⟨c, rfl, h, rfl⟩
  | cons p ps ih =>
    obtain ⟨c₁, hset, hat, hper⟩ := h.stands.setPeriod h.deadline_le p
    have hafter : c₁.After w now :=
      { h with stands := hat, lastSample_eq := (lastSample_of_setPeriod hset).trans h.lastSample_eq }
    obtain ⟨c', hrest, hafter', hper'⟩ := ih hafter
    refine ⟨c', ?_, hafter', ?_⟩
    · rw [Cadence.setPeriods, List.foldlM_cons, hset]
      exact hrest
    · rw [hper', hper, List.getLast?_cons]
      rfl

theorem sample_of_await {tl woken : Timeline E R} (h : c.await tl = .ok (w, c') woken) :
    w.elapsed = woken.now - c.lastSample ∧ c'.lastSample = woken.now := by
  cases hadv : c.advance with
  | none =>
    rw [Cadence.await, hadv] at h
    cases h
  | some next =>
    obtain ⟨deadline, begun⟩ := next
    have hbegun : begun.lastSample = c.lastSample := by
      simp only [Cadence.advance, Option.map_eq_some_iff, Prod.mk.injEq] at hadv
      obtain ⟨-, -, -, rfl⟩ := hadv
      rfl
    obtain ⟨mid, hsleep⟩ : ∃ mid, Run.sleepUntil deadline tl = .ok () mid := by
      rw [Cadence.await, hadv] at h
      obtain ⟨⟨⟩, mid, hsleep, -⟩ := Run.bind_eq_ok.1 h
      exact ⟨mid, hsleep⟩
    rw [await_of_sleep hadv hsleep, hbegun] at h
    cases h
    exact ⟨rfl, rfl⟩

/-- The lateness of a wake-up whose deadline was `due` and whose wait began at `called`, from the
wake-up before it. -/
theorem lateness_step {deadline wokeAt called due : ℕ} (honTime : deadline ≤ wokeAt)
    (hpast : wokeAt ≤ called ∨ wokeAt = deadline) (hdue : deadline ≤ due) :
    ((max due called - due : ℕ) : ℤ) =
      max 0 (((wokeAt - deadline : ℕ) : ℤ) + ((called - wokeAt : ℕ) : ℤ) -
        ((due : ℤ) - (deadline : ℤ))) := by
  omega

/-- All that one wait does. -/
theorem After.await {k : Wait E R} (h : k.cadence.After w now) (hnow : now ≤ k.called.now)
    (hwait : k.cadence.await k.called = .ok (k.wakeup, c') k.woken) :
    k.Follows w ∧ c'.After k.wakeup k.woken.now := by
  obtain ⟨⟨hframe, hdue, hwoke, hend⟩, hat, -, hlt⟩ := h.stands.of_await hwait
  obtain ⟨helapsed, hsample⟩ := sample_of_await hwait
  have hwokeAt : k.wakeup.wokeAt = max k.wakeup.deadline k.called.now := by
    rw [hwoke, hend, Nat.max_comm]
  have hle : w.deadline ≤ k.wakeup.deadline := hdue ▸ Nat.le_add_right _ _
  -- an origin ahead of the clock is no later than the deadline
  have hpast : w.wokeAt ≤ k.called.now ∨ w.wokeAt = w.deadline :=
    h.past.imp_left fun hp => Nat.le_trans hp hnow
  have hbefore : w.wokeAt ≤ k.wakeup.wokeAt := by
    rw [hwokeAt]
    rcases hpast with hp | hp
    · exact Nat.le_trans hp (Nat.le_max_right _ _)
    · rw [hp]
      exact Nat.le_trans hle (Nat.le_max_left _ _)
  refine ⟨⟨hframe, hdue, hwokeAt, ?_, ?_⟩, ?_⟩
  · rw [helapsed, h.lastSample_eq, ← hwoke]
    exact (Nat.add_sub_cancel' hbefore).symm
  · rw [Wakeup.lateness, hwokeAt]
    exact lateness_step h.onTime hpast hle
  · refine ⟨hframe ▸ hat, hsample.trans hwoke.symm, ?_, .inl (Nat.le_of_eq hwoke), Nat.le_of_lt hlt⟩
    rw [hwokeAt]
    exact Nat.le_max_left _ _

/-! ### A run of waits -/

variable {ks : List (Wait E R)}

omit [Surroundings E R] in
theorem wakeupAt_cons (w : Wakeup) (k : Wait E R) (ks : List (Wait E R)) (i : ℕ) :
    wakeupAt w (k :: ks) (i + 1) = wakeupAt k.wakeup ks i := rfl

omit [Surroundings E R] in
theorem wakeupAt_succ (w : Wakeup) (i : ℕ) (hi : i < ks.length) :
    wakeupAt w ks (i + 1) = ks[i].wakeup := by
  induction ks generalizing w i with
  | nil => cases hi
  | cons k ks ih =>
    rw [wakeupAt_cons]
    cases i with
    | zero => cases ks <;> rfl
    | succ i => exact ih k.wakeup i (Nat.lt_of_succ_lt_succ hi)

/-- Every wait of a run follows the wake-up before it. -/
theorem Waits.follows (h : c.Waits now ks c' now') (hafter : c.After w now) :
    (∀ i (hi : i < ks.length), ks[i].Follows (wakeupAt w ks i)) ∧
      c'.After (wakeupAt w ks ks.length) now' := by
  induction h generalizing w with
  | nil c now => exact ⟨fun i hi => absurd hi (Nat.not_lt_zero i), hafter⟩
  | @cons c c' c'' now now' ps k ks hset hnow hwait _ ih =>
    obtain ⟨c₁, hset', hafter₁, -⟩ := hafter.setPeriods ps
    obtain rfl : c₁ = k.cadence := Option.some.inj (hset'.symm.trans hset)
    obtain ⟨hfollows, hafter'⟩ := hafter₁.await hnow hwait
    obtain ⟨hrest, hend⟩ := ih hafter'
    refine ⟨fun i hi => ?_, hend⟩
    cases i with
    | zero => exact hfollows
    | succ i => exact hrest i (Nat.lt_of_succ_lt_succ hi)

section Trail

variable (hks : ∀ i (hi : i < ks.length), ks[i].Follows (wakeupAt w ks i))
include hks

omit [Surroundings E R] in
/-- The times between wake-ups add up. -/
theorem wokeAt_eq_add_elapsed {n : ℕ} (hn : n ≤ ks.length) :
    (wakeupAt w ks n).wokeAt = w.wokeAt + ((ks.take n).map (·.wakeup.elapsed)).sum := by
  induction n with
  | zero => cases ks <;> rfl
  | succ n ih =>
    have hstep := (hks n hn).elapsed_eq
    rw [wakeupAt_succ w n hn, hstep, ih (Nat.le_of_succ_le hn), List.take_succ_eq_append_getElem hn,
      List.map_append, List.sum_append, List.map_singleton, List.sum_singleton, Nat.add_assoc]

omit [Surroundings E R] in
/-- While the work fits into the periods, lateness does not grow. -/
theorem lateness_le_of_cost_le {i j : ℕ} (hij : i ≤ j) (hj : j ≤ ks.length)
    (hcost : ∀ m (hm : m < ks.length), i ≤ m → m < j →
      ks[m].cost (wakeupAt w ks m) ≤ ks[m].cadence.period) :
    (wakeupAt w ks j).lateness ≤ (wakeupAt w ks i).lateness := by
  induction j, hij using Nat.le_induction with
  | base => exact Nat.le_refl _
  | succ j hij ih =>
    have hstep := (hks j hj).lateness_le (hcost j hj hij (Nat.lt_succ_self j))
    rw [wakeupAt_succ w j hj]
    exact Nat.le_trans hstep <| ih (Nat.le_of_succ_le hj) fun m hm him hmj =>
      hcost m hm him (Nat.lt_succ_of_lt hmj)

omit [Surroundings E R] in
/-- While the work leaves time, lateness shrinks with every iteration until it is gone. -/
theorem lateness_le_sub_of_cost_lt {i j : ℕ} (hij : i ≤ j) (hj : j ≤ ks.length)
    (hcost : ∀ m (hm : m < ks.length), i ≤ m → m < j →
      ks[m].cost (wakeupAt w ks m) < ks[m].cadence.period) :
    (wakeupAt w ks j).lateness ≤ (wakeupAt w ks i).lateness - (j - i) := by
  induction j, hij using Nat.le_induction with
  | base => rw [Nat.sub_self, Nat.sub_zero]
  | succ j hij ih =>
    have hstep := (hks j hj).lateness_le_sub (hcost j hj hij (Nat.lt_succ_self j))
    have hbefore := ih (Nat.le_of_succ_le hj) fun m hm him hmj =>
      hcost m hm him (Nat.lt_succ_of_lt hmj)
    rw [wakeupAt_succ w j hj]
    unfold Duration at *
    omega

end Trail

/-- **Overruns and how they end.**  Each wait of a run wakes at its deadline, or at once if that is
past, and none is skipped; the times between the wake-ups add up.  Lateness follows the work: it does
not grow while the work fits into the periods, and when there is time left in each of them it is gone
after as many iterations as it has ticks, or sooner.  The run goes on as long as the clock does. -/
theorem lateness_of_waits {origin : Instant} {period : Duration} (horigin : origin ≤ endOfTime)
    (hwaits : (start origin period).Waits now ks c now') :
    let w := wakeupAt (originWakeup origin) ks
    (∀ i (hi : i < ks.length), w (i + 1) = ks[i].wakeup ∧ ks[i].Follows (w i)) ∧
    (∀ n ≤ ks.length, (w n).wokeAt = origin + ((ks.take n).map (·.wakeup.elapsed)).sum) ∧
    (∀ i j, i ≤ j → j ≤ ks.length →
      (∀ m (hm : m < ks.length), i ≤ m → m < j → ks[m].cost (w m) ≤ ks[m].cadence.period) →
      (w j).lateness ≤ (w i).lateness) ∧
    (∀ i j, i + (w i).lateness ≤ j → j ≤ ks.length →
      (∀ m (hm : m < ks.length), i ≤ m → m < j → ks[m].cost (w m) < ks[m].cadence.period) →
      (w j).lateness = 0) ∧
    ∀ ps, ∃ c₁, c.setPeriods ps = some c₁ ∧ c₁.period = ps.getLast?.getD c.period ∧
      ∀ next : Timeline E R, (w ks.length).deadline + c₁.period < endOfTime →
        next.within ((w ks.length).deadline + c₁.period) = true →
        ∃ wakeup c₂ woken, c₁.await next = .ok (wakeup, c₂) woken := by
  intro w
  obtain ⟨hfollows, hend⟩ := hwaits.follows (after_start horigin period now)
  refine ⟨fun i hi => ⟨wakeupAt_succ _ i hi, hfollows i hi⟩,
    fun n hn => wokeAt_eq_add_elapsed hfollows hn,
    fun i j hij hj hcost => lateness_le_of_cost_le hfollows hij hj hcost,
    fun i j hij hj hcost => ?_, fun ps => ?_⟩
  · have hle := lateness_le_sub_of_cost_lt hfollows (Nat.le_trans (Nat.le_add_right _ _) hij) hj hcost
    have hgone : (w i).lateness - (j - i) = 0 :=
      Nat.sub_eq_zero_of_le (Nat.le_sub_of_add_le' hij)
    exact Nat.le_zero.1 (hgone ▸ hle)
  · obtain ⟨c₁, hset, hafter, hper⟩ := hend.setPeriods ps
    exact ⟨c₁, hset, hper, fun next hlt hw => hafter.stands.exists_await hlt hw⟩

/-- A bench where nothing happens, at the instant `now`. -/
def quiet (now : Instant) : Bench.Scene := { now, shared := { rig := {} } }

/-- The second wait begins two ticks after its deadline.  Then the period goes from 10 over 5 to 20,
and work of 19 ticks leaves one tick of each. -/
def overrun : List (Wait Bench.Event Bench.Rig) :=
  [⟨⟨0, 0, 0, 0, 10⟩, quiet 0, quiet 10, ⟨1, 10, 10, 10⟩⟩,
    ⟨⟨1, 0, 0, 10, 10⟩, quiet 22, quiet 22, ⟨2, 20, 22, 12⟩⟩,
    ⟨⟨2, 20, 2, 22, 20⟩, quiet 41, quiet 41, ⟨3, 40, 41, 19⟩⟩,
    ⟨⟨3, 20, 2, 41, 20⟩, quiet 60, quiet 60, ⟨4, 60, 60, 19⟩⟩]

theorem lateness_of_overrun :
    (start 0 10).Waits 0 overrun ⟨4, 20, 2, 60, 20⟩ 60 ∧
      (wakeupAt (originWakeup 0) overrun 2).lateness = 2 ∧
      (∀ m (hm : m < overrun.length), 2 ≤ m → m < 4 →
        overrun[m].cost (wakeupAt (originWakeup 0) overrun m) < overrun[m].cadence.period) ∧
      (wakeupAt (originWakeup 0) overrun 4).lateness = 0 := by
  have hwaits : (start 0 10).Waits 0 overrun ⟨4, 20, 2, 60, 20⟩ 60 := by
    refine .cons (show setPeriods _ [] = _ from rfl) (by decide) rfl ?_
    refine .cons (show setPeriods _ [] = _ from rfl) (by decide) rfl ?_
    refine .cons (show setPeriods _ [5, 20] = _ from rfl) (by decide) rfl ?_
    exact .cons (show setPeriods _ [] = _ from rfl) (by decide) rfl (.nil _ _)
  have hcost : ∀ m (hm : m < overrun.length), 2 ≤ m → m < 4 →
      overrun[m].cost (wakeupAt (originWakeup 0) overrun m) < overrun[m].cadence.period := by
    decide
  have horigin : (0 : Instant) ≤ endOfTime := by decide
  obtain ⟨-, -, -, hgone, -⟩ := lateness_of_waits horigin hwaits
  exact ⟨hwaits, rfl, hcost, hgone 2 4 (by decide) (by decide) hcost⟩

end Cadence

end OnboardVision
