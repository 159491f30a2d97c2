import Mathlib.Data.List.Basic
import OnboardVision.Timeline

/-!
# Waiting on the timeline

What a computation on a timeline does, read off its result, and how a wait ends.

* `Run.bind_eq_ok` takes a completed computation apart; `Run.bind_of_ok` and `Run.bind_of_error`
  carry one on.
* A timeline is `Timely` if its agenda is in order and nothing on it is due.  From there a wait
  goes from one instant of the agenda to the next (`Timeline.advance_cons`): it `arrive`s, all
  events of the instant are delivered, everybody else runs, and then the poll looks.
* `Timeline.advance_induction` is the induction that every statement about a wait goes by: an
  invariant that holds whenever the poll has looked in vain.  `Timeline.wait_induction` adds the two
  looks that a wait begins with.
* `Run.sleepUntil_eq`: a sleep ends exactly at its instant, or at once if that is past.
-/

namespace OnboardVision

namespace Run

variable {E R α β : Type}

theorem bind_eq_ok {x : Run E R α} {f : α → Run E R β} {tl tl' : Timeline E R} {b : β} :
    (x >>= f) tl = .ok b tl' ↔ ∃ a mid, x tl = .ok a mid ∧ f a mid = .ok b tl' := by
  change EStateM.bind x f tl = _ ↔ _
  unfold EStateM.bind
  cases x tl with
  | ok a mid => simp
  | error e mid => simp

theorem bind_of_ok {x : Run E R α} {f : α → Run E R β} {tl mid : Timeline E R} {a : α}
    (h : x tl = .ok a mid) : (x >>= f) tl = f a mid := by
  change EStateM.bind x f tl = _
  simp only [EStateM.bind, h]

theorem bind_of_error {x : Run E R α} {f : α → Run E R β} {tl mid : Timeline E R} {e : Halt}
    (h : x tl = .error e mid) : (x >>= f) tl = .error e mid := by
  change EStateM.bind x f tl = _
  simp only [EStateM.bind, h]

@[simp] theorem pure_apply (a : α) (tl : Timeline E R) : (pure a : Run E R α) tl = .ok a tl := rfl

@[simp] theorem now_apply (tl : Timeline E R) : (now : Run E R Instant) tl = .ok tl.now tl := rfl

@[simp] theorem shared_apply (tl : Timeline E R) :
    (shared : Run E R (Shared R)) tl = .ok tl.shared tl := rfl

@[simp] theorem modifyShared_apply (f : Shared R → Shared R) (tl : Timeline E R) :
    modifyShared f tl = .ok () { tl with shared := f tl.shared } := rfl

@[simp] theorem note_apply (n : Note) (tl : Timeline E R) :
    note n tl = .ok () { tl with shared := tl.shared.note [n] } := rfl

theorem later_of_le {d : Duration} {tl : Timeline E R} (h : tl.now + d ≤ endOfTime) :
    later d tl = .ok (tl.now + d) tl := by
  rw [later, bind_of_ok (now_apply tl), Instant.later?, if_pos h]
  rfl

end Run

namespace Timeline

variable {E R σ α : Type} [Surroundings E R]

/-! ### Deliveries -/

theorem deliverDue_fst (now : Instant) (l : List (Instant × E)) (s : Shared R) :
    (deliverDue now l s).1 = l.dropWhile (·.1 ≤ now) := by
  induction l generalizing s with
  | nil => rfl
  | cons e rest ih =>
    obtain ⟨t, e⟩ := e
    by_cases ht : t ≤ now
    · simp [deliverDue, ht, ih]
    · simp [deliverDue, ht]

theorem deliverDue_snd (now : Instant) (l : List (Instant × E)) (s : Shared R) :
    (deliverDue now l s).2 =
      (l.takeWhile (·.1 ≤ now)).foldl (fun s e => Surroundings.deliver e.2 s) s := by
  induction l generalizing s with
  | nil => rfl
  | cons e rest ih =>
    obtain ⟨t, e⟩ := e
    by_cases ht : t ≤ now
    · simp [deliverDue, ht, ih]
    · simp [deliverDue, ht]

/-- The agenda is in order, and nothing on it is due. -/
structure Timely (tl : Timeline E R) : Prop where
  /-- Events come in the order of their instants. -/
  sorted : tl.agenda.Pairwise (·.1 ≤ ·.1)
  /-- Every event is still to come. -/
  ahead : ∀ e ∈ tl.agenda, tl.now < e.1

/-- The timeline at the instant `t`: what is due by then is delivered, and everybody else has
run. -/
def arrive (tl : Timeline E R) (t : Instant) : Timeline E R := { tl with now := t }.settle

@[simp] theorem settle_now (tl : Timeline E R) : tl.settle.now = tl.now := rfl

theorem settle_agenda (tl : Timeline E R) :
    tl.settle.agenda = tl.agenda.dropWhile (·.1 ≤ tl.now) := deliverDue_fst _ _ _

@[simp] theorem arrive_now (tl : Timeline E R) (t : Instant) : (tl.arrive t).now = t := rfl

theorem arrive_agenda (tl : Timeline E R) (t : Instant) :
    (tl.arrive t).agenda = tl.agenda.dropWhile (·.1 ≤ t) := deliverDue_fst _ _ _

theorem dropWhile_eq_filter {l : List (Instant × E)} (h : l.Pairwise (·.1 ≤ ·.1)) (t : Instant) :
    l.dropWhile (·.1 ≤ t) = l.filter (t < ·.1) := by
  induction l with
  | nil => rfl
  | cons e rest ih =>
    rw [List.pairwise_cons] at h
    by_cases he : e.1 ≤ t
    · have hlt : ¬ t < e.1 := Nat.not_lt_of_le he
      simp [he, hlt, ih h.2]
    · have hlt : t < e.1 := Nat.lt_of_not_le he
      have hall : ∀ x ∈ rest, t < x.1 := fun x hx => Nat.lt_of_lt_of_le hlt (h.1 x hx)
      have hrest : rest.filter (t < ·.1) = rest := List.filter_eq_self.2 (by simpa using hall)
      simp [he, hlt, hrest]

theorem takeWhile_eq_filter {l : List (Instant × E)} (h : l.Pairwise (·.1 ≤ ·.1)) (t : Instant) :
    l.takeWhile (·.1 ≤ t) = l.filter (·.1 ≤ t) := by
  induction l with
  | nil => rfl
  | cons e rest ih =>
    rw [List.pairwise_cons] at h
    by_cases he : e.1 ≤ t
    · simp [he, ih h.2]
    · have hnone : rest.filter (·.1 ≤ t) = [] := by
        refine List.filter_eq_nil_iff.2 fun x hx => ?_
        have hx' : ¬ x.1 ≤ t := fun hxt => he (Nat.le_trans (h.1 x hx) hxt)
        simpa using hx'
      simp [he, hnone]

omit [Surroundings E R] in
theorem Timely.dropWhile_agenda {tl : Timeline E R} (h : tl.Timely) :
    tl.agenda.dropWhile (·.1 ≤ tl.now) = tl.agenda := by
  rw [dropWhile_eq_filter h.sorted]
  exact List.filter_eq_self.2 fun e he => decide_eq_true (h.ahead e he)

omit [Surroundings E R] in
theorem Timely.takeWhile_agenda {tl : Timeline E R} (h : tl.Timely) {t : Instant}
    (ht : ∀ e ∈ tl.agenda, t < e.1) : tl.agenda.takeWhile (·.1 ≤ t) = [] := by
  rw [takeWhile_eq_filter h.sorted]
  refine List.filter_eq_nil_iff.2 fun e he => ?_
  simpa using ht e he

theorem dropWhile_dropWhile {l : List (Instant × E)} (h : l.Pairwise (·.1 ≤ ·.1)) {t u : Instant}
    (htu : t ≤ u) : (l.dropWhile (·.1 ≤ t)).dropWhile (·.1 ≤ u) = l.dropWhile (·.1 ≤ u) := by
  rw [dropWhile_eq_filter h, dropWhile_eq_filter (h.filter _), dropWhile_eq_filter h,
    List.filter_filter]
  refine List.filter_congr fun x _ => ?_
  show (decide (u < x.1) && decide (t < x.1)) = decide (u < x.1)
  by_cases hx : u < x.1
  · have := Nat.lt_of_le_of_lt htu hx
    simp [hx, this]
  · simp [hx]

theorem timely_settle {tl : Timeline E R} (h : tl.agenda.Pairwise (·.1 ≤ ·.1)) :
    tl.settle.Timely where
  sorted := by
    rw [settle_agenda]
    exact h.sublist (List.dropWhile_sublist _)
  ahead := by
    intro e he
    rw [settle_agenda, dropWhile_eq_filter h] at he
    exact of_decide_eq_true (List.mem_filter.1 he).2

theorem Timely.arrive {tl : Timeline E R} (h : tl.Timely) (t : Instant) : (tl.arrive t).Timely :=
  timely_settle h.sorted

/-! ### Going through the agenda -/

omit [Surroundings E R] in
theorem agenda_of_look {poll : Poll σ α R} {st st' : σ} {tl tl' : Timeline E R} {r : Option α}
    (h : tl.look poll st = (r, st', tl')) : tl'.agenda = tl.agenda := by
  simp only [look, Prod.mk.injEq] at h
  rw [← h.2.2]

theorem dropWhile_of_not_dueNext {now : Instant} {l : List (Instant × E)}
    (h : ¬ dueNext now l = true) : l.dropWhile (·.1 ≤ now) = l := by
  cases l with
  | nil => rfl
  | cons x rest =>
    obtain ⟨t, e⟩ := x
    have ht : ¬ t ≤ now := by simpa [dueNext] using h
    simp [ht]

theorem settle_cons_of_le (tl : Timeline E R) {t : Instant} {e : E} {rest : List (Instant × E)}
    (ht : t ≤ tl.now) :
    { tl with agenda := (t, e) :: rest }.settle =
      { tl with agenda := rest, shared := Surroundings.deliver e tl.shared }.settle := by
  simp only [settle, deliverDue, ht, ↓reduceIte]

/-- All events of an instant `t` are delivered before the poll looks. -/
theorem advance_due (poll : Poll σ α R) {deadline : Option Instant} (st : σ) {t : Instant}
    (hd : before deadline t = false) (l : List (Instant × E)) (tl : Timeline E R)
    (hl : l.Pairwise (·.1 ≤ ·.1)) (hge : ∀ e ∈ l, t ≤ e.1) (hdue : dueNext t l = true)
    (hnow : tl.now ≤ t) (hw : tl.within t = true) :
    advance poll deadline l st tl =
      match ({ tl with now := t, agenda := l }.settle).look poll st with
      | (some a, st', tl') => (.found a, st', tl')
      | (none, st', tl') => advance poll deadline tl'.agenda st' tl' := by
  -- event by event: while another one is due at `t`, the wait does not look
  induction l generalizing tl with
  | nil => simp [dueNext] at hdue
  | cons x rest ih =>
    obtain ⟨u, e⟩ := x
    obtain rfl : u = t := Nat.le_antisymm (by simpa [dueNext] using hdue)
      (hge (u, e) List.mem_cons_self)
    rw [List.pairwise_cons] at hl
    have hmax : max tl.now u = u := Nat.max_eq_right hnow
    rw [settle_cons_of_le { tl with now := u } (Nat.le_refl u), advance]
    simp only [hd, hw, Bool.not_true, Bool.or_self, Bool.false_eq_true, ↓reduceIte, hmax]
    split
    · rename_i hnext
      exact ih { tl with now := u, agenda := rest, shared := Surroundings.deliver e tl.shared } hl.2
        (fun y hy => hl.1 y hy) hnext (Nat.le_refl u) hw
    · rename_i hnext
      have hstay : ({ tl with
          now := u
          agenda := rest
          shared := Surroundings.deliver e tl.shared } : Timeline E R).settle.agenda = rest := by
        rw [settle_agenda]
        exact dropWhile_of_not_dueNext hnext
      rw [yieldLook]
      rcases hlook : look poll st (settle { tl with
          now := u
          agenda := rest
          shared := Surroundings.deliver e tl.shared }) with ⟨_ | a, st', tl'⟩
      · simp only [agenda_of_look hlook, hstay]
      · rfl

/-- The wait moves to the next instant of the agenda and looks there. -/
theorem advance_cons (poll : Poll σ α R) {deadline : Option Instant} {st : σ}
    {tl : Timeline E R} (h : tl.Timely) {t : Instant} {e : E} {rest : List (Instant × E)}
    (ha : tl.agenda = (t, e) :: rest) (hd : before deadline t = false)
    (hw : tl.within t = true) :
    advance poll deadline tl.agenda st tl =
      match (tl.arrive t).look poll st with
      | (some a, st', tl') => (.found a, st', tl')
      | (none, st', tl') => advance poll deadline tl'.agenda st' tl' := by
  have hge : ∀ x ∈ tl.agenda, t ≤ x.1 := by
    have := (List.pairwise_cons.1 (ha ▸ h.sorted)).1
    rw [ha]
    exact List.forall_mem_cons.2 ⟨Nat.le_refl t, this⟩
  have hnow : tl.now < t := h.ahead (t, e) (by simp [ha])
  exact advance_due poll st hd tl.agenda tl h.sorted hge (by simp [ha, dueNext])
    (Nat.le_of_lt hnow) hw

/-- **Induction along a wait.**  `I` holds whenever the poll has looked in vain. -/
theorem advance_induction {poll : Poll σ α R} {deadline : Option Instant}
    {I : σ → Timeline E R → Prop} {motive : Waited α × σ × Timeline E R → Prop}
    (timely : ∀ st tl, I st tl → tl.Timely)
    (ended : ∀ st tl, I st tl →
      (∀ e ∈ tl.agenda.head?, before deadline e.1 = true ∨ tl.within e.1 = false) →
      motive (runOut deadline st tl))
    (stop : ∀ st tl t e rest, I st tl → tl.agenda = (t, e) :: rest →
      before deadline t = false → tl.within t = true →
      match (tl.arrive t).look poll st with
      | (some a, st', tl') => motive (.found a, st', tl')
      | (none, st', tl') => I st' tl')
    (st : σ) (tl : Timeline E R) (h : I st tl) :
    motive (advance poll deadline tl.agenda st tl) := by
  -- every stop takes at least one event off the agenda
  induction hn : tl.agenda.length using Nat.strongRecOn generalizing st tl with
  | _ n ih =>
    cases ha : tl.agenda with
    | nil =>
      have := ended st tl h (by simp [ha])
      rw [advance, ← ha]
      exact this
    | cons x rest =>
      obtain ⟨t, e⟩ := x
      by_cases hout : before deadline t = true ∨ tl.within t = false
      · have := ended st tl h (by simpa [ha] using hout)
        rw [advance, if_pos (by simpa using hout), ← ha]
        exact this
      · simp only [not_or, Bool.not_eq_true, Bool.not_eq_false] at hout
        have hs := stop st tl t e rest h ha hout.1 hout.2
        rw [← ha, advance_cons poll (timely st tl h) ha hout.1 hout.2]
        split
        · rename_i hlook
          rwa [hlook] at hs
        · rename_i st' tl' hlook
          rw [hlook] at hs
          refine ih _ ?_ st' tl' hs rfl
          rw [agenda_of_look hlook, arrive_agenda, ← hn, ha, List.dropWhile_cons, if_pos (by simp)]
          exact Nat.lt_succ_of_le (List.dropWhile_sublist _).length_le

omit [Surroundings E R] in
/-- A wait that ends with its deadline has only later events before it. -/
theorem Timely.lt_of_head {tl : Timeline E R} (h : tl.Timely) {d : Instant}
    (hw : tl.within d = true)
    (hout : ∀ e ∈ tl.agenda.head?, before (some d) e.1 = true ∨ tl.within e.1 = false) :
    ∀ e ∈ tl.agenda, d < e.1 := by
  cases ha : tl.agenda with
  | nil => simp
  | cons x rest =>
    have hx : d < x.1 := by
      rcases hout x (by simp [ha]) with hb | hb
      · exact of_decide_eq_true hb
      · cases hh : tl.horizon with
        | none =>
          rw [within, hh] at hb
          cases hb
        | some last =>
          rw [within, hh] at hb hw
          exact Nat.lt_of_le_of_lt (of_decide_eq_true hw)
            (Nat.lt_of_not_le (of_decide_eq_false hb))
    have hsorted := h.sorted
    rw [ha, List.pairwise_cons] at hsorted
    exact List.forall_mem_cons.2 ⟨hx, fun e he => Nat.lt_of_lt_of_le hx (hsorted.1 e he)⟩

omit [Surroundings E R] in
/-- The same without a horizon, and also for a wait without a deadline. -/
theorem Timely.before_of_head {tl : Timeline E R} (h : tl.Timely) (horizon : tl.horizon = none)
    {deadline : Option Instant}
    (hout : ∀ e ∈ tl.agenda.head?, before deadline e.1 = true ∨ tl.within e.1 = false) :
    ∀ e ∈ tl.agenda, before deadline e.1 = true := by
  have hwithin : ∀ t, tl.within t = true := by
    intro t
    rw [within, horizon]
  cases deadline with
  | some d => exact fun e he => decide_eq_true (h.lt_of_head (hwithin d) hout e he)
  | none =>
    cases ha : tl.agenda with
    | nil => simp
    | cons x rest =>
      rcases hout x (by simp [ha]) with hb | hb
      · cases hb
      · rw [hwithin] at hb
        cases hb

theorem runOut_some {d : Instant} (st : σ) (tl : Timeline E R) (hw : tl.within d = true) :
    runOut (some d) st tl = ((.expired : Waited α), st, tl.expire d) := by
  simp only [runOut, hw, ↓reduceIte]

/-- What a look comes to: the poll finds something, or it looks in vain. -/
def Looked (found : α → σ → Timeline E R → Prop) (missed : σ → Timeline E R → Prop) :
    Option α × σ × Timeline E R → Prop
  | (some a, st, tl) => found a st tl
  | (none, st, tl) => missed st tl

/-- **Induction along a whole wait.**  `I` holds whenever the poll has looked in vain at an instant at
which everybody else has run.  From there the wait goes to the next instant of the agenda. -/
theorem wait_induction {poll : Poll σ α R} {deadline : Option Instant}
    {I : σ → Timeline E R → Prop} {motive : Waited α × σ × Timeline E R → Prop}
    (timely : ∀ st tl, I st tl → tl.Timely)
    (inTime : ∀ st tl d, I st tl → deadline = some d → tl.now ≤ d ∧ tl.within d = true)
    (ended : ∀ st tl, I st tl →
      (∀ e ∈ tl.agenda.head?, before deadline e.1 = true ∨ tl.within e.1 = false) →
      motive (runOut deadline st tl))
    (stop : ∀ st tl t, I st tl → tl.now < t →
      (∀ x ∈ tl.agenda, x.1 ≤ t → max tl.now x.1 = t) → (∀ d, deadline = some d → t ≤ d) →
      Looked (fun a st tl => motive (.found a, st, tl)) I ((tl.arrive t).look poll st))
    (st : σ) (tl : Timeline E R)
    (first : Looked (fun a st tl => motive (.found a, st, tl))
      (fun st tl => Looked (fun a st tl => motive (.found a, st, tl)) I
        ((tl.arrive tl.now).look poll st)) (tl.look poll st)) :
    motive (tl.wait poll deadline st) := by
  rw [wait]
  rcases hlook : tl.look poll st with ⟨_ | a, st', tl'⟩
  · rw [hlook] at first
    change Looked _ I (tl'.yieldLook poll st') at first
    dsimp only
    rcases hyield : tl'.yieldLook poll st' with ⟨_ | a, st'', tl''⟩
    · rw [hyield] at first
      dsimp only
      split
      · rename_i hreached
        cases deadline with
        | none => cases hreached
        | some d =>
          -- the deadline has come, so the wait ends as it does later
          obtain ⟨hnow, hwithin⟩ := inTime st'' tl'' d first rfl
          obtain rfl : tl''.now = d := Nat.le_antisymm hnow (of_decide_eq_true hreached)
          have hout := ended st'' tl'' first fun e he => .inl <| decide_eq_true <|
            (timely st'' tl'' first).ahead e (List.mem_of_mem_head? he)
          rwa [runOut_some st'' tl'' hwithin] at hout
      · refine advance_induction timely ended ?_ st'' tl'' first
        intro st tl t e rest h ha hd _
        have hlt : tl.now < t := (timely st tl h).ahead (t, e) (by simp [ha])
        have hge : ∀ x ∈ tl.agenda, t ≤ x.1 := by
          have hrest := (List.pairwise_cons.1 (ha ▸ (timely st tl h).sorted)).1
          rw [ha]
          exact List.forall_mem_cons.2 ⟨Nat.le_refl t, hrest⟩
        have hdue : ∀ x ∈ tl.agenda, x.1 ≤ t → max tl.now x.1 = t := by
          intro x hx hxt
          rw [Nat.le_antisymm hxt (hge x hx)]
          exact Nat.max_eq_right (Nat.le_of_lt hlt)
        have hin : ∀ d, deadline = some d → t ≤ d := by
          rintro d rfl
          exact Nat.le_of_not_lt (of_decide_eq_false hd)
        exact stop st tl t h hlt hdue hin
    · rw [hyield] at first
      exact first
  · rw [hlook] at first
    exact first

/-! ### Waits that only the deadline ends -/

omit [Surroundings E R] in
theorem look_deaf (poll : Poll σ Empty R) (st : σ) (tl : Timeline E R) :
    ∃ st' s, tl.look poll st = (none, st', { tl with shared := s }) := by
  rcases h : poll st tl.shared with ⟨_ | a, st', s⟩
  · exact ⟨st', s, by rw [look, h]⟩
  · exact a.elim

theorem runOut_eq_stalled {deadline : Option Instant} (st : σ) (tl : Timeline E R)
    (h : ∀ d, deadline = some d → tl.within d = false) :
    runOut deadline st tl = ((.stalled : Waited α), st, tl.stall) := by
  cases deadline with
  | none => rfl
  | some d => simp [runOut, h d rfl]

/-- How a wait for the deadline `d` ended that found nothing: at the deadline or the start,
whichever is later, unless the deadline lies beyond the horizon. -/
def Overslept (d : Instant) (tl : Timeline E R) (r : Waited α × σ × Timeline E R) : Prop :=
  (r.1 = .expired ∧ r.2.2.now = max tl.now d) ∨ (r.1 = .stalled ∧ tl.within d = false)

theorem overslept_runOut {d : Instant} (st : σ) (tl : Timeline E R) :
    Overslept d tl (runOut (α := α) (some d) st tl) := by
  by_cases hw : tl.within d = true
  · rw [runOut_some st tl hw]
    exact .inl ⟨rfl, rfl⟩
  · rw [runOut_eq_stalled st tl (by simpa using hw)]
    exact .inr ⟨rfl, by simpa using hw⟩

theorem advance_deaf (poll : Poll σ Empty R) (d : Instant) (l : List (Instant × E)) (st : σ)
    (tl : Timeline E R) : Overslept d tl (advance poll (some d) l st tl) := by
  induction l generalizing st tl with
  | nil => exact overslept_runOut st _
  | cons x rest ih =>
    obtain ⟨t, e⟩ := x
    rw [advance]
    dsimp only
    split
    · exact overslept_runOut st _
    · rename_i hin
      have htd : t ≤ d := by
        simp only [before, Bool.or_eq_true, decide_eq_true_eq, not_or] at hin
        exact Nat.le_of_not_lt hin.1
      -- the clock may have moved on to `t`, which is no later than the deadline
      have hmove : ∀ (s : Shared R) r, Overslept d { tl with
          now := max tl.now t
          agenda := rest
          shared := s } r → Overslept (α := Empty) (σ := σ) d tl r := by
        intro s r h
        rwa [Overslept, Nat.max_assoc, Nat.max_eq_right htd] at h
      split
      · exact hmove _ _ (ih st _)
      · obtain ⟨st', s, hlook⟩ := look_deaf poll st (settle { tl with
          now := max tl.now t
          agenda := rest
          shared := Surroundings.deliver e tl.shared })
        rw [yieldLook, hlook]
        exact hmove s _ (ih st' _)

/-- A wait that finds nothing and has no deadline does not end. -/
theorem advance_deaf_none (poll : Poll σ Empty R) (l : List (Instant × E)) (st : σ)
    (tl : Timeline E R) : ∃ st' tl', advance poll none l st tl = (.stalled, st', tl') := by
  induction l generalizing st tl with
  | nil => exact ⟨st, _, rfl⟩
  | cons x rest ih =>
    obtain ⟨t, e⟩ := x
    rw [advance]
    dsimp only
    split
    · exact ⟨st, _, rfl⟩
    · split
      · exact ih st _
      · obtain ⟨st', s, hlook⟩ := look_deaf poll st (settle { tl with
          now := max tl.now t
          agenda := rest
          shared := Surroundings.deliver e tl.shared })
        rw [yieldLook, hlook]
        exact ih st' _

theorem wait_deaf (poll : Poll σ Empty R) (d : Instant) (st : σ) (tl : Timeline E R) :
    Overslept d tl (tl.wait poll (some d) st) := by
  obtain ⟨st₁, s₁, h₁⟩ := look_deaf poll st tl
  obtain ⟨st₂, s₂, h₂⟩ := look_deaf poll st₁ (settle { tl with shared := s₁ })
  simp only [wait, h₁, yieldLook, h₂]
  split
  · rename_i hr
    have hpast : d ≤ tl.now := of_decide_eq_true hr
    refine .inl ⟨rfl, ?_⟩
    simp only [expire, settle_now, Nat.max_self, Nat.max_eq_left hpast]
  · exact advance_deaf poll d _ st₂ _

theorem wait_deaf_none (poll : Poll σ Empty R) (st : σ) (tl : Timeline E R) :
    ∃ st' tl', tl.wait poll none st = (.stalled, st', tl') := by
  obtain ⟨st₁, s₁, h₁⟩ := look_deaf poll st tl
  obtain ⟨st₂, s₂, h₂⟩ := look_deaf poll st₁ (settle { tl with shared := s₁ })
  simp only [wait, h₁, yieldLook, h₂, reached, Bool.false_eq_true, ↓reduceIte]
  exact advance_deaf_none poll _ st₂ _

end Timeline

namespace Run

variable {E R : Type} [Surroundings E R]

/-- A sleep is over at its instant, or at once if that is past, unless it is for ever or leads
beyond the horizon. -/
theorem sleepUntil_eq (t : Instant) (tl : Timeline E R) :
    (t < endOfTime ∧ ∃ tl', sleepUntil t tl = .ok () tl' ∧ tl'.now = max tl.now t) ∨
      ((endOfTime ≤ t ∨ tl.within t = false) ∧ ∃ tl', sleepUntil t tl = .error .stalled tl') := by
  by_cases ht : t < endOfTime
  · have h := Timeline.wait_deaf (fun st s => (none, st, s)) t () tl
    rcases hwait : tl.wait (α := Empty) (fun st s => (none, st, s)) (some t) () with ⟨w, st, tl'⟩
    rw [hwait] at h
    have hreal : (some t : Option Instant).filter (· < endOfTime) = some t := by
      simp [Option.filter, ht]
    rcases h with ⟨rfl, hnow⟩ | ⟨rfl, hw⟩
    · have hawait : await (α := Empty) (fun st s => (none, st, s)) () (some t) tl =
          .ok (none, st) tl' := by simp only [await, hreal, hwait]
      exact .inl ⟨ht, tl', bind_of_ok hawait, hnow⟩
    · have hawait : await (α := Empty) (fun st s => (none, st, s)) () (some t) tl =
          .error .stalled tl' := by simp only [await, hreal, hwait]
      exact .inr ⟨.inr hw, tl', bind_of_error hawait⟩
  · obtain ⟨st, tl', hwait⟩ := Timeline.wait_deaf_none (fun st s => (none, st, s)) () tl
    have hawait : await (α := Empty) (fun st s => (none, st, s)) () (some t) tl =
        .error .stalled tl' := by
      simp only [await, Option.filter, ht, decide_false, Bool.false_eq_true, ↓reduceIte, hwait]
    exact .inr ⟨.inl (Nat.le_of_not_lt ht), tl', bind_of_error hawait⟩

theorem sleepUntil_of_lt {t : Instant} {tl : Timeline E R} (ht : t < endOfTime)
    (hw : tl.within t = true) :
    ∃ tl', sleepUntil t tl = .ok () tl' ∧ tl'.now = max tl.now t := by
  rcases sleepUntil_eq t tl with ⟨-, h⟩ | ⟨h | h, -⟩
  · exact h
  · exact absurd ht (Nat.not_lt_of_le h)
  · rw [hw] at h
    cases h

theorem of_sleepUntil {t : Instant} {tl tl' : Timeline E R} (h : sleepUntil t tl = .ok () tl') :
    t < endOfTime ∧ tl'.now = max tl.now t := by
  rcases sleepUntil_eq t tl with ⟨ht, tl₁, h₁, hnow⟩ | ⟨-, tl₁, h₁⟩
  · rw [h] at h₁
    cases h₁
    exact ⟨ht, hnow⟩
  · rw [h] at h₁
    cases h₁

end Run

end OnboardVision
