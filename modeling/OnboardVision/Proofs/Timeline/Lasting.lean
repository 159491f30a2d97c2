import OnboardVision.Proofs.Timeline.Waiting

/-!
# What lasts

A computation changes a timeline in few ways: at the instants of the agenda things happen from
outside, deadlines come, notes are made, and now and then the computation changes the shared state
itself.  A property that outlasts each of these outlasts the computation.

* `Timeline.Lasting keep P`: the property `P` outlasts what happens from outside, and changes within
  the relation `keep`.
* `Run.Keeps P x`: the computation `x` keeps `P`, with one lemma for each way to build computations.
* `Timeline.Lasting.wait`: a wait keeps `P`, and it ends where its deadline is or with what its poll
  has found.
-/

namespace OnboardVision

namespace Timeline

variable {E R σ α : Type} [Surroundings E R]

/-- The property `P` lasts while time passes, and through changes of the shared state within
`keep`. -/
structure Lasting (keep : Shared R → Shared R → Prop) (P : Timeline E R → Prop) : Prop where
  /-- The agenda is in order, and nothing on it is due. -/
  timely : ∀ {tl}, P tl → tl.Timely
  /-- Time passes, and what falls into it happens. -/
  arrive : ∀ {tl t}, P tl → tl.now ≤ t → P (tl.arrive t)
  /-- A deadline comes before anything else happens. -/
  expire : ∀ {tl d}, P tl → tl.now ≤ d → (∀ e ∈ tl.agenda, d < e.1) → P (tl.expire d)
  /-- Notes are made. -/
  note : ∀ {tl} notes, P tl → P { tl with shared := tl.shared.note notes }
  /-- The shared state is changed. -/
  change : ∀ {tl s}, P tl → keep tl.shared s → P { tl with shared := s }

variable {keep : Shared R → Shared R → Prop} {P : Timeline E R → Prop}

/-- What lasts through changes lasts without them. -/
theorem Lasting.unchanged (hP : Lasting keep P) : Lasting (fun s s' => s' = s) P :=
  { hP with change := fun h hs => hs ▸ h }

/-- How a wait ended that began at the instant `start`. -/
def Rested (P : Timeline E R → Prop) (poll : Poll σ α R) (deadline : Option Instant)
    (start : Instant) : Waited α × σ × Timeline E R → Prop
  | (.found a, st, tl) => P tl ∧ ∃ st₀ s, poll st₀ s = (some a, st, tl.shared)
  | (.expired, _, tl) => P tl ∧ ∃ d, deadline = some d ∧ tl.now = max start d
  | (.stalled, _, _) => True

omit [Surroundings E R] in
theorem rested_of_look {poll : Poll σ α R} {deadline : Option Instant} {start : Instant} {st st' : σ}
    {tl tl' : Timeline E R} {a : α} (hl : tl.look poll st = (some a, st', tl')) (h : P tl') :
    Rested P poll deadline start (.found a, st', tl') := by
  simp only [look, Prod.mk.injEq] at hl
  obtain ⟨ha, rfl, rfl⟩ := hl
  exact ⟨h, st, tl.shared, by rw [← ha]⟩

theorem Lasting.look (hP : Lasting keep P) {poll : Poll σ α R}
    (hpoll : ∀ st s, keep s (poll st s).2.2) {st st' : σ} {tl tl' : Timeline E R} {r : Option α}
    (h : P tl) (hl : tl.look poll st = (r, st', tl')) : P tl' ∧ tl'.now = tl.now := by
  simp only [Timeline.look, Prod.mk.injEq] at hl
  obtain ⟨-, -, rfl⟩ := hl
  exact ⟨hP.change h (hpoll st _), rfl⟩

theorem Lasting.advance (hP : Lasting keep P) {poll : Poll σ α R}
    (hpoll : ∀ st s, keep s (poll st s).2.2) {deadline : Option Instant} (st : σ)
    {tl : Timeline E R} (h : P tl) (hin : ∀ d, deadline = some d → tl.now ≤ d) :
    Rested P poll deadline tl.now (advance poll deadline tl.agenda st tl) := by
  refine advance_induction
    (I := fun _ tl' => P tl' ∧ tl.now ≤ tl'.now ∧ ∀ d, deadline = some d → tl'.now ≤ d)
    (fun _ _ h => hP.timely h.1) ?ended ?stop st tl ⟨h, Nat.le_refl _, hin⟩
  case ended =>
    rintro st' tl' ⟨h', hge, hin'⟩ hout
    cases deadline with
    | none => trivial
    | some d =>
      by_cases hw : tl'.within d = true
      · rw [runOut_some st' tl' hw]
        refine ⟨hP.expire h' (hin' d rfl) ((hP.timely h').lt_of_head hw hout), d, rfl, ?_⟩
        show max tl'.now d = _
        rw [Nat.max_eq_right (hin' d rfl), Nat.max_eq_right (hin d rfl)]
      · rw [runOut_eq_stalled st' tl' (by simpa using hw)]
        trivial
  case stop =>
    rintro st' tl' t e rest ⟨h', hge, -⟩ ha hd -
    have hlt : tl'.now < t := (hP.timely h').ahead (t, e) (by simp [ha])
    have harrive : P (tl'.arrive t) := hP.arrive h' (Nat.le_of_lt hlt)
    rcases hl : (tl'.arrive t).look poll st' with ⟨_ | a, st'', tl''⟩
    · obtain ⟨h'', hnow⟩ := hP.look hpoll harrive hl
      rw [Timeline.arrive_now] at hnow
      refine ⟨h'', ?_, fun d hdue => ?_⟩
      · rw [hnow]
        exact Nat.le_of_lt (Nat.lt_of_le_of_lt hge hlt)
      · subst hdue
        rw [hnow]
        exact Nat.le_of_not_lt (of_decide_eq_false hd)
    · exact rested_of_look hl (hP.look hpoll harrive hl).1

/-- **What lasts outlasts a wait.**  Unless nothing can end it, the wait ends with what the poll has
found, or exactly at its deadline. -/
theorem Lasting.wait (hP : Lasting keep P) {poll : Poll σ α R}
    (hpoll : ∀ st s, keep s (poll st s).2.2) (deadline : Option Instant) (st : σ)
    {tl : Timeline E R} (h : P tl) :
    Rested P poll deadline tl.now (tl.wait poll deadline st) := by
  rw [Timeline.wait]
  rcases hl₁ : tl.look poll st with ⟨_ | a, st₁, tl₁⟩
  · obtain ⟨h₁, hnow₁⟩ := hP.look hpoll h hl₁
    have hsettle : P tl₁.settle := hP.arrive h₁ (Nat.le_refl tl₁.now)
    dsimp only
    rw [yieldLook]
    rcases hl₂ : tl₁.settle.look poll st₁ with ⟨_ | a, st₂, tl₂⟩
    · obtain ⟨h₂, hnow₂⟩ := hP.look hpoll hsettle hl₂
      have hnow : tl₂.now = tl.now := hnow₂.trans hnow₁
      dsimp only
      rw [← hnow]
      split
      · rename_i hreached
        refine ⟨hP.expire h₂ (Nat.le_refl _) (hP.timely h₂).ahead, ?_⟩
        cases deadline with
        | none => cases hreached
        | some d =>
          have hpast : d ≤ tl₂.now := of_decide_eq_true hreached
          exact ⟨d, rfl, (Nat.max_self _).trans (Nat.max_eq_left hpast).symm⟩
      · rename_i hreached
        refine hP.advance hpoll st₂ h₂ ?_
        rintro d rfl
        exact Nat.le_of_lt (Nat.lt_of_not_le (by simpa [reached] using hreached))
    · exact rested_of_look hl₂ (hP.look hpoll hsettle hl₂).1
  · exact rested_of_look hl₁ (hP.look hpoll h hl₁).1

end Timeline

namespace Run

variable {E R α β σ : Type} {P : Timeline E R → Prop}

/-- Where the computation completes, it keeps the property. -/
def Keeps (P : Timeline E R → Prop) (x : Run E R α) : Prop :=
  ∀ ⦃tl a tl'⦄, P tl → x tl = .ok a tl' → P tl'

theorem keeps_pure (a : α) : Keeps P (pure a) := by
  intro tl b tl' h hx
  cases hx
  exact h

theorem Keeps.bind {x : Run E R α} {f : α → Run E R β} (hx : Keeps P x)
    (hf : ∀ a, Keeps P (f a)) : Keeps P (x >>= f) := by
  intro tl b tl' h hb
  obtain ⟨a, mid, ha, hb⟩ := Run.bind_eq_ok.1 hb
  exact hf a (hx h ha) hb

theorem keeps_throw (e : Halt) : Keeps P (throw e : Run E R α) := by
  intro tl a tl' _ hx
  cases hx

theorem keeps_now : Keeps P (now : Run E R Instant) := by
  intro tl a tl' h hx
  cases hx
  exact h

theorem keeps_shared : Keeps P (shared : Run E R (Shared R)) := by
  intro tl a tl' h hx
  cases hx
  exact h

theorem keeps_later (d : Duration) : Keeps P (later d : Run E R Instant) := by
  refine keeps_now.bind fun t => ?_
  split
  · exact keeps_pure _
  · exact keeps_throw _

variable [Surroundings E R] {keep : Shared R → Shared R → Prop}

theorem keeps_note (hP : Timeline.Lasting keep P) (n : Note) : Keeps P (note n) := by
  intro tl a tl' h hx
  cases hx
  exact hP.note [n] h

/-- An assignment to the shared state. -/
theorem keeps_modifyShared (hP : Timeline.Lasting keep P) {f : Shared R → Shared R}
    (hf : ∀ s, keep s (f s)) : Keeps P (modifyShared f) := by
  intro tl a tl' h hx
  cases hx
  exact hP.change h (hf _)

theorem keeps_await (hP : Timeline.Lasting keep P) {poll : Poll σ α R}
    (hpoll : ∀ st s, keep s (poll st s).2.2) (st : σ) (deadline : Option Instant) :
    Keeps P (await poll st deadline) := by
  intro tl a tl' h hx
  have hrest := hP.wait hpoll (deadline.filter (· < endOfTime)) st h
  rw [await] at hx
  rcases hw : tl.wait poll (deadline.filter (· < endOfTime)) st with ⟨b | _ | _, st', mid⟩
  · rw [hw] at hx hrest
    cases hx
    exact hrest.1
  · rw [hw] at hx hrest
    cases hx
    exact hrest.1
  · rw [hw] at hx
    cases hx

theorem keeps_sleepUntil (hP : Timeline.Lasting keep P) (t : Instant) :
    Keeps P (sleepUntil t : Run E R Unit) :=
  (keeps_await hP.unchanged (fun _ _ => rfl) () (some t)).bind fun _ => keeps_pure _

theorem keeps_sleep (hP : Timeline.Lasting keep P) (d : Duration) :
    Keeps P (sleep d : Run E R Unit) := (keeps_later d).bind fun t => keeps_sleepUntil hP t

end Run

end OnboardVision
