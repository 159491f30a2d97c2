import OnboardVision.Proofs.Bench.Replay
import OnboardVision.Proofs.Telemetry.Attitudes
import OnboardVision.Proofs.Timeline.Lasting

/-!
# Attitudes written on the bench

Telemetry on the bench changes through the events of the agenda and through the one write at the very
last moment.  Whatever a computation does apart from that, the attitude is the one that was written
last.

* `Bench.written`: the attitudes that events write, each with the instant of its event.
* `Bench.Happened start t late past`: what may have happened on the scene `start` by the instant `t`,
  in order; `late` is the last-moment write if it is still to come.
* `Bench.Since`: a scene on which just that has happened; `Bench.lasting_since` is the invariant.
-/

namespace OnboardVision

namespace Bench

/-! ### What is written -/

/-- The attitudes that a change of the telemetry writes. -/
def Write.attitudes (d : Crsf.Decoder) : Write → List Attitude
  | .attitude a => [a]
  | .bytes data => d.attitudes data
  | .message m => m.attitude?.toList
  | _ => []

/-- The decoder after a change of the telemetry. -/
def Write.decoder (d : Crsf.Decoder) : Write → Crsf.Decoder
  | .bytes data => (d.feedAll 0 data).2
  | _ => d

/-- The attitudes that events write, each with the instant of its event, for a telemetry line with
the decoder `d`. -/
def written (d : Crsf.Decoder) : List (Instant × Event) → List (Instant × Attitude)
  | [] => []
  | (t, .telemetry w) :: l => (w.attitudes d).map (t, ·) ++ written (w.decoder d) l
  | _ :: l => written d l

theorem Write.perform_attitude (w : Write) (r : Receiver) (t : Telemetry) :
    (w.perform r t).2.1.decoder = w.decoder r.decoder ∧
      (w.perform r t).2.2.1.attitude = (w.attitudes r.decoder).getLast?.getD t.attitude := by
  cases w with
  | attitude a => exact ⟨rfl, rfl⟩
  | position p => exact ⟨rfl, rfl⟩
  | velocity v => exact ⟨rfl, rfl⟩
  | bytes data =>
    obtain ⟨hdecoder, hattitude, -⟩ := r.feedAll_attitude t data
    exact ⟨hdecoder, hattitude⟩
  | message m =>
    refine ⟨rfl, ?_⟩
    show (r.navigator.apply m t).2.1.attitude = _
    rw [(Navigator.apply_fields r.navigator m t).2, attitudes]
    cases m.attitude? <;> rfl

/-- The attitude after events is the last one that they write. -/
theorem replay_attitude (s : Shared Rig) (l : List (Instant × Event)) :
    (replay s l).telemetry.attitude =
      ((written s.rig.receiver.decoder l).getLast?.map Prod.snd).getD s.telemetry.attitude := by
  induction l generalizing s with
  | nil => rfl
  | cons x l ih =>
    obtain ⟨t, e⟩ := x
    refine (ih (deliver e s)).trans ?_
    cases e with
    | edit e => rfl
    | line text => rfl
    | telemetry w =>
      obtain ⟨hdecoder, hattitude⟩ := w.perform_attitude s.rig.receiver s.telemetry
      have hrig : (deliver (.telemetry w) s).rig.receiver.decoder = w.decoder s.rig.receiver.decoder :=
        hdecoder
      have htel : (deliver (.telemetry w) s).telemetry.attitude =
          (w.attitudes s.rig.receiver.decoder).getLast?.getD s.telemetry.attitude := hattitude
      rw [hrig, htel, written, List.getLast?_append, List.getLast?_map]
      cases (written (w.decoder s.rig.receiver.decoder) l).getLast? <;> simp

theorem mem_written {d : Crsf.Decoder} {l : List (Instant × Event)} {x : Instant × Attitude}
    (h : x ∈ written d l) : ∃ e ∈ l, e.1 = x.1 := by
  induction l generalizing d with
  | nil => cases h
  | cons y l ih =>
    obtain ⟨t, e⟩ := y
    have hlater : ∀ {d}, x ∈ written d l → ∃ y ∈ (t, e) :: l, y.1 = x.1 := by
      intro d h
      obtain ⟨e', he', hx⟩ := ih h
      exact ⟨e', List.mem_cons_of_mem _ he', hx⟩
    cases e with
    | edit e => exact hlater h
    | line text => exact hlater h
    | telemetry w =>
      rcases List.mem_append.1 h with h | h
      · obtain ⟨a, -, rfl⟩ := List.mem_map.1 h
        exact ⟨_, List.mem_cons_self, rfl⟩
      · exact hlater h

/-- More events write more attitudes, behind the ones before. -/
theorem written_append (d : Crsf.Decoder) (l l' : List (Instant × Event)) :
    ∃ more, written d (l ++ l') = written d l ++ more := by
  induction l generalizing d with
  | nil => exact ⟨_, rfl⟩
  | cons x l ih =>
    obtain ⟨t, e⟩ := x
    cases e with
    | edit e => exact ih d
    | line text => exact ih d
    | telemetry w =>
      obtain ⟨more, h⟩ := ih (w.decoder d)
      refine ⟨more, ?_⟩
      rw [List.cons_append, written, written, h, List.append_assoc]

/-! ### What makes no difference -/

/-- The telemetry and its line are the same, up to the flag. -/
def Matches (s s' : Shared Rig) : Prop :=
  s.telemetry.Alike s'.telemetry ∧ s.rig.receiver = s'.rig.receiver

theorem Matches.deliver {s s' : Shared Rig} (h : Matches s s') (e : Event) :
    Matches (deliver e s) (deliver e s') := by
  obtain ⟨htel, hrec⟩ := h
  cases e with
  | edit e => exact ⟨htel, hrec⟩
  | line text => exact ⟨htel, hrec⟩
  | telemetry w =>
    obtain ⟨hr, ht, -⟩ := w.perform_congr s'.rig.receiver htel
    show (w.perform _ _).2.2.1.Alike (w.perform _ _).2.2.1 ∧ (w.perform _ _).2.1 = (w.perform _ _).2.1
    rw [hrec]
    exact ⟨ht, hr⟩

theorem Matches.replay {s s' : Shared Rig} (h : Matches s s') (l : List (Instant × Event)) :
    Matches (replay s l) (replay s' l) := by
  induction l generalizing s s' with
  | nil => exact h
  | cons e l ih => exact ih (h.deliver e.2)

/-- A change that is none of a telemetry writer: the flag, the hub, the journal. -/
def Aside (s s' : Shared Rig) : Prop := s.telemetry.Alike s'.telemetry ∧ s'.rig = s.rig

theorem aside_hush (s : Shared Rig) : Aside s s.hush := ⟨rfl, rfl⟩

theorem Matches.aside {s₀ s s' : Shared Rig} (h : Matches s₀ s) (hs : Aside s s') :
    Matches s₀ s' := ⟨h.1.trans hs.1, h.2.trans (congrArg Rig.receiver hs.2).symm⟩

/-! ### What has happened -/

/-- What may have happened on a scene by the instant `t`: the events of the agenda that were due, and
the write at the very last moment once its time has come, behind the events of that instant.  The
option is that write if it is still to come. -/
inductive Happened (start : Scene) (t : Instant) :
    Option (Instant × Attitude) → List (Instant × Event) → Prop
  | agenda : Happened start t start.shared.rig.late (start.agenda.takeWhile (·.1 ≤ t))
  | late {due u : Instant} {a : Attitude} {before after : List (Instant × Event)} :
      start.shared.rig.late = some (due, a) → due ≤ u → start.now ≤ u → u ≤ t →
      before ++ after = start.agenda.takeWhile (·.1 ≤ t) → (∀ e ∈ before, e.1 ≤ u) →
      (∀ e ∈ after, u < e.1) → Happened start t none (before ++ (u, .telemetry (.attitude a)) :: after)

variable {start tl : Scene} {t d : Instant} {late : Option (Instant × Attitude)}
  {past : List (Instant × Event)}

/-- Nothing that has happened since is from before, and nothing is still to come. -/
theorem Happened.mem (h : Happened start t late past) (hs : start.Timely) {e : Instant × Event}
    (he : e ∈ past) : start.now ≤ e.1 ∧ e.1 ≤ t := by
  have hagenda : ∀ e ∈ start.agenda.takeWhile (·.1 ≤ t), start.now ≤ e.1 ∧ e.1 ≤ t := by
    intro e he
    rw [Timeline.takeWhile_eq_filter hs.sorted] at he
    obtain ⟨hmem, hle⟩ := List.mem_filter.1 he
    exact ⟨Nat.le_of_lt (hs.ahead e hmem), of_decide_eq_true hle⟩
  cases h with
  | agenda => exact hagenda e he
  | late _ _ hbegun hnow hsplit _ _ =>
    rw [← hsplit] at hagenda
    rcases List.mem_append.1 he with he | he
    · exact hagenda e (List.mem_append_left _ he)
    · rcases List.mem_cons.1 he with rfl | he
      · exact ⟨hbegun, hnow⟩
      · exact hagenda e (List.mem_append_right _ he)

/-- Time passes. -/
theorem Happened.later (h : Happened start t late past) {t' : Instant} (ht : t ≤ t')
    (hs : start.Timely) :
    Happened start t' late (past ++ (start.agenda.dropWhile (·.1 ≤ t)).takeWhile (·.1 ≤ t')) := by
  have htake := takeWhile_eq_append (l := start.agenda) ht
  cases h with
  | agenda =>
    rw [← htake]
    exact .agenda
  | late hlate hdue hbegun hnow hsplit hbefore hafter =>
    rw [← hsplit, List.append_assoc] at htake
    rw [List.append_assoc, List.cons_append]
    refine .late hlate hdue hbegun (Nat.le_trans hnow ht) htake.symm hbefore fun e he => ?_
    rcases List.mem_append.1 he with he | he
    · exact hafter e he
    · have hmem := (List.takeWhile_sublist _).subset he
      rw [Timeline.dropWhile_eq_filter hs.sorted] at hmem
      exact Nat.lt_of_le_of_lt hnow (of_decide_eq_true (List.mem_filter.1 hmem).2)

/-- The write at the very last moment is made. -/
theorem Happened.strike {due : Instant} {a : Attitude}
    (h : Happened start t (some (due, a)) past) (hdue : due ≤ t) (hbegun : start.now ≤ t)
    (hs : start.Timely) :
    Happened start t none (past ++ [(t, .telemetry (.attitude a))]) := by
  generalize hl : some (due, a) = late at h
  cases h with
  | agenda =>
    refine .late hl.symm hdue hbegun (Nat.le_refl t) (List.append_nil _) (fun e he => ?_) (by simp)
    exact (Happened.mem .agenda hs he).2
  | late => cases hl

/-- The scene `tl` is what `past` has made of the scene `start`, apart from changes that are none of
a telemetry writer. -/
structure Since (start : Scene) (past : List (Instant × Event)) (tl : Scene) : Prop where
  begun : start.Timely
  timely : tl.Timely
  le : start.now ≤ tl.now
  agenda : tl.agenda = start.agenda.dropWhile (·.1 ≤ tl.now)
  happened : Happened start tl.now tl.shared.rig.late past
  matched : Matches (replay start.shared past) tl.shared

theorem since_self (h : start.Timely) : Since start [] start where
  begun := h
  timely := h
  le := Nat.le_refl _
  agenda := h.dropWhile_agenda.symm
  happened := by
    have hagenda : Happened start start.now start.shared.rig.late _ := .agenda
    rwa [h.takeWhile_agenda h.ahead] at hagenda
  matched := ⟨rfl, rfl⟩

theorem Since.arrive (h : Since start past tl) (ht : tl.now ≤ t) :
    Since start (past ++ tl.agenda.takeWhile (·.1 ≤ t)) (tl.arrive t) where
  begun := h.begun
  timely := h.timely.arrive t
  le := Nat.le_trans h.le ht
  agenda := by
    rw [Timeline.arrive_agenda, h.agenda, Timeline.dropWhile_dropWhile h.begun.sorted ht]
    rfl
  happened := by
    rw [arrive_shared, stateAt, replay_late, h.agenda]
    exact h.happened.later ht h.begun
  matched := by
    rw [arrive_shared, replay_append]
    exact h.matched.replay _

/-- A deadline comes, and with it maybe the write at the very last moment. -/
theorem Since.expire (h : Since start past tl) (hd : tl.now ≤ d)
    (hfree : ∀ e ∈ tl.agenda, d < e.1) : ∃ more, Since start (past ++ more) (tl.expire d) := by
  have hexpire : tl.expire d = { tl with now := d, shared := lapse d tl.shared } := by
    simp only [Timeline.expire, Nat.max_eq_right hd]
    rfl
  have hagenda : tl.agenda = start.agenda.dropWhile (·.1 ≤ d) := by
    rw [← Timeline.dropWhile_dropWhile h.begun.sorted hd, ← h.agenda,
      Timeline.dropWhile_eq_filter h.timely.sorted]
    exact (List.filter_eq_self.2 fun e he => decide_eq_true (hfree e he)).symm
  have hhappened : Happened start d tl.shared.rig.late past := by
    have hlater := h.happened.later hd h.begun
    rwa [← h.agenda, h.timely.takeWhile_agenda hfree, List.append_nil] at hlater
  have hle : start.now ≤ d := Nat.le_trans h.le hd
  have hstay : lapse d tl.shared = tl.shared → Since start (past ++ []) (tl.expire d) := by
    intro hlapse
    rw [List.append_nil, hexpire, hlapse]
    exact ⟨h.begun, ⟨h.timely.sorted, hfree⟩, hle, hagenda, hhappened, h.matched⟩
  cases hlate : tl.shared.rig.late with
  | none => exact ⟨[], hstay (by rw [lapse, hlate])⟩
  | some w =>
    obtain ⟨due, a⟩ := w
    by_cases hdue : due ≤ d
    · have hlapse : lapse d tl.shared = { tl.shared with
          telemetry := tl.shared.telemetry.setAttitude a
          rig := { tl.shared.rig with late := none } } := by
        rw [lapse, hlate]
        exact if_pos hdue
      rw [hlate] at hhappened
      refine ⟨[(d, .telemetry (.attitude a))], ?_⟩
      rw [hexpire, hlapse]
      refine ⟨h.begun, ⟨h.timely.sorted, hfree⟩, hle, hagenda,
        hhappened.strike hdue hle h.begun, ?_⟩
      rw [replay_append]
      exact h.matched.deliver (.telemetry (.attitude a))
    · refine ⟨[], hstay ?_⟩
      rw [lapse, hlate]
      exact if_neg hdue

/-- Changes that are none of a telemetry writer. -/
theorem Since.aside {s : Shared Rig} (h : Since start past tl) (hs : Aside tl.shared s) :
    Since start past { tl with shared := s } where
  begun := h.begun
  timely := ⟨h.timely.sorted, h.timely.ahead⟩
  le := h.le
  agenda := h.agenda
  happened := by
    rw [hs.2]
    exact h.happened
  matched := h.matched.aside hs

theorem Since.note (h : Since start past tl) (notes : List Note) :
    Since start past { tl with shared := tl.shared.note notes } := h.aside ⟨rfl, rfl⟩

/-- **What has happened only grows.** -/
theorem lasting_since (start : Scene) (past : List (Instant × Event)) :
    Timeline.Lasting Aside fun tl => ∃ more, Since start (past ++ more) tl where
  timely := by
    rintro tl ⟨more, h⟩
    exact h.timely
  arrive := by
    rintro tl t ⟨more, h⟩ ht
    have h' := h.arrive ht
    rw [List.append_assoc] at h'
    exact ⟨_, h'⟩
  expire := by
    rintro tl d ⟨more, h⟩ hd hfree
    obtain ⟨more', h'⟩ := h.expire hd hfree
    rw [List.append_assoc] at h'
    exact ⟨_, h'⟩
  note := by
    rintro tl notes ⟨more, h⟩
    exact ⟨more, h.note notes⟩
  change := by
    rintro tl s ⟨more, h⟩ hs
    exact ⟨more, h.aside hs⟩

/-- The attitude is the last one that was written, or the one of the beginning if there is none. -/
theorem Since.attitude (h : Since start past tl) :
    tl.shared.telemetry.attitude =
      ((written start.shared.rig.receiver.decoder past).getLast?.map Prod.snd).getD
        start.shared.telemetry.attitude := by
  rw [← replay_attitude]
  exact (congrArg Sample.attitude h.matched.1).symm

/-- An attitude that is not the one of the beginning was written. -/
theorem Since.written_ne_nil (h : Since start past tl)
    (hne : tl.shared.telemetry.attitude ≠ start.shared.telemetry.attitude) :
    written start.shared.rig.receiver.decoder past ≠ [] := by
  intro hnil
  rw [h.attitude, hnil] at hne
  exact hne rfl

/-- Once something was written, the attitude is from a write since the beginning. -/
theorem Since.exists_last (h : Since start past tl)
    (hne : written start.shared.rig.receiver.decoder past ≠ []) :
    ∃ t a, (written start.shared.rig.receiver.decoder past).getLast? = some (t, a) ∧
      start.now ≤ t ∧ t ≤ tl.now ∧ tl.shared.telemetry.attitude = a := by
  rcases List.eq_nil_or_concat' (written start.shared.rig.receiver.decoder past) with
    hnil | ⟨earlier, ⟨t, a⟩, hlast⟩
  · exact absurd hnil hne
  · have hget : (written start.shared.rig.receiver.decoder past).getLast? = some (t, a) := by
      rw [hlast, List.getLast?_concat]
    obtain ⟨e, he, rfl⟩ := mem_written (List.mem_of_getLast? hget)
    obtain ⟨hbegun, hnow⟩ := h.happened.mem h.begun he
    refine ⟨e.1, a, hget, hbegun, hnow, ?_⟩
    rw [h.attitude, hget]
    rfl

end Bench

end OnboardVision
