import Mathlib.Data.List.Basic
import OnboardVision.Settings.Modules

/-!
# What an edit does to the listeners

An edit notifies the taken slots one after the other.  Notifying a snapshot twice about the same
settings is the same as notifying it once, so all that matters for the snapshots is who has a slot;
a counter counts its slots.

* `Snapshot.ofSettings_cases`: settings are put in force as they are, or refused.
* `Hub.update_published`, `Hub.update_counters`, `Hub.update_notes`: the state after an edit, and
  what was noted on the way, as functions of the state before it.
-/

namespace OnboardVision

/-- The settings pass the checks for a capture buffer of `capacity` pixels. -/
def Settings.Passes (s : Settings) (capacity : ℕ) : Prop :=
  Snapshot.ofSettings s capacity = .ok ⟨s⟩

theorem Settings.passes_iff {s : Settings} {capacity : ℕ} :
    s.Passes capacity ↔ ¬ (s.width = 0 ∨ s.height = 0) ∧
      ¬ capacity < s.width.toNat * s.height.toNat ∧ Snapshot.rateAllowed s.rate = true := by
  unfold Settings.Passes Snapshot.ofSettings
  split
  · simp_all
  · split
    · simp_all
    · split <;> simp_all

instance (s : Settings) (capacity : ℕ) : Decidable (s.Passes capacity) :=
  decidable_of_iff' _ Settings.passes_iff

theorem Snapshot.ofSettings_cases (s : Settings) (capacity : ℕ) :
    s.Passes capacity ∨ ∃ e, ofSettings s capacity = .error e := by
  unfold Settings.Passes ofSettings
  split
  · exact .inr ⟨_, rfl⟩
  · split
    · exact .inr ⟨_, rfl⟩
    · split
      · exact .inl rfl
      · exact .inr ⟨_, rfl⟩

theorem Settings.not_passes_iff {s : Settings} {capacity : ℕ} :
    ¬ s.Passes capacity ↔ ∃ e, Snapshot.ofSettings s capacity = .error e := by
  constructor
  · exact (Snapshot.ofSettings_cases s capacity).resolve_left
  · rintro ⟨e, he⟩ h
    rw [Passes, he] at h
    cases h

namespace Published

variable {p : Published} {s : Settings}

theorem publish_of_passes (h : s.Passes p.capacity) :
    p.publish s = .ok { p with snapshot := ⟨s⟩ } := by
  rw [publish, h]
  rfl

theorem publish_of_error {e : Refusal} (h : Snapshot.ofSettings s p.capacity = .error e) :
    p.publish s = .error e := by
  rw [publish, h]
  rfl

theorem refresh_of_passes (h : s.Passes p.capacity) :
    p.refresh s = ({ p with snapshot := ⟨s⟩ }, .settingsApplied ⟨s⟩) := by
  rw [refresh, publish_of_passes h]

theorem refresh_of_error {e : Refusal} (h : Snapshot.ofSettings s p.capacity = .error e) :
    p.refresh s = (p, .settingsRejected e) := by
  rw [refresh, publish_of_error h]

theorem refresh_of_not_passes (h : ¬ s.Passes p.capacity) : (p.refresh s).1 = p := by
  obtain ⟨e, he⟩ := Settings.not_passes_iff.1 h
  rw [refresh_of_error he]

/-- A second notification about the same settings changes nothing and says the same. -/
theorem refresh_refresh (p : Published) (s : Settings) :
    (p.refresh s).1.refresh s = p.refresh s := by
  rcases Snapshot.ofSettings_cases s p.capacity with h | ⟨e, h⟩
  · have h' : s.Passes ({ p with snapshot := ⟨s⟩ } : Published).capacity := h
    rw [refresh_of_passes h, refresh_of_passes h']
  · rw [refresh_of_error h, refresh_of_error h]

theorem map_refresh_refresh {α : Type} (f : Published × Note → α) (s : Settings)
    (p : Option Published) :
    (p.map fun p => (p.refresh s).1).map (fun p => f (p.refresh s)) =
      p.map fun p => f (p.refresh s) := by
  cases p with
  | none => rfl
  | some p => simp only [Option.map_some, refresh_refresh]

end Published

namespace Hub

/-! ### One notification -/

theorem tell_published_eq (h : Hub) (i : ℕ) :
    h.tell (.published i) =
      ({ h with published := h.published.modify i fun p => (p.refresh h.settings).1 },
        (h.published[i]?.map fun p => (p.refresh h.settings).2).toList) := by
  rw [tell]
  cases hp : h.published[i]? with
  | none =>
    have hlen : h.published.length ≤ i := List.getElem?_eq_none_iff.1 hp
    rw [List.modify_eq_self hlen]
    rfl
  | some p =>
    have hset : h.published.set i (p.refresh h.settings).1 =
        h.published.modify i fun p => (p.refresh h.settings).1 := by
      rw [List.modify_eq_set_getElem?, hp]
      rfl
    simp only [hset]
    rfl

@[simp] theorem tell_settings (h : Hub) (l : Listener) : (h.tell l).1.settings = h.settings := by
  cases l with
  | published i => rw [tell_published_eq]
  | counter k => rfl

@[simp] theorem tell_slots (h : Hub) (l : Listener) : (h.tell l).1.slots = h.slots := by
  cases l with
  | published i => rw [tell_published_eq]
  | counter k => rfl

theorem tell_published (h : Hub) (l : Listener) (i : ℕ) :
    (h.tell l).1.published[i]? =
      if l = .published i then h.published[i]?.map fun p => (p.refresh h.settings).1
      else h.published[i]? := by
  cases l with
  | published j =>
    rw [tell_published_eq]
    simp [List.getElem?_modify]
    split <;> simp
  | counter k => rfl

theorem tell_counters (h : Hub) (l : Listener) (k : ℕ) :
    (h.tell l).1.counters[k]? =
      h.counters[k]?.map (· + if l = .counter k then 1 else 0) := by
  cases l with
  | published j =>
    rw [tell_published_eq]
    simp
  | counter j =>
    simp [tell, List.getElem?_modify]
    split <;> simp

/-- What is noted when a listener is notified. -/
def heard (h : Hub) : Listener → Option Note
  | .published i => h.published[i]?.map fun p => (p.refresh h.settings).2
  | .counter _ => none

theorem tell_notes (h : Hub) (l : Listener) : (h.tell l).2 = (h.heard l).toList := by
  cases l with
  | published i => rw [tell_published_eq, heard]
  | counter k => rfl

/-- What is noted about one listener does not depend on who was told before. -/
theorem heard_tell (h : Hub) (l l' : Listener) : (h.tell l).1.heard l' = h.heard l' := by
  cases l' with
  | counter k => rfl
  | published i =>
    simp only [heard, tell_published, tell_settings]
    split
    · exact Published.map_refresh_refresh Prod.snd _ _
    · rfl

/-! ### All notifications of an edit -/

theorem tellAll_cons (h : Hub) (l : Listener) (ls : List Listener) :
    h.tellAll (l :: ls) =
      (((h.tell l).1.tellAll ls).1, (h.tell l).2 ++ ((h.tell l).1.tellAll ls).2) := rfl

theorem tellAll_settings (h : Hub) (ls : List Listener) :
    (h.tellAll ls).1.settings = h.settings := by
  induction ls generalizing h with
  | nil => rfl
  | cons l ls ih => rw [tellAll_cons, ih, tell_settings]

theorem tellAll_slots (h : Hub) (ls : List Listener) : (h.tellAll ls).1.slots = h.slots := by
  induction ls generalizing h with
  | nil => rfl
  | cons l ls ih => rw [tellAll_cons, ih, tell_slots]

theorem tellAll_published (h : Hub) (ls : List Listener) (i : ℕ) :
    (h.tellAll ls).1.published[i]? =
      if .published i ∈ ls then h.published[i]?.map fun p => (p.refresh h.settings).1
      else h.published[i]? := by
  induction ls generalizing h with
  | nil => simp [tellAll]
  | cons l ls ih =>
    rw [tellAll_cons, ih, tell_published, tell_settings]
    by_cases hl : l = .published i
    -- told now, and perhaps once more by a later slot
    · by_cases hmem : Listener.published i ∈ ls
      · simp only [hl, hmem, ↓reduceIte, List.mem_cons, or_true]
        exact Published.map_refresh_refresh Prod.fst _ _
      · simp [hl, hmem]
    · have hl' : ¬ Listener.published i = l := fun h => hl h.symm
      simp [hl, hl']

theorem tellAll_counters (h : Hub) (ls : List Listener) (k : ℕ) :
    (h.tellAll ls).1.counters[k]? = h.counters[k]?.map (· + ls.count (.counter k)) := by
  induction ls generalizing h with
  | nil => simp [tellAll]
  | cons l ls ih =>
    rw [tellAll_cons, ih, tell_counters, Option.map_map]
    congr 1
    funext n
    simp only [Function.comp_apply, List.count_cons, beq_iff_eq]
    omega

theorem tellAll_notes (h : Hub) (ls : List Listener) :
    (h.tellAll ls).2 = ls.filterMap h.heard := by
  induction ls generalizing h with
  | nil => rfl
  | cons l ls ih =>
    have hheard : (h.tell l).1.heard = h.heard := funext (heard_tell h l)
    rw [tellAll_cons, ih, tell_notes, hheard, List.filterMap_cons]
    cases h.heard l <;> rfl

theorem update_settings (h : Hub) (edit : Settings → Settings) :
    (h.update edit).1.settings = edit h.settings := tellAll_settings _ _

theorem update_slots (h : Hub) (edit : Settings → Settings) : (h.update edit).1.slots = h.slots :=
  tellAll_slots _ _

/-- An edit reaches a snapshot if it has a slot, however many. -/
theorem update_published (h : Hub) (edit : Settings → Settings) (i : ℕ) :
    (h.update edit).1.published[i]? =
      if .published i ∈ h.slots then h.published[i]?.map fun p => (p.refresh (edit h.settings)).1
      else h.published[i]? := tellAll_published _ _ _

/-- An edit counts once for every slot that a counter has. -/
theorem update_counters (h : Hub) (edit : Settings → Settings) (k : ℕ) :
    (h.update edit).1.counters[k]? = h.counters[k]?.map (· + h.slots.count (.counter k)) :=
  tellAll_counters _ _ _

/-- Every slot is notified once, in the order in which the slots were taken. -/
theorem update_notes (h : Hub) (edit : Settings → Settings) :
    (h.update edit).2 = h.slots.filterMap { h with settings := edit h.settings }.heard :=
  tellAll_notes _ _

end Hub

end OnboardVision
