import Mathlib
import OnboardVision.Proofs.Settings.Listeners

/-!
# Histories of the settings hub

A history is a list of calls, in the order in which they were made, on a hub that starts out with no
slot taken and no snapshot published.  What the hub holds after it is told here without running it:

* `Hub.settingsAfter`: the settings are the result of all edits;
* `Hub.slotsAfter`: the slots belong to the first four who asked;
* `Hub.Offered`: which settings a snapshot was offered, and by which call of the history;
* `Hub.InForce`: a snapshot is what the last of them was that passed the checks.

`Hub.run_fresh` is the statement that the hub agrees with all of it, after every history.
-/

namespace OnboardVision

namespace Hub

/-- A call on the hub, or past it on one of the snapshots. -/
inductive Action where
  /-- Connect a listener. -/
  | connect (l : Listener)
  /-- Edit the settings; to replace them is an edit too. -/
  | update (edit : Settings → Settings)
  /-- Publish settings directly to a snapshot. -/
  | publish (i : ℕ) (s : Settings)
  /-- Start vision with a snapshot, for the given modules. -/
  | activate (t : ModuleTable) (i : ℕ)

/-- The hub after a call.  What the call returns is left out, and so is what a started vision does
first. -/
def act (h : Hub) : Action → Hub
  | .connect l => (h.connect l).toOption.getD h
  | .update edit => (h.update edit).1
  | .publish i s => (h.publish i s).toOption.getD h
  | .activate t i => (h.activate t i fun _ => ()).2.1

/-- The hub after a history. -/
def run (h : Hub) (as : List Action) : Hub := as.foldl act h

/-- A hub before its first call: snapshots for capture buffers of the given capacities, and so many
counters. -/
def fresh (start : Settings) (capacities : List ℕ) (counters : ℕ) : Hub where
  settings := start
  published := capacities.map ({ capacity := · })
  counters := List.replicate counters 0

/-! ### What a history says -/

/-- The edit that a call makes. -/
def Action.edit? : Action → Option (Settings → Settings)
  | .update edit => some edit
  | _ => none

/-- The settings after all edits in order. -/
def settingsAfter (start : Settings) (as : List Action) : Settings :=
  (as.filterMap Action.edit?).foldl (fun s edit => edit s) start

/-- Who asks for a slot. -/
def Action.candidate? : Action → Option Listener
  | .connect l => some l
  | .activate t i => if t.isOn .vision then some (.published i) else none
  | _ => none

/-- The first candidates get the slots. -/
def slotsAfter (as : List Action) : List Listener :=
  (as.filterMap Action.candidate?).take maxListeners

/-- The settings that a call offers to the snapshot `i` on a hub with these settings and slots. -/
def Action.offer? (settings : Settings) (slots : List Listener) (i : ℕ) : Action → Option Settings
  | .connect _ => none
  | .update edit => if .published i ∈ slots then some (edit settings) else none
  | .publish j s => if j = i then some s else none
  | .activate t j =>
    if j = i ∧ t.isOn .vision ∧ slots.length < maxListeners then some settings else none

/-- The call `k` of the history offers the settings `s` to the snapshot `i`. -/
def Offered (start : Settings) (as : List Action) (i k : ℕ) (s : Settings) : Prop :=
  ∃ a, as[k]? = some a ∧
    a.offer? (settingsAfter start (as.take k)) (slotsAfter (as.take k)) i = some s

/-- How often a call notifies the counter `k` on a hub with these slots. -/
def Action.rings (slots : List Listener) (k : ℕ) : Action → ℕ
  | .update _ => slots.count (.counter k)
  | _ => 0

/-- How often a history notifies the counter `k`. -/
def ringsAfter (as : List Action) (k : ℕ) : ℕ :=
  (as.zipIdx.map fun (a, j) => a.rings (slotsAfter (as.take j)) k).sum

/-- What the snapshot `i` of a capture buffer of `capacity` pixels is after a history: the last
settings offered to it that passed the checks, all values of it, or else the default. -/
def InForce (start : Settings) (as : List Action) (i capacity : ℕ) (sn : Snapshot) : Prop :=
  (∃ k s, Offered start as i k s ∧ s.Passes capacity ∧ sn = ⟨s⟩ ∧
    ∀ k' s', k < k' → Offered start as i k' s' → ¬ s'.Passes capacity) ∨
  ((∀ k s, Offered start as i k s → ¬ s.Passes capacity) ∧ sn = {})

/-! ### One call -/

theorem connect_of_lt {h : Hub} (hlt : h.slots.length < maxListeners) (l : Listener) :
    h.connect l = .ok { h with slots := h.slots ++ [l] } := if_pos hlt

theorem connect_of_le {h : Hub} (hle : maxListeners ≤ h.slots.length) (l : Listener) :
    h.connect l = .error .tooManyListeners := if_neg (Nat.not_lt_of_le hle)

theorem act_connect (h : Hub) (l : Listener) :
    h.act (.connect l) =
      if h.slots.length < maxListeners then { h with slots := h.slots ++ [l] } else h := by
  by_cases hlt : h.slots.length < maxListeners
  · rw [act, connect_of_lt hlt, if_pos hlt]
    rfl
  · rw [act, connect_of_le (Nat.le_of_not_lt hlt), if_neg hlt]
    rfl

theorem act_publish (h : Hub) (i : ℕ) (s : Settings) :
    h.act (.publish i s) =
      { h with published := h.published.modify i fun p => (p.refresh s).1 } := by
  have hact : h.act (.publish i s) = (h.publish i s).toOption.getD h := rfl
  rw [hact, publish]
  cases hp : h.published[i]? with
  | none =>
    have hlen : h.published.length ≤ i := List.getElem?_eq_none_iff.1 hp
    rw [List.modify_eq_self hlen]
    rfl
  | some p =>
    have hset : h.published.modify i (fun p => (p.refresh s).1) =
        h.published.set i (p.refresh s).1 := by
      rw [List.modify_eq_set_getElem?, hp]
      rfl
    rw [hset]
    rcases Snapshot.ofSettings_cases s p.capacity with hs | ⟨e, hs⟩
    · rw [Published.refresh_of_passes hs]
      simp only [Published.publish_of_passes hs]
      rfl
    · have hstay : h.published.set i p = h.published := by
        obtain ⟨hi, rfl⟩ := List.getElem?_eq_some_iff.1 hp
        exact List.set_getElem_self hi
      rw [Published.refresh_of_error hs, hstay]
      simp only [Published.publish_of_error hs]
      rfl

theorem act_activate (h : Hub) (t : ModuleTable) (i : ℕ) :
    h.act (.activate t i) =
      if t.isOn .vision = true ∧ h.slots.length < maxListeners then
        ({ h with slots := h.slots ++ [Listener.published i] }.tell (.published i)).1
      else h := by
  have hact : h.act (.activate t i) = (h.activate t i fun _ => ()).2.1 := rfl
  rw [hact, activate]
  by_cases ht : t.isOn .vision = true
  · by_cases hlt : h.slots.length < maxListeners
    · rw [if_pos ht, connect_of_lt hlt, if_pos ⟨ht, hlt⟩]
    · rw [if_pos ht, connect_of_le (Nat.le_of_not_lt hlt), if_neg fun hon => hlt hon.2]
  · rw [if_neg ht, if_neg fun hon => ht hon.1]

theorem act_settings (h : Hub) (a : Action) :
    (h.act a).settings = (a.edit?.map (· h.settings)).getD h.settings := by
  cases a with
  | connect l =>
    rw [act_connect]
    split <;> rfl
  | update edit => exact update_settings h edit
  | publish i s =>
    rw [act_publish]
    rfl
  | activate t i =>
    rw [act_activate]
    split
    · rw [tell_settings]
      rfl
    · rfl

/-- A candidate gets the next slot while there is one. -/
theorem act_slots (h : Hub) (a : Action) :
    (h.act a).slots =
      if h.slots.length < maxListeners then h.slots ++ a.candidate?.toList else h.slots := by
  cases a with
  | connect l =>
    rw [act_connect]
    split <;> rfl
  | update edit =>
    rw [act, update_slots]
    simp [Action.candidate?]
  | publish i s =>
    rw [act_publish]
    simp [Action.candidate?]
  | activate t i =>
    rw [act_activate]
    by_cases ht : t.isOn .vision = true
    · simp only [ht, true_and, Action.candidate?, ↓reduceIte, Option.toList_some]
      split
      · rw [tell_slots]
      · rfl
    · simp [ht, Action.candidate?]

/-- A call reaches a snapshot with the settings that it offers, and no other snapshot. -/
theorem act_published (h : Hub) (a : Action) (i : ℕ) :
    (h.act a).published[i]? =
      h.published[i]?.map fun p =>
        ((a.offer? h.settings h.slots i).map fun s => (p.refresh s).1).getD p := by
  cases a with
  | connect l =>
    rw [act_connect]
    simp only [Action.offer?, Option.map_none, Option.getD_none, Option.map_id']
    split <;> rfl
  | update edit =>
    rw [act, update_published]
    simp only [Action.offer?]
    split <;> simp
  | publish j s =>
    rw [act_publish, List.getElem?_modify]
    simp only [Action.offer?]
    split <;> simp
  | activate t j =>
    rw [act_activate]
    by_cases hon : t.isOn .vision = true ∧ h.slots.length < maxListeners
    · rw [if_pos hon, tell_published]
      simp only [Action.offer?, Listener.published.injEq, hon, and_true]
      split <;> simp
    · rw [if_neg hon]
      have hno : ¬ (j = i ∧ t.isOn .vision = true ∧ h.slots.length < maxListeners) :=
        fun hj => hon hj.2
      simp [Action.offer?, hno]

/-- Only edits count, once for every slot. -/
theorem act_counters (h : Hub) (a : Action) (k : ℕ) :
    (h.act a).counters[k]? = h.counters[k]?.map (· + a.rings h.slots k) := by
  cases a with
  | connect l =>
    rw [act_connect]
    split <;> simp [Action.rings]
  | update edit => exact update_counters h edit k
  | publish i s =>
    rw [act_publish]
    simp [Action.rings]
  | activate t i =>
    rw [act_activate]
    split
    · rw [tell_counters]
      simp [Action.rings]
    · simp [Action.rings]

/-! ### A whole history -/

theorem run_append_singleton (h : Hub) (as : List Action) (a : Action) :
    h.run (as ++ [a]) = (h.run as).act a := by
  simp only [run, List.foldl_append, List.foldl_cons, List.foldl_nil]

theorem settingsAfter_append_singleton (start : Settings) (as : List Action) (a : Action) :
    settingsAfter start (as ++ [a]) =
      (a.edit?.map (· (settingsAfter start as))).getD (settingsAfter start as) := by
  unfold settingsAfter
  rw [List.filterMap_append, List.foldl_append]
  cases h : a.edit? <;> simp [h]

theorem take_append_toList {α : Type} (n : ℕ) (l : List α) (o : Option α) :
    (l ++ o.toList).take n = if (l.take n).length < n then l.take n ++ o.toList else l.take n := by
  by_cases hlt : l.length < n
  · have hall : l.take n = l := List.take_of_length_le (Nat.le_of_lt hlt)
    have hfit : (l ++ o.toList).length ≤ n := by cases o <;> simp <;> omega
    rw [hall, if_pos hlt, List.take_of_length_le hfit]
  · have hle : n ≤ l.length := Nat.le_of_not_lt hlt
    have hfull : ¬ (l.take n).length < n := by rw [List.length_take]; omega
    rw [if_neg hfull, List.take_append_of_le_length hle]

theorem slotsAfter_append_singleton (as : List Action) (a : Action) :
    slotsAfter (as ++ [a]) =
      if (slotsAfter as).length < maxListeners then slotsAfter as ++ a.candidate?.toList
      else slotsAfter as := by
  have hone : [a].filterMap Action.candidate? = a.candidate?.toList := by
    cases h : a.candidate? <;> simp [h]
  unfold slotsAfter
  rw [List.filterMap_append, hone, take_append_toList]

theorem run_settings (h : Hub) (as : List Action) :
    (h.run as).settings = settingsAfter h.settings as := by
  induction as using List.reverseRecOn with
  | nil => rfl
  | append_singleton as a ih =>
    rw [run_append_singleton, act_settings, ih, settingsAfter_append_singleton]

theorem run_slots {h : Hub} (h0 : h.slots = []) (as : List Action) :
    (h.run as).slots = slotsAfter as := by
  induction as using List.reverseRecOn with
  | nil => exact h0
  | append_singleton as a ih =>
    rw [run_append_singleton, act_slots, ih, slotsAfter_append_singleton]

theorem slotsAfter_length_le (as : List Action) : (slotsAfter as).length ≤ maxListeners :=
  List.length_take_le _ _

/-- A longer history makes the same offers, and at most one more, by its last call. -/
theorem offered_append_singleton {start : Settings} {as : List Action} {a : Action} {i k : ℕ}
    {s : Settings} :
    Offered start (as ++ [a]) i k s ↔ Offered start as i k s ∨
      (k = as.length ∧ a.offer? (settingsAfter start as) (slotsAfter as) i = some s) := by
  unfold Offered
  -- an earlier call, the last one, or none at all
  rcases Nat.lt_trichotomy k as.length with hk | rfl | hk
  · rw [List.getElem?_append_left hk, List.take_append_of_le_length (Nat.le_of_lt hk)]
    simp [Nat.ne_of_lt hk]
  · simp
  · have hout : (as ++ [a])[k]? = none := List.getElem?_eq_none (by simp; omega)
    have hout' : as[k]? = none := List.getElem?_eq_none (Nat.le_of_lt hk)
    rw [hout, hout']
    simp [Nat.ne_of_gt hk]

theorem Offered.lt {start : Settings} {as : List Action} {i k : ℕ} {s : Settings}
    (h : Offered start as i k s) : k < as.length := by
  obtain ⟨a, ha, -⟩ := h
  exact (List.getElem?_eq_some_iff.1 ha).1

theorem ringsAfter_append_singleton (as : List Action) (a : Action) (k : ℕ) :
    ringsAfter (as ++ [a]) k = ringsAfter as k + a.rings (slotsAfter as) k := by
  have hold : as.zipIdx.map (fun x => x.1.rings (slotsAfter ((as ++ [a]).take x.2)) k) =
      as.zipIdx.map (fun x => x.1.rings (slotsAfter (as.take x.2)) k) := by
    refine List.map_congr_left fun x hx => ?_
    have hlt : x.2 < as.length := by simpa using (List.mem_zipIdx hx).2.1
    rw [List.take_append_of_le_length (Nat.le_of_lt hlt)]
  unfold ringsAfter
  rw [List.zipIdx_append, List.map_append, List.sum_append, hold]
  simp

theorem run_counters (h : Hub) (h0 : h.slots = []) (as : List Action) (k : ℕ) :
    (h.run as).counters[k]? = h.counters[k]?.map (· + ringsAfter as k) := by
  induction as using List.reverseRecOn with
  | nil => simp [run, ringsAfter]
  | append_singleton as a ih =>
    rw [run_append_singleton, act_counters, ih, run_slots h0, ringsAfter_append_singleton]
    cases h.counters[k]? <;> simp [Nat.add_assoc]

section InForce

variable {start : Settings} {as : List Action} {a : Action} {i capacity : ℕ} {s : Settings}
  {sn : Snapshot}

theorem inForce_of_passes (ho : a.offer? (settingsAfter start as) (slotsAfter as) i = some s)
    (hs : s.Passes capacity) : InForce start (as ++ [a]) i capacity ⟨s⟩ := by
  refine .inl ⟨as.length, s, offered_append_singleton.2 (.inr ⟨rfl, ho⟩), hs, rfl, ?_⟩
  intro k s' hk hoff
  have := hoff.lt
  rw [List.length_append, List.length_singleton] at this
  omega

theorem InForce.of_not_passes (h : InForce start as i capacity sn)
    (hno : ∀ s, a.offer? (settingsAfter start as) (slotsAfter as) i = some s →
      ¬ s.Passes capacity) : InForce start (as ++ [a]) i capacity sn := by
  rcases h with ⟨k, s, hoff, hs, hsn, hlater⟩ | ⟨hnone, hsn⟩
  · refine .inl ⟨k, s, offered_append_singleton.2 (.inl hoff), hs, hsn, ?_⟩
    intro k' s' hk hoff'
    rcases offered_append_singleton.1 hoff' with hold | ⟨-, hnew⟩
    · exact hlater k' s' hk hold
    · exact hno s' hnew
  · refine .inr ⟨fun k s hoff => ?_, hsn⟩
    rcases offered_append_singleton.1 hoff with hold | ⟨-, hnew⟩
    · exact hnone k s hold
    · exact hno s hnew

end InForce

/-- A snapshot follows the history. -/
theorem run_published {h : Hub} (h0 : h.slots = []) {i capacity : ℕ}
    (hi : h.published[i]? = some { capacity }) (as : List Action) :
    ∃ sn, (h.run as).published[i]? = some ⟨capacity, sn⟩ ∧
      InForce h.settings as i capacity sn := by
  induction as using List.reverseRecOn with
  | nil => exact ⟨{}, hi, .inr ⟨fun k s hoff => absurd hoff.lt (Nat.not_lt_zero k), rfl⟩⟩
  | append_singleton as a ih =>
    -- the last call offers nothing, or settings that pass, or settings that do not
    obtain ⟨sn, hsn, hforce⟩ := ih
    rw [run_append_singleton, act_published, hsn, run_settings, run_slots h0]
    cases ho : a.offer? (settingsAfter h.settings as) (slotsAfter as) i with
    | none => exact ⟨sn, rfl, hforce.of_not_passes fun s hs => by simp [ho] at hs⟩
    | some s =>
      by_cases hs : s.Passes capacity
      · refine ⟨⟨s⟩, ?_, inForce_of_passes ho hs⟩
        have hs' : s.Passes (⟨capacity, sn⟩ : Published).capacity := hs
        simp only [Option.map_some, Option.getD_some, Published.refresh_of_passes hs']
      · have hs' : ¬ s.Passes (⟨capacity, sn⟩ : Published).capacity := hs
        refine ⟨sn, ?_, hforce.of_not_passes fun s' hs'' => ?_⟩
        · simp only [Option.map_some, Option.getD_some, Published.refresh_of_not_passes hs']
        · rw [ho] at hs''
          exact Option.some.inj hs'' ▸ hs

/-- **The exact state of the settings hub over whole histories.** -/
theorem run_fresh (start : Settings) (capacities : List ℕ) (counters : ℕ) (as : List Action) :
    let h := (fresh start capacities counters).run as
    h.settings = settingsAfter start as ∧ h.slots = slotsAfter as ∧
      (∀ l e, h.connect l = .error e ↔ h.slots.length = maxListeners ∧ e = .tooManyListeners) ∧
      (∀ l e, h.connect l = .error e → h.act (.connect l) = h) ∧
      (∀ edit, (h.update edit).2 =
        h.slots.filterMap { h with settings := edit h.settings }.heard) ∧
      (∀ k : Fin counters, h.counters[k.val]? = some (ringsAfter as k)) ∧
      ∀ i : Fin capacities.length, InForce start as i capacities[i] (h.snapshot i) := by
  intro h
  have hslots : h.slots = slotsAfter as := run_slots rfl as
  have hlen : h.slots.length ≤ maxListeners := hslots ▸ slotsAfter_length_le as
  refine ⟨run_settings _ as, hslots, fun l e => ⟨fun he => ?_, ?_⟩, fun l e he => ?_,
    fun edit => update_notes h edit, fun k => ?_, fun i => ?_⟩
  · by_cases hlt : h.slots.length < maxListeners
    · rw [connect_of_lt hlt] at he
      cases he
    · rw [connect_of_le (Nat.le_of_not_lt hlt)] at he
      cases he
      exact ⟨Nat.le_antisymm hlen (Nat.le_of_not_lt hlt), rfl⟩
  · rintro ⟨hfull, rfl⟩
    exact connect_of_le (Nat.le_of_eq hfull.symm) l
  · rw [act, he]
    rfl
  · have hzero : (fresh start capacities counters).counters[k.val]? = some 0 := by
      simp [fresh, k.isLt]
    rw [run_counters _ rfl, hzero, Option.map_some, Nat.zero_add]
  · have hi : (fresh start capacities counters).published[i.val]? =
        some { capacity := capacities[i] } := by
      simp [fresh]
    obtain ⟨sn, hsn, hforce⟩ := run_published rfl hi as
    have hsnap : h.snapshot i = sn := by
      rw [snapshot, hsn]
      rfl
    exact hsnap ▸ hforce

/-- A counter that connects twice is notified twice. -/
example : ringsAfter [.connect (.counter 0), .connect (.counter 0), .update id] 0 = 2 := rfl

end Hub

end OnboardVision
