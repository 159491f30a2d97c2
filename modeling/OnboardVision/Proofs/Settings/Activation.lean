import OnboardVision.Proofs.Console.Edits
import OnboardVision.Proofs.Settings.History

/-!
# All or nothing when vision starts

Vision starts as a whole or not at all.  What it starts with, `spawn`, acts on the world outside the
hub, so it takes part in the statement with a state of its own (`Hub.activateIn`).

* `Hub.activate_of_on` and its two siblings: the three ways to go.
* `Hub.Attached.run`: a snapshot that has a slot keeps it, whatever is called later.

Main statement:

* `Hub.activate_all_or_nothing`: after every history, and for every content of flash.
-/

namespace OnboardVision

/-- Vision is on exactly if the seventh byte is `1`. -/
theorem ModuleTable.isOn_vision_ofBytes (raw : List UInt8) :
    (ofBytes raw).isOn .vision = true ↔ raw[6]? = some 1 := beq_iff_eq

/-- A snapshot after settings were offered to it. -/
def Snapshot.follow (sn : Snapshot) (s : Settings) (capacity : ℕ) : Snapshot :=
  if s.Passes capacity then ⟨s⟩ else sn

theorem Published.refresh_fst (p : Published) (s : Settings) :
    (p.refresh s).1 = ⟨p.capacity, p.snapshot.follow s p.capacity⟩ := by
  by_cases hs : s.Passes p.capacity
  · rw [refresh_of_passes hs, Snapshot.follow, if_pos hs]
  · rw [refresh_of_not_passes hs, Snapshot.follow, if_neg hs]

namespace Hub

variable {h : Hub} {t : ModuleTable} {i capacity : ℕ} {σ α : Type}

/-! ### The three ways to go -/

/-- The hub when vision has started: the snapshot `i` has a slot and has caught up. -/
def activated (h : Hub) (i capacity : ℕ) : Hub :=
  { h with
    slots := h.slots ++ [.published i]
    published := h.published.set i ⟨capacity, (h.snapshot i).follow h.settings capacity⟩ }

theorem activate_of_off (spawn : Hub → α) (hoff : ¬ t.isOn .vision = true) :
    h.activate t i spawn = (.ok none, h, [.visionDisabled]) := if_neg hoff

theorem activate_of_full (spawn : Hub → α) (hon : t.isOn .vision = true)
    (hfull : ¬ h.slots.length < maxListeners) :
    h.activate t i spawn = (.error .tooManyListeners, h, []) := by
  rw [activate, if_pos hon, connect_of_le (Nat.le_of_not_lt hfull)]

/-- The slot is taken and the snapshot catches up before `spawn` runs. -/
theorem activate_of_on (spawn : Hub → α) (hon : t.isOn .vision = true)
    (hfree : h.slots.length < maxListeners)
    (hi : h.published[i]? = some ⟨capacity, h.snapshot i⟩) :
    ∃ notes, h.activate t i spawn =
      (.ok (some (spawn (h.activated i capacity))), h.activated i capacity, notes) := by
  have htell : ({ h with slots := h.slots ++ [Listener.published i] }.tell (.published i)).1 =
      h.activated i capacity := by
    rw [tell_published_eq, activated, List.modify_eq_set_getElem?, hi]
    simp only [Published.refresh_fst]
    rfl
  rw [activate, if_pos hon, connect_of_lt hfree, ← htell]
  exact ⟨_, rfl⟩

/-! ### What `spawn` does -/

/-- Starts vision with a `spawn` that acts on the world outside the hub. -/
def activateIn (h : Hub) (t : ModuleTable) (i : ℕ) (spawn : Hub → σ → α × σ) (world : σ) :
    Except Refusal (Option α) × Hub × σ :=
  match h.activate t i fun seen => spawn seen world with
  | (.ok (some (a, world')), h', _) => (.ok (some a), h', world')
  | (.ok none, h', _) => (.ok none, h', world)
  | (.error e, h', _) => (.error e, h', world)

/-! ### Later calls -/

/-- A snapshot that has a slot keeps it, and goes on to check against the same buffer. -/
theorem Attached.run (ha : h.Attached i capacity) (as : List Action) :
    (h.run as).Attached i capacity := by
  induction as using List.reverseRecOn with
  | nil => exact ha
  | append_singleton as a ih =>
    rw [run_append_singleton]
    have hslot : .published i ∈ ((h.run as).act a).slots := by
      rw [act_slots]
      split
      · exact List.mem_append_left _ ih.slot
      · exact ih.slot
    have hpublished : ∃ sn, ((h.run as).act a).published[i]? = some ⟨capacity, sn⟩ := by
      rw [act_published, ih.published]
      cases a.offer? (h.run as).settings (h.run as).slots i with
      | none => exact ⟨_, rfl⟩
      | some s => exact ⟨_, congrArg some (Published.refresh_fst _ _)⟩
    obtain ⟨sn, hsn⟩ := hpublished
    exact ⟨hslot, (snapshot_of_published hsn).symm ▸ hsn⟩

/-- An edit reaches a snapshot that has a slot. -/
theorem Attached.snapshot_update (ha : h.Attached i capacity) (edit : Settings → Settings) :
    (h.update edit).1.snapshot i = (h.snapshot i).follow (edit h.settings) capacity := by
  by_cases hs : (edit h.settings).Passes capacity
  · rw [(ha.update_of_passes hs).2, Snapshot.follow, if_pos hs]
  · rw [(ha.update_of_not_passes hs).2, Snapshot.follow, if_neg hs]

theorem attached_activated (hi : h.published[i]? = some ⟨capacity, h.snapshot i⟩) :
    (h.activated i capacity).Attached i capacity := by
  have hlt : i < h.published.length := (List.getElem?_eq_some_iff.1 hi).1
  have hset : (h.activated i capacity).published[i]? =
      some ⟨capacity, (h.snapshot i).follow h.settings capacity⟩ :=
    List.getElem?_set_self hlt
  exact ⟨by simp [activated], (snapshot_of_published hset).symm ▸ hset⟩

/-- **Vision starts as a whole or not at all.**  It starts exactly if its byte in flash is `1` and a
slot is free.  Then the slot is taken and the snapshot has caught up with the settings when `spawn`
runs, `spawn` runs once, and every edit after any later calls reaches the snapshot.  In the other
cases the hub is as it was, and `spawn` does not run. -/
theorem activate_all_or_nothing (start : Settings) (capacities : List ℕ) (counters : ℕ)
    (as : List Action) (i : Fin capacities.length) (raw : List UInt8) (spawn : Hub → σ → α × σ)
    (world : σ) :
    let h := (fresh start capacities counters).run as
    let capacity := capacities.get i
    let free := h.slots.length < maxListeners
    let done := h.activateIn (.ofBytes raw) i spawn world
    ((∃ a, done.1 = .ok (some a)) ↔ raw[6]? = some 1 ∧ free) ∧
    (done.1 = .ok none ↔ raw[6]? ≠ some 1) ∧
    (∀ e, done.1 = .error e ↔ (raw[6]? = some 1 ∧ ¬ free) ∧ e = .tooManyListeners) ∧
    (∀ a, done.1 = .ok (some a) →
      done.2.1 = h.activated i capacity ∧ spawn done.2.1 world = (a, done.2.2) ∧
      ∀ later edit, ((done.2.1.run later).update edit).1.snapshot i =
        ((done.2.1.run later).snapshot i).follow (edit (done.2.1.run later).settings) capacity) ∧
    ((∀ a, done.1 ≠ .ok (some a)) → done.2 = (h, world)) := by
  intro h capacity free done
  have hfresh : (fresh start capacities counters).published[i.val]? = some { capacity } := by
    simp [fresh, capacity]
  obtain ⟨sn, hsn, -⟩ := run_published rfl hfresh as
  have hi : h.published[i.val]? = some ⟨capacity, h.snapshot i⟩ :=
    (snapshot_of_published hsn).symm ▸ hsn
  have hvision := ModuleTable.isOn_vision_ofBytes raw
  by_cases hon : (ModuleTable.ofBytes raw).isOn .vision = true
  · have hraw : raw[6]? = some 1 := hvision.1 hon
    by_cases hfree : free
    · obtain ⟨notes, hactivate⟩ := activate_of_on (fun seen => spawn seen world) hon hfree hi
      have hdone : done = (.ok (some (spawn (h.activated i capacity) world).1),
          h.activated i capacity, (spawn (h.activated i capacity) world).2) := by
        change activateIn h _ _ _ _ = _
        rw [activateIn, hactivate]
      rw [hdone]
      refine ⟨by simp [hraw, hfree], by simp [hraw], by simp [hfree], fun a ha => ?_, by simp⟩
      refine ⟨rfl, ?_, fun later edit => ?_⟩
      · simp only [Except.ok.injEq, Option.some.injEq] at ha
        rw [← ha]
      · exact ((attached_activated hi).run later).snapshot_update edit
    · have hdone : done = (.error .tooManyListeners, h, world) := by
        change activateIn h _ _ _ _ = _
        rw [activateIn, activate_of_full _ hon hfree]
      rw [hdone]
      refine ⟨by simp [hfree], by simp [hraw], fun e => ?_, by simp, fun _ => rfl⟩
      simp [hraw, hfree, eq_comm]
  · have hraw : raw[6]? ≠ some 1 := fun hraw => hon (hvision.2 hraw)
    have hdone : done = (.ok none, h, world) := by
      change activateIn h _ _ _ _ = _
      rw [activateIn, activate_of_off _ hon]
    rw [hdone]
    exact ⟨by simp [hraw], by simp [hraw], by simp [hraw], by simp, fun _ => rfl⟩

/-- A `spawn` that writes down the width it finds: it runs once, and finds the edited one. -/
example :
    let h := ((fresh {} [19200] 0).update fun s => { s with width := 80 }).1
    (h.activateIn (.ofBytes [0, 0, 0, 0, 0, 0, 1]) 0
      (fun seen log => ((), log ++ [(seen.snapshot 0).width])) []).2.2 = [80] := by
  decide +kernel

end Hub

end OnboardVision
