import Mathlib.Data.List.Induction
import OnboardVision.Proofs.Console.Texts
import OnboardVision.Proofs.Settings.Listeners

/-!
# Edits from the console

The console edits the settings, and the snapshot follows where they pass the checks.  The settings
keep what a snapshot refused, so settings and snapshot are two states: `Hub.execute_edit` says what
a line does to both after any lines before it, and when the outcome is the one that an operator sees
who only knows the snapshot.  `Hub.size_blocked_by_rate` is a case where it is not.
-/

namespace OnboardVision

/-- The edit that a line asks for. -/
def Command.editOf? (line : Except LineError (List Char)) : Option (Settings → Settings) :=
  match line >>= Command.read with
  | .ok c => c.edit?
  | .error _ => none

namespace Hub

/-- The hub after some lines. -/
def executeAll (h : Hub) (i : ℕ) (lines : List (Except LineError (List Char))) : Hub :=
  lines.foldl (fun h line => (h.execute i line).hub) h

/-- The snapshot `i` has a slot, and checks against `capacity` pixels. -/
structure Attached (h : Hub) (i capacity : ℕ) : Prop where
  /-- It is among the listeners. -/
  slot : .published i ∈ h.slots
  /-- It exists. -/
  published : h.published[i]? = some ⟨capacity, h.snapshot i⟩

variable {h : Hub} {i capacity : ℕ}

theorem snapshot_of_published {sn : Snapshot} (hp : h.published[i]? = some ⟨capacity, sn⟩) :
    h.snapshot i = sn := by
  rw [snapshot, hp]
  rfl

/-! ### One edit -/

/-- An edit that leads to settings that pass puts them in force. -/
theorem Attached.update_of_passes (ha : h.Attached i capacity) {edit : Settings → Settings}
    (hs : (edit h.settings).Passes capacity) :
    (h.update edit).1.Attached i capacity ∧ (h.update edit).1.snapshot i = ⟨edit h.settings⟩ := by
  have hs' : (edit h.settings).Passes (⟨capacity, h.snapshot i⟩ : Published).capacity := hs
  have hp : (h.update edit).1.published[i]? = some ⟨capacity, ⟨edit h.settings⟩⟩ := by
    rw [update_published, if_pos ha.slot, ha.published, Option.map_some,
      Published.refresh_of_passes hs']
  have hsn := snapshot_of_published hp
  exact ⟨⟨(update_slots h edit).symm ▸ ha.slot, hsn.symm ▸ hp⟩, hsn⟩

/-- An edit that leads to other settings leaves the snapshot. -/
theorem Attached.update_of_not_passes (ha : h.Attached i capacity) {edit : Settings → Settings}
    (hs : ¬ (edit h.settings).Passes capacity) :
    (h.update edit).1.Attached i capacity ∧ (h.update edit).1.snapshot i = h.snapshot i := by
  have hs' : ¬ (edit h.settings).Passes (⟨capacity, h.snapshot i⟩ : Published).capacity := hs
  have hp : (h.update edit).1.published[i]? = some ⟨capacity, h.snapshot i⟩ := by
    rw [update_published, if_pos ha.slot, ha.published, Option.map_some,
      Published.refresh_of_not_passes hs']
  have hsn := snapshot_of_published hp
  exact ⟨⟨(update_slots h edit).symm ▸ ha.slot, hsn.symm ▸ hp⟩, hsn⟩

/-! ### One line -/

section Line

variable {line : Except LineError (List Char)} {c : Command} {edit : Settings → Settings}

theorem execute_of_error {e : LineError} (hline : line >>= Command.read = .error e) :
    h.execute i line = ⟨e.reply, h, []⟩ := by
  simp only [execute, hline]

theorem execute_of_request (hline : line >>= Command.read = .ok c) (he : c.edit? = none) :
    h.execute i line = ⟨(h.snapshot i).reply, h, []⟩ := by
  simp only [execute, hline, perform, he]

theorem execute_of_command (hline : line >>= Command.read = .ok c) (he : c.edit? = some edit) :
    h.execute i line =
      ⟨((h.update edit).1.snapshot i).reply, (h.update edit).1,
        (h.update edit).2 ++ [.settingsEdited]⟩ := by
  simp only [execute, hline, perform, he]

theorem says_execute (h : Hub) (i : ℕ) {e : LineError}
    (hline : line >>= Command.read = .error e) : e.Says (h.execute i line).reply := by
  rw [execute_of_error hline]
  exact LineError.says_iff.2 rfl

/-- The reply to a command is that of the snapshot that is in force when it has been run. -/
theorem reply_execute (h : Hub) (i : ℕ) (hline : line >>= Command.read = .ok c) :
    (h.execute i line).reply = ((h.execute i line).hub.snapshot i).reply := by
  cases he : c.edit? with
  | none => rw [execute_of_request hline he]
  | some edit => rw [execute_of_command hline he]

theorem shows_execute (h : Hub) (i : ℕ) (hline : line >>= Command.read = .ok c) :
    ((h.execute i line).hub.snapshot i).Shows (h.execute i line).reply :=
  Snapshot.shows_iff.2 (reply_execute h i hline)

theorem execute_of_edit (he : Command.editOf? line = some edit) :
    (h.execute i line).hub = (h.update edit).1 ∧
      (h.execute i line).reply = ((h.execute i line).hub.snapshot i).reply := by
  cases hc : line >>= Command.read with
  | error e => simp [Command.editOf?, hc] at he
  | ok c =>
    have he' : c.edit? = some edit := by simpa only [Command.editOf?, hc] using he
    exact ⟨by rw [execute_of_command hc he'], reply_execute h i hc⟩

theorem execute_of_none (he : Command.editOf? line = none) : (h.execute i line).hub = h := by
  cases hc : line >>= Command.read with
  | error e => rw [execute_of_error hc]
  | ok c =>
    have he' : c.edit? = none := by simpa only [Command.editOf?, hc] using he
    rw [execute_of_request hc he']

end Line

/-! ### Lines -/

theorem executeAll_append_singleton (h : Hub) (i : ℕ) (lines : List (Except LineError (List Char)))
    (line : Except LineError (List Char)) :
    h.executeAll i (lines ++ [line]) = ((h.executeAll i lines).execute i line).hub := by
  simp only [executeAll, List.foldl_append, List.foldl_cons, List.foldl_nil]

/-- The settings keep every edit, refused or not. -/
theorem executeAll_settings (h : Hub) (i : ℕ) (lines : List (Except LineError (List Char))) :
    (h.executeAll i lines).settings =
      (lines.filterMap Command.editOf?).foldl (fun s edit => edit s) h.settings := by
  induction lines using List.reverseRecOn with
  | nil => rfl
  | append_singleton lines line ih =>
    rw [executeAll_append_singleton, List.filterMap_append, List.foldl_append, ← ih]
    cases he : Command.editOf? line with
    | none =>
      rw [execute_of_none he]
      simp [he]
    | some edit =>
      rw [(execute_of_edit he).1, update_settings]
      simp [he]

/-- The snapshot shows the settings, or they do not pass. -/
def InStep (h : Hub) (i capacity : ℕ) : Prop :=
  (h.snapshot i).toSettings = h.settings ∨ ¬ h.settings.Passes capacity

theorem Attached.inStep_update (ha : h.Attached i capacity) (edit : Settings → Settings) :
    (h.update edit).1.InStep i capacity := by
  by_cases hs : (edit h.settings).Passes capacity
  · left
    rw [(ha.update_of_passes hs).2, update_settings]
  · right
    rwa [update_settings]

theorem Attached.executeAll (ha : h.Attached i capacity) (hin : h.InStep i capacity)
    (lines : List (Except LineError (List Char))) :
    (h.executeAll i lines).Attached i capacity ∧ (h.executeAll i lines).InStep i capacity := by
  induction lines using List.reverseRecOn with
  | nil => exact ⟨ha, hin⟩
  | append_singleton lines line ih =>
    rw [executeAll_append_singleton]
    cases he : Command.editOf? line with
    | none => rwa [execute_of_none he]
    | some edit =>
      rw [(execute_of_edit he).1]
      refine ⟨?_, ih.1.inStep_update edit⟩
      by_cases hs : (edit (h.executeAll i lines).settings).Passes capacity
      · exact (ih.1.update_of_passes hs).1
      · exact (ih.1.update_of_not_passes hs).1

/-- **What an edit does after any lines.**  It applies to the settings with all edits before it, and
what they lead to is put in force or refused as a whole.  The reply shows the snapshot in force
afterwards.  An edit that could be applied to the snapshot alone is applied to it whenever no refused
edit is outstanding; and if one is, then exactly when it makes no difference. -/
theorem execute_edit {h₀ : Hub} (ha : h₀.Attached i capacity)
    (hstart : (h₀.snapshot i).toSettings = h₀.settings)
    (lines : List (Except LineError (List Char))) {line : Except LineError (List Char)}
    {edit : Settings → Settings} (he : Command.editOf? line = some edit) :
    let h := h₀.executeAll i lines
    let shown := (h.snapshot i).toSettings
    let done := h.execute i line
    let after := (done.hub.snapshot i).toSettings
    h.settings = (lines.filterMap Command.editOf?).foldl (fun s edit => edit s) h₀.settings ∧
      (done.reply = (done.hub.snapshot i).reply ∧ (done.hub.snapshot i).Shows done.reply) ∧
      (h.settings.Passes capacity → shown = h.settings) ∧
      ((edit h.settings).Passes capacity → after = edit h.settings) ∧
      (¬ (edit h.settings).Passes capacity → after = shown) ∧
      ((edit shown).Passes capacity →
        (shown = h.settings → after = edit shown) ∧
        (after = edit shown ↔ edit h.settings = edit shown ∨
          (¬ (edit h.settings).Passes capacity ∧ edit shown = shown))) := by
  intro h shown done after
  obtain ⟨hatt, hin⟩ := ha.executeAll (.inl hstart) lines
  obtain ⟨hhub, hreply⟩ := execute_of_edit (h := h) (i := i) he
  have hpass : (edit h.settings).Passes capacity → after = edit h.settings := by
    intro hs
    change (done.hub.snapshot i).toSettings = _
    rw [hhub, (hatt.update_of_passes hs).2]
  have hrefuse : ¬ (edit h.settings).Passes capacity → after = shown := by
    intro hs
    change (done.hub.snapshot i).toSettings = _
    rw [hhub, (hatt.update_of_not_passes hs).2]
  refine ⟨executeAll_settings h₀ i lines, ⟨hreply, Snapshot.shows_iff.2 hreply⟩,
    fun hs => hin.resolve_right (not_not_intro hs), hpass, hrefuse,
    fun hshown => ⟨fun heq => ?_, ?_⟩⟩
  · rw [heq] at hshown ⊢
    exact hpass hshown
  · by_cases hs : (edit h.settings).Passes capacity
    · rw [hpass hs]
      simp [hs]
    -- the settings are refused, so they are not what the snapshot would have become
    · have hne : edit h.settings ≠ edit shown := fun heq => hs (heq ▸ hshown)
      rw [hrefuse hs]
      simp [hs, hne, eq_comm]

/-- A rate of zero is refused, but stays in the settings.  It is gone with the next rate, and then a
size is put in force as if it had never been there. -/
theorem size_applied_after_rates :
    let h₀ : Hub := { slots := [.published 0], published := [⟨19200, {}⟩] }
    let lines := [.ok "rate 0".toList, .ok "rate 20".toList]
    let size := .ok "size 80 60".toList
    let edit : Settings → Settings := fun s => { s with width := 80, height := 60 }
    h₀.Attached 0 19200 ∧ (h₀.snapshot 0).toSettings = h₀.settings ∧
      Command.editOf? size = some edit ∧
      (((h₀.executeAll 0 lines).execute 0 size).hub.snapshot 0).toSettings =
        edit ((h₀.executeAll 0 lines).snapshot 0).toSettings := by
  intro h₀ lines size edit
  have ha : h₀.Attached 0 19200 := ⟨by decide, rfl⟩
  have he : Command.editOf? size = some edit := rfl
  obtain ⟨-, -, -, -, -, hshown⟩ := execute_edit ha rfl lines he
  have hs : (edit ((h₀.executeAll 0 lines).snapshot 0).toSettings).Passes 19200 := by
    decide +kernel
  have hsame : ((h₀.executeAll 0 lines).snapshot 0).toSettings =
      (h₀.executeAll 0 lines).settings := by decide
  exact ⟨ha, rfl, he, (hshown hs).1 hsame⟩

/-- Without that next rate the size is refused, although the snapshot could take it. -/
theorem size_blocked_by_rate :
    let h₀ : Hub := { slots := [.published 0], published := [⟨19200, {}⟩] }
    let h := h₀.executeAll 0 [.ok "rate 0".toList]
    let edit : Settings → Settings := fun s => { s with width := 80, height := 60 }
    h₀.Attached 0 19200 ∧ (h₀.snapshot 0).toSettings = h₀.settings ∧
      Command.editOf? (.ok "size 80 60".toList) = some edit ∧
      (edit (h.snapshot 0).toSettings).Passes 19200 ∧
      ((h.execute 0 (.ok "size 80 60".toList)).hub.snapshot 0).toSettings ≠
        edit (h.snapshot 0).toSettings := by
  intro h₀ h edit
  have he : Command.editOf? (.ok "size 80 60".toList) = some edit := rfl
  have hs : (edit (h.snapshot 0).toSettings).Passes 19200 := by decide
  exact ⟨⟨by decide, rfl⟩, rfl, he, hs, by decide⟩

end Hub

end OnboardVision
