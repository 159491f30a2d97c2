import OnboardVision.Proofs.Settings.Activation

/-!
# What a line touches

A line that is no command, and one that only asks for the settings, leave everything as it was.  An
edit replaces what it names in the settings, keeps the rest of them, and notifies the slots.

* `Hub.tellAll_eq_foldl`: the slots are told one after the other, each of them once;
* `Hub.Edited`: all that an edit does;
* `Hub.edited_of_edit`: it does that.

Main statement:

* `Hub.execute_touches`: every line on every hub.
-/

namespace OnboardVision

namespace Hub

/-- A hub after an edit that has led to the settings `s`, and what was noted. -/
structure Edited (h : Hub) (s : Settings) (done : Executed) : Prop where
  /-- The settings are these. -/
  settings : done.hub.settings = s
  /-- Every slot was told once, in the order in which they were taken, about the new settings. -/
  told : done.hub = h.slots.foldl (fun h l => (h.tell l).1) { h with settings := s }
  /-- The slots stay. -/
  slots : done.hub.slots = h.slots
  /-- A counter has counted its slots. -/
  counters : ∀ k, done.hub.counters[k]? = h.counters[k]?.map (· + h.slots.count (.counter k))
  /-- A snapshot with a slot follows the settings, and no other one changes. -/
  published : ∀ j, done.hub.published[j]? = h.published[j]?.map fun p =>
    if .published j ∈ h.slots then ⟨p.capacity, p.snapshot.follow s p.capacity⟩ else p
  /-- Every slot of a snapshot has made its note, and so has the edit. -/
  notes : done.notes = h.slots.filterMap { h with settings := s }.heard ++ [.settingsEdited]

variable {h : Hub} {i : ℕ} {line : Except LineError (List Char)}

theorem tellAll_eq_foldl (h : Hub) (ls : List Listener) :
    (h.tellAll ls).1 = ls.foldl (fun h l => (h.tell l).1) h := by
  induction ls generalizing h with
  | nil => rfl
  | cons l ls ih => rw [tellAll_cons, ih, List.foldl_cons]

/-- An edit does what it does, and nothing else. -/
theorem edited_of_edit {c : Command} {edit : Settings → Settings}
    (hline : line >>= Command.read = .ok c) (he : c.edit? = some edit) :
    h.Edited (edit h.settings) (h.execute i line) := by
  rw [execute_of_command hline he]
  refine ⟨update_settings h edit, ?_, update_slots h edit, update_counters h edit, fun j => ?_, ?_⟩
  · exact tellAll_eq_foldl _ _
  · rw [update_published]
    split
    · simp only [Published.refresh_fst]
    · rw [Option.map_id']
  · rw [update_notes]

/-- **What a line touches.**  A line that is no command or asks for the settings leaves the hub as it
was, and nobody is notified.  An edit of the rate, the size or the wait sets what it names to the
values it gives, keeps the other settings, and notifies every slot once.  The reply is what is wrong
with the line, or it shows the snapshot that is in force when the line has been run. -/
theorem execute_touches (h : Hub) (i : ℕ) (line : Except LineError (List Char)) :
    let done := h.execute i line
    (∀ e, line >>= Command.read = .error e →
      done.hub = h ∧ done.notes = [] ∧ e.Says done.reply) ∧
    (line >>= Command.read = .ok .report → done.hub = h ∧ done.notes = []) ∧
    (∀ hz, line >>= Command.read = .ok (.rate hz) →
      h.Edited { h.settings with rate := hz } done) ∧
    (∀ width height, line >>= Command.read = .ok (.size width height) →
      h.Edited { h.settings with width, height } done) ∧
    (∀ ms, line >>= Command.read = .ok (.sync ms) →
      h.Edited { h.settings with syncMs := ms } done) ∧
    ∀ c, line >>= Command.read = .ok c →
      done.reply = (done.hub.snapshot i).reply ∧ (done.hub.snapshot i).Shows done.reply := by
  intro done
  refine ⟨fun e he => ?_, fun hreport => ?_, fun hz hc => edited_of_edit hc rfl,
    fun width height hc => edited_of_edit hc rfl, fun ms hc => edited_of_edit hc rfl,
    fun c hc => ⟨reply_execute h i hc, shows_execute h i hc⟩⟩
  · have hdone : done = ⟨e.reply, h, []⟩ := execute_of_error he
    refine ⟨?_, ?_, says_execute h i he⟩ <;> rw [hdone]
  · have hdone : done = ⟨(h.snapshot i).reply, h, []⟩ := execute_of_request hreport rfl
    rw [hdone]
    exact ⟨rfl, rfl⟩

/-- A size that the snapshot refuses, twice because it has two slots.  The settings keep it, the
counter between the two has counted once, and the reply shows the size that stays in force. -/
theorem refused_size_touches :
    let h : Hub := {
      slots := [.published 0, .counter 0, .published 0]
      published := [⟨160 * 120, {}⟩]
      counters := [7] }
    let line : Except LineError (List Char) := .ok "size 300 200".toList
    let done := h.execute 0 line
    line >>= Command.read = .ok (.size 300 200) ∧
      h.Edited { h.settings with width := 300, height := 200 } done ∧
      done.hub.counters[0]? = some 8 ∧
      done.notes = [.settingsRejected .frameTooLarge, .settingsRejected .frameTooLarge,
        .settingsEdited] ∧
      done.reply = "[CFG] 160x120 @ 30.0 Hz, period 33 ms\r\n" := by
  intro h line done
  have hline : line >>= Command.read = .ok (.size 300 200) := by decide
  obtain ⟨-, -, -, hsize, -, hreply⟩ := execute_touches h 0 line
  have hedited := hsize 300 200 hline
  have hshown : done.hub.snapshot 0 = h.snapshot 0 := by
    rw [hedited.told]
    decide
  refine ⟨hline, hedited, ?_, ?_, ?_⟩
  · rw [hedited.counters]
    decide
  · rw [hedited.notes]
    decide
  · rw [(hreply _ hline).1, hshown]
    decide

end Hub

end OnboardVision
