import OnboardVision.Proofs.Board.Record

/-!
# Lines across sessions

The console task keeps the line in progress when a session ends, and the reader does not tell whose
bytes it holds.  So a line is made of everything that the task has run since the last terminator,
whenever that was.

Main statement:

* `Board.Watched.line_across_sessions`: a line on record has the bytes of its own session alone
  exactly if the earlier sessions left no line unfinished, or the session has ended a line before.
-/

namespace OnboardVision

namespace Board

open LineReader (isTerminator lineOf unfinished)

/-- A line on record is what all the bytes since the last terminator come to. -/
def Ends (before : List Deed) : Deed → Prop
  | .ran b (some line) =>
    isTerminator b ∧ lineOf (unfinished (bytesOf before)) = some line ∧ Open before
  | _ => True

namespace Watched

/-- The record tells what the console task has read and run. -/
structure Reads (h₀ : Hub) (w : Watched) : Prop where
  /-- The reader has come to the end of the bytes on record. -/
  holds : w.board.rig.reader.Holds (unfinished (bytesOf w.record))
  /-- The lines on record are those that were run. -/
  hub_eq : w.board.hub = (h₀.answers (linesOf w.record)).2
  /-- They are the lines of the bytes on record. -/
  ends : Always Ends w.record

variable {h₀ : Hub} {w w' : Watched} {b : UInt8} {reader : LineReader}

/-- Nothing is read. -/
theorem Reads.other {d : Deed} (h : Reads h₀ w) (hd : d.byte? = none)
    (hrecord : w'.record = w.record ++ [d])
    (hreader : w'.board.rig.reader = w.board.rig.reader) (hhub : w'.board.hub = w.board.hub) :
    Reads h₀ w' := by
  obtain ⟨hline, hends⟩ : d.line? = none ∧ ∀ before, Ends before d := by
    cases d with
    | ran b line? => cases hd
    | _ => exact ⟨rfl, fun _ => trivial⟩
  have hbytes : bytesOf w'.record = bytesOf w.record := by simp [hrecord, hd]
  have hlines : linesOf w'.record = linesOf w.record := by simp [hrecord, hline]
  refine ⟨?_, ?_, ?_⟩
  · rw [hreader, hbytes]
    exact h.holds
  · rw [hhub, hlines]
    exact h.hub_eq
  · rw [hrecord]
    exact h.ends.concat (hends _)

/-- A byte is read, and the line that it ends is run. -/
theorem Reads.ran {line? : Option (Except LineError (List Char))} (h : Reads h₀ w)
    (hopen : Open w.record) (hb : w.board.rig.reader.feed b = (line?, reader))
    (hrecord : w'.record = w.record ++ [.ran b line?]) (hreader : w'.board.rig.reader = reader)
    (hhub : w'.board.hub = (w.board.hub.answers line?.toList).2) : Reads h₀ w' := by
  have hbytes : bytesOf w'.record = bytesOf w.record ++ [b] := by simp [hrecord, Deed.byte?]
  have hlines : linesOf w'.record = linesOf w.record ++ line?.toList := by
    simp [hrecord, Deed.line?]
  refine ⟨?_, ?_, ?_⟩
  · have hnext := h.holds.next b
    rw [hb] at hnext
    rw [hreader, hbytes]
    exact hnext
  · rw [hhub, hlines, Hub.answers_append, ← h.hub_eq]
  · rw [hrecord]
    refine h.ends.concat ?_
    cases line? with
    | none => trivial
    | some line =>
      obtain ⟨hterminator, hline⟩ := h.holds.line (b := b) (congrArg Prod.fst hb)
      exact ⟨hterminator, hline, hopen⟩

theorem Reads.step (h : Reads h₀ w) (hstep : Step w w') : Reads h₀ w' := by
  cases hstep with
  | turn hs =>
    refine ⟨?_, (congrArg ConsoleView.hub hs).trans h.hub_eq, h.ends⟩
    rw [show (w.turn _).board.rig.reader = _ from congrArg ConsoleView.reader hs]
    exact h.holds
  | opened => exact h.other (d := .opened) rfl rfl rfl rfl
  | closed => exact h.other (d := .closed) rfl rfl rfl rfl
  | byte hopen hb hs =>
    exact h.ran hopen hb rfl (congrArg ConsoleView.reader hs) (congrArg ConsoleView.hub hs)
  | line hopen hb hs =>
    exact h.ran hopen hb rfl (congrArg ConsoleView.reader hs) (congrArg ConsoleView.hub hs)
  | took hx hs =>
    exact h.other (d := .took _) rfl rfl (congrArg ConsoleView.reader hs)
      (congrArg ConsoleView.hub hs)
  | @sent o ho now =>
    have hs := gist_emit now (packetsOf o.text) w.board
    exact h.other (d := .sent o) rfl (record_send ho now _) (congrArg ConsoleView.reader hs)
      (congrArg ConsoleView.hub hs)
  | shown im =>
    have hs := gist_present im w
    exact h.other (d := .shown _) rfl rfl (congrArg ConsoleView.reader hs)
      (congrArg ConsoleView.hub hs)

variable {s : Shared Rig} {before after earlier own : List Deed}
  {line : Except LineError (List Char)}

theorem reads_watch (h : Dormant s) (history : List Happening) :
    Reads s.hub (watch s history) := by
  refine (watch_steps h.offline history).invariant ?_ fun w w' hw => hw.step
  exact ⟨h.fresh ▸ LineReader.holds_nil, rfl, always_nil _⟩

/-- What is unfinished is what the last session has behind its last terminator, and in front of it
what there was before if it has none. -/
theorem unfinished_session (earlier own : List Deed) :
    unfinished (bytesOf (earlier ++ .opened :: own)) =
      (if (bytesOf own).any isTerminator then [] else unfinished (bytesOf earlier)) ++
        unfinished (bytesOf own) := by
  rw [bytesOf_append]
  change unfinished (bytesOf earlier ++ bytesOf own) = _
  rw [LineReader.unfinished_append]
  cases hany : (bytesOf own).any isTerminator with
  | true => rfl
  | false =>
    rw [LineReader.unfinished_eq_self hany]
    rfl

/-- It is all of the last session if that has a terminator, or if there was nothing before. -/
theorem unfinished_suffix_iff (earlier own : List Deed) :
    unfinished (bytesOf (earlier ++ .opened :: own)) <:+ bytesOf own ↔
      (bytesOf own).any isTerminator ∨ unfinished (bytesOf earlier) = [] := by
  rw [unfinished_session]
  cases hany : (bytesOf own).any isTerminator with
  | true => simpa using LineReader.unfinished_suffix (bytesOf own)
  | false =>
    rw [LineReader.unfinished_eq_self hany]
    constructor
    · intro hsuffix
      have hlength := hsuffix.length_le
      rw [List.length_append] at hlength
      exact .inr (List.eq_nil_of_length_eq_zero (by simpa using hlength))
    · intro hnothing
      rw [hnothing.resolve_left Bool.false_ne_true]
      exact List.suffix_refl _

/-- **A line may begin in an earlier session.**  Whatever happens on the board, the lines on record
are those that were run, and each of them was run in a session.  Its bytes are those of this session
behind the session's last terminator, and in front of them, as long as the session has had no
terminator, what the earlier sessions left unfinished.  So they are bytes of this session alone
exactly if the session has had a terminator or the earlier ones left nothing. -/
theorem line_across_sessions (h : Dormant s) (history : List Happening)
    (hran : (watch s history).record = before ++ .ran b (some line) :: after) :
    (history.foldl Happening.run (s, {})).1.hub =
        (s.hub.answers (linesOf (watch s history).record)).2 ∧
      isTerminator b ∧
      ∃ earlier own, before = earlier ++ .opened :: own ∧ (∀ d ∈ own, d.isBoundary = false) ∧
        lineOf ((if (bytesOf own).any isTerminator then [] else unfinished (bytesOf earlier)) ++
          unfinished (bytesOf own)) = some line ∧
        (unfinished (bytesOf before) <:+ bytesOf own ↔
          (bytesOf own).any isTerminator ∨ unfinished (bytesOf earlier) = []) := by
  have hreads := reads_watch h history
  obtain ⟨hterminator, hline, own, ⟨earlier, rfl⟩, hone⟩ := hreads.ends before _ after hran
  rw [unfinished_session] at hline
  refine ⟨?_, hterminator, earlier, own, rfl, hone, hline, unfinished_suffix_iff earlier own⟩
  rw [← plain_watch]
  exact hreads.hub_eq

/-- The host sends "sh" in one session, and "ow" and a terminator in the next one. -/
def splitShow : List Happening :=
  [.event (.host .connect), .event (.packet [115, 104]), .console 0, .event (.host .disconnect),
    .console 1000, .event (.host .connect), .event (.packet [111, 119, 13]), .console 2000]

/-- The task runs the line "show". -/
theorem record_splitShow : (watch { hub := Flight.hub, rig := {} } splitShow).record =
    [.opened, .ran 115 none, .ran 104 none, .closed, .opened, .ran 111 none, .ran 119 none,
      .ran 13 (some (.ok ['s', 'h', 'o', 'w'])),
      .sent (.reply "[CFG] 160x120 @ 30.0 Hz, period 33 ms\r\n")] := by
  decide +kernel

/-- What the theorem says of it. -/
theorem show_across_sessions :
    let record := (watch { hub := Flight.hub, rig := {} } splitShow).record
    let before : List Deed := [.opened, .ran 115 none, .ran 104 none, .closed, .opened,
      .ran 111 none, .ran 119 none]
    let after : List Deed := [.sent (.reply "[CFG] 160x120 @ 30.0 Hz, period 33 ms\r\n")]
    record = before ++ .ran 13 (some (.ok ['s', 'h', 'o', 'w'])) :: after ∧
      ∃ earlier own, before = earlier ++ .opened :: own ∧ (∀ d ∈ own, d.isBoundary = false) ∧
        lineOf ((if (bytesOf own).any isTerminator then [] else unfinished (bytesOf earlier)) ++
          unfinished (bytesOf own)) = some (.ok ['s', 'h', 'o', 'w']) ∧
        (unfinished (bytesOf before) <:+ bytesOf own ↔
          (bytesOf own).any isTerminator ∨ unfinished (bytesOf earlier) = []) := by
  intro record before after
  have hran : record = before ++ .ran 13 (some (.ok ['s', 'h', 'o', 'w'])) :: after :=
    record_splitShow
  obtain ⟨-, -, hline⟩ := line_across_sessions ⟨rfl, rfl, rfl⟩ splitShow hran
  exact ⟨hran, hline⟩

/-- The second session runs a line that begins with an "s" and has not received one. -/
theorem line_begun_earlier :
    ¬ ∀ (s : Shared Rig) (history : List Happening) (earlier own after : List Deed) (b : UInt8)
      (line : Except LineError (List Char)), Dormant s →
      (watch s history).record = (earlier ++ .opened :: own) ++ .ran b (some line) :: after →
      (∀ d ∈ own, d.isBoundary = false) →
      ∃ segment, (∀ x ∈ segment, x ∈ bytesOf own) ∧ lineOf segment = some line := by
  intro hall
  obtain ⟨segment, hown, hline⟩ := hall _ splitShow
    [.opened, .ran 115 none, .ran 104 none, .closed] [.ran 111 none, .ran 119 none] _ _ _
    ⟨rfl, rfl, rfl⟩ record_splitShow (by decide)
  have hchars : segment.map LineReader.char = ['s', 'h', 'o', 'w'] := by
    rw [lineOf] at hline
    split at hline
    · simp at hline
    · split at hline
      · cases hline
      · simpa using hline
  obtain ⟨x, hx, hs⟩ := List.mem_map.1 (hchars ▸ List.mem_cons_self : 's' ∈ segment.map _)
  have hx : x = 111 ∨ x = 119 := by simpa [bytesOf, Deed.byte?] using hown x hx
  rcases hx with rfl | rfl
  · exact absurd hs (by decide)
  · exact absurd hs (by decide)

end Watched

end Board

end OnboardVision
