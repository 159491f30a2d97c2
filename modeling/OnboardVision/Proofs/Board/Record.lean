import Mathlib.Logic.Relation
import OnboardVision.Proofs.Board.Session
import OnboardVision.Proofs.History

/-!
# The record of the console

A session begins and ends, a packet is cut off, a summary is taken: after the fact the board does
not show it.  `Board.Watched` is a board with a record of what the console task has done, kept
beside it.

* `Board.Watched.plain_watch`: the record changes nothing on the board.
* `Board.Watched.steps_watch`: whatever happens on the board, and however the task splits up its
  work, the record grows by a few kinds of steps (`Board.Watched.Step`).
* `Board.Watched.Steps.invariant`: what every step keeps therefore holds of every record.
-/

namespace OnboardVision

namespace Board

/-! ### Records -/

/-- Something that is put on record. -/
inductive Deed where
  /-- A session begins. -/
  | opened
  /-- A session ends. -/
  | closed
  /-- The console task runs a byte, and the line that the byte ends, if any. -/
  | ran (b : UInt8) (line? : Option (Except LineError (List Char)))
  /-- The display makes a summary of an image. -/
  | shown (summary : Summary)
  /-- The console task takes the summary out of the channel. -/
  | took (summary : Summary)
  /-- The host gets a message. -/
  | sent (o : Output)
  deriving DecidableEq, Repr

namespace Deed

/-- A session begins or ends. -/
def isBoundary : Deed → Bool
  | .opened => true
  | .closed => true
  | _ => false

/-- The byte that is run. -/
def byte? : Deed → Option UInt8
  | .ran b _ => some b
  | _ => none

/-- The line that is run. -/
def line? : Deed → Option (Except LineError (List Char))
  | .ran _ line? => line?
  | _ => none

/-- The summary that the display makes. -/
def shown? : Deed → Option Summary
  | .shown x => some x
  | _ => none

/-- The summary that the console task takes. -/
def took? : Deed → Option Summary
  | .took x => some x
  | _ => none

/-- The message that the host gets. -/
def sent? : Deed → Option Output
  | .sent o => some o
  | _ => none

end Deed

/-- The bytes that are run. -/
def bytesOf (record : List Deed) : List UInt8 := record.filterMap Deed.byte?

/-- The lines that are run. -/
def linesOf (record : List Deed) : List (Except LineError (List Char)) :=
  record.filterMap Deed.line?

/-- The summaries that the display makes. -/
def shownIn (record : List Deed) : List Summary := record.filterMap Deed.shown?

/-- The messages that the host gets. -/
def sentIn (record : List Deed) : List Output := record.filterMap Deed.sent?

theorem bytesOf_append (xs ys : List Deed) : bytesOf (xs ++ ys) = bytesOf xs ++ bytesOf ys :=
  List.filterMap_append

theorem shownIn_append (xs ys : List Deed) : shownIn (xs ++ ys) = shownIn xs ++ shownIn ys :=
  List.filterMap_append

@[simp] theorem bytesOf_concat (record : List Deed) (d : Deed) :
    bytesOf (record ++ [d]) = bytesOf record ++ d.byte?.toList := filterMap_concat _ _ _

@[simp] theorem linesOf_concat (record : List Deed) (d : Deed) :
    linesOf (record ++ [d]) = linesOf record ++ d.line?.toList := filterMap_concat _ _ _

@[simp] theorem shownIn_concat (record : List Deed) (d : Deed) :
    shownIn (record ++ [d]) = shownIn record ++ d.shown?.toList := filterMap_concat _ _ _

@[simp] theorem sentIn_concat (record : List Deed) (d : Deed) :
    sentIn (record ++ [d]) = sentIn record ++ d.sent?.toList := filterMap_concat _ _ _

/-- A session goes on at the end of a record, and `own` is what it has on record. -/
structure Session (record own : List Deed) : Prop where
  /-- It has begun. -/
  begun : ∃ earlier, record = earlier ++ .opened :: own
  /-- It has not ended, and it is one. -/
  one : ∀ d ∈ own, d.isBoundary = false

/-- A session goes on at the end of a record. -/
def Open (record : List Deed) : Prop := ∃ own, Session record own

theorem open_opened (record : List Deed) : Open (record ++ [.opened]) :=
  ⟨[], ⟨record, rfl⟩, nofun⟩

theorem Open.concat {record : List Deed} {d : Deed} (h : Open record) (hd : d.isBoundary = false) :
    Open (record ++ [d]) := by
  obtain ⟨own, ⟨earlier, rfl⟩, hone⟩ := h
  refine ⟨own ++ [d], ⟨earlier, by simp⟩, ?_⟩
  exact List.forall_mem_append.2 ⟨hone, List.forall_mem_singleton.2 hd⟩

/-! ### A board on record -/

/-- A board and its record. -/
structure Watched where
  /-- The board. -/
  board : Shared Rig
  /-- The display. -/
  display : SummaryDisplay := {}
  /-- The message that the console task is sending. -/
  waiting : Option Output := none
  /-- What is on record, oldest first. -/
  record : List Deed := []

namespace Watched

/-- The board changes. -/
def turn (change : Shared Rig → Shared Rig) (w : Watched) : Watched :=
  { w with board := change w.board }

/-- Something is put on record. -/
def mark (d : Deed) (w : Watched) : Watched := { w with record := w.record ++ [d] }

/-- There is a message to send. -/
def hold (o : Output) (w : Watched) : Watched := { w with waiting := some o }

/-- The message is sent. -/
def send (now : Instant) (packets : List String) (w : Watched) : Watched :=
  { w with
    board := emit now packets w.board
    waiting := none
    record := w.record ++ (w.waiting.map .sent).toList }

/-- Runs the lines in the bytes of a packet. -/
def serve (now : Instant) : List UInt8 → Watched → Watched
  | [], w => w.turn (enter .listening)
  | b :: bs, w =>
    let (line?, reader) := w.board.rig.reader.feed b
    let w := (w.turn fun s => { s with rig := { s.rig with reader } }).mark (.ran b line?)
    match line? with
    | none => serve now bs w
    | some line =>
      let done := w.board.hub.execute 0 line
      let w := (w.turn fun s => { s with hub := done.hub }.note done.notes).hold (.reply done.reply)
      if w.board.rig.host.stalled then w.turn (enter (.sending (packetsOf done.reply) bs))
      else serve now bs (w.send now (packetsOf done.reply))

/-- Prints the pending summary. -/
def printSummary (now : Instant) (w : Watched) : Watched :=
  match w.board.rig.pending with
  | none => w
  | some x =>
    let w := ((w.turn fun s => { s with rig := { s.rig with pending := none } }).mark
      (.took x)).hold (.summary x)
    if w.board.rig.host.stalled then w.turn (enter (.sending (packetsOf x.line) []))
    else w.send now (packetsOf x.line)

/-- A session ends, and the message that waited is lost. -/
def close (w : Watched) : Watched := { w.mark .closed with waiting := none }

/-- Serves packets, and then the pending summary. -/
def listen (now : Instant) : List (List UInt8) → Watched → Watched
  | [], w => w.printSummary now
  | p :: ps, w =>
    let w := w.turn (leaving ps)
    if maxPacket < p.length then
      listen now ps ((w.close.mark .opened).turn (·.note [.consoleDisconnected, .consoleConnected]))
    else
      let w := w.serve now p
      if isSending w.board then w else listen now ps w

/-- Serves everything there is to serve in a session. -/
def serveSession (now : Instant) (w : Watched) : Watched :=
  w.listen now w.board.rig.host.packets

/-- The console task at an instant. -/
def runConsole (now : Instant) (w : Watched) : Watched :=
  match w.board.rig.phase with
  | .offline =>
    if w.board.rig.host.connected then
      ((w.mark .opened).turn fun s =>
        (enter .listening s).note [.consoleConnected]).serveSession now
    else w
  | .listening =>
    if w.board.rig.host.connected then w.serveSession now else w.close.turn hangUp
  | .sending packets rest =>
    if !w.board.rig.host.connected then w.close.turn hangUp
    else if w.board.rig.host.stalled then w
    else
      let w := (w.send now packets).serve now rest
      if isSending w.board then w else w.serveSession now

/-- The display is given an image. -/
def present (im : Image captureCapacity) (w : Watched) : Watched :=
  let (_, display, board) := w.display.present im w.board
  { w.mark (.shown ⟨display.count, im.width, im.height, im.mean⟩) with board, display }

end Watched

/-! ### What happens -/

/-- Something that happens on the board. -/
inductive Happening where
  /-- Something comes from outside. -/
  | event (e : Event)
  /-- The perception loop displays an image. -/
  | display (im : Image captureCapacity)
  /-- The console task runs until it waits. -/
  | console (now : Instant)
  /-- Something else changes, and the console does not see it. -/
  | aside (change : Shared Rig → Shared Rig)
      (apart : ∀ s, view (change s) = view s ∧ (change s).rig.host = s.rig.host)

/-- What it does to the board and the display. -/
def Happening.run : Shared Rig × SummaryDisplay → Happening → Shared Rig × SummaryDisplay
  | (s, d), .event e => (deliver e s, d)
  | (s, d), .display im => ((d.present im s).2.2, (d.present im s).2.1)
  | (s, d), .console now => (Board.runConsole now s, d)
  | (s, d), .aside change _ => (change s, d)

/-- What goes on around the loop at an instant is two happenings. -/
theorem settle_eq_run (now : Instant) (s : Shared Rig) (d : SummaryDisplay) :
    (Surroundings.settle now s, d) =
      [Happening.console now, .aside runTelemetry view_runTelemetry].foldl Happening.run (s, d) :=
  rfl

/-- Before the first session: the console task has read nothing, and no summary waits. -/
structure Dormant (s : Shared Rig) : Prop where
  /-- The task waits for the host. -/
  offline : s.rig.phase = .offline
  /-- No line is in progress. -/
  fresh : s.rig.reader = {}
  /-- No summary waits. -/
  empty : s.rig.pending = none

/-- What the record is about: what the console sees of the board, whatever it is doing. -/
def gist (s : Shared Rig) : ConsoleView := { view s with phase := .offline }

theorem gist_emit (now : Instant) (packets : List String) (s : Shared Rig) :
    gist (emit now packets s) = { gist s with printed := (gist s).printed ++ packets } := by
  rw [gist, view_emit]
  rfl

namespace Watched

/-- Something happens on a board on record. -/
def happen (w : Watched) : Happening → Watched
  | .event e => w.turn (deliver e)
  | .display im => w.present im
  | .console now => w.runConsole now
  | .aside change _ => w.turn change

/-- The record of a history from its beginning. -/
def watch (s : Shared Rig) (history : List Happening) : Watched :=
  history.foldl happen { board := s }

/-! ### The record changes nothing -/

variable (now : Instant) (w : Watched)

/-- What there is without the record. -/
def plain : Shared Rig × SummaryDisplay := (w.board, w.display)

theorem plain_serve (data : List UInt8) :
    (w.serve now data).plain = (Board.serve now data w.board, w.display) := by
  induction data generalizing w with
  | nil => rfl
  | cons b data ih =>
    rw [serve, Board.serve]
    rcases w.board.rig.reader.feed b with ⟨_ | line, reader⟩
    · exact ih _
    · dsimp only
      split
      · rename_i hstalled
        exact Prod.ext (if_pos hstalled).symm rfl
      · rename_i htakes
        refine (ih _).trans (Prod.ext (if_neg htakes).symm rfl)

theorem plain_printSummary :
    (w.printSummary now).plain = (Board.printSummary now w.board, w.display) := by
  rw [printSummary, Board.printSummary]
  cases w.board.rig.pending with
  | none => rfl
  | some x =>
    dsimp only
    split
    · rename_i hstalled
      exact Prod.ext (if_pos hstalled).symm rfl
    · rename_i htakes
      exact Prod.ext (if_neg htakes).symm rfl

theorem plain_listen (packets : List (List UInt8)) :
    (w.listen now packets).plain = (Board.listen now packets w.board, w.display) := by
  induction packets generalizing w with
  | nil => exact plain_printSummary now w
  | cons p packets ih =>
    rw [listen, Board.listen]
    dsimp only
    split
    · exact ih _
    · obtain ⟨hboard, hdisplay⟩ := Prod.ext_iff.1 ((w.turn (leaving packets)).plain_serve now p)
      change (serve now p (w.turn (leaving packets))).board =
        Board.serve now p (leaving packets w.board) at hboard
      rw [hboard]
      split
      · rename_i hsending
        exact Prod.ext (hboard.trans (if_pos hsending).symm) hdisplay
      · rename_i hnot
        rw [ih, hboard]
        exact Prod.ext (if_neg hnot).symm hdisplay

theorem plain_serveSession :
    (w.serveSession now).plain = (Board.serveSession now w.board, w.display) :=
  w.plain_listen now w.board.rig.host.packets

theorem plain_runConsole :
    (w.runConsole now).plain = (Board.runConsole now w.board, w.display) := by
  rw [runConsole, Board.runConsole]
  cases w.board.rig.phase with
  | offline =>
    dsimp only
    split
    · exact plain_serveSession now _
    · rfl
  | listening =>
    dsimp only
    split
    · exact w.plain_serveSession now
    · rfl
  | sending packets rest =>
    dsimp only
    split
    · rfl
    · split
      · rfl
      · obtain ⟨hboard, hdisplay⟩ := Prod.ext_iff.1 ((w.send now packets).plain_serve now rest)
        change (serve now rest (w.send now packets)).board =
          Board.serve now rest (emit now packets w.board) at hboard
        rw [hboard]
        split
        · exact Prod.ext hboard hdisplay
        · rw [plain_serveSession, hboard]
          exact Prod.ext rfl hdisplay

theorem plain_happen (h : Happening) : (w.happen h).plain = h.run w.plain := by
  cases h with
  | console now => exact w.plain_runConsole now
  | _ => rfl

/-- **The record changes nothing.** -/
theorem plain_watch (s : Shared Rig) (history : List Happening) :
    (watch s history).plain = history.foldl Happening.run (s, {}) := by
  suffices h : ∀ w : Watched, (history.foldl happen w).plain =
      history.foldl Happening.run w.plain from h _
  intro w
  induction history generalizing w with
  | nil => rfl
  | cons h history ih =>
    rw [List.foldl_cons, List.foldl_cons, ← plain_happen]
    exact ih _

/-! ### How a record grows -/

/-- The display hands over what it makes of an image if no summary is waiting. -/
theorem gist_present (im : Image captureCapacity) (w : Watched) :
    gist (w.present im).board = { gist w.board with
      pending := w.board.rig.pending.or
        (some ⟨w.display.count + 1, im.width, im.height, im.mean⟩) } := by
  change gist (w.display.present im w.board).2.2 = _
  rw [present_eq_offer, offer]
  cases hp : w.board.rig.pending with
  | some x =>
    rw [gist, view, hp]
    rfl
  | none => rfl

/-- The display counts the image, whether or not a summary is waiting. -/
theorem display_present (im : Image captureCapacity) (w : Watched) :
    (w.present im).display = { count := w.display.count + 1 } := by
  change (w.display.present im w.board).2.1 = _
  rw [SummaryDisplay.present]
  cases w.board.rig.pending <;> rfl

theorem record_present (im : Image captureCapacity) (w : Watched) : (w.present im).record =
    w.record ++ [.shown ⟨w.display.count + 1, im.width, im.height, im.mean⟩] := by
  have hcount := congrArg SummaryDisplay.count (display_present im w)
  change w.record ++ [.shown ⟨(w.present im).display.count, im.width, im.height, im.mean⟩] = _
  rw [hcount]

theorem record_send {w : Watched} {o : Output} (ho : w.waiting = some o) (now : Instant)
    (packets : List String) : (w.send now packets).record = w.record ++ [.sent o] := by
  rw [send, ho]
  rfl

/-- A record grows by one entry, or the board changes without it. -/
inductive Step (w : Watched) : Watched → Prop
  /-- Nothing changes that the record is about. -/
  | turn {change : Shared Rig → Shared Rig} (hs : gist (change w.board) = gist w.board) :
      Step w (w.turn change)
  /-- A session begins. -/
  | opened : Step w (w.mark .opened)
  /-- A session ends. -/
  | closed : Step w w.close
  /-- A byte is run that ends no line. -/
  | byte {s : Shared Rig} {b : UInt8} {reader : LineReader} (hopen : Open w.record)
      (hb : w.board.rig.reader.feed b = (none, reader))
      (hs : gist s = { gist w.board with reader }) :
      Step w { w.mark (.ran b none) with board := s }
  /-- A byte is run that ends a line. -/
  | line {s : Shared Rig} {b : UInt8} {reader : LineReader} {line : Except LineError (List Char)}
      (hopen : Open w.record) (hb : w.board.rig.reader.feed b = (some line, reader))
      (hs : gist s = { gist w.board with reader, hub := (w.board.hub.execute 0 line).hub }) :
      Step w ({ w.mark (.ran b (some line)) with board := s }.hold
        (.reply (w.board.hub.execute 0 line).reply))
  /-- The summary is taken out of the channel. -/
  | took {s : Shared Rig} {x : Summary} (hx : w.board.rig.pending = some x)
      (hs : gist s = { gist w.board with pending := none }) :
      Step w ({ w.mark (.took x) with board := s }.hold (.summary x))
  /-- The host gets the message. -/
  | sent {o : Output} (ho : w.waiting = some o) (now : Instant) :
      Step w (w.send now (packetsOf o.text))
  /-- The display makes a summary of an image. -/
  | shown (im : Image captureCapacity) : Step w (w.present im)

/-- A record grows. -/
def Steps : Watched → Watched → Prop := Relation.ReflTransGen Step

variable {w} {w' : Watched}

/-- What every step keeps. -/
theorem Steps.invariant {I : Watched → Prop} (h : Steps w w') (hw : I w)
    (hstep : ∀ w w', I w → Step w w' → I w') : I w' := by
  induction h with
  | refl => exact hw
  | tail _ hlast ih => exact hstep _ _ ih hlast

/-- The message on record as waiting is the one that the task is sending. -/
def Waits (w : Watched) : Prop :=
  match w.board.rig.phase with
  | .sending packets _ => ∃ o : Output, w.waiting = some o ∧ packets = packetsOf o.text
  | _ => w.waiting = none

theorem waits_iff (h : isSending w.board = false) : w.Waits ↔ w.waiting = none := by
  rw [Waits]
  rw [isSending] at h
  split
  · rename_i hphase
    rw [hphase] at h
    cases h
  · exact Iff.rfl

/-- The record is that of a session in which the task is working. -/
structure Attends (w : Watched) : Prop where
  /-- The session has begun. -/
  begun : Open w.record
  /-- What waits to be sent is on record. -/
  waits : w.Waits

theorem serve_steps (data : List UInt8) (hopen : Open w.record) (hidle : w.waiting = none) :
    Steps w (w.serve now data) ∧ (w.serve now data).Attends := by
  induction data generalizing w with
  | nil => exact ⟨.single (.turn rfl), hopen, hidle⟩
  | cons b data ih =>
    rw [serve]
    rcases hb : w.board.rig.reader.feed b with ⟨_ | line, reader⟩
    · dsimp only
      obtain ⟨hsteps, hafter⟩ := ih (w := (w.turn fun s =>
        { s with rig := { s.rig with reader } }).mark (.ran b none)) (hopen.concat rfl) hidle
      exact ⟨.head (.byte hopen hb rfl) hsteps, hafter⟩
    · have hline := hopen.concat (d := .ran b (some line)) rfl
      dsimp only
      -- the reply waits with the rest of the packet, or it is sent at once
      split
      · exact ⟨.head (.line hopen hb rfl) (.single (.turn rfl)), hline, _, rfl, rfl⟩
      · refine And.imp_left (fun hsteps => ?_) (ih (hline.concat (d := .sent _) rfl) rfl)
        refine .head ?_ (.head (.sent (o := .reply _) rfl now) hsteps)
        exact .line hopen hb rfl

theorem printSummary_steps (hopen : Open w.record) (hidle : w.waiting = none)
    (hnot : isSending w.board = false) :
    Steps w (w.printSummary now) ∧ (w.printSummary now).Attends := by
  rw [printSummary]
  cases hx : w.board.rig.pending with
  | none => exact ⟨.refl, hopen, (waits_iff hnot).2 hidle⟩
  | some x =>
    have htook := hopen.concat (d := .took x) rfl
    dsimp only
    split
    · exact ⟨.head (.took hx rfl) (.single (.turn rfl)), htook, _, rfl, rfl⟩
    · refine ⟨.head ?_ (.single (.sent (o := .summary x) rfl now)), htook.concat rfl,
        (waits_iff ?_).2 rfl⟩
      · exact .took hx rfl
      · exact hnot

theorem listen_steps (packets : List (List UInt8)) (hopen : Open w.record)
    (hidle : w.waiting = none) (hnot : isSending w.board = false) :
    Steps w (w.listen now packets) ∧ (w.listen now packets).Attends := by
  induction packets generalizing w with
  | nil => exact printSummary_steps now hopen hidle hnot
  | cons p packets ih =>
    rw [listen]
    dsimp only
    split
    · -- the packet is lost, and one session ends where the next one begins
      refine And.imp_left (fun hsteps => ?_) (ih (open_opened _) rfl hnot)
      exact .head (.turn rfl) (.head .closed (.head .opened (.head (.turn rfl) hsteps)))
    · obtain ⟨hsteps, hattends⟩ :=
        serve_steps now p (w := w.turn (leaving packets)) hopen hidle
      have hserved : Steps w (serve now p (w.turn (leaving packets))) := .head (.turn rfl) hsteps
      split
      · exact ⟨hserved, hattends⟩
      · rename_i hdone
        have hdone := Bool.eq_false_of_not_eq_true hdone
        obtain ⟨hrest, hafter⟩ := ih hattends.begun ((waits_iff hdone).1 hattends.waits) hdone
        exact ⟨hserved.trans hrest, hafter⟩

/-- The record goes with the board. -/
structure Coherent (w : Watched) : Prop where
  /-- A session is on record while the task is in one. -/
  begun : w.board.rig.phase ≠ .offline → Open w.record
  /-- What waits to be sent is on record. -/
  waits : w.Waits

theorem Attends.coherent (h : w.Attends) : w.Coherent := ⟨fun _ => h.begun, h.waits⟩

theorem hangUp_steps : Steps w (w.close.turn hangUp) ∧ (w.close.turn hangUp).Coherent :=
  ⟨.head .closed (.single (.turn rfl)), fun hphase => absurd rfl hphase, rfl⟩

theorem runConsole_steps (h : w.Coherent) :
    Steps w (w.runConsole now) ∧ (w.runConsole now).Coherent := by
  rw [runConsole]
  cases hphase : w.board.rig.phase with
  | offline =>
    dsimp only
    split
    · have hidle : w.waiting = none := (waits_iff (by rw [isSending, hphase])).1 h.waits
      refine And.imp (fun hsteps => ?_) Attends.coherent
        (listen_steps now _ (open_opened _) hidle rfl)
      exact .head .opened (.head (.turn rfl) hsteps)
    · exact ⟨.refl, h⟩
  | listening =>
    have hnot : isSending w.board = false := by rw [isSending, hphase]
    have hopen := h.begun (by simp [hphase])
    dsimp only
    split
    · exact And.imp_right Attends.coherent
        (listen_steps now _ hopen ((waits_iff hnot).1 h.waits) hnot)
    · exact hangUp_steps
  | sending packets rest =>
    have hopen := h.begun (by simp [hphase])
    have hwaits := h.waits
    rw [Waits, hphase] at hwaits
    obtain ⟨o, ho, rfl⟩ := hwaits
    dsimp only
    split
    · exact hangUp_steps
    · split
      · exact ⟨.refl, h⟩
      · have hsent : Open (w.send now (packetsOf o.text)).record := by
          rw [record_send ho]
          exact hopen.concat rfl
        obtain ⟨hsteps, hattends⟩ := serve_steps now rest hsent rfl
        have hserved := Relation.ReflTransGen.head (Step.sent ho now) hsteps
        split
        · exact ⟨hserved, hattends.coherent⟩
        · rename_i hdone
          have hdone := Bool.eq_false_of_not_eq_true hdone
          obtain ⟨hrest, hafter⟩ := listen_steps now _ hattends.begun
            ((waits_iff hdone).1 hattends.waits) hdone
          exact ⟨hserved.trans hrest, hafter.coherent⟩

theorem Coherent.of_phase (h : w.Coherent) (hphase : w'.board.rig.phase = w.board.rig.phase)
    (hwaiting : w'.waiting = w.waiting) (hopen : Open w.record → Open w'.record) :
    w'.Coherent := by
  refine ⟨fun hin => hopen (h.begun (hphase ▸ hin)), ?_⟩
  rw [Waits, hphase, hwaiting]
  exact h.waits

theorem happen_steps (h : w.Coherent) (m : Happening) :
    Steps w (w.happen m) ∧ (w.happen m).Coherent := by
  cases m with
  | event e =>
    refine ⟨.single (.turn ?_), h.of_phase ?_ rfl id⟩
    · cases e <;> rfl
    · cases e <;> rfl
  | display im =>
    refine ⟨.single (.shown im), h.of_phase ?_ rfl fun hopen => hopen.concat rfl⟩
    change (w.display.present im w.board).2.2.rig.phase = _
    rw [present_eq_offer, offer]
    split <;> rfl
  | console now => exact runConsole_steps now h
  | aside change apart =>
    obtain ⟨hview, -⟩ := apart w.board
    refine ⟨.single (.turn ?_), h.of_phase (congrArg ConsoleView.phase hview) rfl id⟩
    rw [gist, hview]
    rfl

/-- **How a record grows.**  Whatever happens on the board, every record is made of steps. -/
theorem watch_steps {s : Shared Rig} (h : s.rig.phase = .offline) (history : List Happening) :
    Steps { board := s } (watch s history) := by
  suffices hsteps : ∀ w : Watched, w.Coherent → Steps w (history.foldl happen w) by
    refine hsteps _ ⟨fun hin => absurd h hin, ?_⟩
    rw [Waits, h]
  intro w hw
  induction history generalizing w with
  | nil => exact .refl
  | cons m history ih =>
    obtain ⟨hfirst, hcoherent⟩ := happen_steps hw m
    exact hfirst.trans (ih _ hcoherent)

end Watched

end Board

end OnboardVision
