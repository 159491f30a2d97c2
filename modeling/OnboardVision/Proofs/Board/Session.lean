import OnboardVision.Board.Flight
import OnboardVision.Proofs.Board.Downlink
import OnboardVision.Proofs.Console.Edits
import OnboardVision.Proofs.Console.Lines

/-!
# The output of a console session

In a session the host's packets, its stalls, the summaries of displayed images and everything else
on the board come in any order (`Board.Move`).  `Board.Told` says what the console task has made of
it: the messages that it has sent, the one that it waits to send, and the bytes that it has run.

* `Board.Told.serve`, `Board.InSession.listen`, `Board.InSession.move`: every move keeps it.
* `Board.served_runConsole`: nothing is left to do once the console task has run and the host takes
  packets.

Main statement:

* `Board.session_output`: what the host gets is whole messages: the replies to the lines of its
  stream, and each summary once.
-/

namespace OnboardVision

/-- The replies to lines that are run one after the other, and the hub behind them. -/
def Hub.answers (h : Hub) : List (Except LineError (List Char)) → List String × Hub
  | [] => ([], h)
  | line :: lines =>
    ((h.execute 0 line).reply :: ((h.execute 0 line).hub.answers lines).1,
      ((h.execute 0 line).hub.answers lines).2)

theorem Hub.answers_append (h : Hub) (xs ys : List (Except LineError (List Char))) :
    h.answers (xs ++ ys) =
      ((h.answers xs).1 ++ ((h.answers xs).2.answers ys).1, ((h.answers xs).2.answers ys).2) := by
  induction xs generalizing h with
  | nil => rfl
  | cons line xs ih => simp only [List.cons_append, answers, ih]

/-- Every reply says what is wrong with its line, or shows a snapshot. -/
theorem Hub.says_or_shows_of_mem_answers (h : Hub) (lines : List (Except LineError (List Char))) :
    ∀ text ∈ (h.answers lines).1,
      (∃ e : LineError, e.Says text) ∨ ∃ sn : Snapshot, sn.Shows text := by
  induction lines generalizing h with
  | nil => exact nofun
  | cons line lines ih =>
    intro text htext
    rcases List.mem_cons.1 htext with rfl | htext
    · cases hline : line >>= Command.read with
      | error e => exact .inl ⟨e, says_execute h 0 hline⟩
      | ok c => exact .inr ⟨_, shows_execute h 0 hline⟩
    · exact ih _ text htext

namespace Board

/-! ### Messages -/

/-- A message to the host. -/
inductive Output where
  /-- The reply to a line. -/
  | reply (text : String)
  /-- A summary. -/
  | summary (summary : Summary)
  deriving DecidableEq, Repr

namespace Output

/-- The text of a message. -/
def text : Output → String
  | .reply text => text
  | .summary x => x.line

/-- The reply that a message is. -/
def reply? : Output → Option String
  | .reply text => some text
  | .summary _ => none

/-- The summary that a message is. -/
def summary? : Output → Option Summary
  | .reply _ => none
  | .summary x => some x

end Output

/-- The replies among messages. -/
def replies (outputs : List Output) : List String := outputs.filterMap Output.reply?

/-- The summaries among messages. -/
def summaries (outputs : List Output) : List Summary := outputs.filterMap Output.summary?

@[simp] theorem replies_append (xs ys : List Output) :
    replies (xs ++ ys) = replies xs ++ replies ys := List.filterMap_append

@[simp] theorem summaries_append (xs ys : List Output) :
    summaries (xs ++ ys) = summaries xs ++ summaries ys := List.filterMap_append

theorem Summary.line_eq (x : Summary) :
    x.line = "[VIS] #" ++ toString x.count.toNat ++ " " ++ toString x.width.toNat ++ "x" ++
      toString x.height.toNat ++ " luma=" ++ toString x.mean.toNat ++ "\r\n" := by
  simp only [Summary.line, Note.size, lineEnd, String.append_assoc]

/-- The packets that messages are sent in. -/
def packetsOfAll (outputs : List Output) : List String := outputs.flatMap (packetsOf ·.text)

theorem packetsOfAll_append (xs ys : List Output) :
    packetsOfAll (xs ++ ys) = packetsOfAll xs ++ packetsOfAll ys := List.flatMap_append

/-- The packets of a text are the text. -/
theorem flatMap_packetsOf (text : String) :
    (packetsOf text).flatMap String.toList = text.toList := by
  rw [packetsOf, List.flatMap_map]
  simp only [String.toList_ofList]
  exact (List.flatMap_id).trans (flatten_pieces _ _)

theorem flatMap_packetsOfAll (outputs : List Output) :
    (packetsOfAll outputs).flatMap String.toList = outputs.flatMap (·.text.toList) := by
  rw [packetsOfAll, List.flatMap_assoc]
  exact List.flatMap_congr fun o _ => flatMap_packetsOf o.text

/-- The packet to the host that something sent is. -/
def Sent.packet? : Sent → Option String
  | .packet text => some text
  | .camera _ => none

/-- The packets that the host has got, oldest first. -/
def printed (s : Shared Rig) : List String := s.rig.sent.toList.filterMap (·.2.packet?)

theorem printed_emit (now : Instant) (packets : List String) (s : Shared Rig) :
    printed (emit now packets s) = printed s ++ packets := by
  have hpush : ∀ sent : Array (Instant × Sent),
      (packets.foldl (fun sent p => sent.push (now, .packet p)) sent).toList.filterMap
        (·.2.packet?) = sent.toList.filterMap (·.2.packet?) ++ packets := by
    induction packets with
    | nil => simp
    | cons p packets ih =>
      intro sent
      rw [List.foldl_cons, ih]
      simp [Sent.packet?]
  exact hpush s.rig.sent

/-! ### What happens in a session -/

/-- What the console task works on, and what it has sent. -/
structure ConsoleView where
  /-- The settings and the snapshots in force. -/
  hub : Hub
  /-- The line that it is reading. -/
  reader : LineReader
  /-- The summary that waits to be printed. -/
  pending : Option Summary
  /-- What it is doing. -/
  phase : ConsolePhase
  /-- The packets that the host has got. -/
  printed : List String

/-- The console's view of the board. -/
def view (s : Shared Rig) : ConsoleView :=
  ⟨s.hub, s.rig.reader, s.rig.pending, s.rig.phase, printed s⟩

/-- Hands over a summary, unless the last one is still waiting. -/
def offer (summary : Summary) (s : Shared Rig) : Shared Rig :=
  match s.rig.pending with
  | some _ => s
  | none => { s with rig := { s.rig with pending := some summary } }

/-- Something that happens in a session. -/
inductive Move where
  /-- The host sends a packet. -/
  | packet (data : List UInt8) (fits : data.length ≤ maxPacket)
  /-- The host takes no more packets. -/
  | stall
  /-- The host takes packets again. -/
  | resume
  /-- The display hands over a summary. -/
  | summary (summary : Summary)
  /-- The console task runs until it waits. -/
  | serve (now : Instant)
  /-- Something else changes, and the console does not see it. -/
  | aside (change : Shared Rig → Shared Rig)
      (apart : ∀ s, view (change s) = view s ∧ (change s).rig.host = s.rig.host)

namespace Move

/-- What a move does. -/
def run (s : Shared Rig) : Move → Shared Rig
  | .packet data _ => deliver (.packet data) s
  | .stall => deliver (.host .stall) s
  | .resume => deliver (.host .resume) s
  | .summary x => offer x s
  | .serve now => runConsole now s
  | .aside change _ => change s

/-- The bytes that the host sends with a move. -/
def bytes : Move → List UInt8
  | .packet data _ => data
  | _ => []

/-- The summary that a move puts into the channel. -/
def accepted? (s : Shared Rig) : Move → Option Summary
  | .summary x => if s.rig.pending.isNone then some x else none
  | _ => none

end Move

/-- The board after some moves. -/
def runAll (s : Shared Rig) (moves : List Move) : Shared Rig := moves.foldl Move.run s

/-- The bytes that the host sends in some moves. -/
def stream (moves : List Move) : List UInt8 := moves.flatMap Move.bytes

/-- The summaries that some moves put into the channel. -/
def accepted : Shared Rig → List Move → List Summary
  | _, [] => []
  | s, m :: moves => (m.accepted? s).toList ++ accepted (m.run s) moves

/-- The display hands over what it makes of an image. -/
theorem present_eq_offer (d : SummaryDisplay) (im : Image captureCapacity) (s : Shared Rig) :
    (d.present im s).2.2 = offer ⟨d.count + 1, im.width, im.height, im.mean⟩ s := by
  rw [SummaryDisplay.present, offer]
  cases s.rig.pending <;> rfl

/-- The telemetry task works beside the console. -/
theorem view_runTelemetry (s : Shared Rig) :
    view (runTelemetry s) = view s ∧ (runTelemetry s).rig.host = s.rig.host := by
  obtain ⟨telemetry, journal, receiver, hrest⟩ := runTelemetry_rest s
  rw [hrest]
  exact ⟨rfl, rfl⟩

/-- What goes on around the loop at an instant is two moves. -/
theorem settle_eq_runAll (now : Instant) (s : Shared Rig) :
    Surroundings.settle now s = runAll s [.serve now, .aside runTelemetry view_runTelemetry] := rfl

/-! ### What the console task has made of it -/

/-- The task has come from the view `v₀` to the view `v`: it has run the bytes `run` of its stream
and has sent the messages `outputs`, and it waits to send `waiting`; `taken` are the summaries that
have come into the channel. -/
structure Told (v₀ v : ConsoleView) (run : List UInt8) (taken : List Summary)
    (outputs waiting : List Output) : Prop where
  /-- The host has got the messages. -/
  printed_eq : v.printed = v₀.printed ++ packetsOfAll outputs
  /-- The replies are those to the lines of the bytes. -/
  answers_eq : (replies (outputs ++ waiting), v.hub) = v₀.hub.answers (LineReader.lines run)
  /-- The reader has come to the end of the bytes. -/
  reader_eq : v.reader = (({} : LineReader).feedAll 0 run).2
  /-- Every summary is in a message, or it is still in the channel. -/
  summaries_eq : summaries (outputs ++ waiting) ++ v.pending.toList = taken

variable {v₀ v : ConsoleView} {run read : List UInt8} {taken : List Summary}
  {outputs waiting : List Output} {b : UInt8} {reader : LineReader} {s s₀ : Shared Rig}
  {now : Instant}

theorem Told.enter (h : Told v₀ v run taken outputs waiting) (phase : ConsolePhase) :
    Told v₀ { v with phase } run taken outputs waiting :=
  ⟨h.printed_eq, h.answers_eq, h.reader_eq, h.summaries_eq⟩

/-- A byte that ends no line. -/
theorem Told.byte (h : Told v₀ v run taken outputs []) (hb : v.reader.feed b = (none, reader)) :
    Told v₀ { v with reader } (run ++ [b]) taken outputs [] := by
  rw [h.reader_eq] at hb
  refine ⟨h.printed_eq, ?_, ?_, h.summaries_eq⟩
  · rw [LineReader.lines_concat, hb, Option.toList_none, List.append_nil (LineReader.lines run)]
    exact h.answers_eq
  · rw [(LineReader.feedAll_concat _ _ _ _).2, hb]

/-- A byte that ends a line. -/
theorem Told.line {line : Except LineError (List Char)} (h : Told v₀ v run taken outputs [])
    (hb : v.reader.feed b = (some line, reader)) :
    Told v₀ { v with reader, hub := (v.hub.execute 0 line).hub } (run ++ [b]) taken outputs
      [.reply (v.hub.execute 0 line).reply] := by
  have hanswers := h.answers_eq
  rw [List.append_nil] at hanswers
  rw [h.reader_eq] at hb
  refine ⟨h.printed_eq, ?_, ?_, ?_⟩
  · rw [LineReader.lines_concat, hb, Option.toList_some, Hub.answers_append, ← hanswers,
      replies_append]
    rfl
  · rw [(LineReader.feedAll_concat _ _ _ _).2, hb]
  · have hsummaries := h.summaries_eq
    rw [List.append_nil] at hsummaries
    rw [summaries_append, ← hsummaries, List.append_assoc]
    rfl

/-- The summary in the channel is taken to be printed. -/
theorem Told.take {x : Summary} (h : Told v₀ v run taken outputs []) (hx : v.pending = some x) :
    Told v₀ { v with pending := none } run taken outputs [.summary x] := by
  refine ⟨h.printed_eq, ?_, h.reader_eq, ?_⟩
  · rw [← h.answers_eq, replies_append, replies_append]
    rfl
  · rw [← h.summaries_eq, hx, summaries_append, summaries_append, List.append_assoc,
      List.append_assoc]
    rfl

/-- A summary comes into the channel. -/
theorem Told.offer (h : Told v₀ v run taken outputs waiting) (hv : v.pending = none) (x : Summary) :
    Told v₀ { v with pending := some x } run (taken ++ [x]) outputs waiting := by
  refine ⟨h.printed_eq, h.answers_eq, h.reader_eq, ?_⟩
  rw [← h.summaries_eq, hv]
  simp

theorem view_emit (now : Instant) (packets : List String) (s : Shared Rig) :
    view (emit now packets s) = { view s with printed := (view s).printed ++ packets } := by
  rw [view, printed_emit]
  rfl

/-- The message that waits is sent. -/
theorem Told.send {o : Output} (h : Told v₀ v run taken outputs [o]) :
    Told v₀ { v with printed := v.printed ++ packetsOf o.text } run taken (outputs ++ [o]) [] := by
  refine ⟨?_, ?_, h.reader_eq, ?_⟩
  · change v.printed ++ packetsOf o.text = _
    rw [h.printed_eq, packetsOfAll, packetsOfAll, List.flatMap_append, List.append_assoc]
    simp
  · rw [List.append_nil]
    exact h.answers_eq
  · rw [List.append_nil]
    exact h.summaries_eq

/-- The task has read the bytes `read`.  It has run them all, unless it waits to send a message. -/
def Rests (v : ConsoleView) (read run : List UInt8) (waiting : List Output) : Prop :=
  match v.phase with
  | .sending packets rest =>
    read = run ++ rest ∧ ∃ o : Output, waiting = [o] ∧ packets = packetsOf o.text
  | _ => read = run ∧ waiting = []

/-- The task waits, and what it has read is accounted for. -/
def Keeps (v₀ v : ConsoleView) (read : List UInt8) (taken : List Summary) : Prop :=
  ∃ run outputs waiting, Told v₀ v run taken outputs waiting ∧ Rests v read run waiting

theorem Rests.of_not_sending (h : Rests (view s) read run waiting) (hs : isSending s = false) :
    read = run ∧ waiting = [] := by
  cases hp : s.rig.phase with
  | offline => simpa [Rests, view, hp] using h
  | listening => simpa [Rests, view, hp] using h
  | sending packets rest => simp [isSending, hp] at hs

theorem Rests.exists_rest (h : Rests v read run waiting) :
    ∃ rest, read = run ++ rest ∧ waiting.length ≤ 1 := by
  unfold Rests at h
  split at h
  · obtain ⟨hread, o, rfl, -⟩ := h
    exact ⟨_, hread, Nat.le_refl 1⟩
  · obtain ⟨hread, rfl⟩ := h
    exact ⟨[], by rw [hread, List.append_nil], Nat.zero_le 1⟩

theorem rests_of_not_sending (hs : isSending s = false) : Rests (view s) run run [] := by
  cases hp : s.rig.phase with
  | offline => simp [Rests, view, hp]
  | listening => simp [Rests, view, hp]
  | sending packets rest => simp [isSending, hp] at hs

/-- Running the bytes of a packet. -/
theorem Told.serve (h : Told v₀ (view s) run taken outputs []) (now : Instant)
    (data : List UInt8) : Keeps v₀ (view (serve now data s)) (run ++ data) taken := by
  induction data generalizing s run outputs with
  | nil => exact ⟨run, outputs, [], h.enter .listening, List.append_nil run, rfl⟩
  | cons b data ih =>
    rw [Board.serve, List.append_cons]
    rcases hb : s.rig.reader.feed b with ⟨_ | line, reader⟩
    · exact ih (h.byte hb)
    · have hline := h.line hb
      dsimp only
      split
      · exact ⟨run ++ [b], outputs, [.reply (s.hub.execute 0 line).reply], hline.enter _, rfl, _,
          rfl, rfl⟩
      · refine @ih _ (outputs ++ [.reply (s.hub.execute 0 line).reply]) _ ?_
        rw [view_emit]
        exact hline.send

/-- Printing the summary. -/
theorem Keeps.printSummary (h : Keeps v₀ (view s) read taken) (hs : isSending s = false)
    (now : Instant) : Keeps v₀ (view (printSummary now s)) read taken := by
  obtain ⟨run, outputs, waiting, htold, hrests⟩ := h
  obtain ⟨rfl, rfl⟩ := hrests.of_not_sending hs
  unfold Board.printSummary
  split
  · exact ⟨read, outputs, [], htold, hrests⟩
  · rename_i x hx
    have htake := htold.take hx
    dsimp only
    split
    · exact ⟨read, outputs, [.summary x], htake.enter _, (List.append_nil read).symm, _, rfl, rfl⟩
    · refine ⟨read, outputs ++ [.summary x], [], ?_, rests_of_not_sending hs⟩
      rw [view_emit]
      exact htake.send

/-! ### The host's end -/

theorem host_serve (now : Instant) (data : List UInt8) (s : Shared Rig) :
    (serve now data s).rig.host = s.rig.host := by
  induction data generalizing s with
  | nil => rfl
  | cons b data ih =>
    rw [serve]
    rcases s.rig.reader.feed b with ⟨_ | line, reader⟩
    · exact ih _
    · dsimp only
      split
      · rfl
      · exact ih _

theorem host_printSummary (now : Instant) (s : Shared Rig) :
    (printSummary now s).rig.host = s.rig.host := by
  unfold printSummary
  split
  · rfl
  · dsimp only
    split <;> rfl

/-- The session goes on.  What the host has sent is read or waits in packets that the buffer has
room for, and what is read is accounted for. -/
structure InSession (v₀ : ConsoleView) (sent : List UInt8) (taken : List Summary)
    (s : Shared Rig) : Prop where
  /-- The host is there. -/
  connected : s.rig.host.connected = true
  /-- Its packets fit the buffer. -/
  fits : ∀ p ∈ s.rig.host.packets, p.length ≤ maxPacket
  /-- Nothing that it has sent is lost. -/
  keeps : ∃ read, sent = read ++ s.rig.host.packets.flatten ∧ Keeps v₀ (view s) read taken

variable {sent : List UInt8}

/-- The board when `packets` are left to read. -/
def leaving (packets : List (List UInt8)) (s : Shared Rig) : Shared Rig :=
  { s with rig := { s.rig with host := { s.rig.host with packets } } }

/-- The lines of the next packet. -/
theorem InSession.serve {p : List UInt8} {packets : List (List UInt8)}
    (h : InSession v₀ sent taken s) (hs : isSending s = false)
    (hp : s.rig.host.packets = p :: packets) (now : Instant) :
    InSession v₀ sent taken (serve now p (leaving packets s)) := by
  obtain ⟨read, hsent, run, outputs, waiting, htold, hrests⟩ := h.keeps
  obtain ⟨rfl, rfl⟩ := hrests.of_not_sending hs
  have hfits := h.fits
  have hhost := host_serve now p (leaving packets s)
  have htold' : Told v₀ (view (leaving packets s)) read taken outputs [] := htold
  rw [hp] at hsent hfits
  refine ⟨?_, ?_, read ++ p, ?_, htold'.serve now p⟩
  · rw [hhost]
    exact h.connected
  · rw [hhost]
    exact fun q hq => hfits q (List.mem_cons_of_mem _ hq)
  · rw [hhost, hsent, List.flatten_cons, List.append_assoc]
    rfl

theorem InSession.listen {packets : List (List UInt8)} (h : InSession v₀ sent taken s)
    (hs : isSending s = false) (hp : s.rig.host.packets = packets) (now : Instant) :
    InSession v₀ sent taken (listen now packets s) := by
  induction packets generalizing s with
  | nil =>
    obtain ⟨hconnected, hfits, read, hsent, hkeeps⟩ := h
    have hhost := host_printSummary now s
    rw [← hhost] at hconnected hfits hsent
    exact ⟨hconnected, hfits, read, hsent, hkeeps.printSummary hs now⟩
  | cons p packets ih =>
    have hfit : p.length ≤ maxPacket := h.fits p (hp ▸ List.mem_cons_self)
    have hserved := h.serve hs hp now
    rw [Board.listen, if_neg (Nat.not_lt.2 hfit)]
    dsimp only
    split
    · exact hserved
    · rename_i hnot
      refine ih hserved (Bool.eq_false_of_not_eq_true hnot) ?_
      rw [host_serve]

/-- The message that waited is sent, and the rest of its packet is run. -/
theorem InSession.resume {packets : List String} {rest : List UInt8}
    (h : InSession v₀ sent taken s) (hphase : s.rig.phase = .sending packets rest) (now : Instant) :
    InSession v₀ sent taken (Board.serve now rest (emit now packets s)) := by
  obtain ⟨hconnected, hfits, read, hsent, run, outputs, waiting, htold, hrests⟩ := h
  change match s.rig.phase with
    | .sending packets rest =>
      read = run ++ rest ∧ ∃ o : Output, waiting = [o] ∧ packets = packetsOf o.text
    | _ => read = run ∧ waiting = [] at hrests
  rw [hphase] at hrests
  obtain ⟨rfl, o, rfl, rfl⟩ := hrests
  have hhost : (Board.serve now rest (emit now (packetsOf o.text) s)).rig.host = s.rig.host :=
    host_serve now rest _
  have hsend : Told v₀ (view (emit now (packetsOf o.text) s)) run taken (outputs ++ [o]) [] := by
    rw [view_emit]
    exact htold.send
  rw [← hhost] at hsent hfits hconnected
  exact ⟨hconnected, hfits, run ++ rest, hsent, hsend.serve now rest⟩

/-- The console task runs until it waits. -/
theorem InSession.runConsole (h : InSession v₀ sent taken s) (now : Instant) :
    InSession v₀ sent taken (runConsole now s) := by
  unfold Board.runConsole
  split
  · rename_i hphase
    rw [if_pos h.connected]
    obtain ⟨hconnected, hfits, read, hsent, run, outputs, waiting, htold, hrests⟩ := h
    obtain ⟨rfl, rfl⟩ := hrests.of_not_sending (by rw [isSending, hphase])
    refine InSession.listen (s := (enter .listening s).note [.consoleConnected]) ?_ rfl rfl now
    exact ⟨hconnected, hfits, read, hsent, read, outputs, [], htold.enter .listening, rfl, rfl⟩
  · rename_i hphase
    rw [if_pos h.connected]
    exact h.listen (by rw [isSending, hphase]) rfl now
  · rename_i packets rest hphase
    rw [h.connected]
    dsimp only
    split
    · rename_i hno
      cases hno
    · split
      · exact h
      · have hresumed := h.resume hphase now
        split
        · exact hresumed
        · rename_i hnot
          exact hresumed.listen (Bool.eq_false_of_not_eq_true hnot) rfl now

/-- Something that the console task sees only by what the host has sent. -/
theorem InSession.beside (h : InSession v₀ sent taken s) (s' : Shared Rig)
    (packets : List (List UInt8)) (hview : view s' = view s)
    (hconnected : s'.rig.host.connected = s.rig.host.connected)
    (hpackets : s'.rig.host.packets = s.rig.host.packets ++ packets)
    (hfits : ∀ p ∈ packets, p.length ≤ maxPacket) :
    InSession v₀ (sent ++ packets.flatten) taken s' := by
  obtain ⟨read, hsent, hkeeps⟩ := h.keeps
  rw [← hview] at hkeeps
  refine ⟨hconnected.trans h.connected, ?_, read, ?_, hkeeps⟩
  · rw [hpackets]
    exact List.forall_mem_append.2 ⟨h.fits, hfits⟩
  · rw [hpackets, hsent, List.flatten_append, List.append_assoc]

theorem InSession.offer (h : InSession v₀ sent taken s) (x : Summary) :
    InSession v₀ sent (taken ++ ((Move.summary x).accepted? s).toList) (offer x s) := by
  cases hp : s.rig.pending with
  | some y =>
    have hsame : Board.offer x s = s := by rw [Board.offer, hp]
    rw [hsame, Move.accepted?, hp]
    simpa using h
  | none =>
    obtain ⟨hconnected, hfits, read, hsent, run, outputs, waiting, htold, hrests⟩ := h
    have hput : Board.offer x s = { s with rig := { s.rig with pending := some x } } := by
      rw [Board.offer, hp]
    rw [hput, Move.accepted?, hp]
    exact ⟨hconnected, hfits, read, hsent, run, outputs, waiting, htold.offer hp x, hrests⟩

/-- One move. -/
theorem InSession.move (h : InSession v₀ sent taken s) (m : Move) :
    InSession v₀ (sent ++ m.bytes) (taken ++ (m.accepted? s).toList) (m.run s) := by
  have hnone : ∀ {sent s}, InSession v₀ sent taken s → InSession v₀ sent (taken ++ []) s := by
    intro sent s h
    rwa [List.append_nil]
  cases m with
  | packet data fits =>
    have hlink : (deliver (.packet data) s).rig.host =
        { s.rig.host with packets := s.rig.host.packets ++ [data] } := by
      change s.rig.host.arrive data = _
      rw [HostLink.arrive, if_pos h.connected]
    have hbeside := h.beside (deliver (.packet data) s) [data] rfl
      (by rw [hlink]) (by rw [hlink]) (by simpa using fits)
    rw [List.flatten_singleton] at hbeside
    exact hnone hbeside
  | stall =>
    exact hnone (h.beside (deliver (.host .stall) s) [] rfl rfl (List.append_nil _).symm nofun)
  | resume =>
    exact hnone (h.beside (deliver (.host .resume) s) [] rfl rfl (List.append_nil _).symm nofun)
  | summary x =>
    have hoffer := h.offer x
    rw [← List.append_nil sent] at hoffer
    exact hoffer
  | serve now =>
    have hserved := h.runConsole now
    rw [← List.append_nil sent] at hserved
    exact hnone hserved
  | aside change apart =>
    obtain ⟨hview, hhost⟩ := apart s
    exact hnone (h.beside (change s) [] hview (by rw [hhost])
      (by rw [hhost, List.append_nil]) nofun)

/-- A whole session. -/
theorem InSession.moves (h : InSession v₀ sent taken s) (moves : List Move) :
    InSession v₀ (sent ++ stream moves) (taken ++ accepted s moves) (runAll s moves) := by
  induction moves generalizing s sent taken with
  | nil => simpa [stream, accepted, runAll] using h
  | cons m moves ih =>
    have hrest := ih (h.move m)
    rw [List.append_assoc, List.append_assoc] at hrest
    exact hrest

/-! ### When the host takes packets -/

/-- There is nothing left to do. -/
structure Served (s : Shared Rig) : Prop where
  /-- No message waits. -/
  sent : isSending s = false
  /-- No packet waits. -/
  read : s.rig.host.packets = []
  /-- No summary waits. -/
  empty : s.rig.pending = none

theorem isSending_serve (h : s.rig.host.stalled = false) (now : Instant) (data : List UInt8) :
    isSending (serve now data s) = false := by
  induction data generalizing s with
  | nil => rfl
  | cons b data ih =>
    rw [serve]
    rcases s.rig.reader.feed b with ⟨_ | line, reader⟩
    · exact ih h
    · dsimp only
      rw [if_neg (by simp [Shared.note, h])]
      exact ih h

theorem served_printSummary (h : s.rig.host.stalled = false) (hs : isSending s = false)
    (hp : s.rig.host.packets = []) (now : Instant) : Served (printSummary now s) := by
  unfold printSummary
  split
  · rename_i hnone
    exact ⟨hs, hp, hnone⟩
  · dsimp only
    rw [if_neg (by simp [h])]
    exact ⟨hs, hp, rfl⟩

theorem served_listen {packets : List (List UInt8)} (h : s.rig.host.stalled = false)
    (hs : isSending s = false) (hp : s.rig.host.packets = packets) (now : Instant) :
    Served (listen now packets s) := by
  induction packets generalizing s with
  | nil => exact served_printSummary h hs hp now
  | cons p packets ih =>
    rw [listen]
    dsimp only
    split
    · exact ih h hs rfl
    · have hnot : isSending (serve now p (leaving packets s)) = false :=
        isSending_serve (s := leaving packets s) h now p
      change Served (if isSending (serve now p (leaving packets s)) = true then _ else _)
      rw [hnot, if_neg Bool.false_ne_true]
      refine ih ?_ hnot ?_
      · rw [host_serve]
        exact h
      · rw [host_serve]

theorem served_runConsole (hconnected : s.rig.host.connected = true)
    (h : s.rig.host.stalled = false) (now : Instant) : Served (runConsole now s) := by
  unfold runConsole
  split
  · rw [if_pos hconnected]
    exact served_listen (s := (enter .listening s).note [.consoleConnected]) h rfl rfl now
  · rename_i hphase
    rw [if_pos hconnected]
    exact served_listen h (by rw [isSending, hphase]) rfl now
  · rename_i packets rest hphase
    have hnot : isSending (serve now rest (emit now packets s)) = false :=
      isSending_serve (s := emit now packets s) h now rest
    rw [hconnected, h]
    change Served (if isSending (serve now rest (emit now packets s)) = true then _ else _)
    rw [hnot, if_neg Bool.false_ne_true]
    refine served_listen ?_ hnot rfl now
    rw [host_serve]
    exact h

/-! ### The session -/

/-- A session begins: the host is there, nothing of it is read and no line is in progress. -/
structure Opens (s : Shared Rig) : Prop where
  /-- The host has opened the console. -/
  connected : s.rig.host.connected = true
  /-- It has sent nothing. -/
  silent : s.rig.host.packets = []
  /-- No line is in progress. -/
  fresh : s.rig.reader = {}
  /-- The task has nothing to send. -/
  free : isSending s = false

theorem Opens.inSession (h : Opens s) : InSession (view s) [] s.rig.pending.toList s := by
  refine ⟨h.connected, ?_, [], ?_, [], [], [], ⟨?_, rfl, h.fresh, rfl⟩, rests_of_not_sending h.free⟩
  · rw [h.silent]
    exact nofun
  · rw [h.silent]
    rfl
  · exact (List.append_nil _).symm

/-- **The output of a session.**  Whatever the host sends, in whatever packets, and whenever
summaries are handed over: the host has got whole messages.  The replies among them and in the
message that waits are those to the lines of the bytes run so far, one after the other, and the
summaries are those that have come into the channel, each once and in their order.  A reply says what
is wrong with its line or shows a snapshot, and a summary is a line with its numbers.  When the task
has run and the host takes packets, everything that was sent is run, and nothing waits. -/
theorem session_output (h : Opens s) (moves : List Move) :
    ∃ (outputs waiting : List Output) (run unread : List UInt8),
      stream moves = run ++ unread ∧
      printed (runAll s moves) = printed s ++ packetsOfAll outputs ∧
      ((packetsOfAll outputs).flatMap String.toList = outputs.flatMap (·.text.toList) ∧
        (∀ text ∈ replies (outputs ++ waiting),
          (∃ e : LineError, e.Says text) ∨ ∃ sn : Snapshot, sn.Shows text) ∧
        ∀ x, (Output.summary x).text =
          "[VIS] #" ++ toString x.count.toNat ++ " " ++ toString x.width.toNat ++ "x" ++
            toString x.height.toNat ++ " luma=" ++ toString x.mean.toNat ++ "\r\n") ∧
      (replies (outputs ++ waiting), (runAll s moves).hub) =
        s.hub.answers (LineReader.lines run) ∧
      summaries (outputs ++ waiting) ++ (runAll s moves).rig.pending.toList =
        s.rig.pending.toList ++ accepted s moves ∧
      waiting.length ≤ 1 ∧
      ∀ earlier now, moves = earlier ++ [.serve now] →
        (runAll s earlier).rig.host.stalled = false →
        waiting = [] ∧ unread = [] ∧ (runAll s moves).rig.pending = none := by
  obtain ⟨read, hsent, run, outputs, waiting, htold, hrests⟩ := (h.inSession.moves moves).keeps
  rw [List.nil_append] at hsent
  obtain ⟨rest, hread, hwaiting⟩ := hrests.exists_rest
  have hreplies : replies (outputs ++ waiting) = (s.hub.answers (LineReader.lines run)).1 :=
    congrArg Prod.fst htold.answers_eq
  refine ⟨outputs, waiting, run, rest ++ (runAll s moves).rig.host.packets.flatten, ?_,
    htold.printed_eq, ⟨flatMap_packetsOfAll outputs, ?_, Summary.line_eq⟩, htold.answers_eq,
    htold.summaries_eq, hwaiting, ?_⟩
  · rw [hsent, hread, List.append_assoc]
  · rw [hreplies]
    exact s.hub.says_or_shows_of_mem_answers (LineReader.lines run)
  · rintro earlier now rfl htakes
    have hserved : Served (runAll s (earlier ++ [.serve now])) := by
      rw [runAll, List.foldl_append]
      exact served_runConsole (h.inSession.moves earlier).connected htakes now
    obtain ⟨hrun, hnothing⟩ := hrests.of_not_sending hserved.sent
    rw [hrun, List.self_eq_append_right] at hread
    exact ⟨hnothing, by rw [hread, hserved.read]; rfl, hserved.empty⟩

/-- The line "sync 5" in two packets, and a summary in between. -/
theorem output_of_split_line :
    let s : Shared Rig := { rig := { host := { connected := true } } }
    let moves : List Move := [.packet [115, 121] (by decide), .summary ⟨1, 160, 120, 7⟩, .serve 0,
      .packet [110, 99, 32, 53, 13] (by decide), .serve 1000]
    ∃ outputs, printed (runAll s moves) = packetsOfAll outputs ∧
      replies outputs = (s.hub.answers [.ok ['s', 'y', 'n', 'c', ' ', '5']]).1 ∧
      summaries outputs = [⟨1, 160, 120, 7⟩] := by
  intro s moves
  obtain ⟨outputs, waiting, run, unread, hstream, hprinted, -, hanswers, hsummaries, -, hserved⟩ :=
    session_output (s := s) ⟨rfl, rfl, rfl, rfl⟩ moves
  have htakes : (runAll s moves.dropLast).rig.host.stalled = false := by decide +kernel
  obtain ⟨rfl, rfl, hpending⟩ := hserved moves.dropLast 1000 rfl htakes
  have hlines : LineReader.lines (stream moves) = [.ok ['s', 'y', 'n', 'c', ' ', '5']] := by
    decide +kernel
  have htaken : s.rig.pending.toList ++ accepted s moves = [⟨1, 160, 120, 7⟩] := rfl
  rw [List.append_nil] at hstream hanswers hsummaries
  rw [← hstream, hlines] at hanswers
  rw [hpending, htaken] at hsummaries
  refine ⟨outputs, hprinted, congrArg Prod.fst hanswers, ?_⟩
  rw [← hsummaries]
  exact (List.append_nil _).symm

end Board

end OnboardVision
