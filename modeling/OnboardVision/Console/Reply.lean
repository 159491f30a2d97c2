import OnboardVision.Console.Command
import OnboardVision.Settings.Hub

/-!
# Replies

`Hub.execute` runs one console line: it reads the command, edits the settings if the command says
so, and replies with the snapshot that is then in force, or with what is wrong with the line.  An
edit reaches the snapshot through the hub's listeners before the reply is written, so the reply
shows what the perception loop uses next.
-/

namespace OnboardVision

/-- The end of a line on the console. -/
def lineEnd : String := "\r\n"

/-- The reply that shows a snapshot. -/
def Snapshot.reply (s : Snapshot) : String :=
  "[CFG] " ++ Note.size s.width s.height ++ " @ " ++ s.rate.tenths ++ " Hz, period " ++
    toString s.period.toMillis ++ " ms" ++ lineEnd

/-- The reply to a line that is no command. -/
def LineError.reply (e : LineError) : String := "[ERR] " ++ e.message ++ lineEnd

/-- What running a line leaves behind. -/
structure Executed where
  /-- The text for the operator. -/
  reply : String
  /-- The hub afterwards. -/
  hub : Hub
  /-- What was noted on the way. -/
  notes : List Note
  deriving Repr

namespace Hub

/-- Runs a command; `i` is the index of the snapshot that the reply shows. -/
def perform (h : Hub) (i : Nat) (c : Command) : Executed :=
  match c.edit? with
  | none => ⟨(h.snapshot i).reply, h, []⟩
  | some edit =>
    let (h, notes) := h.update edit
    ⟨(h.snapshot i).reply, h, notes ++ [.settingsEdited]⟩

/-- Runs a line, or what the line reader has against it. -/
def execute (h : Hub) (i : Nat) (line : Except LineError (List Char)) : Executed :=
  match line >>= Command.read with
  | .ok c => h.perform i c
  | .error e => ⟨e.reply, h, []⟩

end Hub

end OnboardVision
