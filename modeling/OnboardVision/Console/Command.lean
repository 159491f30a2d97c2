import OnboardVision.Console.Words
import OnboardVision.Settings.Basic
import OnboardVision.Single.Decimal

/-!
# Console commands

A command is a keyword and its arguments, separated by white space:

* `rate <hz>` sets the frame rate,
* `size <w> <h>` sets the frame size,
* `sync <ms>` sets how long the start waits for telemetry,
* `show` changes nothing.

`Command.read` reads a line.  Arguments are examined from left to right and what follows the last
one is ignored.
-/

namespace OnboardVision

/-- A console command. -/
inductive Command where
  /-- Set the frame rate. -/
  | rate (hz : Single)
  /-- Set the frame size. -/
  | size (width height : UInt16)
  /-- Set the telemetry wait. -/
  | sync (ms : UInt32)
  /-- Only reply. -/
  | report
  deriving DecidableEq, Repr

/-- Why a line is no command. -/
inductive LineError where
  /-- There is no word in it. -/
  | empty
  /-- The first word is no keyword. -/
  | unknown
  /-- There are too few words. -/
  | missingArgument
  /-- An argument is no numeral of its kind. -/
  | invalidArgument
  /-- The line does not fit the line buffer, or is not ASCII. -/
  | overflow
  deriving DecidableEq, Repr

/-- The wording of a command error. -/
def LineError.message : LineError → String
  | .empty => "empty line"
  | .unknown => "unknown command"
  | .missingArgument => "missing argument"
  | .invalidArgument => "invalid argument"
  | .overflow => "line too long"

/-- The keywords. -/
inductive Keyword where
  | rate | size | sync | report
  deriving DecidableEq, Repr

/-- The spelling of a keyword. -/
def Keyword.spelling : Keyword → List Char
  | .rate => ['r', 'a', 't', 'e']
  | .size => ['s', 'i', 'z', 'e']
  | .sync => ['s', 'y', 'n', 'c']
  | .report => ['s', 'h', 'o', 'w']

/-- The keyword spelled by a word. -/
def Keyword.ofWord? (w : List Char) : Option Keyword :=
  [Keyword.rate, .size, .sync, .report].find? fun k => k.spelling = w

/-- Reads a numeral for a number below `bound`: decimal digits after an optional plus sign. -/
def readNumeral? (bound : Nat) (w : List Char) : Option Nat :=
  let digits := match w with
    | '+' :: ds => ds
    | ds => ds
  if digits.isEmpty || !digits.all Char.isDigit then none
  else
    let n := Single.ofDigits digits
    if n < bound then some n else none

namespace Command

/-- The first of the remaining words, read by `f`. -/
def argument {α : Type} (f : List Char → Option α) :
    List (List Char) → Except LineError (α × List (List Char))
  | [] => .error .missingArgument
  | w :: ws =>
    match f w with
    | some a => .ok (a, ws)
    | none => .error .invalidArgument

/-- A numeral of 16 bits. -/
def word16? (w : List Char) : Option UInt16 := (readNumeral? 0x10000 w).map UInt16.ofNat

/-- A numeral of 32 bits. -/
def word32? (w : List Char) : Option UInt32 := (readNumeral? 0x100000000 w).map UInt32.ofNat

/-- Reads the arguments of a keyword. -/
def readArguments (k : Keyword) (ws : List (List Char)) : Except LineError Command :=
  match k with
  | .rate => do
    let (hz, _) ← argument Single.read? ws
    return .rate hz
  | .size => do
    let (w, ws) ← argument word16? ws
    let (h, _) ← argument word16? ws
    return .size w h
  | .sync => do
    let (ms, _) ← argument word32? ws
    return .sync ms
  | .report => .ok .report

/-- Reads a line. -/
def read (line : List Char) : Except LineError Command :=
  match words line with
  | [] => .error .empty
  | w :: ws =>
    match Keyword.ofWord? w with
    | none => .error .unknown
    | some k => readArguments k ws

/-- What a command does to the settings; `none` if it only asks for a reply. -/
def edit? : Command → Option (Settings → Settings)
  | .rate hz => some fun s => { s with rate := hz }
  | .size w h => some fun s => { s with width := w, height := h }
  | .sync ms => some fun s => { s with syncMs := ms }
  | .report => none

end Command

end OnboardVision
