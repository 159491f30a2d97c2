import OnboardVision.Console.Command

/-!
# Lines out of bytes

`LineReader` cuts a byte stream at line feeds and carriage returns.  A line has at most 64 ASCII
characters: a longer one, or one with any other byte, is reported as an overflow when it ends and
nothing of it is kept.  Blank lines are passed over, which also takes care of the empty line
between a carriage return and a line feed.
-/

namespace OnboardVision

/-- A line in progress. -/
structure LineReader where
  /-- The characters so far. -/
  held : List Char := []
  /-- The line is lost already. -/
  overflowed : Bool := false
  deriving DecidableEq, Repr, Inhabited

namespace LineReader

/-- How many characters a line may have. -/
def capacity : Nat := 64

/-- The bytes that end a line. -/
def isTerminator (b : UInt8) : Bool := b == 10 || b == 13

/-- What the end of the line in progress yields. -/
def finish (r : LineReader) : Option (Except LineError (List Char)) :=
  if r.overflowed then some (.error .overflow)
  else if r.held.all isBlank then none
  else some (.ok r.held)

/-- Takes one byte, and yields the line that it ends, if any. -/
def feed (r : LineReader) (b : UInt8) : Option (Except LineError (List Char)) × LineReader :=
  if isTerminator b then (r.finish, {})
  else if b < 128 ∧ r.held.length < capacity then
    (none, { r with held := r.held ++ [Char.ofNat b.toNat] })
  else (none, { r with overflowed := true })

/-- Takes bytes, and yields the lines that end in them, each with the place of its terminator; the
first byte has place `i`. -/
def feedAll (r : LineReader) (i : Nat) :
    List UInt8 → List (Nat × Except LineError (List Char)) × LineReader
  | [] => ([], r)
  | b :: bs =>
    let (line?, r) := r.feed b
    let (lines, r) := r.feedAll (i + 1) bs
    ((line?.map (i, ·)).toList ++ lines, r)

end LineReader

end OnboardVision
