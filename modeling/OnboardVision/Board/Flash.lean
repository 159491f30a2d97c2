import OnboardVision.Settings.Modules

/-!
# Flash

The module table stands at the start of the last sector of flash.  Erased flash reads as `0xFF`.
A table that cannot be read counts as one with every module off.
-/

namespace OnboardVision

/-- The contents of flash. -/
structure Flash where
  /-- What was written over erased flash, oldest first: where it starts, and its bytes. -/
  written : List (Nat × List UInt8) := []
  /-- Every read fails. -/
  broken : Bool := false
  deriving DecidableEq, Repr, Inhabited

namespace Flash

/-- A byte of erased flash. -/
def erased : UInt8 := 0xFF

/-- The byte that a write put at an address. -/
def byteOf (w : Nat × List UInt8) (address : Nat) : Option UInt8 :=
  if w.1 ≤ address then w.2[address - w.1]? else none

/-- The byte at an address: the last one written there. -/
def byteAt (f : Flash) (address : Nat) : UInt8 :=
  (f.written.reverse.findSome? (byteOf · address)).getD erased

/-- Reads bytes. -/
def read? (f : Flash) (address count : Nat) : Option (List UInt8) :=
  if f.broken then none else some ((List.range count).map fun i => f.byteAt (address + i))

/-- Where the module table stands. -/
def tableAddress : Nat := 0xE0000

/-- The module table. -/
def modules (f : Flash) : ModuleTable × List Note :=
  match f.read? tableAddress ModuleTable.size with
  | some raw => (.ofBytes raw, [])
  | none => (.allOff, [.modulesUnreadable])

end Flash

end OnboardVision
