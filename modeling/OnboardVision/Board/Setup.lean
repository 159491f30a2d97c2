/-!
# Board setup

The clock tree that the board asks for (`Board.clockTree`) and the identity that it shows on the bus
(`Board.identity`).  Both are handed to the hardware when the board starts, and nothing else reads
them: they stand here as all that a start has to answer for.  The packet size in the identity is the
one that the console session sends and receives with.
-/

namespace OnboardVision

namespace Board

/-- How the external clock is connected. -/
inductive HseMode where
  /-- A crystal. -/
  | oscillator
  /-- A clock signal. -/
  | bypass
  deriving DecidableEq, Repr

/-- What the phase-locked loop is fed with. -/
inductive PllSource where
  /-- The external clock. -/
  | hse
  /-- The internal clock. -/
  | hsi
  deriving DecidableEq, Repr

/-- What the system clock is taken from. -/
inductive SystemSource where
  /-- The external clock. -/
  | hse
  /-- The internal clock. -/
  | hsi
  /-- The main output of the phase-locked loop. -/
  | pll
  deriving DecidableEq, Repr

/-- A clock tree. -/
structure ClockTree where
  /-- The frequency of the external clock in Hz. -/
  hse : Nat
  /-- How the external clock is connected. -/
  hseMode : HseMode
  /-- What the phase-locked loop is fed with. -/
  pllSource : PllSource
  /-- The divider in front of the loop. -/
  prediv : Nat
  /-- The factor of the loop. -/
  factor : Nat
  /-- The divider of the main output. -/
  divP : Nat
  /-- The divider of the peripheral output. -/
  divQ : Nat
  /-- The divider of the third output, if it is used. -/
  divR : Option Nat
  /-- What the system clock is taken from. -/
  system : SystemSource
  /-- The divider of the processor bus. -/
  ahb : Nat
  /-- The divider of the slow peripheral bus. -/
  apb1 : Nat
  /-- The divider of the fast peripheral bus. -/
  apb2 : Nat
  deriving DecidableEq, Repr

/-- The board's clock tree: 168 MHz from an 8 MHz crystal, and 48 MHz for the serial bus. -/
def clockTree : ClockTree :=
  { hse := 8000000, hseMode := .oscillator, pllSource := .hse
    prediv := 4, factor := 168, divP := 2, divQ := 7, divR := none
    system := .pll, ahb := 1, apb1 := 4, apb2 := 2 }

/-- The largest packet on the console in bytes. -/
def maxPacket : Nat := 64

/-- How a device introduces itself. -/
structure Identity where
  /-- The vendor number. -/
  vendor : UInt16
  /-- The product number. -/
  product : UInt16
  /-- The maker. -/
  manufacturer : String
  /-- The name of the product. -/
  productName : String
  /-- The serial number. -/
  serial : String
  /-- The device watches the supply voltage of the bus. -/
  sensesSupply : Bool
  /-- The largest packet in bytes. -/
  maxPacket : Nat
  deriving DecidableEq, Repr

/-- How the board introduces itself. -/
def identity : Identity :=
  { vendor := 0xc0de, product := 0xcafe
    manufacturer := "JHEF Rust", productName := "JHEF405 Vision Console", serial := "12345678"
    sensesSupply := false, maxPacket }

end Board

end OnboardVision
