/-!
# Single-precision numbers

`Single` is the 32-bit binary interchange format with all its NaNs made one value.  A finite
number is a sign and a **rank**: the non-negative finite numbers in ascending order are numbered
`0, 1, 2, …`, so rank `k` is also the number with bit pattern `k`.  Everything here is computed on
natural numbers and integers, so that evaluation and proof see the same function.

* `Single.magnitude`: the value of a rank, counted in units of `2⁻¹⁴⁹`;
* `Single.ofBits`, `Single.bits`: the bit pattern;
* `Single.key`: the place of a number on the extended number line, `none` for NaN; the order
  (`<`, `≤`) and `Single.equals` compare keys, so both zeros are equal and NaN equals nothing.

Lean's own equality on `Single` tells the two zeros apart and makes NaN equal to itself: it is
equality of representations, while `Single.equals` is equality of numbers.
-/

namespace OnboardVision

/-- A single-precision number. -/
inductive Single where
  /-- Not a number. -/
  | nan
  /-- An infinity, `-∞` if `neg`. -/
  | inf (neg : Bool)
  /-- The finite number of the given rank, negated if `neg`. -/
  | finite (neg : Bool) (rank : Fin 0x7f800000)
  deriving DecidableEq, Repr, Inhabited

namespace Single

/-- The rank that would follow the largest finite number: the bit pattern of infinity. -/
abbrev infRank : Nat := 0x7f800000

/-- A power of two. -/
def twoPow (k : Nat) : Nat := Nat.pow 2 k

/-- A power of ten. -/
def tenPow (k : Nat) : Nat := Nat.pow 10 k

/-- How many units of `2⁻¹⁴⁹` make one. -/
def unitsPerOne : Nat := twoPow 149

/-- How many ranks there are between a power of two and the next: `2²³`. -/
abbrev binade : Nat := 0x800000

/-- The value of a rank in units of `2⁻¹⁴⁹`.  In the first two binades ranks are one unit apart;
from there on the spacing doubles with every binade. -/
def magnitude (rank : Nat) : Nat :=
  if rank < 2 * binade then rank
  else (binade + rank % binade) * twoPow (rank / binade - 1)

/-- The zero of a sign. -/
def zero (neg : Bool) : Single := .finite neg ⟨0, by decide⟩

/-- The weight of the sign bit in a bit pattern. -/
abbrev signBit : Nat := 0x80000000

/-- The number with the given bit pattern. -/
def ofBits (b : UInt32) : Single :=
  let neg := decide (signBit ≤ b.toNat)
  let m := b.toNat % signBit
  if h : m < infRank then .finite neg ⟨m, h⟩
  else if m = infRank then .inf neg
  else .nan

/-- The bit pattern of a sign and a rank. -/
def pattern (neg : Bool) (rank : Nat) : UInt32 :=
  UInt32.ofNat ((if neg then signBit else 0) + rank)

/-- The bit pattern of a number; NaN has the quiet pattern without a payload. -/
def bits : Single → UInt32
  | .nan => 0x7fc00000
  | .inf neg => pattern neg infRank
  | .finite neg rank => pattern neg rank

/-- Neither an infinity nor NaN. -/
def isFinite : Single → Bool
  | .finite _ _ => true
  | _ => false

/-- The sign bit; NaN counts as positive. -/
def isNeg : Single → Bool
  | .nan => false
  | .inf neg => neg
  | .finite neg _ => neg

/-- The number with its sign bit set to `neg`. -/
def withSign (neg : Bool) : Single → Single
  | .nan => .nan
  | .inf _ => .inf neg
  | .finite _ rank => .finite neg rank

/-- The number with its sign bit flipped. -/
def negate (x : Single) : Single := x.withSign !x.isNeg

/-- The absolute value. -/
def abs (x : Single) : Single := x.withSign false

instance : Neg Single := ⟨negate⟩

/-! ### Order -/

/-- An integer with the given sign and absolute value. -/
def signed (neg : Bool) (n : Nat) : Int := if neg then -(n : Int) else n

/-- The place on the extended number line: ranks ascending, the infinities outside. -/
def key : Single → Option Int
  | .nan => none
  | .inf neg => some (signed neg infRank)
  | .finite neg rank => some (signed neg rank)

/-- Compares two numbers by `r` on their keys; false if one is NaN. -/
def compareBy (r : Int → Int → Bool) (x y : Single) : Bool :=
  match x.key, y.key with
  | some a, some b => r a b
  | _, _ => false

/-- Equality of numbers. -/
def equals (x y : Single) : Bool := compareBy (fun a b => decide (a = b)) x y

instance : LT Single := ⟨fun x y => compareBy (fun a b => decide (a < b)) x y = true⟩

instance : LE Single := ⟨fun x y => compareBy (fun a b => decide (a ≤ b)) x y = true⟩

instance (x y : Single) : Decidable (x < y) :=
  inferInstanceAs (Decidable (compareBy (fun a b => decide (a < b)) x y = true))

instance (x y : Single) : Decidable (x ≤ y) :=
  inferInstanceAs (Decidable (compareBy (fun a b => decide (a ≤ b)) x y = true))

/-- The smaller of two numbers; if one is NaN, the other. -/
def least (x y : Single) : Single :=
  if x = .nan then y else if y < x then y else x

end Single

end OnboardVision
