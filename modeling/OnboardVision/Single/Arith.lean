import OnboardVision.Single.Basic

/-!
# Single-precision arithmetic

Every operation is exact arithmetic on natural numbers or integers followed by one rounding,
`Single.ofRatio`, to the nearest number, ties to the even rank.

* `Single.roundHalfEven`: the nearest integer to a quotient;
* `Single.ofRatio`: the nearest number to a non-negative rational;
* `+`, `-`, `*`, `/` with the usual rules for zeros, infinities and NaN;
* `Single.ofInt` and `Single.truncate`, the conversions from and to integers; a conversion to an
  integer drops the fraction, stays within the bounds of its type, and sends NaN to zero.

Numeric literals of type `Single` are the nearest number to the decimal written.
-/

namespace OnboardVision

namespace Single

/-! ### Rounding -/

/-- The integer nearest to `a / b`, an exact half going to the even neighbour. -/
def roundHalfEven (a b : Nat) : Nat :=
  let q := a / b
  let r := a % b
  if 2 * r < b then q
  else if b < 2 * r then q + 1
  else q + q % 2

/-- The rank nearest to `a / b` units, which may be `infRank` or more.  With `s` binary places
between the leading bit of the quotient and the last place of a 24-bit significand, the quotient
is rounded to a multiple of `2ˢ`, and each multiple is one rank. -/
def rankOfRatio (a b : Nat) : Nat :=
  let s := (a / b).log2 - 23
  s * binade + roundHalfEven a (b * twoPow s)

/-- The number nearest to `± a / b`, with `a` and `b` counted in units of `2⁻¹⁴⁹` and one. -/
def ofRatio (neg : Bool) (a b : Nat) : Single :=
  let rank := rankOfRatio a b
  if h : rank < infRank then .finite neg ⟨rank, h⟩ else .inf neg

/-- The number nearest to a whole number of units; `neg` is the sign of a zero. -/
def ofUnits (neg : Bool) (v : Int) : Single :=
  if v = 0 then zero neg else ofRatio (decide (v < 0)) v.natAbs 1

/-! ### Arithmetic -/

/-- The sum.  Opposite numbers and zeros of both signs add up to positive zero. -/
def add : Single → Single → Single
  | .nan, _ => .nan
  | _, .nan => .nan
  | .inf s, .inf t => if s = t then .inf s else .nan
  | .inf s, .finite _ _ => .inf s
  | .finite _ _, .inf t => .inf t
  | .finite s m, .finite t n =>
    ofUnits (s && t) (signed s (magnitude m) + signed t (magnitude n))

/-- The product. -/
def mul : Single → Single → Single
  | .nan, _ => .nan
  | _, .nan => .nan
  | .inf s, .inf t => .inf (s != t)
  | .inf s, .finite t n => if n.val = 0 then .nan else .inf (s != t)
  | .finite s m, .inf t => if m.val = 0 then .nan else .inf (s != t)
  | .finite s m, .finite t n => ofRatio (s != t) (magnitude m * magnitude n) unitsPerOne

/-- The quotient. -/
def div : Single → Single → Single
  | .nan, _ => .nan
  | _, .nan => .nan
  | .inf _, .inf _ => .nan
  | .inf s, .finite t _ => .inf (s != t)
  | .finite s _, .inf t => zero (s != t)
  | .finite s m, .finite t n =>
    if n.val = 0 then if m.val = 0 then .nan else .inf (s != t)
    else ofRatio (s != t) (magnitude m * unitsPerOne) (magnitude n)

instance : Add Single := ⟨add⟩

instance : Sub Single := ⟨fun x y => add x (negate y)⟩

instance : Mul Single := ⟨mul⟩

instance : Div Single := ⟨div⟩

/-! ### Integers and literals -/

/-- The number nearest to a natural number. -/
def ofNat (n : Nat) : Single := ofRatio false (n * unitsPerOne) 1

/-- The number nearest to an integer. -/
def ofInt (i : Int) : Single := ofRatio (decide (i < 0)) (i.natAbs * unitsPerOne) 1

instance (n : Nat) : OfNat Single n := ⟨ofNat n⟩

instance : OfScientific Single where
  ofScientific m negExponent e :=
    if negExponent then ofRatio false (m * unitsPerOne) (tenPow e)
    else ofRatio false (m * tenPow e * unitsPerOne) 1

/-- The integer part, towards zero, moved into `lo..hi`; NaN gives zero. -/
def truncate (lo hi : Int) : Single → Int
  | .nan => 0
  | .inf neg => if neg then lo else hi
  | .finite neg rank => max lo (min hi (signed neg (magnitude rank / unitsPerOne)))

/-- The integer part within the 32-bit signed range. -/
def toInt32 (x : Single) : Int := x.truncate (-0x80000000) 0x7fffffff

/-- The integer part within the 64-bit unsigned range. -/
def toNat64 (x : Single) : Nat := (x.truncate 0 0xffffffffffffffff).toNat

end Single

end OnboardVision
