import OnboardVision.Single.Arith

/-!
# Reading numbers

`Single.read?` reads a numeral: an optional sign, then `inf`, `infinity` or `nan` in any case, or
decimal digits with at most one point and at least one digit, followed by an optional exponent.
The result is the number nearest to the exact decimal; too large a decimal gives an infinity and
too small a one a zero.
-/

namespace OnboardVision

namespace Single

/-- The value of a digit. -/
def digitValue (c : Char) : Nat := c.toNat - '0'.toNat

/-- The number that a list of digits denotes. -/
def ofDigits (ds : List Char) : Nat := ds.foldl (fun n c => 10 * n + digitValue c) 0

/-- The number nearest to `digits` times ten to the power of `place`.  A decimal of at least `10³⁹`
is beyond the largest number, and one below `10⁻⁴⁶` is nearer to zero than to the smallest,
whatever its digits; so no power larger than its digits require is computed. -/
def ofDecimal (neg : Bool) (digits : List Char) (place : Int) : Single :=
  let significant := digits.dropWhile (· == '0')
  let top := significant.length + place
  if significant.isEmpty || top ≤ -46 then zero neg
  else if 40 ≤ top then .inf neg
  else
    let n := ofDigits significant
    match place with
    | .ofNat k => ofRatio neg (n * tenPow k * unitsPerOne) 1
    | .negSucc k => ofRatio neg (n * unitsPerOne) (tenPow (k + 1))

/-- Splits off a leading sign; the flag tells a minus. -/
def splitSign : List Char → Bool × List Char
  | '-' :: cs => (true, cs)
  | '+' :: cs => (false, cs)
  | cs => (false, cs)

/-- Reads an exponent, which may be missing; nothing may follow it. -/
def readExponent : List Char → Option Int
  | [] => some 0
  | c :: cs =>
    let (neg, ds) := splitSign cs
    if (c == 'e' || c == 'E') && !ds.isEmpty && ds.all Char.isDigit then
      some (signed neg (ofDigits ds))
    else none

/-- Reads digits with at most one point, and an exponent. -/
def readDecimal (neg : Bool) (cs : List Char) : Option Single :=
  let whole := cs.takeWhile Char.isDigit
  let rest := cs.dropWhile Char.isDigit
  let (part, tail) := match rest with
    | '.' :: r => (r.takeWhile Char.isDigit, r.dropWhile Char.isDigit)
    | r => ([], r)
  if whole.isEmpty && part.isEmpty then none
  else (readExponent tail).map fun e => ofDecimal neg (whole ++ part) (e - part.length)

/-- Reads the name of a number that is not finite. -/
def readName (neg : Bool) (cs : List Char) : Option Single :=
  match cs.map Char.toLower with
  | ['i', 'n', 'f'] => some (.inf neg)
  | ['i', 'n', 'f', 'i', 'n', 'i', 't', 'y'] => some (.inf neg)
  | ['n', 'a', 'n'] => some .nan
  | _ => none

/-- The number that a numeral denotes. -/
def read? (cs : List Char) : Option Single :=
  let (neg, body) := splitSign cs
  readDecimal neg body <|> readName neg body

end Single

end OnboardVision
