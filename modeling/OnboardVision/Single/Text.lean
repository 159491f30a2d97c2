import OnboardVision.Single.Arith

/-!
# Numbers as text

* `Single.shortest`: the decimal with the fewest digits that reads back as the same number;
* `Single.text`: that decimal written positionally, never with an exponent, and without a point
  if it is an integer;
* `Single.tenths`: the exact value rounded to one place after the point, ties to even.
-/

namespace OnboardVision

namespace Single

/-- The decimal `digits · 10` to the power of `place`. -/
structure Decimal where
  /-- The digits as one number. -/
  digits : Nat
  /-- The weight of the last digit. -/
  place : Int
  deriving DecidableEq, Repr

/-- `n` in decimal, preceded by zeros up to `width` characters. -/
def padded (width n : Nat) : String :=
  let s := toString n
  String.ofList (List.replicate (width - s.length) '0') ++ s

/-- Positional notation. -/
def Decimal.text (d : Decimal) : String :=
  match d.place with
  | .ofNat k => if d.digits = 0 then "0" else toString (d.digits * tenPow k)
  | .negSucc k =>
    let scale := tenPow (k + 1)
    toString (d.digits / scale) ++ "." ++ padded (k + 1) (d.digits % scale)

/-- The multiple of a power of ten that reads back as the number of the given rank, if there is one:
it lies between the halfway points to the two neighbouring ranks, which themselves read back as
the rank that is even.  Of two such multiples the nearer one is taken, the larger one in a tie. -/
def onGrid (rank : Nat) (place : Int) : Option Nat :=
  let num := tenPow place.toNat * unitsPerOne
  let den := tenPow (-place).toNat
  let value := magnitude rank * den
  let below := (magnitude (rank - 1) + magnitude rank) * den
  let above := (magnitude rank + magnitude (rank + 1)) * den
  let inside (c : Nat) : Bool :=
    if rank % 2 = 0 then below ≤ 2 * c * num && 2 * c * num ≤ above
    else below < 2 * c * num && 2 * c * num < above
  let c := value / num
  let low := c ≠ 0 && inside c
  let high := inside (c + 1)
  if low && (!high || 2 * value < (2 * c + 1) * num) then some c
  else if high then some (c + 1)
  else none

/-- The decimal with the fewest digits that reads back as the number of a positive rank: the one
on the coarsest grid that has any. -/
def shortest (rank : Nat) : Decimal :=
  ((List.range 100).findSome? fun (i : Nat) =>
    (onGrid rank (39 - i)).map fun c => ⟨c, 39 - i⟩).getD ⟨0, 0⟩

/-- The text of a number. -/
def text : Single → String
  | .nan => "NaN"
  | .inf neg => (if neg then "-" else "") ++ "inf"
  | .finite neg rank =>
    (if neg then "-" else "") ++ if rank.val = 0 then "0" else (shortest rank).text

/-- The text of a number rounded to tenths. -/
def tenths : Single → String
  | .nan => "NaN"
  | .inf neg => (if neg then "-" else "") ++ "inf"
  | .finite neg rank =>
    let digits := roundHalfEven (magnitude rank * 10) unitsPerOne
    (if neg then "-" else "") ++ (Decimal.mk digits (-1)).text

end Single

end OnboardVision
