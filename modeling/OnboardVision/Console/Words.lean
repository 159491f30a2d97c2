/-!
# Words

Console lines are split at white space, by which the Unicode property White_Space is meant.
-/

namespace OnboardVision

/-- The characters with the Unicode property White_Space. -/
def isBlank (c : Char) : Bool :=
  let n := c.toNat
  (0x09 ≤ n && n ≤ 0x0d) || n == 0x20 || n == 0x85 || n == 0xa0 || n == 0x1680 ||
    (0x2000 ≤ n && n ≤ 0x200a) || n == 0x2028 || n == 0x2029 || n == 0x202f || n == 0x205f ||
    n == 0x3000

/-- Puts a character in front of the first word if it touches it, and else makes it a word. -/
def attach (c : Char) (touches : Bool) (ws : List (List Char)) : List (List Char) :=
  match touches, ws with
  | true, w :: ws => (c :: w) :: ws
  | _, ws => [c] :: ws

/-- The maximal runs of characters that are not white space. -/
def words : List Char → List (List Char)
  | [] => []
  | c :: cs =>
    if isBlank c then words cs
    else
      let touches := match cs with
        | [] => false
        | d :: _ => !isBlank d
      attach c touches (words cs)

end OnboardVision
