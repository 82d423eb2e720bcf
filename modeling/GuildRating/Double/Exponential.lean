/-
# Powers of the number e

`Double.Factored.exp` writes the power `e ^ x`, for a pair `x`, as `2 ^ (k / 128) · e ^ r` with a
whole number `k` and `|r|` at most `ln 2 / 256`.  The first factor is a power of two times one of
128 roots, the second comes from a short polynomial.  `Double.exp` rounds their product to a
double.
-/

import GuildRating.Double.Logarithm

namespace GuildRating
namespace Double

open Unbounded

/-- The sum `1 + r + r²/2! + …` in fixed point: `term` is the term reached and `n` the next
divisor. -/
def expSeries (r : Nat) : (term n terms : Nat) → Nat
  | _, _, 0 => 0
  | term, n, terms + 1 => term + expSeries r (((term * r) >>> places) / n) (n + 1) terms

/-- The number `2 ^ (j / 128)` for `j < 128`, as a head of 53 bits and a tail that is relative to
the head. -/
def rootOfTwo (j : Nat) : Pair :=
  let value := ofFixed (expSeries (j * lnTwo / 128) (Nat.pow 2 places) 1 90)
  let head := nearest value 1
  ⟨head, nearest ((value - head) * unitsPerOne) head.natAbs⟩

/-- A positive value in the form `2 ^ twos · (head + head · rest)`, with a head from one to two and
a small rest. -/
structure Factored where
  twos : Int
  head : Int
  rest : Int

namespace Factored

/-- How many steps of `ln 2 / 128` there are to one. -/
def stepsPerOne : Int := nearest (128 * Nat.pow 2 places * unitsPerOne) lnTwo

/-- The size of a step, `ln 2 / 128`. -/
def step : Pair := .ofFixed (lnTwo / 128)

/-- The value `e ^ r - 1 + tail` for a small `r`.  The coefficients are those of the series, `1/2`,
`1/6`, `1/24` and `1/120`, moved by so much that the error stays small wherever `r` lies. -/
def expRest (r tail : Int) : Int :=
  let square := mul r r
  let first := mulAdd (constant 0x1555555555543c 55) r (constant 0x1ffffffffffdbd 54)
  let second := mulAdd (constant 0x11111167a4d017 59) r (constant 0x155555cf172b91 57)
  mulAdd second (mul square square) (mulAdd first square (add r tail))

/-- The power `e ^ x`. -/
def exp (x : Pair) : Factored :=
  let k := nearestWhole (x.head * stepsPerOne) (unitsPerOne * unitsPerOne)
  let near := mulAdd (-k * unitsPerOne) step.head x.head
  let r := add x.tail (mulAdd (-k * unitsPerOne) step.tail near)
  let root := rootOfTwo (k % 128).toNat
  ⟨k / 128, root.head, expRest r root.tail⟩

/-- The double nearest to the value. -/
def toDouble (negative : Bool) (f : Factored) : Double :=
  let total := (f.head * (one + f.rest)).natAbs
  if f.twos < 0 then ofQuotient negative total (unitsPerOne * Nat.pow 2 f.twos.natAbs)
  else ofQuotient negative (total * Nat.pow 2 f.twos.natAbs) unitsPerOne

/-- The double for a value far below one.  It is worked out `2¹⁰²²` times too large.  Where it is
still below one, its last place is that of the numbers from one to two, so one is added to round
it there, together with what the first sum lost. -/
def toSmallDouble (negative : Bool) (f : Factored) : Double :=
  let scale := f.twos + 1022
  let head := if scale < 0 then f.head / Nat.pow 2 scale.natAbs else f.head * Nat.pow 2 scale.natAbs
  let part := mul head f.rest
  let total := add head part
  let rounded :=
    if one ≤ total then total
    else
      let lost := add (add head (-total)) part
      let high := add one total
      let low := add (add (add one (-high)) total) lost
      add low high - one
  ofQuotient negative rounded.natAbs (Nat.pow 2 1022)

end Factored

/-- The power `e ^ x` with the given sign.  Beyond `± 1024` no double is near. -/
def exp (negative : Bool) (x : Pair) : Double :=
  if 1024 * one ≤ x.head then infinity negative
  else if x.head ≤ -1024 * one then zero negative
  else if x.head ≤ -512 * one then (Factored.exp x).toSmallDouble negative
  else (Factored.exp x).toDouble negative

end Double
end GuildRating
