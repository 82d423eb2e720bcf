/-
# The logarithm of a double

`Double.logarithm` brings a magnitude into the form `2 ^ k · z` with `z` near one, looks up which
of 128 pieces `z` falls into, and adds up

  `k · ln 2 + ln c + ln (z / c)`,

where `1 / c` has 8 bits and is near `1 / z` all over the piece.  Then `z / c - 1` is below `1/128`
and free of error, and a short polynomial gives the logarithm of the last factor.  The result is a
pair whose relative error is below `2⁻⁶⁷`.

The logarithms of two and of the `c` are worked out in fixed point by `lnRatio`.
-/

import GuildRating.Double.Unbounded

namespace GuildRating
namespace Double

open Unbounded

/-- The sum `z + z³/3 + z⁵/5 + …` in fixed point: `power` is the odd power reached, `odd` its
exponent, `square` the square of `z`. -/
def oddSeries (square : Nat) : (power odd terms : Nat) → Nat
  | _, _, 0 => 0
  | power, odd, terms + 1 =>
    power / odd + oddSeries square ((power * square) >>> places) (odd + 2) terms

/-- The logarithm of `num / den` for `den ≤ num ≤ 2 · den`, in fixed point: twice the inverse
hyperbolic tangent of `(num - den) / (num + den)`, which is at most a third. -/
def lnRatio (num den : Nat) : Nat :=
  let z := ((num - den) <<< places) / (num + den)
  2 * oddSeries ((z * z) >>> places) z 1 110

/-- The logarithm of two in fixed point. -/
def lnTwo : Nat := lnRatio 2 1

/-- The logarithm of two. -/
def lnTwoPair : Pair := .ofFixed lnTwo

namespace Piece

/-- The bits behind the point of the number between one and two whose half is the lower end of the
first piece. -/
def firstFraction : Nat := 0x6955500000000

/-- The lower end of piece `i`, as a number of steps of `2⁻⁵³`.  A piece is `2⁴⁵` doubles wide, so
its width doubles at one. -/
def lower (i : Nat) : Nat :=
  let fraction := firstFraction + i * Nat.pow 2 45
  if fraction < Nat.pow 2 52 then Nat.pow 2 52 + fraction else 2 * fraction

/-- The reciprocal of the middle of piece `i` to 8 bits, in parts of `1/256`. -/
def reciprocal (i : Nat) : Nat :=
  let twice := lower i + lower (i + 1)
  if twice < Nat.pow 2 54 then 2 * roundDiv (Nat.pow 2 61) twice
  else roundDiv (Nat.pow 2 62) twice

/-- The logarithm of the `c` of piece `i`. -/
def logarithm (i : Nat) : Pair :=
  let parts := reciprocal i
  .ofFixed (if 256 < parts then -(lnRatio parts 256 : Int) else lnRatio 256 parts)

end Piece

/-- The quotient of `ln (1 + r) - r + r² / 2` by `-r³ / 2`, for a small `r`; `square` is `-r² / 2`.
The coefficients are those of the series, `-2/3`, `1/2`, `4/5`, `-2/3`, `-8/7` and `1`, moved by so
much that the error stays small all over a piece. -/
def lnRest (r square : Int) : Int :=
  let first := mulAdd (constant 0x10000000000006 53) r (constant (-0x15555555555560) 53)
  let second := mulAdd (constant (-0x1555555529a47a) 53) r (constant 0x1999999959554e 53)
  let third := mulAdd (constant 0x10002b8b263fc3 52) r (constant (-0x12495b9b4845e9) 52)
  mulAdd square (mulAdd third square second) first

/-- The logarithm of `2 ^ k · z`, with `z` in piece `i`.  The large terms are added first, and what
each sum loses is kept for the tail. -/
def pieceLogarithm (k : Int) (i : Nat) (z : Int) : Pair :=
  let c := Piece.logarithm i
  let r := mulAdd z (constant (Piece.reciprocal i) 8) (-one)
  let whole := mulAdd (k * unitsPerOne) lnTwoPair.head c.head
  let linear := add whole r
  let minusHalf := mul (-one / 2) r
  let square := mul r minusHalf
  let quadratic := add linear square
  let lost :=
    add (add (add (mulAdd (k * unitsPerOne) lnTwoPair.tail c.tail) (add (add whole (-linear)) r))
      (mulAdd minusHalf r (-square))) (add (add linear (-quadratic)) square)
  let tail := mulAdd (mul r square) (lnRest r square) lost
  let head := add quadratic tail
  ⟨head, add (add quadratic (-head)) tail⟩

/-- The logarithm of a positive magnitude. -/
def logarithm (units : Nat) : Pair :=
  let top := units.log2
  let fraction := (units <<< 52) >>> top - Nat.pow 2 52
  let half : Nat := if Piece.firstFraction ≤ fraction then 1 else 0
  let i := (fraction + Nat.pow 2 52 - Piece.firstFraction) % Nat.pow 2 52 / Nat.pow 2 45
  pieceLogarithm ((top : Int) - 1074 + half) i (constant (Nat.pow 2 52 + fraction) (52 + half))

end Double
end GuildRating
