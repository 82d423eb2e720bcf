/-
# Powers of doubles

`Double.pow x y` is `x` raised to the power `y`.  Zeros, infinities, NaN and negative bases
follow fixed rules; otherwise the power of the magnitudes is `exp (y · ln x)`.  The logarithm and
its product with `y` are pairs, so the result is off by little more than half a unit in its last
place: a power that is a double comes out exact, and one that lies half way between two doubles, or
next to that, may become either of them.
-/

import GuildRating.Double.Arithmetic
import GuildRating.Double.Exponential
import GuildRating.Double.Order

namespace GuildRating
namespace Double

open Unbounded

/-- The product of a number and a pair. -/
def timesPair (y : Int) (x : Pair) : Pair :=
  let head := mul y x.head
  ⟨head, mulAdd y x.tail (mulAdd y x.head (-head))⟩

/-- The magnitude is a whole number. -/
def isWhole (units : Nat) : Bool := units % unitsPerOne = 0

/-- The magnitude is an odd whole number. -/
def isOdd (units : Nat) : Bool := isWhole units && (units / unitsPerOne) % 2 = 1

/-- The power `x ^ y`.  The power zero and the powers of one are one, also beside NaN; a
negative base needs a whole exponent, and an odd one makes the result negative. -/
def pow (x y : Double) : Double :=
  if y.isZero || x.equal 1 then 1
  else match x, y with
    | nan, _ => nan
    | _, nan => nan
    | x, infinity shrinks =>
      if x.abs.equal 1 then 1
      else if x.abs.less 1 = shrinks then infinity false
      else zero false
    | infinity s, finite shrinks n _ =>
      if shrinks then zero (s && isOdd n) else infinity (s && isOdd n)
    | finite s m _, finite shrinks n _ =>
      if m = 0 then
        if shrinks then infinity (s && isOdd n) else zero (s && isOdd n)
      else if s && !isWhole n then nan
      else exp (s && isOdd n) (timesPair (signed shrinks n) (logarithm m))

end Double
end GuildRating
