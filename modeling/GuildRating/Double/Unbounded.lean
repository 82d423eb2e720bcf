/-
# Steps of 53 bits without a ceiling

Where a function is worked out in several steps, the values between them are whole numbers of
units with a sign.  Each step is exact and then rounded once to 53 bits, as for doubles, but no
value is too large for the next step: there are neither infinities nor NaN here, and whether the
outcome fits the format is decided once, at the end.

A `Pair` is a value of more than 53 bits, the sum of a head and a far smaller tail.
-/

import GuildRating.Double.Rounding

namespace GuildRating
namespace Double
namespace Unbounded

/-- The number one. -/
def one : Int := unitsPerOne

/-- The quotient `num / den`, rounded to 53 bits. -/
def nearest (num : Int) (den : Nat) : Int := signed (num < 0) (roundUnits num.natAbs den)

/-- The quotient `num / den` rounded to a whole number, from half way to the even one. -/
def nearestWhole (num : Int) (den : Nat) : Int := signed (num < 0) (roundDiv num.natAbs den)

/-- A sum, rounded once. -/
def add (a b : Int) : Int := nearest (a + b) 1

/-- A product, rounded once. -/
def mul (a b : Int) : Int := nearest (a * b) unitsPerOne

/-- The value `a · b + c`, rounded only once. -/
def mulAdd (a b c : Int) : Int := nearest (a * b + c * unitsPerOne) unitsPerOne

/-- A constant, given by its 53 bits as a whole number and the binary places among them. -/
def constant (bits : Int) (places : Nat) : Int := bits * Nat.pow 2 (1074 - places)

/-- The sum of a head and a tail. -/
structure Pair where
  head : Int
  tail : Int

/-- Binary places of the fixed point in which constants are worked out. -/
def places : Nat := 320

/-- A value in fixed point, in units. -/
def ofFixed (value : Int) : Int := value * Nat.pow 2 (1074 - places)

/-- A value in fixed point as a head of 43 binary places and a tail of 53 bits.  So short a head
leaves room for a factor: its products with numbers up to a thousand are exact. -/
def Pair.ofFixed (value : Int) : Pair :=
  let spacing := Nat.pow 2 (places - 43)
  let head := nearestWhole value spacing * spacing
  ⟨Unbounded.ofFixed head, nearest (Unbounded.ofFixed (value - head)) 1⟩

end Unbounded
end Double
end GuildRating
