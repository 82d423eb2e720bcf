/-
# Reading JSON numbers

The digits of a number are read into a 64-bit significand.  A number without point and exponent
that fits stays whole.  Any other is the significand as a double, multiplied or divided by a power
of ten with one rounding each: so a number of up to 15 digits with a small exponent is read
exactly, and a longer one may be off by a bit or two.  Whole digits that no longer fit count as
powers of ten, fractional ones are dropped.
-/

import GuildRating.Decimal.Basic
import GuildRating.Double.Order
import GuildRating.Json.Value

namespace GuildRating
namespace Json
namespace Number

/-- The largest significand. -/
def maxSignificand : Nat := Nat.pow 2 64 - 1

/-- A digit's value. -/
def digitValue (c : Char) : Nat := c.toNat - '0'.toNat

/-- Takes whole digits into the significand; from the first that does not fit, all count as
powers of ten. -/
def takeWhole (significand : Nat) : List Char → Nat × Nat
  | [] => (significand, 0)
  | c :: rest =>
    let next := significand * 10 + digitValue c
    if next ≤ maxSignificand then takeWhole next rest else (significand, rest.length + 1)

/-- Takes fractional digits into the significand up to the first that does not fit, and counts
those taken. -/
def takeFraction (significand : Nat) : List Char → Nat × Nat
  | [] => (significand, 0)
  | c :: rest =>
    let next := significand * 10 + digitValue c
    if next ≤ maxSignificand then
      let (all, taken) := takeFraction next rest
      (all, taken + 1)
    else (significand, 0)

/-- A power of ten as the nearest double. -/
def tenTo (n : Nat) : Double := Decimal.toDouble false ⟨1, n⟩

/-- The product of `x` and a power of ten, by steps of at most `10³⁰⁸`; none if it is too
large. -/
def scale? (x : Double) (exponent : Int) : Option Double :=
  if 0 ≤ exponent then
    if exponent ≤ 308 then
      let scaled := x * tenTo exponent.natAbs
      if scaled.isFinite then some scaled else none
    else if x.isZero then some x
    else none
  else if -308 ≤ exponent then some (x / tenTo exponent.natAbs)
  else if x.isZero then some x
  else scale? (x / tenTo 308) (exponent + 308)
termination_by exponent.natAbs
decreasing_by omega

/-- The number with a significand and a power of ten. -/
def ofParts (negative : Bool) (significand : Nat) (exponent : Int) : Number :=
  match scale? (.ofNat significand) exponent with
  | some x => .double (if negative then -x else x)
  | none => .outOfRange

/-- A number without point and exponent. -/
def ofWhole (negative : Bool) (digits : List Char) : Number :=
  let (significand, dropped) := takeWhole 0 digits
  if 0 < dropped then ofParts negative significand dropped
  else if !negative then .natural significand
  else if significand = 0 || Nat.pow 2 63 < significand then .double (-.ofNat significand)
  else .negative significand

/-- A number with its fraction, which is empty when there is no point, and its exponent. -/
def ofScientific (negative : Bool) (whole fraction : List Char) (exponent : Int) : Number :=
  let (significand, dropped) := takeWhole 0 whole
  let (all, taken) := takeFraction significand fraction
  ofParts negative all ((dropped : Int) - taken + exponent)

/-- The exponent that ends a number, zero when there is none. -/
def exponentEnd? : List Char → Option Int
  | [] => some 0
  | mark :: rest => if mark = 'e' || mark = 'E' then Decimal.exponent? rest else none

/-- The number that takes up all of a text.  A leading zero stands alone, and a point has digits on
both sides. -/
def ofText? (text : List Char) : Option Number :=
  let (minus, unsigned) :=
    match text with
    | '-' :: rest => (true, rest)
    | rest => (false, rest)
  let (whole, tail) := Decimal.splitDigits unsigned
  if whole.isEmpty || (whole.head? = some '0' && 1 < whole.length) then none
  else match tail with
    | [] => some (ofWhole minus whole)
    | '.' :: rest =>
      let (fraction, tail) := Decimal.splitDigits rest
      if fraction.isEmpty then none
      else (exponentEnd? tail).map (ofScientific minus whole fraction)
    | tail => (exponentEnd? tail).map (ofScientific minus whole [])

end Number
end Json
end GuildRating
