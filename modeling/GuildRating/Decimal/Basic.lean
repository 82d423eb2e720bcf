/-
# Decimal numbers

A decimal is a natural number of digits and a power of ten.  `Decimal.toDouble` reads it as the
nearest double: the exact value is one quotient of natural numbers, rounded once.  Far outside
the range of the format the answer is known without the quotient, so that a huge exponent costs
nothing.

`Decimal.ofLiteral` gives a literal of whole and fractional digits its value.  `Double.ofText?`
reads the longer form with a sign and an exponent, and the names of the values that are not
finite.
-/

import GuildRating.Double.Rounding

namespace GuildRating

/-- The number `digits · 10 ^ exponent`. -/
structure Decimal where
  digits : Nat
  exponent : Int
deriving DecidableEq, Repr

namespace Decimal

/-- The double nearest to the decimal, with the given sign. -/
def toDouble (negative : Bool) (x : Decimal) : Double :=
  if x.digits = 0 then .zero negative
  else if 310 ≤ x.exponent then .infinity negative
  else if x.exponent + x.digits.log2 + 1 ≤ -330 then .zero negative
  else if 0 ≤ x.exponent then
    .ofQuotient negative (x.digits * Nat.pow 10 x.exponent.natAbs * Double.unitsPerOne) 1
  else .ofQuotient negative (x.digits * Double.unitsPerOne) (Nat.pow 10 x.exponent.natAbs)

/-- The decimal without zeros at its end. -/
def trim (digits : Nat) (exponent : Int) : Decimal :=
  if h : digits ≠ 0 ∧ digits % 10 = 0 then trim (digits / 10) (exponent + 1)
  else ⟨digits, exponent⟩
termination_by digits
decreasing_by omega

/-! ### Written numbers -/

/-- A run of decimal digits. -/
def splitDigits (text : List Char) : List Char × List Char :=
  (text.takeWhile Char.isDigit, text.dropWhile Char.isDigit)

/-- The decimal with these digits before and after the point. -/
def ofLiteral (whole fraction : List Char) : Decimal :=
  ⟨Nat.ofDigitChars 10 (whole ++ fraction) 0, -(fraction.length : Int)⟩

/-- A whole number with an optional sign that takes up all of the text. -/
def exponent? (text : List Char) : Option Int :=
  let (negative, digits) :=
    match text with
    | '-' :: rest => (true, rest)
    | '+' :: rest => (false, rest)
    | rest => (false, rest)
  if digits.isEmpty || !digits.all Char.isDigit then none
  else
    let size : Int := Nat.ofDigitChars 10 digits 0
    some (if negative then -size else size)

/-- Digits, an optional fraction and an optional exponent; at least one digit must stand before
the exponent. -/
def ofText? (text : List Char) : Option Decimal :=
  let (whole, afterWhole) := splitDigits text
  let (fraction, afterFraction) :=
    match afterWhole with
    | '.' :: rest => splitDigits rest
    | rest => ([], rest)
  let read := ofLiteral whole fraction
  if whole.isEmpty && fraction.isEmpty then none
  else match afterFraction with
    | [] => some read
    | mark :: rest =>
      if mark = 'e' || mark = 'E' then
        (exponent? rest).map fun e => ⟨read.digits, read.exponent + e⟩
      else none

end Decimal

/-- Reads a double: `NaN`, `inf` or a decimal, after an optional sign. -/
def Double.ofText? (text : String) : Option Double :=
  let (negative, magnitude) :=
    match text.toList with
    | '-' :: rest => (true, rest)
    | '+' :: rest => (false, rest)
    | rest => (false, rest)
  if magnitude = "NaN".toList then some .nan
  else if magnitude = "inf".toList then some (.infinity negative)
  else (Decimal.ofText? magnitude).map (Decimal.toDouble negative)

end GuildRating
