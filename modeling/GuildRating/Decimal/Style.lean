/-
# How a number is written

A `NumberStyle` holds the decisions of one written form of doubles: which numbers are written
positionally, what ends a whole number, how a positive exponent is marked, and which of two
equally near decimals is taken.  `NumberStyle.render` writes a double with the fewest digits that
read back under such a style.
-/

import GuildRating.Decimal.Shortest

namespace GuildRating

/-- How a double is written: which of its shortest decimals, and when with an exponent. -/
structure NumberStyle where
  /-- Which of two equally near shortest decimals is written. -/
  tie : Decimal.Tie
  /-- Whether a number whose first digit stands at this power of ten is written without an
  exponent. -/
  positional : Int → Bool
  /-- What follows a positional number that has no fractional digits. -/
  wholeEnd : String
  /-- What stands before an exponent that is not negative. -/
  exponentMark : String

namespace NumberStyle

/-- Numbers in messages and in rendered formulas: never an exponent, no point in a whole number. -/
def plain : NumberStyle := ⟨.upward, fun _ => true, "", ""⟩

/-- Digits with the point in its place: `point` digits stand before it. -/
def placePoint (wholeEnd : List Char) (digits : List Char) (point : Int) : List Char :=
  if point ≤ 0 then '0' :: '.' :: (List.replicate point.natAbs '0' ++ digits)
  else if point < digits.length then
    digits.take point.toNat ++ '.' :: digits.drop point.toNat
  else digits ++ List.replicate (point.toNat - digits.length) '0' ++ wholeEnd

/-- Digits with the point after the first and an exponent. -/
def scientific (exponentMark : List Char) (digits : List Char) (exponent : Int) : List Char :=
  let mantissa :=
    match digits with
    | first :: second :: rest => first :: '.' :: second :: rest
    | short => short
  mantissa ++ 'e' :: (if exponent < 0 then ['-'] else exponentMark) ++
    Nat.toDigits 10 exponent.natAbs

/-- The text of a magnitude given by its shortest decimal. -/
def renderDecimal (style : NumberStyle) (x : Decimal) : List Char :=
  let digits := Nat.toDigits 10 x.digits
  let first := x.exponent + digits.length - 1
  if style.positional first then placePoint style.wholeEnd.toList digits (first + 1)
  else scientific style.exponentMark.toList digits first

/-- The text of a double. -/
def render (style : NumberStyle) : Double → String
  | .nan => "NaN"
  | .infinity negative => if negative then "-inf" else "inf"
  | .finite negative units _ =>
    let magnitude := style.renderDecimal (Decimal.shortest style.tie units)
    String.ofList (if negative then '-' :: magnitude else magnitude)

end NumberStyle

/-- The text of a double in messages. -/
def Double.text (x : Double) : String := NumberStyle.plain.render x

end GuildRating
