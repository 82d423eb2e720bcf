/-
# Arithmetic on doubles

Addition, subtraction, multiplication, division, remainder, square root, floor and ceiling.
Each is worked out exactly on units and rounded once; what is not a number, infinite or a zero
is settled case by case, as the binary format lays down.  An exact sum of zero is `-0` only when
both operands are negative.
-/

import GuildRating.Double.Rounding

namespace GuildRating
namespace Double

/-- The same magnitude with the other sign. -/
protected def neg : Double → Double
  | nan => nan
  | infinity negative => infinity (!negative)
  | finite negative units fits => finite (!negative) units fits

instance : Neg Double := ⟨Double.neg⟩

/-- The same magnitude without a sign. -/
def abs : Double → Double
  | nan => nan
  | infinity _ => infinity false
  | finite _ units fits => finite false units fits

/-- Addition.  Infinities of different signs have no sum. -/
protected def add : Double → Double → Double
  | nan, _ => nan
  | _, nan => nan
  | infinity s, infinity t => if s = t then infinity s else nan
  | infinity s, finite .. => infinity s
  | finite .., infinity t => infinity t
  | finite s m _, finite t n _ =>
    let total := signed s m + signed t n
    if total = 0 then zero (s && t) else ofUnits total

instance : Add Double := ⟨Double.add⟩

/-- Subtraction adds the negated value. -/
protected def sub (x y : Double) : Double := x + -y

instance : Sub Double := ⟨Double.sub⟩

/-- Multiplication.  Zero by an infinity has no product. -/
protected def mul : Double → Double → Double
  | nan, _ => nan
  | _, nan => nan
  | infinity s, infinity t => infinity (s != t)
  | infinity s, finite t n _ => if n = 0 then nan else infinity (s != t)
  | finite s m _, infinity t => if m = 0 then nan else infinity (s != t)
  | finite s m _, finite t n _ => ofQuotient (s != t) (m * n) unitsPerOne

instance : Mul Double := ⟨Double.mul⟩

/-- Division.  By zero it is infinite, except that zero by zero, like an infinity by an infinity,
has no quotient. -/
protected def div : Double → Double → Double
  | nan, _ => nan
  | _, nan => nan
  | infinity _, infinity _ => nan
  | infinity s, finite t _ _ => infinity (s != t)
  | finite s _ _, infinity t => zero (s != t)
  | finite s m _, finite t n _ =>
    if n = 0 then (if m = 0 then nan else infinity (s != t))
    else ofQuotient (s != t) (m * unitsPerOne) n

instance : Div Double := ⟨Double.div⟩

/-- The remainder of the division cut off toward zero; it takes the sign of the dividend and is
always exact. -/
protected def mod : Double → Double → Double
  | nan, _ => nan
  | _, nan => nan
  | infinity _, _ => nan
  | finite s m fits, infinity _ => finite s m fits
  | finite s m _, finite _ n _ => if n = 0 then nan else ofQuotient s (m % n) 1

instance : Mod Double := ⟨Double.mod⟩

/-- The greatest natural number whose square is at most `n`, found by Newton's steps down from
`guess`, which must be at least the root. -/
def rootFrom (n guess : Nat) : Nat :=
  let next := (guess + n / guess) / 2
  if next < guess then rootFrom n next else guess
termination_by guess

/-- The natural part of the square root of `n`. -/
def root (n : Nat) : Nat :=
  if n = 0 then 0 else rootFrom n (Nat.pow 2 (n.log2 / 2 + 1))

/-- The square root.  Where the root of the scaled magnitude is no natural number it lies between
two of them, and the half between them rounds the same way. -/
def sqrt : Double → Double
  | nan => nan
  | infinity negative => if negative then nan else infinity false
  | finite negative units fits =>
    if units = 0 then finite negative units fits
    else if negative then nan
    else
      let n := units * unitsPerOne
      let low := root n
      if low * low = n then ofQuotient false low 1
      else ofQuotient false (2 * low + 1) 2

/-- The greatest whole number that is not above the value; the sign stays. -/
def floor : Double → Double
  | nan => nan
  | infinity negative => infinity negative
  | finite negative units _ =>
    let whole := if negative then (units + unitsPerOne - 1) / unitsPerOne else units / unitsPerOne
    ofQuotient negative (whole * unitsPerOne) 1

/-- The least whole number that is not below the value; the sign stays. -/
def ceil : Double → Double
  | nan => nan
  | infinity negative => infinity negative
  | finite negative units _ =>
    let whole := if negative then units / unitsPerOne else (units + unitsPerOne - 1) / unitsPerOne
    ofQuotient negative (whole * unitsPerOne) 1

/-- One half. -/
def half : Double := ofQuotient false (Nat.pow 2 1073) 1

/-- The floor of the value plus one half, the sum being rounded like any other. -/
def round (x : Double) : Double := floor (x + half)

end Double
end GuildRating
