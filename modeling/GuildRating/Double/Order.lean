/-
# Comparing doubles

Comparisons look at positions on the number line: NaN compares false with everything, itself
included, and the two zeros are equal.  `Double.atMost` is the other order, a total one, which
puts `-0` below `0` and NaN above everything.
-/

import GuildRating.Double.Basic

namespace GuildRating
namespace Double

/-- Whether `x < y` on the number line. -/
def less (x y : Double) : Bool :=
  match x.position, y.position with
  | some a, some b => a < b
  | _, _ => false

/-- Whether `x ≤ y` on the number line. -/
def lessEq (x y : Double) : Bool :=
  match x.position, y.position with
  | some a, some b => a ≤ b
  | _, _ => false

/-- Both values lie at the same place of the number line. -/
def equal (x y : Double) : Bool :=
  match x.position, y.position with
  | some a, some b => a = b
  | _, _ => false

/-- The value lies at zero, whatever its sign. -/
def isZero (x : Double) : Bool := x.equal 0

/-- Zero lies at the origin. -/
theorem position_zero : (0 : Double).position = some 0 := rfl

/-- A value is zero if it lies at the origin. -/
theorem isZero_iff {x : Double} : x.isZero = true ↔ x.position = some 0 := by
  rw [isZero, equal, position_zero]
  cases x.position <;> simp

/-- The larger of two values.  NaN gives way to the other one, and of two equal values the first
is kept. -/
def larger (x y : Double) : Double :=
  if x.isNaN then y else if x.less y then y else x

/-- The smaller of two values, under the same rules. -/
def smaller (x y : Double) : Double :=
  if x.isNaN then y else if y.less x then y else x

/-- The place of a value in the total order, in half units: a negative value comes just below
the positive one at the same position, and NaN comes last.  The one NaN here stands for the positive
NaN of the total order.  A negative NaN, which that order puts below everything and which only a
caller with a player of his own making can pass as a peak, is not modelled. -/
def rank : Double → Int
  | nan => 2 * ceiling + 1
  | infinity negative => if negative then -(2 * ceiling + 1) else 2 * ceiling
  | finite negative units _ => if negative then -(2 * units + 1) else 2 * units

/-- Whether `x` is not above `y` in the total order. -/
def atMost (x y : Double) : Bool := x.rank ≤ y.rank

end Double
end GuildRating
