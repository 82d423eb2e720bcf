/-
# Doubles as whole numbers of units

Every finite double is a whole number of *units*, the unit being `2⁻¹⁰⁷⁴`, the least positive
double.  So a finite double is a sign and a natural number, and that number is one of the
magnitudes of the format exactly when its set bits span at most 53 places and it stays below
`2¹⁰²⁴`.  Beside the finite values there are the two infinities and one NaN.

The two zeros are different values here, as they print differently; `Double.position`
forgets the difference and is what comparisons look at.
-/

namespace GuildRating

namespace Double

/-- The number one, in units. -/
def unitsPerOne : Nat := Nat.pow 2 1074

/-- One is made of units. -/
theorem unitsPerOne_pos : 0 < unitsPerOne := by
  unfold unitsPerOne
  generalize 1074 = k
  exact Nat.two_pow_pos k

/-- The first power of two that no finite double reaches, in units. -/
def ceiling : Nat := Nat.pow 2 2098

/-- How many low bits of `n` lie below its 53 highest. -/
def excess (n : Nat) : Nat := n.log2 - 52

/-- Whether `n` units are the magnitude of a finite double: all bits below the 53 highest are
clear and the number stays below the ceiling. -/
def Representable (n : Nat) : Prop := n < ceiling ∧ Nat.pow 2 (excess n) ∣ n

instance (n : Nat) : Decidable (Representable n) := by
  unfold Representable
  infer_instance

/-- Zero is a magnitude of the format. -/
theorem representable_zero : Representable 0 := by decide +kernel

end Double

/-- A double: not a number, an infinity, or a sign and a magnitude in units. -/
inductive Double where
  | nan
  | infinity (negative : Bool)
  | finite (negative : Bool) (units : Nat) (fits : Double.Representable units)
deriving DecidableEq

namespace Double

/-- Zero with the given sign. -/
def zero (negative : Bool) : Double := finite negative 0 representable_zero

instance : Zero Double := ⟨zero false⟩

instance : Inhabited Double := ⟨0⟩

/-- The value is not a number. -/
def isNaN : Double → Bool
  | nan => true
  | _ => false

/-- The value is a number and not infinite. -/
def isFinite : Double → Bool
  | finite .. => true
  | _ => false

/-- The value is one of the infinities. -/
def isInfinite : Double → Bool
  | infinity _ => true
  | _ => false

/-- The sign bit; NaN carries none. -/
def isNegative : Double → Bool
  | nan => false
  | infinity negative => negative
  | finite negative _ _ => negative

/-- A magnitude in units with its sign. -/
def signed (negative : Bool) (units : Nat) : Int := if negative then -(units : Int) else units

/-- Where a value lies on the number line, in units, the infinities at the ceiling.  NaN lies
nowhere, and both zeros lie at `0`. -/
def position : Double → Option Int
  | nan => none
  | infinity negative => some (signed negative ceiling)
  | finite negative units _ => some (signed negative units)

end Double
end GuildRating
